import JoinOrder.CostModel
/-!
# The journal of a search

Everything a search does with the world outside is one entry of its journal, in order: each estimate
asked of the cost model with the answer, each look at the budget, and the three events a tracer sees.
A plan is *scored* when the cost of a complete ordering is accepted, and *improves* when it becomes
the best plan so far; a strategy that ends of itself or for lack of time has *stopped*, while one that
fails has not.
-/

namespace JoinOrder

/-- The strategies of a search. -/
inductive StrategyId where
  | trivial
  | graphGreedy
  | exhaustive
  | bruteForceGreedy
  | genetic
  deriving DecidableEq, Repr, Inhabited

namespace StrategyId

/-- All strategies. -/
def all : List StrategyId := [trivial, graphGreedy, exhaustive, bruteForceGreedy, genetic]

/-- The name of a strategy. -/
def name : StrategyId → String
  | trivial => "Trivial"
  | graphGreedy => "GraphGreedy"
  | exhaustive => "Exhaustive"
  | bruteForceGreedy => "BruteForceGreedy"
  | genetic => "Genetic"

/-- The full name of a strategy. -/
def fullName (id : StrategyId) : String := id.name ++ "Strategy"

/-- The strategy of a name. -/
def ofName? (name : String) : Option StrategyId := all.find? fun id => id.name = name

end StrategyId

/-- How much a message matters. -/
inductive LogLevel where
  | trace
  | debug
  deriving DecidableEq, Repr

namespace LogLevel

/-- The name of a level. -/
def name : LogLevel → String
  | trace => "TRACE"
  | debug => "DEBUG"

end LogLevel

/-- One thing a search did. -/
inductive Entry where
  /-- The cost model was shown an order and gave an answer, which the search may still refuse. -/
  | asked (order : List Nat) (answer : Except SearchError Estimate)
  /-- The budget was looked at before an iteration. -/
  | polled (iteration : Nat) (stop : Bool)
  /-- A complete ordering was scored. -/
  | scored (strategy : StrategyId) (order : List Nat) (e : Estimate)
  /-- The ordering just scored became the best plan. -/
  | improved (strategy : StrategyId) (order : List Nat) (cost : Cost)
  /-- A strategy came to its end, or to the end of its time. -/
  | stopped (strategy : StrategyId) (iterations : Nat) (outOfTime : Bool)
  deriving Inhabited

namespace Entry

/-- The order of an estimate asked. -/
def askedOrder? : Entry → Option (List Nat)
  | asked order _ => some order
  | _ => none

/-- The cost model was asked and did not fail. -/
def isAnswer : Entry → Bool
  | asked _ (.ok _) => true
  | _ => false

/-- The text of an order. -/
def orderText (order : List Nat) : String :=
  "[" ++ ", ".intercalate (order.map toString) ++ "]"

/-- The message a log shows for an event. -/
def message? : Entry → Option (LogLevel × String)
  | scored strategy order e =>
    some (.trace, strategy.name ++ ": scored " ++ orderText order ++ " with cost " ++ e.cost.text)
  | improved strategy order cost =>
    some (.debug,
      strategy.name ++ ": new best plan " ++ orderText order ++ " with cost " ++ cost.text)
  | stopped strategy iterations outOfTime =>
    some (.debug, strategy.name ++ ": stopped after " ++ toString iterations ++
      " iterations, budget exhausted: " ++ toString outOfTime)
  | asked _ _ => none
  | polled _ _ => none

end Entry

end JoinOrder
