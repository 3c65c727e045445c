/-!
# Configuration

How many operands count as few, what is done for few, and the limits of a search over many.
-/

namespace JoinOrder

/-- How a query of a few operands is planned. -/
inductive SmallJoinStrategy where
  /-- The order the join graph suggests. -/
  | graphGreedy
  /-- The best of all orders. -/
  | exhaustive
  deriving DecidableEq, Repr, Inhabited

namespace SmallJoinStrategy

/-- The name a configuration uses. -/
def name : SmallJoinStrategy → String
  | graphGreedy => "graph_greedy"
  | exhaustive => "exhaustive"

/-- The strategy of a name. -/
def ofName? (name : String) : Option SmallJoinStrategy :=
  [graphGreedy, exhaustive].find? fun s => s.name = name

end SmallJoinStrategy

/-- The settings of an optimizer. -/
structure Config where
  /-- How queries of a few operands are planned. -/
  smallJoinStrategy : SmallJoinStrategy := .graphGreedy
  /-- The largest number of operands that counts as a few. -/
  maxSmallJoin : Nat := 7
  /-- The estimates that brute force may take. -/
  maxEstimates : Nat := 2000
  /-- The iterations of the genetic search. -/
  maxIterations : Nat := 500
  /-- The search time allowed for one unit of the best cost. -/
  nanosPerCost : Nat := 100000
  /-- The iterations between two looks at the clock, and between two restarts. -/
  checkInterval : Nat := 128
  /-- The draws of a pair to swap before the genetic search restarts. -/
  swapAttempts : Nat := 20
  /-- The seed of the genetic search. -/
  seed : UInt64 := 0
  deriving DecidableEq, Inhabited

end JoinOrder
