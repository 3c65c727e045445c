import JoinOrder.Budget
import JoinOrder.Config
import JoinOrder.Plan
import JoinOrder.RowCounts
import JoinOrder.Search.Journal
/-!
# Search sessions

A *problem* is what a search is given and does not change: the operands, the condition, the settings,
and the oracles it works with, which share a state `σ`. A *session* is what it changes: the best plan
so far, the journal, and that state.

All strategies work through `Problem.test`, which scores a complete ordering and keeps it when it is
cheaper than the best plan so far. So a session always holds the first of the cheapest plans tested,
and strategies can follow one another.
-/

namespace JoinOrder

/-- The oracles a search works with, over a common state `σ`. -/
structure Oracles (σ : Type) where
  /-- The oracle for plans. -/
  costModel : CostModel σ
  /-- The oracle for operands. -/
  rowCounts : RowSource σ
  /-- The nanoseconds since the session was opened. -/
  clock : StateM σ Nat

/-- What a search is given. -/
structure Problem (σ : Type) where
  /-- The operands to order. -/
  operands : List Operand
  /-- The condition of the query. -/
  condition? : Option Condition
  /-- The settings. -/
  config : Config
  /-- The query is a selection. -/
  isSelect : Bool
  /-- The oracles. -/
  oracles : Oracles σ

/-- What a search changes. -/
structure Session (σ : Type) where
  /-- The first of the cheapest plans tested. -/
  best? : Option Plan := none
  /-- What was done, the latest first. -/
  journal : List Entry := []
  /-- The state of the oracles. -/
  world : σ

/-- A step of a search; the session survives a failure. -/
abbrev SearchM (σ : Type) := ExceptT SearchError (StateM (Session σ))

namespace Session

variable {σ : Type}

/-- The cost of the best plan. -/
def bestCost? (s : Session σ) : Option Cost := s.best?.bind Plan.cost?

/-- The number of estimates the cost model gave. -/
def evaluations (s : Session σ) : Nat := s.journal.countP Entry.isAnswer

/-- What was done, in order. -/
def history (s : Session σ) : List Entry := s.journal.reverse

/-- The session after an entry is written. -/
def record (s : Session σ) (e : Entry) : Session σ := { s with journal := e :: s.journal }

/-- The session with a plan as the best one. -/
def keep (s : Session σ) (plan : Plan) : Session σ := { s with best? := some plan }

/-- The session after an oracle has acted. -/
def consult {α : Type} (act : StateM σ α) : StateM (Session σ) α := fun s =>
  let (a, world) := act s.world
  (a, { s with world })

/-- A plan of this cost is cheaper than the best one, or the first. -/
def isImprovedBy (s : Session σ) (cost : Cost) : Bool :=
  match s.bestCost? with
  | some best => decide (cost < best)
  | none => true

/-- Note that a strategy has come to its end, or to the end of its time. -/
def stop (id : StrategyId) (iterations : Nat) (outOfTime : Bool) : SearchM σ Unit := fun s =>
  (.ok (), s.record (.stopped id iterations outOfTime))

end Session

namespace Problem

variable {σ : Type} (p : Problem σ)

/-- The number of operands. -/
def size : Nat := p.operands.length

/-- The time a search may take. -/
def budget : Budget := ⟨p.config.nanosPerCost, p.config.checkInterval⟩

/-- An order as the cost model sees it. -/
def view (order : List Nat) : PlanView := ⟨p.operands, order, p.condition?⟩

/-- The search may stop before an iteration. The clock is read only at a check point, and only when
there is a plan. -/
def canStop (iteration : Nat) : StateM (Session σ) Bool := fun s =>
  if p.budget.isCheckPoint iteration && s.bestCost?.isSome then
    let (nanos, s) := Session.consult p.oracles.clock s
    let stop := p.budget.canStopAfter iteration s.bestCost? nanos
    (stop, s.record (.polled iteration stop))
  else (false, s.record (.polled iteration false))

/-- Ask the cost model about an order, or the beginning of one. -/
def ask (order : List Nat) : StateM (Session σ) (Except SearchError Estimate) := fun s =>
  let (answer, s) := Session.consult (p.oracles.costModel.estimate (p.view order) p.isSelect) s
  (answer, s.record (.asked order answer))

/-- The accepted answer of the cost model to an order, or the beginning of one. -/
def estimate (order : List Nat) : SearchM σ Estimate := fun s =>
  let (answer, s) := p.ask order s
  (answer.bind (Estimate.accepted order.length), s)

/-- Score a complete ordering, and keep it when it is cheaper than the best plan so far. The answer
is whether it was kept. -/
def test (id : StrategyId) (order : List Nat) : SearchM σ Bool := fun s =>
  match p.estimate order s with
  | (.error e, s) => (.error e, s)
  | (.ok e, s) =>
    let s := s.record (.scored id order e)
    if s.isImprovedBy e.cost then
      (.ok true, (s.keep (Plan.scored order e)).record (.improved id order e.cost))
    else (.ok false, s)

end Problem

end JoinOrder
