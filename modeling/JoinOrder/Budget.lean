import JoinOrder.Cost
/-!
# Time budgets

A search may stop once it has spent more than so many nanoseconds for each unit of the best cost
found so far. A cheap query is thus planned almost at once, while an expensive one, where a better
plan saves more, is searched longer. The budget is looked at every `checkInterval` iterations only,
and never stops a search that has no plan yet.
-/

namespace JoinOrder

/-- The time a search may take. -/
structure Budget where
  /-- The nanoseconds for one unit of cost. -/
  nanosPerCost : Nat
  /-- The iterations between two looks at the clock; zero stands for one. -/
  checkInterval : Nat

namespace Budget

/-- The iterations between two check points. -/
def interval (b : Budget) : Nat := max b.checkInterval 1

/-- The budget is looked at before this iteration. -/
def isCheckPoint (b : Budget) (iteration : Nat) : Bool := iteration % b.interval = 0

/-- More time has passed than the cost is worth. Both sides are rounded to floats first. -/
def isExceeded (b : Budget) (cost : Cost) (nanos : Nat) : Bool :=
  decide (cost.value * Float.ofNat b.nanosPerCost < Float.ofNat nanos)

/-- The search may stop before this iteration, with the best cost found and the time passed. -/
def canStopAfter (b : Budget) (iteration : Nat) (best? : Option Cost) (nanos : Nat) : Bool :=
  b.isCheckPoint iteration && best?.any (b.isExceeded · nanos)

end Budget

end JoinOrder
