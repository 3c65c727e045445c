import JoinOrder.CostModel
/-!
# Plans

A plan is a complete ordering of the operands, outermost first, with its cost and one access choice
for each position once it is scored. A plan that was never scored has neither.
-/

namespace JoinOrder

/-- One ordering of the operands. -/
structure Plan where
  /-- The operands, outermost first. -/
  order : List Nat
  /-- The cost, once scored. -/
  cost? : Option Cost
  /-- The access of each position, once scored. -/
  access : List Access
  deriving Inhabited

namespace Plan

/-- A plan that is not costed. -/
def unscored (order : List Nat) : Plan := ⟨order, none, []⟩

/-- A plan with the answer of a cost model. -/
def scored (order : List Nat) (e : Estimate) : Plan := ⟨order, some e.cost, e.access⟩

/-- Plans are equal when their orders, costs and access choices are. -/
instance : BEq Plan := ⟨fun p q => p.order == q.order && p.cost? == q.cost? && p.access == q.access⟩

/-- The access of an operand, at the first position that holds it. -/
def accessOf? (p : Plan) (id : Nat) : Option Access :=
  (p.order.idxOf? id).bind fun pos => p.access[pos]?

/-- No number of a list is marked in the table, outside of it or met twice. -/
def areNew (seen : Array Bool) : List Nat → Bool
  | [] => true
  | id :: rest =>
    if h : id < seen.size then !seen[id] && areNew (seen.set id true) rest else false

/-- Each number below `n` is in the order, exactly once. -/
def isPermutationOf (p : Plan) (n : Nat) : Bool :=
  p.order.length = n && areNew (Array.replicate n false) p.order

end Plan

end JoinOrder
