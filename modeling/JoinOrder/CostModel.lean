import JoinOrder.Error
import JoinOrder.Operand
/-!
# Cost models

A cost model is an oracle: shown an ordering, or the beginning of one, it answers with a cost and one
access choice for each operand, or fails. It may keep a state, so its answers may depend on what it
was asked before.

## Unusable access

A model may choose an index for an operand without regard to the order. Such a choice is of use only
when every operand the index condition reads is bound by the time the indexed operand is scanned:
every name it depends on must point at an operand at the same position or an earlier one. The others
are replaced by a full scan.
-/

namespace JoinOrder

/-- What a cost model is shown: the operands named by `order` are joined as nested loops, the first
one outermost. -/
structure PlanView where
  /-- All operands of the query. -/
  operands : List Operand
  /-- The operands joined, outermost first. -/
  order : List Nat
  /-- The condition of the query. -/
  condition? : Option Condition

namespace PlanView

/-- The operand at a position of the order. -/
def operandAt? (v : PlanView) (pos : Nat) : Option Operand :=
  v.order[pos]?.bind fun id => v.operands[id]?

/-- The operands joined, in order. -/
def joined (v : PlanView) : Except SearchError (List Operand) :=
  v.order.mapM fun id =>
    match v.operands[id]? with
    | some o => .ok o
    | none => .error (.unknownOperand id)

/-- Some operand up to a position may be called by this name. -/
def isBoundAt (v : PlanView) (pos : Nat) (name : String) : Bool :=
  (v.order.take (pos + 1)).any fun id => v.operands[id]?.any fun o => o.isReferencedBy name

/-- Every operand an access reads columns of is bound at a position. -/
def isUsableAt (v : PlanView) (pos : Nat) (access : Access) : Bool :=
  access.dependsOn.all (v.isBoundAt pos)

/-- The access list of a plan with a full scan in place of each choice the order makes unusable.
Entries beyond the order are left alone. -/
def removeUnusable (v : PlanView) (access : List Access) : List Access :=
  access.mapIdx fun pos choice =>
    if pos < v.order.length && !v.isUsableAt pos choice then .fullScan else choice

@[simp] theorem length_removeUnusable (v : PlanView) (access : List Access) :
    (v.removeUnusable access).length = access.length := by
  simp [removeUnusable]

/-- As `removeUnusable`, for an order that may name operands there are not; only the positions that
hold a choice are looked at. -/
def removeUnusable? (v : PlanView) (access : List Access) : Except SearchError (List Access) :=
  match (v.order.take access.length).find? fun id => v.operands.length ≤ id with
  | some id => .error (.unknownOperand id)
  | none => .ok (v.removeUnusable access)

end PlanView

/-- The answer of a cost model. -/
structure Estimate where
  /-- The cost of the plan. -/
  cost : Cost
  /-- The access of each operand, in the order of the plan. -/
  access : List Access
  deriving Inhabited

namespace Estimate

/-- The answer of a cost model to an order of `expected` operands, refused if a search cannot use it:
the cost must be comparable and every operand must have an access. -/
def accepted (expected : Nat) (e : Estimate) : Except SearchError Estimate :=
  if !e.cost.isValid then .error (.invalidCost e.cost)
  else if e.access.length ≠ expected then .error (.accessCountMismatch e.access.length expected)
  else .ok e

end Estimate

/-- A cost model with the state `σ`. -/
structure CostModel (σ : Type) where
  /-- The answer for a plan of a query, which is a selection if the flag is set. -/
  estimate : PlanView → Bool → StateM σ (Except SearchError Estimate)
  /-- The access list of a plan without the choices its order makes unusable. -/
  removeUnusable : PlanView → List Access → StateM σ (List Access) :=
    fun view access => pure (view.removeUnusable access)
  /-- The removal replaces choices only. -/
  length_removeUnusable : ∀ view access s,
      ((removeUnusable view access).run s).1.length = access.length := by
    exact fun view access _ => PlanView.length_removeUnusable view access

end JoinOrder
