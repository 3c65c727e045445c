import JoinOrder.Plan
import JoinOrder.Text.Grid
/-!
# The table of a plan

One row for each position: the position, its operand and its access. A position without an access
shows a dash.
-/

namespace JoinOrder.Plan

/-- The row of a position. -/
def tableRow (p : Plan) (operands : List Operand) (pos id : Nat) :
    Except SearchError (List String) :=
  match operands[id]? with
  | some o => .ok [toString pos, o.text, (p.access[pos]?.map Access.text).getD "-"]
  | none => .error (.unknownOperand id)

/-- The rows of a plan. -/
def tableRows (p : Plan) (operands : List Operand) : Except SearchError (List (List String)) :=
  p.order.zipIdx.mapM fun (id, pos) => p.tableRow operands pos id

/-- The text of a table of rows. -/
def tableText (rows : List (List String)) : String :=
  Text.grid ["#", "Operand", "Access"] rows

end JoinOrder.Plan
