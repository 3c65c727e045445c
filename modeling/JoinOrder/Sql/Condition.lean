import JoinOrder.Operand
import JoinOrder.Sql.Expr
/-!
# Join conditions of queries

The condition of a query expression keeps what the join graph can read: columns of a known table as
references, and the operators above them as inner nodes. All else becomes a leaf that refers to no
operand, with its text as the label. Every expression has a condition.
-/

namespace JoinOrder.Sql

namespace Expr

/-- The condition of a column: a reference if its table is known. -/
def columnCondition (relation : List String) (name : String) : Condition :=
  match relation.getLast? with
  | some table => .column table name
  | none => .literal name

/-- The condition of an expression. -/
def toCondition : Expr → Condition
  | column relation name => columnCondition relation name
  | value v => .literal v.text
  | binary left op right => .binary op.text left.toCondition right.toCondition
  | not e => .operator "NOT" [e.toCondition]
  | isNull e => .operator "IS NULL" [e.toCondition]
  | isNotNull e => .operator "IS NOT NULL" [e.toCondition]
  | negative e => .operator "-" [e.toCondition]
  | between e negated low high =>
    .operator (if negated then "NOT BETWEEN" else "BETWEEN")
      [e.toCondition, low.toCondition, high.toCondition]
  | phrase words parts => .literal (phrase words parts).text

end Expr

/-- A table a query refers to, with the name the query gives it. -/
structure TableRef where
  /-- The table. -/
  name : String
  /-- The name the query gives it. -/
  alias? : Option String := none
  deriving DecidableEq

/-- The operands of a query, in the order of its tables, and its condition. The first operand carries
the condition. -/
def scanOperands (tables : List TableRef) (filter? : Option Expr) :
    List Operand × Option Condition :=
  let condition? := filter?.map Expr.toCondition
  let operands := tables.map fun t => ({ table := t.name, alias? := t.alias? } : Operand)
  match operands with
  | [] => ([], condition?)
  | first :: rest => ({ first with condition? } :: rest, condition?)

end JoinOrder.Sql
