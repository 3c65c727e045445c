import JoinOrder.Condition
/-!
# Scan operands

One operand stands for one reference of a query to a table or view. Its *identity* tells it apart
from the other operands of the query: the alias where there is one, so the two instances of a self
join stay distinct. An expression may use either of its *names*.

Besides that, an operand carries what the optimizer commits to it: the operand nested inside it and
the access it is read by.
-/

namespace JoinOrder

/-- The way one operand is read within one plan. -/
inductive Access where
  /-- Every row is read. -/
  | fullScan
  /-- Rows are looked up in an index whose condition reads columns of the operands `dependsOn`. -/
  | index (name : String) (dependsOn : List String)
  deriving DecidableEq, Repr

instance : Inhabited Access := ⟨.fullScan⟩

namespace Access

/-- The text of an access shows no dependencies. -/
def text : Access → String
  | fullScan => "full scan"
  | index name _ => "index " ++ name

/-- Every row is read. -/
def isFullScan : Access → Bool
  | fullScan => true
  | index _ _ => false

/-- The operands an access reads columns of. -/
def dependsOn : Access → List String
  | fullScan => []
  | index _ dependsOn => dependsOn

end Access

/-- One table or view reference of a query. -/
structure Operand where
  /-- The table or view. -/
  table : String
  /-- The name the query gives it. -/
  alias? : Option String := none
  /-- The full condition, scoped to this operand. -/
  condition? : Option Condition := none
  /-- The operand nested inside this one. -/
  inner? : Option Nat := none
  /-- The access committed to this operand. -/
  access? : Option Access := none
  deriving Inhabited

namespace Operand

/-- The name that tells an operand apart from the others of its query. -/
def identity (o : Operand) : String := o.alias?.getD o.table

/-- The names an expression may use for an operand, the table first. -/
def names (o : Operand) : List String := o.table :: o.alias?.toList

/-- A name in an expression points at this operand. -/
def isReferencedBy (o : Operand) (name : String) : Bool := o.names.contains name

/-- The table, followed by the alias if there is one. -/
def text (o : Operand) : String := " ".intercalate o.names

/-- An operand with nothing committed to it. -/
def reset (o : Operand) : Operand := { o with inner? := none, access? := none }

end Operand

end JoinOrder
