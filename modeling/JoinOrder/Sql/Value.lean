import JoinOrder.Decimal.Shortest
/-!
# Literal values

A literal of a query has a type and, unless it is missing, a value. A condition shows the value alone;
the full form of a literal names its type as well.
-/

namespace JoinOrder.Sql

/-- A literal of a query. -/
inductive Value where
  | int64 (value? : Option Int)
  | uint64 (value? : Option Nat)
  | float64 (value? : Option Float)
  | utf8 (value? : Option String)
  | boolean (value? : Option Bool)
  | null

namespace Value

/-- The type of a literal; the plain null has none. -/
def type? : Value → Option String
  | int64 _ => some "Int64"
  | uint64 _ => some "UInt64"
  | float64 _ => some "Float64"
  | utf8 _ => some "Utf8"
  | boolean _ => some "Boolean"
  | null => none

/-- What is written for a missing value. -/
def missing : String := "NULL"

/-- The value alone. -/
def text : Value → String
  | int64 value? => (value?.map toString).getD missing
  | uint64 value? => (value?.map toString).getD missing
  | float64 value? => (value?.map Decimal.text).getD missing
  | utf8 value? => value?.getD missing
  | boolean value? => (value?.map toString).getD missing
  | null => missing

/-- The value as it stands behind its type: a text is quoted, but nothing in it is escaped. -/
def quoted : Value → String
  | utf8 (some value) => "\"" ++ value ++ "\""
  | v => v.text

/-- The value with its type. -/
def fullText (v : Value) : String :=
  match v.type? with
  | some type => type ++ "(" ++ v.quoted ++ ")"
  | none => v.quoted

end Value

end JoinOrder.Sql
