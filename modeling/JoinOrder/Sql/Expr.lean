import JoinOrder.Sql.Name
import JoinOrder.Sql.Value
/-!
# Query expressions

The expressions a query filters and joins by. Those that combine columns by operators are kept as
trees. All other forms (patterns, lists, cases, casts and the like) are *phrases*: the subexpressions
with the words around them. A phrase has one function for each form, which lays down its words.
-/

namespace JoinOrder.Sql

/-! ## Operators -/

/-- The operators between two sides. -/
inductive BinaryOp where
  | eq | notEq | lt | ltEq | gt | gtEq
  | plus | minus | multiply | divide | modulo
  | and | or
  | isDistinctFrom | isNotDistinctFrom
  | regexMatch | regexIMatch | regexNotMatch | regexNotIMatch
  | bitwiseAnd | bitwiseOr | bitwiseXor | bitwiseShiftRight | bitwiseShiftLeft
  | stringConcat
  deriving DecidableEq, Repr

namespace BinaryOp

/-- How an operator is written. -/
def text : BinaryOp → String
  | eq => "="
  | notEq => "!="
  | lt => "<"
  | ltEq => "<="
  | gt => ">"
  | gtEq => ">="
  | plus => "+"
  | minus => "-"
  | multiply => "*"
  | divide => "/"
  | modulo => "%"
  | and => "AND"
  | or => "OR"
  | isDistinctFrom => "IS DISTINCT FROM"
  | isNotDistinctFrom => "IS NOT DISTINCT FROM"
  | regexMatch => "~"
  | regexIMatch => "~*"
  | regexNotMatch => "!~"
  | regexNotIMatch => "!~*"
  | bitwiseAnd => "&"
  | bitwiseOr => "|"
  | bitwiseXor => "#"
  | bitwiseShiftRight => ">>"
  | bitwiseShiftLeft => "<<"
  | stringConcat => "||"

/-- How tightly an operator binds; zero where that is not laid down. -/
def precedence : BinaryOp → Nat
  | or => 5
  | and => 10
  | eq | notEq | lt | ltEq | gt | gtEq => 20
  | plus | minus => 30
  | multiply | divide | modulo => 40
  | _ => 0

/-- A side that is made by `inner` needs parentheses under the operator. -/
def needsParens (op inner : BinaryOp) : Bool :=
  inner.precedence = 0 || inner.precedence < op.precedence

end BinaryOp

/-! ## Expressions -/

/-- An expression of a query. -/
inductive Expr where
  /-- A column. The last part of the relation is its table; without parts the table is not known. -/
  | column (relation : List String) (name : String)
  | value (v : Value)
  | binary (left : Expr) (op : BinaryOp) (right : Expr)
  | not (e : Expr)
  | isNull (e : Expr)
  | isNotNull (e : Expr)
  | negative (e : Expr)
  | between (e : Expr) (negated : Bool) (low high : Expr)
  /-- Subexpressions with a word before each, and one after the last. -/
  | phrase (words : List String) (parts : List Expr)

namespace Expr

/-- The column of a dotted name: up to four parts, of which the last one is the column. A text of
more parts, or one that is no name, is a column of no known table, and is left as it is. -/
def ofDotted (text : String) : Expr :=
  match (nameParts? text.toList).map List.reverse with
  | some (name :: relation) =>
    if relation.length ≤ 3 then column relation.reverse name else column [] text
  | _ => column [] text

/-! ## Text -/

/-- The operator of a binary expression. -/
def op? : Expr → Option BinaryOp
  | binary _ op _ => some op
  | _ => none

/-- A side in parentheses, if it is made by an operator that needs them. -/
def parenthesized (op : BinaryOp) (inner? : Option BinaryOp) (side : String) : String :=
  if inner?.any op.needsParens then "(" ++ side ++ ")" else side

/-- Words and parts in turn. -/
def interleave : (words parts : List String) → String
  | [], parts => String.join parts
  | word :: words, [] => word ++ String.join words
  | word :: words, part :: parts => word ++ part ++ interleave words parts

mutual

/-- The full text of an expression. -/
def text : Expr → String
  | column relation name => ".".intercalate (relation ++ [name])
  | value v => v.fullText
  | binary left op right =>
    parenthesized op left.op? left.text ++ " " ++ op.text ++ " " ++
      parenthesized op right.op? right.text
  | not e => "NOT " ++ e.text
  | isNull e => e.text ++ " IS NULL"
  | isNotNull e => e.text ++ " IS NOT NULL"
  | negative e => "(- " ++ e.text ++ ")"
  | between e negated low high =>
    e.text ++ (if negated then " NOT" else "") ++ " BETWEEN " ++ low.text ++ " AND " ++ high.text
  | phrase words parts => interleave words (texts parts)

/-- The full texts of a list of expressions. -/
def texts : List Expr → List String
  | [] => []
  | e :: rest => e.text :: texts rest

end

/-! ## Phrases -/

/-- The phrase of parts with a word before each, behind a first word and before a last one. -/
def phraseOf (first : String) (parts : List (String × Expr)) (last : String) : Expr :=
  match parts with
  | [] => phrase [first ++ last] []
  | (word, e) :: rest => phrase ((first ++ word) :: rest.map Prod.fst ++ [last]) (e :: rest.map Prod.snd)

/-- A word, after `NOT` if the phrase is negated. -/
def negatable (negated : Bool) (word : String) : String := (if negated then " NOT " else " ") ++ word

/-- A comparison with a pattern, of the kind `LIKE`, `ILIKE` or `SIMILAR TO`. -/
def likePattern (kind : String) (negated : Bool) (e pattern : Expr) (escape? : Option String) : Expr :=
  phraseOf "" [("", e), (negatable negated kind ++ " ", pattern)]
    (match escape? with
      | some c => " ESCAPE '" ++ c ++ "'"
      | none => "")

/-- A test for a truth value such as `NOT FALSE`. -/
def isTruth (truth : String) (e : Expr) : Expr := phraseOf "" [("", e)] (" IS " ++ truth)

/-- Membership in a list. -/
def inList (e : Expr) (negated : Bool) (items : List Expr) : Expr :=
  let start := negatable negated "IN (["
  match items with
  | [] => phraseOf "" [("", e)] (start ++ "])")
  | item :: rest => phraseOf "" (("", e) :: (start, item) :: rest.map fun e => (", ", e)) "])"

/-- An expression under another name. -/
def renamed (e : Expr) (name : String) : Expr := phraseOf "" [("", e)] (" AS " ++ name)

/-- A choice by conditions. -/
def caseOf (base? : Option Expr) (branches : List (Expr × Expr)) (otherwise? : Option Expr) : Expr :=
  phraseOf "CASE"
    (base?.toList.map (fun e => (" ", e)) ++
      branches.flatMap (fun branch => [(" WHEN ", branch.1), (" THEN ", branch.2)]) ++
      otherwise?.toList.map fun e => (" ELSE ", e))
    " END"

/-- A change of type by `CAST` or `TRY_CAST`. -/
def castTo (word : String) (e : Expr) (type : String) : Expr :=
  phraseOf (word ++ "(") [("", e)] (" AS " ++ type ++ ")")

/-- A sort key. -/
def sortKey (e : Expr) (ascending nullsFirst : Bool) : Expr :=
  phraseOf "" [("", e)]
    ((if ascending then " ASC" else " DESC") ++ " NULLS " ++ if nullsFirst then "FIRST" else "LAST")

/-- Words without subexpressions, such as a wildcard or the name of a variable. -/
def words (text : String) : Expr := phraseOf text [] ""

/-- All columns of a relation. -/
def allColumnsOf (relation : String) : Expr := words (relation ++ ".*")

/-- A variable of several names. -/
def variableOf (names : List String) : Expr := words (".".intercalate names)

end Expr

end JoinOrder.Sql
