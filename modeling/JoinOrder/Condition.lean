/-!
# Join conditions

A condition is an expression tree. The search never evaluates it: all it reads is which operands a
condition compares with each other, through `Condition.comparison?`. Everything else a tree holds is
kept for its text.

## References

A node refers to an operand by table name or, failing that, by alias. Only leaves with a reference
are columns of a known operand; a leaf without one is a value, or a column whose operand is unknown.
-/

namespace JoinOrder

/-- One node of a condition: an operator over its children, or a column or value without any. -/
inductive Condition where
  | node (label : String) (table? alias? : Option String) (children : List Condition)
  deriving Inhabited

namespace Condition

/-! ## Building conditions -/

/-- An operator applied to `children`. -/
def operator (label : String) (children : List Condition) : Condition :=
  node label none none children

/-- A column of the operand named by its table. -/
def column (table name : String) : Condition := node name (some table) none []

/-- A column of an operand known by its alias only. -/
def aliasedColumn (called name : String) : Condition := node name none (some called) []

/-- A value, or anything else that refers to no operand. -/
def literal (text : String) : Condition := operator text []

/-- An operator between two sides. -/
def binary (label : String) (left right : Condition) : Condition := operator label [left, right]

/-- An equality of two sides. -/
def equal (left right : Condition) : Condition := binary "=" left right

/-- Both sides. -/
def both (left right : Condition) : Condition := binary "AND" left right

/-- The conjunction of a list, nested to the left; no conditions make no condition. -/
def all? : List Condition → Option Condition
  | [] => none
  | first :: rest => some (rest.foldl both first)

/-- A condition wrapped `depth` times in an operator with one child. -/
def nest (label : String) (inner : Condition) : Nat → Condition
  | 0 => inner
  | depth + 1 => operator label [nest label inner depth]

/-! ## Reading conditions -/

/-- The operator of an inner node, the column name or value of a leaf. -/
def label : Condition → String
  | node label _ _ _ => label

/-- The table a node names. -/
def table? : Condition → Option String
  | node _ table? _ _ => table?

/-- The alias a node names. -/
def alias? : Condition → Option String
  | node _ _ alias? _ => alias?

/-- The parts an operator is applied to. -/
def children : Condition → List Condition
  | node _ _ _ children => children

/-- A node without children. -/
def isLeaf (c : Condition) : Bool := c.children.isEmpty

/-- The name a node refers to an operand by; a table name wins over an alias. -/
def reference? (c : Condition) : Option String := c.table?.or c.alias?

/-- The two names a node compares: it has exactly two children, both leaves, and they refer to
different names. -/
def comparison? (c : Condition) : Option (String × String) :=
  match c.children with
  | [left, right] =>
    if left.isLeaf && right.isLeaf then
      match left.reference?, right.reference? with
      | some l, some r => if l = r then none else some (l, r)
      | _, _ => none
    else none
  | _ => none

mutual

/-- The comparisons made anywhere in a condition. A comparison has leaves below it only, so there
is nothing to look for inside it. -/
def comparisons : Condition → List (String × String)
  | node label table? alias? children =>
    match (node label table? alias? children).comparison? with
    | some pair => [pair]
    | none => comparisonsOfAll children

/-- The comparisons made anywhere in a list of conditions. -/
def comparisonsOfAll : List Condition → List (String × String)
  | [] => []
  | c :: rest => comparisons c ++ comparisonsOfAll rest

end

mutual

/-- The number of nodes. -/
def size : Condition → Nat
  | node _ _ _ children => 1 + sizeOfAll children

/-- The number of nodes of a list of conditions. -/
def sizeOfAll : List Condition → Nat
  | [] => 0
  | c :: rest => size c + sizeOfAll rest

end

/-! ## Text -/

/-- A node over the texts of its children: a leaf is its label behind its reference, two sides stand
around their operator, and any other number of children is an argument list. -/
def textOver (c : Condition) : List String → String
  | [] => match c.reference? with
    | some name => name ++ "." ++ c.label
    | none => c.label
  | [left, right] => left ++ " " ++ c.label ++ " " ++ right
  | args => c.label ++ "(" ++ ", ".intercalate args ++ ")"

mutual

/-- The text of a condition. -/
def text : Condition → String
  | node label table? alias? children =>
    (node label table? alias? children).textOver (textOfAll children)

/-- The texts of a list of conditions. -/
def textOfAll : List Condition → List String
  | [] => []
  | c :: rest => text c :: textOfAll rest

end

/-! ## Equality -/

mutual

/-- Conditions are equal when their labels, references and children are. -/
def decEq : (a b : Condition) → Decidable (a = b)
  | node label table? alias? children, node label' table?' alias?' children' =>
    if h : label = label' ∧ table? = table?' ∧ alias? = alias?' then
      match decEqAll children children' with
      | isTrue hc => isTrue (by rw [h.1, h.2.1, h.2.2, hc])
      | isFalse hc => isFalse (fun e => hc (by injection e))
    else isFalse (fun e => h (by injection e with e₁ e₂ e₃; exact ⟨e₁, e₂, e₃⟩))

/-- Lists of conditions are equal when they agree item by item. -/
def decEqAll : (as bs : List Condition) → Decidable (as = bs)
  | [], [] => isTrue rfl
  | [], _ :: _ => isFalse (fun e => nomatch e)
  | _ :: _, [] => isFalse (fun e => nomatch e)
  | a :: as, b :: bs =>
    match decEq a b with
    | isTrue h =>
      match decEqAll as bs with
      | isTrue hs => isTrue (by rw [h, hs])
      | isFalse hs => isFalse (fun e => hs (by injection e))
    | isFalse h => isFalse (fun e => h (by injection e))

end

instance : DecidableEq Condition := decEq

end Condition

end JoinOrder
