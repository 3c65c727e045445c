import JoinOrder.Error
import JoinOrder.Operand
/-!
# The text of a chain

The join links of the operands make a chain, from the outermost operand inwards. Its text shows one
operand a line, each but the first behind a branch mark, further in by three blanks for each operand
between it and the first.

A chain over `n` operands that has not ended after `n` of them has come back to one of them and never
ends.
-/

namespace JoinOrder.Chain

/-- What stands before the operand at a depth of the chain. -/
def indent : Nat → String
  | 0 => ""
  | depth + 1 => String.ofList (List.replicate (3 * depth) ' ') ++ "└─ "

/-- An operand with the access committed to it. -/
def label (o : Operand) : String :=
  match o.access? with
  | some access => o.text ++ " [" ++ access.text ++ "]"
  | none => o.text

/-- The line of the operand at a depth of the chain. -/
def line (depth : Nat) (o : Operand) : String := indent depth ++ label o ++ "\n"

/-- The text of the chain from `id`, found at a depth, given how many more operands it may have. -/
def textFrom (operands : List Operand) : (more depth id : Nat) → Except SearchError String
  | 0, _, _ => .error .endlessChain
  | more + 1, depth, id =>
    match operands[id]? with
    | none => .error (.unknownOperand id)
    | some o =>
      match o.inner? with
      | none => .ok (line depth o)
      | some inner => do
        let rest ← textFrom operands more (depth + 1) inner
        .ok (line depth o ++ rest)

/-- The text of the chain from `top`. -/
def text (operands : List Operand) (top : Nat) : Except SearchError String :=
  textFrom operands (operands.length + 1) 0 top

end JoinOrder.Chain
