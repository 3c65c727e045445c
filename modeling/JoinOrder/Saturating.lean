/-!
# Saturating products

Counts that outgrow 64 bits stay at the largest 64 bit number, so a comparison with a 64 bit limit
still comes out right.
-/

namespace JoinOrder

/-- The largest 64 bit number. -/
def maxWord : Nat := Nat.pow 2 64 - 1

/-- A product that stays at `maxWord` once it would exceed it. -/
def satMul (a b : Nat) : Nat := min (a * b) maxWord

/-- The saturating product of `acc` and the `terms` numbers from `first` on. A product that has come
to zero stays there. -/
def satProductFrom (first : Nat) : (terms acc : Nat) → Nat
  | 0, acc => acc
  | terms + 1, acc => if acc = 0 then 0 else satProductFrom (first + 1) terms (satMul acc first)

end JoinOrder
