/-!
# Sets of characters

A set of characters that is given by a table: ranges of code points, both ends included.
-/

namespace JoinOrder.Text

/-- A set of characters, as ranges of code points with both ends. -/
structure CharSet where
  /-- The ranges, in order. -/
  ranges : List (Nat × Nat)
  deriving Repr, DecidableEq

/-- A set has a character. -/
def CharSet.contains (s : CharSet) (c : Char) : Bool :=
  s.ranges.any fun r => r.1 ≤ c.toNat && c.toNat ≤ r.2

theorem CharSet.contains_iff (s : CharSet) (c : Char) :
    s.contains c = true ↔ ∃ r ∈ s.ranges, r.1 ≤ c.toNat ∧ c.toNat ≤ r.2 := by
  simp [CharSet.contains]

end JoinOrder.Text
