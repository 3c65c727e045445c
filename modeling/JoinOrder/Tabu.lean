/-!
# Tabu sets

A tabu set holds unordered pairs of positions. A pair is kept larger position first, so that both
orders of it are one entry.
-/

namespace JoinOrder

/-- Unordered pairs of positions. -/
structure Tabu where
  /-- The pairs, the latest first. -/
  pairs : List (Nat × Nat) := []
  deriving Inhabited

namespace Tabu

/-- The set without pairs. -/
def empty : Tabu := {}

/-- The entry of an unordered pair. -/
def entry (a b : Nat) : Nat × Nat := if a > b then (a, b) else (b, a)

/-- The pair is in the set. -/
def contains (t : Tabu) (a b : Nat) : Bool := t.pairs.contains (entry a b)

/-- The set with the pair. -/
def insert (t : Tabu) (a b : Nat) : Tabu :=
  if t.contains a b then t else ⟨entry a b :: t.pairs⟩

/-- The number of pairs. -/
def size (t : Tabu) : Nat := t.pairs.length

/-- No pair is in the set. -/
def isEmpty (t : Tabu) : Bool := t.pairs.isEmpty

end Tabu

end JoinOrder
