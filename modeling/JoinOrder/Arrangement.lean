import JoinOrder.Saturating
/-!
# Arrangements

An arrangement of length `k` over `n` is a list of `k` different numbers below `n`. Arrangements of
one length are ranked in lexicographic order, and `Arrangement.ofRank` computes the one of a given
rank directly: its first entry is the rank divided by the number of arrangements that start alike,
and the rest is an arrangement over the numbers left, again by rank.

## Enumerations

An enumeration knows nothing of ranks. It makes each arrangement from the one before it, and computes
nothing ahead: the numbers themselves are read when they are needed.

* As long as there are numbers to read, the arrangements differ in their last entry only, which is the
  number just read.
* Then a row of all numbers is laid out, and the arrangement is its beginning. For each place of the
  arrangement a *cycle* says how many numbers are still to come at this place before anything changes
  in front of it. An advance works from the last place to the first. A place whose cycle is not over gets
  its next number, by an exchange with a number further back. A place whose cycle is over puts its number
  at the end of the row, which restores the order of the numbers from there on, starts a new cycle, and
  leaves the advance to the place in front of it.
* When the cycle of the first place is over, so is the round. This is answered by `none`, and then the
  next round begins.

There is one arrangement of length zero. It is not walked to, and does not come again.
-/

namespace JoinOrder

namespace Arrangement

/-- The number of arrangements of length `k` over `n`: the product `n (n-1) … (n-k+1)`. -/
def count (n : Nat) : (k : Nat) → Nat
  | 0 => 1
  | k + 1 => n * count (n - 1) k

/-- The `x`-th of the numbers other than `hole`. -/
def skip (hole x : Nat) : Nat := if x < hole then x else x + 1

/-- The arrangement of length `k` over `n` with the given rank among `total` in lexicographic order. -/
def ofRankAmong (n : Nat) : (k total rank : Nat) → List Nat
  | 0, _, _ => []
  | k + 1, total, rank =>
    let block := total / n
    let first := rank / block
    first :: (ofRankAmong (n - 1) k block (rank % block)).map (skip first)

/-- The arrangement of length `k` over `n` with the given rank in lexicographic order. -/
def ofRank (n k rank : Nat) : List Nat := ofRankAmong n k (count n k) rank

@[simp] theorem ofRank_zero (n rank : Nat) : ofRank n 0 rank = [] := rfl

/-- The first entry counts the blocks of arrangements that start alike, and the rest is an arrangement
over the other numbers. -/
theorem ofRank_succ {n : Nat} (hn : 0 < n) (k rank : Nat) :
    ofRank n (k + 1) rank =
      rank / count (n - 1) k ::
        (ofRank (n - 1) k (rank % count (n - 1) k)).map (skip (rank / count (n - 1) k)) := by
  rw [ofRank, ofRankAmong, count, Nat.mul_div_cancel_left _ hn, ← ofRank]

/-- The number of arrangements in 64 bit arithmetic: the saturating product of the `min k n` largest
numbers up to `n`. There is none if the number that the product starts from leaves 64 bits. -/
def countWord? (n k : Nat) : Option Nat :=
  let first := n - min k n + 1
  if first ≤ maxWord then some (satProductFrom first (n + 1 - first) 1) else none

end Arrangement

/-! ## Numbers read one by one -/

/-- The numbers below `size`, read in order when they are needed, and kept. -/
structure Supply where
  /-- The bound of the numbers. -/
  size : Nat
  /-- The numbers read. -/
  kept : Array Nat := #[]

namespace Supply

/-- The supply with one more number read, if there is one. -/
def more (s : Supply) : Option Supply :=
  if s.kept.size < s.size then some { s with kept := s.kept.push s.kept.size } else none

/-- The supply with `count` more numbers read, or with all of them and `false` if there are fewer. -/
def reserve : (count : Nat) → Supply → Supply × Bool
  | 0, s => (s, true)
  | count + 1, s =>
    match s.more with
    | some s => reserve count s
    | none => (s, false)

/-- The numbers kept at some places. -/
def look (s : Supply) (places : List Nat) : List Nat := places.map fun i => s.kept[i]!

end Supply

/-! ## Rounds -/

/-- A round through the arrangements of length `k` over `n` places. -/
inductive Round
  /-- The round has not begun. -/
  | start (n k : Nat)
  /-- The arrangement is the beginning of `indices`, as long as `cycles`. -/
  | ongoing (indices cycles : List Nat)

namespace Round

/-- A row with two of its places exchanged. -/
def exchange (row : List Nat) (i j : Nat) : List Nat := (row.set i row[j]!).set j row[i]!

/-- The advance of the places before `i`, the last one first; there is none if all their cycles are over. -/
def turn : (i : Nat) → (indices cycles : List Nat) → Option (List Nat × List Nat)
  | 0, _, _ => none
  | i + 1, indices, cycles =>
    let left := cycles[i]!
    if left = 0 then
      turn i (indices.eraseIdx i ++ [indices[i]!]) (cycles.set i (indices.length - i - 1))
    else
      some (exchange indices i (indices.length - left), cycles.set i (left - 1))

/-- The round moved on by one arrangement, from the last one back to its start. -/
def advance : Round → Round
  | start n k => ongoing (List.range n) (List.range' (n - k) k).reverse
  | ongoing indices cycles =>
    let n := indices.length
    let k := cycles.length
    match turn k indices cycles with
    | some (indices, cycles) => ongoing indices cycles
    | none => start n k

/-- The places of the arrangement at hand. -/
def places? : Round → Option (List Nat)
  | start _ _ => none
  | ongoing indices cycles => some (indices.take cycles.length)

end Round

/-! ## Walks -/

/-- How far a walk has come. -/
inductive Stage
  /-- The numbers for the first arrangement of length `k` are there. -/
  | unread (k : Nat)
  /-- The arrangement ends with the last of the `read` numbers read so far. -/
  | reading (k read : Nat)
  /-- All numbers are read. -/
  | turning (round : Round)
  /-- There are not enough numbers. -/
  | empty

/-- A walk through the arrangements of one length. -/
structure Walk where
  /-- The numbers to arrange. -/
  supply : Supply
  /-- How far it has come. -/
  stage : Stage

namespace Walk

/-- The walk through the arrangements of length `k` over `n`. -/
def start (n k : Nat) : Walk :=
  if k = 0 then ⟨{ size := n }, .turning (.start 0 0)⟩
  else
    match Supply.reserve k { size := n } with
    | (supply, true) => ⟨supply, .unread k⟩
    | (supply, false) => ⟨supply, .empty⟩

/-- The walk moved on by one arrangement. -/
def advance : Walk → Walk
  | ⟨supply, .unread k⟩ => ⟨supply, .reading k k⟩
  | ⟨supply, .reading k read⟩ =>
    match supply.more with
    | some supply => ⟨supply, .reading k (read + 1)⟩
    | none =>
      -- the arrangements with the numbers read last, and the one that is next
      let passed := read - k + 1
      ⟨supply, .turning (Nat.repeat Round.advance (passed + 1) (.start read k))⟩
  | ⟨supply, .turning round⟩ => ⟨supply, .turning round.advance⟩
  | ⟨supply, .empty⟩ => ⟨supply, .empty⟩

/-- The arrangement at hand. -/
def current? (w : Walk) : Option (List Nat) :=
  match w.stage with
  | .reading k read => some (w.supply.look (List.range (k - 1) ++ [read - 1]))
  | .turning round => round.places?.map w.supply.look
  | .unread _ | .empty => none

/-- The next arrangement. After the last one comes `none` once, and then the first one again. -/
def next (w : Walk) : Option (List Nat) × Walk :=
  let w := w.advance
  (w.current?, w)

end Walk

/-! ## Enumerations -/

/-- An enumeration of the arrangements of one length. -/
structure Enumeration where
  /-- The walk through them, if they are not empty. -/
  walk? : Option Walk
  /-- The empty arrangement is still to come. -/
  emptyPending : Bool
  /-- The number of arrangements returned so far. -/
  produced : Nat := 0

namespace Enumeration

/-- The arrangements of length `k`, at most `n`, over `n`. -/
def arrangements (n k : Nat) : Enumeration :=
  let k := min k n
  if k = 0 then { walk? := none, emptyPending := true }
  else { walk? := some (.start n k), emptyPending := false }

/-- The arrangements of all numbers below `n`. -/
def permutations (n : Nat) : Enumeration := arrangements n n

/-- The next arrangement, not counted yet. -/
def step : Enumeration → Option (List Nat) × Enumeration
  | ⟨some walk, emptyPending, produced⟩ =>
    let (order?, walk) := walk.next
    (order?, ⟨some walk, emptyPending, produced⟩)
  | ⟨none, true, produced⟩ => (some [], ⟨none, false, produced⟩)
  | ⟨none, false, produced⟩ => (none, ⟨none, false, produced⟩)

/-- The next arrangement. -/
def next (e : Enumeration) : Option (List Nat) × Enumeration :=
  match e.step with
  | (some order, e) => (some order, { e with produced := e.produced + 1 })
  | (none, e) => (none, e)

/-- The arrangements of up to `m` calls of `next`, ending at the first `none`. -/
def take (e : Enumeration) : (m : Nat) → List (List Nat) × Enumeration
  | 0 => ([], e)
  | m + 1 =>
    match e.next with
    | (none, e) => ([], e)
    | (some order, e) =>
      let (orders, e) := e.take m
      (order :: orders, e)

/-- What is next after up to `m` arrangements are passed over; a `none` on the way is the answer. -/
def skip (e : Enumeration) : (m : Nat) → Option (List Nat) × Enumeration
  | 0 => e.next
  | m + 1 =>
    match e.next with
    | (none, e) => (none, e)
    | (some _, e) => e.skip m

end Enumeration

end JoinOrder
