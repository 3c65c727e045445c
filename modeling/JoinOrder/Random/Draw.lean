/-!
# Random draws

A source of random words is a state that yields a 32 bit word and a next state. Its words come round
sooner or later, as they must where the states are finitely many. On top of it stand even draws below a
bound and the shuffle of a list.

## Even draws

A word `v` of `b` bits picks the number `v * n / 2 ^ b` below `n`. Each number is picked by nearly the
same count of words; to make the counts equal, words whose low half of `v * n` is too large are
rejected and drawn anew. The bound on that half is `n` shifted to the top of its word, less one, so
at most every other word is rejected.

So a draw takes the first word that is accepted. It need not wait for it longer than until the words come
round: if none has been accepted by then, none ever will, and the draw is no more than the word at hand.
-/

namespace JoinOrder

/-- A source of random words that come round. -/
class RandomSource (ρ : Type) where
  /-- The source of a seed. -/
  ofSeed : UInt64 → ρ
  /-- The next word. -/
  next : ρ → UInt32 × ρ
  /-- The number of words before the first one that comes again. -/
  lead : ρ → Nat
  /-- The number of words from there on in which the source comes round. -/
  period : Nat
  period_pos : 0 < period
  comes_round : ∀ s, Nat.repeat (fun s => (next s).2) (lead s + period) s =
    Nat.repeat (fun s => (next s).2) (lead s) s

namespace Random

theorem repeat_add {α : Type} (f : α → α) (m n : Nat) (a : α) :
    Nat.repeat f (m + n) a = Nat.repeat f n (Nat.repeat f m a) := by
  induction n with
  | zero => rfl
  | succ n ih => exact congrArg f ih

variable {ρ : Type} [RandomSource ρ]

/-- The next word as a number below `2 ^ 32`. -/
def word32 (s : ρ) : Nat × ρ :=
  let (w, s) := RandomSource.next s
  (w.toNat, s)

/-- The next two words as a number below `2 ^ 64`, the low half first. -/
def word64 (s : ρ) : Nat × ρ :=
  let (low, s) := word32 s
  let (high, s) := word32 s
  (low + Nat.pow 2 32 * high, s)

/-- The largest low half with which a draw below `n` from words of `bits` bits is accepted. -/
def zone (bits n : Nat) : Nat := n * Nat.pow 2 (bits - (n.log2 + 1)) - 1

/-- A draw below `n` from words of `bits` bits, given how many words may be rejected. -/
def below (bits : Nat) (draw : ρ → Nat × ρ) (n : Nat) : (rejections : Nat) → ρ → Nat × ρ
  | 0, s =>
    let (v, s) := draw s
    (v * n / Nat.pow 2 bits, s)
  | rejections + 1, s =>
    let (v, s) := draw s
    if v * n % Nat.pow 2 bits ≤ zone bits n then (v * n / Nat.pow 2 bits, s)
    else below bits draw n rejections s

/-- The number of words a draw may reject. Words after that have been rejected before. -/
def rejections (s : ρ) : Nat := RandomSource.lead s + RandomSource.period ρ

/-- A draw below `n` from words of 32 bits. -/
def below32 (n : Nat) (s : ρ) : Nat × ρ := below 32 word32 n (rejections s) s

/-- A draw below `n` from words of 64 bits. -/
def below64 (n : Nat) (s : ρ) : Nat × ρ := below 64 word64 n (rejections s) s

/-- A list with two of its positions exchanged. -/
def swapAt {α : Type} (xs : List α) (i j : Nat) : List α := (xs.toArray.swapIfInBounds i j).toList

/-- The positions up to `last`, from the top down, each exchanged with one drawn from those not
above it. -/
def shuffleFrom {α : Type} : (last : Nat) → List α → ρ → List α × ρ
  | 0, xs, s => (xs, s)
  | last + 1, xs, s =>
    let (i, s) := below32 (last + 2) s
    shuffleFrom last (swapAt xs (last + 1) i) s

/-- A list in random order. -/
def shuffle {α : Type} (xs : List α) (s : ρ) : List α × ρ := shuffleFrom (xs.length - 1) xs s

end Random

end JoinOrder
