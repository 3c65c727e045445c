import JoinOrder.Random.Draw
/-!
# The ChaCha word stream

The stream of a key is the concatenation of its blocks, numbered from zero in 64 bits. A block starts from four
rows of four words (constants, key, key, block number) and is mixed twelve times. One mixing works on
all four columns of the rows at once; between mixings the rows are rotated against each other, so
that columns and diagonals take turns.

## Seeds

A seed is stretched to a key by a linear congruential generator, whose state is permuted into one
word at each step.
-/

namespace JoinOrder

namespace ChaCha

/-! ## Rows -/

/-- Four words side by side. -/
structure Row where
  /-- The first word. -/
  a : UInt32
  /-- The second word. -/
  b : UInt32
  /-- The third word. -/
  c : UInt32
  /-- The fourth word. -/
  d : UInt32

/-- A word rotated to the left. -/
def rotateLeft (x : UInt32) (k : Nat) : UInt32 :=
  x <<< UInt32.ofNat k ||| x >>> UInt32.ofNat (32 - k)

namespace Row

/-- The sums, word by word. -/
def add (x y : Row) : Row := ⟨x.a + y.a, x.b + y.b, x.c + y.c, x.d + y.d⟩

/-- The exclusive ors, word by word. -/
def xor (x y : Row) : Row := ⟨x.a ^^^ y.a, x.b ^^^ y.b, x.c ^^^ y.c, x.d ^^^ y.d⟩

/-- Each word rotated to the left. -/
def rotate (x : Row) (k : Nat) : Row :=
  ⟨rotateLeft x.a k, rotateLeft x.b k, rotateLeft x.c k, rotateLeft x.d k⟩

/-- The words moved one place to the front. -/
def turn (x : Row) : Row := ⟨x.b, x.c, x.d, x.a⟩

/-- The words in order. -/
def toList (x : Row) : List UInt32 := [x.a, x.b, x.c, x.d]

end Row

/-! ## Blocks -/

/-- Four rows of words. -/
structure Block where
  /-- The first row. -/
  r0 : Row
  /-- The second row. -/
  r1 : Row
  /-- The third row. -/
  r2 : Row
  /-- The fourth row. -/
  r3 : Row

namespace Block

/-- One mixing of every column. -/
def mix (x : Block) : Block :=
  let r0 := x.r0.add x.r1
  let r3 := (x.r3.xor r0).rotate 16
  let r2 := x.r2.add r3
  let r1 := (x.r1.xor r2).rotate 12
  let r0 := r0.add r1
  let r3 := (r3.xor r0).rotate 8
  let r2 := r2.add r3
  let r1 := (r1.xor r2).rotate 7
  ⟨r0, r1, r2, r3⟩

/-- A mixing of the columns and one of the diagonals. -/
def doubleRound (x : Block) : Block :=
  let x := x.mix
  let x := (⟨x.r0, x.r1.turn, x.r2.turn.turn, x.r3.turn.turn.turn⟩ : Block).mix
  ⟨x.r0, x.r1.turn.turn.turn, x.r2.turn.turn, x.r3.turn⟩

/-- The sums of two blocks, word by word. -/
def add (x y : Block) : Block :=
  ⟨x.r0.add y.r0, x.r1.add y.r1, x.r2.add y.r2, x.r3.add y.r3⟩

/-- The words in order. -/
def toList (x : Block) : List UInt32 :=
  x.r0.toList ++ x.r1.toList ++ x.r2.toList ++ x.r3.toList

/-- The text `expand 32-byte k`, four bytes to a word. -/
def constants : Row := ⟨0x61707865, 0x3320646e, 0x79622d32, 0x6b206574⟩

/-- The block a key and a block number start from. -/
def initial (key : Row × Row) (number : UInt64) : Block :=
  ⟨constants, key.1, key.2, ⟨number.toUInt32, (number >>> 32).toUInt32, 0, 0⟩⟩

/-- The mixed block of a key and a block number. -/
def ofKey (key : Row × Row) (number : UInt64) : Block :=
  let start := initial key number
  start.doubleRound.doubleRound.doubleRound.doubleRound.doubleRound.doubleRound.add start

end Block

/-! ## Seeds -/

/-- The next state of the generator that stretches a seed. -/
def seedStep (state : UInt64) : UInt64 := state * 6364136223846793005 + 11634580027462260723

/-- The word of a generator state. -/
def seedWord (state : UInt64) : UInt32 :=
  let x := (((state >>> 18) ^^^ state) >>> 27).toUInt32
  let turn := (state >>> 59).toUInt32
  x >>> turn ||| x <<< ((32 - turn) % 32)

/-- The next four words of the generator, and its state after them. -/
def seedRow (state : UInt64) : Row × UInt64 :=
  let s1 := seedStep state
  let s2 := seedStep s1
  let s3 := seedStep s2
  let s4 := seedStep s3
  (⟨seedWord s1, seedWord s2, seedWord s3, seedWord s4⟩, s4)

/-- The key of a seed. -/
def keyOfSeed (seed : UInt64) : Row × Row :=
  let (first, state) := seedRow seed
  (first, (seedRow state).1)

end ChaCha

/-! ## The stream -/

/-- A place in the word stream of a key: the words left of the block at hand, and the number of the
block after it. -/
structure ChaCha where
  /-- The key. -/
  key : ChaCha.Row × ChaCha.Row
  /-- The number of the next block. -/
  number : UInt64 := 0
  /-- The words left of the block before it. -/
  pending : List UInt32 := []

namespace ChaCha

/-- The start of the stream of a seed. -/
def ofSeed (seed : UInt64) : ChaCha := { key := keyOfSeed seed }

/-- The next word of the stream. -/
def next (s : ChaCha) : UInt32 × ChaCha :=
  match s.pending with
  | word :: rest => (word, { s with pending := rest })
  | [] =>
    match (Block.ofKey s.key s.number).toList with
    | word :: rest => (word, { s with number := s.number + 1, pending := rest })
    | [] => (0, s)

/-! ## The stream comes round -/

section

variable {key : Row × Row} {number : UInt64}

/-- The words left of a block come first. -/
theorem repeat_next_pending (words : List UInt32) :
    Nat.repeat (fun s => (next s).2) words.length ⟨key, number, words⟩ = ⟨key, number, []⟩ := by
  induction words with
  | nil => rfl
  | cons word words ih =>
    rw [List.length_cons, Nat.add_comm, Random.repeat_add]
    exact ih

theorem repeat_next_block :
    Nat.repeat (fun s => (next s).2) 16 ⟨key, number, []⟩ = ⟨key, number + 1, []⟩ := by
  have hlength : (Block.ofKey key number).toList.length = 16 := rfl
  cases hwords : (Block.ofKey key number).toList with
  | nil => simp [hwords] at hlength
  | cons word words =>
    have hrest : words.length = 15 := by simpa [hwords] using hlength
    have hnext : (next ⟨key, number, []⟩).2 = ⟨key, number + 1, words⟩ := by simp [next, hwords]
    have hpending : Nat.repeat (fun s => (next s).2) 15 ⟨key, number + 1, words⟩ =
        ⟨key, number + 1, []⟩ := hrest ▸ repeat_next_pending words
    rw [← hpending, ← hnext]
    exact Random.repeat_add (fun s => (next s).2) 1 15 _

theorem repeat_next_blocks (blocks : Nat) :
    Nat.repeat (fun s => (next s).2) (16 * blocks) ⟨key, number, []⟩ =
      ⟨key, number + UInt64.ofNat blocks, []⟩ := by
  induction blocks with
  | zero => exact congrArg (ChaCha.mk key · []) (UInt64.add_zero number).symm
  | succ blocks ih =>
    rw [Nat.mul_succ, Random.repeat_add, ih, repeat_next_block, UInt64.add_assoc, UInt64.ofNat_add]
    rfl

end

/-- The block numbers come round, and the blocks with them. -/
instance : RandomSource ChaCha where
  ofSeed := ofSeed
  next := next
  lead s := s.pending.length
  period := 16 * Nat.pow 2 64
  period_pos := by decide
  comes_round s := by
    have hround : UInt64.ofNat (Nat.pow 2 64) = 0 := rfl
    rw [Random.repeat_add, repeat_next_pending, repeat_next_blocks, hround, UInt64.add_zero]

end ChaCha

end JoinOrder
