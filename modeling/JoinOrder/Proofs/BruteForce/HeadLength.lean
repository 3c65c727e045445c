import JoinOrder.Proofs.Lexicographic
import JoinOrder.Search.Sweep
import Mathlib.Data.Nat.Choose.Basic
import Mathlib.Order.Bounds.Basic
/-!
# The length of the heads

A head grows as long as the heads of one operand more, times the pairs of operands that are left, stay
below a limit. The products saturate at 64 bits. That makes no difference as long as the limit has 64
bits itself: the running product agrees with the number of heads up to saturation, and once the pairs
saturate there are more than 32 bits of operands, so that both the saturated and the exact product are
out of reach of the limit.
-/

namespace JoinOrder

variable {a a' b limit : ℕ}

/-! ## Saturating products -/

theorem satMul_min_left (a b : ℕ) : satMul (min a maxWord) b = satMul a b := by
  rcases Nat.le_total a maxWord with hle | hle
  · rw [Nat.min_eq_left hle]
  · rw [Nat.min_eq_right hle, satMul, satMul]
    rcases Nat.eq_zero_or_pos b with rfl | hb
    · rw [Nat.mul_zero, Nat.mul_zero]
    · have hword : maxWord ≤ maxWord * b := Nat.le_mul_of_pos_right _ hb
      rw [Nat.min_eq_right hword, Nat.min_eq_right (hword.trans (Nat.mul_le_mul_right b hle))]

theorem satMul_congr (h : min a maxWord = min a' maxWord) (b : ℕ) : satMul a b = satMul a' b := by
  rw [← satMul_min_left a, h, satMul_min_left]

/-- A limit of 64 bits sees no difference between a product and a saturating one. -/
theorem satMul_lt_iff (hlimit : limit ≤ maxWord) : satMul a b < limit ↔ a * b < limit := by
  unfold satMul
  omega

/-- Pairs of so many numbers that their product saturates are out of reach of a limit of 64 bits, once
multiplied with that many. -/
theorem maxWord_le_mul_of_saturates {m total : ℕ} (hsaturates : maxWord < (m + 1) * m)
    (htotal : m + 1 ≤ total) : maxWord ≤ total * (maxWord / 2) := by
  have hword : maxWord = 2 ^ 64 - 1 := rfl
  have hm : 2 ^ 32 ≤ m := by
    by_contra hless
    have hle : (m + 1) * m ≤ 2 ^ 32 * (2 ^ 32 - 1) := Nat.mul_le_mul (by omega) (by omega)
    omega
  calc maxWord ≤ 2 ^ 32 * (maxWord / 2) := by omega
    _ ≤ total * (maxWord / 2) := Nat.mul_le_mul_right _ (by omega)

namespace Sweep

open Arrangement

variable {n length remaining total : ℕ}

/-! ## Growth -/

/-- What has to stay below the limit for a head of a length to grow. -/
def growth (n length : ℕ) : ℕ := count n (length + 1) * (n - length).choose 2

theorem le_count_succ (h : length < n) : n ≤ count n (length + 1) := by
  rw [count]
  exact Nat.le_mul_of_pos_right n (count_pos (by omega))

/-- **The saturating comparison is exact.** -/
theorem satMul_lt_iff_growth_lt (hlimit : limit ≤ maxWord) (hn : length + (remaining + 1) = n)
    (htotal : min total maxWord = min (count n (length + 1)) maxWord) :
    satMul total (satMul (remaining + 1) remaining / 2) < limit ↔ growth n length < limit := by
  have hleft : n - length = remaining + 1 := by omega
  rw [satMul_congr htotal, satMul_lt_iff hlimit, growth, hleft, Nat.choose_two_right,
    Nat.add_sub_cancel]
  rcases Nat.lt_or_ge maxWord ((remaining + 1) * remaining) with hsaturates | hexact
  · have hcount : remaining + 1 ≤ count n (length + 1) :=
      le_trans (by omega) (le_count_succ (n := n) (by omega))
    have hpairs := maxWord_le_mul_of_saturates hsaturates hcount
    have hmono : count n (length + 1) * (maxWord / 2) ≤
        count n (length + 1) * ((remaining + 1) * remaining / 2) :=
      Nat.mul_le_mul_left _ (Nat.div_le_div_right hsaturates.le)
    rw [satMul, Nat.min_eq_right hsaturates.le]
    omega
  · rw [satMul, Nat.min_eq_left hexact]

theorem min_satMul_count (hn : length + (remaining + 1) = n)
    (htotal : min total maxWord = min (count n (length + 1)) maxWord) :
    min (satMul total remaining) maxWord = min (count n (length + 1 + 1)) maxWord := by
  have hleft : n - (length + 1) = remaining := by omega
  rw [satMul_congr htotal, satMul, min_assoc, min_self, count_succ n (length + 1), hleft]

/-- Where heads that grow from a length stop: at the first length that leads to the limit, or when they
are complete. -/
structure StopsAt (n limit length stop : ℕ) : Prop where
  le : length ≤ stop
  le_size : stop ≤ n
  grows : ∀ k, length ≤ k → k < stop → growth n k < limit
  stops : stop < n → limit ≤ growth n stop

theorem stopsAt_headLengthFrom (hlimit : limit ≤ maxWord) (hn : length + remaining = n)
    (htotal : min total maxWord = min (count n (length + 1)) maxWord) :
    StopsAt n limit length (headLengthFrom limit remaining total length) := by
  induction remaining generalizing total length with
  | zero =>
    rw [headLengthFrom]
    exact ⟨Nat.le_refl _, hn.le, fun _ hle hlt ↦ by omega, fun hlt ↦ by omega⟩
  | succ remaining ih =>
    have hgrows := satMul_lt_iff_growth_lt hlimit hn htotal
    rw [headLengthFrom]
    split
    · next hlt =>
      obtain ⟨hle, hsize, hbelow, hstop⟩ := ih (by omega) (min_satMul_count hn htotal)
      refine ⟨by omega, hsize, fun k hk hkstop ↦ ?_, hstop⟩
      rcases Nat.eq_or_lt_of_le hk with rfl | hk
      · exact hgrows.mp hlt
      · exact hbelow k hk hkstop
    · next hnot =>
      refine ⟨Nat.le_refl _, by omega, fun k hk hkstop ↦ by omega, fun _ ↦ ?_⟩
      exact Nat.not_lt.mp (mt hgrows.mpr hnot)

/-- **Heads grow up to the first length that leads to the limit.** -/
theorem stopsAt_headLength (n : ℕ) (hlimit : limit ≤ maxWord) :
    StopsAt n limit 0 (headLength n limit) := by
  refine stopsAt_headLengthFrom hlimit (Nat.zero_add n) ?_
  rw [Nat.zero_add, count_eq_descFactorial, Nat.descFactorial_one]

theorem growth_eq (n length : ℕ) :
    growth n length = n.descFactorial (length + 1) * ((n - length) * (n - length - 1) / 2) := by
  rw [growth, count_eq_descFactorial, Nat.choose_two_right]

theorem StopsAt.le_of_le {limit' stop stop' : ℕ} (h : StopsAt n limit' 0 stop')
    (h' : StopsAt n limit 0 stop) (hle : limit' ≤ limit) : stop' ≤ stop := by
  by_contra hless
  have hlt : stop < stop' := Nat.not_le.mp hless
  have hgrows := h.grows stop (Nat.zero_le _) hlt
  have hstops := h'.stops (hlt.trans_le h.le_size)
  omega

/-- **The length of the heads is the least that is complete or leads to the limit**, in exact arithmetic.
Saturation makes no difference to it. It is at most the number of operands, and a larger limit makes no head
shorter. -/
theorem isLeast_headLength (n : ℕ) (hlimit : limit ≤ maxWord) :
    IsLeast {p | p ≤ n ∧ (p = n ∨
        limit ≤ n.descFactorial (p + 1) * ((n - p) * (n - p - 1) / 2))} (headLength n limit) ∧
      headLength n limit ≤ n ∧
      ∀ limit' ≤ limit, headLength n limit' ≤ headLength n limit := by
  have hstops := stopsAt_headLength n hlimit
  refine ⟨⟨⟨hstops.le_size, ?_⟩, ?_⟩, hstops.le_size, fun limit' hle ↦ ?_⟩
  · rw [← growth_eq n]
    exact (Nat.eq_or_lt_of_le hstops.le_size).imp_right hstops.stops
  · rintro p ⟨hp, hstop⟩
    by_contra hless
    have hlt : p < headLength n limit := Nat.not_le.mp hless
    rcases hstop with rfl | hgrowth
    · exact hless hstops.le_size
    · rw [← growth_eq] at hgrowth
      exact Nat.not_lt.mpr hgrowth (hstops.grows p (Nat.zero_le _) hlt)
  · exact (stopsAt_headLength n (hle.trans hlimit)).le_of_le hstops hle

/-- Heads of eight operands have two of them. Of very many operands the pairs saturate at once, and heads have
none. -/
theorem isLeast_headLength_words :
    2000 ≤ maxWord ∧ headLength 8 2000 = 2 ∧
      IsLeast {p | p ≤ 8 ∧ (p = 8 ∨
        2000 ≤ Nat.descFactorial 8 (p + 1) * ((8 - p) * (8 - p - 1) / 2))} 2 ∧
      headLength maxWord maxWord = 0 ∧ ∀ limit' ≤ maxWord, headLength maxWord limit' = 0 := by
  have hfew : 2000 ≤ maxWord := by decide
  have hsmall : headLength 8 2000 = 2 := by decide
  have hlarge : headLength maxWord maxWord = 0 := by decide +kernel
  obtain ⟨hleast, -⟩ := isLeast_headLength 8 hfew
  obtain ⟨-, -, hmono⟩ := isLeast_headLength maxWord (Nat.le_refl maxWord)
  rw [hsmall] at hleast
  rw [hlarge] at hmono
  exact ⟨hfew, hsmall, hleast, hlarge, fun limit' hle ↦ Nat.le_zero.mp (hmono limit' hle)⟩

end Sweep

end JoinOrder
