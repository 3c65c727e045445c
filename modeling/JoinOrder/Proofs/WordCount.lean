import JoinOrder.Proofs.BruteForce.HeadLength
import JoinOrder.Proofs.Enumeration
/-!
# The number of arrangements in words

How many arrangements there are is computed in 64 bits, as a saturating product of growing factors. None of
them is zero, so the product agrees with the exact one up to saturation all along. As long as it has not
saturated at the end, it counts the calls of an enumeration before its first `none`.

There is one case in which the product is not even started. The smallest factor is one more than the numbers
that are left out; and if all numbers below the largest word are left out, for the empty arrangement, that
sum leaves 64 bits. The enumeration has its one arrangement all the same.
-/

namespace JoinOrder

/-! ## Saturating products -/

/-- **Saturation on the way is saturation at the end.** -/
theorem satProductFrom_min (first terms acc : ℕ) :
    satProductFrom first terms (min acc maxWord) = min (acc * first.ascFactorial terms) maxWord := by
  induction terms generalizing first acc with
  | zero => rw [satProductFrom, Nat.ascFactorial_zero, Nat.mul_one]
  | succ terms ih =>
    have hfactors : first * (first + 1).ascFactorial terms = first.ascFactorial (terms + 1) := by
      rw [Nat.ascFactorial_succ, Nat.succ_ascFactorial]
    rw [satProductFrom]
    split
    · next hzero =>
      have hacc : acc = 0 := by
        have hword : 0 < maxWord := by decide
        omega
      rw [hacc, Nat.zero_mul, Nat.zero_min]
    · rw [satMul_min_left, satMul, ih, Nat.mul_assoc, hfactors]

namespace Arrangement

variable {n k : ℕ}

/-- The running product counts the arrangements of the last entries, with the smallest choice first. -/
theorem satProductFrom_one (n k i : ℕ) :
    satProductFrom (n - min k n + 1) i 1 = min ((n - min k n + i).descFactorial i) maxWord := by
  have hone : min 1 maxWord = 1 := rfl
  have hrun := satProductFrom_min (n - min k n + 1) i 1
  rwa [hone, Nat.one_mul, ← Nat.add_descFactorial_eq_ascFactorial] at hrun

theorem countWord?_of_le (h : n - min k n + 1 ≤ maxWord) :
    countWord? n k = some (min (n.descFactorial (min k n)) maxWord) := by
  have hterms : n + 1 - (n - min k n + 1) = min k n := by omega
  have hall : n - min k n + min k n = n := Nat.sub_add_cancel (Nat.min_le_right k n)
  rw [countWord?, if_pos h, hterms, satProductFrom_one, hall]

end Arrangement

namespace Enumeration

open Arrangement

/-- An enumeration answers so many lists, and then `none`. -/
def Yields (e : Enumeration) (lists : ℕ) : Prop :=
  (∀ i < lists, (e.answer i).isSome = true) ∧ e.answer lists = none

theorem yields_arrangements (n k : ℕ) : (arrangements n k).Yields (n.descFactorial (min k n)) := by
  rw [← count_eq_descFactorial]
  refine ⟨fun i hi ↦ ?_, ?_⟩
  · rw [answer_of_le hi.le, getElem?_inOrder hi, Option.isSome_some]
  · rw [answer_of_le le_rfl, getElem?_inOrder_eq_none le_rfl]

end Enumeration

namespace Arrangement

variable {n k : ℕ}

/-- What a count of arrangements in words is to be. -/
structure CountsInWords (n k : ℕ) : Prop where
  /-- The factors have 64 bits. -/
  bound : n - min k n + 1 ≤ maxWord
  /-- The product of the first of them is exact, or saturates. -/
  running : ∀ i ≤ min k n,
    satProductFrom (n - min k n + 1) i 1 = min ((n - min k n + i).descFactorial i) maxWord
  /-- The count is exact, or saturates. -/
  value : countWord? n k = some (min (n.descFactorial (min k n)) maxWord)
  /-- A count that has not saturated is that of the lists enumerated. -/
  yields : ∀ lists, countWord? n k = some lists → lists < maxWord →
    (Enumeration.arrangements n k).Yields lists

theorem countsInWords_iff_lt : CountsInWords n k ↔ n - min k n < maxWord := by
  constructor
  · exact fun h ↦ h.bound
  · intro h
    have hvalue := countWord?_of_le h
    refine ⟨h, fun i _ ↦ satProductFrom_one n k i, hvalue, fun lists hlists hlt ↦ ?_⟩
    obtain rfl : min (n.descFactorial (min k n)) maxWord = lists :=
      Option.some.inj (hvalue.symm.trans hlists)
    have hexact : min (n.descFactorial (min k n)) maxWord = n.descFactorial (min k n) := by omega
    rw [hexact]
    exact Enumeration.yields_arrangements n k

/-- **A count in words is exact, but for one case**: the empty arrangement of as many numbers as the largest
word says, for which nothing is counted. Everywhere else the count is the exact number up to saturation, no
other number on the way leaves 64 bits, and as long as it has not saturated, an enumeration answers as many
lists before its first `none`. -/
theorem countsInWords_iff (hn : n ≤ maxWord) : CountsInWords n k ↔ ¬(n = maxWord ∧ k = 0) := by
  have hword : 0 < maxWord := by decide
  rw [countsInWords_iff_lt]
  omega

/-- There are ninety pairs over ten numbers. Over as many numbers as the largest word says, arrangements of
one entry are counted, and fill that word; the empty one is not. -/
theorem countsInWords_words :
    (10 ≤ maxWord ∧ countWord? 10 2 = some 90 ∧ (Enumeration.arrangements 10 2).Yields 90) ∧
      countWord? maxWord 1 = some maxWord ∧ CountsInWords maxWord 1 ∧ ¬CountsInWords maxWord 0 := by
  have hfew : 10 ≤ maxWord := by decide
  have hpairs : CountsInWords 10 2 := (countsInWords_iff hfew).mpr fun h ↦ absurd h.2 (by decide)
  have hsingle : CountsInWords maxWord 1 :=
    (countsInWords_iff (Nat.le_refl maxWord)).mpr fun h ↦ absurd h.2 (by decide)
  have hempty : ¬CountsInWords maxWord 0 :=
    fun h ↦ (countsInWords_iff (Nat.le_refl maxWord)).mp h ⟨rfl, rfl⟩
  have hcount : countWord? 10 2 = some 90 := by decide
  have hlast : countWord? maxWord 1 = some maxWord := by
    rw [hsingle.value]
    decide +kernel
  exact ⟨⟨hfew, hcount, hpairs.yields 90 hcount (by decide)⟩, hlast, hsingle, hempty⟩

/-- Nothing is counted, while an enumeration answers the empty arrangement and then `none`. -/
theorem countWord?_empty_of_maxWord :
    countWord? maxWord 0 = none ∧ (Enumeration.arrangements maxWord 0).answer 0 = some [] ∧
      (Enumeration.arrangements maxWord 0).answer 1 = none ∧ ¬CountsInWords maxWord 0 := by
  have hnone : countWord? maxWord 0 = none := by decide +kernel
  refine ⟨hnone, by decide +kernel, by decide +kernel, fun h ↦ ?_⟩
  cases hnone.symm.trans h.value

end Arrangement

end JoinOrder
