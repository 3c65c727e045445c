import JoinOrder.Random.Draw
import Mathlib.Data.Sym.Card
import Mathlib.Logic.Equiv.Basic
import Mathlib.Order.Bounds.Basic
/-!
# Draws and exchanges

A draw is below its bound whatever the words are that it is made from. If any word of the source is ever
accepted, the draw is made from the first of them. For the words of a source come round: what comes after
that has come before, and this also holds of its words two by two. So the draw does not have to wait for
longer than it does.

An exchange of two positions only rearranges a list, and so does a shuffle, which is a row of exchanges.

On a list without duplicates the exchange of two distinct positions can be read off its result: different
pairs of positions give different lists, and none of them gives the list back. So the lists one exchange
away are as many as the pairs.
-/

namespace JoinOrder

namespace Random

/-! ## Draws -/

section Draws

variable {ρ : Type} {bits n : ℕ} {word : ρ → ℕ × ρ}

theorem below_lt (hword : ∀ s, (word s).1 < Nat.pow 2 bits) (hn : 0 < n) (limit : ℕ) (s : ρ) :
    (below bits word n limit s).1 < n := by
  have hdraw (s : ρ) : (word s).1 * n / Nat.pow 2 bits < n :=
    Nat.div_lt_of_lt_mul (Nat.mul_lt_mul_of_pos_right (hword s) hn)
  induction limit generalizing s with
  | zero => exact hdraw s
  | succ limit ih =>
    rw [below]
    dsimp only
    split
    · exact hdraw s
    · exact ih _

/-! ## The first word accepted -/

/-- The source after so many words of some kind. -/
def after (word : ρ → ℕ × ρ) (words : ℕ) (s : ρ) : ρ := Nat.repeat (fun s ↦ (word s).2) words s

/-- The word after so many others. -/
def wordAt (word : ρ → ℕ × ρ) (words : ℕ) (s : ρ) : ℕ := (word (after word words s)).1

/-- A draw below `n` is made from this word. -/
def Accepts (bits n v : ℕ) : Prop := v * n % Nat.pow 2 bits ≤ zone bits n

theorem after_add (word : ρ → ℕ × ρ) (i j : ℕ) (s : ρ) :
    after word (i + j) s = after word j (after word i s) := repeat_add _ i j s

theorem wordAt_succ (word : ρ → ℕ × ρ) (i : ℕ) (s : ρ) :
    wordAt word (i + 1) s = wordAt word i (word s).2 := by
  rw [wordAt, Nat.add_comm, after_add]
  rfl

theorem below_of_isLeast {i limit : ℕ} {s : ρ}
    (hfirst : IsLeast {i | Accepts bits n (wordAt word i s)} i) (hi : i ≤ limit) :
    below bits word n limit s = (wordAt word i s * n / Nat.pow 2 bits, after word (i + 1) s) := by
  induction i generalizing limit s with
  | zero =>
    have haccepted : Accepts bits n (word s).1 := hfirst.1
    cases limit with
    | zero => rfl
    | succ limit => exact if_pos haccepted
  | succ i ih =>
    obtain ⟨limit, rfl⟩ : ∃ m, limit = m + 1 := ⟨limit - 1, by omega⟩
    have hrejected : ¬Accepts bits n (word s).1 := fun h ↦ Nat.not_succ_le_zero i (hfirst.2 h)
    have hrest : IsLeast {i | Accepts bits n (wordAt word i (word s).2)} i := by
      simp only [← wordAt_succ]
      exact ⟨hfirst.1, fun j hj ↦ Nat.le_of_succ_le_succ (hfirst.2 hj)⟩
    have hbelow := ih hrest (Nat.le_of_succ_le_succ hi)
    rw [wordAt_succ, Nat.add_comm (i + 1) 1, after_add]
    exact (if_neg hrejected).trans hbelow

/-- What comes after a source has come round has come before. -/
theorem exists_lt_after_eq {lead period : ℕ} {s : ρ} (hpos : 0 < period)
    (hround : after word (lead + period) s = after word lead s) (i : ℕ) :
    ∃ j < lead + period, after word j s = after word i s := by
  induction i using Nat.strong_induction_on with
  | h i ih =>
    by_cases hi : i < lead + period
    · exact ⟨i, hi, rfl⟩
    · obtain ⟨m, rfl⟩ : ∃ m, i = lead + period + m := ⟨i - (lead + period), by omega⟩
      obtain ⟨j, hj, heq⟩ := ih (lead + m) (by omega)
      refine ⟨j, hj, heq.trans ?_⟩
      rw [after_add, ← hround, ← after_add]

/-! ## Words of a source -/

variable [RandomSource ρ]

theorem word32_lt (s : ρ) : (word32 s).1 < Nat.pow 2 32 := UInt32.toNat_lt _

theorem word64_lt (s : ρ) : (word64 s).1 < Nat.pow 2 64 := by
  have hlow := word32_lt s
  have hhigh := word32_lt (word32 s).2
  calc (word32 s).1 + Nat.pow 2 32 * (word32 (word32 s).2).1
      < Nat.pow 2 32 + Nat.pow 2 32 * (word32 (word32 s).2).1 := by omega
    _ = Nat.pow 2 32 * ((word32 (word32 s).2).1 + 1) := Nat.add_comm _ _
    _ ≤ Nat.pow 2 32 * Nat.pow 2 32 := Nat.mul_le_mul_left _ hhigh
    _ = Nat.pow 2 64 := rfl

theorem below32_lt (hn : 0 < n) (s : ρ) : (below32 n s).1 < n := below_lt word32_lt hn _ s

theorem below64_lt (hn : 0 < n) (s : ρ) : (below64 n s).1 < n := below_lt word64_lt hn _ s

theorem below_rejections {i : ℕ} {s : ρ}
    (hround : after word (rejections s) s = after word (RandomSource.lead s) s)
    (hfirst : IsLeast {i | Accepts bits n (wordAt word i s)} i) :
    below bits word n (rejections s) s =
      (wordAt word i s * n / Nat.pow 2 bits, after word (i + 1) s) := by
  obtain ⟨j, hj, heq⟩ := exists_lt_after_eq RandomSource.period_pos hround i
  have hagain : Accepts bits n (wordAt word j s) := by
    rw [wordAt, heq]
    exact hfirst.1
  exact below_of_isLeast hfirst ((hfirst.2 hagain).trans hj.le)

theorem after_word32_rejections (s : ρ) :
    after word32 (rejections s) s = after word32 (RandomSource.lead s) s :=
  RandomSource.comes_round s

theorem after_word64 (words : ℕ) (s : ρ) : after word64 words s = after word32 (words + words) s := by
  induction words with
  | zero => rfl
  | succ words ih =>
    have hwords : words + 1 + (words + 1) = words + words + 1 + 1 := by omega
    rw [hwords]
    exact congrArg (fun s ↦ (word64 s).2) ih

theorem after_word64_rejections (s : ρ) :
    after word64 (rejections s) s = after word64 (RandomSource.lead s) s := by
  have hround := after_word32_rejections s
  rw [after_word64, after_word64, after_add, hround, ← after_add, Nat.add_comm, after_add, hround,
    ← after_add]

/-- **A draw is made from the first word that is accepted**, if any ever is. -/
theorem below32_of_isLeast {i : ℕ} {s : ρ}
    (hfirst : IsLeast {i | Accepts 32 n (wordAt word32 i s)} i) :
    below32 n s = (wordAt word32 i s * n / Nat.pow 2 32, after word32 (i + 1) s) :=
  below_rejections (after_word32_rejections s) hfirst

theorem below64_of_isLeast {i : ℕ} {s : ρ}
    (hfirst : IsLeast {i | Accepts 64 n (wordAt word64 i s)} i) :
    below64 n s = (wordAt word64 i s * n / Nat.pow 2 64, after word64 (i + 1) s) :=
  below_rejections (after_word64_rejections s) hfirst

end Draws

/-! ## Rearrangements -/

variable {α : Type}

theorem swapAt_perm (xs : List α) (i j : ℕ) : (swapAt xs i j).Perm xs := by
  unfold swapAt Array.swapIfInBounds
  split
  · split
    · exact (Array.swap_perm _ _).toList
    · exact .refl _
  · exact .refl _

theorem shuffleFrom_perm {ρ : Type} [RandomSource ρ] (last : ℕ) (xs : List α) (s : ρ) :
    (shuffleFrom last xs s).1.Perm xs := by
  induction last generalizing xs s with
  | zero => exact .refl xs
  | succ last ih => exact (ih _ _).trans (swapAt_perm xs _ _)

theorem shuffle_perm {ρ : Type} [RandomSource ρ] (xs : List α) (s : ρ) : (shuffle xs s).1.Perm xs :=
  shuffleFrom_perm _ xs s

/-! ## Exchanges -/

theorem getElem?_swapAt {xs : List α} {i j : ℕ} (hi : i < xs.length) (hj : j < xs.length) (k : ℕ) :
    (swapAt xs i j)[k]? = xs[Equiv.swap i j k]? := by
  have hsize : i < xs.toArray.size ∧ j < xs.toArray.size := ⟨hi, hj⟩
  rw [swapAt, Array.swapIfInBounds, dif_pos hsize.1, dif_pos hsize.2, Array.getElem?_toList,
    Array.getElem?_swap, Equiv.swap_apply_def]
  by_cases hkj : j = k
  · subst hkj
    by_cases hji : j = i <;> simp [hji, hi]
  · by_cases hki : k = i
    · subst hki
      simp [hkj, hj]
    · simp [hki, hkj, Ne.symm hki, Ne.symm hkj]

theorem swapAt_ne {xs : List α} (hxs : xs.Nodup) {i j : ℕ} (hi : i < xs.length) (hj : j < xs.length)
    (hij : i ≠ j) : swapAt xs i j ≠ xs := by
  intro heq
  have hat : xs[i]? = xs[j]? := by
    rw [← congrArg (·[i]?) heq, getElem?_swapAt hi hj, Equiv.swap_apply_left]
  exact hij ((List.getElem?_inj hi hxs).mp hat)

theorem pair_eq_of_swapAt_eq {xs : List α} (hxs : xs.Nodup) {i j k l : ℕ} (hi : i < xs.length)
    (hj : j < xs.length) (hk : k < xs.length) (hl : l < xs.length) (hij : i ≠ j)
    (heq : swapAt xs i j = swapAt xs k l) : s(i, j) = s(k, l) := by
  have hat : xs[j]? = xs[Equiv.swap k l i]? := by
    rw [← getElem?_swapAt hk hl, ← heq, getElem?_swapAt hi hj, Equiv.swap_apply_left]
  have hj' : j = Equiv.swap k l i := (List.getElem?_inj hj hxs).mp hat
  rw [Equiv.swap_apply_def] at hj'
  rw [Sym2.eq_iff]
  split at hj'
  · next hik => exact .inl ⟨hik, hj'⟩
  · split at hj'
    · next hil => exact .inr ⟨hil, hj'⟩
    · exact absurd hj'.symm hij

theorem length_le_of_pairs {n : ℕ} {pairs : List (ℕ × ℕ)}
    (hnodup : (pairs.map Sym2.mk.uncurry).Nodup)
    (hpairs : ∀ q ∈ pairs, q.1 < n ∧ q.2 < n ∧ q.1 ≠ q.2) : pairs.length ≤ n * (n - 1) / 2 := by
  have hsub : (pairs.map Sym2.mk.uncurry).toFinset ⊆
      (Finset.range n).offDiag.image Sym2.mk.uncurry := by
    intro z hz
    obtain ⟨q, hq, rfl⟩ := List.mem_map.mp (List.mem_toFinset.mp hz)
    obtain ⟨h₁, h₂, hne⟩ := hpairs q hq
    refine Finset.mem_image_of_mem _ (Finset.mem_offDiag.mpr ⟨?_, ?_, hne⟩)
    · exact Finset.mem_range.mpr h₁
    · exact Finset.mem_range.mpr h₂
  calc pairs.length = (pairs.map Sym2.mk.uncurry).toFinset.card := by
        rw [List.toFinset_card_of_nodup hnodup, List.length_map]
    _ ≤ ((Finset.range n).offDiag.image Sym2.mk.uncurry).card := Finset.card_le_card hsub
    _ = n.choose 2 := by rw [Sym2.card_image_offDiag, Finset.card_range]
    _ = n * (n - 1) / 2 := Nat.choose_two_right n

end Random

end JoinOrder
