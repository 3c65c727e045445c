import JoinOrder.Arrangement
import Mathlib.Data.List.Perm.Subperm
import Mathlib.Data.List.Nodup
import Mathlib.Data.Nat.Factorial.Basic
/-!
# Arrangements are duplicate free

The arrangement of a rank is computed and never compared with another one, so that it repeats no number
has to come out of the arithmetic of ranks. It does, entry by entry: the first entry is the rank divided
by the size of a block, the rest is an arrangement over one number fewer, and `skip` makes room for the
first entry among the numbers of the rest. Hence the first entry is not met again, and the rest, moved
apart by an injection, stays duplicate free.

An arrangement of all numbers below `n` is thereby a rearrangement of `0, 1, …, n - 1`.
-/

namespace JoinOrder.Arrangement

theorem count_pos {n k : ℕ} (h : k ≤ n) : 0 < count n k := by
  induction k generalizing n with
  | zero => exact Nat.one_pos
  | succ k ih => exact Nat.mul_pos (by omega) (ih (by omega))

theorem count_eq_descFactorial (n k : ℕ) : count n k = n.descFactorial k := by
  induction k generalizing n with
  | zero => rfl
  | succ k ih =>
    rw [count, ih]
    cases n with
    | zero => rw [Nat.zero_mul, Nat.zero_descFactorial_succ]
    | succ n => rw [Nat.succ_descFactorial_succ, Nat.add_sub_cancel]

/-! ## Making room for a number -/

theorem skip_ne (hole x : ℕ) : skip hole x ≠ hole := by
  unfold skip
  split <;> omega

theorem skip_injective (hole : ℕ) : Function.Injective (skip hole) := by
  intro x y h
  unfold skip at h
  split at h <;> split at h <;> omega

theorem skip_lt {hole x n : ℕ} (h : x < n) : skip hole x < n + 1 := by
  unfold skip
  split <;> omega

/-! ## The arrangement of a rank -/

@[simp] theorem length_ofRank (n k rank : ℕ) : (ofRank n k rank).length = k := by
  suffices h : ∀ n total rank, (ofRankAmong n k total rank).length = k from h n _ rank
  induction k with
  | zero => intro _ _ _; rfl
  | succ k ih =>
    intro n total rank
    rw [ofRankAmong, List.length_cons, List.length_map, ih]

theorem div_count_lt {n k rank : ℕ} (hk : k < n) (h : rank < count n (k + 1)) :
    rank / count (n - 1) k < n :=
  (Nat.div_lt_iff_lt_mul (count_pos (by omega))).mpr h

theorem lt_of_mem_ofRank {n k rank x : ℕ} (hk : k ≤ n) (h : rank < count n k)
    (hx : x ∈ ofRank n k rank) : x < n := by
  induction k generalizing n rank x with
  | zero => exact absurd hx List.not_mem_nil
  | succ k ih =>
    obtain ⟨n, rfl⟩ : ∃ m, n = m + 1 := ⟨n - 1, by omega⟩
    rw [ofRank_succ (by omega), List.mem_cons, List.mem_map] at hx
    rcases hx with rfl | ⟨y, hy, rfl⟩
    · exact div_count_lt hk h
    · exact skip_lt (ih (by omega) (Nat.mod_lt _ (count_pos (by omega))) hy)

theorem nodup_ofRank {n k rank : ℕ} (hk : k ≤ n) : (ofRank n k rank).Nodup := by
  induction k generalizing n rank with
  | zero => exact List.nodup_nil
  | succ k ih =>
    rw [ofRank_succ (by omega), List.nodup_cons]
    refine ⟨fun hmem ↦ ?_, (ih (by omega)).map (skip_injective _)⟩
    obtain ⟨y, -, hy⟩ := List.mem_map.mp hmem
    exact skip_ne _ _ hy

/-! ## Orderings -/

theorem perm_range_of_nodup {n : ℕ} {order : List ℕ} (hnodup : order.Nodup)
    (hlt : ∀ x ∈ order, x < n) (hlen : order.length = n) : order.Perm (List.range n) := by
  have hsub : order ⊆ List.range n := fun x hx ↦ List.mem_range.mpr (hlt x hx)
  have hlength : (List.range n).length = order.length := List.length_range.trans hlen.symm
  exact (hnodup.subperm hsub).perm_of_length_le (Nat.le_of_eq hlength)

theorem nodup_of_perm_range {n : ℕ} {order : List ℕ} (h : order.Perm (List.range n)) :
    order.Nodup := h.nodup_iff.mpr List.nodup_range

theorem lt_of_perm_range {n x : ℕ} {order : List ℕ} (h : order.Perm (List.range n))
    (hx : x ∈ order) : x < n := List.mem_range.mp (h.subset hx)

theorem length_of_perm_range {n : ℕ} {order : List ℕ} (h : order.Perm (List.range n)) :
    order.length = n := h.length_eq.trans List.length_range

theorem exists_cons_of_perm_range {n : ℕ} {order : List ℕ} (h : order.Perm (List.range n))
    (hn : n ≠ 0) : ∃ head rest, order = head :: rest := by
  refine List.exists_cons_of_ne_nil ?_
  rintro rfl
  exact hn (List.range_eq_nil.mp h.nil_eq.symm)

theorem ofRank_perm_range {n rank : ℕ} (h : rank < count n n) :
    (ofRank n n rank).Perm (List.range n) :=
  perm_range_of_nodup (nodup_ofRank (Nat.le_refl n))
    (fun _ hx ↦ lt_of_mem_ofRank (Nat.le_refl n) h hx) (length_ofRank n n rank)

end JoinOrder.Arrangement
