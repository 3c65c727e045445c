import JoinOrder.Proofs.Arrangement
import Mathlib.Data.List.Lex
import Mathlib.Order.Monotone.Defs
/-!
# The lexicographic order of arrangements

Ranks go through the arrangements of one length in lexicographic order and leave none out. Both are
shown along the recursion that computes the arrangement of a rank, which reads a rank as a number with
a digit for each entry.

* A larger rank has a larger first entry, or the same one and a larger rest. The rest is spread out
  around the first entry by a strictly monotone map, which keeps its place among the others.
* An arrangement has a rank: its first entry, and the rank of its rest with the gap closed that the
  first entry leaves.

So an enumeration by rank is a strictly increasing list of all arrangements, and there is only one such
list. Without its last entry an arrangement is the one of a rank that counts the numbers left for that
entry as one.
-/

namespace JoinOrder.Arrangement

variable {n k rank rank' : ℕ} {order : List ℕ}

/-! ## Closing the gap -/

theorem skip_strictMono (hole : ℕ) : StrictMono (skip hole) := by
  intro x y h
  unfold skip
  split <;> split <;> omega

/-- The number that `skip` moves to a place other than the hole. -/
def unskip (hole x : ℕ) : ℕ := if x < hole then x else x - 1

theorem skip_unskip {hole x : ℕ} (h : x ≠ hole) : skip hole (unskip hole x) = x := by
  unfold skip unskip
  split_ifs <;> omega

theorem unskip_lt {hole x : ℕ} (h : x ≠ hole) (hhole : hole < n + 1) (hx : x < n + 1) :
    unskip hole x < n := by
  unfold unskip
  split <;> omega

/-- Numbers without the hole are an arrangement of fewer numbers, spread out around the hole. -/
theorem exists_map_skip {hole : ℕ} (hhole : hole < n + 1) (hnodup : order.Nodup)
    (hlt : ∀ x ∈ order, x < n + 1) (hnotMem : hole ∉ order) :
    ∃ closed : List ℕ, closed.Nodup ∧ (∀ x ∈ closed, x < n) ∧ closed.map (skip hole) = order := by
  have hne (x : ℕ) (hx : x ∈ order) : x ≠ hole := fun h ↦ hnotMem (h ▸ hx)
  have hmap : (order.map (unskip hole)).map (skip hole) = order := by
    rw [List.map_map]
    exact (List.map_congr_left fun x hx ↦ skip_unskip (hne x hx)).trans (List.map_id order)
  refine ⟨order.map (unskip hole), List.Nodup.of_map (skip hole) ?_, fun y hy ↦ ?_, hmap⟩
  · rw [hmap]
    exact hnodup
  · obtain ⟨x, hx, rfl⟩ := List.mem_map.mp hy
    exact unskip_lt (hne x hx) hhole (hlt x hx)

/-! ## Ranks -/

/-- **A larger rank is a larger arrangement.** -/
theorem ofRank_lt_ofRank (hk : k ≤ n) (hlt : rank < rank') (hrank' : rank' < count n k) :
    ofRank n k rank < ofRank n k rank' := by
  induction k generalizing n rank rank' with
  | zero =>
    have : rank' < 1 := hrank'
    omega
  | succ k ih =>
    have hblock : 0 < count (n - 1) k := count_pos (by omega)
    rw [ofRank_succ (by omega), ofRank_succ (by omega), List.cons_lt_cons_iff]
    rcases Nat.lt_or_eq_of_le (Nat.div_le_div_right hlt.le) with hfirst | hfirst
    · exact Or.inl hfirst
    · -- the same first entry, so the ranks differ in what is left of them
      have hrest : rank % count (n - 1) k < rank' % count (n - 1) k := by
        have h := Nat.div_add_mod rank (count (n - 1) k)
        have h' := Nat.div_add_mod rank' (count (n - 1) k)
        rw [hfirst] at h
        omega
      refine Or.inr ⟨hfirst, ?_⟩
      rw [hfirst]
      exact List.map_lt (fun _ _ h ↦ skip_strictMono _ h)
        (ih (by omega) hrest (Nat.mod_lt _ hblock))

/-- **Every arrangement has a rank.** -/
theorem exists_rank (hnodup : order.Nodup) (hlt : ∀ x ∈ order, x < n) (hlength : order.length = k) :
    ∃ rank < count n k, ofRank n k rank = order := by
  induction k generalizing n order with
  | zero =>
    obtain rfl := List.length_eq_zero_iff.mp hlength
    exact ⟨0, Nat.one_pos, rfl⟩
  | succ k ih =>
    obtain ⟨first, rest, rfl⟩ := List.exists_of_length_succ order hlength
    obtain ⟨hnotMem, hrest⟩ := List.nodup_cons.mp hnodup
    have hfirst : first < n := hlt first List.mem_cons_self
    obtain ⟨n, rfl⟩ : ∃ m, n = m + 1 := ⟨n - 1, by omega⟩
    obtain ⟨closed, hclosed, hclosedLt, rfl⟩ := exists_map_skip hfirst hrest
      (fun x hx ↦ hlt x (List.mem_cons_of_mem first hx)) hnotMem
    obtain ⟨rank, hrank, rfl⟩ := ih hclosed hclosedLt (by simpa using hlength)
    -- the first entry is the leading digit
    refine ⟨count n k * first + rank, ?_, ?_⟩
    · calc count n k * first + rank < count n k * first + count n k := by omega
        _ = count n k * (first + 1) := rfl
        _ ≤ count n k * (n + 1) := Nat.mul_le_mul_left _ hfirst
        _ = count (n + 1) (k + 1) := Nat.mul_comm _ _
    · have hblock : 0 < count n k := Nat.zero_lt_of_lt hrank
      rw [ofRank_succ (by omega), Nat.add_sub_cancel, Nat.mul_add_div hblock,
        Nat.div_eq_of_lt hrank, Nat.add_zero, Nat.mul_add_mod, Nat.mod_eq_of_lt hrank]

/-! ## The last entry -/

theorem count_succ (n k : ℕ) : count n (k + 1) = count n k * (n - k) := by
  rw [count_eq_descFactorial, count_eq_descFactorial, Nat.descFactorial_succ, Nat.mul_comm]

/-- The arrangements that start alike up to the last entry follow one another, one for each number
that is left. -/
theorem dropLast_ofRank (hk : k < n) (rank : ℕ) :
    (ofRank n (k + 1) rank).dropLast = ofRank n k (rank / (n - k)) := by
  induction k generalizing n rank with
  | zero => rw [ofRank_succ hk, ofRank_zero, ofRank_zero, List.map_nil, List.dropLast_singleton]
  | succ k ih =>
    have hn : 0 < n := Nat.zero_lt_of_lt hk
    have hleft : n - 1 - k = n - (k + 1) := by omega
    have hrest : ofRank (n - 1) (k + 1) (rank % count (n - 1) (k + 1)) ≠ [] :=
      List.ne_nil_of_length_eq_add_one (length_ofRank _ _ _)
    rw [ofRank_succ hn, ofRank_succ hn, List.dropLast_cons_of_ne_nil (by simpa using hrest),
      ← List.map_dropLast, ih (by omega), count_succ, hleft, Nat.div_div_eq_div_mul,
      Nat.mul_comm (n - (k + 1)), ← Nat.mod_mul_right_div_self, Nat.mul_comm (n - (k + 1))]

/-! ## Enumeration -/

/-- The arrangements of length `k` over `n`, by rank. -/
def inOrder (n k : ℕ) : List (List ℕ) := (List.range (count n k)).map (ofRank n k)

@[simp] theorem length_inOrder (n k : ℕ) : (inOrder n k).length = count n k := by
  rw [inOrder, List.length_map, List.length_range]

theorem pairwise_inOrder (hk : k ≤ n) : (inOrder n k).Pairwise (· < ·) := by
  rw [inOrder, List.pairwise_map]
  refine List.pairwise_lt_range.imp_of_mem fun _ hrank' hlt ↦ ?_
  exact ofRank_lt_ofRank hk hlt (List.mem_range.mp hrank')

theorem mem_inOrder_iff (hk : k ≤ n) :
    order ∈ inOrder n k ↔ order.Nodup ∧ (∀ x ∈ order, x < n) ∧ order.length = k := by
  rw [inOrder, List.mem_map]
  constructor
  · rintro ⟨rank, hrank, rfl⟩
    exact ⟨nodup_ofRank hk, fun _ ↦ lt_of_mem_ofRank hk (List.mem_range.mp hrank),
      length_ofRank n k rank⟩
  · rintro ⟨hnodup, hlt, hlength⟩
    obtain ⟨rank, hrank, horder⟩ := exists_rank hnodup hlt hlength
    exact ⟨rank, List.mem_range.mpr hrank, horder⟩

theorem mem_inOrder_self_iff : order ∈ inOrder n n ↔ order.Perm (List.range n) := by
  rw [mem_inOrder_iff (Nat.le_refl n)]
  constructor
  · rintro ⟨hnodup, hlt, hlength⟩
    exact perm_range_of_nodup hnodup hlt hlength
  · intro hperm
    exact ⟨nodup_of_perm_range hperm, fun _ ↦ lt_of_perm_range hperm, length_of_perm_range hperm⟩

theorem getElem?_inOrder {rank : ℕ} (h : rank < count n k) :
    (inOrder n k)[rank]? = some (ofRank n k rank) := by
  rw [inOrder, List.getElem?_map, List.getElem?_range h, Option.map_some]

theorem getElem?_inOrder_eq_none {rank : ℕ} (h : count n k ≤ rank) : (inOrder n k)[rank]? = none :=
  List.getElem?_eq_none ((length_inOrder n k).trans_le h)

theorem take_inOrder {m : ℕ} (h : m ≤ count n k) :
    (inOrder n k).take m = (List.range m).map (ofRank n k) := by
  rw [inOrder, ← List.map_take, List.take_range, Nat.min_eq_left h]

end JoinOrder.Arrangement
