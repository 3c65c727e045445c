import JoinOrder.Proofs.Turning
import Mathlib.Logic.Function.Iterate
/-!
# Enumerations

An enumeration makes each arrangement from the one before it. That its answers are all arrangements of a
length, in lexicographic order, over and over again, is shown by following it with a rank that it does not
know itself. A walk *is at* a rank if what it keeps is what it should keep there: while it reads, the rank
counts the numbers read since the first arrangement; later it is the rank of its round. The rank after the
last one stands for the end of a round, and also for a walk that has not begun.

Each call moves a walk on by one rank, from the rank after the last one to the first. This holds across the
change from reading to turning too, where a row is laid out and brought to the arrangement that is next. So
after any number of calls the rank is that number modulo the length of a cycle, in which `none` takes a place
of its own.

The empty arrangement is the exception. An enumeration of it has no walk, and only remembers whether it is
still to come.
-/

namespace JoinOrder

open Arrangement

variable {n k rank : ℕ}

/-! ## Numbers read one by one -/

namespace Supply

theorem more_range (read : ℕ) :
    (Supply.mk n (.range read)).more =
      if read < n then some ⟨n, .range (read + 1)⟩ else none := by
  simp [more, Array.range_succ]

theorem reserve_range {count read : ℕ} (h : read + count ≤ n) :
    reserve count ⟨n, .range read⟩ = (⟨n, .range (read + count)⟩, true) := by
  induction count generalizing read with
  | zero => rfl
  | succ count ih =>
    rw [reserve, more_range, if_pos (by omega)]
    dsimp only
    rw [ih (by omega), Nat.add_right_comm, Nat.add_assoc]

theorem look_range {read : ℕ} {places : List ℕ} (h : ∀ i ∈ places, i < read) :
    (Supply.mk n (.range read)).look places = places := by
  refine (List.map_congr_left fun i hi ↦ ?_).trans (List.map_id places)
  simp [h i hi]

end Supply

/-! ## Walks -/

namespace Walk

/-- A walk keeps what it should keep at a rank. -/
inductive IsAt (n k : ℕ) : Walk → ℕ → Prop
  | unread : IsAt n k ⟨⟨n, .range k⟩, .unread k⟩ (count n k)
  | reading {read : ℕ} (enough : k ≤ read) (bound : read ≤ n) :
      IsAt n k ⟨⟨n, .range read⟩, .reading k read⟩ (read - k)
  | turning {rank : ℕ} (bound : rank ≤ count n k) :
      IsAt n k ⟨⟨n, .range n⟩, .turning (.atRank n k rank)⟩ rank

theorem sub_lt_count (hpos : 0 < k) (hk : k ≤ n) : n - k < count n k := by
  obtain ⟨k, rfl⟩ : ∃ j, k = j + 1 := ⟨k - 1, by omega⟩
  have hmul : n - k ≤ count n k * (n - k) := Nat.le_mul_of_pos_left _ (count_pos (by omega))
  rw [count_succ]
  omega

theorem isAt_start (hpos : 0 < k) (hk : k ≤ n) : (start n k).IsAt n k (count n k) := by
  have hempty : Supply.mk n #[] = ⟨n, .range 0⟩ := rfl
  rw [start, if_neg hpos.ne', hempty, Supply.reserve_range (by omega), Nat.zero_add]
  exact .unread

/-- **A walk moves on by one rank**, from the one after the last to the first. -/
theorem IsAt.advance {walk : Walk} (hpos : 0 < k) (hk : k ≤ n) (h : walk.IsAt n k rank) :
    walk.advance.IsAt n k ((rank + 1) % (count n k + 1)) := by
  have hcount := sub_lt_count hpos hk
  cases h with
  | unread =>
    rw [Nat.mod_self, ← Nat.sub_self k]
    exact .reading (Nat.le_refl k) hk
  | @reading read enough bound =>
    have hnext : read - k + 1 = read + 1 - k := by omega
    rw [Walk.advance, Supply.more_range, Nat.mod_eq_of_lt (by omega)]
    by_cases hmore : read < n
    · rw [if_pos hmore, hnext]
      exact .reading (by omega) hmore
    · -- all numbers are read, and the row comes after the arrangements with each of them in the last place
      obtain rfl : read = n := by omega
      rw [if_neg hmore]
      dsimp only
      rw [Round.repeat_advance_start hk hcount]
      exact .turning hcount
  | turning bound =>
    rw [Walk.advance, Round.advance_atRank hk bound]
    exact .turning (Nat.le_of_lt_succ (Nat.mod_lt _ (Nat.succ_pos _)))

/-- A walk shows the arrangement of its rank, and nothing at the rank after the last one. -/
theorem IsAt.current?_eq {walk : Walk} (hpos : 0 < k) (hk : k ≤ n) (h : walk.IsAt n k rank) :
    walk.current? = (inOrder n k)[rank]? := by
  cases h with
  | unread => rw [current?, getElem?_inOrder_eq_none (Nat.le_refl _)]
  | @reading read enough bound =>
    obtain ⟨k, rfl⟩ : ∃ j, k = j + 1 := ⟨k - 1, by omega⟩
    obtain ⟨last, rfl⟩ : ∃ m, read = m + 1 := ⟨read - 1, by omega⟩
    have hrank : last - k < count n (k + 1) := by
      have := sub_lt_count hpos hk
      omega
    have horder : (inOrder n (k + 1))[last - k]? = some (List.range k ++ [last]) := by
      rw [getElem?_inOrder hrank, ofRank_of_le (by omega) (show last < n by omega)]
    rw [Nat.add_sub_add_right, horder, current?]
    dsimp only
    rw [Nat.add_sub_cancel, Nat.add_sub_cancel, Supply.look_range fun i hi ↦ ?_]
    rcases List.mem_append.mp hi with hi | hi
    · have := List.mem_range.mp hi
      omega
    · exact (List.mem_singleton.mp hi).trans_lt (Nat.lt_succ_self last)
  | turning bound =>
    rw [current?]
    dsimp only
    rw [Round.places?_atRank]
    cases horder : (inOrder n k)[rank]? with
    | none => rfl
    | some order =>
      have hlt := ((mem_inOrder_iff hk).mp (List.mem_of_getElem? horder)).2.1
      rw [Option.map_some, Supply.look_range hlt]

end Walk

namespace Enumeration

/-! ## One call -/

/-- An enumeration with its walk at a rank. -/
def IsAt (n k : ℕ) (e : Enumeration) (rank : ℕ) : Prop :=
  ∃ walk, e.walk? = some walk ∧ walk.IsAt n k rank

theorem isAt_arrangements (hpos : 0 < min k n) :
    (arrangements n k).IsAt n (min k n) (count n (min k n)) := by
  refine ⟨.start n (min k n), ?_, Walk.isAt_start hpos (Nat.min_le_right k n)⟩
  rw [arrangements, if_neg hpos.ne']

theorem next_eq (e : Enumeration) :
    e.next = (e.step.1, { e.step.2 with
      produced := e.step.2.produced + if e.step.1.isSome then 1 else 0 }) := by
  rw [next]
  rcases e.step with ⟨_ | order, e'⟩ <;> rfl

theorem produced_next (e : Enumeration) :
    e.next.2.produced = e.produced + if e.next.1.isSome then 1 else 0 := by
  have hstep : e.step.2.produced = e.produced := by
    rcases e with ⟨_ | walk, _ | _, produced⟩ <;> rfl
  rw [next_eq, hstep]

/-- **A call moves on by one rank and answers the arrangement there**, or `none` at the rank after the last
one. -/
theorem IsAt.next {e : Enumeration} (hpos : 0 < k) (hk : k ≤ n) (h : e.IsAt n k rank) :
    e.next.1 = (inOrder n k)[(rank + 1) % (count n k + 1)]? ∧
      e.next.2.IsAt n k ((rank + 1) % (count n k + 1)) := by
  obtain ⟨walk, hwalk, hat⟩ := h
  obtain ⟨_, emptyPending, produced⟩ := e
  obtain rfl : _ = some walk := hwalk
  have hadvanced := hat.advance hpos hk
  rw [next_eq]
  exact ⟨hadvanced.current?_eq hpos hk, walk.advance, rfl, hadvanced⟩

/-! ## Any number of calls -/

/-- The enumeration after so many calls. -/
def after (e : Enumeration) (calls : ℕ) : Enumeration := (fun e ↦ e.next.2)^[calls] e

/-- The answer to the call after so many others. -/
def answer (e : Enumeration) (calls : ℕ) : Option (List ℕ) := (e.after calls).next.1

theorem after_succ (e : Enumeration) (calls : ℕ) : e.after (calls + 1) = (e.after calls).next.2 :=
  Function.iterate_succ_apply' ..

/-- **The rank goes round**, through the ranks of the arrangements and the one after them. -/
theorem IsAt.after {e : Enumeration} (hpos : 0 < k) (hk : k ≤ n) (h : e.IsAt n k rank)
    (hrank : rank ≤ count n k) (calls : ℕ) :
    (e.after calls).IsAt n k ((rank + calls) % (count n k + 1)) := by
  induction calls with
  | zero => rwa [Nat.add_zero, Nat.mod_eq_of_lt (Nat.lt_succ_of_le hrank)]
  | succ calls ih =>
    have hnext := (ih.next hpos hk).2
    rwa [Nat.mod_add_mod, Nat.add_assoc, ← after_succ] at hnext

/-- **The count is that of the arrangements answered.** -/
theorem produced_after (e : Enumeration) (calls : ℕ) :
    (e.after calls).produced =
      e.produced + ((List.range calls).map e.answer).countP Option.isSome := by
  induction calls with
  | zero => rfl
  | succ calls ih =>
    rw [after_succ, produced_next, ih, List.range_succ, List.map_append, List.countP_append,
      List.map_singleton, List.countP_singleton, Nat.add_assoc]
    rfl

/-! ## Enumerations from the start -/

/-- The rank after the last one is that of an enumeration from the start. -/
theorem answer_arrangements (hpos : 0 < min k n) (calls : ℕ) :
    (arrangements n k).answer calls =
      (inOrder n (min k n))[calls % (count n (min k n) + 1)]? := by
  have hk : min k n ≤ n := Nat.min_le_right k n
  have hat := (isAt_arrangements hpos).after hpos hk (Nat.le_refl _) calls
  have hrank : count n (min k n) + calls + 1 = calls + (count n (min k n) + 1) := by omega
  rw [answer, (hat.next hpos hk).1, Nat.mod_add_mod, hrank, Nat.add_mod_right]

theorem answer_arrangements_of_eq_zero (hzero : min k n = 0) (calls : ℕ) :
    (arrangements n k).answer calls = if calls = 0 then some [] else none := by
  have hstart : arrangements n k = { walk? := none, emptyPending := true } := by
    rw [arrangements, if_pos hzero]
  have hlater (calls : ℕ) : (arrangements n k).after (calls + 1) = ⟨none, false, 1⟩ := by
    induction calls with
    | zero => rw [hstart]; rfl
    | succ calls ih => rw [after_succ, ih]; rfl
  cases calls with
  | zero => rw [answer, hstart]; rfl
  | succ calls => rw [answer, hlater]; rfl

theorem answer_of_le {calls : ℕ} (h : calls ≤ count n (min k n)) :
    (arrangements n k).answer calls = (inOrder n (min k n))[calls]? := by
  rcases Nat.eq_zero_or_pos (min k n) with hzero | hpos
  · have hcount : count n (min k n) = 1 := by rw [hzero, count]
    rw [answer_arrangements_of_eq_zero hzero, hzero]
    obtain rfl | rfl : calls = 0 ∨ calls = 1 := by omega
    · rfl
    · rfl
  · rw [answer_arrangements hpos, Nat.mod_eq_of_lt (Nat.lt_succ_of_le h)]

theorem next_after {calls : ℕ} (hk : k ≤ n) (h : calls ≤ count n k) :
    ((arrangements n k).after calls).next =
      ((inOrder n k)[calls]?, (arrangements n k).after (calls + 1)) := by
  have hmin : min k n = k := Nat.min_eq_left hk
  have hanswer := answer_of_le (h.trans_eq (congrArg (count n) hmin.symm))
  rw [hmin] at hanswer
  exact Prod.ext hanswer (after_succ _ calls).symm

/-- **All arrangements of a length come in lexicographic order, cycle after cycle.** Each cycle has every
duplicate free list of this length over the numbers below `n` once, in increasing order, and then `none`.
Only the empty arrangement comes once and not again. At any time the count of arrangements is that of the
lists answered by then. -/
theorem answers_arrangements (n k : ℕ) :
    ∃ cycle : List (List ℕ), cycle.Pairwise (· < ·) ∧
      (∀ order, order ∈ cycle ↔ order.Nodup ∧ (∀ x ∈ order, x < n) ∧ order.length = min k n) ∧
      cycle.length = n.descFactorial (min k n) ∧
      ∀ calls,
        (0 < min k n → (arrangements n k).answer calls = cycle[calls % (cycle.length + 1)]?) ∧
        (min k n = 0 → (arrangements n k).answer calls = if calls = 0 then some [] else none) ∧
        ((arrangements n k).after calls).produced =
          ((List.range calls).map (arrangements n k).answer).countP Option.isSome := by
  have hk : min k n ≤ n := Nat.min_le_right k n
  refine ⟨inOrder n (min k n), pairwise_inOrder hk, fun _ ↦ mem_inOrder_iff hk, ?_,
    fun calls ↦ ⟨fun hpos ↦ ?_, fun hzero ↦ answer_arrangements_of_eq_zero hzero calls, ?_⟩⟩
  · rw [length_inOrder, count_eq_descFactorial]
  · rw [answer_arrangements hpos, length_inOrder]
  · have hstart : (arrangements n k).produced = 0 := by
      rw [arrangements]
      split <;> rfl
    rw [produced_after, hstart, Nat.zero_add]

-- the pairs over three numbers, and the first one again
example : (List.range 8).map (arrangements 3 2).answer =
    [some [0, 1], some [0, 2], some [1, 0], some [1, 2], some [2, 0], some [2, 1], none, some [0, 1]] := by
  decide +kernel

end Enumeration

end JoinOrder
