import JoinOrder.Proofs.Lexicographic
/-!
# Rounds

A round keeps a row of all numbers and a cycle for each place of the arrangement, and it has never heard of
ranks. But at each moment its row is the arrangement of some rank followed by the numbers left, in ascending
order, and its cycles are what the places of that rank lack of their bounds.

This is an invariant of the advance at every place, and not only of the whole one. When the advance comes to a
place, all that stands behind it is in ascending order: the row belongs to a shorter arrangement, whose rank
is the one at hand divided by the number of entries the place can have. There the advance adds one, as one
does in a numeral with mixed bases, where a cycle that is over is a digit that carries.
-/

namespace JoinOrder

namespace Arrangement

variable {n k rank : ℕ}

/-! ## The numbers left -/

/-- The numbers an arrangement leaves, in ascending order. -/
def left (n : ℕ) : (k rank : ℕ) → List ℕ
  | 0, _ => List.range n
  | k + 1, rank =>
    (left (n - 1) k (rank % count (n - 1) k)).map (skip (rank / count (n - 1) k))

/-- An arrangement, and the numbers it leaves. -/
def row (n k rank : ℕ) : List ℕ := ofRank n k rank ++ left n k rank

@[simp] theorem length_left (n k rank : ℕ) : (left n k rank).length = n - k := by
  induction k generalizing n rank with
  | zero => exact List.length_range
  | succ k ih =>
    rw [left, List.length_map, ih]
    omega

theorem length_row (hk : k ≤ n) (rank : ℕ) : (row n k rank).length = n := by
  rw [row, List.length_append, length_ofRank, length_left, Nat.add_sub_cancel' hk]

theorem take_row (n k rank : ℕ) : (row n k rank).take k = ofRank n k rank := by
  rw [row, List.take_append_of_le_length (length_ofRank n k rank).ge,
    List.take_of_length_le (length_ofRank n k rank).le]

theorem eraseIdx_range {hole : ℕ} (h : hole < n) :
    (List.range n).eraseIdx hole = (List.range (n - 1)).map (skip hole) := by
  refine List.ext_getElem (by simp [List.length_eraseIdx, h]) fun i hi _ ↦ ?_
  by_cases hlt : i < hole
  · simp [List.getElem_eraseIdx, skip, hlt]
  · simp [List.getElem_eraseIdx, skip, hlt]

theorem row_cons (hn : 0 < n) (k rank : ℕ) :
    row n (k + 1) rank = rank / count (n - 1) k ::
      (row (n - 1) k (rank % count (n - 1) k)).map (skip (rank / count (n - 1) k)) := by
  rw [row, ofRank_succ hn, left, row, List.map_append, List.cons_append]

theorem mul_add_div_of_lt {m digit : ℕ} (h : digit < m) (rank : ℕ) :
    (m * rank + digit) / m = rank := by
  rw [Nat.mul_add_div (Nat.zero_lt_of_lt h), Nat.div_eq_of_lt h, Nat.add_zero]

/-- **The last entry is one of the numbers left by what is in front of it.** Its digit counts the numbers
it passes over. -/
theorem row_succ {digit : ℕ} (hk : k < n) (hrank : rank < count n k)
    (hdigit : digit < (left n k rank).length) :
    row n (k + 1) ((n - k) * rank + digit) =
      ofRank n k rank ++ (left n k rank)[digit] :: (left n k rank).eraseIdx digit := by
  have hlt : digit < n - k := by rwa [length_left] at hdigit
  induction k generalizing n rank with
  | zero =>
    obtain rfl : rank = 0 := Nat.lt_one_iff.mp hrank
    have hrow : row n 1 ((n - 0) * 0 + digit) = digit :: (List.range (n - 1)).map (skip digit) := by
      rw [row_cons hk, count, Nat.div_one, Nat.mul_zero, Nat.zero_add]
      rfl
    rw [hrow, ← eraseIdx_range (show digit < n from hlt)]
    simp [left]
  | succ k ih =>
    have hn : 0 < n := Nat.zero_lt_of_lt hk
    have hbound : n - 1 - k = n - (k + 1) := by omega
    have hrest : rank % count (n - 1) k < count (n - 1) k := Nat.mod_lt _ (count_pos (by omega))
    -- the first entry is that of the rank in front, and the digit is one of what comes after it
    have hfirst : ((n - (k + 1)) * rank + digit) / count (n - 1) (k + 1) = rank / count (n - 1) k := by
      rw [count_succ, hbound, Nat.mul_comm (count _ _), ← Nat.div_div_eq_div_mul,
        mul_add_div_of_lt hlt]
    have hlt' : digit < n - 1 - k := hlt.trans_eq hbound.symm
    have hrow := ih (by omega) hrest (by rwa [length_left]) hlt'
    have hmod : ((n - (k + 1)) * rank + digit) % count (n - 1) (k + 1) =
        (n - 1 - k) * (rank % count (n - 1) k) + digit := by
      rw [count_succ, hbound, Nat.mul_comm (count _ _), Nat.mod_mul, mul_add_div_of_lt hlt,
        Nat.mul_add_mod, Nat.mod_eq_of_lt hlt, Nat.add_comm]
    rw [row_cons hn, hfirst, hmod, hrow, ofRank_succ hn]
    simp only [left, List.map_append, List.map_cons, List.cons_append, List.getElem_map,
      List.eraseIdx_map]

/-- The first of the numbers left makes no difference to the row. -/
theorem row_succ_zero (hk : k < n) (hrank : rank < count n k) :
    row n (k + 1) ((n - k) * rank + 0) = row n k rank := by
  have hlength : 0 < (left n k rank).length := by
    rw [length_left]
    omega
  rw [row_succ hk hrank hlength, List.eraseIdx_zero, ← List.drop_one, List.getElem_cons_drop,
    List.drop_zero, row]

theorem row_zero (hk : k ≤ n) : row n k 0 = List.range n := by
  induction k with
  | zero => rfl
  | succ k ih => exact (row_succ_zero hk (count_pos (by omega))).trans (ih (by omega))

theorem ofRank_zero_right (hk : k ≤ n) : ofRank n k 0 = List.range k := by
  rw [← take_row, row_zero hk, List.take_range, Nat.min_eq_left hk]

theorem ofRank_of_le {last : ℕ} (hk : k ≤ last) (hlast : last < n) :
    ofRank n (k + 1) (last - k) = List.range k ++ [last] := by
  have hkn : k < n := Nat.lt_of_le_of_lt hk hlast
  have hdigit : last - k < (left n k 0).length := by
    rw [length_left]
    omega
  have hrow := row_succ hkn (count_pos hkn.le) hdigit
  have hleft : left n k 0 = (List.range n).drop k := by
    rw [← row_zero hkn.le, row, List.drop_left' (length_ofRank n k 0)]
  have hentry : (left n k 0)[last - k] = last := by
    simp [hleft, Nat.add_sub_cancel' hk]
  rw [hentry, Nat.mul_zero, Nat.zero_add] at hrow
  rw [← take_row, hrow, ofRank_zero_right hkn.le]
  simp [List.take_append]

/-! ## Cycles -/

/-- What the places of an arrangement have still to come: their digits, counted from the other end. -/
def cycles (n : ℕ) : (k rank : ℕ) → List ℕ
  | 0, _ => []
  | k + 1, rank => cycles n k (rank / (n - k)) ++ [n - k - 1 - rank % (n - k)]

@[simp] theorem length_cycles (n k rank : ℕ) : (cycles n k rank).length = k := by
  induction k generalizing rank with
  | zero => rfl
  | succ k ih => rw [cycles, List.length_append, ih, List.length_singleton]

theorem cycles_succ_append {digit : ℕ} (rank : ℕ) (hdigit : digit < n - k) (more : List ℕ) :
    cycles n (k + 1) ((n - k) * rank + digit) ++ more =
      cycles n k rank ++ (n - k - 1 - digit) :: more := by
  rw [cycles, mul_add_div_of_lt hdigit, Nat.mul_add_mod, Nat.mod_eq_of_lt hdigit,
    List.append_assoc, List.singleton_append]

theorem cycles_zero (hk : k ≤ n) : cycles n k 0 = (List.range' (n - k) k).reverse := by
  induction k with
  | zero => rfl
  | succ k ih =>
    have hnext : n - (k + 1) + 1 = n - k := by omega
    rw [cycles, Nat.zero_div, Nat.zero_mod, ih (by omega), List.range'_succ, hnext,
      List.reverse_cons, Nat.sub_zero, Nat.sub_sub]

end Arrangement

/-! ## Advances -/

namespace Round

open Arrangement

variable {n k rank : ℕ}

theorem getElem!_append_cons {front : List ℕ} {i : ℕ} (hi : front.length = i) (x : ℕ)
    (after : List ℕ) : (front ++ x :: after)[i]! = x := by
  subst hi
  simp

theorem exchange_append_cons {front between : List ℕ} {i j : ℕ} (hi : front.length = i)
    (hj : i + 1 + between.length = j) (x y : ℕ) (after : List ℕ) :
    exchange (front ++ x :: (between ++ y :: after)) i j =
      front ++ y :: (between ++ x :: after) := by
  have hy : (front ++ x :: (between ++ y :: after))[j]! = y := by
    have hsplit : front ++ x :: (between ++ y :: after) = (front ++ x :: between) ++ y :: after := by
      rw [List.append_assoc, List.cons_append]
    rw [hsplit]
    apply getElem!_append_cons
    rw [List.length_append, List.length_cons]
    omega
  rw [exchange, hy, getElem!_append_cons hi]
  subst hi hj
  simp [Nat.add_assoc, Nat.add_comm 1]

/-- A place whose cycle is not over gets the next of the numbers left. -/
theorem exchange_row {digit : ℕ} (hk : k < n) (hrank : rank < count n k)
    (hdigit : digit + 1 < n - k) :
    exchange (row n (k + 1) ((n - k) * rank + digit)) k (n - (n - k - 1 - digit)) =
      row n (k + 1) ((n - k) * rank + (digit + 1)) := by
  have hlength : digit + 1 < (left n k rank).length := by rwa [length_left]
  have hother : k + 1 + ((left n k rank).take digit).length = n - (n - k - 1 - digit) := by
    rw [List.length_take_of_le (by omega)]
    omega
  have hnext : (left n k rank).eraseIdx digit = (left n k rank).take digit ++
      (left n k rank)[digit + 1] :: (left n k rank).drop (digit + 2) := by
    rw [List.eraseIdx_eq_take_drop_succ, List.drop_eq_getElem_cons hlength]
  have hback : (left n k rank).eraseIdx (digit + 1) = (left n k rank).take digit ++
      (left n k rank)[digit] :: (left n k rank).drop (digit + 2) := by
    rw [List.eraseIdx_eq_take_drop_succ, List.take_succ_eq_append_getElem (by omega),
      List.append_assoc, List.singleton_append]
  rw [row_succ hk hrank (Nat.lt_of_succ_lt hlength), row_succ hk hrank hlength, hnext, hback]
  exact exchange_append_cons (length_ofRank n k rank) hother _ _ _

/-- A place whose cycle is over leaves all numbers behind it in order. -/
theorem eraseIdx_row {digit : ℕ} (hk : k < n) (hrank : rank < count n k)
    (hdigit : digit + 1 = n - k) :
    (row n (k + 1) ((n - k) * rank + digit)).eraseIdx k ++
        [(row n (k + 1) ((n - k) * rank + digit))[k]!] =
      row n k rank := by
  have hlength : digit < (left n k rank).length := by
    rw [length_left]
    omega
  have hfront : (ofRank n k rank).length = k := length_ofRank n k rank
  have hleft : (left n k rank).eraseIdx digit ++ [(left n k rank)[digit]] = left n k rank := by
    rw [List.eraseIdx_eq_take_drop_succ, List.drop_of_length_le (by rw [length_left, hdigit]),
      List.append_nil, ← List.take_succ_eq_append_getElem hlength,
      List.take_of_length_le (by rw [length_left, hdigit])]
  rw [row_succ hk hrank hlength, getElem!_append_cons hfront,
    List.eraseIdx_append_of_length_le hfront.le, hfront, Nat.sub_self, List.eraseIdx_cons_zero,
    List.append_assoc, hleft, row]

theorem set_cycles (n k rank x value : ℕ) (more : List ℕ) :
    (cycles n k rank ++ x :: more).set k value = cycles n k rank ++ value :: more := by
  rw [List.set_append_right _ _ (length_cycles n k rank).le, length_cycles, Nat.sub_self,
    List.set_cons_zero]

theorem turn_row_of_lt {digit : ℕ} (hk : k < n) (hrank : rank < count n k)
    (hdigit : digit + 1 < n - k) (more : List ℕ) :
    turn (k + 1) (row n (k + 1) ((n - k) * rank + digit))
        (cycles n (k + 1) ((n - k) * rank + digit) ++ more) =
      some (row n (k + 1) ((n - k) * rank + (digit + 1)),
        cycles n (k + 1) ((n - k) * rank + (digit + 1)) ++ more) := by
  have hrest : n - k - 1 - digit ≠ 0 := by omega
  rw [cycles_succ_append rank (by omega), cycles_succ_append rank hdigit, turn, length_row hk,
    getElem!_append_cons (length_cycles n k rank), set_cycles, set_cycles]
  exact (if_neg hrest).trans (by rw [exchange_row hk hrank hdigit, Nat.sub_sub _ digit])

/-- A place whose cycle is over starts a new one, and leaves the advance to those in front of it. -/
theorem turn_row_of_eq {digit : ℕ} (hk : k < n) (hrank : rank < count n k)
    (hdigit : digit + 1 = n - k) (more : List ℕ) :
    turn (k + 1) (row n (k + 1) ((n - k) * rank + digit))
        (cycles n (k + 1) ((n - k) * rank + digit) ++ more) =
      turn k (row n k rank) (cycles n k rank ++ (n - k - 1) :: more) := by
  have hrest : n - k - 1 - digit = 0 := by omega
  rw [cycles_succ_append rank (by omega), turn, length_row hk,
    getElem!_append_cons (length_cycles n k rank), set_cycles, set_cycles, hrest]
  exact congrArg (turn k · _) (eraseIdx_row hk hrank hdigit)

/-- **An advance of the places in front adds one to the rank**, if the rank is not the last one. -/
theorem turn_row (hk : k ≤ n) (hrank : rank < count n k) (more : List ℕ) :
    turn k (row n k rank) (cycles n k rank ++ more) =
      if rank + 1 < count n k then some (row n k (rank + 1), cycles n k (rank + 1) ++ more)
      else none := by
  induction k generalizing rank more with
  | zero =>
    have hlast : ¬rank + 1 < count n 0 := by
      rw [count]
      omega
    rw [turn, if_neg hlast]
  | succ k ih =>
    obtain ⟨front, digit, hdigit, rfl⟩ :
        ∃ front digit, digit < n - k ∧ rank = (n - k) * front + digit :=
      ⟨rank / (n - k), rank % (n - k), Nat.mod_lt _ (by omega), (Nat.div_add_mod ..).symm⟩
    rw [count_succ, Nat.mul_comm (count n k)] at hrank
    have hfront : front < count n k :=
      Nat.lt_of_mul_lt_mul_left (Nat.lt_of_le_of_lt (Nat.le_add_right _ digit) hrank)
    have hbound : (n - k) * (front + 1) ≤ (n - k) * count n k := Nat.mul_le_mul_left _ hfront
    rw [Nat.mul_succ] at hbound
    rw [count_succ, Nat.mul_comm (count n k)]
    by_cases hover : digit + 1 < n - k
    · rw [turn_row_of_lt hk hfront hover, if_pos (by omega), Nat.add_assoc]
    · -- the digit carries, and the rank in front has its successor
      have hcarry : (n - k) * front + digit + 1 = (n - k) * (front + 1) + 0 := by
        rw [Nat.mul_succ]
        omega
      rw [turn_row_of_eq hk hfront (by omega), ih (by omega) hfront, hcarry]
      by_cases hlast : front + 1 < count n k
      · have hnext : (n - k) * (front + 1) + 0 < (n - k) * count n k :=
          Nat.mul_lt_mul_of_pos_left hlast (by omega)
        rw [if_pos hlast, if_pos hnext, row_succ_zero hk hlast, cycles_succ_append _ (by omega),
          Nat.sub_zero]
      · have hlast' : ¬(n - k) * (front + 1) + 0 < (n - k) * count n k :=
          Nat.not_lt.mpr (Nat.mul_le_mul_left _ (Nat.not_lt.mp hlast))
        rw [if_neg hlast, if_neg hlast']

/-! ## The round at a rank -/

/-- The round at the arrangement of a rank. After the last one it is to start anew. -/
def atRank (n k rank : ℕ) : Round :=
  if rank < count n k then .ongoing (row n k rank) (cycles n k rank)
  else .start n k

theorem places?_atRank (n k rank : ℕ) : (atRank n k rank).places? = (inOrder n k)[rank]? := by
  rw [atRank]
  by_cases hrank : rank < count n k
  · have hplaces : (cycles n k rank).length = k := length_cycles n k rank
    rw [if_pos hrank, places?, hplaces, take_row, getElem?_inOrder hrank]
  · rw [if_neg hrank, places?, getElem?_inOrder_eq_none (Nat.not_lt.mp hrank)]

theorem advance_start (hk : k ≤ n) : (start n k).advance = atRank n k 0 := by
  rw [atRank, if_pos (count_pos hk), row_zero hk, cycles_zero hk, advance]

/-- **An advance goes round**, through the ranks of the arrangements and the one after them. -/
theorem advance_atRank (hk : k ≤ n) (hrank : rank ≤ count n k) :
    (atRank n k rank).advance = atRank n k ((rank + 1) % (count n k + 1)) := by
  rcases Nat.lt_or_eq_of_le hrank with hlt | rfl
  · have hturn := turn_row hk hlt []
    rw [List.append_nil, List.append_nil] at hturn
    have hsize : (row n k rank).length = n := length_row hk rank
    have hplaces : (cycles n k rank).length = k := length_cycles n k rank
    rw [Nat.mod_eq_of_lt (Nat.succ_lt_succ hlt), atRank, if_pos hlt, advance, hsize, hplaces,
      hturn, atRank]
    by_cases hlast : rank + 1 < count n k
    · rw [if_pos hlast, if_pos hlast]
    · rw [if_neg hlast, if_neg hlast]
  · rw [Nat.mod_self, ← advance_start hk, atRank, if_neg (Nat.lt_irrefl _)]

theorem repeat_advance_start (hk : k ≤ n) (hrank : rank ≤ count n k) :
    Nat.repeat advance (rank + 1) (start n k) = atRank n k rank := by
  induction rank with
  | zero => exact advance_start hk
  | succ rank ih =>
    rw [Nat.repeat, ih (by omega), advance_atRank hk (by omega), Nat.mod_eq_of_lt (by omega)]

end Round

end JoinOrder
