import JoinOrder.Proofs.Checked.Sweep
import JoinOrder.Proofs.Lexicographic
import JoinOrder.Proofs.Search.Costed
/-!
# The completion of a head

Brute force completes a head position by position: it asks about each operand the ordering lacks, in
ascending order, and appends one of them. The last position is not asked about. So what a completion asks
can be read off its head and the ordering that comes out, whatever the cost model answers, and only the
choice at each position depends on the answers.

This file follows a completion for a cost model that always answers, with the rule of choice left open.
What is known of the choice at one position, `Chooses`, then holds at all positions of all orderings that
brute force tests.
-/

namespace JoinOrder.Sweep

open Arrangement Checked

variable {σ : Type} {p : Problem σ} {n : ℕ} {order head plan unused : List ℕ}
  {choice : List ℕ → ℕ → Prop}

/-! ## The operands an order lacks -/

theorem mem_lacking_iff {id : ℕ} : id ∈ lacking n order ↔ id < n ∧ id ∉ order := by
  rw [lacking, List.mem_filter, List.mem_range, Bool.not_eq_true', ← Bool.not_eq_true,
    List.contains_iff_mem]

theorem pairwise_lacking (n : ℕ) (order : List ℕ) : (lacking n order).Pairwise (· < ·) :=
  List.pairwise_lt_range.filter _

theorem perm_append_lacking (hplan : plan.Perm (List.range n)) (hbegins : order <+: plan) :
    (order ++ lacking n order).Perm (List.range n) := by
  have hnodup : order.Nodup := (nodup_of_perm_range hplan).sublist hbegins.sublist
  exact perm_append_unused hnodup fun _ hx ↦ lt_of_perm_range hplan (hbegins.subset hx)

theorem length_lacking (h : (order ++ lacking n order).Perm (List.range n)) :
    (lacking n order).length = n - order.length := by
  have hlength := length_of_perm_range h
  rw [List.length_append] at hlength
  omega

/-! ## Extensions of a head -/

/-- An ordering that extends a head and follows a rule of choice at each position after the head but the
last one, where one operand only is left. -/
structure IsExtension (choice : List ℕ → ℕ → Prop) (n : ℕ) (head plan : List ℕ) : Prop where
  perm : plan.Perm (List.range n)
  begins : head <+: plan
  chosen : ∀ pos id, head.length ≤ pos → pos + 1 < n → plan[pos]? = some id →
    choice (plan.take pos) id
  last : ∀ id < n, id ∉ plan.take (n - 1) → plan[n - 1]? = some id

/-- What the completion of a head to an ordering asks about: at each position after the head but the last
one, what comes before it with each operand that this lacks. -/
def asks (n : ℕ) (head plan : List ℕ) : List (List ℕ) :=
  (List.range' head.length (n - 1 - head.length)).flatMap fun pos ↦
    (lacking n (plan.take pos)).map (plan.take pos ++ [·])

theorem getElem?_last (hplan : plan.Perm (List.range n)) {id : ℕ} (hid : id < n)
    (hnotMem : id ∉ plan.take (n - 1)) : plan[n - 1]? = some id := by
  have hmem : id ∈ plan := hplan.symm.subset (List.mem_range.mpr hid)
  obtain ⟨pos, hpos, rfl⟩ := List.mem_iff_getElem.mp hmem
  have hlength := length_of_perm_range hplan
  have hlast : pos = n - 1 := by
    by_contra hne
    exact hnotMem (List.mem_take_iff_getElem.mpr ⟨pos, by omega, rfl⟩)
  rw [← hlast]
  exact List.getElem?_eq_getElem hpos

namespace IsExtension

theorem of_le_add_one (hplan : plan.Perm (List.range n)) (hbegins : head <+: plan)
    (hopen : n ≤ head.length + 1) : IsExtension choice n head plan where
  perm := hplan
  begins := hbegins
  chosen pos id hpos hlast := by omega
  last _ := getElem?_last hplan

theorem cons {id : ℕ} (h : IsExtension choice n (order ++ [id]) plan) (hchoice : choice order id) :
    IsExtension choice n order plan where
  perm := h.perm
  begins := (List.prefix_append order [id]).trans h.begins
  chosen pos next hpos hlast hnext := by
    obtain ⟨rest, rfl⟩ := h.begins
    rcases Nat.lt_or_eq_of_le hpos with hlt | rfl
    · have hlonger : (order ++ [id]).length ≤ pos := List.length_append.trans_le hlt
      exact h.chosen pos next hlonger hlast hnext
    · rw [List.append_assoc, List.getElem?_append_right (Nat.le_refl _), Nat.sub_self] at hnext
      obtain rfl : id = next := Option.some.inj hnext
      rwa [List.append_assoc, List.take_left]
  last := h.last

end IsExtension

theorem asks_of_le_add_one (hopen : n ≤ head.length + 1) : asks n head plan = [] := by
  rw [asks, show n - 1 - head.length = 0 by omega]
  rfl

theorem asks_eq_append {id : ℕ} (hbegins : order ++ [id] <+: plan) (hopen : order.length + 1 < n) :
    asks n order plan =
      (lacking n order).map (order ++ [·]) ++ asks n (order ++ [id]) plan := by
  obtain ⟨rest, rfl⟩ := hbegins
  have hcount : n - 1 - order.length = n - 1 - (order ++ [id]).length + 1 := by
    rw [List.length_append, List.length_singleton]
    omega
  rw [asks, hcount, List.range'_succ, List.flatMap_cons, List.append_assoc, List.take_left, asks,
    List.length_append, List.length_singleton]

/-! ## Completion -/

/-- The rule that the choice of the operand after the beginning of an ordering follows, and what it asks
about. -/
def Chooses (p : Problem σ) (choice : List ℕ → ℕ → Prop) : Prop :=
  ∀ order s, (order ++ lacking p.size order).Perm (List.range p.size) →
    2 ≤ (lacking p.size order).length →
    ∃ id cost t, cheapestFrom p order none (lacking p.size order) s = (.ok (some (id, cost)), t) ∧
      id ∈ lacking p.size order ∧ choice order id ∧
      s.Adds t ((lacking p.size order).map (order ++ [·])) []

/-- **A completion follows the rule of choice at each position.** -/
theorem exists_completeFrom (h : Chooses p choice) {positions : ℕ}
    (hperm : (order ++ lacking p.size order).Perm (List.range p.size))
    (hlength : (lacking p.size order).length = positions) (s : Session σ) :
    ∃ plan t, completeFrom p positions order (lacking p.size order) s = (.ok plan, t) ∧
      IsExtension choice p.size order plan ∧ s.Adds t (asks p.size order plan) [] := by
  have hcount := length_of_perm_range hperm
  rw [List.length_append, hlength] at hcount
  induction positions generalizing order s with
  | zero =>
    rw [List.length_eq_zero_iff.mp hlength, List.append_nil] at hperm
    refine ⟨order, s, rfl, .of_le_add_one hperm (List.prefix_refl _) (by omega), ?_⟩
    rw [asks_of_le_add_one (by omega)]
    exact .refl s
  | succ positions ih =>
    cases positions with
    | zero =>
      obtain ⟨id, hid⟩ := List.length_eq_one_iff.mp hlength
      rw [hid] at hperm ⊢
      refine ⟨order ++ [id], s, rfl,
        .of_le_add_one hperm (List.prefix_append order [id]) (by omega), ?_⟩
      rw [asks_of_le_add_one (by omega)]
      exact .refl s
    | succ positions =>
      obtain ⟨id, cost, t, hrun, hid, hchoice, hasked⟩ := h order s hperm (by omega)
      have hperm' := perm_append_of_mem hperm hid
      rw [lacking_append] at hperm'
      have hlength' : (lacking p.size (order ++ [id])).length = positions + 1 := by
        rw [length_lacking hperm', List.length_append, List.length_singleton]
        omega
      obtain ⟨plan, u, hrest, hextension, hasks⟩ := ih hperm' hlength' t (by simp; omega)
      refine ⟨plan, u, ?_, hextension.cons hchoice, ?_⟩
      · rw [completeFrom, SearchM.bind_apply, hrun]
        dsimp only
        rw [lacking_append, hrest]
      · rw [asks_eq_append hextension.begins (by omega)]
        exact hasked.trans hasks

theorem completes_complete (h : Chooses p choice) (hnodup : head.Nodup) (hlt : ∀ x ∈ head, x < p.size) :
    Completes p (complete p) (asks p.size) (IsExtension choice p.size) head := by
  intro s
  have hperm := perm_append_unused hnodup hlt
  obtain ⟨plan, t, hrun, hextension, hasks⟩ :=
    exists_completeFrom h hperm (length_lacking hperm) s
  exact ⟨plan, t, hrun, hextension.perm, hextension, hasks⟩

/-! ## Choices -/

theorem exists_cheapestFrom (h : p.AlwaysAnswers) {ids : List ℕ}
    (hids : ∀ id ∈ ids, (order ++ [id]).Nodup ∧ ∀ x ∈ order ++ [id], x < p.size)
    (best? : Option (ℕ × Cost)) (s : Session σ) :
    ∃ result? t, cheapestFrom p order best? ids s = (.ok result?, t) ∧
      s.Adds t (ids.map (order ++ [·])) [] := by
  induction ids generalizing best? s with
  | nil => exact ⟨best?, s, rfl, .refl s⟩
  | cons id ids ih =>
    obtain ⟨hnodup, hlt⟩ := hids id List.mem_cons_self
    obtain ⟨e, hest⟩ := h.exists_estimate hnodup hlt s
    obtain ⟨result?, t, hrun, hadds⟩ := ih (fun id' hid' ↦ hids id' (List.mem_cons_of_mem id hid')) _
      (p.estimate (order ++ [id]) s).2
    refine ⟨result?, t, ?_, (p.adds_estimate (order ++ [id]) s).trans hadds⟩
    rw [cheapestFrom, SearchM.bind_apply, ← Prod.mk.eta (p := p.estimate (order ++ [id]) s), hest]
    exact hrun

theorem exists_mem_of_cheapestFrom {ids : List ℕ} {result? : Option (ℕ × Cost)} {s t : Session σ}
    (hids : ids ≠ []) (hrun : cheapestFrom p order none ids s = (.ok result?, t)) :
    ∃ id cost, result? = some (id, cost) ∧ id ∈ ids := by
  have hends : p.Ends (fun _ ↦ True) s _ (cheapestFrom p order none ids s) :=
    ends_cheapestFrom s fun _ _ ↦ trivial
  rw [hrun] at hends
  cases hends with
  | finished _ _ holds =>
    obtain ⟨hmem, hnone⟩ := holds
    cases result? with
    | none => exact absurd (hnone rfl).1 hids
    | some best => exact ⟨best.1, best.2, rfl, (hmem best.1 best.2 rfl).resolve_right (by simp)⟩

theorem chooses_of_answers (h : p.AlwaysAnswers)
    (hchoice : ∀ {order s id cost t}, (order ++ lacking p.size order).Perm (List.range p.size) →
      cheapestFrom p order none (lacking p.size order) s = (.ok (some (id, cost)), t) →
      choice order id) : Chooses p choice := by
  intro order s hperm hlength
  obtain ⟨result?, t, hrun, hadds⟩ :=
    exists_cheapestFrom h (fun _ hid ↦ nodup_append_of_mem hperm hid) none s
  obtain ⟨id, cost, rfl, hmem⟩ := exists_mem_of_cheapestFrom (by
    rw [← List.length_pos_iff]
    omega) hrun
  exact ⟨id, cost, t, hrun, hmem, hchoice hperm hrun, hadds⟩

/-! ## Brute force -/

/-- What brute force has done: it has completed heads in lexicographic order, from the first one on, and
all of them if it never found the budget spent. -/
structure BruteForced (choice : List ℕ → ℕ → Prop) (p : Problem σ) (length : ℕ) (s : Session σ)
    (runs : List (List ℕ × List ℕ)) (t : Session σ) : Prop where
  swept : Swept (asks p.size) (IsExtension choice p.size)
    ((inOrder p.size length).take runs.length) s runs t
  length_le : runs.length ≤ count p.size length
  unhurried : s.IsUnhurriedSince t → runs.length = count p.size length

theorem BruteForced.length_head {length : ℕ} {s t : Session σ} {runs : List (List ℕ × List ℕ)}
    (h : BruteForced choice p length s runs t) (hlength : length ≤ p.size) {run : List ℕ × List ℕ}
    (hrun : run ∈ runs) : run.1.length = length := by
  have hhead : run.1 ∈ runs.map Prod.fst := List.mem_map_of_mem hrun
  rw [h.swept.heads] at hhead
  exact ((mem_inOrder_iff hlength).mp (List.mem_of_mem_take hhead)).2.2

/-- **Brute force completes the heads in order**, each under the rule of choice. -/
theorem exists_bruteForced (h : p.AlwaysAnswers) (hchoice : Chooses p choice) (length? : Option ℕ)
    (s : Session σ) :
    ∃ runs t, bruteForce p length? s = (.ok (), t) ∧
      BruteForced choice p (bruteForceLength p length?) s runs t := by
  have hlength : bruteForceLength p length? ≤ p.size := Nat.min_le_right _ _
  obtain ⟨runs, outOfTime, t, hrun, iterated, hswept, hstop⟩ :=
    exists_sweep h .bruteForceGreedy
      (fun rank hrank ↦ completes_complete hchoice (nodup_ofRank hlength)
        fun _ ↦ lt_of_mem_ofRank hlength hrank)
      (isCompletion_complete length?) hlength s
  have hle : runs.length ≤ count p.size (bruteForceLength p length?) := by simpa using iterated.le
  rw [← take_inOrder hle] at hswept
  refine ⟨runs, _, hrun, hswept, hle, fun hunhurried ↦ ?_⟩
  cases outOfTime with
  | true => exact absurd hunhurried (hstop rfl)
  | false => simpa using iterated.natural rfl

end JoinOrder.Sweep
