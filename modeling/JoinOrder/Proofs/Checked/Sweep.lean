import JoinOrder.Proofs.Checked.Step
import JoinOrder.Proofs.Search.Sweep
/-!
# Sweeps stay in bounds

A completion keeps a table with a mark for each operand that is used. It reads the table to find the
operands that are not, and it marks the operand it appends. The positions still open are counted by what
the length of the order leaves of the number of operands, and the last one is known by that number less
one.

The marks are at all times those of the operands of the order. Since an order has operands only, the table
is never left; and since it repeats none, it is never longer than there are operands.

The heads come from an enumeration, as long as there are turns to ask for one. There is a turn for each head
and one for the end, so a sweep never has to do without.
-/

namespace JoinOrder.Checked

variable {σ : Type} {p : Problem σ} {order head : List ℕ} {n : ℕ}

/-! ## Completion with a table -/

/-- Those of some operands that are not marked. -/
def unmarked (used : List Bool) : List ℕ → Option (List ℕ)
  | [] => some []
  | id :: ids => do
    let mark ← used[id]?
    let rest ← unmarked used ids
    some (if mark then rest else id :: rest)

/-- The table with some operands marked. -/
def mark (used : List Bool) (ids : List ℕ) : Option (List Bool) :=
  ids.foldlM (fun used id ↦ set used id true) used

/-- `Sweep.cheapestFrom`, each estimate checked. -/
def cheapestFrom (p : Problem σ) (order : List ℕ) (best? : Option (ℕ × Cost)) :
    List ℕ → CheckedM σ (Option (ℕ × Cost))
  | [] => return best?
  | id :: rest => do
    let e ← estimate p (order ++ [id])
    let cheaper := match best? with
      | some (_, best) => decide (e.cost < best)
      | none => true
    cheapestFrom p order (if cheaper then some (id, e.cost) else best?) rest

/-- The operand for the next position, given the last position and the operands not used. -/
def choose (p : Problem σ) (order : List ℕ) (last : ℕ) (unused : List ℕ) :
    CheckedM σ (Option ℕ) :=
  if order.length = last then return unused.head?
  else do
    let best? ← cheapestFrom p order none unused
    return best?.map Prod.fst

/-- `Sweep.completeFrom` with a table of marks. -/
def completeFrom (p : Problem σ) :
    (positions : ℕ) → (order : List ℕ) → (used : List Bool) → CheckedM σ (List ℕ)
  | 0, order, _ => return order
  | positions + 1, order, used => do
    let unused ← unmarked used (List.range p.size)
    let last ← sub p.size 1
    match ← choose p order last unused with
    | none => throw (.noUnusedOperand order.length)
    | some id => do
      let used ← set used id true
      completeFrom p positions (order ++ [id]) used

/-- `Sweep.complete` with a table of marks. -/
def complete (p : Problem σ) (head : List ℕ) : CheckedM σ (List ℕ) := do
  let positions ← sub p.size head.length
  let used ← mark (List.replicate p.size false) head
  completeFrom p positions head used

/-! ## Sweeping -/

/-- `Sweep.sweepFrom` with a checked completion, each test checked. It has no result where it runs out of
turns. -/
def sweepFrom (p : Problem σ) (id : StrategyId) (complete : List ℕ → CheckedM σ (List ℕ)) :
    (turns : ℕ) → (heads : Enumeration) → (iteration : ℕ) → CheckedM σ (ℕ × Bool)
  | 0, _, _ => fun _ ↦ none
  | turns + 1, heads, iteration => do
    if ← lift (liftM (p.canStop iteration)) then
      return (iteration, true)
    match heads.next with
    | (none, _) => return (iteration, false)
    | (some head, heads) =>
      let order ← complete head
      let _ ← test p id order
      sweepFrom p id complete turns heads (iteration + 1)

/-- `Sweep.sweep` with a checked completion. -/
def sweep (p : Problem σ) (id : StrategyId) (length : ℕ)
    (complete : List ℕ → CheckedM σ (List ℕ)) : CheckedM σ Unit := do
  let turns := Arrangement.count p.size length + 1
  let (iterations, outOfTime) ← sweepFrom p id complete turns (.arrangements p.size length) 0
  lift (Session.stop id iterations outOfTime)

/-! ## The table holds the marks of the order -/

/-- The operands an order lacks. -/
def lacking (n : ℕ) (order : List ℕ) : List ℕ := (List.range n).filter fun id ↦ !order.contains id

/-- The marks of the operands of an order. -/
def marks (n : ℕ) (order : List ℕ) : List Bool := (List.range n).map order.contains

theorem replicate_false (n : ℕ) : List.replicate n false = marks n [] := by
  refine (List.eq_replicate_iff.mpr ⟨?_, fun mark hmark ↦ ?_⟩).symm
  · rw [marks, List.length_map, List.length_range]
  · obtain ⟨id, -, rfl⟩ := List.mem_map.mp hmark
    rfl

theorem set_marks {id : ℕ} (h : id < n) :
    set (marks n order) id true = some (marks n (order ++ [id])) := by
  rw [set, if_pos (by simpa [marks] using h), Option.some.injEq]
  refine List.ext_getElem (by simp [marks]) fun i hi hi' ↦ ?_
  by_cases heq : id = i
  · simp [marks, heq]
  · simp [marks, heq, Ne.symm heq]

theorem mark_marks (order : List ℕ) (h : ∀ x ∈ head, x < n) :
    mark (marks n order) head = some (marks n (order ++ head)) := by
  induction head generalizing order with
  | nil => rw [List.append_nil]; rfl
  | cons id rest ih =>
    rw [mark, List.foldlM_cons, set_marks (h id List.mem_cons_self)]
    have hrest := ih (order ++ [id]) fun x hx ↦ h x (List.mem_cons_of_mem id hx)
    rw [List.append_assoc] at hrest
    exact hrest

theorem unmarked_marks {ids : List ℕ} (h : ∀ x ∈ ids, x < n) :
    unmarked (marks n order) ids = some (ids.filter fun id ↦ !order.contains id) := by
  induction ids with
  | nil => rfl
  | cons id rest ih =>
    have hmark : (marks n order)[id]? = some (order.contains id) := by
      have hid := h id List.mem_cons_self
      simp [marks, List.getElem?_range hid]
    rw [unmarked, hmark, ih fun x hx ↦ h x (List.mem_cons_of_mem id hx), List.filter_cons]
    cases order.contains id <;> rfl

theorem unmarked_range (n : ℕ) (order : List ℕ) :
    unmarked (marks n order) (List.range n) = some (lacking n order) :=
  unmarked_marks fun _ ↦ List.mem_range.mp

theorem lacking_append (id : ℕ) : (lacking n order).filter (· ≠ id) = lacking n (order ++ [id]) := by
  rw [lacking, lacking, List.filter_filter]
  refine List.filter_congr fun x _ ↦ ?_
  rw [List.contains_append, List.contains_cons, List.contains_nil, Bool.or_false, Bool.not_or,
    Bool.and_comm, decide_not, beq_eq_decide]

/-! ## Completion in bounds -/

open Problem Sweep

theorem isInBounds_cheapestFrom {ids : List ℕ} {best? : Option (ℕ × Cost)} {s : Session σ}
    (h : ∀ id ∈ ids, (order ++ [id]).Nodup ∧ ∀ x ∈ order ++ [id], x < p.size) :
    IsInBounds (cheapestFrom p order best? ids) (Sweep.cheapestFrom p order best? ids) s := by
  induction ids generalizing best? s with
  | nil => exact .pure _
  | cons id rest ih =>
    obtain ⟨hnodup, hlt⟩ := h id List.mem_cons_self
    rw [cheapestFrom, Sweep.cheapestFrom]
    refine (IsInBounds.estimate hnodup hlt).bind (ends_estimate _ s trivial) fun e t _ ↦ ?_
    exact ih fun id' hid' ↦ h id' (List.mem_cons_of_mem id hid')

theorem isInBounds_choose {last : ℕ} {s : Session σ} (hlast : order.length ≠ last)
    (hperm : (order ++ lacking p.size order).Perm (List.range p.size))
    {checkedNext : Option ℕ → CheckedM σ (List ℕ)} {next : Option (ℕ × Cost) → SearchM σ (List ℕ)}
    (hnext : ∀ best? t, (∀ id cost, best? = some (id, cost) → id ∈ lacking p.size order) →
      IsInBounds (checkedNext (best?.map Prod.fst)) (next best?) t) :
    IsInBounds (choose p order last (lacking p.size order) >>= checkedNext)
      (Sweep.cheapestFrom p order none (lacking p.size order) >>= next) s := by
  rw [choose, if_neg hlast, bind_assoc]
  refine (isInBounds_cheapestFrom fun id hid ↦ nodup_append_of_mem hperm hid).bind
    (ends_cheapestFrom s fun _ _ ↦ trivial) fun best? t ⟨hmem, _⟩ ↦ ?_
  exact hnext best? t fun id cost hbest ↦ (hmem id cost hbest).resolve_right (by simp)

/-- **A completion stays in bounds**: the table holds the marks of the order, and there is an operand for
each open position. -/
theorem isInBounds_completeFrom {positions : ℕ} {s : Session σ}
    (hperm : (order ++ lacking p.size order).Perm (List.range p.size))
    (hlen : (lacking p.size order).length = positions) :
    IsInBounds (completeFrom p positions order (marks p.size order))
      (Sweep.completeFrom p positions order (lacking p.size order)) s := by
  induction positions generalizing order s with
  | zero => exact .pure _
  | succ positions ih =>
    have hlength : order.length + (positions + 1) = p.size := by
      rw [← hlen, ← List.length_append, Arrangement.length_of_perm_range hperm]
    have happend (id : ℕ) (hid : id ∈ lacking p.size order) (t : Session σ) :
        IsInBounds
          ((liftM (set (marks p.size order) id true) : CheckedM σ (List Bool)) >>= fun used ↦
            completeFrom p positions (order ++ [id]) used)
          (Sweep.completeFrom p positions (order ++ [id])
            ((lacking p.size order).filter (· ≠ id))) t := by
      have hperm' := perm_append_of_mem hperm hid
      rw [lacking_append] at hperm' ⊢
      refine .bind_some (set_marks ?_) (ih hperm' ?_)
      · exact List.mem_range.mp (List.mem_of_mem_filter hid)
      · have := Arrangement.length_of_perm_range hperm'
        rw [List.length_append, List.length_append, List.length_singleton] at this
        omega
    rw [completeFrom]
    refine .bind_some (unmarked_range p.size order) (.bind_some (if_pos (by omega)) ?_)
    cases positions with
    | zero =>
      obtain ⟨id, hid⟩ := List.length_eq_one_iff.mp hlen
      rw [choose, if_pos (by omega), pure_bind]
      have hlast := happend id (by rw [hid]; exact List.mem_singleton_self id) s
      rw [hid] at hlast ⊢
      exact hlast
    | succ positions =>
      rw [Sweep.completeFrom]
      refine isInBounds_choose (by omega) hperm fun best? t hmem ↦ ?_
      cases best? with
      | none => rfl
      | some best => exact happend best.1 (hmem best.1 best.2 rfl) t

theorem isInBounds_complete {s : Session σ} (hnodup : head.Nodup) (hlt : ∀ x ∈ head, x < p.size) :
    IsInBounds (complete p head) (Sweep.complete p head) s := by
  have hperm := perm_append_unused hnodup hlt
  have hlength := Arrangement.length_of_perm_range hperm
  rw [List.length_append] at hlength
  have hmarks : mark (List.replicate p.size false) head = some (marks p.size head) := by
    rw [replicate_false]
    exact mark_marks [] hlt
  rw [complete]
  exact .bind_some (if_pos (by omega))
    (.bind_some hmarks (isInBounds_completeFrom hperm (by rw [lacking]; omega)))

/-! ## Sweeps in bounds -/

/-- **A sweep stays in bounds** if its completion does, and has a turn for each head and one for the end. -/
theorem isInBounds_sweepFrom {id : StrategyId} {length left rank : ℕ}
    {checked : List ℕ → CheckedM σ (List ℕ)} {complete : List ℕ → SearchM σ (List ℕ)} {s : Session σ}
    (hchecked : ∀ rank < Arrangement.count p.size length, ∀ t,
      IsInBounds (checked (Arrangement.ofRank p.size length rank))
        (complete (Arrangement.ofRank p.size length rank)) t)
    (hcomplete : IsCompletion p length complete) (hlength : length ≤ p.size)
    (hrank : rank + left = Arrangement.count p.size length) :
    IsInBounds
      (sweepFrom p id checked (left + 1) ((Enumeration.arrangements p.size length).after rank) rank)
      (rankedFrom p id length complete left rank) s := by
  induction left generalizing rank s with
  | zero =>
    rw [Nat.add_zero] at hrank
    rw [sweepFrom, rankedFrom, Enumeration.next_after hlength hrank.le,
      Arrangement.getElem?_inOrder_eq_none hrank.ge]
    refine (IsInBounds.lift _).bind (ends_canStop rank s trivial) fun stop t _ ↦ ?_
    cases stop <;> exact .pure _
  | succ left ih =>
    have hlt : rank < Arrangement.count p.size length := by omega
    rw [sweepFrom, rankedFrom, Enumeration.next_after hlength hlt.le,
      Arrangement.getElem?_inOrder hlt]
    refine (IsInBounds.lift _).bind (ends_canStop rank s trivial) fun stop t _ ↦ ?_
    cases stop with
    | true => exact .pure _
    | false =>
      refine (hchecked rank hlt t).bind
        ((hcomplete rank hlt t).weaken fun _ _ ↦ trivial) fun order u horder ↦ ?_
      refine (IsInBounds.test horder).bind (ends_test id order u trivial) fun _ v _ ↦ ?_
      exact ih (by omega)

theorem isInBounds_sweep {id : StrategyId} {length : ℕ} {checked : List ℕ → CheckedM σ (List ℕ)}
    {complete : List ℕ → SearchM σ (List ℕ)} {s : Session σ}
    (hchecked : ∀ rank < Arrangement.count p.size length, ∀ t,
      IsInBounds (checked (Arrangement.ofRank p.size length rank))
        (complete (Arrangement.ofRank p.size length rank)) t)
    (hcomplete : IsCompletion p length complete) (hlength : length ≤ p.size) :
    IsInBounds (sweep p id length checked) (Sweep.sweep p id length complete) s := by
  have hends := ends_rankedFrom id s hcomplete (Nat.zero_add _)
  rw [sweep_eq hlength]
  exact (isInBounds_sweepFrom hchecked hcomplete hlength (Nat.zero_add _)).bind
    (hends.weaken fun _ _ ↦ trivial) fun _ _ _ ↦ .lift _

theorem isInBounds_exhaustive (s : Session σ) :
    IsInBounds (sweep p .exhaustive p.size pure) (Sweep.exhaustive p) s :=
  isInBounds_sweep (fun _ _ _ ↦ .pure _) isCompletion_pure le_rfl

theorem isInBounds_bruteForce (length? : Option ℕ) (s : Session σ) :
    IsInBounds (sweep p .bruteForceGreedy (bruteForceLength p length?) (complete p))
      (Sweep.bruteForce p length?) s := by
  have hlength : bruteForceLength p length? ≤ p.size := Nat.min_le_right _ _
  refine isInBounds_sweep (fun rank hrank t ↦ ?_) (isCompletion_complete length?) hlength
  exact isInBounds_complete (Arrangement.nodup_ofRank hlength)
    fun _ hx ↦ Arrangement.lt_of_mem_ofRank hlength hrank hx

end JoinOrder.Checked
