import JoinOrder.Proofs.Enumeration
import JoinOrder.Proofs.Search.Iteration
/-!
# Sweeps end well

A sweep looks at the budget before each arrangement, completes the arrangement and tests what comes out.
It takes the arrangements as they come from its enumeration, and these are the arrangements in the order of
their ranks. So the sweep is told by rank from here on. Three things are shown of it, by one induction each
on the operands, the positions and the arrangements left.

* A completion never runs out of operands. Its order and its unused operands are together a rearrangement
  of all operands, and as many positions are open as operands are unused.
* It asks about duplicate free orders only, shorter than an ordering, and it ends with an ordering.
* A sweep makes one iteration for each arrangement, as long as the budget does not end it.
-/

namespace JoinOrder.Sweep

open Problem

variable {σ : Type} {p : Problem σ} {allowed : Move → Prop} {order unused : List ℕ}

/-! ## What a completion has left -/

theorem perm_append_unused {n : ℕ} {head : List ℕ} (hnodup : head.Nodup) (hlt : ∀ x ∈ head, x < n) :
    (head ++ (List.range n).filter fun id ↦ !head.contains id).Perm (List.range n) := by
  have hhead : head.Perm ((List.range n).filter head.contains) := by
    refine (List.perm_ext_iff_of_nodup hnodup (List.nodup_range.filter _)).mpr fun x ↦ ?_
    rw [List.mem_filter, List.mem_range, List.contains_iff_mem]
    exact ⟨fun hx ↦ ⟨hlt x hx, hx⟩, fun hx ↦ hx.2⟩
  exact (hhead.append_right _).trans (List.filter_append_perm _ _)

theorem perm_append_of_mem {n id : ℕ} (h : (order ++ unused).Perm (List.range n))
    (hid : id ∈ unused) :
    ((order ++ [id]) ++ unused.filter (· ≠ id)).Perm (List.range n) := by
  have hnodup : unused.Nodup := (List.nodup_append.mp (Arrangement.nodup_of_perm_range h)).2.1
  have herase : (unused.filter (· ≠ id)) = unused.erase id := by
    rw [hnodup.erase_eq_filter]
    exact List.filter_congr fun x _ ↦ by rw [bne, decide_not, beq_eq_decide]
  rw [herase, List.append_assoc]
  exact ((List.perm_cons_erase hid).symm.append_left order).trans h

theorem nodup_append_of_mem {n id : ℕ} (h : (order ++ unused).Perm (List.range n))
    (hid : id ∈ unused) : (order ++ [id]).Nodup ∧ ∀ x ∈ order ++ [id], x < n := by
  have hperm := perm_append_of_mem h hid
  refine ⟨(List.nodup_append.mp (Arrangement.nodup_of_perm_range hperm)).1, fun x hx ↦ ?_⟩
  exact Arrangement.lt_of_perm_range hperm (List.mem_append_left _ hx)

theorem isEstimate_append {x : ℕ} (h : (order ++ unused).Perm (List.range p.size))
    (hlen : 2 ≤ unused.length) (hx : x ∈ unused) :
    Move.IsEstimate p.size (.estimate (order ++ [x])) := by
  obtain ⟨hnodup, hlt⟩ := nodup_append_of_mem h hx
  refine .intro hnodup hlt ?_
  have := Arrangement.length_of_perm_range h
  rw [List.length_append] at this
  rw [List.length_append, List.length_singleton]
  omega

/-! ## Completion -/

theorem ends_cheapestFrom {ids : List ℕ} {best? : Option (ℕ × Cost)} (s : Session σ)
    (hallowed : ∀ id ∈ ids, allowed (.estimate (order ++ [id]))) :
    p.Ends allowed s
      (fun result? _ ↦ (∀ id cost, result? = some (id, cost) → id ∈ ids ∨ best? = some (id, cost)) ∧
        (result? = none → ids = [] ∧ best? = none))
      (cheapestFrom p order best? ids s) := by
  induction ids generalizing best? s with
  | nil => exact .pure ⟨fun _ _ h ↦ Or.inr h, fun h ↦ ⟨rfl, h⟩⟩
  | cons id ids ih =>
    rw [cheapestFrom]
    refine (ends_estimate _ s (hallowed id List.mem_cons_self)).bind fun e t _ _ ↦ ?_
    -- whatever goes on as the best is the operand just estimated or the best before it
    have step : ∀ next? : Option (ℕ × Cost),
        next? = some (id, e.cost) ∨ (next? = best? ∧ best?.isSome = true) →
        p.Ends allowed t
          (fun result? _ ↦
            (∀ id' cost, result? = some (id', cost) → id' ∈ id :: ids ∨ best? = some (id', cost)) ∧
              (result? = none → id :: ids = [] ∧ best? = none))
          (cheapestFrom p order next? ids t) := by
      intro next? hnext
      refine (ih t fun id' h ↦ hallowed id' (List.mem_cons_of_mem id h)).mono
        fun result? _ _ h ↦ ⟨fun id' cost hresult ↦ ?_, fun hresult ↦ ?_⟩
      · rcases h.1 id' cost hresult with hmem | hbest
        · exact Or.inl (List.mem_cons_of_mem id hmem)
        · rcases hnext with rfl | ⟨rfl, -⟩
          · cases hbest
            exact Or.inl List.mem_cons_self
          · exact Or.inr hbest
      · obtain ⟨-, rfl⟩ := h.2 hresult
        rcases hnext with hnext | ⟨rfl, hsome⟩ <;> contradiction
    apply step
    cases best? with
    | none => exact Or.inl rfl
    | some best =>
      by_cases hlt : e.cost < best.2
      · exact Or.inl (if_pos (decide_eq_true hlt))
      · exact Or.inr ⟨if_neg (by simpa using hlt), rfl⟩

/-- A completion asks about duplicate free orders and ends with an ordering. -/
theorem ends_completeFrom {positions : ℕ} (s : Session σ)
    (hperm : (order ++ unused).Perm (List.range p.size)) (hlen : unused.length = positions) :
    p.Ends (Move.IsEstimate p.size) s (fun result _ ↦ result.Perm (List.range p.size))
      (completeFrom p positions order unused s) := by
  induction positions, order, unused using completeFrom.induct generalizing s with
  | case1 order unused =>
    obtain rfl := List.length_eq_zero_iff.mp hlen
    rw [List.append_nil] at hperm
    exact .pure hperm
  | case2 order => contradiction
  | case3 order id rest =>
    obtain rfl := List.length_eq_zero_iff.mp (Nat.succ.inj hlen)
    exact .pure hperm
  | case4 positions order unused ih =>
    rw [completeFrom]
    have hestimate (id : ℕ) (h : id ∈ unused) := isEstimate_append hperm (by omega) h
    refine (ends_cheapestFrom s hestimate).bind fun result? t _ ⟨hmem, hnone⟩ ↦ ?_
    cases result? with
    | none =>
      -- there is an operand for each open position
      obtain ⟨rfl, -⟩ := hnone rfl
      contradiction
    | some best =>
      obtain ⟨id, cost⟩ := best
      have hid : id ∈ unused := (hmem id cost rfl).resolve_right (by simp)
      have hperm' := perm_append_of_mem hperm hid
      refine ih id t hperm' ?_
      have := hperm'.length_eq.trans hperm.length_eq.symm
      rw [List.length_append, List.length_append, List.length_append, List.length_singleton] at this
      omega

theorem ends_complete {head : List ℕ} (s : Session σ) (hnodup : head.Nodup)
    (hlt : ∀ x ∈ head, x < p.size) :
    p.Ends (Move.IsEstimate p.size) s (fun order _ ↦ order.Perm (List.range p.size))
      (complete p head s) := by
  have hperm := perm_append_unused hnodup hlt
  refine ends_completeFrom s hperm ?_
  have := hperm.length_eq
  rw [List.length_append, List.length_range] at this
  omega

/-! ## Sweeping by rank -/

/-- The sweep from a rank on, given how many arrangements are left. -/
def rankedFrom (p : Problem σ) (id : StrategyId) (length : ℕ)
    (complete : List ℕ → SearchM σ (List ℕ)) : (left rank : ℕ) → SearchM σ (ℕ × Bool)
  | left, rank => do
    if ← p.canStop rank then
      return (rank, true)
    match left with
    | 0 => return (rank, false)
    | left + 1 =>
      let order ← complete (Arrangement.ofRank p.size length rank)
      let _ ← p.test id order
      rankedFrom p id length complete left (rank + 1)

/-- **What a sweep gets from its enumeration are the arrangements in the order of their ranks**, and it has
enough turns to get all of them. -/
theorem sweepFrom_eq_rankedFrom {id : StrategyId} {length left rank : ℕ}
    {complete : List ℕ → SearchM σ (List ℕ)} (hlength : length ≤ p.size)
    (hrank : rank + left = Arrangement.count p.size length) :
    sweepFrom p id complete (left + 1) ((Enumeration.arrangements p.size length).after rank) rank =
      rankedFrom p id length complete left rank := by
  induction left generalizing rank with
  | zero =>
    rw [Nat.add_zero] at hrank
    rw [sweepFrom, rankedFrom, Enumeration.next_after hlength hrank.le,
      Arrangement.getElem?_inOrder_eq_none hrank.ge]
  | succ left ih =>
    have hlt : rank < Arrangement.count p.size length := by omega
    rw [sweepFrom, rankedFrom, Enumeration.next_after hlength hlt.le,
      Arrangement.getElem?_inOrder hlt]
    refine bind_congr fun stop ↦ ?_
    cases stop with
    | true => rfl
    | false => exact bind_congr fun order ↦ bind_congr fun _ ↦ ih (by omega)

theorem sweep_eq {id : StrategyId} {length : ℕ} {complete : List ℕ → SearchM σ (List ℕ)}
    (hlength : length ≤ p.size) :
    sweep p id length complete = (do
      let (iterations, outOfTime) ←
        rankedFrom p id length complete (Arrangement.count p.size length) 0
      Session.stop id iterations outOfTime) := by
  rw [sweep, ← sweepFrom_eq_rankedFrom hlength (Nat.zero_add _)]
  rfl

/-! ## Sweeping -/

/-- The length of the heads that brute force sweeps. -/
def bruteForceLength (p : Problem σ) (length? : Option ℕ) : ℕ :=
  min (length?.getD (headLength p.size p.config.maxEstimates)) p.size

/-- A completion makes an ordering of each head of a length, and tests nothing on the way. -/
def IsCompletion (p : Problem σ) (length : ℕ) (complete : List ℕ → SearchM σ (List ℕ)) : Prop :=
  ∀ rank < Arrangement.count p.size length, ∀ s,
    p.Ends (Move.IsEstimate p.size) s (fun order _ ↦ order.Perm (List.range p.size))
      (complete (Arrangement.ofRank p.size length rank) s)

theorem isCompletion_pure : IsCompletion p p.size pure :=
  fun _ hrank _ ↦ .pure (Arrangement.ofRank_perm_range hrank)

theorem isCompletion_complete (length? : Option ℕ) :
    IsCompletion p (bruteForceLength p length?) (complete p) := by
  have hlength : bruteForceLength p length? ≤ p.size := Nat.min_le_right _ _
  intro rank hrank s
  exact ends_complete s (Arrangement.nodup_ofRank hlength)
    fun _ hx ↦ Arrangement.lt_of_mem_ofRank hlength hrank hx

theorem ends_rankedFrom (id : StrategyId) {length left rank : ℕ}
    {complete : List ℕ → SearchM σ (List ℕ)} (s : Session σ)
    (hcomplete : IsCompletion p length complete)
    (hrank : rank + left = Arrangement.count p.size length) :
    p.Ends (Move.IsTrial p.size id) s (fun result t ↦ p.Iterated s rank left result t)
      (rankedFrom p id length complete left rank s) := by
  induction left generalizing rank s with
  | zero =>
    rw [rankedFrom]
    refine (ends_canStop rank s (.poll rank)).bind fun stop t _ ⟨⟨world, ht⟩, hstop⟩ ↦ ?_
    subst ht
    cases stop with
    | true => exact .pure (.stop (hstop rfl).1 (hstop rfl).2)
    | false => exact .pure (.finish rfl (Session.scorings_eq_of_cons rfl rfl))
  | succ left ih =>
    rw [rankedFrom]
    refine (ends_canStop rank s (.poll rank)).bind fun stop t _ ⟨⟨world, ht⟩, hstop⟩ ↦ ?_
    subst ht
    cases stop with
    | true => exact .pure (.stop (hstop rfl).1 (hstop rfl).2)
    | false =>
      have hpolled : Session.scorings
          { s with world, journal := .polled rank false :: s.journal } = s.scorings :=
        Session.scorings_eq_of_cons rfl rfl
      refine (hcomplete rank (by omega) _).ofEstimates.bind fun order u _ ⟨horder, hscorings⟩ ↦ ?_
      refine (ends_test id order u (.test horder)).bind fun _ v _ ⟨htested, hcounted⟩ ↦ ?_
      rw [hscorings, hpolled] at hcounted
      exact (ih v (by omega)).mono fun _ _ _ iterated ↦ iterated.step htested hcounted

theorem ran_sweep {id : StrategyId} {length : ℕ} {complete : List ℕ → SearchM σ (List ℕ)}
    (hlength : length ≤ p.size) (s : Session σ) (hcomplete : IsCompletion p length complete) :
    p.Ran id (Arrangement.count p.size length) s (sweep p id length complete s) := by
  rw [sweep_eq hlength]
  exact Ends.andStop _ (ends_rankedFrom id s hcomplete (Nat.zero_add _))

theorem ran_exhaustive (s : Session σ) :
    p.Ran .exhaustive (Arrangement.count p.size p.size) s (exhaustive p s) :=
  ran_sweep le_rfl s isCompletion_pure

theorem ran_bruteForce (length? : Option ℕ) (s : Session σ) :
    p.Ran .bruteForceGreedy (Arrangement.count p.size (bruteForceLength p length?)) s
      (bruteForce p length? s) :=
  ran_sweep (Nat.min_le_right _ _) s (isCompletion_complete length?)

end JoinOrder.Sweep
