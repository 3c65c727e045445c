import JoinOrder.Proofs.Search.Best
/-!
# Searches that are answered

If the cost model answers whatever it is asked, a search can be followed step by step. Two lists tell
what it did, the orders shown to the cost model and the orderings tested, and a step *adds* to both of
them. A sweep adds for each head what the completion of the head asks about, and then the one ordering
that the head is completed to. How many heads there are to it is a matter of the looks at the budget
alone.

A cost model may keep a state and answer as it likes. If it costs an order by what the order is, the
costs are known as well.
-/

namespace JoinOrder

variable {σ : Type}

/-! ## What a step adds -/

namespace Session

/-- The orders shown to the cost model, in order. -/
def asked (s : Session σ) : List (List ℕ) := s.history.filterMap Entry.askedOrder?

/-- The orderings that were scored, in order. -/
def tested (s : Session σ) : List (List ℕ) := s.scorings.map Prod.fst

/-- A session that has gone on to ask about some orders and to test some orderings. -/
structure Adds (s t : Session σ) (asked tested : List (List ℕ)) : Prop where
  journal : s.journal <:+ t.journal
  asked : t.asked = s.asked ++ asked
  tested : t.tested = s.tested ++ tested

namespace Adds

variable {s t u : Session σ} {asked asked' tested tested' : List (List ℕ)}

theorem refl (s : Session σ) : Adds s s [] [] :=
  ⟨List.suffix_refl _, (List.append_nil _).symm, (List.append_nil _).symm⟩

theorem trans (h : Adds s t asked tested) (h' : Adds t u asked' tested') :
    Adds s u (asked ++ asked') (tested ++ tested') :=
  ⟨h.journal.trans h'.journal, by rw [h'.asked, h.asked, List.append_assoc],
    by rw [h'.tested, h.tested, List.append_assoc]⟩

end Adds

theorem adds_record_stopped (s : Session σ) (id : StrategyId) (iterations : ℕ) (outOfTime : Bool) :
    Adds s (s.record (.stopped id iterations outOfTime)) [] [] := by
  refine ⟨List.suffix_cons _ _, ?_, ?_⟩ <;>
    simp [Session.asked, Session.tested, scorings, history, record, Entry.askedOrder?, Entry.scoring?]

end Session

namespace Problem

open Session

variable {p : Problem σ} {s : Session σ}

theorem adds_canStop (p : Problem σ) (iteration : ℕ) (s : Session σ) :
    Adds s (p.canStop iteration s).2 [] [] := by
  obtain ⟨stop, world, hstop, -⟩ := p.canStop_spec iteration s
  rw [hstop]
  refine ⟨List.suffix_cons _ _, ?_, ?_⟩ <;>
    simp [Session.asked, Session.tested, scorings, history, Entry.askedOrder?, Entry.scoring?]

theorem adds_estimate (p : Problem σ) (order : List ℕ) (s : Session σ) :
    Adds s (p.estimate order s).2 [order] [] := by
  rw [p.estimate_eq]
  refine ⟨List.suffix_cons _ _, ?_, ?_⟩ <;>
    simp [Session.asked, Session.tested, scorings, history, Entry.askedOrder?, Entry.scoring?]

theorem exists_test {order : List ℕ} {e : Estimate} (hest : (p.estimate order s).1 = .ok e)
    (id : StrategyId) :
    ∃ improved t, p.test id order s = (.ok improved, t) ∧ Adds s t [order] [order] := by
  have hspec := p.test_spec id order s
  generalize p.test id order s = out at hspec
  cases hspec with
  | refused est => exact absurd (est.symm.trans hest) (by simp)
  | kept est =>
    refine ⟨_, _, rfl, ⟨[_, _, _], rfl⟩, ?_, ?_⟩ <;>
      simp [Session.asked, Session.tested, scorings, history, Entry.askedOrder?, Entry.scoring?,
        List.filterMap_cons]
  | passed est =>
    refine ⟨_, _, rfl, ⟨[_, _], rfl⟩, ?_, ?_⟩ <;>
      simp [Session.asked, Session.tested, scorings, history, Entry.askedOrder?, Entry.scoring?,
        List.filterMap_cons]

/-! ## Cost models that answer -/

/-- The cost model gives an answer that a search accepts to every beginning of an ordering, whatever it
was asked before. -/
def AlwaysAnswers (p : Problem σ) : Prop :=
  ∀ order : List ℕ, order.Nodup → (∀ x ∈ order, x < p.size) → ∀ world, ∃ e : Estimate,
    ((p.oracles.costModel.estimate (p.view order) p.isSelect).run world).1 = .ok e ∧
      e.cost.isValid = true ∧ e.access.length = order.length

theorem AlwaysAnswers.exists_estimate (h : p.AlwaysAnswers) {order : List ℕ} (hnodup : order.Nodup)
    (hlt : ∀ x ∈ order, x < p.size) (s : Session σ) : ∃ e, (p.estimate order s).1 = .ok e := by
  obtain ⟨e, hanswer, haccepted⟩ := h order hnodup hlt s.world
  refine ⟨e, ?_⟩
  rw [p.estimate_eq]
  dsimp only
  rw [hanswer]
  exact Estimate.accepted_eq_ok_iff.mpr haccepted

/-! ## Cost functions -/

/-- The cost model answers for every beginning of an ordering, with a cost that depends on the order
alone and that a search accepts. -/
structure IsCostedBy (p : Problem σ) (cost : List ℕ → Cost) : Prop where
  estimate : ∀ order : List ℕ, order.Nodup → (∀ x ∈ order, x < p.size) → ∀ world, ∃ access,
    ((p.oracles.costModel.estimate (p.view order) p.isSelect).run world).1 =
      .ok ⟨cost order, access⟩ ∧ access.length = order.length
  valid : ∀ order : List ℕ, order.Nodup → (∀ x ∈ order, x < p.size) → (cost order).isValid = true

namespace IsCostedBy

variable {cost : List ℕ → Cost} {order : List ℕ}

theorem alwaysAnswers (h : p.IsCostedBy cost) : p.AlwaysAnswers := by
  intro order hnodup hlt world
  obtain ⟨access, hanswer, hlength⟩ := h.estimate order hnodup hlt world
  exact ⟨⟨cost order, access⟩, hanswer, h.valid order hnodup hlt, hlength⟩

theorem cost_of_estimate (h : p.IsCostedBy cost) {e : Estimate} (hnodup : order.Nodup)
    (hlt : ∀ x ∈ order, x < p.size) (hest : (p.estimate order s).1 = .ok e) :
    e.cost = cost order := by
  obtain ⟨access, hanswer, -⟩ := h.estimate order hnodup hlt s.world
  rw [p.estimate_eq] at hest
  dsimp only at hest
  rw [hanswer] at hest
  rw [Estimate.eq_of_accepted hest]

theorem cost_perform (h : p.IsCostedBy cost) {id : StrategyId} {m : Move} (hm : m.IsProper p.size id)
    (hs : ∀ x ∈ s.scorings, x.2.cost = cost x.1) :
    ∀ x ∈ (p.perform s m).scorings, x.2.cost = cost x.1 := by
  rw [scorings_perform]
  intro x hx
  rcases List.mem_append.mp hx with hx | hx
  · exact hs x hx
  · cases hm with
    | @test order hperm =>
      have hnodup := Arrangement.nodup_of_perm_range hperm
      have hlt (x : ℕ) : x ∈ order → x < p.size := Arrangement.lt_of_perm_range hperm
      obtain ⟨e, hest⟩ := h.alwaysAnswers.exists_estimate hnodup hlt s
      rw [scoring?_test_eq_some hest, Option.toList_some, List.mem_singleton] at hx
      rw [hx]
      exact h.cost_of_estimate hnodup hlt hest
    | poll | estimate | lookUp | stop => contradiction

theorem cost_of_reaches (h : p.IsCostedBy cost) {id : StrategyId} {world : σ}
    (hreach : p.Reaches (Move.IsProper p.size id) { world } s) :
    ∀ x ∈ s.scorings, x.2.cost = cost x.1 :=
  hreach.preserves (P := fun t ↦ ∀ x ∈ t.scorings, x.2.cost = cost x.1)
    (fun _ hx ↦ absurd hx List.not_mem_nil) fun _ _ hm ht ↦ h.cost_perform hm ht

end IsCostedBy

end Problem

/-! ## Looks at the budget -/

namespace Session

variable {s t u : Session σ}

/-- No look at the budget between two sessions found it spent. -/
def IsUnhurriedSince (s t : Session σ) : Prop := IsUnhurried (t.history.drop s.history.length)

instance (s t : Session σ) : Decidable (s.IsUnhurriedSince t) :=
  inferInstanceAs (Decidable (IsUnhurried _))

theorem IsUnhurriedSince.of_sublist {v w : Session σ} (h : s.IsUnhurriedSince t)
    (hpart : (w.history.drop v.history.length).Sublist (t.history.drop s.history.length)) :
    v.IsUnhurriedSince w :=
  fun hmem ↦ h ((hpart.filterMap Entry.stop?).subset hmem)

theorem IsUnhurriedSince.of_later (h : s.IsUnhurriedSince u) (hst : s.journal <:+ t.journal) :
    t.IsUnhurriedSince u := by
  refine h.of_sublist (List.drop_sublist_drop_left _ ?_)
  rw [history, history, List.length_reverse, List.length_reverse]
  exact hst.length_le

theorem IsUnhurriedSince.of_earlier (h : s.IsUnhurriedSince u) (htu : t.journal <:+ u.journal) :
    s.IsUnhurriedSince t :=
  h.of_sublist (List.IsPrefix.drop (List.reverse_prefix.mpr htu) _).sublist

theorem not_isUnhurriedSince_canStop {p : Problem σ} {iteration : ℕ}
    (hstop : (p.canStop iteration s).1 = true) :
    ¬s.IsUnhurriedSince (p.canStop iteration s).2 := by
  obtain ⟨stop, world, hrun, -⟩ := p.canStop_spec iteration s
  rw [hrun] at hstop ⊢
  obtain rfl : stop = true := hstop
  refine fun hnone ↦ hnone ?_
  rw [history, history, List.reverse_cons, List.drop_left]
  exact List.mem_singleton_self true

end Session

/-! ## Sweeps -/

namespace Sweep

open Problem

variable {p : Problem σ} {length left rank : ℕ} {complete : List ℕ → SearchM σ (List ℕ)}
  {asks : List ℕ → List ℕ → List (List ℕ)} {rule : List ℕ → List ℕ → Prop}

theorem rankedFrom_zero (id : StrategyId) (rank : ℕ) (s : Session σ) :
    rankedFrom p id length complete 0 rank s =
      (.ok (rank, (p.canStop rank s).1), (p.canStop rank s).2) := by
  rw [rankedFrom, SearchM.bind_apply]
  change (if (p.canStop rank s).1 = true then _ else _ : SearchM σ (ℕ × Bool)) _ = _
  cases (p.canStop rank s).1 <;> rfl

/-- One iteration: look at the budget, then complete a head, test what comes out and go on. -/
theorem rankedFrom_succ (id : StrategyId) (left rank : ℕ) (s : Session σ) :
    rankedFrom p id length complete (left + 1) rank s =
      if (p.canStop rank s).1 = true then (.ok (rank, true), (p.canStop rank s).2)
      else
        (complete (Arrangement.ofRank p.size length rank) >>= fun order ↦
          p.test id order >>= fun _ ↦ rankedFrom p id length complete left (rank + 1))
          (p.canStop rank s).2 := by
  rw [rankedFrom, SearchM.bind_apply]
  change (if (p.canStop rank s).1 = true then _ else _ : SearchM σ (ℕ × Bool)) _ = _
  cases (p.canStop rank s).1 <;> rfl

/-- A completion that answers: from any session it ends with an ordering that keeps to some rule, and on
the way it has asked about some orders and tested nothing. -/
def Completes (p : Problem σ) (complete : List ℕ → SearchM σ (List ℕ))
    (asks : List ℕ → List ℕ → List (List ℕ)) (rule : List ℕ → List ℕ → Prop) (head : List ℕ) : Prop :=
  ∀ s, ∃ plan t, complete head s = (.ok plan, t) ∧ plan.Perm (List.range p.size) ∧ rule head plan ∧
    s.Adds t (asks head plan) []

/-- What a sweep has done that has gone through some heads and completed each of them to an ordering: it
asked what the completions ask, and about each ordering, and it tested the orderings. -/
structure Swept (asks : List ℕ → List ℕ → List (List ℕ)) (rule : List ℕ → List ℕ → Prop)
    (heads : List (List ℕ)) (s : Session σ) (runs : List (List ℕ × List ℕ)) (t : Session σ) :
    Prop where
  heads : runs.map Prod.fst = heads
  rule : ∀ run ∈ runs, rule run.1 run.2
  adds : s.Adds t (runs.flatMap fun run ↦ asks run.1 run.2 ++ [run.2]) (runs.map Prod.snd)

namespace Swept

variable {s t u v : Session σ} {heads : List (List ℕ)} {runs : List (List ℕ × List ℕ)}
  {head order : List ℕ}

theorem nil (h : s.Adds t [] []) : Swept asks rule [] s [] t :=
  ⟨rfl, fun _ hrun ↦ absurd hrun List.not_mem_nil, h⟩

theorem cons (hrule : rule head order) (hcompleted : s.Adds t (asks head order) [])
    (htested : t.Adds u [order] [order]) (h : Swept asks rule heads u runs v) :
    Swept asks rule (head :: heads) s ((head, order) :: runs) v where
  heads := congrArg (head :: ·) h.heads
  rule run hrun := by
    rcases List.mem_cons.mp hrun with rfl | hrun
    · exact hrule
    · exact h.rule run hrun
  adds := (hcompleted.trans htested).trans h.adds

end Swept

/-- **A sweep goes through the heads in order**, up to the last one or to where it finds the budget
spent. -/
theorem exists_rankedFrom (h : p.AlwaysAnswers) (id : StrategyId)
    (hcomplete : ∀ rank < Arrangement.count p.size length,
      Completes p complete asks rule (Arrangement.ofRank p.size length rank))
    (hrank : rank + left = Arrangement.count p.size length) (s : Session σ) :
    ∃ runs stop t, rankedFrom p id length complete left rank s = (.ok (rank + runs.length, stop), t) ∧
      Swept asks rule ((List.range' rank runs.length).map (Arrangement.ofRank p.size length))
        s runs t ∧
      (stop = true → ¬s.IsUnhurriedSince t) := by
  induction left generalizing rank s with
  | zero =>
    refine ⟨[], (p.canStop rank s).1, (p.canStop rank s).2, ?_, .nil (p.adds_canStop rank s),
      Session.not_isUnhurriedSince_canStop⟩
    rw [rankedFrom_zero, List.length_nil, Nat.add_zero]
  | succ left ih =>
    rw [rankedFrom_succ]
    split
    · next hstop =>
      exact ⟨[], true, _, rfl, .nil (p.adds_canStop rank s),
        fun _ ↦ Session.not_isUnhurriedSince_canStop hstop⟩
    · obtain ⟨order, t, ht, hperm, hrule, hasks⟩ := hcomplete rank (by omega) (p.canStop rank s).2
      obtain ⟨e, hest⟩ := h.exists_estimate (Arrangement.nodup_of_perm_range hperm)
        (fun _ ↦ Arrangement.lt_of_perm_range hperm) t
      obtain ⟨improved, u, hu, htest⟩ := exists_test hest id
      obtain ⟨runs, stop, v, hv, hswept, hstop⟩ := ih (show rank + 1 + left = _ by omega) u
      have hcompleted := (p.adds_canStop rank s).trans hasks
      refine ⟨(Arrangement.ofRank p.size length rank, order) :: runs, stop, v, ?_,
        .cons hrule hcompleted htest hswept, fun hspent hunhurried ↦ ?_⟩
      · rw [SearchM.bind_apply, ht]
        dsimp only
        rw [SearchM.bind_apply, hu]
        dsimp only
        rw [hv, List.length_cons, Nat.add_right_comm, Nat.add_assoc]
      · exact hstop hspent (hunhurried.of_later (hcompleted.trans htest).journal)

theorem exists_sweep (h : p.AlwaysAnswers) (id : StrategyId)
    (hcomplete : ∀ rank < Arrangement.count p.size length,
      Completes p complete asks rule (Arrangement.ofRank p.size length rank))
    (hends : IsCompletion p length complete) (hlength : length ≤ p.size) (s : Session σ) :
    ∃ runs outOfTime t, sweep p id length complete s =
        (.ok (), t.record (.stopped id runs.length outOfTime)) ∧
      p.Iterated s 0 (Arrangement.count p.size length) (runs.length, outOfTime) t ∧
      Swept asks rule ((List.range runs.length).map (Arrangement.ofRank p.size length)) s runs
        (t.record (.stopped id runs.length outOfTime)) ∧
      (outOfTime = true → ¬s.IsUnhurriedSince (t.record (.stopped id runs.length outOfTime))) := by
  have hiterated := ends_rankedFrom id s hends (Nat.zero_add _)
  obtain ⟨runs, outOfTime, t, hrun, hswept, hstop⟩ :=
    exists_rankedFrom h id hcomplete (Nat.zero_add _) s
  rw [Nat.zero_add] at hrun
  rw [← List.range_eq_range'] at hswept
  rw [hrun] at hiterated
  have hnoted := Session.adds_record_stopped t id runs.length outOfTime
  cases hiterated with
  | finished _ _ iterated =>
    refine ⟨runs, outOfTime, t, ?_, iterated, ⟨hswept.heads, hswept.rule, ?_⟩,
      fun hspent hunhurried ↦ hstop hspent (hunhurried.of_earlier hnoted.journal)⟩
    · rw [sweep_eq hlength, SearchM.bind_apply, hrun]
      rfl
    · simpa using hswept.adds.trans hnoted

end Sweep

end JoinOrder
