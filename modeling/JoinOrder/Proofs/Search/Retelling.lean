import JoinOrder.Proofs.Search.Calls
import JoinOrder.Proofs.Search.Costed
/-!
# One search under two names

A strategy puts its name to the events of its search and makes no other use of it. So the same search
under two names, from sessions that agree, does the same with the oracles and comes to the same result
and the same best plan; and of what is added to the two journals the one is the other, *retold* under
the other name.

## How it is carried through a search

Both sessions have an earlier journal in common, whoever wrote it, and only what is added to it is
retold. That two actions retell each other from any such sessions is closed under sequencing, so it is
shown for the moves of a search, and for a sweep by induction on the arrangements left. The completions
of a sweep may differ in their code, as long as they retell each other as well.
-/

namespace JoinOrder

variable {σ : Type} {α β : Type}

/-! ## Retold journals -/

/-- An entry as a strategy of another name writes it. -/
def Entry.retold (id : StrategyId) : Entry → Entry
  | scored _ order e => scored id order e
  | improved _ order cost => improved id order cost
  | stopped _ iterations outOfTime => stopped id iterations outOfTime
  | asked order answer => asked order answer
  | polled iteration stop => polled iteration stop

/-- The iteration before which an entry has looked at the budget. -/
def Entry.polledAt? : Entry → Option ℕ
  | polled iteration _ => some iteration
  | _ => none

/-- The iterations before which a session has looked at the budget, in order. -/
def Session.polls (s : Session σ) : List ℕ := s.history.filterMap Entry.polledAt?

/-- A second session that agrees with the first one, up to the name under which the entries after an
earlier journal are told. -/
structure Session.Retold (id : StrategyId) (earlier : List Entry) (s t : Session σ) : Prop where
  best : t.best? = s.best?
  world : t.world = s.world
  journal : ∃ added, s.journal = added ++ earlier ∧
    t.journal = added.map (Entry.retold id) ++ earlier

namespace Session.Retold

variable {id : StrategyId} {earlier : List Entry} {s t : Session σ}

theorem refl (s : Session σ) : Retold id s.journal s s := ⟨rfl, rfl, [], rfl, rfl⟩

theorem bestCost (h : Retold id earlier s t) : t.bestCost? = s.bestCost? := by
  rw [bestCost?, h.best, bestCost?]

theorem isImprovedBy (h : Retold id earlier s t) (cost : Cost) :
    t.isImprovedBy cost = s.isImprovedBy cost := by
  rw [Session.isImprovedBy, h.bestCost, Session.isImprovedBy]

theorem record (h : Retold id earlier s t) (e : Entry) :
    Retold id earlier (s.record e) (t.record (e.retold id)) := by
  obtain ⟨added, hs, ht⟩ := h.journal
  exact ⟨h.best, h.world, e :: added, congrArg (e :: ·) hs, congrArg (e.retold id :: ·) ht⟩

theorem keep (h : Retold id earlier s t) (plan : Plan) :
    Retold id earlier (s.keep plan) (t.keep plan) := ⟨rfl, h.world, h.journal⟩

theorem filterMap_history (h : Retold id earlier s t) {read : Entry → Option α}
    (hread : ∀ e, read (e.retold id) = read e) :
    t.history.filterMap read = s.history.filterMap read := by
  obtain ⟨added, hs, ht⟩ := h.journal
  have hadded : (added.map (Entry.retold id)).filterMap read = added.filterMap read := by
    rw [List.filterMap_map]
    exact List.filterMap_congr fun e _ ↦ hread e
  rw [history, history, List.filterMap_reverse, List.filterMap_reverse, hs, ht,
    List.filterMap_append, List.filterMap_append, hadded]

theorem calls (h : Retold id earlier s t) : t.calls = s.calls :=
  h.filterMap_history fun e ↦ by cases e <;> rfl

theorem polls (h : Retold id earlier s t) : t.polls = s.polls :=
  h.filterMap_history fun e ↦ by cases e <;> rfl

theorem evaluations (h : Retold id earlier s t) : t.evaluations = s.evaluations := by
  obtain ⟨added, hs, ht⟩ := h.journal
  have hadded : (added.map (Entry.retold id)).countP Entry.isAnswer =
      added.countP Entry.isAnswer := by
    rw [List.countP_map]
    exact List.countP_congr fun e _ ↦ by cases e <;> rfl
  rw [Session.evaluations, Session.evaluations, hs, ht, List.countP_append, List.countP_append,
    hadded]

theorem exists_history {s₀ : Session σ} (h : Retold id s₀.journal s t) :
    ∃ added, s.history = s₀.history ++ added ∧
      t.history = s₀.history ++ added.map (Entry.retold id) := by
  obtain ⟨added, hs, ht⟩ := h.journal
  refine ⟨added.reverse, ?_, ?_⟩
  · rw [history, hs, List.reverse_append, history]
  · rw [history, ht, List.reverse_append, List.map_reverse, history]

end Session.Retold

/-! ## Actions that retell each other -/

/-- A second action does and answers what the first one does, under the name of a strategy. -/
def Retells (id : StrategyId) (act act' : StateM (Session σ) α) : Prop :=
  ∀ ⦃earlier s t⦄, Session.Retold id earlier s t →
    ∃ a u u', act s = (a, u) ∧ act' t = (a, u') ∧ Session.Retold id earlier u u'

namespace Retells

variable {id : StrategyId}

theorem pure (a : α) : Retells (σ := σ) id (fun s ↦ (a, s)) (fun s ↦ (a, s)) :=
  fun _ s t h ↦ ⟨a, s, t, rfl, rfl, h⟩

theorem lift {act act' : StateM (Session σ) α} (h : Retells id act act') :
    Retells id (liftM act : SearchM σ α) (liftM act' : SearchM σ α) := by
  intro earlier s t hst
  obtain ⟨a, u, u', hact, hact', hu⟩ := h hst
  change ∃ result v v', (Except.ok (act s).1, (act s).2) = (result, v) ∧
    (Except.ok (act' t).1, (act' t).2) = (result, v') ∧ Session.Retold id earlier v v'
  rw [hact, hact']
  exact ⟨_, _, _, rfl, rfl, hu⟩

/-- **Retelling is kept by sequencing.** -/
theorem bind {act act' : SearchM σ α} {next next' : α → SearchM σ β} (h : Retells id act act')
    (hnext : ∀ a, Retells id (next a) (next' a)) :
    Retells id (act >>= next : SearchM σ β) (act' >>= next' : SearchM σ β) := by
  intro earlier s t hst
  obtain ⟨result, u, u', hact, hact', hu⟩ := h hst
  rw [SearchM.bind_apply, SearchM.bind_apply, hact, hact']
  cases result with
  | error e => exact ⟨_, _, _, rfl, rfl, hu⟩
  | ok a => exact hnext a hu

end Retells

/-! ## The moves of a search -/

section

variable {id : StrategyId}

theorem retells_consult (act : StateM σ α) :
    Retells id (Session.consult act) (Session.consult act) := by
  intro earlier s t h
  refine ⟨(act s.world).1, { s with world := (act s.world).2 }, { t with world := (act s.world).2 },
    rfl, ?_, h.best, rfl, h.journal⟩
  rw [← h.world]
  rfl

theorem Problem.retells_canStop (p : Problem σ) (iteration : ℕ) :
    Retells id (p.canStop iteration) (p.canStop iteration) := by
  intro earlier s t h
  obtain ⟨nanos, u, u', hs, ht, hu⟩ := retells_consult p.oracles.clock h
  unfold canStop
  rw [h.bestCost]
  split
  · rw [hs, ht]
    dsimp only
    rw [hu.bestCost]
    exact ⟨_, _, _, rfl, rfl, hu.record (.polled iteration _)⟩
  · exact ⟨_, _, _, rfl, rfl, h.record (.polled iteration false)⟩

theorem Problem.retells_estimate (p : Problem σ) (order : List ℕ) :
    Retells id (p.estimate order) (p.estimate order) := by
  intro earlier s t h
  obtain ⟨answer, u, u', hs, ht, hu⟩ :=
    retells_consult (p.oracles.costModel.estimate (p.view order) p.isSelect) h
  unfold estimate ask
  rw [hs, ht]
  exact ⟨_, _, _, rfl, rfl, hu.record (.asked order answer)⟩

/-- A test is where a strategy puts its name. -/
theorem Problem.retells_test (p : Problem σ) (id₀ : StrategyId) (order : List ℕ) :
    Retells id (p.test id₀ order) (p.test id order) := by
  intro earlier s t h
  obtain ⟨result, u, u', hs, ht, hu⟩ := p.retells_estimate order h
  unfold test
  rw [hs, ht]
  cases result with
  | error e => exact ⟨_, _, _, rfl, rfl, hu⟩
  | ok e =>
    have hscored := hu.record (.scored id₀ order e)
    have himproved := hscored.isImprovedBy e.cost
    dsimp only [Entry.retold] at hscored himproved ⊢
    rw [himproved]
    split
    · exact ⟨_, _, _, rfl, rfl, (hscored.keep _).record (.improved id₀ order e.cost)⟩
    · exact ⟨_, _, _, rfl, rfl, hscored⟩

theorem retells_stop (id₀ : StrategyId) (iterations : ℕ) (outOfTime : Bool) :
    Retells (σ := σ) id (Session.stop id₀ iterations outOfTime)
      (Session.stop id iterations outOfTime) :=
  fun _ _ _ h ↦ ⟨_, _, _, rfl, rfl, h.record (.stopped id₀ iterations outOfTime)⟩

end

/-! ## Sweeps -/

namespace Sweep

variable {p : Problem σ} {id : StrategyId} {length length' : ℕ}
  {complete complete' : List ℕ → SearchM σ (List ℕ)}

theorem retells_rankedFrom (id₀ : StrategyId) {left rank total : ℕ}
    (hcomplete : ∀ rank < total, Retells id (complete (Arrangement.ofRank p.size length rank))
      (complete' (Arrangement.ofRank p.size length' rank)))
    (hrank : rank + left = total) :
    Retells id (rankedFrom p id₀ length complete left rank)
      (rankedFrom p id length' complete' left rank) := by
  induction left generalizing rank with
  | zero =>
    rw [rankedFrom, rankedFrom]
    refine (p.retells_canStop rank).lift.bind fun stop ↦ ?_
    cases stop with
    | true => exact .pure _
    | false => exact .pure _
  | succ left ih =>
    rw [rankedFrom, rankedFrom]
    refine (p.retells_canStop rank).lift.bind fun stop ↦ ?_
    cases stop with
    | true => exact .pure _
    | false =>
      refine (hcomplete rank (by omega)).bind fun order ↦ ?_
      exact (p.retells_test id₀ order).bind fun _ ↦ ih (by omega)

/-- **A sweep is retold by one of another name**, with completions that retell each other. -/
theorem retells_sweep (id₀ : StrategyId) (hlength : length ≤ p.size) (hlength' : length' ≤ p.size)
    (hcount : Arrangement.count p.size length' = Arrangement.count p.size length)
    (hcomplete : ∀ rank < Arrangement.count p.size length,
      Retells id (complete (Arrangement.ofRank p.size length rank))
        (complete' (Arrangement.ofRank p.size length' rank))) :
    Retells id (sweep p id₀ length complete) (sweep p id length' complete') := by
  rw [sweep_eq hlength, sweep_eq hlength', hcount]
  apply (retells_rankedFrom id₀ hcomplete (Nat.zero_add _)).bind
  rintro ⟨iterations, outOfTime⟩
  exact retells_stop id₀ iterations outOfTime

end Sweep

end JoinOrder
