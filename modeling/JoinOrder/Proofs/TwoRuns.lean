import JoinOrder.Optimizer
import JoinOrder.Proofs.Search.Lockstep
/-!
# Two runs of an optimizer

A run of an optimizer is a series of searches in one session, and the commitment of what they have found.
So two runs of an optimizer, with oracles that answer alike, are the same: they have the same result, leave
the same optimizer and write the same history. If their clocks may read differently, they are the same or
part at a look at the budget, and nothing is said of them from there on.
-/

namespace JoinOrder

variable {σ τ ρ : Type} {c : Coupling σ τ}

/-! ## Looks at the budget -/

/-- The answers to the looks at the budget during a run, in order. -/
def Outcome.polls (out : Outcome σ) : List Bool := out.history.filterMap Entry.stop?

/-- Where two journals part, the same look at the budget was answered differently. -/
theorem Parted.exists_polls {journal journal' : List Entry} (h : Parted journal journal') :
    ∃ (i : ℕ) (stop : Bool), (journal.reverse.filterMap Entry.stop?)[i]? = some stop ∧
      (journal'.reverse.filterMap Entry.stop?)[i]? = some (!stop) := by
  obtain ⟨before, iteration, stop, ⟨after, rfl⟩, ⟨after', rfl⟩⟩ := h
  refine ⟨(before.reverse.filterMap Entry.stop?).length, stop, ?_, ?_⟩ <;>
    simp [List.filterMap_append, List.filterMap_cons, Entry.stop?]

/-! ## Outcomes -/

/-- Two runs with the same result that leave the same behind, but for the state of their oracles. -/
structure Outcome.Same (rel : σ → τ → Prop) (out : Outcome σ) (out' : Outcome τ) : Prop where
  result : out.result = out'.result
  optimizer : out.optimizer = out'.optimizer
  history : out.history = out'.history
  world : rel out.world out'.world

/-- Two runs are the same, or they have parted. -/
inductive Outcome.Alike (c : Coupling σ τ) (out : Outcome σ) (out' : Outcome τ) : Prop
  | same (h : out.Same c.rel out')
  | parted (may : c.mayPart) (h : Parted out.history.reverse out'.history.reverse)

theorem Outcome.Alike.same_of_polls {out : Outcome σ} {out' : Outcome τ} (h : out.Alike c out')
    (hpolls : c.mayPart → ∀ (i : ℕ) (stop stop' : Bool), out.polls[i]? = some stop →
      out'.polls[i]? = some stop' → stop = stop') : out.Same c.rel out' := by
  cases h with
  | same h => exact h
  | parted may h =>
    obtain ⟨i, stop, hstop, hstop'⟩ := h.exists_polls
    rw [List.reverse_reverse] at hstop hstop'
    exact absurd (hpolls may i stop (!stop) hstop hstop') (by cases stop <;> decide)

namespace Optimizer

variable [RandomSource ρ] {oracles : Oracles σ} {oracles' : Oracles τ}

/-! ## Searches -/

theorem lockstep_runAll {p : Problem σ} (h : p.Agrees c oracles') (strategies : List (Strategy ρ)) :
    Lockstep c (runAll p strategies) (runAll (p.under oracles') strategies) := by
  induction strategies with
  | nil => exact .pure _
  | cons strategy rest ih =>
    rw [runAll, runAll]
    refine (strategy.lockstep_search h).bind fun result ↦ ?_
    rcases result with ⟨e | ⟨⟩, next⟩
    · exact .pure _
    · exact ih.bind fun _ ↦ .pure _

/-! ## Commitment -/

/-- The outcome of a run whose strategies have ended in a session. -/
private def outcomeOf (oracles : Oracles σ) (isSelect : Bool) (o : Optimizer)
    (result : Except SearchError Unit) (completed : List StrategyId) (session : Session σ) :
    Outcome σ :=
  match result with
  | .error e =>
    { result := .error e
      optimizer := { o with stats := { strategies := completed } }
      history := session.history
      world := session.world }
  | .ok () =>
    let o := { o with stats := { strategies := completed, evaluations := session.evaluations } }
    match session.best? with
    | none =>
      { result := .error (.noPlan o.operands.length)
        optimizer := o
        history := session.history
        world := session.world }
    | some plan =>
      let (access, world) := (oracles.costModel.removeUnusable
        ((o.problem oracles isSelect).view plan.order) plan.access).run session.world
      let (result, o) := o.settle { plan with access }
      { result, optimizer := o, history := session.history, world }

private theorem searchAndCommit_eq (oracles : Oracles σ) (isSelect : Bool) (o : Optimizer)
    (world : σ) :
    searchAndCommit ρ oracles isSelect o world =
      let out := runAll (o.problem oracles isSelect) (strategies ρ o.config o.operands.length)
        { world }
      outcomeOf oracles isSelect o out.1.1 out.1.2 out.2 := rfl

private theorem history_outcomeOf (oracles : Oracles σ) (isSelect : Bool) (o : Optimizer)
    (result : Except SearchError Unit) (completed : List StrategyId) (session : Session σ) :
    (outcomeOf oracles isSelect o result completed session).history = session.history := by
  unfold outcomeOf
  cases result with
  | error e => rfl
  | ok =>
    dsimp only
    split <;> rfl

private theorem same_outcomeOf {o : Optimizer} {isSelect : Bool}
    (h : (o.problem oracles isSelect).Agrees c oracles') (result : Except SearchError Unit)
    (completed : List StrategyId) {s : Session σ} {s' : Session τ} (hsame : s.Same c.rel s') :
    (outcomeOf oracles isSelect o result completed s).Same c.rel
      (outcomeOf oracles' isSelect o result completed s') := by
  obtain ⟨best?, journal, world⟩ := s
  obtain ⟨best?', journal', world'⟩ := s'
  obtain ⟨rfl, rfl, hworld⟩ := hsame
  cases result with
  | error e => exact ⟨rfl, rfl, rfl, hworld⟩
  | ok =>
    cases best? with
    | none => exact ⟨rfl, rfl, rfl, hworld⟩
    | some plan =>
      have hremoved := h.removeUnusable plan.order plan.access world world' hworld
      unfold outcomeOf
      dsimp only [problem, Problem.view] at hremoved ⊢
      generalize StateT.run _ world = removed at hremoved ⊢
      generalize StateT.run _ world' = removed' at hremoved ⊢
      obtain ⟨access, world⟩ := removed
      obtain ⟨access', world'⟩ := removed'
      obtain ⟨rfl : access = access', hworld⟩ := hremoved
      exact ⟨rfl, rfl, rfl, hworld⟩

theorem alike_searchAndCommit {o : Optimizer} {isSelect : Bool}
    (h : (o.problem oracles isSelect).Agrees c oracles') {w : σ} {w' : τ} (hw : c.rel w w') :
    (searchAndCommit ρ oracles isSelect o w).Alike c (searchAndCommit ρ oracles' isSelect o w') := by
  have halike := (lockstep_runAll h (strategies ρ o.config o.operands.length)).alike
    (show Session.Same c.rel { world := w } { world := w' } from ⟨rfl, rfl, hw⟩)
  rw [searchAndCommit_eq, searchAndCommit_eq]
  change JoinOrder.Alike c _ (runAll (o.problem oracles' isSelect) _ _) at halike
  generalize runAll (ρ := ρ) _ _ { world := w } = out at halike ⊢
  generalize runAll (ρ := ρ) _ _ { world := w' } = out' at halike ⊢
  cases halike with
  | same hsame => exact .same (same_outcomeOf h _ _ hsame)
  | parted may hparted =>
    refine .parted may ?_
    rw [history_outcomeOf, history_outcomeOf, Session.history, Session.history, List.reverse_reverse,
      List.reverse_reverse]
    exact hparted

/-- **Oracles that answer alike make a run the same**, but for what their clocks may make of it. -/
theorem alike_optimizeWith {o : Optimizer} {isSelect : Bool}
    (h : (o.reset.problem oracles isSelect).Agrees c oracles') {w : σ} {w' : τ} (hw : c.rel w w')
    (parseOnly : Bool) :
    (optimizeWith ρ oracles parseOnly isSelect o w).Alike c
      (optimizeWith ρ oracles' parseOnly isSelect o w') := by
  unfold optimizeWith
  split
  · exact .same ⟨rfl, rfl, rfl, hw⟩
  · split
    · exact .same ⟨rfl, rfl, rfl, hw⟩
    · exact alike_searchAndCommit h hw

end Optimizer

end JoinOrder
