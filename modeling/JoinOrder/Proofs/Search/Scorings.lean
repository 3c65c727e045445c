import JoinOrder.Proofs.Search.Moves
/-!
# What a session has scored

A test scores its ordering when the cost model answers and the answer is accepted. Nothing else a search
does scores anything: estimates of the beginning of an order do not, nor does a test that is refused. So
the orderings scored can be followed move by move, and the best plan changes with them only.
-/

namespace JoinOrder

variable {σ : Type}

/-- An ordering that was scored, with its estimate. -/
abbrev Scoring := List ℕ × Estimate

/-- What an entry scores. -/
def Entry.scoring? : Entry → Option Scoring
  | scored _ order e => some (order, e)
  | _ => none

/-- The orderings a session has scored, in order. -/
def Session.scorings (s : Session σ) : List Scoring := s.history.filterMap Entry.scoring?

theorem Session.scorings_eq_of_cons {s t : Session σ} {entry : Entry}
    (hjournal : t.journal = entry :: s.journal) (hentry : entry.scoring? = none) :
    t.scorings = s.scorings := by
  rw [scorings, history, hjournal, List.reverse_cons, List.filterMap_append,
    List.filterMap_cons_none hentry, List.filterMap_nil, List.append_nil]
  rfl

/-! ## What a move scores -/

namespace Problem

variable (p : Problem σ)

/-- What a move scores: a test whose estimate is accepted scores its ordering, and nothing else scores
anything. -/
def scoring? (s : Session σ) : Move → Option Scoring
  | .test _ order =>
    match (p.estimate order s).1 with
    | .ok e => some (order, e)
    | .error _ => none
  | _ => none

variable {p} {s : Session σ}

theorem scoring?_test_eq_some {id : StrategyId} {order : List ℕ} {e : Estimate}
    (h : (p.estimate order s).1 = .ok e) : p.scoring? s (.test id order) = some (order, e) := by
  rw [scoring?, h]

theorem scoring?_test_eq_none {id : StrategyId} {order : List ℕ} {e : SearchError}
    (h : (p.estimate order s).1 = .error e) : p.scoring? s (.test id order) = none := by
  rw [scoring?, h]

theorem scorings_perform (p : Problem σ) (s : Session σ) (m : Move) :
    (p.perform s m).scorings = s.scorings ++ (p.scoring? s m).toList := by
  cases m with
  | poll iteration =>
    obtain ⟨stop, world, hstop, -⟩ := p.canStop_spec iteration s
    rw [perform, hstop]
    simp [Session.scorings, Session.history, Entry.scoring?, scoring?]
  | test id order =>
    have hspec := p.test_spec id order s
    rw [perform]
    generalize p.test id order s = out at hspec
    cases hspec with
    | refused est =>
      rw [scoring?_test_eq_none est]
      simp [Session.scorings, Session.history, Entry.scoring?]
    | kept est =>
      rw [scoring?_test_eq_some est]
      simp [Session.scorings, Session.history, Entry.scoring?, List.filterMap_cons]
    | passed est =>
      rw [scoring?_test_eq_some est]
      simp [Session.scorings, Session.history, Entry.scoring?, List.filterMap_cons]
  | estimate order =>
    obtain ⟨answer, world, hest⟩ := p.estimate_spec order s
    rw [perform, hest]
    simp [Session.scorings, Session.history, Entry.scoring?, scoring?]
  | lookUp o => exact (List.append_nil _).symm
  | stop id iterations outOfTime =>
    simp [perform, Session.stop, Session.record, Session.scorings, Session.history, Entry.scoring?,
      scoring?]

theorem best_perform_of_scoring?_eq_none (m : Move) (h : p.scoring? s m = none) :
    (p.perform s m).best? = s.best? := by
  cases m with
  | poll iteration =>
    obtain ⟨stop, world, hstop, -⟩ := p.canStop_spec iteration s
    rw [perform, hstop]
  | test id order =>
    have hspec := p.test_spec id order s
    rw [perform]
    generalize p.test id order s = out at hspec
    cases hspec with
    | refused => rfl
    | kept est => exact absurd h (by simp [scoring?_test_eq_some est])
    | passed est => exact absurd h (by simp [scoring?_test_eq_some est])
  | estimate | lookUp | stop => rfl

theorem best_perform_test (id : StrategyId) {order : List ℕ} {e : Estimate}
    (h : (p.estimate order s).1 = .ok e) :
    (p.perform s (.test id order)).best? =
      if s.isImprovedBy e.cost = true then some (Plan.scored order e) else s.best? := by
  have hspec := p.test_spec id order s
  rw [perform]
  generalize p.test id order s = out at hspec
  cases hspec with
  | refused est => exact absurd (h.symm.trans est) (by simp)
  | kept est _ hcost =>
    obtain rfl := Except.ok.inj (h.symm.trans est)
    rw [if_pos hcost]
  | passed est _ hcost =>
    obtain rfl := Except.ok.inj (h.symm.trans est)
    rw [if_neg (by simp [hcost])]

theorem isValid_of_estimate {order : List ℕ} {e : Estimate} (h : (p.estimate order s).1 = .ok e) :
    e.cost.isValid = true := by
  obtain ⟨answer, world, hest⟩ := p.estimate_spec order s
  rw [hest] at h
  exact (eq_ok_of_bind_accepted h).2.1

theorem length_scorings_test {order : List ℕ} {e : Estimate} (id : StrategyId)
    (h : (p.estimate order s).1 = .ok e) :
    (p.test id order s).2.scorings.length = s.scorings.length + 1 := by
  have hscorings := p.scorings_perform s (.test id order)
  rw [perform, scoring?_test_eq_some h] at hscorings
  rw [hscorings, Option.toList_some, List.length_append, List.length_singleton]

theorem ends_test {allowed : Move → Prop} (id : StrategyId) (order : List ℕ) (s : Session σ)
    (h : allowed (.test id order)) :
    p.Ends allowed s
      (fun _ t ↦ t.best?.isSome = true ∧ t.scorings.length = s.scorings.length + 1)
      (p.test id order s) := by
  have hreach : p.Reaches allowed s (p.test id order s).2 := .single (m := .test id order) h
  have hcounted (e : Estimate) (h : (p.estimate order s).1 = .ok e) := length_scorings_test id h
  have hspec := p.test_spec id order s
  generalize p.test id order s = out at hreach hspec hcounted
  cases hspec with
  | refused _ hacc => exact .refused hreach rfl hacc rfl
  | @kept e world est hacc hcost =>
    have hasked : (Entry.asked order (.ok e)).refusal? = none := Entry.refusal?_asked_eq_none hacc
    exact .finished hreach (by simp [Session.refusals, List.filterMap_cons, hasked])
      ⟨rfl, hcounted e est⟩
  | @passed e world est hacc hcost =>
    have hasked : (Entry.asked order (.ok e)).refusal? = none := Entry.refusal?_asked_eq_none hacc
    refine .finished hreach (by simp [Session.refusals, List.filterMap_cons, hasked])
      ⟨?_, hcounted e est⟩
    -- only a session with a best plan passes an ordering over
    cases hbest : s.best? with
    | none => simp [Session.isImprovedBy, Session.bestCost?, hbest] at hcost
    | some _ => rfl

end Problem

end JoinOrder
