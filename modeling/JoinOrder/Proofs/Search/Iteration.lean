import JoinOrder.Proofs.Search.Scorings
/-!
# The iterations of a search

A search makes iterations, each of which tests one ordering, and then notes its end with their number
and whether it was the budget that ended them. What it does before that note are its *trials*: it looks
at the budget, asks for estimates, tests orderings and looks up rows. How the loops of the searches end
is the same for all of them, wherever in an iteration they look at the budget. A loop that the budget
ends has just looked at it, at a check point and with a scored plan at hand. Otherwise it has made all
its iterations. Each iteration has scored one ordering.
-/

namespace JoinOrder

variable {σ : Type}

/-- What a strategy may do before it notes its end. -/
inductive Move.IsTrial (n : ℕ) (id : StrategyId) : Move → Prop
  | poll (iteration : ℕ) : IsTrial n id (.poll iteration)
  | estimate {order : List ℕ} (nodup : order.Nodup) (lt : ∀ x ∈ order, x < n)
      (length : order.length < n) : IsTrial n id (.estimate order)
  | test {order : List ℕ} (perm : order.Perm (List.range n)) : IsTrial n id (.test id order)
  | lookUp (o : Operand) : IsTrial n id (.lookUp o)

/-- What the completion of an ordering may do: ask about its beginnings. -/
inductive Move.IsEstimate (n : ℕ) : Move → Prop
  | intro {order : List ℕ} (nodup : order.Nodup) (lt : ∀ x ∈ order, x < n)
      (length : order.length < n) : IsEstimate n (.estimate order)

theorem Move.IsEstimate.isTrial {n : ℕ} {id : StrategyId} {m : Move} (h : m.IsEstimate n) :
    m.IsTrial n id := by
  obtain ⟨nodup, lt, length⟩ := h
  exact .estimate nodup lt length

theorem Move.IsTrial.isProper {n : ℕ} {id : StrategyId} {m : Move} (h : m.IsTrial n id) :
    m.IsProper n id := by
  cases h with
  | poll iteration => exact .poll iteration
  | estimate nodup lt length => exact .estimate nodup lt length
  | test perm => exact .test perm
  | lookUp o => exact .lookUp o

theorem Session.isSome_best_of_bestCost {s : Session σ} (h : s.bestCost?.isSome = true) :
    s.best?.isSome = true := by
  cases hbest : s.best? with
  | none => simp [bestCost?, hbest] at h
  | some _ => rfl

theorem Session.history_record (s : Session σ) (e : Entry) :
    (s.record e).history = s.history ++ [e] := List.reverse_cons

/-! ## Looks at the budget -/

/-- What a look at the budget was answered. -/
def Entry.stop? : Entry → Option Bool
  | polled _ stop => some stop
  | _ => none

/-- No look at the budget found it spent. -/
def IsUnhurried (history : List Entry) : Prop := true ∉ history.filterMap Entry.stop?

instance (history : List Entry) : Decidable (IsUnhurried history) :=
  inferInstanceAs (Decidable (¬true ∈ history.filterMap Entry.stop?))

/-! ## Loops -/

namespace Problem

variable {p : Problem σ} {s t u : Session σ} {first left : ℕ} {result : ℕ × Bool}

/-! ## Estimates as trials -/

theorem Reaches.scorings_eq {n : ℕ} (h : p.Reaches (Move.IsEstimate n) s t) :
    t.scorings = s.scorings := by
  refine h.preserves (P := fun u ↦ u.scorings = s.scorings) rfl fun u m hm hu ↦ ?_
  obtain @⟨order⟩ := hm
  have hnone : p.scoring? u (.estimate order) = none := rfl
  rw [p.scorings_perform, hnone, Option.toList_none, List.append_nil, hu]

theorem Ends.ofEstimates {α : Type} {post : α → Session σ → Prop} {id : StrategyId}
    {out : Except SearchError α × Session σ} (h : p.Ends (Move.IsEstimate p.size) s post out) :
    p.Ends (Move.IsTrial p.size id) s (fun a t ↦ post a t ∧ t.scorings = s.scorings) out :=
  (h.mono fun _ _ hreach hpost ↦ And.intro hpost hreach.scorings_eq).weaken
    fun _ ↦ Move.IsEstimate.isTrial

/-! ## How a loop ends -/

/-- How a loop ends that has so many iterations left, from the first one of them on: with the number
of iterations, and whether it was the budget that ended it. -/
structure Iterated (p : Problem σ) (s : Session σ) (first left : ℕ) (result : ℕ × Bool)
    (t : Session σ) : Prop where
  first_le : first ≤ result.1
  le : result.1 ≤ first + left
  natural : result.2 = false → result.1 = first + left
  polled : result.2 = true → t.journal.head? = some (.polled result.1 true)
  checkPoint : result.2 = true → p.budget.isCheckPoint result.1 = true
  scored : result.2 = true → t.bestCost?.isSome = true
  tested : first < result.1 → t.best?.isSome = true
  untested : first = result.1 → t.best? = s.best?
  counted : t.scorings.length + first = s.scorings.length + result.1

namespace Iterated

theorem finish (hbest : t.best? = s.best?) (hscorings : t.scorings = s.scorings) :
    Iterated p s first 0 (first, false) t where
  first_le := Nat.le_refl _
  le := Nat.le_refl _
  natural _ := rfl
  polled h := nomatch h
  checkPoint h := nomatch h
  scored h := nomatch h
  tested h := absurd h (Nat.lt_irrefl _)
  untested _ := hbest
  counted := by rw [hscorings]

theorem stop {world : σ} (hcheck : p.budget.isCheckPoint first = true)
    (hcost : s.bestCost?.isSome = true) :
    Iterated p s first left (first, true)
      { s with world, journal := .polled first true :: s.journal } where
  first_le := Nat.le_refl _
  le := Nat.le_add_right _ _
  natural h := nomatch h
  polled _ := rfl
  checkPoint _ := hcheck
  scored _ := hcost
  tested h := absurd h (Nat.lt_irrefl _)
  untested _ := rfl
  counted := congrArg (List.length · + first) (Session.scorings_eq_of_cons rfl rfl)

theorem step (h : Iterated p t (first + 1) left result u) (htested : t.best?.isSome = true)
    (hcounted : t.scorings.length = s.scorings.length + 1) :
    Iterated p s first (left + 1) result u where
  first_le := Nat.le_of_succ_le h.first_le
  le := by have := h.le; omega
  natural hresult := by have := h.natural hresult; omega
  polled := h.polled
  checkPoint := h.checkPoint
  scored := h.scored
  tested _ := by
    rcases Nat.lt_or_eq_of_le h.first_le with hlt | heq
    · exact h.tested hlt
    · rw [h.untested heq]
      exact htested
  untested heq := absurd h.first_le (by omega)
  counted := by have := h.counted; omega

theorem dvd (h : Iterated p s first left result t) (hout : result.2 = true) :
    max p.config.checkInterval 1 ∣ result.1 :=
  Nat.dvd_of_mod_eq_zero (of_decide_eq_true (h.checkPoint hout))

theorem not_isUnhurried (h : Iterated p s first left result t) (hout : result.2 = true) :
    ¬IsUnhurried t.history := by
  have hpolled : .polled result.1 true ∈ t.journal := List.mem_of_mem_head? (h.polled hout)
  exact fun hnone ↦ hnone (List.mem_filterMap.mpr ⟨_, List.mem_reverse.mpr hpolled, rfl⟩)

/-- The budget does not end a loop that has found no plan yet and starts without one. -/
theorem ne_first (h : Iterated p s first left result t) (hout : result.2 = true)
    (hs : s.bestCost? = none) : result.1 ≠ first := by
  intro hfirst
  have hscored : t.bestCost?.isSome = true := h.scored hout
  rw [Session.bestCost?, h.untested hfirst.symm, ← Session.bestCost?, hs] at hscored
  contradiction

end Iterated

/-! ## Searches -/

/-- A search that has come to its end: its trials, and the note of the number of its iterations. -/
inductive Finished (p : Problem σ) (id : StrategyId) (limit : ℕ) (s : Session σ) : Session σ → Prop
  | intro {result : ℕ × Bool} {u : Session σ} (trials : p.Reaches (Move.IsTrial p.size id) s u)
      (iterated : p.Iterated s 0 limit result u) :
      Finished p id limit s (u.record (.stopped id result.1 result.2))

/-- A search that had an iteration to make leaves a best plan behind: it was tested, or the budget
found a plan to go by. -/
theorem Finished.isSome_best {id : StrategyId} {limit : ℕ} (h : p.Finished id limit s t)
    (hlimit : 0 < limit) : t.best?.isSome = true := by
  obtain @⟨⟨iterations, outOfTime⟩, u, -, iterated⟩ := h
  change u.best?.isSome = true
  cases outOfTime with
  | true => exact Session.isSome_best_of_bestCost (iterated.scored rfl)
  | false =>
    have hall : iterations = 0 + limit := iterated.natural rfl
    exact iterated.tested (by dsimp only; omega)

/-- How a search ends that makes so many iterations at most: it comes to its end, or breaks off amid its
trials, with the refusal of the last answer. -/
inductive Ran (p : Problem σ) (id : StrategyId) (limit : ℕ) (s : Session σ) :
    Except SearchError Unit × Session σ → Prop
  | finished {t : Session σ} (clean : t.refusals = s.refusals) (holds : p.Finished id limit s t) :
      Ran p id limit s (.ok (), t)
  | refused {e : SearchError} {t : Session σ} {order : List ℕ}
      {answer : Except SearchError Estimate} {journal : List Entry}
      (trials : p.Reaches (Move.IsTrial p.size id) s t) (last : t.journal = .asked order answer :: journal)
      (refusal : answer.bind (Estimate.accepted order.length) = .error e)
      (clean : journal.filterMap Entry.refusal? = s.refusals) : Ran p id limit s (.error e, t)

theorem Finished.reaches {id : StrategyId} {limit : ℕ} (h : p.Finished id limit s t) :
    p.Reaches (Move.IsProper p.size id) s t := by
  obtain @⟨result, u, trials, -⟩ := h
  exact (trials.mono fun _ ↦ Move.IsTrial.isProper).trans
    (.single (m := .stop id result.1 result.2) (.stop _ _))

theorem Ran.ends {id : StrategyId} {limit : ℕ} {out : Except SearchError Unit × Session σ}
    (h : p.Ran id limit s out) :
    p.Ends (Move.IsProper p.size id) s (fun _ t ↦ p.Finished id limit s t) out := by
  cases h with
  | finished clean holds => exact .finished holds.reaches clean holds
  | refused trials last refusal clean =>
    exact .refused (trials.mono fun _ ↦ Move.IsTrial.isProper) last refusal clean

theorem Ran.reaches {id : StrategyId} {limit : ℕ} {out : Except SearchError Unit × Session σ}
    {result : Except SearchError Unit} (h : p.Ran id limit s out) (hout : out = (result, t)) :
    p.Reaches (Move.IsProper p.size id) s t := by
  subst hout
  exact h.ends.reaches

theorem Ends.andStop {id : StrategyId} {limit : ℕ} (loop : SearchM σ (ℕ × Bool))
    (h : p.Ends (Move.IsTrial p.size id) s (fun result u ↦ p.Iterated s 0 limit result u) (loop s)) :
    p.Ran id limit s
      ((loop >>= fun (iterations, outOfTime) ↦ Session.stop id iterations outOfTime :
        SearchM σ Unit) s) := by
  rw [SearchM.bind_apply]
  generalize loop s = out at h
  cases h with
  | finished trials clean iterated => exact .finished clean (.intro trials iterated)
  | refused trials last refusal clean => exact .refused trials last refusal clean

theorem ran_testOnce {id : StrategyId} {order : List ℕ} (horder : order.Perm (List.range p.size))
    (htrials : p.Reaches (Move.IsTrial p.size id) s t) (hjournal : t.journal = s.journal) :
    p.Ran id 1 s ((p.test id order >>= fun _ ↦ Session.stop id 1 false : SearchM σ Unit) t) := by
  have hclean : t.refusals = s.refusals := congrArg (List.filterMap Entry.refusal?) hjournal
  have hscorings : t.scorings = s.scorings :=
    congrArg (fun journal ↦ journal.reverse.filterMap Entry.scoring?) hjournal
  have htest := (ends_test (p := p) id order t (Move.IsTrial.test horder)).trans htrials hclean
  rw [SearchM.bind_apply]
  generalize p.test id order t = out at htest
  cases htest with
  | refused trials last refusal clean => exact .refused trials last refusal clean
  | @finished improved u trials clean holds =>
    obtain ⟨htested, hcounted⟩ := holds
    rw [hscorings] at hcounted
    have iterated : p.Iterated s 0 1 (1, false) u :=
      Iterated.step (t := u) (.finish rfl rfl) htested hcounted
    exact .finished clean (.intro trials iterated)

end Problem

end JoinOrder
