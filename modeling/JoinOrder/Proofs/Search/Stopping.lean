import JoinOrder.Proofs.Search.Entries
import JoinOrder.Proofs.Search.Strategy
import JoinOrder.Random.ChaCha
/-!
# What a strategy says of its end

A strategy that comes to its end notes how many iterations it made and whether it was out of time. Both
are to be trusted. A strategy is out of time only at a check point and only with a scored plan at hand,
so one that starts without a plan makes an iteration before. A strategy that is not out of time has made
all the iterations there are for it, and none makes more.

Its trials leave no such note, so the note is the only one of the run.
-/

namespace JoinOrder

variable {σ ρ : Type}

theorem Move.IsTrial.not_writes_stopped {n iterations : ℕ} {id id' : StrategyId} {outOfTime : Bool}
    {m : Move} (h : m.IsTrial n id) : ¬m.Writes (.stopped id' iterations outOfTime) := by
  intro hwrites
  cases hwrites
  contradiction

namespace Strategy

variable [RandomSource ρ] {p : Problem σ} {strategy next : Strategy ρ} {s t : Session σ}

theorem finished_of_search_eq_ok (h : strategy.search p s = ((.ok (), next), t)) :
    p.Finished strategy.id (strategy.iterations p) s t := by
  have hends := strategy.ends_search (p := p) s
  rw [h] at hends
  cases hends with
  | finished _ _ holds => exact holds

/-- **A strategy tells the truth about its end**: it is out of time only at a check point and with a
scored plan, and else it has made all its iterations. -/
theorem stopped_of_search_eq_ok (h : strategy.search p s = ((.ok (), next), t)) :
    ∃ trials iterations outOfTime,
      t.history = s.history ++ trials ++ [.stopped strategy.id iterations outOfTime] ∧
      (∀ id iterations' outOfTime', Entry.stopped id iterations' outOfTime' ∉ trials) ∧
      iterations ≤ strategy.iterations p ∧
      (outOfTime = false → iterations = strategy.iterations p) ∧
      (outOfTime = true → max p.config.checkInterval 1 ∣ iterations ∧ t.bestCost?.isSome = true ∧
        (s.bestCost? = none → iterations ≠ 0)) := by
  obtain @⟨⟨iterations, outOfTime⟩, u, reached, iterated⟩ := finished_of_search_eq_ok h
  obtain ⟨trials, hhistory, hwrites⟩ := reached.exists_entries
  refine ⟨trials, iterations, outOfTime, ?_, ?_, ?_, ?_, ?_⟩
  · rw [← hhistory]
    exact Session.history_record u _
  · intro id iterations' outOfTime' hmem
    obtain ⟨m, hm, hw⟩ := hwrites _ hmem
    exact hm.not_writes_stopped hw
  · have hle : iterations ≤ 0 + strategy.iterations p := iterated.le
    omega
  · intro hnatural
    have hall : iterations = 0 + strategy.iterations p := iterated.natural hnatural
    omega
  · intro hout
    exact ⟨iterated.dvd hout, iterated.scored hout, iterated.ne_first hout⟩

/-- Two operands that cost nothing to join, so that there is no time to search for more than a plan. -/
def hurried : Problem Unit where
  operands := [{ table := "a" }, { table := "b" }]
  condition? := none
  config := { checkInterval := 1 }
  isSelect := true
  oracles :=
    { costModel :=
        { estimate := fun view _ =>
            pure (.ok ⟨Cost.zero, view.order.map fun _ => .fullScan⟩) }
      rowCounts := fun _ => pure 0
      clock := pure 1 }

/-- Of the two orderings only the first one is tested. -/
theorem stopped_hurried :
    let t := ((Strategy.exhaustive : Strategy ChaCha).search hurried { world := () }).2
    t.history.getLast? = some (.stopped .exhaustive 1 true) ∧ t.bestCost?.isSome = true ∧
      1 ≤ (2).factorial := by
  intro t
  have hrun : (Strategy.exhaustive : Strategy ChaCha).search hurried { world := () } =
    ((.ok (), .exhaustive), t) := rfl
  have hlast : t.history.getLast? = some (.stopped .exhaustive 1 true) := rfl
  obtain ⟨trials, iterations, outOfTime, hhistory, -, hle, -, hstopped⟩ :=
    stopped_of_search_eq_ok hrun
  obtain ⟨-, rfl, rfl⟩ : Strategy.exhaustive.id = _ ∧ iterations = 1 ∧ outOfTime = true := by
    rw [hhistory, List.getLast?_concat] at hlast
    simpa using hlast
  exact ⟨hlast, (hstopped rfl).2.1, hle⟩

end Strategy

end JoinOrder
