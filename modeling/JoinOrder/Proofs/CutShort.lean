import JoinOrder.Proofs.BruteForce.LongerHeads
import JoinOrder.Proofs.Search.Calls
import JoinOrder.Proofs.Search.Stopping
/-!
# Searches cut short

A strategy that says the budget ended it should have been cut short, with iterations left to make. This can
be relied on where the budget is looked at before an iteration only, as in a genetic search, or not at all.
A sweep looks at the budget before it knows whether a head is left, and so once more after the last one. If
that look falls on a check point and finds the budget spent, the sweep says so of itself, though there was
nothing more to do.

So what a sweep says can be relied on exactly if the number of its heads is not a multiple of the interval
between check points. The other direction needs a run for each such number. In it every plan costs nothing,
and the clock stands still until all heads are through.
-/

namespace JoinOrder

variable {σ τ ρ : Type}

/-! ## The last look at the budget -/

namespace Problem

variable {p : Problem σ}

theorem canStop_fst (p : Problem σ) (iteration : ℕ) (s : Session σ) :
    (p.canStop iteration s).1 =
      p.budget.canStopAfter iteration s.bestCost? (p.oracles.clock s.world).1 := by
  unfold canStop Budget.canStopAfter
  split
  · rfl
  · next hnone =>
    cases hbest : s.bestCost? with
    | none => rw [Option.any_none, Bool.and_false]
    | some cost =>
      rw [hbest, Option.isSome_some, Bool.and_true, Bool.not_eq_true] at hnone
      rw [hnone, Bool.false_and]

theorem getLast?_history_of_testOnce {id : StrategyId} {order : List ℕ} {s t : Session σ}
    (h : (p.test id order >>= fun _ ↦ Session.stop id 1 false : SearchM σ Unit) s = (.ok (), t)) :
    t.history.getLast? = some (.stopped id 1 false) := by
  rw [SearchM.bind_apply] at h
  split at h
  · next improved u _ =>
    obtain rfl : u.record (.stopped id 1 false) = t := congrArg Prod.snd h
    rw [Session.history_record, List.getLast?_concat]
  · cases h

end Problem

namespace Genetic

variable [RandomSource ρ] {p : Problem σ} {g g' : Genetic ρ} {s t : Session σ} {k : ℕ}

/-- The budget is looked at before an iteration only. -/
theorem lt_of_searchFrom {left iteration : ℕ} {anchor : List ℕ}
    (h : searchFrom p left iteration anchor g s = ((.ok (k, true), g'), t)) : k < iteration + left := by
  induction left generalizing iteration anchor g s with
  | zero =>
    rw [searchFrom] at h
    cases h
  | succ left ih =>
    rw [searchFrom_succ] at h
    split at h
    · have hresult : (iteration, true) = (k, true) := Except.ok.inj (congrArg (·.1.1) h)
      obtain rfl := congrArg Prod.fst hresult
      exact Nat.lt_add_of_pos_right (Nat.succ_pos left)
    · dsimp only at h
      split at h
      · cases h
      · have hlt := ih h
        omega

theorem lt_of_search (hrun : g.search p s = ((.ok (), g'), t))
    (hlast : t.history.getLast? = some (.stopped .genetic k true)) : k < p.config.maxIterations := by
  rw [search_apply] at hrun
  split at hrun
  · cases hrun
  · next iterations outOfTime _ u hloop =>
    obtain rfl : u.record (.stopped .genetic iterations outOfTime) = t := congrArg Prod.snd hrun
    rw [Session.history_record, List.getLast?_concat, Option.some.injEq, Entry.stopped.injEq] at hlast
    obtain ⟨-, rfl, rfl⟩ := hlast
    exact (lt_of_searchFrom hloop).trans_eq (Nat.zero_add _)

end Genetic

theorem Sweep.exists_canStop_of_rankedFrom {p : Problem σ} {id : StrategyId} {length left rank k : ℕ}
    {complete : List ℕ → SearchM σ (List ℕ)} {stop : Bool} {s t : Session σ}
    (h : rankedFrom p id length complete left rank s = (.ok (k, stop), t)) :
    ∃ u, p.canStop k u = (stop, t) := by
  induction left generalizing rank s with
  | zero =>
    rw [rankedFrom_zero, Prod.mk.injEq, Except.ok.injEq, Prod.mk.injEq] at h
    obtain ⟨⟨rfl, hstop⟩, ht⟩ := h
    exact ⟨s, Prod.ext hstop ht⟩
  | succ left ih =>
    rw [rankedFrom_succ] at h
    split at h
    · next hspent =>
      rw [Prod.mk.injEq, Except.ok.injEq, Prod.mk.injEq] at h
      obtain ⟨⟨rfl, hstop⟩, ht⟩ := h
      exact ⟨s, Prod.ext (hspent.trans hstop) ht⟩
    · rw [SearchM.bind_apply] at h
      split at h
      · rw [SearchM.bind_apply] at h
        split at h
        · exact ih h
        · cases h
      · cases h

/-! ## A clock that stands still -/

/-- A problem over the same operands and under the same settings, but for the worth of a unit of cost. -/
structure Problem.Resembles (q : Problem τ) (p : Problem σ) : Prop where
  operands : q.operands = p.operands
  config : q.config = { p.config with nanosPerCost := q.config.nanosPerCost }

theorem Problem.Resembles.iterations_eq {q : Problem τ} {p : Problem σ} (h : q.Resembles p)
    (strategy : Strategy ρ) : strategy.iterations q = strategy.iterations p := by
  have hsize : q.size = p.size := congrArg List.length h.operands
  have hestimates : q.config.maxEstimates = p.config.maxEstimates := by rw [h.config]
  have hiterations : q.config.maxIterations = p.config.maxIterations := by rw [h.config]
  unfold Strategy.iterations Sweep.bruteForceLength
  rw [hsize, hestimates, hiterations]

/-- The problem with plans that cost nothing and a clock that stands still until so many orderings are
tested. The state of the oracles is the number of orderings tested. -/
def Problem.late (p : Problem σ) (limit : ℕ) : Problem ℕ where
  operands := p.operands
  condition? := p.condition?
  config := { p.config with nanosPerCost := 0 }
  isSelect := p.isSelect
  oracles :=
    { costModel :=
        { estimate := fun view _ tested =>
            (.ok ⟨Cost.zero, view.order.map fun _ => .fullScan⟩,
              if view.order.length = p.size then tested + 1 else tested) }
      rowCounts := fun _ => pure 0
      clock := fun tested => (if tested = limit then 1 else 0, tested) }

namespace Problem

variable {p : Problem σ} {limit : ℕ}

theorem resembles_late (p : Problem σ) (limit : ℕ) : (p.late limit).Resembles p := ⟨rfl, rfl⟩

theorem isCostedBy_late (p : Problem σ) (limit : ℕ) : (p.late limit).IsCostedBy fun _ ↦ Cost.zero where
  estimate _ _ _ _ := ⟨_, rfl, List.length_map _⟩
  valid _ _ _ := rfl

theorem world_canStop_late (iteration : ℕ) (s : Session ℕ) :
    ((p.late limit).canStop iteration s).2.world = s.world := by
  unfold canStop
  split <;> rfl

theorem world_perform_late {id : StrategyId} {m : Move} {s : Session ℕ}
    (hm : m.IsTrial p.size id) (hs : s.world = s.scorings.length) :
    ((p.late limit).perform s m).world = ((p.late limit).perform s m).scorings.length := by
  rw [scorings_perform, List.length_append, ← hs]
  cases hm with
  | poll iteration => exact world_canStop_late iteration s
  | @estimate order nodup lt length => exact if_neg length.ne
  | @test order perm =>
    have hlength : order.length = p.size := Arrangement.length_of_perm_range perm
    obtain ⟨e, hest⟩ := (p.isCostedBy_late limit).alwaysAnswers.exists_estimate
      (Arrangement.nodup_of_perm_range perm) (fun _ ↦ Arrangement.lt_of_perm_range perm) s
    rw [scoring?_test_eq_some hest, perform, ((p.late limit).test_eq_estimate id order s).1]
    exact if_pos hlength
  | lookUp o => rfl

/-- The budget of a late problem is spent when the limit is reached, and not before. -/
theorem canStop_late (p : Problem σ) (limit iteration : ℕ) {s : Session ℕ}
    (hcost : s.bestCost? = some Cost.zero) :
    ((p.late limit).canStop iteration s).1 =
      (decide (max p.config.checkInterval 1 ∣ iteration) && decide (s.world = limit)) := by
  have hcheck : (p.late limit).budget.isCheckPoint iteration =
      decide (max p.config.checkInterval 1 ∣ iteration) :=
    decide_eq_decide.mpr Nat.dvd_iff_mod_eq_zero.symm
  have hspent : (p.late limit).budget.isExceeded Cost.zero
      ((p.late limit).oracles.clock s.world).1 = decide (s.world = limit) := by
    change decide (Cost.zero.value * Float.ofNat 0 < Float.ofNat (if s.world = limit then 1 else 0)) = _
    by_cases hlimit : s.world = limit
    · rw [if_pos hlimit, decide_eq_true hlimit]
      decide +kernel
    · rw [if_neg hlimit, decide_eq_false hlimit]
      decide +kernel
  rw [canStop_fst, Budget.canStopAfter, hcost, hcheck, Option.any_some, hspent]

end Problem

namespace Sweep

open Problem

variable {p : Problem σ} {id : StrategyId} {length : ℕ} {complete : List ℕ → SearchM ℕ (List ℕ)}

theorem outOfTime_of_rankedFrom_late {limit k : ℕ} {stop : Bool} {t : Session ℕ}
    (hcomplete : IsCompletion (p.late limit) length complete)
    (hlimit : Arrangement.count p.size length = limit) (hpos : 0 < limit)
    (hdvd : max p.config.checkInterval 1 ∣ limit)
    (h : rankedFrom (p.late limit) id length complete limit 0 { world := 0 } = (.ok (k, stop), t)) :
    k = limit ∧ stop = true := by
  have hends := ends_rankedFrom (p := p.late limit) id { world := 0 } hcomplete
    ((Nat.zero_add limit).trans hlimit.symm)
  obtain ⟨u, hlook⟩ := exists_canStop_of_rankedFrom h
  rw [h] at hends
  cases hends with
  | finished reached clean iterated =>
    have hcount : t.scorings.length = k := iterated.counted.trans (Nat.zero_add k)
    have hnatural : stop = false → k = limit := by simpa using iterated.natural
    have hk : k ≠ 0 := by
      cases stop with
      | true => exact iterated.ne_first rfl rfl
      | false => exact hnatural rfl ▸ hpos.ne'
    -- the last look is taken at the session that the sweep ends with
    have hworld : u.world = k := by
      rw [← hcount, ← reached.preserves (P := fun s ↦ s.world = s.scorings.length) rfl
        fun _ _ hm hs ↦ world_perform_late hm hs]
      exact (world_canStop_late k u).symm.trans (congrArg (·.2.world) hlook)
    have hcost : u.bestCost? = some Cost.zero := by
      have hne : t.tested ≠ [] := by
        rw [Session.tested, ← List.length_pos_iff, List.length_map, hcount]
        exact Nat.pos_of_ne_zero hk
      obtain ⟨-, -, hbest, -⟩ := (isCostedBy_late p limit).exists_bestCost
        (reached.mono fun _ ↦ Move.IsTrial.isProper) hne
      rw [← hbest]
      obtain ⟨_, _, hspec, -⟩ := (p.late limit).canStop_spec k u
      exact congrArg (·.2.bestCost?) (hspec.symm.trans hlook)
    have hstop := canStop_late p limit k hcost
    rw [hlook, hworld] at hstop
    by_cases hend : k = limit
    · rw [hend, decide_eq_true hdvd, decide_eq_true rfl] at hstop
      exact ⟨hend, hstop⟩
    · rw [decide_eq_false hend, Bool.and_false] at hstop
      exact absurd (hnatural hstop) hend

/-- **A sweep over a late problem is said to be out of time though no head is left**, if their number is a
multiple of the interval between check points. -/
theorem exists_sweep_late (id : StrategyId) {asks : List ℕ → List ℕ → List (List ℕ)}
    {rule : List ℕ → List ℕ → Prop} {limit : ℕ} (hlimit : Arrangement.count p.size length = limit)
    (hpos : 0 < limit) (hdvd : max p.config.checkInterval 1 ∣ limit)
    (hcompletes : ∀ rank < Arrangement.count p.size length,
      Completes (p.late limit) complete asks rule (Arrangement.ofRank p.size length rank))
    (hcomplete : IsCompletion (p.late limit) length complete) (hlength : length ≤ p.size) :
    ∃ t, sweep (p.late limit) id length complete { world := 0 } = (.ok (), t) ∧
      t.history.getLast? = some (.stopped id limit true) := by
  obtain ⟨runs, stop, t, hrun, -, -⟩ := exists_rankedFrom (isCostedBy_late p limit).alwaysAnswers id
    hcompletes ((Nat.zero_add limit).trans hlimit.symm) { world := 0 }
  obtain ⟨hcount, rfl⟩ := outOfTime_of_rankedFrom_late hcomplete hlimit hpos hdvd hrun
  have hsize : Arrangement.count (p.late limit).size length = limit := hlimit
  have hlength' : length ≤ (p.late limit).size := hlength
  refine ⟨t.record (.stopped id limit true), ?_, ?_⟩
  · rw [sweep_eq hlength', SearchM.bind_apply, hsize, hrun, hcount]
    rfl
  · rw [Session.history_record, List.getLast?_concat]

end Sweep

/-! ## When to rely on it -/

namespace Strategy

variable [RandomSource ρ] {p : Problem σ}

/-- The strategy goes through heads. -/
def isSweep : Strategy ρ → Bool
  | exhaustive => true
  | bruteForce _ => true
  | trivial => false
  | graphGreedy => false
  | genetic _ => false

theorem search_exhaustive (p : Problem σ) (s : Session σ) :
    (exhaustive : Strategy ρ).search p s =
      (((Sweep.exhaustive p s).1, exhaustive), (Sweep.exhaustive p s).2) := rfl

theorem search_bruteForce (p : Problem σ) (length? : Option ℕ) (s : Session σ) :
    (bruteForce length? : Strategy ρ).search p s =
      (((Sweep.bruteForce p length? s).1, bruteForce length?), (Sweep.bruteForce p length? s).2) := rfl

/-- Whenever the strategy says that the budget ended it, it had iterations left. -/
def EndsEarly (strategy : Strategy ρ) (p : Problem σ) : Prop :=
  ∀ (s t : Session σ) (next : Strategy ρ) (k : ℕ), strategy.search p s = ((.ok (), next), t) →
    t.history.getLast? = some (.stopped strategy.id k true) → k < strategy.iterations p

theorem le_iterations_of_search {strategy next : Strategy ρ} {s t : Session σ} {k : ℕ}
    (hrun : strategy.search p s = ((.ok (), next), t))
    (hlast : t.history.getLast? = some (.stopped strategy.id k true)) :
    k ≤ strategy.iterations p ∧ max p.config.checkInterval 1 ∣ k := by
  obtain @⟨⟨iterations, outOfTime⟩, u, -, iterated⟩ := finished_of_search_eq_ok hrun
  rw [Session.history_record, List.getLast?_concat, Option.some.injEq, Entry.stopped.injEq] at hlast
  obtain ⟨-, rfl, rfl⟩ := hlast
  exact ⟨by simpa using iterated.le, iterated.dvd rfl⟩

theorem endsEarly_of_not_isSweep {strategy : Strategy ρ} (h : strategy.isSweep = false) :
    strategy.EndsEarly p := by
  intro s t next k hrun hlast
  cases strategy with
  | trivial =>
    have htested : searchTrivial p s = (.ok (), t) :=
      Prod.ext (congrArg (·.1.1) hrun) (congrArg (·.2) hrun)
    cases (Problem.getLast?_history_of_testOnce htested).symm.trans hlast
  | graphGreedy =>
    have htested : GraphGreedy.search p s = (.ok (), t) :=
      Prod.ext (congrArg (·.1.1) hrun) (congrArg (·.2) hrun)
    cases (Problem.getLast?_history_of_testOnce htested).symm.trans hlast
  | exhaustive | bruteForce length? => contradiction
  | genetic g =>
    have hsearched : g.search p s = ((.ok (), (g.search p s).1.2), t) :=
      Prod.ext (Prod.ext (congrArg (·.1.1) hrun) rfl) (congrArg (·.2) hrun)
    exact Genetic.lt_of_search hsearched hlast

theorem exists_search_late {strategy : Strategy ρ} (h : strategy.isSweep = true)
    (hdvd : max p.config.checkInterval 1 ∣ strategy.iterations p) :
    ∃ t, strategy.search (p.late (strategy.iterations p)) { world := 0 } = ((.ok (), strategy), t) ∧
      t.history.getLast? = some (.stopped strategy.id (strategy.iterations p) true) := by
  cases strategy with
  | exhaustive =>
    have hlimit : Arrangement.count p.size p.size = p.size.factorial := by
      rw [Arrangement.count_eq_descFactorial, Nat.descFactorial_self]
    obtain ⟨t, hrun, hlast⟩ := Sweep.exists_sweep_late .exhaustive hlimit
      p.size.factorial_pos hdvd (fun _ hrank ↦ Sweep.completes_pure hrank) Sweep.isCompletion_pure
      le_rfl
    refine ⟨t, ?_, hlast⟩
    rw [search_exhaustive]
    exact congrArg (fun out ↦ ((out.1, exhaustive), out.2)) hrun
  | bruteForce length? =>
    have hlength : Sweep.bruteForceLength p length? ≤ p.size := Nat.min_le_right _ _
    -- any choice will do, as all orderings cost the same
    have hchoice : Sweep.Chooses (p.late (iterations p (bruteForce length? : Strategy ρ)))
        fun _ _ ↦ True :=
      Sweep.chooses_of_answers (Problem.isCostedBy_late p _).alwaysAnswers fun _ _ ↦ True.intro
    obtain ⟨t, hrun, hlast⟩ := Sweep.exists_sweep_late .bruteForceGreedy
      (Arrangement.count_eq_descFactorial p.size (Sweep.bruteForceLength p length?))
      (Nat.descFactorial_pos.mpr hlength) hdvd
      (fun _ hrank ↦ Sweep.completes_complete hchoice (Arrangement.nodup_ofRank hlength)
        fun _ ↦ Arrangement.lt_of_mem_ofRank hlength hrank)
      (Sweep.isCompletion_complete length?) hlength
    refine ⟨t, ?_, hlast⟩
    rw [search_bruteForce]
    exact congrArg (fun out ↦ ((out.1, bruteForce length?), out.2)) hrun
  | trivial | graphGreedy | genetic g => contradiction

/-- **A strategy that says the budget ended it had iterations left, unless it is a sweep whose last head
comes right before a check point.** Then it says so also with nothing left to do, over the same operands and
under the same settings, if costs are worth little enough time. -/
theorem endsEarly_iff (strategy : Strategy ρ) (p : Problem σ) :
    (∀ (τ : Type) (q : Problem τ), q.Resembles p → strategy.EndsEarly q) ↔
      (strategy.isSweep = true → ¬max p.config.checkInterval 1 ∣ strategy.iterations p) := by
  constructor
  · intro hearly hsweep hdvd
    obtain ⟨t, hrun, hlast⟩ := exists_search_late hsweep hdvd
    have hlt := hearly ℕ _ (p.resembles_late _) _ _ _ _ hrun hlast
    rw [(p.resembles_late _).iterations_eq] at hlt
    exact Nat.lt_irrefl _ hlt
  · intro h τ q hq
    match hsweep : strategy.isSweep with
    | false => exact endsEarly_of_not_isSweep hsweep
    | true =>
      intro s t next k hrun hlast
      obtain ⟨hle, hdvd⟩ := le_iterations_of_search hrun hlast
      have hinterval : q.config.checkInterval = p.config.checkInterval := by rw [hq.config]
      rw [hinterval] at hdvd
      refine lt_of_le_of_ne hle fun hend ↦ h hsweep ?_
      rwa [hend, hq.iterations_eq] at hdvd

/-- Two operands as before, with a look at the budget before every second iteration only. -/
def hurriedSecond : Problem Unit := { hurried with config := { checkInterval := 2 } }

/-- Both orderings are tested, and the budget is found spent after that. -/
theorem not_endsEarly_hurriedSecond :
    let strategy : Strategy ChaCha := .exhaustive
    ((strategy.search hurriedSecond { world := () }).2.history.getLast? =
        some (.stopped .exhaustive 2 true)) ∧
      strategy.iterations hurriedSecond = 2 ∧ ¬strategy.EndsEarly hurriedSecond := by
  intro strategy
  have hresult : (strategy.search hurriedSecond { world := () }).1.1 = .ok () := rfl
  have hlast : (strategy.search hurriedSecond { world := () }).2.history.getLast? =
    some (.stopped .exhaustive 2 true) := rfl
  have hiterations : strategy.iterations hurriedSecond = 2 := rfl
  refine ⟨hlast, hiterations, fun hearly ↦ ?_⟩
  have hlt := hearly _ _ _ 2 (Prod.ext (Prod.ext hresult rfl) rfl) hlast
  rw [hiterations] at hlt
  exact Nat.lt_irrefl 2 hlt

end Strategy

end JoinOrder
