import JoinOrder.Proofs.Search.Moves
/-!
# What the moves of a search write

The journal is only added to, and each entry added tells of the move that wrote it. So what may be found
in the journal of a search follows from the moves it may make.
-/

namespace JoinOrder

variable {σ : Type}

/-- A move may write an entry. -/
inductive Move.Writes : Move → Entry → Prop
  | polled (iteration : ℕ) (stop : Bool) : Writes (.poll iteration) (.polled iteration stop)
  | estimated (order : List ℕ) (answer : Except SearchError Estimate) :
      Writes (.estimate order) (.asked order answer)
  | tested (id : StrategyId) (order : List ℕ) (answer : Except SearchError Estimate) :
      Writes (.test id order) (.asked order answer)
  | scored (id : StrategyId) (order : List ℕ) (e : Estimate) :
      Writes (.test id order) (.scored id order e)
  | improved (id : StrategyId) (order : List ℕ) (cost : Cost) :
      Writes (.test id order) (.improved id order cost)
  | stopped (id : StrategyId) (iterations : ℕ) (outOfTime : Bool) :
      Writes (.stop id iterations outOfTime) (.stopped id iterations outOfTime)

namespace Problem

variable {p : Problem σ} {allowed : Move → Prop} {s t : Session σ}

theorem exists_entries_perform (p : Problem σ) (s : Session σ) (m : Move) :
    ∃ entries, (p.perform s m).journal = entries ++ s.journal ∧ ∀ e ∈ entries, m.Writes e := by
  cases m with
  | poll iteration =>
    obtain ⟨stop, world, hstop, -⟩ := p.canStop_spec iteration s
    refine ⟨[.polled iteration stop], by rw [perform, hstop]; rfl, ?_⟩
    simpa using Move.Writes.polled iteration stop
  | estimate order =>
    obtain ⟨answer, world, hest⟩ := p.estimate_spec order s
    refine ⟨[.asked order answer], by rw [perform, hest]; rfl, ?_⟩
    simpa using Move.Writes.estimated order answer
  | test id order =>
    have hspec := p.test_spec id order s
    rw [perform]
    generalize p.test id order s = out at hspec
    cases hspec with
    | @refused e answer =>
      refine ⟨[.asked order answer], rfl, ?_⟩
      simpa using Move.Writes.tested id order answer
    | @kept e =>
      refine ⟨[.improved id order e.cost, .scored id order e, .asked order (.ok e)], rfl, ?_⟩
      intro entry hentry
      simp only [List.mem_cons, List.not_mem_nil, or_false] at hentry
      rcases hentry with rfl | rfl | rfl
      · exact .improved id order e.cost
      · exact .scored id order e
      · exact .tested id order (.ok e)
    | @passed e =>
      refine ⟨[.scored id order e, .asked order (.ok e)], rfl, ?_⟩
      intro entry hentry
      simp only [List.mem_cons, List.not_mem_nil, or_false] at hentry
      rcases hentry with rfl | rfl
      · exact .scored id order e
      · exact .tested id order (.ok e)
  | lookUp o => exact ⟨[], rfl, by simp⟩
  | stop id iterations outOfTime =>
    refine ⟨[.stopped id iterations outOfTime], rfl, ?_⟩
    simpa using Move.Writes.stopped id iterations outOfTime

/-- **The history is only added to**, by entries that allowed moves may write. -/
theorem Reaches.exists_entries (h : p.Reaches allowed s t) :
    ∃ entries, t.history = s.history ++ entries ∧
      ∀ e ∈ entries, ∃ m, allowed m ∧ m.Writes e := by
  have hjournal : ∃ entries, t.journal = entries ++ s.journal ∧
      ∀ e ∈ entries, ∃ m, allowed m ∧ m.Writes e := by
    refine h.preserves (P := fun u ↦ ∃ entries, u.journal = entries ++ s.journal ∧
      ∀ e ∈ entries, ∃ m, allowed m ∧ m.Writes e) ⟨[], rfl, by simp⟩ ?_
    rintro u m hm ⟨entries, hu, hentries⟩
    obtain ⟨added, hadded, hwrites⟩ := p.exists_entries_perform u m
    refine ⟨added ++ entries, by rw [hadded, hu, List.append_assoc], fun e he ↦ ?_⟩
    rcases List.mem_append.mp he with he | he
    · exact ⟨m, hm, hwrites e he⟩
    · exact hentries e he
  obtain ⟨entries, hentries, hwrites⟩ := hjournal
  refine ⟨entries.reverse, ?_, fun e he ↦ hwrites e (List.mem_reverse.mp he)⟩
  rw [Session.history, hentries, List.reverse_append, Session.history]

end Problem

end JoinOrder
