import JoinOrder.Proofs.Optimize
import JoinOrder.Proofs.Search.Costed
/-!
# Runs in which every call is answered

A run over some operands fails only with a call that is refused. So it cannot fail if the cost model gives
an answer to whatever a search may ask: each call on record was made by a move of some strategy, is about a
beginning of an ordering, and got an answer that the search accepts.
-/

namespace JoinOrder

variable {σ ρ : Type}

/-- A call that was answered, with a cost to compare and an access for each operand asked about. -/
def Call.IsAccepted (call : Call) : Prop :=
  ∃ e, call.2 = .ok e ∧ e.cost.isValid = true ∧ e.access.length = call.1.length

theorem Call.IsAccepted.not_refusal {call : Call} (h : call.IsAccepted) (e : SearchError) :
    ¬Refusal call e := by
  obtain ⟨order, answer⟩ := call
  obtain ⟨answer, rfl, haccepted⟩ := h
  intro hrefusal
  have hok : answer.accepted order.length = .ok answer := Estimate.accepted_eq_ok_iff.mpr haccepted
  cases hok.symm.trans (refusal_iff.mp hrefusal)

namespace Problem

variable {p : Problem σ} {s : Session σ}

theorem AlwaysAnswers.isAccepted_estimate (h : p.AlwaysAnswers) {order : List ℕ} (hnodup : order.Nodup)
    (hlt : ∀ x ∈ order, x < p.size) (hs : ∀ call ∈ s.calls, call.IsAccepted) :
    ∀ call ∈ (p.estimate order s).2.calls, call.IsAccepted := by
  intro call hcall
  rw [calls_estimate] at hcall
  rcases List.mem_append.mp hcall with hcall | hcall
  · exact hs call hcall
  · rw [List.mem_singleton.mp hcall]
    exact h order hnodup hlt s.world

theorem AlwaysAnswers.isAccepted_perform (h : p.AlwaysAnswers) {id : StrategyId} {m : Move}
    (hm : m.IsProper p.size id) (hs : ∀ call ∈ s.calls, call.IsAccepted) :
    ∀ call ∈ (p.perform s m).calls, call.IsAccepted := by
  cases hm with
  | poll iteration =>
    rw [perform, calls_canStop]
    exact hs
  | estimate nodup lt => exact h.isAccepted_estimate nodup lt hs
  | @test order hperm =>
    rw [perform, (p.test_eq_estimate id order s).2]
    exact h.isAccepted_estimate (Arrangement.nodup_of_perm_range hperm)
      (fun _ ↦ Arrangement.lt_of_perm_range hperm) hs
  | lookUp => exact hs
  | stop iterations outOfTime =>
    rw [perform, Session.stop, Session.calls_record_of_none _ rfl]
    exact hs

end Problem

namespace Optimizer

variable [RandomSource ρ] {oracles : Oracles σ} {isSelect : Bool} {o : Optimizer}

theorem isAccepted_searchAndCommit (h : (o.problem oracles isSelect).AlwaysAnswers) (world : σ) :
    ∀ call ∈ (searchAndCommit ρ oracles isSelect o world).calls, call.IsAccepted := by
  have hends := ends_runAll (p := o.problem oracles isSelect)
    (strategies ρ o.config o.operands.length) { world }
  have haccepted := hends.reaches.preserves (P := fun s ↦ ∀ call ∈ s.calls, call.IsAccepted)
    (fun _ hcall ↦ absurd hcall List.not_mem_nil) fun _ _ ⟨_, hm⟩ hs ↦ h.isAccepted_perform hm hs
  obtain ⟨session, hsession, hhistory, -⟩ :=
    history_searchAndCommit (ρ := ρ) oracles isSelect o world
  rw [hsession] at haccepted
  rw [Outcome.calls, hhistory]
  exact haccepted

/-- **A run that is always answered never fails**, and all its calls are accepted. -/
theorem exists_ok_of_alwaysAnswers (hne : o.operands ≠ [])
    (h : (o.reset.problem oracles isSelect).AlwaysAnswers) (world : σ) :
    (∃ top plan, (optimizeWith ρ oracles false isSelect o world).result = .ok top ∧
        (optimizeWith ρ oracles false isSelect o world).optimizer.plan? = some plan ∧
        plan.IsComplete o.operands.length) ∧
      ∀ call ∈ (optimizeWith ρ oracles false isSelect o world).calls, call.IsAccepted := by
  have haccepted : ∀ call ∈ (optimizeWith ρ oracles false isSelect o world).calls, call.IsAccepted := by
    rw [optimizeWith_of_ne_nil hne]
    exact isAccepted_searchAndCommit h world
  refine ⟨?_, haccepted⟩
  have hconcludes := concludes_optimizeWith (ρ := ρ) oracles isSelect world hne
  cases hconcludes with
  | @refused before call e stats calls refusal clean result =>
    have hmem : call ∈ (optimizeWith ρ oracles false isSelect o world).calls := by
      rw [calls]
      exact List.mem_concat_self
    exact absurd refusal ((haccepted call hmem).not_refusal e)
  | @committed plan top rest stats clean complete order result optimizer =>
    exact ⟨top, plan, result, by rw [optimizer], complete⟩

end Optimizer

end JoinOrder
