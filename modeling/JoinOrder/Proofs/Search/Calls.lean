import JoinOrder.Proofs.CostOrder
import JoinOrder.Proofs.Search.Moves
/-!
# The calls of the cost model

The journal notes each call of the cost model with its answer. Two things make it good evidence of what
went on. It is complete: an oracle that keeps a log of its own finds there what the journal says, call by
call. And a call is refused by a search exactly if it failed, if its cost is negative or not a number, or
if the number of its access choices is wrong.
-/

namespace JoinOrder

variable {σ : Type}

/-! ## Calls -/

/-- What the cost model was asked, with its answer. -/
abbrev Call := List ℕ × Except SearchError Estimate

/-- The call an entry notes. -/
def Entry.call? : Entry → Option Call
  | asked order answer => some (order, answer)
  | _ => none

/-- The calls a session has made, in order. -/
def Session.calls (s : Session σ) : List Call := s.history.filterMap Entry.call?

theorem Session.calls_eq (s : Session σ) :
    s.calls = (s.journal.filterMap Entry.call?).reverse := by
  rw [calls, history, List.filterMap_reverse]

theorem Session.calls_record (s : Session σ) (e : Entry) :
    (s.record e).calls = s.calls ++ e.call?.toList := by
  rw [calls_eq, calls_eq, record, List.filterMap_cons]
  cases e.call? <;> simp

theorem Session.calls_record_of_none (s : Session σ) {e : Entry} (h : e.call? = none) :
    (s.record e).calls = s.calls := by
  rw [calls_record, h, Option.toList_none, List.append_nil]

theorem Session.calls_keep (s : Session σ) (plan : Plan) : (s.keep plan).calls = s.calls := rfl

/-! ## Refusals -/

/-- A call whose answer cannot be used, with the error it amounts to. -/
inductive Refusal : Call → SearchError → Prop
  | failed {order : List ℕ} {e : SearchError} : Refusal (order, .error e) e
  | cost {order : List ℕ} {answer : Estimate}
      (invalid : answer.cost.value.isNaN = true ∨ answer.cost < Cost.zero) :
      Refusal (order, .ok answer) (.invalidCost answer.cost)
  | access {order : List ℕ} {answer : Estimate}
      (valid : ¬(answer.cost.value.isNaN = true ∨ answer.cost < Cost.zero))
      (mismatch : answer.access.length ≠ order.length) :
      Refusal (order, .ok answer) (.accessCountMismatch answer.access.length order.length)

theorem refusal_iff {order : List ℕ} {answer : Except SearchError Estimate} {e : SearchError} :
    Refusal (order, answer) e ↔ answer.bind (Estimate.accepted order.length) = .error e := by
  constructor
  · intro h
    cases h with
    | failed => rfl
    | @cost _ answer invalid =>
      have hvalid : answer.cost.isValid = false := (Cost.isValid_eq_false_iff _).mpr invalid
      simp [Except.bind, Estimate.accepted, hvalid]
    | @access _ answer valid mismatch =>
      rw [← Cost.isValid_eq_false_iff, Bool.not_eq_false] at valid
      simp [Except.bind, Estimate.accepted, valid, mismatch]
  · intro h
    cases answer with
    | error e' =>
      obtain rfl : e' = e := Except.error.inj h
      exact .failed
    | ok answer =>
      change answer.accepted order.length = .error e at h
      unfold Estimate.accepted at h
      split at h
      · next hvalid =>
        obtain rfl := Except.error.inj h
        exact .cost ((Cost.isValid_eq_false_iff _).mp (by simpa using hvalid))
      · next hvalid =>
        split at h
        · next hlength =>
          obtain rfl := Except.error.inj h
          refine .access ?_ hlength
          rw [← Cost.isValid_eq_false_iff]
          simpa using hvalid
        · contradiction

theorem Refusal.unique {call : Call} {e e' : SearchError} (h : Refusal call e)
    (h' : Refusal call e') : e = e' := by
  obtain ⟨order, answer⟩ := call
  exact Except.error.inj ((refusal_iff.mp h).symm.trans (refusal_iff.mp h'))

theorem not_refusal_of_filterMap_eq_nil {journal : List Entry}
    (h : journal.filterMap Entry.refusal? = []) {call : Call}
    (hcall : call ∈ journal.filterMap Entry.call?) (e : SearchError) : ¬Refusal call e := by
  intro hrefusal
  obtain ⟨entry, hentry, hsome⟩ := List.mem_filterMap.mp hcall
  have hnone : entry.refusal? = none := List.filterMap_eq_nil_iff.mp h entry hentry
  cases entry with
  | asked order answer =>
    obtain rfl : (order, answer) = call := Option.some.inj hsome
    rw [Entry.refusal?, refusal_iff.mp hrefusal] at hnone
    contradiction
  | polled | scored | improved | stopped => contradiction

/-! ## A log of calls -/

/-- The oracles keep a log of the calls of the cost model. -/
structure Oracles.Logs (oracles : Oracles σ) (log : σ → List Call) : Prop where
  estimate : ∀ view isSelect world,
    log ((oracles.costModel.estimate view isSelect).run world).2 =
      log world ++ [(view.order, ((oracles.costModel.estimate view isSelect).run world).1)]
  removeUnusable : ∀ view access world,
    log ((oracles.costModel.removeUnusable view access).run world).2 = log world
  rowCounts : ∀ o world, log ((oracles.rowCounts o).run world).2 = log world
  clock : ∀ world, log (oracles.clock.run world).2 = log world

namespace Problem

variable {p : Problem σ} {log : σ → List Call} {before : List Call} {s : Session σ}

theorem calls_estimate (p : Problem σ) (order : List ℕ) (s : Session σ) :
    (p.estimate order s).2.calls =
      s.calls ++ [(order, ((p.oracles.costModel.estimate (p.view order) p.isSelect).run s.world).1)] :=
  Session.calls_record _ _

theorem calls_canStop (p : Problem σ) (iteration : ℕ) (s : Session σ) :
    (p.canStop iteration s).2.calls = s.calls := by
  obtain ⟨stop, world, hstop, -⟩ := p.canStop_spec iteration s
  rw [hstop]
  exact Session.calls_record_of_none { s with world } rfl

theorem log_estimate (h : p.oracles.Logs log) (hs : log s.world = before ++ s.calls)
    (order : List ℕ) :
    log (p.estimate order s).2.world = before ++ (p.estimate order s).2.calls := by
  rw [calls_estimate, ← List.append_assoc, ← hs]
  exact h.estimate _ _ _

theorem test_eq_estimate (p : Problem σ) (id : StrategyId) (order : List ℕ) (s : Session σ) :
    (p.test id order s).2.world = (p.estimate order s).2.world ∧
      (p.test id order s).2.calls = (p.estimate order s).2.calls := by
  unfold test
  rcases p.estimate order s with ⟨e | e, t⟩
  · exact ⟨rfl, rfl⟩
  · dsimp only
    split
    · refine ⟨rfl, ?_⟩
      rw [Session.calls_record_of_none _ rfl, Session.calls_keep, Session.calls_record_of_none _ rfl]
    · exact ⟨rfl, Session.calls_record_of_none _ rfl⟩

/-- **The journal is complete**: what a move adds to a log, it adds to the calls of the session. -/
theorem log_perform (h : p.oracles.Logs log) (hs : log s.world = before ++ s.calls) (m : Move) :
    log (p.perform s m).world = before ++ (p.perform s m).calls := by
  cases m with
  | poll iteration =>
    rw [perform, calls_canStop, ← hs]
    unfold canStop
    split
    · exact h.clock s.world
    · rfl
  | estimate order => exact log_estimate h hs order
  | test id order =>
    obtain ⟨hworld, hcalls⟩ := p.test_eq_estimate id order s
    rw [perform, hworld, hcalls]
    exact log_estimate h hs order
  | lookUp o => exact (h.rowCounts o s.world).trans hs
  | stop id iterations outOfTime =>
    rw [perform, Session.stop, Session.calls_record_of_none _ rfl]
    exact hs

end Problem

end JoinOrder
