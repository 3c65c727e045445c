import JoinOrder.Proofs.Optimize
/-!
# What the statistics count

A session counts the calls of the cost model that were answered, whether or not the answer can be used. The
statistics of a run take this count over once all strategies are through. None of their calls has failed
then, so the count is that of all calls.

A run that fails does not get there. It ends with a refused call, at the earliest its first one, and its
statistics are left at the zero that they were reset to. So they count the calls of a run exactly if the
run succeeds.
-/

namespace JoinOrder

variable {σ ρ : Type}

/-! ## Evaluations of a session -/

/-- The cost model gave an answer. -/
def Call.isAnswered (call : Call) : Bool := call.2.isOk

theorem Session.evaluations_eq_countP (s : Session σ) :
    s.evaluations = s.calls.countP Call.isAnswered := by
  rw [calls_eq, List.countP_reverse, List.countP_filterMap, evaluations]
  refine List.countP_congr fun e _ ↦ ?_
  rcases e with ⟨order, e | answer⟩ | _ | _ | _ | _ <;>
    simp [Entry.isAnswer, Entry.call?, Call.isAnswered, Except.isOk, Except.toBool]

theorem Session.evaluations_eq_length_calls {s : Session σ} (h : s.refusals = []) :
    s.evaluations = s.calls.length := by
  rw [evaluations_eq_countP, List.countP_eq_length]
  rintro ⟨order, e | answer⟩ hcall
  · rw [calls_eq, List.mem_reverse] at hcall
    exact absurd .failed (not_refusal_of_filterMap_eq_nil h hcall e)
  · rfl

namespace Optimizer

variable [RandomSource ρ] {oracles : Oracles σ} {parseOnly isSelect : Bool} {o : Optimizer} {world : σ}
  {out : Outcome σ}

/-! ## Statistics of a run -/

/-- How the statistics of a run come to be: taken over from the session, or left behind by a failure. -/
inductive Counts (out : Outcome σ) : Prop
  | all {top : ℕ} (result : out.result = .ok top)
      (evaluations : out.optimizer.stats.evaluations = out.calls.length)
  | none {e : SearchError} (result : out.result = .error e)
      (evaluations : out.optimizer.stats.evaluations = 0) (calls : out.calls ≠ [])

theorem counts_searchAndCommit (h : o.operands ≠ []) :
    Counts (searchAndCommit ρ oracles isSelect o world) := by
  have hends := ends_runAll (p := o.problem oracles isSelect)
    (strategies ρ o.config o.operands.length) { world }
  cases hrun : runAll (o.problem oracles isSelect) (strategies ρ o.config o.operands.length)
    { world } with
  | mk out session =>
    obtain ⟨result, completed⟩ := out
    rw [hrun] at hends
    cases hends with
    | @refused e t order answer journal reached last refusal clean =>
      have hcalls : session.calls = (journal.filterMap Entry.call?).reverse ++ [(order, answer)] := by
        rw [Session.calls_eq, last]
        exact List.reverse_cons
      rw [searchAndCommit_of_error hrun]
      refine .none rfl rfl ?_
      change session.calls ≠ []
      rw [hcalls]
      exact List.concat_ne_nil _ _
    | finished reached clean holds =>
      obtain ⟨plan, top, rest, hbest, -, horder⟩ := exists_complete_best h hrun
      rw [searchAndCommit_of_best hrun hbest rfl horder]
      exact .all rfl (Session.evaluations_eq_length_calls clean)

theorem counts_optimizeWith (h : o.operands ≠ []) :
    Counts (optimizeWith ρ oracles parseOnly isSelect o world) := by
  cases parseOnly with
  | true =>
    obtain ⟨top, rest, -, hrun⟩ := @optimizeWith_parseOnly σ ρ _ oracles isSelect o world h
    rw [hrun]
    exact .all rfl rfl
  | false =>
    rw [optimizeWith_of_ne_nil h]
    exact counts_searchAndCommit (mt List.map_eq_nil_iff.mp h)

/-- **The statistics count the calls of a run exactly if it succeeds.** After a failure they count none, though
there has been one at least. No call is missing from the history, not even from that of a failed run. -/
theorem evaluations_eq_length_calls_iff (h : o.operands ≠ [])
    (hout : optimizeWith ρ oracles parseOnly isSelect o world = out) :
    (out.optimizer.stats.evaluations = out.calls.length ↔ ∃ top, out.result = .ok top) ∧
      (∀ e, out.result = .error e → out.optimizer.stats.evaluations = 0 ∧ out.calls ≠ []) ∧
      ∀ log, oracles.Logs log → log out.world = log world ++ out.calls := by
  have hlog (log : σ → List Call) (hlogs : oracles.Logs log) : log out.world = log world ++ out.calls := by
    rw [← hout]
    exact log_optimizeWith hlogs parseOnly isSelect o world
  have hcounts : Counts out := hout ▸ counts_optimizeWith h
  cases hcounts with
  | @all top result evaluations =>
    refine ⟨iff_of_true evaluations ⟨top, result⟩, fun e he ↦ ?_, hlog⟩
    exact absurd (result.symm.trans he) (by simp)
  | @none e result evaluations calls =>
    refine ⟨iff_of_false ?_ ?_, fun _ _ ↦ ⟨evaluations, calls⟩, hlog⟩
    · rw [evaluations]
      exact (List.length_pos_iff.mpr calls).ne
    · rintro ⟨top, htop⟩
      exact absurd (result.symm.trans htop) (by simp)

/-- Brute force asks about both orders, and the genetic search twice more. -/
theorem evaluations_crossLinked :
    let out := optimizeWith ChaCha (failingAt 4) false true crossLinked []
    crossLinked.operands ≠ [] ∧ out.result = .ok 0 ∧ out.calls.length = 4 ∧
      out.optimizer.stats.evaluations = 4 ∧ out.world = out.calls := by
  intro out
  have hne : crossLinked.operands ≠ [] := by decide
  have hok : out.result = .ok 0 := rfl
  have hcalls : out.calls.length = 4 := by decide +kernel
  obtain ⟨hiff, -, hlog⟩ := evaluations_eq_length_calls_iff hne (rfl : _ = out)
  exact ⟨hne, hok, hcalls, (hiff.mpr ⟨0, hok⟩).trans hcalls, hlog id (logs_failingAt 4)⟩

/-- The third call fails. The two before it have been answered, and the strategy that made them is on
record. -/
theorem evaluations_crossLinked_failed :
    let out := optimizeWith ChaCha (failingAt 2) false true crossLinked []
    out.calls.length = 3 ∧ out.optimizer.stats = { strategies := [.bruteForceGreedy], evaluations := 0 } ∧
      out.optimizer.stats.evaluations ≠ out.calls.length := by
  decide +kernel

end Optimizer

end JoinOrder
