import JoinOrder.Proofs.Arrangement
import JoinOrder.Proofs.Commit
import JoinOrder.Proofs.Search.Calls
import JoinOrder.Proofs.Search.Strategy
/-!
# Runs of the optimizer

Whatever the settings, the clock, the random words and the cost model, a run over some operands ends in
one of two ways. Either the cost model gives an answer that cannot be used: then this is the last thing
it is asked, the run fails with just that, and nothing is committed. Or no such answer is given: then a
complete plan is found and committed. The errors a search has for the absence of a plan are out of reach.

## What carries the proof

Along the moves of any strategy the best plan stays a complete one, and once there is one there always
is. The first strategy of each regime leaves one behind, since no search stops for lack of time before
it has a plan. Together with the journal, whose last entry is the refusal if there is one, this decides
how a run ends.
-/

namespace JoinOrder

variable {σ ρ : Type}

/-- The calls of the cost model during a run, in order. -/
def Outcome.calls (out : Outcome σ) : List Call := out.history.filterMap Entry.call?

/-! ## Complete plans -/

/-- A plan that names every operand once, with a cost and an access for each. -/
structure Plan.IsComplete (n : ℕ) (plan : Plan) : Prop where
  perm : plan.order.Perm (List.range n)
  cost : plan.cost?.isSome = true
  access : plan.access.length = n

namespace Problem

variable {p : Problem σ}

theorem isComplete_perform {id : StrategyId} {m : Move} {s : Session σ}
    (hm : m.IsProper p.size id) (hs : ∀ plan, s.best? = some plan → plan.IsComplete p.size) :
    ∀ plan, (p.perform s m).best? = some plan → plan.IsComplete p.size := by
  cases hm with
  | poll iteration =>
    obtain ⟨stop, world, hstop, -⟩ := p.canStop_spec iteration s
    rw [perform, hstop]
    exact hs
  | @test order hperm =>
    have hspec := p.test_spec id order s
    rw [perform]
    generalize p.test id order s = out at hspec
    cases hspec with
    | refused => exact hs
    | passed => exact hs
    | @kept e world _ hacc _ =>
      intro plan hplan
      obtain rfl : Plan.scored order e = plan := Option.some.inj hplan
      have hlength : e.access.length = order.length := (Estimate.accepted_eq_ok_iff.mp hacc).2
      refine ⟨hperm, rfl, hlength.trans ?_⟩
      rw [hperm.length_eq, List.length_range]
  | estimate | lookUp | stop => exact hs

end Problem

namespace Optimizer

variable [RandomSource ρ] {p : Problem σ}

/-- Some strategy may make a move. -/
def IsMove (p : Problem σ) (m : Move) : Prop := ∃ id, m.IsProper p.size id

theorem runAll_cons (p : Problem σ) (strategy : Strategy ρ) (rest : List (Strategy ρ))
    (s : Session σ) :
    runAll p (strategy :: rest) s = match strategy.search p s with
      | ((.error e, _), t) => ((.error e, []), t)
      | ((.ok (), _), t) =>
        (((runAll p rest t).1.1, strategy.id :: (runAll p rest t).1.2), (runAll p rest t).2) := by
  rw [runAll]
  change StateT.bind (m := Id) (strategy.search p) _ s = _
  unfold StateT.bind
  generalize strategy.search p s = out
  obtain ⟨⟨result, next⟩, t⟩ := out
  cases result <;> rfl

theorem ends_runAll (strategies : List (Strategy ρ)) (s : Session σ) :
    p.Ends (IsMove p) s
      (fun _ t ↦ (∃ strategy ∈ strategies, strategy.id ≠ .genetic) → t.best?.isSome = true)
      ((runAll p strategies s).1.1, (runAll p strategies s).2) := by
  induction strategies generalizing s with
  | nil => exact .pure fun ⟨_, h, _⟩ ↦ absurd h List.not_mem_nil
  | cons strategy rest ih =>
    have hsearch := (strategy.ends_search s).weaken fun m hm ↦ (⟨_, hm⟩ : IsMove p m)
    rw [runAll_cons]
    generalize strategy.search p s = out at hsearch
    obtain ⟨⟨result, next⟩, t⟩ := out
    cases hsearch with
    | refused reached last refusal clean => exact .refused reached last refusal clean
    | finished reached clean holds =>
      refine .trans reached clean ((ih t).mono fun _ u hu hrest ↦ ?_)
      rintro ⟨other, hother, hid⟩
      rcases List.mem_cons.mp hother with rfl | hother
      -- the strategies that follow keep the plan or replace it
      · exact hu.isSome_best (holds.isSome_best (Strategy.iterations_pos hid))
      · exact hrest ⟨other, hother, hid⟩

/-- Every regime has a strategy that leaves a plan behind. -/
theorem exists_mem_strategies (config : Config) (n : ℕ) :
    ∃ strategy ∈ strategies ρ config n, strategy.id ≠ .genetic := by
  unfold strategies
  split
  · exact ⟨.trivial, by simp, by simp [Strategy.id]⟩
  · split
    · cases config.smallJoinStrategy with
      | graphGreedy => exact ⟨.graphGreedy, by simp, by simp [Strategy.id]⟩
      | exhaustive => exact ⟨.exhaustive, by simp, by simp [Strategy.id]⟩
    · exact ⟨.bruteForce none, by simp, by simp [Strategy.id]⟩

/-! ## How a run ends -/

/-- A run ends with a refused call, or with a complete plan committed. -/
inductive Concludes (o : Optimizer) (out : Outcome σ) : Prop
  | refused {before : List Call} {call : Call} {e : SearchError} {stats : Stats}
      (calls : out.calls = before ++ [call]) (refusal : Refusal call e)
      (clean : ∀ c ∈ before, ∀ e, ¬Refusal c e) (result : out.result = .error e)
      (optimizer : out.optimizer = { o.reset with stats })
  | committed {plan : Plan} {top : ℕ} {rest : List ℕ} {stats : Stats}
      (clean : ∀ c ∈ out.calls, ∀ e, ¬Refusal c e)
      (complete : plan.IsComplete o.operands.length) (order : plan.order = top :: rest)
      (result : out.result = .ok top)
      (optimizer : out.optimizer =
        { o.reset with
          operands := commit o.reset.operands plan
          plan? := some plan
          top? := some top
          stats })

section

variable {oracles : Oracles σ} {isSelect : Bool} {o : Optimizer} {world : σ} {session : Session σ}
  {completed : List StrategyId}

theorem searchAndCommit_of_error {e : SearchError}
    (h : runAll (o.problem oracles isSelect) (strategies ρ o.config o.operands.length) { world } =
      ((.error e, completed), session)) :
    searchAndCommit ρ oracles isSelect o world =
      { result := .error e
        optimizer := { o with stats := { strategies := completed } }
        history := session.history
        world := session.world } := by
  unfold searchAndCommit
  dsimp only [StateT.run, Problem.size, problem]
  rw [problem] at h
  rw [h]

theorem searchAndCommit_of_best {plan : Plan} {top : ℕ} {rest : List ℕ} {access : List Access}
    {world' : σ}
    (h : runAll (o.problem oracles isSelect) (strategies ρ o.config o.operands.length) { world } =
      ((.ok (), completed), session)) (hbest : session.best? = some plan)
    (hremoved : (oracles.costModel.removeUnusable
      ((o.problem oracles isSelect).view plan.order) plan.access).run session.world =
        (access, world'))
    (horder : plan.order = top :: rest) :
    searchAndCommit ρ oracles isSelect o world =
      { result := .ok top
        optimizer := { o with
          operands := commit o.operands { plan with access }
          plan? := some { plan with access }
          top? := some top
          stats := { strategies := completed, evaluations := session.evaluations } }
        history := session.history
        world := world' } := by
  unfold searchAndCommit
  dsimp only [StateT.run, Problem.size, problem] at hremoved ⊢
  rw [problem] at h
  rw [h]
  dsimp only
  rw [hbest]
  dsimp only
  rw [hremoved]
  dsimp only [settle]
  rw [horder]

end

theorem exists_complete_best {oracles : Oracles σ} {isSelect : Bool} {o : Optimizer} {world : σ}
    {completed : List StrategyId} {session : Session σ} (h : o.operands ≠ [])
    (hrun : runAll (o.problem oracles isSelect) (strategies ρ o.config o.operands.length) { world } =
      ((.ok (), completed), session)) :
    ∃ plan top rest, session.best? = some plan ∧ plan.IsComplete o.operands.length ∧
      plan.order = top :: rest := by
  have hends := ends_runAll (p := o.problem oracles isSelect)
    (strategies ρ o.config o.operands.length) { world }
  -- the invariant of all moves, whichever strategy makes them
  have hcomplete := hends.reaches.preserves (P := fun s ↦ ∀ plan, s.best? = some plan →
    plan.IsComplete (o.problem oracles isSelect).size) (fun _ h ↦ by contradiction)
    fun t m ⟨id, hm⟩ ht ↦ Problem.isComplete_perform hm ht
  rw [hrun] at hends hcomplete
  cases hends with
  | finished reached clean holds =>
    obtain ⟨plan, hbest⟩ := Option.isSome_iff_exists.mp (holds (exists_mem_strategies _ _))
    have hplan : plan.IsComplete o.operands.length := hcomplete plan hbest
    obtain ⟨top, rest, horder⟩ := Arrangement.exists_cons_of_perm_range hplan.perm
      (mt List.length_eq_zero_iff.mp h)
    exact ⟨plan, top, rest, hbest, hplan, horder⟩

theorem concludes_searchAndCommit (oracles : Oracles σ) (isSelect : Bool) {o : Optimizer} (world : σ)
    (h : o.operands ≠ []) : Concludes o (searchAndCommit ρ oracles isSelect o.reset world) := by
  have hlength : o.reset.operands.length = o.operands.length := List.length_map _
  have hreset : o.reset.operands ≠ [] := mt List.map_eq_nil_iff.mp h
  have hends := ends_runAll (p := o.reset.problem oracles isSelect)
    (strategies ρ o.reset.config o.reset.operands.length) { world }
  cases hrun : runAll (o.reset.problem oracles isSelect)
    (strategies ρ o.reset.config o.reset.operands.length) { world } with
  | mk out session =>
    obtain ⟨result, completed⟩ := out
    rw [hrun] at hends
    cases hends with
    | @refused e t order answer journal reached last refusal clean =>
      have hcalls : session.calls = (journal.filterMap Entry.call?).reverse ++ [(order, answer)] := by
        rw [Session.calls_eq, last]
        exact List.reverse_cons
      rw [searchAndCommit_of_error hrun]
      refine .refused hcalls (refusal_iff.mpr refusal) (fun c hc ↦ ?_) rfl rfl
      exact not_refusal_of_filterMap_eq_nil clean (List.mem_reverse.mp hc)
    | finished reached clean holds =>
      obtain ⟨plan, top, rest, hbest, hplan, horder⟩ := exists_complete_best hreset hrun
      rw [hlength] at hplan
      cases hremoved : (oracles.costModel.removeUnusable
        ((o.reset.problem oracles isSelect).view plan.order) plan.access).run session.world with
      | mk access world' =>
        have haccess : access.length = plan.access.length := by
          rw [← oracles.costModel.length_removeUnusable _ plan.access session.world, hremoved]
        have hremaining : ({ plan with access } : Plan).IsComplete o.operands.length :=
          ⟨hplan.perm, hplan.cost, haccess.trans hplan.access⟩
        rw [searchAndCommit_of_best hrun hbest hremoved horder]
        refine .committed (fun c hc ↦ ?_) hremaining horder rfl rfl
        have hcall : c ∈ session.calls := hc
        rw [Session.calls_eq] at hcall
        exact not_refusal_of_filterMap_eq_nil clean (List.mem_reverse.mp hcall)

theorem optimizeWith_of_ne_nil {o : Optimizer} (h : o.operands ≠ []) (oracles : Oracles σ)
    (isSelect : Bool) (world : σ) :
    optimizeWith ρ oracles false isSelect o world =
      searchAndCommit ρ oracles isSelect o.reset world := by
  have hempty : ¬o.operands.isEmpty = true := by simpa using h
  rw [optimizeWith, if_neg hempty, if_neg Bool.false_ne_true]

/-- **A search ends with a refused call or with a complete plan.** -/
theorem concludes_optimizeWith (oracles : Oracles σ) (isSelect : Bool) {o : Optimizer} (world : σ)
    (h : o.operands ≠ []) : Concludes o (optimizeWith ρ oracles false isSelect o world) := by
  rw [optimizeWith_of_ne_nil h]
  exact concludes_searchAndCommit oracles isSelect world h

/-! ## A log of calls -/

theorem history_searchAndCommit (oracles : Oracles σ) (isSelect : Bool) (o : Optimizer) (world : σ) :
    ∃ session, (runAll (o.problem oracles isSelect) (strategies ρ o.config o.operands.length)
        { world }).2 = session ∧
      (searchAndCommit ρ oracles isSelect o world).history = session.history ∧
      ∀ log, oracles.Logs log →
        log (searchAndCommit ρ oracles isSelect o world).world = log session.world := by
  generalize hrun : runAll (o.problem oracles isSelect) (strategies ρ o.config o.operands.length)
    { world } = out
  obtain ⟨⟨result, completed⟩, session⟩ := out
  unfold searchAndCommit
  dsimp only [StateT.run, Problem.size, problem]
  rw [problem] at hrun
  rw [hrun]
  refine ⟨session, rfl, ?_⟩
  cases result with
  | error e => exact ⟨rfl, fun _ _ ↦ rfl⟩
  | ok =>
    dsimp only
    split
    · exact ⟨rfl, fun _ _ ↦ rfl⟩
    · exact ⟨rfl, fun _ h ↦ h.removeUnusable _ _ _⟩

theorem log_searchAndCommit {oracles : Oracles σ} {log : σ → List Call} (h : oracles.Logs log)
    (isSelect : Bool) (o : Optimizer) (world : σ) :
    log (searchAndCommit ρ oracles isSelect o world).world =
      log world ++ (searchAndCommit ρ oracles isSelect o world).calls := by
  have hends := ends_runAll (p := o.problem oracles isSelect)
    (strategies ρ o.config o.operands.length) { world }
  have hlog := hends.reaches.preserves (P := fun s ↦ log s.world = log world ++ s.calls)
    (List.append_nil _).symm fun s m _ hs ↦ Problem.log_perform h hs m
  obtain ⟨session, hsession, hhistory, hworld⟩ :=
    history_searchAndCommit (ρ := ρ) oracles isSelect o world
  rw [hsession] at hlog
  rw [hworld log h, hlog, Outcome.calls, hhistory]
  rfl

/-- **The journal of a run misses no call**: an oracle that keeps a log of its own finds the same calls
there, with the same answers. -/
theorem log_optimizeWith {oracles : Oracles σ} {log : σ → List Call} (h : oracles.Logs log)
    (parseOnly isSelect : Bool) (o : Optimizer) (world : σ) :
    log (optimizeWith ρ oracles parseOnly isSelect o world).world =
      log world ++ (optimizeWith ρ oracles parseOnly isSelect o world).calls := by
  unfold optimizeWith
  split
  · exact (List.append_nil _).symm
  · split
    · exact (List.append_nil _).symm
    · exact log_searchAndCommit h isSelect o.reset world

/-! ## Two operands that link to each other -/

/-- The answer of a model for which every plan costs nothing, and which fails at its call `k`. -/
def failingAnswer (k calls : ℕ) (order : List ℕ) : Except SearchError Estimate :=
  if calls = k then .error (.modelFailure "No statistics")
  else .ok ⟨Cost.zero, order.map fun _ ↦ .fullScan⟩

/-- Oracles that fail at call `k` and keep a log of their calls. -/
def failingAt (k : ℕ) : Oracles (List Call) where
  costModel :=
    { estimate := fun view _ log ↦
        let answer := failingAnswer k log.length view.order
        (answer, log ++ [(view.order, answer)]) }
  rowCounts := RowCounts.source {}
  clock := pure 0

theorem logs_failingAt (k : ℕ) : (failingAt k).Logs id where
  estimate _ _ _ := rfl
  removeUnusable _ _ _ := rfl
  rowCounts _ _ := rfl
  clock _ := rfl

/-- Two operands, searched as if they were many, with old links in a cycle. -/
def crossLinked : Optimizer where
  operands := [{ table := "a", inner? := some 1 }, { table := "b", inner? := some 0 }]
  condition? := none
  config := { maxSmallJoin := 0, maxIterations := 2 }

/-! ## What a run guarantees -/

section

variable {oracles : Oracles σ} {isSelect : Bool} {o : Optimizer} {world : σ} {out : Outcome σ}

/-- **A run fails only with a refused call**, the last one, and else has a complete plan. -/
theorem optimizeWith_refused_or_complete (h : o.operands ≠ [])
    (hout : optimizeWith ρ oracles false isSelect o world = out) :
    ((∃ call e, out.calls.getLast? = some call ∧ Refusal call e ∧ out.result = .error e) ∨
      ∃ top plan, out.result = .ok top ∧ out.optimizer.plan? = some plan ∧
        plan.IsComplete o.operands.length ∧ ∀ call ∈ out.calls, ∀ e, ¬Refusal call e) ∧
    (∀ n, out.result = .error (.noPlan n) →
      ∃ order, out.calls.getLast? = some (order, .error (.noPlan n))) ∧
    ∀ pos, out.result = .error (.noUnusedOperand pos) →
      ∃ order, out.calls.getLast? = some (order, .error (.noUnusedOperand pos)) := by
  have hconcludes : Concludes o out := hout ▸ concludes_optimizeWith oracles isSelect world h
  cases hconcludes with
  | @refused before call e stats calls refusal clean result optimizer =>
    have hlast : out.calls.getLast? = some call := by rw [calls, List.getLast?_concat]
    refine ⟨.inl ⟨call, e, hlast, refusal, result⟩, fun n hn ↦ ?_, fun pos hpos ↦ ?_⟩
    -- only a failure of the model itself amounts to such an error
    · obtain rfl := Except.error.inj (result.symm.trans hn)
      cases refusal
      exact ⟨_, hlast⟩
    · obtain rfl := Except.error.inj (result.symm.trans hpos)
      cases refusal
      exact ⟨_, hlast⟩
  | committed clean complete order result optimizer =>
    refine ⟨.inr ⟨_, _, result, by rw [optimizer], complete, clean⟩, fun n hn ↦ ?_, fun pos hpos ↦ ?_⟩
    · exact absurd (result.symm.trans hn) (by simp)
    · exact absurd (result.symm.trans hpos) (by simp)

theorem refused_crossLinked :
    ∃ call e,
      (optimizeWith ChaCha (failingAt 2) false true crossLinked []).calls.getLast? = some call ∧
      Refusal call e ∧
      (optimizeWith ChaCha (failingAt 2) false true crossLinked []).result = .error e := by
  refine (optimizeWith_refused_or_complete (by decide) rfl).1.resolve_right ?_
  rintro ⟨top, -, hok, -⟩
  have herror : Except.error (SearchError.modelFailure "No statistics") = .ok top := hok
  contradiction

private theorem eq_of_getElem?_concat_of_not_mem {α : Type} {before : List α} {last a : α} {k : ℕ}
    (h : (before ++ [last])[k]? = some a) (hnew : a ∉ before) : k = before.length ∧ last = a := by
  rcases Nat.lt_trichotomy k before.length with hlt | rfl | hgt
  · rw [List.getElem?_append_left hlt] at h
    exact absurd (List.mem_of_getElem? h) hnew
  · rw [List.getElem?_concat_length] at h
    exact ⟨rfl, Option.some.inj h⟩
  · have hnone : (before ++ [last])[k]? = none := by
      rw [List.getElem?_eq_none_iff, List.length_append, List.length_singleton]
      exact hgt
    exact absurd (hnone.symm.trans h) (by simp)

/-- **A refused call ends the run**, which fails with just that and leaves nothing committed. No call is
made after it, not even one that the journal does not show. -/
theorem optimizeWith_of_refusal (h : o.operands ≠ [])
    (hout : optimizeWith ρ oracles false isSelect o world = out) {k : ℕ} {call : Call}
    {e : SearchError} (hcall : out.calls[k]? = some call) (hrefusal : Refusal call e) :
    out.calls.length = k + 1 ∧ out.result = .error e ∧
      (∀ operand ∈ out.optimizer.operands, operand.inner? = none ∧ operand.access? = none) ∧
      out.optimizer.operands.map Operand.source = o.operands.map Operand.source ∧
      out.optimizer.top? = none ∧ out.optimizer.plan? = none ∧ out.optimizer.cost? = none ∧
      out.optimizer.explain = .error .notOptimized ∧
      ∀ log, oracles.Logs log → log out.world = log world ++ out.calls := by
  have hconcludes : Concludes o out := hout ▸ concludes_optimizeWith oracles isSelect world h
  cases hconcludes with
  | committed clean complete order result optimizer =>
    exact absurd hrefusal (clean call (List.mem_of_getElem? hcall) e)
  | @refused before last e' stats calls refusal clean result optimizer =>
    rw [calls] at hcall
    -- no call before the last one is refused
    have hnew : call ∉ before := fun hmem ↦ clean call hmem e hrefusal
    obtain ⟨rfl, rfl⟩ := eq_of_getElem?_concat_of_not_mem hcall hnew
    obtain rfl : e' = e := refusal.unique hrefusal
    have hlength : out.calls.length = before.length + 1 := by
      rw [calls, List.length_append, List.length_singleton]
    rw [optimizer]
    refine ⟨hlength, result, ?_, List.map_map, rfl, rfl, rfl, rfl, ?_⟩
    · intro operand hoperand
      obtain ⟨_, -, rfl⟩ := List.mem_map.mp hoperand
      exact ⟨rfl, rfl⟩
    · intro log hlog
      rw [← hout]
      exact log_optimizeWith hlog false isSelect o world

/-- The third call is the first one of the genetic search: there is a plan by then. -/
theorem refusal_crossLinked :
    let out := optimizeWith ChaCha (failingAt 2) false true crossLinked []
    out.calls.length = 3 ∧ out.result = .error (.modelFailure "No statistics") ∧
      (∀ operand ∈ out.optimizer.operands, operand.inner? = none ∧ operand.access? = none) ∧
      out.world = out.calls := by
  intro out
  have hne : crossLinked.operands ≠ [] := by decide
  have hcall : out.calls[2]? = some ([0, 1], .error (.modelFailure "No statistics")) := rfl
  obtain ⟨hlength, hresult, hclean, -, -, -, -, -, hlog⟩ :=
    optimizeWith_of_refusal hne rfl hcall .failed
  exact ⟨hlength, hresult, hclean, hlog id (logs_failingAt 2)⟩

theorem optimizeWith_parseOnly (h : o.operands ≠ []) :
    ∃ top rest, List.range o.operands.length = top :: rest ∧
      optimizeWith ρ oracles true isSelect o world =
        { result := .ok top
          optimizer := { o.reset with
            operands := commit o.reset.operands (Plan.unscored (List.range o.operands.length))
            plan? := some (Plan.unscored (List.range o.operands.length))
            top? := some top }
          history := []
          world } := by
  have hempty : ¬o.operands.isEmpty = true := by simpa using h
  have hlength : o.reset.operands.length = o.operands.length := List.length_map _
  obtain ⟨top, rest, hrange⟩ := Arrangement.exists_cons_of_perm_range
    (.refl (List.range o.operands.length)) (mt List.length_eq_zero_iff.mp h)
  refine ⟨top, rest, hrange, ?_⟩
  rw [optimizeWith, if_neg hempty, if_pos rfl]
  dsimp only
  rw [hlength, hrange]
  rfl

/-- **What is committed fits together**, whatever was committed before. -/
theorem isCommitted_of_optimizeWith_eq_ok {parseOnly : Bool}
    (hout : optimizeWith ρ oracles parseOnly isSelect o world = out) {top : ℕ}
    (hok : out.result = .ok top) :
    ∃ plan, out.optimizer.plan? = some plan ∧ out.optimizer.top? = some top ∧
      IsCommitted out.optimizer.operands plan top ∧
      out.optimizer.operands.map Operand.source = o.operands.map Operand.source ∧
      (parseOnly = false → ∀ id < o.operands.length, (plan.accessOf? id).isSome = true) ∧
      (parseOnly = true → plan.order = List.range o.operands.length ∧
        (∀ operand ∈ out.optimizer.operands, operand.access? = none) ∧
        out.optimizer.cost? = none ∧ out.calls = [] ∧ out.world = world) := by
  have hne : o.operands ≠ [] := by
    intro hnil
    rw [optimizeWith, if_pos (List.isEmpty_iff.mpr hnil)] at hout
    rw [← hout] at hok
    contradiction
  cases parseOnly with
  | false =>
    have hconcludes : Concludes o out := hout ▸ concludes_optimizeWith oracles isSelect world hne
    cases hconcludes with
    | refused calls refusal clean result => exact absurd (result.symm.trans hok) (by simp)
    | @committed plan top' rest stats clean complete order result optimizer =>
      obtain rfl : top' = top := Except.ok.inj (result.symm.trans hok)
      rw [optimizer]
      refine ⟨plan, rfl, rfl, isCommitted_commit order complete.perm, map_source_commit _ _,
        fun _ id hid ↦ ?_, by simp⟩
      have hmem : id ∈ plan.order := complete.perm.mem_iff.mpr (List.mem_range.mpr hid)
      refine Plan.isSome_accessOf? hmem ?_
      rw [complete.access, complete.perm.length_eq, List.length_range]
  | true =>
    obtain ⟨top', rest, hrange, hrun⟩ := optimizeWith_parseOnly (ρ := ρ) hne
    obtain rfl : _ = out := hrun.symm.trans hout
    obtain rfl : top' = top := Except.ok.inj hok
    have hcommitted : IsCommitted
        (commit (o.operands.map Operand.reset) (Plan.unscored (List.range o.operands.length)))
        (Plan.unscored (List.range o.operands.length)) top' :=
      isCommitted_commit hrange (.refl _)
    refine ⟨_, rfl, rfl, hcommitted, map_source_commit _ _, by simp, fun _ ↦ ?_⟩
    refine ⟨rfl, fun operand hoperand ↦ ?_, rfl, rfl, rfl⟩
    -- a plan that was not scored has no access to commit
    obtain ⟨id, hid⟩ := List.mem_iff_getElem?.mp hoperand
    have haccess := hcommitted.access id
    rw [Plan.unscored, Plan.accessOf?_nil] at haccess
    exact Option.bind_eq_none_iff.mp haccess operand hid

/-- The old cycle is gone. -/
theorem isCommitted_crossLinked :
    let out := optimizeWith ChaCha (failingAt 4) false true crossLinked []
    out.result = .ok 0 ∧ ∃ plan, out.optimizer.plan? = some plan ∧
      IsCommitted out.optimizer.operands plan 0 := by
  intro out
  have hok : out.result = .ok 0 := rfl
  obtain ⟨plan, hplan, -, hcommitted, -⟩ := isCommitted_of_optimizeWith_eq_ok rfl hok
  exact ⟨hok, plan, hplan, hcommitted⟩

end

end Optimizer

end JoinOrder
