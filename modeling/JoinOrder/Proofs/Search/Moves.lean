import JoinOrder.Search.Strategy
import Mathlib.Data.Nat.Notation
/-!
# The moves of a search

A search touches its session in five ways only: it looks at the budget, asks for an estimate, tests an
ordering, looks up the rows of an operand, or notes that it has stopped. These are its *moves*, and a
session is *reached* from another one by a list of them. Whatever one move preserves, a search
preserves, at its end and at every moment on the way, also where it breaks off.

## How a search ends

A search gives a result, or it fails. The journal tells the two apart: an answer of the cost model that
cannot be used is a *refusal*, and it is the last thing a search writes. So a search that ends with a
result has met no refusal, and one that fails does so with the refusal at the head of its journal. The
predicate `Ends` says just that, beside what holds of the result; it is closed under sequencing, so a
search is taken apart at its binds, and the errors of the search itself have to be shown out of reach.
-/

namespace JoinOrder

variable {σ : Type} {α β : Type}

/-! ## Refusals -/

/-- The reason for which an answer of the cost model cannot be used, if there is one. -/
def Entry.refusal? : Entry → Option SearchError
  | asked order answer =>
    match answer.bind (Estimate.accepted order.length) with
    | .error e => some e
    | .ok _ => none
  | _ => none

namespace Entry

@[simp] theorem refusal?_polled (iteration : ℕ) (stop : Bool) :
    (polled iteration stop).refusal? = none := rfl

@[simp] theorem refusal?_scored (id : StrategyId) (order : List ℕ) (e : Estimate) :
    (scored id order e).refusal? = none := rfl

@[simp] theorem refusal?_improved (id : StrategyId) (order : List ℕ) (cost : Cost) :
    (improved id order cost).refusal? = none := rfl

theorem refusal?_asked_eq_none {order : List ℕ} {answer : Except SearchError Estimate}
    {e : Estimate} (h : answer.bind (Estimate.accepted order.length) = .ok e) :
    (asked order answer).refusal? = none := by
  rw [refusal?, h]

end Entry

/-- The refusals of a session, the latest first. -/
def Session.refusals (s : Session σ) : List SearchError := s.journal.filterMap Entry.refusal?

theorem Estimate.eq_of_accepted {n : ℕ} {e e' : Estimate} (h : e.accepted n = .ok e') : e' = e := by
  unfold accepted at h
  split at h
  · contradiction
  · split at h
    · contradiction
    · cases h
      rfl

theorem Estimate.accepted_eq_ok_iff {n : ℕ} {e : Estimate} :
    e.accepted n = .ok e ↔ e.cost.isValid = true ∧ e.access.length = n := by
  unfold accepted
  cases hc : e.cost.isValid with
  | false => simp
  | true => by_cases hn : e.access.length = n <;> simp [hn]

/-- An accepted answer is the answer itself, with a cost to compare and an access for each operand. -/
theorem eq_ok_of_bind_accepted {n : ℕ} {answer : Except SearchError Estimate} {e : Estimate}
    (h : answer.bind (Estimate.accepted n) = .ok e) :
    answer = .ok e ∧ e.cost.isValid = true ∧ e.access.length = n := by
  cases answer with
  | error _ => contradiction
  | ok e' =>
    obtain rfl : e = e' := Estimate.eq_of_accepted h
    exact ⟨rfl, Estimate.accepted_eq_ok_iff.mp h⟩

theorem SearchM.bind_apply (act : SearchM σ α) (next : α → SearchM σ β) (s : Session σ) :
    (act >>= next) s = match act s with
      | (.ok a, t) => next a t
      | (.error e, t) => (.error e, t) := by
  change StateT.bind act (ExceptT.bindCont next) s = _
  unfold StateT.bind
  cases h : act s with
  | mk result t => cases result <;> rfl

/-! ## Moves -/

/-- One thing a search does with its session. -/
inductive Move where
  /-- Look at the budget before an iteration. -/
  | poll (iteration : ℕ)
  /-- Ask for an estimate of an order, or the beginning of one. -/
  | estimate (order : List ℕ)
  /-- Test a complete ordering. -/
  | test (id : StrategyId) (order : List ℕ)
  /-- Look up the rows of an operand. -/
  | lookUp (o : Operand)
  /-- Note the end of a strategy. -/
  | stop (id : StrategyId) (iterations : ℕ) (outOfTime : Bool)

/-- What a strategy may do over `n` operands: whatever it asks about is duplicate free, and what it
tests is a complete ordering. -/
inductive Move.IsProper (n : ℕ) (id : StrategyId) : Move → Prop
  | poll (iteration : ℕ) : IsProper n id (.poll iteration)
  | estimate {order : List ℕ} (nodup : order.Nodup) (lt : ∀ x ∈ order, x < n)
      (length : order.length < n) : IsProper n id (.estimate order)
  | test {order : List ℕ} (perm : order.Perm (List.range n)) : IsProper n id (.test id order)
  | lookUp (o : Operand) : IsProper n id (.lookUp o)
  | stop (iterations : ℕ) (outOfTime : Bool) : IsProper n id (.stop id iterations outOfTime)

namespace Problem

variable (p : Problem σ)

/-- The session after a move. -/
def perform (s : Session σ) : Move → Session σ
  | .poll iteration => (p.canStop iteration s).2
  | .estimate order => (p.estimate order s).2
  | .test id order => (p.test id order s).2
  | .lookUp o => (Session.consult (p.oracles.rowCounts o) s).2
  | .stop id iterations outOfTime => (Session.stop id iterations outOfTime s).2

/-- The session after a list of moves. -/
def performAll (s : Session σ) (moves : List Move) : Session σ := moves.foldl p.perform s

/-- A session is reached from another one by moves that are all allowed. -/
def Reaches (allowed : Move → Prop) (s t : Session σ) : Prop :=
  ∃ moves, (∀ m ∈ moves, allowed m) ∧ p.performAll s moves = t

variable {p} {allowed : Move → Prop} {s t u : Session σ}

theorem Reaches.refl : p.Reaches allowed s s := ⟨[], by simp, rfl⟩

theorem Reaches.single {m : Move} (h : allowed m) : p.Reaches allowed s (p.perform s m) :=
  ⟨[m], by simpa using h, rfl⟩

theorem Reaches.trans (h : p.Reaches allowed s t) (h' : p.Reaches allowed t u) :
    p.Reaches allowed s u := by
  obtain ⟨moves, hmoves, rfl⟩ := h
  obtain ⟨moves', hmoves', rfl⟩ := h'
  refine ⟨moves ++ moves', fun m hm ↦ ?_, List.foldl_append⟩
  exact (List.mem_append.mp hm).elim (hmoves m) (hmoves' m)

theorem Reaches.mono {allowed' : Move → Prop} (h : p.Reaches allowed s t)
    (himp : ∀ m, allowed m → allowed' m) : p.Reaches allowed' s t := by
  obtain ⟨moves, hmoves, rfl⟩ := h
  exact ⟨moves, fun m hm ↦ himp m (hmoves m hm), rfl⟩

/-- **What one move preserves, a search preserves.** -/
theorem performAll_preserves {P : Session σ → Prop} (hs : P s)
    (step : ∀ t m, allowed m → P t → P (p.perform t m)) {moves : List Move}
    (hmoves : ∀ m ∈ moves, allowed m) : P (p.performAll s moves) := by
  induction moves generalizing s with
  | nil => exact hs
  | cons m moves ih =>
    exact ih (step s m (hmoves m List.mem_cons_self) hs)
      fun m' hm' ↦ hmoves m' (List.mem_cons_of_mem m hm')

theorem Reaches.preserves {P : Session σ → Prop} (h : p.Reaches allowed s t) (hs : P s)
    (step : ∀ t m, allowed m → P t → P (p.perform t m)) : P t := by
  obtain ⟨moves, hmoves, rfl⟩ := h
  exact performAll_preserves hs step hmoves

/-! ## What a move does -/

/-- A look at the budget leaves the best plan alone, and stops a search only at a check point and only
if it has a scored plan. -/
theorem canStop_spec (p : Problem σ) (iteration : ℕ) (s : Session σ) :
    ∃ stop world, p.canStop iteration s =
        (stop, { s with world, journal := .polled iteration stop :: s.journal }) ∧
      (stop = true → p.budget.isCheckPoint iteration = true ∧ s.bestCost?.isSome = true) := by
  unfold canStop
  split
  · next h =>
    rw [Bool.and_eq_true] at h
    exact ⟨_, _, rfl, fun _ ↦ h⟩
  · exact ⟨false, s.world, rfl, fun h ↦ absurd h (by decide)⟩

theorem estimate_eq (p : Problem σ) (order : List ℕ) (s : Session σ) :
    p.estimate order s =
      let asked := (p.oracles.costModel.estimate (p.view order) p.isSelect).run s.world
      (asked.1.bind (Estimate.accepted order.length),
        { s with world := asked.2, journal := .asked order asked.1 :: s.journal }) := rfl

theorem estimate_spec (p : Problem σ) (order : List ℕ) (s : Session σ) :
    ∃ answer world, p.estimate order s =
      (answer.bind (Estimate.accepted order.length),
        { s with world, journal := .asked order answer :: s.journal }) :=
  ⟨_, _, p.estimate_eq order s⟩

/-- How a test may end: with a refusal, with a new best plan, or with the best plan there was. -/
inductive Tested (p : Problem σ) (id : StrategyId) (order : List ℕ) (s : Session σ) :
    Except SearchError Bool × Session σ → Prop
  | refused {e : SearchError} {answer : Except SearchError Estimate} {world : σ}
      (est : (p.estimate order s).1 = .error e)
      (h : answer.bind (Estimate.accepted order.length) = .error e) :
      Tested p id order s (.error e, { s with world, journal := .asked order answer :: s.journal })
  | kept {e : Estimate} {world : σ} (est : (p.estimate order s).1 = .ok e)
      (h : e.accepted order.length = .ok e) (hcost : s.isImprovedBy e.cost = true) :
      Tested p id order s (.ok true,
        { best? := some (Plan.scored order e)
          journal := .improved id order e.cost :: .scored id order e :: .asked order (.ok e) ::
            s.journal
          world })
  | passed {e : Estimate} {world : σ} (est : (p.estimate order s).1 = .ok e)
      (h : e.accepted order.length = .ok e) (hcost : s.isImprovedBy e.cost = false) :
      Tested p id order s (.ok false,
        { s with world, journal := .scored id order e :: .asked order (.ok e) :: s.journal })

theorem test_spec (p : Problem σ) (id : StrategyId) (order : List ℕ) (s : Session σ) :
    Tested p id order s (p.test id order s) := by
  obtain ⟨answer, world, hest⟩ := p.estimate_spec order s
  have hest₁ : (p.estimate order s).1 = answer.bind (Estimate.accepted order.length) := by rw [hest]
  unfold test
  rw [hest]
  cases hacc : answer.bind (Estimate.accepted order.length) with
  | error e => exact .refused (hest₁.trans hacc) hacc
  | ok e =>
    obtain ⟨rfl, hvalid⟩ := eq_ok_of_bind_accepted hacc
    have hok : e.accepted order.length = .ok e := Estimate.accepted_eq_ok_iff.mpr hvalid
    -- the cost is compared with the best plan of the session before the test
    change Tested p id order s (if s.isImprovedBy e.cost = true then _ else _)
    split
    · next hcost => exact .kept (hest₁.trans hacc) hok hcost
    · next hcost => exact .passed (hest₁.trans hacc) hok (Bool.eq_false_iff.mpr hcost)

theorem isSome_best_perform (p : Problem σ) (s : Session σ) (m : Move)
    (h : s.best?.isSome = true) : (p.perform s m).best?.isSome = true := by
  cases m with
  | poll iteration =>
    obtain ⟨stop, world, hstop, -⟩ := p.canStop_spec iteration s
    rw [perform, hstop]
    exact h
  | test id order =>
    have hspec := p.test_spec id order s
    rw [perform]
    generalize p.test id order s = out at hspec
    cases hspec with
    | refused => exact h
    | kept => rfl
    | passed => exact h
  | estimate | lookUp | stop => exact h

theorem Reaches.isSome_best (h : p.Reaches allowed s t) (hs : s.best?.isSome = true) :
    t.best?.isSome = true :=
  h.preserves hs fun u m _ ↦ p.isSome_best_perform u m

/-! ## How a search ends -/

/-- A search from `s` ends with a result, no answer having been refused on the way, or with the refusal
of the last answer. -/
inductive Ends (p : Problem σ) (allowed : Move → Prop) (s : Session σ)
    (post : α → Session σ → Prop) : Except SearchError α × Session σ → Prop
  | finished {a : α} {t : Session σ} (reached : p.Reaches allowed s t)
      (clean : t.refusals = s.refusals) (holds : post a t) : Ends p allowed s post (.ok a, t)
  | refused {e : SearchError} {t : Session σ} {order : List ℕ}
      {answer : Except SearchError Estimate} {journal : List Entry}
      (reached : p.Reaches allowed s t) (last : t.journal = .asked order answer :: journal)
      (refusal : answer.bind (Estimate.accepted order.length) = .error e)
      (clean : journal.filterMap Entry.refusal? = s.refusals) : Ends p allowed s post (.error e, t)

namespace Ends

variable {post : α → Session σ → Prop} {post' : β → Session σ → Prop}

theorem reaches {out : Except SearchError α × Session σ} (h : p.Ends allowed s post out) :
    p.Reaches allowed s out.2 := by
  cases h with
  | finished reached => exact reached
  | refused reached => exact reached

theorem pure {a : α} (h : post a s) : p.Ends allowed s post (.ok a, s) := .finished .refl rfl h

theorem mono {post' : α → Session σ → Prop} {out : Except SearchError α × Session σ}
    (h : p.Ends allowed s post out)
    (himp : ∀ a t, p.Reaches allowed s t → post a t → post' a t) : p.Ends allowed s post' out := by
  cases h with
  | finished reached clean holds => exact .finished reached clean (himp _ _ reached holds)
  | refused reached last refusal clean => exact .refused reached last refusal clean

theorem weaken {allowed' : Move → Prop} {out : Except SearchError α × Session σ}
    (h : p.Ends allowed s post out) (himp : ∀ m, allowed m → allowed' m) :
    p.Ends allowed' s post out := by
  cases h with
  | finished reached clean holds => exact .finished (reached.mono himp) clean holds
  | refused reached last refusal clean => exact .refused (reached.mono himp) last refusal clean

theorem trans {out : Except SearchError α × Session σ} (hreach : p.Reaches allowed s t)
    (hclean : t.refusals = s.refusals) (h : p.Ends allowed t post out) :
    p.Ends allowed s post out := by
  cases h with
  | finished reached clean holds => exact .finished (hreach.trans reached) (clean.trans hclean) holds
  | refused reached last refusal clean =>
    exact .refused (hreach.trans reached) last refusal (clean.trans hclean)

theorem bind {act : SearchM σ α} {next : α → SearchM σ β} (h : p.Ends allowed s post (act s))
    (hnext : ∀ a t, p.Reaches allowed s t → post a t → p.Ends allowed t post' (next a t)) :
    p.Ends allowed s post' ((act >>= next) s) := by
  rw [SearchM.bind_apply]
  generalize act s = out at h
  cases h with
  | finished reached clean holds => exact trans reached clean (hnext _ _ reached holds)
  | refused reached last refusal clean => exact .refused reached last refusal clean

end Ends

theorem refusals_canStop (p : Problem σ) (iteration : ℕ) (s : Session σ) :
    (p.canStop iteration s).2.refusals = s.refusals := by
  obtain ⟨stop, world, hstop, -⟩ := p.canStop_spec iteration s
  rw [hstop]
  exact List.filterMap_cons_none (Entry.refusal?_polled iteration stop)

theorem ends_canStop (iteration : ℕ) (s : Session σ) (h : allowed (.poll iteration)) :
    p.Ends allowed s
      (fun stop t ↦ (∃ world, t =
          { s with world, journal := .polled iteration stop :: s.journal }) ∧
        (stop = true → p.budget.isCheckPoint iteration = true ∧ s.bestCost?.isSome = true))
      ((liftM (p.canStop iteration) : SearchM σ Bool) s) := by
  obtain ⟨stop, world, hstop, hbest⟩ := p.canStop_spec iteration s
  change p.Ends allowed s _ (.ok (p.canStop iteration s).1, p.perform s (.poll iteration))
  refine .finished (.single h) (p.refusals_canStop iteration s) ?_
  rw [perform, hstop]
  exact ⟨⟨world, rfl⟩, hbest⟩

theorem ends_estimate (order : List ℕ) (s : Session σ) (h : allowed (.estimate order)) :
    p.Ends allowed s (fun _ _ ↦ True) (p.estimate order s) := by
  obtain ⟨answer, world, hest⟩ := p.estimate_spec order s
  have hreach : p.Reaches allowed s (p.estimate order s).2 := .single (m := .estimate order) h
  rw [hest] at hreach ⊢
  cases hacc : answer.bind (Estimate.accepted order.length) with
  | error e => exact .refused hreach rfl hacc rfl
  | ok e =>
    exact .finished hreach (List.filterMap_cons_none (Entry.refusal?_asked_eq_none hacc)) trivial

end Problem

end JoinOrder
