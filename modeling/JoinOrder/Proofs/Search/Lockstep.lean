import JoinOrder.Proofs.Search.Genetic
import JoinOrder.Proofs.Search.GraphGreedy
/-!
# Searches in lockstep

Two searches over the same operands may work with different oracles, or with the same ones in different
states. A search sees of its oracles only what they answer, and of its session only the best plan and the
journal. So if the oracles answer alike, from states that they keep in some relation, two runs of a search
go in lockstep: they do the same and have the same results.

The clocks can be let off. A search reads the clock only to look at its budget, so clocks that read
differently show at a look that tells the one run to stop and the other to go on, after which the two have
*parted*.

## How it is carried through a search

That runs go in lockstep is a property of two actions, `Lockstep`, closed under sequencing. To be so it has
to say beside it that an action only adds to the journal, since runs that have parted go on in different
ways, and the only thing left to say of them is that the look at the budget where they parted stays in
both journals.
-/

namespace JoinOrder

variable {σ τ : Type} {α β : Type}

/-! ## Oracles that answer alike -/

/-- From states in a relation two actions have the same result, and they come to states in the relation. -/
def Coupled (rel : σ → τ → Prop) (act : StateM σ α) (act' : StateM τ α) : Prop :=
  ∀ w w', rel w w' → (act.run w).1 = (act'.run w').1 ∧ rel (act.run w).2 (act'.run w').2

namespace Coupled

variable {rel : σ → τ → Prop}

theorem pure (a : α) : Coupled rel (Pure.pure a) (Pure.pure a) := fun _ _ hw ↦ ⟨rfl, hw⟩

theorem bind {act : StateM σ α} {act' : StateM τ α} {next : α → StateM σ β} {next' : α → StateM τ β}
    (h : Coupled rel act act') (hnext : ∀ a, Coupled rel (next a) (next' a)) :
    Coupled rel (act >>= next) (act' >>= next') := by
  intro w w' hw
  obtain ⟨heq, hrel⟩ := h w w' hw
  change (next (act.run w).1 (act.run w).2).1 = (next' (act'.run w').1 (act'.run w').2).1 ∧
    rel (next (act.run w).1 (act.run w).2).2 (next' (act'.run w').1 (act'.run w').2).2
  rw [heq]
  exact hnext _ _ _ hrel

theorem map {act : StateM σ α} {act' : StateM τ α} (h : Coupled rel act act') (f : α → β) :
    Coupled rel (f <$> act) (f <$> act') :=
  fun w w' hw ↦ ⟨congrArg f (h w w' hw).1, (h w w' hw).2⟩

theorem mapM {act : α → StateM σ β} {act' : α → StateM τ β} {as : List α}
    (h : ∀ a ∈ as, Coupled rel (act a) (act' a)) : Coupled rel (as.mapM act) (as.mapM act') := by
  induction as with
  | nil => exact .pure []
  | cons a as ih =>
    rw [List.mapM_cons, List.mapM_cons]
    refine (h a List.mem_cons_self).bind fun b ↦ ?_
    exact (ih fun a ha ↦ h a (List.mem_cons_of_mem _ ha)).bind fun bs ↦ .pure (b :: bs)

end Coupled

theorem GraphGreedy.coupled_order {rel : σ → τ → Prop} {source : RowSource σ} {source' : RowSource τ}
    {operands : List Operand} (h : ∀ o ∈ operands, Coupled rel (source o) (source' o)) (g : JoinGraph) :
    Coupled rel (order g source operands) (order g source' operands) :=
  ((Coupled.mapM h).bind fun _ ↦ .pure _).bind fun _ ↦ .pure _

/-- What two runs have in common. -/
structure Coupling (σ τ : Type) where
  /-- The states of the oracles that go together. -/
  rel : σ → τ → Prop
  /-- The clocks may read differently. -/
  mayPart : Prop

/-- Two clocks go on together, and read the same unless they may read differently. -/
def Coupling.Ticks (c : Coupling σ τ) (clock : StateM σ ℕ) (clock' : StateM τ ℕ) : Prop :=
  ∀ w w', c.rel w w' → ((clock.run w).1 = (clock'.run w').1 ∨ c.mayPart) ∧
    c.rel (clock.run w).2 (clock'.run w').2

/-- A problem with other oracles. -/
def Problem.under (p : Problem σ) (oracles' : Oracles τ) : Problem τ := { p with oracles := oracles' }

/-- Other oracles answer all that a search may ask as those of the problem do. -/
structure Problem.Agrees (c : Coupling σ τ) (p : Problem σ) (oracles' : Oracles τ) : Prop where
  estimate : ∀ order, Coupled c.rel (p.oracles.costModel.estimate (p.view order) p.isSelect)
    (oracles'.costModel.estimate (p.view order) p.isSelect)
  removeUnusable : ∀ order access, Coupled c.rel
    (p.oracles.costModel.removeUnusable (p.view order) access)
    (oracles'.costModel.removeUnusable (p.view order) access)
  rowCounts : ∀ o ∈ p.operands, Coupled c.rel (p.oracles.rowCounts o) (oracles'.rowCounts o)
  clock : c.Ticks p.oracles.clock oracles'.clock

/-! ## Oracles without memory -/

/-- The answer of an oracle does not depend on the state of the oracles. -/
def IsSteady (act : StateM σ α) : Prop := ∀ w w', (act.run w).1 = (act.run w').1

/-- The cost model and the row counts answer as functions of what they are asked. -/
structure Oracles.AreSteady (oracles : Oracles σ) : Prop where
  estimate : ∀ view isSelect, IsSteady (oracles.costModel.estimate view isSelect)
  removeUnusable : ∀ view access, IsSteady (oracles.costModel.removeUnusable view access)
  rowCounts : ∀ o, IsSteady (oracles.rowCounts o)

theorem Oracles.AreSteady.agrees {p : Problem σ} (h : p.oracles.AreSteady) :
    p.Agrees ⟨fun _ _ ↦ True, True⟩ p.oracles where
  estimate order _ _ _ := ⟨h.estimate (p.view order) p.isSelect _ _, trivial⟩
  removeUnusable order access _ _ _ := ⟨h.removeUnusable (p.view order) access _ _, trivial⟩
  rowCounts o _ _ _ _ := ⟨h.rowCounts o _ _, trivial⟩
  clock _ _ _ := ⟨Or.inr trivial, trivial⟩

/-! ## Sessions that are the same -/

namespace Session

/-- Two sessions that differ at most in the state of the oracles, where they have states that go together. -/
structure Same (rel : σ → τ → Prop) (s : Session σ) (s' : Session τ) : Prop where
  best : s.best? = s'.best?
  journal : s.journal = s'.journal
  world : rel s.world s'.world

namespace Same

variable {rel : σ → τ → Prop} {s : Session σ} {s' : Session τ}

theorem bestCost (h : Same rel s s') : s.bestCost? = s'.bestCost? := by
  rw [bestCost?, bestCost?, h.best]

theorem record (h : Same rel s s') (e : Entry) : Same rel (s.record e) (s'.record e) :=
  ⟨h.best, congrArg (e :: ·) h.journal, h.world⟩

theorem keep (h : Same rel s s') (plan : Plan) : Same rel (s.keep plan) (s'.keep plan) :=
  ⟨rfl, h.journal, h.world⟩

theorem isImprovedBy (h : Same rel s s') (cost : Cost) : s.isImprovedBy cost = s'.isImprovedBy cost := by
  rw [Session.isImprovedBy, Session.isImprovedBy, h.bestCost]

end Same

end Session

/-! ## Parting -/

/-- Two journals, written from the same beginning on up to a look at the budget that was answered
differently. -/
def Parted (journal journal' : List Entry) : Prop :=
  ∃ before iteration stop, (.polled iteration stop :: before) <:+ journal ∧
    (.polled iteration (!stop) :: before) <:+ journal'

theorem Parted.mono {journal journal' later later' : List Entry} (h : Parted journal journal')
    (hlater : journal <:+ later) (hlater' : journal' <:+ later') : Parted later later' := by
  obtain ⟨before, iteration, stop, hstop, hgo⟩ := h
  exact ⟨before, iteration, stop, hstop.trans hlater, hgo.trans hlater'⟩

/-- Two looks at the budget, after the same journal, are answered alike or are where the runs part. -/
theorem eq_or_parted (journal : List Entry) (iteration : ℕ) (stop stop' : Bool) :
    stop = stop' ∨ Parted (.polled iteration stop :: journal) (.polled iteration stop' :: journal) := by
  by_cases h : stop = stop'
  · exact Or.inl h
  · obtain rfl : (!stop) = stop' := by cases stop <;> cases stop' <;> simp at h ⊢
    exact Or.inr ⟨journal, iteration, stop, List.suffix_refl _, List.suffix_refl _⟩

/-- Two runs have the same result and go on alike, or they have parted. -/
inductive Alike (c : Coupling σ τ) : α × Session σ → α × Session τ → Prop
  | same {a : α} {s : Session σ} {s' : Session τ} (h : s.Same c.rel s') : Alike c (a, s) (a, s')
  | parted {out : α × Session σ} {out' : α × Session τ} (may : c.mayPart)
      (h : Parted out.2.journal out'.2.journal) : Alike c out out'

/-- Any runs of two actions from sessions that are the same are alike. -/
structure Lockstep (c : Coupling σ τ) (act : StateM (Session σ) α) (act' : StateM (Session τ) α) :
    Prop where
  suffix : ∀ s, s.journal <:+ (act s).2.journal
  suffix' : ∀ s, s.journal <:+ (act' s).2.journal
  alike : ∀ {s s'}, s.Same c.rel s' → Alike c (act s) (act' s')

namespace Lockstep

variable {c : Coupling σ τ}

theorem pure (a : α) : Lockstep c (fun s ↦ (a, s)) (fun s ↦ (a, s)) :=
  ⟨fun _ ↦ List.suffix_refl _, fun _ ↦ List.suffix_refl _, .same⟩

/-- **Lockstep is kept by sequencing**, for any way to go on from a result. -/
theorem andThen {act : StateM (Session σ) α} {act' : StateM (Session τ) α}
    {next : α → StateM (Session σ) β} {next' : α → StateM (Session τ) β} (h : Lockstep c act act')
    (hnext : ∀ a, Lockstep c (next a) (next' a)) :
    Lockstep c (fun s ↦ next (act s).1 (act s).2) (fun s ↦ next' (act' s).1 (act' s).2) := by
  refine ⟨fun s ↦ (h.suffix s).trans ((hnext _).suffix _),
    fun s ↦ (h.suffix' s).trans ((hnext _).suffix' _), fun {s s'} hsame ↦ ?_⟩
  have halike := h.alike hsame
  generalize act s = out at halike
  generalize act' s' = out' at halike
  cases halike with
  | same hsame => exact (hnext _).alike hsame
  | parted may hparted =>
    exact .parted may (hparted.mono ((hnext _).suffix _) ((hnext _).suffix' _))

theorem bind {act : StateM (Session σ) α} {act' : StateM (Session τ) α}
    {next : α → StateM (Session σ) β} {next' : α → StateM (Session τ) β} (h : Lockstep c act act')
    (hnext : ∀ a, Lockstep c (next a) (next' a)) : Lockstep c (act >>= next) (act' >>= next') :=
  h.andThen hnext

/-- Searches that go on with the result of another one, if there is one. -/
theorem bindExcept {act : SearchM σ α} {act' : SearchM τ α} {next : α → SearchM σ β}
    {next' : α → SearchM τ β} (h : Lockstep c act act') (hnext : ∀ a, Lockstep c (next a) (next' a)) :
    Lockstep c (act >>= next : SearchM σ β) (act' >>= next' : SearchM τ β) := by
  change Lockstep c (fun s ↦ ExceptT.bindCont next (act s).1 (act s).2)
    (fun s ↦ ExceptT.bindCont next' (act' s).1 (act' s).2)
  refine h.andThen fun result ↦ ?_
  cases result with
  | error e => exact .pure (Except.error e)
  | ok a => exact hnext a

theorem lift {act : StateM (Session σ) α} {act' : StateM (Session τ) α} (h : Lockstep c act act') :
    Lockstep c (liftM act : SearchM σ α) (liftM act' : SearchM τ α) :=
  h.andThen fun a ↦ .pure (Except.ok a)

end Lockstep

/-! ## What a search does with its session -/

namespace Problem

variable {c : Coupling σ τ} {p : Problem σ} {oracles' : Oracles τ}

theorem suffix_canStop (p : Problem σ) (iteration : ℕ) (s : Session σ) :
    s.journal <:+ (p.canStop iteration s).2.journal := by
  obtain ⟨stop, world, hstop, -⟩ := p.canStop_spec iteration s
  rw [hstop]
  exact List.suffix_cons _ _

theorem alike_polled {s : Session σ} {s' : Session τ} (hsame : s.Same c.rel s') (iteration : ℕ)
    {stop stop' : Bool} (hstop : stop = stop' ∨ c.mayPart) :
    Alike c (stop, s.record (.polled iteration stop)) (stop', s'.record (.polled iteration stop')) := by
  rcases hstop with rfl | may
  · exact .same (hsame.record _)
  · rcases eq_or_parted s'.journal iteration stop stop' with rfl | hparted
    · exact .same (hsame.record _)
    · refine .parted may ?_
      rw [Session.record, hsame.journal]
      exact hparted

theorem lockstep_canStop (h : p.Agrees c oracles') (iteration : ℕ) :
    Lockstep c (p.canStop iteration) ((p.under oracles').canStop iteration) := by
  refine ⟨p.suffix_canStop iteration, (p.under oracles').suffix_canStop iteration,
    fun {s s'} hsame ↦ ?_⟩
  have hbudget : (p.under oracles').budget = p.budget := rfl
  unfold canStop
  rw [hbudget, hsame.bestCost]
  split
  · obtain ⟨hread, hrel⟩ := h.clock s.world s'.world hsame.world
    have hsame' : Session.Same c.rel { s with world := (p.oracles.clock.run s.world).2 }
        { s' with world := (oracles'.clock.run s'.world).2 } := ⟨hsame.best, hsame.journal, hrel⟩
    refine alike_polled hsame' iteration (hread.imp_left fun hread ↦ ?_)
    change p.budget.canStopAfter iteration s.bestCost? (p.oracles.clock.run s.world).1 =
      p.budget.canStopAfter iteration s'.bestCost? (oracles'.clock.run s'.world).1
    rw [hread, hsame.bestCost]
  · exact .same (hsame.record _)

theorem lockstep_consult {act : StateM σ α} {act' : StateM τ α} (h : Coupled c.rel act act') :
    Lockstep c (Session.consult act) (Session.consult act') := by
  refine ⟨fun s ↦ List.suffix_refl _, fun s ↦ List.suffix_refl _, fun {s s'} hsame ↦ ?_⟩
  obtain ⟨heq, hrel⟩ := h s.world s'.world hsame.world
  change Alike c ((act.run s.world).1, _) ((act'.run s'.world).1, _)
  rw [heq]
  exact .same ⟨hsame.best, hsame.journal, hrel⟩

theorem lockstep_record (e : Entry) (a : α) :
    Lockstep c (fun s ↦ (a, s.record e)) (fun s ↦ (a, s.record e)) :=
  ⟨fun _ ↦ List.suffix_cons _ _, fun _ ↦ List.suffix_cons _ _, fun hsame ↦ .same (hsame.record e)⟩

theorem lockstep_estimate (h : p.Agrees c oracles') (order : List ℕ) :
    Lockstep c (p.estimate order) ((p.under oracles').estimate order) :=
  (lockstep_consult (h.estimate order)).andThen fun answer ↦
    lockstep_record (.asked order answer) (answer.bind (Estimate.accepted order.length))

theorem lockstep_stop (id : StrategyId) (iterations : ℕ) (outOfTime : Bool) :
    Lockstep c (Session.stop id iterations outOfTime : SearchM σ Unit)
      (Session.stop id iterations outOfTime : SearchM τ Unit) := lockstep_record _ _

/-- What a test makes of an accepted estimate. -/
private def settle (id : StrategyId) (order : List ℕ) (e : Estimate) : SearchM σ Bool := fun s ↦
  if (s.record (.scored id order e)).isImprovedBy e.cost = true then
    (.ok true, ((s.record (.scored id order e)).keep (Plan.scored order e)).record
      (.improved id order e.cost))
  else (.ok false, s.record (.scored id order e))

private theorem suffix_settle (id : StrategyId) (order : List ℕ) (e : Estimate) (s : Session σ) :
    s.journal <:+ (settle id order e s).2.journal := by
  unfold settle
  split
  · exact (List.suffix_cons _ _).trans (List.suffix_cons _ _)
  · exact List.suffix_cons _ _

private theorem lockstep_settle (id : StrategyId) (order : List ℕ) (e : Estimate) :
    Lockstep c (settle id order e) (settle id order e) := by
  refine ⟨suffix_settle id order e, suffix_settle id order e, fun {s s'} hsame ↦ ?_⟩
  have hscored := hsame.record (.scored id order e)
  unfold settle
  rw [hscored.isImprovedBy]
  split
  · exact .same ((hscored.keep _).record _)
  · exact .same hscored

private theorem test_eq_bind (p : Problem σ) (id : StrategyId) (order : List ℕ) :
    p.test id order = (p.estimate order >>= settle id order : SearchM σ Bool) := by
  funext s
  rw [SearchM.bind_apply, test]
  rcases p.estimate order s with ⟨e | e, t⟩ <;> rfl

theorem lockstep_test (h : p.Agrees c oracles') (id : StrategyId) (order : List ℕ) :
    Lockstep c (p.test id order) ((p.under oracles').test id order) := by
  rw [test_eq_bind, test_eq_bind]
  exact (lockstep_estimate h order).bindExcept (lockstep_settle id order)

end Problem

/-! ## Strategies -/

section

open Problem

variable {c : Coupling σ τ} {p : Problem σ} {oracles' : Oracles τ} (h : p.Agrees c oracles')
include h

namespace Sweep

theorem lockstep_sweepFrom (id : StrategyId) {complete : List ℕ → SearchM σ (List ℕ)}
    {complete' : List ℕ → SearchM τ (List ℕ)}
    (hcomplete : ∀ head, Lockstep c (complete head) (complete' head)) (turns : ℕ)
    (heads : Enumeration) (iteration : ℕ) :
    Lockstep c (sweepFrom p id complete turns heads iteration)
      (sweepFrom (p.under oracles') id complete' turns heads iteration) := by
  induction turns generalizing heads iteration with
  | zero => exact .pure _
  | succ turns ih =>
    rw [sweepFrom, sweepFrom]
    refine (lockstep_canStop h iteration).lift.bindExcept fun stop ↦ ?_
    cases stop with
    | true => exact .pure _
    | false =>
      rcases heads.next with ⟨_ | head, heads⟩
      · exact .pure _
      · refine (hcomplete head).bindExcept fun order ↦ ?_
        exact (lockstep_test h id order).bindExcept fun _ ↦ ih heads (iteration + 1)

theorem lockstep_sweep (id : StrategyId) (length : ℕ) {complete : List ℕ → SearchM σ (List ℕ)}
    {complete' : List ℕ → SearchM τ (List ℕ)}
    (hcomplete : ∀ head, Lockstep c (complete head) (complete' head)) :
    Lockstep c (sweep p id length complete) (sweep (p.under oracles') id length complete') :=
  (lockstep_sweepFrom h id hcomplete _ _ 0).bindExcept fun _ ↦ lockstep_stop id _ _

theorem lockstep_cheapestFrom (order : List ℕ) (best? : Option (ℕ × Cost)) (ids : List ℕ) :
    Lockstep c (cheapestFrom p order best? ids) (cheapestFrom (p.under oracles') order best? ids) := by
  induction ids generalizing best? with
  | nil => exact .pure _
  | cons id ids ih =>
    rw [cheapestFrom, cheapestFrom]
    exact (lockstep_estimate h _).bindExcept fun e ↦ ih _

theorem lockstep_completeFrom (positions : ℕ) (order unused : List ℕ) :
    Lockstep c (completeFrom p positions order unused)
      (completeFrom (p.under oracles') positions order unused) := by
  induction positions, order, unused using completeFrom.induct with
  | case1 order unused => exact .pure _
  | case2 order => exact .pure _
  | case3 order id rest => exact .pure _
  | case4 positions order unused ih =>
    rw [completeFrom, completeFrom]
    refine (lockstep_cheapestFrom h order none unused).bindExcept fun result? ↦ ?_
    cases result? with
    | none => exact .pure _
    | some best => exact ih best.1

end Sweep

namespace Genetic

variable {ρ : Type} [RandomSource ρ]

theorem lockstep_searchFrom (left iteration : ℕ) (anchor : List ℕ) (g : Genetic ρ) :
    Lockstep c (searchFrom p left iteration anchor g)
      (searchFrom (p.under oracles') left iteration anchor g) := by
  induction left generalizing iteration anchor g with
  | zero => exact .pure _
  | succ left ih =>
    rw [searchFrom, searchFrom]
    refine (lockstep_canStop h iteration).bind fun stop ↦ ?_
    cases stop with
    | true => exact .pure _
    | false =>
      refine (lockstep_test h .genetic _).bind fun result ↦ ?_
      rcases result with e | improved
      · exact .pure _
      · cases improved with
        | true => exact ih _ _ _
        | false => exact ih _ _ _

theorem lockstep_search (g : Genetic ρ) : Lockstep c (g.search p) (g.search (p.under oracles')) := by
  rw [search, search]
  refine (lockstep_searchFrom h _ 0 _ g).bind fun result ↦ ?_
  rcases result with ⟨e | ⟨iterations, outOfTime⟩, g⟩
  · exact .pure _
  · exact (lockstep_stop .genetic iterations outOfTime).bind fun result ↦ .pure _

end Genetic

theorem GraphGreedy.lockstep_search : Lockstep c (search p) (search (p.under oracles')) := by
  have horder : Coupled c.rel (order (graphOf p) p.oracles.rowCounts p.operands)
      (order (graphOf p) oracles'.rowCounts p.operands) := coupled_order h.rowCounts _
  refine (lockstep_consult horder).lift.bindExcept fun order ↦ ?_
  exact (lockstep_test h .graphGreedy order).bindExcept fun _ ↦ lockstep_stop .graphGreedy 1 false

theorem Strategy.lockstep_searchTrivial :
    Lockstep c (searchTrivial p) (searchTrivial (p.under oracles')) :=
  (lockstep_test h .trivial _).bindExcept fun _ ↦ lockstep_stop .trivial 1 false

/-- **Every strategy goes in lockstep.** -/
theorem Strategy.lockstep_search {ρ : Type} [RandomSource ρ] (strategy : Strategy ρ) :
    Lockstep c (strategy.search p) (strategy.search (p.under oracles')) := by
  cases strategy with
  | trivial => exact (lockstep_searchTrivial h).bind fun _ ↦ .pure _
  | graphGreedy => exact (GraphGreedy.lockstep_search h).bind fun _ ↦ .pure _
  | exhaustive => exact (Sweep.lockstep_sweep h _ _ fun _ ↦ .pure _).bind fun _ ↦ .pure _
  | bruteForce length? =>
    exact (Sweep.lockstep_sweep h _ _ fun _ ↦ Sweep.lockstep_completeFrom h _ _ _).bind fun _ ↦ .pure _
  | genetic g => exact (Genetic.lockstep_search h g).bind fun _ ↦ .pure _

end

end JoinOrder
