import JoinOrder.Proofs.Optimize
import JoinOrder.Proofs.TwoRuns
/-!
# Runs one after another

An optimizer may be run any number of times. Each run starts by taking back what the run before it
committed, and makes its strategies, their random words included, anew. So nothing of the earlier runs
is left for a run to see, whether they succeeded or failed: it does what it would do for an optimizer
freshly made for the same operands.

Two things outside of the optimizer are left, the state of the oracles and the clock. The first one is
put aside by oracles that answer as functions of what they are asked. The clock is not: the statement
assumes that the looks at the budget are answered alike, as far as both runs make them.
-/

namespace JoinOrder

variable {σ ρ : Type}

namespace Optimizer

variable [RandomSource ρ] {oracles : Oracles σ}

/-! ## One run, twice -/

/-- A run of an optimizer is the same whatever state the oracles are in, or the looks at the budget
are answered differently. -/
theorem optimizeWith_same_or_parted (h : oracles.AreSteady) (parseOnly isSelect : Bool)
    (o : Optimizer) (w w' : σ) :
    (optimizeWith ρ oracles parseOnly isSelect o w).Same (fun _ _ ↦ True)
        (optimizeWith ρ oracles parseOnly isSelect o w') ∨
      Parted (optimizeWith ρ oracles parseOnly isSelect o w).history.reverse
        (optimizeWith ρ oracles parseOnly isSelect o w').history.reverse := by
  have halike : (optimizeWith ρ oracles parseOnly isSelect o w).Alike ⟨fun _ _ ↦ True, True⟩
      (optimizeWith ρ oracles parseOnly isSelect o w') := alike_optimizeWith h.agrees trivial parseOnly
  cases halike with
  | same hsame => exact Or.inl hsame
  | parted _ hparted => exact Or.inr hparted

/-! ## What is left of earlier runs -/

theorem map_reset_commit (operands : List Operand) (plan : Plan) :
    (commit operands plan).map Operand.reset = operands.map Operand.reset := by
  rw [commit, map_assign fun _ _ ↦ rfl, map_link fun _ _ ↦ rfl]

theorem map_reset_reset (operands : List Operand) :
    (operands.map Operand.reset).map Operand.reset = operands.map Operand.reset := by
  rw [List.map_map]
  rfl

/-- A run leaves nothing behind that the reset before the next one does not take back. -/
theorem reset_optimizeWith (oracles : Oracles σ) (parseOnly isSelect : Bool) (o : Optimizer)
    (world : σ) : (optimizeWith ρ oracles parseOnly isSelect o world).optimizer.reset = o.reset := by
  by_cases hempty : o.operands = []
  · rw [optimizeWith, if_pos (List.isEmpty_iff.mpr hempty)]
  · cases parseOnly with
    | true =>
      obtain ⟨top, rest, -, hrun⟩ :=
        @optimizeWith_parseOnly σ ρ _ oracles isSelect o world hempty
      rw [hrun]
      simp only [reset, map_reset_commit, map_reset_reset]
    | false =>
      cases concludes_optimizeWith (ρ := ρ) oracles isSelect world hempty with
      | refused calls refusal clean result optimizer =>
        rw [optimizer]
        simp only [reset, map_reset_reset]
      | committed clean complete order result optimizer =>
        rw [optimizer]
        simp only [reset, map_reset_commit, map_reset_reset]

/-- A run to be made: what it is asked for, and the state the oracles are in by then. -/
structure Request (σ : Type) where
  /-- The operands are only checked. -/
  parseOnly : Bool
  /-- The query is a selection. -/
  isSelect : Bool
  /-- The state of the oracles. -/
  world : σ

/-- The optimizer after a list of runs. -/
def rerun (ρ : Type) [RandomSource ρ] (oracles : Oracles σ) (o : Optimizer)
    (requests : List (Request σ)) : Optimizer :=
  requests.foldl
    (fun o r ↦ (optimizeWith ρ oracles r.parseOnly r.isSelect o r.world).optimizer) o

theorem rerun_cons (oracles : Oracles σ) (o : Optimizer) (r : Request σ) (rest : List (Request σ)) :
    rerun ρ oracles o (r :: rest) =
      rerun ρ oracles (optimizeWith ρ oracles r.parseOnly r.isSelect o r.world).optimizer rest := rfl

theorem reset_rerun (oracles : Oracles σ) (o : Optimizer) (requests : List (Request σ)) :
    (rerun ρ oracles o requests).reset = o.reset := by
  induction requests generalizing o with
  | nil => rfl
  | cons r rest ih => rw [rerun_cons, ih, reset_optimizeWith]

theorem rerun_of_isEmpty (oracles : Oracles σ) {o : Optimizer} (h : o.operands.isEmpty = true)
    (requests : List (Request σ)) : rerun ρ oracles o requests = o := by
  induction requests with
  | nil => rfl
  | cons r rest ih => rw [rerun_cons, optimizeWith, if_pos h, ih]

theorem isEmpty_operands_reset (o : Optimizer) : o.reset.operands.isEmpty = o.operands.isEmpty :=
  List.isEmpty_map

theorem optimizeWith_congr (oracles : Oracles σ) (parseOnly isSelect : Bool) {o o' : Optimizer}
    (hreset : o.reset = o'.reset) (hempty : ¬o.operands.isEmpty = true) (world : σ) :
    optimizeWith ρ oracles parseOnly isSelect o world =
      optimizeWith ρ oracles parseOnly isSelect o' world := by
  have hempty' : ¬o'.operands.isEmpty = true := by
    rwa [← isEmpty_operands_reset, ← hreset, isEmpty_operands_reset]
  rw [optimizeWith, optimizeWith, if_neg hempty, if_neg hempty', hreset]

/-- **A run does not depend on the runs before it.** Whatever an optimizer was run for before, and
whatever was committed to its operands when it was made, the next run has the result, leaves the
optimizer and writes the history that it would for an optimizer just made over operands with nothing
committed to them. -/
theorem optimizeWith_rerun (h : oracles.AreSteady) (operands : List Operand)
    (condition? : Option Condition) (config : Config) (requests : List (Request σ))
    (parseOnly isSelect : Bool) (world world' : σ) {out fresh : Outcome σ}
    (hout : optimizeWith ρ oracles parseOnly isSelect
      (rerun ρ oracles { operands, condition?, config } requests) world = out)
    (hfresh : optimizeWith ρ oracles parseOnly isSelect
      { operands := operands.map Operand.reset, condition?, config } world' = fresh)
    (hpolls : ∀ (i : ℕ) (stop stop' : Bool), out.polls[i]? = some stop → fresh.polls[i]? = some stop' →
      stop = stop') :
    out.result = fresh.result ∧ out.optimizer = fresh.optimizer ∧ out.history = fresh.history := by
  have hsame : optimizeWith ρ oracles parseOnly isSelect
      (rerun ρ oracles { operands, condition?, config } requests) world =
      optimizeWith ρ oracles parseOnly isSelect
        { operands := operands.map Operand.reset, condition?, config } world := by
    by_cases hempty : operands.isEmpty = true
    · rw [rerun_of_isEmpty oracles hempty, List.isEmpty_iff.mp hempty, List.map_nil]
    · refine optimizeWith_congr oracles parseOnly isSelect ?_ ?_ world
      · rw [reset_rerun]
        simp only [reset, map_reset_reset]
      · rwa [← isEmpty_operands_reset, reset_rerun, isEmpty_operands_reset]
  rw [hsame] at hout
  rcases optimizeWith_same_or_parted (ρ := ρ) h parseOnly isSelect
    { operands := operands.map Operand.reset, condition?, config } world world' with hsame | hparted
  · rw [hout, hfresh] at hsame
    exact ⟨hsame.result, hsame.optimizer, hsame.history⟩
  · rw [hout, hfresh] at hparted
    obtain ⟨i, stop, hstop, hstop'⟩ := hparted.exists_polls
    rw [List.reverse_reverse] at hstop hstop'
    exact absurd (hpolls i stop (!stop) hstop hstop') (by cases stop <;> decide)

/-- Oracles that fail for selections and for which every other plan costs nothing. They count the
estimates asked, and their clock shows the count. -/
def refusingSelections : Oracles ℕ where
  costModel :=
    { estimate := fun view isSelect asked ↦
        (if isSelect then .error (.modelFailure "No statistics")
          else .ok ⟨Cost.zero, view.order.map fun _ ↦ .fullScan⟩, asked + 1) }
  rowCounts := RowCounts.source {}
  clock := fun asked ↦ (asked, asked)

theorem areSteady_refusingSelections : refusingSelections.AreSteady where
  estimate _ _ _ _ := rfl
  removeUnusable _ _ _ _ := rfl
  rowCounts _ _ _ := rfl

/-- A run after a check of the operands, a failure and a success, with clocks that differ. -/
theorem rerun_crossLinked :
    let earlier := rerun ChaCha refusingSelections crossLinked
      [⟨true, false, 0⟩, ⟨false, true, 0⟩, ⟨false, false, 1⟩]
    let out := optimizeWith ChaCha refusingSelections false false earlier 7
    let fresh := optimizeWith ChaCha refusingSelections false false
      { crossLinked with operands := crossLinked.operands.map Operand.reset } 0
    refusingSelections.AreSteady ∧ out.polls = fresh.polls ∧ out.result = fresh.result ∧
      out.optimizer = fresh.optimizer ∧ out.history = fresh.history := by
  intro earlier out fresh
  have hpolls : out.polls = fresh.polls := by decide +kernel
  refine ⟨areSteady_refusingSelections, hpolls, ?_⟩
  refine optimizeWith_rerun areSteady_refusingSelections _ none _ _ false false 7 0 rfl rfl ?_
  intro i stop stop' hstop hstop'
  change out.polls[i]? = some stop at hstop
  change fresh.polls[i]? = some stop' at hstop'
  rw [hpolls, hstop'] at hstop
  exact (Option.some.inj hstop).symm

end Optimizer

end JoinOrder
