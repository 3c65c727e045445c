import JoinOrder.Proofs.NestedLoop
import JoinOrder.Proofs.RowMemo
import JoinOrder.Proofs.TwoRuns
/-!
# Searches with a memo

The greedy order and the nested loop model may share one memo, and each finds there what the other has asked.
All that either does with row counts is to look up the operands of the query. So if the memo answers these as
the table behind it does, both do what they would do with the table, and a run of an optimizer over them is
the same.
-/

namespace JoinOrder

variable {σ τ ρ : Type}

/-! ## What is made of lookups -/

namespace NestedLoop

variable {rel : σ → τ → Prop} {source : RowSource σ} {source' : RowSource τ}

/-- Nested loops ask for the row counts of their operands, and for nothing else. -/
theorem coupled_nestAll {operands : List Operand}
    (h : ∀ o ∈ operands, Coupled rel (source o) (source' o)) (m : NestedLoop) (l : Loops) :
    Coupled rel (m.nestAll source l operands) (m.nestAll source' l operands) := by
  induction operands generalizing l with
  | nil => exact .pure l
  | cons o operands ih =>
    rw [nestAll, nestAll]
    refine (h o List.mem_cons_self).bind fun count ↦ ?_
    exact ih (fun o' ho' ↦ h o' (List.mem_cons_of_mem _ ho')) _

theorem coupled_costModel {v : PlanView} (h : ∀ o ∈ v.operands, Coupled rel (source o) (source' o))
    (m : NestedLoop) (isSelect : Bool) :
    Coupled rel ((m.costModel source).estimate v isSelect) ((m.costModel source').estimate v isSelect) := by
  dsimp only [costModel]
  cases hjoined : v.joined with
  | error e => exact .pure _
  | ok operands =>
    have hoperands (o : Operand) (ho : o ∈ operands) : Coupled rel (source o) (source' o) :=
      h o (joined_subset hjoined ho)
    exact ((coupled_nestAll hoperands m {}).bind fun l ↦ .pure _).map _

/-- The oracles of a search over one source of row counts. -/
def oracles (m : NestedLoop) (source : RowSource σ) (clock : StateM σ ℕ) : Oracles σ where
  costModel := m.costModel source
  rowCounts := source
  clock

end NestedLoop

/-- A use of row counts. -/
inductive Query where
  /-- The greedy order of the operands by a join graph. -/
  | order (g : JoinGraph)
  /-- The estimate of a nested loop model for an order. -/
  | estimate (m : NestedLoop) (order : List ℕ) (condition? : Option Condition) (isSelect : Bool)

namespace Query

/-- The answer to a query. -/
inductive Answer where
  /-- An order of the operands. -/
  | order (order : List ℕ)
  /-- The answer of a cost model. -/
  | estimate (answer : Except SearchError Estimate)

/-- Use a source of row counts for a query about some operands. -/
def ask (source : RowSource σ) (operands : List Operand) : Query → StateM σ Answer
  | order g => Answer.order <$> GraphGreedy.order g source operands
  | estimate m ids condition? isSelect =>
    Answer.estimate <$> (m.costModel source).estimate ⟨operands, ids, condition?⟩ isSelect

theorem coupled_ask {rel : σ → τ → Prop} {source : RowSource σ} {source' : RowSource τ}
    {operands : List Operand} (h : ∀ o ∈ operands, Coupled rel (source o) (source' o)) (query : Query) :
    Coupled rel (query.ask source operands) (query.ask source' operands) := by
  cases query with
  | order g => exact (GraphGreedy.coupled_order h g).map _
  | estimate m ids condition? isSelect =>
    have hv : ∀ o ∈ (PlanView.mk operands ids condition?).operands,
        Coupled rel (source o) (source' o) := h
    exact (NestedLoop.coupled_costModel hv m isSelect).map _

end Query

namespace RowMemo

open Optimizer

/-- A clock that leaves a memo and a list of questions alone. -/
def besideMemo (clock : StateM σ ℕ) : StateM (RowMemo × List Operand × σ) ℕ := fun (memo, asked, s) ↦
  let (nanos, s) := clock s
  (nanos, memo, asked, s)

/-- **All use of row counts is the same through the memo.** -/
theorem coupled_queries {r : RowCounts} {operands : List Operand} (h : r.RespectsIdentity operands)
    (ticks : σ → τ → Prop) (queries : List Query) :
    Coupled (Matches r operands ticks) (queries.mapM (Query.ask r.source operands))
      (queries.mapM (Query.ask (before r.noting) operands)) :=
  .mapM fun query _ ↦ query.coupled_ask fun _ ↦ coupled_before h ticks

theorem agrees_before {r : RowCounts} {o : Optimizer} (h : r.RespectsIdentity o.operands)
    {c : Coupling σ τ} {clock : StateM σ ℕ} {clock' : StateM τ ℕ} (hclock : c.Ticks clock clock')
    (m : NestedLoop) (isSelect : Bool) :
    (o.problem (m.oracles r.source clock) isSelect).Agrees ⟨Matches r o.operands c.rel, c.mayPart⟩
      (m.oracles (before r.noting) (besideMemo clock')) where
  estimate order := NestedLoop.coupled_costModel (fun _ ↦ coupled_before h c.rel) m isSelect
  removeUnusable order access := .pure _
  rowCounts _ := coupled_before h c.rel
  clock := by
    rintro w ⟨memo, asked, w'⟩ ⟨hmemo, hticks⟩
    obtain ⟨hread, hticks⟩ := hclock w w' hticks
    exact ⟨hread, hmemo, hticks⟩

/-! ## A memo for a whole run -/

section

variable [RandomSource ρ] {r : RowCounts} {o : Optimizer} (h : r.RespectsIdentity o.operands)
include h

theorem alike_before {c : Coupling σ τ} {clock : StateM σ ℕ} {clock' : StateM τ ℕ}
    (hclock : c.Ticks clock clock') {w : σ} {w' : τ} (hw : c.rel w w') (m : NestedLoop)
    (parseOnly isSelect : Bool) :
    (optimizeWith ρ (m.oracles r.source clock) parseOnly isSelect o w).Alike
      ⟨Matches r o.reset.operands c.rel, c.mayPart⟩
      (optimizeWith ρ (m.oracles (before r.noting) (besideMemo clock')) parseOnly isSelect o
        ({}, [], w')) :=
  alike_optimizeWith (agrees_before h.map_reset hclock m isSelect) ⟨.empty, hw⟩ parseOnly

theorem same_before (m : NestedLoop) (clock : StateM σ ℕ) (w : σ) (parseOnly isSelect : Bool) :
    (optimizeWith ρ (m.oracles r.source clock) parseOnly isSelect o w).Same
      (Matches r o.reset.operands Eq)
      (optimizeWith ρ (m.oracles (before r.noting) (besideMemo clock)) parseOnly isSelect o
        ({}, [], w)) := by
  have hclock : Coupling.Ticks ⟨Eq, False⟩ clock clock := by
    rintro w _ rfl
    exact ⟨Or.inl rfl, rfl⟩
  exact (alike_before h hclock rfl m parseOnly isSelect).same_of_polls False.elim

theorem same_before_of_polls (m : NestedLoop) (clock clock' : StateM σ ℕ) (w w' : σ)
    (parseOnly isSelect : Bool)
    (hpolls : ∀ (i : ℕ) (stop stop' : Bool),
      (optimizeWith ρ (m.oracles r.source clock) parseOnly isSelect o w).polls[i]? = some stop →
      (optimizeWith ρ (m.oracles (before r.noting) (besideMemo clock')) parseOnly isSelect o
        ({}, [], w')).polls[i]? = some stop' → stop = stop') :
    (optimizeWith ρ (m.oracles r.source clock) parseOnly isSelect o w).Same
      (Matches r o.reset.operands fun _ _ ↦ True)
      (optimizeWith ρ (m.oracles (before r.noting) (besideMemo clock')) parseOnly isSelect o
        ({}, [], w')) := by
  have hclock : Coupling.Ticks ⟨fun _ _ ↦ True, True⟩ clock clock' :=
    fun _ _ _ ↦ ⟨Or.inr trivial, trivial⟩
  exact (alike_before h hclock trivial m parseOnly isSelect).same_of_polls fun _ ↦ hpolls

end

/-- **A memo before a table of counts makes no difference**, if operands of the same identity have the same
count in it. Greedy orders and nested loop estimates share one memo and have the answers of the bare table,
in any order of asking; so has a run of an optimizer over both, as far as the clock tells it the same. The table
is asked at most once about each identity. And however a table changes between lookups, a memo keeps to the
count that it had at the first lookup of an identity. -/
theorem memo_refines_table [RandomSource ρ] (r : RowCounts) (o : Optimizer) :
    (r.RespectsIdentity o.operands →
      (∀ (queries : List Query) (w : σ),
        let out := (queries.mapM (Query.ask (before r.noting) o.operands)).run ({}, [], w)
        out.1 = ((queries.mapM (Query.ask r.source o.operands)).run w).1 ∧
          (out.2.2.1.map Operand.identity).Nodup) ∧
      ∀ (m : NestedLoop) (clock clock' : StateM σ ℕ) (w w' : σ) (parseOnly isSelect : Bool),
        let bare := optimizeWith ρ (m.oracles r.source clock) parseOnly isSelect o w
        let out := optimizeWith ρ (m.oracles (before r.noting) (besideMemo clock')) parseOnly isSelect o
          ({}, [], w')
        (out.world.2.1.map Operand.identity).Nodup ∧
          ((clock = clock' ∧ w = w') ∨ (∀ (i : ℕ) (stop stop' : Bool), bare.polls[i]? = some stop →
              out.polls[i]? = some stop' → stop = stop') →
            out.result = bare.result ∧ out.optimizer = bare.optimizer ∧ out.history = bare.history)) ∧
    ∀ steps : List (RowCounts × Operand), ((steps.mapM lookUp).run {}).1.map some =
      steps.map fun step ↦ (steps.find? fun first ↦ first.2.identity = step.2.identity).map
        fun first ↦ first.1.ofOperand first.2 := by
  refine ⟨fun h ↦ ⟨fun queries w ↦ ?_, fun m clock clock' w w' parseOnly isSelect ↦ ?_⟩, fun steps ↦ ?_⟩
  · obtain ⟨hanswers, hmemo, -⟩ := coupled_queries h Eq queries w ({}, [], w) ⟨.empty, rfl⟩
    exact ⟨hanswers.symm, hmemo.nodup⟩
  · refine ⟨(same_before h m clock' w' parseOnly isSelect).world.1.nodup, ?_⟩
    rintro (⟨rfl, rfl⟩ | hpolls)
    · have hsame := same_before (ρ := ρ) h m clock w parseOnly isSelect
      exact ⟨hsame.result.symm, hsame.optimizer.symm, hsame.history.symm⟩
    · have hsame := same_before_of_polls (ρ := ρ) h m clock clock' w w' parseOnly isSelect hpolls
      exact ⟨hsame.result.symm, hsame.optimizer.symm, hsame.history.symm⟩
  · rw [run_mapM_lookUp]
    rfl

/-- Two operands that go by one name: a table, and another one under its name. -/
def sharedName : Optimizer where
  operands := [{ table := "staff" }, { table := "people", alias? := some "staff" }]
  condition? := none
  config := {}

/-- The greedy order asks about the first operand, and all else is answered from the memo. -/
theorem memo_sharedName :
    let r : RowCounts := ⟨[("staff", 7)]⟩
    let m : NestedLoop := { graph := .ofPairs [], depth := fun _ ↦ 3.0 }
    let out := optimizeWith ChaCha (m.oracles (before r.noting) (besideMemo (pure 0))) false true
      sharedName ({}, [], ())
    r.RespectsIdentity sharedName.operands ∧
      out.optimizer.plan?.map (fun plan ↦ (plan.order, plan.access)) =
        some ([0, 1], [.fullScan, .fullScan]) ∧
      out.world.2.1.map Operand.identity = ["staff"] := by
  intro r m out
  have hrespects : r.RespectsIdentity sharedName.operands := by decide
  have hbare : (optimizeWith ChaCha (m.oracles r.source (pure 0)) false true sharedName
      ()).optimizer.plan?.map (fun plan ↦ (plan.order, plan.access)) =
        some ([0, 1], [.fullScan, .fullScan]) := by
    decide +kernel
  have hasked : out.world.2.1.map Operand.identity = ["staff"] := by decide +kernel
  obtain ⟨-, hrun⟩ := (memo_refines_table (σ := Unit) (ρ := ChaCha) r sharedName).1 hrespects
  obtain ⟨-, hsame⟩ := hrun m (pure 0) (pure 0) () () false true
  have hoptimizer : out.optimizer = _ := (hsame (Or.inl ⟨rfl, rfl⟩)).2.1
  rw [hoptimizer]
  exact ⟨hrespects, hbare, hasked⟩

end RowMemo

end JoinOrder
