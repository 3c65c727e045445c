import JoinOrder.Proofs.Answered
import JoinOrder.Proofs.NestedLoop
import JoinOrder.Proofs.Rounding
/-!
# The costs of nested loops

Whatever the row counts are, each loop yields at least one row, and what a loop costs is at least one. So
the costs add up to a cost that a search accepts. Neither is lost to rounding, nor when the rows grow beyond
every finite number: then they are infinite, and so is the cost.

Hence a nested loop model answers whatever a search may ask it, and a run over it never fails. All that is
asked of the logarithm is that it is not negative from one on.
-/

namespace JoinOrder

variable {σ ρ : Type}

namespace NestedLoop

open Rounding

/-! ## The invariant of the loops -/

theorem one_le_rows (count : ℕ) : 1.0 ≤ rows count :=
  one_le_ofNat (Nat.lt_of_lt_of_le Nat.one_pos (Nat.le_max_right count 1))

/-- What loops keep to: their cost is accepted, and they yield at least one row. -/
structure Loops.IsSound (l : Loops) : Prop where
  cost : l.cost.isValid = true
  outerRows : 1.0 ≤ l.outerRows

theorem Loops.isSound_empty : ({} : Loops).IsSound := by
  constructor <;> decide +kernel

section

variable {m : NestedLoop} (hdepth : ∀ rows : Float, 1.0 ≤ rows → 0.0 ≤ m.depth rows)
include hdepth

theorem Loops.IsSound.nest {l : Loops} (hl : l.IsSound) (o : Operand) (count : ℕ) :
    (m.nest l o count).IsSound := by
  have hscan : 1.0 ≤ l.outerRows * rows count := one_le_mul hl.outerRows (one_le_rows count)
  have hlookUp : 1.0 ≤ l.outerRows * (1.0 + m.depth (rows count)) :=
    one_le_mul hl.outerRows (one_le_one_add (hdepth _ (one_le_rows count)))
  unfold NestedLoop.nest
  dsimp only
  split
  · exact ⟨isValid_add hl.cost (isValid_of_one_le hscan), hscan⟩
  · exact ⟨isValid_add hl.cost (isValid_of_one_le hlookUp), hl.outerRows⟩

theorem Loops.IsSound.foldl_nestCounted {l : Loops} (hl : l.IsSound) (counted : List (Operand × ℕ)) :
    (counted.foldl m.nestCounted l).IsSound := by
  induction counted generalizing l with
  | nil => exact hl
  | cons c counted ih => exact ih (hl.nest hdepth c.1 c.2)

/-- **An estimate of nested loops is accepted**, whatever the row counts are. -/
theorem isValid_estimate (source : RowSource σ) (operands : List Operand) (world : σ) :
    ((m.estimate source operands).run world).1.cost.isValid = true ∧
      ((m.estimate source operands).run world).1.access.length = operands.length := by
  rw [run_estimate]
  exact ⟨(Loops.isSound_empty.foldl_nestCounted hdepth _).cost, List.length_mapIdx⟩

theorem alwaysAnswers {source : RowSource σ} {p : Problem σ}
    (hmodel : p.oracles.costModel = m.costModel source) : p.AlwaysAnswers := by
  intro order _ hlt world
  have hvertices : ∀ id ∈ order, id < p.operands.length := hlt
  lift order to List (Fin p.operands.length) using hvertices
  obtain ⟨hvalid, hlength⟩ := isValid_estimate hdepth source (order.map p.operands.get) world
  refine ⟨_, ?_, hvalid, ?_⟩
  · rw [hmodel]
    exact run_costModel source order p.condition? p.isSelect world
  · rw [hlength, List.length_map, List.length_map]

end

end NestedLoop

namespace Optimizer

open NestedLoop

/-- **A run over nested loops never fails.** It commits a complete plan, and whatever it asks of the model
on the way is answered, with an access for each operand of the order and a cost that is accepted. The join
graph, the sources of row counts, the clock and the settings may be any, and so may the row counts. -/
theorem exists_ok_of_nestedLoop [RandomSource ρ] {m : NestedLoop}
    (hdepth : ∀ rows : Float, 1.0 ≤ rows → 0.0 ≤ m.depth rows) (source rowCounts : RowSource σ)
    (clock : StateM σ ℕ) (isSelect : Bool) {o : Optimizer} (hne : o.operands ≠ []) (world : σ)
    {out : Outcome σ}
    (hout : optimizeWith ρ { costModel := m.costModel source, rowCounts, clock } false isSelect o world =
      out) :
    (∃ top plan, out.result = .ok top ∧ out.optimizer.plan? = some plan ∧
        plan.IsComplete o.operands.length) ∧
      ∀ call ∈ out.calls, ∃ e, call.2 = .ok e ∧ e.cost.isValid = true ∧
        e.access.length = call.1.length := by
  rw [← hout]
  exact exists_ok_of_alwaysAnswers hne (alwaysAnswers hdepth rfl) world

/-- Two tables to join, and seventeen more to cross join. -/
def manyCrossed : Optimizer where
  operands := { table := "user" } :: { table := "account" } :: List.replicate 17 { table := "event" }
  condition? := none
  config := { maxSmallJoin := 19 }

/-- One table is empty and the others have as many rows as a word can count. The rows of all loops are beyond
every finite number, and so is the cost. -/
theorem exists_ok_of_nestedLoop_manyCrossed :
    let m : NestedLoop :=
      { graph := .ofPairs [("user", "account")], depth := fun rows ↦ if rows ≤ 1.0 then 0.0 else 64.0 }
    let source : RowSource Unit :=
      RowCounts.source ⟨[("user", 0), ("account", 2 ^ 64 - 1), ("event", 2 ^ 64 - 1)]⟩
    let out := optimizeWith ChaCha { costModel := m.costModel source, rowCounts := source, clock := pure 0 }
      false true manyCrossed ()
    (∀ rows : Float, 1.0 ≤ rows → 0.0 ≤ m.depth rows) ∧ manyCrossed.operands ≠ [] ∧
      (∃ top, out.result = .ok top) ∧ (∀ call ∈ out.calls, call.IsAccepted) ∧
      out.calls.map (fun call ↦ call.2.toOption.map fun e ↦ (e.access[1]?, e.cost.value.isInf)) =
        [some (some (.index "account_join" ["user"]), true)] := by
  intro m source out
  have hdepth : ∀ rows : Float, 1.0 ≤ rows → 0.0 ≤ m.depth rows := by
    intro rows _
    change (0.0 : Float) ≤ if rows ≤ 1.0 then 0.0 else 64.0
    split <;> decide +kernel
  have hne : manyCrossed.operands ≠ [] := by decide
  obtain ⟨⟨top, -, hok, -⟩, haccepted⟩ :=
    exists_ok_of_nestedLoop (ρ := ChaCha) hdepth source source (pure 0) true hne () (rfl : _ = out)
  exact ⟨hdepth, hne, ⟨top, hok⟩, haccepted, by decide +kernel⟩

end Optimizer

end JoinOrder
