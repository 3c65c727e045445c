import JoinOrder.RowCounts
import Mathlib.Data.List.Basic
/-!
# Sources of row counts

A source answers a list of questions one after the other, and its state goes along. So what it is asked
later makes no difference to an answer, and what it was asked before may. A source that answers as a
function of the operand makes no use of its state; of any source it can be said that two of its states
answer alike.
-/

namespace JoinOrder.RowSource

variable {σ : Type} {source : RowSource σ} {count : Operand → ℕ}

/-- From this state on a source answers as a function of the operand, whatever it is asked. -/
def AnswersAs (source : RowSource σ) (count : Operand → ℕ) (world : σ) : Prop :=
  ∀ asked : List Operand, ((asked.mapM source).run world).1 = asked.map count

/-- From either of two states on a source gives the same answers, whatever it is asked. -/
def AnswersAlike (source : RowSource σ) (world world' : σ) : Prop :=
  ∀ asked : List Operand, ((asked.mapM source).run world').1 = ((asked.mapM source).run world).1

theorem run_mapM_cons (source : RowSource σ) (o : Operand) (operands : List Operand) (world : σ) :
    ((o :: operands).mapM source).run world =
      ((source o world).1 :: ((operands.mapM source).run (source o world).2).1,
        ((operands.mapM source).run (source o world).2).2) := by
  rw [List.mapM_cons]
  rfl

theorem length_run_mapM (source : RowSource σ) (operands : List Operand) (world : σ) :
    ((operands.mapM source).run world).1.length = operands.length := by
  induction operands generalizing world with
  | nil => rfl
  | cons o operands ih => rw [run_mapM_cons, List.length_cons, ih, List.length_cons]

theorem run_mapM_take (source : RowSource σ) (operands : List Operand) (k : ℕ) (world : σ) :
    (((operands.take k).mapM source).run world).1 = ((operands.mapM source).run world).1.take k := by
  induction operands generalizing k world with
  | nil =>
    rw [List.take_nil]
    exact List.take_nil.symm
  | cons o operands ih =>
    cases k with
    | zero => rfl
    | succ k => rw [List.take_succ_cons, run_mapM_cons, ih, run_mapM_cons, List.take_succ_cons]

theorem world_mapM (source : RowSource σ) (operands : List Operand) (world : σ) :
    ((operands.mapM source).run world).2 =
      operands.foldl (fun world o ↦ (source o world).2) world := by
  induction operands generalizing world with
  | nil => rfl
  | cons o operands ih => rw [run_mapM_cons, ih, List.foldl_cons]

theorem answersAs_of_forall (h : ∀ o world, (source o world).1 = count o) (world : σ) :
    source.AnswersAs count world := by
  intro asked
  induction asked generalizing world with
  | nil => rfl
  | cons o asked ih => rw [run_mapM_cons, ih, h, List.map_cons]

end JoinOrder.RowSource
