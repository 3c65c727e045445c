import JoinOrder.Proofs.Optimize
import JoinOrder.Proofs.Search.Adoption
import JoinOrder.Proofs.UnusableAccess
/-!
# The access committed

The access committed to an operand comes from one answer of the cost model: the one by which the order
committed became the best plan. Its choices are taken position by position, each is left or replaced by a
full scan, and what comes out is written to the operand at that position. The cost is taken over as it was,
although it was made for the choices replaced as well.
-/

namespace JoinOrder

variable {σ ρ : Type}

/-- A cost model that keeps the removal of unusable choices there is for all of them. -/
def CostModel.RemovesUnusable (m : CostModel σ) : Prop :=
  ∀ view access, m.removeUnusable view access = pure (view.removeUnusable access)

/-- The removal goes by names, which the query gives and no run changes. -/
theorem PlanView.removeUnusable_map_reset (operands : List Operand) (order : List ℕ)
    (condition? : Option Condition) (access : List Access) :
    (PlanView.mk (operands.map Operand.reset) order condition?).removeUnusable access =
      (PlanView.mk operands order condition?).removeUnusable access := by
  have hbound : (PlanView.mk (operands.map Operand.reset) order condition?).isBoundAt =
      (PlanView.mk operands order condition?).isBoundAt := by
    funext pos name
    simp only [isBoundAt, List.getElem?_map, Option.any_map]
    rfl
  unfold removeUnusable isUsableAt
  rw [hbound]

namespace Optimizer

variable [RandomSource ρ] {oracles : Oracles σ} {isSelect : Bool} {o : Optimizer} {world : σ}
  {out : Outcome σ} {top : ℕ}

theorem exists_isAdopted_of_optimizeWith (hremoves : oracles.costModel.RemovesUnusable)
    (hout : optimizeWith ρ oracles false isSelect o world = out) (hok : out.result = .ok top) :
    ∃ order e, IsAdopted out.history order e ∧ order.head? = some top ∧
      order.Perm (List.range o.operands.length) ∧ e.access.length = o.operands.length ∧
      let access := (PlanView.mk o.operands order o.condition?).removeUnusable e.access
      out.optimizer.plan? = some ⟨order, some e.cost, access⟩ ∧
        out.optimizer.operands =
          commit (o.operands.map Operand.reset) ⟨order, some e.cost, access⟩ := by
  have hne : o.operands ≠ [] := by
    intro hnil
    rw [optimizeWith, if_pos (List.isEmpty_iff.mpr hnil)] at hout
    rw [← hout] at hok
    contradiction
  have hlength : o.reset.operands.length = o.operands.length := List.length_map _
  rw [optimizeWith_of_ne_nil hne] at hout
  have hends := ends_runAll (p := o.reset.problem oracles isSelect)
    (strategies ρ o.reset.config o.reset.operands.length) { world }
  have hadopted := hends.reaches.preserves (P := Session.BestIsAdopted) (.opened world)
    fun _ m _ ht ↦ ht.perform m
  cases hrun : runAll (o.reset.problem oracles isSelect)
    (strategies ρ o.reset.config o.reset.operands.length) { world } with
  | mk result session =>
    obtain ⟨result, completed⟩ := result
    rw [hrun] at hadopted
    cases result with
    | error e =>
      rw [searchAndCommit_of_error hrun] at hout
      rw [← hout] at hok
      contradiction
    | ok =>
      obtain ⟨plan, first, rest, hbest, hcomplete, horder⟩ :=
        exists_complete_best (mt List.map_eq_nil_iff.mp hne) hrun
      obtain ⟨order, e, rfl, hhistory⟩ := hadopted plan hbest
      have hremoved : (oracles.costModel.removeUnusable
          ((o.reset.problem oracles isSelect).view order) e.access).run session.world =
            ((PlanView.mk o.operands order o.condition?).removeUnusable e.access, session.world) := by
        rw [hremoves]
        exact congrArg (·, session.world) (PlanView.removeUnusable_map_reset ..)
      rw [searchAndCommit_of_best hrun hbest hremoved horder] at hout
      rw [← hout] at hok ⊢
      obtain rfl : first = top := Except.ok.inj hok
      refine ⟨order, e, hhistory, ?_, hlength ▸ hcomplete.perm, hlength ▸ hcomplete.access, rfl, rfl⟩
      exact congrArg List.head? horder

/-- **The access committed is what is usable of one answer.** A run that succeeds commits an order with the
cost that the model gave when this order became the best plan for the last time. The operand at a position
is read as the model chose for this position in the same answer if the choice depends on names of operands
up to there only, and in full if not. To remove what is unusable once more would change nothing. -/
theorem access_of_optimizeWith_eq_ok (hremoves : oracles.costModel.RemovesUnusable)
    (hout : optimizeWith ρ oracles false isSelect o world = out) (hok : out.result = .ok top) :
    ∃ order e, IsAdopted out.history order e ∧ order.head? = some top ∧
      order.Perm (List.range o.operands.length) ∧ e.access.length = o.operands.length ∧
      out.optimizer.plan?.map Plan.order = some order ∧ out.optimizer.cost? = some e.cost ∧
      (∀ (pos id : ℕ) (choice : Access), order[pos]? = some id → e.access[pos]? = some choice →
        let view : PlanView := ⟨o.operands, order, o.condition?⟩
        let committed? := out.optimizer.operands[id]?.bind Operand.access?
        ((∀ name ∈ choice.dependsOn, view.NamesUpTo pos name) → committed? = some choice) ∧
          ((¬∀ name ∈ choice.dependsOn, view.NamesUpTo pos name) → committed? = some .fullScan)) ∧
      ∀ view access state,
        (oracles.costModel.removeUnusable view access >>= oracles.costModel.removeUnusable view).run
            state = (oracles.costModel.removeUnusable view access).run state := by
  obtain ⟨order, e, hadopted, hhead, hperm, hlength, hplan, hoperands⟩ :=
    exists_isAdopted_of_optimizeWith hremoves hout hok
  refine ⟨order, e, hadopted, hhead, hperm, hlength, by rw [hplan, Option.map_some],
    by rw [cost?, hplan]; rfl, fun pos id choice hid hchoice ↦ ?_, fun view access state ↦ ?_⟩
  · obtain ⟨rest, rfl⟩ : ∃ rest, order = top :: rest := List.head?_eq_some_iff.mp hhead
    intro view committed?
    have hpos : pos < (top :: rest).length := (List.getElem?_eq_some_iff.mp hid).1
    have haccess : committed? = (view.removeUnusable e.access)[pos]? := by
      rw [← Plan.accessOf?_of_getElem? (hperm.nodup_iff.mpr List.nodup_range) hid,
        ← (isCommitted_commit rfl hperm).access, ← hoperands]
    rw [PlanView.getElem?_removeUnusable, hchoice, Option.map_some, decide_eq_true hpos,
      Bool.true_and] at haccess
    rw [haccess, ← PlanView.isUsableAt_iff]
    refine ⟨fun husable ↦ ?_, fun hunusable ↦ ?_⟩
    · rw [husable]
      rfl
    · rw [Bool.not_eq_true] at hunusable
      rw [hunusable]
      rfl
  · rw [hremoves, pure_bind, hremoves, PlanView.removeUnusable_removeUnusable]

/-- Two operands, the second one with an alias. -/
def aliased : Optimizer where
  operands := [{ table := "a" }, { table := "b", alias? := some "x" }]
  condition? := none
  config := { smallJoinStrategy := .exhaustive }

/-- A model that reads each of the two through an index on the other one, in either order, and finds it
cheaper to bind the second one first. -/
def readingEachOther : Oracles Unit where
  costModel :=
    { estimate := fun view _ =>
        pure (.ok ⟨if view.order = [1, 0] then ⟨1.0⟩ else ⟨2.0⟩, view.order.map fun id =>
          if id = 0 then .index "by_x" ["x"] else .index "by_a" ["a"]⟩) }
  rowCounts := fun _ => pure 0
  clock := pure 0

/-- The first operand keeps its index on the alias of the second one, which is bound by then. -/
theorem access_aliased :
    let out := optimizeWith ChaCha readingEachOther false true aliased ()
    readingEachOther.costModel.RemovesUnusable ∧ out.result = .ok 1 ∧
      ∃ e, IsAdopted out.history [1, 0] e ∧ out.optimizer.cost? = some e.cost ∧ e.access.length = 2 ∧
        out.optimizer.operands.map Operand.access? = [some (.index "by_x" ["x"]), some .fullScan] := by
  intro out
  have hremoves : readingEachOther.costModel.RemovesUnusable := fun _ _ ↦ rfl
  have hok : out.result = .ok 1 := rfl
  obtain ⟨order, e, hadopted, -, -, hlength, horder, hcost, -, -⟩ :=
    access_of_optimizeWith_eq_ok hremoves rfl hok
  have hfound : out.optimizer.plan?.map Plan.order = some [1, 0] := by decide +kernel
  obtain rfl : order = [1, 0] := Option.some.inj (horder.symm.trans hfound)
  exact ⟨hremoves, hok, e, hadopted, hcost, hlength, by decide +kernel⟩

end Optimizer

end JoinOrder
