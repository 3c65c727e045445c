import JoinOrder.CostModel.NestedLoop
import JoinOrder.Proofs.RowCounts
import JoinOrder.Proofs.UnusableAccess
import Mathlib.Data.Fin.Basic
import Mathlib.Data.Set.List
/-!
# Beginnings of nested loops

The nested loop model binds one operand after the other and looks at none that comes later. So its estimate
of the beginning of an order is the beginning of its estimate of the order: the same access choices, at the
cost that the loops have reached by then. The costs that a greedy completion compares are those that the
completed order pays up to there.

## Two ways to be bound

The model goes by the operands: an index reads the operands bound that the operand is joinable to, and
depends on their identities. The removal of unusable access goes by names, and asks for an operand at the
position or an earlier one that may be called so. An operand may be called by its identity, and the
operands bound are those at the earlier positions. So the removal leaves all that the model chooses, in
every order, also in one that names an operand twice.
-/

namespace JoinOrder

variable {σ : Type}

theorem Operand.isReferencedBy_identity (o : Operand) : o.isReferencedBy o.identity = true := by
  rw [isReferencedBy_iff, identity]
  cases o.alias? <;> simp

namespace NestedLoop

variable {m : NestedLoop}

/-! ## One loop more -/

/-- The access of an operand inside of others. -/
def choice (m : NestedLoop) (bound : List Operand) (o : Operand) : Access :=
  if (m.dependencies bound o).isEmpty then .fullScan
  else .index (o.table ++ "_join") (m.dependencies bound o)

/-- The access of each operand of a list, those before it being bound. -/
def choices (m : NestedLoop) (operands : List Operand) : List Access :=
  operands.mapIdx fun pos o ↦ m.choice (operands.take pos) o

theorem bound_nest (l : Loops) (o : Operand) (count : ℕ) :
    (m.nest l o count).bound = l.bound ++ [o] := by
  unfold nest
  dsimp only
  split <;> rfl

theorem access_nest (l : Loops) (o : Operand) (count : ℕ) :
    (m.nest l o count).access = l.access ++ [m.choice l.bound o] := by
  unfold nest choice
  dsimp only
  split <;> rfl

theorem exists_mem_bound_of_mem_dependsOn {bound : List Operand} {o : Operand} {name : String}
    (h : name ∈ (m.choice bound o).dependsOn) : ∃ outer ∈ bound, outer.identity = name := by
  unfold choice at h
  split at h
  · exact absurd h List.not_mem_nil
  · obtain ⟨outer, houter, hname⟩ := List.mem_map.mp h
    exact ⟨outer, (List.mem_filter.mp houter).1, hname⟩

/-! ## All loops -/

/-- The loops with one more inside, over an operand with its count. -/
def nestCounted (m : NestedLoop) (l : Loops) (counted : Operand × ℕ) : Loops :=
  m.nest l counted.1 counted.2

/-- The loops over no operand, over the first one, over the first two, and so on. -/
def progress (m : NestedLoop) (counted : List (Operand × ℕ)) : List Loops :=
  counted.scanl m.nestCounted {}

/-- The operands that a source counts, each with its count. -/
def counted (source : RowSource σ) (operands : List Operand) (world : σ) : List (Operand × ℕ) :=
  operands.zip ((operands.mapM source).run world).1

theorem run_nestAll (source : RowSource σ) (l : Loops) (operands : List Operand) (world : σ) :
    ((m.nestAll source l operands).run world).1 =
      (counted source operands world).foldl m.nestCounted l := by
  induction operands generalizing l world with
  | nil => rfl
  | cons o operands ih =>
    rw [counted, RowSource.run_mapM_cons, List.zip_cons_cons, List.foldl_cons]
    exact ih (m.nest l o (source o world).1) (source o world).2

/-- **The choices go by the operands alone**, and not by their counts. -/
theorem access_foldl_nestCounted (l : Loops) (counted : List (Operand × ℕ)) :
    (counted.foldl m.nestCounted l).access =
      l.access ++ (counted.map Prod.fst).mapIdx fun pos o ↦
        m.choice (l.bound ++ (counted.map Prod.fst).take pos) o := by
  induction counted generalizing l with
  | nil => exact (List.append_nil l.access).symm
  | cons c counted ih =>
    rw [List.foldl_cons, ih, nestCounted, access_nest, bound_nest, List.map_cons, List.mapIdx_cons]
    simp

theorem map_fst_counted (source : RowSource σ) (operands : List Operand) (world : σ) :
    (counted source operands world).map Prod.fst = operands :=
  List.map_fst_zip (Nat.le_of_eq (source.length_run_mapM operands world).symm)

theorem run_estimate (source : RowSource σ) (operands : List Operand) (world : σ) :
    ((m.estimate source operands).run world).1 =
      ⟨((counted source operands world).foldl m.nestCounted {}).cost, m.choices operands⟩ := by
  have haccess : ((counted source operands world).foldl m.nestCounted {}).access =
      m.choices operands := by
    rw [access_foldl_nestCounted, map_fst_counted]
    rfl
  rw [← haccess, ← run_nestAll]
  rfl

/-! ## Beginnings -/

theorem choices_take (operands : List Operand) (k : ℕ) :
    m.choices (operands.take k) = (m.choices operands).take k := by
  refine List.ext_getElem (by simp [choices]) fun pos hpos _ ↦ ?_
  have hk : pos < k := by
    rw [choices, List.length_mapIdx, List.length_take] at hpos
    omega
  simp [choices, List.take_take, Nat.min_eq_left (Nat.le_of_lt hk)]

theorem counted_take {source : RowSource σ} {world world' : σ}
    (h : source.AnswersAlike world world') (operands : List Operand) (k : ℕ) :
    counted source (operands.take k) world' = (counted source operands world).take k := by
  rw [counted, counted, h, RowSource.run_mapM_take, List.zip_eq_zipWith, List.zip_eq_zipWith,
    List.take_zipWith]

theorem getElem?_progress {counted : List (Operand × ℕ)} {k : ℕ} (h : k ≤ counted.length) :
    (m.progress counted)[k]? = some ((counted.take k).foldl m.nestCounted {}) := by
  rw [progress, List.getElem?_scanl, if_pos h]

/-! ## The model over an order -/

theorem joined_cons (operands : List Operand) (id : ℕ) (order : List ℕ) (condition? : Option Condition) :
    (PlanView.mk operands (id :: order) condition?).joined =
      match operands[id]? with
      | some o => (PlanView.mk operands order condition?).joined.map (o :: ·)
      | none => .error (.unknownOperand id) := by
  rw [PlanView.joined, List.mapM_cons]
  cases operands[id]? with
  | some o =>
    change (PlanView.mk operands order condition?).joined.bind (fun rest ↦ .ok (o :: rest)) = _
    cases (PlanView.mk operands order condition?).joined <;> rfl
  | none => rfl

theorem joined_subset {operands joined : List Operand} {order : List ℕ} {condition? : Option Condition}
    (h : (PlanView.mk operands order condition?).joined = .ok joined) : joined ⊆ operands := by
  induction order generalizing joined with
  | nil =>
    obtain rfl : [] = joined := Except.ok.inj h
    exact List.nil_subset _
  | cons id order ih =>
    rw [joined_cons] at h
    cases hid : operands[id]? with
    | none =>
      rw [hid] at h
      contradiction
    | some o =>
      rw [hid] at h
      cases hrest : (PlanView.mk operands order condition?).joined with
      | error e =>
        rw [hrest] at h
        contradiction
      | ok rest =>
        rw [hrest] at h
        obtain rfl : o :: rest = joined := Except.ok.inj h
        exact List.cons_subset.mpr ⟨List.mem_of_getElem? hid, ih hrest⟩

section Order

variable {operands : List Operand} {vertices : List (Fin operands.length)} {condition? : Option Condition}

theorem joined_map_val (vertices : List (Fin operands.length)) (condition? : Option Condition) :
    (PlanView.mk operands (vertices.map Fin.val) condition?).joined =
      .ok (vertices.map operands.get) := by
  unfold PlanView.joined
  induction vertices with
  | nil => rfl
  | cons v vertices ih =>
    rw [List.map_cons, List.mapM_cons, ih, List.getElem?_eq_getElem v.isLt]
    rfl

theorem run_costModel (source : RowSource σ) (vertices : List (Fin operands.length))
    (condition? : Option Condition) (isSelect : Bool) (world : σ) :
    (((m.costModel source).estimate ⟨operands, vertices.map Fin.val, condition?⟩ isSelect).run
        world).1 =
      .ok ((m.estimate source (vertices.map operands.get)).run world).1 := by
  rw [costModel]
  dsimp only
  rw [joined_map_val]
  rfl

/-- **What the model chooses is usable**: it depends on operands at earlier positions. -/
theorem isUsableAt_choices {pos : ℕ} {access : Access}
    (h : (m.choices (vertices.map operands.get))[pos]? = some access) :
    (PlanView.mk operands (vertices.map Fin.val) condition?).isUsableAt pos access = true := by
  rw [choices, List.getElem?_mapIdx] at h
  obtain ⟨o, -, rfl⟩ := Option.map_eq_some_iff.mp h
  refine List.all_eq_true.mpr fun name hname ↦ PlanView.isBoundAt_iff.mpr ?_
  obtain ⟨outer, houter, rfl⟩ := exists_mem_bound_of_mem_dependsOn hname
  obtain ⟨q, hq, rfl⟩ := List.mem_take_iff_getElem.mp houter
  rw [List.length_map] at hq
  refine ⟨q, by omega, _, PlanView.operandAt?_eq_some_iff.mpr ⟨vertices[q], ?_, ?_⟩,
    Operand.isReferencedBy_identity _⟩
  · rw [List.getElem?_map, List.getElem?_eq_getElem, Option.map_some]
  · simp

end Order

/-- **An estimate of nested loops is made up of the estimates of its beginnings.** It has one access for each
operand of the order, all of them usable; and the estimate of the first operands has the first of them, at
the cost of the loops over these operands, in any state from which the operands are counted alike. -/
theorem estimate_take (m : NestedLoop) (source : RowSource σ) (v : PlanView) (isSelect : Bool)
    (world : σ) (horder : ∀ id ∈ v.order, id < v.operands.length) :
    ∃ joined e, v.joined = .ok joined ∧
      (((m.costModel source).estimate v isSelect).run world).1 = .ok e ∧
      e.access.length = v.order.length ∧ v.removeUnusable e.access = e.access ∧
      ∀ k ≤ v.order.length, ∃ l, (m.progress (counted source joined world))[k]? = some l ∧
        ∀ world', source.AnswersAlike world world' →
          (((m.costModel source).estimate { v with order := v.order.take k } isSelect).run world').1 =
            .ok ⟨l.cost, e.access.take k⟩ := by
  obtain ⟨operands, order, condition?⟩ := v
  lift order to List (Fin operands.length) using horder
  set joined := order.map operands.get with hjoined
  refine ⟨joined, _, joined_map_val order condition?, run_costModel source order condition? isSelect world,
    ?_, ?_, fun k hk ↦ ?_⟩
  · rw [run_estimate]
    simp [choices]
  · rw [run_estimate]
    exact PlanView.removeUnusable_eq_self fun pos choice _ h ↦ isUsableAt_choices h
  · have hlength : k ≤ (counted source joined world).length := by
      rw [← List.length_map (f := Prod.fst), map_fst_counted]
      simpa [hjoined] using hk
    refine ⟨_, getElem?_progress hlength, fun world' halike ↦ ?_⟩
    rw [← List.map_take, run_costModel, List.map_take, run_estimate, run_estimate, choices_take,
      counted_take halike]

/-- The operands of a self join, in the order that binds the instance with the alias first. The other one is
read through an index on it. -/
theorem estimate_take_selfJoined :
    let m : NestedLoop := { graph := .ofPairs [("employees", "e2")], depth := fun _ ↦ 3.0 }
    let v : PlanView := ⟨PlanView.selfJoined, [1, 0], none⟩
    let source : RowSource Unit := RowCounts.source ⟨[("employees", 8)]⟩
    (∀ id ∈ v.order, id < v.operands.length) ∧
      ∃ e, (((m.costModel source).estimate v true).run ()).1 = .ok e ∧
        e.access = [.fullScan, .index "employees_join" ["e2"]] ∧ v.removeUnusable e.access = e.access := by
  intro m v source
  have horder : ∀ id ∈ v.order, id < v.operands.length := by decide
  obtain ⟨joined, e, hjoined, he, -, hremove, -⟩ := estimate_take m source v true () horder
  refine ⟨horder, e, he, ?_, hremove⟩
  have haccess : (((m.costModel source).estimate v true).run ()).1.map Estimate.access =
      .ok [.fullScan, .index "employees_join" ["e2"]] := by
    rfl
  rw [he] at haccess
  exact Except.ok.inj haccess

end NestedLoop

end JoinOrder
