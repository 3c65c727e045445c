import JoinOrder.CostModel
import Mathlib.Data.List.Nodup
/-!
# Unusable access

An index that is left after the removal reads bound operands only, as far as names tell: each name it
depends on is the name of an operand at its position or an earlier one. So there is nothing to remove a
second time.

A dependency is meant as the identity of an operand, but it is found among all names of the operands bound.
So the removal keeps an index from reading a later operand exactly if no operand answers to the identity of
another one. That identities are different is not enough: in a self join with one instance unaliased, the
identity of this instance is the table name of all others, which stand in for it.
-/

namespace JoinOrder

theorem Operand.isReferencedBy_iff {o : Operand} {name : String} :
    o.isReferencedBy name = true ↔ o.table = name ∨ o.alias? = some name := by
  rw [isReferencedBy, names, List.contains_iff_mem, List.mem_cons, Option.mem_toList, eq_comm]

namespace PlanView

variable {v : PlanView} {access : List Access} {pos : ℕ}

/-! ## What the removal leaves -/

theorem getElem?_removeUnusable (v : PlanView) (access : List Access) (pos : ℕ) :
    (v.removeUnusable access)[pos]? = access[pos]?.map fun choice ↦
      if pos < v.order.length && !v.isUsableAt pos choice then .fullScan else choice :=
  List.getElem?_mapIdx

theorem isUsableAt_of_removeUnusable {choice : Access}
    (h : (v.removeUnusable access)[pos]? = some choice) (hpos : pos < v.order.length) :
    v.isUsableAt pos choice = true := by
  rw [getElem?_removeUnusable] at h
  obtain ⟨former, -, hchoice⟩ := Option.map_eq_some_iff.mp h
  rw [decide_eq_true hpos, Bool.true_and] at hchoice
  by_cases husable : v.isUsableAt pos former = true
  · rw [husable] at hchoice
    exact hchoice ▸ husable
  · rw [Bool.not_eq_true] at husable
    rw [husable] at hchoice
    exact hchoice ▸ rfl

theorem removeUnusable_of_isUsableAt {choice : Access} (h : access[pos]? = some choice)
    (husable : v.isUsableAt pos choice = true) : (v.removeUnusable access)[pos]? = some choice := by
  rw [getElem?_removeUnusable, h, Option.map_some, husable, Bool.not_true, Bool.and_false]
  rfl

theorem removeUnusable_eq_self
    (h : ∀ pos choice, pos < v.order.length → access[pos]? = some choice →
      v.isUsableAt pos choice = true) : v.removeUnusable access = access := by
  refine List.ext_getElem? fun pos ↦ ?_
  by_cases hpos : pos < v.order.length
  · match hchoice : access[pos]? with
    | none => rw [getElem?_removeUnusable, hchoice, Option.map_none]
    | some choice => exact removeUnusable_of_isUsableAt hchoice (h pos choice hpos hchoice)
  · simp only [getElem?_removeUnusable, hpos, decide_false, Bool.false_and, Bool.false_eq_true,
      if_false, Option.map_id_fun', id_eq]

/-- **A second removal changes nothing.** -/
theorem removeUnusable_removeUnusable (v : PlanView) (access : List Access) :
    v.removeUnusable (v.removeUnusable access) = v.removeUnusable access :=
  removeUnusable_eq_self fun _ _ hpos hchoice ↦ isUsableAt_of_removeUnusable hchoice hpos

theorem operandAt?_eq_some_iff {o : Operand} :
    v.operandAt? pos = some o ↔ ∃ id, v.order[pos]? = some id ∧ v.operands[id]? = some o :=
  Option.bind_eq_some_iff

theorem isBoundAt_iff {name : String} :
    v.isBoundAt pos name = true ↔
      ∃ q ≤ pos, ∃ o, v.operandAt? q = some o ∧ o.isReferencedBy name = true := by
  simp only [isBoundAt, List.any_eq_true, List.mem_take_iff_getElem, Option.any_eq_true,
    operandAt?_eq_some_iff]
  constructor
  · rintro ⟨id, ⟨q, hq, rfl⟩, o, ho, hname⟩
    exact ⟨q, by omega, o, ⟨_, List.getElem?_eq_getElem (by omega), ho⟩, hname⟩
  · rintro ⟨q, hq, o, ⟨id, hid, ho⟩, hname⟩
    obtain ⟨hlt, rfl⟩ := List.getElem?_eq_some_iff.mp hid
    exact ⟨_, ⟨q, by omega, rfl⟩, o, ho, hname⟩

/-- An operand at a position or an earlier one has this name, by its table or as its alias. -/
def NamesUpTo (v : PlanView) (pos : ℕ) (name : String) : Prop :=
  ∃ q ≤ pos, ∃ o, v.operandAt? q = some o ∧ (o.table = name ∨ o.alias? = some name)

theorem isUsableAt_iff {choice : Access} :
    v.isUsableAt pos choice = true ↔ ∀ name ∈ choice.dependsOn, v.NamesUpTo pos name := by
  simp only [isUsableAt, List.all_eq_true, isBoundAt_iff, NamesUpTo, Operand.isReferencedBy_iff]

/-! ## Operands that are not bound yet -/

section Identities

variable {operands : List Operand} {order : List ℕ} {condition? : Option Condition}

/-- No index reads an operand at a later position: an operand whose identity it depends on, unless it is
the one at its own position, is at an earlier one. -/
def ReadsBackward (v : PlanView) (access : List Access) : Prop :=
  ∀ p q name dependsOn o, access[p]? = some (.index name dependsOn) → v.operandAt? q = some o →
    o.identity ∈ dependsOn → q ≠ p → q < p

/-- No operand answers to the identity of another one. -/
def AnswerAlone (operands : List Operand) : Prop :=
  ∀ (i j : ℕ) (o o' : Operand), operands[i]? = some o → operands[j]? = some o' →
    o.isReferencedBy o'.identity = true → i = j

/-- If operands answer alone, what answers to the identity of an operand of the order is at its position. -/
theorem eq_of_isReferencedBy {q r : ℕ} {o o' : Operand} (halone : AnswerAlone operands)
    (hnodup : order.Nodup) (hq : (PlanView.mk operands order condition?).operandAt? q = some o)
    (hr : (PlanView.mk operands order condition?).operandAt? r = some o')
    (hreferenced : o'.isReferencedBy o.identity = true) : r = q := by
  obtain ⟨id, hid, ho⟩ := operandAt?_eq_some_iff.mp hq
  obtain ⟨id', hid', ho'⟩ := operandAt?_eq_some_iff.mp hr
  have hids : id' = id := halone id' id o' o ho' ho hreferenced
  obtain ⟨hqlt, hqid⟩ := List.getElem?_eq_some_iff.mp hid
  obtain ⟨hrlt, hrid⟩ := List.getElem?_eq_some_iff.mp hid'
  exact hnodup.getElem_inj_iff.mp ((hrid.trans hids).trans hqid.symm)

theorem readsBackward_removeUnusable (halone : AnswerAlone operands) (hnodup : order.Nodup) :
    (PlanView.mk operands order condition?).ReadsBackward
      ((PlanView.mk operands order condition?).removeUnusable access) := by
  intro p q name dependsOn o hindex hq hdep hne
  by_cases hp : p < order.length
  · have husable := isUsableAt_of_removeUnusable hindex hp
    have hbound := List.all_eq_true.mp husable _ hdep
    obtain ⟨r, hr, o', hr', hreferenced⟩ := isBoundAt_iff.mp hbound
    obtain rfl := eq_of_isReferencedBy halone hnodup hq hr' hreferenced
    omega
  · -- entries beyond the order are left alone, and come after all operands of it
    obtain ⟨id, hid, -⟩ := operandAt?_eq_some_iff.mp hq
    have hlt : q < order.length := (List.getElem?_eq_some_iff.mp hid).1
    omega

theorem exists_perm_cons_cons {n i j : ℕ} (hi : i < n) (hj : j < n) (hne : i ≠ j) :
    ∃ rest, (i :: j :: rest).Perm (List.range n) := by
  have hmem : j ∈ (List.range n).erase i :=
    (List.mem_erase_of_ne hne.symm).mpr (List.mem_range.mpr hj)
  refine ⟨((List.range n).erase i).erase j, ?_⟩
  exact ((List.perm_cons_erase hmem).symm.cons i).trans
    (List.perm_cons_erase (List.mem_range.mpr hi)).symm

/-- An operand that answers to the identity of another one and comes before it keeps an index on it. -/
theorem exists_not_readsBackward {i j : ℕ} {o o' : Operand} (hi : operands[i]? = some o)
    (hj : operands[j]? = some o') (hreferenced : o.isReferencedBy o'.identity = true) (hne : i ≠ j)
    (condition? : Option Condition) :
    ∃ order : List ℕ, order.Perm (List.range operands.length) ∧ ∃ access : List Access,
      ¬(PlanView.mk operands order condition?).ReadsBackward
        ((PlanView.mk operands order condition?).removeUnusable access) := by
  obtain ⟨rest, hperm⟩ := exists_perm_cons_cons (List.getElem?_eq_some_iff.mp hi).1
    (List.getElem?_eq_some_iff.mp hj).1 hne
  let v : PlanView := ⟨operands, i :: j :: rest, condition?⟩
  have hfirst : v.operandAt? 0 = some o := hi
  have hsecond : v.operandAt? 1 = some o' := hj
  have hbound : v.isBoundAt 0 o'.identity = true :=
    isBoundAt_iff.mpr ⟨0, Nat.le_refl 0, o, hfirst, hreferenced⟩
  have husable : v.isUsableAt 0 (.index "" [o'.identity]) = true :=
    List.all_eq_true.mpr (List.forall_mem_singleton.mpr hbound)
  have hindex : [Access.index "" [o'.identity]][0]? = some _ := rfl
  have hleft := removeUnusable_of_isUsableAt hindex husable
  refine ⟨_, hperm, [.index "" [o'.identity]], fun h ↦ ?_⟩
  have hlt := h 0 1 "" _ _ hleft hsecond (List.mem_singleton_self _) Nat.one_ne_zero
  exact Nat.not_lt_zero 1 hlt

/-- **The removal keeps indices from reading later operands, in every order, exactly if no operand answers
to the identity of another one.** -/
theorem readsBackward_removeUnusable_iff (operands : List Operand) (condition? : Option Condition) :
    (∀ order : List ℕ, order.Perm (List.range operands.length) → ∀ access : List Access,
      (PlanView.mk operands order condition?).ReadsBackward
        ((PlanView.mk operands order condition?).removeUnusable access)) ↔
    AnswerAlone operands := by
  constructor
  · intro h i j o o' hi hj hreferenced
    by_contra hne
    obtain ⟨order, hperm, access, hnot⟩ :=
      exists_not_readsBackward hi hj hreferenced hne condition?
    exact hnot (h order hperm access)
  · intro halone order hperm access
    exact readsBackward_removeUnusable halone (hperm.nodup_iff.mpr List.nodup_range)

end Identities

/-- Two instances of one table, the first one without an alias. -/
def selfJoined : List Operand :=
  [{ table := "employees" }, { table := "employees", alias? := some "e2" }]

/-- The second instance keeps an index that reads the first one, though the first one is bound later. -/
theorem not_readsBackward_selfJoined :
    let v : PlanView := ⟨selfJoined, [1, 0], none⟩
    (selfJoined.map Operand.identity).Nodup ∧ v.order.Perm (List.range selfJoined.length) ∧
      ¬v.ReadsBackward (v.removeUnusable [.index "by_manager" ["employees"], .fullScan]) := by
  refine ⟨by decide, by decide, fun h ↦ ?_⟩
  have hlt := h 0 1 "by_manager" ["employees"] { table := "employees" } (by decide) rfl
    (by decide) (by decide)
  omega

end PlanView

end JoinOrder
