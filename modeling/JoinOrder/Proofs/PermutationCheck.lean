import JoinOrder.Proofs.Checked.Step
import JoinOrder.Proofs.Explain
/-!
# The check for permutations

Whether a plan holds each number below `n` exactly once is found out in one pass over its order, with a
table of `n` marks. The pass ends at the first number that is not below `n` or has a mark already, and each
number it passes gets a mark. It never looks for a number that is missing. It need not: `n` different numbers
below `n` leave none out.

What the pass answers is described for a table with any marks, as the marks change from number to number.
The table keeps its size, so that comparing a number with `n` is enough to stay inside of it.
-/

namespace JoinOrder

/-! ## What is recognised -/

namespace Plan

variable {n : ℕ} {order : List ℕ}

theorem getElem?_set_eq_some_false_iff {seen : Array Bool} {id other : ℕ} (hid : id < seen.size) :
    (seen.set id true)[other]? = some false ↔ id ≠ other ∧ seen[other]? = some false := by
  by_cases hother : id = other
  · rw [Array.getElem?_set, if_pos hother]
    simp [hother]
  · rw [Array.getElem?_set, if_neg hother, and_iff_right hother]

/-- **New numbers are different numbers** that the table has a place for, without a mark. -/
theorem areNew_iff (seen : Array Bool) (order : List ℕ) :
    areNew seen order = true ↔ order.Nodup ∧ ∀ id ∈ order, seen[id]? = some false := by
  induction order generalizing seen with
  | nil => simp [areNew]
  | cons id rest ih =>
    rw [areNew, List.nodup_cons, List.forall_mem_cons]
    by_cases hid : id < seen.size
    · have hnew : (!seen[id]) = true ↔ seen[id]? = some false := by
        rw [Array.getElem?_eq_getElem hid, Option.some_inj, Bool.not_eq_true']
      -- the numbers that follow are new to the table with this one marked
      have hrest : (∀ other ∈ rest, (seen.set id true)[other]? = some false) ↔
          id ∉ rest ∧ ∀ other ∈ rest, seen[other]? = some false := by
        simp only [getElem?_set_eq_some_false_iff hid, forall_and, List.forall_mem_ne]
      rw [dif_pos hid, Bool.and_eq_true, hnew, ih, hrest]
      tauto
    · rw [dif_neg hid, Array.getElem?_eq_none (Nat.not_lt.mp hid)]
      simp

theorem areNew_replicate_iff :
    areNew (Array.replicate n false) order = true ↔ order.Nodup ∧ ∀ id ∈ order, id < n := by
  rw [areNew_iff]
  simp [Array.getElem?_replicate]

/-- **A plan passes the check exactly if it is a permutation.** -/
theorem isPermutationOf_iff (p : Plan) (n : ℕ) :
    p.isPermutationOf n = true ↔ p.order.Perm (List.range n) := by
  rw [isPermutationOf, Bool.and_eq_true, decide_eq_true_iff, areNew_replicate_iff]
  constructor
  · rintro ⟨hlength, hnodup, hlt⟩
    exact Arrangement.perm_range_of_nodup hnodup hlt hlength
  · intro hperm
    exact ⟨Arrangement.length_of_perm_range hperm, Arrangement.nodup_of_perm_range hperm,
      fun _ ↦ Arrangement.lt_of_perm_range hperm⟩

end Plan

theorem Optimizer.isPermutationOf_of_optimizeWith {σ ρ : Type} [RandomSource ρ] {oracles : Oracles σ}
    {parseOnly isSelect : Bool} {o : Optimizer} {world : σ} {out : Outcome σ} {top : ℕ}
    (hout : optimizeWith ρ oracles parseOnly isSelect o world = out) (hok : out.result = .ok top) :
    ∃ plan, out.optimizer.plan? = some plan ∧ plan.isPermutationOf o.operands.length = true := by
  obtain ⟨plan, _, -, hperm, -, hplan, -⟩ := exists_commit_of_optimizeWith hout hok
  exact ⟨plan, hplan, (plan.isPermutationOf_iff _).mpr hperm⟩

/-! ## The table of marks -/

namespace Checked

/-- The entry of a table at a place, and the table with it overwritten. -/
def replace {α : Type} (xs : List α) (i : ℕ) (a : α) : Option (α × List α) := do
  let old ← xs[i]?
  let xs ← set xs i a
  some (old, xs)

/-- `Plan.areNew` over a table, with each number compared with `n`. -/
def areNew (n : ℕ) (seen : List Bool) : List ℕ → Option Bool
  | [] => some true
  | id :: rest =>
    if id < n then do
      let (met, seen) ← replace seen id true
      if met then some false else areNew n seen rest
    else some false

/-- `Plan.isPermutationOf` over a table. -/
def isPermutationOf (p : Plan) (n : ℕ) : Option Bool :=
  if p.order.length = n then areNew n (List.replicate n false) p.order else some false

theorem replace_toList {α : Type} {xs : Array α} {i : ℕ} (hi : i < xs.size) (a : α) :
    replace xs.toList i a = some (xs[i], (xs.set i a).toList) := by
  have hset : set xs.toList i a = some (xs.set i a).toList := by
    rw [set, Array.length_toList, if_pos hi, Array.toList_set]
  rw [replace, Array.getElem?_toList, Array.getElem?_eq_getElem hi, hset]
  rfl

/-- The table has a place for each number that is looked up, as it has `n` of them all along. -/
theorem areNew_toList {n : ℕ} {seen : Array Bool} (hsize : seen.size = n) (order : List ℕ) :
    areNew n seen.toList order = some (Plan.areNew seen order) := by
  induction order generalizing seen with
  | nil => rfl
  | cons id rest ih =>
    rw [areNew, Plan.areNew]
    by_cases hid : id < n
    · have hplace : id < seen.size := hid.trans_eq hsize.symm
      rw [if_pos hid, dif_pos hplace, replace_toList hplace]
      dsimp only [Option.bind_eq_bind, Option.bind_some]
      by_cases hmet : seen[id] = true
      · rw [if_pos hmet, hmet]
        rfl
      · rw [if_neg hmet, ih ((Array.size_set hplace).trans hsize), Bool.eq_false_of_not_eq_true hmet]
        rfl
    · rw [if_neg hid, dif_neg (hsize ▸ hid)]

-- a table with fewer places than numbers is left
example : areNew 3 [false, false] [1, 2, 0] = none := rfl

theorem isPermutationOf_eq_some (p : Plan) (n : ℕ) :
    isPermutationOf p n = some (p.isPermutationOf n) := by
  rw [isPermutationOf, Plan.isPermutationOf]
  by_cases hlength : p.order.length = n
  · have htable : List.replicate n false = (Array.replicate n false).toList :=
      Array.toList_replicate.symm
    rw [if_pos hlength, htable, areNew_toList Array.size_replicate, decide_eq_true hlength,
      Bool.true_and]
  · rw [if_neg hlength, decide_eq_false hlength, Bool.false_and]

/-- **Permutations are recognised, and the table of marks is never left**: told over a table, the check has
a result for every order and every `n`, and it is true exactly if the order is a rearrangement of
`0, 1, …, n - 1`. -/
theorem recognises_permutations (p : Plan) (n : ℕ) :
    isPermutationOf p n = some (p.isPermutationOf n) ∧
      (p.isPermutationOf n = true ↔ p.order.Perm (List.range n)) :=
  ⟨isPermutationOf_eq_some p n, p.isPermutationOf_iff n⟩

end Checked

end JoinOrder
