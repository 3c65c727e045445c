import JoinOrder.Proofs.Traversal
/-!
# Conjunctions

The conditions of a query are put together with `Condition.all?`, which folds a list of them to the left.
Whatever a condition of the list compares, the conjunction compares: the nodes that the fold makes stand
above the conditions and change nothing in them.

## The first two conditions

A node is a comparison for its two leaves, whatever its operator is. The nodes that the fold makes have two
children as well, and the lowest one has the first two conditions of the list for children, as they are. If
both are columns by themselves, say of type boolean, and of different operands, their conjunction counts as
a comparison of the two, though neither condition compares anything. All other nodes of the fold have the
node below them for a child, which is no leaf.
-/

namespace JoinOrder

namespace Condition

variable {left right : Condition} {cs : List Condition} {a b : String}

/-- A condition that is nothing but a column of an operand called by this name. -/
def IsColumnOf (c : Condition) (a : String) : Prop := c.children = [] ∧ c.reference? = some a

/-- The first two conditions of a list are columns of two different operands. -/
def StartWithColumns (cs : List Condition) (a b : String) : Prop :=
  ∃ left right rest, cs = left :: right :: rest ∧ left.IsColumnOf a ∧ right.IsColumnOf b ∧ a ≠ b

/-! ## The nodes of the fold -/

theorem comparison?_both_eq_some_iff :
    (both left right).comparison? = some (a, b) ↔ left.IsColumnOf a ∧ right.IsColumnOf b ∧ a ≠ b := by
  rw [comparison?_eq_some_iff]
  constructor
  · rintro ⟨l, r, hchildren, hl, hr, ha, hb, hne⟩
    obtain ⟨rfl, rfl⟩ : left = l ∧ right = r := by simpa [both, binary, operator, children] using hchildren
    exact ⟨⟨hl, ha⟩, ⟨hr, hb⟩, hne⟩
  · rintro ⟨⟨hl, ha⟩, ⟨hr, hb⟩, hne⟩
    exact ⟨left, right, rfl, hl, hr, ha, hb, hne⟩

theorem compares_both_iff :
    (both left right).Compares a b ↔
      (left.IsColumnOf a ∧ right.IsColumnOf b ∧ a ≠ b) ∨ left.Compares a b ∨ right.Compares a b := by
  rw [compares_iff, comparison?_both_eq_some_iff]
  simp [both, binary, operator, children]

theorem not_isColumnOf_both : ¬(both left right).IsColumnOf a := by
  rintro ⟨hleaf, -⟩
  contradiction

/-- **Above the lowest node the fold only collects** what the conditions compare. -/
theorem compares_foldl_both_iff (rest : List Condition) :
    (rest.foldl both (both left right)).Compares a b ↔
      (both left right).Compares a b ∨ ∃ c ∈ rest, c.Compares a b := by
  induction rest generalizing left right with
  | nil => simp
  | cons c rest ih =>
    have hnext : (both (both left right) c).Compares a b ↔
        (both left right).Compares a b ∨ c.Compares a b := by
      rw [compares_both_iff]
      simp only [not_isColumnOf_both, false_and, false_or]
    rw [List.foldl_cons, ih, hnext, List.exists_mem_cons_iff, or_assoc]

theorem compares_of_all?_iff {c : Condition} (h : all? cs = some c) :
    c.Compares a b ↔ (∃ d ∈ cs, d.Compares a b) ∨ StartWithColumns cs a b := by
  match cs with
  | [] => contradiction
  | [d] =>
    obtain rfl : d = c := Option.some.inj h
    simp [StartWithColumns]
  | left :: right :: rest =>
    obtain rfl : rest.foldl both (both left right) = c := Option.some.inj h
    have hstart : StartWithColumns (left :: right :: rest) a b ↔
        left.IsColumnOf a ∧ right.IsColumnOf b ∧ a ≠ b := by
      simp only [StartWithColumns, List.cons.injEq]
      grind
    rw [compares_foldl_both_iff, compares_both_iff, hstart, List.exists_mem_cons_iff,
      List.exists_mem_cons_iff, or_assoc, or_comm, or_assoc (a := left.Compares a b)]

end Condition

namespace JoinGraph

open Condition

/-- **The conjunction of a list joins what its conditions join**, and besides that the first two of them if
they are columns of different operands. No other conditions are joined by being put together. -/
theorem isJoinable_all?_iff (cs : List Condition) (a b : String) :
    (ofCondition (all? cs)).isJoinable a b = true ↔
      (∃ c ∈ cs, (ofCondition (some c)).isJoinable a b = true) ∨
        StartWithColumns cs a b ∨ StartWithColumns cs b a := by
  match hall : all? cs with
  | none =>
    obtain rfl : cs = [] := by
      cases cs with
      | nil => rfl
      | cons c cs => contradiction
    simp [StartWithColumns, ofCondition, ofPairs, isJoinable_iff, empty]
  | some c =>
    simp only [isJoinable_ofCondition_iff, mem_comparedPairs_iff, compares_of_all?_iff hall, and_or_left,
      exists_or]
    exact or_or_or_comm

/-- Two boolean columns are joined by their conjunction, though neither of them compares anything. -/
theorem isJoinable_all?_columns :
    let cs : List Condition := [.column "a" "active", .column "b" "active"]
    (ofCondition (all? cs)).isJoinable "a" "b" = true ∧
      ¬∃ c ∈ cs, (ofCondition (some c)).isJoinable "a" "b" = true := by
  decide

end JoinGraph

end JoinOrder
