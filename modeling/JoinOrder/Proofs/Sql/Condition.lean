import JoinOrder.Proofs.Comparisons
import JoinOrder.Proofs.JoinGraph
import JoinOrder.Sql.Condition
import Mathlib.Logic.Relation
/-!
# The joins of a query expression

An expression is seen by the join graph through its condition. Some expressions *expose* their operands
there: operators between two sides, negations, tests for null and ranges. A phrase exposes nothing,
whatever it is made of, and columns and values have no operands. So what the graph finds in a condition
can be said of the expression alone: it joins two tables where it exposes an operator whose two sides are
columns of them.

The conversion to a condition and the search for comparisons in it do not know of each other. They agree
because a condition has as many children as its expression has exposed operands, and refers to a table
only where the expression is a column.
-/

namespace JoinOrder.Sql

/-! ## What an expression exposes -/

namespace Expr

/-- The operands of an expression that its condition looks into. -/
def operands : Expr → List Expr
  | binary left _ right => [left, right]
  | not e | isNull e | isNotNull e | negative e => [e]
  | between e _ low high => [e, low, high]
  | column _ _ | value _ | phrase _ _ => []

/-- An expression is reached from another one through exposed operands only. -/
def Exposes (e part : Expr) : Prop := Relation.ReflTransGen (fun e part ↦ part ∈ e.operands) e part

/-- An expression is a column of a table. -/
inductive IsColumnOf (table : String) : Expr → Prop
  | intro {relation : List String} {name : String} (last : relation.getLast? = some table) :
      IsColumnOf table (column relation name)

/-- An expression exposes an operator, whichever it is, between columns of two different tables. -/
inductive Joins (e : Expr) (a b : String) : Prop
  | intro {left right : Expr} {op : BinaryOp} (exposed : e.Exposes (binary left op right))
      (left_column : left.IsColumnOf a) (right_column : right.IsColumnOf b) (different : a ≠ b)

theorem exposes_iff {e part : Expr} :
    e.Exposes part ↔ e = part ∨ ∃ operand ∈ e.operands, operand.Exposes part := by
  rw [Exposes, Relation.ReflTransGen.cases_head_iff]
  rfl

theorem joins_iff {e : Expr} {a b : String} :
    e.Joins a b ↔
      (∃ left op right, e = binary left op right ∧ left.IsColumnOf a ∧ right.IsColumnOf b ∧ a ≠ b) ∨
        ∃ operand ∈ e.operands, operand.Joins a b := by
  constructor
  · rintro ⟨exposed, hleft, hright, hne⟩
    rcases exposes_iff.mp exposed with rfl | ⟨operand, hoperand, hexposed⟩
    · exact Or.inl ⟨_, _, _, rfl, hleft, hright, hne⟩
    · exact Or.inr ⟨operand, hoperand, ⟨hexposed, hleft, hright, hne⟩⟩
  · rintro (⟨left, op, right, rfl, hleft, hright, hne⟩ | ⟨operand, hoperand, exposed, hleft, hright, hne⟩)
    · exact ⟨.refl, hleft, hright, hne⟩
    · exact ⟨exposes_iff.mpr (Or.inr ⟨operand, hoperand, exposed⟩), hleft, hright, hne⟩

/-! ## What a condition keeps -/

theorem children_toCondition (e : Expr) :
    e.toCondition.children = e.operands.map toCondition := by
  cases e with
  | column relation name =>
    rw [toCondition, columnCondition]
    cases relation.getLast? <;> rfl
  | value | binary | not | isNull | isNotNull | negative | between | phrase => rfl

/-- Columns of a known table are the only leaves that refer to something. -/
theorem leaf_toCondition_iff {e : Expr} {table : String} :
    e.toCondition.children = [] ∧ e.toCondition.reference? = some table ↔ e.IsColumnOf table := by
  constructor
  · rintro ⟨-, href⟩
    cases e with
    | column relation name =>
      rw [toCondition, columnCondition] at href
      cases hlast : relation.getLast? with
      | none =>
        rw [hlast] at href
        cases href
      | some last =>
        rw [hlast] at href
        cases href
        exact ⟨hlast⟩
    | value | binary | not | isNull | isNotNull | negative | between | phrase => cases href
  · rintro ⟨hlast⟩
    rw [toCondition, columnCondition, hlast]
    exact ⟨rfl, rfl⟩

theorem comparison?_toCondition_iff {e : Expr} {a b : String} :
    e.toCondition.comparison? = some (a, b) ↔
      ∃ left op right, e = binary left op right ∧ left.IsColumnOf a ∧ right.IsColumnOf b ∧ a ≠ b := by
  rw [Condition.comparison?_eq_some_iff]
  constructor
  · rintro ⟨left, right, hchildren, hleft, hright, ha, hb, hne⟩
    rw [children_toCondition] at hchildren
    cases e with
    | binary l op r =>
      cases hchildren
      exact ⟨l, op, r, rfl, leaf_toCondition_iff.mp ⟨hleft, ha⟩,
        leaf_toCondition_iff.mp ⟨hright, hb⟩, hne⟩
    | column | value | not | isNull | isNotNull | negative | between | phrase => cases hchildren
  · rintro ⟨left, op, right, rfl, hleft, hright, hne⟩
    obtain ⟨hlchildren, ha⟩ := leaf_toCondition_iff.mpr hleft
    obtain ⟨hrchildren, hb⟩ := leaf_toCondition_iff.mpr hright
    exact ⟨_, _, rfl, hlchildren, hrchildren, ha, hb, hne⟩

theorem sizeOf_lt_of_mem_operands {e operand : Expr} (h : operand ∈ e.operands) :
    sizeOf operand < sizeOf e := by
  cases e with
  | binary left op right =>
    simp only [operands, List.mem_cons, List.not_mem_nil, or_false] at h
    rcases h with rfl | rfl <;> simp only [binary.sizeOf_spec] <;> omega
  | not e | isNull e | isNotNull e | negative e =>
    obtain rfl := List.mem_singleton.mp h
    simp
  | between e negated low high =>
    simp only [operands, List.mem_cons, List.not_mem_nil, or_false] at h
    rcases h with rfl | rfl | rfl <;> simp only [between.sizeOf_spec] <;> omega
  | column | value | phrase => cases h

theorem mem_comparisons_toCondition_iff {e : Expr} {a b : String} :
    (a, b) ∈ e.toCondition.comparisons ↔ e.Joins a b := by
  rw [Condition.mem_comparisons_iff, comparison?_toCondition_iff, joins_iff, children_toCondition]
  refine or_congr_right ?_
  constructor
  · rintro ⟨child, hchild, hpair⟩
    obtain ⟨operand, hoperand, rfl⟩ := List.mem_map.mp hchild
    exact ⟨operand, hoperand, mem_comparisons_toCondition_iff.mp hpair⟩
  · rintro ⟨operand, hoperand, hjoins⟩
    exact ⟨_, List.mem_map_of_mem hoperand, mem_comparisons_toCondition_iff.mpr hjoins⟩
termination_by sizeOf e
decreasing_by all_goals exact sizeOf_lt_of_mem_operands hoperand

end Expr

/-! ## The graph of a query -/

theorem ofOperands_scanOperands (table : TableRef) (rest : List TableRef) (filter? : Option Expr) :
    JoinGraph.ofOperands (scanOperands (table :: rest) filter?).1 =
      JoinGraph.ofCondition (filter?.map Expr.toCondition) := rfl

/-- **The join graph of a query has the edges its expression asks for**: two tables are joinable exactly
if the expression joins them, one way round or the other. The operands of a query over any tables carry
just this graph. -/
theorem isJoinable_toCondition_iff_joins (e : Expr) (a b : String) :
    ((JoinGraph.ofCondition (some e.toCondition)).isJoinable a b = true ↔
      e.Joins a b ∨ e.Joins b a) ∧
    ∀ (table : TableRef) (rest : List TableRef),
      JoinGraph.ofOperands (scanOperands (table :: rest) (some e)).1 =
        JoinGraph.ofCondition (some e.toCondition) := by
  constructor
  · rw [JoinGraph.ofCondition, JoinGraph.isJoinable_ofPairs_iff]
    exact or_congr Expr.mem_comparisons_toCondition_iff Expr.mem_comparisons_toCondition_iff
  · intro table rest
    exact ofOperands_scanOperands table rest (some e)

end JoinOrder.Sql
