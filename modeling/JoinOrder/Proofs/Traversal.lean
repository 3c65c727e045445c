import JoinOrder.Proofs.Comparisons
import JoinOrder.Proofs.JoinGraph
/-!
# Collecting comparisons from a queue

The comparisons of a condition can be collected breadth first, from a queue of conditions that wait to be
looked at. Each turn takes one of them: a comparison is recorded, and the children of any other condition
join the queue at its end.

Turn by turn, what is recorded and what the queue still compares are together the same pairs of names. A
comparison leaves the queue with all its parts, but these compare nothing. As each turn takes a node for
good, the queue is empty after as many turns as the condition has nodes, and then all is recorded. The
graph is the one that `JoinGraph.ofCondition` builds without a queue, up to the order of its edges.
-/

namespace JoinOrder

open Condition

/-- A search for comparisons that is under way. -/
structure Traversal where
  /-- The comparisons recorded. -/
  found : JoinGraph
  /-- The conditions not yet looked at, in the order of their turns. -/
  waiting : List Condition

namespace Traversal

/-- Nothing is recorded yet, and the whole condition waits, if there is one. -/
def start (condition? : Option Condition) : Traversal := ⟨.empty, condition?.toList⟩

/-- Look at the condition whose turn it is. -/
def turn : Traversal → Traversal
  | ⟨found, []⟩ => ⟨found, []⟩
  | ⟨found, c :: waiting⟩ =>
    match c.comparison? with
    | some (a, b) => ⟨found.addEdge a b, waiting⟩
    | none => ⟨found, waiting ++ c.children⟩

variable {a b : String}

/-! ## One turn -/

/-- Two names are joined by what is recorded, or will be by what waits. -/
def Joins (t : Traversal) (a b : String) : Prop :=
  t.found.isJoinable a b = true ∨ ∃ c ∈ t.waiting, c.Compares a b ∨ c.Compares b a

/-- **A turn loses no comparison and makes none up.** -/
theorem joins_turn (t : Traversal) : t.turn.Joins a b ↔ t.Joins a b := by
  obtain ⟨found, _ | ⟨c, waiting⟩⟩ := t
  · rfl
  · rw [turn]
    split
    · next x y hcomparison =>
      simp only [Joins, JoinGraph.isJoinable_addEdge_iff, List.exists_mem_cons_iff,
        compares_iff_of_comparison? hcomparison, and_comm (a := b = x), or_assoc]
    · next hnone =>
      have hroot : (c.Compares a b ∨ c.Compares b a) ↔
          ∃ child ∈ c.children, child.Compares a b ∨ child.Compares b a := by
        rw [compares_iff, compares_iff (a := b), hnone]
        simp only [reduceCtorEq, false_or, and_or_left, exists_or]
      rw [Joins, Joins, List.exists_mem_cons_iff, hroot, or_comm (a := ∃ child ∈ c.children, _)]
      simp only [List.mem_append, or_and_right, exists_or]

/-- A turn takes at least one node out of the queue, for good. -/
theorem sizeOfAll_turn_le (t : Traversal) : sizeOfAll t.turn.waiting ≤ sizeOfAll t.waiting - 1 := by
  obtain ⟨found, _ | ⟨c, waiting⟩⟩ := t
  · exact Nat.zero_le _
  · have hsize := c.size_eq
    rw [turn, sizeOfAll]
    split
    · change sizeOfAll waiting ≤ _
      omega
    · rw [sizeOfAll_append]
      omega

/-! ## The whole traversal -/

theorem joins_iterate (turns : ℕ) (t : Traversal) : (turn^[turns] t).Joins a b ↔ t.Joins a b := by
  induction turns generalizing t with
  | zero => rfl
  | succ turns ih => rw [Function.iterate_succ_apply, ih, joins_turn]

theorem sizeOfAll_iterate_le (turns : ℕ) (t : Traversal) :
    sizeOfAll (turn^[turns] t).waiting ≤ sizeOfAll t.waiting - turns := by
  induction turns generalizing t with
  | zero => exact le_refl _
  | succ turns ih =>
    rw [Function.iterate_succ_apply]
    have hrest := ih t.turn
    have hturn := t.sizeOfAll_turn_le
    omega

theorem waiting_iterate_size (c : Condition) : (turn^[c.size] (start (some c))).waiting = [] := by
  have hsize := sizeOfAll_iterate_le c.size (start (some c))
  have hstart : sizeOfAll (start (some c)).waiting = c.size := Nat.add_zero _
  rcases hwaiting : (turn^[c.size] (start (some c))).waiting with _ | ⟨d, waiting⟩
  · rfl
  · have hpos := d.size_eq
    rw [hwaiting, sizeOfAll] at hsize
    omega

end Traversal

/-! ## The graph of a condition -/

namespace Condition

/-- The unordered pairs of names that a condition compares. -/
def comparedPairs (c : Condition) : Set (Sym2 String) :=
  {pair | ∃ a b, c.Compares a b ∧ pair = s(a, b)}

theorem mem_comparedPairs_iff {c : Condition} {a b : String} :
    s(a, b) ∈ c.comparedPairs ↔ c.Compares a b ∨ c.Compares b a := by
  constructor
  · rintro ⟨x, y, hcompares, heq⟩
    rcases Sym2.eq_iff.mp heq with ⟨rfl, rfl⟩ | ⟨rfl, rfl⟩
    · exact Or.inl hcompares
    · exact Or.inr hcompares
  · rintro (hcompares | hcompares)
    · exact ⟨a, b, hcompares, rfl⟩
    · exact ⟨b, a, hcompares, Sym2.eq_swap⟩

end Condition

namespace JoinGraph

theorem isJoinable_ofCondition_iff {c : Condition} {a b : String} :
    (ofCondition (some c)).isJoinable a b = true ↔ s(a, b) ∈ c.comparedPairs := by
  rw [mem_comparedPairs_iff, ← mem_comparisons_iff_compares, ← mem_comparisons_iff_compares]
  exact isJoinable_ofPairs_iff c.comparisons

/-- **The graph of a condition holds the pairs of names that some part of the condition compares**, whatever
its depth, and no name is joinable to itself. Collecting the comparisons from a queue comes to an end on
every condition, after at most as many turns as it has nodes, with a graph of the same pairs. -/
theorem ofCondition_represents_comparedPairs (c : Condition) :
    (ofCondition (some c)).Represents c.comparedPairs ∧
      (∀ a, (ofCondition (some c)).isJoinable a a = false) ∧
      ∃ found, Traversal.turn^[c.size] (.start (some c)) = ⟨found, []⟩ ∧
        found.Represents c.comparedPairs := by
  refine ⟨represents_of_isJoinable_iff fun a b ↦ isJoinable_ofCondition_iff, fun a ↦ ?_,
    (Traversal.turn^[c.size] (.start (some c))).found, ?_, ?_⟩
  · rw [← Bool.not_eq_true, isJoinable_ofCondition_iff, mem_comparedPairs_iff, or_self]
    exact fun hcompares ↦ hcompares.ne rfl
  · exact congrArg (Traversal.mk _) (Traversal.waiting_iterate_size c)
  · refine represents_of_isJoinable_iff fun a b ↦ ?_
    have hjoins := Traversal.joins_iterate (a := a) (b := b) c.size (.start (some c))
    rw [mem_comparedPairs_iff]
    -- at the end nothing waits, as at the start nothing is recorded
    rw [Traversal.Joins, Traversal.waiting_iterate_size] at hjoins
    simpa [Traversal.Joins, Traversal.start, isJoinable_iff, empty] using hjoins

-- a comparison below another operator, one met again the other way round, and one within one operand
example : (ofCondition (Condition.all? [.equal (.column "a" "x") (.column "b" "x"),
    .operator "OR" [.equal (.column "b" "y") (.column "a" "y"),
      .equal (.column "b" "z") (.aliasedColumn "c" "z"), .equal (.column "c" "u") (.column "c" "v")]])).edges =
    [("a", "b"), ("b", "c")] := by decide

end JoinGraph

end JoinOrder
