import JoinOrder.Condition
import Mathlib.Logic.Relation
/-!
# The comparisons of a condition

A node compares two names if it has two children, both of them leaves, which refer to them. As there is
nothing below a leaf, the comparisons found in a condition are the one its root makes, if it makes one,
and those found in its children.

Said without the search, a condition compares two names if some part of it does, at whatever depth. The
search leaves out the parts of a comparison, which are leaves.
-/

namespace JoinOrder.Condition

theorem isLeaf_iff {c : Condition} : c.isLeaf = true ↔ c.children = [] := List.isEmpty_iff

theorem comparison?_eq_some_iff {c : Condition} {a b : String} :
    c.comparison? = some (a, b) ↔ ∃ left right, c.children = [left, right] ∧
      left.children = [] ∧ right.children = [] ∧
      left.reference? = some a ∧ right.reference? = some b ∧ a ≠ b := by
  constructor
  · intro h
    unfold comparison? at h
    split at h
    · next left right hchildren =>
      split at h
      · next hleaves =>
        rw [Bool.and_eq_true, isLeaf_iff, isLeaf_iff] at hleaves
        split at h
        · next l r hl hr =>
          split at h
          · cases h
          · next hne =>
            cases h
            exact ⟨left, right, hchildren, hleaves.1, hleaves.2, hl, hr, hne⟩
        · cases h
      · cases h
    · cases h
  · rintro ⟨left, right, hchildren, hleft, hright, hl, hr, hne⟩
    have hleaves : (left.isLeaf && right.isLeaf) = true := by
      rw [Bool.and_eq_true, isLeaf_iff, isLeaf_iff]
      exact ⟨hleft, hright⟩
    simp only [comparison?, hchildren, hleaves, hl, hr, hne, if_true, if_false]

theorem comparisonsOfAll_eq (cs : List Condition) :
    comparisonsOfAll cs = cs.flatMap comparisons := by
  induction cs with
  | nil => rfl
  | cons c cs ih => rw [comparisonsOfAll, ih, List.flatMap_cons]

theorem comparisons_of_children_eq_nil {c : Condition} (h : c.children = []) :
    c.comparisons = [] := by
  obtain ⟨label, table?, alias?, children⟩ := c
  obtain rfl : children = [] := h
  rfl

theorem mem_comparisons_iff {c : Condition} {pair : String × String} :
    pair ∈ c.comparisons ↔
      c.comparison? = some pair ∨ ∃ child ∈ c.children, pair ∈ child.comparisons := by
  obtain ⟨label, table?, alias?, children⟩ := c
  rw [comparisons]
  split
  · next found hfound =>
    -- the children of a comparison are leaves
    obtain ⟨left, right, hchildren, hleft, hright, -⟩ :=
      comparison?_eq_some_iff.mp hfound
    rw [hfound, hchildren]
    simp [comparisons_of_children_eq_nil hleft, comparisons_of_children_eq_nil hright, eq_comm]
  · next hnone =>
    rw [hnone, comparisonsOfAll_eq, List.mem_flatMap]
    simp [Condition.children]

/-! ## The parts of a condition -/

/-- The parts of a condition are itself, its children, their children and so on. -/
def HasPart (c part : Condition) : Prop :=
  Relation.ReflTransGen (fun c child ↦ child ∈ c.children) c part

/-- Some part of a condition has exactly two children, which have none themselves and refer to two
different names. -/
inductive Compares (c : Condition) (a b : String) : Prop
  | intro {part left right : Condition} (has_part : c.HasPart part)
      (children : part.children = [left, right])
      (left_leaf : left.children = []) (right_leaf : right.children = [])
      (left_reference : left.reference? = some a) (right_reference : right.reference? = some b)
      (different : a ≠ b)

theorem hasPart_iff {c part : Condition} :
    c.HasPart part ↔ c = part ∨ ∃ child ∈ c.children, child.HasPart part := by
  rw [HasPart, Relation.ReflTransGen.cases_head_iff]
  rfl

theorem compares_iff {c : Condition} {a b : String} :
    c.Compares a b ↔ c.comparison? = some (a, b) ∨ ∃ child ∈ c.children, child.Compares a b := by
  constructor
  · rintro ⟨hpart, hchildren, hleft, hright, ha, hb, hne⟩
    rcases hasPart_iff.mp hpart with rfl | ⟨child, hchild, hpart⟩
    · exact Or.inl (comparison?_eq_some_iff.mpr ⟨_, _, hchildren, hleft, hright, ha, hb, hne⟩)
    · exact Or.inr ⟨child, hchild, ⟨hpart, hchildren, hleft, hright, ha, hb, hne⟩⟩
  · rintro (hroot | ⟨child, hchild, hpart, hchildren, hleft, hright, ha, hb, hne⟩)
    · obtain ⟨left, right, hchildren, hleft, hright, ha, hb, hne⟩ :=
        comparison?_eq_some_iff.mp hroot
      exact ⟨.refl, hchildren, hleft, hright, ha, hb, hne⟩
    · exact ⟨hasPart_iff.mpr (Or.inr ⟨child, hchild, hpart⟩), hchildren, hleft, hright, ha, hb, hne⟩

/-- **Nothing is lost below a comparison**: it compares the two names of its root, and nothing else. -/
theorem compares_iff_of_comparison? {c : Condition} {x y a b : String}
    (h : c.comparison? = some (x, y)) : c.Compares a b ↔ a = x ∧ b = y := by
  obtain ⟨left, right, hchildren, hleft, hright, -⟩ := comparison?_eq_some_iff.mp h
  have hleaf {leaf : Condition} (hleaf : leaf.children = []) : ¬leaf.Compares a b := by
    rw [compares_iff, comparison?_eq_some_iff, hleaf]
    simp
  rw [compares_iff, h, hchildren]
  simp [hleaf hleft, hleaf hright, eq_comm]

theorem Compares.ne {c : Condition} {a b : String} (h : c.Compares a b) : a ≠ b := by
  obtain ⟨-, -, -, -, -, -, hne⟩ := h
  exact hne

/-! ## Size -/

theorem sizeOfAll_append (cs ds : List Condition) :
    sizeOfAll (cs ++ ds) = sizeOfAll cs + sizeOfAll ds := by
  induction cs with
  | nil => rw [List.nil_append, sizeOfAll, Nat.zero_add]
  | cons c cs ih => rw [List.cons_append, sizeOfAll, sizeOfAll, ih, Nat.add_assoc]

theorem size_eq (c : Condition) : c.size = 1 + sizeOfAll c.children := by
  obtain ⟨label, table?, alias?, children⟩ := c
  rw [size, Condition.children]

theorem size_lt_of_mem_children {c child : Condition} (h : child ∈ c.children) :
    child.size < c.size := by
  obtain ⟨before, after, hchildren⟩ := List.append_of_mem h
  rw [c.size_eq, hchildren, sizeOfAll_append, sizeOfAll]
  omega

theorem mem_comparisons_iff_compares {c : Condition} {a b : String} :
    (a, b) ∈ c.comparisons ↔ c.Compares a b := by
  rw [mem_comparisons_iff, compares_iff]
  refine or_congr_right (exists_congr fun child ↦ and_congr_right fun hchild ↦ ?_)
  exact mem_comparisons_iff_compares
termination_by c.size
decreasing_by exact size_lt_of_mem_children hchild

end JoinOrder.Condition
