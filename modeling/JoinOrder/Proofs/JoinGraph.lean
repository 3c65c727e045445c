import JoinOrder.JoinGraph
import Mathlib.Data.Set.Card
import Mathlib.Data.Sym.Sym2
/-!
# The edges of a join graph

A join graph is built by recording pairs one after the other. Two names are joinable in it exactly when
one of the pairs is made of them, in either orientation, so it does not matter how often or in which
orientation a pair was recorded, nor what was recorded before it.

Which names are joinable decides all that a graph is asked. Its edges are distinct as unordered pairs, so
there are as many as there are pairs of joinable names, and a name is known to the graph if it is joinable
to some name.
-/

namespace JoinOrder.JoinGraph

variable {g : JoinGraph} {a b x y : String}

theorem isJoinable_iff : g.isJoinable a b = true ↔ (a, b) ∈ g.edges ∨ (b, a) ∈ g.edges := by
  simp only [isJoinable, List.contains_eq_mem, Bool.or_eq_true, decide_eq_true_eq]

theorem isJoinable_comm (g : JoinGraph) (a b : String) : g.isJoinable a b = g.isJoinable b a :=
  Bool.or_comm _ _

theorem operandsJoinable_comm (g : JoinGraph) (o o' : Operand) :
    g.operandsJoinable o o' = g.operandsJoinable o' o := by
  rw [Bool.eq_iff_iff]
  simp only [operandsJoinable, List.any_eq_true]
  constructor
  · rintro ⟨l, hl, r, hr, h⟩
    exact ⟨r, hr, l, hl, (g.isJoinable_comm r l).trans h⟩
  · rintro ⟨l, hl, r, hr, h⟩
    exact ⟨r, hr, l, hl, (g.isJoinable_comm r l).trans h⟩

theorem isJoinable_addEdge_iff :
    (g.addEdge a b).isJoinable x y = true ↔
      g.isJoinable x y = true ∨ (x = a ∧ y = b) ∨ (x = b ∧ y = a) := by
  unfold addEdge
  split
  · next hab =>
    constructor
    · exact Or.inl
    · rintro (h | ⟨rfl, rfl⟩ | ⟨rfl, rfl⟩)
      · exact h
      · exact hab
      · exact (g.isJoinable_comm x y).trans hab
  · simp only [isJoinable_iff, List.mem_append, List.mem_singleton, Prod.mk.injEq]
    grind

/-- **The edges are the pairs recorded**, in either orientation. -/
theorem isJoinable_ofPairs_iff (pairs : List (String × String)) :
    (ofPairs pairs).isJoinable a b = true ↔ (a, b) ∈ pairs ∨ (b, a) ∈ pairs := by
  suffices h : ∀ g : JoinGraph,
      (pairs.foldl (fun g pair ↦ g.addEdge pair.1 pair.2) g).isJoinable a b = true ↔
        g.isJoinable a b = true ∨ (a, b) ∈ pairs ∨ (b, a) ∈ pairs by
    rw [ofPairs, h empty]
    simp [isJoinable_iff, empty]
  induction pairs with
  | nil => simp
  | cons pair pairs ih =>
    intro g
    rw [List.foldl_cons, ih, isJoinable_addEdge_iff]
    simp only [List.mem_cons, Prod.ext_iff]
    grind

/-! ## The unordered pairs a graph holds -/

/-- The graph holds just the unordered pairs of a set: those are joinable, each is counted as one edge, and
the names known are those that occur in one. -/
structure Represents (g : JoinGraph) (pairs : Set (Sym2 String)) : Prop where
  isJoinable_iff : ∀ a b, g.isJoinable a b = true ↔ s(a, b) ∈ pairs
  encard_eq : pairs.encard = g.edgeCount
  contains_iff : ∀ a, g.contains a = true ↔ ∃ b, s(a, b) ∈ pairs

theorem nodup_edges (g : JoinGraph) : (g.edges.map fun e ↦ s(e.1, e.2)).Nodup := by
  rw [List.Nodup, List.pairwise_map]
  refine g.distinct.imp fun {e f} h heq ↦ ?_
  rcases Sym2.eq_iff.mp heq with ⟨h₁, h₂⟩ | ⟨h₁, h₂⟩
  · exact h.1 (Prod.ext h₁ h₂)
  · exact h.2 (Prod.ext h₁ h₂)

theorem mem_edges_iff : s(a, b) ∈ g.edges.map (fun e ↦ s(e.1, e.2)) ↔ g.isJoinable a b = true := by
  simp only [List.mem_map, Prod.exists, Sym2.eq_iff, isJoinable_iff]
  constructor
  · rintro ⟨x, y, hxy, ⟨rfl, rfl⟩ | ⟨rfl, rfl⟩⟩
    · exact Or.inl hxy
    · exact Or.inr hxy
  · rintro (h | h)
    · exact ⟨a, b, h, Or.inl ⟨rfl, rfl⟩⟩
    · exact ⟨b, a, h, Or.inr ⟨rfl, rfl⟩⟩

/-- **A neighbour is listed once.** -/
theorem nodup_neighbors (g : JoinGraph) (a : String) : (g.neighbors a).Nodup := by
  have hends {e : String × String} {b : String}
      (hb : (if e.1 = a then some e.2 else if e.2 = a then some e.1 else none) = some b) :
      s(e.1, e.2) = s(a, b) := by
    grind [Sym2.eq_swap]
  rw [neighbors, List.Nodup, List.pairwise_filterMap]
  refine (List.pairwise_map.mp g.nodup_edges).imp fun {e f} hne b hb b' hb' heq ↦ hne ?_
  rw [hends hb, hends hb', heq]

theorem contains_iff_exists_isJoinable : g.contains a = true ↔ ∃ b, g.isJoinable a b = true := by
  simp only [contains, List.any_eq_true, Bool.or_eq_true, beq_iff_eq, Prod.exists, isJoinable_iff]
  constructor
  · rintro ⟨x, y, hxy, rfl | rfl⟩
    · exact ⟨y, Or.inl hxy⟩
    · exact ⟨x, Or.inr hxy⟩
  · rintro ⟨b, h | h⟩
    · exact ⟨a, b, h, Or.inl rfl⟩
    · exact ⟨b, a, h, Or.inr rfl⟩

/-- **A graph is known by the names that are joinable in it.** -/
theorem represents_of_isJoinable_iff {pairs : Set (Sym2 String)}
    (h : ∀ a b, g.isJoinable a b = true ↔ s(a, b) ∈ pairs) : g.Represents pairs where
  isJoinable_iff := h
  encard_eq := by
    have hpairs : pairs = ↑(g.edges.map fun e ↦ s(e.1, e.2)).toFinset := by
      ext pair
      induction pair using Sym2.ind with
      | _ x y => rw [Finset.mem_coe, List.mem_toFinset, mem_edges_iff, h]
    rw [hpairs, Set.encard_coe_eq_coe_finsetCard, List.toFinset_card_of_nodup g.nodup_edges,
      List.length_map, edgeCount]
  contains_iff x := by
    rw [contains_iff_exists_isJoinable]
    exact exists_congr (h x)

end JoinOrder.JoinGraph
