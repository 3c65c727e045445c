import Mathlib.Combinatorics.SimpleGraph.Connectivity.Connected
import Mathlib.SetTheory.Cardinal.Finite
/-!
# Orders of the vertices of a graph

An order of the vertices *crosses over* at a vertex to which none before it is adjacent. It does so at
the first vertex of every component, so no order crosses over less often than there are components.

An order is *guided* by the graph if it crosses over only where it has to, when nothing placed is adjacent
to anything left. What is placed is closed under adjacency then, so all components begun are complete.
A guided order thus completes one component before it begins another, and crosses over once for each.
-/

namespace JoinOrder

variable {V : Type} {G : SimpleGraph V} {order before after : List V} {x y : V}

/-- A list of all vertices, each once. -/
structure IsVertexOrder (order : List V) : Prop where
  nodup : order.Nodup
  mem : ∀ v, v ∈ order

/-- The order crosses over at a vertex. -/
def CrossesAt (G : SimpleGraph V) (order : List V) (x : V) : Prop :=
  ∃ before after, order = before ++ x :: after ∧ ∀ q ∈ before, ¬G.Adj q x

/-- The order crosses over only when nothing before is adjacent to anything left. -/
def IsGuided (G : SimpleGraph V) (order : List V) : Prop :=
  ∀ before x after, order = before ++ x :: after →
    (∃ q ∈ before, G.Adj q x) ∨ ∀ q ∈ before, ∀ y ∈ x :: after, ¬G.Adj q y

/-- An order that takes up one component after the other. -/
structure FollowsComponents (G : SimpleGraph V) (order : List V) : Prop where
  /-- Between two vertices of a component are vertices of this component only. -/
  contiguous : ∀ before x between y after, order = before ++ x :: (between ++ y :: after) →
    G.Reachable x y → ∀ z ∈ between, G.Reachable x z
  /-- A vertex that is not the first of its component is adjacent to an earlier one. -/
  joined : ∀ before x after, order = before ++ x :: after → (∃ w ∈ before, G.Reachable w x) →
    ∃ q ∈ before, G.Adj q x
  /-- Each component is crossed over to once. -/
  crossesOnce : ∀ c : G.ConnectedComponent,
    ∃! x, G.connectedComponentMk x = c ∧ CrossesAt G order x

theorem exists_crossesAt (horder : IsVertexOrder order) (c : G.ConnectedComponent) :
    ∃ x, G.connectedComponentMk x = c ∧ CrossesAt G order x := by
  obtain ⟨v, rfl⟩ := c.exists_rep
  obtain ⟨before, after, hsplit, hfirst⟩ :=
    List.eq_append_cons_of_mem (List.mem_map_of_mem (f := G.connectedComponentMk) (horder.mem v))
  obtain ⟨before, rest, rfl, rfl, hrest⟩ := List.map_eq_append_iff.mp hsplit
  obtain ⟨x, after, rfl, hx, -⟩ := List.map_eq_cons_iff.mp hrest
  refine ⟨x, hx, before, after, rfl, fun q hq hadj ↦ hfirst ?_⟩
  have hcomponent : G.connectedComponentMk q = G.connectedComponentMk v :=
    (SimpleGraph.ConnectedComponent.eq.mpr hadj.reachable).trans hx
  exact hcomponent ▸ List.mem_map_of_mem hq

/-! ## Counting the crossings -/

section Crossings

variable [DecidableRel G.Adj]

/-- The vertices of a list at which an order crosses over that has begun with the earlier ones. -/
def crossings (G : SimpleGraph V) [DecidableRel G.Adj] : (earlier rest : List V) → List V
  | _, [] => []
  | earlier, x :: rest =>
    if ∃ q ∈ earlier, G.Adj q x then crossings G (earlier ++ [x]) rest
    else x :: crossings G (earlier ++ [x]) rest

theorem mem_crossings_iff (earlier rest : List V) :
    x ∈ crossings G earlier rest ↔
      ∃ before after, rest = before ++ x :: after ∧ ∀ q ∈ earlier ++ before, ¬G.Adj q x := by
  induction rest generalizing earlier with
  | nil => simp [crossings]
  | cons y rest ih =>
    -- a vertex is the first one of the rest, or crosses over further on
    have hsplit : (∃ before after, y :: rest = before ++ x :: after ∧
          ∀ q ∈ earlier ++ before, ¬G.Adj q x) ↔
        (x = y ∧ ∀ q ∈ earlier, ¬G.Adj q x) ∨ x ∈ crossings G (earlier ++ [y]) rest := by
      rw [ih]
      constructor
      · rintro ⟨_ | ⟨z, before⟩, after, heq, hnone⟩
        · obtain ⟨rfl, -⟩ := List.cons.inj heq
          exact .inl ⟨rfl, by simpa using hnone⟩
        · obtain ⟨rfl, hrest⟩ := List.cons.inj heq
          exact .inr ⟨before, after, hrest, by simpa using hnone⟩
      · rintro (⟨rfl, hnone⟩ | ⟨before, after, rfl, hnone⟩)
        · exact ⟨[], rest, rfl, by simpa using hnone⟩
        · exact ⟨y :: before, after, rfl, by simpa using hnone⟩
    rw [hsplit, crossings]
    split
    · next hadj =>
      refine ⟨Or.inr, ?_⟩
      rintro (⟨rfl, hnone⟩ | hin)
      · obtain ⟨q, hq, hqx⟩ := hadj
        exact absurd hqx (hnone q hq)
      · exact hin
    · next hadj =>
      rw [List.mem_cons]
      refine or_congr_left ⟨?_, And.left⟩
      rintro rfl
      exact ⟨rfl, fun q hq hqx ↦ hadj ⟨q, hq, hqx⟩⟩

theorem mem_crossings_nil_iff : x ∈ crossings G [] order ↔ CrossesAt G order x :=
  mem_crossings_iff [] order

theorem crossings_sublist (earlier rest : List V) : (crossings G earlier rest).Sublist rest := by
  induction rest generalizing earlier with
  | nil => exact .refl []
  | cons y rest ih =>
    rw [crossings]
    split
    · exact (ih _).cons y
    · exact (ih _).cons_cons y

theorem surjective_crossings (horder : IsVertexOrder order) : Function.Surjective
    fun i : Fin (crossings G [] order).length ↦
      G.connectedComponentMk (crossings G [] order)[i] := by
  intro c
  obtain ⟨x, hx, hcross⟩ := exists_crossesAt horder c
  obtain ⟨i, hi, hget⟩ := List.getElem_of_mem (mem_crossings_nil_iff.mpr hcross)
  exact ⟨⟨i, hi⟩, (congrArg G.connectedComponentMk hget).trans hx⟩

/-- **No order crosses over less often than there are components.** -/
theorem card_le_length_crossings (horder : IsVertexOrder order) :
    Nat.card G.ConnectedComponent ≤ (crossings G [] order).length := by
  simpa using Nat.card_le_card_of_surjective _ (surjective_crossings horder)

end Crossings

/-! ## Guided orders -/

theorem mem_of_reachable {placed : List V} (hclosed : ∀ q ∈ placed, ∀ v, G.Adj q v → v ∈ placed)
    (hx : x ∈ placed) (h : G.Reachable x y) : y ∈ placed := by
  rw [SimpleGraph.reachable_iff_reflTransGen] at h
  induction h with
  | refl => exact hx
  | tail _ hadj ih => exact hclosed _ ih _ hadj

namespace IsGuided

variable (h : IsGuided G order) (horder : IsVertexOrder order)

include h horder

theorem adj_of_reachable (hsplit : order = before ++ x :: after) {w : V} (hw : w ∈ before)
    (hy : y ∈ x :: after) (hwy : G.Reachable w y) : ∃ q ∈ before, G.Adj q x := by
  rcases h before x after hsplit with hadj | hclosed
  · exact hadj
  · have hin : y ∈ before := by
      refine mem_of_reachable ?_ hw hwy
      intro q hq v hqv
      have hv := horder.mem v
      rw [hsplit] at hv
      rcases List.mem_append.mp hv with hv | hv
      · exact hv
      · exact absurd hqv (hclosed q hq v hv)
    have hnodup := horder.nodup
    rw [hsplit] at hnodup
    exact absurd hy (List.disjoint_of_nodup_append hnodup hin)

theorem reachable_of_open {placed left : List V} (hsplit : order = placed ++ left) {w w' r r' : V}
    (hw : w ∈ placed) (hr : r ∈ left) (hwr : G.Reachable w r) (hw' : w' ∈ placed) (hr' : r' ∈ left)
    (hwr' : G.Reachable w' r') : G.Reachable w w' := by
  induction placed using List.reverseRecOn generalizing left w w' r r' with
  | nil => contradiction
  | append_singleton placed x ih =>
    have hsplit' : order = placed ++ x :: left := by rw [hsplit, List.append_assoc]; rfl
    -- a vertex placed last continues the component of one before it that is not complete
    have hlast {w r : V} (hw : w ∈ placed) (hr : r ∈ left) (hwr : G.Reachable w r) :
        G.Reachable w x := by
      have hr' : r ∈ x :: left := List.mem_cons_of_mem x hr
      obtain ⟨q, hq, hqx⟩ := h.adj_of_reachable horder hsplit' hw hr' hwr
      exact (ih hsplit' hw hr' hwr hq List.mem_cons_self hqx.reachable).trans hqx.reachable
    rcases List.mem_append.mp hw with hwin | hwlast
    · rcases List.mem_append.mp hw' with hwin' | hwlast'
      · exact (hlast hwin hr hwr).trans (hlast hwin' hr' hwr').symm
      · obtain rfl := List.mem_singleton.mp hwlast'
        exact hlast hwin hr hwr
    · obtain rfl := List.mem_singleton.mp hwlast
      rcases List.mem_append.mp hw' with hwin' | hwlast'
      · exact (hlast hwin' hr' hwr').symm
      · obtain rfl := List.mem_singleton.mp hwlast'
        exact .refl _

/-- **Components are contiguous.** -/
theorem reachable_of_between {between : List V} {z : V}
    (hsplit : order = before ++ x :: (between ++ y :: after)) (hxy : G.Reachable x y)
    (hz : z ∈ between) : G.Reachable x z := by
  obtain ⟨between, rest, rfl⟩ := List.append_of_mem hz
  have hsplit' : order = (before ++ x :: between) ++ z :: (rest ++ y :: after) := by
    rw [hsplit]
    simp only [List.append_assoc, List.cons_append]
  have hx : x ∈ before ++ x :: between := by simp
  have hy : y ∈ z :: (rest ++ y :: after) := by simp
  obtain ⟨q, hq, hqz⟩ := h.adj_of_reachable horder hsplit' hx hy hxy
  have hxq := h.reachable_of_open horder hsplit' hx hy hxy hq List.mem_cons_self hqz.reachable
  exact hxq.trans hqz.reachable

theorem not_mem_of_crossesAt (hsplit : order = before ++ y :: after)
    (hcross : ∀ q ∈ before, ¬G.Adj q y) (hxy : G.Reachable x y) : x ∉ before := by
  intro hx
  obtain ⟨q, hq, hqy⟩ := h.adj_of_reachable horder hsplit hx List.mem_cons_self hxy
  exact hcross q hq hqy

theorem eq_of_crossesAt (hx : CrossesAt G order x) (hy : CrossesAt G order y)
    (hxy : G.Reachable x y) : x = y := by
  obtain ⟨before, after, hsplit, hcross⟩ := hx
  obtain ⟨before', after', hsplit', hcross'⟩ := hy
  have hyx := h.not_mem_of_crossesAt horder hsplit hcross hxy.symm
  have hxy' := h.not_mem_of_crossesAt horder hsplit' hcross' hxy
  -- of the two vertices, the one that comes later has the other one before it
  rcases List.append_eq_append_iff.mp (hsplit.symm.trans hsplit') with
    ⟨_ | ⟨z, between⟩, hbefore, hrest⟩ | ⟨_ | ⟨z, between⟩, hbefore, hrest⟩
  · exact (List.cons.inj hrest).1
  · obtain ⟨rfl, -⟩ := List.cons.inj hrest
    exact absurd (by simp [hbefore]) hxy'
  · exact (List.cons.inj hrest).1.symm
  · obtain ⟨rfl, -⟩ := List.cons.inj hrest
    exact absurd (by simp [hbefore]) hyx

/-- **A guided order crosses over once in each component.** -/
theorem existsUnique_crossesAt (c : G.ConnectedComponent) :
    ∃! x, G.connectedComponentMk x = c ∧ CrossesAt G order x := by
  obtain ⟨x, rfl, hx⟩ := exists_crossesAt horder c
  refine ⟨x, ⟨rfl, hx⟩, ?_⟩
  rintro y ⟨hyx, hy⟩
  exact h.eq_of_crossesAt horder hy hx (SimpleGraph.ConnectedComponent.eq.mp hyx)

theorem length_crossings [DecidableRel G.Adj] :
    (crossings G [] order).length = Nat.card G.ConnectedComponent := by
  have hcrosses (i : Fin (crossings G [] order).length) :
      CrossesAt G order (crossings G [] order)[i] :=
    mem_crossings_nil_iff.mp (List.getElem_mem i.isLt)
  have hnodup := (crossings_sublist (G := G) [] order).nodup horder.nodup
  have hbijective : Function.Bijective
      fun i : Fin (crossings G [] order).length ↦
        G.connectedComponentMk (crossings G [] order)[i] := by
    constructor
    · intro i j hij
      have heq := h.eq_of_crossesAt horder (hcrosses i) (hcrosses j)
        (SimpleGraph.ConnectedComponent.eq.mp hij)
      exact Fin.ext (hnodup.getElem_inj_iff.mp heq)
    · exact surjective_crossings horder
  simpa using Nat.card_eq_of_bijective _ hbijective

theorem followsComponents : FollowsComponents G order where
  contiguous _ _ _ _ _ hsplit hxy _ hz := h.reachable_of_between horder hsplit hxy hz
  joined _ _ _ hsplit hfirst := by
    obtain ⟨w, hw, hwx⟩ := hfirst
    exact h.adj_of_reachable horder hsplit hw List.mem_cons_self hwx
  crossesOnce c := h.existsUnique_crossesAt horder c

end IsGuided

end JoinOrder
