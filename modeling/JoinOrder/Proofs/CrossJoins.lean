import JoinOrder.Proofs.Components
import JoinOrder.Proofs.JoinGraph
import JoinOrder.Proofs.NestedLoop
import JoinOrder.Proofs.Search.GraphGreedy
/-!
# Cross joins

The operands of a query are the vertices of a graph, in which joinable operands are adjacent. The greedy
order is guided by it, so it takes up one component after the other and cross joins once for each.

The nested loop cost model decides for itself which operands it scans, by the operands bound outside of
them. These are the operands at which the order crosses over. So it scans as many operands of the greedy
order as there are components, and not fewer of any other order.
-/

namespace JoinOrder

variable {σ : Type}

/-! ## The graph of the operands -/

namespace JoinGraph

/-- The operands of a list, each adjacent to the others it is joinable to. -/
def operandGraph (g : JoinGraph) (operands : List Operand) : SimpleGraph (Fin operands.length) where
  Adj i j := i ≠ j ∧ g.operandsJoinable operands[i] operands[j] = true
  symm := ⟨fun _ _ h ↦ ⟨h.1.symm, (g.operandsJoinable_comm _ _).trans h.2⟩⟩
  loopless := ⟨fun _ h ↦ h.1 rfl⟩

instance (g : JoinGraph) (operands : List Operand) : DecidableRel (g.operandGraph operands).Adj :=
  fun i j ↦ inferInstanceAs (Decidable (i ≠ j ∧ g.operandsJoinable operands[i] operands[j] = true))

end JoinGraph

/-! ## Orders as lists of vertices -/

section Vertices

variable {n : ℕ}

theorem exists_vertices {order : List ℕ} (h : order.Perm (List.range n)) :
    ∃ vertices : List (Fin n), order = vertices.map Fin.val := by
  have hlt : ∀ i ∈ order, i < n := fun i hi ↦ List.mem_range.mp (h.mem_iff.mp hi)
  lift order to List (Fin n) using hlt
  exact ⟨order, rfl⟩

theorem isVertexOrder_of_perm {vertices : List (Fin n)}
    (h : (vertices.map Fin.val).Perm (List.range n)) : IsVertexOrder vertices := by
  constructor
  · exact List.Nodup.of_map _ (h.nodup_iff.mpr List.nodup_range)
  · intro v
    obtain ⟨w, hw, hwv⟩ := List.mem_map.mp (h.mem_iff.mpr (List.mem_range.mpr v.isLt))
    exact Fin.ext hwv ▸ hw

end Vertices

/-! ## The greedy order is guided -/

namespace GraphGreedy

variable {g : JoinGraph}

theorem joinable_of_mem_eligible {placed remaining : List Candidate} {c : Candidate}
    (h : c ∈ eligible g placed remaining) :
    (∃ q ∈ placed, g.operandsJoinable q.operand c.operand = true) ∨
      ∀ q ∈ placed, ∀ d ∈ remaining, g.operandsJoinable q.operand d.operand = false := by
  simp only [eligible, any_contains_reached] at h
  split at h
  · next hnone =>
    refine .inr fun q hq d hd ↦ ?_
    rw [List.isEmpty_iff, List.filter_eq_nil_iff] at hnone
    have := hnone d hd
    rw [List.any_eq_true, not_exists] at this
    exact Bool.eq_false_iff.mpr fun hjoinable ↦ this q ⟨hq, hjoinable⟩
  · obtain ⟨-, hany⟩ := List.mem_filter.mp h
    exact .inl (List.any_eq_true.mp hany)

theorem arrange_subset (count : ℕ) (placed remaining : List Candidate) :
    arrange g count placed remaining ⊆ remaining := by
  induction count generalizing placed remaining with
  | zero => exact List.nil_subset remaining
  | succ count ih =>
    rw [arrange]
    split
    · exact List.nil_subset remaining
    · next first rest heq =>
      refine List.cons_subset.mpr ⟨?_, ?_⟩
      · exact eligible_subset g placed remaining (heq ▸ smallestFrom_mem first rest)
      · exact List.Subset.trans (ih _ _) (List.filter_subset_self remaining)

theorem joinable_of_arrange {count : ℕ} {placed remaining before after : List Candidate}
    {c : Candidate} (h : arrange g count placed remaining = before ++ c :: after) :
    (∃ q ∈ placed ++ before, g.operandsJoinable q.operand c.operand = true) ∨
      ∀ q ∈ placed ++ before, ∀ d ∈ c :: after,
        g.operandsJoinable q.operand d.operand = false := by
  induction count generalizing placed remaining before with
  | zero => simp [arrange] at h
  | succ count ih =>
    have hsubset := arrange_subset (g := g) (count + 1) placed remaining
    rw [h] at hsubset
    rw [arrange] at h
    split at h
    · simp at h
    · next first rest heq =>
      cases before with
      | nil =>
        rw [List.append_nil]
        have hnext : c ∈ eligible g placed remaining := by
          rw [heq, ← (List.cons.inj h).1]
          exact smallestFrom_mem first rest
        refine (joinable_of_mem_eligible hnext).imp_right fun hnone q hq d hd ↦ ?_
        exact hnone q hq d (hsubset hd)
      | cons b before =>
        obtain ⟨rfl, hrest⟩ := List.cons.inj h
        have hnext := ih hrest
        rwa [List.append_assoc] at hnext

theorem map_operand_eq {operands : List Operand} {cs : List Candidate}
    {vertices : List (Fin operands.length)} (hids : cs.map Candidate.id = vertices.map Fin.val)
    (hoperand : ∀ c ∈ cs, operands[c.id]? = some c.operand) :
    cs.map Candidate.operand = vertices.map fun v ↦ operands[v] := by
  apply (Option.some_injective Operand).list_map
  calc (cs.map Candidate.operand).map some = cs.map fun c ↦ operands[c.id]? := by
        rw [List.map_map]
        exact List.map_congr_left fun c hc ↦ (hoperand c hc).symm
    _ = (cs.map Candidate.id).map (operands[·]?) := by rw [List.map_map]; rfl
    _ = (vertices.map fun v ↦ operands[v]).map some := by
        rw [hids, List.map_map, List.map_map]
        exact List.map_congr_left fun v _ ↦ List.getElem?_eq_getElem v.isLt

/-- **The greedy order is guided by the graph of the operands.** -/
theorem isGuided_order (g : JoinGraph) (source : RowSource σ) (operands : List Operand) (world : σ) :
    ∃ vertices : List (Fin operands.length),
      ((order g source operands).run world).1 = vertices.map Fin.val ∧
      IsVertexOrder vertices ∧ IsGuided (g.operandGraph operands) vertices := by
  obtain ⟨cs, -, hoperand, horder⟩ := run_order g source operands world
  have hperm := order_perm g source operands world
  obtain ⟨vertices, hvertices⟩ := exists_vertices hperm
  have hvertex := isVertexOrder_of_perm (hvertices ▸ hperm)
  refine ⟨vertices, hvertices, hvertex, ?_⟩
  intro before x after hsplit
  rw [horder, orderOf, hsplit, List.map_append] at hvertices
  obtain ⟨placed, rest, harrange, hplaced, hrest⟩ := List.map_eq_append_iff.mp hvertices
  obtain ⟨c, left, rfl, hc, hleft⟩ := List.map_eq_cons_iff.mp hrest
  have hall : ∀ d ∈ placed ++ c :: left, operands[d.id]? = some d.operand :=
    fun d hd ↦ hoperand d (arrange_subset _ _ _ (harrange ▸ hd))
  -- what is said of candidates is said of the operands they carry, and so of the vertices
  have hbefore := map_operand_eq hplaced fun d hd ↦ hall d (List.mem_append_left _ hd)
  have hafter : (c :: left).map Candidate.operand = (x :: after).map fun v ↦ operands[v] :=
    map_operand_eq hrest fun d hd ↦ hall d (List.mem_append_right _ hd)
  rcases joinable_of_arrange harrange with ⟨q, hq, hjoinable⟩ | hnone
  · rw [List.nil_append] at hq
    obtain ⟨w, hw, hwq⟩ := List.mem_map.mp (hbefore ▸ List.mem_map_of_mem hq)
    have hxc : c.operand = operands[x] := (List.cons.inj hafter).1
    refine .inl ⟨w, hw, ?_, ?_⟩
    · rintro rfl
      have hnodup := hvertex.nodup
      rw [hsplit] at hnodup
      exact List.disjoint_of_nodup_append hnodup hw List.mem_cons_self
    · rw [← hxc, hwq]
      exact hjoinable
  · refine .inr fun w hw y hy hadj ↦ ?_
    obtain ⟨q, hq, hqw⟩ := List.mem_map.mp
      (hbefore ▸ List.mem_map_of_mem (f := fun v ↦ operands[v]) hw)
    obtain ⟨d, hd, hdy⟩ := List.mem_map.mp
      (hafter ▸ List.mem_map_of_mem (f := fun v ↦ operands[v]) hy)
    have hfalse := hnone q hq d hd
    rw [hqw, hdy, hadj.2] at hfalse
    contradiction

end GraphGreedy

/-! ## The nested loop model scans where an order crosses over -/

namespace NestedLoop

variable {m : NestedLoop}

theorem isFullScan_choice (bound : List Operand) (o : Operand) :
    (m.choice bound o).isFullScan = true ↔
      ¬∃ outer ∈ bound, m.graph.operandsJoinable o outer = true := by
  have hempty : (m.dependencies bound o).isEmpty = true ↔
      ¬∃ outer ∈ bound, m.graph.operandsJoinable o outer = true := by
    rw [dependencies_eq, List.isEmpty_iff, List.map_eq_nil_iff, List.filter_eq_nil_iff]
    simp only [not_exists, not_and]
  rw [← hempty, choice]
  split
  · next hscanned => exact iff_of_true rfl hscanned
  · next hindexed => exact iff_of_false Bool.false_ne_true hindexed

theorem countP_access_nest (l : Loops) (o : Operand) (count : ℕ) :
    (m.nest l o count).access.countP Access.isFullScan =
      l.access.countP Access.isFullScan +
        if ∃ outer ∈ l.bound, m.graph.operandsJoinable o outer = true then 0 else 1 := by
  rw [access_nest, List.countP_append, List.countP_singleton]
  simp only [isFullScan_choice, ite_not]

variable {operands : List Operand}

/-- The operands scanned inside of others are those at which the order crosses over. -/
theorem countP_access_nestAll (source : RowSource σ) (l : Loops)
    {earlier rest : List (Fin operands.length)} (hbound : l.bound = earlier.map fun v ↦ operands[v])
    (hnodup : (earlier ++ rest).Nodup) (world : σ) :
    ((m.nestAll source l (rest.map fun v ↦ operands[v])).run world).1.access.countP
        Access.isFullScan =
      l.access.countP Access.isFullScan +
        (crossings (m.graph.operandGraph operands) earlier rest).length := by
  induction rest generalizing l earlier world with
  | nil => rfl
  | cons x rest ih =>
    set count := (source operands[x] world).1 with hcount
    have hbound' : (m.nest l operands[x] count).bound =
        (earlier ++ [x]).map fun v ↦ operands[v] := by
      rw [bound_nest, hbound, List.map_append, List.map_singleton]
    have hnodup' : ((earlier ++ [x]) ++ rest).Nodup := by
      rwa [List.append_assoc]
    have hrest := ih (m.nest l operands[x] count) hbound' hnodup' (source operands[x] world).2
    -- bound operands are other ones than the next, so joinable ones are adjacent
    have hadj : (∃ outer ∈ l.bound, m.graph.operandsJoinable operands[x] outer = true) ↔
        ∃ q ∈ earlier, (m.graph.operandGraph operands).Adj q x := by
      rw [hbound]
      simp only [List.mem_map, exists_exists_and_eq_and]
      refine exists_congr fun q ↦ and_congr_right fun hq ↦ ?_
      rw [m.graph.operandsJoinable_comm]
      refine ⟨fun hjoinable ↦ ⟨?_, hjoinable⟩, And.right⟩
      rintro rfl
      exact List.disjoint_of_nodup_append hnodup hq List.mem_cons_self
    change ((m.nestAll source (m.nest l operands[x] count) (rest.map fun v ↦ operands[v])).run
      (source operands[x] world).2).1.access.countP Access.isFullScan = _
    rw [hrest, countP_access_nest, crossings]
    by_cases hx : ∃ q ∈ earlier, (m.graph.operandGraph operands).Adj q x
    · rw [if_pos (hadj.mpr hx), if_pos hx, Nat.add_zero]
    · rw [if_neg (mt hadj.mp hx), if_neg hx, List.length_cons]
      omega

/-- **The model scans an operand for each crossing of the order.** -/
theorem countP_access_estimate (source : RowSource σ) {vertices : List (Fin operands.length)}
    (hnodup : vertices.Nodup) (condition? : Option Condition) (isSelect : Bool) (world : σ) :
    ∃ e, (((m.costModel source).estimate ⟨operands, vertices.map Fin.val, condition?⟩ isSelect).run
        world).1 = .ok e ∧
      e.access.countP Access.isFullScan =
        (crossings (m.graph.operandGraph operands) [] vertices).length := by
  have hbound : ({} : Loops).bound = ([] : List (Fin operands.length)).map fun v ↦ operands[v] := rfl
  have hcount := countP_access_nestAll (m := m) source {} hbound hnodup world
  exact ⟨_, run_costModel source vertices condition? isSelect world, hcount.trans (Nat.zero_add _)⟩

end NestedLoop

/-! ## Cross joins of the greedy order -/

/-- **The greedy order cross joins once for each component**, and takes up one component after the other.
The nested loop model over the same graph scans as many of its operands as there are components, and
scans no fewer in any other order. -/
theorem GraphGreedy.followsComponents_order {τ : Type} (g : JoinGraph) (source : RowSource σ)
    (operands : List Operand) (world : σ) :
    let G := g.operandGraph operands
    ∃ vertices : List (Fin operands.length),
      ((GraphGreedy.order g source operands).run world).1 = vertices.map Fin.val ∧
      IsVertexOrder vertices ∧ FollowsComponents G vertices ∧
      ∀ (depth : Float → Float) (rowCounts : RowSource τ) (condition? : Option Condition)
        (isSelect : Bool) (state : τ),
        let model : CostModel τ := ({ graph := g, depth } : NestedLoop).costModel rowCounts
        let estimate (order : List ℕ) : Except SearchError Estimate :=
          ((model.estimate ⟨operands, order, condition?⟩ isSelect).run state).1
        (∃ e, estimate (vertices.map Fin.val) = .ok e ∧
          e.access.countP Access.isFullScan = Nat.card G.ConnectedComponent) ∧
        ∀ order : List ℕ, order.Perm (List.range operands.length) →
          ∃ e, estimate order = .ok e ∧
            Nat.card G.ConnectedComponent ≤ e.access.countP Access.isFullScan := by
  intro G
  obtain ⟨vertices, horder, hvertex, hguided⟩ := GraphGreedy.isGuided_order g source operands world
  refine ⟨vertices, horder, hvertex, hguided.followsComponents hvertex, ?_⟩
  intro depth rowCounts condition? isSelect state model estimate
  have hscans {vertices : List (Fin operands.length)} (hvertex : IsVertexOrder vertices) :=
    NestedLoop.countP_access_estimate (m := { graph := g, depth }) rowCounts hvertex.nodup condition?
      isSelect state
  constructor
  · obtain ⟨e, he, hcount⟩ := hscans hvertex
    exact ⟨e, he, hcount.trans (hguided.length_crossings hvertex)⟩
  · intro order hperm
    obtain ⟨vertices', rfl⟩ := exists_vertices hperm
    have hvertex' := isVertexOrder_of_perm hperm
    obtain ⟨e, he, hcount⟩ := hscans hvertex'
    exact ⟨e, he, (card_le_length_crossings hvertex').trans_eq hcount.symm⟩

-- two operands without comparisons, then the pair that is joined, its smaller operand first
example : GraphGreedy.orderOf (JoinGraph.ofPairs [("a", "b")])
    [⟨0, { table := "a" }, 5⟩, ⟨1, { table := "b" }, 1⟩, ⟨2, { table := "c" }, 0⟩,
      ⟨3, { table := "d" }, 0⟩] = [2, 3, 1, 0] := by decide

end JoinOrder
