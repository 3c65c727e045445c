import JoinOrder.Proofs.RowCounts
import JoinOrder.Proofs.Search.Iteration
import Mathlib.Data.List.Nodup
import Mathlib.Data.List.Range
/-!
# The greedy order is an ordering

The greedy order is drawn from a shrinking list of candidates. Each step takes one of them and leaves
out all candidates of its position. As positions are distinct, it leaves out that one only, so the order
and the candidates left are together always the same operands. There is a candidate to take as long as
any is left, since all of them are eligible where none is joinable.
-/

namespace JoinOrder.GraphGreedy

open Problem

variable {σ : Type}

/-! ## One step -/

theorem smallestFrom_mem (first : Candidate) (rest : List Candidate) :
    smallestFrom first rest ∈ first :: rest := by
  induction rest generalizing first with
  | nil => exact List.mem_singleton_self first
  | cons c rest ih =>
    rw [smallestFrom]
    split
    · exact List.mem_cons_of_mem first (ih c)
    · rcases List.mem_cons.mp (ih first) with hfirst | hrest
      · rw [hfirst]
        exact List.mem_cons_self
      · exact List.mem_cons_of_mem first (List.mem_cons_of_mem c hrest)

theorem eligible_subset (g : JoinGraph) (placed remaining : List Candidate) :
    eligible g placed remaining ⊆ remaining := by
  unfold eligible
  dsimp only
  split
  · exact fun _ h ↦ h
  · exact List.filter_subset_self remaining

theorem eligible_ne_nil (g : JoinGraph) (placed : List Candidate) {remaining : List Candidate}
    (h : remaining ≠ []) : eligible g placed remaining ≠ [] := by
  unfold eligible
  dsimp only
  split
  · exact h
  · next hjoinable => exact fun hnil ↦ hjoinable (by rw [hnil]; rfl)

theorem perm_cons_map_filter {remaining : List Candidate} {c : Candidate}
    (hnodup : (remaining.map Candidate.id).Nodup) (hc : c ∈ remaining) :
    (c.id :: (remaining.filter fun d ↦ d.id ≠ c.id).map Candidate.id).Perm
      (remaining.map Candidate.id) := by
  have hmap : (remaining.filter fun d ↦ d.id ≠ c.id).map Candidate.id
      = (remaining.map Candidate.id).erase c.id := by
    rw [hnodup.erase_eq_filter, List.filter_map]
    congr 1
    exact List.filter_congr fun d _ ↦ by simp [bne, decide_not, beq_eq_decide]
  rw [hmap]
  exact (List.perm_cons_erase (List.mem_map_of_mem hc)).symm

/-! ## The whole order -/

theorem map_id_arrange_perm (g : JoinGraph) {count : ℕ} (placed : List Candidate)
    {remaining : List Candidate} (hnodup : (remaining.map Candidate.id).Nodup) (hlen : remaining.length = count) :
    ((arrange g count placed remaining).map Candidate.id).Perm (remaining.map Candidate.id) := by
  induction count generalizing placed remaining with
  | zero =>
    obtain rfl := List.length_eq_zero_iff.mp hlen
    exact .refl _
  | succ count ih =>
    have hne : remaining ≠ [] := List.ne_nil_of_length_eq_add_one hlen
    rw [arrange]
    split
    · next hnil => exact absurd hnil (eligible_ne_nil g placed hne)
    · next first rest heq =>
      have hmem : smallestFrom first rest ∈ remaining :=
        eligible_subset g placed remaining (heq ▸ smallestFrom_mem first rest)
      have hperm := perm_cons_map_filter hnodup hmem
      have hnodup' := (List.nodup_cons.mp (hperm.nodup_iff.mpr hnodup)).2
      have hlen' : (remaining.filter fun d ↦ d.id ≠ (smallestFrom first rest).id).length = count := by
        have := hperm.length_eq
        rw [List.length_cons, List.length_map, List.length_map] at this
        omega
      rw [List.map_cons]
      exact ((ih _ hnodup' hlen').cons _).trans hperm

theorem consult_bind {α β : Type} (act : StateM σ α) (next : α → StateM σ β) (s : Session σ) :
    Session.consult (act >>= next) s =
      Session.consult (next (Session.consult act s).1) (Session.consult act s).2 := rfl

theorem consult_mapM_rowCounts (p : Problem σ) (allowed : Move → Prop)
    (hallowed : ∀ o, allowed (.lookUp o)) (operands : List Operand) (s : Session σ) :
    p.Reaches allowed s (Session.consult (operands.mapM p.oracles.rowCounts) s).2 ∧
      (Session.consult (operands.mapM p.oracles.rowCounts) s).2.journal = s.journal := by
  induction operands generalizing s with
  | nil => exact ⟨.refl, rfl⟩
  | cons o operands ih =>
    obtain ⟨hreach, hjournal⟩ := ih (p.perform s (.lookUp o))
    rw [List.mapM_cons, consult_bind, consult_bind]
    exact ⟨(Reaches.single (hallowed o)).trans hreach, hjournal⟩

theorem map_id_zipIdx (operands : List Operand) {counts : List ℕ}
    (hlen : counts.length = operands.length) :
    ((operands.zip counts).zipIdx.map fun ((operand, rows), id) ↦
      ({ id, operand, rows } : Candidate)).map Candidate.id = List.range operands.length := by
  rw [List.map_map]
  change ((operands.zip counts).zipIdx.map Prod.snd) = _
  rw [List.zipIdx_map_snd, List.length_zip, hlen, Nat.min_self, List.range_eq_range']

theorem getElem?_of_mem_zipIdx {operands : List Operand} {counts : List ℕ} {c : Candidate}
    (h : c ∈ (operands.zip counts).zipIdx.map fun ((operand, rows), id) ↦
      ({ id, operand, rows } : Candidate)) :
    operands[c.id]? = some c.operand ∧ counts[c.id]? = some c.rows := by
  obtain ⟨⟨⟨operand, rows⟩, id⟩, hmem, rfl⟩ := List.mem_map.mp h
  exact List.getElem?_zip_eq_some.mp (List.mk_mem_zipIdx_iff_getElem?.mp hmem)

theorem run_order (g : JoinGraph) (source : RowSource σ) (operands : List Operand) (world : σ) :
    ∃ cs : List Candidate, cs.map Candidate.id = List.range operands.length ∧
      (∀ c ∈ cs, operands[c.id]? = some c.operand) ∧
      ((order g source operands).run world).1 = orderOf g cs := by
  refine ⟨_, map_id_zipIdx operands (source.length_run_mapM operands world), ?_, rfl⟩
  intro c hc
  exact (getElem?_of_mem_zipIdx hc).1

theorem order_perm (g : JoinGraph) (source : RowSource σ) (operands : List Operand) (world : σ) :
    ((order g source operands).run world).1.Perm (List.range operands.length) := by
  obtain ⟨cs, hids, -, horder⟩ := run_order g source operands world
  have hperm := map_id_arrange_perm g [] (by rw [hids]; exact List.nodup_range) (rfl : cs.length = _)
  rw [horder, ← hids]
  exact hperm

theorem consult_order (p : Problem σ) (allowed : Move → Prop) (hallowed : ∀ o, allowed (.lookUp o))
    (g : JoinGraph) (s : Session σ) :
    (Session.consult (order g p.oracles.rowCounts p.operands) s).1.Perm (List.range p.size) ∧
      p.Reaches allowed s (Session.consult (order g p.oracles.rowCounts p.operands) s).2 ∧
      (Session.consult (order g p.oracles.rowCounts p.operands) s).2.journal = s.journal := by
  refine ⟨order_perm g p.oracles.rowCounts p.operands s.world, ?_⟩
  rw [order, candidates, consult_bind, consult_bind]
  exact consult_mapM_rowCounts p allowed hallowed p.operands s

theorem ran_search (p : Problem σ) (s : Session σ) : p.Ran .graphGreedy 1 s (search p s) := by
  obtain ⟨hperm, hreach, hjournal⟩ :=
    consult_order p (Move.IsTrial p.size .graphGreedy) .lookUp (graphOf p) s
  exact ran_testOnce hperm hreach hjournal

end JoinOrder.GraphGreedy
