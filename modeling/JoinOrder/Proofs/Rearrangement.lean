import JoinOrder.Proofs.GreedyOrder
import Mathlib.Tactic.FinCases
/-!
# The same tables named in another order

A query may name its tables in any order. If no two operands have equally many rows, this makes no
difference to the greedy order: it is the same sequence of operands, wherever the query names them.

What may follow the operands placed is said without their positions, so an equivalence between the
positions in two lists takes the one rule of choice to the other. Only ties are settled by position, and
there are none. A greedy order of the one list is so taken to a greedy order of the other, and there is
only one.
-/

namespace JoinOrder

variable {σ : Type}

theorem IsVertexOrder.map {n m : ℕ} {vertices : List (Fin n)} (h : IsVertexOrder vertices)
    (e : Fin n ≃ Fin m) : IsVertexOrder (vertices.map e) where
  nodup := h.nodup.map e.injective
  mem v := by
    obtain ⟨w, rfl⟩ := e.surjective v
    exact List.mem_map_of_mem (h.mem w)

namespace GraphGreedy

variable {g : JoinGraph} {count : Operand → ℕ} {operands operands' : List Operand}
  {e : Fin operands.length ≃ Fin operands'.length} {placed : List (Fin operands.length)}
  {x : Fin operands.length}

/-! ## The rule in both lists -/

section Map

variable (he : ∀ v, operands'.get (e v) = operands.get v)

include he

theorem isReached_map : IsReached g operands' (placed.map e) (e x) ↔ IsReached g operands placed x := by
  simp only [isReached_iff, List.mem_map, exists_exists_and_eq_and, he]

theorem mayFollow_map : MayFollow g operands' (placed.map e) (e x) ↔ MayFollow g operands placed x := by
  rw [MayFollow, MayFollow, List.mem_map_of_injective e.injective, isReached_map he,
    e.surjective.forall]
  simp only [List.mem_map_of_injective e.injective, isReached_map he]

theorem Follows.map (hcounts : Function.Injective fun v ↦ count (operands.get v))
    (h : Follows g count operands placed x) : Follows g count operands' (placed.map e) (e x) := by
  refine ⟨(mayFollow_map he).mpr h.mayFollow, fun y hy ↦ ?_, fun y hy heq ↦ ?_⟩
  · obtain ⟨y, rfl⟩ := e.surjective y
    rw [he, he]
    exact h.count_le y ((mayFollow_map he).mp hy)
  · obtain ⟨y, rfl⟩ := e.surjective y
    rw [he, he] at heq
    rw [hcounts heq]

theorem IsGreedyOrder.map {vertices : List (Fin operands.length)}
    (hcounts : Function.Injective fun v ↦ count (operands.get v))
    (h : IsGreedyOrder g count operands vertices) :
    IsGreedyOrder g count operands' (vertices.map e) := by
  intro pos y hy
  rw [List.getElem?_map] at hy
  obtain ⟨x, hx, rfl⟩ := Option.map_eq_some_iff.mp hy
  rw [← List.map_take]
  exact (h pos x hx).map he hcounts

end Map

/-! ## The order of both lists -/

/-- **The greedy order does not depend on the order in which a query names its tables**, if no two of them
have equally many rows: over a rearranged list it is the same sequence of operands, with the ids that they
have there. -/
theorem order_of_rearranged {source : RowSource σ} {world world' : σ}
    (hsource : source.AnswersAs count world) (hsource' : source.AnswersAs count world')
    (hcounts : (operands.map count).Nodup) (he : ∀ v, operands'.get (e v) = operands.get v)
    (g : JoinGraph) :
    ∃ vertices : List (Fin operands.length),
      ((order g source operands).run world).1 = vertices.map Fin.val ∧
      ((order g source operands').run world').1 = vertices.map (fun v ↦ (e v).val) ∧
      ((order g source operands').run world').1.map (operands'[·]?) =
        ((order g source operands).run world).1.map (operands[·]?) := by
  obtain ⟨vertices, horder, hvertex, hgreedy⟩ := exists_isGreedyOrder hsource g operands
  obtain ⟨vertices', horder', hvertex', hgreedy'⟩ := exists_isGreedyOrder hsource' g operands'
  have hinjective : Function.Injective fun v ↦ count (operands.get v) := by
    intro v w hvw
    apply List.nodup_iff_injective_get.mp (List.Nodup.of_map count hcounts)
    exact List.inj_on_of_nodup_map hcounts (List.get_mem _ _) (List.get_mem _ _) hvw
  obtain rfl : vertices' = vertices.map e :=
    hgreedy'.unique (hgreedy.map he hinjective) hvertex' (hvertex.map e)
  rw [List.map_map] at horder'
  refine ⟨vertices, horder, horder', ?_⟩
  rw [horder, horder', List.map_map, List.map_map]
  refine List.map_congr_left fun v _ ↦ ?_
  calc operands'[(e v).val]? = some (operands'.get (e v)) := List.getElem?_eq_getElem (e v).isLt
    _ = some (operands.get v) := congrArg some (he v)
    _ = operands[v.val]? := (List.getElem?_eq_getElem v.isLt).symm

/-- Three operands of different sizes, the first one to be joined to the other two. -/
def spread : List Operand := [{ table := "a" }, { table := "b" }, { table := "c" }]

/-- The rows of the three. -/
def spreadCount : Operand → ℕ := RowCounts.ofOperand ⟨[("a", 3), ("b", 7), ("c", 5)]⟩

theorem spread_reverse (v : Fin spread.length) :
    spread.reverse.get (Fin.revPerm v) = spread.get v := by
  fin_cases v <;> rfl

/-- Named backwards, the three come in the same order. -/
theorem order_of_spread_reverse :
    (listing spreadCount).AnswersAs spreadCount [] ∧ (spread.map spreadCount).Nodup ∧
      ((order (.ofPairs [("a", "b"), ("a", "c")]) (listing spreadCount) spread).run []).1 = [0, 2, 1] ∧
      ((order (.ofPairs [("a", "b"), ("a", "c")]) (listing spreadCount) spread.reverse).run []).1 =
        [2, 0, 1] := by
  have hsource := answersAs_listing spreadCount []
  have hcounts : (spread.map spreadCount).Nodup := by decide
  have horder : ((order (.ofPairs [("a", "b"), ("a", "c")]) (listing spreadCount) spread).run []).1 =
      [0, 2, 1] := by rfl
  obtain ⟨vertices, hvertices, hreverse, -⟩ := order_of_rearranged hsource hsource hcounts
    spread_reverse (.ofPairs [("a", "b"), ("a", "c")])
  rw [horder] at hvertices
  refine ⟨hsource, hcounts, horder, hreverse.trans ?_⟩
  calc vertices.map (fun v ↦ (Fin.revPerm v).val) = (vertices.map Fin.val).map (2 - ·) := by
        rw [List.map_map]
        exact List.map_congr_left fun v _ ↦ (Fin.val_rev v).trans (Nat.succ_sub_succ 2 v)
    _ = [2, 0, 1] := by rw [← hvertices]; rfl

end GraphGreedy

end JoinOrder
