import JoinOrder.Proofs.CrossJoins
/-!
# What the greedy order takes next

The greedy order is described by the rule it follows at each position: of the operands that may come next
it takes the smallest, and of several the one the query names first. Those joinable to an operand placed
may come next, or all that are left where there are none.

The order keeps the operands left as candidates, in the order of the query, and goes through the eligible
ones with a running minimum that only a smaller one replaces. So of equally small ones it ends with the one
that comes first in the list. That is the one with the least id as long as the list is in the order of the
query, and taking candidates out of it keeps it so.

The rule leaves no choice, so operands have one greedy order.
-/

namespace JoinOrder

variable {σ : Type}

namespace GraphGreedy

variable {g : JoinGraph}

/-! ## Choosing among candidates -/

/-- A candidate is the smallest of a list, and of several has the least id. -/
structure IsFirstSmallest (cs : List Candidate) (c : Candidate) : Prop where
  mem : c ∈ cs
  rows_le : ∀ d ∈ cs, c.rows ≤ d.rows
  id_le : ∀ d ∈ cs, d.rows = c.rows → c.id ≤ d.id

/-- The candidates are in the order of the query. -/
abbrev IsInOrder (cs : List Candidate) : Prop := cs.Pairwise fun c d ↦ c.id < d.id

theorem IsFirstSmallest.next {seen : List Candidate} {first c : Candidate}
    (h : IsFirstSmallest seen first) (hlater : ∀ d ∈ seen, d.id < c.id) :
    IsFirstSmallest (seen ++ [c]) (if c.rows < first.rows then c else first) := by
  by_cases hless : c.rows < first.rows
  · rw [if_pos hless]
    have hrows : ∀ d ∈ seen, c.rows < d.rows := fun d hd ↦ hless.trans_le (h.rows_le d hd)
    refine ⟨List.mem_append_right seen (List.mem_singleton_self c), ?_, ?_⟩
    · simpa [or_imp, forall_and] using fun d hd ↦ (hrows d hd).le
    · simpa [or_imp, forall_and] using fun d hd heq ↦ absurd heq (hrows d hd).ne'
  · rw [if_neg hless]
    refine ⟨List.mem_append_left [c] h.mem, ?_, ?_⟩
    · simpa [or_imp, forall_and] using ⟨h.rows_le, Nat.le_of_not_lt hless⟩
    · simpa [or_imp, forall_and] using ⟨h.id_le, fun _ ↦ (hlater first h.mem).le⟩

theorem isFirstSmallest_smallestFrom {seen rest : List Candidate} {first : Candidate}
    (h : IsFirstSmallest seen first) (horder : IsInOrder (seen ++ rest)) :
    IsFirstSmallest (seen ++ rest) (smallestFrom first rest) := by
  induction rest generalizing seen first with
  | nil => rwa [List.append_nil]
  | cons c rest ih =>
    have hlater : ∀ d ∈ seen, d.id < c.id := fun d hd ↦
      (List.pairwise_append.mp horder).2.2 d hd c List.mem_cons_self
    rw [List.append_cons] at horder ⊢
    exact ih (h.next hlater) horder

theorem eligible_sublist (g : JoinGraph) (placed remaining : List Candidate) :
    (eligible g placed remaining).Sublist remaining := by
  unfold eligible
  dsimp only
  split
  · exact .refl remaining
  · exact List.filter_sublist

theorem mem_eligible_iff {placed remaining : List Candidate} {c : Candidate} :
    c ∈ eligible g placed remaining ↔ c ∈ remaining ∧
      ((∃ q ∈ placed, g.operandsJoinable q.operand c.operand = true) ∨
        ∀ q ∈ placed, ∀ d ∈ remaining, g.operandsJoinable q.operand d.operand = false) := by
  refine ⟨fun h ↦ ⟨eligible_subset g placed remaining h, joinable_of_mem_eligible h⟩, ?_⟩
  rintro ⟨hmem, hjoinable⟩
  simp only [eligible, any_contains_reached]
  split
  · exact hmem
  · next hsome =>
    refine List.mem_filter.mpr ⟨hmem, List.any_eq_true.mpr (hjoinable.resolve_right fun hnone ↦ ?_)⟩
    rw [List.isEmpty_iff, List.filter_eq_nil_iff] at hsome
    refine hsome fun d hd hany ↦ ?_
    obtain ⟨q, hq, hqd⟩ := List.any_eq_true.mp hany
    rw [hnone q hq d hd] at hqd
    contradiction

/-- **Each candidate taken is the first smallest of those eligible then**, what was taken before it being
placed, and all others left. -/
theorem isFirstSmallest_of_arrange {count : ℕ} {placed remaining before after : List Candidate}
    {c : Candidate} (horder : IsInOrder remaining)
    (h : arrange g count placed remaining = before ++ c :: after) :
    IsFirstSmallest (eligible g (placed ++ before)
      (remaining.filter fun d ↦ d.id ∉ before.map Candidate.id)) c := by
  induction count generalizing placed remaining before with
  | zero => simp [arrange] at h
  | succ count ih =>
    rw [arrange] at h
    split at h
    · simp at h
    · next first rest heq =>
      cases before with
      | nil =>
        have hstart : IsFirstSmallest [first] first := by constructor <;> simp
        have heligible : IsInOrder (first :: rest) :=
          heq ▸ horder.sublist (eligible_sublist g placed remaining)
        have hchosen := isFirstSmallest_smallestFrom hstart heligible
        rw [List.singleton_append, ← heq, (List.cons.inj h).1] at hchosen
        simpa using hchosen
      | cons b before =>
        obtain ⟨rfl, hrest⟩ := List.cons.inj h
        have hnext := ih (horder.filter _) hrest
        rw [List.append_assoc, List.filter_filter] at hnext
        have hleft (d : Candidate) : (decide (d.id ∉ before.map Candidate.id) &&
            decide (d.id ≠ (smallestFrom first rest).id)) =
            decide (d.id ∉ (smallestFrom first rest :: before).map Candidate.id) := by
          rw [Bool.eq_iff_iff]
          simp [and_comm]
        simp only [hleft] at hnext
        exact hnext

/-! ## The candidates of the operands -/

section Candidates

variable {operands : List Operand} {count : Operand → ℕ}

/-- The candidate for an operand. -/
def candidateAt (count : Operand → ℕ) (operands : List Operand) (v : Fin operands.length) :
    Candidate :=
  ⟨v, operands.get v, count (operands.get v)⟩

/-- The candidates for all operands, in the order of the query. -/
def candidatesOf (count : Operand → ℕ) (operands : List Operand) : List Candidate :=
  (List.finRange operands.length).map (candidateAt count operands)

theorem candidateAt_injective : Function.Injective (candidateAt count operands) := by
  intro v w h
  exact Fin.ext (congrArg Candidate.id h)

theorem map_id_candidateAt (vertices : List (Fin operands.length)) :
    (vertices.map (candidateAt count operands)).map Candidate.id = vertices.map Fin.val :=
  List.map_map

theorem isInOrder_candidatesOf : IsInOrder (candidatesOf count operands) := by
  rw [IsInOrder, candidatesOf, List.pairwise_map]
  exact List.pairwise_lt_finRange _

theorem filter_candidatesOf (placed : List (Fin operands.length)) :
    (candidatesOf count operands).filter (fun d ↦ d.id ∉ placed.map Fin.val) =
      ((List.finRange operands.length).filter (· ∉ placed)).map (candidateAt count operands) := by
  rw [candidatesOf, List.filter_map]
  refine congrArg _ (List.filter_congr fun v _ ↦ ?_)
  rw [Function.comp_apply, decide_eq_decide, not_iff_not]
  exact List.mem_map_of_injective Fin.val_injective

theorem run_candidates {source : RowSource σ} {world : σ} (hsource : source.AnswersAs count world)
    (operands : List Operand) :
    ((candidates source operands).run world).1 = candidatesOf count operands := by
  change List.map _ (operands.zip ((operands.mapM source).run world).1).zipIdx = _
  rw [hsource operands]
  refine List.ext_getElem (by simp [candidatesOf]) fun i _ _ ↦ ?_
  simp [candidatesOf, candidateAt]

theorem exists_arrange_eq (g : JoinGraph) (count : Operand → ℕ) (operands : List Operand) :
    ∃ vertices : List (Fin operands.length),
      arrange g operands.length [] (candidatesOf count operands) =
        vertices.map (candidateAt count operands) := by
  have hrange : ∀ c ∈ arrange g operands.length [] (candidatesOf count operands),
      c ∈ Set.range (candidateAt count operands) := by
    intro c hc
    obtain ⟨v, -, rfl⟩ := List.mem_map.mp (arrange_subset _ _ _ hc)
    exact ⟨v, rfl⟩
  obtain ⟨vertices, hvertices⟩ := (Set.range_list_map (candidateAt count operands)).ge hrange
  exact ⟨vertices, hvertices.symm⟩

end Candidates

/-! ## The rule of the order -/

section Rule

variable {operands : List Operand} {count : Operand → ℕ} {placed : List (Fin operands.length)}
  {x : Fin operands.length}

/-- Some name of an operand placed is joinable to some name of this one. -/
def IsReached (g : JoinGraph) (operands : List Operand) (placed : List (Fin operands.length))
    (x : Fin operands.length) : Prop :=
  ∃ q ∈ placed, ∃ a ∈ (operands.get q).names, ∃ b ∈ (operands.get x).names, g.isJoinable a b = true

/-- An operand may follow those placed if it is left and is reached, or nothing left is reached. -/
def MayFollow (g : JoinGraph) (operands : List Operand) (placed : List (Fin operands.length))
    (x : Fin operands.length) : Prop :=
  x ∉ placed ∧ (IsReached g operands placed x ∨ ∀ y ∉ placed, ¬IsReached g operands placed y)

/-- An operand follows those placed: of all that may, it is the smallest, and of several the one named
first. -/
structure Follows (g : JoinGraph) (count : Operand → ℕ) (operands : List Operand)
    (placed : List (Fin operands.length)) (x : Fin operands.length) : Prop where
  mayFollow : MayFollow g operands placed x
  count_le : ∀ y, MayFollow g operands placed y → count (operands.get x) ≤ count (operands.get y)
  first : ∀ y, MayFollow g operands placed y → count (operands.get y) = count (operands.get x) → x ≤ y

/-- At every position of the order follows what the rule says. -/
def IsGreedyOrder (g : JoinGraph) (count : Operand → ℕ) (operands : List Operand)
    (vertices : List (Fin operands.length)) : Prop :=
  ∀ pos x, vertices[pos]? = some x → Follows g count operands (vertices.take pos) x

theorem isReached_iff : IsReached g operands placed x ↔
    ∃ q ∈ placed, g.operandsJoinable (operands.get q) (operands.get x) = true := by
  simp only [IsReached, JoinGraph.operandsJoinable, List.any_eq_true]

theorem mem_eligible_iff_mayFollow : candidateAt count operands x ∈
      eligible g (placed.map (candidateAt count operands))
        (((List.finRange operands.length).filter (· ∉ placed)).map (candidateAt count operands)) ↔
    MayFollow g operands placed x := by
  rw [mem_eligible_iff, List.mem_map_of_injective candidateAt_injective]
  simp only [MayFollow, isReached_iff, List.mem_filter, List.mem_finRange, true_and, decide_eq_true_eq,
    List.mem_map, exists_exists_and_eq_and, forall_exists_index, and_imp, forall_apply_eq_imp_iff₂,
    candidateAt, not_exists, not_and, Bool.not_eq_true]
  refine and_congr_right fun _ ↦ or_congr_right ⟨?_, ?_⟩
  · exact fun hnone y hy q hq ↦ hnone q hq y hy
  · exact fun hnone q hq y hy ↦ hnone y hy q hq

theorem isGreedyOrder_of_arrange {vertices : List (Fin operands.length)} {length : ℕ}
    (h : arrange g length [] (candidatesOf count operands) =
      vertices.map (candidateAt count operands)) :
    IsGreedyOrder g count operands vertices := by
  intro pos x hx
  obtain ⟨hpos, rfl⟩ := List.getElem?_eq_some_iff.mp hx
  have hsplit : vertices = vertices.take pos ++ vertices[pos] :: vertices.drop (pos + 1) := by
    rw [← List.drop_eq_getElem_cons hpos, List.take_append_drop]
  have harrange := h.trans (congrArg (List.map (candidateAt count operands)) hsplit)
  rw [List.map_append, List.map_cons] at harrange
  have hfirst := isFirstSmallest_of_arrange isInOrder_candidatesOf harrange
  rw [List.nil_append, map_id_candidateAt, filter_candidatesOf] at hfirst
  obtain ⟨hmem, hrows, hid⟩ := hfirst
  exact ⟨mem_eligible_iff_mayFollow.mp hmem,
    fun y hy ↦ hrows (candidateAt count operands y) (mem_eligible_iff_mayFollow.mpr hy),
    fun y hy ↦ hid (candidateAt count operands y) (mem_eligible_iff_mayFollow.mpr hy)⟩

theorem exists_isGreedyOrder {source : RowSource σ} {world : σ} (hsource : source.AnswersAs count world)
    (g : JoinGraph) (operands : List Operand) :
    ∃ vertices : List (Fin operands.length),
      ((order g source operands).run world).1 = vertices.map Fin.val ∧
      IsVertexOrder vertices ∧ IsGreedyOrder g count operands vertices := by
  obtain ⟨vertices, hvertices⟩ := exists_arrange_eq g count operands
  have horder : ((order g source operands).run world).1 = vertices.map Fin.val := by
    change orderOf g ((candidates source operands).run world).1 = _
    have hlength : (candidatesOf count operands).length = operands.length := by simp [candidatesOf]
    rw [run_candidates hsource, orderOf, hlength, hvertices, map_id_candidateAt]
  exact ⟨vertices, horder, isVertexOrder_of_perm (horder ▸ order_perm g source operands world),
    isGreedyOrder_of_arrange hvertices⟩

theorem Follows.unique {y : Fin operands.length} (h : Follows g count operands placed x)
    (h' : Follows g count operands placed y) : x = y := by
  have heq : count (operands.get x) = count (operands.get y) :=
    le_antisymm (h.count_le y h'.mayFollow) (h'.count_le x h.mayFollow)
  exact le_antisymm (h.first y h'.mayFollow heq.symm) (h'.first x h.mayFollow heq)

/-- **Operands have one greedy order.** -/
theorem IsGreedyOrder.unique {vertices vertices' : List (Fin operands.length)}
    (h : IsGreedyOrder g count operands vertices) (h' : IsGreedyOrder g count operands vertices')
    (hvertex : IsVertexOrder vertices) (hvertex' : IsVertexOrder vertices') :
    vertices = vertices' := by
  have hperm : vertices.Perm vertices' :=
    (List.perm_ext_iff_of_nodup hvertex.nodup hvertex'.nodup).mpr fun v ↦
      iff_of_true (hvertex.mem v) (hvertex'.mem v)
  have hlength := hperm.length_eq
  suffices htake : ∀ pos, vertices.take pos = vertices'.take pos by
    have hall := htake vertices.length
    rwa [List.take_length, hlength, List.take_length] at hall
  intro pos
  induction pos with
  | zero => rfl
  | succ pos ih =>
    rw [List.take_add_one, List.take_add_one, ih]
    by_cases hpos : pos < vertices.length
    · have hpos' : pos < vertices'.length := hlength ▸ hpos
      have hnext := h pos _ (List.getElem?_eq_getElem hpos)
      have hnext' := h' pos _ (List.getElem?_eq_getElem hpos')
      rw [ih] at hnext
      rw [List.getElem?_eq_getElem hpos, List.getElem?_eq_getElem hpos', hnext.unique hnext']
    · rw [List.getElem?_eq_none (by omega), List.getElem?_eq_none (by omega)]

end Rule

/-! ## The order of a query -/

/-- **The greedy order takes at each position the smallest of the operands that may come next**, and of
several the one named first. It looks up each operand once, in the order of the query, and nothing else. -/
theorem order_isGreedyOrder {source : RowSource σ} {count : Operand → ℕ} {world : σ}
    (hsource : source.AnswersAs count world) (g : JoinGraph) (operands : List Operand) :
    ((order g source operands).run world).2 =
        operands.foldl (fun world o ↦ (source o world).2) world ∧
      ∃ vertices : List (Fin operands.length),
        ((order g source operands).run world).1 = vertices.map Fin.val ∧
        IsVertexOrder vertices ∧ IsGreedyOrder g count operands vertices := by
  refine ⟨?_, exists_isGreedyOrder hsource g operands⟩
  exact RowSource.world_mapM source operands world

/-- A source that keeps a list of the tables it is asked about. -/
def listing (count : Operand → ℕ) : RowSource (List String) := fun o asked ↦
  (count o, asked ++ [o.table])

theorem answersAs_listing (count : Operand → ℕ) (asked : List String) :
    (listing count).AnswersAs count asked := by
  apply RowSource.answersAs_of_forall
  intro o asked
  rfl

/-- Four operands, of which the first two are joined and the last two are equally small. -/
def halfJoined : List Operand :=
  [{ table := "a" }, { table := "b", alias? := some "x" }, { table := "c" }, { table := "d" }]

/-- The rows of the four. -/
def halfJoinedCount : Operand → ℕ :=
  RowCounts.ofOperand ⟨[("a", 5), ("x", 1), ("c", 0), ("d", 0)]⟩

/-- Of the two without comparisons the one named first comes first, and then the joined ones, the smaller
one first. -/
theorem isGreedyOrder_halfJoined :
    (listing halfJoinedCount).AnswersAs halfJoinedCount [] ∧
      ((order (.ofPairs [("a", "x")]) (listing halfJoinedCount) halfJoined).run []) =
        ([2, 3, 1, 0], ["a", "b", "c", "d"]) ∧
      ∃ vertices : List (Fin halfJoined.length), vertices.map Fin.val = [2, 3, 1, 0] ∧
        IsGreedyOrder (.ofPairs [("a", "x")]) halfJoinedCount halfJoined vertices := by
  have hsource := answersAs_listing halfJoinedCount []
  obtain ⟨-, vertices, hvertices, -, hgreedy⟩ :=
    order_isGreedyOrder hsource (.ofPairs [("a", "x")]) halfJoined
  have hrun : ((order (.ofPairs [("a", "x")]) (listing halfJoinedCount) halfJoined).run []) =
      ([2, 3, 1, 0], ["a", "b", "c", "d"]) := by rfl
  rw [hrun] at hvertices
  exact ⟨hsource, hrun, vertices, hvertices.symm, hgreedy⟩

end GraphGreedy

end JoinOrder
