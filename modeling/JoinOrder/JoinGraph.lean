import JoinOrder.Operand
/-!
# Join graphs

Two operands are joinable when the condition compares a column of the one with a column of the
other. The graph is undirected: its edges are unordered pairs of names, each held once, in the
orientation in which it was met first. A name is known to the graph exactly when it ends an edge.
-/

namespace JoinOrder

/-- Names joined by comparisons. -/
structure JoinGraph where
  /-- The edges, oldest first. -/
  edges : List (String × String)
  /-- No edge is held twice, in either orientation. -/
  distinct : edges.Pairwise fun e f => e ≠ f ∧ e ≠ (f.2, f.1)

namespace JoinGraph

/-- The graph without edges. -/
def empty : JoinGraph := ⟨[], .nil⟩

instance : Inhabited JoinGraph := ⟨empty⟩

/-- An edge between two names, in either orientation. -/
def isJoinable (g : JoinGraph) (a b : String) : Bool :=
  g.edges.contains (a, b) || g.edges.contains (b, a)

/-- Record that two names are joinable. -/
def addEdge (g : JoinGraph) (a b : String) : JoinGraph :=
  if h : g.isJoinable a b then g else
    { edges := g.edges ++ [(a, b)]
      distinct := by
        simp only [isJoinable, List.contains_eq_mem, Bool.or_eq_true, decide_eq_true_eq] at h
        refine List.pairwise_append.2 ⟨g.distinct, List.pairwise_singleton _ _, ?_⟩
        rintro e he f hf
        obtain rfl := List.mem_singleton.1 hf
        exact ⟨fun hef => h (.inl (hef ▸ he)), fun hef => h (.inr (hef ▸ he))⟩ }

/-- The graph of a list of pairs. -/
def ofPairs (pairs : List (String × String)) : JoinGraph :=
  pairs.foldl (fun g pair => g.addEdge pair.1 pair.2) empty

/-- The graph of the comparisons in a condition; without a condition nothing is joinable. -/
def ofCondition (condition? : Option Condition) : JoinGraph :=
  ofPairs ((condition?.map Condition.comparisons).getD [])

/-- The graph of the full condition, which the first operand carries. -/
def ofOperands (operands : List Operand) : JoinGraph :=
  ofCondition (operands.head?.bind Operand.condition?)

/-- The number of edges. -/
def edgeCount (g : JoinGraph) : Nat := g.edges.length

/-- Nothing is joinable. -/
def isEmpty (g : JoinGraph) : Bool := g.edges.isEmpty

/-- A name ends at least one edge. -/
def contains (g : JoinGraph) (a : String) : Bool := g.edges.any fun e => e.1 == a || e.2 == a

/-- The names joinable to `a`, each once. -/
def neighbors (g : JoinGraph) (a : String) : List String :=
  g.edges.filterMap fun e => if e.1 = a then some e.2 else if e.2 = a then some e.1 else none

/-- The names joinable to any name of an operand. -/
def reach (g : JoinGraph) (o : Operand) : List String := o.names.flatMap g.neighbors

/-- Any name of one operand is joinable to any name of the other. -/
def operandsJoinable (g : JoinGraph) (left right : Operand) : Bool :=
  left.names.any fun l => right.names.any fun r => g.isJoinable l r

/-! ## Neighbours and reach

An operand is tested against many others at once through its reach, which reads the edges only once
for each of its names. -/

theorem mem_neighbors_iff (g : JoinGraph) (a b : String) :
    b ∈ g.neighbors a ↔ g.isJoinable a b = true := by
  simp only [neighbors, isJoinable, List.mem_filterMap, List.contains_eq_mem, Bool.or_eq_true,
    decide_eq_true_eq]
  constructor
  · rintro ⟨⟨x, y⟩, he, h⟩
    split at h
    · next hx => cases hx; cases h; exact .inl he
    · split at h
      · next hy => cases hy; cases h; exact .inr he
      · cases h
  · rintro (h | h)
    · exact ⟨_, h, by simp⟩
    · refine ⟨_, h, ?_⟩
      by_cases hba : b = a <;> simp [hba]

theorem any_contains_reach (g : JoinGraph) (left right : Operand) :
    (right.names.any fun r => (g.reach left).contains r) = g.operandsJoinable left right := by
  rw [Bool.eq_iff_iff]
  simp only [operandsJoinable, reach, List.any_eq_true, List.contains_eq_mem, decide_eq_true_eq,
    List.mem_flatMap, mem_neighbors_iff]
  exact ⟨fun ⟨r, hr, l, hl, h⟩ => ⟨l, hl, r, hr, h⟩, fun ⟨l, hl, r, hr, h⟩ => ⟨r, hr, l, hl, h⟩⟩

end JoinGraph

end JoinOrder
