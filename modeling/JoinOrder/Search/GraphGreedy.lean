import JoinOrder.JoinGraph
import JoinOrder.Search.Session
/-!
# The greedy order of a join graph

The smallest operand comes first, and then always the smallest of those joinable to an operand
already placed. Where there is none, the graph falls apart and every operand left is a candidate: the
smallest is cross joined. Of equally small candidates the one named first by the query is taken.

The order is scored once, for its access choices; no other order is looked at.
-/

namespace JoinOrder

/-- An operand with what the greedy order needs to know of it. -/
structure Candidate where
  /-- The position of the operand in the query. -/
  id : Nat
  /-- The operand. -/
  operand : Operand
  /-- The rows of the operand. -/
  rows : Nat
  deriving Inhabited

namespace GraphGreedy

/-- The candidates of a list of operands, each looked up once, in order. -/
def candidates {σ : Type} (source : RowSource σ) (operands : List Operand) :
    StateM σ (List Candidate) := do
  let counts ← operands.mapM source
  pure ((operands.zip counts).zipIdx.map fun ((operand, rows), id) => { id, operand, rows })

/-- The smallest of a list and a candidate before it; the first of several. -/
def smallestFrom (first : Candidate) : List Candidate → Candidate
  | [] => first
  | c :: rest => smallestFrom (if c.rows < first.rows then c else first) rest

/-- The operands that may come next: those joinable to an operand placed, or all. -/
def eligible (g : JoinGraph) (placed remaining : List Candidate) : List Candidate :=
  let reached := placed.flatMap fun p => g.reach p.operand
  let joinable := remaining.filter fun c => c.operand.names.any reached.contains
  if joinable.isEmpty then remaining else joinable

/-- The names reached by those placed tell who is joinable to one of them. -/
theorem any_contains_reached (g : JoinGraph) (placed : List Candidate) (c : Candidate) :
    (c.operand.names.any (placed.flatMap fun p => g.reach p.operand).contains) =
      placed.any fun p => g.operandsJoinable p.operand c.operand := by
  rw [Bool.eq_iff_iff]
  simp only [← JoinGraph.any_contains_reach, List.any_eq_true, List.contains_eq_mem,
    decide_eq_true_eq, List.mem_flatMap]
  exact ⟨fun ⟨n, hn, p, hp, h⟩ => ⟨p, hp, n, hn, h⟩, fun ⟨p, hp, n, hn, h⟩ => ⟨n, hn, p, hp, h⟩⟩

/-- The operands left after those placed, in greedy order, given how many there are. -/
def arrange (g : JoinGraph) : (count : Nat) → (placed remaining : List Candidate) → List Candidate
  | 0, _, _ => []
  | count + 1, placed, remaining =>
    match eligible g placed remaining with
    | [] => []
    | first :: rest =>
      let next := smallestFrom first rest
      next :: arrange g count (placed ++ [next]) (remaining.filter fun c => c.id ≠ next.id)

/-- The greedy order of a list of candidates. -/
def orderOf (g : JoinGraph) (cs : List Candidate) : List Nat :=
  (arrange g cs.length [] cs).map Candidate.id

/-- The greedy order of a list of operands. -/
def order {σ : Type} (g : JoinGraph) (source : RowSource σ) (operands : List Operand) :
    StateM σ (List Nat) := do
  let cs ← candidates source operands
  pure (orderOf g cs)

/-- The graph the order follows: that of the full condition the first operand carries, or else of the
condition of the query. -/
def graphOf {σ : Type} (p : Problem σ) : JoinGraph :=
  JoinGraph.ofCondition ((p.operands.head?.bind Operand.condition?).or p.condition?)

/-- Score the greedy order. -/
def search {σ : Type} (p : Problem σ) : SearchM σ Unit := do
  let order ← ExceptT.lift (Session.consult (order (graphOf p) p.oracles.rowCounts p.operands))
  let _ ← p.test .graphGreedy order
  Session.stop .graphGreedy 1 false

end GraphGreedy

end JoinOrder
