import JoinOrder.CostModel
import JoinOrder.JoinGraph
import JoinOrder.RowCounts
/-!
# The nested loop cost model

A model for callers without better statistics. An operand joinable to one already bound is read
through an index: a lookup costs `1 + log2 rows` for each outer row, and yields one row. Any other
operand is scanned once for each outer row, and multiplies the outer rows by its own.
-/

namespace JoinOrder

/-- A nested loop cost model. -/
structure NestedLoop where
  /-- The joinable operands. -/
  graph : JoinGraph
  /-- The depth of an index over so many rows, less one. -/
  depth : Float → Float := Float.log2

namespace NestedLoop

/-- The loops built so far. -/
structure Loops where
  /-- The operands bound, outermost first. -/
  bound : List Operand := []
  /-- The cost of all loops. -/
  cost : Cost := Cost.zero
  /-- The rows that the innermost loop yields. -/
  outerRows : Float := 1.0
  /-- The access of each operand bound. -/
  access : List Access := []

/-- The rows of an operand; an operand without rows counts as having one. -/
def rows (count : Nat) : Float := Float.ofNat (max count 1)

/-- The identities of the operands bound that an operand is joinable to. -/
def dependencies (m : NestedLoop) (bound : List Operand) (o : Operand) : List String :=
  let reached := m.graph.reach o
  (bound.filter fun outer => outer.names.any reached.contains).map Operand.identity

theorem dependencies_eq (m : NestedLoop) (bound : List Operand) (o : Operand) :
    m.dependencies bound o =
      (bound.filter fun outer => m.graph.operandsJoinable o outer).map Operand.identity := by
  simp only [dependencies, ← JoinGraph.any_contains_reach]

/-- The loops with one more inside, over an operand with so many rows. -/
def nest (m : NestedLoop) (l : Loops) (o : Operand) (count : Nat) : Loops :=
  let dependsOn := m.dependencies l.bound o
  if dependsOn.isEmpty then
    { bound := l.bound ++ [o]
      cost := l.cost + ⟨l.outerRows * rows count⟩
      outerRows := l.outerRows * rows count
      access := l.access ++ [.fullScan] }
  else
    { bound := l.bound ++ [o]
      cost := l.cost + ⟨l.outerRows * (1.0 + m.depth (rows count))⟩
      outerRows := l.outerRows
      access := l.access ++ [.index (o.table ++ "_join") dependsOn] }

/-- The loops over a list of operands inside of others, each operand looked up when its turn comes. -/
def nestAll {σ : Type} (m : NestedLoop) (source : RowSource σ) : Loops → List Operand → StateM σ Loops
  | l, [] => pure l
  | l, o :: rest => do
    let count ← source o
    nestAll m source (m.nest l o count) rest

/-- The cost and the access choices of a list of operands. -/
def estimate {σ : Type} (m : NestedLoop) (source : RowSource σ) (operands : List Operand) :
    StateM σ Estimate := do
  let l ← m.nestAll source {} operands
  pure ⟨l.cost, l.access⟩

/-- The model over a source of row counts. It makes no difference whether a query is a selection. -/
def costModel {σ : Type} (m : NestedLoop) (source : RowSource σ) : CostModel σ where
  estimate view _ :=
    match view.joined with
    | .error e => pure (.error e)
    | .ok operands => Except.ok <$> m.estimate source operands

end NestedLoop

end JoinOrder
