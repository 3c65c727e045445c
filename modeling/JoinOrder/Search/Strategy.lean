import JoinOrder.Search.Genetic
import JoinOrder.Search.GraphGreedy
import JoinOrder.Search.Sweep
/-!
# Strategies

The ways to search one session. Several may follow one another, each trying to beat the best plan of
those before it.
-/

namespace JoinOrder

/-- A way to search. -/
inductive Strategy (ρ : Type) where
  /-- The operands as the query names them; for one operand that is the only order. -/
  | trivial
  /-- The order the join graph suggests. -/
  | graphGreedy
  /-- All orders. -/
  | exhaustive
  /-- All heads of a length, completed greedily; without a length the settings give one. -/
  | bruteForce (length? : Option Nat)
  /-- Random swaps. -/
  | genetic (search : Genetic ρ)

namespace Strategy

variable {ρ : Type} {σ : Type}

/-- The kind of a strategy. -/
def id : Strategy ρ → StrategyId
  | trivial => .trivial
  | graphGreedy => .graphGreedy
  | exhaustive => .exhaustive
  | bruteForce _ => .bruteForceGreedy
  | genetic _ => .genetic

/-- Score the operands in the order of the query. -/
def searchTrivial (p : Problem σ) : SearchM σ Unit := do
  let _ ← p.test .trivial (List.range p.size)
  Session.stop .trivial 1 false

/-- Run a strategy. What comes back beside the result is the strategy for its next run. -/
def search [RandomSource ρ] (p : Problem σ) :
    Strategy ρ → StateM (Session σ) (Except SearchError Unit × Strategy ρ)
  | trivial => do return (← (searchTrivial p).run, trivial)
  | graphGreedy => do return (← (GraphGreedy.search p).run, graphGreedy)
  | exhaustive => do return (← (Sweep.exhaustive p).run, exhaustive)
  | bruteForce length? => do return (← (Sweep.bruteForce p length?).run, bruteForce length?)
  | genetic g => do
    let (result, g) ← g.search p
    return (result, genetic g)

end Strategy

end JoinOrder
