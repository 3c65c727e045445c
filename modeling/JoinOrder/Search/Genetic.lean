import JoinOrder.Random.Draw
import JoinOrder.Search.Session
import JoinOrder.Tabu
/-!
# The genetic search

A random local search. Each iteration takes the *anchor*, the ordering it works from, swaps two
positions not swapped since the anchor was set, and tests the result; an ordering that becomes the
best plan is the next anchor. At every check point, and when no pair is found to swap, the search
starts over from a random anchor, which is then tested itself.

The source of random words and the tabu set outlive a search: the next search goes on with them.
-/

namespace JoinOrder

/-- What a genetic search keeps from one run to the next. -/
structure Genetic (ρ : Type) where
  /-- The source of random words. -/
  source : ρ
  /-- The pairs swapped since the anchor was set. -/
  tabu : Tabu := {}

namespace Genetic

variable {ρ : Type} [RandomSource ρ] {σ : Type}

/-- A genetic search from a seed. -/
def ofSeed (seed : UInt64) : Genetic ρ := { source := RandomSource.ofSeed seed }

/-- Nothing is tabu. -/
def forget (g : Genetic ρ) : Genetic ρ := { g with tabu := Tabu.empty }

/-- An order with two positions swapped that are not tabu, if so many attempts find such a pair. -/
def trySwap (order : List Nat) : (attempts : Nat) → Genetic ρ → Option (List Nat) × Genetic ρ
  | 0, g => (none, g)
  | attempts + 1, g =>
    let (a, source) := Random.below64 order.length g.source
    let (b, source) := Random.below64 order.length source
    if a = b || g.tabu.contains a b then trySwap order attempts { g with source }
    else (some (Random.swapAt order a b), { source, tabu := g.tabu.insert a b })

/-- An order with two positions swapped; there are no two in an order of fewer than two. -/
def swap (order : List Nat) (attempts : Nat) (g : Genetic ρ) : Option (List Nat) × Genetic ρ :=
  if order.length < 2 then (none, g) else trySwap order attempts g

/-- A random order of `n` operands, with nothing tabu. -/
def restart (n : Nat) (g : Genetic ρ) : List Nat × Genetic ρ :=
  let (order, source) := Random.shuffle (List.range n) g.source
  (order, { source, tabu := Tabu.empty })

/-- What an iteration tests: the ordering, and the anchor it works from. -/
structure Proposal (ρ : Type) where
  /-- The ordering to test. -/
  order : List Nat
  /-- The ordering it was made from. -/
  anchor : List Nat
  /-- The search after it. -/
  search : Genetic ρ

/-- A proposal that starts over. -/
def startOver (n : Nat) (g : Genetic ρ) : Proposal ρ :=
  let (order, g) := restart n g
  ⟨order, order, g⟩

/-- The proposal of an iteration. -/
def propose (p : Problem σ) (iteration : Nat) (anchor : List Nat) (g : Genetic ρ) : Proposal ρ :=
  if p.budget.isCheckPoint iteration then startOver p.size g
  else
    match swap anchor p.config.swapAttempts g with
    | (some order, g) => ⟨order, anchor, g⟩
    | (none, g) => startOver p.size g

/-- The search from an iteration on, given how many are left. The answer is the number of iterations,
and whether there was no time for more. -/
def searchFrom (p : Problem σ) : (left iteration : Nat) → (anchor : List Nat) → Genetic ρ →
    StateM (Session σ) (Except SearchError (Nat × Bool) × Genetic ρ)
  | 0, iteration, _, g => return (.ok (iteration, false), g)
  | left + 1, iteration, anchor, g => do
    if ← p.canStop iteration then
      return (.ok (iteration, true), g)
    let next := propose p iteration anchor g
    match ← (p.test .genetic next.order).run with
    | .error e => return (.error e, next.search)
    | .ok true => searchFrom p left (iteration + 1) next.order next.search.forget
    | .ok false => searchFrom p left (iteration + 1) next.anchor next.search

/-- The genetic search. Its state comes back also from a failure. -/
def search (p : Problem σ) (g : Genetic ρ) :
    StateM (Session σ) (Except SearchError Unit × Genetic ρ) := do
  match ← searchFrom p p.config.maxIterations 0 (List.range p.size) g with
  | (.error e, g) => return (.error e, g)
  | (.ok (iterations, outOfTime), g) =>
    let result ← (Session.stop .genetic iterations outOfTime).run
    return (result, g)

end Genetic

end JoinOrder
