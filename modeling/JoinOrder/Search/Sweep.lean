import JoinOrder.Arrangement
import JoinOrder.Search.Session
/-!
# Sweeps

A sweep gets the arrangements of one length from an enumeration, in lexicographic order, completes each
to an ordering of all operands and tests it. The budget is looked at before each arrangement, and once
more when none is left.

* The *exhaustive* search sweeps complete orderings.
* *Brute force* sweeps the beginnings of orderings, its heads, and completes each greedily: position
  by position it appends the operand that makes the cheapest partial plan, the first of several. The
  last position needs no estimate, as one operand only is left for it.
-/

namespace JoinOrder

namespace Sweep

variable {σ : Type} (p : Problem σ)

/-- The sweep of an enumeration, given the turns it may take and the number of orderings tested before. The
answer is the number of orderings tested in the end, and whether there was no time for more. -/
def sweepFrom (id : StrategyId) (complete : List Nat → SearchM σ (List Nat)) :
    (turns : Nat) → (heads : Enumeration) → (iteration : Nat) → SearchM σ (Nat × Bool)
  | 0, _, iteration => return (iteration, false)
  | turns + 1, heads, iteration => do
    if ← p.canStop iteration then
      return (iteration, true)
    match heads.next with
    | (none, _) => return (iteration, false)
    | (some head, heads) =>
      let order ← complete head
      let _ ← p.test id order
      sweepFrom id complete turns heads (iteration + 1)

/-- The sweep of all arrangements of a length, with a turn for each of them and one for the end. -/
def sweep (id : StrategyId) (length : Nat) (complete : List Nat → SearchM σ (List Nat)) :
    SearchM σ Unit := do
  let turns := Arrangement.count p.size length + 1
  let (iterations, outOfTime) ← sweepFrom p id complete turns (.arrangements p.size length) 0
  Session.stop id iterations outOfTime

/-- The exhaustive search. -/
def exhaustive : SearchM σ Unit := sweep p .exhaustive p.size pure

/-! ## Greedy completion -/

/-- The operand that makes the cheapest plan when appended, and its cost, among a list of operands
and the best one before them. -/
def cheapestFrom (order : List Nat) (best? : Option (Nat × Cost)) :
    List Nat → SearchM σ (Option (Nat × Cost))
  | [] => return best?
  | id :: rest => do
    let e ← p.estimate (order ++ [id])
    let cheaper := match best? with
      | some (_, best) => decide (e.cost < best)
      | none => true
    cheapestFrom order (if cheaper then some (id, e.cost) else best?) rest

/-- An ordering completed from its beginning and the operands it lacks, given how many positions are
open. -/
def completeFrom : (positions : Nat) → (order unused : List Nat) → SearchM σ (List Nat)
  | 0, order, _ => return order
  | 1, order, unused =>
    match unused with
    | [] => throw (.noUnusedOperand order.length)
    | id :: _ => return order ++ [id]
  | positions + 2, order, unused => do
    match ← cheapestFrom p order none unused with
    | none => throw (.noUnusedOperand order.length)
    | some (id, _) => completeFrom (positions + 1) (order ++ [id]) (unused.filter (· ≠ id))

/-- A head completed greedily. -/
def complete (head : List Nat) : SearchM σ (List Nat) :=
  completeFrom p (p.size - head.length) head
    ((List.range p.size).filter fun id => !head.contains id)

/-! ## Brute force -/

/-- The length that a head grows to, given the operands left for the rest, the number of heads times
those, and its length so far. -/
def headLengthFrom (limit : Nat) : (remaining total length : Nat) → Nat
  | 0, _, length => length
  | remaining + 1, total, length =>
    if satMul total (satMul (remaining + 1) remaining / 2) < limit then
      headLengthFrom limit remaining (satMul total remaining) (length + 1)
    else length

/-- The length of the heads to sweep for `n` operands: it grows while the number of heads times the
pairwise work of completing the rest stays below the limit. -/
def headLength (n limit : Nat) : Nat := headLengthFrom limit n n 0

/-- The brute force search over heads of a length, or of the length the settings give. -/
def bruteForce (length? : Option Nat) : SearchM σ Unit :=
  let length := length?.getD (headLength p.size p.config.maxEstimates)
  sweep p .bruteForceGreedy (min length p.size) (complete p)

end Sweep

end JoinOrder
