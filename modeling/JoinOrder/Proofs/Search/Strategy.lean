import JoinOrder.Proofs.Search.Genetic
import JoinOrder.Proofs.Search.GraphGreedy
import JoinOrder.Proofs.Search.Sweep
/-!
# Strategies end well

The facts about the single searches, put together: every strategy keeps to moves that are proper for it,
fails with a refusal only, and else comes to its end after at most the iterations it has to make. So it
leaves a best plan behind, unless it has no iterations to make. Only a genetic search may be without, and
it never comes first.
-/

namespace JoinOrder.Strategy

open Problem

variable {σ ρ : Type} {p : Problem σ}

/-- The iterations a strategy makes when the budget does not end it: one for each ordering, for each
head of the length that brute force sweeps, or as many as the settings say. -/
def iterations (p : Problem σ) : Strategy ρ → ℕ
  | trivial => 1
  | graphGreedy => 1
  | exhaustive => p.size.factorial
  | bruteForce length? => p.size.descFactorial (Sweep.bruteForceLength p length?)
  | genetic _ => p.config.maxIterations

theorem iterations_pos {strategy : Strategy ρ} (h : strategy.id ≠ .genetic) :
    0 < strategy.iterations p := by
  cases strategy with
  | trivial => exact Nat.one_pos
  | graphGreedy => exact Nat.one_pos
  | exhaustive => exact p.size.factorial_pos
  | bruteForce length? => exact Nat.descFactorial_pos.mpr (Nat.min_le_right _ _)
  | genetic g => exact absurd rfl h

theorem ran_search [RandomSource ρ] (strategy : Strategy ρ) (s : Session σ) :
    p.Ran strategy.id (strategy.iterations p) s
      ((strategy.search p s).1.1, (strategy.search p s).2) := by
  cases strategy with
  | trivial => exact ran_testOnce (.refl _) .refl rfl
  | graphGreedy => exact GraphGreedy.ran_search p s
  | exhaustive =>
    have hran := Sweep.ran_exhaustive (p := p) s
    rw [Arrangement.count_eq_descFactorial, Nat.descFactorial_self] at hran
    exact hran
  | bruteForce length? =>
    have hran := Sweep.ran_bruteForce (p := p) length? s
    rw [Arrangement.count_eq_descFactorial] at hran
    exact hran
  | genetic g => exact Genetic.ran_search g s

theorem ends_search [RandomSource ρ] (strategy : Strategy ρ) (s : Session σ) :
    p.Ends (Move.IsProper p.size strategy.id) s
      (fun _ t ↦ p.Finished strategy.id (strategy.iterations p) s t)
      ((strategy.search p s).1.1, (strategy.search p s).2) :=
  (strategy.ran_search s).ends

end JoinOrder.Strategy
