import JoinOrder.Proofs.Arrangement
import JoinOrder.Proofs.Checked.Step
import JoinOrder.Proofs.Search.Genetic
/-!
# The genetic search stays in bounds

The genetic search keeps two buffers, its anchor and the ordering it tests, and copies them onto each
other: the anchor before a swap, the shuffled anchor when it starts over, and the ordering tested when it
becomes the anchor. Positions to swap are drawn below the length of a buffer.

Both buffers hold all operands from the start on and are only rearranged, so the copies fit, and a draw is
below its bound whatever the words are it is made from.
-/

namespace JoinOrder

variable {σ ρ : Type} [RandomSource ρ] {p : Problem σ}

namespace Checked

/-! ## The search with buffers -/

/-- `Genetic.trySwap` on a buffer. -/
def trySwap (order : List ℕ) : (attempts : ℕ) → Genetic ρ → Option (Option (List ℕ) × Genetic ρ)
  | 0, g => some (none, g)
  | attempts + 1, g => do
    let (a, source) ← draw Random.below64 order.length g.source
    let (b, source) ← draw Random.below64 order.length source
    if a = b || g.tabu.contains a b then trySwap order attempts { g with source }
    else
      let swapped ← swapAt order a b
      some (some swapped, { source, tabu := g.tabu.insert a b })

/-- `Genetic.swap` on a buffer. -/
def swap (order : List ℕ) (attempts : ℕ) (g : Genetic ρ) : Option (Option (List ℕ) × Genetic ρ) :=
  if order.length < 2 then some (none, g) else trySwap order attempts g

/-- `Random.shuffleFrom` on a buffer. -/
def shuffleFrom : (last : ℕ) → List ℕ → ρ → Option (List ℕ × ρ)
  | 0, xs, s => some (xs, s)
  | last + 1, xs, s => do
    let (i, s) ← draw Random.below32 (last + 2) s
    let xs ← swapAt xs (last + 1) i
    shuffleFrom last xs s

/-- `Genetic.startOver` with the buffer of the ordering. -/
def startOver (n : ℕ) (list : List ℕ) (g : Genetic ρ) : Option (Genetic.Proposal ρ) := do
  let (anchor, source) ← shuffleFrom ((List.range n).length - 1) (List.range n) g.source
  let order ← copy list anchor
  some ⟨order, anchor, { source, tabu := Tabu.empty }⟩

/-- `Genetic.propose` with the buffers of the anchor and the ordering. -/
def propose (p : Problem σ) (iteration : ℕ) (anchor list : List ℕ) (g : Genetic ρ) :
    Option (Genetic.Proposal ρ) :=
  if p.budget.isCheckPoint iteration then startOver p.size list g
  else do
    let list ← copy list anchor
    match ← swap list p.config.swapAttempts g with
    | (some order, g) => some ⟨order, anchor, g⟩
    | (none, g) => startOver p.size list g

/-- `Genetic.searchFrom` with the buffers of the anchor and the ordering. -/
def searchFrom (p : Problem σ) : (left iteration : ℕ) → (anchor list : List ℕ) → Genetic ρ →
    StateT (Session σ) Option (Except SearchError (ℕ × Bool) × Genetic ρ)
  | 0, iteration, _, _, g => return (.ok (iteration, false), g)
  | left + 1, iteration, anchor, list, g => do
    if ← (fun s ↦ some (p.canStop iteration s) : StateT (Session σ) Option Bool) then
      return (.ok (iteration, true), g)
    let next ← propose p iteration anchor list g
    match ← (test p .genetic next.order).run with
    | .error e => return (.error e, next.search)
    | .ok true =>
      let anchor ← copy next.anchor next.order
      searchFrom p left (iteration + 1) anchor next.order next.search.forget
    | .ok false => searchFrom p left (iteration + 1) next.anchor next.order next.search

/-- `Genetic.search` with buffers. -/
def genetic (p : Problem σ) (g : Genetic ρ) :
    StateT (Session σ) Option (Except SearchError Unit × Genetic ρ) := do
  match ← searchFrom p p.config.maxIterations 0 (List.range p.size) (List.range p.size) g with
  | (.error e, g) => return (.error e, g)
  | (.ok (iterations, outOfTime), g) =>
    let result ← (lift (Session.stop .genetic iterations outOfTime)).run
    return (result, g)

/-! ## Rearrangements in bounds -/

theorem trySwap_eq_some {order : List ℕ} (horder : 0 < order.length) (attempts : ℕ) (g : Genetic ρ) :
    trySwap order attempts g = some (Genetic.trySwap order attempts g) := by
  induction attempts generalizing g with
  | zero => rfl
  | succ attempts ih =>
    rw [trySwap, draw_eq_some horder]
    dsimp only [Option.bind_eq_bind, Option.bind_some]
    rw [draw_eq_some horder]
    dsimp only [Option.bind_some]
    rw [Genetic.trySwap]
    dsimp only
    split
    · exact ih _
    · rw [swapAt, if_pos ⟨Random.below64_lt horder _, Random.below64_lt horder _⟩]
      rfl

theorem swap_eq_some (order : List ℕ) (attempts : ℕ) (g : Genetic ρ) :
    swap order attempts g = some (Genetic.swap order attempts g) := by
  rw [swap, Genetic.swap]
  split
  · rfl
  · exact trySwap_eq_some (by omega) attempts g

theorem shuffleFrom_eq_some {last : ℕ} {xs : List ℕ} (hlast : last ≤ xs.length - 1) (s : ρ) :
    shuffleFrom last xs s = some (Random.shuffleFrom last xs s) := by
  induction last generalizing xs s with
  | zero => rfl
  | succ last ih =>
    have hbound : 0 < last + 2 := Nat.succ_pos _
    have hi : (Random.below32 (last + 2) s).1 < last + 2 := Random.below32_lt hbound s
    rw [shuffleFrom, draw_eq_some hbound]
    dsimp only [Option.bind_eq_bind, Option.bind_some]
    rw [swapAt, if_pos ⟨by omega, by omega⟩]
    refine ih ?_ _
    rw [(Random.swapAt_perm xs _ _).length_eq]
    omega

/-! ## Proposals in bounds -/

theorem startOver_eq_some {n : ℕ} {list : List ℕ} (hlist : list.length = n) (g : Genetic ρ) :
    startOver n list g = some (Genetic.startOver n g) := by
  have hlength := (Random.shuffle_perm (List.range n) g.source).length_eq
  rw [List.length_range] at hlength
  rw [startOver, shuffleFrom_eq_some (Nat.le_refl _), ← Random.shuffle]
  dsimp only [Option.bind_eq_bind, Option.bind_some]
  rw [copy_eq_some (hlist.trans hlength.symm)]
  rfl

theorem propose_eq_some (iteration : ℕ) {anchor list : List ℕ} (hanchor : anchor.length = p.size)
    (hlist : list.length = p.size) (g : Genetic ρ) :
    propose p iteration anchor list g = some (Genetic.propose p iteration anchor g) := by
  rw [propose, Genetic.propose]
  split
  · exact startOver_eq_some hlist g
  · rw [copy_eq_some (hlist.trans hanchor.symm)]
    dsimp only [Option.bind_eq_bind, Option.bind_some]
    rw [swap_eq_some]
    dsimp only [Option.bind_some]
    rcases Genetic.swap anchor p.config.swapAttempts g with ⟨_ | order, g'⟩
    · exact startOver_eq_some hanchor g'
    · rfl

/-! ## The search in bounds -/

theorem stateT_bind_apply {α β : Type} (act : StateT (Session σ) Option α)
    (next : α → StateT (Session σ) Option β) (s : Session σ) :
    (act >>= next) s = (act s).bind fun out ↦ next out.1 out.2 := rfl

theorem liftM_some_bind {α β : Type} (a : α) (next : α → StateT (Session σ) Option β)
    (s : Session σ) : ((liftM (some a) : StateT (Session σ) Option α) >>= next) s = next a s := rfl

/-- **The buffers of the search are orderings**: they are as long as each other, and what is tested is
an ordering. -/
theorem searchFrom_eq_some (left iteration : ℕ) {anchor list : List ℕ} (g : Genetic ρ)
    (s : Session σ) (hanchor : anchor.Perm (List.range p.size)) (hlist : list.length = p.size) :
    searchFrom p left iteration anchor list g s =
      some (Genetic.searchFrom p left iteration anchor g s) := by
  induction left generalizing iteration anchor list g s with
  | zero => rfl
  | succ left ih =>
    obtain ⟨horder, hanchor'⟩ := Genetic.propose_perm iteration g hanchor
    rw [Genetic.searchFrom_succ, searchFrom, stateT_bind_apply, Option.bind_some]
    by_cases hstop : (p.canStop iteration s).1 = true
    · rw [if_pos hstop, if_pos hstop]
      rfl
    · rw [if_neg hstop, if_neg hstop]
      rw [propose_eq_some iteration (Arrangement.length_of_perm_range hanchor) hlist, liftM_some_bind]
      -- the ordering tested is the buffer of the next iteration
      have hlist' := Arrangement.length_of_perm_range horder
      have htest : test p .genetic (Genetic.propose p iteration anchor g).order =
        lift (p.test .genetic (Genetic.propose p iteration anchor g).order) := if_pos horder
      rw [htest, stateT_bind_apply, ExceptT.run, lift, Option.bind_some]
      dsimp only
      rcases p.test .genetic (Genetic.propose p iteration anchor g).order (p.canStop iteration s).2 with
        ⟨e | improved, t⟩
      · rfl
      · cases improved with
        | true =>
          rw [copy_eq_some ((Arrangement.length_of_perm_range hanchor').trans hlist'.symm)]
          exact ih (iteration + 1) _ t horder hlist'
        | false => exact ih (iteration + 1) _ t hanchor' hlist'

theorem genetic_eq_some (g : Genetic ρ) (s : Session σ) :
    genetic p g s = some (g.search p s) := by
  rw [genetic, stateT_bind_apply, searchFrom_eq_some _ _ g s (.refl _) List.length_range,
    Genetic.search_apply, Option.bind_some]
  rcases Genetic.searchFrom p p.config.maxIterations 0 (List.range p.size) g s with
    ⟨⟨e | ⟨iterations, outOfTime⟩, g'⟩, t⟩ <;> rfl

end Checked

end JoinOrder
