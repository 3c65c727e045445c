import JoinOrder.Proofs.Random
import JoinOrder.Proofs.Search.Iteration
/-!
# The genetic search keeps to orderings

The two lists a genetic search works with, its anchor and the ordering it tests, change by exchanges of
positions and by being copied onto each other. An exchange only rearranges a list, so both stay orderings
of the operands, whatever the source of random words yields and whatever the tabu set holds from an
earlier run.

Of a swap it matters further which pair it exchanges: one that was not tabu, and that is the only one to
become so. A swap that finds no such pair has taken words from the source and done nothing else.
-/

namespace JoinOrder

open Problem

/-! ## Tabu sets -/

namespace Tabu

theorem entry_eq_iff {a b c d : ℕ} : entry c d = entry a b ↔ s(c, d) = s(a, b) := by
  unfold entry
  rw [Sym2.eq_iff]
  split <;> split <;> rw [Prod.mk.injEq] <;> omega

theorem contains_insert (t : Tabu) (a b c d : ℕ) :
    (t.insert a b).contains c d = true ↔ t.contains c d = true ∨ s(c, d) = s(a, b) := by
  rw [← entry_eq_iff]
  unfold insert
  split
  · next hin =>
    refine ⟨Or.inl, ?_⟩
    rintro (h | h)
    · exact h
    · rwa [contains, h]
  · simp only [contains, List.contains_cons, Bool.or_eq_true, beq_iff_eq]
    exact or_comm

end Tabu

namespace Genetic

variable {σ ρ : Type} {p : Problem σ}

/-! ## Swaps -/

/-- How a swap may end: with no pair found, no other order made and the tabu set as it was, or with the
exchange of one pair, which was not tabu and is the only one to become so. -/
inductive Swapped (order : List ℕ) (g : Genetic ρ) : Option (List ℕ) × Genetic ρ → Prop
  | none (source : ρ) : Swapped order g (Option.none, { g with source })
  | some {a b : ℕ} {tabu : Tabu} (source : ρ) (ha : a < order.length) (hb : b < order.length)
      (hne : a ≠ b) (hfresh : g.tabu.contains a b = false)
      (htabu : ∀ c d, tabu.contains c d = true ↔ g.tabu.contains c d = true ∨ s(c, d) = s(a, b)) :
      Swapped order g (Option.some (Random.swapAt order a b), { source, tabu })

/-- Draws that are thrown away only take words from the source. -/
theorem Swapped.of_source {order : List ℕ} {g : Genetic ρ} {source : ρ}
    {out : Option (List ℕ) × Genetic ρ} (h : Swapped order { g with source } out) :
    Swapped order g out := by
  cases h with
  | none source => exact .none source
  | some source ha hb hne hfresh htabu => exact .some source ha hb hne hfresh htabu

variable [RandomSource ρ]

theorem trySwap_spec {order : List ℕ} (horder : 0 < order.length) (attempts : ℕ) (g : Genetic ρ) :
    Swapped order g (trySwap order attempts g) := by
  induction attempts generalizing g with
  | zero => exact .none g.source
  | succ attempts ih =>
    rw [trySwap]
    dsimp only
    split
    · exact (ih _).of_source
    · next hpair =>
      rw [Bool.or_eq_true, decide_eq_true_iff, not_or, Bool.not_eq_true] at hpair
      exact .some _ (Random.below64_lt horder g.source)
        (Random.below64_lt horder (Random.below64 order.length g.source).2) hpair.1 hpair.2
        (g.tabu.contains_insert _ _)

theorem swap_spec (order : List ℕ) (attempts : ℕ) (g : Genetic ρ) :
    Swapped order g (swap order attempts g) := by
  unfold swap
  split
  · exact .none g.source
  · exact trySwap_spec (by omega) attempts g

/-! ## Proposals -/

/-- What the iteration after a proposal works with: the ordering proposed as the new anchor and nothing
tabu if it improved the best plan, else the anchor it was made from. -/
def Proposal.next (proposal : Proposal ρ) (improved : Bool) : List ℕ × Genetic ρ :=
  if improved then (proposal.order, proposal.search.forget) else (proposal.anchor, proposal.search)

theorem startOver_perm (n : ℕ) (g : Genetic ρ) : (startOver n g).order.Perm (List.range n) :=
  Random.shuffle_perm (List.range n) g.source

theorem propose_perm (iteration : ℕ) {anchor : List ℕ} (g : Genetic ρ)
    (hanchor : anchor.Perm (List.range p.size)) :
    (propose p iteration anchor g).order.Perm (List.range p.size) ∧
      (propose p iteration anchor g).anchor.Perm (List.range p.size) := by
  unfold propose
  split
  · exact ⟨startOver_perm p.size g, startOver_perm p.size g⟩
  · have hswap := swap_spec anchor p.config.swapAttempts g
    generalize swap anchor p.config.swapAttempts g = out at hswap
    cases hswap with
    | none source => exact ⟨startOver_perm p.size _, startOver_perm p.size _⟩
    | some source => exact ⟨(Random.swapAt_perm anchor _ _).trans hanchor, hanchor⟩

theorem next_propose_perm (iteration : ℕ) {anchor : List ℕ} (g : Genetic ρ) (improved : Bool)
    (hanchor : anchor.Perm (List.range p.size)) :
    ((propose p iteration anchor g).next improved).1.Perm (List.range p.size) := by
  obtain ⟨horder, hanchor'⟩ := propose_perm iteration g hanchor
  cases improved with
  | true => exact horder
  | false => exact hanchor'

/-! ## The search -/

theorem bind_apply {α β : Type} (act : StateM (Session σ) α) (next : α → StateM (Session σ) β)
    (s : Session σ) : (act >>= next) s = next (act s).1 (act s).2 := rfl

/-- One iteration: look at the budget, then test a proposal and go on from it or from its anchor. -/
theorem searchFrom_succ (left iteration : ℕ) (anchor : List ℕ) (g : Genetic ρ) (s : Session σ) :
    searchFrom p (left + 1) iteration anchor g s =
      if (p.canStop iteration s).1 = true then ((.ok (iteration, true), g), (p.canStop iteration s).2)
      else
        let proposal := propose p iteration anchor g
        match p.test .genetic proposal.order (p.canStop iteration s).2 with
        | (.error e, t) => ((.error e, proposal.search), t)
        | (.ok improved, t) =>
          searchFrom p left (iteration + 1) (proposal.next improved).1 (proposal.next improved).2 t := by
  rw [searchFrom, bind_apply]
  by_cases hstop : (p.canStop iteration s).1 = true
  · rw [if_pos hstop, if_pos hstop]
    rfl
  · rw [if_neg hstop, if_neg hstop]
    dsimp only
    rw [bind_apply, ExceptT.run]
    rcases p.test .genetic (propose p iteration anchor g).order (p.canStop iteration s).2 with
      ⟨e | improved, t⟩
    · rfl
    · cases improved <;> rfl

theorem ends_searchFrom (left iteration : ℕ) {anchor : List ℕ} (g : Genetic ρ) (s : Session σ)
    (hanchor : anchor.Perm (List.range p.size)) :
    p.Ends (Move.IsTrial p.size .genetic) s (fun result t ↦ p.Iterated s iteration left result t)
      ((searchFrom p left iteration anchor g s).1.1, (searchFrom p left iteration anchor g s).2) := by
  induction left generalizing iteration anchor g s with
  | zero => exact .pure (.finish rfl rfl)
  | succ left ih =>
    obtain ⟨stop, world, hstop, hbest⟩ := p.canStop_spec iteration s
    have hpoll : p.Reaches (Move.IsTrial p.size .genetic) s (p.canStop iteration s).2 :=
      .single (m := .poll iteration) (.poll iteration)
    have hclean := p.refusals_canStop iteration s
    rw [searchFrom_succ]
    rw [hstop] at hpoll hclean ⊢
    cases stop with
    | true =>
      obtain ⟨hcheck, hcost⟩ := hbest rfl
      exact .finished hpoll hclean (.stop hcheck hcost)
    | false =>
      rw [if_neg Bool.false_ne_true]
      refine Ends.trans hpoll hclean ?_
      have htest := ends_test (p := p) .genetic _
        { s with world, journal := .polled iteration false :: s.journal }
        (Move.IsTrial.test (propose_perm iteration g hanchor).1)
      dsimp only
      generalize p.test .genetic (propose p iteration anchor g).order _ = out at htest
      cases htest with
      | refused reached last refusal clean => exact .refused reached last refusal clean
      | @finished improved t reached clean holds =>
        refine Ends.trans reached clean ?_
        obtain ⟨htested, hcounted⟩ := holds
        have hpolled : Session.scorings
            { s with world, journal := .polled iteration false :: s.journal } = s.scorings :=
          Session.scorings_eq_of_cons rfl rfl
        rw [hpolled] at hcounted
        exact (ih (iteration + 1) _ t (next_propose_perm iteration g improved hanchor)).mono
          fun _ _ _ iterated ↦ iterated.step htested hcounted

theorem search_apply (g : Genetic ρ) (s : Session σ) :
    g.search p s = match searchFrom p p.config.maxIterations 0 (List.range p.size) g s with
      | ((.error e, g), t) => ((.error e, g), t)
      | ((.ok (iterations, outOfTime), g), t) =>
        ((.ok (), g), t.record (.stopped .genetic iterations outOfTime)) := by
  rw [search, bind_apply]
  rcases searchFrom p p.config.maxIterations 0 (List.range p.size) g s with
    ⟨⟨e | ⟨iterations, outOfTime⟩, g⟩, t⟩ <;> rfl

theorem ran_search (g : Genetic ρ) (s : Session σ) :
    p.Ran .genetic p.config.maxIterations s ((g.search p s).1.1, (g.search p s).2) := by
  have hran := Ends.andStop
    (fun s ↦ ((searchFrom p p.config.maxIterations 0 (List.range p.size) g s).1.1,
      (searchFrom p p.config.maxIterations 0 (List.range p.size) g s).2))
    (ends_searchFrom p.config.maxIterations 0 g s (.refl (List.range p.size)))
  rw [SearchM.bind_apply] at hran
  rw [search_apply]
  generalize searchFrom p p.config.maxIterations 0 (List.range p.size) g s = out at hran ⊢
  obtain ⟨⟨result, g'⟩, t⟩ := out
  cases result with
  | error e => exact hran
  | ok result => exact hran

end Genetic

end JoinOrder
