import JoinOrder.Proofs.Search.Events
import JoinOrder.Proofs.Search.Genetic
/-!
# What the genetic search tries around an anchor

The genetic search goes from anchor to anchor: a random order it starts over from, or an ordering that
became the best plan. In between it tests what one exchange makes of the anchor, and the tabu set has it
test each of these orderings once. So the orderings tested from an anchor on are pairwise different, and
there are no more of them than pairs of positions before the next anchor.

## Rounds

What an iteration did is not all in the journal: an ordering drawn anew looks like any other one. The
*rounds* of a search are its iterations with that fact, one for each ordering scored, and their events are
those the search adds.

## What carries the argument

The tabu set is emptied at every anchor. From there on it gains the pair of each exchange, so the
exchanges still to come are of pairs outside of it. Stated of the tabu set at hand, this needs no history:
the exchanges up to the next anchor are pairwise different and none of them is tabu now.
-/

namespace JoinOrder

open Problem

variable {σ ρ : Type} [RandomSource ρ]

namespace Genetic

/-! ## Rounds -/

/-- An iteration that scored an ordering. -/
structure Round where
  /-- The ordering tested. -/
  order : List ℕ
  /-- Its estimate. -/
  estimate : Estimate
  /-- The search started over with it, from a random order. -/
  restarted : Bool
  /-- It became the best plan. -/
  improved : Bool

namespace Round

/-- The search goes on from the ordering of this round. -/
def isAnchor (r : Round) : Bool := r.restarted || r.improved

/-- The events of a round. -/
def events (r : Round) : List Entry :=
  .scored .genetic r.order r.estimate ::
    if r.improved then [.improved .genetic r.order r.estimate.cost] else []

end Round

/-- The search starts over in an iteration: at a check point, or if it finds no pair to swap. -/
def restarts (p : Problem σ) (iteration : ℕ) (anchor : List ℕ) (g : Genetic ρ) : Bool :=
  p.budget.isCheckPoint iteration || (swap anchor p.config.swapAttempts g).1.isNone

/-- The rounds of a search from an iteration on, given how many are left. -/
def roundsFrom (p : Problem σ) : (left iteration : ℕ) → (anchor : List ℕ) → Genetic ρ →
    Session σ → List Round
  | 0, _, _, _, _ => []
  | left + 1, iteration, anchor, g, s =>
    if (p.canStop iteration s).1 then []
    else
      let s := (p.canStop iteration s).2
      let proposal := propose p iteration anchor g
      match (p.estimate proposal.order s).1, p.test .genetic proposal.order s with
      | .ok e, (.ok improved, t) =>
        ⟨proposal.order, e, restarts p iteration anchor g, improved⟩ ::
          roundsFrom p left (iteration + 1) (proposal.next improved).1 (proposal.next improved).2 t
      | _, _ => []

/-- The rounds of a search. -/
def rounds (p : Problem σ) (g : Genetic ρ) (s : Session σ) : List Round :=
  roundsFrom p p.config.maxIterations 0 (List.range p.size) g s

variable {p : Problem σ} {left iteration : ℕ} {anchor : List ℕ} {g : Genetic ρ} {s : Session σ}

/-! ## The rounds and the events -/

theorem events_canStop (iteration : ℕ) (s : Session σ) :
    (p.canStop iteration s).2.events = s.events := by
  obtain ⟨stop, world, hstop, -⟩ := p.canStop_spec iteration s
  rw [hstop]
  simp [Session.events, Session.history, Entry.isEvent]

theorem events_test (order : List ℕ) (s : Session σ) :
    (∃ e t, (p.estimate order s).1 = .error e ∧ p.test .genetic order s = (.error e, t) ∧
        t.events = s.events) ∨
      ∃ e improved t, (p.estimate order s).1 = .ok e ∧
        p.test .genetic order s = (.ok improved, t) ∧
        ∀ restarted, t.events = s.events ++ Round.events ⟨order, e, restarted, improved⟩ := by
  have hspec := p.test_spec .genetic order s
  generalize p.test .genetic order s = out at hspec
  cases hspec with
  | refused est =>
    refine .inl ⟨_, _, est, rfl, ?_⟩
    simp [Session.events, Session.history, Entry.isEvent]
  | kept est =>
    refine .inr ⟨_, _, _, est, rfl, fun restarted ↦ ?_⟩
    simp [Session.events, Session.history, Entry.isEvent, Round.events]
  | passed est =>
    refine .inr ⟨_, _, _, est, rfl, fun restarted ↦ ?_⟩
    simp [Session.events, Session.history, Entry.isEvent, Round.events]

theorem events_searchFrom (left iteration : ℕ) (anchor : List ℕ) (g : Genetic ρ) (s : Session σ) :
    let out := searchFrom p left iteration anchor g s
    let rounds := roundsFrom p left iteration anchor g s
    out.2.events = s.events ++ rounds.flatMap Round.events ∧
      ∀ iterations outOfTime, out.1.1 = .ok (iterations, outOfTime) →
        iterations = iteration + rounds.length := by
  induction left generalizing iteration anchor g s with
  | zero =>
    refine ⟨(List.append_nil _).symm, ?_⟩
    rintro _ _ ⟨⟩
    rfl
  | succ left ih =>
    rw [searchFrom_succ, roundsFrom]
    by_cases hstop : (p.canStop iteration s).1 = true
    · rw [if_pos hstop, if_pos hstop]
      refine ⟨(events_canStop iteration s).trans (List.append_nil _).symm, ?_⟩
      rintro _ _ ⟨⟩
      rfl
    · rw [if_neg hstop, if_neg hstop, ← events_canStop (p := p) iteration s]
      dsimp only
      obtain ⟨e, t, hest, htest, hevents⟩ | ⟨e, improved, t, hest, htest, hevents⟩ :=
        events_test (p := p) (propose p iteration anchor g).order (p.canStop iteration s).2
      · rw [hest, htest]
        refine ⟨hevents.trans (List.append_nil _).symm, ?_⟩
        rintro _ _ ⟨⟩
      · rw [hest, htest]
        obtain ⟨hrest, hcount⟩ := ih (iteration + 1)
          ((propose p iteration anchor g).next improved).1
          ((propose p iteration anchor g).next improved).2 t
        refine ⟨?_, fun iterations outOfTime hout ↦ ?_⟩
        · rw [hrest, hevents, List.append_assoc, List.flatMap_cons]
        · rw [hcount iterations outOfTime hout, List.length_cons]
          omega

/-! ## One round -/

/-- What the first round of a search is, and with what the search goes on after it. -/
theorem roundsFrom_eq_cons {r : Round} {rest : List Round}
    (h : roundsFrom p left iteration anchor g s = r :: rest) :
    ∃ left' t, r.order = (propose p iteration anchor g).order ∧
      r.restarted = restarts p iteration anchor g ∧
      rest = roundsFrom p left' (iteration + 1) ((propose p iteration anchor g).next r.improved).1
        ((propose p iteration anchor g).next r.improved).2 t := by
  cases left with
  | zero => contradiction
  | succ left =>
    rw [roundsFrom] at h
    split at h
    · contradiction
    · dsimp only at h
      split at h
      · next t _ _ =>
        obtain ⟨rfl, rfl⟩ := List.cons.inj h
        exact ⟨left, t, rfl, rfl, rfl⟩
      · contradiction

/-- A round that starts over tests a shuffle, which is its anchor, with nothing tabu. -/
theorem propose_of_restarts (h : restarts p iteration anchor g = true) :
    ∃ source : ρ, (propose p iteration anchor g).order =
        (Random.shuffle (List.range p.size) source).1 ∧
      (propose p iteration anchor g).anchor = (propose p iteration anchor g).order ∧
      (propose p iteration anchor g).search.tabu = Tabu.empty := by
  unfold propose
  by_cases hcheck : p.budget.isCheckPoint iteration = true
  · rw [if_pos hcheck]
    exact ⟨g.source, rfl, rfl, rfl⟩
  · rw [if_neg hcheck]
    rw [restarts, Bool.eq_false_iff.mpr hcheck, Bool.false_or] at h
    generalize swap anchor p.config.swapAttempts g = out at h
    obtain ⟨_ | order, g'⟩ := out
    · exact ⟨g'.source, rfl, rfl, rfl⟩
    · contradiction

/-- A round that does not start over tests its anchor with two positions swapped that were not tabu. -/
theorem propose_of_not_restarts (h : restarts p iteration anchor g = false) :
    ∃ a b, a < anchor.length ∧ b < anchor.length ∧ a ≠ b ∧ g.tabu.contains a b = false ∧
      (propose p iteration anchor g).order = Random.swapAt anchor a b ∧
      (propose p iteration anchor g).anchor = anchor ∧
      ∀ c d, (propose p iteration anchor g).search.tabu.contains c d = true ↔
        g.tabu.contains c d = true ∨ s(c, d) = s(a, b) := by
  rw [restarts, Bool.or_eq_false_iff] at h
  obtain ⟨hcheck, hsome⟩ := h
  have hswap := swap_spec anchor p.config.swapAttempts g
  unfold propose
  rw [if_neg (Bool.eq_false_iff.mp hcheck)]
  generalize swap anchor p.config.swapAttempts g = out at hswap hsome
  cases hswap with
  | none source => contradiction
  | @some a b tabu source ha hb hne hfresh htabu =>
    exact ⟨a, b, ha, hb, hne, hfresh, rfl, rfl, htabu⟩

theorem next_of_isAnchor {r : Round} (horder : r.order = (propose p iteration anchor g).order)
    (hrestarted : r.restarted = restarts p iteration anchor g) (h : r.isAnchor = true) :
    ((propose p iteration anchor g).next r.improved).1 = r.order ∧
      ((propose p iteration anchor g).next r.improved).2.tabu = Tabu.empty := by
  rw [horder]
  cases himproved : r.improved with
  | true => exact ⟨rfl, rfl⟩
  | false =>
    rw [Round.isAnchor, himproved, Bool.or_false, hrestarted] at h
    obtain ⟨source, -, hanchor, htabu⟩ := propose_of_restarts h
    exact ⟨hanchor, htabu⟩

/-! ## Many rounds -/

theorem roundsFrom_of_append {before after : List Round} (hanchor : anchor.Perm (List.range p.size))
    (h : roundsFrom p left iteration anchor g s = before ++ after) :
    ∃ left' iteration' anchor' g' s', anchor'.Perm (List.range p.size) ∧
      roundsFrom (ρ := ρ) p left' iteration' anchor' g' s' = after := by
  induction before generalizing left iteration anchor g s with
  | nil => exact ⟨left, iteration, anchor, g, s, hanchor, h⟩
  | cons r before ih =>
    obtain ⟨left', t, -, -, hrest⟩ := roundsFrom_eq_cons h
    exact ih (next_propose_perm iteration g r.improved hanchor) hrest.symm

/-- A stretch of rounds: the search does not start over in them, and at most the last of them improves
the best plan. -/
structure IsStretch (rounds : List Round) : Prop where
  kept : ∀ r ∈ rounds, r.restarted = false
  passed : ∀ r ∈ rounds.dropLast, r.improved = false

theorem IsStretch.tail {r : Round} {rest : List Round} (h : IsStretch (r :: rest))
    (hrest : rest ≠ []) : r.improved = false ∧ IsStretch rest := by
  have hpassed := h.passed
  rw [List.dropLast_cons_of_ne_nil hrest] at hpassed
  refine ⟨hpassed r List.mem_cons_self, ?_, ?_⟩
  · exact fun x hx ↦ h.kept x (List.mem_cons_of_mem r hx)
  · exact fun x hx ↦ hpassed x (List.mem_cons_of_mem r hx)

/-- **A stretch exchanges different pairs**, none of which is tabu before. -/
theorem exists_pairs {stretch after : List Round} (hstretch : IsStretch stretch)
    (h : roundsFrom p left iteration anchor g s = stretch ++ after) :
    ∃ pairs : List (ℕ × ℕ),
      stretch.map Round.order = pairs.map (fun q ↦ Random.swapAt anchor q.1 q.2) ∧
      (pairs.map Sym2.mk.uncurry).Nodup ∧
      ∀ q ∈ pairs, (q.1 < anchor.length ∧ q.2 < anchor.length ∧ q.1 ≠ q.2) ∧
        g.tabu.contains q.1 q.2 = false := by
  induction stretch generalizing left iteration g s with
  | nil => exact ⟨[], rfl, .nil, fun q hq ↦ absurd hq List.not_mem_nil⟩
  | cons r rest ih =>
    obtain ⟨left', t, horder, hrestarted, hrest⟩ := roundsFrom_eq_cons h
    rw [hstretch.kept r List.mem_cons_self] at hrestarted
    obtain ⟨a, b, ha, hb, hne, hfresh, hswap, hanchor, htabu⟩ :=
      propose_of_not_restarts hrestarted.symm
    by_cases hnil : rest = []
    · refine ⟨[(a, b)], ?_, List.nodup_singleton _, ?_⟩
      · rw [hnil, List.map_singleton, List.map_singleton, horder, hswap]
      · intro q hq
        obtain rfl := List.mem_singleton.mp hq
        exact ⟨⟨ha, hb, hne⟩, hfresh⟩
    · obtain ⟨himproved, hstretch'⟩ := hstretch.tail hnil
      rw [himproved] at hrest
      have hnext : (propose p iteration anchor g).next false =
          (anchor, (propose p iteration anchor g).search) := by
        rw [Proposal.next, if_neg Bool.false_ne_true, hanchor]
      rw [hnext] at hrest
      obtain ⟨pairs, horders, hnodup, hpairs⟩ := ih hstretch' hrest.symm
      -- the pair of this round is tabu from now on, so it does not come again
      have hfrom (q : ℕ × ℕ) (hq : q ∈ pairs) :
          g.tabu.contains q.1 q.2 = false ∧ s(q.1, q.2) ≠ s(a, b) := by
        have hnot := mt (htabu q.1 q.2).mpr (Bool.eq_false_iff.mp (hpairs q hq).2)
        rw [not_or, Bool.not_eq_true] at hnot
        exact hnot
      refine ⟨(a, b) :: pairs, ?_, ?_, ?_⟩
      · rw [List.map_cons, List.map_cons, horders, horder, hswap]
      · rw [List.map_cons, List.nodup_cons]
        refine ⟨fun hin ↦ ?_, hnodup⟩
        obtain ⟨q, hq, heq⟩ := List.mem_map.mp hin
        exact (hfrom q hq).2 heq
      · intro q hq
        rcases List.mem_cons.mp hq with rfl | hq
        · exact ⟨⟨ha, hb, hne⟩, hfresh⟩
        · exact ⟨(hpairs q hq).1, (hfrom q hq).1⟩

/-- What a stretch tests after an anchor over `n` operands: exchanges of two positions of the anchor, all
different, and so no more than there are pairs. -/
structure Varies (n : ℕ) (a : Round) (stretch : List Round) : Prop where
  exchanged : ∀ r ∈ stretch, ∃ i j, i < n ∧ j < n ∧ i ≠ j ∧ r.order = Random.swapAt a.order i j
  nodup : ((a :: stretch).map Round.order).Nodup
  length_le : stretch.length ≤ n * (n - 1) / 2

theorem varies_of_pairs {n : ℕ} {a : Round} {stretch : List Round} {pairs : List (ℕ × ℕ)}
    (ha : a.order.Perm (List.range n))
    (horders : stretch.map Round.order = pairs.map fun q ↦ Random.swapAt a.order q.1 q.2)
    (hnodup : (pairs.map Sym2.mk.uncurry).Nodup)
    (hpairs : ∀ q ∈ pairs, q.1 < n ∧ q.2 < n ∧ q.1 ≠ q.2) : Varies n a stretch := by
  have hlength : a.order.length = n := Arrangement.length_of_perm_range ha
  have hdistinct : a.order.Nodup := ha.nodup_iff.mpr List.nodup_range
  constructor
  · intro r hr
    have hin : r.order ∈ pairs.map fun q ↦ Random.swapAt a.order q.1 q.2 :=
      horders ▸ List.mem_map_of_mem hr
    obtain ⟨q, hq, heq⟩ := List.mem_map.mp hin
    obtain ⟨h₁, h₂, hne⟩ := hpairs q hq
    exact ⟨q.1, q.2, h₁, h₂, hne, heq.symm⟩
  · rw [List.map_cons, List.nodup_cons, horders]
    subst hlength
    constructor
    · intro hin
      obtain ⟨q, hq, heq⟩ := List.mem_map.mp hin
      obtain ⟨h₁, h₂, hne⟩ := hpairs q hq
      exact Random.swapAt_ne hdistinct h₁ h₂ hne heq
    · refine List.Nodup.map_on ?_ (List.Nodup.of_map _ hnodup)
      intro q hq q' hq' heq
      obtain ⟨h₁, h₂, hne⟩ := hpairs q hq
      obtain ⟨h₁', h₂', -⟩ := hpairs q' hq'
      exact List.inj_on_of_nodup_map hnodup hq hq'
        (Random.pair_eq_of_swapAt_eq hdistinct h₁ h₂ h₁' h₂' hne heq)
  · calc stretch.length = pairs.length := by
          rw [← List.length_map Round.order, horders, List.length_map]
      _ ≤ n * (n - 1) / 2 := Random.length_le_of_pairs hnodup hpairs

/-! ## The whole search -/

theorem events_search (g : Genetic ρ) (s : Session σ) :
    ∃ outOfTime, (g.search p s).2.events = s.events ++ (rounds p g s).flatMap Round.events ++
      match (g.search p s).1.1 with
      | .ok () => [.stopped .genetic (rounds p g s).length outOfTime]
      | .error _ => [] := by
  obtain ⟨hevents, hcount⟩ := events_searchFrom (p := p) p.config.maxIterations 0
    (List.range p.size) g s
  rw [← rounds] at hevents hcount
  rw [search_apply]
  generalize searchFrom p p.config.maxIterations 0 (List.range p.size) g s = out at hevents hcount ⊢
  obtain ⟨⟨result, g'⟩, t⟩ := out
  cases result with
  | error e => exact ⟨false, hevents.trans (List.append_nil _).symm⟩
  | ok result =>
    obtain ⟨iterations, outOfTime⟩ := result
    have hiterations : iterations = (rounds p g s).length :=
      (hcount iterations outOfTime rfl).trans (Nat.zero_add _)
    refine ⟨outOfTime, ?_⟩
    rw [← hevents, ← hiterations]
    simp [Session.events, Session.history, Session.record, Entry.isEvent]

theorem restarted_of_head?_rounds {r : Round} (h : (rounds p g s).head? = some r) :
    r.restarted = true := by
  obtain ⟨rest, hrounds⟩ := List.head?_eq_some_iff.mp h
  obtain ⟨-, -, -, hrestarted, -⟩ := roundsFrom_eq_cons hrounds
  rw [hrestarted, restarts, Budget.isCheckPoint, Nat.zero_mod]
  rfl

theorem shuffled_of_mem_rounds {r : Round} (hr : r ∈ rounds p g s) (h : r.restarted = true) :
    ∃ source : ρ, r.order = (Random.shuffle (List.range p.size) source).1 := by
  obtain ⟨before, after, hrounds⟩ := List.append_of_mem hr
  obtain ⟨_, _, _, _, _, -, hfrom⟩ := roundsFrom_of_append (.refl _) hrounds
  obtain ⟨_, _, horder, hrestarted, -⟩ := roundsFrom_eq_cons hfrom
  obtain ⟨source, hshuffle, -, -⟩ := propose_of_restarts (hrestarted.symm.trans h)
  exact ⟨source, horder.trans hshuffle⟩

theorem varies_of_rounds {before stretch after : List Round} {a : Round}
    (h : rounds p g s = before ++ a :: (stretch ++ after)) (ha : a.isAnchor = true)
    (hstretch : IsStretch stretch) : Varies p.size a stretch := by
  obtain ⟨_, iteration, anchor, g', _, hanchor, hfrom⟩ := roundsFrom_of_append (.refl _) h
  obtain ⟨_, _, horder, hrestarted, hrest⟩ := roundsFrom_eq_cons hfrom
  obtain ⟨hnext, htabu⟩ := next_of_isAnchor horder hrestarted ha
  obtain ⟨pairs, horders, hnodup, hpairs⟩ := exists_pairs hstretch hrest.symm
  rw [hnext] at horders hpairs
  have hperm : a.order.Perm (List.range p.size) := horder ▸ (propose_perm iteration g' hanchor).1
  rw [Arrangement.length_of_perm_range hperm] at hpairs
  exact varies_of_pairs hperm horders hnodup fun q hq ↦ (hpairs q hq).1

theorem isStretch_of_not_isAnchor {between : List Round}
    (h : ∀ r ∈ between, r.isAnchor = false) : IsStretch between where
  kept r hr := (Bool.or_eq_false_iff.mp (h r hr)).1
  passed r hr := (Bool.or_eq_false_iff.mp (h r (List.mem_of_mem_dropLast hr))).2

/-- **Around an anchor no ordering is tested twice.** The first anchor is a shuffle, as each one is with
which the search starts over. From an anchor to the next one that improves the best plan, or to the last round
before the search starts over, what is tested are exchanges of different pairs of the anchor; and a pair is
exchanged only if it is not tabu and is the only one to become so. -/
theorem search_varies_anchors (p : Problem σ) (g : Genetic ρ) (s : Session σ) :
    (∃ outOfTime, (g.search p s).2.events = s.events ++ (rounds p g s).flatMap Round.events ++
      match (g.search p s).1.1 with
      | .ok () => [.stopped .genetic (rounds p g s).length outOfTime]
      | .error _ => []) ∧
    (∀ r, (rounds p g s).head? = some r → r.restarted = true) ∧
    (∀ r ∈ rounds p g s, r.restarted = true →
      ∃ source : ρ, r.order = (Random.shuffle (List.range p.size) source).1) ∧
    (∀ (before : List Round) (a : Round) (stretch after : List Round),
      rounds p g s = before ++ a :: (stretch ++ after) → a.isAnchor = true → IsStretch stretch →
      Varies p.size a stretch) ∧
    (∀ (before : List Round) (a : Round) (between : List Round) (b : Round) (after : List Round),
      rounds p g s = before ++ a :: (between ++ b :: after) → a.isAnchor = true → b.isAnchor = true →
      (∀ r ∈ between, r.isAnchor = false) →
      between.length ≤ p.size * (p.size - 1) / 2) ∧
    ∀ order attempts, Swapped order g (swap order attempts g) := by
  refine ⟨events_search g s, fun _ ↦ restarted_of_head?_rounds, fun _ ↦ shuffled_of_mem_rounds,
    fun _ _ _ _ ↦ varies_of_rounds, ?_, fun order attempts ↦ swap_spec order attempts g⟩
  intro before a between b after hrounds ha _ hbetween
  exact (varies_of_rounds hrounds ha (isStretch_of_not_isAnchor hbetween)).length_le

end Genetic

end JoinOrder
