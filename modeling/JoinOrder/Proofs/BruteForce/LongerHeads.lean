import JoinOrder.Proofs.BruteForce.Greedy
/-!
# Longer heads find no worse plans

The greedy completion of a head is also the greedy completion of each longer beginning of it: the choices
that are left are the same. Since a beginning has one greedy completion only, brute force over longer
heads tests all orderings that it tests over shorter ones. So longer heads can only make the best plan
cheaper, and all orderings together make it as cheap as it gets.
-/

namespace JoinOrder

open Arrangement Checked Problem

variable {σ : Type} {p : Problem σ} {cost : List ℕ → Cost} {n : ℕ}

theorem IsGreedyChoice.unique {order : List ℕ} {id id' : ℕ} (h : IsGreedyChoice cost n order id)
    (h' : IsGreedyChoice cost n order id') : id = id' :=
  IsLeast.unique h h'

theorem Problem.IsCostedBy.exists_bestCost (h : p.IsCostedBy cost) {id : StrategyId} {world : σ}
    {t : Session σ} (hreach : p.Reaches (Move.IsProper p.size id) { world } t) (hne : t.tested ≠ []) :
    ∃ order ∈ t.tested, t.bestCost? = some (cost order) ∧
      ∀ other ∈ t.tested, ¬cost other < cost order := by
  have hcosted := h.cost_of_reaches hreach
  have hfirst := hreach.preserves (P := Session.HasFirstCheapest) (.opened world)
    fun _ m _ hs ↦ hs.perform m
  obtain ⟨hbest, -⟩ := hfirst
  unfold Session.bestCost?
  generalize t.best? = best? at hbest
  cases hbest with
  | none nil => exact absurd (congrArg (List.map Prod.fst) nil) hne
  | @some order e before after split first cheapest =>
    have hmem : (order, e) ∈ t.scorings := by simp [split]
    refine ⟨order, List.mem_map_of_mem hmem, congrArg some (hcosted _ hmem), fun other hother ↦ ?_⟩
    obtain ⟨x, hx, rfl⟩ := List.mem_map.mp hother
    have hle := cheapest x hx
    rwa [hcosted x hx, hcosted _ hmem] at hle

/-- A search that tests more orderings finds no worse plan. -/
theorem Problem.IsCostedBy.bestCost_not_lt (h : p.IsCostedBy cost) {id id' : StrategyId}
    {world world' : σ} {t t' : Session σ}
    (hreach : p.Reaches (Move.IsProper p.size id) { world } t)
    (hreach' : p.Reaches (Move.IsProper p.size id') { world := world' } t') (hne : t.tested ≠ [])
    (hsubset : t.tested ⊆ t'.tested) :
    ∃ c c', t.bestCost? = some c ∧ t'.bestCost? = some c' ∧ ¬c < c' := by
  obtain ⟨order, hmem, hbest, -⟩ := h.exists_bestCost hreach hne
  obtain ⟨order', -, hbest', hleast⟩ :=
    h.exists_bestCost hreach' (List.ne_nil_of_mem (hsubset hmem))
  exact ⟨_, _, hbest, hbest', hleast order (hsubset hmem)⟩

namespace Sweep

variable {head plan plan' : List ℕ} {choice : List ℕ → ℕ → Prop}

/-! ## Extensions of longer heads -/

namespace IsExtension

theorem length_eq (h : IsExtension choice n head plan) : plan.length = n :=
  length_of_perm_range h.perm

theorem take (h : IsExtension choice n head plan) {k : ℕ} (hk : head.length ≤ k) :
    IsExtension choice n (plan.take k) plan where
  perm := h.perm
  begins := List.take_prefix k plan
  chosen pos id hpos hlast hid := by
    have hle := h.begins.length_le
    rw [List.length_take] at hpos
    exact h.chosen pos id (by omega) hlast hid
  last := h.last

theorem take_eq (hunique : ∀ order id id', choice order id → choice order id' → id = id')
    (h : IsExtension choice n head plan) (h' : IsExtension choice n head plan') {k : ℕ}
    (hhead : head.length ≤ k) (hk : k < n) : plan.take k = plan'.take k := by
  induction k, hhead using Nat.le_induction with
  | base => rw [← List.prefix_iff_eq_take.mp h.begins, ← List.prefix_iff_eq_take.mp h'.begins]
  | succ k hhead ih =>
    have hprev := ih (by omega)
    have hlt : k < plan.length := by rw [h.length_eq]; omega
    have hlt' : k < plan'.length := by rw [h'.length_eq]; omega
    have hid := h.chosen k plan[k] hhead hk (List.getElem?_eq_getElem hlt)
    have hid' := h'.chosen k plan'[k] hhead hk (List.getElem?_eq_getElem hlt')
    rw [← hprev] at hid'
    rw [List.take_add_one, List.take_add_one, hprev, List.getElem?_eq_getElem hlt,
      List.getElem?_eq_getElem hlt', hunique _ _ _ hid hid']

/-- **A head has one extension** if the rule leaves no choice. -/
theorem unique (hunique : ∀ order id id', choice order id → choice order id' → id = id')
    (h : IsExtension choice n head plan) (h' : IsExtension choice n head plan') : plan = plan' := by
  rcases Nat.lt_or_ge head.length n with hopen | hfull
  · obtain ⟨m, rfl⟩ : ∃ m, n = m + 1 := ⟨n - 1, by omega⟩
    have hprev : plan.take m = plan'.take m := h.take_eq hunique h' (by omega) (by omega)
    have hlt : m < plan.length := by rw [h.length_eq]; omega
    have hid : plan[m] < m + 1 := lt_of_perm_range h.perm (List.getElem_mem hlt)
    -- what comes last in the one ordering is missing from the beginning that both share
    have hnotMem : plan[m] ∉ plan.take m := by
      intro hmem
      obtain ⟨pos, hpos, heq⟩ := List.mem_take_iff_getElem.mp hmem
      have := (nodup_of_perm_range h.perm).getElem_inj_iff.mp heq
      omega
    have hlast' := h'.last plan[m] hid (hprev ▸ hnotMem)
    rw [← List.take_of_length_le h.length_eq.le, ← List.take_of_length_le h'.length_eq.le,
      List.take_add_one, List.take_add_one, hprev, List.getElem?_eq_getElem hlt]
    exact congrArg (plan'.take m ++ ·.toList) hlast'.symm
  · rw [← h.begins.eq_of_length_le (by rw [h.length_eq]; exact hfull),
      ← h'.begins.eq_of_length_le (by rw [h'.length_eq]; exact hfull)]

end IsExtension

/-! ## Two lengths of heads -/

theorem bruteForceLength_mono {length length' : ℕ} (p : Problem σ) (hle : length ≤ length') :
    bruteForceLength p (some length) ≤ bruteForceLength p (some length') :=
  min_le_min_right p.size hle

namespace BruteForced

variable {s s' t t' : Session σ} {runs runs' : List (List ℕ × List ℕ)} {length length' : ℕ}

/-- **Longer heads lead to the same orderings and others.** -/
theorem tested_subset (h : BruteForced (IsGreedyChoice cost p.size) p length s runs t)
    (h' : BruteForced (IsGreedyChoice cost p.size) p length' s' runs' t') (hle : length ≤ length')
    (hlength' : length' ≤ p.size) (hunhurried : s'.IsUnhurriedSince t') :
    runs.map Prod.snd ⊆ runs'.map Prod.snd := by
  intro plan hplan
  obtain ⟨run, hrun, rfl⟩ := List.mem_map.mp hplan
  have hextension := h.swept.rule run hrun
  have hhead : run.1.length = length := h.length_head (hle.trans hlength') hrun
  -- the longer run visits the longer beginning of the ordering
  have hbeginning : run.2.take length' ∈ runs'.map Prod.fst := by
    rw [h'.swept.heads, h'.unhurried hunhurried, List.take_of_length_le (length_inOrder _ _).le,
      mem_inOrder_iff hlength', List.length_take, hextension.length_eq]
    have hpart := List.take_sublist length' run.2
    exact ⟨(nodup_of_perm_range hextension.perm).sublist hpart,
      fun _ hx ↦ lt_of_perm_range hextension.perm (hpart.subset hx), Nat.min_eq_left hlength'⟩
  obtain ⟨run', hrun', hsame⟩ := List.mem_map.mp hbeginning
  have hlonger := hextension.take (k := length') (hhead ▸ hle)
  have hextension' := h'.swept.rule run' hrun'
  rw [hsame] at hextension'
  rw [hlonger.unique (fun _ _ _ hid hid' ↦ hid.unique hid') hextension']
  exact List.mem_map_of_mem hrun'

theorem tested_subset_inOrder (h : BruteForced choice p length s runs t) :
    runs.map Prod.snd ⊆ inOrder p.size p.size := by
  intro plan hplan
  obtain ⟨run, hrun, rfl⟩ := List.mem_map.mp hplan
  exact mem_inOrder_self_iff.mpr (h.swept.rule run hrun).perm

theorem tested_ne_nil (h : BruteForced choice p length s runs t) (hlength : length ≤ p.size)
    (hunhurried : s.IsUnhurriedSince t) : runs.map Prod.snd ≠ [] := by
  have hpos : 0 < count p.size length := count_pos hlength
  rw [← h.unhurried hunhurried] at hpos
  exact List.ne_nil_of_length_pos (by rwa [List.length_map])

end BruteForced

/-- **Longer heads find no worse plans.** Under a cost function, brute force over longer heads that is
not out of time tests all orderings that it tests over shorter heads. So, over fresh sessions and if no
search is out of time, the best plan over longer heads costs no more, and the exhaustive search finds
one that costs no more than that. -/
theorem bruteForce_tested_subset (h : p.IsCostedBy cost) {length length' : ℕ} (hle : length ≤ length') :
    (∀ s s' : Session σ, ∃ (plans plans' : List (List ℕ)) (t t' : Session σ),
      bruteForce p (some length) s = (.ok (), t) ∧ bruteForce p (some length') s' = (.ok (), t') ∧
      t.tested = s.tested ++ plans ∧ t'.tested = s'.tested ++ plans' ∧
      (s'.IsUnhurriedSince t' → plans ⊆ plans')) ∧
    ∀ world world' world'' : σ, ∃ t t' u : Session σ,
      bruteForce p (some length) { world } = (.ok (), t) ∧
      bruteForce p (some length') { world := world' } = (.ok (), t') ∧
      exhaustive p { world := world'' } = (.ok (), u) ∧
      (IsUnhurried t.history → IsUnhurried t'.history → IsUnhurried u.history →
        ∃ c c' least, t.bestCost? = some c ∧ t'.bestCost? = some c' ∧ u.bestCost? = some least ∧
          ¬c < c' ∧ ¬c' < least) := by
  have hforced (length? : Option ℕ) (s : Session σ) :=
    exists_bruteForced h.alwaysAnswers (chooses_isGreedyChoice h) length? s
  have hmono := bruteForceLength_mono p hle
  have hlength' : bruteForceLength p (some length') ≤ p.size := Nat.min_le_right _ _
  constructor
  · intro s s'
    obtain ⟨runs, t, hrun, hruns⟩ := hforced (some length) s
    obtain ⟨runs', t', hrun', hruns'⟩ := hforced (some length') s'
    exact ⟨_, _, t, t', hrun, hrun', hruns.swept.adds.tested, hruns'.swept.adds.tested,
      hruns.tested_subset hruns' hmono hlength'⟩
  · intro world world' world''
    obtain ⟨runs, t, hrun, hruns⟩ := hforced (some length) { world }
    obtain ⟨runs', t', hrun', hruns'⟩ := hforced (some length') { world := world' }
    obtain ⟨k, u, hrun'', hsearched⟩ := exists_searched h world''
    refine ⟨t, t', u, hrun, hrun', hrun'', fun hunhurried hunhurried' hunhurried'' ↦ ?_⟩
    have htested : t.tested = runs.map Prod.snd := hruns.swept.adds.tested
    have htested' : t'.tested = runs'.map Prod.snd := hruns'.swept.adds.tested
    have htested'' : u.tested = inOrder p.size p.size := by
      rw [hsearched.tested, List.take_of_length_le]
      rw [length_inOrder, count_eq_descFactorial, Nat.descFactorial_self,
        hsearched.unhurried hunhurried'']
    have hsubset : t.tested ⊆ t'.tested := by
      rw [htested, htested']
      exact hruns.tested_subset hruns' hmono hlength' hunhurried'
    have hsubset' : t'.tested ⊆ u.tested := by
      rw [htested', htested'']
      exact hruns'.tested_subset_inOrder
    have hne : t.tested ≠ [] := htested ▸ hruns.tested_ne_nil (hmono.trans hlength') hunhurried
    have hne' : t'.tested ≠ [] := htested' ▸ hruns'.tested_ne_nil hlength' hunhurried'
    have hreach' := (ran_bruteForce _ _).reaches hrun'
    obtain ⟨c, c', hc, hc', hle⟩ :=
      h.bestCost_not_lt ((ran_bruteForce _ _).reaches hrun) hreach' hne hsubset
    obtain ⟨c₁, least, hc₁, hleast, hle'⟩ :=
      h.bestCost_not_lt hreach' ((ran_exhaustive _).reaches hrun'') hne' hsubset'
    obtain rfl : c₁ = c' := Option.some.inj (hc₁.symm.trans hc')
    exact ⟨c, c₁, least, hc, hc₁, hleast, hle, hle'⟩

/-- The ordering that the choices lead to from nothing ends with the first operand. Heads of one operand
lead to it too, and to a cheaper one. -/
theorem bruteForce_fourCosted_longer :
    fourCosted.IsCostedBy costlyFirst ∧ 0 ≤ 1 ∧
      (∃ t t' : Session Unit, bruteForce fourCosted (some 0) { world := () } = (.ok (), t) ∧
        bruteForce fourCosted (some 1) { world := () } = (.ok (), t') ∧
        t.tested = [[1, 2, 3, 0]] ∧ t.tested ⊆ t'.tested) ∧
      ∃ t t' u : Session Unit, bruteForce fourCosted (some 0) { world := () } = (.ok (), t) ∧
        bruteForce fourCosted (some 1) { world := () } = (.ok (), t') ∧
        exhaustive fourCosted { world := () } = (.ok (), u) ∧
        t.best?.map Plan.order = some [1, 2, 3, 0] ∧ t'.best?.map Plan.order = some [0, 1, 2, 3] ∧
        ∃ c c' least, t.bestCost? = some c ∧ t'.bestCost? = some c' ∧ u.bestCost? = some least ∧
          ¬c < c' ∧ ¬c' < least := by
  obtain ⟨hsubset, hbest⟩ := bruteForce_tested_subset isCostedBy_fourCosted (Nat.zero_le 1)
  refine ⟨isCostedBy_fourCosted, Nat.zero_le 1, ?_, ?_⟩
  · obtain ⟨plans, plans', t, t', hrun, hrun', htested, htested', hsub⟩ :=
      hsubset { world := () } { world := () }
    obtain rfl : (bruteForce fourCosted (some 0) { world := () }).2 = t := congrArg Prod.snd hrun
    obtain rfl : (bruteForce fourCosted (some 1) { world := () }).2 = t' := congrArg Prod.snd hrun'
    refine ⟨_, _, hrun, hrun', by decide +kernel, ?_⟩
    rw [htested, htested']
    exact hsub (by decide +kernel)
  · obtain ⟨t, t', u, hrun, hrun', hrun'', hcosts⟩ := hbest () () ()
    obtain rfl : (bruteForce fourCosted (some 0) { world := () }).2 = t := congrArg Prod.snd hrun
    obtain rfl : (bruteForce fourCosted (some 1) { world := () }).2 = t' := congrArg Prod.snd hrun'
    obtain rfl : (exhaustive fourCosted { world := () }).2 = u := congrArg Prod.snd hrun''
    exact ⟨_, _, _, hrun, hrun', hrun'', by decide +kernel, by decide +kernel,
      hcosts (by decide +kernel) (by decide +kernel) (by decide +kernel)⟩

end Sweep

end JoinOrder
