import JoinOrder.Proofs.Lexicographic
import JoinOrder.Proofs.Optimize
import JoinOrder.Proofs.Search.Costed
/-!
# The exhaustive search finds the optimum

Under a cost function the exhaustive search tests the orderings one by one in lexicographic order, and
nothing else. It can only be cut short by the budget, at a check point and not before the first ordering.
Since a session keeps the first of the cheapest orderings tested, and these come in lexicographic order,
the best plan is the least of the cheapest orderings tested, in lexicographic order.

A search that the budget does not end tests all orderings, so no ordering is cheaper than the plan that a
run of the optimizer commits.
-/

namespace JoinOrder

variable {σ ρ : Type} {cost : List ℕ → Cost}

/-! ## The first of the cheapest orders -/

/-- An order is the lexicographically first among the cheapest of some orders. -/
structure IsLeastCheapest (cost : List ℕ → Cost) (orders : List (List ℕ)) (order : List ℕ) :
    Prop where
  mem : order ∈ orders
  cheapest : ∀ other ∈ orders, ¬cost other < cost order
  least : ∀ other ∈ orders, other < order → cost order < cost other

/-- The first of the cheapest scorings is the least one, if they come in lexicographic order. -/
theorem IsFirstCheapest.exists_isLeastCheapest {scorings : List Scoring} {best? : Option Plan}
    (h : IsFirstCheapest scorings best?) (hne : scorings ≠ [])
    (hsorted : (scorings.map Prod.fst).Pairwise (· < ·))
    (hcost : ∀ x ∈ scorings, x.2.cost = cost x.1) :
    ∃ plan, best? = Option.some plan ∧ plan.cost? = Option.some (cost plan.order) ∧
      IsLeastCheapest cost (scorings.map Prod.fst) plan.order := by
  cases h with
  | none nil => exact absurd nil hne
  | @some order e before after split first cheapest =>
    have hmem : (order, e) ∈ scorings := by simp [split]
    have hbest : e.cost = cost order := hcost _ hmem
    refine ⟨_, rfl, congrArg Option.some hbest, List.mem_map_of_mem hmem, fun other hother ↦ ?_,
      fun other hother hlt ↦ ?_⟩
    · obtain ⟨x, hx, rfl⟩ := List.mem_map.mp hother
      rw [← hcost x hx]
      exact hbest ▸ cheapest x hx
    · obtain ⟨x, hx, rfl⟩ := List.mem_map.mp hother
      rw [← hcost x hx]
      refine hbest ▸ first x ?_
      -- whatever is less than the order comes before it
      rw [split, List.map_append, List.map_cons, List.pairwise_append, List.pairwise_cons] at hsorted
      obtain ⟨-, ⟨hafter, -⟩, -⟩ := hsorted
      rw [split, List.mem_append, List.mem_cons] at hx
      rcases hx with hx | rfl | hx
      · exact hx
      · exact absurd hlt (List.lt_irrefl _)
      · exact absurd hlt (List.lt_asymm (hafter _ (List.mem_map_of_mem hx)))

namespace Sweep

open Problem

variable {p : Problem σ}

/-- What a search over all orderings, in lexicographic order, comes to under a cost function: it has
tested the first so many of them. -/
structure Searched (p : Problem σ) (cost : List ℕ → Cost) (orders : List (List ℕ)) (k : ℕ)
    (t : Session σ) : Prop where
  count : k = p.size.factorial ∨
    0 < k ∧ k < p.size.factorial ∧ max p.config.checkInterval 1 ∣ k
  asked : t.asked = orders.take k
  tested : t.tested = orders.take k
  costed : ∀ x ∈ t.scorings, x.2.cost = cost x.1
  best : ∃ plan, t.best? = some plan ∧ plan.cost? = some (cost plan.order) ∧
    IsLeastCheapest cost (orders.take k) plan.order
  unhurried : IsUnhurried t.history → k = p.size.factorial

theorem completes_pure {rank : ℕ} (hrank : rank < Arrangement.count p.size p.size) :
    Completes p pure (fun _ _ ↦ []) Eq (Arrangement.ofRank p.size p.size rank) :=
  fun s ↦ ⟨_, s, rfl, Arrangement.ofRank_perm_range hrank, rfl, .refl s⟩

theorem exists_best_of_tested {k : ℕ} {s : Session σ} (hfirst : s.HasFirstCheapest)
    (hcosted : ∀ x ∈ s.scorings, x.2.cost = cost x.1)
    (htested : s.tested = (Arrangement.inOrder p.size p.size).take k) (hk : 0 < k) :
    ∃ plan, s.best? = some plan ∧ plan.cost? = some (cost plan.order) ∧
      IsLeastCheapest cost ((Arrangement.inOrder p.size p.size).take k) plan.order := by
  have hsorted : ((Arrangement.inOrder p.size p.size).take k).Pairwise (· < ·) :=
    (Arrangement.pairwise_inOrder (Nat.le_refl _)).sublist (List.take_sublist _ _)
  have hne : s.tested ≠ [] := by
    have hpos : 0 < Arrangement.count p.size p.size := Arrangement.count_pos (Nat.le_refl _)
    rw [htested, ← List.length_pos_iff, List.length_take, Arrangement.length_inOrder]
    omega
  rw [← htested] at hsorted ⊢
  exact hfirst.best.exists_isLeastCheapest (mt (congrArg (List.map Prod.fst)) hne) hsorted hcosted

/-- **The exhaustive search tests the first orderings**, in lexicographic order, and its best plan is
the least of the cheapest of them. -/
theorem exists_searched (h : p.IsCostedBy cost) (world : σ) :
    ∃ k t, exhaustive p { world } = (.ok (), t) ∧
      Searched p cost (Arrangement.inOrder p.size p.size) k t := by
  obtain ⟨runs, outOfTime, u, hrun, iterated, hswept, -⟩ :=
    exists_sweep h.alwaysAnswers .exhaustive (fun _ hrank ↦ completes_pure hrank) isCompletion_pure
      le_rfl { world }
  obtain ⟨k, hlength⟩ : ∃ k, runs.length = k := ⟨_, rfl⟩
  rw [hlength] at hrun iterated hswept
  have hreach := (ran_exhaustive (p := p) { world }).reaches hrun
  rw [Arrangement.count_eq_descFactorial, Nat.descFactorial_self] at iterated
  have hle : k ≤ p.size.factorial := by simpa using iterated.le
  have hnatural : outOfTime = false → k = p.size.factorial := by simpa using iterated.natural
  have hpos : 0 < k := by
    cases outOfTime with
    | true => exact Nat.pos_of_ne_zero (iterated.ne_first rfl rfl)
    | false => exact hnatural rfl ▸ p.size.factorial_pos
  have htaken : (List.range k).map (Arrangement.ofRank p.size p.size) =
      (Arrangement.inOrder p.size p.size).take k := by
    refine (Arrangement.take_inOrder ?_).symm
    rwa [Arrangement.count_eq_descFactorial, Nat.descFactorial_self]
  -- the ordering tested is the head
  have hplans : runs.map Prod.snd = (Arrangement.inOrder p.size p.size).take k := by
    rw [← htaken, ← hswept.heads]
    exact List.map_congr_left fun run hmem ↦ (hswept.rule run hmem).symm
  have htested := hswept.adds.tested
  have hasked := hswept.adds.asked.trans List.map_eq_flatMap.symm
  rw [hplans] at htested hasked
  have hcosted := h.cost_of_reaches hreach
  have hfirst := hreach.preserves (P := Session.HasFirstCheapest) (.opened world)
    fun _ m _ hs ↦ hs.perform m
  refine ⟨k, _, hrun, ?_, hasked, htested, hcosted,
    exists_best_of_tested hfirst hcosted htested hpos, fun hunhurried ↦ ?_⟩
  · rcases Nat.lt_or_eq_of_le hle with hlt | heq
    · refine Or.inr ⟨hpos, hlt, iterated.dvd ?_⟩
      -- a search that ends of itself has tested all orderings
      rw [← Bool.not_eq_false]
      exact mt hnatural hlt.ne
    · exact Or.inl heq
  · cases outOfTime with
    | false => exact hnatural rfl
    | true =>
      -- the search wrote nothing but its end after the last look at the budget
      have hend : IsUnhurried u.history :=
        fun hmem ↦ hunhurried (by
          rw [Session.history_record, List.filterMap_append]
          exact List.mem_append_left _ hmem)
      exact absurd hend (iterated.not_isUnhurried rfl)

end Sweep

namespace Optimizer

open Sweep

variable [RandomSource ρ] {oracles : Oracles σ} {isSelect : Bool} {o : Optimizer} {world : σ}

theorem strategies_exhaustive {config : Config} {n : ℕ} (hn : n ≠ 1) (hmax : n ≤ config.maxSmallJoin)
    (hstrategy : config.smallJoinStrategy = .exhaustive) :
    strategies ρ config n = [.exhaustive] := by
  rw [strategies, if_neg hn, if_pos hmax, hstrategy]

theorem runAll_exhaustive {p : Problem σ} {s t : Session σ} (h : Sweep.exhaustive p s = (.ok (), t)) :
    runAll p [(Strategy.exhaustive : Strategy ρ)] s = ((.ok (), [.exhaustive]), t) := by
  have hsearch : (Strategy.exhaustive : Strategy ρ).search p s = ((.ok (), .exhaustive), t) := by
    change (((Sweep.exhaustive p s).1, _), (Sweep.exhaustive p s).2) = _
    rw [h]
  rw [runAll_cons, hsearch]
  rfl

theorem exists_plan_of_exhaustive {out : Outcome σ}
    (hout : optimizeWith ρ oracles false isSelect o world = out)
    (h : (o.reset.problem oracles isSelect).IsCostedBy cost) (hmin : 1 < o.operands.length)
    (hmax : o.operands.length ≤ o.config.maxSmallJoin)
    (hstrategy : o.config.smallJoinStrategy = .exhaustive) (hunhurried : IsUnhurried out.history) :
    ∃ top plan, out.result = .ok top ∧ out.optimizer.plan? = some plan ∧
      plan.cost? = some (cost plan.order) ∧
      IsLeastCheapest cost (Arrangement.inOrder o.operands.length o.operands.length) plan.order := by
  have hne : o.operands ≠ [] := List.ne_nil_of_length_pos (by omega)
  have hlength : o.reset.operands.length = o.operands.length := List.length_map _
  have hsize : (o.reset.problem oracles isSelect).size = o.operands.length := hlength
  obtain ⟨k, t, hrun, hsearched⟩ := exists_searched h world
  obtain ⟨plan, hbest, hcost, hleast⟩ := hsearched.best
  rw [hsize] at hleast
  have hperm : plan.order.Perm (List.range o.operands.length) :=
    Arrangement.mem_inOrder_self_iff.mp (List.mem_of_mem_take hleast.mem)
  obtain ⟨top, rest, horder⟩ := Arrangement.exists_cons_of_perm_range hperm (by omega)
  have hstrategies : strategies ρ o.reset.config o.reset.operands.length = [.exhaustive] :=
    strategies_exhaustive (by omega) (hlength ▸ hmax) hstrategy
  have hall := runAll_exhaustive (ρ := ρ) hrun
  rw [← hstrategies] at hall
  have hcommitted := searchAndCommit_of_best hall hbest rfl horder
  rw [optimizeWith_of_ne_nil hne, hcommitted] at hout
  subst hout
  refine ⟨top, _, rfl, rfl, hcost, ?_⟩
  have hk : k = o.operands.length.factorial := hsize ▸ hsearched.unhurried hunhurried
  rwa [List.take_of_length_le] at hleast
  rw [Arrangement.length_inOrder, Arrangement.count_eq_descFactorial, Nat.descFactorial_self, hk]

/-- **The exhaustive search finds the optimum.** Under a cost function it tests the first orderings, in
lexicographic order, each once and nothing else, and keeps the least of the cheapest of them; it falls
short of all orderings only at a check point of the budget. A run of the optimizer that is not out of
time commits the least of the cheapest of all orderings. -/
theorem exhaustive_isLeastCheapest {p : Problem σ} (h : p.IsCostedBy cost) (world : σ) :
    ∃ orders : List (List ℕ), orders.Pairwise (· < ·) ∧
      (∀ order, order ∈ orders ↔ order.Perm (List.range p.size)) ∧
      (∃ k t, Sweep.exhaustive p { world } = (.ok (), t) ∧ Searched p cost orders k t) ∧
      ∀ (o : Optimizer) (out : Outcome σ), o.reset.problem p.oracles p.isSelect = p →
        optimizeWith ρ p.oracles false p.isSelect o world = out →
        1 < p.size → p.size ≤ p.config.maxSmallJoin → p.config.smallJoinStrategy = .exhaustive →
        IsUnhurried out.history →
        ∃ top plan, out.result = .ok top ∧ out.optimizer.plan? = some plan ∧
          plan.cost? = some (cost plan.order) ∧ IsLeastCheapest cost orders plan.order := by
  refine ⟨Arrangement.inOrder p.size p.size, Arrangement.pairwise_inOrder (Nat.le_refl _),
    fun _ ↦ Arrangement.mem_inOrder_self_iff, exists_searched h world, ?_⟩
  intro o out ho hout hmin hmax hstrategy hunhurried
  have hsize : o.operands.length = p.size :=
    (List.length_map _).symm.trans (congrArg Problem.size ho)
  have hconfig : o.config = p.config := congrArg Problem.config ho
  rw [← hsize] at hmin hmax ⊢
  rw [← hconfig] at hmax hstrategy
  exact exists_plan_of_exhaustive hout (ho ▸ h) hmin hmax hstrategy hunhurried

/-- Orders that start with the second operand cost nothing, and the others cost something. -/
def cheapSecond (order : List ℕ) : Cost := if order.head? = some 1 then Cost.zero else ⟨1.0⟩

/-- Three operands under that cost function, and a clock that stands still. -/
def threeCosted : Optimizer where
  operands := [{ table := "a" }, { table := "b" }, { table := "c" }]
  condition? := none
  config := { smallJoinStrategy := .exhaustive }

/-- The oracles of that cost function. -/
def costing (cost : List ℕ → Cost) : Oracles Unit where
  costModel :=
    { estimate := fun view _ =>
        pure (.ok ⟨cost view.order, view.order.map fun _ => .fullScan⟩) }
  rowCounts := fun _ => pure 0
  clock := pure 0

theorem isCostedBy_costing {p : Problem Unit} (hp : p.oracles = costing cost)
    (hvalid : ∀ order, (cost order).isValid = true) : p.IsCostedBy cost where
  estimate order _ _ _ := by
    rw [hp]
    exact ⟨_, rfl, List.length_map _⟩
  valid order _ _ := hvalid order

theorem isValid_cheapSecond (order : List ℕ) : (cheapSecond order).isValid = true := by
  unfold cheapSecond
  split <;> rfl

/-- Of the two cheapest orderings the run commits the one that comes first. -/
theorem exhaustive_threeCosted :
    let p := threeCosted.reset.problem (costing cheapSecond) true
    let out := optimizeWith ChaCha (costing cheapSecond) false true threeCosted ()
    p.IsCostedBy cheapSecond ∧
      (∃ orders t, Sweep.exhaustive p { world := () } = (.ok (), t) ∧
        Searched p cheapSecond orders (3).factorial t) ∧
      ∃ plan, out.optimizer.plan? = some plan ∧ plan.order = [1, 0, 2] ∧
        ∀ order, order.Perm (List.range 3) → ¬cheapSecond order < cheapSecond plan.order := by
  intro p out
  have hcosted : p.IsCostedBy cheapSecond := isCostedBy_costing rfl isValid_cheapSecond
  obtain ⟨orders, -, hmem, ⟨k, t, hrun, hsearched⟩, hcommits⟩ :=
    exhaustive_isLeastCheapest (ρ := ChaCha) hcosted ()
  have hunhurried : IsUnhurried t.history := by
    have hsession : (Sweep.exhaustive p { world := () }).2 = t := by rw [hrun]
    rw [← hsession]
    decide +kernel
  obtain rfl : k = (3).factorial := hsearched.unhurried hunhurried
  obtain ⟨top, plan, -, hplan, -, hleast⟩ :=
    hcommits threeCosted out rfl rfl (by decide) (by decide) rfl (by decide +kernel)
  have horder : out.optimizer.plan?.map Plan.order = some [1, 0, 2] := by decide +kernel
  rw [hplan] at horder
  exact ⟨hcosted, ⟨orders, t, hrun, hsearched⟩, plan, hplan, Option.some.inj horder,
    fun order hperm ↦ hleast.cheapest order ((hmem order).mpr hperm)⟩

end Optimizer

end JoinOrder
