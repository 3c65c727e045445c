import JoinOrder.Proofs.CostOrder
import JoinOrder.Proofs.Search.Scorings
import JoinOrder.Proofs.Search.Strategy
/-!
# The best plan of a session

A session may be used by several strategies, each in the middle of the others' work, and some of them
fail. Whatever happens to it, its best plan is the *first of the cheapest* orderings scored so far, with
the estimate of that very scoring, and there is none only as long as nothing was scored.

## Why the first one

A test replaces the best plan only by a strictly cheaper one. On accepted costs being cheaper is a
strict weak order, so what is cheaper than the best plan is cheaper than everything scored before it:
this is the one place where the search relies on how costs compare.

## At every moment

A strategy acts on its session through moves alone, so it is enough to look at a session between two
moves. Estimates of the beginning of an order, and whatever a strategy keeps for itself, are not tests
and leave no trace in the best plan.
-/

namespace JoinOrder

variable {σ ρ : Type}

/-! ## The first of the cheapest -/

/-- A plan is the first of the cheapest of a list of scorings: those before it are more expensive, and
none of them is cheaper. Only an empty list has no such plan. -/
inductive IsFirstCheapest (scorings : List Scoring) : Option Plan → Prop
  | none (nil : scorings = []) : IsFirstCheapest scorings none
  | some {order : List ℕ} {e : Estimate} {before after : List Scoring}
      (split : scorings = before ++ (order, e) :: after)
      (first : ∀ x ∈ before, e.cost < x.2.cost)
      (cheapest : ∀ x ∈ scorings, ¬x.2.cost < e.cost) :
      IsFirstCheapest scorings (some (Plan.scored order e))

namespace IsFirstCheapest

variable {scorings : List Scoring} {order : List ℕ} {e : Estimate}

theorem append_of_lt (hvalid : e.cost.isValid = true)
    (hscorings : ∀ x ∈ scorings, x.2.cost.isValid = true)
    (hlt : ∀ x ∈ scorings, e.cost < x.2.cost) :
    IsFirstCheapest (scorings ++ [(order, e)]) (.some (Plan.scored order e)) := by
  have hsplit : scorings ++ [(order, e)] = scorings ++ (order, e) :: [] := rfl
  refine .some hsplit hlt fun x hx ↦ ?_
  rcases List.mem_append.mp hx with hx | hx
  · exact Cost.not_lt_of_lt hvalid (hscorings x hx) (hlt x hx)
  · rw [List.mem_singleton.mp hx]
    exact Cost.not_lt_self hvalid

theorem lt_of_lt {plan : Plan} {cost : Cost} (h : IsFirstCheapest scorings (.some plan))
    (hcost : plan.cost? = .some cost) (hvalid : e.cost.isValid = true)
    (hscorings : ∀ x ∈ scorings, x.2.cost.isValid = true) (hlt : e.cost < cost) :
    ∀ x ∈ scorings, e.cost < x.2.cost := by
  cases h with
  | @some order' e' before after split first cheapest =>
    obtain rfl : e'.cost = cost := Option.some.inj hcost
    have hbest : e'.cost.isValid = true := hscorings (order', e') (by simp [split])
    intro x hx
    -- nothing scored is below the best plan, which is above the new cost
    exact Cost.lt_of_lt_of_not_lt hvalid hbest (hscorings x hx) hlt (cheapest x hx)

theorem append_of_not_forall_lt {best? : Option Plan} (h : IsFirstCheapest scorings best?)
    (hvalid : e.cost.isValid = true) (hscorings : ∀ x ∈ scorings, x.2.cost.isValid = true)
    (hnot : ¬∀ x ∈ scorings, e.cost < x.2.cost) :
    IsFirstCheapest (scorings ++ [(order, e)]) best? := by
  cases h with
  | none nil => exact absurd (by simp [nil]) hnot
  | @some order' e' before after split first cheapest =>
    have hsplit : scorings ++ [(order, e)] = before ++ (order', e') :: (after ++ [(order, e)]) := by
      simp [split]
    have hle : ¬e.cost < e'.cost :=
      mt ((IsFirstCheapest.some split first cheapest).lt_of_lt rfl hvalid hscorings) hnot
    refine .some hsplit first fun x hx ↦ ?_
    rcases List.mem_append.mp hx with hx | hx
    · exact cheapest x hx
    · rw [List.mem_singleton.mp hx]
      exact hle

theorem cheaper_iff {best? : Option Plan} (h : IsFirstCheapest scorings best?)
    (hvalid : e.cost.isValid = true) (hscorings : ∀ x ∈ scorings, x.2.cost.isValid = true) :
    (best?.bind Plan.cost?).all (fun best ↦ decide (e.cost < best)) = true ↔
      ∀ x ∈ scorings, e.cost < x.2.cost := by
  cases best? with
  | none =>
    obtain ⟨hnil⟩ := h
    simp [hnil]
  | some plan =>
    obtain ⟨order', e', rfl, hmem⟩ :
        ∃ order e', plan = Plan.scored order e' ∧ (order, e') ∈ scorings := by
      cases h with
      | @some order' e' before after split => exact ⟨order', e', rfl, by simp [split]⟩
    have hcost : (Plan.scored order' e').cost? = .some e'.cost := rfl
    rw [Option.bind_some, hcost, Option.all_some, decide_eq_true_iff]
    constructor
    · intro hlt
      exact h.lt_of_lt hcost hvalid hscorings hlt
    · intro hall
      exact hall (order', e') hmem

theorem append {best? : Option Plan} (h : IsFirstCheapest scorings best?)
    (hvalid : e.cost.isValid = true) (hscorings : ∀ x ∈ scorings, x.2.cost.isValid = true) :
    IsFirstCheapest (scorings ++ [(order, e)])
      (if (best?.bind Plan.cost?).all (fun best ↦ decide (e.cost < best)) = true
        then .some (Plan.scored order e) else best?) := by
  by_cases hcheaper : ∀ x ∈ scorings, e.cost < x.2.cost
  · rw [if_pos ((h.cheaper_iff hvalid hscorings).mpr hcheaper)]
    exact append_of_lt hvalid hscorings hcheaper
  · rw [if_neg (mt (h.cheaper_iff hvalid hscorings).mp hcheaper)]
    exact h.append_of_not_forall_lt hvalid hscorings hcheaper

end IsFirstCheapest

/-! ## The best plan at every moment -/

namespace Session

open Problem

theorem isImprovedBy_eq (s : Session σ) (cost : Cost) :
    s.isImprovedBy cost = (s.best?.bind Plan.cost?).all fun best ↦ decide (cost < best) := by
  rw [isImprovedBy, bestCost?]
  cases s.best?.bind Plan.cost? <;> rfl

/-- The best plan is the first of the cheapest, and all costs scored can be compared. -/
structure HasFirstCheapest (s : Session σ) : Prop where
  best : IsFirstCheapest s.scorings s.best?
  valid : ∀ x ∈ s.scorings, x.2.cost.isValid = true

namespace HasFirstCheapest

variable {p : Problem σ} {s : Session σ}

theorem opened (world : σ) : HasFirstCheapest ({ world } : Session σ) :=
  ⟨.none rfl, fun _ hx ↦ absurd hx List.not_mem_nil⟩

theorem isImprovedBy_iff (h : HasFirstCheapest s) {e : Estimate} (hvalid : e.cost.isValid = true) :
    s.isImprovedBy e.cost = true ↔ ∀ x ∈ s.scorings, e.cost < x.2.cost := by
  rw [isImprovedBy_eq]
  exact h.best.cheaper_iff hvalid h.valid

theorem perform_of_scoring?_eq_none (h : HasFirstCheapest s) {m : Move}
    (hm : p.scoring? s m = none) : HasFirstCheapest (p.perform s m) := by
  have hscorings : (p.perform s m).scorings = s.scorings := by
    rw [scorings_perform, hm, Option.toList_none, List.append_nil]
  constructor
  · rw [hscorings, best_perform_of_scoring?_eq_none m hm]
    exact h.best
  · rw [hscorings]
    exact h.valid

theorem perform_test (h : HasFirstCheapest s) {id : StrategyId} {order : List ℕ} {e : Estimate}
    (hest : (p.estimate order s).1 = .ok e) : HasFirstCheapest (p.perform s (.test id order)) := by
  have hvalid : e.cost.isValid = true := isValid_of_estimate hest
  have hscorings : (p.perform s (.test id order)).scorings = s.scorings ++ [(order, e)] := by
    rw [scorings_perform, scoring?_test_eq_some hest, Option.toList_some]
  constructor
  · rw [hscorings, best_perform_test _ hest, isImprovedBy_eq]
    exact h.best.append hvalid h.valid
  · rw [hscorings]
    intro x hx
    rcases List.mem_append.mp hx with hx | hx
    · exact h.valid x hx
    · rw [List.mem_singleton.mp hx]
      exact hvalid

/-- **One move keeps the best plan the first of the cheapest.** -/
theorem perform (h : HasFirstCheapest s) (m : Move) : HasFirstCheapest (p.perform s m) := by
  cases m with
  | test id order =>
    cases hest : (p.estimate order s).1 with
    | error e => exact h.perform_of_scoring?_eq_none (scoring?_test_eq_none hest)
    | ok e => exact h.perform_test hest
  | poll | estimate | lookUp | stop => exact h.perform_of_scoring?_eq_none rfl

theorem performAll (h : HasFirstCheapest s) (moves : List Move) :
    HasFirstCheapest (p.performAll s moves) :=
  performAll_preserves h (fun _ m (_ : True) ht ↦ ht.perform m) fun _ _ ↦ trivial

end HasFirstCheapest

end Session

/-! ## Sessions in use -/

/-- What a session may be used for. -/
inductive Operation (ρ : Type) where
  /-- A look at the budget. -/
  | poll (iteration : ℕ)
  /-- An estimate of any order. -/
  | estimate (order : List ℕ)
  /-- A test of any order. -/
  | test (id : StrategyId) (order : List ℕ)
  /-- A whole search, which may fail midway. -/
  | search (strategy : Strategy ρ)

namespace Problem

variable (p : Problem σ) [RandomSource ρ]

/-- The session after an operation. -/
def operate (s : Session σ) : Operation ρ → Session σ
  | .poll iteration => (p.canStop iteration s).2
  | .estimate order => (p.estimate order s).2
  | .test id order => (p.test id order s).2
  | .search strategy => (strategy.search p s).2

/-- The session after a list of operations. -/
def operateAll (s : Session σ) (ops : List (Operation ρ)) : Session σ := ops.foldl p.operate s

variable {p}

theorem reaches_operate (s : Session σ) (op : Operation ρ) :
    p.Reaches (fun _ ↦ True) s (p.operate s op) := by
  cases op with
  | poll iteration => exact .single (m := .poll iteration) trivial
  | estimate order => exact .single (m := .estimate order) trivial
  | test id order => exact .single (m := .test id order) trivial
  | search strategy => exact (strategy.ends_search s).reaches.mono fun _ _ ↦ trivial

theorem reaches_operateAll (s : Session σ) (ops : List (Operation ρ)) :
    p.Reaches (fun _ ↦ True) s (p.operateAll s ops) := by
  induction ops generalizing s with
  | nil => exact .refl
  | cons op ops ih => exact (reaches_operate s op).trans (ih (p.operate s op))

/-- **The best plan is the first of the cheapest**: a session in use goes through moves only, at every
moment between two of them its best plan is the first of the cheapest orderings scored so far, and what
is not a test that succeeds changes neither. -/
theorem hasFirstCheapest_operateAll (p : Problem σ) (world : σ) (ops : List (Operation ρ)) :
    (∃ moves, p.operateAll { world } ops = p.performAll { world } moves ∧
      ∀ k, (p.performAll { world } (moves.take k)).HasFirstCheapest) ∧
    ∀ s m, (p.perform s m).scorings = s.scorings ++ (p.scoring? s m).toList ∧
      (p.scoring? s m = none → (p.perform s m).best? = s.best?) := by
  constructor
  · obtain ⟨moves, -, hmoves⟩ := p.reaches_operateAll { world } ops
    refine ⟨moves, hmoves.symm, fun k ↦ ?_⟩
    exact (Session.HasFirstCheapest.opened world).performAll (moves.take k)
  · intro s m
    exact ⟨p.scorings_perform s m, best_perform_of_scoring?_eq_none m⟩

end Problem

end JoinOrder
