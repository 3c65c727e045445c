import JoinOrder.Proofs.BruteForce.Completion
import JoinOrder.Proofs.Exhaustive
/-!
# Greedy completion

Under a cost function a completion is greedy: at each position it takes the operand that makes the
cheapest beginning of an ordering, and of several such operands the least one. The choice keeps a running
minimum over the candidates in ascending order and replaces it by strictly cheaper ones only, so it ends
with the first of the cheapest, as a session does with its best plan.

The rule leaves no choice open, so a head has one greedy completion.
-/

namespace JoinOrder

variable {σ : Type} {cost : List ℕ → Cost}

/-! ## The rule of choice -/

/-- An operand that an order lacks and that makes it as cheap as any other one. -/
structure IsCheapestNext (cost : List ℕ → Cost) (n : ℕ) (order : List ℕ) (id : ℕ) : Prop where
  lt : id < n
  unused : id ∉ order
  cheapest : ∀ other < n, other ∉ order → ¬cost (order ++ [other]) < cost (order ++ [id])

/-- The least of the operands that make an order cheapest. -/
def IsGreedyChoice (cost : List ℕ → Cost) (n : ℕ) (order : List ℕ) (id : ℕ) : Prop :=
  IsLeast {next | IsCheapestNext cost n order next} id

namespace Sweep

open Arrangement Checked Problem

variable {p : Problem σ} {n : ℕ} {order head plan : List ℕ}

/-- An ordering is a greedy completion of a head. -/
abbrev IsGreedyCompletion (cost : List ℕ → Cost) (n : ℕ) (head plan : List ℕ) : Prop :=
  IsExtension (IsGreedyChoice cost n) n head plan

/-! ## The choice as a first minimum -/

/-- A candidate as an order that was scored. -/
def candidate (cost : List ℕ → Cost) (order : List ℕ) (id : ℕ) : Scoring :=
  (order ++ [id], ⟨cost (order ++ [id]), []⟩)

/-- The running minimum of a choice as the best of the orders scored. -/
def leading (order : List ℕ) (best : ℕ × Cost) : Plan := Plan.scored (order ++ [best.1]) ⟨best.2, []⟩

theorem isFirstCheapest_cheapestFrom (h : p.IsCostedBy cost) {seen ids : List ℕ}
    {best? result? : Option (ℕ × Cost)} {s t : Session σ}
    (hids : ∀ id ∈ seen ++ ids, (order ++ [id]).Nodup ∧ ∀ x ∈ order ++ [id], x < p.size)
    (hbest : IsFirstCheapest (seen.map (candidate cost order)) (best?.map (leading order)))
    (hrun : cheapestFrom p order best? ids s = (.ok result?, t)) :
    IsFirstCheapest ((seen ++ ids).map (candidate cost order)) (result?.map (leading order)) := by
  induction ids generalizing seen best? s with
  | nil =>
    obtain rfl : best? = result? := Except.ok.inj (congrArg Prod.fst hrun)
    rwa [List.append_nil]
  | cons id ids ih =>
    obtain ⟨hnodup, hlt⟩ := hids id (by simp)
    obtain ⟨e, hest⟩ := h.alwaysAnswers.exists_estimate hnodup hlt s
    have hcost := h.cost_of_estimate hnodup hlt hest
    rw [cheapestFrom, SearchM.bind_apply, ← Prod.mk.eta (p := p.estimate (order ++ [id]) s), hest]
      at hrun
    rw [List.append_cons] at hids ⊢
    refine ih hids ?_ hrun
    have hvalid : ∀ x ∈ seen.map (candidate cost order), x.2.cost.isValid = true := by
      intro x hx
      obtain ⟨id', hid', rfl⟩ := List.mem_map.mp hx
      obtain ⟨hnodup', hlt'⟩ := hids id' (by simp [hid'])
      exact h.valid _ hnodup' hlt'
    have hnext : IsFirstCheapest (seen.map (candidate cost order) ++ [candidate cost order id]) _ :=
      hbest.append (h.valid _ hnodup hlt) hvalid
    rw [List.map_append, List.map_singleton, hcost, apply_ite (Option.map (leading order))]
    cases best? with
    | none => exact hnext
    | some best => exact hnext

theorem append_singleton_lt {id other : ℕ} (order : List ℕ) (h : id < other) :
    order ++ [id] < order ++ [other] :=
  List.append_left_lt (List.cons_lt_cons_iff.mpr (Or.inl h))

theorem isGreedyChoice_of_isLeastCheapest {id : ℕ}
    (h : IsLeastCheapest cost ((lacking n order).map (order ++ [·])) (order ++ [id])) :
    IsGreedyChoice cost n order id := by
  have hmem {other : ℕ} (hlt : other < n) (hunused : other ∉ order) :
      order ++ [other] ∈ (lacking n order).map (order ++ [·]) :=
    List.mem_map_of_mem (mem_lacking_iff.mpr ⟨hlt, hunused⟩)
  obtain ⟨id', hid, heq⟩ := List.mem_map.mp h.mem
  obtain rfl : id' = id := List.singleton_inj.mp (List.append_cancel_left heq)
  obtain ⟨hlt, hunused⟩ := mem_lacking_iff.mp hid
  refine ⟨⟨hlt, hunused, fun other hother hother' ↦ h.cheapest _ (hmem hother hother')⟩, ?_⟩
  intro other hother
  by_contra hless
  -- a lesser candidate comes before it, and is more expensive
  have hbefore := append_singleton_lt order (Nat.lt_of_not_le hless)
  exact hother.cheapest id' hlt hunused (h.least _ (hmem hother.lt hother.unused) hbefore)

/-- **The choice is greedy.** -/
theorem isGreedyChoice_of_cheapestFrom (h : p.IsCostedBy cost) {id : ℕ} {c : Cost} {s t : Session σ}
    (hperm : (order ++ lacking p.size order).Perm (List.range p.size))
    (hrun : cheapestFrom p order none (lacking p.size order) s = (.ok (some (id, c)), t)) :
    IsGreedyChoice cost p.size order id := by
  have hstart : IsFirstCheapest (([] : List ℕ).map (candidate cost order))
      ((none : Option (ℕ × Cost)).map (leading order)) := .none rfl
  have hfirst := isFirstCheapest_cheapestFrom h
    (fun id hid ↦ nodup_append_of_mem hperm hid) hstart hrun
  have horders : ((lacking p.size order).map (candidate cost order)).map Prod.fst =
      (lacking p.size order).map (order ++ [·]) := List.map_map
  have hsorted : ((lacking p.size order).map (order ++ [·])).Pairwise (· < ·) := by
    rw [List.pairwise_map]
    exact (pairwise_lacking p.size order).imp (append_singleton_lt order)
  have hne : (lacking p.size order).map (candidate cost order) ≠ [] := by
    intro hnil
    rw [List.map_eq_nil_iff.mp hnil] at hrun
    have hnone : (none : Option (ℕ × Cost)) = some (id, c) :=
      Except.ok.inj (congrArg Prod.fst hrun)
    contradiction
  have hcost : ∀ x ∈ (lacking p.size order).map (candidate cost order), x.2.cost = cost x.1 := by
    intro x hx
    obtain ⟨other, -, rfl⟩ := List.mem_map.mp hx
    rfl
  rw [List.nil_append] at hfirst
  obtain ⟨plan, hplan, -, hleast⟩ := hfirst.exists_isLeastCheapest hne (horders ▸ hsorted) hcost
  rw [horders, ← Option.some.inj hplan] at hleast
  exact isGreedyChoice_of_isLeastCheapest hleast

theorem chooses_isGreedyChoice (h : p.IsCostedBy cost) :
    Chooses p (IsGreedyChoice cost p.size) :=
  chooses_of_answers h.alwaysAnswers fun hperm hrun ↦ isGreedyChoice_of_cheapestFrom h hperm hrun

/-! ## Brute force is greedy -/

/-- **Brute force completes each head greedily.** Under a cost function, from any session, it comes to
its end; and if it never finds the budget spent, it has gone through all heads of its length in
lexicographic order, asked for each open position but the last one about the operands that are lacking,
in ascending order, and tested the one greedy completion of each head. -/
theorem bruteForce_completes_greedily (h : p.IsCostedBy cost) (length? : Option ℕ) (s : Session σ) :
    ∃ (runs : List (List ℕ × List ℕ)) (t : Session σ), bruteForce p length? s = (.ok (), t) ∧
      (∀ run ∈ runs, IsGreedyCompletion cost p.size run.1 run.2) ∧
      s.Adds t (runs.flatMap fun run ↦ asks p.size run.1 run.2 ++ [run.2]) (runs.map Prod.snd) ∧
      (runs.map Prod.fst).Pairwise (· < ·) ∧
      (s.IsUnhurriedSince t → ∀ head, head ∈ runs.map Prod.fst ↔
        head.Nodup ∧ (∀ id ∈ head, id < p.size) ∧ head.length = bruteForceLength p length?) := by
  obtain ⟨runs, t, hrun, hforced⟩ :=
    exists_bruteForced h.alwaysAnswers (chooses_isGreedyChoice h) length? s
  have hlength : bruteForceLength p length? ≤ p.size := Nat.min_le_right _ _
  refine ⟨runs, t, hrun, hforced.swept.rule, hforced.swept.adds, ?_, fun hunhurried head ↦ ?_⟩
  · rw [hforced.swept.heads]
    exact (pairwise_inOrder hlength).sublist (List.take_sublist _ _)
  · rw [hforced.swept.heads, List.take_of_length_le, mem_inOrder_iff hlength]
    rw [length_inOrder, hforced.unhurried hunhurried]

/-- An order that ends with the first operand costs more than any other one. -/
def costlyFirst (order : List ℕ) : Cost := if order.getLast? = some 0 then ⟨2.0⟩ else ⟨1.0⟩

theorem isValid_costlyFirst (order : List ℕ) : (costlyFirst order).isValid = true := by
  unfold costlyFirst
  split <;> rfl

/-- Four operands under that cost function, and a clock that stands still. -/
def fourCosted : Problem Unit where
  operands := [{ table := "a" }, { table := "b" }, { table := "c" }, { table := "d" }]
  condition? := none
  config := {}
  isSelect := true
  oracles := Optimizer.costing costlyFirst

theorem isCostedBy_fourCosted : fourCosted.IsCostedBy costlyFirst :=
  Optimizer.isCostedBy_costing rfl isValid_costlyFirst

/-- The first operand is put off to the end, and of the others the least one comes next. -/
theorem bruteForce_fourCosted :
    fourCosted.IsCostedBy costlyFirst ∧
      ∃ (runs : List (List ℕ × List ℕ)) (t : Session Unit),
        bruteForce fourCosted (some 1) { world := () } = (.ok (), t) ∧
        (∀ run ∈ runs, IsGreedyCompletion costlyFirst 4 run.1 run.2) ∧
        (∀ id < 4, [id] ∈ runs.map Prod.fst) ∧
        runs.map Prod.snd = [[0, 1, 2, 3], [1, 2, 3, 0], [2, 1, 3, 0], [3, 1, 2, 0]] := by
  obtain ⟨runs, t, hrun, hgreedy, hadds, -, hheads⟩ :=
    bruteForce_completes_greedily isCostedBy_fourCosted (some 1) { world := () }
  obtain rfl : (bruteForce fourCosted (some 1) { world := () }).2 = t := congrArg Prod.snd hrun
  have htested : (bruteForce fourCosted (some 1) { world := () }).2.tested =
      [[0, 1, 2, 3], [1, 2, 3, 0], [2, 1, 3, 0], [3, 1, 2, 0]] := by decide +kernel
  refine ⟨isCostedBy_fourCosted, runs, _, hrun, hgreedy, fun id hid ↦ ?_,
    hadds.tested.symm.trans htested⟩
  rw [hheads (by decide +kernel)]
  refine ⟨List.nodup_singleton id, fun x hx ↦ ?_, rfl⟩
  rw [List.mem_singleton.mp hx]
  exact hid

end Sweep

end JoinOrder
