import JoinOrder.Proofs.Lexicographic
import JoinOrder.Proofs.Search.Retelling
/-!
# Heads that leave at most one operand open

A head of all operands is an ordering, and one of all operands but one is completed to an ordering
without an estimate, as one operand only is left for the last position. There are as many heads of the
one length as of the other, and they come in the same order: a head that lacks one operand is the
beginning of the ordering of the same rank. So brute force over such heads is the exhaustive search,
call by call, and only the name it puts to its events is its own.
-/

namespace JoinOrder.Sweep

open Arrangement

variable {σ : Type} {p : Problem σ} {n length rank : ℕ}

/-! ## Heads and orderings -/

theorem count_of_le_add_one (hlength : length ≤ n) (hopen : n ≤ length + 1) :
    count n length = count n n := by
  obtain rfl | rfl : n = length ∨ n = length + 1 := by omega
  · rfl
  · rw [count_succ, Nat.add_sub_cancel_left, Nat.mul_one]

theorem exists_ofRank_eq_append (length rank : ℕ) :
    ∃ last, ofRank (length + 1) (length + 1) rank = ofRank (length + 1) length rank ++ [last] := by
  have hne : ofRank (length + 1) (length + 1) rank ≠ [] :=
    List.ne_nil_of_length_eq_add_one (length_ofRank _ _ _)
  have hdrop := dropLast_ofRank (Nat.lt_succ_self length) rank
  rw [Nat.succ_sub (Nat.le_refl length), Nat.sub_self, Nat.div_one] at hdrop
  refine ⟨(ofRank (length + 1) (length + 1) rank).getLast hne, ?_⟩
  rw [← hdrop, List.dropLast_append_getLast]

theorem unused_eq_singleton {head : List ℕ} {last : ℕ} (h : (head ++ [last]).Perm (List.range n)) :
    ((List.range n).filter fun id ↦ !head.contains id) = [last] := by
  have hnodup : head.Nodup := (List.nodup_append.mp (nodup_of_perm_range h)).1
  have hunused := perm_append_unused hnodup fun _ hx ↦
    lt_of_perm_range h (List.mem_append_left [last] hx)
  exact List.perm_singleton.mp ((List.perm_append_left_iff head).mp (hunused.trans h.symm))

/-- A head with at most one position open is completed to the ordering of its rank, and nothing is
asked on the way. -/
theorem complete_ofRank (hlength : length ≤ p.size) (hopen : p.size ≤ length + 1)
    (hrank : rank < count p.size p.size) :
    complete p (ofRank p.size length rank) = pure (ofRank p.size p.size rank) := by
  rw [complete, length_ofRank]
  obtain hfull | hlast : p.size = length ∨ p.size = length + 1 := by omega
  · rw [hfull, Nat.sub_self, completeFrom]
  · have hperm := ofRank_perm_range hrank
    obtain ⟨last, hordering⟩ := exists_ofRank_eq_append length rank
    rw [← hlast] at hordering
    rw [hordering] at hperm ⊢
    rw [unused_eq_singleton hperm, Nat.sub_eq_of_eq_add' hlast, completeFrom]

/-! ## Brute force as exhaustive search -/

theorem retells_bruteForce (length? : Option ℕ)
    (hopen : p.size ≤ length?.getD (headLength p.size p.config.maxEstimates) + 1) :
    Retells .bruteForceGreedy (exhaustive p) (bruteForce p length?) := by
  have hlength : bruteForceLength p length? ≤ p.size := Nat.min_le_right _ _
  have hopen' : p.size ≤ bruteForceLength p length? + 1 := by
    unfold bruteForceLength
    omega
  refine retells_sweep .exhaustive le_rfl hlength (count_of_le_add_one hlength hopen')
    fun rank hrank ↦ ?_
  rw [← bruteForceLength, complete_ofRank hlength hopen' hrank]
  exact .pure _

/-- **Brute force over heads with at most one position open is the exhaustive search.** From any
session it makes the same calls of the cost model, looks at the budget before the same iterations, and
comes to the same result, the same best plan and the same number of estimates. What it adds to the
journal is what the exhaustive search adds, under its own name. -/
theorem bruteForce_retells_exhaustive (length? : Option ℕ)
    (hopen : p.size ≤ length?.getD (headLength p.size p.config.maxEstimates) + 1) (s : Session σ) :
    let out := exhaustive p s
    let out' := bruteForce p length? s
    out'.1 = out.1 ∧ out'.2.best? = out.2.best? ∧ out'.2.world = out.2.world ∧
      out'.2.calls = out.2.calls ∧ out'.2.polls = out.2.polls ∧
      out'.2.evaluations = out.2.evaluations ∧
      ∃ added, out.2.history = s.history ++ added ∧
        out'.2.history = s.history ++ added.map (Entry.retold .bruteForceGreedy) := by
  intro out out'
  obtain ⟨result, t, t', hout, hout', h⟩ := retells_bruteForce length? hopen (.refl s)
  rw [show out = (result, t) from hout, show out' = (result, t') from hout']
  exact ⟨rfl, h.best, h.world, h.calls, h.polls, h.evaluations, h.exists_history⟩

/-- Three operands, and a cost model that counts its calls: each one makes its answer cheaper, and the
fourth one fails. -/
def faltering : Problem ℕ where
  operands := [{ table := "a" }, { table := "b" }, { table := "c" }]
  condition? := none
  config := { checkInterval := 1 }
  isSelect := true
  oracles :=
    { costModel :=
        { estimate := fun view _ calls =>
            (if calls = 3 then .error (.modelFailure "down")
              else .ok ⟨⟨9.0 - Float.ofNat calls⟩, view.order.map fun _ => .fullScan⟩, calls + 1) }
      rowCounts := fun _ => pure 0
      clock := pure 1 }

/-- Brute force over heads of two operands fails with the exhaustive search, at the fourth ordering. -/
theorem bruteForce_faltering :
    let out := bruteForce faltering (some 2) { world := 0 }
    faltering.size ≤ 2 + 1 ∧ out.1 = .error (.modelFailure "down") ∧ out.2.polls = [0, 1, 2, 3] ∧
      out.2.calls.map Prod.fst = [[0, 1, 2], [0, 2, 1], [1, 0, 2], [1, 2, 0]] ∧
      out.2.best?.map Plan.order = some [1, 0, 2] := by
  intro out
  have hopen : faltering.size ≤ 2 + 1 := Nat.le_refl 3
  obtain ⟨hresult, hbest, -, hcalls, hpolls, -⟩ :=
    bruteForce_retells_exhaustive (some 2) hopen { world := 0 }
  rw [hresult, hbest, hcalls, hpolls]
  exact ⟨hopen, rfl, rfl, rfl, rfl⟩

end JoinOrder.Sweep
