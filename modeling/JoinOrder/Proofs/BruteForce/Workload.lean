import JoinOrder.Proofs.BruteForce.Completion
import JoinOrder.Proofs.BruteForce.HeadLength
/-!
# The workload of brute force

A completion asks once for each operand that is left at each position but the last one, and the ordering
it ends with is asked about once more. That comes to as many estimates as there are pairs of operands
among those left and one more. So what a head has to stay below the limit for to grow is the workload of
the heads of one operand more, and the heads of the length that they grow to keep below the limit.
-/

namespace JoinOrder.Sweep

open Arrangement Checked

variable {σ : Type} {p : Problem σ} {n k limit : ℕ} {head plan : List ℕ}

/-! ## Workloads -/

/-- The number of estimates that brute force over heads of a length asks for. -/
def workload (n length : ℕ) : ℕ :=
  n.descFactorial length * max 1 ((n - length) * (n - length + 1) / 2)

/-- The estimates for one head are the pairs of the operands left and of the one that comes before
them. -/
theorem max_pairs (hk : k < n) :
    max 1 ((n - k) * (n - k + 1) / 2) = (n - k + 1).choose 2 := by
  have hpairs : 0 < (n - k + 1).choose 2 := Nat.choose_pos (by omega)
  rw [Nat.choose_two_right, Nat.add_sub_cancel] at hpairs ⊢
  rw [Nat.mul_comm (n - k)]
  exact Nat.max_eq_right hpairs

/-- **A head grows if the workload of heads of one operand more is below the limit.** -/
theorem growth_eq_workload (hk : k + 1 < n) : growth n k = workload n (k + 1) := by
  have hleft : n - (k + 1) + 1 = n - k := by omega
  rw [workload, max_pairs hk, hleft, growth, count_eq_descFactorial]

theorem workload_self (n : ℕ) : workload (n + 1) (n + 1) = workload (n + 1) n := by
  have hleft : n + 1 - n = 1 := by omega
  rw [workload, workload, Nat.descFactorial_succ, hleft, Nat.sub_self, Nat.one_mul, Nat.zero_mul,
    Nat.zero_div, Nat.one_mul, Nat.div_self Nat.two_pos, Nat.max_self, Nat.max_eq_left Nat.one_pos.le]

theorem workload_lt_of_stopsAt (h : StopsAt n limit 0 k) (hn : 2 ≤ n) (hk : 0 < k) :
    workload n k < limit := by
  obtain ⟨k, rfl⟩ : ∃ j, k = j + 1 := ⟨k - 1, by omega⟩
  rcases Nat.lt_or_eq_of_le h.le_size with hopen | rfl
  · rw [← growth_eq_workload hopen]
    exact h.grows k k.zero_le k.lt_succ_self
  · -- a complete head has grown twice, and the second time made no difference
    obtain ⟨k, rfl⟩ : ∃ j, k = j + 1 := ⟨k - 1, by omega⟩
    rw [workload_self, ← growth_eq_workload (k + 1).lt_succ_self]
    exact h.grows k k.zero_le (by omega)

/-! ## Counting estimates -/

theorem exists_next (hbegins : head <+: plan)
    (hlt : head.length < plan.length) : ∃ id, head ++ [id] <+: plan := by
  obtain ⟨rest, rfl⟩ := hbegins
  rw [List.length_append] at hlt
  obtain ⟨id, rest, rfl⟩ := List.exists_cons_of_length_pos (l := rest) (by omega)
  exact ⟨id, rest, (List.append_cons head id rest).symm⟩

theorem length_asks (hplan : plan.Perm (List.range n)) (hbegins : head <+: plan)
    (hopen : head.length < n) :
    (asks n head plan).length + 1 = (n - head.length + 1).choose 2 := by
  obtain ⟨left, hleft⟩ : ∃ left, n = head.length + left + 1 := ⟨n - head.length - 1, by omega⟩
  induction left generalizing head with
  | zero =>
    have hone : n - head.length = 1 := by omega
    rw [asks_of_le_add_one (by omega), hone]
    rfl
  | succ left ih =>
    obtain ⟨id, hnext⟩ := exists_next hbegins (by
      rw [length_of_perm_range hplan]
      exact hopen)
    have hlacking := length_lacking (perm_append_lacking hplan hbegins)
    have hstep : n - (head ++ [id]).length + 1 = n - head.length := by
      rw [List.length_append, List.length_singleton]
      omega
    have hrest := ih hnext (by omega) (by omega)
    rw [hstep] at hrest
    calc (asks n head plan).length + 1
        = (lacking n head).length + ((asks n (head ++ [id]) plan).length + 1) := by
          rw [asks_eq_append hnext (by omega), List.length_append, List.length_map, Nat.add_assoc]
      _ = (n - head.length) + (n - head.length).choose 2 := by rw [hlacking, hrest]
      _ = (n - head.length + 1).choose 2 := by
          rw [Nat.choose_succ_succ', Nat.choose_one_right]

theorem length_asks_add_one (hplan : plan.Perm (List.range n)) (hbegins : head <+: plan) :
    (asks n head plan).length + 1 = max 1 ((n - head.length) * (n - head.length + 1) / 2) := by
  rcases Nat.lt_or_ge head.length n with hopen | hfull
  · rw [length_asks hplan hbegins hopen, max_pairs hopen]
  · rw [asks_of_le_add_one (by omega), Nat.sub_eq_zero_of_le hfull, Nat.zero_mul]
    rfl

theorem BruteForced.length_asked {choice : List ℕ → ℕ → Prop} {length : ℕ} {s t : Session σ}
    {runs : List (List ℕ × List ℕ)} (h : BruteForced choice p length s runs t)
    (hlength : length ≤ p.size) :
    (runs.flatMap fun run ↦ asks p.size run.1 run.2 ++ [run.2]).length =
      runs.length * max 1 ((p.size - length) * (p.size - length + 1) / 2) := by
  have hrun (run) (hmem : run ∈ runs) : (asks p.size run.1 run.2 ++ [run.2]).length =
      max 1 ((p.size - length) * (p.size - length + 1) / 2) := by
    have hextension := h.swept.rule run hmem
    rw [List.length_append, List.length_singleton,
      length_asks_add_one hextension.perm hextension.begins, h.length_head hlength hmem]
  rw [List.length_flatMap, List.map_congr_left hrun, List.map_const', List.sum_replicate, smul_eq_mul]

/-! ## The workload of a run -/

theorem exists_asked (h : p.AlwaysAnswers) (length? : Option ℕ) (s : Session σ) :
    ∃ (asked : List (List ℕ)) (t : Session σ), bruteForce p length? s = (.ok (), t) ∧
      t.asked = s.asked ++ asked ∧ asked.length ≤ workload p.size (bruteForceLength p length?) ∧
      (s.IsUnhurriedSince t → asked.length = workload p.size (bruteForceLength p length?)) := by
  have hchoice : Chooses p fun _ _ ↦ True := chooses_of_answers h fun _ _ ↦ trivial
  obtain ⟨runs, t, hrun, hforced⟩ := exists_bruteForced h hchoice length? s
  have hasked := hforced.length_asked (Nat.min_le_right _ _)
  refine ⟨_, t, hrun, hforced.swept.adds.asked, ?_, fun hunhurried ↦ ?_⟩
  · rw [hasked, workload, ← count_eq_descFactorial]
    exact Nat.mul_le_mul_right _ hforced.length_le
  · rw [hasked, workload, ← count_eq_descFactorial, hforced.unhurried hunhurried]

/-- **Brute force keeps below the limit that its heads are made for.** If the cost model always answers,
brute force asks for as many estimates as its workload is, and for no more if it is out of time. With
heads that have grown under a limit of 64 bits it asks for fewer estimates than that limit. -/
theorem bruteForce_asks_workload (h : p.AlwaysAnswers) (s : Session σ) :
    (∀ length ≤ p.size, ∃ (asked : List (List ℕ)) (t : Session σ),
      bruteForce p (some length) s = (.ok (), t) ∧ t.asked = s.asked ++ asked ∧
      asked.length ≤ workload p.size length ∧
      (s.IsUnhurriedSince t → asked.length = workload p.size length)) ∧
    (2 ≤ p.size → p.config.maxEstimates < 2 ^ 64 →
      0 < headLength p.size p.config.maxEstimates →
      ∃ (asked : List (List ℕ)) (t : Session σ), bruteForce p none s = (.ok (), t) ∧
        t.asked = s.asked ++ asked ∧ asked.length < p.config.maxEstimates) := by
  constructor
  · intro length hlength
    have hbrute : bruteForceLength p (some length) = length := Nat.min_eq_left hlength
    have hasked := exists_asked h (some length) s
    rwa [hbrute] at hasked
  · intro hsize hlimit hpos
    have hstops := stopsAt_headLength p.size (Nat.le_sub_one_of_lt hlimit)
    have hbrute : bruteForceLength p none = headLength p.size p.config.maxEstimates :=
      Nat.min_eq_left hstops.le_size
    obtain ⟨asked, t, hrun, hasked, hle, -⟩ := exists_asked h none s
    rw [hbrute] at hle
    exact ⟨asked, t, hrun, hasked, hle.trans_lt (workload_lt_of_stopsAt hstops hsize hpos)⟩

/-- Four operands, a cost model that changes its mind with each call, and a limit just above the
workload of heads of one operand. -/
def fickle : Problem ℕ where
  operands := [{ table := "a" }, { table := "b" }, { table := "c" }, { table := "d" }]
  condition? := none
  config := { maxEstimates := 25 }
  isSelect := true
  oracles :=
    { costModel :=
        { estimate := fun view _ calls =>
            (.ok ⟨if calls % 2 = 0 then ⟨1.0⟩ else ⟨2.0⟩, view.order.map fun _ => .fullScan⟩,
              calls + 1) }
      rowCounts := fun _ => pure 0
      clock := pure 0 }

theorem alwaysAnswers_fickle : fickle.AlwaysAnswers := by
  intro order _ _ calls
  refine ⟨_, rfl, ?_, List.length_map _⟩
  dsimp only
  split <;> rfl

/-- Heads of one operand take 24 estimates, and are as long as the limit admits. -/
theorem bruteForce_fickle :
    fickle.AlwaysAnswers ∧ headLength 4 25 = 1 ∧
      (∃ asked t, bruteForce fickle (some 1) { world := 0 } = (.ok (), t) ∧ t.asked = asked ∧
        asked.length = 24) ∧
      ∃ asked t, bruteForce fickle none { world := 0 } = (.ok (), t) ∧ t.asked = asked ∧
        asked.length < 25 := by
  obtain ⟨hlengths, hderived⟩ := bruteForce_asks_workload alwaysAnswers_fickle { world := 0 }
  refine ⟨alwaysAnswers_fickle, rfl, ?_, ?_⟩
  · obtain ⟨asked, t, hrun, hasked, -, hcount⟩ := hlengths 1 (by decide)
    obtain rfl : (bruteForce fickle (some 1) { world := 0 }).2 = t := congrArg Prod.snd hrun
    exact ⟨asked, _, hrun, hasked, hcount (by decide +kernel)⟩
  · exact hderived (by decide) (by decide) (by decide)

end JoinOrder.Sweep
