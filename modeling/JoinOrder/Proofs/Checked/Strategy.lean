import JoinOrder.Proofs.Checked.Genetic
import JoinOrder.Proofs.Checked.Sweep
import JoinOrder.Proofs.Search.Entries
import JoinOrder.Proofs.Search.Strategy
/-!
# Searches stay in bounds

The greedy order works with numbers of operands, and looks up the operand and its rows by its number
whenever it compares two. It takes the numbers from those that are left, so there is always something to
find. With that all strategies are told over tables, and none of them leaves its tables.

It follows what a cost model is shown during a search: duplicate free lists of operands, and complete
orderings where a plan is tested.
-/

namespace JoinOrder.Checked

variable {σ ρ : Type} {p : Problem σ}

/-! ## The greedy order by number -/

/-- An operand and its rows, looked up by number. -/
def look (operands : List Operand) (counts : List ℕ) (id : ℕ) : Option Candidate := do
  let operand ← operands[id]?
  let rows ← counts[id]?
  some { id, operand, rows }

/-- `GraphGreedy.arrange` by number. -/
def arrange (g : JoinGraph) (operands : List Operand) (counts : List ℕ) :
    (count : ℕ) → (placed remaining : List ℕ) → Option (List ℕ)
  | 0, _, _ => some []
  | count + 1, placed, remaining => do
    let placed' ← placed.mapM (look operands counts)
    let remaining' ← remaining.mapM (look operands counts)
    match GraphGreedy.eligible g placed' remaining' with
    | [] => some []
    | first :: rest =>
      let next := (GraphGreedy.smallestFrom first rest).id
      let order ← arrange g operands counts count (placed ++ [next]) (remaining.filter (· ≠ next))
      some (next :: order)

/-- `GraphGreedy.search` by number. -/
def graphGreedy (p : Problem σ) : CheckedM σ Unit := do
  let counts ← lift (ExceptT.lift (Session.consult (p.operands.mapM p.oracles.rowCounts)))
  let order ← arrange (GraphGreedy.graphOf p) p.operands counts p.size [] (List.range p.size)
  let _ ← test p .graphGreedy order
  lift (Session.stop .graphGreedy 1 false)

theorem mapM_look {operands : List Operand} {counts : List ℕ} {cs : List Candidate}
    (h : ∀ c ∈ cs, look operands counts c.id = some c) :
    (cs.map Candidate.id).mapM (look operands counts) = some cs := by
  induction cs with
  | nil => rfl
  | cons c cs ih =>
    rw [List.map_cons, List.mapM_cons, h c List.mem_cons_self,
      ih fun d hd ↦ h d (List.mem_cons_of_mem c hd)]
    rfl

theorem arrange_eq_some (g : JoinGraph) {operands : List Operand} {counts : List ℕ} (count : ℕ)
    {placed remaining : List Candidate} (hplaced : ∀ c ∈ placed, look operands counts c.id = some c)
    (hremaining : ∀ c ∈ remaining, look operands counts c.id = some c) :
    arrange g operands counts count (placed.map Candidate.id) (remaining.map Candidate.id) =
      some ((GraphGreedy.arrange g count placed remaining).map Candidate.id) := by
  induction count generalizing placed remaining with
  | zero => rfl
  | succ count ih =>
    rw [arrange, mapM_look hplaced, mapM_look hremaining, GraphGreedy.arrange]
    dsimp only [Option.bind_eq_bind, Option.bind_some]
    cases heq : GraphGreedy.eligible g placed remaining with
    | nil => rfl
    | cons first rest =>
      dsimp only
      set next := GraphGreedy.smallestFrom first rest with hnext
      have hmem : next ∈ remaining :=
        GraphGreedy.eligible_subset g placed remaining
          (heq ▸ GraphGreedy.smallestFrom_mem first rest)
      have hfilter : (remaining.map Candidate.id).filter (· ≠ next.id) =
          (remaining.filter fun c ↦ c.id ≠ next.id).map Candidate.id := List.filter_map
      have hplaced' : ∀ c ∈ placed ++ [next], look operands counts c.id = some c := by
        intro c hc
        rcases List.mem_append.mp hc with hc | hc
        · exact hplaced c hc
        · exact hremaining c (List.mem_singleton.mp hc ▸ hmem)
      have hleft : ∀ c ∈ remaining.filter fun c ↦ c.id ≠ next.id,
          look operands counts c.id = some c :=
        fun c hc ↦ hremaining c (List.mem_of_mem_filter hc)
      have hrest := ih hplaced' hleft
      rw [List.map_append, List.map_singleton, ← hfilter] at hrest
      rw [hrest]
      rfl

theorem look_candidate {operands : List Operand} {counts : List ℕ} {c : Candidate}
    (h : c ∈ (operands.zip counts).zipIdx.map fun ((operand, rows), id) ↦
      ({ id, operand, rows } : Candidate)) : look operands counts c.id = some c := by
  obtain ⟨hoperand, hrows⟩ := GraphGreedy.getElem?_of_mem_zipIdx h
  rw [look, hoperand, hrows]
  rfl

theorem isInBounds_testOnce {id : StrategyId} {order : List ℕ} (horder : order.Perm (List.range p.size))
    (s : Session σ) :
    IsInBounds (test p id order >>= fun _ ↦ lift (Session.stop id 1 false))
      (p.test id order >>= fun _ ↦ Session.stop id 1 false) s :=
  (IsInBounds.test horder).bind (Problem.ends_test id order s trivial)
    fun _ _ _ ↦ .lift _

theorem isInBounds_graphGreedy (s : Session σ) :
    IsInBounds (graphGreedy p) (GraphGreedy.search p) s := by
  have hlength := p.oracles.rowCounts.length_run_mapM p.operands s.world
  have hperm := GraphGreedy.order_perm (GraphGreedy.graphOf p) p.oracles.rowCounts p.operands s.world
  set counted := Session.consult (p.operands.mapM p.oracles.rowCounts) s with hcounted
  set cs : List Candidate := (p.operands.zip counted.1).zipIdx.map
    fun ((operand, rows), id) ↦ { id, operand, rows } with hcs
  have hids : cs.map Candidate.id = List.range p.size := GraphGreedy.map_id_zipIdx p.operands hlength
  have hcount : cs.length = p.size := by
    rw [← List.length_map (f := Candidate.id), hids, List.length_range]
  have harrange := arrange_eq_some (GraphGreedy.graphOf p) p.size (List.forall_mem_nil _)
    fun c (hc : c ∈ cs) ↦ look_candidate hc
  rw [hids] at harrange
  -- the rows are counted once, before anything is looked up
  change IsInBounds
    ((liftM (arrange (GraphGreedy.graphOf p) p.operands counted.1 p.size [] (List.range p.size)) :
      CheckedM σ (List ℕ)) >>= fun order ↦
        test p .graphGreedy order >>= fun _ ↦ lift (Session.stop .graphGreedy 1 false))
    (p.test .graphGreedy (GraphGreedy.orderOf (GraphGreedy.graphOf p) cs) >>= fun _ ↦
      Session.stop .graphGreedy 1 false) counted.2
  change (GraphGreedy.orderOf (GraphGreedy.graphOf p) cs).Perm (List.range p.size) at hperm
  rw [GraphGreedy.orderOf, hcount] at hperm ⊢
  exact .bind_some harrange (isInBounds_testOnce hperm _)

/-! ## All strategies -/

theorem IsInBounds.run_bind {checked : CheckedM σ Unit} {act : SearchM σ Unit} {s : Session σ}
    (h : IsInBounds checked act s) (strategy : Strategy ρ) :
    (checked.run >>= fun result ↦ return (result, strategy) :
        StateT (Session σ) Option (Except SearchError Unit × Strategy ρ)) s =
      some (((act s).1, strategy), (act s).2) := by
  rw [stateT_bind_apply, ExceptT.run, h]
  rfl

variable [RandomSource ρ]

/-- `Strategy.search` over tables. -/
def search (p : Problem σ) :
    Strategy ρ → StateT (Session σ) Option (Except SearchError Unit × Strategy ρ)
  | .trivial => do
    let result ← (test p .trivial (List.range p.size) >>= fun _ ↦
      lift (Session.stop .trivial 1 false) : CheckedM σ Unit).run
    return (result, .trivial)
  | .graphGreedy => do return (← (graphGreedy p).run, .graphGreedy)
  | .exhaustive => do return (← (sweep p .exhaustive p.size pure).run, .exhaustive)
  | .bruteForce length? => do
    let result ← (sweep p .bruteForceGreedy (Sweep.bruteForceLength p length?) (complete p)).run
    return (result, .bruteForce length?)
  | .genetic g => do
    let (result, g) ← genetic p g
    return (result, .genetic g)

/-- **Searches stay in bounds.** Told over tables, with each order checked that it hands out, a search of
any strategy has a result, and it is the result of the search. So its cost model is shown duplicate free
lists of operands only, and what it tests are orderings of all operands. -/
theorem search_isInBounds (p : Problem σ) (strategy : Strategy ρ) (s : Session σ) :
    search p strategy s = some (strategy.search p s) ∧
      ∃ entries, (strategy.search p s).2.history = s.history ++ entries ∧
        (∀ order answer, Entry.asked order answer ∈ entries →
          order.Nodup ∧ ∀ x ∈ order, x < p.size) ∧
        ∀ id order e, Entry.scored id order e ∈ entries →
          id = strategy.id ∧ order.Perm (List.range p.size) := by
  constructor
  · cases strategy with
    | trivial => exact (isInBounds_testOnce (.refl _) s).run_bind .trivial
    | graphGreedy => exact (isInBounds_graphGreedy s).run_bind .graphGreedy
    | exhaustive => exact (isInBounds_exhaustive s).run_bind .exhaustive
    | bruteForce length? => exact (isInBounds_bruteForce length? s).run_bind (.bruteForce length?)
    | genetic g =>
      rw [search, stateT_bind_apply, genetic_eq_some]
      rfl
  · obtain ⟨entries, hhistory, hwrites⟩ := (strategy.ends_search (p := p) s).reaches.exists_entries
    refine ⟨entries, hhistory, fun order answer hentry ↦ ?_, fun id order e hentry ↦ ?_⟩
    · obtain ⟨m, hm, hw⟩ := hwrites _ hentry
      cases hw with
      | estimated =>
        cases hm with
        | estimate nodup lt => exact ⟨nodup, lt⟩
      | tested =>
        cases hm with
        | test perm =>
          exact ⟨Arrangement.nodup_of_perm_range perm, fun _ ↦ Arrangement.lt_of_perm_range perm⟩
    · obtain ⟨m, hm, hw⟩ := hwrites _ hentry
      cases hw
      cases hm with
      | test perm => exact ⟨rfl, perm⟩

end JoinOrder.Checked
