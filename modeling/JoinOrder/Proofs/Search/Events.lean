import JoinOrder.Proofs.Search.Best
/-!
# The events of a session

Whoever traces a session sees an event for each ordering scored, one for each new best plan and one for
each strategy that comes to its end. However many strategies follow one another, and wherever some of them
break off, these events keep to a grammar. Each search adds a block of its own: the orderings it scores,
each directly followed by the news of a best plan if it is cheaper than everything scored before, and at
the end the number of them. A search that breaks off leaves that end out.

## What carries the grammar

The news of a best plan is decided by a comparison with the best plan at hand, and the grammar speaks of
all orderings ever scored. Both say the same because the best plan is the first of the cheapest. The
number of iterations is kept by each search for itself, apart from the test that scores, and agrees with
the orderings scored because every iteration tests one ordering and a completion tests none.
-/

namespace JoinOrder

variable {σ ρ : Type}

/-! ## Events -/

/-- A tracer sees an entry. -/
def Entry.isEvent : Entry → Bool
  | scored _ _ _ => true
  | improved _ _ _ => true
  | stopped _ _ _ => true
  | asked _ _ => false
  | polled _ _ => false

/-- The plan that an entry announces as the best one, with its cost. -/
def Entry.improvement? : Entry → Option (List ℕ × Cost)
  | improved _ order cost => some (order, cost)
  | _ => none

/-- The events of a session, in order. -/
def Session.events (s : Session σ) : List Entry := s.history.filter Entry.isEvent

/-- The best plans announced in a session, in order. -/
def Session.improvements (s : Session σ) : List (List ℕ × Cost) :=
  s.events.filterMap Entry.improvement?

/-- The events of scorings by one strategy after earlier ones: each scoring, followed by the news of a
best plan exactly if it is cheaper than all scorings before it. -/
def announce (id : StrategyId) : (earlier scorings : List Scoring) → List Entry
  | _, [] => []
  | earlier, (order, e) :: rest =>
    .scored id order e ::
      ((if ∀ x ∈ earlier, e.cost < x.2.cost then [.improved id order e.cost] else []) ++
        announce id (earlier ++ [(order, e)]) rest)

@[simp] theorem announce_nil (id : StrategyId) (earlier : List Scoring) :
    announce id earlier [] = [] := rfl

theorem announce_append (id : StrategyId) (earlier scorings scorings' : List Scoring) :
    announce id earlier (scorings ++ scorings') =
      announce id earlier scorings ++ announce id (earlier ++ scorings) scorings' := by
  induction scorings generalizing earlier with
  | nil => simp
  | cons scoring scorings ih =>
    obtain ⟨order, e⟩ := scoring
    simp only [List.cons_append, announce, ih, List.append_assoc, List.nil_append]

/-! ## What a move announces -/

namespace Problem

variable (p : Problem σ)

/-- The events of a move. -/
def announced (s : Session σ) : Move → List Entry
  | .stop id iterations outOfTime => [.stopped id iterations outOfTime]
  | .test id order => announce id s.scorings (p.scoring? s (.test id order)).toList
  | _ => []

variable {p} {s t : Session σ}

/-- **The events of one move.** -/
theorem events_perform (h : s.HasFirstCheapest) (m : Move) :
    (p.perform s m).events = s.events ++ p.announced s m := by
  cases m with
  | poll iteration =>
    obtain ⟨stop, world, hstop, -⟩ := p.canStop_spec iteration s
    rw [perform, hstop]
    simp [Session.events, Session.history, Entry.isEvent, announced]
  | estimate order =>
    obtain ⟨answer, world, hest⟩ := p.estimate_spec order s
    rw [perform, hest]
    simp [Session.events, Session.history, Entry.isEvent, announced]
  | test id order =>
    have hspec := p.test_spec id order s
    rw [perform, announced]
    generalize p.test id order s = out at hspec
    cases hspec with
    | refused est =>
      rw [scoring?_test_eq_none est]
      simp [Session.events, Session.history, Entry.isEvent]
    | kept est _ hcost =>
      rw [h.isImprovedBy_iff (isValid_of_estimate est)] at hcost
      rw [scoring?_test_eq_some est, Option.toList_some, announce, if_pos hcost]
      simp [Session.events, Session.history, Entry.isEvent]
    | passed est _ hcost =>
      rw [← Bool.not_eq_true, h.isImprovedBy_iff (isValid_of_estimate est)] at hcost
      rw [scoring?_test_eq_some est, Option.toList_some, announce, if_neg hcost]
      simp [Session.events, Session.history, Entry.isEvent]
  | lookUp o => exact (List.append_nil _).symm
  | stop id iterations outOfTime =>
    simp [perform, Session.stop, Session.record, Session.events, Session.history, Entry.isEvent,
      announced]

theorem announced_of_isTrial {id : StrategyId} {m : Move} (hm : m.IsTrial p.size id) :
    p.announced s m = announce id s.scorings (p.scoring? s m).toList := by
  cases hm with
  | poll | estimate | lookUp | test => rfl

theorem Reaches.exists_announced {id : StrategyId} (h : p.Reaches (Move.IsTrial p.size id) s t)
    (hs : s.HasFirstCheapest) :
    ∃ scorings, t.HasFirstCheapest ∧ t.scorings = s.scorings ++ scorings ∧
      t.events = s.events ++ announce id s.scorings scorings := by
  refine h.preserves (P := fun u ↦ ∃ scorings, u.HasFirstCheapest ∧
    u.scorings = s.scorings ++ scorings ∧ u.events = s.events ++ announce id s.scorings scorings)
    ⟨[], hs, (List.append_nil _).symm, (List.append_nil _).symm⟩ ?_
  rintro u m hm ⟨scorings, hu, hscorings, hevents⟩
  refine ⟨scorings ++ (p.scoring? u m).toList, hu.perform m, ?_, ?_⟩
  · rw [p.scorings_perform, hscorings, List.append_assoc]
  · rw [events_perform hu, hevents, announced_of_isTrial hm, hscorings, announce_append,
      List.append_assoc]

end Problem

/-! ## Blocks -/

/-- The events that a search adds after earlier scorings: those of what it scores, and the number of them
if it comes to its end. -/
inductive IsBlock (id : StrategyId) (earlier scorings : List Scoring) :
    Except SearchError Unit → List Entry → Prop
  | finished (outOfTime : Bool) :
      IsBlock id earlier scorings (.ok ())
        (announce id earlier scorings ++ [.stopped id scorings.length outOfTime])
  | broken (e : SearchError) : IsBlock id earlier scorings (.error e) (announce id earlier scorings)

/-- The events that searches add one after the other: a block for each. -/
inductive AreBlocks :
    (earlier : List Scoring) → List (StrategyId × Except SearchError Unit) → List Entry → Prop
  | nil (earlier : List Scoring) : AreBlocks earlier [] []
  | cons {earlier scorings : List Scoring} {id : StrategyId} {result : Except SearchError Unit}
      {runs : List (StrategyId × Except SearchError Unit)} {block events : List Entry}
      (first : IsBlock id earlier scorings result block)
      (rest : AreBlocks (earlier ++ scorings) runs events) :
      AreBlocks earlier ((id, result) :: runs) (block ++ events)

namespace Problem

variable {p : Problem σ} {s : Session σ}

theorem Ran.exists_isBlock {id : StrategyId} {limit : ℕ} {out : Except SearchError Unit × Session σ}
    (h : p.Ran id limit s out) (hs : s.HasFirstCheapest) :
    ∃ scorings block, out.2.HasFirstCheapest ∧ out.2.scorings = s.scorings ++ scorings ∧
      out.2.events = s.events ++ block ∧ IsBlock id s.scorings scorings out.1 block := by
  cases h with
  | @refused e t _ _ _ trials =>
    obtain ⟨scorings, ht, hscorings, hevents⟩ := trials.exists_announced hs
    exact ⟨scorings, _, ht, hscorings, hevents, .broken e⟩
  | finished _ holds =>
    obtain @⟨⟨iterations, outOfTime⟩, u, trials, iterated⟩ := holds
    obtain ⟨scorings, hu, hscorings, hevents⟩ := trials.exists_announced hs
    have hcounted : iterations = scorings.length := by
      have hlength := iterated.counted
      rw [hscorings, List.length_append] at hlength
      dsimp only at hlength
      omega
    subst hcounted
    have hstop := events_perform (p := p) hu (.stop id scorings.length outOfTime)
    refine ⟨scorings, announce id s.scorings scorings ++ [.stopped id scorings.length outOfTime],
      hu.perform (p := p) (.stop id scorings.length outOfTime), ?_, ?_, .finished outOfTime⟩
    · rw [← hscorings]
      exact Session.scorings_eq_of_cons rfl rfl
    · rw [← List.append_assoc, ← hevents]
      exact hstop

variable [RandomSource ρ]

/-- Search a session with one strategy after the other. The results come back with the strategies. -/
def searchAll (p : Problem σ) :
    List (Strategy ρ) → Session σ → List (StrategyId × Except SearchError Unit) × Session σ
  | [], s => ([], s)
  | strategy :: rest, s =>
    let ((result, _), t) := strategy.search p s
    let (runs, u) := searchAll p rest t
    ((strategy.id, result) :: runs, u)

theorem map_fst_searchAll (strategies : List (Strategy ρ)) (s : Session σ) :
    (p.searchAll strategies s).1.map Prod.fst = strategies.map Strategy.id := by
  induction strategies generalizing s with
  | nil => rfl
  | cons strategy rest ih => exact congrArg (strategy.id :: ·) (ih (strategy.search p s).2)

theorem reaches_searchAll (strategies : List (Strategy ρ)) (s : Session σ) :
    p.Reaches (fun _ ↦ True) s (p.searchAll strategies s).2 := by
  induction strategies generalizing s with
  | nil => exact .refl
  | cons strategy rest ih => exact (reaches_operate s (.search strategy)).trans (ih _)

theorem exists_areBlocks (strategies : List (Strategy ρ)) (hs : s.HasFirstCheapest) :
    ∃ added, (p.searchAll strategies s).2.events = s.events ++ added ∧
      AreBlocks s.scorings (p.searchAll strategies s).1 added := by
  induction strategies generalizing s with
  | nil => exact ⟨[], (List.append_nil _).symm, .nil _⟩
  | cons strategy rest ih =>
    obtain ⟨scorings, block, ht, hscorings, hevents, hblock⟩ :=
      (strategy.ran_search s).exists_isBlock hs
    obtain ⟨added, hrest, hblocks⟩ := ih ht
    rw [hscorings] at hblocks
    refine ⟨block ++ added, ?_, .cons hblock hblocks⟩
    rw [← List.append_assoc, ← hevents]
    exact hrest

end Problem

/-! ## The news of best plans -/

/-- The best plan is the one announced last, and each one announced is cheaper than those before it. -/
structure Session.AnnouncesBest (s : Session σ) : Prop where
  none : s.best? = none → s.improvements = []
  last : ∀ plan, s.best? = some plan →
    ∃ cost, plan.cost? = some cost ∧ s.improvements.getLast? = some (plan.order, cost)
  scored : ∀ x ∈ s.improvements, ∃ e, (x.1, e) ∈ s.scorings ∧ e.cost = x.2
  decreasing : s.improvements.Pairwise fun earlier later ↦ later.2 < earlier.2

namespace Session

open Problem

variable {p : Problem σ} {s : Session σ}

theorem announcesBest_opened (world : σ) : AnnouncesBest ({ world } : Session σ) where
  none _ := rfl
  last _ h := by contradiction
  scored _ h := absurd h List.not_mem_nil
  decreasing := .nil

theorem improvements_perform (h : s.HasFirstCheapest) (m : Move) :
    (p.perform s m).improvements =
      s.improvements ++ (p.announced s m).filterMap Entry.improvement? := by
  rw [improvements, events_perform h, List.filterMap_append, improvements]

theorem AnnouncesBest.perform_of_eq (hs : s.AnnouncesBest) (h : s.HasFirstCheapest) {m : Move}
    (hbest : (p.perform s m).best? = s.best?)
    (hnone : (p.announced s m).filterMap Entry.improvement? = []) :
    (p.perform s m).AnnouncesBest := by
  have himprovements : (p.perform s m).improvements = s.improvements := by
    rw [improvements_perform h, hnone, List.append_nil]
  constructor
  · rw [hbest, himprovements]
    exact hs.none
  · rw [hbest, himprovements]
    exact hs.last
  · rw [himprovements, p.scorings_perform]
    intro x hx
    obtain ⟨e, he, hcost⟩ := hs.scored x hx
    exact ⟨e, List.mem_append_left _ he, hcost⟩
  · rw [himprovements]
    exact hs.decreasing

theorem AnnouncesBest.perform_of_cheaper (hs : s.AnnouncesBest) (h : s.HasFirstCheapest)
    {id : StrategyId} {order : List ℕ} {e : Estimate} (hest : (p.estimate order s).1 = .ok e)
    (hcheaper : ∀ x ∈ s.scorings, e.cost < x.2.cost) :
    (p.perform s (.test id order)).AnnouncesBest := by
  have himproved := (h.isImprovedBy_iff (isValid_of_estimate hest)).mpr hcheaper
  have hbest := best_perform_test id hest
  rw [if_pos himproved] at hbest
  have hscorings : (p.perform s (.test id order)).scorings = s.scorings ++ [(order, e)] := by
    rw [p.scorings_perform, scoring?_test_eq_some hest, Option.toList_some]
  have himprovements : (p.perform s (.test id order)).improvements =
      s.improvements ++ [(order, e.cost)] := by
    rw [improvements_perform h, announced, scoring?_test_eq_some hest, Option.toList_some, announce,
      if_pos hcheaper]
    rfl
  constructor
  · rw [hbest]
    intro hnone
    contradiction
  · rw [hbest, himprovements]
    intro plan hplan
    obtain rfl := Option.some.inj hplan
    exact ⟨e.cost, rfl, List.getLast?_concat⟩
  · rw [himprovements, hscorings]
    intro x hx
    rcases List.mem_append.mp hx with hx | hx
    · obtain ⟨e', he', hcost⟩ := hs.scored x hx
      exact ⟨e', List.mem_append_left _ he', hcost⟩
    · obtain rfl := List.mem_singleton.mp hx
      exact ⟨e, List.mem_append_right _ (List.mem_singleton_self _), rfl⟩
  · rw [himprovements]
    refine List.pairwise_append.mpr ⟨hs.decreasing, List.pairwise_singleton _ _, ?_⟩
    intro x hx y hy
    -- what was announced before was scored before
    obtain ⟨e', he', hcost⟩ := hs.scored x hx
    obtain rfl := List.mem_singleton.mp hy
    rw [← hcost]
    exact hcheaper (x.1, e') he'

/-- **One move keeps the last plan announced the best one.** -/
theorem AnnouncesBest.perform (hs : s.AnnouncesBest) (h : s.HasFirstCheapest) (m : Move) :
    (p.perform s m).AnnouncesBest := by
  cases m with
  | poll | estimate | lookUp | stop =>
    exact hs.perform_of_eq h (best_perform_of_scoring?_eq_none _ rfl) rfl
  | test id order =>
    cases hest : (p.estimate order s).1 with
    | error e =>
      have hnone : p.scoring? s (.test id order) = Option.none := scoring?_test_eq_none hest
      refine hs.perform_of_eq h (best_perform_of_scoring?_eq_none _ hnone) ?_
      rw [announced, hnone]
      rfl
    | ok e =>
      by_cases hcheaper : ∀ x ∈ s.scorings, e.cost < x.2.cost
      · exact hs.perform_of_cheaper h hest hcheaper
      · have himproved := mt (h.isImprovedBy_iff (isValid_of_estimate hest)).mp hcheaper
        have hbest := best_perform_test id hest
        rw [if_neg himproved] at hbest
        refine hs.perform_of_eq h hbest ?_
        rw [announced, scoring?_test_eq_some hest, Option.toList_some, announce, if_neg hcheaper]
        rfl

theorem announcesBest_performAll (world : σ) (moves : List Move) :
    (p.performAll { world } moves).AnnouncesBest := by
  have hboth : (p.performAll { world } moves).HasFirstCheapest ∧
      (p.performAll { world } moves).AnnouncesBest :=
    performAll_preserves (P := fun s ↦ s.HasFirstCheapest ∧ s.AnnouncesBest)
      ⟨.opened world, announcesBest_opened world⟩
      (fun _ m (_ : True) ht ↦ ⟨ht.1.perform m, ht.2.perform ht.1 m⟩) fun _ _ ↦ trivial
  exact hboth.2

end Session

/-! ## Searches one after the other -/

namespace Problem

variable [RandomSource ρ]

/-- **The events keep to the grammar.** Whatever a session was used for before, searches that follow one
another add a block each; and at every moment the plan announced last is the best one, cheaper than all
those announced before it. -/
theorem events_searchAll (p : Problem σ) (world : σ) (ops : List (Operation ρ))
    (strategies : List (Strategy ρ)) :
    let s := p.operateAll { world } ops
    let out := p.searchAll strategies s
    out.1.map Prod.fst = strategies.map Strategy.id ∧
      (∃ added, out.2.events = s.events ++ added ∧ AreBlocks s.scorings out.1 added) ∧
      ∃ moves, out.2 = p.performAll { world } moves ∧
        ∀ k, (p.performAll { world } (moves.take k)).AnnouncesBest := by
  intro s out
  have hused : p.Reaches (fun _ ↦ True) { world } s := p.reaches_operateAll { world } ops
  have hs : s.HasFirstCheapest :=
    hused.preserves (.opened world) fun _ m _ ht ↦ ht.perform m
  obtain ⟨moves, -, hmoves⟩ := hused.trans (p.reaches_searchAll strategies s)
  refine ⟨map_fst_searchAll strategies s, exists_areBlocks strategies hs, moves, hmoves.symm, ?_⟩
  intro k
  exact Session.announcesBest_performAll world (moves.take k)

end Problem

end JoinOrder
