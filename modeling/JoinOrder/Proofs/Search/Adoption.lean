import JoinOrder.Proofs.Search.Entries
import JoinOrder.Proofs.Search.Events
/-!
# Where the best plan comes from

The best plan of a session carries the estimate of one scoring, the one that made it the best plan. The
history shows which one that is: the last of which the news follows. So whatever is scored later, by the
same strategy or another one, and whatever else is estimated in between, the access choices of the best
plan are those of a single answer of the cost model, as it gave them.
-/

namespace JoinOrder

variable {σ : Type} {history entries : List Entry} {order : List ℕ} {e : Estimate}

/-- In a history an order is adopted with an estimate: the cost model gave this answer for the order, which
was scored with it and became the best plan, and no other one did so after it. -/
def IsAdopted (history : List Entry) (order : List ℕ) (e : Estimate) : Prop :=
  ∃ id before after,
    history = before ++
      .asked order (.ok e) :: .scored id order e :: .improved id order e.cost :: after ∧
    ∀ entry ∈ after, entry.improvement? = none

theorem IsAdopted.append (h : IsAdopted history order e)
    (hnone : ∀ entry ∈ entries, entry.improvement? = none) :
    IsAdopted (history ++ entries) order e := by
  obtain ⟨id, before, after, rfl, hafter⟩ := h
  refine ⟨id, before, after ++ entries, by simp, fun entry hentry ↦ ?_⟩
  exact (List.mem_append.mp hentry).elim (hafter entry) (hnone entry)

/-- The best plan has the order and the estimate adopted. -/
def Session.BestIsAdopted (s : Session σ) : Prop :=
  ∀ plan, s.best? = some plan →
    ∃ order e, plan = Plan.scored order e ∧ IsAdopted s.history order e

namespace Session.BestIsAdopted

open Problem

variable {p : Problem σ} {s t : Session σ}

theorem opened (world : σ) : BestIsAdopted ({ world } : Session σ) :=
  fun _ h ↦ by contradiction

theorem of_append (h : s.BestIsAdopted) (entries : List Entry) (hbest : t.best? = s.best?)
    (hjournal : t.journal = entries ++ s.journal)
    (hnone : ∀ entry ∈ entries, entry.improvement? = none) : t.BestIsAdopted := by
  intro plan hplan
  obtain ⟨order, e, hscored, hadopted⟩ := h plan (hbest ▸ hplan)
  refine ⟨order, e, hscored, ?_⟩
  have hhistory : t.history = s.history ++ entries.reverse := by
    rw [history, hjournal, List.reverse_append, history]
  rw [hhistory]
  exact hadopted.append fun entry hentry ↦ hnone entry (List.mem_reverse.mp hentry)

/-- **One move keeps the best plan the one adopted last.** -/
theorem perform (h : s.BestIsAdopted) (m : Move) : (p.perform s m).BestIsAdopted := by
  cases m with
  | poll | estimate | lookUp | stop =>
    obtain ⟨entries, hjournal, hwrites⟩ := p.exists_entries_perform s _
    refine h.of_append entries (best_perform_of_scoring?_eq_none _ rfl) hjournal fun entry hentry ↦ ?_
    cases hwrites entry hentry <;> rfl
  | test id order =>
    have hspec := p.test_spec id order s
    rw [Problem.perform]
    generalize p.test id order s = out at hspec
    cases hspec with
    | @refused _ answer =>
      exact h.of_append [.asked order answer] rfl rfl (by simp [Entry.improvement?])
    | @passed e =>
      exact h.of_append [.scored id order e, .asked order (.ok e)] rfl rfl
        (by simp [Entry.improvement?])
    | @kept e =>
      intro plan hplan
      obtain rfl : Plan.scored order e = plan := Option.some.inj hplan
      exact ⟨order, e, rfl, id, s.history, [], by simp [history], by simp⟩

end Session.BestIsAdopted

end JoinOrder
