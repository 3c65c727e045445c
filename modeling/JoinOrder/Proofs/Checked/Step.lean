import JoinOrder.Proofs.Search.Moves
import JoinOrder.Random.Draw
/-!
# Steps that stay in bounds

The searches work on lists, where a position or a number that is out of range does no harm. A machine
that keeps the operands, the marks of those used and the orderings in tables of fixed size would break
there. So each search is told once more, over tables: a *checked* step has no result at all where a table
is read or written outside of it, where one buffer is copied to another of a different length, where a
number is taken from a smaller one, where a draw has nothing to draw from, or where an order is handed
out that is not what it should be.

A checked step stays *in bounds* if it has a result, and then this is the result of the plain step. That
is closed under sequencing, with the facts about the plain step at hand that hold of its result.
-/

namespace JoinOrder

variable {σ ρ : Type} {α β : Type}

/-- A step of a search that has no result out of bounds. -/
abbrev CheckedM (σ : Type) := ExceptT SearchError (StateT (Session σ) Option)

namespace Checked

/-! ## Tables -/

/-- A number less another one that is not larger. -/
def sub (a b : ℕ) : Option ℕ := if b ≤ a then some (a - b) else none

/-- A table with an entry overwritten. -/
def set (xs : List α) (i : ℕ) (a : α) : Option (List α) :=
  if i < xs.length then some (xs.set i a) else none

/-- A buffer overwritten with one of the same length. -/
def copy (buffer source : List α) : Option (List α) :=
  if buffer.length = source.length then some source else none

/-- A table with two entries exchanged. -/
def swapAt (xs : List α) (i j : ℕ) : Option (List α) :=
  if i < xs.length ∧ j < xs.length then some (Random.swapAt xs i j) else none

/-- A draw from some numbers. -/
def draw (below : ℕ → ρ → ℕ × ρ) (n : ℕ) (source : ρ) : Option (ℕ × ρ) :=
  if 0 < n then some (below n source) else none

theorem copy_eq_some {buffer source : List α} (h : buffer.length = source.length) :
    copy buffer source = some source := if_pos h

theorem draw_eq_some {below : ℕ → ρ → ℕ × ρ} {n : ℕ} (hn : 0 < n) (source : ρ) :
    draw below n source = some (below n source) := if_pos hn

/-! ## Steps -/

/-- A plain step. -/
def lift (act : SearchM σ α) : CheckedM σ α := fun s ↦ some (act s)

/-- An estimate of an order of operands without repetition. -/
def estimate (p : Problem σ) (order : List ℕ) : CheckedM σ Estimate :=
  if order.Nodup ∧ ∀ x ∈ order, x < p.size then lift (p.estimate order) else fun _ ↦ none

/-- A test of an ordering of all operands. -/
def test (p : Problem σ) (id : StrategyId) (order : List ℕ) : CheckedM σ Bool :=
  if order.Perm (List.range p.size) then lift (p.test id order) else fun _ ↦ none

theorem bind_apply (act : CheckedM σ α) (next : α → CheckedM σ β) (s : Session σ) :
    (act >>= next) s = match act s with
      | some (.ok a, t) => next a t
      | some (.error e, t) => some (.error e, t)
      | none => none := by
  change StateT.bind act (ExceptT.bindCont next) s = _
  unfold StateT.bind
  cases h : act s with
  | none => rfl
  | some out =>
    obtain ⟨result, t⟩ := out
    cases result <;> rfl

/-- A checked step has a result, that of a plain step. -/
def IsInBounds (checked : CheckedM σ α) (act : SearchM σ α) (s : Session σ) : Prop :=
  checked s = some (act s)

namespace IsInBounds

variable {p : Problem σ} {s : Session σ} {order : List ℕ}

theorem lift (act : SearchM σ α) : IsInBounds (Checked.lift act) act s := rfl

theorem pure (a : α) : IsInBounds (Pure.pure a : CheckedM σ α) (Pure.pure a) s := rfl

theorem estimate (hnodup : order.Nodup) (hlt : ∀ x ∈ order, x < p.size) :
    IsInBounds (Checked.estimate p order) (p.estimate order) s := by
  rw [Checked.estimate, if_pos ⟨hnodup, hlt⟩]
  exact .lift _

theorem test {id : StrategyId} (hperm : order.Perm (List.range p.size)) :
    IsInBounds (Checked.test p id order) (p.test id order) s := by
  rw [Checked.test, if_pos hperm]
  exact .lift _

theorem bind {checked : CheckedM σ α} {act : SearchM σ α} {checkedNext : α → CheckedM σ β}
    {next : α → SearchM σ β} {post : α → Session σ → Prop}
    (h : IsInBounds checked act s) (hends : p.Ends (fun _ ↦ True) s post (act s))
    (hnext : ∀ a t, post a t → IsInBounds (checkedNext a) (next a) t) :
    IsInBounds (checked >>= checkedNext) (act >>= next) s := by
  rw [IsInBounds, bind_apply, SearchM.bind_apply, h]
  generalize act s = out at hends
  cases hends with
  | finished _ _ holds => exact hnext _ _ holds
  | refused => rfl

theorem bind_some {o : Option α} {a : α} (ho : o = some a) {checkedNext : α → CheckedM σ β}
    {act : SearchM σ β} (h : IsInBounds (checkedNext a) act s) :
    IsInBounds ((liftM o : CheckedM σ α) >>= checkedNext) act s := by
  subst ho
  exact h

end IsInBounds

end Checked

end JoinOrder
