import JoinOrder.Proofs.RowCounts
import JoinOrder.Proofs.Search.Lockstep
import Mathlib.Data.List.Nodup
/-!
# Row counts from a memo

A memo asks the source behind it about an identity at most once, and answers with the first answer ever after,
whatever becomes of the source.

How a table of counts answers does not go by the identity, however: an operand is looked up by its table first,
and by its alias only if the table is unknown. So a memo can be put before a table without a change exactly if
operands of the same identity have the same count there. What has to be kept for this is that the answer on
record for the identity of an operand is its count. One lookup keeps it, and so does whatever is made of
lookups.
-/

namespace JoinOrder

variable {σ τ : Type}

/-! ## Lookups -/

namespace RowMemo

variable {source : RowSource σ} {memo : RowMemo} {o : Operand}

theorem find?_cons (identity : String) (count : ℕ) (name : String) :
    (RowMemo.mk ((identity, count) :: memo.known)).find? name =
      if name = identity then some count else memo.find? name := by
  rw [find?, List.lookup_cons]
  by_cases hname : name = identity
  · simp [hname]
  · rw [if_neg hname, beq_eq_false_iff_ne.mpr hname, find?]

theorem before_of_some {count : ℕ} (h : memo.find? o.identity = some count) (s : σ) :
    before source o (memo, s) = (count, memo, s) := by
  rw [before, h]

theorem before_of_none (h : memo.find? o.identity = none) (s : σ) :
    before source o (memo, s) =
      ((source o s).1, ⟨(o.identity, (source o s).1) :: memo.known⟩, (source o s).2) := by
  rw [before, h]
  rfl

/-! ## Lookups in a table that changes -/

/-- A source that looks into the table it finds. -/
def current : RowSource RowCounts := fun o r ↦ (r.ofOperand o, r)

/-- A lookup of an operand through a memo, at a time when there is this table behind it. -/
def lookUp (step : RowCounts × Operand) : StateM RowMemo ℕ := fun memo ↦
  let (count, memo, _) := before current step.2 (memo, step.1)
  (count, memo)

theorem fst_lookUp (step : RowCounts × Operand) (memo : RowMemo) :
    (lookUp step memo).1 = (memo.find? step.2.identity).getD (step.1.ofOperand step.2) := by
  unfold lookUp
  cases h : memo.find? step.2.identity with
  | some count => rw [before_of_some h, Option.getD_some]
  | none => rw [before_of_none h, Option.getD_none, current]

theorem find?_lookUp (step : RowCounts × Operand) (memo : RowMemo) (name : String) :
    (lookUp step memo).2.find? name =
      (memo.find? name).or (if step.2.identity = name then some (step.1.ofOperand step.2) else none) := by
  unfold lookUp
  cases h : memo.find? step.2.identity with
  | some count =>
    rw [before_of_some h]
    by_cases hname : step.2.identity = name
    · rw [← hname, h, Option.some_or]
    · rw [if_neg hname, Option.or_none]
  | none =>
    rw [before_of_none h, find?_cons]
    by_cases hname : step.2.identity = name
    · rw [if_pos hname.symm, if_pos hname, ← hname, h, Option.none_or, current]
    · rw [if_neg (Ne.symm hname), if_neg hname, Option.or_none]

/-- **The first answer holds.** Whatever becomes of the table, a lookup answers what is on record for the
identity, and else the count that the table had for the first operand of this identity when it was looked up. -/
theorem run_mapM_lookUp (steps : List (RowCounts × Operand)) (memo : RowMemo) :
    ((steps.mapM lookUp).run memo).1.map some = steps.map fun step ↦
      (memo.find? step.2.identity).or
        ((steps.find? fun first ↦ first.2.identity = step.2.identity).map
          fun first ↦ first.1.ofOperand first.2) := by
  induction steps generalizing memo with
  | nil => rfl
  | cons step steps ih =>
    have hrun : (((step :: steps).mapM lookUp).run memo).1 =
        (lookUp step memo).1 :: ((steps.mapM lookUp).run (lookUp step memo).2).1 := by
      rw [List.mapM_cons]
      rfl
    rw [hrun, List.map_cons, ih, List.map_cons, List.cons.injEq]
    constructor
    · rw [fst_lookUp, List.find?_cons_of_pos (by simp), Option.map_some]
      cases memo.find? step.2.identity <;> rfl
    · refine List.map_congr_left fun later _ ↦ ?_
      rw [find?_lookUp, Option.or_assoc]
      by_cases hname : step.2.identity = later.2.identity
      · rw [if_pos hname, List.find?_cons_of_pos (by simpa using hname), Option.some_or, Option.map_some]
      · rw [if_neg hname, List.find?_cons_of_neg (by simpa using hname), Option.none_or]

/-- Once the table is asked about `staff`, it may forget it and learn of `people`. -/
example :
    (([(⟨[("staff", 7)]⟩, { table := "staff" }),
      (⟨[("people", 3)]⟩, { table := "people", alias? := some "staff" })].mapM lookUp).run {}).1 =
      [7, 7] := by
  decide

end RowMemo

/-! ## A table that stays -/

/-- Operands of the same identity have the same count. -/
def RowCounts.RespectsIdentity (r : RowCounts) (operands : List Operand) : Prop :=
  ∀ o ∈ operands, ∀ o' ∈ operands, o.identity = o'.identity → r.ofOperand o = r.ofOperand o'

instance (r : RowCounts) (operands : List Operand) : Decidable (r.RespectsIdentity operands) :=
  inferInstanceAs (Decidable (∀ o ∈ operands, ∀ o' ∈ operands, _ → _))

theorem RowCounts.RespectsIdentity.map_reset {r : RowCounts} {operands : List Operand}
    (h : r.RespectsIdentity operands) : r.RespectsIdentity (operands.map Operand.reset) := by
  rintro _ hreset _ hreset' hidentity
  obtain ⟨o, ho, rfl⟩ := List.mem_map.mp hreset
  obtain ⟨o', ho', rfl⟩ := List.mem_map.mp hreset'
  exact h o ho o' ho' hidentity

/-- A table of counts with a list of the operands it was asked about, beside any other state. -/
def RowCounts.noting (r : RowCounts) : RowSource (List Operand × σ) := fun o (asked, s) ↦
  (r.ofOperand o, asked ++ [o], s)

namespace RowMemo

/-- What a memo has on record of some operands are their counts. It has asked about each identity once, and
has the answer. -/
structure Recalls (r : RowCounts) (operands : List Operand) (memo : RowMemo) (asked : List Operand) :
    Prop where
  count : ∀ o ∈ operands, ∀ count, memo.find? o.identity = some count → r.ofOperand o = count
  known : ∀ o ∈ asked, memo.find? o.identity ≠ none
  nodup : (asked.map Operand.identity).Nodup

namespace Recalls

variable {r : RowCounts} {operands : List Operand}

theorem empty : Recalls r operands {} [] where
  count _ _ _ h := absurd h (by simp [find?])
  known _ h := absurd h List.not_mem_nil
  nodup := List.nodup_nil

theorem note {memo : RowMemo} {asked : List Operand} (hmemo : Recalls r operands memo asked)
    (h : r.RespectsIdentity operands) {o : Operand} (ho : o ∈ operands)
    (hnew : memo.find? o.identity = none) :
    Recalls r operands ⟨(o.identity, r.ofOperand o) :: memo.known⟩ (asked ++ [o]) where
  count o' ho' count hcount := by
    rw [find?_cons] at hcount
    by_cases hidentity : o'.identity = o.identity
    · rw [if_pos hidentity] at hcount
      exact (h o' ho' o ho hidentity).trans (Option.some.inj hcount)
    · rw [if_neg hidentity] at hcount
      exact hmemo.count o' ho' count hcount
  known o' ho' := by
    rw [find?_cons]
    rcases List.mem_append.mp ho' with hasked | hlast
    · split
      · exact Option.some_ne_none _
      · exact hmemo.known o' hasked
    · rw [List.mem_singleton.mp hlast, if_pos rfl]
      exact Option.some_ne_none _
  nodup := by
    rw [List.map_append, List.map_singleton]
    refine List.nodup_append.mpr ⟨hmemo.nodup, List.nodup_singleton _, ?_⟩
    rintro name hname _ hlast rfl
    obtain ⟨o', ho', hidentity⟩ := List.mem_map.mp hname
    rw [List.mem_singleton] at hlast
    exact hmemo.known o' ho' (hidentity.trans hlast ▸ hnew)

end Recalls

/-- The states of a bare table and of a memo before it that go together, along with what else there is. -/
def Matches (r : RowCounts) (operands : List Operand) (ticks : σ → τ → Prop) (w : σ)
    (s : RowMemo × List Operand × τ) : Prop := Recalls r operands s.1 s.2.1 ∧ ticks w s.2.2

/-- **A lookup through the memo is a lookup in the table.** -/
theorem coupled_before {r : RowCounts} {operands : List Operand} (h : r.RespectsIdentity operands)
    (ticks : σ → τ → Prop) {o : Operand} (ho : o ∈ operands) :
    Coupled (Matches r operands ticks) (r.source o) (before r.noting o) := by
  rintro w ⟨memo, asked, w'⟩ ⟨hmemo, hticks⟩
  change r.ofOperand o = (before r.noting o (memo, asked, w')).1 ∧
    Matches r operands ticks w (before r.noting o (memo, asked, w')).2
  cases hfind : memo.find? o.identity with
  | some count =>
    rw [before_of_some hfind]
    exact ⟨hmemo.count o ho count hfind, hmemo, hticks⟩
  | none =>
    rw [before_of_none hfind]
    exact ⟨rfl, hmemo.note h ho hfind, hticks⟩

/-- **No less will do**: a memo answers as the table, whatever it is asked about some operands, exactly if those of
the same identity have the same count. -/
theorem respectsIdentity_iff {r : RowCounts} {operands : List Operand} :
    r.RespectsIdentity operands ↔ ∀ asked ⊆ operands,
      ((asked.mapM (before r.noting)).run ({}, [], ())).1 = asked.map r.ofOperand := by
  constructor
  · intro h asked hasked
    have hlookups (o : Operand) (ho : o ∈ asked) := coupled_before h (@Eq Unit) (hasked ho)
    obtain ⟨hanswers, -⟩ := Coupled.mapM hlookups () ({}, [], ()) ⟨.empty, rfl⟩
    have hcounts (o : Operand) (world : Unit) : (r.source o world).1 = r.ofOperand o := rfl
    exact hanswers.symm.trans (RowSource.answersAs_of_forall hcounts () asked)
  · intro h o ho o' ho' hidentity
    have hfirst : before r.noting o ({}, [], ()) =
        (r.ofOperand o, ⟨[(o.identity, r.ofOperand o)]⟩, [o], ()) := rfl
    have hknown : (RowMemo.mk [(o.identity, r.ofOperand o)]).find? o'.identity = some (r.ofOperand o) :=
      (find?_cons _ _ _).trans (if_pos hidentity.symm)
    have hanswers := h [o, o'] (by simp [ho, ho'])
    rw [RowSource.run_mapM_cons, RowSource.run_mapM_cons, hfirst, before_of_some hknown] at hanswers
    exact (List.cons.inj (List.cons.inj hanswers).2).1

end RowMemo

end JoinOrder
