import JoinOrder.Operand
/-!
# Row counts

A *source* of row counts answers for an operand, and may keep a state of its own while it does. The
count may be exact or an approximation: the search only ranks operands by it.

The plain source is a table of counts by name. A *memo* stands before any other source and asks it
at most once for each identity.
-/

namespace JoinOrder

/-- A source of row counts with the state `σ`. -/
abbrev RowSource (σ : Type) := Operand → StateM σ Nat

/-- Row counts by name. -/
structure RowCounts where
  /-- The counts; of two entries of one name the first holds. -/
  entries : List (String × Nat) := []
  deriving Inhabited

namespace RowCounts

/-- The count of a name. -/
def find? (r : RowCounts) (name : String) : Option Nat := r.entries.lookup name

/-- The counts without a name. -/
def erase (r : RowCounts) (name : String) : RowCounts :=
  ⟨r.entries.filter fun entry => entry.1 ≠ name⟩

/-- The counts with a name set to `count`. -/
def set (r : RowCounts) (name : String) (count : Nat) : RowCounts :=
  ⟨(name, count) :: (r.erase name).entries⟩

/-- The count of an operand: by its table, else by its alias. An unknown operand counts as empty. -/
def ofOperand (r : RowCounts) (o : Operand) : Nat :=
  ((r.find? o.table).or (o.alias?.bind r.find?)).getD 0

/-- A table of counts as a source, whatever the state. -/
def source {σ : Type} (r : RowCounts) : RowSource σ := fun o => pure (r.ofOperand o)

end RowCounts

/-- The answers of a source met so far, by identity. -/
structure RowMemo where
  /-- The answers, the latest first. -/
  known : List (String × Nat) := []
  deriving Inhabited

namespace RowMemo

/-- The answer on record for an identity. -/
def find? (m : RowMemo) (identity : String) : Option Nat := m.known.lookup identity

/-- A source that answers from the memo where it can, and asks and records otherwise. -/
def before {σ : Type} (source : RowSource σ) : RowSource (RowMemo × σ) := fun o (memo, s) =>
  match memo.find? o.identity with
  | some count => (count, memo, s)
  | none =>
    let (count, s) := source o s
    (count, ⟨(o.identity, count) :: memo.known⟩, s)

/-- A source that leaves the memo alone. -/
def beside {σ : Type} (source : RowSource σ) : RowSource (RowMemo × σ) := fun o (memo, s) =>
  let (count, s) := source o s
  (count, memo, s)

end RowMemo

end JoinOrder
