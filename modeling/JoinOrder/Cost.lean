import JoinOrder.Decimal.Shortest
/-!
# Costs

A cost is a float, compared as floats are: nothing is below, above or equal to a cost that is not a
number, and the two zeros are equal. The search accepts costs of at least zero only, infinity
included; on those the comparison is an order.
-/

namespace JoinOrder

/-- The cost of a plan. -/
structure Cost where
  /-- The number. -/
  value : Float
  deriving Inhabited

namespace Cost

/-- The cost of doing nothing. -/
def zero : Cost := ⟨0.0⟩

instance : Add Cost := ⟨fun a b => ⟨a.value + b.value⟩⟩
instance : Sub Cost := ⟨fun a b => ⟨a.value - b.value⟩⟩
instance : BEq Cost := ⟨fun a b => a.value == b.value⟩
instance : LT Cost := ⟨fun a b => a.value < b.value⟩
instance : LE Cost := ⟨fun a b => a.value ≤ b.value⟩
instance (a b : Cost) : Decidable (a < b) := inferInstanceAs (Decidable (a.value < b.value))
instance (a b : Cost) : Decidable (a ≤ b) := inferInstanceAs (Decidable (a.value ≤ b.value))

/-- The sum of a list, added up first to last from negative zero, which changes no number it is added
to. -/
def sum (costs : List Cost) : Cost := costs.foldl (· + ·) ⟨-0.0⟩

/-- How two costs compare; `none` if one is not a number. -/
def compare? (a b : Cost) : Option Ordering :=
  if a < b then some .lt else if b < a then some .gt else if a == b then some .eq else none

/-- A cost that a search can compare. -/
def isValid (c : Cost) : Bool := decide (zero ≤ c)

/-- The text of a cost, with as few digits as tell it apart. -/
def text (c : Cost) : String := Decimal.text c.value

end Cost

end JoinOrder
