import JoinOrder.Cost
/-!
# Errors

What can keep operands from being ordered or a result from being shown.
-/

namespace JoinOrder

/-- The reason for a failure. -/
inductive SearchError where
  /-- There is nothing to order. -/
  | noOperands
  /-- The cost model answered with a cost that is negative or not a number. -/
  | invalidCost (cost : Cost)
  /-- The cost model answered with the wrong number of access choices. -/
  | accessCountMismatch (actual expected : Nat)
  /-- The cost model failed for a reason of its own. -/
  | modelFailure (message : String)
  /-- A search ended without a plan. -/
  | noPlan (operands : Nat)
  /-- A completion ran out of operands. -/
  | noUnusedOperand (position : Nat)
  /-- A result was asked for before there was one. -/
  | notOptimized
  /-- An order or a link names an operand that there is not. -/
  | unknownOperand (id : Nat)
  /-- A chain of links comes back to itself. -/
  | endlessChain
  deriving Inhabited

namespace SearchError

/-- The text of an error. -/
def message : SearchError → String
  | noOperands => "No scan operands to optimize."
  | invalidCost cost => "Cost model returned invalid cost " ++ cost.text ++ "."
  | accessCountMismatch actual expected =>
    "Cost model returned " ++ toString actual ++ " access choices for " ++ toString expected ++
      " operands."
  | modelFailure message => message
  | noPlan operands => "No plan found for " ++ toString operands ++ " operands"
  | noUnusedOperand position => "No unused operand left for position " ++ toString position
  | notOptimized => "Operands have not been optimized"
  | unknownOperand id => "No operand " ++ toString id
  | endlessChain => "Join links come back to themselves"

end SearchError

end JoinOrder
