import JoinOrder.Chain
import JoinOrder.Random.ChaCha
import JoinOrder.Search.Strategy
/-!
# The optimizer

An optimizer picks its strategies by the number of operands, runs them in one session, and commits
the best plan to the operands: each is linked to the operand nested inside it and gets the access the
plan chose for it. Choices that the order of the plan makes unusable are removed first.

Every run starts by taking back what the run before it committed, so a run that fails leaves the
operands with nothing committed to them.

When a query is only to be checked, the operands are committed in the order of the query and nothing
is costed.
-/

namespace JoinOrder

/-- What the last run of an optimizer did. -/
structure Stats where
  /-- The strategies completed, in order. -/
  strategies : List StrategyId := []
  /-- The estimates the cost model gave, once all strategies are through. -/
  evaluations : Nat := 0
  deriving DecidableEq, Inhabited

/-- The operands of a query, and what was found out about their order. -/
structure Optimizer where
  /-- The operands. -/
  operands : List Operand
  /-- The condition of the query. -/
  condition? : Option Condition
  /-- The settings. -/
  config : Config
  /-- The plan committed. -/
  plan? : Option Plan := none
  /-- The outermost operand of the plan committed. -/
  top? : Option Nat := none
  /-- What the last run did. -/
  stats : Stats := {}

/-- The result of a run, and what the run leaves behind. -/
structure Outcome (σ : Type) where
  /-- The outermost operand, or the reason why there is none. -/
  result : Except SearchError Nat
  /-- The optimizer after the run. -/
  optimizer : Optimizer
  /-- What the search did, in order. -/
  history : List Entry
  /-- The state of the oracles. -/
  world : σ

namespace Optimizer

variable {σ : Type}

/-! ## Results -/

/-- The cost of the plan committed. -/
def cost? (o : Optimizer) : Option Cost := o.plan?.bind Plan.cost?

/-- The text of the chain committed. -/
def explain (o : Optimizer) : Except SearchError String :=
  match o.top? with
  | some top => Chain.text o.operands top
  | none => .error .notOptimized

/-! ## Commitment -/

/-- The operands with a link from each operand of an order to the next. -/
def link (operands : List Operand) (order : List Nat) : List Operand :=
  (order.zip order.tail).foldl
    (fun operands (outer, inner) =>
      operands.modify outer fun o => { o with inner? := some inner })
    operands

/-- The operands with the access of each position of an order. -/
def assign (operands : List Operand) (order : List Nat) (access : List Access) : List Operand :=
  (order.zip access).foldl
    (fun operands (id, choice) => operands.modify id fun o => { o with access? := some choice })
    operands

/-- The operands with a plan committed to them. A plan that was not scored has no access choices. -/
def commit (operands : List Operand) (plan : Plan) : List Operand :=
  assign (link operands plan.order) plan.order plan.access

/-- An optimizer with nothing committed and nothing found out. -/
def reset (o : Optimizer) : Optimizer :=
  { o with
    operands := o.operands.map Operand.reset
    plan? := none
    top? := none
    stats := {} }

/-- An optimizer with a plan committed, if the plan has an outermost operand. -/
def settle (o : Optimizer) (plan : Plan) : Except SearchError Nat × Optimizer :=
  match plan.order with
  | [] => (.error .noOperands, o)
  | top :: _ =>
    (.ok top,
      { o with operands := commit o.operands plan, plan? := some plan, top? := some top })

/-! ## Search -/

/-- The strategies for a number of operands. -/
def strategies (ρ : Type) [RandomSource ρ] (config : Config) (n : Nat) : List (Strategy ρ) :=
  if n = 1 then [.trivial]
  else if n ≤ config.maxSmallJoin then
    match config.smallJoinStrategy with
    | .graphGreedy => [.graphGreedy]
    | .exhaustive => [.exhaustive]
  else [.bruteForce none, .genetic (Genetic.ofSeed config.seed)]

/-- Run strategies one after the other, up to one that fails. Beside the result are the strategies
completed. -/
def runAll {ρ : Type} [RandomSource ρ] (p : Problem σ) :
    List (Strategy ρ) → StateM (Session σ) (Except SearchError Unit × List StrategyId)
  | [] => return (.ok (), [])
  | strategy :: rest => do
    match ← strategy.search p with
    | (.error e, _) => return (.error e, [])
    | (.ok (), _) =>
      let (result, completed) ← runAll p rest
      return (result, strategy.id :: completed)

/-- What a search over the operands is given. -/
def problem (o : Optimizer) (oracles : Oracles σ) (isSelect : Bool) : Problem σ :=
  { operands := o.operands, condition? := o.condition?, config := o.config, isSelect, oracles }

/-- Search for the cheapest plan, and commit it. -/
def searchAndCommit (ρ : Type) [RandomSource ρ] (oracles : Oracles σ) (isSelect : Bool)
    (o : Optimizer) (world : σ) : Outcome σ :=
  let p := o.problem oracles isSelect
  let ((result, completed), session) :=
    (runAll p (strategies ρ o.config p.size)).run { world }
  match result with
  | .error e =>
    { result := .error e
      optimizer := { o with stats := { strategies := completed } }
      history := session.history
      world := session.world }
  | .ok () =>
    let o := { o with stats := { strategies := completed, evaluations := session.evaluations } }
    match session.best? with
    | none =>
      { result := .error (.noPlan p.size)
        optimizer := o
        history := session.history
        world := session.world }
    | some plan =>
      let (access, world) :=
        (oracles.costModel.removeUnusable (p.view plan.order) plan.access).run session.world
      let (result, o) := o.settle { plan with access }
      { result, optimizer := o, history := session.history, world }

/-- Order the operands with random words from a source `ρ`: commit the cheapest plan found, or the
order of the query if it is only to be checked. -/
def optimizeWith (ρ : Type) [RandomSource ρ] (oracles : Oracles σ) (parseOnly isSelect : Bool)
    (o : Optimizer) (world : σ) : Outcome σ :=
  if o.operands.isEmpty then
    { result := .error .noOperands, optimizer := o, history := [], world }
  else
    let o := o.reset
    if parseOnly then
      let (result, o) := o.settle (Plan.unscored (List.range o.operands.length))
      { result, optimizer := o, history := [], world }
    else searchAndCommit ρ oracles isSelect o world

/-- Order the operands. -/
def optimize (oracles : Oracles σ) (parseOnly isSelect : Bool) (o : Optimizer) (world : σ) :
    Outcome σ :=
  optimizeWith ChaCha oracles parseOnly isSelect o world

end Optimizer

end JoinOrder
