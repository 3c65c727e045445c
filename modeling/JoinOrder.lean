import JoinOrder.Condition
import JoinOrder.JoinGraph
import JoinOrder.Operand
import JoinOrder.RowCounts
import JoinOrder.Saturating
import JoinOrder.Arrangement
import JoinOrder.Decimal.Reader
import JoinOrder.Decimal.Shortest
import JoinOrder.Cost
import JoinOrder.Random.Draw
import JoinOrder.Random.ChaCha
import JoinOrder.Tabu
import JoinOrder.Budget
import JoinOrder.Config
import JoinOrder.Error
import JoinOrder.CostModel
import JoinOrder.CostModel.NestedLoop
import JoinOrder.Plan
import JoinOrder.Plan.Table
import JoinOrder.Chain
import JoinOrder.Text.Width
import JoinOrder.Text.Grid
import JoinOrder.Search.Journal
import JoinOrder.Search.Session
import JoinOrder.Search.GraphGreedy
import JoinOrder.Search.Sweep
import JoinOrder.Search.Genetic
import JoinOrder.Search.Strategy
import JoinOrder.Optimizer
import JoinOrder.Sql.Name
import JoinOrder.Sql.Value
import JoinOrder.Sql.Expr
import JoinOrder.Sql.Condition
import JoinOrder.Proofs.Arrangement
import JoinOrder.Proofs.Random
import JoinOrder.Proofs.Lexicographic
import JoinOrder.Proofs.Turning
import JoinOrder.Proofs.Enumeration
import JoinOrder.Proofs.CostOrder
import JoinOrder.Proofs.Rounding
import JoinOrder.Proofs.RowCounts
import JoinOrder.Proofs.JoinGraph
import JoinOrder.Proofs.NumberedGraph
import JoinOrder.Proofs.Comparisons
import JoinOrder.Proofs.Traversal
import JoinOrder.Proofs.Conjunction
import JoinOrder.Proofs.Components
import JoinOrder.Proofs.UnusableAccess
import JoinOrder.Proofs.NestedLoop
import JoinOrder.Proofs.CrossJoins
import JoinOrder.Proofs.GreedyOrder
import JoinOrder.Proofs.Rearrangement
import JoinOrder.Proofs.Sql.Condition
import JoinOrder.Proofs.Search.Moves
import JoinOrder.Proofs.Search.Scorings
import JoinOrder.Proofs.Search.Entries
import JoinOrder.Proofs.Search.Calls
import JoinOrder.Proofs.Search.Iteration
import JoinOrder.Proofs.Search.Sweep
import JoinOrder.Proofs.Search.GraphGreedy
import JoinOrder.Proofs.Search.Genetic
import JoinOrder.Proofs.Search.Strategy
import JoinOrder.Proofs.Search.Stopping
import JoinOrder.Proofs.Search.Best
import JoinOrder.Proofs.Search.Events
import JoinOrder.Proofs.Search.Adoption
import JoinOrder.Proofs.Search.Rounds
import JoinOrder.Proofs.Search.Costed
import JoinOrder.Proofs.Search.Lockstep
import JoinOrder.Proofs.Checked.Step
import JoinOrder.Proofs.Checked.Sweep
import JoinOrder.Proofs.Checked.Genetic
import JoinOrder.Proofs.Checked.Strategy
import JoinOrder.Proofs.Commit
import JoinOrder.Proofs.Optimize
import JoinOrder.Proofs.CommittedAccess
import JoinOrder.Proofs.Statistics
import JoinOrder.Proofs.Answered
import JoinOrder.Proofs.NestedLoopCosts
import JoinOrder.Proofs.Explain
import JoinOrder.Proofs.PermutationCheck
import JoinOrder.Proofs.TwoRuns
import JoinOrder.Proofs.Rerun
import JoinOrder.Proofs.Exhaustive
import JoinOrder.Proofs.BruteForce.FullHeads
import JoinOrder.Proofs.BruteForce.Completion
import JoinOrder.Proofs.BruteForce.Greedy
import JoinOrder.Proofs.BruteForce.LongerHeads
import JoinOrder.Proofs.BruteForce.HeadLength
import JoinOrder.Proofs.WordCount
import JoinOrder.Proofs.BruteForce.Workload
import JoinOrder.Proofs.CutShort
import JoinOrder.Proofs.RowMemo
import JoinOrder.Proofs.Memoized
