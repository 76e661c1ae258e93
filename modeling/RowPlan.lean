import RowPlan.Double
import RowPlan.Double.Rounding
import RowPlan.Double.Shortest
import RowPlan.Double.Text
import RowPlan.SqlType
import RowPlan.BuiltIn
import RowPlan.Operator
import RowPlan.Symbol
import RowPlan.Flag
import RowPlan.Literal
import RowPlan.Expr
import RowPlan.Node
import RowPlan.Node.Tree
import RowPlan.Json
import RowPlan.Json.Literal
import RowPlan.Expr.Json
import RowPlan.Node.Json
import RowPlan.Arity
import RowPlan.Lowering.Error
import RowPlan.Lowering.Request
import RowPlan.Lowering.Recipe
import RowPlan.Lowering.JsonFunctions
import RowPlan.Lowering.Rule
import RowPlan.Lowering.Attempt
import RowPlan.Lowering
import RowPlan.Config
import RowPlan.Toml.Scan
import RowPlan.Toml.Text
import RowPlan.Toml.Number
import RowPlan.Toml.Moment
import RowPlan.Toml.Value
import RowPlan.Toml.Document
import RowPlan.Config.Toml
import RowPlan.Proofs.Lists
import RowPlan.Proofs.Spans
import RowPlan.Proofs.Numerals
import RowPlan.Proofs.RoundingInterval
import RowPlan.Proofs.DoubleText
import RowPlan.Proofs.Trees
import RowPlan.Proofs.Recipes
import RowPlan.Proofs.Dispatch
import RowPlan.Proofs.Arguments
import RowPlan.Proofs.Conversions
import RowPlan.Proofs.Translation
import RowPlan.Proofs.Checks
import RowPlan.Proofs.Outcome
import RowPlan.Proofs.Calls
import RowPlan.Proofs.Lowerable
import RowPlan.Proofs.DepthLimit
import RowPlan.Proofs.Producible
import RowPlan.Proofs.Interchangeable
import RowPlan.Proofs.Sources
import RowPlan.Proofs.Outline
import RowPlan.Proofs.Leaves
import RowPlan.Proofs.Digest
import RowPlan.Proofs.TreePrint
import RowPlan.Proofs.Courses
import RowPlan.Proofs.Postorder
import RowPlan.Proofs.FailurePath
import RowPlan.Proofs.JsonForms
import RowPlan.Proofs.ExprJson
import RowPlan.Proofs.NodeJson
import RowPlan.Proofs.Reached
import RowPlan.Proofs.FirstClaim
import RowPlan.Proofs.AppendedRules
import RowPlan.Proofs.Rebuild
import RowPlan.Proofs.Substitution
import RowPlan.Proofs.FlagKinds
import RowPlan.Proofs.Walk
import RowPlan.Proofs.Termination
import RowPlan.Proofs.StageRuns
import RowPlan.Proofs.Attempts
import RowPlan.Proofs.AllOrNothing
import RowPlan.Proofs.ValueClauses
import RowPlan.Proofs.FailingOperand
import RowPlan.Proofs.OneToOne
import RowPlan.Proofs.Surroundings
import RowPlan.Proofs.TreeLines
import RowPlan.Proofs.FieldEdits
import RowPlan.Proofs.SameValues
import RowPlan.Proofs.SelfEquality
import RowPlan.Proofs.ArgumentRange
import RowPlan.Proofs.DepthCounter
