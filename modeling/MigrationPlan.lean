import MigrationPlan.Codec.Binary
import MigrationPlan.Codec.Given
import MigrationPlan.Codec.Quantize
import MigrationPlan.Command.Arguments
import MigrationPlan.Command.Evaluate
import MigrationPlan.Command.Files
import MigrationPlan.Command.Front
import MigrationPlan.Datum.Basic
import MigrationPlan.Datum.Reading
import MigrationPlan.Evaluation.Assessment
import MigrationPlan.Evaluation.Constraint
import MigrationPlan.Evaluation.Encoding
import MigrationPlan.Evaluation.Evaluator
import MigrationPlan.Evaluation.Front
import MigrationPlan.Evaluation.Population
import MigrationPlan.Evaluation.Solution
import MigrationPlan.Evaluation.Sum
import MigrationPlan.Fault
import MigrationPlan.Main
import MigrationPlan.Markup.Block
import MigrationPlan.Markup.Content
import MigrationPlan.Markup.Cursor
import MigrationPlan.Markup.Document
import MigrationPlan.Markup.Fault
import MigrationPlan.Markup.Graph
import MigrationPlan.Markup.Name
import MigrationPlan.Markup.Scalar
import MigrationPlan.Markup.Spelling
import MigrationPlan.Markup.Stream
import MigrationPlan.Markup.Tag
import MigrationPlan.Markup.Token
import MigrationPlan.Markup.Word
import MigrationPlan.Nested
import MigrationPlan.Numeric.Binary64
import MigrationPlan.Numeric.Conversion
import MigrationPlan.Numeric.Decimal
import MigrationPlan.Numeric.Number
import MigrationPlan.Numeric.Rounding
import MigrationPlan.Ordered
import MigrationPlan.Problem.Basic
import MigrationPlan.Problem.Sample
import MigrationPlan.Problem.Text
import MigrationPlan.Proofs.Accepted
import MigrationPlan.Proofs.Codec.Binary
import MigrationPlan.Proofs.Codec.Quantize
import MigrationPlan.Proofs.Datum.Reading
import MigrationPlan.Proofs.Evaluation.Encodings
import MigrationPlan.Proofs.Evaluation.Exactness
import MigrationPlan.Proofs.Evaluation.Feasibility
import MigrationPlan.Proofs.Evaluation.Selection
import MigrationPlan.Proofs.Evaluation.Solution
import MigrationPlan.Proofs.Evaluation.Sum
import MigrationPlan.Proofs.Nested
import MigrationPlan.Proofs.Numeric.Binary64
import MigrationPlan.Proofs.Numeric.Clamp
import MigrationPlan.Proofs.Numeric.Enclosure
import MigrationPlan.Proofs.Numeric.Grid
import MigrationPlan.Proofs.Numeric.Rounding
import MigrationPlan.Proofs.Numeric.Whole
import MigrationPlan.Proofs.Ordered
import MigrationPlan.Proofs.Problem.Grammar
import MigrationPlan.Proofs.Problem.Reading
import MigrationPlan.Proofs.Problem.RoundTrip
import MigrationPlan.Proofs.Text.Characters
import MigrationPlan.Proofs.Text.Lines
import MigrationPlan.Proofs.Text.Pattern
import MigrationPlan.Proofs.Variable.Access
import MigrationPlan.Proofs.Variable.Creation
import MigrationPlan.Proofs.Variable.Invariant
import MigrationPlan.Proofs.Variable.Real
import MigrationPlan.Proofs.Variable.Session
import MigrationPlan.Proofs.Variable.Write
import MigrationPlan.Report
import MigrationPlan.Settings.Basic
import MigrationPlan.Settings.Check
import MigrationPlan.Settings.Fault
import MigrationPlan.Settings.Text
import MigrationPlan.Text.Base64
import MigrationPlan.Text.Characters
import MigrationPlan.Text.IntegerLiteral
import MigrationPlan.Text.Lines
import MigrationPlan.Text.Path
import MigrationPlan.Text.Pattern
import MigrationPlan.Text.Quoted
import MigrationPlan.Text.RealLiteral
import MigrationPlan.Text.Split
import MigrationPlan.Text.Visible
import MigrationPlan.Variable.Access
import MigrationPlan.Variable.Basic
import MigrationPlan.Variable.Batch
import MigrationPlan.Variable.Kind
import MigrationPlan.Variable.Session
import MigrationPlan.Proofs.Variable.Batch
import MigrationPlan.Proofs.Evaluation.Population
import MigrationPlan.Proofs.Problem.Labels
import MigrationPlan.Proofs.Problem.Sources
import MigrationPlan.Proofs.Numeric.Nearest
import MigrationPlan.Proofs.Evaluation.Range
import MigrationPlan.Proofs.Problem.Positions
import MigrationPlan.Proofs.Problem.Faults
import MigrationPlan.Proofs.Problem.Answers
import MigrationPlan.Proofs.Evaluation.Domination
import MigrationPlan.Proofs.Evaluation.Rows
import MigrationPlan.Proofs.Command.Front
import MigrationPlan.Proofs.Codec.Natural
import MigrationPlan.Proofs.Codec.Gray
import MigrationPlan.Proofs.Evaluation.Calls
import MigrationPlan.Proofs.Command.Arguments
import MigrationPlan.Proofs.Command.Evaluate
import MigrationPlan.Proofs.Codec.Adjacency
import MigrationPlan.Proofs.Numeric.Spacing
import MigrationPlan.Proofs.Numeric.Signed
import MigrationPlan.Proofs.Codec.Steps
import MigrationPlan.Proofs.Codec.Real
import MigrationPlan.Proofs.Codec.Bounds
import MigrationPlan.Proofs.Codec.Monotone
import MigrationPlan.Proofs.Codec.Error
import MigrationPlan.Proofs.Codec.Recoding
import MigrationPlan.Proofs.Variable.Recoding
import MigrationPlan.Proofs.Variable.Integer
import MigrationPlan.Proofs.Problem.Layout
import MigrationPlan.Proofs.Numeric.Order
import MigrationPlan.Proofs.Evaluation.Monotone
import MigrationPlan.Proofs.Evaluation.Verdicts
import MigrationPlan.Proofs.Evaluation.Locality
import MigrationPlan.Proofs.Problem.Creation
import MigrationPlan.Proofs.Text.Split
import MigrationPlan.Proofs.Text.IntegerLiteral
import MigrationPlan.Proofs.Markup.Document
import MigrationPlan.Proofs.Settings.Check
import MigrationPlan.Proofs.Settings.Merge
import MigrationPlan.Proofs.Settings.Validator
import MigrationPlan.Proofs.Command.Files
import MigrationPlan.Proofs.Command.Selection
