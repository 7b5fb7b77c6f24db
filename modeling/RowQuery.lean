import RowQuery.Number.Style
import RowQuery.Text.Letter
import RowQuery.Text.Numeral
import RowQuery.Text.Quoted
import RowQuery.Text.Capital
import RowQuery.Text.Blank
import RowQuery.Value.Basic
import RowQuery.Json.Printer
import RowQuery.Json.Reader
import RowQuery.Value.Text
import RowQuery.Comparison
import RowQuery.Token.Lexer
import RowQuery.Expr.Printer
import RowQuery.Expr.Reading
import RowQuery.Query.Reading
import RowQuery.Value.Operators
import RowQuery.Context
import RowQuery.Evaluation
import RowQuery.Join.Gate
import RowQuery.Engine
import RowQuery.Query.Builder
import RowQuery.Service.Basic
import RowQuery.Main
import RowQuery.Proofs.Expr.Grammar
import RowQuery.Proofs.Expr.Reading
import RowQuery.Proofs.Expr.Recognition
import RowQuery.Proofs.Number.Rounding
import RowQuery.Proofs.Number.Shortest
import RowQuery.Proofs.Number.Layout
import RowQuery.Proofs.Number.Notation
import RowQuery.Proofs.Token.Literals
import RowQuery.Proofs.Expr.RoundTrip
import RowQuery.Proofs.Query.Parts
import RowQuery.Proofs.Query.Agreement
import RowQuery.Proofs.Evaluation.Steady
import RowQuery.Proofs.Join.Accounts
import RowQuery.Proofs.Join.Outcomes
import RowQuery.Proofs.Engine.Concurrency
import RowQuery.Proofs.Query.Grammar
import RowQuery.Proofs.Query.Reading
import RowQuery.Proofs.Query.Recognition
import RowQuery.Proofs.Evaluation.Answers
import RowQuery.Proofs.Evaluation.Elementwise
import RowQuery.Proofs.Join.Failures
import RowQuery.Proofs.Engine.Stages
import RowQuery.Proofs.Evaluation.Coincidence
import RowQuery.Proofs.Engine.Independence
import RowQuery.Proofs.Engine.FirstFailure
import RowQuery.Proofs.Expr.Completion
import RowQuery.Proofs.Query.FirstOffence
import RowQuery.Proofs.Engine.Lockstep
import RowQuery.Proofs.Join.Permits
import RowQuery.Proofs.Evaluation.Lookups
import RowQuery.Proofs.Engine.FreeNames
import RowQuery.Proofs.Engine.Sessions
import RowQuery.Proofs.Evaluation.Lowering
import RowQuery.Proofs.Engine.Merging
import RowQuery.Proofs.Engine.Views
import RowQuery.Proofs.Engine.Siblings
import RowQuery.Proofs.Expr.LiteralText
import RowQuery.Proofs.Join.Guards
import RowQuery.Proofs.Evaluation.Contracts
import RowQuery.Proofs.Evaluation.Paths
import RowQuery.Proofs.Engine.Contracts
import RowQuery.Proofs.Engine.Capabilities
import RowQuery.Proofs.Engine.Replies
import RowQuery.Proofs.Token.Truncation
import RowQuery.Proofs.Token.Spans
import RowQuery.Proofs.Query.Spacing
import RowQuery.Proofs.Query.Spelling
import RowQuery.Proofs.Engine.Scoping
import RowQuery.Proofs.Expr.WrittenLiterals
import RowQuery.Proofs.Expr.Dotted
import RowQuery.Proofs.Query.WellFormed
import RowQuery.Proofs.Value.Comparisons
import RowQuery.Proofs.Number.Order
import RowQuery.Proofs.Value.NumberOrder
import RowQuery.Proofs.Json.Members
import RowQuery.Proofs.Value.Built
import RowQuery.Proofs.Value.Documents
import RowQuery.Proofs.Token.Joined
import RowQuery.Proofs.Expr.Extent
import RowQuery.Proofs.Engine.Projections
import RowQuery.Proofs.Evaluation.Walk
import RowQuery.Proofs.Engine.Pool
