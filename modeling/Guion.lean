import Guion.Binary64.Arithmetic
import Guion.Binary64.Basic
import Guion.Binary64.Hypot
import Guion.Calendar.Date
import Guion.Calendar.Duration
import Guion.Calendar.Time
import Guion.Catalog
import Guion.CommandLine
import Guion.Complex
import Guion.Config
import Guion.Decimal.Digits
import Guion.Decimal.Fixed
import Guion.Decimal.Reader
import Guion.Decimal.Shortest
import Guion.Entries
import Guion.Error.Conversion
import Guion.Error.Parse
import Guion.Error.Runtime
import Guion.Json.Basic
import Guion.Json.Reader
import Guion.Kind
import Guion.Library.Collections
import Guion.Library.Math
import Guion.Library.Table
import Guion.Main
import Guion.Number.Text
import Guion.Operator.Access
import Guion.Operator.Arithmetic
import Guion.Operator.Comparison
import Guion.Operator.Numeric
import Guion.Parse.Declaration
import Guion.Parse.Expression
import Guion.Parse.Line
import Guion.Parse.Program
import Guion.Parse.Run
import Guion.Registry
import Guion.Run.Block
import Guion.Run.Call
import Guion.Run.Evaluator
import Guion.Run.Expression
import Guion.Run.Files
import Guion.Run.Loop
import Guion.Run.Path
import Guion.Run.Program
import Guion.Run.Session
import Guion.Run.State
import Guion.Run.Statement
import Guion.Syntax.Expr
import Guion.Syntax.Statement
import Guion.Text.Blank
import Guion.Text.Case
import Guion.Text.CaseTable
import Guion.Text.Pieces
import Guion.Text.Quoted
import Guion.Token.Basic
import Guion.Token.Layout
import Guion.Token.Scan
import Guion.Value.Basic
import Guion.Value.Coerce
import Guion.Value.Convert
import Guion.Value.FromText
import Guion.Value.Json
import Guion.Value.Literal
import Guion.Proofs.Layout.Rows
import Guion.Proofs.Parse.Reads
import Guion.Proofs.Parse.Depths
import Guion.Proofs.Layout.Sources
import Guion.Proofs.Parse.Composition
import Guion.Proofs.Syntax.Erase
import Guion.Proofs.Parse.Elsewhere
import Guion.Proofs.Parse.LinesElsewhere
import Guion.Proofs.Parse.Forest
import Guion.Proofs.Parse.Grammar
import Guion.Proofs.Parse.GrammarSound
import Guion.Proofs.Parse.GrammarComplete
import Guion.Proofs.Parse.Printer
import Guion.Proofs.Run.Relations
import Guion.Proofs.Run.Rules
import Guion.Proofs.Run.Invariants
import Guion.Proofs.Run.Writes
import Guion.Proofs.Run.Stack
import Guion.Proofs.Run.Loops
import Guion.Proofs.Run.Flows
import Guion.Proofs.Run.Returns
import Guion.Proofs.Entries
import Guion.Proofs.Run.Mirror
import Guion.Proofs.Run.Tether
import Guion.Proofs.Run.Coherence
import Guion.Proofs.Literal.Closed
import Guion.Proofs.Literal.Written
import Guion.Proofs.Literal.Scanned
import Guion.Proofs.Literal.Agreement
import Guion.Proofs.Run.WriteOnce
import Guion.Proofs.Run.Bindings
import Guion.Proofs.Run.Recast
import Guion.Proofs.Run.SubPrograms
import Guion.Proofs.Syntax.WithoutErrors
import Guion.Proofs.Run.Tolerance
import Guion.Proofs.Layout.Balance
import Guion.Proofs.Parse.Spelled
import Guion.Proofs.Binary64.Rounding
import Guion.Proofs.Binary64.Finite
import Guion.Proofs.Value.Standard
import Guion.Proofs.Operator.Standard
import Guion.Proofs.Run.Standard
import Guion.Proofs.Run.Guarded
import Guion.Proofs.Run.Upheld
import Guion.Proofs.Run.Observed
import Guion.Proofs.Run.Maps
import Guion.Proofs.Run.Matrices
import Guion.Proofs.Text.Weight
import Guion.Proofs.Run.Texts
import Guion.Proofs.Run.Numbers
import Guion.Proofs.Parse.Accounting
import Guion.Proofs.Parse.ErrorOrder
import Guion.Proofs.Run.Assignment
import Guion.Proofs.Run.Iterators
import Guion.Proofs.Operator.Slots
import Guion.Proofs.Run.Kinds
import Guion.Proofs.Run.Updates
import Guion.Proofs.Binary64.Integers
import Guion.Proofs.Run.Ranges
import Guion.Proofs.Binary64.Order
import Guion.Proofs.Operator.Order
import Guion.Proofs.Operator.Integers
import Guion.Proofs.Library.Progression
import Guion.Proofs.Library.Sorting
import Guion.Proofs.Decimal.Runs
import Guion.Proofs.Calendar.Spans
import Guion.Proofs.Calendar.Dates
import Guion.Proofs.Value.Documents
import Guion.Proofs.Literal.Numerals
import Guion.Proofs.Literal.Displayed
import Guion.Proofs.Run.Stores
import Guion.Proofs.Run.Methods
import Guion.Proofs.Run.Deletion
import Guion.Proofs.Run.Declarations
import Guion.Proofs.Parse.Arguments
import Guion.Proofs.Parse.ShortForm
import Guion.Proofs.Layout.Coverage
import Guion.Proofs.Run.Snapshots
import Guion.Proofs.Literal.Readers
import Guion.Proofs.Text.Pieces
