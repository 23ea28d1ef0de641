import WordRanges.Analysis.Annotate
import WordRanges.Analysis.Comparison
import WordRanges.Analysis.Diagnostic
import WordRanges.Analysis.Expr
import WordRanges.Analysis.Integers
import WordRanges.Analysis.Operand
import WordRanges.Analysis.Package
import WordRanges.Command.Flags
import WordRanges.Command.Name
import WordRanges.Command.Run
import WordRanges.Command.Version
import WordRanges.Config.FileTree
import WordRanges.Config.Path
import WordRanges.Config.Settings
import WordRanges.Config.Toml.Number
import WordRanges.Config.Toml.Reader
import WordRanges.Config.Toml.Table
import WordRanges.Domain.Bounds
import WordRanges.Domain.Constraint
import WordRanges.Domain.KnownBits
import WordRanges.Domain.Policy
import WordRanges.Domain.Tighten
import WordRanges.Domain.Value
import WordRanges.Domain.Word
import WordRanges.Flow.Diagram
import WordRanges.Flow.Draft
import WordRanges.Flow.Framework
import WordRanges.Flow.Graph
import WordRanges.Flow.Ranges
import WordRanges.Flow.Slice
import WordRanges.Flow.Solver
import WordRanges.Flow.States
import WordRanges.Flow.Worklist
import WordRanges.Main
import WordRanges.Notation.Pattern
import WordRanges.Notation.Value
import WordRanges.Proofs.Analysis.Combinations
import WordRanges.Proofs.Analysis.Constants
import WordRanges.Proofs.Analysis.Deciding
import WordRanges.Proofs.Analysis.Evaluation
import WordRanges.Proofs.Analysis.Exactness
import WordRanges.Proofs.Analysis.Findings
import WordRanges.Proofs.Analysis.Instances
import WordRanges.Proofs.Analysis.Integers
import WordRanges.Proofs.Command.Membership
import WordRanges.Proofs.Command.Repeating
import WordRanges.Proofs.Command.Sessions
import WordRanges.Proofs.Config.Budget
import WordRanges.Proofs.Config.Integers
import WordRanges.Proofs.Config.Precedence
import WordRanges.Proofs.Config.Search
import WordRanges.Proofs.Config.Slack
import WordRanges.Proofs.Domain.Canonical
import WordRanges.Proofs.Domain.Combining
import WordRanges.Proofs.Domain.Comparing
import WordRanges.Proofs.Domain.Converging
import WordRanges.Proofs.Domain.Counting
import WordRanges.Proofs.Domain.Defects
import WordRanges.Proofs.Domain.Extremal
import WordRanges.Proofs.Domain.Narrowing
import WordRanges.Proofs.Domain.Nearest
import WordRanges.Proofs.Domain.Neighbours
import WordRanges.Proofs.Domain.Operations
import WordRanges.Proofs.Domain.Relaxing
import WordRanges.Proofs.Domain.Rounds
import WordRanges.Proofs.Domain.Runs
import WordRanges.Proofs.Domain.Settling
import WordRanges.Proofs.Domain.SharedBits
import WordRanges.Proofs.Domain.Spans
import WordRanges.Proofs.Domain.Widening
import WordRanges.Proofs.Domain.WordBits
import WordRanges.Proofs.Domain.WordOrder
import WordRanges.Proofs.Flow.Bookkeeping
import WordRanges.Proofs.Flow.Building
import WordRanges.Proofs.Flow.Ending
import WordRanges.Proofs.Flow.Endless
import WordRanges.Proofs.Flow.Equations
import WordRanges.Proofs.Flow.Faults
import WordRanges.Proofs.Flow.Improving
import WordRanges.Proofs.Flow.LoopFree
import WordRanges.Proofs.Flow.Monotone
import WordRanges.Proofs.Flow.Queueing
import WordRanges.Proofs.Flow.Soundness
import WordRanges.Proofs.Flow.Stepping
import WordRanges.Proofs.Notation.Acceptance
import WordRanges.Proofs.Notation.Encoding
import WordRanges.Proofs.Notation.Grammar
import WordRanges.Proofs.Notation.Patterns
import WordRanges.Proofs.Notation.Readable
import WordRanges.Proofs.Notation.RoundTrip
import WordRanges.Proofs.Text.Numerals
import WordRanges.Source.BasicType
import WordRanges.Source.BuildCondition
import WordRanges.Source.Comment
import WordRanges.Source.Comparable
import WordRanges.Source.Constant
import WordRanges.Source.Constant.Arithmetic
import WordRanges.Source.Constant.Number
import WordRanges.Source.Constant.Rounded
import WordRanges.Source.Directive
import WordRanges.Source.ExpText
import WordRanges.Source.Identity
import WordRanges.Source.Layout.Columns
import WordRanges.Source.Layout.Exp
import WordRanges.Source.Layout.Operators
import WordRanges.Source.Layout.Sheet
import WordRanges.Source.Layout.Stm
import WordRanges.Source.Lexer
import WordRanges.Source.Literal
import WordRanges.Source.Node
import WordRanges.Source.Parser.Basic
import WordRanges.Source.Parser.Decl
import WordRanges.Source.Parser.Exp
import WordRanges.Source.Parser.Type
import WordRanges.Source.Position
import WordRanges.Source.Token
import WordRanges.Source.Tree
import WordRanges.Source.TypeSet
import WordRanges.Source.Types
import WordRanges.Text.Capital
import WordRanges.Text.CleanPath
import WordRanges.Text.Letter
import WordRanges.Text.Numeral
import WordRanges.Text.Printable
import WordRanges.Text.Quoted
import WordRanges.Text.Split
import WordRanges.Typing.Access
import WordRanges.Typing.Assignment
import WordRanges.Typing.BuiltinCall
import WordRanges.Typing.Call
import WordRanges.Typing.Composite
import WordRanges.Typing.Control
import WordRanges.Typing.Conversion
import WordRanges.Typing.Declaration
import WordRanges.Typing.Exp
import WordRanges.Typing.Inference
import WordRanges.Typing.Instances
import WordRanges.Typing.Judgment
import WordRanges.Typing.Member
import WordRanges.Typing.Operator
import WordRanges.Typing.Package
import WordRanges.Typing.Property
import WordRanges.Typing.State
import WordRanges.Typing.Statement
import WordRanges.Typing.TypeExp
import WordRanges.Proofs.Flow.Sharing
