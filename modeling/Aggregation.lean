import Aggregation.Command.Failure
import Aggregation.Command.Job
import Aggregation.Command.Line
import Aggregation.Command.Run
import Aggregation.Compile.Expression
import Aggregation.Compile.Fault
import Aggregation.Compile.Pipeline
import Aggregation.Compile.Rule
import Aggregation.Compile.Scope
import Aggregation.Compile.Stage
import Aggregation.Main
import Aggregation.Number.Binary64
import Aggregation.Number.Decimal
import Aggregation.Program.Builder
import Aggregation.Program.Entry
import Aggregation.Proofs.Decode
import Aggregation.Proofs.Decompile
import Aggregation.Proofs.Erasure
import Aggregation.Proofs.Likeness
import Aggregation.Proofs.Nodes
import Aggregation.Proofs.Normal
import Aggregation.Proofs.Records
import Aggregation.Proofs.References
import Aggregation.Proofs.Rendering
import Aggregation.Proofs.Translation
import Aggregation.Proofs.WellFormed
import Aggregation.Query.Document
import Aggregation.Query.Value
import Aggregation.Reference.Page
import Aggregation.Reference.Topic
import Aggregation.Result
import Aggregation.Script.Grammar
import Aggregation.Script.Numbering
import Aggregation.Script.Operator
import Aggregation.Script.Parse
import Aggregation.Script.Reading
import Aggregation.Script.Size
import Aggregation.Script.Tree
import Aggregation.Text.Blank
import Aggregation.Text.CodeRanges
import Aggregation.Text.Combining
import Aggregation.Text.Cut
import Aggregation.Text.Letter
import Aggregation.Text.Lines
import Aggregation.Text.Numeral
import Aggregation.Text.Place
import Aggregation.Text.Printable
import Aggregation.Text.Quoted
import Aggregation.Token.Basic
import Aggregation.Token.Gap
import Aggregation.Token.Lexer
import Aggregation.Token.Number
import Aggregation.Token.Quotation
import Aggregation.Typing.Infer
import Aggregation.Typing.Oracle
import Aggregation.Typing.Ty
import Aggregation.Proofs.OnePass
import Aggregation.Proofs.Simulation
import Aggregation.Proofs.Grouping
import Aggregation.Proofs.Annotation
import Aggregation.Proofs.Derivation
import Aggregation.Proofs.Recognition
import Aggregation.Proofs.Relocation
import Aggregation.Proofs.Displacement
import Aggregation.Proofs.Lexing
import Aggregation.Proofs.Excerpt
import Aggregation.Proofs.Sequence
import Aggregation.Proofs.Spelling
import Aggregation.Proofs.Wrapping
import Aggregation.Proofs.Parts
import Aggregation.Proofs.Precedence
import Aggregation.Proofs.Loosening
import Aggregation.Proofs.Truncation
import Aggregation.Proofs.Isolation
import Aggregation.Proofs.Layout
import Aggregation.Proofs.Formatting
import Aggregation.Proofs.Numerals
import Aggregation.Proofs.Wording
import Aggregation.Proofs.Writing
import Aggregation.Proofs.ReadBack
import Aggregation.Proofs.Gating
import Aggregation.Proofs.OperandTypes
import Aggregation.Proofs.Parameters
import Aggregation.Proofs.Counting
import Aggregation.Proofs.Chains
import Aggregation.Proofs.Transparency
import Aggregation.Proofs.Nesting
import Aggregation.Proofs.Locating
import Aggregation.Proofs.Diagnostics
import Aggregation.Proofs.Progress
import Aggregation.Proofs.Gaps
import Aggregation.Proofs.Containment
import Aggregation.Proofs.Separation
import Aggregation.Proofs.Strings
import Aggregation.Proofs.Decimals
import Aggregation.Proofs.Integers
import Aggregation.Proofs.Typesetting
import Aggregation.Proofs.TypeTexts
import Aggregation.Proofs.Fields
import Aggregation.Proofs.Positions
import Aggregation.Proofs.Cursor
import Aggregation.Proofs.Halting
import Aggregation.Proofs.Branching
