import TreePass.Action
import TreePass.CommandLine.Request
import TreePass.CommandLine.Run
import TreePass.CommandLine.Word
import TreePass.Console.Log
import TreePass.Console.Markup
import TreePass.Console.Table
import TreePass.Console.Tree
import TreePass.Draft
import TreePass.Draft.Capture
import TreePass.Fault
import TreePass.Files
import TreePass.Function
import TreePass.Handler.Config
import TreePass.Handler.Context
import TreePass.Handler.Slot
import TreePass.Identity
import TreePass.Main
import TreePass.Merge
import TreePass.Node
import TreePass.Node.Build
import TreePass.Node.Printer
import TreePass.Number.Binary64
import TreePass.Number.Numeral
import TreePass.Number.Shortest
import TreePass.Outline
import TreePass.Pass
import TreePass.Scope
import TreePass.Scoping.Analysis
import TreePass.Scoping.Policy
import TreePass.Script.Eval
import TreePass.Script.Syntax
import TreePass.Settings.KeyValue
import TreePass.Settings.Load
import TreePass.Settings.Validation
import TreePass.Source.FreeNames
import TreePass.Source.Function
import TreePass.Source.Grammar.Basic
import TreePass.Source.Grammar.Expression
import TreePass.Source.Grammar.Pattern
import TreePass.Source.Grammar.Statement
import TreePass.Source.Lexer
import TreePass.Source.Literal
import TreePass.Source.Reading
import TreePass.Source.Syntax
import TreePass.Source.Token
import TreePass.Store
import TreePass.Subject
import TreePass.Text.Blank
import TreePass.Text.Digit
import TreePass.Text.Identifier
import TreePass.Text.Margin
import TreePass.Text.Printable
import TreePass.Text.Quoted
import TreePass.Text.Ranges
import TreePass.Text.Utf8
import TreePass.Text.Width
import TreePass.Toml.Document
import TreePass.Toml.Parser
import TreePass.Traversal
import TreePass.Value
import TreePass.Value.Equality
import TreePass.Value.Printer
import TreePass.Proofs.Copying
import TreePass.Proofs.Positions
import TreePass.Proofs.Refilling
import TreePass.Proofs.Running
import TreePass.Proofs.Scoping.Annotation
import TreePass.Proofs.Scoping.Collection
import TreePass.Proofs.Scoping.Lexical
import TreePass.Proofs.Scoping.Reach
import TreePass.Proofs.Scoping.Stamping
import TreePass.Proofs.Scoping.Standing
import TreePass.Proofs.Visiting
import TreePass.Proofs.Source.Binding
import TreePass.Proofs.Source.Closures
import TreePass.Proofs.Source.Locals
import TreePass.Proofs.Dispatch.Configuration
import TreePass.Proofs.Dispatch.Resolution
import TreePass.Proofs.Dispatch.Calm
import TreePass.Proofs.Dispatch.Exactness
import TreePass.Proofs.Effects
import TreePass.Proofs.Transforming.Freshness
import TreePass.Proofs.Transforming.Isolation
import TreePass.Proofs.Scoping.Structure
import TreePass.Proofs.Analysing.Merging
import TreePass.Proofs.Analysing.Leaves
import TreePass.Proofs.Analysing.Collecting
import TreePass.Proofs.Ordering.Recording
import TreePass.Proofs.Ordering.Sequence
import TreePass.Proofs.Ordering.Runs
import TreePass.Proofs.Printing.Forms
import TreePass.Proofs.Printing.Scanning
import TreePass.Proofs.Printing.Operands
import TreePass.Proofs.Printing.Operations
import TreePass.Proofs.Printing.Calls
import TreePass.Proofs.Printing.Rereading
import TreePass.Proofs.Printing.RoundTrip
import TreePass.Proofs.Printing.Legible
import TreePass.Proofs.Printing.Settling
import TreePass.Proofs.Printing.Decoding
import TreePass.Proofs.Printing.Recovering
import TreePass.Proofs.Printing.Unambiguity
import TreePass.Proofs.Transforming.Repetition
import TreePass.Proofs.Transforming.Reproduction
import TreePass.Proofs.Source.Mentions
import TreePass.Proofs.Dispatch.Likeness
import TreePass.Proofs.Dispatch.Neutrality
import TreePass.Proofs.Turns.Visits
import TreePass.Proofs.Turns.Order
import TreePass.Proofs.Turns.Routines
import TreePass.Proofs.Turns.Handing
import TreePass.Proofs.Turns.Faults
import TreePass.Proofs.Turns.Skipping
import TreePass.Proofs.Turns.Capability
import TreePass.Proofs.Turns.Threading
import TreePass.Proofs.Turns.Purity
import TreePass.Proofs.Turns.Replacing
import TreePass.Proofs.Turns.Independence
import TreePass.Proofs.Transforming.Substitution
import TreePass.Proofs.Dispatch.History
import TreePass.Proofs.Scoping.Boundaries
import TreePass.Proofs.Scoping.Widening
import TreePass.Proofs.Outlining.Marks
import TreePass.Proofs.Turns.Places
import TreePass.Proofs.Turns.Shadowing
import TreePass.Proofs.Source.Spelling
import TreePass.Proofs.Source.Parsing
import TreePass.Proofs.Source.Sentences
import TreePass.Proofs.Source.Naming
import TreePass.Proofs.Printing.Lines
import TreePass.Proofs.Printing.Spilling
import TreePass.Proofs.Tables
import TreePass.Proofs.Settings.Loading
import TreePass.Proofs.Settings.Precedence
import TreePass.Proofs.Noting
import TreePass.Proofs.Scoping.Notes
import TreePass.Proofs.Console.Printing
import TreePass.Proofs.Console.Names
import TreePass.Proofs.Outlining.Labels
import TreePass.Proofs.CommandLine.Reporting
import TreePass.Proofs.CommandLine.Outcomes
import TreePass.Proofs.Analysing.Remerging
import TreePass.Proofs.Comparing
import TreePass.Proofs.Rebuilding
import TreePass.Proofs.Turns.Reports
