import Kiln.CommandLine.FileTree
import Kiln.CommandLine.Options
import Kiln.CommandLine.Shell
import Kiln.Eval.Basic
import Kiln.Eval.Error
import Kiln.Eval.Evaluate
import Kiln.Eval.Fuel
import Kiln.Eval.Operators
import Kiln.Interpreter
import Kiln.Located
import Kiln.Main
import Kiln.Number.Decimal
import Kiln.Number.Power
import Kiln.Parser.Basic
import Kiln.Parser.Grammar
import Kiln.Proofs.DeadCode.Pruning
import Kiln.Proofs.DeadCode.Running
import Kiln.Proofs.Evaluation.Operands
import Kiln.Proofs.Evaluation.Parts
import Kiln.Proofs.Evaluation.Placement
import Kiln.Proofs.Evaluation.Returns
import Kiln.Proofs.Evaluation.Safe
import Kiln.Proofs.Evaluation.Soundness
import Kiln.Proofs.Evaluation.Visits
import Kiln.Proofs.Frames.Captures
import Kiln.Proofs.Frames.Declarations
import Kiln.Proofs.Frames.Locals
import Kiln.Proofs.Frames.Runs
import Kiln.Proofs.Grammar.Arrows
import Kiln.Proofs.Grammar.Endings
import Kiln.Proofs.Grammar.LookAhead
import Kiln.Proofs.Grammar.Numbering
import Kiln.Proofs.Grammar.Parsed
import Kiln.Proofs.Grammar.Printing
import Kiln.Proofs.Grammar.Progress
import Kiln.Proofs.Grammar.Reading
import Kiln.Proofs.Grammar.RoundTrip
import Kiln.Proofs.Grammar.Source
import Kiln.Proofs.Grammar.Termination
import Kiln.Proofs.Grammar.TopLevel
import Kiln.Proofs.Grammar.Triples
import Kiln.Proofs.Identity.Ledgers
import Kiln.Proofs.Identity.Runs
import Kiln.Proofs.Identity.Sessions
import Kiln.Proofs.Lexing.Cutting
import Kiln.Proofs.Lexing.Faults
import Kiln.Proofs.Lexing.Joining
import Kiln.Proofs.Lexing.Lexemes
import Kiln.Proofs.Lexing.Vocabulary
import Kiln.Proofs.Lexing.Writing
import Kiln.Proofs.Number.Arithmetic
import Kiln.Proofs.Number.Doubles
import Kiln.Proofs.Number.Numerals
import Kiln.Proofs.Number.Powers
import Kiln.Proofs.Output.Truncation
import Kiln.Proofs.Receivers.Bindings
import Kiln.Proofs.Receivers.Freshness
import Kiln.Proofs.Receivers.Occurrences
import Kiln.Proofs.Receivers.Runs
import Kiln.Proofs.Receivers.Sessions
import Kiln.Proofs.Renaming.Outcomes
import Kiln.Proofs.Renaming.Programs
import Kiln.Proofs.Renaming.Runs
import Kiln.Proofs.Renaming.Scopes
import Kiln.Proofs.Renaming.Scoping
import Kiln.Proofs.Renaming.Stores
import Kiln.Proofs.Renaming.Tree
import Kiln.Proofs.Renumbering.Parsing
import Kiln.Proofs.Renumbering.Running
import Kiln.Proofs.Renumbering.Scoping
import Kiln.Proofs.Renumbering.Sessions
import Kiln.Proofs.Renumbering.Stores
import Kiln.Proofs.Renumbering.Tree
import Kiln.Proofs.Scoping.Acceptance
import Kiln.Proofs.Scoping.Balance
import Kiln.Proofs.Scoping.Discipline
import Kiln.Proofs.Scoping.Regions
import Kiln.Proofs.Scoping.Retracing
import Kiln.Proofs.Scoping.Shadowing
import Kiln.Proofs.Scoping.Splitting
import Kiln.Proofs.Scoping.Steps
import Kiln.Proofs.Scoping.Traversal
import Kiln.Proofs.Scoping.Validity
import Kiln.Proofs.Scoping.Walk
import Kiln.Proofs.Session.Addressing
import Kiln.Proofs.Session.History
import Kiln.Proofs.Session.Lines
import Kiln.Proofs.Session.Numerals
import Kiln.Proofs.Session.Pieces
import Kiln.Proofs.Session.Places
import Kiln.Proofs.Session.SourceOrder
import Kiln.Proofs.Session.Turns
import Kiln.Proofs.Session.Walking
import Kiln.Proofs.Store.Access
import Kiln.Proofs.Store.Chains
import Kiln.Proofs.Tree.Names
import Kiln.Proofs.Tree.SourceOrder
import Kiln.Proofs.Twins.Outcomes
import Kiln.Proofs.Twins.Programs
import Kiln.Proofs.Twins.Runs
import Kiln.Proofs.Twins.Stores
import Kiln.Proofs.Twins.Tree
import Kiln.Proofs.Updates.Expanding
import Kiln.Proofs.Updates.Running
import Kiln.Scoping.Analysis
import Kiln.Scoping.Annotations
import Kiln.Scoping.Names
import Kiln.Session
import Kiln.Sink
import Kiln.Store.Basic
import Kiln.Store.Inspect
import Kiln.Store.Lemmas
import Kiln.Text.Alphabetic
import Kiln.Text.Blank
import Kiln.Text.Numeric
import Kiln.Text.Printable
import Kiln.Text.Quoted
import Kiln.Text.Ranges
import Kiln.Text.Style
import Kiln.Text.Utf8
import Kiln.Token.Basic
import Kiln.Token.Lexer
import Kiln.Tree.Basic
import Kiln.Tree.Outline
import Kiln.Value.Basic
