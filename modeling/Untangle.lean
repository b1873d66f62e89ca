import Untangle.Analysis.Basic
import Untangle.Analysis.Declaration
import Untangle.Analysis.Edit
import Untangle.Analysis.Reference
import Untangle.Analysis.Report
import Untangle.Analysis.Tour
import Untangle.Command.Arguments
import Untangle.Command.Environment
import Untangle.Command.Run
import Untangle.Deobfuscation
import Untangle.Dict
import Untangle.Files.Batch
import Untangle.Files.Path
import Untangle.Files.Tree
import Untangle.Main
import Untangle.Number.Binary64
import Untangle.Number.Layout
import Untangle.Number.Radix
import Untangle.Number.Reading
import Untangle.Number.Shortest
import Untangle.Print.Code
import Untangle.Print.Expression
import Untangle.Print.Literal
import Untangle.Print.Piece
import Untangle.Print.Statement
import Untangle.Proofs.Analysis.Course
import Untangle.Proofs.Analysis.Extension
import Untangle.Proofs.Analysis.Placement
import Untangle.Proofs.Analysis.References
import Untangle.Proofs.Analysis.Replacement
import Untangle.Proofs.Analysis.Siblings
import Untangle.Proofs.Analysis.Sweep
import Untangle.Proofs.Analysis.Usage
import Untangle.Proofs.Analysis.Visit
import Untangle.Proofs.Computation
import Untangle.Proofs.Dispatch.Agreement
import Untangle.Proofs.Dispatch.Discarded
import Untangle.Proofs.Dispatch.Emitted
import Untangle.Proofs.Dispatch.Entry
import Untangle.Proofs.Dispatch.Observed
import Untangle.Proofs.Dispatch.Outside
import Untangle.Proofs.Dispatch.Plan
import Untangle.Proofs.Dispatch.Round
import Untangle.Proofs.Dispatch.Simulation
import Untangle.Proofs.Dispatch.Stopping
import Untangle.Proofs.Dispatch.Trial
import Untangle.Proofs.Folding.Arithmetic
import Untangle.Proofs.Folding.Folded
import Untangle.Proofs.Folding.Outcome
import Untangle.Proofs.Folding.Refinement
import Untangle.Proofs.Folding.Report
import Untangle.Proofs.Folding.Run
import Untangle.Proofs.Folding.Structural
import Untangle.Proofs.Gating.Handover
import Untangle.Proofs.Gating.Registration
import Untangle.Proofs.Gating.Substitution
import Untangle.Proofs.Identity.Actions
import Untangle.Proofs.Identity.Emission
import Untangle.Proofs.Identity.Locality
import Untangle.Proofs.Identity.Names
import Untangle.Proofs.Identity.Numbered
import Untangle.Proofs.Identity.Remaining
import Untangle.Proofs.Identity.Throughout
import Untangle.Proofs.Inlining.Completeness
import Untangle.Proofs.Inlining.Reasons
import Untangle.Proofs.Inlining.Traces
import Untangle.Proofs.Inlining.Trees
import Untangle.Proofs.Number.Layout
import Untangle.Proofs.Number.Magnitude
import Untangle.Proofs.Number.Natural
import Untangle.Proofs.Number.Nearest
import Untangle.Proofs.Number.Numeral
import Untangle.Proofs.Number.Printing
import Untangle.Proofs.Number.Radix
import Untangle.Proofs.Number.Rounding
import Untangle.Proofs.Number.Shortest
import Untangle.Proofs.Number.Sign
import Untangle.Proofs.Sandbox.Accepted
import Untangle.Proofs.Sandbox.BuiltEvaluator
import Untangle.Proofs.Sandbox.BuiltNatives
import Untangle.Proofs.Sandbox.Codings
import Untangle.Proofs.Sandbox.Composition
import Untangle.Proofs.Sandbox.Conduct
import Untangle.Proofs.Sandbox.Conversions
import Untangle.Proofs.Sandbox.Faults
import Untangle.Proofs.Sandbox.Garbage
import Untangle.Proofs.Sandbox.Globals
import Untangle.Proofs.Sandbox.Headstart
import Untangle.Proofs.Sandbox.Keys
import Untangle.Proofs.Sandbox.Limits
import Untangle.Proofs.Sandbox.Literal
import Untangle.Proofs.Sandbox.LooseEquality
import Untangle.Proofs.Sandbox.Nesting
import Untangle.Proofs.Sandbox.PairedEvaluator
import Untangle.Proofs.Sandbox.PairedNatives
import Untangle.Proofs.Sandbox.Pairing
import Untangle.Proofs.Sandbox.Policy
import Untangle.Proofs.Sandbox.Primitive
import Untangle.Proofs.Sandbox.Reached
import Untangle.Proofs.Sandbox.Realm
import Untangle.Proofs.Sandbox.RealmEvaluator
import Untangle.Proofs.Sandbox.RealmNatives
import Untangle.Proofs.Sandbox.Registrations
import Untangle.Proofs.Sandbox.Segments
import Untangle.Proofs.Sandbox.Slots
import Untangle.Proofs.Sandbox.SplitScope
import Untangle.Proofs.Sandbox.Startup
import Untangle.Proofs.Sandbox.StoreReached
import Untangle.Proofs.Sandbox.Structure
import Untangle.Proofs.Sandbox.Validated
import Untangle.Proofs.Sandbox.WellScoped
import Untangle.Proofs.Sandbox.Words
import Untangle.Proofs.Sandbox.Written
import Untangle.Proofs.Scoping.Binders
import Untangle.Proofs.Scoping.Declaring
import Untangle.Proofs.Scoping.Nesting
import Untangle.Proofs.Scoping.Occurrences
import Untangle.Proofs.Scoping.Recording
import Untangle.Proofs.Scoping.Resolving
import Untangle.Proofs.Scoping.Scopes
import Untangle.Proofs.Scoping.Upkeep
import Untangle.Proofs.Targets.Looking
import Untangle.Proofs.Targets.Once
import Untangle.Proofs.Text.Base64
import Untangle.Proofs.Text.Decoding
import Untangle.Proofs.Text.Digits
import Untangle.Proofs.Text.Literal
import Untangle.Proofs.Text.Percent
import Untangle.Proofs.Text.Scanning
import Untangle.Proofs.Tours.Cutting
import Untangle.Proofs.Tours.Load
import Untangle.Proofs.Tours.Lowering
import Untangle.Proofs.Tours.Order
import Untangle.Proofs.Tours.Outcome
import Untangle.Proofs.Tours.Revisits
import Untangle.Proofs.Tours.Termination
import Untangle.Proofs.Tree.Change
import Untangle.Proofs.Tree.Code
import Untangle.Proofs.Tree.Grammar
import Untangle.Proofs.Tree.Identities
import Untangle.Proofs.Tree.Multiplicity
import Untangle.Proofs.Tree.Numbering
import Untangle.Proofs.Unwrapping.Call
import Untangle.Proofs.Unwrapping.Operands
import Untangle.Proofs.Unwrapping.Outcome
import Untangle.Proofs.Unwrapping.Selection
import Untangle.Rule.Basic
import Untangle.Rule.Chain
import Untangle.Rule.Dispatch
import Untangle.Rule.Evaluation
import Untangle.Rule.Folding
import Untangle.Rule.Inlining
import Untangle.Rule.Name
import Untangle.Rule.Unflattening
import Untangle.Rule.Wrapper
import Untangle.Sandbox.Builtin.Array
import Untangle.Sandbox.Builtin.Global
import Untangle.Sandbox.Builtin.String
import Untangle.Sandbox.Coercion
import Untangle.Sandbox.Evaluator
import Untangle.Sandbox.Global
import Untangle.Sandbox.Literal
import Untangle.Sandbox.Native
import Untangle.Sandbox.Operator
import Untangle.Sandbox.Property
import Untangle.Sandbox.Registry
import Untangle.Sandbox.Scope
import Untangle.Sandbox.Value
import Untangle.Settings
import Untangle.Source.Cursor
import Untangle.Source.Fault
import Untangle.Source.Grammar.Basic
import Untangle.Source.Grammar.Expression
import Untangle.Source.Grammar.Function
import Untangle.Source.Grammar.Pattern
import Untangle.Source.Grammar.Statement
import Untangle.Source.Grammar.Target
import Untangle.Source.Lexer
import Untangle.Source.Regex
import Untangle.Source.Regex.Item
import Untangle.Source.Regex.Reader
import Untangle.Source.Script
import Untangle.Source.Token
import Untangle.Text.Base64
import Untangle.Text.Basic
import Untangle.Text.Case
import Untangle.Text.Digit
import Untangle.Text.Escapes
import Untangle.Text.Identifier
import Untangle.Text.Markup
import Untangle.Text.Percent
import Untangle.Text.Printable
import Untangle.Text.Space
import Untangle.Text.Style
import Untangle.Tree.Build
import Untangle.Tree.Edit
import Untangle.Tree.Form
import Untangle.Tree.Node
