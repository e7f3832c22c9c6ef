import NullSafeEq.Text.Classes
import NullSafeEq.Text.Numeral
import NullSafeEq.Text.Cased
import NullSafeEq.Text.Quoted
import NullSafeEq.Text.Lines
import NullSafeEq.Grammar.Reading
import NullSafeEq.Value.Json
import NullSafeEq.Replacement
import NullSafeEq.Report.Results
import NullSafeEq.Expr.Index
import NullSafeEq.Settings.Validation
import NullSafeEq.Settings.Summary
import NullSafeEq.Settings.Sources
import NullSafeEq.Report.Terminal
import NullSafeEq.CommandLine.Arguments
import NullSafeEq.CommandLine.Run
import NullSafeEq.LiveGuard
import NullSafeEq.Main
import NullSafeEq.Proofs.Grammar.Production
import NullSafeEq.Proofs.Grammar.Derivation
import NullSafeEq.Proofs.Grammar.Soundness
import NullSafeEq.Proofs.Grammar.Completeness
import NullSafeEq.Proofs.Grammar.Correspondence
import NullSafeEq.Proofs.Lexing.Spelling
import NullSafeEq.Proofs.Lexing.Layout
import NullSafeEq.Proofs.Grammar.Neighbours
import NullSafeEq.Proofs.Reading.Typeset
import NullSafeEq.Proofs.Reading.WellFormed
import NullSafeEq.Proofs.Reading.Assembly
import NullSafeEq.Proofs.Tree.Sites
import NullSafeEq.Proofs.Tree.Places
import NullSafeEq.Proofs.Rewriting.Graft
import NullSafeEq.Proofs.Rewriting.Rendering
import NullSafeEq.Proofs.Reading.Standing
import NullSafeEq.Proofs.Rewriting.Splice
import NullSafeEq.Proofs.Rewriting.Regrowth
import NullSafeEq.Proofs.Rewriting.Application
import NullSafeEq.Proofs.Idiom.Parts
import NullSafeEq.Proofs.Idiom.Placement
import NullSafeEq.Proofs.Rewriting.Fix
import NullSafeEq.Proofs.Meaning.ValuePath
import NullSafeEq.Proofs.Meaning.Evaluation
import NullSafeEq.Proofs.Meaning.Preservation
import NullSafeEq.Proofs.Idiom.Shape
import NullSafeEq.Proofs.Idiom.Respelling
import NullSafeEq.Proofs.Idiom.Quiet
import NullSafeEq.Proofs.Idiom.Coverage
import NullSafeEq.Proofs.Rewriting.GraftedSites
import NullSafeEq.Proofs.Rewriting.GraftedShapes
import NullSafeEq.Proofs.Rewriting.FixGrafts
import NullSafeEq.Proofs.Rewriting.Rescan
import NullSafeEq.Proofs.Rewriting.Idempotence
import NullSafeEq.Proofs.Tree.Walk
import NullSafeEq.Proofs.Tree.Computations
import NullSafeEq.Proofs.Idiom.Computations
import NullSafeEq.Proofs.Rewriting.Conservation
import NullSafeEq.Proofs.Rewriting.Agreement
import NullSafeEq.Proofs.Lexing.Edges
import NullSafeEq.Proofs.Reading.Spans
import NullSafeEq.Proofs.Meaning.Operands
import NullSafeEq.Proofs.Meaning.Parts
import NullSafeEq.Proofs.Meaning.Difference
import NullSafeEq.Proofs.Idiom.CallSites
import NullSafeEq.Proofs.Tree.Erasure
import NullSafeEq.Proofs.Idiom.Parentheses
import NullSafeEq.Proofs.Meaning.Naming
import NullSafeEq.Proofs.Rewriting.Cuts
import NullSafeEq.Proofs.Rewriting.Repetition
import NullSafeEq.Proofs.Rewriting.Findings
import NullSafeEq.Proofs.Idiom.Declarations
import NullSafeEq.Proofs.Settings.LiveGuard
import NullSafeEq.Proofs.Grammar.Completion
import NullSafeEq.Proofs.Lexing.Cutting
import NullSafeEq.Proofs.Reading.ErrorPlace
import NullSafeEq.Proofs.Rewriting.Nesting
import NullSafeEq.Proofs.Idiom.Relocation
import NullSafeEq.Proofs.Idiom.Respanning
import NullSafeEq.Proofs.Idiom.GuardedForm
import NullSafeEq.Proofs.Idiom.TernaryForm
import NullSafeEq.Proofs.Idiom.GuardedOnly
import NullSafeEq.Proofs.Rewriting.Leftovers
import NullSafeEq.Proofs.Settings.UnknownKeys
import NullSafeEq.Proofs.Text.Encoding
import NullSafeEq.Proofs.Text.Lines
import NullSafeEq.Proofs.CommandLine.ExpressionFile
import NullSafeEq.Proofs.Value.JsonText
import NullSafeEq.Proofs.Value.JsonRoundTrip
import NullSafeEq.Proofs.CommandLine.MachineReadable
import NullSafeEq.Proofs.Meaning.Conventions
import NullSafeEq.Proofs.Idiom.Reportable
import NullSafeEq.Proofs.Reading.Spacing
import NullSafeEq.Proofs.Grammar.Postorder
import NullSafeEq.Proofs.Reading.Misuse
import NullSafeEq.Proofs.Fallible
import NullSafeEq.Proofs.Report.Outcomes
import NullSafeEq.Proofs.Value.Mappings
import NullSafeEq.Proofs.Value.DistinctKeys
import NullSafeEq.Proofs.Settings.Options
import NullSafeEq.Proofs.Settings.Precedence
import NullSafeEq.Proofs.Settings.Environment
import NullSafeEq.Proofs.Settings.Validity
import NullSafeEq.Proofs.Tree.Index
