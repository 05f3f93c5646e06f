import ImpLang.CommandLine.Folder
import ImpLang.Main
import ImpLang.Portrait
import ImpLang.Repl.Completion
import ImpLang.Sample
import ImpLang.Tree.Node
import ImpLang.Proofs.Lexeme
import ImpLang.Proofs.Reading
import ImpLang.Proofs.Derivation
import ImpLang.Proofs.Soundness
import ImpLang.Proofs.Completeness
import ImpLang.Proofs.Nesting
import ImpLang.Proofs.Acceptance
import ImpLang.Proofs.WellFormed
import ImpLang.Proofs.RoundTrip
import ImpLang.Proofs.Preservation
import ImpLang.Proofs.SessionInvariant
import ImpLang.Proofs.Depth
import ImpLang.Proofs.Law
import ImpLang.Proofs.LongLiteral
import ImpLang.Proofs.LineOutcome
import ImpLang.Proofs.Unanswered
import ImpLang.Proofs.Drivers
import ImpLang.Proofs.Sequence
import ImpLang.Proofs.Reload
import ImpLang.Proofs.Overlay
import ImpLang.Proofs.Induction
import ImpLang.Proofs.Parallel
import ImpLang.Proofs.PrintedForm
import ImpLang.Proofs.Semantics
import ImpLang.Proofs.Adequacy
import ImpLang.Proofs.LargerLimits
import ImpLang.Proofs.Likeness
import ImpLang.Proofs.FreeVariables
import ImpLang.Proofs.BindingOrder
import ImpLang.Proofs.Occurrence
import ImpLang.Proofs.Frame
import ImpLang.Proofs.Callees
import ImpLang.Proofs.Growth
import ImpLang.Proofs.Embedding
import ImpLang.Proofs.Layout
import ImpLang.Proofs.Grouping
import ImpLang.Proofs.Precedence
import ImpLang.Proofs.Decoding
import ImpLang.Proofs.PrintedValue
import ImpLang.Proofs.OutlineLines
import ImpLang.Proofs.TreeDump
import ImpLang.Proofs.FailurePlace
import ImpLang.Proofs.Excerpt
import ImpLang.Proofs.MissingSemicolon
import ImpLang.Proofs.Tables
import ImpLang.Proofs.Recording
import ImpLang.Proofs.Application
import ImpLang.Proofs.NameToken
import ImpLang.Proofs.MissingName
import ImpLang.Proofs.Parameters
import ImpLang.Proofs.LongerScript
