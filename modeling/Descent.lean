import Descent.Calc
import Descent.Html
import Descent.Json
import Descent.Grammar.Watch
import Descent.Proofs.Attempts
import Descent.Proofs.Steps
import Descent.Proofs.Contract
import Descent.Proofs.Commitment
import Descent.Proofs.Levels
import Descent.Proofs.Retreat
import Descent.Proofs.Pruning
import Descent.Proofs.Places
import Descent.Proofs.Reports
import Descent.Proofs.Remainder
import Descent.Proofs.Lossless
import Descent.Proofs.Termination
import Descent.Proofs.Wrappers
import Descent.Proofs.Yields
import Descent.Proofs.Repetition
import Descent.Proofs.Json.Dialect
import Descent.Proofs.Tokens
import Descent.Proofs.WholeTexts
import Descent.Proofs.ViablePrefixes
import Descent.Proofs.Dialects
import Descent.Proofs.Json.Soundness
import Descent.Proofs.Json.Completeness
import Descent.Proofs.Json.Decode
import Descent.Proofs.Json.Failures
import Descent.Proofs.Calc.Dialect
import Descent.Proofs.Calc.Reading
import Descent.Proofs.Calc.Evaluation
import Descent.Proofs.Calc.Failures
import Descent.Proofs.Html.Dialect
import Descent.Proofs.Html.Tokens
import Descent.Proofs.Html.Soundness
import Descent.Proofs.Html.Completeness
import Descent.Proofs.Html.Parsing
import Descent.Proofs.Html.Failures
import Descent.Proofs.Rejections
import Descent.Proofs.Calc.Expressions
import Descent.Proofs.Html.Rendering
import Descent.Proofs.Boundaries
import Descent.Proofs.Layouts.Lexemes
import Descent.Proofs.Layouts.Parses
import Descent.Proofs.Operations
import Descent.Proofs.Answers
import Descent.Proofs.Tight
import Descent.Proofs.Traces
import Descent.Proofs.Minimum
import Descent.Proofs.Literals
import Descent.Proofs.Nesting
import Descent.Proofs.Factoring
import Descent.Proofs.MaximalRuns
import Descent.Proofs.LiteralRows
import Descent.Proofs.Terminators
import Descent.Proofs.Rounding
import Descent.Proofs.Numerals
import Descent.Proofs.Alphabets
import Descent.Proofs.BoundedRuns
import Descent.Proofs.Regex.LongestMatch
import Descent.Proofs.Pointers
import Descent.Proofs.Definitions
