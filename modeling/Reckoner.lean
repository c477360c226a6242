import Reckoner.Main
import Reckoner.Proofs.Parsing.Plain
import Reckoner.Proofs.Parsing.Grammar
import Reckoner.Proofs.Parsing.Soundness
import Reckoner.Proofs.Parsing.Completeness
import Reckoner.Proofs.Parsing.Exact
import Reckoner.Proofs.Parsing.Correspondence
import Reckoner.Proofs.Parsing.DepthLimit
import Reckoner.Proofs.Evaluation.Nodes
import Reckoner.Proofs.Evaluation.Recursion
import Reckoner.Proofs.Evaluation.Finite
import Reckoner.Proofs.Evaluation.Activations
import Reckoner.Proofs.Evaluation.StackBound
import Reckoner.Proofs.Scanning.Numerals
import Reckoner.Proofs.Scanning.Classes
import Reckoner.Proofs.Scanning.LongestMatch
import Reckoner.Proofs.Scanning.Spans
import Reckoner.Proofs.Evaluation.Causes
import Reckoner.Proofs.Evaluation.Contexts
import Reckoner.Proofs.Parsing.Rendering
import Reckoner.Proofs.Stages
import Reckoner.Proofs.Binding
import Reckoner.Proofs.ArgumentValues
import Reckoner.Proofs.Quotation
import Reckoner.Proofs.Scanning.Delimiters
import Reckoner.Proofs.Parsing.Atoms
import Reckoner.Proofs.Substitution
import Reckoner.Proofs.Spacing
import Reckoner.Proofs.Composition
import Reckoner.Proofs.Parsing.Continuation
import Reckoner.Proofs.Scanning.Concatenation
import Reckoner.Proofs.Decimal.Value
import Reckoner.Proofs.Decimal.Written
import Reckoner.Proofs.Writing
import Reckoner.Proofs.Renaming
import Reckoner.Proofs.Preconditions
import Reckoner.Proofs.Evaluation.Totality
import Reckoner.Proofs.Extremes
import Reckoner.Proofs.NearestInteger
import Reckoner.Proofs.LetterCase
import Reckoner.Proofs.Joined
import Reckoner.Proofs.Json.Reading
import Reckoner.Proofs.Json.Numbers
import Reckoner.Proofs.Json.Written
import Reckoner.Proofs.Messages
import Reckoner.Proofs.Reports
