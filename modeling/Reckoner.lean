import Reckoner.Node.Outline
import Reckoner.Proofs.Arithmetic
import Reckoner.Proofs.Calling
import Reckoner.Proofs.Climbing
import Reckoner.Proofs.Composition
import Reckoner.Proofs.Cutoff
import Reckoner.Proofs.Derivation
import Reckoner.Proofs.Faultless
import Reckoner.Proofs.Height
import Reckoner.Proofs.IncompleteTables
import Reckoner.Proofs.Listing
import Reckoner.Proofs.Locations
import Reckoner.Proofs.LongestMatch
import Reckoner.Proofs.Malformed
import Reckoner.Proofs.Moving
import Reckoner.Proofs.Nesting
import Reckoner.Proofs.Numerals
import Reckoner.Proofs.Operands
import Reckoner.Proofs.OperatorOrder
import Reckoner.Proofs.Outlining
import Reckoner.Proofs.Padding
import Reckoner.Proofs.Preorder
import Reckoner.Proofs.Progress
import Reckoner.Proofs.Quoting
import Reckoner.Proofs.Rendering
import Reckoner.Proofs.Reparsing
import Reckoner.Proofs.Reports
import Reckoner.Proofs.Respelling
import Reckoner.Proofs.Rotating
import Reckoner.Proofs.Spelling
import Reckoner.Proofs.Unparsing
import Reckoner.Session.Command
import Reckoner.Trace
