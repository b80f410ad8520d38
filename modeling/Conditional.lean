import Conditional.Main
import Conditional.Proofs.Canonical
import Conditional.Proofs.Expectation
import Conditional.Proofs.Spans
import Conditional.Proofs.Balance
import Conditional.Proofs.Assembly
import Conditional.Proofs.Reports
import Conditional.Proofs.Statements
import Conditional.Proofs.FileRun
import Conditional.Proofs.Encoding
import Conditional.Proofs.Conversation
import Conditional.Proofs.Commands
import Conditional.Proofs.Continuation
import Conditional.Proofs.Layout
import Conditional.Proofs.Agreement
import Conditional.Proofs.BigStep
import Conditional.Proofs.Recording
import Conditional.Proofs.ShellInvariant
import Conditional.Proofs.Blame
import Conditional.Proofs.ShellRun
import Conditional.Proofs.Partition
import Conditional.Proofs.ExpressionRun
import Conditional.Proofs.Substitution
import Conditional.Proofs.Ledger
import Conditional.Proofs.Interference
import Conditional.Proofs.Isolation
import Conditional.Proofs.Tracebacks
import Conditional.Proofs.Decoding
import Conditional.Proofs.Locality
import Conditional.Proofs.Progress
import Conditional.Proofs.Newlines
import Conditional.Proofs.Colour
import Conditional.Proofs.Resumption
import Conditional.Proofs.Underlining
import Conditional.Proofs.Wording
import Conditional.Proofs.Placement
import Conditional.Proofs.Depth
import Conditional.Proofs.Completion
import Conditional.Proofs.Spanless
import Conditional.Proofs.WrittenRecord
import Conditional.Proofs.Listing
