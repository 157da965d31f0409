import Residency.Lowering.Func
import Residency.Text.Read
import Residency.Text.Matching
import Residency.Proofs.Accepted
import Residency.Proofs.Preservation
import Residency.Proofs.Settled
import Residency.Proofs.RoundTrip
import Residency.Proofs.Documented
import Residency.Proofs.Folded
import Residency.Proofs.Slotless
import Residency.Proofs.Balance
import Residency.Proofs.FixedReads
import Residency.Proofs.Conflicts
import Residency.Proofs.Evicted
import Residency.Proofs.LogFile
import Residency.Proofs.Layout
import Residency.Proofs.Trace
