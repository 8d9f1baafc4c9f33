import Verdict.CommandLine
import Verdict.Http.Route
import Verdict.Main
import Verdict.Proofs.Agreement
import Verdict.Proofs.Annotation
import Verdict.Proofs.Availability
import Verdict.Proofs.Conformity
import Verdict.Proofs.DateEndings
import Verdict.Proofs.DateOrder
import Verdict.Proofs.Outputs
import Verdict.Proofs.Prediction
import Verdict.Proofs.Registration
import Verdict.Proofs.Reloading
import Verdict.Proofs.Resubmission
import Verdict.Proofs.RoundTrip
import Verdict.Proofs.Rounding
import Verdict.Proofs.Deliveries
import Verdict.Proofs.FirstFault
import Verdict.Proofs.OneOrMany
import Verdict.Proofs.Settings
import Verdict.Proofs.Vouching
