import Interpolation.Proofs.Context.Session
import Interpolation.Proofs.Settings.Acceptance
import Interpolation.Proofs.Settings.RoundTrip
import Interpolation.Proofs.Settings.Text
import Interpolation.Proofs.Template.EqualContexts
import Interpolation.Proofs.Template.Interchange
import Interpolation.Proofs.Template.Printing
import Interpolation.Proofs.Template.Recovery
import Interpolation.Proofs.Template.Unclosed
