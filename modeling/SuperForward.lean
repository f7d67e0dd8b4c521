import SuperForward.Main
import SuperForward.Proofs.Backup.Failing
import SuperForward.Proofs.CommandLine.Confined
import SuperForward.Proofs.DocLines
import SuperForward.Proofs.Forward.Capture
import SuperForward.Proofs.Forward.Destination
import SuperForward.Proofs.Forward.Framing
import SuperForward.Proofs.Forward.Protection
import SuperForward.Proofs.Forward.Reanalysed
import SuperForward.Proofs.Forward.Refusing
import SuperForward.Proofs.Program.Acceptance
import SuperForward.Proofs.Program.Circles
import SuperForward.Proofs.Program.Documenting
import SuperForward.Proofs.Program.Faults
import SuperForward.Proofs.Program.Keys
import SuperForward.Proofs.Program.Layout
import SuperForward.Proofs.Program.Nesting
import SuperForward.Proofs.Program.Traversing
import SuperForward.Proofs.Program.WellFormed
import SuperForward.Proofs.Reordering
import SuperForward.Proofs.Types.Overriding
import SuperForward.Proofs.Types.Repeating
