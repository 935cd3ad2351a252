import DeferredIR.Command
import DeferredIR.Export
import DeferredIR.Graph.Verify
import DeferredIR.Listing
import DeferredIR.Proofs.Admission
import DeferredIR.Proofs.Atomicity
import DeferredIR.Proofs.Calls
import DeferredIR.Proofs.Export
import DeferredIR.Proofs.Fold.AtOnce
import DeferredIR.Proofs.Fold.Binding
import DeferredIR.Proofs.Fold.Checked
import DeferredIR.Proofs.Fold.Meaning
import DeferredIR.Proofs.Fold.OnBuild
import DeferredIR.Proofs.Fold.Remains
import DeferredIR.Proofs.Fold.Reports
import DeferredIR.Proofs.Graph.Consistency
import DeferredIR.Proofs.History
import DeferredIR.Proofs.Interning
import DeferredIR.Proofs.Isolation
import DeferredIR.Proofs.Listing
import DeferredIR.Proofs.Literal
import DeferredIR.Proofs.NoFaults
import DeferredIR.Proofs.Renumbering.Calls
import DeferredIR.Proofs.Retirement
import DeferredIR.Proofs.SelfFold
import DeferredIR.Proofs.Tampering
import DeferredIR.Proofs.UseLists
import DeferredIR.Tampering
