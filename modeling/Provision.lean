import Provision.Main
import Provision.Proofs.Attributes.Addresses
import Provision.Proofs.Attributes.Keys
import Provision.Proofs.FieldPath
import Provision.Proofs.Plan.Ignored
import Provision.Proofs.Plan.Missing
import Provision.Proofs.Plan.Passes
import Provision.Proofs.Run.Once
import Provision.Proofs.Walk.Cancellation
import Provision.Proofs.Walk.Closure
import Provision.Proofs.Walk.Destroyable
import Provision.Proofs.Walk.Destroyed
import Provision.Proofs.Walk.Disk
import Provision.Proofs.Walk.Forgotten
import Provision.Proofs.Walk.Reload
import Provision.Proofs.Walk.Reports
import Provision.Proofs.Walk.Rounds
import Provision.Proofs.Walk.Unresolved
