import Pager.Machine.Operation
import Pager.Machine.Subsystem
import Pager.Machine.View
import Pager.Proofs.Execution
import Pager.Proofs.Validity
import Pager.Proofs.Links
import Pager.Proofs.Arena
import Pager.Proofs.Pool
import Pager.Proofs.SlotStore
import Pager.Proofs.Transfers
import Pager.Proofs.Moves
import Pager.Proofs.Coherence
import Pager.Proofs.Steps
import Pager.Proofs.Paging
import Pager.Proofs.Registration
import Pager.Proofs.Access
import Pager.Proofs.Unmapping
import Pager.Proofs.Contents
import Pager.Proofs.Cells
import Pager.Proofs.Lifetime
import Pager.Proofs.Duplication
import Pager.Proofs.Operations
import Pager.Proofs.Accounting
import Pager.Proofs.Lending
import Pager.Proofs.Reachability
import Pager.Proofs.Agreement
import Pager.Proofs.Ideal
import Pager.Proofs.Touching
import Pager.Proofs.Gaining
import Pager.Proofs.Copying
import Pager.Proofs.Simulation
import Pager.Proofs.Reckoning
import Pager.Proofs.Soiling
import Pager.Proofs.Saving
import Pager.Proofs.Overrun
import Pager.Proofs.Roster
import Pager.Proofs.Requests
import Pager.Proofs.Snapshot
import Pager.Proofs.Endings
import Pager.Proofs.Admission
import Pager.Proofs.Enrolment
import Pager.Proofs.Safety
import Pager.Proofs.Clock
import Pager.Proofs.SecondChance
import Pager.Proofs.Calls
import Pager.Proofs.Ageing
import Pager.Proofs.Window
import Pager.Proofs.Stores
import Pager.Proofs.Pinning
import Pager.Proofs.Failing
import Pager.Proofs.Custody
import Pager.Proofs.Teardown
import Pager.Proofs.Outlines
import Pager.Proofs.OutlineTransfers
import Pager.Proofs.Twins
import Pager.Proofs.TwinClaims
import Pager.Proofs.TwinCopies
import Pager.Proofs.TwinSpaces
import Pager.Proofs.Secrecy
import Pager.Proofs.Fidelity
import Pager.Proofs.Dismantling
import Pager.Proofs.Ledger
import Pager.Proofs.Reloading
import Pager.Proofs.Resolution
import Pager.Proofs.Transparency
import Pager.Proofs.Exactness
import Pager.Proofs.Initializing
import Pager.Proofs.Segments
import Pager.Proofs.Loading
import Pager.Proofs.Encodings
import Pager.Proofs.Packing
import Pager.Proofs.Fairness
import Pager.Proofs.Descriptors
import Pager.Proofs.Numbering
import Pager.Proofs.Tenure
import Pager.Proofs.Vacancy
import Pager.Proofs.Rounding
