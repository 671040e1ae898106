import Ia32Memory.Processor.Register
import Ia32Memory.Processor.Gate
import Ia32Memory.Kernel.Access
import Ia32Memory.Hexadecimal
import Ia32Memory.Proofs.Machine.Refinement
import Ia32Memory.Proofs.Frame.Identity
import Ia32Memory.Proofs.Machine.Residue
import Ia32Memory.Proofs.Machine.Rollback
import Ia32Memory.Proofs.Machine.Accounts
import Ia32Memory.Proofs.Machine.Imaging
import Ia32Memory.Proofs.Machine.Bootstrap
import Ia32Memory.Proofs.Lock.Exclusion
import Ia32Memory.Proofs.Frame.RoundTrip
import Ia32Memory.Proofs.Frame.Usage
import Ia32Memory.Proofs.Frame.Decomposition
import Ia32Memory.Proofs.Machine.Layout
import Ia32Memory.Proofs.Kernel.Calls
import Ia32Memory.Proofs.Machine.Invalidation
import Ia32Memory.Proofs.Machine.BootFailure
import Ia32Memory.Proofs.Machine.Grants
import Ia32Memory.Proofs.Machine.Window
import Ia32Memory.Proofs.Lock.Nesting
import Ia32Memory.Proofs.Machine.FirstSlot
import Ia32Memory.Proofs.Machine.Direct
import Ia32Memory.Proofs.Machine.Teardown
import Ia32Memory.Proofs.Frame.Storage
import Ia32Memory.Proofs.Kernel.SelfCheck
import Ia32Memory.Proofs.Paging.Encoding
