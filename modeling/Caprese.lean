import Caprese.Kernel.Call
import Caprese.Store.Relink
import Caprese.Store.Frame
import Caprese.Store.Memory
import Caprese.Store.Refine
import Caprese.Store.Create
import Caprese.Store.Attach
import Caprese.Store.CreateTask
import Caprese.Store.Revoke
import Caprese.Store.Mapping
import Caprese.Store.Run
import Caprese.Store.Boot
import Caprese.Proofs.Carving
import Caprese.Kernel.Core
import Caprese.Proofs.Attachment
import Caprese.Proofs.Slots
import Caprese.Sched.Desk
import Caprese.Sched.Invariant
import Caprese.Sched.Effect
import Caprese.Sched.Preserve
import Caprese.Sched.Refine
import Caprese.Sched.Run
import Caprese.Proofs.Rendezvous
import Caprese.Proofs.Answers
import Caprese.Proofs.Killed
import Caprese.Proofs.Kill
import Caprese.Proofs.Cancel
import Caprese.Proofs.Notice
import Caprese.Proofs.Scheduled
import Caprese.Lib.Grouped
import Caprese.Store.Objects
import Caprese.Proofs.Lifetime
import Caprese.Lib.Paging
import Caprese.Memory.Paging
import Caprese.Memory.Copy
import Caprese.Proofs.UserMemory
import Caprese.Proofs.AddressSpaces
import Caprese.Proofs.Addresses
import Caprese.Lib.Twins
import Caprese.Memory.Rights
import Caprese.Proofs.Rights
import Caprese.Proofs.Failure
import Caprese.Store.SpaceTables
import Caprese.Proofs.Descriptors
import Caprese.Kernel.Setup
import Caprese.Proofs.Regions
import Caprese.Proofs.Handover
import Caprese.Proofs.Records
import Caprese.Lib.BinarySearch
import Caprese.Lib.Bytes
import Caprese.Proofs.Blocks
import Caprese.Proofs.Extensions
import Caprese.Proofs.Transfer
import Caprese.Kernel.Dtb
import Caprese.Fdt.Block
import Caprese.Fdt.Cursor
import Caprese.Fdt.Parse
import Caprese.Proofs.DeviceTree
import Caprese.Proofs.DeviceProps
import Caprese.Kernel.Frame
import Caprese.Proofs.Registers
import Caprese.Lib.Abreast
import Caprese.Store.Unslotted
import Caprese.Store.Places
import Caprese.Proofs.Moved
import Caprese.Proofs.Reclaim
import Caprese.Proofs.Creation
import Caprese.Kernel.Lock
import Caprese.Proofs.Locks
import Caprese.Proofs.Queues
import Caprese.Lib.Words
import Caprese.Proofs.Identifiers
import Caprese.Lib.Leads
import Caprese.Store.Lending
import Caprese.Kernel.Skip
import Caprese.Store.Skip
import Caprese.Proofs.Zombies
import Caprese.Lib.Successor
import Caprese.Store.Heirs
import Caprese.Proofs.Takeback
import Caprese.Lib.Precedes
import Caprese.Store.Descent
import Caprese.Proofs.Revocation
import Caprese.Kernel.Syscall
import Caprese.Store.Messages
import Caprese.Store.Serve
import Caprese.System.Authority
import Caprese.Sched.Calls
import Caprese.Sched.Ground
import Caprese.Sched.Destroy
import Caprese.Sched.Create
import Caprese.Store.Lineage
import Caprese.Store.Pages
import Caprese.Store.Loaded
import Caprese.System.Run
import Caprese.Proofs.System
import Caprese.Lib.Fifo
import Caprese.Sched.Order
import Caprese.Proofs.Fairness
import Caprese.Sched.Touch
import Caprese.Proofs.Integrity
