import LabKernel.Lib.Transition
import LabKernel.Lib.LittleEndian
import LabKernel.Lib.Writes
import LabKernel.Lib.Ownership
import LabKernel.Lib.History
import LabKernel.Common.Sem
import LabKernel.Common.SemInt
import LabKernel.Common.List
import LabKernel.Common.QueueRuns
import LabKernel.Lib.Copying
import LabKernel.Common.String
import LabKernel.Lib.Numeral
import LabKernel.Common.Format
import LabKernel.Common.Printing
import LabKernel.Fs.Defines
import LabKernel.Fs.Cache
import LabKernel.Lib.Lru
import LabKernel.Fs.CacheList
import LabKernel.Fs.CacheLru
import LabKernel.Fs.Log
import LabKernel.Fs.Commit
import LabKernel.Fs.Crash
import LabKernel.Fs.Operation
import LabKernel.Fs.Reservation
import LabKernel.Fs.Checkpoint
import LabKernel.Ipc.Message
import LabKernel.Ipc.Queue
import LabKernel.Ipc.System
import LabKernel.Ipc.Pipeline
import LabKernel.Ipc.Waiting
import LabKernel.Ipc.Seats
import LabKernel.Ipc.Custody
import LabKernel.Ipc.Removal
import LabKernel.Ipc.Delivery
import LabKernel.Ipc.Search
import LabKernel.Fs.Calls
import LabKernel.Fs.Pins
import LabKernel.Fs.System
import LabKernel.Fs.Residence
import LabKernel.Fs.Exclusion
import LabKernel.Fs.Engagement
import LabKernel.Fs.Coherence
import LabKernel.Fs.Transparency
import LabKernel.Fs.Durability
import LabKernel.Fs.Journal
import LabKernel.Ipc.Identifiers
import LabKernel.Ipc.Lookup
import LabKernel.Ipc.Paged
import LabKernel.Ipc.Hidden
import LabKernel.Ipc.Depiction
import LabKernel.Ipc.PagedSections
import LabKernel.Ipc.PagedRuns
import LabKernel.Ipc.Locking
import LabKernel.Kernel.Sched
import LabKernel.Kernel.RunQueue
import LabKernel.Kernel.Containers
import LabKernel.Kernel.Procs
import LabKernel.Kernel.Permits
import LabKernel.Kernel.PostAll
import LabKernel.Kernel.SemSched
import LabKernel.Kernel.Proc
import LabKernel.Kernel.Reaping
import LabKernel.Kernel.Exit
import LabKernel.Kernel.Children
import LabKernel.Kernel.Kill
import LabKernel.Common.LockFree
import LabKernel.Kernel.Mem
import LabKernel.Kernel.Layout
import LabKernel.Kernel.Blocks
import LabKernel.Kernel.Kalloc
import LabKernel.Kernel.Pages
import LabKernel.Fs.Bitmap
import LabKernel.Ipc.Refinement
import LabKernel.Lib.Descent
import LabKernel.Kernel.PageTable
import LabKernel.Kernel.PageMap
import LabKernel.Kernel.PageLookup
import LabKernel.Lib.Bits
import LabKernel.Lib.RedBlack
import LabKernel.Common.Rbtree
import LabKernel.Common.RbHeap
import LabKernel.Common.RbInsert
import LabKernel.Common.RbSearch
import LabKernel.Common.RbErase
import LabKernel.Common.RbRemove
import LabKernel.Common.RbSet
import LabKernel.Fs.Overflow
import LabKernel.Fs.Replay
import LabKernel.Common.Queue
import LabKernel.Driver.Sd
import LabKernel.Driver.SdQueue
import LabKernel.Driver.SdService
import LabKernel.Driver.SdRuns
import LabKernel.Lib.Serial
import LabKernel.Driver.SdBlocks
import LabKernel.Driver.SdSerial
import LabKernel.Driver.BlockDevice
import LabKernel.Kernel.Timer
import LabKernel.Kernel.TimerQueue
import LabKernel.Kernel.TimerRuns
import LabKernel.Kernel.TimerCalls
import LabKernel.Lib.Outcome
import LabKernel.Lib.Numbering
import LabKernel.User.Mkfs
import LabKernel.User.MkfsBlocks
import LabKernel.User.MkfsFiles
import LabKernel.User.MkfsAppend
import LabKernel.User.MkfsImage
import LabKernel.User.MkfsRuns
import LabKernel.User.MkfsRoundTrip
import LabKernel.User.MkfsInodes
import LabKernel.User.MkfsSizes
import LabKernel.User.MkfsVolume
import LabKernel.Lib.Arm
import LabKernel.Kernel.Swtch
import LabKernel.Kernel.Switching
import LabKernel.Kernel.Tasks
import LabKernel.Kernel.KernelStacks
import LabKernel.Kernel.SwitchRuns
import LabKernel.Kernel.Resuming
import LabKernel.Kernel.TrapFrame
import LabKernel.Kernel.Traps
import LabKernel.Kernel.RoundRobin
import LabKernel.Kernel.Translation
import LabKernel.Kernel.TableWalks
import LabKernel.Kernel.AddressSpaces
import LabKernel.Common.Spinlock
import LabKernel.Kernel.Printk
