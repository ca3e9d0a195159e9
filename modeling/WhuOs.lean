import WhuOs.Library.Bytes
import WhuOs.Library.Circular
import WhuOs.Library.Counting
import WhuOs.Library.Program
import WhuOs.Library.TransitionSystem
import WhuOs.Library.Ring
import WhuOs.Common
import WhuOs.Buf.Defs
import WhuOs.Buf.Representation
import WhuOs.Buf.Loading
import WhuOs.Virtio.Defs
import WhuOs.Virtio.Descriptors
import WhuOs.Virtio.Requests
import WhuOs.Virtio.Protocol
import WhuOs.Fs.Defs
import WhuOs.Fs.DirDefs
import WhuOs.Fs.Bitmap
import WhuOs.Fs.Runs
import WhuOs.Fs.FileDefs
import WhuOs.Fs.Mkfs
import WhuOs.Fs.OpenFiles
import WhuOs.Fs.References
import WhuOs.Fs.RefBalance
import WhuOs.Fs.InodeTable
import WhuOs.Fs.Locate
import WhuOs.Fs.Sound
import WhuOs.Fs.Extend
import WhuOs.Fs.Transfer
import WhuOs.Fs.InodeCache
import WhuOs.Mem.Defs
import WhuOs.Library.Linked
import WhuOs.Mem.Pmem
import WhuOs.Process.Defs
import WhuOs.Process.Runs
import WhuOs.Process.Tree
import WhuOs.Mem.Effects
import WhuOs.Process.Lifetime
import WhuOs.Smp.Defs
import WhuOs.Smp.Locks
import WhuOs.Smp.States
import WhuOs.Smp.Execution
import WhuOs.Smp.Sleepers
import WhuOs.Smp.Wakeup
import WhuOs.Smp.Waiting
import WhuOs.Mem.Entries
import WhuOs.Mem.Tables
import WhuOs.Mem.Mapping
import WhuOs.Mem.Sv39
import WhuOs.Mem.Holding
import WhuOs.Mem.User
import WhuOs.Process.Memory
import WhuOs.Process.Forks
import WhuOs.Fs.Reading
import WhuOs.Mkfs.Defs
import WhuOs.Library.Allocator
import WhuOs.Mkfs.Image
import WhuOs.Fs.BitmapSet
import WhuOs.Fs.Ranges
import WhuOs.Fs.FreeData
import WhuOs.Fs.LastRelease
import WhuOs.Fs.DiskFull
import WhuOs.Fs.InodeArea
import WhuOs.Fs.Entries
import WhuOs.Fs.Frame
import WhuOs.Library.Directories
import WhuOs.Fs.Steps
import WhuOs.Fs.DirTree
import WhuOs.Fs.Paths
import WhuOs.Fs.Naming
import WhuOs.Fs.Creation
import WhuOs.Fs.Linking
import WhuOs.Fs.Unlinking
import WhuOs.Mem.Growth
import WhuOs.Process.Brk
import WhuOs.Mem.Exhaustion
import WhuOs.Mem.Copying
import WhuOs.Library.Moves
import WhuOs.Mem.Transfers
import WhuOs.Mem.UserCopies
import WhuOs.Mem.Permissions
import WhuOs.Fs.Lookups
import WhuOs.Fs.SparseReads
import WhuOs.Io.Defs
import WhuOs.Io.Delivery
import WhuOs.Io.UserPointers
import WhuOs.Library.RoundRobin
import WhuOs.Process.Scheduler
import WhuOs.Mem.Strings
import WhuOs.Buf.Calls
import WhuOs.Buf.Replacement
import WhuOs.Buf.Handles
import WhuOs.Process.Stacks
import WhuOs.Fs.CStrings
import WhuOs.Library.SlotMap
import WhuOs.Fs.DirMap
import WhuOs.Fs.Session
import WhuOs.Fs.FreshDisk
import WhuOs.Fs.Reopening
import WhuOs.Fs.DirSize
import WhuOs.Fs.PathLookup
import WhuOs.Fs.Locks
import WhuOs.Lib.Memmove
import WhuOs.Lib.Print
import WhuOs.Lib.LockCalls
import WhuOs.Fs.BlockPlaces
import WhuOs.Fs.LinkCounts
import WhuOs.Fs.Ownership
import WhuOs.Lib.MutualExclusion
import WhuOs.Process.KernelMap
import WhuOs.Library.Assembly
import WhuOs.Library.Postorder
import WhuOs.Mem.Destroy
import WhuOs.Mem.Formed
import WhuOs.Mem.Reclaim
import WhuOs.Mem.Retire
import WhuOs.Process.Spaces
import WhuOs.Process.NewSpaces
import WhuOs.Process.Start
import WhuOs.Process.Boot
import WhuOs.Process.Life
import WhuOs.Process.Reaping
import WhuOs.Process.Trapframes
import WhuOs.Trap.Defs
import WhuOs.Trap.Vectors
import WhuOs.Trap.Frames
import WhuOs.Trap.Machine
import WhuOs.Trap.Saved
import WhuOs.Trap.Holding
import WhuOs.Trap.Contexts
import WhuOs.Trap.Interrupts
import WhuOs.Trap.Timer
import WhuOs.Trap.Switching
import WhuOs.Process.TimeSlices
