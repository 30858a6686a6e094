import LxApi32.Daemon.Answered
import LxApi32.Daemon.CommandLoop
import LxApi32.Daemon.Fifo
import LxApi32.Daemon.Handles
import LxApi32.Daemon.LifeCycle
import LxApi32.Daemon.Outstanding
import LxApi32.Daemon.Packet
import LxApi32.Daemon.Queue
import LxApi32.Daemon.Wakeup
import LxApi32.Daemon.Wrappers
import LxApi32.Fs.FileLocks
import LxApi32.Fs.LockDeadlock
import LxApi32.Fs.LockRanges
import LxApi32.Fs.LockSafety
import LxApi32.Irq.Entry
import LxApi32.Irq.Lines
import LxApi32.Kernel.Errno
import LxApi32.Kernel.RmRegion
import LxApi32.Kernel.Screen
import LxApi32.Kernel.ScreenAt
import LxApi32.Kernel.ScreenLock
import LxApi32.Kernel.Stacks
import LxApi32.Kernel.UserCopy
import LxApi32.Kernel.UtlList
import LxApi32.Kernel.UtlReap
import LxApi32.Lib.Align
import LxApi32.Lib.Arena
import LxApi32.Lib.CString
import LxApi32.Lib.Calendar
import LxApi32.Lib.Decimal
import LxApi32.Lib.Descriptors
import LxApi32.Lib.FirstMatch
import LxApi32.Lib.Flags
import LxApi32.Lib.Issued
import LxApi32.Lib.Join
import LxApi32.Lib.LexCompare
import LxApi32.Lib.Machine
import LxApi32.Lib.Pick
import LxApi32.Lib.Pieces
import LxApi32.Lib.Places
import LxApi32.Lib.Poke
import LxApi32.Lib.Ranges
import LxApi32.Lib.Resume
import LxApi32.Lib.Slots
import LxApi32.Lib.SpinLock
import LxApi32.Lib.Tally
import LxApi32.Lib.Terminal
import LxApi32.Lib.TimingWheel
import LxApi32.Lib.Together
import LxApi32.Lib.WaitsFor
import LxApi32.Lxafs.Attributes
import LxApi32.Lxafs.Create
import LxApi32.Lxafs.Dates
import LxApi32.Lxafs.Dentry
import LxApi32.Lxafs.EaNames
import LxApi32.Lxafs.FileSize
import LxApi32.Lxafs.HardLink
import LxApi32.Lxafs.Ino
import LxApi32.Lxafs.LinkCorrection
import LxApi32.Lxafs.LinkCount
import LxApi32.Lxafs.LinkList
import LxApi32.Lxafs.LinkNames
import LxApi32.Lxafs.NameBuffers
import LxApi32.Lxafs.NameOrder
import LxApi32.Lxafs.OpenDir
import LxApi32.Lxafs.Path
import LxApi32.Lxafs.PathMap
import LxApi32.Lxafs.ReadDir
import LxApi32.Lxafs.Rename
import LxApi32.Lxafs.Vsprintf
import LxApi32.Lxlibc.FileHandles
import LxApi32.Lxlibc.Io
import LxApi32.Lxlibc.OpenFailure
import LxApi32.Lxlibc.Syscalls
import LxApi32.Memory.AllocAligned
import LxApi32.Memory.LockChunks
import LxApi32.Memory.MemLock
import LxApi32.Memory.MemObjs
import LxApi32.Memory.PageList
import LxApi32.Memory.Pages
import LxApi32.Memory.Release
import LxApi32.Memory.Relocate
import LxApi32.Memory.SegmentMemory
import LxApi32.Memory.SegmentPieces
import LxApi32.Memory.Segments
import LxApi32.Memory.Translate
import LxApi32.Memory.Vmalloc
import LxApi32.Memory.VmallocFailure
import LxApi32.Startup.Args
import LxApi32.Startup.LineIn
import LxApi32.Startup.ModParms
import LxApi32.Startup.OptionLine
import LxApi32.Startup.OptionList
import LxApi32.Startup.Script
import LxApi32.Sync.Rcu
import LxApi32.Sync.RcuBatches
import LxApi32.Sync.RcuGrace
import LxApi32.Sync.RwLock
import LxApi32.Sync.RwSemaphore
import LxApi32.Sync.Semaphore
import LxApi32.Sync.WaitQueue
import LxApi32.Task.Current
import LxApi32.Task.HandOver
import LxApi32.Task.Lifetime
import LxApi32.Task.LxExe
import LxApi32.Task.Mailbox
import LxApi32.Task.Reaper
import LxApi32.Task.RunQueue
import LxApi32.Task.Service
import LxApi32.Task.Softirq
import LxApi32.Task.Tasklets
import LxApi32.Task.Timers
import LxApi32.Task.WaitOn
