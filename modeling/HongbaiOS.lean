import HongbaiOS.Device.BusyWait
import HongbaiOS.Device.Channel
import HongbaiOS.Device.Console
import HongbaiOS.Device.Handshake
import HongbaiOS.Device.Ide
import HongbaiOS.Device.IdeInit
import HongbaiOS.Device.IoQueue
import HongbaiOS.Device.Keyboard
import HongbaiOS.Device.KeyboardInput
import HongbaiOS.Device.PartitionScan
import HongbaiOS.Device.PartitionTree
import HongbaiOS.Device.Timer
import HongbaiOS.Device.Transfer
import HongbaiOS.Fs.Blocks
import HongbaiOS.Fs.CreateByPath
import HongbaiOS.Fs.CreateCases
import HongbaiOS.Fs.CreateRun
import HongbaiOS.Fs.Dir
import HongbaiOS.Fs.DirEntry
import HongbaiOS.Fs.DirInsert
import HongbaiOS.Fs.DirRun
import HongbaiOS.Fs.File
import HongbaiOS.Fs.FilesysInit
import HongbaiOS.Fs.Format
import HongbaiOS.Fs.FormatBuffer
import HongbaiOS.Fs.FormatWrites
import HongbaiOS.Fs.Inode
import HongbaiOS.Fs.InodeMemory
import HongbaiOS.Fs.Layout
import HongbaiOS.Fs.Mount
import HongbaiOS.Fs.Open
import HongbaiOS.Fs.OpenInodes
import HongbaiOS.Fs.Ownership
import HongbaiOS.Fs.Path
import HongbaiOS.Fs.PathBounds
import HongbaiOS.Fs.Search
import HongbaiOS.Fs.SearchBlocks
import HongbaiOS.Fs.SearchDepth
import HongbaiOS.Fs.SlotSearch
import HongbaiOS.Fs.Strcat
import HongbaiOS.Fs.SuperBlock
import HongbaiOS.Kernel.Debug
import HongbaiOS.Kernel.Descriptors
import HongbaiOS.Kernel.EnterKernel
import HongbaiOS.Kernel.Entry
import HongbaiOS.Kernel.InterruptFlag
import HongbaiOS.Kernel.KernelInit
import HongbaiOS.Kernel.Loader
import HongbaiOS.Kernel.PrintCalls
import HongbaiOS.Kernel.SetupPage
import HongbaiOS.Lib.Bitmap
import HongbaiOS.Lib.BitmapScan
import HongbaiOS.Lib.KernelList
import HongbaiOS.Lib.Numerals
import HongbaiOS.Lib.Print
import HongbaiOS.Lib.Stdio
import HongbaiOS.Library.Bytes
import HongbaiOS.Library.Cache
import HongbaiOS.Library.Except
import HongbaiOS.Library.LinkedList
import HongbaiOS.Library.Numeral
import HongbaiOS.Library.Ownership
import HongbaiOS.Library.Pieces
import HongbaiOS.Library.RefCount
import HongbaiOS.Library.Ring
import HongbaiOS.Library.Run
import HongbaiOS.Library.SavedFlag
import HongbaiOS.Library.Slabs
import HongbaiOS.Library.WordStack
import HongbaiOS.Memory.AddressBits
import HongbaiOS.Memory.ArenaAlloc
import HongbaiOS.Memory.ArenaFree
import HongbaiOS.Memory.ArenaPages
import HongbaiOS.Memory.ArenaSteps
import HongbaiOS.Memory.Arenas
import HongbaiOS.Memory.Boot
import HongbaiOS.Memory.Directories
import HongbaiOS.Memory.Exhaustion
import HongbaiOS.Memory.Frames
import HongbaiOS.Memory.Heap
import HongbaiOS.Memory.HeapAccounts
import HongbaiOS.Memory.HeapAsserts
import HongbaiOS.Memory.HeapCalls
import HongbaiOS.Memory.HeapContents
import HongbaiOS.Memory.HeapRuns
import HongbaiOS.Memory.Locks
import HongbaiOS.Memory.Ownership
import HongbaiOS.Memory.PageAsserts
import HongbaiOS.Memory.PageCalls
import HongbaiOS.Memory.PageHistory
import HongbaiOS.Memory.PageOwners
import HongbaiOS.Memory.PageReturns
import HongbaiOS.Memory.PageSteps
import HongbaiOS.Memory.Paging
import HongbaiOS.Memory.Pool
import HongbaiOS.Memory.PoolInit
import HongbaiOS.Memory.Processes
import HongbaiOS.Memory.SelfMap
import HongbaiOS.Memory.SharedHeap
import HongbaiOS.Memory.TaskHeaps
import HongbaiOS.Memory.TaskIsolation
import HongbaiOS.Memory.ThreadPages
import HongbaiOS.Memory.Tlb
import HongbaiOS.Thread.Cpu
import HongbaiOS.Thread.Effects
import HongbaiOS.Thread.Idle
import HongbaiOS.Thread.ListNodes
import HongbaiOS.Thread.ListSteps
import HongbaiOS.Thread.Lock
import HongbaiOS.Thread.LockCalls
import HongbaiOS.Thread.Lost
import HongbaiOS.Thread.Mutual
import HongbaiOS.Thread.Pids
import HongbaiOS.Thread.Readiness
import HongbaiOS.Thread.Scheduler
import HongbaiOS.Thread.Sections
import HongbaiOS.Thread.SwitchTo
import HongbaiOS.Thread.Waiting
import HongbaiOS.Userprog.StartProcess
import HongbaiOS.Userprog.Tss
