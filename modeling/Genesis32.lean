import Genesis32.Library.ByteMem
import Genesis32.Heap.PageHeap
import Genesis32.Library.Transition
import Genesis32.Heap.PageHeapSpec
import Genesis32.Heap.PageHeapSafety
import Genesis32.Heap.Heap32
import Genesis32.Heap.HeapCream
import Genesis32.Heap.TwoLevel
import Genesis32.Disk.Driver
import Genesis32.FileSyst.Partitions
import Genesis32.Paging.DirTable
import Genesis32.Paging.FlatMap
import Genesis32.FileSyst.Bpb
import Genesis32.FileSyst.CacheTable
import Genesis32.FileSyst.FailedRead
import Genesis32.FileSyst.MountAtomic
import Genesis32.FileSyst.Unmount
import Genesis32.Console.Print
import Genesis32.Disk.BlockIO
import Genesis32.FileSyst.ChainExtension
import Genesis32.FileSyst.CreateEntry
import Genesis32.FileSyst.RootSearch
import Genesis32.FileSyst.ScratchBuffers
import Genesis32.FileSyst.SectorSize
import Genesis32.Heap.FreshPages
import Genesis32.Heap.Stranding
import Genesis32.FileSyst.CreatePath
import Genesis32.Heap.SmallAlloc
import Genesis32.Disk.DiskStream
import Genesis32.FileSyst.FileSize
import Genesis32.FileSyst.PartitionList
import Genesis32.Strings.MemFill
import Genesis32.Strings.CStrings
import Genesis32.Strings.ByteLoops
import Genesis32.FileSyst.CacheSearch
import Genesis32.Paging.AbsentTables
import Genesis32.Paging.PagedKernel
import Genesis32.Disk.DiskSearch
import Genesis32.Tools.Fat12Image
import Genesis32.Console.Scroll
import Genesis32.Console.Hex
import Genesis32.FileSyst.PartitionScan
import Genesis32.FileSyst.MachineScan
import Genesis32.UserHeap.BestFit
import Genesis32.UserHeap.HeapRuns
import Genesis32.Heap.PageBlocks
import Genesis32.Heap.Buffers
import Genesis32.FileSyst.PathComponent
import Genesis32.Tools.Fat12Packing
import Genesis32.Tools.Fat12Reader
import Genesis32.Disk.ChannelRuns
import Genesis32.Disk.MachineSearch
import Genesis32.Boot.LoaderRead
import Genesis32.Interrupts.Idt
import Genesis32.Interrupts.PagedGates
import Genesis32.Interrupts.Pic
import Genesis32.Interrupts.IrqRuns
import Genesis32.Interrupts.Handlers
import Genesis32.Interrupts.Pit
import Genesis32.FileSyst.GrowingWrite
import Genesis32.FileSyst.FileStore
