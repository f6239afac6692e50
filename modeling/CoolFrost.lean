import CoolFrost.Lib.Program
import CoolFrost.Lib.Frame
import CoolFrost.Lib.Forest
import CoolFrost.Lib.Bytes
import CoolFrost.Drivers.Blk
import CoolFrost.Fs.Node
import CoolFrost.Fs.Fat32.Table
import CoolFrost.Fs.Fat32.Dir
import CoolFrost.Fs.Fat32.File
import CoolFrost.Fs.Fat32.Ops
import CoolFrost.Fs.Fat32.Steps
import CoolFrost.Fs.Ext2.Disk
import CoolFrost.Fs.Ext2.File
import CoolFrost.Fs.Ext2.Dir
import CoolFrost.Fs.Ext2.Ops
import CoolFrost.Fs.Ext2.Steps
import CoolFrost.Fs.ReadOnly
import CoolFrost.Cpu.Sched
import CoolFrost.Cpu.SchedTables
import CoolFrost.Fs.Vfs
import CoolFrost.Fs.Links
import CoolFrost.Fs.Descriptors
import CoolFrost.Fs.DescriptorRuns
import CoolFrost.Fs.Fat32.Coherence
import CoolFrost.Fs.ReadOnlyGate
import CoolFrost.Fs.Fat32.Volume
import CoolFrost.Lib.Chain
import CoolFrost.Fs.Fat32.Clusters
import CoolFrost.Fs.Fat32.Files
import CoolFrost.Fs.Fat32.Catalogue
import CoolFrost.Fs.Fat32.ByteArrays
import CoolFrost.Cpu.Scheduler
import CoolFrost.Cpu.RunQueues
import CoolFrost.Cpu.Dispatch
import CoolFrost.Cpu.Vmm
import CoolFrost.Cpu.AddressSpaces
import CoolFrost.Cpu.Translation
import CoolFrost.Kernel.ExecWindow
import CoolFrost.Kernel.ElfImage
import CoolFrost.Fs.Paths
import CoolFrost.Fs.Recycling
import CoolFrost.Fs.PoolRuns
import CoolFrost.Fs.Fat32.Directories
import CoolFrost.Fs.Fat32.DotEntries
import CoolFrost.Fs.DirTrees
import CoolFrost.Fs.Ext2.Blocks
import CoolFrost.Fs.Fat32.ParentLinks
import CoolFrost.Fs.Ext2.Directories
import CoolFrost.Fs.Ext2.ParentLinks
import CoolFrost.Fs.ParentLinks
import CoolFrost.Ui.Event
import CoolFrost.Ui.EventQueue
import CoolFrost.Drivers.VirtioBlk
import CoolFrost.Drivers.VirtioDrives
import CoolFrost.Net.Dhcp
import CoolFrost.Net.DhcpLease
import CoolFrost.Libc.Printf
import CoolFrost.Drivers.ControlXfer
import CoolFrost.Drivers.Ata
import CoolFrost.Drivers.Ahci
import CoolFrost.Drivers.Nvme
import CoolFrost.Drivers.BlkBackends
import CoolFrost.Lib.Runs
import CoolFrost.Libc.Heap
import CoolFrost.Libc.Kmalloc
import CoolFrost.Lib.Tiling
import CoolFrost.Fs.Ext2.Holes
import CoolFrost.Fs.Fat32.FileLimit
import CoolFrost.Fs.Fat32.Defrag
import CoolFrost.Fs.Ext2.Geometry
import CoolFrost.Fs.Ext2.Volume
import CoolFrost.Fs.Ext2.Alloc
import CoolFrost.Fs.Ext2.Growth
import CoolFrost.Fs.Ext2.RejectedWrite
import CoolFrost.Fs.Ext2.OneFile
import CoolFrost.Fs.Ext2.Counters
import CoolFrost.Fs.Ext2.Relocation
import CoolFrost.Fs.Ext2.Inodes
import CoolFrost.Fs.Ext2.Creation
import CoolFrost.Fs.Fat32.Creation
import CoolFrost.Fs.FailedCreation
import CoolFrost.Fs.Ext2.BlockMap
import CoolFrost.Fs.Fat32.RunAllocation
import CoolFrost.Fs.Ext2.SingleAllocation
import CoolFrost.Fs.Ext2.RunAllocation
import CoolFrost.Fs.Fat32.NameRoundTrip
import CoolFrost.Fs.MountPoints
import CoolFrost.Fs.Fat32.Renaming
import CoolFrost.Fs.Ext2.Records
import CoolFrost.Fs.Ext2.Listing
import CoolFrost.Fs.Ext2.DirChanges
import CoolFrost.Fs.Ext2.Renaming
import CoolFrost.Fs.Ext2.Unlinking
import CoolFrost.Fs.Ext2.Extents
import CoolFrost.Fs.Fat32.Mounting
import CoolFrost.Fs.Fat32.Totality
import CoolFrost.Fs.Fat32.ChainWalks
import CoolFrost.Fs.Ntfs.Dir
import CoolFrost.Fs.Ntfs.RunLists
import CoolFrost.Fs.Ntfs.MftAddressing
import CoolFrost.Lib.Scan
import CoolFrost.Fs.Ntfs.Scans
import CoolFrost.Fs.Ntfs.TornRecords
import CoolFrost.Fs.Xfs.Inodes
import CoolFrost.Fs.Xfs.Dir
import CoolFrost.Fs.Xfs.Extents
import CoolFrost.Lib.Numeral
import CoolFrost.Libc.Numerals
import CoolFrost.Libc.Strings
import CoolFrost.Libc.Parsing
import CoolFrost.Libc.Formatters
import CoolFrost.Libc.Truncation
import CoolFrost.Lib.Regions
import CoolFrost.Libc.HeapMap
import CoolFrost.Libc.HeapRuns
import CoolFrost.Kernel.ElfArguments
import CoolFrost.Kernel.Sbrk
import CoolFrost.Kernel.SbrkHeap
import CoolFrost.Kernel.Memory
import CoolFrost.Kernel.SbrkFailure
import CoolFrost.Kernel.Loader
import CoolFrost.Kernel.LoaderFailure
import CoolFrost.Libc.Fractions
import CoolFrost.Libc.Isqrt
import CoolFrost.Net.ParseIp
import CoolFrost.Lib.FifoMap
import CoolFrost.Net.Net
import CoolFrost.Net.ArpCache
import CoolFrost.Lib.OnesComplement
import CoolFrost.Net.Checksum
import CoolFrost.Net.Receive
import CoolFrost.Net.DhcpOptions
import CoolFrost.Lib.Utf8
import CoolFrost.Libc.Utf8
import CoolFrost.Drivers.Screen
import CoolFrost.Libc.Utf8Valid
import CoolFrost.Lib.Sorting
import CoolFrost.Libc.Sort
import CoolFrost.Fs.Ext2.CoveredDirs
import CoolFrost.Userland.Umalloc
import CoolFrost.Userland.UmallocRuns
import CoolFrost.Drivers.Gpt
import CoolFrost.Drivers.TaskFile
import CoolFrost.Drivers.Keyboard
import CoolFrost.Drivers.ProducerRings
import CoolFrost.Drivers.UsbKeyboard
import CoolFrost.Drivers.LineEditor
import CoolFrost.Drivers.Framebuffer
import CoolFrost.Drivers.VgaText
import CoolFrost.Ui.Surface
import CoolFrost.Lib.DoublyLinked
import CoolFrost.Ui.WindowManager
import CoolFrost.Ui.WindowStack
import CoolFrost.Libc.Ringbuf
import CoolFrost.Lib.ByteOrder
import CoolFrost.Fs.PackedRecords
import CoolFrost.Userland.Ufind
import CoolFrost.Net.EchoReplies
import CoolFrost.Cpu.SyscallPointers
import CoolFrost.Fs.ParsingBounds
