import Crimson.Lib.Bits
import Crimson.Lib.Run
import Crimson.Lib.Linked
import Crimson.Lib.Memory
import Crimson.Lib.Radix
import Crimson.Mm.Pmm
import Crimson.Mm.PmmCount
import Crimson.Mm.PmmExclusive
import Crimson.Mm.Heap
import Crimson.Mm.HeapBlocks
import Crimson.Mm.HeapSafety
import Crimson.Mm.Boot
import Crimson.Mm.Vmm
import Crimson.Mm.VmmMap
import Crimson.Mm.VmmRefine
import Crimson.Mm.VmmCopy
import Crimson.Mm.VmmFree
import Crimson.Mm.VmmAlloc
import Crimson.Mm.HeapLive
import Crimson.Lib.TailQueue
import Crimson.Sched.Model
import Crimson.Sched.Queues
import Crimson.Sched.PriorityFifo
import Crimson.Sched.Boost
import Crimson.Sched.Steps
import Crimson.Sched.Runqueue
import Crimson.Sched.Frame
import Crimson.Sync.Spinlock
import Crimson.Sync.Model
import Crimson.Proc.Model
import Crimson.Proc.Create
import Crimson.Proc.WaitQueues
import Crimson.Sync.RwLock
import Crimson.Sync.States
import Crimson.Sync.Exclusion
import Crimson.Sync.Counting
import Crimson.Sync.Cycles
import Crimson.Proc.Pids
import Crimson.Proc.Family
import Crimson.Proc.Zombies
import Crimson.Proc.Resources
import Crimson.Crfs.Model
import Crimson.Crfs.Volume
import Crimson.Crfs.Segments
import Crimson.Crfs.BlockMap
import Crimson.Crfs.SetBlock
import Crimson.Crfs.Contents
import Crimson.Crfs.ReadAfterWrite
import Crimson.Crfs.Format
import Crimson.Crfs.Taken
import Crimson.Crfs.Persist
import Crimson.Crfs.Stored
import Crimson.Lib.Traced
import Crimson.Lib.Ring
import Crimson.Net.Tcp
import Crimson.Net.Vlan
import Crimson.Net.Receive
import Crimson.Net.Bounds
import Crimson.Net.Fragments
import Crimson.Net.Handshake
import Crimson.Net.Close
import Crimson.Lib.Numbered
import Crimson.Net.Stream
import Crimson.Net.EndOfStream
import Crimson.Net.Slots
import Crimson.Crfs.Writes
import Crimson.Crfs.Tables
import Crimson.Vfs.Model
import Crimson.Vfs.Descriptors
import Crimson.Vfs.Offsets
import Crimson.Crfs.Cursor
import Crimson.Crfs.Live
import Crimson.Crfs.Landing
import Crimson.Crfs.Cells
import Crimson.Crfs.Pointers
import Crimson.Crfs.ReadExtent
import Crimson.Crfs.WriteFailure
import Crimson.Crfs.FailedSteps
import Crimson.Crfs.WriteExact
import Crimson.Crfs.Directory
import Crimson.Crfs.Separate
import Crimson.Crfs.DirFrame
import Crimson.Crfs.Placement
import Crimson.Crfs.DirMap
import Crimson.Security.Mac
import Crimson.Security.Boot
import Crimson.Str.Model
import Crimson.Gui.Model
import Crimson.Gui.Lock
import Crimson.Sandbox.Model
import Crimson.Sandbox.Isolation
import Crimson.Syscall.Memory
import Crimson.Lib.Words
import Crimson.Lib.Paths
import Crimson.Pkg.Model
import Crimson.Pkg.Extract
import Crimson.Pkg.Install
import Crimson.Pkg.Store
import Crimson.Lib.Overlay
import Crimson.Pkg.Atomic
import Crimson.Syscall.Dispatch
import Crimson.Display.Pipeline
import Crimson.Touch.Delivery
import Crimson.Phone.Calls
import Crimson.Power.Thermal
import Crimson.Shell.Dispatch
import Crimson.Lib.Gcm
import Crimson.Crypto.Gcm
import Crimson.Wifi.Sha1
import Crimson.Wifi.Handshake
import Crimson.Wifi.KeyInstall
import Crimson.Wifi.Layout
import Crimson.Sched.Starvation
import Crimson.Str.Strncpy
import Crimson.Mm.PmmRuns
import Crimson.Touch.Ring
import Crimson.Lib.Bag
import Crimson.Sandbox.Shm
import Crimson.Lib.BitSets
import Crimson.Touch.Tracking
import Crimson.Lib.Tpdu
import Crimson.Phone.Sms
import Crimson.Phone.CellLink
import Crimson.Sandbox.Ipc
import Crimson.Sandbox.IpcFifo
import Crimson.Sandbox.IpcTable
import Crimson.Str.Memcpy
import Crimson.Mm.HeapSizes
import Crimson.Lib.FirstFound
import Crimson.Net.Demux
import Crimson.Lib.CarryFold
import Crimson.Net.Checksum
import Crimson.Net.Congestion
import Crimson.Net.SendSide
import Crimson.Net.Accounting
import Crimson.Net.GivenUp
import Crimson.Net.Progress
import Crimson.Lib.DnsMessage
import Crimson.Net.DnsQuery
import Crimson.Net.DnsAnswer
import Crimson.Lib.Walk
import Crimson.Lib.CStrings
import Crimson.Crfs.DirScan
import Crimson.Crfs.Readdir
import Crimson.Crfs.InodeCache
import Crimson.Crfs.CacheRuns
import Crimson.Str.Memmove
import Crimson.Str.Strtoul
import Crimson.Str.Compare
import Crimson.Security.Rules
import Crimson.Pkg.Buffers
import Crimson.Pkg.Elf
import Crimson.Pkg.ElfBounds
import Crimson.Str.Decimal
import Crimson.Web.ParseUrl
import Crimson.Lib.Aes
import Crimson.Lib.Armv8
import Crimson.Crypto.Aes
import Crimson.Lib.Gf2
import Crimson.Lib.GcmField
import Crimson.Crypto.Gmul
import Crimson.Lib.Sha1
import Crimson.Wifi.Sha1Digest
import Crimson.Pkg.DepInstall
import Crimson.Pkg.DepRuns
import Crimson.Lib.ShiftRegister
import Crimson.Crfs.Crc32c
import Crimson.Timer.Clock
import Crimson.Timer.Soft
import Crimson.Timer.Schedule
import Crimson.Phone.Gsm7
import Crimson.Lib.LineWalk
import Crimson.Gui.Line
import Crimson.Power.Governor
import Crimson.Gui.PinPad
import Crimson.Wifi.DataFrames
import Crimson.Str.Format
import Crimson.Str.Vsnprintf
import Crimson.Net.Arp
import Crimson.Audio.Mixer
import Crimson.Audio.Playback
import Crimson.Audio.Calls
import Crimson.Crypto.Rng
import Crimson.Security.Audit
import Crimson.Shell.ReadLine
