import Crimson.Mm.Pmm

/-!
# CrimsonFS: blocks and segments (`crfs.c`)

The disk is divided into segments of 2 MB, and segments into blocks of 4 KB. One bit a
segment says whether it is used; the allocator takes a segment at a time and hands out its
blocks in order. An inode finds its blocks through twelve direct pointers, a block of 512
pointers, and a block of pointers to such blocks. A write takes a new block for every block
it touches (copy on write) and frees the old one.

Structures that lie on the disk are bytes here too, with the offsets the packed C structures
have, so that what is stored and loaded is what the code copies. The device keeps what is
written to it, except that a write may fail (`writeFails`); the calls of `kmalloc` may fail
(`oom`). Where a call of `crfs_alloc_block` fails its callers go on with an address that was
never set, whatever that is (`unset`).
-/

set_option autoImplicit false

namespace Crimson.Crfs

open Crimson.Lib Crimson.Mm

def magic : Nat := 0x4372696D534F5300
def version : Nat := 1
def blockSize : Nat := 4096
def segSize : Nat := 2 * 1024 * 1024
def blocksPerSeg : Nat := 512
def rootIno : Nat := 1
def maxPath : Nat := 4096
def maxOpen : Nat := 1024
def ptrsPerBlock : Nat := 512
def indirectBase : Nat := 12
def dindirectBase : Nat := indirectBase + ptrsPerBlock

def typeReg : Nat := 1
def typeDir : Nat := 2
def compLz4 : Nat := 1

def oWronly : BitVec 32 := 1#32
def oRdwr : BitVec 32 := 2#32
def oCreat : BitVec 32 := 0x40#32
def oTrunc : BitVec 32 := 0x200#32
def oAppend : BitVec 32 := 0x400#32
def oDirectory : BitVec 32 := 0x10000#32

def sIfdir : Nat := 0x4000

/-! ## The structures on the disk -/

/-! `crfs_superblock_t`: its size, and the offsets of its fields. -/

def sizeofSuperblock : Nat := 4292

def sbMagic (sb : Mem) : Nat := load64 sb 0
def sbTotalSegs (sb : Mem) : Nat := load64 sb 20
def sbUsedSegs (sb : Mem) : Nat := load64 sb 28
def sbFreeSegs (sb : Mem) : Nat := load64 sb 36
def sbCheckpointSeq (sb : Mem) : Nat := load64 sb 52
def sbInodeTableStart (sb : Mem) : Nat := load64 sb 60
def sbMountCount (sb : Mem) : Nat := load64 sb 220

def setSbUsedSegs (sb : Mem) (v : Nat) : Mem := store64 sb 28 v
def setSbFreeSegs (sb : Mem) (v : Nat) : Mem := store64 sb 36 v
def setSbCheckpointOffset (sb : Mem) (v : Nat) : Mem := store64 sb 44 v
def setSbCheckpointSeq (sb : Mem) (v : Nat) : Mem := store64 sb 52 v
def setSbLastMountTime (sb : Mem) (v : Nat) : Mem := store64 sb 212 v
def setSbMountCount (sb : Mem) (v : Nat) : Mem := store64 sb 220 v

/-! `crfs_inode_disk_t`. -/

def sizeofInodeDisk : Nat := 4304

def diskType (d : Mem) : Nat := load32 d 4
def diskSize (d : Mem) : Nat := load64 d 20
def diskBlocks (d : Mem) : Nat := load64 d 28
def diskDirect (d : Mem) (i : Nat) : Nat := load64 d (88 + 8 * i)
def diskIndirect (d : Mem) : Nat := load64 d 184
def diskDoubleIndirect (d : Mem) : Nat := load64 d 192

def setDiskSize (d : Mem) (v : Nat) : Mem := store64 d 20 v
def setDiskBlocks (d : Mem) (v : Nat) : Mem := store64 d 28 v
def setDiskAtime (d : Mem) (v : Nat) : Mem := store64 d 36 v
def setDiskMtime (d : Mem) (v : Nat) : Mem := store64 d 44 v
def setDiskDirect (d : Mem) (i v : Nat) : Mem := store64 d (88 + 8 * i) v
def setDiskIndirect (d : Mem) (v : Nat) : Mem := store64 d 184 v
def setDiskDoubleIndirect (d : Mem) (v : Nat) : Mem := store64 d 192 v
def setDiskChecksum (d : Mem) (v : Nat) : Mem := store32 d 4300 v

/-! ## The state -/

/-- An inode in memory, by the order in which they were allocated. -/
abbrev InodeRef := Nat

/-- `crfs_inode_t`. -/
structure Inode where
  inodeNo : Nat
  refCount : Nat
  dirty : Bool
  disk : Mem

/-- `crfs_file_t`. -/
structure File where
  inUse : Bool
  flags : BitVec 32
  offset : Nat
  inode : Option InodeRef
deriving DecidableEq, Repr

/-- `struct block_device`, with its contents. -/
structure Device where
  size : Nat
  bytes : Mem
  writes : Nat
  writeFails : Nat → Bool

/-- `bdev->write`. -/
def Device.write (d : Device) (offset : Nat) (buf : Mem) (len : Nat) : Device where
  size := d.size
  bytes := if d.writeFails d.writes then d.bytes else copyBytes d.bytes offset buf 0 len
  writes := d.writes + 1
  writeFails := d.writeFails

/-- `bdev->read` into `buf`. -/
def Device.read (d : Device) (offset : Nat) (buf : Mem) (len : Nat) : Mem :=
  copyBytes buf 0 d.bytes offset len

/-- `g_fs`, and the static variables of `crfs_alloc_block`. -/
structure Fs where
  bdev : Device
  sb : Mem
  segBitmap : Mem
  nextSeg : Nat
  blockInSeg : Nat
  currentSeg : Nat
  inodes : InodeRef → Inode
  inodeCount : Nat
  inodeCache : Nat → List InodeRef
  files : Nat → File
  kmallocs : Nat
  oom : Nat → Bool
  unset : Nat

def Fs.modInode (fs : Fs) (r : InodeRef) (f : Inode → Inode) : Fs :=
  { fs with inodes := Function.update fs.inodes r (f (fs.inodes r)) }

def Fs.modDisk (fs : Fs) (r : InodeRef) (f : Mem → Mem) : Fs :=
  fs.modInode r fun i => { i with disk := f i.disk }

def Fs.setDirty (fs : Fs) (r : InodeRef) : Fs := fs.modInode r fun i => { i with dirty := true }

def Fs.modFile (fs : Fs) (fd : Nat) (f : File → File) : Fs :=
  { fs with files := Function.update fs.files fd (f (fs.files fd)) }

def Fs.disk (fs : Fs) (r : InodeRef) : Mem := (fs.inodes r).disk

/-! ## Blocks -/

def readBlock (fs : Fs) (addr : Nat) (buf : Mem) : Mem := fs.bdev.read addr buf blockSize

def writeBlock (fs : Fs) (addr : Nat) (buf : Mem) : Fs :=
  { fs with bdev := fs.bdev.write addr buf blockSize }

/-- A buffer on the stack that has been cleared. -/
def zeroBuf : Mem := fun _ => 0

/-! ## Segments -/

/-- Bit `seg` of the segment bitmap. -/
def segBit (bitmap : Mem) (seg : Nat) : Bool := bitmap (seg / 8) &&& (1#8 <<< (seg % 8)) != 0#8

def setSegBit (bitmap : Mem) (seg : Nat) : Mem :=
  Function.update bitmap (seg / 8) (bitmap (seg / 8) ||| (1#8 <<< (seg % 8)))

def clearSegBit (bitmap : Mem) (seg : Nat) : Mem :=
  Function.update bitmap (seg / 8) (bitmap (seg / 8) &&& ~~~(1#8 <<< (seg % 8)))

def allocSegment (fs : Fs) : Option (Nat × Fs) :=
  match (List.range' fs.nextSeg (sbTotalSegs fs.sb - fs.nextSeg)).find? fun i => !segBit fs.segBitmap i with
  | none => none
  | some i =>
    let sb := setSbUsedSegs fs.sb ((sbUsedSegs fs.sb + 1) % 2 ^ 64)
    let sb := setSbFreeSegs sb (sub64 (sbFreeSegs sb) 1)
    some (i, { fs with segBitmap := setSegBit fs.segBitmap i, sb := sb, nextSeg := i + 1 })

def allocBlock (fs : Fs) : Option (Nat × Fs) :=
  let fs? :=
    if fs.currentSeg = 0 ∨ blocksPerSeg ≤ fs.blockInSeg then
      (allocSegment fs).map fun r => { r.2 with currentSeg := r.1, blockInSeg := 0 }
    else some fs
  fs?.map fun fs =>
    ((fs.currentSeg * segSize + fs.blockInSeg * blockSize) % 2 ^ 64, { fs with blockInSeg := fs.blockInSeg + 1 })

def freeBlock (fs : Fs) (addr : Nat) : Fs :=
  let sb := setSbUsedSegs fs.sb (sub64 (sbUsedSegs fs.sb) 1)
  let sb := setSbFreeSegs sb ((sbFreeSegs sb + 1) % 2 ^ 64)
  { fs with segBitmap := clearSegBit fs.segBitmap (addr / segSize), sb := sb }

/-! ## The block map of an inode -/

/-- `ptrs[i]`, of a block of pointers in a buffer. -/
def ptrAt (buf : Mem) (i : Nat) : Nat := load64 buf (8 * i)

def setPtrAt (buf : Mem) (i v : Nat) : Mem := store64 buf (8 * i) v

def inodeGetBlock (fs : Fs) (r : InodeRef) (blockNo : Nat) : Nat :=
  if blockNo < indirectBase then diskDirect (fs.disk r) blockNo
  else if blockNo - indirectBase < ptrsPerBlock then
    if diskIndirect (fs.disk r) = 0 then 0
    else ptrAt (readBlock fs (diskIndirect (fs.disk r)) zeroBuf) (blockNo - indirectBase)
  else
    let blockNo := blockNo - dindirectBase
    if blockNo < ptrsPerBlock * ptrsPerBlock then
      if diskDoubleIndirect (fs.disk r) = 0 then 0
      else
        let l1Addr := ptrAt (readBlock fs (diskDoubleIndirect (fs.disk r)) zeroBuf) (blockNo / ptrsPerBlock)
        if l1Addr = 0 then 0 else ptrAt (readBlock fs l1Addr zeroBuf) (blockNo % ptrsPerBlock)
    else 0

/-- A new block of null pointers. -/
def allocPtrs (fs : Fs) : Option (Nat × Fs) :=
  (allocBlock fs).map fun r => (r.1, writeBlock r.2 r.1 zeroBuf)

/-- Entry `i` of the block of pointers at `addr` is overwritten where it is. -/
def writePtr (fs : Fs) (addr i v : Nat) : Fs :=
  writeBlock fs addr (setPtrAt (readBlock fs addr zeroBuf) i v)

/-- `crfs_inode_set_block`; `false` stands for -1. -/
def inodeSetBlock (fs : Fs) (r : InodeRef) (blockNo diskAddr : Nat) : Bool × Fs :=
  if blockNo < indirectBase then
    (true, (fs.modDisk r fun d => setDiskDirect d blockNo diskAddr).setDirty r)
  else if blockNo - indirectBase < ptrsPerBlock then
    let fs? :=
      if diskIndirect (fs.disk r) = 0 then
        (allocPtrs fs).map fun x => x.2.modDisk r fun d => setDiskIndirect d x.1
      else some fs
    match fs? with
    | none => (false, fs)
    | some fs => (true, (writePtr fs (diskIndirect (fs.disk r)) (blockNo - indirectBase) diskAddr).setDirty r)
  else
    let blockNo := blockNo - dindirectBase
    if blockNo < ptrsPerBlock * ptrsPerBlock then
      let fs? :=
        if diskDoubleIndirect (fs.disk r) = 0 then
          (allocPtrs fs).map fun x => x.2.modDisk r fun d => setDiskDoubleIndirect d x.1
        else some fs
      match fs? with
      | none => (false, fs)
      | some fs =>
        let l1 := diskDoubleIndirect (fs.disk r)
        let l1Ptr := ptrAt (readBlock fs l1 zeroBuf) (blockNo / ptrsPerBlock)
        let next? :=
          if l1Ptr = 0 then
            (allocPtrs fs).map fun x => (x.1, writePtr x.2 l1 (blockNo / ptrsPerBlock) x.1)
          else some (l1Ptr, fs)
        match next? with
        | none => (false, fs)
        | some (l1Ptr, fs) => (true, (writePtr fs l1Ptr (blockNo % ptrsPerBlock) diskAddr).setDirty r)
    else (false, fs)

/-! ## Reading and writing an open file -/

/-- A `uint64_t` returned as an `int64_t`. -/
def asInt64 (n : Nat) : Int := (n : Int).bmod (2 ^ 64)

/-- What one step of either loop works on: the block, the place in it and the bytes. -/
structure Chunk where
  blockNo : Nat
  blockOff : Nat
  len : Nat
deriving DecidableEq, Repr

def chunkAt (offset count total : Nat) : Chunk :=
  let pos := (offset + total) % 2 ^ 64
  let blockOff := pos % blockSize
  { blockNo := pos / blockSize % 2 ^ 32, blockOff := blockOff, len := min (blockSize - blockOff) (count - total) }

/-- The loop of `crfs_read` into `buf`, for as many steps as there are bytes. -/
def readLoop (fs : Fs) (r : InodeRef) (offset count : Nat) : Nat → Nat → Mem → Mem
  | 0, _, buf => buf
  | fuel + 1, total, buf =>
    if total < count then
      let c := chunkAt offset count total
      let diskAddr := inodeGetBlock fs r c.blockNo
      let buf :=
        if diskAddr = 0 then fillBytes buf total c.len 0
        else copyBytes buf total (readBlock fs diskAddr zeroBuf) c.blockOff c.len
      readLoop fs r offset count fuel (total + c.len) buf
    else buf

/-- `crfs_read`: the bytes read, `buf`, and the state. -/
def crfsRead (fs : Fs) (fd : Int) (buf : Mem) (count uptimeMs : Nat) : Int × Mem × Fs :=
  if fd < 0 ∨ (maxOpen : Int) ≤ fd then (-1, buf, fs)
  else
    let f := fs.files fd.toNat
    match f.inUse, f.inode with
    | true, some r =>
      let size := diskSize (fs.disk r)
      if size ≤ f.offset then (0, buf, fs)
      else
        let count := if size < (f.offset + count) % 2 ^ 64 then size - f.offset else count
        let buf := readLoop fs r f.offset count count 0 buf
        let fs := fs.modFile fd.toNat fun f => { f with offset := (f.offset + count) % 2 ^ 64 }
        (asInt64 count, buf, fs.modDisk r fun d => setDiskAtime d uptimeMs)
    | _, _ => (-1, buf, fs)

/-- One step of the loop of `crfs_write`. -/
def writeChunk (fs : Fs) (r : InodeRef) (c : Chunk) (buf : Mem) (total : Nat) : Fs :=
  let oldAddr := inodeGetBlock fs r c.blockNo
  let blockBuf := if oldAddr ≠ 0 ∧ c.blockOff ≠ 0 then readBlock fs oldAddr zeroBuf else zeroBuf
  let blockBuf := copyBytes blockBuf c.blockOff buf total c.len
  let (newAddr, fs) := (allocBlock fs).getD (fs.unset, fs)
  let fs := writeBlock fs newAddr blockBuf
  let fs := (inodeSetBlock fs r c.blockNo newAddr).2
  if oldAddr ≠ 0 then freeBlock fs oldAddr else fs

/-- The loop of `crfs_write`, for as many steps as there are bytes. -/
def writeLoop (r : InodeRef) (buf : Mem) (offset count : Nat) : Nat → Nat → Fs → Fs
  | 0, _, fs => fs
  | fuel + 1, total, fs =>
    if total < count then
      let c := chunkAt offset count total
      writeLoop r buf offset count fuel (total + c.len) (writeChunk fs r c buf total)
    else fs

/-- The end of `crfs_write`: the size, the offset, the time. -/
def writeFinish (fs : Fs) (fd : Nat) (r : InodeRef) (total uptimeMs : Nat) : Fs :=
  let stop := ((fs.files fd).offset + total) % 2 ^ 64
  let fs :=
    if diskSize (fs.disk r) < stop then
      fs.modDisk r fun d =>
        let d := setDiskSize d stop
        setDiskBlocks d ((diskSize d + blockSize - 1) % 2 ^ 64 / blockSize % 2 ^ 32)
    else fs
  let fs := fs.modFile fd fun f => { f with offset := (f.offset + total) % 2 ^ 64 }
  (fs.modDisk r fun d => setDiskMtime d uptimeMs).setDirty r

/-- `crfs_write`. -/
def crfsWrite (fs : Fs) (fd : Int) (buf : Mem) (count uptimeMs : Nat) : Int × Fs :=
  if fd < 0 ∨ (maxOpen : Int) ≤ fd then (-1, fs)
  else
    let f := fs.files fd.toNat
    match f.inUse, f.inode with
    | true, some r =>
      if f.flags &&& (oWronly ||| oRdwr) = 0#32 then (-1, fs)
      else
        let fs := writeLoop r buf f.offset count count 0 fs
        (asInt64 count, writeFinish fs fd.toNat r count uptimeMs)
    | _, _ => (-1, fs)

end Crimson.Crfs
