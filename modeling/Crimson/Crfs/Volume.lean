import Crimson.Crfs.Model

/-!
# CrimsonFS: volumes, inodes and directories (`crfs.c`)

Formatting, mounting and checkpoints; the inode cache, with the place of an inode on the
disk; the records of a directory; and opening and closing a file by its path.

Readings of the clock, random bytes and what is left in a buffer that is not cleared are
arguments of the calls that use them. A call has no result (`none`) where it would read or
write outside a buffer, or never end.
-/

set_option autoImplicit false

namespace Crimson.Crfs

open Crimson.Lib Crimson.Mm

/-! ## Checksums -/

def crcBit (crc : BitVec 32) : BitVec 32 := (crc >>> 1) ^^^ (0x82F63B78#32 &&& -(crc &&& 1#32))

/-- One byte: eight rounds of `crcBit`. -/
def crcByte (crc : BitVec 32) (byte : BitVec 8) : BitVec 32 := crcBit^[8] (crc ^^^ byte.setWidth 32)

def crc32c (data : Mem) (len : Nat) : BitVec 32 :=
  ~~~((List.range len).foldl (fun crc i => crcByte crc (data i)) 0xFFFFFFFF#32)

/-! ## Formatting and mounting -/

/-- A string copied by `strncpy(_, _, n)`: cut at `n` bytes, or padded with zeros. -/
def copyString (m : Mem) (a : Nat) (s : List (BitVec 8)) (n : Nat) : Mem :=
  copyBytes m a (fun i => s.getD i 0) 0 n

/-- The superblock `crfs_format` writes. -/
def formatSuperblock (totalSegs uptimeMs : Nat) (volumeName : List (BitVec 8)) (uuid : Mem) : Mem :=
  let sb := store64 zeroBuf 0 magic
  let sb := store32 sb 8 version
  let sb := store32 sb 12 blockSize
  let sb := store32 sb 16 segSize
  let sb := store64 sb 20 totalSegs
  let sb := setSbUsedSegs sb 4
  let sb := setSbFreeSegs sb (sub64 totalSegs 4)
  let sb := setSbCheckpointOffset sb segSize
  let sb := setSbCheckpointSeq sb 1
  let sb := store64 sb 60 3
  let sb := store64 sb 68 (3 * segSize)
  let sb := store64 sb 204 uptimeMs
  let sb := setSbLastMountTime sb uptimeMs
  let sb := copyString sb 108 volumeName 63
  let sb := copyBytes sb 92 uuid 0 16
  store32 sb 228 (crc32c sb (sizeofSuperblock - 4)).toNat

/-- The root directory's inode, as `crfs_format` writes it. -/
def formatRootInode (uptimeMs : Nat) : Mem :=
  let d := store32 zeroBuf 0 rootIno
  let d := store32 d 4 typeDir
  let d := store32 d 8 (0o755 ||| sIfdir)
  let d := setDiskSize d blockSize
  let d := setDiskBlocks d 1
  let d := setDiskAtime d uptimeMs
  let d := setDiskMtime d uptimeMs
  let d := store64 d 52 uptimeMs
  let d := store64 d 60 2
  let d := store32 d 68 compLz4
  let d := setDiskDirect d 0 (4 * segSize)
  setDiskChecksum d (crc32c d (sizeofInodeDisk - 4)).toNat

/-- `crfs_dirent_t` and its name, at `off` in a block. -/
def putDirent (block : Mem) (off inodeNo recLen nameLen type : Nat) (name : List (BitVec 8)) : Mem :=
  let block := store32 block off inodeNo
  let block := storeBytes block (off + 6) 1 nameLen
  let block := storeBytes block (off + 7) 1 type
  let block := storeBytes block (off + 4) 2 recLen
  copyString block (off + 8) name (name.length + 1)

def dot : BitVec 8 := 0x2E#8

/-- The root directory's block: `.` and `..`. -/
def formatRootBlock : Mem :=
  let block := putDirent zeroBuf 0 rootIno 12 1 typeDir [dot]
  putDirent block 12 rootIno (blockSize - 12) 2 typeDir [dot, dot]

/-- `crfs_format`; `none` stands for -1. -/
def crfsFormat (bdev : Device) (volumeName : List (BitVec 8)) (uuid : Mem) (uptimeMs rootMs : Nat) :
    Option Device :=
  let totalSegs := bdev.size / segSize
  if totalSegs < 16 then none
  else
    let sb := formatSuperblock totalSegs uptimeMs volumeName uuid
    let bdev := bdev.write 0 sb sizeofSuperblock
    let bdev := bdev.write blockSize sb sizeofSuperblock
    let bdev := bdev.write (3 * segSize) (formatRootInode rootMs) sizeofInodeDisk
    let bdev := bdev.write (4 * segSize) formatRootBlock blockSize
    some (bdev.write segSize sb sizeofSuperblock)

/-- The bytes of the segment bitmap; the device takes the length as a `uint32_t`. -/
def bitmapLen (totalSegs : Nat) : Nat := (totalSegs + 7) % 2 ^ 64 / 8 % 2 ^ 32

/-- The system segments are marked, whatever the bitmap says. -/
def markSystem (bitmap : Mem) : Mem := (List.range 5).foldl setSegBit bitmap

def File.zero : File where
  inUse := false
  flags := 0
  offset := 0
  inode := none

def Inode.zero : Inode where
  inodeNo := 0
  refCount := 0
  dirty := false
  disk := zeroBuf

/-- What is outside the file system: whether `kmalloc` fails, and what unset variables and
    fresh allocations hold. -/
structure Surroundings where
  oom : Nat → Bool
  unset : Nat
  heap : Mem

/-- `crfs_mount`; `none` stands for -1. The static variables of `crfs_alloc_block` are what
    the mounts before have left in them. The superblock is longer than the block that is
    read; the rest of it is padding. -/
def crfsMount (bdev : Device) (env : Surroundings) (blockInSeg currentSeg uptimeMs : Nat) : Option Fs :=
  let sb := bdev.read 0 zeroBuf blockSize
  if sbMagic sb ≠ magic then none
  else
    let sb := setSbLastMountTime sb uptimeMs
    let sb := setSbMountCount sb ((sbMountCount sb + 1) % 2 ^ 64)
    some
      { bdev := bdev
        sb := sb
        segBitmap := markSystem (bdev.read (2 * segSize) env.heap (bitmapLen (sbTotalSegs sb)))
        nextSeg := 5
        blockInSeg := blockInSeg
        currentSeg := currentSeg
        inodes := fun _ => Inode.zero
        inodeCount := 0
        inodeCache := fun _ => []
        files := fun _ => File.zero
        kmallocs := 0
        oom := env.oom
        unset := env.unset }

def crfsDoCheckpoint (fs : Fs) : Fs :=
  let seq := (sbCheckpointSeq fs.sb + 1) % 2 ^ 64
  let sb := setSbCheckpointSeq fs.sb seq
  let sb := setSbCheckpointOffset sb (if seq % 2 ≠ 0 then segSize else 2 * segSize)
  let fs := writeBlock { fs with sb := sb } 0 sb
  { fs with bdev := fs.bdev.write (2 * segSize) fs.segBitmap (bitmapLen (sbTotalSegs fs.sb)) }

/-- `crfs_sync`. -/
def crfsSync (fs : Fs) : Fs := crfsDoCheckpoint fs

/-! ## Inodes -/

/-- Where the inode of a number lies. -/
def inodeAddr (fs : Fs) (inodeNo : Nat) : Nat :=
  (sbInodeTableStart fs.sb * segSize + inodeNo * sizeofInodeDisk) % 2 ^ 64

def writeInode (fs : Fs) (r : InodeRef) : Fs :=
  let fs := fs.modDisk r fun d => setDiskChecksum d (crc32c d (sizeofInodeDisk - 4)).toNat
  writeBlock fs (inodeAddr fs (fs.inodes r).inodeNo) (fs.disk r)

/-- `crfs_iget`; `none` stands for a null pointer. -/
def crfsIget (fs : Fs) (inodeNo : Nat) : Option InodeRef × Fs :=
  let hash := inodeNo % 256
  match (fs.inodeCache hash).find? fun r => (fs.inodes r).inodeNo = inodeNo with
  | some r => (some r, fs.modInode r fun i => { i with refCount := (i.refCount + 1) % 2 ^ 32 })
  | none =>
    let fs' := { fs with kmallocs := fs.kmallocs + 1 }
    if fs.oom fs.kmallocs then (none, fs')
    else
      let r := fs.inodeCount
      let inode :=
        { inodeNo := inodeNo, refCount := 1, dirty := false, disk := readBlock fs (inodeAddr fs inodeNo) zeroBuf }
      (some r,
        { fs' with
          inodes := Function.update fs.inodes r inode
          inodeCount := r + 1
          inodeCache := Function.update fs.inodeCache hash (r :: fs.inodeCache hash) })

def crfsIput (fs : Fs) (r : InodeRef) : Fs :=
  let fs := fs.modInode r fun i => { i with refCount := (i.refCount + (2 ^ 32 - 1)) % 2 ^ 32 }
  if (fs.inodes r).refCount = 0 ∧ (fs.inodes r).dirty = true then writeInode fs r else fs

/-! ## Directories -/

def direntInodeNo (block : Mem) (off : Nat) : Nat := load32 block off
def direntRecLen (block : Mem) (off : Nat) : Nat := loadBytes block (off + 4) 2
def direntNameLen (block : Mem) (off : Nat) : Nat := loadBytes block (off + 6) 1

/-- `strncmp(de->name, name, n) == 0`, with the name of the record at `a` in a block. -/
def nameMatches (block : Mem) (a : Nat) (name : List (BitVec 8)) : Nat → Nat → Option Bool
  | 0, _ => some true
  | n + 1, i =>
    if blockSize ≤ a + i then none
    else if block (a + i) ≠ name.getD i 0 then some false
    else if block (a + i) = 0 then some true
    else nameMatches block a name n (i + 1)

/-- The records of a block from `off` on; the result is the inode number, if the name is
    there. -/
def dirScan (block : Mem) (name : List (BitVec 8)) : Nat → Nat → Option (Option Nat)
  | 0, _ => none
  | fuel + 1, off =>
    if blockSize ≤ off then some none
    else if blockSize < off + 4 then none
    else if direntInodeNo block off = 0 then some none
    else if blockSize < off + 6 then none
    else if direntRecLen block off = 0 then some none
    else if blockSize < off + 7 then none
    else
      match nameMatches block (off + 8) name (direntNameLen block off) 0 with
      | none => none
      | some true => some (some (direntInodeNo block off))
      | some false => dirScan block name fuel (off + direntRecLen block off)

/-- The blocks of a directory from block `b` on. -/
def lookupBlocks (fs : Fs) (r : InodeRef) (name : List (BitVec 8)) : Nat → Nat → Option (Option Nat)
  | 0, _ => none
  | fuel + 1, b =>
    if b < diskBlocks (fs.disk r) then
      let addr := inodeGetBlock fs r b
      if addr = 0 then lookupBlocks fs r name fuel (b + 1)
      else
        match dirScan (readBlock fs addr zeroBuf) name (blockSize + 1) 0 with
        | some none => lookupBlocks fs r name fuel (b + 1)
        | found => found
    else some none

/-- `crfs_dir_lookup`: the block number is a `uint32_t`, which comes back to zero. -/
def crfsDirLookup (fs : Fs) (r : InodeRef) (name : List (BitVec 8)) : Option (Option Nat) :=
  lookupBlocks fs r name (2 ^ 32) 0

/-- The first empty record of a block. -/
def emptyDirent (block : Mem) : Nat → Nat → Option (Option Nat)
  | 0, _ => none
  | fuel + 1, off =>
    if blockSize ≤ off then some none
    else if blockSize < off + 4 then none
    else if direntInodeNo block off = 0 then some (some off)
    else if blockSize < off + 6 then none
    else if direntRecLen block off = 0 then none
    else emptyDirent block fuel (off + direntRecLen block off)

/-- A block of a directory, allocated if there is none. -/
def dirBlock (fs : Fs) (r : InodeRef) (b : Nat) : Nat × Fs :=
  let addr := inodeGetBlock fs r b
  if addr ≠ 0 then (addr, fs)
  else
    let (addr, fs) := (allocBlock fs).getD (fs.unset, fs)
    let fs := (inodeSetBlock fs r b addr).2
    (addr, writeBlock fs addr zeroBuf)

/-- The loop of `crfs_dir_add` from block `b` on. -/
def addToBlocks (r : InodeRef) (name : List (BitVec 8)) (inodeNo type : Nat) : Nat → Nat → Fs → Option (Bool × Fs)
  | 0, _, _ => none
  | fuel + 1, b, fs =>
    if b < diskBlocks (fs.disk r) ∨ b = 0 then
      let (addr, fs) := dirBlock fs r b
      let block := readBlock fs addr zeroBuf
      match emptyDirent block (blockSize + 1) 0 with
      | none => none
      | some none => addToBlocks r name inodeNo type fuel (b + 1) fs
      | some (some off) =>
        if blockSize < off + 8 + name.length + 1 then none
        else
          let block := putDirent block off inodeNo (blockSize - off) name.length type name
          some (true, (writeBlock fs addr block).setDirty r)
    else some (false, fs)

/-- `crfs_dir_add`; `false` stands for -1. -/
def crfsDirAdd (fs : Fs) (r : InodeRef) (name : List (BitVec 8)) (inodeNo type : Nat) : Option (Bool × Fs) :=
  addToBlocks r name inodeNo type (2 ^ 32) 0 fs

/-! ## Opening and closing -/

def slash : BitVec 8 := 0x2F#8

/-- The walk through the components before the last one; `none` inside is -1. -/
def walkPath (fs : Fs) (inode : InodeRef) : List (List (BitVec 8)) → Option (Option InodeRef × Fs)
  | [] => some (some inode, fs)
  | token :: rest =>
    if token = [] then walkPath fs inode rest
    else
      match crfsDirLookup fs inode token with
      | none => none
      | some none => some (none, crfsIput fs inode)
      | some (some childIno) =>
        match crfsIget fs childIno with
        | (none, fs) => some (none, crfsIput fs inode)
        | (some child, fs) =>
          let fs := crfsIput fs inode
          if diskType (fs.disk child) ≠ typeDir then some (none, crfsIput fs child)
          else walkPath fs child rest

/-- The inode `crfs_open` builds for a new file. -/
def newInode (inodeNo : Nat) (flags : BitVec 32) (mode uptimeMs : Nat) : Mem :=
  let d := store32 zeroBuf 0 inodeNo
  let d := store32 d 4 (if flags &&& oDirectory ≠ 0#32 then typeDir else typeReg)
  let d := store32 d 8 mode
  let d := setDiskAtime d uptimeMs
  let d := setDiskMtime d uptimeMs
  let d := store64 d 52 uptimeMs
  let d := store64 d 60 1
  let d := store32 d 68 compLz4
  setDiskChecksum d (crc32c d (sizeofInodeDisk - 4)).toNat

/-- The number of a new inode. -/
def newInodeNo (uptimeUs : Nat) : Nat := if uptimeUs % 2 ^ 32 ≤ 1 then 2 else uptimeUs % 2 ^ 32

/-- The part of `crfs_open` that creates a file in a directory. -/
def createFile (fs : Fs) (dir : InodeRef) (name : List (BitVec 8)) (flags : BitVec 32)
    (mode uptimeUs uptimeMs : Nat) : Option Fs :=
  let fileIno := newInodeNo uptimeUs
  let inode := newInode fileIno flags mode uptimeMs
  let (addr, fs) := (allocBlock fs).getD (fs.unset, fs)
  let fs := writeBlock fs addr inode
  (crfsDirAdd fs dir name fileIno (diskType inode)).map Prod.snd

/-- The end of `crfs_open`: the inode, and a slot for it. -/
def openInode (fs : Fs) (fileIno : Nat) (flags : BitVec 32) : Int × Fs :=
  match crfsIget fs fileIno with
  | (none, fs) => (-1, fs)
  | (some r, fs) =>
    let fs :=
      if flags &&& oTrunc ≠ 0#32 ∧ diskType (fs.disk r) = typeReg then
        (fs.modDisk r fun d => setDiskBlocks (setDiskSize d 0) 0).setDirty r
      else fs
    match (List.range maxOpen).find? fun i => !(fs.files i).inUse with
    | some i =>
      (i, fs.modFile i fun _ =>
        { inUse := true
          flags := flags
          offset := if flags &&& oAppend ≠ 0#32 then diskSize (fs.disk r) else 0
          inode := some r })
    | none => (-1, crfsIput fs r)

/-- `crfs_open`, with the readings of the clock it makes. -/
def crfsOpen (fs : Fs) (path : List (BitVec 8)) (flags : BitVec 32) (mode uptimeUs uptimeMs : Nat) :
    Option (Int × Fs) :=
  match crfsIget fs rootIno with
  | (none, fs) => some (-1, fs)
  | (some dir, fs) =>
    let tokens := (path.take (maxPath - 1)).splitOn slash
    match walkPath fs dir tokens.dropLast with
    | none => none
    | some (none, fs) => some (-1, fs)
    | some (some inode, fs) =>
      let token := tokens.getLastD []
      if token = [] then some (-1, crfsIput fs inode)
      else
        match crfsDirLookup fs inode token with
        | none => none
        | some (some fileIno) => some (openInode (crfsIput fs inode) fileIno flags)
        | some none =>
          if flags &&& oCreat ≠ 0#32 then
            match createFile fs inode token flags mode uptimeUs uptimeMs with
            | none => none
            | some fs => some (openInode (crfsIput fs inode) (newInodeNo uptimeUs) flags)
          else some (-1, crfsIput fs inode)

/-- `crfs_close`. -/
def crfsClose (fs : Fs) (fd : Int) : Fs :=
  if fd < 0 ∨ (maxOpen : Int) ≤ fd then fs
  else
    let f := fs.files fd.toNat
    if f.inUse then
      let fs :=
        match f.inode with
        | some r => crfsIput (if (fs.inodes r).dirty then writeInode fs r else fs) r
        | none => fs
      fs.modFile fd.toNat fun f => { f with inUse := false, inode := none }
    else fs

end Crimson.Crfs
