import Crimson.Crfs.Tables

/-!
# The virtual file system (`vfs.c`)

A descriptor of `fd_table` stands for a slot of the file table of CrimsonFS, kept in `node`.
Both have an offset. Opening takes any function in the place of the directory lookup, as
`crfsOpenWith` does; `fsOpen` is the one with `crfs_dir_lookup`.

Descriptor numbers are C integers of any value. Offsets are `uint64_t`, and sums wrap.
-/

set_option autoImplicit false

namespace Crimson.Vfs

open Crimson.Lib Crimson.Mm Crimson.Crfs

def FS_MAX_OPEN : Nat := 256

def FS_O_WRONLY : BitVec 32 := 1#32
def FS_O_RDWR : BitVec 32 := 2#32
def FS_O_CREAT : BitVec 32 := 0x40#32
def FS_O_TRUNC : BitVec 32 := 0x200#32
def FS_O_APPEND : BitVec 32 := 0x400#32

def FS_SEEK_SET : Int := 0
def FS_SEEK_CUR : Int := 1
def FS_SEEK_END : Int := 2

/-- `fs_file_t`. The pointer `node` holds a number, the slot. -/
structure FsFile where
  valid : Bool
  flags : BitVec 32
  offset : Nat
  node : Nat
deriving DecidableEq, Repr

def FsFile.zero : FsFile where
  valid := false
  flags := 0
  offset := 0
  node := 0

/-- The static variables of `vfs.c`, with the volume that is mounted. -/
structure Vfs where
  initialized : Bool
  fdTable : Nat → FsFile
  fs : Fs

def Vfs.modFd (st : Vfs) (fd : Nat) (f : FsFile → FsFile) : Vfs :=
  { st with fdTable := Function.update st.fdTable fd (f (st.fdTable fd)) }

/-- `fs_init`. -/
def fsInit (fs : Fs) : Vfs where
  initialized := true
  fdTable := fun _ => FsFile.zero
  fs := fs

/-- `alloc_fd`; `none` stands for -1. The first three are reserved. -/
def allocFd (st : Vfs) : Option (Nat × Vfs) :=
  ((List.range' 3 (FS_MAX_OPEN - 3)).find? fun i => !(st.fdTable i).valid).map fun i =>
    (i, st.modFd i fun f => { f with valid := true, offset := 0 })

def freeFd (st : Vfs) (fd : Nat) : Vfs :=
  st.modFd fd fun f => { f with valid := false, offset := 0, node := 0 }

/-- One flag after another, as `fs_open` converts them. -/
def crfsFlags (flags : BitVec 32) : BitVec 32 :=
  let put (fsFlag flag crfsFlags : BitVec 32) := if flags &&& fsFlag ≠ 0#32 then crfsFlags ||| flag else crfsFlags
  let crfsFlags := put FS_O_WRONLY oWronly 0#32
  let crfsFlags := put FS_O_RDWR oRdwr crfsFlags
  let crfsFlags := put FS_O_CREAT oCreat crfsFlags
  let crfsFlags := put FS_O_TRUNC oTrunc crfsFlags
  put FS_O_APPEND oAppend crfsFlags

/-- `fs_open` with any lookup; a null path is `none`. -/
def fsOpenWith (look : Lookup) (st : Vfs) (path : Option (List (BitVec 8))) (flags : BitVec 32)
    (uptimeUs uptimeMs : Nat) : Option (Int × Vfs) :=
  match st.initialized, path with
  | true, some path =>
    match allocFd st with
    | none => some (-1, st)
    | some (fd, st) =>
      match crfsOpenWith look st.fs path (crfsFlags flags) 0o644 uptimeUs uptimeMs with
      | none => none
      | some (crfsFd, fs) =>
        let st := { st with fs := fs }
        if crfsFd < 0 then some (-1, freeFd st fd)
        else some (fd, st.modFd fd fun f => { f with flags := flags, offset := 0, node := crfsFd.toNat })
  | _, _ => some (-1, st)

/-- `fs_open`. -/
def fsOpen (st : Vfs) (path : Option (List (BitVec 8))) (flags : BitVec 32) (uptimeUs uptimeMs : Nat) :
    Option (Int × Vfs) := fsOpenWith crfsDirLookup st path flags uptimeUs uptimeMs

/-- The descriptor a number stands for, if it may be used. -/
def fdValid (st : Vfs) (fd : Int) : Prop :=
  st.initialized = true ∧ 0 ≤ fd ∧ fd < FS_MAX_OPEN ∧ (st.fdTable fd.toNat).valid = true

instance (st : Vfs) (fd : Int) : Decidable (fdValid st fd) :=
  inferInstanceAs (Decidable (st.initialized = true ∧ 0 ≤ fd ∧ fd < FS_MAX_OPEN ∧ (st.fdTable fd.toNat).valid = true))

/-- `fs_close`. -/
def fsClose (st : Vfs) (fd : Int) : Vfs :=
  if fdValid st fd then freeFd { st with fs := crfsClose st.fs (st.fdTable fd.toNat).node } fd.toNat else st

/-- The descriptor after `n` bytes have been read or written. -/
def advance (st : Vfs) (fd : Nat) (n : Int) : Vfs :=
  if 0 < n then st.modFd fd fun f => { f with offset := (f.offset + n.toNat) % 2 ^ 64 } else st

/-- `fs_read`: the bytes read, the buffer, the state. -/
def fsRead (st : Vfs) (fd : Int) (buf : Option Mem) (count : UInt64) (uptimeMs : Nat) : Int × Option Mem × Vfs :=
  match buf with
  | none => (-1, none, st)
  | some buf =>
    if fdValid st fd then
      let r := crfsRead st.fs (st.fdTable fd.toNat).node buf count.toNat uptimeMs
      (r.1, some r.2.1, advance { st with fs := r.2.2 } fd.toNat r.1)
    else (-1, some buf, st)

/-- `fs_write`. -/
def fsWrite (st : Vfs) (fd : Int) (buf : Option Mem) (count : UInt64) (uptimeMs : Nat) : Int × Vfs :=
  match buf with
  | none => (-1, st)
  | some buf =>
    if fdValid st fd then
      let r := crfsWrite st.fs (st.fdTable fd.toNat).node buf count.toNat uptimeMs
      (r.1, advance { st with fs := r.2 } fd.toNat r.1)
    else (-1, st)

/-- The `switch` of `fs_lseek`. -/
def seekOffset (cur : Nat) (offset whence : Int) : Nat :=
  if whence = FS_SEEK_SET then (offset % 2 ^ 64).toNat
  else if whence = FS_SEEK_CUR then ((cur + offset) % 2 ^ 64).toNat
  else if whence = FS_SEEK_END then ((if 0 < offset then offset else 0) % 2 ^ 64).toNat
  else cur

/-- `fs_lseek`. -/
def fsLseek (st : Vfs) (fd : Int) (offset whence : Int) : Int × Vfs :=
  if fdValid st fd then
    let st := st.modFd fd.toNat fun f => { f with offset := seekOffset f.offset offset whence }
    (asInt64 (st.fdTable fd.toNat).offset, st)
  else (-1, st)

/-- A call, with its arguments and what it reads of the clock. -/
inductive VfsOp
  | fsOpen (look : Lookup) (path : Option (List (BitVec 8))) (flags : BitVec 32) (uptimeUs uptimeMs : Nat)
  | fsClose (fd : Int)
  | fsRead (fd : Int) (buf : Option Mem) (count : UInt64) (uptimeMs : Nat)
  | fsWrite (fd : Int) (buf : Option Mem) (count : UInt64) (uptimeMs : Nat)
  | fsLseek (fd offset whence : Int)

/-- One call of a history. -/
def vfsStep (st : Vfs) : VfsOp → Option Vfs
  | .fsOpen look path flags us ms => (fsOpenWith look st path flags us ms).map Prod.snd
  | .fsClose fd => some (fsClose st fd)
  | .fsRead fd buf count ms => some (fsRead st fd buf count ms).2.2
  | .fsWrite fd buf count ms => some (fsWrite st fd buf count ms).2
  | .fsLseek fd offset whence => some (fsLseek st fd offset whence).2

end Crimson.Vfs
