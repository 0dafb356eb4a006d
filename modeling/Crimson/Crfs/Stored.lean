import Crimson.Crfs.Format
import Crimson.Crfs.ReadAfterWrite

/-!
# What the calls store

Most of what the calls do to an inode leaves its map alone: a reference is counted, a size or a
time is set, the inode is written to its place on the device. `Stored` says that, with the part
of the device that was written. The rest is `crfs_iget`, which may read an inode from the device
(`crfsIget_cases`), the loop of `crfs_write`, and `crfs_sync`, which writes the superblock and
the bitmap (`crfsSync_spec`).
-/

set_option autoImplicit false

namespace Crimson.Crfs

open Crimson.Lib Crimson.Mm

def InBlock (addr y : Nat) : Prop := addr ≤ y ∧ y < addr + blockSize

/-- The device is written in `area` only; the allocator and the maps in memory are left alone. -/
structure Stored (fs : Fs) (area : Nat → Prop) (fs' : Fs) : Prop where
  alloc : fs' = fs'.withAlloc fs
  writeFails : fs'.bdev.writeFails = fs.bdev.writeFails
  bytes : ∀ y, ¬area y → fs'.bdev.bytes y = fs.bdev.bytes y
  disks : ∀ r, AgreeOn (fs.disk r) (fs'.disk r) 88 112
  inodeNos : ∀ r, (fs'.inodes r).inodeNo = (fs.inodes r).inodeNo

section

variable {fs fs' fs'' : Fs} {area : Nat → Prop} {r : InodeRef} {addr : Nat}

theorem Stored.refl (fs : Fs) (area : Nat → Prop) : Stored fs area fs :=
  ⟨rfl, rfl, fun _ _ => rfl, fun _ _ _ _ => rfl, fun _ => rfl⟩

theorem Stored.trans (h : Stored fs area fs') (h' : Stored fs' area fs'') : Stored fs area fs'' where
  alloc := by
    have halloc := h.alloc
    have halloc' := h'.alloc
    rw [halloc] at halloc'
    exact halloc'
  writeFails := h'.writeFails.trans h.writeFails
  bytes := fun y hy => (h'.bytes y hy).trans (h.bytes y hy)
  disks := fun r => (h.disks r).trans (h'.disks r)
  inodeNos := fun r => (h'.inodeNos r).trans (h.inodeNos r)

theorem stored_modInode {f : Inode → Inode} (hdisk : ∀ i : Inode, AgreeOn i.disk (f i).disk 88 112)
    (hno : ∀ i : Inode, (f i).inodeNo = i.inodeNo) : Stored fs area (fs.modInode r f) where
  alloc := rfl
  writeFails := rfl
  bytes := fun _ _ => rfl
  disks := by
    intro r'
    unfold Fs.disk Fs.modInode
    by_cases hr : r' = r
    · rw [hr]
      dsimp only
      rw [Function.update_self]
      exact hdisk _
    · dsimp only
      rw [Function.update_of_ne hr]
      exact fun _ _ _ => rfl
  inodeNos := by
    intro r'
    unfold Fs.modInode
    by_cases hr : r' = r
    · rw [hr]
      dsimp only
      rw [Function.update_self]
      exact hno _
    · dsimp only
      rw [Function.update_of_ne hr]

theorem stored_modDisk {f : Mem → Mem} (hf : ∀ d : Mem, AgreeOn d (f d) 88 112) : Stored fs area (fs.modDisk r f) :=
  stored_modInode (fun i => hf i.disk) fun _ => rfl

theorem stored_setDirty : Stored fs area (fs.setDirty r) := stored_modInode (fun _ _ _ _ => rfl) fun _ => rfl

theorem stored_modFile (fd : Nat) (f : File → File) : Stored fs area (fs.modFile fd f) :=
  ⟨rfl, rfl, fun _ _ => rfl, fun _ _ _ _ => rfl, fun _ => rfl⟩

theorem stored_writeBlock (buf : Mem) : Stored fs (InBlock addr) (writeBlock fs addr buf) where
  alloc := rfl
  writeFails := rfl
  bytes := by
    intro y hy
    have hout : y < addr ∨ addr + blockSize ≤ y := by
      unfold InBlock at hy
      omega
    show (if fs.bdev.writeFails fs.bdev.writes then fs.bdev.bytes else copyBytes fs.bdev.bytes addr buf 0 blockSize) y = _
    split
    · rfl
    · exact copyBytes_of_notMem hout
  disks := fun _ _ _ _ => rfl
  inodeNos := fun _ => rfl

theorem stored_writeInode : Stored fs (InBlock (inodeAddr fs (fs.inodes r).inodeNo)) (writeInode fs r) := by
  have hsum : ∀ d : Mem, AgreeOn d (setDiskChecksum d (crc32c d (sizeofInodeDisk - 4)).toNat) 88 112 := fun d =>
    agreeOn_store32 (by decide)
  have hmod := @stored_modDisk fs (InBlock (inodeAddr fs (fs.inodes r).inodeNo)) r _ hsum
  refine hmod.trans ?_
  have hwrite := @stored_writeBlock (fs.modDisk r fun d => setDiskChecksum d (crc32c d (sizeofInodeDisk - 4)).toNat)
    (inodeAddr fs (fs.inodes r).inodeNo) ((fs.modDisk r fun d => setDiskChecksum d (crc32c d (sizeofInodeDisk - 4)).toNat).disk r)
  unfold writeInode
  dsimp only
  rw [hmod.inodeNos r]
  exact hwrite

theorem stored_crfsIput : Stored fs (InBlock (inodeAddr fs (fs.inodes r).inodeNo)) (crfsIput fs r) := by
  have hmod := @stored_modInode fs (InBlock (inodeAddr fs (fs.inodes r).inodeNo)) r
    (fun i => { i with refCount := (i.refCount + (2 ^ 32 - 1)) % 2 ^ 32 }) (fun _ _ _ _ => rfl) fun _ => rfl
  unfold crfsIput
  dsimp only
  split
  · refine hmod.trans ?_
    have hwrite := @stored_writeInode (fs.modInode r fun i => { i with refCount := (i.refCount + (2 ^ 32 - 1)) % 2 ^ 32 }) r
    rw [hmod.inodeNos r] at hwrite
    exact hwrite
  · exact hmod

theorem stored_crfsClose {fd : Int} (hr : (fs.files fd.toNat).inode = some r) :
    Stored fs (InBlock (inodeAddr fs (fs.inodes r).inodeNo)) (crfsClose fs fd) := by
  unfold crfsClose
  dsimp only
  split
  · exact Stored.refl _ _
  · split
    · rw [hr]
      dsimp only
      refine Stored.trans ?_ (stored_modFile _ _)
      split
      · have hwrite := @stored_writeInode fs r
        refine hwrite.trans ?_
        have hput := @stored_crfsIput (writeInode fs r) r
        rw [hwrite.inodeNos r] at hput
        exact hput
      · exact stored_crfsIput
    · exact Stored.refl _ _

theorem crfsClose_none {fd : Int} (hr : (fs.files fd.toNat).inode = none) : Stored fs area (crfsClose fs fd) := by
  unfold crfsClose
  dsimp only
  split
  · exact Stored.refl _ _
  · split
    · rw [hr]
      exact stored_modFile _ _
    · exact Stored.refl _ _

theorem stored_writeFinish (fd total uptimeMs : Nat) : Stored fs area (writeFinish fs fd r total uptimeMs) := by
  have hsize : ∀ (v w : Nat) (d : Mem), AgreeOn d (setDiskBlocks (setDiskSize d v) w) 88 112 := fun v w d =>
    (agreeOn_store64 (by decide)).trans (agreeOn_store64 (by decide))
  unfold writeFinish
  dsimp only
  refine Stored.trans ?_ stored_setDirty
  refine Stored.trans ?_ (stored_modDisk fun d => agreeOn_store64 (by decide))
  refine Stored.trans ?_ (stored_modFile _ _)
  split
  · exact stored_modDisk fun d => hsize _ _ d
  · exact Stored.refl _ _

end

/-- The inode that `crfs_write` writes to. -/
def writeTarget (fs : Fs) (fd : Int) : Option InodeRef :=
  if fd < 0 ∨ (maxOpen : Int) ≤ fd then none
  else if (fs.files fd.toNat).inUse = true ∧ (fs.files fd.toNat).flags &&& (oWronly ||| oRdwr) ≠ 0#32 then
    (fs.files fd.toNat).inode
  else none

theorem crfsWrite_eq (fs : Fs) (fd : Int) (buf : Mem) (count uptimeMs : Nat) :
    (crfsWrite fs fd buf count uptimeMs).2 =
      match writeTarget fs fd with
      | none => fs
      | some r => writeFinish (writeLoop r buf (fs.files fd.toNat).offset count count 0 fs) fd.toNat r count uptimeMs := by
  unfold crfsWrite writeTarget
  split
  · rfl
  · dsimp only
    cases huse : (fs.files fd.toNat).inUse with
    | false => simp
    | true =>
      cases hinode : (fs.files fd.toNat).inode with
      | none =>
        rw [ite_self]
      | some r =>
        dsimp only
        by_cases hflags : (fs.files fd.toNat).flags &&& (oWronly ||| oRdwr) = 0#32
        · rw [if_pos hflags, if_neg (fun h => h.2 hflags)]
        · rw [if_neg hflags, if_pos ⟨rfl, hflags⟩]

/-! ## Syncing -/

/-- **What `crfs_sync` writes**: the superblock and the bitmap. -/
structure Synced (fs fs' : Fs) : Prop where
  reliable : fs'.Reliable
  bytes : fs'.bdev.bytes =
    copyBytes (copyBytes fs.bdev.bytes 0 fs'.sb 0 blockSize) (2 * segSize) fs.segBitmap 0 (bitmapLen (sbTotalSegs fs.sb))
  total : sbTotalSegs fs'.sb = sbTotalSegs fs.sb
  segBitmap : fs'.segBitmap = fs.segBitmap
  nextSeg : fs'.nextSeg = fs.nextSeg
  blockInSeg : fs'.blockInSeg = fs.blockInSeg
  currentSeg : fs'.currentSeg = fs.currentSeg
  inodes : fs'.inodes = fs.inodes

theorem crfsSync_spec {fs : Fs} (hdev : fs.Reliable) : Synced fs (crfsSync fs) := by
  have htotal : ∀ v w, sbTotalSegs (setSbCheckpointOffset (setSbCheckpointSeq fs.sb v) w) = sbTotalSegs fs.sb := by
    intro v w
    unfold sbTotalSegs setSbCheckpointOffset setSbCheckpointSeq
    rw [load64_store64_disjoint (by decide), load64_store64_disjoint (by decide)]
  unfold crfsSync crfsDoCheckpoint
  dsimp only
  generalize (sbCheckpointSeq fs.sb + 1) % 2 ^ 64 = seq
  generalize hsb : setSbCheckpointOffset (setSbCheckpointSeq fs.sb seq) (if seq % 2 ≠ 0 then segSize else 2 * segSize) = sb
  have htotal : sbTotalSegs sb = sbTotalSegs fs.sb := by
    rw [← hsb]
    exact htotal _ _
  have hdev' : ({ fs with sb := sb } : Fs).Reliable := hdev
  have hfirst : (writeBlock { fs with sb := sb } 0 sb).bdev.bytes = copyBytes fs.bdev.bytes 0 sb 0 blockSize :=
    writeBlock_bytes hdev' 0 sb
  have hreliable : (writeBlock { fs with sb := sb } 0 sb).bdev.Reliable := hdev
  refine ⟨hdev, ?_, htotal, rfl, rfl, rfl, rfl, rfl⟩
  dsimp only
  rw [Device.write_bytes hreliable, hfirst]
  show copyBytes _ _ fs.segBitmap 0 (bitmapLen (sbTotalSegs sb)) = _
  rw [htotal]
  rfl

/-- A bitmap that ends before the inode table is written and read whole. -/
theorem bitmapLen_eq {total : Nat} (h : total ≤ 8 * segSize) : bitmapLen total = (total + 7) / 8 := by
  unfold bitmapLen
  unfold segSize at h
  omega

theorem bitmapLen_le {total : Nat} (h : total ≤ 8 * segSize) : bitmapLen total ≤ segSize := by
  rw [bitmapLen_eq h]
  unfold segSize at *
  omega

/-! ## Opening -/

/-- `crfs_iget` reads the inode from the device. -/
def loads (fs : Fs) (inodeNo : Nat) : Bool :=
  ((fs.inodeCache (inodeNo % 256)).find? fun r => (fs.inodes r).inodeNo = inodeNo).isNone && !fs.oom fs.kmallocs

/-- What `crfs_open` does with the inode it has got. -/
def openTail (fs : Fs) (r : InodeRef) (flags : BitVec 32) : Int × Fs :=
  let fs :=
    if flags &&& oTrunc ≠ 0#32 ∧ diskType (fs.disk r) = typeReg then
      (fs.modDisk r fun d => setDiskBlocks (setDiskSize d 0) 0).setDirty r
    else fs
  match (List.range maxOpen).find? fun i => !(fs.files i).inUse with
  | some i =>
    (i, fs.modFile i fun _ =>
      { inUse := true
        flags := flags
        offset := if flags &&& oAppend ≠ 0#32 then diskSize (fs.disk r) else 0
        inode := some r })
  | none => (-1, crfsIput fs r)

theorem openInode_eq (fs : Fs) (inodeNo : Nat) (flags : BitVec 32) :
    openInode fs inodeNo flags =
      match crfsIget fs inodeNo with
      | (none, fs) => (-1, fs)
      | (some r, fs) => openTail fs r flags := by
  generalize hopen : openInode fs inodeNo flags = out
  unfold openInode at hopen
  unfold openTail
  generalize crfsIget fs inodeNo = got at hopen ⊢
  cases got with
  | mk found fs =>
    cases found with
    | none => exact hopen.symm
    | some r =>
      dsimp only at hopen ⊢
      generalize (if flags &&& oTrunc ≠ 0#32 ∧ diskType (fs.disk r) = typeReg then
        (fs.modDisk r fun d => setDiskBlocks (setDiskSize d 0) 0).setDirty r else fs) = fs' at hopen ⊢
      generalize ((List.range maxOpen).find? fun i => !(fs'.files i).inUse) = slot at hopen ⊢
      cases slot with
      | none => exact hopen.symm
      | some i => exact hopen.symm

section

variable {fs : Fs} {r : InodeRef} {inodeNo : Nat} {flags : BitVec 32}

theorem stored_openTail : Stored fs (InBlock (inodeAddr fs (fs.inodes r).inodeNo)) (openTail fs r flags).2 := by
  have htrunc : ∀ d : Mem, AgreeOn d (setDiskBlocks (setDiskSize d 0) 0) 88 112 := fun d =>
    (agreeOn_store64 (by decide)).trans (agreeOn_store64 (by decide))
  unfold openTail
  dsimp only
  have hfirst : Stored fs (InBlock (inodeAddr fs (fs.inodes r).inodeNo))
      (if flags &&& oTrunc ≠ 0#32 ∧ diskType (fs.disk r) = typeReg then
        (fs.modDisk r fun d => setDiskBlocks (setDiskSize d 0) 0).setDirty r
      else fs) := by
    split
    · exact (stored_modDisk htrunc).trans stored_setDirty
    · exact Stored.refl _ _
  generalize hfs' : (if flags &&& oTrunc ≠ 0#32 ∧ diskType (fs.disk r) = typeReg then
        (fs.modDisk r fun d => setDiskBlocks (setDiskSize d 0) 0).setDirty r
      else fs) = fs' at hfirst ⊢
  have haddr : inodeAddr fs' (fs'.inodes r).inodeNo = inodeAddr fs (fs.inodes r).inodeNo := by
    rw [hfirst.inodeNos]
    have halloc := hfirst.alloc
    unfold inodeAddr
    rw [halloc]
    rfl
  split
  · dsimp only
    exact hfirst.trans (stored_modFile _ _)
  · have hput := @stored_crfsIput fs' r
    rw [haddr] at hput
    exact hfirst.trans hput

/-- What `crfs_iget` does when it reads the inode from the device. -/
structure Loaded (fs : Fs) (inodeNo : Nat) (fs' : Fs) : Prop where
  alloc : fs' = fs'.withAlloc fs
  bdev : fs'.bdev = fs.bdev
  inodes : fs'.inodes = Function.update fs.inodes fs.inodeCount
    { inodeNo := inodeNo, refCount := 1, dirty := false, disk := readBlock fs (inodeAddr fs inodeNo) zeroBuf }
  inodeCount : fs'.inodeCount = fs.inodeCount + 1
  inodeCache : fs'.inodeCache =
    Function.update fs.inodeCache (inodeNo % 256) (fs.inodeCount :: fs.inodeCache (inodeNo % 256))
  files : fs'.files = fs.files

theorem Loaded.disk_new {fs fs' : Fs} {inodeNo : Nat} (hl : Loaded fs inodeNo fs') :
    fs'.disk fs.inodeCount = readBlock fs (inodeAddr fs inodeNo) zeroBuf := by
  unfold Fs.disk
  rw [hl.inodes, Function.update_self]

theorem Loaded.disk_old {fs fs' : Fs} {inodeNo : Nat} (hl : Loaded fs inodeNo fs') {r : InodeRef} (hr : r ≠ fs.inodeCount) :
    fs'.disk r = fs.disk r := by
  unfold Fs.disk
  rw [hl.inodes, Function.update_of_ne hr]

/-- The three ways of `crfs_iget`: the inode is in the cache, there is no memory for it, or it is
    read. -/
theorem crfsIget_cases (fs : Fs) (inodeNo : Nat) :
    (loads fs inodeNo = false ∧ ∃ r, r ∈ fs.inodeCache (inodeNo % 256) ∧ (fs.inodes r).inodeNo = inodeNo ∧
        crfsIget fs inodeNo = (some r, fs.modInode r fun i => { i with refCount := (i.refCount + 1) % 2 ^ 32 })) ∨
      (loads fs inodeNo = false ∧ crfsIget fs inodeNo = (none, { fs with kmallocs := fs.kmallocs + 1 })) ∨
      (loads fs inodeNo = true ∧ ∃ fs', crfsIget fs inodeNo = (some fs.inodeCount, fs') ∧ Loaded fs inodeNo fs') := by
  unfold crfsIget loads
  dsimp only
  cases hfind : (fs.inodeCache (inodeNo % 256)).find? fun r => (fs.inodes r).inodeNo = inodeNo with
  | some r =>
    have hno := List.find?_some hfind
    exact Or.inl ⟨rfl, r, List.mem_of_find?_eq_some hfind, by simpa using hno, rfl⟩
  | none =>
    cases hoom : fs.oom fs.kmallocs with
    | true => exact Or.inr (Or.inl ⟨rfl, rfl⟩)
    | false => exact Or.inr (Or.inr ⟨rfl, _, rfl, rfl, rfl, rfl, rfl, rfl, rfl⟩)

end

end Crimson.Crfs
