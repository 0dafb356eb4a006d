import Crimson.Crfs.Stored

/-!
# What all writes have in common

`crfs_write` and the creation of a file consist of a few kinds of steps: a block is written, the
allocator moves, an inode in memory is changed. A relation of states that holds across each of
these, and can be chained, holds across the whole (`WriteRel`).
-/

set_option autoImplicit false

namespace Crimson.Crfs

open Crimson.Lib Crimson.Mm

/-- **A relation that no step of a write breaks.** -/
structure WriteRel (R : Fs → Fs → Prop) : Prop where
  refl : ∀ fs, R fs fs
  trans : ∀ {fs fs' fs''}, R fs fs' → R fs' fs'' → R fs fs''
  writeBlock : ∀ fs addr buf, R fs (writeBlock fs addr buf)
  withAlloc : ∀ fs g, R fs (fs.withAlloc g)
  modDisk : ∀ fs r f, R fs (fs.modDisk r f)
  setDirty : ∀ fs r, R fs (fs.setDirty r)

section

variable {R : Fs → Fs → Prop} {fs fs' : Fs} {r : InodeRef}

/-- A block that may not have been allocated. -/
theorem WriteRel.allocBlock (h : WriteRel R) (fs : Fs) : R fs ((allocBlock fs).getD (fs.unset, fs)).2 := by
  cases ha : Crfs.allocBlock fs with
  | none => exact h.refl fs
  | some x =>
    rw [Option.getD_some, allocBlock_self ha]
    exact h.withAlloc fs x.2

theorem WriteRel.allocPtrs (h : WriteRel R) {x : Nat × Fs} (hx : allocPtrs fs = some x) : R fs x.2 := by
  obtain ⟨y, hy, rfl⟩ := Option.map_eq_some_iff.mp hx
  have halloc : R fs y.2 := by
    rw [allocBlock_self hy]
    exact h.withAlloc fs y.2
  exact h.trans halloc (h.writeBlock _ _ _)

/-- A table of an inode that is allocated if it is not there. -/
theorem WriteRel.root (h : WriteRel R) (set : Mem → Nat → Mem) {root : Nat}
    (hroot : (if root = 0 then (Crfs.allocPtrs fs).map fun x => x.2.modDisk r fun d => set d x.1 else some fs) = some fs') :
    R fs fs' := by
  split at hroot
  · obtain ⟨x, hx, rfl⟩ := Option.map_eq_some_iff.mp hroot
    exact h.trans (h.allocPtrs hx) (h.modDisk _ _ _)
  · cases hroot
    exact h.refl fs

/-- A table below that one. -/
theorem WriteRel.next (h : WriteRel R) {l1 i l1Ptr : Nat} {x : Nat × Fs}
    (hnext : (if l1Ptr = 0 then (Crfs.allocPtrs fs).map fun x => (x.1, writePtr x.2 l1 i x.1) else some (l1Ptr, fs)) = some x) :
    R fs x.2 := by
  split at hnext
  · obtain ⟨y, hy, rfl⟩ := Option.map_eq_some_iff.mp hnext
    exact h.trans (h.allocPtrs hy) (h.writeBlock _ _ _)
  · cases hnext
    exact h.refl fs

theorem WriteRel.writePtr (h : WriteRel R) (fs : Fs) (r : InodeRef) (addr i v : Nat) :
    R fs ((writePtr fs addr i v).setDirty r) := h.trans (h.writeBlock _ _ _) (h.setDirty _ _)

theorem WriteRel.inodeSetBlock (h : WriteRel R) (fs : Fs) (r : InodeRef) (blockNo diskAddr : Nat) :
    R fs (inodeSetBlock fs r blockNo diskAddr).2 := by
  unfold Crfs.inodeSetBlock
  by_cases hdirect : blockNo < indirectBase
  · rw [if_pos hdirect]
    exact h.trans (h.modDisk _ _ _) (h.setDirty _ _)
  rw [if_neg hdirect]
  by_cases hindirect : blockNo - indirectBase < ptrsPerBlock
  · rw [if_pos hindirect]
    dsimp only
    generalize hroot : (if diskIndirect (fs.disk r) = 0 then
      (Crfs.allocPtrs fs).map fun x => x.2.modDisk r fun d => setDiskIndirect d x.1 else some fs) = root
    cases root with
    | none => exact h.refl fs
    | some fs₁ => exact h.trans (h.root setDiskIndirect hroot) (h.writePtr _ _ _ _ _)
  rw [if_neg hindirect]
  dsimp only
  by_cases hdouble : blockNo - dindirectBase < ptrsPerBlock * ptrsPerBlock
  · rw [if_pos hdouble]
    generalize hroot : (if diskDoubleIndirect (fs.disk r) = 0 then
      (Crfs.allocPtrs fs).map fun x => x.2.modDisk r fun d => setDiskDoubleIndirect d x.1 else some fs) = root
    cases root with
    | none => exact h.refl fs
    | some fs₁ =>
      dsimp only
      generalize ptrAt (readBlock fs₁ (diskDoubleIndirect (fs₁.disk r)) zeroBuf)
        ((blockNo - dindirectBase) / ptrsPerBlock) = l1Ptr
      generalize hnext : (if l1Ptr = 0 then (Crfs.allocPtrs fs₁).map fun x =>
        (x.1, Crfs.writePtr x.2 (diskDoubleIndirect (fs₁.disk r)) ((blockNo - dindirectBase) / ptrsPerBlock) x.1)
          else some (l1Ptr, fs₁)) = next
      cases next with
      | none => exact h.root setDiskDoubleIndirect hroot
      | some x => exact h.trans (h.root setDiskDoubleIndirect hroot) (h.trans (h.next hnext) (h.writePtr _ _ _ _ _))
  · rw [if_neg hdouble]
    exact h.refl fs

theorem WriteRel.freeBlock (h : WriteRel R) (fs : Fs) (addr : Nat) : R fs (freeBlock fs addr) :=
  h.withAlloc fs (Crfs.freeBlock fs addr)

/-- A block that is allocated, written and linked in an inode. -/
theorem WriteRel.link (h : WriteRel R) {x : Nat × Fs} (buf : Mem) (b : Nat) (hx : R fs x.2) :
    R fs (Crfs.inodeSetBlock (Crfs.writeBlock x.2 x.1 buf) r b x.1).2 :=
  h.trans hx (h.trans (h.writeBlock x.2 x.1 buf) (h.inodeSetBlock _ r b x.1))

theorem WriteRel.writeChunk (h : WriteRel R) (fs : Fs) (r : InodeRef) (c : Chunk) (buf : Mem) (total : Nat) :
    R fs (writeChunk fs r c buf total) := by
  unfold Crfs.writeChunk
  dsimp only
  have halloc := h.allocBlock fs
  generalize (Crfs.allocBlock fs).getD (fs.unset, fs) = x at halloc
  split
  · exact h.trans (h.link _ _ halloc) (h.freeBlock _ _)
  · exact h.link _ _ halloc

/-- **The loop of `crfs_write`.** -/
theorem WriteRel.writeLoop (h : WriteRel R) (buf : Mem) (offset count fuel total : Nat) (fs : Fs) :
    R fs (writeLoop r buf offset count fuel total fs) := by
  induction fuel generalizing total fs with
  | zero => exact h.refl fs
  | succ fuel ih =>
    unfold Crfs.writeLoop
    split
    · exact h.trans (h.writeChunk _ _ _ buf total) (ih _ _)
    · exact h.refl fs

theorem WriteRel.dirBlock (h : WriteRel R) (fs : Fs) (r : InodeRef) (b : Nat) : R fs (dirBlock fs r b).2 := by
  unfold Crfs.dirBlock
  dsimp only
  split
  · exact h.refl fs
  · have halloc := h.allocBlock fs
    generalize (Crfs.allocBlock fs).getD (fs.unset, fs) = x at halloc
    exact h.trans halloc (h.trans (h.inodeSetBlock x.2 r b x.1) (h.writeBlock _ _ _))

/-- **The loop of `crfs_dir_add`.** -/
theorem WriteRel.addToBlocks (h : WriteRel R) {name : List (BitVec 8)} {inodeNo type fuel b : Nat} {x : Bool × Fs}
    (hadd : addToBlocks r name inodeNo type fuel b fs = some x) : R fs x.2 := by
  induction fuel generalizing b fs with
  | zero => cases hadd
  | succ fuel ih =>
    unfold Crfs.addToBlocks at hadd
    split at hadd
    · have hblock := h.dirBlock fs r b
      generalize Crfs.dirBlock fs r b = y at hadd hblock
      dsimp only at hadd
      split at hadd
      · cases hadd
      · exact h.trans hblock (ih hadd)
      · split at hadd
        · cases hadd
        · cases hadd
          exact h.trans hblock (h.trans (h.writeBlock _ _ _) (h.setDirty _ _))
    · cases hadd
      exact h.refl fs

/-- **Creating a file.** -/
theorem WriteRel.createFile (h : WriteRel R) {name : List (BitVec 8)} {flags : BitVec 32} {mode uptimeUs uptimeMs : Nat}
    (hcreate : createFile fs r name flags mode uptimeUs uptimeMs = some fs') : R fs fs' := by
  unfold Crfs.createFile at hcreate
  dsimp only at hcreate
  have halloc := h.allocBlock fs
  generalize (Crfs.allocBlock fs).getD (fs.unset, fs) = y at hcreate halloc
  obtain ⟨x, hx, rfl⟩ := Option.map_eq_some_iff.mp hcreate
  exact h.trans halloc (h.trans (h.writeBlock _ _ _) (h.addToBlocks hx))

end

end Crimson.Crfs
