import Crimson.Crfs.Directory

/-!
# What creating a file leaves alone

`crfs_dir_add` writes blocks of the directory, tables of its map, and nothing else on the device.
A block that is apart from these (`DirApart`) keeps its contents, and so does everything that
`crfs_iget` goes by for another inode: the cache, the other inodes, the place of the table
(`DirFrame`).
-/

set_option autoImplicit false

namespace Crimson.Crfs

open Crimson.Lib Crimson.Mm

/-- The block at `t`, the inodes but `r`, and what `crfs_iget` goes by, are what they were. -/
structure DirFrame (t : Nat) (r : InodeRef) (fs fs' : Fs) : Prop where
  writeFails : fs'.bdev.writeFails = fs.bdev.writeFails
  block : ∀ y, InBlock t y → fs'.bdev.bytes y = fs.bdev.bytes y
  others : ∀ q, q ≠ r → fs'.inodes q = fs.inodes q
  inodeNo : (fs'.inodes r).inodeNo = (fs.inodes r).inodeNo
  inodeCount : fs'.inodeCount = fs.inodeCount
  inodeCache : fs'.inodeCache = fs.inodeCache
  kmallocs : fs'.kmallocs = fs.kmallocs
  oom : fs'.oom = fs.oom
  tableStart : sbInodeTableStart fs'.sb = sbInodeTableStart fs.sb

/-- The tables on the way to block `b` that are there. -/
def tablesTo (m d : Mem) (b : Nat) : List Nat :=
  if b < indirectBase then []
  else if b - indirectBase < ptrsPerBlock then [diskIndirect d]
  else if diskDoubleIndirect d = 0 then []
  else [diskDoubleIndirect d, load64 m (diskDoubleIndirect d + 8 * ((b - dindirectBase) / ptrsPerBlock))]

/-- **What is written for block `b` of a directory** is apart from the block at `t`: the block
    itself, and if it has to be allocated, the tables, there or new. -/
structure DirApart (t : Nat) (r : InodeRef) (fs : Fs) (b : Nat) : Prop where
  block : BlocksApart t (dirBlock fs r b).1
  tables : inodeGetBlock fs r b = 0 → ∀ x ∈ tablesTo fs.bdev.bytes (fs.disk r) b, x ≠ 0 → BlocksApart t x
  new : inodeGetBlock fs r b = 0 → ∀ n new fs', n ≤ 3 → allocs n fs = some (new, fs') → ∀ x ∈ new, BlocksApart t x

section

variable {fs fs' fs'' : Fs} {t a b n : Nat} {r : InodeRef}

theorem DirFrame.refl (t : Nat) (r : InodeRef) (fs : Fs) : DirFrame t r fs fs :=
  ⟨rfl, fun _ _ => rfl, fun _ _ => rfl, rfl, rfl, rfl, rfl, rfl, rfl⟩

theorem DirFrame.trans (h : DirFrame t r fs fs') (h' : DirFrame t r fs' fs'') : DirFrame t r fs fs'' where
  writeFails := h'.writeFails.trans h.writeFails
  block := fun y hy => (h'.block y hy).trans (h.block y hy)
  others := fun q hq => (h'.others q hq).trans (h.others q hq)
  inodeNo := h'.inodeNo.trans h.inodeNo
  inodeCount := h'.inodeCount.trans h.inodeCount
  inodeCache := h'.inodeCache.trans h.inodeCache
  kmallocs := h'.kmallocs.trans h.kmallocs
  oom := h'.oom.trans h.oom
  tableStart := h'.tableStart.trans h.tableStart

theorem DirFrame.reliable (h : DirFrame t r fs fs') (hdev : fs.Reliable) : fs'.Reliable := by
  intro k
  rw [h.writeFails]
  exact hdev k

theorem frame_writeBlock (buf : Mem) (h : BlocksApart t a) : DirFrame t r fs (writeBlock fs a buf) := by
  refine ⟨rfl, ?_, fun _ _ => rfl, rfl, rfl, rfl, rfl, rfl, rfl⟩
  intro y hy
  refine (stored_writeBlock buf).bytes y ?_
  unfold BlocksApart at h
  unfold InBlock at hy ⊢
  omega

theorem frame_modInode {f : Inode → Inode} (hf : ∀ i, (f i).inodeNo = i.inodeNo) : DirFrame t r fs (fs.modInode r f) := by
  refine ⟨rfl, fun _ _ => rfl, fun q hq => Function.update_of_ne hq _ _, ?_, rfl, rfl, rfl, rfl, rfl⟩
  show (Function.update fs.inodes r _ r).inodeNo = _
  rw [Function.update_self]
  exact hf _

theorem frame_modDisk (f : Mem → Mem) : DirFrame t r fs (fs.modDisk r f) := frame_modInode fun _ => rfl

theorem frame_setDirty : DirFrame t r fs (fs.setDirty r) := frame_modInode fun _ => rfl

theorem frame_allocBlock (h : allocBlock fs = some (a, fs')) : DirFrame t r fs fs' := by
  have htable : sbInodeTableStart fs'.sb = sbInodeTableStart fs.sb := by
    rcases allocBlock_cases h with ⟨-, -, rfl, -⟩ | ⟨seg, fs₁, -, hseg, rfl, -⟩
    · rfl
    · exact (allocSegment_cursor hseg).2
  rw [allocBlock_self h] at htable ⊢
  exact ⟨rfl, fun _ _ => rfl, fun _ _ => rfl, rfl, rfl, rfl, rfl, rfl, htable⟩

theorem allocBlock_lt (h : allocBlock fs = some (a, fs')) : a < 2 ^ 64 := by
  rcases allocBlock_cases h with ⟨-, -, -, rfl⟩ | ⟨seg, fs₁, -, -, -, rfl⟩
  · exact Nat.mod_lt _ (by decide)
  · exact Nat.mod_lt _ (by decide)

/-- A block of pointers, of the blocks that are handed out next. -/
theorem frame_allocPtrs {x : Nat × Fs} (h : allocPtrs fs = some x)
    (hnew : ∀ new fs', allocs 1 fs = some (new, fs') → ∀ y ∈ new, BlocksApart t y) :
    DirFrame t r fs x.2 ∧ BlocksApart t x.1 ∧ x.1 < 2 ^ 64 := by
  obtain ⟨⟨a, f⟩, ha, rfl⟩ := Option.map_eq_some_iff.mp h
  have hall : allocs 1 fs = some ([a], f) := by
    rw [allocs, ha]
    rfl
  have hapart := hnew [a] f hall a List.mem_cons_self
  exact ⟨(frame_allocBlock ha).trans (frame_writeBlock zeroBuf hapart), hapart, allocBlock_lt ha⟩

/-- The blocks that are handed out after it. -/
theorem allocs_after_ptrs {x : Nat × Fs} {f : Mem → Mem} {new : List Nat} (h : allocPtrs fs = some x)
    (hall : allocs n (x.2.modDisk r f) = some (new, fs')) : ∃ fs'', allocs (n + 1) fs = some (x.1 :: new, fs'') := by
  obtain ⟨⟨a, f₁⟩, ha, rfl⟩ := Option.map_eq_some_iff.mp h
  have hself : (writeBlock f₁ a zeroBuf).modDisk r f = ((writeBlock f₁ a zeroBuf).modDisk r f).withAlloc f₁ := rfl
  dsimp only at hall
  rw [hself, allocs_withAlloc] at hall
  obtain ⟨⟨new', f₂⟩, hnew, heq⟩ := Option.map_eq_some_iff.mp hall
  obtain rfl := (Prod.mk.inj heq).1
  refine ⟨f₂, ?_⟩
  rw [allocs, ha, Option.bind_some, hnew]
  rfl

/-- The entries of a table that was just added are null. -/
theorem null_after_ptrs {x : Nat × Fs} (hdev : fs.Reliable) (h : allocPtrs fs = some x) {i : Nat} (hi : i < ptrsPerBlock) :
    ptrAt (readBlock (x.2.modDisk r fun d => setDiskDoubleIndirect d x.1) x.1 zeroBuf) i = 0 := by
  obtain ⟨⟨a, f₁⟩, ha, rfl⟩ := Option.map_eq_some_iff.mp h
  have hdev' : f₁.Reliable := by
    rw [allocBlock_self ha]
    exact hdev
  rw [ptrAt_readBlock _ _ hi]
  show load64 (writeBlock f₁ a zeroBuf).bdev.bytes (a + 8 * i) = 0
  rw [writeBlock_bytes hdev']
  exact load64_cleared hi fun _ _ _ => rfl

/-- The last table gets the block. -/
theorem frame_writePtr {x i : Nat} (hx : BlocksApart t x) : DirFrame t r fs ((writePtr fs x i a).setDirty r) :=
  (frame_writeBlock _ hx).trans frame_setDirty

/-- **`crfs_inode_set_block`** writes the tables, those that were there and those that are new. -/
theorem frame_inodeSetBlock (hdev : fs.Reliable)
    (htables : ∀ x ∈ tablesTo fs.bdev.bytes (fs.disk r) b, x ≠ 0 → BlocksApart t x)
    (hnew : ∀ n new fs', n ≤ 2 → allocs n fs = some (new, fs') → ∀ x ∈ new, BlocksApart t x) :
    DirFrame t r fs (inodeSetBlock fs r b a).2 := by
  unfold tablesTo at htables
  unfold inodeSetBlock
  by_cases h₁ : b < indirectBase
  · rw [if_pos h₁]
    exact (frame_modDisk _).trans frame_setDirty
  by_cases h₂ : b - indirectBase < ptrsPerBlock
  · rw [if_neg h₁, if_pos h₂] at htables ⊢
    dsimp only
    by_cases hz : diskIndirect (fs.disk r) = 0
    · rw [if_pos hz]
      cases hptrs : allocPtrs fs with
      | none => exact DirFrame.refl t r fs
      | some x =>
        obtain ⟨hframe, hapart, hlt⟩ := frame_allocPtrs hptrs fun new fs' => hnew 1 new fs' (by decide)
        have hroot : diskIndirect ((x.2.modDisk r fun d => setDiskIndirect d x.1).disk r) = x.1 := by
          rw [Fs.disk_modDisk]
          exact load64_store64_same hlt
        rw [Option.map_some]
        dsimp only
        rw [hroot]
        exact (hframe.trans (frame_modDisk _)).trans (frame_writePtr hapart)
    · rw [if_neg hz]
      exact frame_writePtr (htables _ List.mem_cons_self hz)
  · rw [if_neg h₁, if_neg h₂] at htables ⊢
    by_cases h₃ : b - dindirectBase < ptrsPerBlock * ptrsPerBlock
    · have hdiv : (b - dindirectBase) / ptrsPerBlock < ptrsPerBlock := Nat.div_lt_of_lt_mul h₃
      rw [if_pos h₃]
      dsimp only
      by_cases hz : diskDoubleIndirect (fs.disk r) = 0
      · rw [if_pos hz]
        cases hptrs : allocPtrs fs with
        | none => exact DirFrame.refl t r fs
        | some x =>
          obtain ⟨hframe, hapart, hlt⟩ := @frame_allocPtrs fs t r x hptrs fun new fs' => hnew 1 new fs' (by decide)
          have hroot : diskDoubleIndirect ((x.2.modDisk r fun d => setDiskDoubleIndirect d x.1).disk r) = x.1 := by
            rw [Fs.disk_modDisk]
            exact load64_store64_same hlt
          have hnext := fun new fs' => @allocs_after_ptrs fs fs' 1 r x (fun d => setDiskDoubleIndirect d x.1) new hptrs
          have hnull := @null_after_ptrs fs r x hdev hptrs _ hdiv
          have hframe' := hframe.trans (frame_modDisk fun d => setDiskDoubleIndirect d x.1)
          rw [Option.map_some]
          generalize x.2.modDisk r (fun d => setDiskDoubleIndirect d x.1) = g at hroot hnext hnull hframe' ⊢
          dsimp only
          rw [hroot, if_pos hnull]
          -- The table below it is new, too.
          cases hptrs' : allocPtrs g with
          | none => exact hframe'
          | some y =>
            obtain ⟨hframe₂, hapart₂, -⟩ := @frame_allocPtrs g t r y hptrs' fun new fs' hall z hz => by
              obtain ⟨fs'', htwo⟩ := hnext new fs' hall
              exact hnew 2 _ fs'' le_rfl htwo z (List.mem_cons_of_mem _ hz)
            exact (hframe'.trans (hframe₂.trans (frame_writeBlock _ hapart))).trans (frame_writePtr hapart₂)
      · rw [if_neg hz] at htables ⊢
        have hroot := htables _ List.mem_cons_self hz
        dsimp only
        rw [ptrAt_readBlock fs _ hdiv]
        by_cases hentry : load64 fs.bdev.bytes (diskDoubleIndirect (fs.disk r) + 8 * ((b - dindirectBase) / ptrsPerBlock)) = 0
        · rw [if_pos hentry]
          cases hptrs : allocPtrs fs with
          | none => exact DirFrame.refl t r fs
          | some x =>
            obtain ⟨hframe, hapart, -⟩ := frame_allocPtrs hptrs fun new fs' => hnew 1 new fs' (by decide)
            exact (hframe.trans (frame_writeBlock _ hroot)).trans (frame_writePtr hapart)
        · rw [if_neg hentry]
          exact frame_writePtr (htables _ (List.mem_cons_of_mem _ List.mem_cons_self) hentry)
    · rw [if_neg h₃]
      exact DirFrame.refl t r fs

theorem frame_dirBlock (hdev : fs.Reliable) (h : DirApart t r fs b) : DirFrame t r fs (dirBlock fs r b).2 := by
  have hblock := h.block
  unfold dirBlock at hblock ⊢
  dsimp only at hblock ⊢
  by_cases hz : inodeGetBlock fs r b = 0
  · have htables := h.tables hz
    have hnew := h.new hz
    rw [if_neg (not_not.mpr hz)] at hblock ⊢
    cases ha : allocBlock fs with
    | none =>
      rw [ha] at hblock
      refine (frame_inodeSetBlock hdev htables fun n new fs' hn => ?_).trans (frame_writeBlock zeroBuf hblock)
      exact hnew n new fs' (by omega)
    | some x =>
      obtain ⟨a, f₀⟩ := x
      rw [ha] at hblock
      have hframe := @frame_allocBlock fs f₀ t a r ha
      have hset := @frame_inodeSetBlock f₀ t a b r (hframe.reliable hdev) (by
        rw [allocBlock_self ha]
        exact htables) fun n new fs' hn hall => by
          have hall' : allocs (n + 1) fs = some (a :: new, fs') := by
            rw [allocs, ha, Option.bind_some, hall]
            rfl
          exact fun x hx => hnew (n + 1) _ fs' (by omega) hall' x (List.mem_cons_of_mem _ hx)
      exact (hframe.trans hset).trans (frame_writeBlock zeroBuf hblock)
  · rw [if_pos hz]
    exact DirFrame.refl t r fs

/-- **The loop of `crfs_dir_add`.** -/
theorem frame_addToBlocks {name : List (BitVec 8)} {inodeNo type fuel : Nat} {x : Bool × Fs} (hdev : fs.Reliable)
    (hg : EachDirBlock (DirApart t r) r fuel b fs) (hadd : addToBlocks r name inodeNo type fuel b fs = some x) :
    DirFrame t r fs x.2 := by
  induction fuel generalizing b fs with
  | zero => cases hadd
  | succ fuel ih =>
    unfold addToBlocks at hadd
    split at hadd
    · rename_i hin
      obtain ⟨hapart, hrest⟩ := hg hin
      have hframe := frame_dirBlock hdev hapart
      have hblock := hapart.block
      generalize dirBlock fs r b = y at hadd hrest hframe hblock
      dsimp only at hadd
      split at hadd
      · cases hadd
      · rename_i hfull
        exact hframe.trans (ih (hframe.reliable hdev) (hrest hfull) hadd)
      · split at hadd
        · cases hadd
        · cases hadd
          exact (hframe.trans (frame_writeBlock _ hblock)).trans frame_setDirty
    · cases hadd
      exact DirFrame.refl t r fs

theorem frame_crfsIput (h : BlocksApart t (inodeAddr fs (fs.inodes r).inodeNo)) : DirFrame t r fs (crfsIput fs r) := by
  have hcount := @frame_modInode fs t r (fun i => { i with refCount := (i.refCount + (2 ^ 32 - 1)) % 2 ^ 32 }) fun _ => rfl
  unfold crfsIput
  dsimp only
  generalize fs.modInode r (fun i => { i with refCount := (i.refCount + (2 ^ 32 - 1)) % 2 ^ 32 }) = g at hcount ⊢
  split
  · refine hcount.trans ?_
    have hsum := @frame_modDisk g t r fun d => setDiskChecksum d (crc32c d (sizeofInodeDisk - 4)).toNat
    unfold writeInode
    dsimp only
    generalize g.modDisk r (fun d => setDiskChecksum d (crc32c d (sizeofInodeDisk - 4)).toNat) = g' at hsum ⊢
    refine hsum.trans (frame_writeBlock _ ?_)
    have hplace : inodeAddr g' (g'.inodes r).inodeNo = inodeAddr fs (fs.inodes r).inodeNo := by
      unfold inodeAddr
      rw [hsum.inodeNo, hsum.tableStart, hcount.inodeNo, hcount.tableStart]
    rw [hplace]
    exact h
  · exact hcount

end

end Crimson.Crfs
