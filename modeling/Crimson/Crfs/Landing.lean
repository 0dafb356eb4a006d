import Crimson.Crfs.Contents

/-!
# Writes that take effect

Nothing that `crfs_write` calls is asked whether it has failed: not `crfs_alloc_block`, not the
device, not `crfs_inode_set_block`. `WriteLands` is what would have to be asked. There is a block
wherever one is taken, the map does not end, and every write of the device takes effect: it does
not fail, or what it would write is there already (`Lands`).

Where this is so the loop does what it does on a device that never fails (`Fs.steady`,
`WriteLands.steady`), and what is known of that one is true of it.
-/

set_option autoImplicit false

namespace Crimson.Crfs

open Crimson.Lib Crimson.Mm

/-! ## What can fail -/

/-- The next write of the device takes effect. -/
def Lands (dev : Device) (addr : Nat) (buf : Mem) : Prop :=
  dev.writeFails dev.writes = true → ∀ x, x < blockSize → dev.bytes (addr + x) = buf x

/-- The write of a pointer takes effect. -/
def PtrLands (fs : Fs) (addr i v : Nat) : Prop := Lands fs.bdev addr (setPtrAt (readBlock fs addr zeroBuf) i v)

/-- The table is there; or there is a block for it, which is cleared and linked. What comes next
    succeeds. -/
def TableLands (fs : Fs) (addr : Nat) (linked : Nat → Fs → Prop) (link : Nat → Fs → Fs) (next : Nat → Fs → Prop) : Prop :=
  (addr ≠ 0 ∧ next addr fs) ∨
    (addr = 0 ∧ ∃ x fs₁, allocBlock fs = some (x, fs₁) ∧ Lands fs₁.bdev x zeroBuf ∧
      linked x (writeBlock fs₁ x zeroBuf) ∧ next x (link x (writeBlock fs₁ x zeroBuf)))

/-- The table that entry `i` of the table at `t` is for, and entry `j` of it. -/
def SecondLands (i j a t : Nat) (fs : Fs) : Prop :=
  TableLands fs (ptrAt (readBlock fs t zeroBuf) i) (fun x fs => PtrLands fs t i x) (fun x fs => writePtr fs t i x)
    fun x fs => PtrLands fs x j a

/-- **`crfs_inode_set_block` succeeds**, with all it writes. -/
def SetLands (fs : Fs) (r : InodeRef) (b a : Nat) : Prop :=
  if b < indirectBase then True
  else if b - indirectBase < ptrsPerBlock then
    TableLands fs (diskIndirect (fs.disk r)) (fun _ _ => True) (fun x fs => fs.modDisk r fun d => setDiskIndirect d x)
      fun t fs => PtrLands fs t (b - indirectBase) a
  else if b - dindirectBase < ptrsPerBlock * ptrsPerBlock then
    TableLands fs (diskDoubleIndirect (fs.disk r)) (fun _ _ => True)
      (fun x fs => fs.modDisk r fun d => setDiskDoubleIndirect d x)
      (SecondLands ((b - dindirectBase) / ptrsPerBlock) ((b - dindirectBase) % ptrsPerBlock) a)
  else False

/-- **A step of the loop of `crfs_write` succeeds**: allocating, writing and linking the block. -/
def ChunkLands (fs : Fs) (r : InodeRef) (c : Chunk) (buf : Mem) (total : Nat) : Prop :=
  ∃ a fs₁, allocBlock fs = some (a, fs₁) ∧ Lands fs₁.bdev a (chunkBuf fs r c buf total) ∧
    SetLands (writeBlock fs₁ a (chunkBuf fs r c buf total)) r c.blockNo a

/-- **Every step succeeds.** -/
def WriteLands (r : InodeRef) (buf : Mem) (offset count : Nat) : Nat → Nat → Fs → Prop
  | 0, _, _ => True
  | fuel + 1, total, fs => total < count →
    ChunkLands fs r (chunkAt offset count total) buf total ∧
      WriteLands r buf offset count fuel (total + (chunkAt offset count total).len)
        (writeChunk fs r (chunkAt offset count total) buf total)

/-! ## A device that never fails -/

/-- The file system with a device that never fails. -/
def Fs.steady (fs : Fs) : Fs := { fs with bdev := { fs.bdev with writeFails := fun _ => false } }

section

variable {fs fs₁ : Fs} {r : InodeRef} {c : Chunk} {buf : Mem} {a b addr i v total : Nat}

theorem Fs.steady_reliable (fs : Fs) : fs.steady.Reliable := fun _ => rfl

/-- Copying what is there already. -/
theorem copyBytes_same {m src : Mem} {len : Nat} (h : ∀ x, x < len → m (addr + x) = src x) :
    copyBytes m addr src 0 len = m := by
  funext y
  by_cases hy : addr ≤ y ∧ y < addr + len
  · have hat := h (y - addr) (by omega)
    rw [Nat.add_sub_cancel' hy.1] at hat
    rw [copyBytes_of_mem hy.1 hy.2, Nat.zero_add, hat]
  · exact copyBytes_of_notMem (by omega)

theorem Lands.bytes (h : Lands fs.bdev addr buf) :
    (writeBlock fs addr buf).bdev.bytes = copyBytes fs.bdev.bytes addr buf 0 blockSize := by
  show (if fs.bdev.writeFails fs.bdev.writes = true then fs.bdev.bytes else copyBytes fs.bdev.bytes addr buf 0 blockSize) = _
  split
  · rename_i hfails
    exact (copyBytes_same (h hfails)).symm
  · rfl

theorem Lands.steady (h : Lands fs.bdev addr buf) : writeBlock fs.steady addr buf = (writeBlock fs addr buf).steady := by
  have hbytes := h.bytes
  unfold writeBlock Device.write at hbytes ⊢
  unfold Fs.steady
  dsimp only at hbytes ⊢
  rw [hbytes]
  rfl

theorem lands_of_reliable (h : fs.Reliable) (addr : Nat) (buf : Mem) : Lands fs.bdev addr buf := by
  intro hfails
  rw [h] at hfails
  cases hfails

/-- A write takes effect, or nothing is written. -/
theorem lands_or_same (fs : Fs) (addr : Nat) (buf : Mem) :
    Lands fs.bdev addr buf ∨ (writeBlock fs addr buf).bdev.bytes = fs.bdev.bytes := by
  by_cases hfails : fs.bdev.writeFails fs.bdev.writes = true
  · exact Or.inr (if_pos hfails)
  · exact Or.inl fun h => absurd h hfails

theorem PtrLands.steady (h : PtrLands fs addr i v) : writePtr fs.steady addr i v = (writePtr fs addr i v).steady :=
  Lands.steady h

theorem PtrLands.bytes (h : PtrLands fs addr i v) (hi : i < ptrsPerBlock) :
    (writePtr fs addr i v).bdev.bytes = store64 fs.bdev.bytes (addr + 8 * i) v := by
  have hsteady := writePtr_bytes fs.steady_reliable addr v hi
  rw [h.steady] at hsteady
  exact hsteady

theorem allocBlock_steady (h : allocBlock fs = some (a, fs₁)) : allocBlock fs.steady = some (a, fs₁.steady) := by
  have hboth := allocBlock_withAlloc fs.steady fs
  have hself : fs.steady.withAlloc fs₁ = (fs.withAlloc fs₁).steady := rfl
  rw [h, Option.map_some, hself, ← allocBlock_self h] at hboth
  exact hboth

theorem allocPtrs_steady (h : allocBlock fs = some (a, fs₁)) (hclear : Lands fs₁.bdev a zeroBuf) :
    allocPtrs fs.steady = some (a, (writeBlock fs₁ a zeroBuf).steady) := by
  unfold allocPtrs
  rw [allocBlock_steady h, Option.map_some, hclear.steady]

theorem allocPtrs_some (h : allocBlock fs = some (a, fs₁)) : allocPtrs fs = some (a, writeBlock fs₁ a zeroBuf) := by
  unfold allocPtrs
  rw [h]
  rfl

/-- A table, there or made, on both devices. -/
theorem TableLands.steady {linked next : Nat → Fs → Prop} {link : Nat → Fs → Fs} (h : TableLands fs addr linked link next)
    (hlink : ∀ x f, linked x f → link x f.steady = (link x f).steady) :
    ∃ t g, (if addr = 0 then (allocPtrs fs).map fun x => (x.1, link x.1 x.2) else some (addr, fs)) = some (t, g) ∧
      (if addr = 0 then (allocPtrs fs.steady).map fun x => (x.1, link x.1 x.2) else some (addr, fs.steady)) =
        some (t, g.steady) ∧ next t g := by
  rcases h with ⟨hne, hnext⟩ | ⟨hz, x, fs₁, halloc, hclear, hlinked, hnext⟩
  · rw [if_neg hne, if_neg hne]
    exact ⟨addr, fs, rfl, rfl, hnext⟩
  · rw [if_pos hz, if_pos hz, allocPtrs_some halloc, allocPtrs_steady halloc hclear, Option.map_some, Option.map_some]
    exact ⟨x, _, rfl, by rw [hlink x _ hlinked], hnext⟩

/-- The table that the inode holds. -/
theorem TableLands.root {get : Mem → Nat} {set : Mem → Nat → Mem} {next : Nat → Fs → Prop}
    (hgetset : ∀ x, x < 2 ^ 64 → get (set (fs.disk r) x) = x)
    (h : TableLands fs (get (fs.disk r)) (fun _ _ => True) (fun x fs => fs.modDisk r fun d => set d x) next) :
    ∃ g, (if get (fs.disk r) = 0 then (allocPtrs fs).map fun x => x.2.modDisk r fun d => set d x.1 else some fs) = some g ∧
      (if get (fs.disk r) = 0 then (allocPtrs fs.steady).map fun x => x.2.modDisk r fun d => set d x.1
        else some fs.steady) = some g.steady ∧ next (get (g.disk r)) g := by
  obtain ⟨t, g, hg, hsteady, hnext⟩ := h.steady fun _ _ _ => rfl
  by_cases hz : get (fs.disk r) = 0
  · rw [if_pos hz] at hg hsteady ⊢
    rw [if_pos hz]
    obtain ⟨⟨x, f⟩, hptrs, heq⟩ := Option.map_eq_some_iff.mp hg
    obtain ⟨⟨x', f'⟩, hptrs', heq'⟩ := Option.map_eq_some_iff.mp hsteady
    cases heq
    have hstate := congrArg Prod.snd heq'
    refine ⟨_, by rw [hptrs]; rfl, by rw [hptrs', Option.map_some]; exact congrArg some hstate, ?_⟩
    obtain ⟨⟨a, fs₁⟩, halloc, hwritten⟩ := Option.map_eq_some_iff.mp hptrs
    cases hwritten
    have hdisk : (writeBlock fs₁ a zeroBuf).disk r = fs.disk r := by
      rw [allocBlock_self halloc]
      rfl
    have ha : get (((writeBlock fs₁ a zeroBuf).modDisk r fun d => set d a).disk r) = a := by
      rw [Fs.disk_modDisk, hdisk]
      exact hgetset a (allocBlock_place halloc).1
    dsimp only at hnext ⊢
    rw [ha]
    exact hnext
  · rw [if_neg hz] at hg hsteady ⊢
    rw [if_neg hz]
    cases hg
    exact ⟨fs, rfl, rfl, hnext⟩

theorem SetLands.steady_indirect (h₁ : ¬b < indirectBase) (h₂ : b - indirectBase < ptrsPerBlock) (h : SetLands fs r b a) :
    inodeSetBlock fs.steady r b a = (true, (inodeSetBlock fs r b a).2.steady) := by
  unfold SetLands at h
  rw [if_neg h₁, if_pos h₂] at h
  obtain ⟨g, hg, hsteady, hptr⟩ := @TableLands.root fs r diskIndirect setDiskIndirect _
    (fun x hx => load64_store64_same hx) h
  have hdisk : fs.steady.disk r = fs.disk r := rfl
  rw [inodeSetBlock, inodeSetBlock, if_neg h₁, if_pos h₂, if_neg h₁, if_pos h₂]
  dsimp only
  rw [hdisk, hg, hsteady]
  exact congrArg (fun g => (true, Fs.setDirty g r)) hptr.steady

theorem SetLands.steady_dindirect (h₁ : ¬b < indirectBase) (h₂ : ¬b - indirectBase < ptrsPerBlock)
    (h₃ : b - dindirectBase < ptrsPerBlock * ptrsPerBlock) (h : SetLands fs r b a) :
    inodeSetBlock fs.steady r b a = (true, (inodeSetBlock fs r b a).2.steady) := by
  unfold SetLands at h
  rw [if_neg h₁, if_neg h₂, if_pos h₃] at h
  obtain ⟨g, hg, hsteady, hnext⟩ := @TableLands.root fs r diskDoubleIndirect setDiskDoubleIndirect _
    (fun x hx => load64_store64_same hx) h
  obtain ⟨x, g', hg', hsteady', hptr⟩ := TableLands.steady hnext fun _ _ hl => PtrLands.steady hl
  have hdisk : fs.steady.disk r = fs.disk r := rfl
  have hroot : g.steady.disk r = g.disk r := rfl
  have hread : ∀ t, readBlock g.steady t zeroBuf = readBlock g t zeroBuf := fun _ => rfl
  rw [inodeSetBlock, inodeSetBlock, if_neg h₁, if_neg h₂, if_neg h₁, if_neg h₂]
  dsimp only
  rw [if_pos h₃, if_pos h₃, hdisk, hg, hsteady]
  dsimp only
  rw [hread, hroot, hg', hsteady']
  exact congrArg (fun g => (true, Fs.setDirty g r)) hptr.steady

/-- **`crfs_inode_set_block`** succeeds on a device that never fails, and does the same there. -/
theorem SetLands.steady (h : SetLands fs r b a) :
    inodeSetBlock fs.steady r b a = (true, (inodeSetBlock fs r b a).2.steady) := by
  by_cases h₁ : b < indirectBase
  · rw [inodeSetBlock, inodeSetBlock, if_pos h₁, if_pos h₁]
    rfl
  by_cases h₂ : b - indirectBase < ptrsPerBlock
  · exact h.steady_indirect h₁ h₂
  by_cases h₃ : b - dindirectBase < ptrsPerBlock * ptrsPerBlock
  · exact h.steady_dindirect h₁ h₂ h₃
  · unfold SetLands at h
    rw [if_neg h₁, if_neg h₂, if_neg h₃] at h
    exact h.elim

theorem freeOld_steady (fs : Fs) (old : Nat) : freeOld fs.steady old = (freeOld fs old).steady := by
  unfold freeOld
  split
  · rfl
  · rfl

theorem writeChunk_eq (halloc : allocBlock fs = some (a, fs₁)) : writeChunk fs r c buf total =
    freeOld (inodeSetBlock (writeBlock fs₁ a (chunkBuf fs r c buf total)) r c.blockNo a).2
      (inodeGetBlock fs r c.blockNo) := by
  unfold writeChunk
  rw [halloc]
  rfl

/-- **One step of the loop of `crfs_write`**, on both devices. -/
theorem ChunkLands.steady (h : ChunkLands fs r c buf total) :
    writeChunk fs.steady r c buf total = (writeChunk fs r c buf total).steady := by
  obtain ⟨a, fs₁, halloc, hdata, hset⟩ := h
  have hbuf : chunkBuf fs.steady r c buf total = chunkBuf fs r c buf total := rfl
  have hold : inodeGetBlock fs.steady r c.blockNo = inodeGetBlock fs r c.blockNo := rfl
  rw [writeChunk_eq halloc, writeChunk_eq (allocBlock_steady halloc), hbuf, hold, hdata.steady, hset.steady, freeOld_steady]

end

section

variable {fs : Fs} {r : InodeRef} {buf : Mem} {offset count : Nat}

/-- **The loop of `crfs_write`**, on both devices. -/
theorem WriteLands.steady {fuel total : Nat} (h : WriteLands r buf offset count fuel total fs) :
    writeLoop r buf offset count fuel total fs.steady = (writeLoop r buf offset count fuel total fs).steady := by
  induction fuel generalizing fs total with
  | zero => rfl
  | succ fuel ih =>
    rw [writeLoop, writeLoop]
    by_cases ht : total < count
    · obtain ⟨hchunk, hrest⟩ := h ht
      rw [if_pos ht, if_pos ht]
      dsimp only
      rw [hchunk.steady]
      exact ih hrest
    · rw [if_neg ht, if_neg ht]

end

end Crimson.Crfs
