import Crimson.Crfs.Cursor
import Crimson.Crfs.Stored

/-!
# Live blocks

A block is live while it is in the map of an inode in memory. Live blocks are behind the cursor
of the allocator, and no two inodes share one (`LiveOk`); so what is handed out next is in no
map. Calls keep this, whether there is memory or room in the map for the tables they need, as
long as the blocks for data are there: a block that was handed out is written (`LiveOk.writeBlock`)
and set in one map (`LiveOk.setBlock`), and inodes are stored in the inode table
(`LiveOk.storedInode`).
-/

set_option autoImplicit false

namespace Crimson.Crfs

open Crimson.Lib Crimson.Mm

def BlocksApart (x y : Nat) : Prop := x + blockSize ≤ y ∨ y + blockSize ≤ x

/-- The block is in the map of an inode in memory. -/
def Live (fs : Fs) (x : Nat) : Prop := ∃ r p l, blockWalk fs.bdev.bytes (fs.disk r) p = some (.block l x)

/-- The last number whose inode is stored in the segment of the inode table. -/
def lastIno : Nat := 486

/-- **Live blocks are behind the cursor**, outside of the system's segments, and no two inodes
    share one; and the inodes in memory are stored in the segment of the inode table. -/
structure LiveOk (fs : Fs) : Prop where
  device : fs.Reliable
  table : sbInodeTableStart fs.sb = 3
  numbers : ∀ r, (fs.inodes r).inodeNo ≤ lastIno
  cursor : CursorOk fs
  maps : ∀ r, MapOk fs.bdev.bytes (fs.disk r)
  behind : ∀ x, Live fs x → Behind fs x
  data : ∀ x, Live fs x → 4 ≤ segOf x
  apart : ∀ r p l r' p' l' x, blockWalk fs.bdev.bytes (fs.disk r) p = some (.block l x) →
    blockWalk fs.bdev.bytes (fs.disk r') p' = some (.block l' x) → r = r'

/-- **What a write to the map of an inode does**: `new` are the blocks that may be in it besides
    those that were; nothing is written but them and the tables. -/
structure MapWritten (fs : Fs) (r : InodeRef) (new : List Nat) (fs' : Fs) : Prop where
  refs : ∀ q l x, blockWalk fs'.bdev.bytes (fs'.disk r) q = some (.block l x) →
    x ∈ new ∨ blockWalk fs.bdev.bytes (fs.disk r) q = some (.block l x)
  bytes : ∀ y, OffTables fs'.bdev.bytes (fs'.disk r) y → (∀ x ∈ new, ¬InBlock x y) → fs'.bdev.bytes y = fs.bdev.bytes y
  ok : MapOk fs'.bdev.bytes (fs'.disk r)
  same : SameFiles fs fs' r

/-- A block that was handed out, and is in no map. -/
structure Spare (fs : Fs) (a : Nat) : Prop where
  ne : a ≠ 0
  aligned : a % blockSize = 0
  lt : a < 2 ^ 64
  data : 4 ≤ segOf a
  behind : Behind fs a
  unused : ∀ r p l, blockWalk fs.bdev.bytes (fs.disk r) p ≠ some (.block l a)

section

variable {fs fs' fs₁ : Fs} {r : InodeRef} {new tables : List Nat} {area : Nat → Prop} {a b n : Nat}

/-- The map of another inode is not written. -/
theorem MapWritten.other (h : MapWritten fs r new fs') {d : Mem} (hd : MapOk fs.bdev.bytes d)
    (hnew : ∀ x ∈ new, x % blockSize = 0 ∧ ∀ p l, blockWalk fs.bdev.bytes d p ≠ some (.block l x))
    (hapart : ∀ p l p' l' x, blockWalk fs.bdev.bytes d p = some (.block l x) →
      blockWalk fs.bdev.bytes (fs.disk r) p' ≠ some (.block l' x)) (p : List Nat) :
    blockWalk fs'.bdev.bytes d p = blockWalk fs.bdev.bytes d p := by
  refine blockWalk_congr (fun _ => rfl) fun q l x hq y h₁ h₂ => ?_
  have hx := hd.aligned q _ x hq
  refine h.bytes y (fun q' l' x' hq' => ?_) (fun x' hx' hin => ?_)
  · have hx' := h.ok.aligned q' _ x' hq'
    have hxx : x ≠ x' := by
      rintro rfl
      rcases h.refs q' _ x hq' with hmem | hold
      · exact (hnew x hmem).2 q _ hq
      · exact hapart q _ q' _ x hq hold
    have := blocks_apart hx hx' hxx
    omega
  · have hxx : x ≠ x' := by
      rintro rfl
      exact (hnew x hx').2 q _ hq
    have := blocks_apart hx (hnew x' hx').1 hxx
    unfold InBlock at hin
    omega

/-- What is ahead of the cursor is in no map. -/
theorem LiveOk.unused (h : LiveOk fs) {x : Nat} (hx : ¬Behind fs x) (r : InodeRef) (p : List Nat) (l : Nat) :
    blockWalk fs.bdev.bytes (fs.disk r) p ≠ some (.block l x) := fun hp => hx (h.behind x ⟨r, p, l, hp⟩)

/-- The blocks of a row of allocations are spare. -/
theorem LiveOk.spare (h : LiveOk fs) {n : Nat} (hall : allocs n fs = some (new, fs₁)) :
    ∀ x ∈ new, Spare (fs.withAlloc fs₁) x := by
  have hmoved := allocs_cursor h.cursor hall
  intro x hx
  obtain ⟨hne, hlt, haligned⟩ := hmoved.aligned hall x hx
  exact ⟨hne, haligned, hlt, (by decide : 4 ≤ 5).trans (hmoved.data x hx), hmoved.behind x hx, h.unused (hmoved.ahead x hx)⟩

/-- The maps of the other inodes are what they were. -/
theorem LiveOk.others (h : LiveOk fs) (hw : MapWritten fs r new fs') (hnew : ∀ x ∈ new, Spare (fs.withAlloc fs₁) x)
    {q : InodeRef} (hq : q ≠ r) (p : List Nat) :
    blockWalk fs'.bdev.bytes (fs'.disk q) p = blockWalk fs.bdev.bytes (fs.disk q) p := by
  have hdisk : fs'.disk q = fs.disk q := congrArg Inode.disk (hw.same.others q hq)
  rw [hdisk]
  refine hw.other (h.maps q) (fun x hx => ⟨(hnew x hx).aligned, (hnew x hx).unused q⟩) (fun p l p' l' x hp hp' => ?_) p
  exact hq (h.apart q p l r p' l' x hp hp')

/-- **Spare blocks** are put into one map. -/
theorem LiveOk.written (h : LiveOk fs) (hw : MapWritten fs r new fs') (hmoved : CursorMoved fs tables fs₁)
    (hnew : ∀ x ∈ new, Spare (fs.withAlloc fs₁) x) (halloc : fs' = fs'.withAlloc fs₁) : LiveOk fs' := by
  have hother : ∀ q, q ≠ r → ∀ p, blockWalk fs'.bdev.bytes (fs'.disk q) p = blockWalk fs.bdev.bytes (fs.disk q) p :=
    fun q hq => h.others hw hnew hq
  -- A live block is one of the new ones, or was live before.
  have hlive : ∀ q p l x, blockWalk fs'.bdev.bytes (fs'.disk q) p = some (.block l x) →
      (q = r ∧ x ∈ new) ∨ blockWalk fs.bdev.bytes (fs.disk q) p = some (.block l x) := by
    intro q p l x hp
    by_cases hq : q = r
    · subst hq
      rcases hw.refs p l x hp with hnew | hold
      · exact Or.inl ⟨rfl, hnew⟩
      · exact Or.inr hold
    · rw [hother q hq] at hp
      exact Or.inr hp
  have hbehind : ∀ x, Behind fs₁ x → Behind fs' x := by
    intro x hx
    rw [halloc]
    exact hx
  refine ⟨hw.same.reliable h.device, ?_, ?_, ?_, ?_, ?_, ?_, ?_⟩
  · rw [halloc]
    exact hmoved.tableStart.trans h.table
  · intro q
    by_cases hq : q = r
    · rw [hq, hw.same.inodeNo]
      exact h.numbers r
    · rw [hw.same.others q hq]
      exact h.numbers q
  · rw [halloc]
    exact ⟨hmoved.ok.fits, hmoved.ok.next, hmoved.ok.cursor⟩
  · intro q
    by_cases hq : q = r
    · rw [hq]
      exact hw.ok
    · exact (h.maps q).congr (hother q hq)
  · rintro x ⟨q, p, l, hp⟩
    rcases hlive q p l x hp with ⟨-, hx⟩ | hold
    · exact hbehind x (hnew x hx).behind
    · exact hbehind x (hmoved.keeps x (h.behind x ⟨q, p, l, hold⟩))
  · rintro x ⟨q, p, l, hp⟩
    rcases hlive q p l x hp with ⟨-, hx⟩ | hold
    · exact (hnew x hx).data
    · exact h.data x ⟨q, p, l, hold⟩
  · intro q p l q' p' l' x hp hp'
    rcases hlive q p l x hp with ⟨hq, hx⟩ | hold
    · rcases hlive q' p' l' x hp' with ⟨hq', -⟩ | hold'
      · exact hq.trans hq'.symm
      · exact absurd hold' ((hnew x hx).unused q' p' l')
    · rcases hlive q' p' l' x hp' with ⟨-, hx'⟩ | hold'
      · exact absurd hold ((hnew x hx').unused q p l)
      · exact h.apart q p l q' p' l' x hold hold'

/-- **The maps are what they were**, and so is the cursor. -/
theorem LiveOk.same (h : LiveOk fs) (hdev : fs'.Reliable) (halloc : fs' = fs'.withAlloc fs)
    (hnos : ∀ r, (fs'.inodes r).inodeNo = (fs.inodes r).inodeNo)
    (hwalk : ∀ r p, blockWalk fs'.bdev.bytes (fs'.disk r) p = blockWalk fs.bdev.bytes (fs.disk r) p) : LiveOk fs' := by
  refine ⟨hdev, ?_, ?_, ?_, fun r => (h.maps r).congr (hwalk r), ?_, ?_, ?_⟩
  · rw [halloc]
    exact h.table
  · intro r
    rw [hnos]
    exact h.numbers r
  · rw [halloc]
    exact ⟨h.cursor.fits, h.cursor.next, h.cursor.cursor⟩
  · rintro x ⟨r, p, l, hp⟩
    rw [hwalk] at hp
    rw [halloc]
    exact h.behind x ⟨r, p, l, hp⟩
  · rintro x ⟨r, p, l, hp⟩
    rw [hwalk] at hp
    exact h.data x ⟨r, p, l, hp⟩
  · intro r p l r' p' l' x hp hp'
    rw [hwalk] at hp hp'
    exact h.apart r p l r' p' l' x hp hp'

/-- The device is written outside of the tables. -/
theorem LiveOk.stored (h : LiveOk fs) (hs : Stored fs area fs')
    (hapart : ∀ r p l x, blockWalk fs.bdev.bytes (fs.disk r) p = some (.block (l + 1) x) → ∀ y, InBlock x y → ¬area y) :
    LiveOk fs' := by
  refine h.same ?_ hs.alloc hs.inodeNos fun r p => ?_
  · intro n
    rw [hs.writeFails]
    exact h.device n
  · refine blockWalk_congr (mapEntry_inode_congr (hs.disks r)) fun q l x hq y h₁ h₂ => ?_
    exact hs.bytes y (hapart r q l x hq y ⟨h₁, h₂⟩)

/-- Where an inode of a number in range is stored. -/
theorem LiveOk.inodeAddr (h : LiveOk fs) {n : Nat} (hn : n ≤ lastIno) :
    inodeAddr fs n = 3 * segSize + n * sizeofInodeDisk ∧ inodeAddr fs n + blockSize ≤ 4 * segSize := by
  have hend : 3 * segSize + n * sizeofInodeDisk + blockSize ≤ 4 * segSize := by
    unfold lastIno at hn
    unfold segSize sizeofInodeDisk blockSize
    omega
  have hlt : 3 * segSize + n * sizeofInodeDisk < 2 ^ 64 := by
    have hseg : 4 * segSize < 2 ^ 64 := by decide
    omega
  unfold Crfs.inodeAddr
  rw [h.table, Nat.mod_eq_of_lt hlt]
  exact ⟨rfl, hend⟩

/-- An inode is stored away from the live blocks. -/
theorem LiveOk.storeApart (h : LiveOk fs) {n : Nat} (hn : n ≤ lastIno) {x : Nat} (hx : Live fs x) :
    Crfs.inodeAddr fs n + blockSize ≤ x := by
  have hseg := h.data x hx
  have hin := (h.inodeAddr hn).2
  unfold segOf at hseg
  have hfar := (Nat.le_div_iff_mul_le (show 0 < segSize by decide)).mp hseg
  omega

theorem LiveOk.storedInode (h : LiveOk fs) {n : Nat} (hn : n ≤ lastIno) (hs : Stored fs (InBlock (Crfs.inodeAddr fs n)) fs') :
    LiveOk fs' := by
  refine h.stored hs fun r p l x hp y hy hin => ?_
  have := h.storeApart hn ⟨r, p, l + 1, hp⟩
  unfold InBlock at hy hin
  omega

/-- A block that is no table is written. -/
theorem LiveOk.writeBlock {a : Nat} (h : LiveOk fs) (haligned : a % blockSize = 0)
    (ha : ∀ q p l, blockWalk fs.bdev.bytes (fs.disk q) p ≠ some (.block (l + 1) a)) (buf : Mem) :
    LiveOk (writeBlock fs a buf) := by
  refine h.stored (stored_writeBlock buf) fun q p l x hx y hy hin => ?_
  have hne : x ≠ a := by
    rintro rfl
    exact ha q p l hx
  have := blocks_apart ((h.maps q).aligned p _ x hx) haligned hne
  unfold InBlock at hy hin
  omega

theorem LiveOk.walk_writeBlock {a : Nat} (h : LiveOk fs) (haligned : a % blockSize = 0)
    (ha : ∀ q p l, blockWalk fs.bdev.bytes (fs.disk q) p ≠ some (.block (l + 1) a)) (buf : Mem) (q : List Nat) :
    blockWalk (Crfs.writeBlock fs a buf).bdev.bytes ((Crfs.writeBlock fs a buf).disk r) q =
      blockWalk fs.bdev.bytes (fs.disk r) q := by
  have hdisk : (Crfs.writeBlock fs a buf).disk r = fs.disk r := rfl
  rw [hdisk, writeBlock_bytes h.device]
  refine blockWalk_congr (fun _ => rfl) fun q l x hx => ?_
  have hne : x ≠ a := by
    rintro rfl
    exact ha r q l hx
  exact agreeOn_copyBytes (blocks_apart ((h.maps r).aligned q _ x hx) haligned hne)

/-- A block of a file is no table. -/
theorem LiveOk.leaf {a : Nat} {p : List Nat} (h : LiveOk fs)
    (hleaf : blockWalk fs.bdev.bytes (fs.disk r) p = some (.block 0 a)) (q : InodeRef) (p' : List Nat) (l : Nat) :
    blockWalk fs.bdev.bytes (fs.disk q) p' ≠ some (.block (l + 1) a) := by
  intro hp'
  obtain rfl := h.apart _ _ _ _ _ _ _ hp' hleaf
  have hpath : p' ≠ p := by
    rintro rfl
    rw [hleaf] at hp'
    cases hp'
  exact (h.maps q).apart p' p l 0 a a hp' hleaf hpath rfl

/-- **`crfs_alloc_block`** hands out a spare block. -/
theorem LiveOk.alloc (h : LiveOk fs) (ha : allocBlock fs = some (a, fs₁)) : LiveOk fs₁ ∧ Spare fs₁ a := by
  have hall : allocs 1 fs = some ([a], fs₁) := by
    rw [allocs, ha]
    rfl
  have hspare := h.spare hall
  have hself := allocBlock_self ha
  have hsame : MapWritten fs 0 [a] (fs.withAlloc fs₁) :=
    ⟨fun _ _ _ hq => Or.inr hq, fun _ _ _ => rfl, h.maps 0, sameFiles_withAlloc fs fs₁⟩
  have hok := h.written hsame (allocs_cursor h.cursor hall) hspare rfl
  rw [← hself] at hok hspare
  exact ⟨hok, hspare a List.mem_cons_self⟩

/-- Data is written to a spare block. -/
theorem LiveOk.writeSpare (h : LiveOk fs) (ha : Spare fs a) (buf : Mem) :
    LiveOk (Crfs.writeBlock fs a buf) ∧ Spare (Crfs.writeBlock fs a buf) a := by
  have hleaf : ∀ q p l, blockWalk fs.bdev.bytes (fs.disk q) p ≠ some (.block (l + 1) a) := fun q p l => ha.unused q p (l + 1)
  refine ⟨h.writeBlock ha.aligned hleaf buf, ⟨ha.ne, ha.aligned, ha.lt, ha.data, ha.behind, ?_⟩⟩
  intro q p l hp
  rw [h.walk_writeBlock ha.aligned hleaf] at hp
  exact ha.unused q p l hp

/-- Freeing a block changes neither the maps nor the cursor. -/
theorem LiveOk.free (h : LiveOk fs) (old : Nat) : LiveOk (freeOld fs old) := by
  obtain ⟨hbdev, hinodes, -⟩ := freeOld_alloc fs old
  obtain ⟨hnext, hcur, hin, htotal, htable⟩ := @freeOld_cursor fs old
  have hdisk : ∀ r, (freeOld fs old).disk r = fs.disk r := by
    intro r
    unfold Fs.disk
    rw [hinodes]
  have hwalk : ∀ r p, blockWalk (freeOld fs old).bdev.bytes ((freeOld fs old).disk r) p =
      blockWalk fs.bdev.bytes (fs.disk r) p := by
    intro r p
    rw [hbdev, hdisk]
  refine ⟨?_, htable.trans h.table, ?_, ⟨?_, ?_, ?_⟩, fun r => (h.maps r).congr (hwalk r), ?_, ?_, ?_⟩
  · intro k
    rw [hbdev]
    exact h.device k
  · intro r
    rw [hinodes]
    exact h.numbers r
  · rw [htotal]
    exact h.cursor.fits
  · rw [hnext]
    exact h.cursor.next
  · rw [hcur, hnext, htotal]
    exact h.cursor.cursor
  · rintro x ⟨r, p, l, hp⟩
    rw [hwalk] at hp
    unfold Behind
    rw [hnext, hcur, hin]
    exact h.behind x ⟨r, p, l, hp⟩
  · rintro x ⟨r, p, l, hp⟩
    rw [hwalk] at hp
    exact h.data x ⟨r, p, l, hp⟩
  · intro r p l r' p' l' x hp hp'
    rw [hwalk] at hp hp'
    exact h.apart r p l r' p' l' x hp hp'

/-! ## Setting a block -/

theorem mapAt_bound {m d : Mem} (hne : mapAt m d b ≠ 0) : b < mapBlocks := by
  by_contra hb
  refine hne ?_
  have hpath : blockPath b = [14] := by
    unfold mapBlocks dindirectBase at hb
    unfold blockPath dindirectBase
    rw [if_neg (by omega), if_neg (by omega), if_neg (by omega)]
  unfold mapAt
  rw [hpath, blockWalk_one]
  rfl

theorem BlockSet.mapWritten (h : BlockSet fs r b a tables fs₁ fs') : MapWritten fs r (a :: tables) fs' where
  refs := by
    intro q l x hq
    rcases h.refs q l x hq with rfl | hx | ⟨-, hold⟩
    · exact Or.inl List.mem_cons_self
    · exact Or.inl (List.mem_cons_of_mem _ hx)
    · exact Or.inr hold
  bytes := fun y hy _ => h.bytes y hy
  ok := h.ok
  same := h.same

theorem TablesAdded.mapWritten (h : TablesAdded fs r tables fs₁ fs') : MapWritten fs r tables fs' :=
  ⟨h.refs, fun y hy _ => h.bytes y hy, h.ok, h.same⟩

theorem allocs_one_none (h : allocs 1 fs = none) : allocPtrs fs = none := by
  unfold allocPtrs
  cases ha : allocBlock fs with
  | none => rfl
  | some x =>
    rw [allocs, ha] at h
    cases h

/-- Without the tables it needs, **`crfs_inode_set_block`** does not set the block. -/
theorem inodeSetBlock_failed (hdev : fs.Reliable) (hok : MapOk fs.bdev.bytes (fs.disk r))
    (hfresh : ∀ n new fs₁, allocs n fs = some (new, fs₁) → ∀ x ∈ new, FreshBlock fs.bdev.bytes (fs.disk r) x)
    (hno : mapBlocks ≤ b ∨ allocs (missingTables fs.bdev.bytes (fs.disk r) b) fs = none) :
    ∃ n tables fs₁, allocs n fs = some (tables, fs₁) ∧ TablesAdded fs r tables fs₁ (inodeSetBlock fs r b a).2 := by
  have hnone : ∃ n tables fs₁, allocs n fs = some (tables, fs₁) ∧ TablesAdded fs r tables fs₁ fs :=
    ⟨0, [], fs, rfl, TablesAdded.none hok⟩
  unfold missingTables at hno
  unfold inodeSetBlock
  by_cases h₁ : b < indirectBase
  · rw [if_pos h₁] at hno
    rcases hno with hb | hnew
    · unfold mapBlocks dindirectBase at hb
      omega
    · cases hnew
  by_cases h₂ : b - indirectBase < ptrsPerBlock
  · rw [if_neg h₁, if_pos h₂] at hno ⊢
    have hnew := hno.resolve_left (by unfold mapBlocks dindirectBase indirectBase at *; omega)
    by_cases hz : diskIndirect (fs.disk r) = 0
    · rw [if_pos hz] at hnew ⊢
      rw [allocs_one_none hnew]
      exact hnone
    · rw [if_neg hz] at hnew
      cases hnew
  · rw [if_neg h₁, if_neg h₂] at hno ⊢
    by_cases h₃ : b - dindirectBase < ptrsPerBlock * ptrsPerBlock
    · have hnew := hno.resolve_left (by unfold mapBlocks at *; omega)
      rw [if_pos h₃]
      have hdiv : (b - dindirectBase) / ptrsPerBlock < ptrsPerBlock := Nat.div_lt_of_lt_mul h₃
      have htable : RootTable 13 1 diskDoubleIndirect setDiskDoubleIndirect := Or.inr ⟨rfl, rfl, rfl, rfl⟩
      rw [allocs_add] at hnew
      cases hnew₁ : allocs (if diskDoubleIndirect (fs.disk r) = 0 then 1 else 0) fs with
      | none =>
        by_cases hz : diskDoubleIndirect (fs.disk r) = 0
        · rw [if_pos hz] at hnew₁ ⊢
          rw [allocs_one_none hnew₁]
          exact hnone
        · rw [if_neg hz] at hnew₁
          cases hnew₁
      | some x =>
        obtain ⟨new, f₁⟩ := x
        obtain ⟨g, hg, hadded, hne, hnull, hsame⟩ := root_added htable hdev hok hnew₁ (hfresh _ new f₁ hnew₁)
        rw [hnew₁, Option.bind_some, Option.map_eq_none_iff] at hnew
        -- The second table is missing, and there is no block for it.
        have hcond : diskDoubleIndirect (fs.disk r) = 0 ∨ load64 fs.bdev.bytes
            (diskDoubleIndirect (fs.disk r) + 8 * ((b - dindirectBase) / ptrsPerBlock)) = 0 := by
          by_contra hno
          rw [if_neg hno] at hnew
          cases hnew
        rw [if_pos hcond] at hnew
        have hentry := (entry_null_iff hdiv hnull hsame).mp hcond
        have hptrs : allocPtrs g = none := by
          have halloc := allocs_one_none hnew
          unfold allocPtrs at halloc ⊢
          rw [Option.map_eq_none_iff] at halloc ⊢
          rw [hadded.alloc, allocBlock_withAlloc, halloc]
          rfl
        dsimp only
        rw [hg]
        dsimp only
        rw [ptrAt_readBlock g _ hdiv, if_pos hentry, hptrs]
        exact ⟨_, new, f₁, hnew₁, hadded⟩
    · rw [if_neg h₃]
      exact hnone

theorem Spare.fresh (h : Spare fs a) (r : InodeRef) : FreshBlock fs.bdev.bytes (fs.disk r) a :=
  ⟨h.ne, h.aligned, h.lt, h.unused r⟩

/-- **`crfs_inode_set_block`** puts a spare block into one map, if it gets the tables. -/
theorem LiveOk.setBlock (h : LiveOk fs) (ha : Spare fs a) :
    LiveOk (inodeSetBlock fs r b a).2 ∧ ∀ q p l, blockWalk (inodeSetBlock fs r b a).2.bdev.bytes
      ((inodeSetBlock fs r b a).2.disk q) p ≠ some (.block (l + 1) a) := by
  by_cases hset : b < mapBlocks ∧ ∃ x, allocs (missingTables fs.bdev.bytes (fs.disk r) b) fs = some x
  · obtain ⟨hb, ⟨tables, fs₁⟩, htables⟩ := hset
    have hmoved := allocs_cursor h.cursor htables
    have hspare := h.spare htables
    have hfew := missingTables_le fs.bdev.bytes (fs.disk r) b
    have hnodup := allocs_nodup htables (fun x hx => (hspare x hx).ne) (by unfold blocksPerSeg; omega)
    have hnotin : a ∉ tables := fun hin => hmoved.ahead a hin ha.behind
    have hdone := inodeSetBlock_spec h.device (h.maps r) hb (ha.fresh r) htables (fun x hx => (hspare x hx).fresh r)
      (List.nodup_cons.mpr ⟨hnotin, hnodup⟩)
    generalize (inodeSetBlock fs r b a).2 = g at hdone ⊢
    have hok : LiveOk g := by
      refine h.written hdone.mapWritten hmoved (fun x hx => ?_) hdone.alloc
      rcases List.mem_cons.mp hx with rfl | hx
      · exact ⟨ha.ne, ha.aligned, ha.lt, ha.data, hmoved.keeps x ha.behind, ha.unused⟩
      · exact hspare x hx
    have hat := hdone.mapAt b hb
    rw [if_pos rfl] at hat
    have hleaf := blockWalk_mapAt hb (show mapAt g.bdev.bytes (g.disk r) b ≠ 0 by rw [hat]; exact ha.ne)
    rw [hat] at hleaf
    exact ⟨hok, hok.leaf hleaf⟩
  · have hno : mapBlocks ≤ b ∨ allocs (missingTables fs.bdev.bytes (fs.disk r) b) fs = none := by
      by_contra hboth
      rw [not_or, Nat.not_le] at hboth
      exact hset ⟨hboth.1, Option.ne_none_iff_exists'.mp hboth.2⟩
    obtain ⟨n, tables, fs₁, htables, hadded⟩ := @inodeSetBlock_failed fs r a b h.device (h.maps r)
      (fun n new fs₁ hnew x hx => (h.spare hnew x hx).fresh r) hno
    have hmoved := allocs_cursor h.cursor htables
    generalize (inodeSetBlock fs r b a).2 = g at hadded ⊢
    have hw := hadded.mapWritten
    refine ⟨h.written hw hmoved (h.spare htables) hadded.alloc, fun q p l hp => ?_⟩
    by_cases hq : q = r
    · subst hq
      rcases hw.refs p _ a hp with hin | hold
      · exact hmoved.ahead a hin ha.behind
      · exact ha.unused q p _ hold
    · rw [h.others hw (h.spare htables) hq] at hp
      exact ha.unused q p _ hp

/-! ## Writing a file -/

/-- **One step of a write.** -/
theorem LiveOk.chunk (h : LiveOk fs) {c : Chunk} {buf : Mem} {total : Nat} (hg : allocBlock fs ≠ none) :
    LiveOk (writeChunk fs r c buf total) := by
  obtain ⟨⟨a, f₀⟩, ha⟩ := Option.ne_none_iff_exists'.mp hg
  obtain ⟨hok, hspare⟩ := h.alloc ha
  obtain ⟨hok', hspare'⟩ := hok.writeSpare hspare (chunkBuf fs r c buf total)
  have hset := (@LiveOk.setBlock _ r _ c.blockNo hok' hspare').1
  have hresult : writeChunk fs r c buf total =
      freeOld (inodeSetBlock (Crfs.writeBlock f₀ a (chunkBuf fs r c buf total)) r c.blockNo a).2
        (inodeGetBlock fs r c.blockNo) := by
    unfold writeChunk
    rw [ha]
    rfl
  rw [hresult]
  exact hset.free _

/-- **The loop of a write.** -/
theorem LiveOk.loop {buf : Mem} {offset count fuel total : Nat} (h : LiveOk fs)
    (hg : EachChunk (fun fs _ => allocBlock fs ≠ none) r buf offset count fuel total fs) :
    LiveOk (writeLoop r buf offset count fuel total fs) := by
  induction fuel generalizing fs total with
  | zero => exact h
  | succ fuel ih =>
    rw [writeLoop]
    by_cases ht : total < count
    · rw [if_pos ht]
      obtain ⟨hchunk, hrest⟩ := hg ht
      exact ih (h.chunk hchunk) hrest
    · rw [if_neg ht]
      exact h

end

end Crimson.Crfs
