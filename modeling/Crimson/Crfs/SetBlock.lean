import Crimson.Crfs.BlockMap

/-!
# What `crfs_inode_set_block` does

The tables on the way to the block are there, or are allocated, cleared and linked
(`TablesAdded`); then the block is linked in the last of them (`BlockSet`). Reading the file
through the map sees one block replaced, and nothing else is written but tables.
-/

set_option autoImplicit false

namespace Crimson.Crfs

open Crimson.Lib Crimson.Mm

/-- The device returns what was last written. -/
def Fs.Reliable (fs : Fs) : Prop := ∀ n, fs.bdev.writeFails n = false

/-- Neither the open files nor what an inode holds besides its map is touched. -/
structure SameFiles (fs fs' : Fs) (r : InodeRef) : Prop where
  writeFails : fs'.bdev.writeFails = fs.bdev.writeFails
  files : fs'.files = fs.files
  others : ∀ r', r' ≠ r → fs'.inodes r' = fs.inodes r'
  inodeNo : (fs'.inodes r).inodeNo = (fs.inodes r).inodeNo
  head : ∀ x, x < 88 → fs'.disk r x = fs.disk r x

section

variable {fs fs' fs'' : Fs} {r : InodeRef}

theorem SameFiles.trans (h : SameFiles fs fs' r) (h' : SameFiles fs' fs'' r) : SameFiles fs fs'' r where
  writeFails := h'.writeFails.trans h.writeFails
  files := h'.files.trans h.files
  others := fun r' hr => (h'.others r' hr).trans (h.others r' hr)
  inodeNo := h'.inodeNo.trans h.inodeNo
  head := fun x hx => (h'.head x hx).trans (h.head x hx)

theorem SameFiles.refl (fs : Fs) (r : InodeRef) : SameFiles fs fs r :=
  ⟨rfl, rfl, fun _ _ => rfl, rfl, fun _ _ => rfl⟩

theorem SameFiles.reliable (h : SameFiles fs fs' r) (hdev : fs.Reliable) : fs'.Reliable := by
  intro n
  rw [h.writeFails]
  exact hdev n

theorem SameFiles.size (h : SameFiles fs fs' r) : diskSize (fs'.disk r) = diskSize (fs.disk r) :=
  load64_congr fun x _ hx => h.head x (by omega)

theorem sameFiles_writeBlock (fs : Fs) (addr : Nat) (buf : Mem) : SameFiles fs (writeBlock fs addr buf) r :=
  ⟨rfl, rfl, fun _ _ => rfl, rfl, fun _ _ => rfl⟩

theorem sameFiles_withAlloc (fs g : Fs) : SameFiles fs (fs.withAlloc g) r :=
  ⟨rfl, rfl, fun _ _ => rfl, rfl, fun _ _ => rfl⟩

theorem Fs.disk_modDisk (fs : Fs) (r : InodeRef) (f : Mem → Mem) : (fs.modDisk r f).disk r = f (fs.disk r) := by
  show (Function.update fs.inodes r _ r).disk = _
  rw [Function.update_self]
  rfl

theorem Fs.disk_setDirty (fs : Fs) (r : InodeRef) : (fs.setDirty r).disk r = fs.disk r := by
  show (Function.update fs.inodes r _ r).disk = _
  rw [Function.update_self]
  rfl

theorem sameFiles_modDisk {f : Mem → Mem} (hf : ∀ x, x < 88 → f (fs.disk r) x = fs.disk r x) :
    SameFiles fs (fs.modDisk r f) r where
  writeFails := rfl
  files := rfl
  others := fun r' hr => Function.update_of_ne hr _ _
  inodeNo := by
    show (Function.update fs.inodes r _ r).inodeNo = _
    rw [Function.update_self]
  head := by
    rw [Fs.disk_modDisk]
    exact hf

theorem sameFiles_setDirty (fs : Fs) (r : InodeRef) : SameFiles fs (fs.setDirty r) r where
  writeFails := rfl
  files := rfl
  others := fun r' hr => Function.update_of_ne hr _ _
  inodeNo := by
    show (Function.update fs.inodes r _ r).inodeNo = _
    rw [Function.update_self]
  head := by
    rw [Fs.disk_setDirty]
    exact fun _ _ => rfl

/-- A write that does not fail. -/
theorem writeBlock_bytes (hdev : fs.Reliable) (addr : Nat) (buf : Mem) :
    (writeBlock fs addr buf).bdev.bytes = copyBytes fs.bdev.bytes addr buf 0 blockSize :=
  if_neg (by rw [hdev]; decide)

/-- A table is read, changed and written back: one entry is stored. -/
theorem writePtr_bytes (hdev : fs.Reliable) (addr v : Nat) {i : Nat} (hi : i < ptrsPerBlock) :
    (writePtr fs addr i v).bdev.bytes = store64 fs.bdev.bytes (addr + 8 * i) v := by
  unfold writePtr
  rw [writeBlock_bytes hdev]
  funext x
  unfold copyBytes setPtrAt store64 storeBytes readBlock Device.read copyBytes
  unfold ptrsPerBlock at hi
  unfold blockSize
  by_cases hin : addr ≤ x ∧ x < addr + 4096
  · rw [if_pos hin]
    by_cases hcell : addr + 8 * i ≤ x ∧ x < addr + 8 * i + 8
    · have hcell' : 8 * i ≤ 0 + (x - addr) ∧ 0 + (x - addr) < 8 * i + 8 := by omega
      have hoff : 0 + (x - addr) - 8 * i = x - (addr + 8 * i) := by omega
      rw [if_pos hcell, if_pos hcell', hoff]
    · have hcell' : ¬(8 * i ≤ 0 + (x - addr) ∧ 0 + (x - addr) < 8 * i + 8) := by omega
      have hin' : 0 ≤ 0 + (x - addr) ∧ 0 + (x - addr) < 0 + 4096 := by omega
      have hoff : addr + (0 + (x - addr) - 0) = x := by omega
      rw [if_neg hcell, if_neg hcell', if_pos hin', hoff]
  · have hcell : ¬(addr + 8 * i ≤ x ∧ x < addr + 8 * i + 8) := by omega
    rw [if_neg hin, if_neg hcell]

theorem allocPtrs_eq {a : Nat} (h : allocBlock fs = some (a, fs')) :
    allocPtrs fs = some (a, (writeBlock fs a zeroBuf).withAlloc fs') := by
  unfold allocPtrs
  rw [h, allocBlock_self h]
  rfl

end

/-! ## Tables added -/

/-- The tables `new` were allocated and linked; `fs₁` has the allocator's state after that. -/
structure TablesAdded (fs : Fs) (r : InodeRef) (new : List Nat) (fs₁ fs' : Fs) : Prop where
  mapAt : ∀ b, b < mapBlocks → mapAt fs'.bdev.bytes (fs'.disk r) b = mapAt fs.bdev.bytes (fs.disk r) b
  ok : MapOk fs'.bdev.bytes (fs'.disk r)
  refs : ∀ q l x, blockWalk fs'.bdev.bytes (fs'.disk r) q = some (.block l x) →
    x ∈ new ∨ blockWalk fs.bdev.bytes (fs.disk r) q = some (.block l x)
  fresh : ∀ b, FreshBlock fs.bdev.bytes (fs.disk r) b → b ∉ new → FreshBlock fs'.bdev.bytes (fs'.disk r) b
  off : ∀ y, OffTables fs'.bdev.bytes (fs'.disk r) y → OffTables fs.bdev.bytes (fs.disk r) y
  bytes : ∀ y, OffTables fs'.bdev.bytes (fs'.disk r) y → fs'.bdev.bytes y = fs.bdev.bytes y
  same : SameFiles fs fs' r
  alloc : fs' = fs'.withAlloc fs₁

section

variable {fs fs₁ fs₂ g g' : Fs} {r : InodeRef} {new new' : List Nat} {p : List Nat} {a b i l : Nat}

theorem TablesAdded.none (hok : MapOk fs.bdev.bytes (fs.disk r)) : TablesAdded fs r [] fs fs :=
  ⟨fun _ _ => rfl, hok, fun _ _ _ h => Or.inr h, fun _ h _ => h, fun _ h => h, fun _ _ => rfl, SameFiles.refl fs r, rfl⟩

theorem TablesAdded.trans (h : TablesAdded fs r new fs₁ g) (h' : TablesAdded g r new' fs₂ g') :
    TablesAdded fs r (new ++ new') fs₂ g' where
  mapAt := fun b hb => (h'.mapAt b hb).trans (h.mapAt b hb)
  ok := h'.ok
  refs := by
    intro q l x hx
    rcases h'.refs q l x hx with hnew | hx
    · exact Or.inl (List.mem_append_right _ hnew)
    · rcases h.refs q l x hx with hnew | hx
      · exact Or.inl (List.mem_append_left _ hnew)
      · exact Or.inr hx
  fresh := by
    intro b hb hnew
    rw [List.mem_append, not_or] at hnew
    exact h'.fresh b (h.fresh b hb hnew.1) hnew.2
  off := fun y hy => h.off y (h'.off y hy)
  bytes := fun y hy => (h'.bytes y hy).trans (h.bytes y (h'.off y hy))
  same := h.same.trans h'.same
  alloc := h'.alloc

/-- One table, linked where no block of the file is. -/
theorem TablesAdded.one (h : Links fs.bdev.bytes (fs.disk r) p l a g.bdev.bytes (g.disk r))
    (hp : ∀ b, b < mapBlocks → blockPath b ≠ p) (hok : MapOk fs.bdev.bytes (fs.disk r))
    (ha : FreshBlock fs.bdev.bytes (fs.disk r) a) (hsame : SameFiles fs g r) (halloc : g = g.withAlloc fs₁) :
    TablesAdded fs r [a] fs₁ g where
  mapAt := fun b hb => h.mapAt_table (hp b hb)
  ok := h.mapOk hok ha
  refs := by
    intro q l' x hx
    rcases h.refs hx with rfl | hx
    · exact Or.inl (List.mem_singleton.mpr rfl)
    · exact Or.inr hx.2
  fresh := fun b hb hne => h.fresh hb fun hba => hne (List.mem_singleton.mpr hba)
  off := fun y hy => h.offTables hy
  bytes := h.bytes
  same := hsame
  alloc := halloc

/-- The two tables an inode may hold: the entry, the levels below, and the field. -/
def RootTable (i l : Nat) (get : Mem → Nat) (set : Mem → Nat → Mem) : Prop :=
  (i = 12 ∧ l = 0 ∧ get = diskIndirect ∧ set = setDiskIndirect) ∨
    (i = 13 ∧ l = 1 ∧ get = diskDoubleIndirect ∧ set = setDiskDoubleIndirect)

theorem RootTable.entry {get : Mem → Nat} {set : Mem → Nat → Mem} (h : RootTable i l get set) (m d : Mem) :
    mapEntry m d .inode i = (l + 1, get d) := by
  rcases h with ⟨rfl, rfl, rfl, -⟩ | ⟨rfl, rfl, rfl, -⟩
  · rfl
  · rfl

theorem RootTable.walk {get : Mem → Nat} {set : Mem → Nat → Mem} (h : RootTable i l get set) (m d : Mem)
    (hne : get d ≠ 0) : blockWalk m d [i] = some (.block (l + 1) (get d)) := by
  have hstep : blockWalk m d [i] = mapChild (mapEntry m d .inode i) := blockWalk_snoc m d [] i
  rw [hstep, h.entry, mapChild, if_neg hne]

/-- **The table of the inode** is there, or is added. -/
theorem root_added {get : Mem → Nat} {set : Mem → Nat → Mem} (hi : RootTable i l get set) (hdev : fs.Reliable)
    (hok : MapOk fs.bdev.bytes (fs.disk r)) (hnew : allocs (if get (fs.disk r) = 0 then 1 else 0) fs = some (new, fs₁))
    (hfresh : ∀ x ∈ new, FreshBlock fs.bdev.bytes (fs.disk r) x) :
    ∃ g, (if get (fs.disk r) = 0 then (allocPtrs fs).map fun x => x.2.modDisk r fun d => set d x.1 else some fs) = some g ∧
      TablesAdded fs r new fs₁ g ∧ get (g.disk r) ≠ 0 ∧
      (get (fs.disk r) = 0 → ∀ j, j < ptrsPerBlock → load64 g.bdev.bytes (get (g.disk r) + 8 * j) = 0) ∧
      (get (fs.disk r) ≠ 0 → g = fs) := by
  by_cases hz : get (fs.disk r) = 0
  · rw [if_pos hz] at hnew ⊢
    obtain ⟨⟨a, f₁⟩, ha, hnew⟩ := Option.bind_eq_some_iff.mp hnew
    obtain ⟨rfl, rfl⟩ := Prod.mk.inj (Option.some.inj hnew)
    have hafresh := hfresh a (List.mem_singleton.mpr rfl)
    rw [allocPtrs_eq ha]
    have hset : i = 12 ∧ l = 0 ∧ set (fs.disk r) a = setDiskIndirect (fs.disk r) a ∨
        i = 13 ∧ l = 1 ∧ set (fs.disk r) a = setDiskDoubleIndirect (fs.disk r) a := by
      rcases hi with ⟨rfl, rfl, -, rfl⟩ | ⟨rfl, rfl, -, rfl⟩
      · exact Or.inl ⟨rfl, rfl, rfl⟩
      · exact Or.inr ⟨rfl, rfl, rfl⟩
    have hhead : ∀ x, x < 88 → set (fs.disk r) a x = fs.disk r x := by
      intro x hx
      rcases hset with ⟨-, -, hset⟩ | ⟨-, -, hset⟩
      · rw [hset]
        exact storeBytes_of_notMem (by omega)
      · rw [hset]
        exact storeBytes_of_notMem (by omega)
    have hgetset : get (set (fs.disk r) a) = a := by
      rcases hi with ⟨-, -, rfl, rfl⟩ | ⟨-, -, rfl, rfl⟩
      · exact load64_store64_same hafresh.lt
      · exact load64_store64_same hafresh.lt
    have hlinks := links_graft_inode hset (by rw [hi.entry]; exact hz) hok hafresh
    have hpath : ∀ b, b < mapBlocks → blockPath b ≠ [i] := by
      intro b hb
      rcases hi with ⟨rfl, -⟩ | ⟨rfl, -⟩
      · exact (blockPath_ne_table hb).1
      · exact (blockPath_ne_table hb).2.1
    refine ⟨_, rfl, ?_, ?_, fun _ j hj => ?_, fun hne => absurd hz hne⟩
    · refine TablesAdded.one (p := [i]) (l := l + 1) ?_ hpath hok hafresh ?_ rfl
      · rw [Fs.disk_modDisk]
        show Links _ _ _ _ _ (writeBlock fs a zeroBuf).bdev.bytes _
        rw [writeBlock_bytes hdev]
        exact hlinks
      · refine ((sameFiles_writeBlock fs a zeroBuf).trans (sameFiles_withAlloc _ f₁)).trans (sameFiles_modDisk ?_)
        exact hhead
    · rw [Fs.disk_modDisk]
      show get (set (fs.disk r) a) ≠ 0
      rw [hgetset]
      exact hafresh.ne
    · rw [Fs.disk_modDisk]
      show load64 (writeBlock fs a zeroBuf).bdev.bytes (get (set (fs.disk r) a) + 8 * j) = 0
      rw [hgetset, writeBlock_bytes hdev]
      exact load64_cleared hj fun _ _ _ => rfl
  · rw [if_neg hz] at hnew ⊢
    obtain ⟨rfl, rfl⟩ := Prod.mk.inj (Option.some.inj hnew)
    exact ⟨fs, rfl, TablesAdded.none hok, hz, fun h => absurd h hz, fun _ => rfl⟩

/-- **The table between** the inode's second table and the block: there, or added. -/
theorem middle_added {x : Nat} (hdev : fs.Reliable) (hok : MapOk fs.bdev.bytes (fs.disk r))
    (hx : blockWalk fs.bdev.bytes (fs.disk r) [13] = some (.block 2 x)) (hi : i < ptrsPerBlock)
    (hnew : allocs (if load64 fs.bdev.bytes (x + 8 * i) = 0 then 1 else 0) fs = some (new, fs₁))
    (hfresh : ∀ x ∈ new, FreshBlock fs.bdev.bytes (fs.disk r) x) :
    ∃ y g, (if ptrAt (readBlock fs x zeroBuf) i = 0 then (allocPtrs fs).map fun z => (z.1, writePtr z.2 x i z.1)
        else some (ptrAt (readBlock fs x zeroBuf) i, fs)) = some (y, g) ∧
      TablesAdded fs r new fs₁ g ∧ blockWalk g.bdev.bytes (g.disk r) [13, i] = some (.block 1 y) := by
  have hsplit : [13, i] = [13] ++ [i] := rfl
  rw [ptrAt_readBlock fs x hi]
  by_cases hz : load64 fs.bdev.bytes (x + 8 * i) = 0
  · rw [if_pos hz] at hnew ⊢
    obtain ⟨⟨a, f₁⟩, ha, hnew⟩ := Option.bind_eq_some_iff.mp hnew
    obtain ⟨rfl, rfl⟩ := Prod.mk.inj (Option.some.inj hnew)
    have hafresh := hfresh a (List.mem_singleton.mpr rfl)
    rw [allocPtrs_eq ha]
    have hlinks := links_graft_block hok hx hi hz hafresh
    have hbytes : (writePtr ((writeBlock fs a zeroBuf).withAlloc f₁) x i a).bdev.bytes =
        store64 (copyBytes fs.bdev.bytes a zeroBuf 0 blockSize) (x + 8 * i) a := by
      have hdev' : ((writeBlock fs a zeroBuf).withAlloc f₁).Reliable := hdev
      rw [writePtr_bytes hdev' x a hi, ← writeBlock_bytes hdev]
      rfl
    refine ⟨a, _, rfl, ?_, ?_⟩
    · refine TablesAdded.one (p := [13] ++ [i]) (l := 1) ?_ (fun b hb => (blockPath_ne_table hb).2.2 i) hok hafresh ?_ rfl
      · rw [hbytes]
        exact hlinks
      · exact ((sameFiles_writeBlock fs a zeroBuf).trans (sameFiles_withAlloc _ f₁)).trans (sameFiles_writeBlock _ _ _)
    · show blockWalk (writePtr ((writeBlock fs a zeroBuf).withAlloc f₁) x i a).bdev.bytes (fs.disk r) [13, i] = _
      rw [hbytes, hsplit, hlinks.walk, if_pos rfl]
  · rw [if_neg hz] at hnew ⊢
    obtain ⟨rfl, rfl⟩ := Prod.mk.inj (Option.some.inj hnew)
    refine ⟨_, fs, rfl, TablesAdded.none hok, ?_⟩
    rw [hsplit, blockWalk_snoc, hx, Option.bind_some, mapEntry, if_pos hi, mapChild, if_neg hz]

end

/-! ## The block set -/

/-- The tables on the way to a block that are not there. -/
def missingTables (m d : Mem) (b : Nat) : Nat :=
  if b < indirectBase then 0
  else if b - indirectBase < ptrsPerBlock then if diskIndirect d = 0 then 1 else 0
  else
    (if diskDoubleIndirect d = 0 then 1 else 0) +
      if diskDoubleIndirect d = 0 ∨
          load64 m (diskDoubleIndirect d + 8 * ((b - dindirectBase) / ptrsPerBlock)) = 0 then 1
      else 0

/-- **What `crfs_inode_set_block` does**: block `b` of the file is `a` now, and `new` are the
    tables it took to get there. -/
structure BlockSet (fs : Fs) (r : InodeRef) (b a : Nat) (new : List Nat) (fs₁ fs' : Fs) : Prop where
  mapAt : ∀ b', b' < mapBlocks →
    mapAt fs'.bdev.bytes (fs'.disk r) b' = if b' = b then a else mapAt fs.bdev.bytes (fs.disk r) b'
  ok : MapOk fs'.bdev.bytes (fs'.disk r)
  refs : ∀ q l x, blockWalk fs'.bdev.bytes (fs'.disk r) q = some (.block l x) →
    x = a ∨ x ∈ new ∨ (q ≠ blockPath b ∧ blockWalk fs.bdev.bytes (fs.disk r) q = some (.block l x))
  bytes : ∀ y, OffTables fs'.bdev.bytes (fs'.disk r) y → fs'.bdev.bytes y = fs.bdev.bytes y
  same : SameFiles fs fs' r
  alloc : fs' = fs'.withAlloc fs₁

section

variable {fs fs₁ fs' g : Fs} {r : InodeRef} {new : List Nat} {p : List Nat} {a b i : Nat}

theorem TablesAdded.blockSet (h : TablesAdded fs r new fs₁ g)
    (hl : Links g.bdev.bytes (g.disk r) (blockPath b) 0 a fs'.bdev.bytes (fs'.disk r)) (hb : b < mapBlocks)
    (ha : FreshBlock g.bdev.bytes (g.disk r) a) (hsame : SameFiles g fs' r) (halloc : fs' = fs'.withAlloc fs₁) :
    BlockSet fs r b a new fs₁ fs' where
  mapAt := by
    intro b' hb'
    rw [hl.mapAt_leaf hb hb', h.mapAt b' hb']
  ok := hl.mapOk h.ok ha
  refs := by
    intro q l x hq
    rcases hl.refs hq with rfl | ⟨hne, hq⟩
    · exact Or.inl rfl
    · rcases h.refs q l x hq with hnew | hq
      · exact Or.inr (Or.inl hnew)
      · exact Or.inr (Or.inr ⟨hne, hq⟩)
  bytes := fun y hy => (hl.bytes y hy).trans (h.bytes y (hl.offTables hy))
  same := h.same.trans hsame
  alloc := halloc

/-- The last step: the block goes into the last table. -/
theorem TablesAdded.writePtr {x : Nat} (h : TablesAdded fs r new fs₁ g) (hdev : g.Reliable)
    (hx : blockWalk g.bdev.bytes (g.disk r) p = some (.block 1 x)) (hi : i < ptrsPerBlock)
    (hp : p ++ [i] = blockPath b) (hb : b < mapBlocks) (ha : FreshBlock g.bdev.bytes (g.disk r) a) :
    BlockSet fs r b a new fs₁ ((Crfs.writePtr g x i a).setDirty r) := by
  have hlinks := links_leaf_block h.ok hx hi ha
  refine h.blockSet ?_ hb ha ((sameFiles_writeBlock g x _).trans (sameFiles_setDirty _ r)) ?_
  · rw [← hp, Fs.disk_setDirty]
    show Links _ _ _ _ _ (Crfs.writePtr g x i a).bdev.bytes (g.disk r)
    rw [writePtr_bytes hdev x a hi]
    exact hlinks
  · exact congrArg (fun g : Fs => (Crfs.writePtr g x i a).setDirty r) h.alloc

/-- The entry of the second table is null behind a new table too. -/
theorem entry_null_iff {get : Mem → Nat} {g : Fs} {j : Nat} (hj : j < ptrsPerBlock)
    (hnull : get (fs.disk r) = 0 → ∀ j, j < ptrsPerBlock → load64 g.bdev.bytes (get (g.disk r) + 8 * j) = 0)
    (hsame : get (fs.disk r) ≠ 0 → g = fs) :
    (get (fs.disk r) = 0 ∨ load64 fs.bdev.bytes (get (fs.disk r) + 8 * j) = 0) ↔
      load64 g.bdev.bytes (get (g.disk r) + 8 * j) = 0 := by
  by_cases hz : get (fs.disk r) = 0
  · exact iff_of_true (Or.inl hz) (hnull hz j hj)
  · rw [hsame hz]
    exact or_iff_right hz

/-- **`crfs_inode_set_block`**, where its allocations give blocks that are not in use. -/
theorem inodeSetBlock_spec (hdev : fs.Reliable) (hok : MapOk fs.bdev.bytes (fs.disk r)) (hb : b < mapBlocks)
    (ha : FreshBlock fs.bdev.bytes (fs.disk r) a)
    (hnew : allocs (missingTables fs.bdev.bytes (fs.disk r) b) fs = some (new, fs₁))
    (hfresh : ∀ x ∈ new, FreshBlock fs.bdev.bytes (fs.disk r) x) (hnd : (a :: new).Nodup) :
    BlockSet fs r b a new fs₁ (inodeSetBlock fs r b a).2 := by
  obtain ⟨hanew, hnd⟩ := List.nodup_cons.mp hnd
  unfold missingTables at hnew
  unfold inodeSetBlock
  -- three ranges of block numbers: with no table, with one, and with two on the way
  by_cases h₁ : b < indirectBase
  · rw [if_pos h₁] at hnew ⊢
    obtain ⟨rfl, rfl⟩ := Prod.mk.inj (Option.some.inj hnew)
    have hpath : blockPath b = [b] := if_pos h₁
    have hhead : ∀ x, x < 88 → setDiskDirect (fs.disk r) b a x = fs.disk r x := fun x hx =>
      storeBytes_of_notMem (by omega)
    refine (TablesAdded.none hok).blockSet ?_ hb ha ((sameFiles_modDisk hhead).trans (sameFiles_setDirty _ r)) rfl
    rw [hpath, Fs.disk_setDirty, Fs.disk_modDisk]
    exact links_direct h₁ ha
  by_cases h₂ : b - indirectBase < ptrsPerBlock
  · rw [if_neg h₁, if_pos h₂] at hnew ⊢
    have hpath : blockPath b = [12] ++ [b - indirectBase] := by
      unfold blockPath
      rw [if_neg h₁, if_pos h₂]
      rfl
    have htable : RootTable 12 0 diskIndirect setDiskIndirect := Or.inl ⟨rfl, rfl, rfl, rfl⟩
    obtain ⟨g, hg, hadded, hne, -, -⟩ := root_added htable hdev hok hnew hfresh
    dsimp only
    rw [hg]
    exact hadded.writePtr (hadded.same.reliable hdev) (htable.walk _ _ hne) h₂ hpath.symm hb (hadded.fresh a ha hanew)
  · rw [if_neg h₁, if_neg h₂] at hnew ⊢
    have h₃ : b - dindirectBase < ptrsPerBlock * ptrsPerBlock := by
      unfold mapBlocks at hb
      unfold dindirectBase at *
      omega
    have hdiv : (b - dindirectBase) / ptrsPerBlock < ptrsPerBlock := Nat.div_lt_of_lt_mul h₃
    have hmod : (b - dindirectBase) % ptrsPerBlock < ptrsPerBlock := Nat.mod_lt _ (by decide)
    have hpath : blockPath b = [13, (b - dindirectBase) / ptrsPerBlock] ++ [(b - dindirectBase) % ptrsPerBlock] := by
      unfold blockPath
      rw [if_neg h₁, if_neg h₂, if_pos h₃]
      rfl
    have htable : RootTable 13 1 diskDoubleIndirect setDiskDoubleIndirect := Or.inr ⟨rfl, rfl, rfl, rfl⟩
    rw [allocs_add] at hnew
    obtain ⟨⟨new₁, f₁⟩, hnew₁, hnew⟩ := Option.bind_eq_some_iff.mp hnew
    obtain ⟨⟨new₂, f₂⟩, hnew₂, hnew⟩ := Option.map_eq_some_iff.mp hnew
    obtain ⟨rfl, rfl⟩ := Prod.mk.inj hnew
    obtain ⟨g, hg, hadded, hne, hnull, hsame⟩ := root_added htable hdev hok hnew₁
      fun x hx => hfresh x (List.mem_append_left _ hx)
    have hroot := htable.walk g.bdev.bytes (g.disk r) hne
    have hcond := entry_null_iff hdiv hnull hsame
    have hnew₂' : allocs (if load64 g.bdev.bytes
        (diskDoubleIndirect (g.disk r) + 8 * ((b - dindirectBase) / ptrsPerBlock)) = 0 then 1 else 0) g =
          some (new₂, g.withAlloc f₂) := by
      rw [hadded.alloc, allocs_withAlloc]
      simp only [hcond] at hnew₂
      rw [← hadded.alloc, hnew₂]
      rfl
    obtain ⟨y, g', hg', hadded', hwalk⟩ := middle_added (hadded.same.reliable hdev) hadded.ok hroot hdiv hnew₂'
      fun x hx => hadded.fresh x (hfresh x (List.mem_append_right _ hx)) fun hx₁ =>
        List.disjoint_of_nodup_append hnd hx₁ hx
    have hall := hadded.trans hadded'
    rw [if_pos h₃]
    dsimp only
    rw [hg]
    dsimp only
    rw [hg']
    have hdone : TablesAdded fs r (new₁ ++ new₂) f₂ g' := { hall with alloc := hall.alloc }
    exact hdone.writePtr (hall.same.reliable hdev) hwalk hmod hpath.symm hb (hall.fresh a ha hanew)

end

end Crimson.Crfs
