import Crimson.Crfs.SetBlock

/-!
# Reading what was written

`fileByte` is the contents of a file: what `crfs_read` returns (`crfsRead_spec`). One step of
the loop of `crfs_write` replaces one block (`writeChunk_spec`), and `writeLoop_spec` puts the
steps together.

The file after a write is not the one before it with the data in place. The old bytes of a
block are read back only where the step begins inside the block, so a last block that begins
with the data and does not end with it loses its tail; and what a file once held beyond its
size is there again when it grows. `crfs_write_iff` says which writes come out right.
-/

set_option autoImplicit false

namespace Crimson.Crfs

open Crimson.Lib Crimson.Mm

/-- The byte at `i` of the file. -/
def fileByte (m d : Mem) (i : Nat) : BitVec 8 :=
  if mapAt m d (i / blockSize) = 0 then 0 else m (mapAt m d (i / blockSize) + i % blockSize)

/-- The blocks that the next step of the loop allocates are there, and the map does not refer
    to them. -/
def BlocksFresh (fs : Fs) (r : InodeRef) (b : Nat) : Prop :=
  ∃ new fs₁, allocs (1 + missingTables fs.bdev.bytes (fs.disk r) b) fs = some (new, fs₁) ∧
    ∀ x ∈ new, x ≠ 0 ∧ ∀ p l, blockWalk fs.bdev.bytes (fs.disk r) p ≠ some (.block l x)

section

variable {m m' d d' : Mem} {a b l : Nat} {p q : List Nat} {t : MapTable} {e : Nat × Nat}

theorem mapChild_eq_some (h : mapChild e = some t) : e.2 ≠ 0 ∧ t = .block e.1 e.2 := by
  unfold mapChild at h
  split at h
  case isTrue hz => exact absurd h (by simp)
  case isFalse hz => exact ⟨hz, (Option.some.inj h).symm⟩

theorem blockWalk_one (m d : Mem) (i : Nat) : blockWalk m d [i] = mapChild (mapEntry m d .inode i) :=
  blockWalk_snoc m d [] i

/-- What the path of a block leads to is a block of the file. -/
theorem blockWalk_blockPath (hb : b < mapBlocks) (h : blockWalk m d (blockPath b) = some t) :
    t = .block 0 (mapAt m d b) := by
  have hleaf : ∃ x, t = .block 0 x := by
    obtain ⟨hlt, hp⟩ | ⟨i, -, -, hp⟩ | ⟨i, j, -, -, -, hp⟩ := blockPath_cases hb
    all_goals rw [hp] at h
    · have hlt : b < indirectBase := hlt
      rw [blockWalk_one, mapEntry, if_pos hlt] at h
      exact ⟨_, (mapChild_eq_some h).2⟩
    · have hsplit : [12, i] = [12] ++ [i] := rfl
      rw [hsplit, blockWalk_snoc] at h
      obtain ⟨u, hu, ht⟩ := Option.bind_eq_some_iff.mp h
      rw [blockWalk_one] at hu
      rw [(mapChild_eq_some hu).2] at ht
      exact ⟨_, (mapChild_eq_some ht).2⟩
    · have hsplit : [13, i, j] = ([13] ++ [i]) ++ [j] := rfl
      rw [hsplit, blockWalk_snoc] at h
      obtain ⟨u, hu, ht⟩ := Option.bind_eq_some_iff.mp h
      rw [blockWalk_snoc] at hu
      obtain ⟨v, hv, hu⟩ := Option.bind_eq_some_iff.mp hu
      rw [blockWalk_one] at hv
      rw [(mapChild_eq_some hv).2] at hu
      rw [(mapChild_eq_some hu).2] at ht
      exact ⟨_, (mapChild_eq_some ht).2⟩
  obtain ⟨x, rfl⟩ := hleaf
  unfold mapAt
  rw [h]
  rfl

theorem blockWalk_mapAt (hb : b < mapBlocks) (hne : mapAt m d b ≠ 0) :
    blockWalk m d (blockPath b) = some (.block 0 (mapAt m d b)) := by
  cases hw : blockWalk m d (blockPath b) with
  | none =>
    unfold mapAt at hne
    rw [hw] at hne
    exact absurd rfl hne
  | some t => rw [blockWalk_blockPath hb hw]

/-- The blocks of a file are off the tables. -/
theorem MapOk.offTables {y : Nat} (hok : MapOk m d) (hb : b < mapBlocks) (hne : mapAt m d b ≠ 0)
    (hy : mapAt m d b ≤ y ∧ y < mapAt m d b + blockSize) : OffTables m d y := by
  intro q l x hq
  have hleaf := blockWalk_mapAt hb hne
  have hpath : q ≠ blockPath b := by
    rintro rfl
    rw [hleaf] at hq
    exact absurd (MapTable.block.inj (Option.some.inj hq)).1 (by simp)
  have hapart := blocks_apart (hok.aligned q _ x hq) (hok.aligned _ _ _ hleaf) (hok.apart q _ l 0 x _ hq hleaf hpath)
  omega

/-- Only the tables matter to what is missing. -/
theorem missingTables_congr (hb : b < mapBlocks)
    (htables : ∀ p l x, blockWalk m d p = some (.block (l + 1) x) → AgreeOn m m' x blockSize) :
    missingTables m' d b = missingTables m d b := by
  unfold missingTables
  by_cases h₁ : b < indirectBase
  · rw [if_pos h₁, if_pos h₁]
  by_cases h₂ : b - indirectBase < ptrsPerBlock
  · rw [if_neg h₁, if_neg h₁, if_pos h₂, if_pos h₂]
  by_cases hz : diskDoubleIndirect d = 0
  · rw [if_neg h₁, if_neg h₁, if_neg h₂, if_neg h₂, if_pos hz, if_pos (Or.inl hz), if_pos (Or.inl hz)]
  · have hroot : RootTable 13 1 diskDoubleIndirect setDiskDoubleIndirect := Or.inr ⟨rfl, rfl, rfl, rfl⟩
    have hdiv : (b - dindirectBase) / ptrsPerBlock < ptrsPerBlock := by
      refine Nat.div_lt_of_lt_mul ?_
      unfold mapBlocks at hb
      unfold dindirectBase at *
      omega
    have hin : diskDoubleIndirect d + 8 * ((b - dindirectBase) / ptrsPerBlock) + 8 ≤ diskDoubleIndirect d + blockSize := by
      unfold ptrsPerBlock at hdiv ⊢
      unfold blockSize
      omega
    have hload := load64_congr ((htables _ _ _ (hroot.walk m d hz)).mono
      (b := diskDoubleIndirect d + 8 * ((b - dindirectBase) / ptrsPerBlock)) (k := 8) (by omega) hin)
    rw [hload]

end

/-! ## Reading -/

section

variable {fs : Fs} {r : InodeRef} {offset count : Nat}

theorem chunkAt_eq {total : Nat} (hfit : offset + count ≤ mapBlocks * blockSize) (ht : total < count) :
    chunkAt offset count total =
      { blockNo := (offset + total) / blockSize
        blockOff := (offset + total) % blockSize
        len := min (blockSize - (offset + total) % blockSize) (count - total) } := by
  have hbound : mapBlocks * blockSize < 2 ^ 32 := by decide
  have hpos : (offset + total) % 2 ^ 64 = offset + total := Nat.mod_eq_of_lt (by omega)
  have hno : (offset + total) / blockSize % 2 ^ 32 = (offset + total) / blockSize :=
    Nat.mod_eq_of_lt (Nat.lt_of_le_of_lt (Nat.div_le_self _ _) (by omega))
  unfold chunkAt
  dsimp only
  rw [hpos, hno]

/-- **The loop of `crfs_read`** fills the buffer with the contents of the file. -/
theorem readLoop_spec (hfit : offset + count ≤ mapBlocks * blockSize) {fuel total : Nat} {buf : Mem}
    (hfuel : count ≤ total + fuel)
    (hdone : ∀ k, k < total → k < count → buf k = fileByte fs.bdev.bytes (fs.disk r) (offset + k)) :
    ∀ k, k < count → readLoop fs r offset count fuel total buf k = fileByte fs.bdev.bytes (fs.disk r) (offset + k) := by
  induction fuel generalizing total buf with
  | zero => exact fun k hk => hdone k (by omega) hk
  | succ fuel ih =>
    intro k hk
    rw [readLoop]
    by_cases ht : total < count
    · rw [if_pos ht]
      rw [chunkAt_eq hfit ht, inodeGetBlock_eq]
      dsimp only
      generalize hlen : min (blockSize - (offset + total) % blockSize) (count - total) = len
      have hoff : (offset + total) % blockSize < blockSize := Nat.mod_lt _ (by decide)
      have hpos : 0 < len := by omega
      refine ih (by omega) (fun j hj hjc => ?_) k hk
      by_cases hjt : j < total
      · rw [← hdone j hjt hjc]
        split
        · exact fillBytes_of_notMem (Or.inl hjt)
        · exact copyBytes_of_notMem (Or.inl hjt)
      · -- The byte is in the block of this step.
        have hdiv : (offset + j) / blockSize = (offset + total) / blockSize := by
          unfold blockSize at *
          omega
        have hmod : (offset + j) % blockSize = (offset + total) % blockSize + (j - total) := by
          unfold blockSize at *
          omega
        unfold fileByte
        rw [hdiv, hmod]
        split
        · exact if_pos ⟨Nat.le_of_not_lt hjt, hj⟩
        · rw [copyBytes_of_mem (Nat.le_of_not_lt hjt) hj]
          refine (copyBytes_of_mem (Nat.zero_le _) ?_).trans rfl
          omega
    · rw [if_neg ht]
      exact hdone k (by omega) hk

theorem asInt64_of_lt {n : Nat} (h : n < 2 ^ 63) : asInt64 n = n := by
  unfold asInt64
  exact Int.bmod_eq_of_le (by omega) (by omega)

/-- A read of the file through any handle returns these bytes. -/
def ReadsAs (fs : Fs) (r : InodeRef) (size : Nat) (byte : Nat → BitVec 8) : Prop :=
  ∀ (fd : Nat) (f : File) (buf : Mem) (count uptimeMs : Nat), fd < maxOpen → f.inUse = true → f.inode = some r →
    f.offset + count < 2 ^ 64 →
      (crfsRead (fs.modFile fd fun _ => f) fd buf count uptimeMs).1 = (min count (size - f.offset) : Nat) ∧
        ∀ k, k < min count (size - f.offset) →
          (crfsRead (fs.modFile fd fun _ => f) fd buf count uptimeMs).2.1 k = byte (f.offset + k)

/-- **`crfs_read`** returns what the file holds below its size. -/
theorem readsAs_iff (hsize : diskSize (fs.disk r) ≤ mapBlocks * blockSize) (byte : Nat → BitVec 8) :
    ReadsAs fs r (diskSize (fs.disk r)) byte ↔
      ∀ i, i < diskSize (fs.disk r) → fileByte fs.bdev.bytes (fs.disk r) i = byte i := by
  have hbound : mapBlocks * blockSize < 2 ^ 62 := by decide
  have hread : ∀ (fd : Nat) (f : File) (buf : Mem) (count uptimeMs : Nat), fd < maxOpen → f.inUse = true →
      f.inode = some r → f.offset + count < 2 ^ 64 →
        (crfsRead (fs.modFile fd fun _ => f) fd buf count uptimeMs).1 =
            (min count (diskSize (fs.disk r) - f.offset) : Nat) ∧
          ∀ k, k < min count (diskSize (fs.disk r) - f.offset) →
            (crfsRead (fs.modFile fd fun _ => f) fd buf count uptimeMs).2.1 k =
              fileByte fs.bdev.bytes (fs.disk r) (f.offset + k) := by
    intro fd f buf count uptimeMs hfd huse hinode hfits
    have hrange : ¬((fd : Int) < 0 ∨ (maxOpen : Int) ≤ (fd : Int)) := by omega
    have hfile : (fs.modFile fd fun _ => f).files (fd : Int).toNat = f := Function.update_self _ _ _
    unfold crfsRead
    rw [if_neg hrange]
    dsimp only
    rw [hfile, huse, hinode]
    dsimp only
    have hdisk : (fs.modFile fd fun _ => f).disk r = fs.disk r := rfl
    rw [hdisk]
    by_cases hend : diskSize (fs.disk r) ≤ f.offset
    · have hzero : min count (diskSize (fs.disk r) - f.offset) = 0 := by omega
      rw [if_pos hend, hzero]
      exact ⟨rfl, fun k hk => absurd hk (Nat.not_lt_zero k)⟩
    · rw [if_neg hend]
      have hcount : (if diskSize (fs.disk r) < (f.offset + count) % 2 ^ 64 then diskSize (fs.disk r) - f.offset else count) =
          min count (diskSize (fs.disk r) - f.offset) := by
        rw [Nat.mod_eq_of_lt hfits]
        split <;> omega
      rw [hcount]
      refine ⟨?_, ?_⟩
      · have hsmall : min count (diskSize (fs.disk r) - f.offset) < 2 ^ 63 := by omega
        dsimp only
        rw [asInt64_of_lt hsmall]
      · show ∀ k, _ → readLoop (fs.modFile fd fun _ => f) r f.offset _ _ 0 buf k = _
        refine @readLoop_spec (fs.modFile fd fun _ => f) r f.offset _ ?_ _ _ _ ?_ fun k hk => absurd hk (Nat.not_lt_zero k)
        · omega
        · omega
  constructor
  · -- a read of one byte at `i`
    intro h i hi
    obtain ⟨-, hbyte⟩ := h 0 ⟨true, 0, i, some r⟩ zeroBuf 1 0 (by decide) rfl rfl (by show i + 1 < _; omega)
    obtain ⟨-, hfile⟩ := hread 0 ⟨true, 0, i, some r⟩ zeroBuf 1 0 (by decide) rfl rfl (by show i + 1 < _; omega)
    have hone : 0 < min 1 (diskSize (fs.disk r) - i) := by omega
    exact (hfile 0 hone).symm.trans (hbyte 0 hone)
  · intro h fd f buf count uptimeMs hfd huse hinode hfits
    obtain ⟨hret, hbytes⟩ := hread fd f buf count uptimeMs hfd huse hinode hfits
    refine ⟨hret, fun k hk => (hbytes k hk).trans (h _ (by omega))⟩

end

/-! ## One step of the loop of `crfs_write` -/

/-- What byte `i` of the block that the step writes is. -/
def chunkByte (fs : Fs) (r : InodeRef) (c : Chunk) (buf : Mem) (total i : Nat) : BitVec 8 :=
  if c.blockOff ≤ i % blockSize ∧ i % blockSize < c.blockOff + c.len then buf (total + (i % blockSize - c.blockOff))
  else if c.blockOff = 0 then 0
  else fileByte fs.bdev.bytes (fs.disk r) i

/-- The block that was overwritten is freed, if there was one. -/
def freeOld (fs : Fs) (old : Nat) : Fs := if old ≠ 0 then freeBlock fs old else fs

/-- **What one step does**: the block is replaced by `a`, which holds the data; `tables` are the
    tables it took, and `fs₁` has the state of the allocator after the allocations. -/
structure ChunkWritten (fs : Fs) (r : InodeRef) (c : Chunk) (buf : Mem) (total a : Nat) (tables : List Nat)
    (fs₁ fs' : Fs) : Prop where
  allocs : allocs (1 + missingTables fs.bdev.bytes (fs.disk r) c.blockNo) fs = some (a :: tables, fs₁)
  contents : ∀ i, i / blockSize < mapBlocks → fileByte fs'.bdev.bytes (fs'.disk r) i =
    if i / blockSize = c.blockNo then chunkByte fs r c buf total i else fileByte fs.bdev.bytes (fs.disk r) i
  ok : MapOk fs'.bdev.bytes (fs'.disk r)
  refs : ∀ q l x, blockWalk fs'.bdev.bytes (fs'.disk r) q = some (.block l x) →
    x ∈ a :: tables ∨ (q ≠ blockPath c.blockNo ∧ blockWalk fs.bdev.bytes (fs.disk r) q = some (.block l x))
  bytes : ∀ y, OffTables fs'.bdev.bytes (fs'.disk r) y → y < a ∨ a + blockSize ≤ y → fs'.bdev.bytes y = fs.bdev.bytes y
  same : SameFiles fs fs' r
  alloc : fs' = fs'.withAlloc (freeOld fs₁ (mapAt fs.bdev.bytes (fs.disk r) c.blockNo))

section

variable {fs fs' fs₁ : Fs} {r : InodeRef} {c : Chunk} {buf : Mem} {total a : Nat} {tables : List Nat}

/-- The buffer that is written: old bytes where they were read back, and the data. -/
def chunkBuf (fs : Fs) (r : InodeRef) (c : Chunk) (buf : Mem) (total : Nat) : Mem :=
  copyBytes
    (if inodeGetBlock fs r c.blockNo ≠ 0 ∧ c.blockOff ≠ 0 then readBlock fs (inodeGetBlock fs r c.blockNo) zeroBuf
      else zeroBuf)
    c.blockOff buf total c.len

theorem chunkBuf_eq {i : Nat} (hi : i / blockSize = c.blockNo) :
    chunkBuf fs r c buf total (i % blockSize) = chunkByte fs r c buf total i := by
  unfold chunkBuf chunkByte
  by_cases hin : c.blockOff ≤ i % blockSize ∧ i % blockSize < c.blockOff + c.len
  · rw [if_pos hin]
    exact copyBytes_of_mem hin.1 hin.2
  · rw [if_neg hin, copyBytes_of_notMem (by omega), inodeGetBlock_eq]
    unfold fileByte
    rw [hi]
    by_cases hoff : c.blockOff = 0
    · rw [if_pos hoff, if_neg (fun h => h.2 hoff)]
      rfl
    · rw [if_neg hoff]
      by_cases hz : mapAt fs.bdev.bytes (fs.disk r) c.blockNo = 0
      · rw [if_pos hz, if_neg (fun h => h.1 hz)]
        rfl
      · rw [if_neg hz, if_pos ⟨hz, hoff⟩]
        have hlt : i % blockSize < blockSize := Nat.mod_lt _ (by decide)
        have hcopy := @copyBytes_of_mem zeroBuf 0 (mapAt fs.bdev.bytes (fs.disk r) c.blockNo) blockSize fs.bdev.bytes
          (i % blockSize) (Nat.zero_le _) (by omega)
        exact hcopy

/-- Writing a block that the map does not refer to. -/
theorem blockWalk_write_fresh {m d block : Mem} {a : Nat} (ha : FreshBlock m d a) (hok : MapOk m d) (q : List Nat) :
    blockWalk (copyBytes m a block 0 blockSize) d q = blockWalk m d q :=
  blockWalk_congr (fun _ => rfl) fun _ _ _ hp => agreeOn_copyBytes (ha.apart hok hp).symm

theorem missingTables_le (m d : Mem) (b : Nat) : missingTables m d b ≤ 2 := by
  unfold missingTables
  split
  · exact Nat.zero_le _
  · split
    · split <;> omega
    · split <;> split <;> omega

/-- The blocks a step allocates: one for the data, and the tables; no two the same. -/
theorem BlocksFresh.blocks {b : Nat} (h : BlocksFresh fs r b) :
    ∃ a f₀ tables f₁, allocBlock fs = some (a, f₀) ∧ allocs (missingTables fs.bdev.bytes (fs.disk r) b) f₀ = some (tables, f₁) ∧
      (∀ x ∈ a :: tables, FreshBlock fs.bdev.bytes (fs.disk r) x) ∧ (a :: tables).Nodup := by
  obtain ⟨new, fs₁, hallocs, hunused⟩ := h
  have hplaces := (allocs_places hallocs fun x hx => (hunused x hx).1).1
  have hfew := missingTables_le fs.bdev.bytes (fs.disk r) b
  have hnodup := allocs_nodup hallocs (fun x hx => (hunused x hx).1) (by unfold blocksPerSeg; omega)
  rw [allocs_add] at hallocs
  obtain ⟨⟨first, f₀⟩, hone, hallocs⟩ := Option.bind_eq_some_iff.mp hallocs
  obtain ⟨⟨a, f₀⟩, ha, hone⟩ := Option.bind_eq_some_iff.mp hone
  obtain ⟨rfl, rfl⟩ := Prod.mk.inj (Option.some.inj hone)
  obtain ⟨⟨tables, f₁⟩, htables, hallocs⟩ := Option.map_eq_some_iff.mp hallocs
  obtain ⟨rfl, rfl⟩ := Prod.mk.inj hallocs
  exact ⟨a, f₀, tables, f₁, ha, htables, fun x hx => ⟨(hunused x hx).1, (hplaces x hx).2, (hplaces x hx).1, (hunused x hx).2⟩,
    hnodup⟩

/-- A block is written where nothing was, and set. -/
structure BlockReplaced (fs : Fs) (r : InodeRef) (b a : Nat) (block : Mem) (tables : List Nat) (fs₁ fs' : Fs) : Prop where
  mapAt : ∀ b', b' < mapBlocks →
    mapAt fs'.bdev.bytes (fs'.disk r) b' = if b' = b then a else mapAt fs.bdev.bytes (fs.disk r) b'
  ok : MapOk fs'.bdev.bytes (fs'.disk r)
  refs : ∀ q l x, blockWalk fs'.bdev.bytes (fs'.disk r) q = some (.block l x) →
    x ∈ a :: tables ∨ (q ≠ blockPath b ∧ blockWalk fs.bdev.bytes (fs.disk r) q = some (.block l x))
  bytes : ∀ y, OffTables fs'.bdev.bytes (fs'.disk r) y →
    fs'.bdev.bytes y = copyBytes fs.bdev.bytes a block 0 blockSize y
  same : SameFiles fs fs' r
  alloc : fs' = fs'.withAlloc fs₁

theorem blockReplaced {b : Nat} {block : Mem} {f₀ : Fs} (hdev : fs.Reliable) (hok : MapOk fs.bdev.bytes (fs.disk r))
    (hb : b < mapBlocks) (htables : allocs (missingTables fs.bdev.bytes (fs.disk r) b) f₀ = some (tables, fs₁))
    (hfresh : ∀ x ∈ a :: tables, FreshBlock fs.bdev.bytes (fs.disk r) x) (hnodup : (a :: tables).Nodup) :
    BlockReplaced fs r b a block tables fs₁ (inodeSetBlock (writeBlock (fs.withAlloc f₀) a block) r b a).2 := by
  have ha := hfresh a List.mem_cons_self
  -- The block is written before it is linked: the map does not see that.
  have hwalk := @blockWalk_write_fresh _ _ block _ ha hok
  have hdev' : (fs.withAlloc f₀).Reliable := hdev
  have hbytes : (writeBlock (fs.withAlloc f₀) a block).bdev.bytes = copyBytes fs.bdev.bytes a block 0 blockSize :=
    writeBlock_bytes hdev' a block
  have hdisk : (writeBlock (fs.withAlloc f₀) a block).disk r = fs.disk r := rfl
  have hsame : SameFiles fs (writeBlock (fs.withAlloc f₀) a block) r :=
    (sameFiles_withAlloc fs f₀).trans (sameFiles_writeBlock _ _ _)
  have hself : writeBlock (fs.withAlloc f₀) a block = (writeBlock (fs.withAlloc f₀) a block).withAlloc f₀ := rfl
  generalize writeBlock (fs.withAlloc f₀) a block = g at hbytes hdisk hsame hself ⊢
  have hmissing : missingTables g.bdev.bytes (g.disk r) b = missingTables fs.bdev.bytes (fs.disk r) b := by
    rw [hbytes, hdisk]
    exact missingTables_congr hb fun _ _ _ hp => agreeOn_copyBytes (ha.apart hok hp).symm
  have hallocs : allocs (missingTables g.bdev.bytes (g.disk r) b) g = some (tables, g.withAlloc fs₁) := by
    rw [hmissing, hself, allocs_withAlloc, htables, ← hself]
    rfl
  have hok' : MapOk g.bdev.bytes (g.disk r) := by
    rw [hbytes, hdisk]
    exact hok.congr hwalk
  have hfresh' : ∀ x ∈ a :: tables, FreshBlock g.bdev.bytes (g.disk r) x := by
    intro x hx
    refine ⟨(hfresh x hx).ne, (hfresh x hx).aligned, (hfresh x hx).lt, ?_⟩
    intro p l
    rw [hbytes, hdisk, hwalk]
    exact (hfresh x hx).unused p l
  have hset := inodeSetBlock_spec (hsame.reliable hdev) hok' hb (hfresh' a List.mem_cons_self) hallocs
    (fun x hx => hfresh' x (List.mem_cons_of_mem _ hx)) hnodup
  refine ⟨fun b' hb' => ?_, hset.ok, fun q l x hq => ?_, fun y hy => ?_, hsame.trans hset.same, hset.alloc⟩
  · have hold : mapAt g.bdev.bytes (g.disk r) b' = mapAt fs.bdev.bytes (fs.disk r) b' := by
      unfold mapAt
      rw [hbytes, hdisk, hwalk]
    rw [hset.mapAt b' hb', hold]
  · rcases hset.refs q l x hq with rfl | hx | ⟨hne, hq⟩
    · exact Or.inl List.mem_cons_self
    · exact Or.inl (List.mem_cons_of_mem _ hx)
    · rw [hbytes, hdisk, hwalk] at hq
      exact Or.inr ⟨hne, hq⟩
  · rw [hset.bytes y hy, hbytes]

/-- The contents of the file, with one block replaced. -/
theorem fileByte_replaced {b i : Nat} {block : Mem} (h : BlockReplaced fs r b a block tables fs₁ fs')
    (hok : MapOk fs.bdev.bytes (fs.disk r)) (ha : FreshBlock fs.bdev.bytes (fs.disk r) a) (hi : i / blockSize < mapBlocks) :
    fileByte fs'.bdev.bytes (fs'.disk r) i =
      if i / blockSize = b then block (i % blockSize) else fileByte fs.bdev.bytes (fs.disk r) i := by
  have hat := h.mapAt (i / blockSize) hi
  have hlt : i % blockSize < blockSize := Nat.mod_lt _ (by decide)
  have hbyte : mapAt fs'.bdev.bytes (fs'.disk r) (i / blockSize) ≠ 0 →
      fs'.bdev.bytes (mapAt fs'.bdev.bytes (fs'.disk r) (i / blockSize) + i % blockSize) =
        copyBytes fs.bdev.bytes a block 0 blockSize (mapAt fs'.bdev.bytes (fs'.disk r) (i / blockSize) + i % blockSize) :=
    fun hne => h.bytes _ (h.ok.offTables hi hne ⟨Nat.le_add_right _ _, Nat.add_lt_add_left hlt _⟩)
  unfold fileByte
  by_cases hib : i / blockSize = b
  · rw [if_pos hib] at hat ⊢
    rw [hat] at hbyte ⊢
    rw [if_neg ha.ne, hbyte ha.ne, copyBytes_of_mem (Nat.le_add_right _ _) (Nat.add_lt_add_left hlt _),
      Nat.add_sub_cancel_left, Nat.zero_add]
  · rw [if_neg hib] at hat ⊢
    rw [hat] at hbyte ⊢
    split
    · rfl
    · rename_i hz
      have hapart := ha.apart hok (blockWalk_mapAt hi hz)
      have hout : mapAt fs.bdev.bytes (fs.disk r) (i / blockSize) + i % blockSize < a ∨
          a + blockSize ≤ mapAt fs.bdev.bytes (fs.disk r) (i / blockSize) + i % blockSize := by
        rcases hapart with hapart | hapart
        · exact Or.inr (hapart.trans (Nat.le_add_right _ _))
        · exact Or.inl (Nat.lt_of_lt_of_le (Nat.add_lt_add_left hlt _) hapart)
      rw [hbyte hz, copyBytes_of_notMem hout]

theorem freeOld_alloc (fs : Fs) (old : Nat) :
    (freeOld fs old).bdev = fs.bdev ∧ (freeOld fs old).inodes = fs.inodes ∧ (freeOld fs old).files = fs.files := by
  unfold freeOld
  split
  · exact ⟨rfl, rfl, rfl⟩
  · exact ⟨rfl, rfl, rfl⟩

theorem freeOld_withAlloc (g fs : Fs) (old : Nat) :
    freeOld (g.withAlloc fs) old = (freeOld g old).withAlloc (freeOld fs old) := by
  unfold freeOld
  split
  · rfl
  · rfl

/-- **One step of the loop of `crfs_write`.** -/
theorem writeChunk_spec (hdev : fs.Reliable) (hok : MapOk fs.bdev.bytes (fs.disk r)) (hb : c.blockNo < mapBlocks)
    (hfresh : BlocksFresh fs r c.blockNo) :
    ∃ a tables fs₁, ChunkWritten fs r c buf total a tables fs₁ (writeChunk fs r c buf total) := by
  obtain ⟨a, f₀, tables, fs₁, ha, htables, hfresh, hnodup⟩ := hfresh.blocks
  have hresult : writeChunk fs r c buf total =
      freeOld (inodeSetBlock (writeBlock (fs.withAlloc f₀) a (chunkBuf fs r c buf total)) r c.blockNo a).2
        (mapAt fs.bdev.bytes (fs.disk r) c.blockNo) := by
    unfold writeChunk
    rw [ha, ← inodeGetBlock_eq, ← allocBlock_self ha]
    rfl
  have hrepl := @blockReplaced fs fs₁ r a tables c.blockNo (chunkBuf fs r c buf total) f₀ hdev hok hb htables hfresh hnodup
  generalize (inodeSetBlock (writeBlock (fs.withAlloc f₀) a (chunkBuf fs r c buf total)) r c.blockNo a).2 = g at hrepl hresult
  obtain ⟨hbdev, hinodes, hfiles⟩ := freeOld_alloc g (mapAt fs.bdev.bytes (fs.disk r) c.blockNo)
  have hfree := freeOld_withAlloc g fs₁ (mapAt fs.bdev.bytes (fs.disk r) c.blockNo)
  rw [← hrepl.alloc] at hfree
  rw [← hresult] at hbdev hinodes hfiles hfree
  generalize writeChunk fs r c buf total = fs' at hbdev hinodes hfiles hfree
  have hdisk : ∀ r', fs'.disk r' = g.disk r' := by
    intro r'
    unfold Fs.disk
    rw [hinodes]
  refine ⟨a, tables, fs₁, ?_, fun i hi => ?_, ?_, fun q l x hq => ?_, fun y hy hout => ?_, ?_, hfree⟩
  · rw [allocs_add]
    show ((allocBlock fs).bind _).bind _ = _
    rw [ha]
    show (allocs _ f₀).map _ = _
    rw [htables]
    rfl
  · rw [hbdev, hdisk, fileByte_replaced hrepl hok (hfresh a List.mem_cons_self) hi]
    by_cases hib : i / blockSize = c.blockNo
    · rw [if_pos hib, if_pos hib, chunkBuf_eq hib]
    · rw [if_neg hib, if_neg hib]
  · rw [hbdev, hdisk]
    exact hrepl.ok
  · rw [hbdev, hdisk] at hq
    exact hrepl.refs q l x hq
  · rw [hbdev, hdisk] at hy
    rw [hbdev, hrepl.bytes y hy, copyBytes_of_notMem hout]
  · refine hrepl.same.trans ⟨by rw [hbdev], hfiles, fun r' _ => by rw [hinodes], by rw [hinodes], fun x _ => ?_⟩
    rw [hdisk]

end

/-! ## The loop -/

/-- Every step of the loop of `crfs_write` meets `P`, which is told the state before the step and
    the block that it writes. -/
def EachChunk (P : Fs → Nat → Prop) (r : InodeRef) (buf : Mem) (offset count : Nat) : Nat → Nat → Fs → Prop
  | 0, _, _ => True
  | fuel + 1, total, fs => total < count →
    P fs (chunkAt offset count total).blockNo ∧
      EachChunk P r buf offset count fuel (total + (chunkAt offset count total).len)
        (writeChunk fs r (chunkAt offset count total) buf total)

/-- The bytes after the data in its last block, where that block begins with the data. -/
def LostTail (start stop i : Nat) : Prop :=
  start < stop ∧ stop ≤ i ∧ i / blockSize = (stop - 1) / blockSize ∧ start ≤ i / blockSize * blockSize

instance (start stop i : Nat) : Decidable (LostTail start stop i) :=
  inferInstanceAs (Decidable (_ ∧ _ ∧ _ ∧ _))

section

variable {fs : Fs} {r : InodeRef} {buf : Mem} {offset count : Nat}

/-- The bytes after one step and the rest, from those after the step. -/
theorem chunkByte_cases {total len i : Nat} {c : Chunk} (hno : c.blockNo = (offset + total) / blockSize)
    (hoff : c.blockOff = (offset + total) % blockSize) (hlen : c.len = len)
    (hl : len = min (blockSize - (offset + total) % blockSize) (count - total)) (ht : total < count) :
    (if offset + (total + len) ≤ i ∧ i < offset + count then buf (i - offset)
      else if LostTail (offset + (total + len)) (offset + count) i then 0
      else if i / blockSize = c.blockNo then chunkByte fs r c buf total i
      else fileByte fs.bdev.bytes (fs.disk r) i) =
    if offset + total ≤ i ∧ i < offset + count then buf (i - offset)
    else if LostTail (offset + total) (offset + count) i then 0
    else fileByte fs.bdev.bytes (fs.disk r) i := by
  unfold chunkByte
  rw [hno, hoff, hlen]
  unfold blockSize at *
  -- byte `i` is in the block of this step, or in another one
  by_cases hblock : i / 4096 = (offset + total) / 4096
  · rw [if_pos hblock]
    by_cases hnext : offset + (total + len) ≤ i ∧ i < offset + count
    · rw [if_pos hnext, if_pos (by omega)]
    · have htail : ¬LostTail (offset + (total + len)) (offset + count) i := by
        unfold LostTail blockSize
        omega
      rw [if_neg hnext, if_neg htail]
      by_cases hin : (offset + total) % 4096 ≤ i % 4096 ∧ i % 4096 < (offset + total) % 4096 + len
      · have hdata : offset + total ≤ i ∧ i < offset + count := by omega
        have hindex : total + (i % 4096 - (offset + total) % 4096) = i - offset := by omega
        rw [if_pos hin, if_pos hdata, hindex]
      · have hdata : ¬(offset + total ≤ i ∧ i < offset + count) := by omega
        rw [if_neg hin, if_neg hdata]
        by_cases hstart : (offset + total) % 4096 = 0
        · have hlost : LostTail (offset + total) (offset + count) i := by
            unfold LostTail blockSize
            omega
          rw [if_pos hstart, if_pos hlost]
        · have hlost : ¬LostTail (offset + total) (offset + count) i := by
            unfold LostTail blockSize
            omega
          rw [if_neg hstart, if_neg hlost]
  · have hdata : (offset + (total + len) ≤ i ∧ i < offset + count) ↔ (offset + total ≤ i ∧ i < offset + count) := by omega
    rw [if_neg hblock]
    by_cases hin : offset + total ≤ i ∧ i < offset + count
    · rw [if_pos hin, if_pos (hdata.mpr hin)]
    · have hlost : LostTail (offset + (total + len)) (offset + count) i ↔ LostTail (offset + total) (offset + count) i := by
        unfold LostTail blockSize
        omega
      rw [if_neg hin, if_neg (fun h => hin (hdata.mp h))]
      by_cases hl : LostTail (offset + total) (offset + count) i
      · rw [if_pos hl, if_pos (hlost.mpr hl)]
      · rw [if_neg hl, if_neg (fun h => hl (hlost.mp h))]

/-- **The loop of `crfs_write`**: the data, and nothing in the lost tail. -/
theorem writeLoop_spec (hfit : offset + count ≤ mapBlocks * blockSize) {fuel total : Nat} (hfuel : count ≤ total + fuel)
    (htotal : total ≤ count) (hdev : fs.Reliable) (hok : MapOk fs.bdev.bytes (fs.disk r))
    (hfresh : EachChunk (BlocksFresh · r ·) r buf offset count fuel total fs) :
    MapOk (writeLoop r buf offset count fuel total fs).bdev.bytes ((writeLoop r buf offset count fuel total fs).disk r) ∧
      SameFiles fs (writeLoop r buf offset count fuel total fs) r ∧
      ∀ i, i / blockSize < mapBlocks →
        fileByte (writeLoop r buf offset count fuel total fs).bdev.bytes ((writeLoop r buf offset count fuel total fs).disk r) i =
          if offset + total ≤ i ∧ i < offset + count then buf (i - offset)
          else if LostTail (offset + total) (offset + count) i then 0
          else fileByte fs.bdev.bytes (fs.disk r) i := by
  induction fuel generalizing fs total with
  | zero =>
    refine ⟨hok, SameFiles.refl fs r, fun i _ => ?_⟩
    have hdata : ¬(offset + total ≤ i ∧ i < offset + count) := by omega
    have hlost : ¬LostTail (offset + total) (offset + count) i := fun h => by
      have := h.1
      omega
    rw [if_neg hdata, if_neg hlost]
    rfl
  | succ fuel ih =>
    rw [writeLoop]
    by_cases ht : total < count
    · rw [if_pos ht]
      obtain ⟨hblocks, hrest⟩ := hfresh ht
      have hchunk := chunkAt_eq hfit ht
      generalize chunkAt offset count total = c at hchunk hblocks hrest ⊢
      have hno : c.blockNo = (offset + total) / blockSize := by rw [hchunk]
      have hoff : c.blockOff = (offset + total) % blockSize := by rw [hchunk]
      have hlen : c.len = min (blockSize - (offset + total) % blockSize) (count - total) := by rw [hchunk]
      have hmod : (offset + total) % blockSize < blockSize := Nat.mod_lt _ (by decide)
      have hb : c.blockNo < mapBlocks := by
        rw [hno]
        exact Nat.div_lt_of_lt_mul (by rw [Nat.mul_comm]; omega)
      obtain ⟨a, tables, fs₁, hwritten⟩ := @writeChunk_spec fs r c buf total hdev hok hb hblocks
      obtain ⟨hok', hsame, hbytes⟩ := ih (by omega) (by omega) (hwritten.same.reliable hdev) hwritten.ok hrest
      refine ⟨hok', hwritten.same.trans hsame, fun i hi => ?_⟩
      rw [hbytes i hi, hwritten.contents i hi]
      exact chunkByte_cases hno hoff rfl hlen ht
    · rw [if_neg ht]
      refine ⟨hok, SameFiles.refl fs r, fun i _ => ?_⟩
      have hdata : ¬(offset + total ≤ i ∧ i < offset + count) := by omega
      have hlost : ¬LostTail (offset + total) (offset + count) i := fun h => by
        have := h.1
        omega
      rw [if_neg hdata, if_neg hlost]

end

end Crimson.Crfs
