import Crimson.Crfs.Pointers
import Crimson.Crfs.ReadExtent

/-!
# Writing a file where something fails

`crfs_write` returns the number of bytes it was asked to write, whatever fails on the way
(`WriteOpen.returns`). So the number is honest only where all the data is there afterwards. This
module says what an honest write is (`WriteHonest`), and when a write is one (`WriteSound`).

Where every step succeeds (`WriteLands`) the file is what it is on a device that never fails. What
remains is what goes wrong there too: bytes that come up between the old end and the data, bytes
after the data that are lost, a size that grows with nothing written; and `crfs_free_block`, which
frees a block by unmarking its segment, with all that is in it.
-/

set_option autoImplicit false

namespace Crimson.Crfs

open Crimson.Lib Crimson.Mm

/-! ## The property -/

/-- The block is in the map of the file. -/
def Needed (fs : Fs) (r : InodeRef) (x : Nat) : Prop :=
  ∃ p l, blockWalk fs.bdev.bytes (fs.disk r) p = some (.block l x)

/-- **No block that the file needs is freed**: its segment, if it was marked or was taken since, is
    marked. -/
def NoneFreed (fs fs' : Fs) (r : InodeRef) : Prop :=
  ∀ x, Needed fs' r x → segBit fs.segBitmap (segOf x) = true ∨ fs.nextSeg ≤ segOf x →
    segBit fs'.segBitmap (segOf x) = true

/-- The size of a file after `k` bytes are written. -/
def grownSize (size offset k : Nat) : Nat := if k = 0 then size else max size (offset + k)

/-- **An honest write**: so many bytes as the call returns are in the file, its size has grown to
    cover them and no more, the other bytes are what they were, and no block of it is freed. -/
def WriteHonest (fs : Fs) (r : InodeRef) (fd : Int) (buf : Mem) (n uptimeMs : Nat) (old : Mem) : Prop :=
  ∃ k, k ≤ n ∧ (crfsWrite fs fd buf n uptimeMs).1 = k ∧
    diskSize ((crfsWrite fs fd buf n uptimeMs).2.disk r) = grownSize (diskSize (fs.disk r)) (fs.files fd.toNat).offset k ∧
    ReadsAs (crfsWrite fs fd buf n uptimeMs).2 r (grownSize (diskSize (fs.disk r)) (fs.files fd.toNat).offset k)
      (spliced old buf (diskSize (fs.disk r)) (fs.files fd.toNat).offset k) ∧
    NoneFreed fs (crfsWrite fs fd buf n uptimeMs).2 r

/-! ## What a call starts from -/

/-- The file's map is in order, and its blocks were handed out before. -/
structure FileOk (fs : Fs) (r : InodeRef) : Prop where
  map : MapOk fs.bdev.bytes (fs.disk r)
  cursor : CursorOk fs
  behind : ∀ x, Needed fs r x → Behind fs x

/-- What all the calls keep gives it of every inode. -/
theorem LiveOk.fileOk {fs : Fs} (h : LiveOk fs) (r : InodeRef) : FileOk fs r :=
  ⟨h.maps r, h.cursor, fun x ⟨p, l, hp⟩ => h.behind x ⟨r, p, l, hp⟩⟩

/-- The file is open for writing. -/
structure WriteOpen (fs : Fs) (r : InodeRef) (fd : Int) : Prop where
  slot : 0 ≤ fd ∧ fd < maxOpen
  inUse : (fs.files fd.toNat).inUse = true
  inode : (fs.files fd.toNat).inode = some r
  flags : (fs.files fd.toNat).flags &&& (oWronly ||| oRdwr) ≠ 0#32
  offset : (fs.files fd.toNat).offset < 2 ^ 64
  file : FileOk fs r
  size : diskSize (fs.disk r) ≤ 2 ^ 44

/-! ## The condition -/

/-- The next block that is handed out is in the segment. -/
def CursorIn (fs : Fs) (seg : Nat) : Prop := fs.currentSeg = seg ∧ seg ≠ 0 ∧ fs.blockInSeg < blocksPerSeg

/-- The block that is replaced, if its segment is marked, is not needed by what shares the segment:
    the file's other blocks there are replaced too, and no new one will be there. -/
def OldUnneeded (fs : Fs) (r : InodeRef) (offset n b : Nat) : Prop :=
  inodeGetBlock fs r b ≠ 0 → segBit fs.segBitmap (segOf (inodeGetBlock fs r b)) = true →
    (∀ p l x, blockWalk fs.bdev.bytes (fs.disk r) p = some (.block l x) → segOf x = segOf (inodeGetBlock fs r b) →
      ∃ k, k < n ∧ p = blockPath ((offset + k) / blockSize)) ∧
    ¬CursorIn fs (segOf (inodeGetBlock fs r b))

/-- **When a write is honest.** -/
structure WriteSound (fs : Fs) (r : InodeRef) (buf : Mem) (offset n : Nat) (old : Mem) : Prop where
  empty : n = 0 → offset ≤ diskSize (fs.disk r)
  fits : 0 < n → offset + n ≤ mapBlocks * blockSize
  lands : WriteLands r buf offset n n 0 fs
  gap : ∀ i, diskSize (fs.disk r) ≤ i → i < offset → fileByte fs.bdev.bytes (fs.disk r) i = 0
  tail : ∀ i, i < diskSize (fs.disk r) → LostTail offset (offset + n) i → old i = 0
  freed : ∀ k, k < n → OldUnneeded fs r offset n ((offset + k) / blockSize)

/-! ## What the allocator marks -/

/-- Segments that are taken are marked, and nothing is unmarked. -/
structure AllocMarks (fs fs' : Fs) : Prop where
  next : fs.nextSeg ≤ fs'.nextSeg
  low : ∀ seg, seg < fs.nextSeg → segBit fs'.segBitmap seg = segBit fs.segBitmap seg
  taken : ∀ seg, fs.nextSeg ≤ seg → seg < fs'.nextSeg → segBit fs'.segBitmap seg = true

section

variable {fs fs' fs'' : Fs} {a n : Nat} {new : List Nat}

theorem AllocMarks.refl (fs : Fs) : AllocMarks fs fs :=
  ⟨le_rfl, fun _ _ => rfl, fun _ h h' => absurd h' (Nat.not_lt.mpr h)⟩

theorem AllocMarks.trans (h : AllocMarks fs fs') (h' : AllocMarks fs' fs'') : AllocMarks fs fs'' where
  next := h.next.trans h'.next
  low := fun seg hseg => (h'.low seg (Nat.lt_of_lt_of_le hseg h.next)).trans (h.low seg hseg)
  taken := by
    intro seg hlow hhigh
    by_cases hmid : seg < fs'.nextSeg
    · rw [h'.low seg hmid]
      exact h.taken seg hlow hmid
    · exact h'.taken seg (Nat.le_of_not_lt hmid) hhigh

/-- A segment is the first one that was not marked. -/
theorem allocMarks_segment {seg : Nat} (h : allocSegment fs = some (seg, fs')) : AllocMarks fs fs' := by
  have htook := allocSegment_spec h
  have hnext := (allocSegment_cursor h).1
  refine ⟨?_, ?_, ?_⟩
  · rw [hnext]
    exact Nat.le_succ_of_le htook.inRange.1
  · intro i hi
    have hne : i ≠ seg := Nat.ne_of_lt (Nat.lt_of_lt_of_le hi htook.inRange.1)
    rw [htook.bits]
    simp [hne]
  · intro i hlow hhigh
    rw [hnext] at hhigh
    rw [htook.bits]
    rcases Nat.lt_succ_iff_lt_or_eq.mp hhigh with hlt | rfl
    · unfold allocSegment at h
      split at h
      · cases h
      · rename_i j hj
        cases h
        have hskipped := (List.find?_range'_eq_some.mp hj).2.2 i hlow hlt
        have hbit : segBit fs.segBitmap i = true := by simpa using hskipped
        rw [hbit]
        rfl
    · simp

theorem allocBlock_marks (h : allocBlock fs = some (a, fs')) : AllocMarks fs fs' := by
  rcases allocBlock_cases h with ⟨-, -, rfl, -⟩ | ⟨seg, fs₁, -, hseg, rfl, -⟩
  · have hmarks := AllocMarks.refl fs
    exact ⟨hmarks.next, hmarks.low, hmarks.taken⟩
  · have hmarks := allocMarks_segment hseg
    exact ⟨hmarks.next, hmarks.low, hmarks.taken⟩

theorem allocs_marks (h : allocs n fs = some (new, fs')) : AllocMarks fs fs' := by
  induction n generalizing fs new with
  | zero =>
    cases h
    exact AllocMarks.refl _
  | succ n ih =>
    obtain ⟨⟨a, f₁⟩, ha, hmap⟩ := Option.bind_eq_some_iff.mp h
    obtain ⟨⟨rest, f₂⟩, hrest, hpair⟩ := Option.map_eq_some_iff.mp hmap
    cases hpair
    exact (allocBlock_marks ha).trans (ih hrest)

theorem freeOld_bit (fs : Fs) (old seg : Nat) :
    segBit (freeOld fs old).segBitmap seg = true ↔ segBit fs.segBitmap seg = true ∧ (old ≠ 0 → segOf old ≠ seg) := by
  unfold freeOld
  split
  · rename_i hne
    rw [(freeBlock_spec fs old).2.2.2 seg, Bool.and_eq_true, Bool.not_eq_true', decide_eq_false_iff_not]
    exact and_congr_right fun _ => ⟨fun hseg _ heq => hseg heq.symm, fun hseg heq => hseg hne heq.symm⟩
  · rename_i hzero
    exact (and_iff_left fun hne => absurd hne hzero).symm

end

/-! ## The loop, on a device that does not fail -/

/-- There are blocks for the data and for the tables that are missing. -/
def HasBlocks (r : InodeRef) (fs : Fs) (b : Nat) : Prop :=
  ∃ x, allocs (1 + missingTables fs.bdev.bytes (fs.disk r) b) fs = some x

/-- What the blocks from byte `total` on do to the file and to the segments' marks. -/
structure LoopMarks (fs : Fs) (r : InodeRef) (offset n total : Nat) (fs' : Fs) : Prop where
  file : FileOk fs' r
  next : fs.nextSeg ≤ fs'.nextSeg
  taken : ∀ seg, fs.nextSeg ≤ seg → seg < fs'.nextSeg → segBit fs'.segBitmap seg = true
  low : ∀ seg, seg < fs.nextSeg → (segBit fs'.segBitmap seg = true ↔ segBit fs.segBitmap seg = true ∧
    ∀ k, total ≤ k → k < n → inodeGetBlock fs r ((offset + k) / blockSize) ≠ 0 →
      segOf (inodeGetBlock fs r ((offset + k) / blockSize)) ≠ seg)
  refs : ∀ p l x, blockWalk fs'.bdev.bytes (fs'.disk r) p = some (.block l x) → (¬Behind fs x ∧ 5 ≤ segOf x) ∨
    ((∀ k, total ≤ k → k < n → p ≠ blockPath ((offset + k) / blockSize)) ∧
      blockWalk fs.bdev.bytes (fs.disk r) p = some (.block l x))

section

variable {fs fs' fs₁ : Fs} {r : InodeRef} {c : Chunk} {buf : Mem} {offset n total a b : Nat} {tables : List Nat}

/-- Blocks that are handed out are in no map. -/
theorem FileOk.fresh (h : FileOk fs r) {k : Nat} {new : List Nat} (hall : allocs k fs = some (new, fs₁)) :
    ∀ x ∈ new, FreshBlock fs.bdev.bytes (fs.disk r) x := by
  have hmoved := allocs_cursor h.cursor hall
  intro x hx
  obtain ⟨hne, hlt, haligned⟩ := hmoved.aligned hall x hx
  exact ⟨hne, haligned, hlt, fun p l hp => hmoved.ahead x hx (h.behind x ⟨p, l, hp⟩)⟩

theorem FileOk.blocksFresh (h : FileOk fs r) (hb : HasBlocks r fs b) : BlocksFresh fs r b := by
  obtain ⟨⟨new, fs₁⟩, hall⟩ := hb
  exact ⟨new, fs₁, hall, fun x hx => ⟨(h.fresh hall x hx).ne, (h.fresh hall x hx).unused⟩⟩

/-- **One step** keeps the file in order. -/
theorem FileOk.chunk (h : FileOk fs r) (hw : ChunkWritten fs r c buf total a tables fs₁ fs') : FileOk fs' r := by
  have hmoved := allocs_cursor h.cursor hw.allocs
  obtain ⟨hnext, hcur, hin, htotal, -⟩ := @freeOld_cursor fs₁ (mapAt fs.bdev.bytes (fs.disk r) c.blockNo)
  have hbehind : ∀ x, Behind fs₁ x → Behind fs' x := by
    intro x hx
    rw [hw.alloc]
    unfold Behind Fs.withAlloc
    dsimp only
    rw [hnext, hcur, hin]
    exact hx
  refine ⟨hw.ok, ⟨?_, ?_, ?_⟩, ?_⟩
  · rw [hw.alloc]
    show sbTotalSegs (freeOld fs₁ _).sb * segSize ≤ _
    rw [htotal]
    exact hmoved.ok.fits
  · rw [hw.alloc]
    show 5 ≤ (freeOld fs₁ _).nextSeg
    rw [hnext]
    exact hmoved.ok.next
  · rw [hw.alloc]
    show (freeOld fs₁ _).currentSeg ≠ 0 → 5 ≤ (freeOld fs₁ _).currentSeg ∧
      (freeOld fs₁ _).currentSeg < (freeOld fs₁ _).nextSeg ∧ (freeOld fs₁ _).currentSeg < sbTotalSegs (freeOld fs₁ _).sb
    rw [hnext, hcur, htotal]
    exact hmoved.ok.cursor
  · rintro x ⟨p, l, hp⟩
    rcases hw.refs p l x hp with hnew | ⟨-, hold⟩
    · exact hbehind x (hmoved.behind x hnew)
    · exact hbehind x (hmoved.keeps x (h.behind x ⟨p, l, hold⟩))

/-- The allocator's blocks are used by nothing else. -/
theorem FileOk.freshAllocs (h : FileOk fs r) : FreshAllocs fs r := by
  refine freshAllocs_of_behind h.cursor fun t ht => ?_
  obtain ⟨l, hw⟩ := blockWalk_tablePath fs.bdev.bytes (fs.disk r) ht
  exact ⟨h.map.aligned _ _ _ hw, h.behind _ ⟨_, _, hw⟩⟩

/-- The bytes that a step writes are those of its block. -/
theorem chunkAt_block (hfit : offset + n ≤ mapBlocks * blockSize) (ht : total < n) {k : Nat} (hk : total ≤ k) (hkn : k < n) :
    (offset + k) / blockSize = (chunkAt offset n total).blockNo ↔ k < total + (chunkAt offset n total).len := by
  rw [chunkAt_eq hfit ht]
  dsimp only
  unfold blockSize
  omega

theorem chunkAt_lt (hfit : offset + n ≤ mapBlocks * blockSize) (ht : total < n) :
    (chunkAt offset n total).blockNo < mapBlocks ∧ 0 < (chunkAt offset n total).len := by
  have hmod : (offset + total) % blockSize < blockSize := Nat.mod_lt _ (by decide)
  rw [chunkAt_eq hfit ht]
  dsimp only
  exact ⟨Nat.div_lt_of_lt_mul (by rw [Nat.mul_comm]; omega), by omega⟩

/-- One step sets one block of the map. -/
theorem FileOk.chunk_get (h : FileOk fs r) (hdev : fs.Reliable) (hb : c.blockNo < mapBlocks)
    (hblocks : HasBlocks r fs c.blockNo) :
    ∃ a f₀, allocBlock fs = some (a, f₀) ∧ ∀ b, b < mapBlocks →
      inodeGetBlock (writeChunk fs r c buf total) r b = if b = c.blockNo then a else inodeGetBlock fs r b := by
  obtain ⟨a, f₀, tables, fs₁, ha, htables, hfresh, hnodup⟩ := (h.blocksFresh hblocks).blocks
  have hrepl := @blockReplaced fs fs₁ r a tables c.blockNo (chunkBuf fs r c buf total) f₀ hdev h.map hb htables hfresh hnodup
  rw [← allocBlock_self ha] at hrepl
  refine ⟨a, f₀, ha, fun b hb' => ?_⟩
  rw [writeChunk_eq ha]
  generalize (inodeSetBlock (writeBlock f₀ a (chunkBuf fs r c buf total)) r c.blockNo a).2 = g at hrepl ⊢
  generalize inodeGetBlock fs r c.blockNo = old
  obtain ⟨hbdev, hinodes, -⟩ := freeOld_alloc g old
  have hdisk : (freeOld g old).disk r = g.disk r := by
    unfold Fs.disk
    rw [hinodes]
  rw [inodeGetBlock_eq, inodeGetBlock_eq, hbdev, hdisk]
  exact hrepl.mapAt b hb'

theorem FileOk.needed_get (h : FileOk fs r) (hne : inodeGetBlock fs r b ≠ 0) :
    segOf (inodeGetBlock fs r b) < fs.nextSeg := by
  refine (h.behind _ ⟨blockPath b, 0, ?_⟩).1
  rw [inodeGetBlock_eq] at hne ⊢
  exact blockWalk_mapAt (mapAt_bound hne) hne

theorem loopMarks_done (h : FileOk fs r) (hdone : n ≤ total) : LoopMarks fs r offset n total fs where
  file := h
  next := le_rfl
  taken := fun _ hlow hhigh => absurd hhigh (Nat.not_lt.mpr hlow)
  low := fun _ _ => (and_iff_left fun _ hk hkn => absurd (hdone.trans hk) (Nat.not_le.mpr hkn)).symm
  refs := fun _ _ _ hp => Or.inr ⟨fun _ hk hkn => absurd (hdone.trans hk) (Nat.not_le.mpr hkn), hp⟩

/-- One step, and the rest. -/
theorem LoopMarks.step {g : Fs} (hfit : offset + n ≤ mapBlocks * blockSize) (ht : total < n) (h : FileOk fs r)
    (hw : ChunkWritten fs r (chunkAt offset n total) buf total a tables fs₁ g)
    (hget : ∀ b, b < mapBlocks → b ≠ (chunkAt offset n total).blockNo → inodeGetBlock g r b = inodeGetBlock fs r b)
    (hrest : LoopMarks g r offset n (total + (chunkAt offset n total).len) fs') : LoopMarks fs r offset n total fs' := by
  obtain ⟨-, hlen⟩ := chunkAt_lt hfit ht
  have hblock := fun k => @chunkAt_block offset n total hfit ht k
  have hmarks := allocs_marks hw.allocs
  have hmoved := allocs_cursor h.cursor hw.allocs
  have hrefs := hw.refs
  have halloc := hw.alloc
  rw [← inodeGetBlock_eq] at halloc
  have hold := fun hne => @FileOk.needed_get fs r (chunkAt offset n total).blockNo h hne
  obtain ⟨hnext, hcur, hin, -, -⟩ := @freeOld_cursor fs₁ (inodeGetBlock fs r (chunkAt offset n total).blockNo)
  have hlater : ∀ k, total + (chunkAt offset n total).len ≤ k → k < n →
      inodeGetBlock g r ((offset + k) / blockSize) = inodeGetBlock fs r ((offset + k) / blockSize) := by
    intro k hk hkn
    refine hget _ (Nat.div_lt_of_lt_mul (by rw [Nat.mul_comm]; omega)) fun heq => ?_
    have := (hblock k (by omega) hkn).mp heq
    omega
  generalize (chunkAt offset n total).blockNo = b at *
  generalize (chunkAt offset n total).len = len at *
  have hgnext : g.nextSeg = fs₁.nextSeg := by
    rw [halloc]
    exact hnext
  have hbit : ∀ seg, segBit g.segBitmap seg = true ↔
      segBit fs₁.segBitmap seg = true ∧ (inodeGetBlock fs r b ≠ 0 → segOf (inodeGetBlock fs r b) ≠ seg) := by
    intro seg
    rw [halloc]
    exact freeOld_bit fs₁ _ seg
  have hgrow : fs.nextSeg ≤ g.nextSeg := by
    rw [hgnext]
    exact hmarks.next
  refine ⟨hrest.file, hgrow.trans hrest.next, ?_, ?_, ?_⟩
  · intro seg hlow hhigh
    by_cases hmid : seg < g.nextSeg
    · -- Blocks that are freed were handed out before.
      refine (hrest.low seg hmid).mpr ⟨(hbit seg).mpr ⟨hmarks.taken seg hlow (by rw [← hgnext]; exact hmid), ?_⟩, ?_⟩
      · intro hne
        exact Nat.ne_of_lt (Nat.lt_of_lt_of_le (hold hne) hlow)
      · intro k hk hkn hne
        rw [hlater k hk hkn] at hne ⊢
        exact Nat.ne_of_lt (Nat.lt_of_lt_of_le (h.needed_get hne) hlow)
    · exact hrest.taken seg (Nat.le_of_not_lt hmid) hhigh
  · intro seg hseg
    rw [hrest.low seg (Nat.lt_of_lt_of_le hseg hgrow), hbit, hmarks.low seg hseg, and_assoc]
    refine and_congr_right fun _ => ⟨?_, ?_⟩
    · rintro ⟨hfirst, hrest⟩ k hk hkn
      by_cases hlt : k < total + len
      · rw [(hblock k hk hkn).mpr hlt]
        exact hfirst
      · have hk' := Nat.le_of_not_lt hlt
        rw [← hlater k hk' hkn]
        exact hrest k hk' hkn
    · intro hall
      refine ⟨?_, fun k hk hkn => ?_⟩
      · have hfirst := hall total le_rfl ht
        rw [(hblock total le_rfl ht).mpr (Nat.lt_add_of_pos_right hlen)] at hfirst
        exact hfirst
      · rw [hlater k hk hkn]
        exact hall k (by omega) hkn
  · intro p l x hp
    rcases hrest.refs p l x hp with ⟨hahead, hdata⟩ | ⟨hne, hp⟩
    · refine Or.inl ⟨fun hx => hahead ?_, hdata⟩
      have hbehind := hmoved.keeps x hx
      rw [halloc]
      unfold Behind Fs.withAlloc
      dsimp only
      rw [hnext, hcur, hin]
      exact hbehind
    · rcases hrefs p l x hp with hnew | ⟨hpb, hp⟩
      · exact Or.inl ⟨hmoved.ahead x hnew, hmoved.data x hnew⟩
      · refine Or.inr ⟨fun k hk hkn => ?_, hp⟩
        by_cases hlt : k < total + len
        · rw [(hblock k hk hkn).mpr hlt]
          exact hpb
        · exact hne k (Nat.le_of_not_lt hlt) hkn

/-- **The loop** on a device that does not fail, with all the blocks it takes. -/
theorem loopMarks (hfit : offset + n ≤ mapBlocks * blockSize) {fuel : Nat} (hfuel : n ≤ total + fuel) (hdev : fs.Reliable)
    (h : FileOk fs r) (hblocks : EachChunk (HasBlocks r) r buf offset n fuel total fs) :
    LoopMarks fs r offset n total (writeLoop r buf offset n fuel total fs) := by
  induction fuel generalizing fs total with
  | zero => exact loopMarks_done h hfuel
  | succ fuel ih =>
    rw [writeLoop]
    by_cases ht : total < n
    · obtain ⟨hhas, hrest⟩ := hblocks ht
      obtain ⟨hb, hlen⟩ := chunkAt_lt hfit ht
      obtain ⟨a, tables, fs₁, hw⟩ := @writeChunk_spec fs r (chunkAt offset n total) buf total hdev h.map hb
        (h.blocksFresh hhas)
      obtain ⟨a', f₀, -, hget⟩ := @FileOk.chunk_get fs r (chunkAt offset n total) buf total h hdev hb hhas
      rw [if_pos ht]
      refine LoopMarks.step hfit ht h hw (fun b hb hne => ?_) (ih (by omega) (hw.same.reliable hdev) (h.chunk hw) hrest)
      rw [hget b hb, if_neg hne]
    · rw [if_neg ht]
      exact loopMarks_done h (Nat.le_of_not_lt ht)

/-- The blocks of every step are fresh. -/
theorem FileOk.eachFresh (hfit : offset + n ≤ mapBlocks * blockSize) {fuel : Nat} (hdev : fs.Reliable)
    (h : FileOk fs r) (hblocks : EachChunk (HasBlocks r) r buf offset n fuel total fs) :
    EachChunk (BlocksFresh · r ·) r buf offset n fuel total fs := by
  induction fuel generalizing fs total with
  | zero => trivial
  | succ fuel ih =>
    intro ht
    obtain ⟨hhas, hrest⟩ := hblocks ht
    have hfresh := h.blocksFresh hhas
    obtain ⟨a, tables, fs₁, hw⟩ := @writeChunk_spec fs r (chunkAt offset n total) buf total hdev h.map
      (chunkAt_lt hfit ht).1 hfresh
    exact ⟨hfresh, ih (hw.same.reliable hdev) (h.chunk hw) hrest⟩

end

/-! ## Steps that succeed have their blocks -/

section

variable {fs fs₁ g : Fs} {r : InodeRef} {c : Chunk} {buf block : Mem} {offset n total a b : Nat}

theorem FileOk.steady (h : FileOk fs r) : FileOk fs.steady r :=
  ⟨h.map, ⟨h.cursor.fits, h.cursor.next, h.cursor.cursor⟩, h.behind⟩

theorem FileOk.ofSteady (h : FileOk fs.steady r) : FileOk fs r :=
  ⟨h.map, ⟨h.cursor.fits, h.cursor.next, h.cursor.cursor⟩, h.behind⟩

theorem allocs_steady (k : Nat) (fs : Fs) : allocs k fs.steady = (allocs k fs).map fun x => (x.1, x.2.steady) := by
  have hself : fs.steady = fs.steady.withAlloc fs := rfl
  rw [hself, allocs_withAlloc]
  cases hall : allocs k fs with
  | none => rfl
  | some x =>
    have hsame := allocs_withAlloc k fs fs
    have hfs : fs.withAlloc fs = fs := rfl
    rw [hfs, hall, Option.map_some] at hsame
    have hx : x.2 = fs.withAlloc x.2 := congrArg Prod.snd (Option.some.inj hsame)
    rw [Option.map_some, Option.map_some, hx]
    rfl

theorem HasBlocks.steady (h : HasBlocks r fs b) : HasBlocks r fs.steady b := by
  obtain ⟨x, hx⟩ := h
  refine ⟨(x.1, x.2.steady), ?_⟩
  rw [allocs_steady]
  show (allocs (1 + missingTables fs.bdev.bytes (fs.disk r) b) fs).map _ = _
  rw [hx]
  rfl

/-- The block that was handed out is written. -/
theorem FileOk.wrote (h : FileOk fs r) (halloc : allocBlock fs = some (a, fs₁)) (hland : Lands fs₁.bdev a block) :
    FileOk (writeBlock fs₁ a block) r ∧ ∀ q,
      blockWalk (writeBlock fs₁ a block).bdev.bytes ((writeBlock fs₁ a block).disk r) q =
        blockWalk fs.bdev.bytes (fs.disk r) q := by
  have hone : allocs 1 fs = some ([a], fs₁) := by
    rw [allocs, halloc]
    rfl
  have hmoved := allocs_cursor h.cursor hone
  have hself := allocBlock_self halloc
  have hwalk : ∀ q, blockWalk (writeBlock fs₁ a block).bdev.bytes ((writeBlock fs₁ a block).disk r) q =
      blockWalk fs.bdev.bytes (fs.disk r) q := by
    intro q
    have hdisk : (writeBlock fs₁ a block).disk r = fs.disk r := by
      rw [hself]
      rfl
    have hbytes : fs₁.bdev.bytes = fs.bdev.bytes := by
      rw [hself]
      rfl
    rw [hland.bytes, hdisk, hbytes]
    exact blockWalk_write_fresh (h.fresh hone a (by simp)) h.map q
  refine ⟨⟨h.map.congr hwalk, ⟨hmoved.ok.fits, hmoved.ok.next, hmoved.ok.cursor⟩, ?_⟩, hwalk⟩
  intro x hx
  obtain ⟨p, l, hp⟩ := hx
  rw [hwalk] at hp
  exact hmoved.keeps x (h.behind x ⟨p, l, hp⟩)

/-- Where the block is set, the tables were to be had. -/
theorem SetLands.tables (h : SetLands g r b a) (hok : FileOk g r) (ha : a < 2 ^ 64) :
    b < mapBlocks ∧ allocs (missingTables g.bdev.bytes (g.disk r) b) g ≠ none := by
  have hfresh := hok.steady.freshAllocs
  have hapart := hok.steady.map.tablesApart
  have hdev := g.steady_reliable
  obtain ⟨-, -, -, -, -, -, -, hfails⟩ := setTries (b := b) hapart hfresh (fun _ _ _ _ _ x _ => clears_of_reliable hdev x) ha
  have hok : ¬(inodeSetBlock g.steady r b a).1 = false := by
    rw [h.steady]
    simp
  rw [hfails, not_or, Nat.not_le, allocs_steady, Option.map_eq_none_iff] at hok
  exact hok

theorem ChunkLands.hasBlocks (h : ChunkLands fs r c buf total) (hok : FileOk fs r) : HasBlocks r fs c.blockNo := by
  obtain ⟨a, fs₁, halloc, hland, hset⟩ := h
  obtain ⟨hwrote, hwalk⟩ := hok.wrote halloc hland
  obtain ⟨hb, hsome⟩ := hset.tables hwrote (allocBlock_place halloc).1
  have hone : allocs 1 fs = some ([a], fs₁) := by
    rw [allocs, halloc]
    rfl
  have hself := allocBlock_self halloc
  have hdisk : (writeBlock fs₁ a (chunkBuf fs r c buf total)).disk r = fs.disk r := by
    rw [hself]
    rfl
  have hbytes : fs₁.bdev.bytes = fs.bdev.bytes := by
    rw [hself]
    rfl
  have hfresh := hok.fresh hone a (by simp)
  have hmissing : missingTables (writeBlock fs₁ a (chunkBuf fs r c buf total)).bdev.bytes (fs.disk r) c.blockNo =
      missingTables fs.bdev.bytes (fs.disk r) c.blockNo := by
    refine missingTables_congr hb fun p l x hp => ?_
    rw [hland.bytes, hbytes]
    exact agreeOn_copyBytes (hfresh.apart hok.map hp).symm
  rw [hdisk, hmissing] at hsome
  have hafter : writeBlock fs₁ a (chunkBuf fs r c buf total) =
      (writeBlock fs₁ a (chunkBuf fs r c buf total)).withAlloc fs₁ := rfl
  rw [hafter, allocs_withAlloc, Ne, Option.map_eq_none_iff] at hsome
  obtain ⟨x, hx⟩ := Option.ne_none_iff_exists'.mp hsome
  refine ⟨(a :: x.1, x.2), ?_⟩
  rw [allocs_add, hone, Option.bind_some, hx]
  rfl

/-- Where every step succeeds there are blocks for every step, on a device that never fails too. -/
theorem WriteLands.eachBlocks (hfit : offset + n ≤ mapBlocks * blockSize) {fuel : Nat} (hok : FileOk fs r)
    (h : WriteLands r buf offset n fuel total fs) : EachChunk (HasBlocks r) r buf offset n fuel total fs.steady := by
  induction fuel generalizing fs total with
  | zero => trivial
  | succ fuel ih =>
    intro ht
    obtain ⟨hchunk, hrest⟩ := h ht
    have hhas := (hchunk.hasBlocks hok).steady
    obtain ⟨a, tables, fs₁, hw⟩ := @writeChunk_spec fs.steady r (chunkAt offset n total) buf total fs.steady_reliable
      hok.steady.map (chunkAt_lt hfit ht).1 (hok.steady.blocksFresh hhas)
    have hnext := hok.steady.chunk hw
    rw [hchunk.steady] at hnext ⊢
    exact ⟨hhas, ih hnext.ofSteady hrest⟩

end

/-! ## The whole call -/

section

variable {fs : Fs} {r : InodeRef} {fd : Int} {buf old : Mem} {n : Nat}

theorem WriteOpen.call (h : WriteOpen fs r fd) (buf : Mem) (n uptimeMs : Nat) :
    crfsWrite fs fd buf n uptimeMs = (asInt64 n,
      writeFinish (writeLoop r buf (fs.files fd.toNat).offset n n 0 fs) fd.toNat r n uptimeMs) := by
  have hslot := h.slot
  have hrange : ¬(fd < 0 ∨ (maxOpen : Int) ≤ fd) := by omega
  unfold crfsWrite
  rw [if_neg hrange]
  dsimp only
  rw [h.inUse, h.inode]
  dsimp only
  rw [if_neg h.flags]

/-- **`crfs_write`** returns the number of bytes it was asked to write, whatever fails. -/
theorem WriteOpen.returns (h : WriteOpen fs r fd) (buf : Mem) (n uptimeMs : Nat) :
    (crfsWrite fs fd buf n uptimeMs).1 = asInt64 n := by
  rw [h.call]

/-- The end of the call leaves the marks, the device and the map alone. -/
theorem WriteOpen.after (h : WriteOpen fs r fd) (buf : Mem) (n uptimeMs : Nat) :
    (crfsWrite fs fd buf n uptimeMs).2.segBitmap = (writeLoop r buf (fs.files fd.toNat).offset n n 0 fs).segBitmap ∧
      (crfsWrite fs fd buf n uptimeMs).2.bdev.bytes = (writeLoop r buf (fs.files fd.toNat).offset n n 0 fs).bdev.bytes ∧
      AgreeOn ((writeLoop r buf (fs.files fd.toNat).offset n n 0 fs).disk r)
        ((crfsWrite fs fd buf n uptimeMs).2.disk r) 88 112 := by
  have hstored := @stored_writeFinish (writeLoop r buf (fs.files fd.toNat).offset n n 0 fs) (fun _ => False) r
    fd.toNat n uptimeMs
  rw [h.call]
  refine ⟨?_, ?_, hstored.disks r⟩
  · dsimp only
    rw [hstored.alloc]
    rfl
  · funext y
    exact hstored.bytes y not_false

theorem WriteOpen.walk_after (h : WriteOpen fs r fd) (buf : Mem) (n uptimeMs : Nat) (q : List Nat) :
    blockWalk (crfsWrite fs fd buf n uptimeMs).2.bdev.bytes ((crfsWrite fs fd buf n uptimeMs).2.disk r) q =
      blockWalk (writeLoop r buf (fs.files fd.toNat).offset n n 0 fs).bdev.bytes
        ((writeLoop r buf (fs.files fd.toNat).offset n n 0 fs).disk r) q := by
  obtain ⟨-, hbytes, hdisk⟩ := h.after buf n uptimeMs
  rw [hbytes]
  exact blockWalk_disk_congr hdisk q

/-- The file after a write whose steps all succeed. -/
theorem WriteOpen.effect (h : WriteOpen fs r fd) (hfits : (fs.files fd.toNat).offset + n ≤ mapBlocks * blockSize)
    (hlands : WriteLands r buf (fs.files fd.toNat).offset n n 0 fs) (uptimeMs : Nat) :
    (crfsWrite fs fd buf n uptimeMs).1 = n ∧
      diskSize ((crfsWrite fs fd buf n uptimeMs).2.disk r) = max (diskSize (fs.disk r)) ((fs.files fd.toNat).offset + n) ∧
      ∀ i, fileByte (crfsWrite fs fd buf n uptimeMs).2.bdev.bytes ((crfsWrite fs fd buf n uptimeMs).2.disk r) i =
        if (fs.files fd.toNat).offset ≤ i ∧ i < (fs.files fd.toNat).offset + n then buf (i - (fs.files fd.toNat).offset)
        else if LostTail (fs.files fd.toNat).offset ((fs.files fd.toNat).offset + n) i then 0
        else fileByte fs.bdev.bytes (fs.disk r) i := by
  have hbound : mapBlocks * blockSize < 2 ^ 62 := by decide
  have hfresh := h.file.steady.eachFresh hfits fs.steady_reliable (hlands.eachBlocks hfits h.file)
  obtain ⟨-, hsame, hbytes⟩ := writeLoop_spec hfits (Nat.le_add_left n 0) (Nat.zero_le n) fs.steady_reliable
    h.file.map hfresh
  rw [hlands.steady] at hsame hbytes
  obtain ⟨-, hdev, hdisk⟩ := h.after buf n uptimeMs
  refine ⟨?_, ?_, fun i => ?_⟩
  · rw [h.returns, asInt64_of_lt (by omega)]
  · have hfiles : (writeLoop r buf (fs.files fd.toNat).offset n n 0 fs).files = fs.files := hsame.files
    have hsize : diskSize ((writeLoop r buf (fs.files fd.toNat).offset n n 0 fs).disk r) = diskSize (fs.disk r) := hsame.size
    obtain ⟨-, -, hgrown⟩ := @writeFinish_spec (writeLoop r buf (fs.files fd.toNat).offset n n 0 fs) fd.toNat r n uptimeMs
      (by rw [hfiles]; omega)
    rw [h.call, hgrown, hfiles, hsize]
  · rw [hdev, fileByte_disk_congr hdisk]
    by_cases hi : i / blockSize < mapBlocks
    · exact hbytes i hi
    · -- Beyond the end of the map there is nothing, before and after.
      have hzero : ∀ m d : Mem, fileByte m d i = 0 := by
        intro m d
        have hnull : mapAt m d (i / blockSize) = 0 := by
          by_contra hne
          exact hi (mapAt_bound hne)
        rw [fileByte, if_pos hnull]
      have hend : mapBlocks * blockSize ≤ i := (Nat.le_div_iff_mul_le (by decide)).mp (Nat.le_of_not_lt hi)
      have hlost : ¬LostTail (fs.files fd.toNat).offset ((fs.files fd.toNat).offset + n) i := by
        rintro ⟨hpos, -, hblock, -⟩
        rw [hblock] at hi
        exact hi (Nat.div_lt_of_lt_mul (by rw [Nat.mul_comm]; omega))
      rw [if_neg (by omega), if_neg hlost, hzero, hzero]

/-- **Where every step succeeds** a write of some bytes is honest exactly where nothing comes up
    before the data, nothing is lost after it and no block that is needed is freed. -/
theorem WriteOpen.honest_iff (h : WriteOpen fs r fd) (hold : ReadsAs fs r (diskSize (fs.disk r)) old) (hn : 0 < n)
    (hfits : (fs.files fd.toNat).offset + n ≤ mapBlocks * blockSize)
    (hlands : WriteLands r buf (fs.files fd.toNat).offset n n 0 fs) (uptimeMs : Nat) :
    WriteHonest fs r fd buf n uptimeMs old ↔
      ((∀ i, diskSize (fs.disk r) ≤ i → i < (fs.files fd.toNat).offset → fileByte fs.bdev.bytes (fs.disk r) i = 0) ∧
        ∀ i, i < diskSize (fs.disk r) →
          LostTail (fs.files fd.toNat).offset ((fs.files fd.toNat).offset + n) i → old i = 0) ∧
      NoneFreed fs (crfsWrite fs fd buf n uptimeMs).2 r := by
  obtain ⟨hret, hsize, hbytes⟩ := h.effect hfits hlands uptimeMs
  have hold := (readsAs_iff_of_le h.size old).mp hold
  have hmax : max (diskSize (fs.disk r)) ((fs.files fd.toNat).offset + n) ≤ 2 ^ 44 := max_le h.size (hfits.trans (by decide))
  have hgrown : grownSize (diskSize (fs.disk r)) (fs.files fd.toNat).offset n =
      max (diskSize (fs.disk r)) ((fs.files fd.toNat).offset + n) := if_neg hn.ne'
  have hiff := @readsAs_iff_of_le (crfsWrite fs fd buf n uptimeMs).2 r (by rw [hsize]; exact hmax)
    (spliced old buf (diskSize (fs.disk r)) (fs.files fd.toNat).offset n)
  rw [hsize] at hiff
  rw [← spliced_iff hold fun i _ => hbytes i, ← hiff]
  unfold WriteHonest
  constructor
  · rintro ⟨k, -, hk, -, hreads, hfreed⟩
    obtain rfl : k = n := by
      rw [hret] at hk
      exact_mod_cast hk.symm
    rw [hgrown] at hreads
    exact ⟨hreads, hfreed⟩
  · rintro ⟨hreads, hfreed⟩
    refine ⟨n, le_rfl, hret, ?_, ?_, hfreed⟩
    · rw [hgrown, hsize]
    · rw [hgrown]
      exact hreads

/-- A write of nothing moves the end of the file to the offset. -/
theorem WriteOpen.honest_zero (h : WriteOpen fs r fd) (hold : ReadsAs fs r (diskSize (fs.disk r)) old) (uptimeMs : Nat) :
    WriteHonest fs r fd buf 0 uptimeMs old ↔ (fs.files fd.toNat).offset ≤ diskSize (fs.disk r) := by
  have hcall := h.call buf 0 uptimeMs
  have hloop : writeLoop r buf (fs.files fd.toNat).offset 0 0 0 fs = fs := rfl
  obtain ⟨hbdev, hagree, hsize⟩ := @writeFinish_spec fs fd.toNat r 0 uptimeMs h.offset
  have hstored := @stored_writeFinish fs (fun _ => False) r fd.toNat 0 uptimeMs
  rw [hloop] at hcall
  have hsize' : (fs.files fd.toNat).offset ≤ diskSize (fs.disk r) ↔
      diskSize ((writeFinish fs fd.toNat r 0 uptimeMs).disk r) = diskSize (fs.disk r) := by
    rw [hsize, Nat.add_zero]
    exact max_eq_left_iff.symm
  rw [hsize']
  unfold WriteHonest
  rw [hcall]
  constructor
  · rintro ⟨k, hk, -, hgrown, -⟩
    obtain rfl := Nat.le_zero.mp hk
    exact hgrown
  · intro hgrown
    refine ⟨0, le_rfl, rfl, hgrown, ?_, ?_⟩
    · have hle : diskSize ((writeFinish fs fd.toNat r 0 uptimeMs).disk r) ≤ 2 ^ 44 := by
        rw [hgrown]
        exact h.size
      have hiff := (readsAs_iff_of_le hle (spliced old buf (diskSize (fs.disk r)) (fs.files fd.toNat).offset 0)).mpr
      rw [hgrown] at hiff
      refine hiff fun i hi => ?_
      have hdata : ¬((fs.files fd.toNat).offset ≤ i ∧ i < (fs.files fd.toNat).offset + 0) := by omega
      show fileByte (writeFinish fs fd.toNat r 0 uptimeMs).bdev.bytes _ i = _
      rw [hbdev, fileByte_disk_congr hagree, (readsAs_iff_of_le h.size old).mp hold i hi]
      unfold spliced
      rw [if_neg hdata, if_pos hi]
    · rintro x ⟨p, l, hp⟩ hmarked
      dsimp only at hp
      rw [hbdev, blockWalk_disk_congr hagree] at hp
      have hbit : (writeFinish fs fd.toNat r 0 uptimeMs).segBitmap = fs.segBitmap := by rw [hstored.alloc]; rfl
      show segBit (writeFinish fs fd.toNat r 0 uptimeMs).segBitmap _ = true
      rw [hbit]
      exact hmarked.resolve_right (Nat.not_le.mpr (h.file.behind x ⟨p, l, hp⟩).1)

/-- The marks of the segments after steps that all succeed. -/
theorem WriteOpen.marks (h : WriteOpen fs r fd) (hfits : (fs.files fd.toNat).offset + n ≤ mapBlocks * blockSize)
    (hlands : WriteLands r buf (fs.files fd.toNat).offset n n 0 fs) :
    LoopMarks fs.steady r (fs.files fd.toNat).offset n 0 (writeLoop r buf (fs.files fd.toNat).offset n n 0 fs).steady := by
  rw [← hlands.steady]
  exact loopMarks hfits (Nat.le_add_left n 0) fs.steady_reliable h.file.steady (hlands.eachBlocks hfits h.file)

/-- **No block that is needed is freed**, where none shares a segment with one that is replaced. -/
theorem WriteOpen.noneFreed (h : WriteOpen fs r fd) (hfits : (fs.files fd.toNat).offset + n ≤ mapBlocks * blockSize)
    (hlands : WriteLands r buf (fs.files fd.toNat).offset n n 0 fs) (uptimeMs : Nat)
    (hfreed : ∀ k, k < n → OldUnneeded fs r (fs.files fd.toNat).offset n (((fs.files fd.toNat).offset + k) / blockSize)) :
    NoneFreed fs (crfsWrite fs fd buf n uptimeMs).2 r := by
  have hmarks := h.marks hfits hlands
  rintro x ⟨p, l, hp⟩ hmarked
  rw [h.walk_after] at hp
  rw [(h.after buf n uptimeMs).1]
  by_cases hseg : fs.nextSeg ≤ segOf x
  · exact hmarks.taken _ hseg (hmarks.file.behind x ⟨p, l, hp⟩).1
  · refine (hmarks.low _ (Nat.lt_of_not_le hseg)).mpr ⟨hmarked.resolve_right hseg, fun k _ hk hne heq => ?_⟩
    have heq : segOf (inodeGetBlock fs r (((fs.files fd.toNat).offset + k) / blockSize)) = segOf x := heq
    obtain ⟨hshared, hcursor⟩ := hfreed k hk hne (by rw [heq]; exact hmarked.resolve_right hseg)
    rcases hmarks.refs p l x hp with ⟨hahead, hdata⟩ | ⟨hpath, hold⟩
    · -- A new block of a segment that was begun before.
      refine hcursor ⟨?_, ?_, ?_⟩
      · rw [heq]
        by_contra hother
        exact hahead ⟨Nat.lt_of_not_le hseg, fun hcur => absurd hcur.symm hother⟩
      · rw [heq]
        omega
      · by_contra hfull
        refine hahead ⟨Nat.lt_of_not_le hseg, fun _ => ?_⟩
        exact Nat.lt_of_lt_of_le (Nat.mod_lt _ (by decide)) (Nat.le_of_not_lt hfull)
    · obtain ⟨k', hk', hp'⟩ := hshared p l x hold heq.symm
      exact hpath k' (Nat.zero_le _) hk' hp'

/-- **What makes a write honest.** -/
theorem WriteOpen.honest (h : WriteOpen fs r fd) (hold : ReadsAs fs r (diskSize (fs.disk r)) old)
    (hs : WriteSound fs r buf (fs.files fd.toNat).offset n old) (uptimeMs : Nat) :
    WriteHonest fs r fd buf n uptimeMs old := by
  rcases Nat.eq_zero_or_pos n with rfl | hn
  · exact (h.honest_zero hold uptimeMs).mpr (hs.empty rfl)
  · exact (h.honest_iff hold hn (hs.fits hn) hs.lands uptimeMs).mpr
      ⟨⟨hs.gap, hs.tail⟩, h.noneFreed (hs.fits hn) hs.lands uptimeMs hs.freed⟩

end

end Crimson.Crfs
