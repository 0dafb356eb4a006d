import Crimson.Crfs.Taken

/-!
# The cursor of the allocator

Within one mount `next_seg` only grows, so what `crfs_alloc_block` has handed out stays behind
it, whether the bits of the segments are right or not (`allocs_cursor`).
-/

set_option autoImplicit false

namespace Crimson.Crfs

open Crimson.Lib Crimson.Mm

/-! ## Behind the cursor -/

def Behind (fs : Fs) (x : Nat) : Prop :=
  segOf x < fs.nextSeg ∧ (segOf x = fs.currentSeg → placeOf x < fs.blockInSeg)

/-- The cursor is in a segment of the device, after the system's own. -/
structure CursorOk (fs : Fs) : Prop where
  fits : sbTotalSegs fs.sb * segSize ≤ 2 ^ 64
  next : 5 ≤ fs.nextSeg
  cursor : fs.currentSeg ≠ 0 →
    5 ≤ fs.currentSeg ∧ fs.currentSeg < fs.nextSeg ∧ fs.currentSeg < sbTotalSegs fs.sb

/-- **What successful allocations do**: the blocks were ahead of the cursor, and now are behind. -/
structure CursorMoved (fs : Fs) (new : List Nat) (fs' : Fs) : Prop where
  ok : CursorOk fs'
  total : sbTotalSegs fs'.sb = sbTotalSegs fs.sb
  tableStart : sbInodeTableStart fs'.sb = sbInodeTableStart fs.sb
  ahead : ∀ x ∈ new, ¬Behind fs x
  behind : ∀ x ∈ new, Behind fs' x
  keeps : ∀ x, Behind fs x → Behind fs' x
  data : ∀ x ∈ new, 5 ≤ segOf x

section

variable {fs fs' fs'' : Fs} {a seg b n : Nat} {new new' : List Nat}

/-- A block of a segment of the device. -/
theorem segOf_blockAddr (hfits : (seg + 1) * segSize ≤ 2 ^ 64) (hb : b < blocksPerSeg) :
    segOf ((seg * segSize + b * blockSize) % 2 ^ 64) = seg ∧ placeOf ((seg * segSize + b * blockSize) % 2 ^ 64) = b := by
  refine ⟨?_, (blockAddr_place seg hb).2⟩
  unfold segOf
  unfold segSize at hfits ⊢
  unfold blocksPerSeg at hb
  unfold blockSize
  omega

theorem CursorOk.segFits (h : CursorOk fs) (hseg : seg < sbTotalSegs fs.sb) : (seg + 1) * segSize ≤ 2 ^ 64 :=
  (Nat.mul_le_mul_right segSize hseg).trans h.fits

theorem cursorMoved_nil (h : CursorOk fs) : CursorMoved fs [] fs :=
  ⟨h, rfl, rfl, by simp, by simp, fun _ hx => hx, by simp⟩

theorem CursorMoved.trans (h : CursorMoved fs new fs') (h' : CursorMoved fs' new' fs'') :
    CursorMoved fs (new ++ new') fs'' where
  ok := h'.ok
  total := h'.total.trans h.total
  tableStart := h'.tableStart.trans h.tableStart
  ahead := by
    intro x hx
    rcases List.mem_append.mp hx with hx | hx
    · exact h.ahead x hx
    · exact fun hb => h'.ahead x hx (h.keeps x hb)
  behind := by
    intro x hx
    rcases List.mem_append.mp hx with hx | hx
    · exact h'.keeps x (h.behind x hx)
    · exact h'.behind x hx
  keeps := fun x hx => h'.keeps x (h.keeps x hx)
  data := by
    intro x hx
    rcases List.mem_append.mp hx with hx | hx
    · exact h.data x hx
    · exact h'.data x hx

/-- The next block of the current segment. -/
theorem cursorMoved_next (h : CursorOk fs) (hcur : fs.currentSeg ≠ 0) (hin : fs.blockInSeg < blocksPerSeg) :
    CursorMoved fs [(fs.currentSeg * segSize + fs.blockInSeg * blockSize) % 2 ^ 64]
      { fs with blockInSeg := fs.blockInSeg + 1 } := by
  obtain ⟨hlow, hnext, hlt⟩ := h.cursor hcur
  obtain ⟨hseg, hplace⟩ := segOf_blockAddr (h.segFits hlt) hin
  generalize (fs.currentSeg * segSize + fs.blockInSeg * blockSize) % 2 ^ 64 = a at hseg hplace
  refine ⟨⟨h.fits, h.next, h.cursor⟩, rfl, rfl, ?_, ?_, ?_, ?_⟩
  · intro x hx hb
    obtain rfl := List.mem_singleton.mp hx
    have hbehind := hb.2 hseg
    rw [hplace] at hbehind
    exact Nat.lt_irrefl _ hbehind
  · intro x hx
    obtain rfl := List.mem_singleton.mp hx
    refine ⟨?_, fun _ => ?_⟩
    · rw [hseg]
      exact hnext
    · rw [hplace]
      exact Nat.lt_succ_self _
  · intro x hx
    exact ⟨hx.1, fun hcur => Nat.lt_succ_of_lt (hx.2 hcur)⟩
  · intro x hx
    obtain rfl := List.mem_singleton.mp hx
    rw [hseg]
    exact hlow

theorem allocSegment_cursor {fs₁ : Fs} (hseg : allocSegment fs = some (seg, fs₁)) :
    fs₁.nextSeg = seg + 1 ∧ sbInodeTableStart fs₁.sb = sbInodeTableStart fs.sb := by
  unfold allocSegment at hseg
  split at hseg
  · cases hseg
  · obtain ⟨rfl, rfl⟩ := Prod.mk.inj (Option.some.inj hseg)
    refine ⟨rfl, ?_⟩
    dsimp only
    unfold sbInodeTableStart setSbFreeSegs setSbUsedSegs
    rw [load64_store64_disjoint (by decide), load64_store64_disjoint (by decide)]

/-- The first block of a new segment. -/
theorem cursorMoved_segment (h : CursorOk fs) {fs₁ : Fs} (hseg : allocSegment fs = some (seg, fs₁)) :
    CursorMoved fs [seg * segSize % 2 ^ 64] { fs₁ with currentSeg := seg, blockInSeg := 1 } := by
  have htook := allocSegment_spec hseg
  obtain ⟨hnext, htable⟩ := allocSegment_cursor hseg
  have hlow : fs.nextSeg ≤ seg := htook.inRange.1
  have haddr := segOf_blockAddr (b := 0) (h.segFits htook.inRange.2) (by decide)
  rw [Nat.zero_mul, Nat.add_zero] at haddr
  obtain ⟨hof, hplace⟩ := haddr
  generalize seg * segSize % 2 ^ 64 = a at hof hplace
  refine ⟨⟨?_, ?_, fun _ => ⟨h.next.trans hlow, ?_, ?_⟩⟩, htook.total, htable, ?_, ?_, ?_, ?_⟩
  · show sbTotalSegs fs₁.sb * segSize ≤ _
    rw [htook.total]
    exact h.fits
  · show 5 ≤ fs₁.nextSeg
    have := h.next
    omega
  · show seg < fs₁.nextSeg
    omega
  · show seg < sbTotalSegs fs₁.sb
    rw [htook.total]
    exact htook.inRange.2
  · intro x hx hb
    obtain rfl := List.mem_singleton.mp hx
    have hbehind := hb.1
    omega
  · intro x hx
    obtain rfl := List.mem_singleton.mp hx
    refine ⟨?_, fun _ => ?_⟩
    · show segOf x < fs₁.nextSeg
      omega
    · rw [hplace]
      exact Nat.zero_lt_one
  · intro x hx
    have hbehind := hx.1
    refine ⟨?_, fun hcur => ?_⟩
    · show segOf x < fs₁.nextSeg
      omega
    · -- A block that was behind is in an earlier segment.
      have hcur : segOf x = seg := hcur
      omega
  · intro x hx
    obtain rfl := List.mem_singleton.mp hx
    have := h.next
    omega

theorem allocBlock_cursor (h : CursorOk fs) (ha : allocBlock fs = some (a, fs')) : CursorMoved fs [a] fs' := by
  rcases allocBlock_cases ha with ⟨hcur, hin, rfl, rfl⟩ | ⟨seg, fs₁, -, hseg, rfl, rfl⟩
  · exact cursorMoved_next h hcur hin
  · exact cursorMoved_segment h hseg

/-- **A row of allocations.** -/
theorem allocs_cursor (h : CursorOk fs) (hall : allocs n fs = some (new, fs')) : CursorMoved fs new fs' := by
  induction n generalizing fs new with
  | zero =>
    obtain ⟨rfl, rfl⟩ := Prod.mk.inj (Option.some.inj hall)
    exact cursorMoved_nil h
  | succ n ih =>
    obtain ⟨⟨a, f₁⟩, ha, hmap⟩ := Option.bind_eq_some_iff.mp hall
    obtain ⟨⟨rest, f₂⟩, hrest, hpair⟩ := Option.map_eq_some_iff.mp hmap
    obtain ⟨rfl, rfl⟩ := Prod.mk.inj hpair
    have hone := allocBlock_cursor h ha
    exact hone.trans (ih hone.ok hrest)

/-- Freeing a block leaves the cursor where it is. -/
theorem freeOld_cursor (old : Nat) :
    (freeOld fs old).nextSeg = fs.nextSeg ∧ (freeOld fs old).currentSeg = fs.currentSeg ∧
      (freeOld fs old).blockInSeg = fs.blockInSeg ∧ sbTotalSegs (freeOld fs old).sb = sbTotalSegs fs.sb ∧
        sbInodeTableStart (freeOld fs old).sb = sbInodeTableStart fs.sb := by
  unfold freeOld
  split
  · refine ⟨rfl, rfl, rfl, (freeBlock_spec fs old).1, ?_⟩
    unfold freeBlock
    dsimp only
    unfold sbInodeTableStart setSbFreeSegs setSbUsedSegs
    rw [load64_store64_disjoint (by decide), load64_store64_disjoint (by decide)]
  · exact ⟨rfl, rfl, rfl, rfl, rfl⟩

/-- The blocks of a row of allocations begin where blocks do. -/
theorem CursorMoved.aligned (h : CursorMoved fs new fs') (hall : allocs n fs = some (new, fs')) :
    ∀ x ∈ new, x ≠ 0 ∧ x < 2 ^ 64 ∧ x % blockSize = 0 := by
  have hne : ∀ x ∈ new, x ≠ 0 := by
    rintro x hx rfl
    exact absurd (h.data 0 hx) (by decide)
  exact fun x hx => ⟨hne x hx, (allocs_places hall hne).1 x hx⟩

end

end Crimson.Crfs
