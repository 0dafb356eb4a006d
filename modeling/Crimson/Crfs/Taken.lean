import Crimson.Crfs.Contents

/-!
# Blocks that are taken

A block is taken when its segment is marked and the cursor of `crfs_alloc_block` is past it.
Allocation hands out blocks that are not taken, and takes them (`allocs_handed`); a block stays
taken until its segment's bit is cleared.
-/

set_option autoImplicit false

namespace Crimson.Crfs

open Crimson.Lib Crimson.Mm

/-- The place of a block in its segment. -/
def placeOf (x : Nat) : Nat := x / blockSize % blocksPerSeg

def Taken (fs : Fs) (x : Nat) : Prop :=
  segBit fs.segBitmap (segOf x) = true ∧ (segOf x = fs.currentSeg → placeOf x < fs.blockInSeg)

/-- The bitmap ends before the inode table, and the segment the cursor is in is marked. -/
structure AllocOk (fs : Fs) : Prop where
  fits : sbTotalSegs fs.sb ≤ 8 * segSize
  next : 3 ≤ fs.nextSeg
  cursor : fs.currentSeg ≠ 0 →
    3 ≤ fs.currentSeg ∧ fs.currentSeg < sbTotalSegs fs.sb ∧ segBit fs.segBitmap fs.currentSeg = true

/-- **What successful allocations do**: the blocks were not taken, and now are. -/
structure Handed (fs : Fs) (new : List Nat) (fs' : Fs) : Prop where
  ok : AllocOk fs'
  total : sbTotalSegs fs'.sb = sbTotalSegs fs.sb
  fresh : ∀ x ∈ new, ¬Taken fs x
  taken : ∀ x ∈ new, Taken fs' x
  keeps : ∀ x, Taken fs x → Taken fs' x
  data : ∀ x ∈ new, 3 ≤ segOf x ∧ segOf x < sbTotalSegs fs.sb
  seg : ∀ x ∈ new, segOf x = fs.currentSeg ∨ segBit fs.segBitmap (segOf x) = false
  cursor : fs'.currentSeg = fs.currentSeg ∨ segBit fs.segBitmap fs'.currentSeg = false
  bits : ∀ i, segBit fs.segBitmap i = true → segBit fs'.segBitmap i = true

section

variable {fs fs' fs'' : Fs} {a seg b n : Nat} {new new' : List Nat}

/-- A block of a segment within reach. -/
theorem blockAddr_eq (hseg : seg < 8 * segSize) (hb : b < blocksPerSeg) :
    segOf ((seg * segSize + b * blockSize) % 2 ^ 64) = seg ∧ placeOf ((seg * segSize + b * blockSize) % 2 ^ 64) = b := by
  refine ⟨?_, (blockAddr_place seg hb).2⟩
  unfold segOf
  unfold segSize at hseg ⊢
  unfold blocksPerSeg at hb
  unfold blockSize
  omega

theorem handed_nil (h : AllocOk fs) : Handed fs [] fs :=
  ⟨h, rfl, by simp, by simp, fun _ hx => hx, by simp, by simp, Or.inl rfl, fun _ hi => hi⟩

theorem Handed.trans (h : Handed fs new fs') (h' : Handed fs' new' fs'') : Handed fs (new ++ new') fs'' where
  ok := h'.ok
  total := h'.total.trans h.total
  fresh := by
    intro x hx
    rcases List.mem_append.mp hx with hx | hx
    · exact h.fresh x hx
    · exact fun ht => h'.fresh x hx (h.keeps x ht)
  taken := by
    intro x hx
    rcases List.mem_append.mp hx with hx | hx
    · exact h'.keeps x (h.taken x hx)
    · exact h'.taken x hx
  keeps := fun x hx => h'.keeps x (h.keeps x hx)
  data := by
    intro x hx
    rcases List.mem_append.mp hx with hx | hx
    · exact h.data x hx
    · rw [← h.total]
      exact h'.data x hx
  seg := by
    intro x hx
    rcases List.mem_append.mp hx with hx | hx
    · exact h.seg x hx
    · rcases h'.seg x hx with hcur | hclear
      · rw [hcur]
        exact h.cursor
      · exact Or.inr (Bool.eq_false_iff.mpr fun hset => Bool.eq_false_iff.mp hclear (h.bits _ hset))
  cursor := by
    rcases h'.cursor with hcur | hclear
    · rw [hcur]
      exact h.cursor
    · exact Or.inr (Bool.eq_false_iff.mpr fun hset => Bool.eq_false_iff.mp hclear (h.bits _ hset))
  bits := fun i hi => h'.bits i (h.bits i hi)

/-- The next block of the current segment. -/
theorem handed_next (h : AllocOk fs) (hcur : fs.currentSeg ≠ 0) (hin : fs.blockInSeg < blocksPerSeg) :
    Handed fs [(fs.currentSeg * segSize + fs.blockInSeg * blockSize) % 2 ^ 64]
      { fs with blockInSeg := fs.blockInSeg + 1 } := by
  obtain ⟨hlow, hlt, hmark⟩ := h.cursor hcur
  obtain ⟨hseg, hplace⟩ := blockAddr_eq (Nat.lt_of_lt_of_le hlt h.fits) hin
  generalize (fs.currentSeg * segSize + fs.blockInSeg * blockSize) % 2 ^ 64 = a at hseg hplace
  refine ⟨⟨h.fits, h.next, h.cursor⟩, rfl, ?_, ?_, ?_, ?_, ?_, Or.inl rfl, fun _ hi => hi⟩
  · intro x hx ht
    obtain rfl := List.mem_singleton.mp hx
    exact absurd (ht.2 hseg) (by rw [hplace]; exact Nat.lt_irrefl _)
  · intro x hx
    obtain rfl := List.mem_singleton.mp hx
    refine ⟨by rw [hseg]; exact hmark, fun _ => ?_⟩
    rw [hplace]
    exact Nat.lt_succ_self _
  · intro x hx
    exact ⟨hx.1, fun hcur => Nat.lt_succ_of_lt (hx.2 hcur)⟩
  · intro x hx
    obtain rfl := List.mem_singleton.mp hx
    rw [hseg]
    exact ⟨hlow, hlt⟩
  · intro x hx
    obtain rfl := List.mem_singleton.mp hx
    exact Or.inl hseg

/-- The first block of a new segment. -/
theorem handed_segment (h : AllocOk fs) {fs₁ : Fs} (hseg : allocSegment fs = some (seg, fs₁)) :
    Handed fs [seg * segSize % 2 ^ 64] { fs₁ with currentSeg := seg, blockInSeg := 1 } := by
  have htook := allocSegment_spec hseg
  have hnext : fs₁.nextSeg = seg + 1 := by
    unfold allocSegment at hseg
    split at hseg
    · exact absurd hseg (by simp)
    · obtain ⟨rfl, rfl⟩ := Prod.mk.inj (Option.some.inj hseg)
      rfl
  have hlow : 3 ≤ seg := h.next.trans htook.inRange.1
  have haddr := blockAddr_eq (b := 0) (Nat.lt_of_lt_of_le htook.inRange.2 h.fits) (by decide)
  rw [Nat.zero_mul, Nat.add_zero] at haddr
  obtain ⟨hof, hplace⟩ := haddr
  generalize seg * segSize % 2 ^ 64 = a at hof hplace
  have hmark : segBit fs₁.segBitmap seg = true := by
    rw [htook.bits]
    simp
  have hbits : ∀ i, segBit fs.segBitmap i = true → segBit fs₁.segBitmap i = true := by
    intro i hi
    rw [htook.bits, hi]
    rfl
  refine ⟨⟨?_, ?_, fun _ => ⟨hlow, ?_, hmark⟩⟩, htook.total, ?_, ?_, ?_, ?_, ?_, Or.inr htook.clear, hbits⟩
  · show sbTotalSegs fs₁.sb ≤ _
    rw [htook.total]
    exact h.fits
  · show 3 ≤ fs₁.nextSeg
    omega
  · show seg < sbTotalSegs fs₁.sb
    rw [htook.total]
    exact htook.inRange.2
  · intro x hx ht
    obtain rfl := List.mem_singleton.mp hx
    have hset := ht.1
    rw [hof, htook.clear] at hset
    exact Bool.noConfusion hset
  · intro x hx
    obtain rfl := List.mem_singleton.mp hx
    refine ⟨by rw [hof]; exact hmark, fun _ => ?_⟩
    rw [hplace]
    exact Nat.zero_lt_one
  · -- nothing in the new segment was taken, since its bit was clear
    intro x hx
    refine ⟨hbits _ hx.1, fun hcur => ?_⟩
    have hset := hx.1
    rw [show segOf x = seg from hcur, htook.clear] at hset
    exact Bool.noConfusion hset
  · intro x hx
    obtain rfl := List.mem_singleton.mp hx
    rw [hof]
    exact ⟨hlow, htook.inRange.2⟩
  · intro x hx
    obtain rfl := List.mem_singleton.mp hx
    rw [hof]
    exact Or.inr htook.clear

theorem allocBlock_handed (h : AllocOk fs) (ha : allocBlock fs = some (a, fs')) : Handed fs [a] fs' := by
  rcases allocBlock_cases ha with ⟨hcur, hin, rfl, rfl⟩ | ⟨seg, fs₁, -, hseg, rfl, rfl⟩
  · exact handed_next h hcur hin
  · exact handed_segment h hseg

/-- **A row of allocations.** -/
theorem allocs_handed (h : AllocOk fs) (hall : allocs n fs = some (new, fs')) : Handed fs new fs' := by
  induction n generalizing fs new with
  | zero =>
    obtain ⟨rfl, rfl⟩ := Prod.mk.inj (Option.some.inj hall)
    exact handed_nil h
  | succ n ih =>
    obtain ⟨⟨a, f₁⟩, ha, hmap⟩ := Option.bind_eq_some_iff.mp hall
    obtain ⟨⟨rest, f₂⟩, hrest, hpair⟩ := Option.map_eq_some_iff.mp hmap
    obtain ⟨rfl, rfl⟩ := Prod.mk.inj hpair
    have hone := allocBlock_handed h ha
    exact hone.trans (ih hone.ok hrest)

/-- Freeing a block leaves the others taken, if they are in other segments. -/
theorem taken_freeOld {old x : Nat} (ht : Taken fs x) (hne : old ≠ 0 → segOf x ≠ segOf old) : Taken (freeOld fs old) x := by
  unfold freeOld
  split
  case isTrue hold =>
    refine ⟨?_, ht.2⟩
    rw [(freeBlock_spec fs old).2.2.2, ht.1]
    simp [hne hold]
  case isFalse hold => exact ht

theorem freeOld_ok {old : Nat} (h : AllocOk fs) (hne : old ≠ 0 → segOf old ≠ fs.currentSeg) : AllocOk (freeOld fs old) := by
  unfold freeOld
  split
  case isTrue hold =>
    obtain ⟨htotal, -, -, hbits⟩ := freeBlock_spec fs old
    refine ⟨by rw [htotal]; exact h.fits, h.next, fun hcur => ?_⟩
    obtain ⟨hlow, hlt, hmark⟩ := h.cursor hcur
    refine ⟨hlow, by rw [htotal]; exact hlt, ?_⟩
    have hother : fs.currentSeg ≠ segOf old := fun he => hne hold he.symm
    show segBit (freeBlock fs old).segBitmap fs.currentSeg = true
    rw [hbits, hmark]
    simp [hother]
  case isFalse hold => exact h

theorem freeOld_total (old : Nat) : sbTotalSegs (freeOld fs old).sb = sbTotalSegs fs.sb := by
  unfold freeOld
  split
  · exact (freeBlock_spec fs old).1
  · rfl

end

end Crimson.Crfs
