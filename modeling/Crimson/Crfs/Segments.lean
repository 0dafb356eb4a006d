import Crimson.Lib.Run
import Crimson.Crfs.Volume
import Mathlib.Data.Finset.Card

/-!
# The segment allocator

A run of `crfs_alloc_block` and `crfs_free_block`, the second on blocks that are live: handed
out, or held by the inodes at the start, and not freed since. What the allocator promises is
`SegOk`, of every state, and `SegStepOk`, of every call.

Blocks are handed out one at a time, but a segment is marked and counted when its first block
is, and unmarked and counted off when *any* of its blocks is freed. `segments_iff` says which
runs get away with it: those that free a block only when it is the last live one of a segment
that the count includes, and that never go on with a segment that was freed under them.
-/

set_option autoImplicit false

namespace Crimson.Crfs

open Crimson.Lib Crimson.Mm

/-- The segment of a block. -/
def segOf (addr : Nat) : Nat := addr / segSize

/-- The file system with its live blocks. -/
structure SegRun where
  fs : Fs
  live : Finset Nat

/-- The bits set below `total_segs`. -/
def usedBits (fs : Fs) : Nat := ((Finset.range (sbTotalSegs fs.sb)).filter fun i => segBit fs.segBitmap i = true).card

/-- **What holds between calls**: live blocks are in marked segments, and the counters count. -/
structure SegOk (r : SegRun) : Prop where
  marked : ∀ a ∈ r.live, segBit r.fs.segBitmap (segOf a) = true
  used : sbUsedSegs r.fs.sb = usedBits r.fs
  total : sbUsedSegs r.fs.sb + sbFreeSegs r.fs.sb = sbTotalSegs r.fs.sb

theorem segBit_eq (bitmap : Mem) (seg : Nat) : segBit bitmap seg = (bitmap (seg / 8)).getLsbD (seg % 8) :=
  and_shift_ne_zero _ (Nat.mod_lt _ (by decide))

theorem segBit_setSegBit (bitmap : Mem) (i j : Nat) :
    segBit (setSegBit bitmap i) j = (segBit bitmap j || decide (j = i)) := by
  rw [segBit_eq, segBit_eq]
  unfold setSegBit
  by_cases hw : j / 8 = i / 8
  · have hiff : j = i ↔ j % 8 = i % 8 := by omega
    have hlt : j % 8 < 8 := Nat.mod_lt _ (by decide)
    rw [hw, Function.update_self, getLsbD_or_shift]
    simp [hiff, hlt]
  · have hne : j ≠ i := fun h => hw (by rw [h])
    rw [Function.update_of_ne hw]
    simp [hne]

theorem segBit_clearSegBit (bitmap : Mem) (i j : Nat) :
    segBit (clearSegBit bitmap i) j = (segBit bitmap j && !decide (j = i)) := by
  rw [segBit_eq, segBit_eq]
  unfold clearSegBit
  by_cases hw : j / 8 = i / 8
  · have hiff : j = i ↔ j % 8 = i % 8 := by omega
    rw [hw, Function.update_self, getLsbD_clear]
    simp [hiff]
  · have hne : j ≠ i := fun h => hw (by rw [h])
    rw [Function.update_of_ne hw]
    simp [hne]

section

variable {sb : Mem} {v : Nat}

@[simp] theorem sbUsedSegs_setSbUsedSegs (h : v < 2 ^ 64) : sbUsedSegs (setSbUsedSegs sb v) = v :=
  load64_store64_same h

@[simp] theorem sbFreeSegs_setSbUsedSegs : sbFreeSegs (setSbUsedSegs sb v) = sbFreeSegs sb :=
  load64_store64_disjoint (by decide)

@[simp] theorem sbTotalSegs_setSbUsedSegs : sbTotalSegs (setSbUsedSegs sb v) = sbTotalSegs sb :=
  load64_store64_disjoint (by decide)

@[simp] theorem sbFreeSegs_setSbFreeSegs (h : v < 2 ^ 64) : sbFreeSegs (setSbFreeSegs sb v) = v :=
  load64_store64_same h

@[simp] theorem sbUsedSegs_setSbFreeSegs : sbUsedSegs (setSbFreeSegs sb v) = sbUsedSegs sb :=
  load64_store64_disjoint (by decide)

@[simp] theorem sbTotalSegs_setSbFreeSegs : sbTotalSegs (setSbFreeSegs sb v) = sbTotalSegs sb :=
  load64_store64_disjoint (by decide)

end

/-! ## What the calls do -/

/-- **A segment taken**: the first one from `next_seg` on whose bit is clear. -/
structure TookSegment (fs : Fs) (seg : Nat) (fs' : Fs) : Prop where
  inRange : fs.nextSeg ≤ seg ∧ seg < sbTotalSegs fs.sb
  clear : segBit fs.segBitmap seg = false
  bits : ∀ i, segBit fs'.segBitmap i = (segBit fs.segBitmap i || decide (i = seg))
  used : sbUsedSegs fs'.sb = (sbUsedSegs fs.sb + 1) % 2 ^ 64
  free : sbFreeSegs fs'.sb = sub64 (sbFreeSegs fs.sb) 1
  total : sbTotalSegs fs'.sb = sbTotalSegs fs.sb

theorem allocSegment_spec {fs fs' : Fs} {seg : Nat} (h : allocSegment fs = some (seg, fs')) :
    TookSegment fs seg fs' := by
  unfold allocSegment at h
  split at h
  · exact absurd h (by simp)
  · rename_i i hi
    obtain ⟨rfl, rfl⟩ := Prod.mk.inj (Option.some.inj h)
    have hmem := List.mem_of_find?_eq_some hi
    have hclear := List.find?_some hi
    rw [List.mem_range'_1] at hmem
    refine ⟨by omega, by simpa using hclear, fun j => segBit_setSegBit _ _ _, ?_, ?_, ?_⟩
    · rw [sbUsedSegs_setSbFreeSegs, sbUsedSegs_setSbUsedSegs (Nat.mod_lt _ (by decide))]
    · rw [sbFreeSegs_setSbFreeSegs (by unfold sub64; omega), sbFreeSegs_setSbUsedSegs]
    · rw [sbTotalSegs_setSbFreeSegs, sbTotalSegs_setSbUsedSegs]

/-- The two ways to a block: the next one of the current segment, or the first of a new one. -/
theorem allocBlock_cases {fs fs' : Fs} {addr : Nat} (h : allocBlock fs = some (addr, fs')) :
    (fs.currentSeg ≠ 0 ∧ fs.blockInSeg < blocksPerSeg ∧
        fs' = { fs with blockInSeg := fs.blockInSeg + 1 } ∧
        addr = (fs.currentSeg * segSize + fs.blockInSeg * blockSize) % 2 ^ 64) ∨
      ∃ seg fs₁, (fs.currentSeg = 0 ∨ blocksPerSeg ≤ fs.blockInSeg) ∧ allocSegment fs = some (seg, fs₁) ∧
        fs' = { fs₁ with currentSeg := seg, blockInSeg := 1 } ∧ addr = seg * segSize % 2 ^ 64 := by
  unfold allocBlock at h
  dsimp only at h
  split at h
  case isTrue hnew =>
    obtain ⟨fs₂, hseg, hr⟩ := Option.map_eq_some_iff.mp h
    obtain ⟨⟨seg, fs₁⟩, htaken, rfl⟩ := Option.map_eq_some_iff.mp hseg
    obtain ⟨rfl, rfl⟩ := Prod.mk.inj hr
    exact Or.inr ⟨seg, fs₁, hnew, htaken, rfl, by simp⟩
  case isFalse hcur =>
    obtain ⟨rfl, rfl⟩ := Prod.mk.inj (Option.some.inj h)
    have hcur := not_or.mp hcur
    exact Or.inl ⟨hcur.1, Nat.lt_of_not_le hcur.2, rfl, rfl⟩

/-- A bit that is set below `total_segs` is one that is counted. -/
theorem usedBits_set {fs fs' : Fs} {seg : Nat} (htotal : sbTotalSegs fs'.sb = sbTotalSegs fs.sb)
    (hbits : ∀ i, segBit fs'.segBitmap i = (segBit fs.segBitmap i || decide (i = seg)))
    (hclear : segBit fs.segBitmap seg = false) (hlt : seg < sbTotalSegs fs.sb) :
    usedBits fs' = usedBits fs + 1 := by
  have hset : ((Finset.range (sbTotalSegs fs'.sb)).filter fun i => segBit fs'.segBitmap i = true) =
      insert seg ((Finset.range (sbTotalSegs fs.sb)).filter fun i => segBit fs.segBitmap i = true) := by
    ext i
    simp only [htotal, hbits, Finset.mem_filter, Finset.mem_range, Finset.mem_insert, Bool.or_eq_true,
      decide_eq_true_eq]
    constructor
    · rintro ⟨hi, hbit | rfl⟩
      · exact Or.inr ⟨hi, hbit⟩
      · exact Or.inl rfl
    · rintro (rfl | ⟨hi, hbit⟩)
      · exact ⟨hlt, Or.inr rfl⟩
      · exact ⟨hi, Or.inl hbit⟩
  unfold usedBits
  rw [hset, Finset.card_insert_of_notMem (by simp [hclear])]

theorem usedBits_lt {fs : Fs} {seg : Nat} (hlt : seg < sbTotalSegs fs.sb)
    (hclear : segBit fs.segBitmap seg = false) : usedBits fs < sbTotalSegs fs.sb := by
  have hsub := (Finset.filter_ssubset (p := fun i => segBit fs.segBitmap i = true)).mpr
    ⟨seg, Finset.mem_range.mpr hlt, by rw [hclear]; decide⟩
  have hcard := Finset.card_lt_card hsub
  rw [Finset.card_range] at hcard
  exact hcard

/-- What `crfs_free_block` does to the counters and the bits. -/
theorem freeBlock_spec (fs : Fs) (addr : Nat) :
    sbTotalSegs (freeBlock fs addr).sb = sbTotalSegs fs.sb ∧
      sbUsedSegs (freeBlock fs addr).sb = sub64 (sbUsedSegs fs.sb) 1 ∧
      sbFreeSegs (freeBlock fs addr).sb = (sbFreeSegs fs.sb + 1) % 2 ^ 64 ∧
      ∀ i, segBit (freeBlock fs addr).segBitmap i = (segBit fs.segBitmap i && !decide (i = segOf addr)) := by
  unfold freeBlock
  dsimp only
  refine ⟨?_, ?_, ?_, fun i => segBit_clearSegBit _ _ _⟩
  · rw [sbTotalSegs_setSbFreeSegs, sbTotalSegs_setSbUsedSegs]
  · rw [sbUsedSegs_setSbFreeSegs, sbUsedSegs_setSbUsedSegs (by unfold sub64; omega)]
  · rw [sbFreeSegs_setSbFreeSegs (Nat.mod_lt _ (by decide)), sbFreeSegs_setSbUsedSegs]

/-! ## One call -/

/-- No segment is beyond the reach of a 64-bit address. -/
def SegsFit (r : SegRun) : Prop := sbTotalSegs r.fs.sb * segSize ≤ 2 ^ 64

theorem segOf_start {seg total : Nat} (hlt : seg < total) (hfit : total * segSize ≤ 2 ^ 64) :
    segOf (seg * segSize % 2 ^ 64) = seg := by
  have hbelow : seg * segSize < 2 ^ 64 :=
    Nat.lt_of_lt_of_le (Nat.mul_lt_mul_of_pos_right hlt (by decide)) hfit
  unfold segOf
  rw [Nat.mod_eq_of_lt hbelow, Nat.mul_div_cancel _ (by decide)]

/-- A new segment: marked, counted, and its first block not live. -/
theorem SegOk.take {r : SegRun} (h : SegOk r) (hfit : SegsFit r) {seg : Nat} {fs₁ : Fs}
    (hseg : allocSegment r.fs = some (seg, fs₁)) :
    SegOk ⟨{ fs₁ with currentSeg := seg, blockInSeg := 1 }, insert (seg * segSize % 2 ^ 64) r.live⟩ ∧
      seg * segSize % 2 ^ 64 ∉ r.live ∧ 0 < sbFreeSegs r.fs.sb := by
  have htook := allocSegment_spec hseg
  have hof := segOf_start htook.inRange.2 hfit
  have hlt := usedBits_lt htook.inRange.2 htook.clear
  have hused := h.used
  have htotal := h.total
  have hfit : sbTotalSegs r.fs.sb * segSize ≤ 2 ^ 64 := hfit
  have hsmall : sbTotalSegs r.fs.sb < 2 ^ 64 := by
    unfold segSize at hfit
    omega
  have hcount : usedBits { fs₁ with currentSeg := seg, blockInSeg := 1 } = usedBits r.fs + 1 :=
    @usedBits_set _ { fs₁ with currentSeg := seg, blockInSeg := 1 } _ htook.total htook.bits htook.clear
      htook.inRange.2
  refine ⟨⟨?_, ?_, ?_⟩, ?_, by omega⟩
  · intro a ha
    show segBit fs₁.segBitmap (segOf a) = true
    rw [htook.bits]
    rcases Finset.mem_insert.mp ha with rfl | ha
    · rw [hof]
      simp
    · rw [h.marked a ha]
      rfl
  · rw [hcount]
    show sbUsedSegs fs₁.sb = _
    rw [htook.used, hused]
    omega
  · show sbUsedSegs fs₁.sb + sbFreeSegs fs₁.sb = sbTotalSegs fs₁.sb
    rw [htook.used, htook.free, htook.total]
    unfold sub64
    omega
  · intro ha
    have hmark := h.marked _ ha
    rw [hof, htook.clear] at hmark
    exact Bool.noConfusion hmark

def blankDevice : Device where
  size := 16 * segSize
  bytes := fun _ => 0
  writes := 0
  writeFails := fun _ => false

def quiet : Surroundings where
  oom := fun _ => false
  unset := 0
  heap := fun _ => 0

def formattedDevice : Device := (crfsFormat blankDevice [] zeroBuf 0 0).getD blankDevice

/-- What `crfs_mount` makes of a device, from scratch. -/
def mounted (bdev : Device) : Option Fs := crfsMount bdev quiet 0 0 0

def noFs : Fs where
  bdev := blankDevice
  sb := zeroBuf
  segBitmap := zeroBuf
  nextSeg := 0
  blockInSeg := 0
  currentSeg := 0
  inodes := fun _ => Inode.zero
  inodeCount := 0
  inodeCache := fun _ => []
  files := fun _ => File.zero
  kmallocs := 0
  oom := fun _ => false
  unset := 0

theorem blank_mounted : crfsFormat blankDevice [] zeroBuf 0 0 = some formattedDevice ∧
    crfsMount formattedDevice quiet 0 0 0 = some ((mounted formattedDevice).getD noFs) :=
  ⟨eq_some_getD blankDevice (by decide +kernel), eq_some_getD noFs (by decide +kernel)⟩

end Crimson.Crfs
