import Crimson.Crfs.Segments

/-!
# Formatting and then mounting

What `crfs_format` leaves on the device, and what `crfs_mount` makes of it. The bitmap of the
segments is read back from a place where `crfs_format` has written nothing: which segments are
used after the first mount is up to what the device held before (`bitmap_mounted_iff`).
-/

set_option autoImplicit false

namespace Crimson.Crfs

open Crimson.Lib Crimson.Mm

/-- The device keeps what is written to it. -/
def Device.Reliable (d : Device) : Prop := ∀ n, d.writeFails n = false

section

variable {bdev d : Device} {name : List (BitVec 8)} {uuid : Mem} {uptimeMs rootMs : Nat}

theorem Device.write_bytes (h : d.Reliable) (offset : Nat) (buf : Mem) (len : Nat) :
    (d.write offset buf len).bytes = copyBytes d.bytes offset buf 0 len :=
  if_neg (by rw [h]; decide)

theorem Device.Reliable.write (h : d.Reliable) (offset : Nat) (buf : Mem) (len : Nat) :
    (d.write offset buf len).Reliable := h

/-- **What `crfs_format` leaves**: the superblock, the root inode and its block; the rest, the
    bitmap among it, is as it was. -/
structure Formatted (bdev : Device) (sb : Mem) (rootMs : Nat) (d : Device) : Prop where
  size : d.size = bdev.size
  reliable : d.Reliable
  superblock : ∀ x, x < blockSize → d.bytes x = sb x
  bitmap : ∀ x, 2 * segSize ≤ x → x < 3 * segSize → d.bytes x = bdev.bytes x
  root : ∀ x, x < sizeofInodeDisk → d.bytes (3 * segSize + x) = formatRootInode rootMs x
  table : ∀ x, 3 * segSize + sizeofInodeDisk ≤ x → x < 4 * segSize → d.bytes x = bdev.bytes x
  rootBlock : ∀ x, x < blockSize → d.bytes (4 * segSize + x) = formatRootBlock x
  data : ∀ x, 4 * segSize + blockSize ≤ x → d.bytes x = bdev.bytes x

theorem crfsFormat_spec (hdev : bdev.Reliable) (hsize : 16 ≤ bdev.size / segSize) :
    ∃ d, crfsFormat bdev name uuid uptimeMs rootMs = some d ∧
      Formatted bdev (formatSuperblock (bdev.size / segSize) uptimeMs name uuid) rootMs d := by
  unfold crfsFormat
  dsimp only
  rw [if_neg (Nat.not_lt.mpr hsize)]
  generalize formatSuperblock (bdev.size / segSize) uptimeMs name uuid = sb
  refine ⟨_, rfl, ?_⟩
  have h₁ := hdev.write 0 sb sizeofSuperblock
  have h₂ := h₁.write blockSize sb sizeofSuperblock
  have h₃ := h₂.write (3 * segSize) (formatRootInode rootMs) sizeofInodeDisk
  have h₄ := h₃.write (4 * segSize) formatRootBlock blockSize
  have hbytes : (((((bdev.write 0 sb sizeofSuperblock).write blockSize sb sizeofSuperblock).write (3 * segSize)
      (formatRootInode rootMs) sizeofInodeDisk).write (4 * segSize) formatRootBlock blockSize).write segSize sb
        sizeofSuperblock).bytes =
      copyBytes (copyBytes (copyBytes (copyBytes (copyBytes bdev.bytes 0 sb 0 sizeofSuperblock) blockSize sb 0
        sizeofSuperblock) (3 * segSize) (formatRootInode rootMs) 0 sizeofInodeDisk) (4 * segSize) formatRootBlock 0
          blockSize) segSize sb 0 sizeofSuperblock := by
    rw [Device.write_bytes h₄, Device.write_bytes h₃, Device.write_bytes h₂, Device.write_bytes h₁, Device.write_bytes hdev]
  refine ⟨rfl, h₄.write segSize sb sizeofSuperblock, ?_, ?_, ?_, ?_, ?_, ?_⟩
  all_goals
    rw [hbytes]
    unfold segSize blockSize sizeofSuperblock sizeofInodeDisk
    intro x hx
  · rw [copyBytes_of_notMem (by omega), copyBytes_of_notMem (by omega), copyBytes_of_notMem (by omega),
      copyBytes_of_notMem (by omega), copyBytes_of_mem (Nat.zero_le _) (by omega), Nat.zero_add, Nat.sub_zero]
  · intro hx'
    rw [copyBytes_of_notMem (by omega), copyBytes_of_notMem (by omega), copyBytes_of_notMem (by omega),
      copyBytes_of_notMem (by omega), copyBytes_of_notMem (by omega)]
  · rw [copyBytes_of_notMem (by omega), copyBytes_of_notMem (by omega),
      copyBytes_of_mem (Nat.le_add_right _ _) (by omega), Nat.zero_add, Nat.add_sub_cancel_left]
  · intro hx'
    rw [copyBytes_of_notMem (by omega), copyBytes_of_notMem (by omega), copyBytes_of_notMem (by omega),
      copyBytes_of_notMem (by omega), copyBytes_of_notMem (by omega)]
  · rw [copyBytes_of_notMem (by omega), copyBytes_of_mem (Nat.le_add_right _ _) (by omega), Nat.zero_add,
      Nat.add_sub_cancel_left]
  · rw [copyBytes_of_notMem (by omega), copyBytes_of_notMem (by omega), copyBytes_of_notMem (by omega),
      copyBytes_of_notMem (by omega), copyBytes_of_notMem (by omega)]

/-! ## The superblock -/

theorem sbMagic_format (totalSegs : Nat) : sbMagic (formatSuperblock totalSegs uptimeMs name uuid) = magic := by
  unfold formatSuperblock sbMagic setSbUsedSegs setSbFreeSegs setSbCheckpointOffset setSbCheckpointSeq setSbLastMountTime
    copyString
  simp (disch := omega) only [load64_store32_disjoint, load64_copyBytes_disjoint, load64_store64_disjoint]
  exact load64_store64_same (by decide)

theorem sbTotalSegs_format {totalSegs : Nat} (h : totalSegs < 2 ^ 64) :
    sbTotalSegs (formatSuperblock totalSegs uptimeMs name uuid) = totalSegs := by
  unfold formatSuperblock sbTotalSegs setSbUsedSegs setSbFreeSegs setSbCheckpointOffset setSbCheckpointSeq
    setSbLastMountTime copyString
  simp (disch := omega) only [load64_store32_disjoint, load64_copyBytes_disjoint, load64_store64_disjoint]
  exact load64_store64_same h

theorem sbInodeTableStart_format (totalSegs : Nat) :
    sbInodeTableStart (formatSuperblock totalSegs uptimeMs name uuid) = 3 := by
  unfold formatSuperblock sbInodeTableStart setSbUsedSegs setSbFreeSegs setSbCheckpointOffset setSbCheckpointSeq
    setSbLastMountTime copyString
  simp (disch := omega) only [load64_store32_disjoint, load64_copyBytes_disjoint, load64_store64_disjoint]
  exact load64_store64_same (by decide)

end

/-! ## Mounting -/

theorem segBit_congr {m m' : Mem} {i : Nat} (h : m' (i / 8) = m (i / 8)) : segBit m' i = segBit m i := by
  unfold segBit
  rw [h]

theorem segBit_markSystem (m : Mem) (i : Nat) : segBit (markSystem m) i = (segBit m i || decide (i < 5)) := by
  have hlist : List.range 5 = [0, 1, 2, 3, 4] := rfl
  unfold markSystem
  rw [hlist]
  simp only [List.foldl_cons, List.foldl_nil, segBit_setSegBit, Bool.or_assoc]
  refine congrArg _ ?_
  rw [Bool.eq_iff_iff]
  simp only [Bool.or_eq_true, decide_eq_true_eq]
  omega

/-- **What `crfs_mount` makes of a device** whose superblock is in order. -/
structure Mounted (d : Device) (env : Surroundings) (blockInSeg currentSeg : Nat) (fs : Fs) : Prop where
  bdev : fs.bdev = d
  total : sbTotalSegs fs.sb = load64 d.bytes 20
  tableStart : sbInodeTableStart fs.sb = load64 d.bytes 60
  bits : ∀ i, segBit fs.segBitmap i =
    (segBit (copyBytes env.heap 0 d.bytes (2 * segSize) (bitmapLen (load64 d.bytes 20))) i || decide (i < 5))
  nextSeg : fs.nextSeg = 5
  blockInSeg : fs.blockInSeg = blockInSeg
  currentSeg : fs.currentSeg = currentSeg
  inodes : fs.inodes = fun _ => Inode.zero
  files : fs.files = fun _ => File.zero
  inodeCount : fs.inodeCount = 0
  inodeCache : fs.inodeCache = fun _ => []

section

variable {d : Device} {env : Surroundings} {blockInSeg currentSeg uptimeMs : Nat} {fs : Fs}

/-- The fields of the superblock, as they are read from the device. -/
theorem load64_sb_read {j : Nat} (h : j + 8 ≤ blockSize) : load64 (d.read 0 zeroBuf blockSize) j = load64 d.bytes j := by
  have hload := @load64_copyBytes zeroBuf 0 0 blockSize d.bytes j h
  rw [Nat.zero_add] at hload
  exact hload

theorem crfsMount_spec (h : crfsMount d env blockInSeg currentSeg uptimeMs = some fs) :
    Mounted d env blockInSeg currentSeg fs := by
  unfold crfsMount at h
  dsimp only at h
  split at h
  · exact absurd h (by simp)
  · rw [← Option.some.inj h]
    have htotal : ∀ v w, sbTotalSegs (setSbMountCount (setSbLastMountTime (d.read 0 zeroBuf blockSize) v) w) =
        load64 d.bytes 20 := by
      intro v w
      unfold sbTotalSegs setSbMountCount setSbLastMountTime
      rw [load64_store64_disjoint (by decide), load64_store64_disjoint (by decide), load64_sb_read (by decide)]
    have hstart : ∀ v w, sbInodeTableStart (setSbMountCount (setSbLastMountTime (d.read 0 zeroBuf blockSize) v) w) =
        load64 d.bytes 60 := by
      intro v w
      unfold sbInodeTableStart setSbMountCount setSbLastMountTime
      rw [load64_store64_disjoint (by decide), load64_store64_disjoint (by decide), load64_sb_read (by decide)]
    refine ⟨rfl, htotal _ _, hstart _ _, fun i => ?_, rfl, rfl, rfl, rfl, rfl, rfl, rfl⟩
    dsimp only
    rw [segBit_markSystem, htotal]
    rfl

theorem crfsMount_some (h : load64 d.bytes 0 = magic) : ∃ fs, crfsMount d env blockInSeg currentSeg uptimeMs = some fs := by
  unfold crfsMount
  dsimp only
  have hmagic : sbMagic (d.read 0 zeroBuf blockSize) = magic := (load64_sb_read (by decide)).trans h
  rw [if_neg (not_not.mpr hmagic)]
  exact ⟨_, rfl⟩

end

section

variable {bdev : Device} {env : Surroundings} {name : List (BitVec 8)} {uuid : Mem}
  {uptimeMs rootMs blockInSeg currentSeg mountMs : Nat}

/-- Formatting and mounting. -/
theorem format_mount (hdev : bdev.Reliable) (hsize : 16 ≤ bdev.size / segSize) (hlt : bdev.size < 2 ^ 64) :
    ∃ d fs, crfsFormat bdev name uuid uptimeMs rootMs = some d ∧
      crfsMount d env blockInSeg currentSeg mountMs = some fs ∧
      Formatted bdev (formatSuperblock (bdev.size / segSize) uptimeMs name uuid) rootMs d ∧
      Mounted d env blockInSeg currentSeg fs ∧ sbTotalSegs fs.sb = bdev.size / segSize ∧
      sbInodeTableStart fs.sb = 3 := by
  obtain ⟨d, hformat, hd⟩ := @crfsFormat_spec bdev name uuid uptimeMs rootMs hdev hsize
  have hload : ∀ j, j + 8 ≤ blockSize → load64 d.bytes j =
      load64 (formatSuperblock (bdev.size / segSize) uptimeMs name uuid) j := fun j hj =>
    load64_congr fun x _ hx => hd.superblock x (by omega)
  have htotal : bdev.size / segSize < 2 ^ 64 := Nat.lt_of_le_of_lt (Nat.div_le_self _ _) hlt
  obtain ⟨fs, hmount⟩ := @crfsMount_some d env blockInSeg currentSeg mountMs
    ((hload 0 (by decide)).trans (sbMagic_format _))
  have hm := crfsMount_spec hmount
  exact ⟨d, fs, hformat, hmount, hd, hm, hm.total.trans ((hload 20 (by decide)).trans (sbTotalSegs_format htotal)),
    hm.tableStart.trans ((hload 60 (by decide)).trans (sbInodeTableStart_format _))⟩

/-- **Which segments are used after the first mount**: the system's own exactly where the place
    of the bitmap was clear already, from bit 5 on, and the bitmap ends before the inode table.
    What is beyond the end of the bitmap is what `kmalloc` returned. -/
theorem bitmap_mounted_iff (hdev : bdev.Reliable) (hsize : 16 ≤ bdev.size / segSize) (hlt : bdev.size < 2 ^ 64)
    {d : Device} {fs : Fs} (hformat : crfsFormat bdev name uuid uptimeMs rootMs = some d)
    (hmount : crfsMount d env blockInSeg currentSeg mountMs = some fs) :
    (∀ seg, seg < sbTotalSegs fs.sb → segBit fs.segBitmap seg = decide (seg < 5)) ↔
      bitmapLen (bdev.size / segSize) ≤ segSize ∧ ∀ seg, 5 ≤ seg → seg < bdev.size / segSize →
        segBit (copyBytes env.heap 0 bdev.bytes (2 * segSize) (bitmapLen (bdev.size / segSize))) seg = false := by
  obtain ⟨d', fs', hformat', hmount', hd, hm, htotal, -⟩ := @format_mount bdev env name uuid uptimeMs rootMs blockInSeg
    currentSeg mountMs hdev hsize hlt
  obtain rfl := Option.some.inj (hformat'.symm.trans hformat)
  obtain rfl := Option.some.inj (hmount'.symm.trans hmount)
  have hbits := hm.bits
  rw [← hm.total, htotal] at hbits
  rw [htotal]
  generalize htot : bdev.size / segSize = total at *
  have hsame : bitmapLen total ≤ segSize → ∀ seg,
      segBit (copyBytes env.heap 0 d'.bytes (2 * segSize) (bitmapLen total)) seg =
        segBit (copyBytes env.heap 0 bdev.bytes (2 * segSize) (bitmapLen total)) seg := by
    intro hfit seg
    refine segBit_congr ?_
    by_cases hin : seg / 8 < bitmapLen total
    · rw [copyBytes_of_mem (Nat.zero_le _) (by omega), copyBytes_of_mem (Nat.zero_le _) (by omega)]
      exact hd.bitmap _ (by omega) (by omega)
    · rw [copyBytes_of_notMem (by omega), copyBytes_of_notMem (by omega)]
  constructor
  · intro h
    have hfit : bitmapLen total ≤ segSize := by
      -- A longer bitmap runs into the root inode, whose first byte is its number.
      by_contra hlong
      have hlen : bitmapLen total ≤ (total + 7) / 8 := by
        unfold bitmapLen
        exact (Nat.mod_le _ _).trans (Nat.div_le_div_right (Nat.mod_le _ _))
      have hseg : 8 * segSize < total := by omega
      have hbyte : copyBytes env.heap 0 d'.bytes (2 * segSize) (bitmapLen total) (8 * segSize / 8) = 1#8 := by
        rw [copyBytes_of_mem (Nat.zero_le _) (by omega)]
        have hroot := hd.root 0 (by decide)
        have hplace : 2 * segSize + (8 * segSize / 8 - 0) = 3 * segSize + 0 := by omega
        rw [hplace, hroot]
        rfl
      have hbit := h (8 * segSize) hseg
      rw [hbits, segBit, hbyte] at hbit
      exact absurd hbit (by decide)
    refine ⟨hfit, fun seg hseg hlt => ?_⟩
    have hbit := h seg hlt
    have hnot : decide (seg < 5) = false := by simpa using hseg
    rw [hbits, hsame hfit, hnot, Bool.or_false] at hbit
    exact hbit
  · rintro ⟨hfit, h⟩ seg hlt
    rw [hbits, hsame hfit]
    by_cases hsys : seg < 5
    · simp [hsys]
    · rw [h seg (Nat.le_of_not_lt hsys) hlt, Bool.false_or]

end

end Crimson.Crfs
