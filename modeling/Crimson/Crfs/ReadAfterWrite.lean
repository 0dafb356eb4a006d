import Crimson.Crfs.Contents

/-!
# A write, and reading the file after it

`WriteOk` is what a call of `crfs_write` may count on: a device that keeps what is written to
it, a file open for writing whose map is in order, room in the map, and blocks to be had that
the map does not refer to. `WriteRight` is what the caller expects of it.

**`crfs_write_iff`**: the expectation is met exactly where nothing shows through beyond the old
size, and nothing is lost after the data.
-/

set_option autoImplicit false

namespace Crimson.Crfs

open Crimson.Lib Crimson.Mm

/-- The file after `n` bytes of `buf` are written at `offset` of a file of `size` bytes. -/
def spliced (old buf : Mem) (size offset n : Nat) : Mem := fun i =>
  if offset ≤ i ∧ i < offset + n then buf (i - offset) else if i < size then old i else 0

structure WriteOk (fs : Fs) (r : InodeRef) (fd : Int) (buf : Mem) (n : Nat) : Prop where
  device : fs.Reliable
  slot : 0 ≤ fd ∧ fd < maxOpen
  inUse : (fs.files fd.toNat).inUse = true
  inode : (fs.files fd.toNat).inode = some r
  flags : (fs.files fd.toNat).flags &&& (oWronly ||| oRdwr) ≠ 0#32
  map : MapOk fs.bdev.bytes (fs.disk r)
  size : diskSize (fs.disk r) ≤ mapBlocks * blockSize
  fits : (fs.files fd.toNat).offset + n ≤ mapBlocks * blockSize
  blocks : EachChunk (BlocksFresh · r ·) r buf (fs.files fd.toNat).offset n n 0 fs

/-- The call returns `n`, and the file that read `old` reads as it should. -/
def WriteRight (fs : Fs) (r : InodeRef) (fd : Int) (buf : Mem) (n uptimeMs : Nat) (old : Mem) : Prop :=
  (crfsWrite fs fd buf n uptimeMs).1 = n ∧
    diskSize ((crfsWrite fs fd buf n uptimeMs).2.disk r) = max (diskSize (fs.disk r)) ((fs.files fd.toNat).offset + n) ∧
    ReadsAs (crfsWrite fs fd buf n uptimeMs).2 r (max (diskSize (fs.disk r)) ((fs.files fd.toNat).offset + n))
      (spliced old buf (diskSize (fs.disk r)) (fs.files fd.toNat).offset n)

/-! ## The end of the call -/

section

variable {m d d' : Mem}

/-- The map is in the pointers of the inode. -/
theorem mapEntry_inode_congr (h : AgreeOn d d' 88 112) (i : Nat) : mapEntry m d' .inode i = mapEntry m d .inode i := by
  have hind : diskIndirect d' = diskIndirect d := load64_congr (h.mono (by decide) (by decide))
  have hdind : diskDoubleIndirect d' = diskDoubleIndirect d := load64_congr (h.mono (by decide) (by decide))
  by_cases hi : i < indirectBase
  · have hin : 88 + 8 * i + 8 ≤ 88 + 112 := by
      unfold indirectBase at hi
      omega
    have hdirect : diskDirect d' i = diskDirect d i := load64_congr (h.mono (Nat.le_add_right _ _) hin)
    rw [mapEntry, mapEntry, if_pos hi, if_pos hi, hdirect]
  · rw [mapEntry, mapEntry, if_neg hi, if_neg hi, hind, hdind]

theorem blockWalk_disk_congr (h : AgreeOn d d' 88 112) (q : List Nat) : blockWalk m d' q = blockWalk m d q :=
  blockWalk_congr (mapEntry_inode_congr h) fun _ _ _ _ _ _ _ => rfl

theorem Fs.disk_modFile (fs : Fs) (fd : Nat) (f : File → File) (r : InodeRef) : (fs.modFile fd f).disk r = fs.disk r := rfl

theorem fileByte_disk_congr (h : AgreeOn d d' 88 112) (i : Nat) : fileByte m d' i = fileByte m d i := by
  unfold fileByte mapAt
  rw [blockWalk_disk_congr h]

end

section

variable {fs : Fs} {fd : Nat} {r : InodeRef} {total uptimeMs : Nat}

/-- The end of `crfs_write` sets the size, and leaves the map and the device alone. -/
theorem writeFinish_spec (hstop : (fs.files fd).offset + total < 2 ^ 64) :
    (writeFinish fs fd r total uptimeMs).bdev = fs.bdev ∧
      AgreeOn (fs.disk r) ((writeFinish fs fd r total uptimeMs).disk r) 88 112 ∧
      diskSize ((writeFinish fs fd r total uptimeMs).disk r) = max (diskSize (fs.disk r)) ((fs.files fd).offset + total) := by
  have hmtime : ∀ d : Mem, AgreeOn d (setDiskMtime d uptimeMs) 88 112 ∧ diskSize (setDiskMtime d uptimeMs) = diskSize d :=
    fun d => ⟨agreeOn_store64 (by decide), load64_store64_disjoint (by decide)⟩
  unfold writeFinish
  dsimp only
  rw [Nat.mod_eq_of_lt hstop]
  by_cases hgrow : diskSize (fs.disk r) < (fs.files fd).offset + total
  · rw [if_pos hgrow]
    refine ⟨rfl, ?_, ?_⟩
    all_goals rw [Fs.disk_setDirty, Fs.disk_modDisk, Fs.disk_modFile, Fs.disk_modDisk]
    · refine AgreeOn.trans ?_ (hmtime _).1
      exact (agreeOn_store64 (by decide)).trans (agreeOn_store64 (by decide))
    · rw [(hmtime _).2, max_eq_right hgrow.le]
      exact (load64_store64_disjoint (by decide)).trans (load64_store64_same hstop)
  · rw [if_neg hgrow]
    refine ⟨rfl, ?_, ?_⟩
    all_goals rw [Fs.disk_setDirty, Fs.disk_modDisk, Fs.disk_modFile]
    · exact (hmtime _).1
    · rw [(hmtime _).2, max_eq_left (Nat.le_of_not_lt hgrow)]

end

/-! ## The whole call -/

section

variable {fs : Fs} {r : InodeRef} {fd : Int} {buf : Mem} {n : Nat}

theorem WriteOk.call (h : WriteOk fs r fd buf n) (uptimeMs : Nat) :
    crfsWrite fs fd buf n uptimeMs = (asInt64 n,
      writeFinish (writeLoop r buf (fs.files fd.toNat).offset n n 0 fs) fd.toNat r n uptimeMs) := by
  have hslot := h.slot
  have hrange : ¬(fd < 0 ∨ (maxOpen : Int) ≤ fd) := by omega
  unfold crfsWrite
  rw [if_neg hrange]
  dsimp only
  rw [h.inUse, h.inode]
  dsimp only
  rw [if_neg h.flags]

/-- **What `crfs_write` does** to a file: the data, the lost tail, the size. -/
theorem WriteOk.effect (h : WriteOk fs r fd buf n) (uptimeMs : Nat) :
    (crfsWrite fs fd buf n uptimeMs).1 = n ∧
      MapOk (crfsWrite fs fd buf n uptimeMs).2.bdev.bytes ((crfsWrite fs fd buf n uptimeMs).2.disk r) ∧
      diskSize ((crfsWrite fs fd buf n uptimeMs).2.disk r) =
        max (diskSize (fs.disk r)) ((fs.files fd.toNat).offset + n) ∧
      ∀ i, i / blockSize < mapBlocks →
        fileByte (crfsWrite fs fd buf n uptimeMs).2.bdev.bytes ((crfsWrite fs fd buf n uptimeMs).2.disk r) i =
          if (fs.files fd.toNat).offset ≤ i ∧ i < (fs.files fd.toNat).offset + n then buf (i - (fs.files fd.toNat).offset)
          else if LostTail (fs.files fd.toNat).offset ((fs.files fd.toNat).offset + n) i then 0
          else fileByte fs.bdev.bytes (fs.disk r) i := by
  have hbound : mapBlocks * blockSize < 2 ^ 62 := by decide
  have hfits := h.fits
  obtain ⟨hok, hsame, hbytes⟩ := writeLoop_spec h.fits (by omega) (Nat.zero_le n) h.device h.map h.blocks
  rw [h.call]
  generalize writeLoop r buf (fs.files fd.toNat).offset n n 0 fs = fs' at hok hsame hbytes ⊢
  have hfiles : fs'.files fd.toNat = fs.files fd.toNat := by rw [hsame.files]
  obtain ⟨hbdev, hagree, hsize⟩ := @writeFinish_spec fs' fd.toNat r n uptimeMs (by rw [hfiles]; omega)
  dsimp only
  refine ⟨?_, ?_, ?_, fun i hi => ?_⟩
  · have hsmall : n < 2 ^ 63 := by omega
    rw [asInt64_of_lt hsmall]
  · rw [hbdev]
    exact hok.congr (blockWalk_disk_congr hagree)
  · rw [hsize, hfiles, hsame.size]
  · rw [hbdev, fileByte_disk_congr hagree]
    exact hbytes i hi

/-- The bytes of a file after a write are right exactly where what comes up between the old size
    and the data is zero, and so is what the last block loses. -/
theorem spliced_iff {size offset n : Nat} {old buf before after : Mem} (hold : ∀ i, i < size → before i = old i)
    (hafter : ∀ i, i < max size (offset + n) → after i =
      if offset ≤ i ∧ i < offset + n then buf (i - offset) else if LostTail offset (offset + n) i then 0 else before i) :
    (∀ i, i < max size (offset + n) → after i = spliced old buf size offset n i) ↔
      (∀ i, size ≤ i → i < offset → before i = 0) ∧ ∀ i, i < size → LostTail offset (offset + n) i → old i = 0 := by
  unfold spliced
  constructor
  · intro hall
    constructor
    · intro i hsz hi
      have hdata : ¬(offset ≤ i ∧ i < offset + n) := by omega
      have hlost : ¬LostTail offset (offset + n) i := fun hl => by
        have := hl.2.1
        omega
      have hlt : i < max size (offset + n) := by omega
      have hbyte := hall i hlt
      rw [hafter i hlt, if_neg hdata, if_neg hlost, if_neg hdata, if_neg (Nat.not_lt.mpr hsz)] at hbyte
      exact hbyte
    · intro i hi hl
      have hstop := hl.2.1
      have hdata : ¬(offset ≤ i ∧ i < offset + n) := by omega
      have hlt : i < max size (offset + n) := by omega
      have hbyte := hall i hlt
      rw [hafter i hlt, if_neg hdata, if_pos hl, if_neg hdata, if_pos hi] at hbyte
      exact hbyte.symm
  · rintro ⟨hgap, htail⟩ i hlt
    rw [hafter i hlt]
    by_cases hdata : offset ≤ i ∧ i < offset + n
    · rw [if_pos hdata, if_pos hdata]
    · rw [if_neg hdata, if_neg hdata]
      by_cases hi : i < size
      · rw [if_pos hi]
        by_cases hl : LostTail offset (offset + n) i
        · rw [if_pos hl, htail i hi hl]
        · rw [if_neg hl, hold i hi]
      · have hlost : ¬LostTail offset (offset + n) i := fun hl => by
          have := hl.2.1
          omega
        rw [if_neg hi, if_neg hlost]
        exact hgap i (Nat.le_of_not_lt hi) (by omega)

/-- **Reading after writing**: right exactly where what the map holds between the old size and
    the data is zero, and so are the bytes that the last block loses. -/
theorem crfs_write_iff (h : WriteOk fs r fd buf n) (uptimeMs : Nat) (old : Mem)
    (hold : ReadsAs fs r (diskSize (fs.disk r)) old) :
    WriteRight fs r fd buf n uptimeMs old ↔
      (∀ i, diskSize (fs.disk r) ≤ i → i < (fs.files fd.toNat).offset → fileByte fs.bdev.bytes (fs.disk r) i = 0) ∧
        ∀ i, i < diskSize (fs.disk r) →
          LostTail (fs.files fd.toNat).offset ((fs.files fd.toNat).offset + n) i → old i = 0 := by
  obtain ⟨hret, -, hsize, hbytes⟩ := h.effect uptimeMs
  have hold := (readsAs_iff h.size old).mp hold
  have hmax : max (diskSize (fs.disk r)) ((fs.files fd.toNat).offset + n) ≤ mapBlocks * blockSize := max_le h.size h.fits
  have hreads : WriteRight fs r fd buf n uptimeMs old ↔
      ∀ i, i < max (diskSize (fs.disk r)) ((fs.files fd.toNat).offset + n) →
        fileByte (crfsWrite fs fd buf n uptimeMs).2.bdev.bytes ((crfsWrite fs fd buf n uptimeMs).2.disk r) i =
          spliced old buf (diskSize (fs.disk r)) (fs.files fd.toNat).offset n i := by
    have hiff := @readsAs_iff (crfsWrite fs fd buf n uptimeMs).2 r (by rw [hsize]; exact hmax)
      (spliced old buf (diskSize (fs.disk r)) (fs.files fd.toNat).offset n)
    rw [hsize] at hiff
    exact ⟨fun hw => hiff.mp hw.2.2, fun hw => ⟨hret, hsize, hiff.mpr hw⟩⟩
  have hin : ∀ i, i < max (diskSize (fs.disk r)) ((fs.files fd.toNat).offset + n) → i / blockSize < mapBlocks :=
    fun i hi => Nat.div_lt_of_lt_mul (by rw [Nat.mul_comm]; exact Nat.lt_of_lt_of_le hi hmax)
  rw [hreads]
  exact spliced_iff hold fun i hi => hbytes i (hin i hi)

end

/-! ## A file of one block -/

/-- An empty map leads nowhere. -/
theorem blockWalk_empty (m : Mem) (i : Nat) (q : List Nat) : blockWalk m zeroBuf (i :: q) = none := by
  have hzero : ∀ a, load64 zeroBuf a = 0 := fun a => loadBytes_zeroBuf
  have hentry : (mapEntry m zeroBuf .inode i).2 = 0 := by
    rw [mapEntry, diskDirect, diskIndirect, diskDoubleIndirect, hzero, hzero, hzero]
    split
    · rfl
    · split
      · rfl
      · split <;> rfl
  have hnone : mapChild (mapEntry m zeroBuf .inode i) = none := if_pos hentry
  unfold blockWalk walk
  rw [hnone]
  rfl

theorem blockWalk_empty_ne (m : Mem) (q : List Nat) (l a : Nat) : blockWalk m zeroBuf q ≠ some (.block l a) := by
  cases q with
  | nil => exact fun h => MapTable.noConfusion (Option.some.inj h)
  | cons i q =>
    rw [blockWalk_empty]
    simp

/-- The map of an empty file is in order. -/
theorem mapOk_empty (m : Mem) : MapOk m zeroBuf where
  aligned := fun p l a h => absurd h (blockWalk_empty_ne m p l a)
  apart := fun p _ l _ a _ h => absurd h (blockWalk_empty_ne m p (l + 1) a)

/-- An empty file that is open twice, on a fresh file system. -/
def emptyFile : Fs :=
  { (mounted formattedDevice).getD noFs with
    inodes := fun _ => Inode.zero
    files := fun i => if i < 2 then ⟨true, oRdwr, 0, some 0⟩ else File.zero }

def sevens : Mem := fun _ => 7

def nines : Mem := fun _ => 9

theorem emptyFile_size : diskSize (emptyFile.disk 0) = 0 := loadBytes_zeroBuf

/-- The first allocation on a fresh file system. -/
theorem emptyFile_alloc : ∃ fs, allocs 1 emptyFile = some ([5 * segSize], fs) := by
  have hfirst : (allocs 1 emptyFile).map Prod.fst = some [5 * segSize] := by decide +kernel
  obtain ⟨⟨l, fs⟩, hfs, rfl⟩ := Option.map_eq_some_iff.mp hfirst
  exact ⟨fs, hfs⟩

theorem emptyFile_fresh : BlocksFresh emptyFile 0 0 := by
  obtain ⟨fs, hfs⟩ := emptyFile_alloc
  refine ⟨_, fs, hfs, fun x hx => ⟨?_, fun p l => blockWalk_empty_ne _ p l x⟩⟩
  rw [List.mem_singleton.mp hx]
  decide

theorem crfsFormat_writeFails {bdev d : Device} {name : List (BitVec 8)} {uuid : Mem} {uptimeMs rootMs : Nat}
    (h : crfsFormat bdev name uuid uptimeMs rootMs = some d) : d.writeFails = bdev.writeFails := by
  unfold crfsFormat at h
  dsimp only at h
  split at h
  · exact absurd h (by simp)
  · rw [← Option.some.inj h]
    rfl

theorem crfsMount_bdev {bdev : Device} {env : Surroundings} {blockInSeg currentSeg uptimeMs : Nat} {fs : Fs}
    (h : crfsMount bdev env blockInSeg currentSeg uptimeMs = some fs) : fs.bdev = bdev := by
  unfold crfsMount at h
  dsimp only at h
  split at h
  · exact absurd h (by simp)
  · rw [← Option.some.inj h]

theorem emptyFile_reliable : emptyFile.Reliable := by
  intro n
  show ((mounted formattedDevice).getD noFs).bdev.writeFails n = false
  rw [crfsMount_bdev blank_mounted.2, crfsFormat_writeFails blank_mounted.1]
  rfl

theorem emptyFile_writeOk : WriteOk emptyFile 0 0 sevens 2 where
  device := emptyFile_reliable
  slot := by decide
  inUse := rfl
  inode := rfl
  flags := by decide
  map := mapOk_empty _
  size := by
    rw [emptyFile_size]
    exact Nat.zero_le _
  fits := show 0 + 2 ≤ mapBlocks * blockSize by decide
  blocks := by
    intro _
    exact ⟨emptyFile_fresh, fun h => absurd h (by decide)⟩

/-- Two bytes are written to an empty file, and read. -/
theorem crfs_write_two : WriteRight emptyFile 0 0 sevens 2 0 zeroBuf := by
  refine (crfs_write_iff emptyFile_writeOk 0 zeroBuf ?_).mpr ⟨?_, ?_⟩
  · refine (readsAs_iff emptyFile_writeOk.size zeroBuf).mpr fun i hi => ?_
    rw [emptyFile_size] at hi
    exact absurd hi (Nat.not_lt_zero i)
  · intro i _ hi
    exact absurd hi (Nat.not_lt_zero i)
  · intro i hi
    rw [emptyFile_size] at hi
    exact absurd hi (Nat.not_lt_zero i)

/-- The file after that write. -/
def shortFile : Fs := (crfsWrite emptyFile 0 sevens 2 0).2

theorem shortFile_eq : shortFile = writeFinish (writeChunk emptyFile 0 ⟨0, 0, 2⟩ sevens 0) 0 0 2 0 := by
  unfold shortFile
  rw [emptyFile_writeOk.call]
  rfl

theorem shortFile_written : ∃ fs₁, ChunkWritten emptyFile 0 ⟨0, 0, 2⟩ sevens 0 (5 * segSize) [] fs₁
    (writeChunk emptyFile 0 ⟨0, 0, 2⟩ sevens 0) := by
  obtain ⟨a, tables, fs₁, hwritten⟩ := @writeChunk_spec emptyFile 0 ⟨0, 0, 2⟩ sevens 0 emptyFile_reliable (mapOk_empty _)
    (by decide) emptyFile_fresh
  obtain ⟨fs, hfs⟩ := emptyFile_alloc
  have hnew := Option.some.inj (hwritten.allocs.symm.trans hfs)
  obtain ⟨rfl, rfl⟩ := List.cons.inj (Prod.mk.inj hnew).1
  exact ⟨fs₁, hwritten⟩

/-- It is open at its start once more, and holds the two bytes. -/
theorem shortFile_holds : (shortFile.files 1).inUse = true ∧ (shortFile.files 1).inode = some 0 ∧
    (shortFile.files 1).flags = oRdwr ∧ (shortFile.files 1).offset = 0 ∧ diskSize (shortFile.disk 0) = 2 ∧
      (∀ i : Fin 2, fileByte shortFile.bdev.bytes (shortFile.disk 0) i.val = sevens i.val) ∧
        (allocs 1 shortFile).map Prod.fst = some [5 * segSize + blockSize] := by
  decide +kernel

theorem shortFile_writeOk : WriteOk shortFile 0 1 nines 1 := by
  obtain ⟨fs₁, hwritten⟩ := shortFile_written
  obtain ⟨hbdev, hagree, -⟩ := @writeFinish_spec (writeChunk emptyFile 0 ⟨0, 0, 2⟩ sevens 0) 0 0 2 0 (by
    rw [hwritten.same.files]
    decide)
  rw [← shortFile_eq] at hbdev hagree
  obtain ⟨huse, hinode, hflags, hoffset, hsize, -, halloc⟩ := shortFile_holds
  refine ⟨?_, by decide, huse, hinode, ?_, ?_, ?_, ?_, fun _ => ⟨?_, trivial⟩⟩
  · intro n
    rw [hbdev]
    exact hwritten.same.reliable emptyFile_reliable n
  · show (shortFile.files 1).flags &&& (oWronly ||| oRdwr) ≠ 0#32
    rw [hflags]
    decide
  · rw [hbdev]
    exact hwritten.ok.congr (blockWalk_disk_congr hagree)
  · rw [hsize]
    decide
  · show (shortFile.files 1).offset + 1 ≤ mapBlocks * blockSize
    rw [hoffset]
    decide
  · obtain ⟨⟨l, fs⟩, hl, rfl⟩ := Option.map_eq_some_iff.mp halloc
    refine ⟨_, fs, hl, fun x hx => ?_⟩
    rw [List.mem_singleton.mp hx]
    refine ⟨by decide, fun p l hp => ?_⟩
    rw [hbdev, blockWalk_disk_congr hagree] at hp
    rcases hwritten.refs p l _ hp with hx | ⟨-, hp⟩
    · exact absurd hx (by decide)
    · exact blockWalk_empty_ne _ p l _ hp

theorem shortFile_reads : ReadsAs shortFile 0 2 sevens := by
  obtain ⟨-, -, -, -, hsize, hbytes, -⟩ := shortFile_holds
  have hiff := @readsAs_iff shortFile 0 shortFile_writeOk.size sevens
  rw [hsize] at hiff
  exact hiff.mpr fun i hi => hbytes ⟨i, hi⟩

/-- **The first of two bytes is written again**: the other one is lost. -/
theorem crfs_write_loses_tail :
    ¬ ∀ (fs : Fs) (r : InodeRef) (fd : Int) (buf : Mem) (n uptimeMs : Nat) (old : Mem),
      WriteOk fs r fd buf n → ReadsAs fs r (diskSize (fs.disk r)) old → WriteRight fs r fd buf n uptimeMs old := by
  intro h
  obtain ⟨-, -, -, -, hsize, -⟩ := shortFile_holds
  obtain ⟨-, -, hreads⟩ := h shortFile 0 1 nines 1 0 sevens shortFile_writeOk (by rw [hsize]; exact shortFile_reads)
  rw [hsize] at hreads
  obtain ⟨-, hbyte⟩ := hreads 0 ⟨true, oRdwr, 1, some 0⟩ zeroBuf 1 0 (by decide) rfl rfl (by decide)
  exact absurd (hbyte 0) (by decide +kernel)

end Crimson.Crfs
