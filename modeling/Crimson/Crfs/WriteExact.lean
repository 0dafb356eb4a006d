import Crimson.Crfs.FailedSteps

/-!
# When `crfs_write` tells the truth

**`crfsWrite_honest`**: `WriteSound` makes a write honest, on every file, and is needed as well:
where every step succeeds, and where what is read after the call cannot be right by accident
(`Telltale`).

A step that fails may yet leave the right bytes: where they were there before, where they are zero
and no block is linked, or where the address that was on the stack is that of a block nobody uses.
-/

set_option autoImplicit false

namespace Crimson.Crfs

open Crimson.Lib Crimson.Mm

/-- **Nothing is right by accident**: what is handed out next holds zeros, the address on the stack
    is null, and no byte of the data is zero, or what is there, or beyond the reach of the loops. -/
structure Telltale (fs : Fs) (r : InodeRef) (buf : Mem) (offset n : Nat) : Prop where
  clean : CleanAhead fs
  data : ∀ k, k < n → buf k ≠ 0 ∧ buf k ≠ fileByte fs.bdev.bytes (fs.disk r) (offset + k)
  small : offset + n ≤ 2 ^ 44

/-- There is room, and every step succeeds. -/
def AllLands (fs : Fs) (r : InodeRef) (buf : Mem) (offset n : Nat) : Prop :=
  offset + n ≤ mapBlocks * blockSize ∧ WriteLands r buf offset n n 0 fs

/-- What the blocks from byte `total` on leave of the map. -/
structure LoopKept (fs : Fs) (r : InodeRef) (offset n total : Nat) (fs' : Fs) : Prop where
  tables : ∀ t, tableAt fs.bdev.bytes (fs.disk r) t ≠ 0 →
    tableAt fs'.bdev.bytes (fs'.disk r) t = tableAt fs.bdev.bytes (fs.disk r) t
  blocks : ∀ b, b < mapBlocks → (∀ k, total ≤ k → k < n → b ≠ (offset + k) / blockSize) →
    inodeGetBlock fs' r b = inodeGetBlock fs r b
  first : total < n → ∃ a f, allocBlock fs = some (a, f) ∧ inodeGetBlock fs' r ((offset + total) / blockSize) = a

section

variable {fs fs' g : Fs} {r : InodeRef} {fd : Int} {c : Chunk} {buf old : Mem} {offset n total uptimeMs x : Nat}

/-! ## What is kept where every step succeeds -/

/-- A step leaves the tables where they are. -/
theorem FileOk.chunk_tables (h : FileOk fs r) (hdev : fs.Reliable) (hblocks : HasBlocks r fs c.blockNo) (t : TableId)
    (ht : tableAt fs.bdev.bytes (fs.disk r) t ≠ 0) :
    tableAt (writeChunk fs r c buf total).bdev.bytes ((writeChunk fs r c buf total).disk r) t =
      tableAt fs.bdev.bytes (fs.disk r) t := by
  obtain ⟨a, f₀, -, -, halloc, -, -, -⟩ := (h.blocksFresh hblocks).blocks
  obtain ⟨hbdev, hdisk, -⟩ := @allocBlock_bdev fs f₀ r a halloc
  have hreliable : f₀.Reliable := by
    intro w
    rw [hbdev]
    exact hdev w
  obtain ⟨hwrote, -⟩ := h.wrote halloc (lands_of_reliable hreliable a (chunkBuf fs r c buf total))
  have hone : allocs 1 fs = some ([a], f₀) := by simp [allocs, halloc]
  have hoff : ∀ y, ¬InBlock a y → (writeBlock f₀ a (chunkBuf fs r c buf total)).bdev.bytes y = fs.bdev.bytes y := by
    intro y hy
    rw [writeBlock_off _ _ _ hy, hbdev]
  have hsame := tableAt_scratch ((h.freshAllocs 1 [a] f₀ (by decide) hone).2 a (by simp)).apart hoff t
  rw [writeChunk_eq halloc]
  have hdisk' : (writeBlock f₀ a (chunkBuf fs r c buf total)).disk r = fs.disk r := hdisk
  have hdev' : (writeBlock f₀ a (chunkBuf fs r c buf total)).Reliable := hreliable
  generalize writeBlock f₀ a (chunkBuf fs r c buf total) = g at hwrote hsame hdisk' hdev'
  obtain ⟨k, new, f, -, -, -, htried, -⟩ := setTries (b := c.blockNo) hwrote.map.tablesApart hwrote.freshAllocs
    (fun _ _ _ _ _ x _ => clears_of_reliable hdev' x) (allocBlock_place halloc).1
  obtain ⟨hb, hi, -⟩ := freeOld_alloc (inodeSetBlock g r c.blockNo a).2 (inodeGetBlock fs r c.blockNo)
  have hd : (freeOld (inodeSetBlock g r c.blockNo a).2 (inodeGetBlock fs r c.blockNo)).disk r =
      (inodeSetBlock g r c.blockNo a).2.disk r := by
    unfold Fs.disk
    rw [hi]
  have hkept := htried.tables t
  rw [hdisk', hsame] at hkept
  rw [hb, hd]
  exact hkept.resolve_right fun hnew => ht hnew.1

theorem loopKept (hfit : offset + n ≤ mapBlocks * blockSize) {fuel : Nat} (hfuel : n ≤ total + fuel) (hdev : fs.Reliable)
    (h : FileOk fs r) (hblocks : EachChunk (HasBlocks r) r buf offset n fuel total fs) :
    LoopKept fs r offset n total (writeLoop r buf offset n fuel total fs) := by
  induction fuel generalizing fs total with
  | zero => exact ⟨fun _ _ => rfl, fun _ _ _ => rfl, fun ht => absurd hfuel (Nat.not_le.mpr ht)⟩
  | succ fuel ih =>
    rw [writeLoop]
    by_cases ht : total < n
    · obtain ⟨hhas, hrest⟩ := hblocks ht
      obtain ⟨hb, hlen⟩ := chunkAt_lt hfit ht
      have hblock := fun k => @chunkAt_block offset n total hfit ht k
      have hfirst := (hblock total le_rfl ht).mpr (Nat.lt_add_of_pos_right hlen)
      obtain ⟨a, tables, fs₁, hw⟩ := @writeChunk_spec fs r (chunkAt offset n total) buf total hdev h.map hb
        (h.blocksFresh hhas)
      obtain ⟨a', f₀, halloc, hget⟩ := @FileOk.chunk_get fs r (chunkAt offset n total) buf total h hdev hb hhas
      have htables := @FileOk.chunk_tables fs r (chunkAt offset n total) buf total h hdev hhas
      rw [if_pos ht]
      dsimp only
      have hfuel' : n ≤ total + (chunkAt offset n total).len + fuel := by omega
      have hkept := ih hfuel' (hw.same.reliable hdev) (h.chunk hw) hrest
      generalize writeChunk fs r (chunkAt offset n total) buf total = g at hkept hget htables ⊢
      refine ⟨fun t hne => ?_, fun b hb' hother => ?_, fun _ => ⟨a', f₀, halloc, ?_⟩⟩
      · have hstep := htables t hne
        rw [hkept.tables t (by rw [hstep]; exact hne), hstep]
      · rw [hkept.blocks b hb' fun k hk => hother k (by omega), hget b hb', if_neg]
        rw [← hfirst]
        exact hother total le_rfl ht
      · rw [hfirst, hkept.blocks _ hb fun k hk hkn heq => ?_, hget _ hb, if_pos rfl]
        have := (hblock k (by omega) hkn).mp heq.symm
        omega
    · rw [if_neg ht]
      exact ⟨fun _ _ => rfl, fun _ _ _ => rfl, fun h => absurd h ht⟩

/-- What is needed before, and not replaced, is needed after. -/
theorem LoopKept.needed (h : LoopKept fs r offset n total fs') {p : List Nat} {l : Nat}
    (hp : blockWalk fs.bdev.bytes (fs.disk r) p = some (.block l x)) (hne : x ≠ 0)
    (hpath : ∀ k, total ≤ k → k < n → p ≠ blockPath ((offset + k) / blockSize)) : Needed fs' r x := by
  rcases blockWalk_path hp with ⟨-, b, hb, rfl⟩ | ⟨t, rfl, -⟩
  · have hx : inodeGetBlock fs r b = x := by
      rw [inodeGetBlock_eq]
      unfold mapAt
      rw [hp]
      rfl
    have hafter := h.blocks b hb fun k hk hkn heq => hpath k hk hkn (by rw [heq])
    rw [hx, inodeGetBlock_eq] at hafter
    refine ⟨blockPath b, 0, ?_⟩
    have hw := blockWalk_mapAt (m := fs'.bdev.bytes) (d := fs'.disk r) hb (by rw [hafter]; exact hne)
    rw [hafter] at hw
    exact hw
  · have hx : tableAt fs.bdev.bytes (fs.disk r) t = x := by
      rw [← addrOf_tablePath, hp]
      rfl
    have hafter := h.tables t (by rw [hx]; exact hne)
    rw [hx] at hafter
    obtain ⟨l', hw⟩ := blockWalk_tablePath fs'.bdev.bytes (fs'.disk r) (t := t) (by rw [hafter]; exact hne)
    rw [hafter] at hw
    exact ⟨_, _, hw⟩

theorem blockWalk_ne_zero {m d : Mem} {p : List Nat} {l : Nat} (h : blockWalk m d p = some (.block l x)) : x ≠ 0 := by
  induction p using List.reverseRecOn with
  | nil => cases h
  | append_singleton q i _ =>
    rw [blockWalk_snoc] at h
    obtain ⟨u, -, hchild⟩ := Option.bind_eq_some_iff.mp h
    obtain ⟨hne, hblock⟩ := mapChild_eq_some hchild
    rw [(MapTable.block.inj hblock).2]
    exact hne

/-- The next block of the current segment. -/
theorem CursorIn.next {seg a : Nat} {f : Fs} (h : CursorIn fs seg) (hcursor : CursorOk fs)
    (halloc : allocBlock fs = some (a, f)) : segOf a = seg := by
  obtain ⟨hcur, hne, hin⟩ := h
  have hne' : fs.currentSeg ≠ 0 := by
    rw [hcur]
    exact hne
  rcases allocBlock_cases halloc with ⟨-, -, -, rfl⟩ | ⟨_, _, hnew, -⟩
  · rw [← hcur]
    exact (segOf_blockAddr (hcursor.segFits (hcursor.cursor hne').2.2) hin).1
  · exact absurd hnew (not_or.mpr ⟨hne', Nat.not_le.mpr hin⟩)

/-- **Where no block that is needed is freed**, none shares a segment with one that is replaced. -/
theorem WriteOpen.unneeded (h : WriteOpen fs r fd) (hall : AllLands fs r buf (fs.files fd.toNat).offset n)
    (hfreed : NoneFreed fs (crfsWrite fs fd buf n uptimeMs).2 r) {k : Nat} (hk : k < n) :
    OldUnneeded fs r (fs.files fd.toNat).offset n (((fs.files fd.toNat).offset + k) / blockSize) := by
  obtain ⟨hfits, hlands⟩ := hall
  have hmarks := h.marks hfits hlands
  have hkept := loopKept hfits (Nat.le_add_left n 0) fs.steady_reliable h.file.steady (hlands.eachBlocks hfits h.file)
  rw [hlands.steady] at hkept
  intro hne hmark
  -- Nothing that is needed after the call is in the segment.
  have hgone : ∀ x, Needed (writeLoop r buf (fs.files fd.toNat).offset n n 0 fs).steady r x →
      segOf x ≠ segOf (inodeGetBlock fs r (((fs.files fd.toNat).offset + k) / blockSize)) := by
    rintro x ⟨p, l, hp⟩ hseg
    have hafter := hfreed x ⟨p, l, (h.walk_after buf n uptimeMs p).trans hp⟩ (Or.inl (by rw [hseg]; exact hmark))
    rw [(h.after buf n uptimeMs).1] at hafter
    have hlow : segOf x < fs.steady.nextSeg := by
      rw [hseg]
      exact h.file.needed_get hne
    exact ((hmarks.low _ hlow).mp hafter).2 k (Nat.zero_le _) hk hne hseg.symm
  refine ⟨fun p l x hp hseg => ?_, fun hcursor => ?_⟩
  · by_contra hother
    refine hgone x (hkept.needed hp (blockWalk_ne_zero hp) fun k' _ hk' heq => hother ⟨k', hk', heq⟩) hseg
  · obtain ⟨a, f, halloc, hget⟩ := hkept.first (Nat.zero_lt_of_lt hk)
    have hsteady : CursorIn fs.steady (segOf (inodeGetBlock fs r (((fs.files fd.toNat).offset + k) / blockSize))) := hcursor
    have hseg := hsteady.next h.file.steady.cursor halloc
    have ha : a ≠ 0 := by
      rintro rfl
      exact hcursor.2.1 hseg.symm
    have hneeded : Needed (writeLoop r buf (fs.files fd.toNat).offset n n 0 fs).steady r a := by
      rw [inodeGetBlock_eq] at hget
      have hw := blockWalk_mapAt (mapAt_bound (by rw [hget]; exact ha)) (by rw [hget]; exact ha)
      rw [hget] at hw
      exact ⟨_, _, hw⟩
    exact hgone a hneeded hseg

/-! ## What is read where a step fails -/

/-- An honest write leaves the data in the file. -/
theorem WriteOpen.data_read (h : WriteOpen fs r fd) (hsmall : (fs.files fd.toNat).offset + n ≤ 2 ^ 44)
    (hhonest : WriteHonest fs r fd buf n uptimeMs old) {k : Nat} (hk : k < n) :
    fileByte (writeLoop r buf (fs.files fd.toNat).offset n n 0 fs).bdev.bytes
      ((writeLoop r buf (fs.files fd.toNat).offset n n 0 fs).disk r) ((fs.files fd.toNat).offset + k) = buf k := by
  obtain ⟨j, -, hret, hsize, hreads, -⟩ := hhonest
  obtain rfl : j = n := by
    rw [h.returns, asInt64_of_lt (by omega)] at hret
    exact_mod_cast hret.symm
  have hgrown : grownSize (diskSize (fs.disk r)) (fs.files fd.toNat).offset j =
      max (diskSize (fs.disk r)) ((fs.files fd.toNat).offset + j) := if_neg (Nat.ne_zero_of_lt hk)
  rw [← hsize] at hreads
  have hsize' := h.size
  have hbyte := (readsAs_iff_of_le (by rw [hsize, hgrown]; omega) _).mp hreads ((fs.files fd.toNat).offset + k)
    (by rw [hsize, hgrown]; omega)
  obtain ⟨-, hbytes, hdisk⟩ := h.after buf j uptimeMs
  rw [hbytes, fileByte_disk_congr hdisk] at hbyte
  rw [hbyte]
  unfold spliced
  rw [if_pos (by omega), Nat.add_sub_cancel_left]

/-- **Where nothing is right by accident** an honest write is one whose steps all succeed. -/
theorem WriteOpen.allLands (h : WriteOpen fs r fd) (ht : Telltale fs r buf (fs.files fd.toNat).offset n)
    (hhonest : WriteHonest fs r fd buf n uptimeMs old) (hn : 0 < n) : AllLands fs r buf (fs.files fd.toNat).offset n := by
  have hdata := fun k => @WriteOpen.data_read fs r fd buf old n uptimeMs h ht.small hhonest k
  have hfits : (fs.files fd.toNat).offset + n ≤ mapBlocks * blockSize := by
    by_contra hbeyond
    -- The last byte is beyond the end of the map, and reads as zero.
    have hend : ¬((fs.files fd.toNat).offset + (n - 1)) / blockSize < mapBlocks := by
      intro hlt
      have := (Nat.div_lt_iff_lt_mul (by decide)).mp hlt
      omega
    have hlast := hdata (n - 1) (by omega)
    have hnull : mapAt (writeLoop r buf (fs.files fd.toNat).offset n n 0 fs).bdev.bytes
        ((writeLoop r buf (fs.files fd.toNat).offset n n 0 fs).disk r)
        (((fs.files fd.toNat).offset + (n - 1)) / blockSize) = 0 := by
      by_contra hne
      exact hend (mapAt_bound hne)
    rw [fileByte, if_pos hnull] at hlast
    exact (ht.data (n - 1) (by omega)).1 hlast.symm
  refine ⟨hfits, (writeLoop_tried hfits (Nat.le_add_left n 0) h.file.cells ht.clean).resolve_right ?_⟩
  rintro ⟨k, -, hk, hzero | hsame⟩
  · exact (ht.data k hk).1 ((hdata k hk).symm.trans hzero)
  · exact (ht.data k hk).2 ((hdata k hk).symm.trans hsame)

/-- **When `crfs_write` tells the truth**, whatever fails. -/
theorem crfsWrite_honest (h : WriteOpen fs r fd) (hold : ReadsAs fs r (diskSize (fs.disk r)) old) (buf : Mem)
    (n uptimeMs : Nat) :
    (WriteSound fs r buf (fs.files fd.toNat).offset n old → WriteHonest fs r fd buf n uptimeMs old) ∧
      (AllLands fs r buf (fs.files fd.toNat).offset n ∨ Telltale fs r buf (fs.files fd.toNat).offset n →
        WriteHonest fs r fd buf n uptimeMs old → WriteSound fs r buf (fs.files fd.toNat).offset n old) := by
  refine ⟨fun hs => h.honest hold hs uptimeMs, fun hkind hhonest => ?_⟩
  rcases Nat.eq_zero_or_pos n with rfl | hn
  · have hle := (h.honest_zero hold uptimeMs).mp hhonest
    refine ⟨fun _ => hle, fun hpos => absurd hpos (Nat.lt_irrefl 0), trivial, ?_, ?_, ?_⟩
    · intro i hlow hhigh
      exact absurd hhigh (Nat.not_lt.mpr (hle.trans hlow))
    · intro i _ hl
      exact absurd hl.1 (Nat.lt_irrefl _)
    · intro k hk
      exact absurd hk (Nat.not_lt_zero k)
  · have hall : AllLands fs r buf (fs.files fd.toNat).offset n := hkind.elim id fun ht => h.allLands ht hhonest hn
    obtain ⟨⟨hgap, htail⟩, hfreed⟩ := (h.honest_iff hold hn hall.1 hall.2 uptimeMs).mp hhonest
    exact ⟨fun hz => absurd hz hn.ne', fun _ => hall.1, hall.2, hgap, htail, fun k hk => h.unneeded hall hfreed hk⟩

end

/-! ## Two bytes -/

theorem emptyFile_writeOpen : WriteOpen emptyFile 0 0 where
  slot := by decide
  inUse := rfl
  inode := rfl
  flags := by decide
  offset := show 0 < 2 ^ 64 by decide
  file := ⟨mapOk_empty _, emptyFile_cursor, fun _ ⟨_, _, hp⟩ => absurd hp (blockWalk_empty_ne _ _ _ _)⟩
  size := by
    rw [emptyFile_size]
    exact Nat.zero_le _

theorem reads_nothing {fs : Fs} {r : InodeRef} (hsize : diskSize (fs.disk r) = 0) (old : Mem) :
    ReadsAs fs r (diskSize (fs.disk r)) old := by
  refine (readsAs_iff_of_le (by rw [hsize]; exact Nat.zero_le _) old).mpr fun i hi => ?_
  rw [hsize] at hi
  exact absurd hi (Nat.not_lt_zero i)

theorem emptyFile_writeSound : WriteSound emptyFile 0 sevens 0 2 zeroBuf where
  empty := fun h => absurd h (by decide)
  fits := fun _ => by decide
  lands := by
    intro _
    refine ⟨?_, fun h => absurd h (by decide)⟩
    obtain ⟨fs, hfs⟩ := emptyFile_alloc
    obtain ⟨⟨a, f⟩, halloc, -⟩ := Option.bind_eq_some_iff.mp hfs
    have hreliable : f.Reliable := by
      intro w
      rw [(allocBlock_bdev (r := 0) halloc).1]
      exact emptyFile_reliable w
    refine ⟨a, f, halloc, lands_of_reliable hreliable _ _, ?_⟩
    unfold SetLands
    rw [if_pos (by decide)]
    trivial
  gap := fun i _ hi => absurd hi (Nat.not_lt_zero i)
  tail := by
    intro i hi
    rw [emptyFile_size] at hi
    exact absurd hi (Nat.not_lt_zero i)
  freed := by
    intro k _ hne
    rw [inodeGetBlock_eq] at hne
    exact absurd (blockWalk_mapAt (mapAt_bound hne) hne) (blockWalk_empty_ne _ _ _ _)

/-- The empty file, on a device that holds zeros and whose writes all fail. -/
def failingFile : Fs :=
  { emptyFile with bdev := { size := 0, bytes := zeroBuf, writes := 0, writeFails := fun _ => true } }

theorem failingFile_size : diskSize (failingFile.disk 0) = 0 := emptyFile_size

theorem failingFile_writeOpen : WriteOpen failingFile 0 0 where
  slot := by decide
  inUse := rfl
  inode := rfl
  flags := by decide
  offset := show 0 < 2 ^ 64 by decide
  file := ⟨mapOk_empty _, ⟨emptyFile_cursor.fits, emptyFile_cursor.next, emptyFile_cursor.cursor⟩,
    fun _ ⟨_, _, hp⟩ => absurd hp (blockWalk_empty_ne _ _ _ _)⟩
  size := by
    rw [failingFile_size]
    exact Nat.zero_le _

theorem failingFile_telltale : Telltale failingFile 0 sevens 0 2 where
  clean := ⟨fun _ _ _ _ _ _ => rfl, by decide +kernel⟩
  data := by
    intro k _
    have hzero : fileByte failingFile.bdev.bytes (failingFile.disk 0) (0 + k) = 0 := by
      unfold fileByte
      split
      · rfl
      · rfl
    have hseven : sevens k = 7 := rfl
    rw [hzero, hseven]
    exact ⟨by decide, by decide⟩
  small := by decide

/-- Two bytes are written to the empty file; they are not where the device fails. -/
theorem crfsWrite_honest_two :
    WriteHonest emptyFile 0 0 sevens 2 0 zeroBuf ∧ ¬WriteHonest failingFile 0 0 sevens 2 0 zeroBuf := by
  refine ⟨(crfsWrite_honest emptyFile_writeOpen (reads_nothing emptyFile_size _) sevens 2 0).1
    emptyFile_writeSound, fun h => ?_⟩
  have hsound := (crfsWrite_honest failingFile_writeOpen (reads_nothing failingFile_size _) sevens 2 0).2
    (Or.inr failingFile_telltale) h
  obtain ⟨⟨a, f, halloc, hland, -⟩, -⟩ := hsound.lands (by decide)
  rw [(allocBlock_bdev (r := 0) halloc).1] at hland
  have hbyte : (0 : BitVec 8) = chunkBuf failingFile 0 (chunkAt 0 2 0) sevens 0 0 := hland rfl 0 (by decide)
  exact absurd hbyte (by decide +kernel)

/-- **The call returns 2, and reading returns two zeros.** -/
theorem crfsWrite_not_honest :
    ¬ ∀ (fs : Fs) (r : InodeRef) (fd : Int) (buf : Mem) (n uptimeMs : Nat) (old : Mem),
      WriteOpen fs r fd → ReadsAs fs r (diskSize (fs.disk r)) old → WriteHonest fs r fd buf n uptimeMs old := by
  intro h
  have hhonest := h failingFile 0 0 sevens 2 0 zeroBuf failingFile_writeOpen (reads_nothing failingFile_size _)
  have hbyte := failingFile_writeOpen.data_read (by decide +kernel) hhonest (k := 0) (by decide)
  exact absurd hbyte (by decide +kernel)

/-- **Nothing fails, and the new block is freed** with the one that it replaces. -/
theorem overwrite_frees_new : ¬NoneFreed shortFile (crfsWrite shortFile 1 nines 2 0).2 0 := by
  intro h
  have hget : inodeGetBlock (crfsWrite shortFile 1 nines 2 0).2 0 0 = 5 * segSize + blockSize := by decide +kernel
  rw [inodeGetBlock_eq] at hget
  have hw := blockWalk_mapAt (b := 0) (by decide) (by rw [hget]; decide)
  rw [hget] at hw
  have hmarked := h _ ⟨_, _, hw⟩ (Or.inl (by decide +kernel))
  exact absurd hmarked (by decide +kernel)

end Crimson.Crfs
