import Crimson.Pkg.Elf
import Mathlib.Data.List.Basic

/-!
# What the ELF loader reads and writes (`pkg_exec.c`)

A file that is loaded should hold its program headers and the contents of its segments, and
what is written for a segment should lie in the segment and in the pages that were mapped for
it. The loader tests neither for the wrap-around of a sum, nor the size of an entry, nor
`p_filesz` against `p_memsz`, and an unaligned segment may need a page more than it gets.
`elf_load_bounds_iff` says which of the files it takes are as they should be.
-/

set_option autoImplicit false

namespace Crimson.Pkg

/-- A byte that the event writes. -/
def LoadEvent.Writes (x : BitVec 64) : LoadEvent → Prop
  | .map _ _ _ => False
  | .copy dest _ n => ∃ j < n.toNat, x = dest + BitVec.ofNat 64 j
  | .zero dest n => ∃ j < n.toNat, x = dest + BitVec.ofNat 64 j

/-- A byte of the page that the event maps. -/
def LoadEvent.Maps (x : BitVec 64) : LoadEvent → Prop
  | .map vaddr _ _ => x.toNat / 4096 = vaddr.toNat / 4096
  | .copy _ _ _ => False
  | .zero _ _ => False

/-- The contents of the segment are in the file, and what is written for it is in the segment and
    in its pages. -/
structure SegmentLoad.InBounds (s : SegmentLoad) (fileSize : BitVec 64) : Prop where
  contents : s.ph.pOffset.toNat + s.ph.pFilesz.toNat ≤ fileSize.toNat
  mapped : ∀ x, (∃ e ∈ s.events, e.Writes x) → ∃ e ∈ s.events, e.Maps x
  inside : ∀ x, (∃ e ∈ s.events, e.Writes x) →
    s.ph.pVaddr.toNat ≤ x.toNat ∧ x.toNat < s.ph.pVaddr.toNat + s.ph.pMemsz.toNat

/-- The program headers and the segments are in bounds. -/
structure LoadInBounds (hdr : Elf64Header) (fileSize : BitVec 64) (segments : List SegmentLoad) : Prop where
  headers : ∀ i < hdr.ePhnum.toNat, hdr.ePhoff.toNat + i * hdr.ePhentsize.toNat + phdrSize ≤ fileSize.toNat
  segments : ∀ s ∈ segments, s.InBounds fileSize

/-- The last of the program headers ends in the file. -/
def TableFits (hdr : Elf64Header) (fileSize : BitVec 64) : Prop :=
  hdr.ePhnum = 0 ∨
    hdr.ePhoff.toNat + hdr.ePhnum.toNat * hdr.ePhentsize.toNat + phdrSize ≤ fileSize.toNat + hdr.ePhentsize.toNat

/-- None of the sums over a header wraps, the file has no more of the segment than there is room
    for, and the segment crosses no more pages than its size, rounded up, has. -/
structure LoadFits (ph : Elf64Phdr) : Prop where
  offset : ph.pOffset.toNat + ph.pFilesz.toNat < 2 ^ 64
  filesz : ph.pFilesz.toNat ≤ ph.pMemsz.toNat
  top : ph.pVaddr.toNat + ph.pMemsz.toNat ≤ 2 ^ 64
  rounding : ph.pMemsz.toNat + 4095 < 2 ^ 64
  pages : ph.pMemsz = 0 ∨ ph.pVaddr.toNat % 4096 + (ph.pMemsz.toNat - 1) % 4096 < 4096

/-- The condition on the whole file, for the headers that the loader reads. -/
def FileFits (image : Image) (fileSize : BitVec 64) : Prop :=
  let hdr := elfHeader image
  TableFits hdr fileSize ∧
    ∀ i < hdr.ePhnum.toNat, (phdrAt image (phdrOffset hdr (BitVec.ofNat 16 i))).pType = ptLoad →
      LoadFits (phdrAt image (phdrOffset hdr (BitVec.ofNat 16 i)))

variable {image : Image} {hdr : Elf64Header} {fileSize x : BitVec 64} {alloc : Nat → BitVec 64} {ph : Elf64Phdr}
  {n i k pg : Nat}

/-! ## One segment -/

theorem mapPages_writes : ¬∃ e ∈ (mapPages alloc ph n pg k).2, e.Writes x := by
  induction n generalizing pg k with
  | zero => simp [mapPages]
  | succ n ih =>
    rw [mapPages]
    dsimp only
    split
    · simp
    · simp only [List.exists_mem_cons_iff, not_or]
      exact ⟨id, ih⟩

/-- The pages that are mapped, when there is memory for all. -/
theorem mapPages_maps (h : (mapPages alloc ph n pg k).1 = true) :
    (∃ e ∈ (mapPages alloc ph n pg k).2, e.Maps x) ↔
      ∃ j < n, x.toNat / 4096 = (ph.pVaddr + BitVec.ofNat 64 (pg + j) * 4096).toNat / 4096 := by
  induction n generalizing pg k with
  | zero => simp [mapPages]
  | succ n ih =>
    rw [mapPages] at h ⊢
    dsimp only at h ⊢
    split at h
    · cases h
    · rename_i hpage
      have hrest := ih h
      have hshift (j : Nat) : pg + 1 + j = pg + (j + 1) := by omega
      simp only [hshift] at hrest
      rw [if_neg hpage, List.exists_mem_cons_iff, hrest, Nat.exists_lt_succ_left]
      rfl

theorem fillSegment_maps : ¬∃ e ∈ fillSegment ph, e.Maps x := by
  rintro ⟨e, he, hmaps⟩
  unfold fillSegment at he
  rcases List.mem_append.mp he with he | he
  · split at he
    · obtain rfl := List.mem_singleton.mp he
      exact hmaps
    · cases he
  · split at he
    · obtain rfl := List.mem_singleton.mp he
      exact hmaps
    · cases he

/-- What is written: as many bytes as the larger of the sizes says. -/
theorem fillSegment_writes :
    (∃ e ∈ fillSegment ph, e.Writes x) ↔
      ∃ j < max ph.pFilesz.toNat ph.pMemsz.toNat, x = ph.pVaddr + BitVec.ofNat 64 j := by
  have hcopy : (∃ e ∈ (if 0 < ph.pFilesz then [LoadEvent.copy ph.pVaddr ph.pOffset ph.pFilesz] else []), e.Writes x) ↔
      ∃ j < ph.pFilesz.toNat, x = ph.pVaddr + BitVec.ofNat 64 j := by
    split
    · simp [LoadEvent.Writes]
    · rename_i hempty
      have hzero : ph.pFilesz.toNat = 0 := by
        rw [BitVec.lt_def] at hempty
        simpa using hempty
      simp [hzero]
  have hclear : (∃ e ∈ (if ph.pFilesz < ph.pMemsz then [LoadEvent.zero (ph.pVaddr + ph.pFilesz) (ph.pMemsz - ph.pFilesz)]
        else []), e.Writes x) ↔
      ∃ j < ph.pMemsz.toNat, ph.pFilesz.toNat ≤ j ∧ x = ph.pVaddr + BitVec.ofNat 64 j := by
    split
    · rename_i hmore
      rw [BitVec.lt_def] at hmore
      have hsub : (ph.pMemsz - ph.pFilesz).toNat = ph.pMemsz.toNat - ph.pFilesz.toNat := by
        rw [BitVec.toNat_sub_of_le (BitVec.le_of_lt hmore)]
      have haddr (j : Nat) : ph.pVaddr + ph.pFilesz + BitVec.ofNat 64 j = ph.pVaddr + BitVec.ofNat 64 (ph.pFilesz.toNat + j) := by
        rw [BitVec.ofNat_add, BitVec.ofNat_toNat, BitVec.setWidth_eq, BitVec.add_assoc]
      simp only [List.mem_singleton, exists_eq_left, LoadEvent.Writes, hsub, haddr]
      constructor
      · rintro ⟨j, hj, rfl⟩
        exact ⟨ph.pFilesz.toNat + j, by omega, by omega, rfl⟩
      · rintro ⟨j, hj, hle, rfl⟩
        exact ⟨j - ph.pFilesz.toNat, by omega, by rw [Nat.add_sub_cancel' hle]⟩
    · rename_i hnone
      rw [BitVec.lt_def] at hnone
      refine iff_of_false (by simp) ?_
      rintro ⟨j, hj, hle, -⟩
      omega
  unfold fillSegment
  simp only [List.mem_append, or_and_right, exists_or, hcopy, hclear, lt_max_iff]
  constructor
  · rintro (hfile | ⟨j, hj, -, rfl⟩)
    · exact .inl hfile
    · exact .inr ⟨j, hj, rfl⟩
  · rintro (hfile | ⟨j, hj, rfl⟩)
    · exact .inl hfile
    · by_cases hlt : j < ph.pFilesz.toNat
      · exact .inl ⟨j, hlt, rfl⟩
      · exact .inr ⟨j, hj, by omega, rfl⟩

theorem toNat_numPages : (numPages ph).toNat = (ph.pMemsz.toNat + 4095) % 2 ^ 64 / 4096 := by
  simp [numPages, BitVec.toNat_udiv, BitVec.toNat_add]

theorem toNat_pageAddr (j : Nat) :
    (ph.pVaddr + BitVec.ofNat 64 j * 4096).toNat = (ph.pVaddr.toNat + j * 4096) % 2 ^ 64 := by
  simp [BitVec.toNat_add, BitVec.toNat_mul]

theorem toNat_byteAddr (j : Nat) : (ph.pVaddr + BitVec.ofNat 64 j).toNat = (ph.pVaddr.toNat + j) % 2 ^ 64 := by
  simp [BitVec.toNat_add]

/-- A `PT_LOAD` that was loaded passed the test, and got its pages. -/
theorem loadSegment_loaded (h : (loadSegment alloc fileSize ph k).1 = true) :
    (ph.pOffset.toNat + ph.pFilesz.toNat) % 2 ^ 64 ≤ fileSize.toNat ∧
      (mapPages alloc ph (numPages ph).toNat 0 k).1 = true ∧
      (loadSegment alloc fileSize ph k).2 = (mapPages alloc ph (numPages ph).toNat 0 k).2 ++ fillSegment ph := by
  unfold loadSegment at h ⊢
  split at h
  · cases h
  · rename_i htest
    dsimp only at h
    split at h
    · rename_i hmapped
      rw [if_neg htest]
      dsimp only
      rw [if_pos hmapped]
      refine ⟨?_, hmapped, rfl⟩
      rwa [BitVec.not_lt, BitVec.le_def, BitVec.toNat_add] at htest
    · rename_i hfailed
      exact absurd h hfailed

theorem loadSegment_writes (h : (loadSegment alloc fileSize ph k).1 = true) :
    (∃ e ∈ (loadSegment alloc fileSize ph k).2, e.Writes x) ↔
      ∃ j < max ph.pFilesz.toNat ph.pMemsz.toNat, x = ph.pVaddr + BitVec.ofNat 64 j := by
  rw [(loadSegment_loaded h).2.2, ← fillSegment_writes]
  constructor
  · rintro ⟨e, he, hw⟩
    rcases List.mem_append.mp he with hmap | hfill
    · exact absurd ⟨e, hmap, hw⟩ mapPages_writes
    · exact ⟨e, hfill, hw⟩
  · rintro ⟨e, he, hw⟩
    exact ⟨e, List.mem_append_right _ he, hw⟩

theorem loadSegment_maps (h : (loadSegment alloc fileSize ph k).1 = true) :
    (∃ e ∈ (loadSegment alloc fileSize ph k).2, e.Maps x) ↔
      ∃ pg < (ph.pMemsz.toNat + 4095) % 2 ^ 64 / 4096,
        x.toNat / 4096 = (ph.pVaddr.toNat + pg * 4096) % 2 ^ 64 / 4096 := by
  obtain ⟨-, hmapped, hevents⟩ := loadSegment_loaded h
  have hpages := mapPages_maps (x := x) hmapped
  simp only [Nat.zero_add, toNat_numPages, toNat_pageAddr] at hpages
  rw [hevents, ← hpages]
  constructor
  · rintro ⟨e, he, hm⟩
    rcases List.mem_append.mp he with hmap | hfill
    · rw [toNat_numPages] at hmap
      exact ⟨e, hmap, hm⟩
    · exact absurd ⟨e, hfill, hm⟩ fillSegment_maps
  · rintro ⟨e, he, hm⟩
    rw [toNat_numPages]
    exact ⟨e, List.mem_append_left _ he, hm⟩

/-- **A segment that was loaded is in bounds exactly if it fits.** -/
theorem loadSegment_inBounds_iff (h : (loadSegment alloc fileSize ph k).1 = true) :
    SegmentLoad.InBounds ⟨ph, (loadSegment alloc fileSize ph k).2⟩ fileSize ↔ LoadFits ph := by
  have htest := (loadSegment_loaded h).1
  have hsize := fileSize.isLt
  have hv := ph.pVaddr.isLt
  have hm := ph.pMemsz.isLt
  have hf := ph.pFilesz.isLt
  have ho := ph.pOffset.isLt
  constructor
  · rintro ⟨hcontents, hmapped, hinside⟩
    simp only [loadSegment_writes h, loadSegment_maps h] at hmapped hinside
    dsimp only at hcontents hinside
    have hwritten (j : Nat) (hj : j < max ph.pFilesz.toNat ph.pMemsz.toNat) :=
      hinside _ ⟨j, hj, rfl⟩
    have hpaged (j : Nat) (hj : j < max ph.pFilesz.toNat ph.pMemsz.toNat) :=
      hmapped _ ⟨j, hj, rfl⟩
    simp only [toNat_byteAddr] at hwritten hpaged
    have hfilesz : ph.pFilesz.toNat ≤ ph.pMemsz.toNat := by
      by_contra hmore
      have hbyte := hwritten ph.pMemsz.toNat (by omega)
      omega
    have htop : ph.pVaddr.toNat + ph.pMemsz.toNat ≤ 2 ^ 64 := by
      by_contra hmore
      have hbyte := hwritten (2 ^ 64 - ph.pVaddr.toNat) (by omega)
      omega
    have hrounding : ph.pMemsz.toNat + 4095 < 2 ^ 64 := by
      by_contra hmore
      obtain ⟨pg, hpg, -⟩ := hpaged 0 (by omega)
      omega
    refine ⟨by omega, hfilesz, htop, hrounding, ?_⟩
    by_cases hempty : ph.pMemsz = 0
    · exact .inl hempty
    · right
      have hpos : ph.pMemsz.toNat ≠ 0 := fun hzero => hempty (BitVec.eq_of_toNat_eq hzero)
      -- the last byte is in one of the pages
      obtain ⟨pg, hpg, hpage⟩ := hpaged (ph.pMemsz.toNat - 1) (by omega)
      omega
  · intro hfits
    obtain ⟨hoffset, hfilesz, htop, hrounding, hpages⟩ := hfits
    have hbyte (j : Nat) (hj : j < max ph.pFilesz.toNat ph.pMemsz.toNat) :
        (ph.pVaddr + BitVec.ofNat 64 j).toNat = ph.pVaddr.toNat + j := by
      rw [toNat_byteAddr]
      omega
    constructor
    · dsimp only
      omega
    · intro x hx
      obtain ⟨j, hj, rfl⟩ := (loadSegment_writes h).mp hx
      rw [loadSegment_maps h, hbyte j hj]
      have hpos : ph.pMemsz ≠ 0 := by
        intro hzero
        rw [hzero] at hj hfilesz
        simp at hj hfilesz
        omega
      have hlast := hpages.resolve_left hpos
      refine ⟨(ph.pVaddr.toNat + j) / 4096 - ph.pVaddr.toNat / 4096, ?_, ?_⟩
      · omega
      · omega
    · intro x hx
      obtain ⟨j, hj, rfl⟩ := (loadSegment_writes h).mp hx
      rw [hbyte j hj]
      dsimp only
      omega

/-! ## The file -/

/-- The segments of a file that was loaded, by the headers. -/
theorem loadLoop_inBounds_iff (h : (loadLoop image fileSize alloc hdr n i k).1 = true) :
    (∀ s ∈ (loadLoop image fileSize alloc hdr n i k).2, s.InBounds fileSize) ↔
      ∀ j < n, (phdrAt image (phdrOffset hdr (BitVec.ofNat 16 (i + j)))).pType = ptLoad →
        LoadFits (phdrAt image (phdrOffset hdr (BitVec.ofNat 16 (i + j)))) := by
  induction n generalizing i k with
  | zero => simp [loadLoop]
  | succ n ih =>
    have hshift (j : Nat) : i + 1 + j = i + (j + 1) := by omega
    rw [Nat.forall_lt_succ_left]
    simp only [Nat.add_zero]
    rw [loadLoop] at h ⊢
    dsimp only at h ⊢
    by_cases htype : (phdrAt image (phdrOffset hdr (BitVec.ofNat 16 i))).pType = ptLoad
    · rw [if_neg (not_not_intro htype)] at h ⊢
      split at h
      · rename_i hloaded
        have hrest := ih h
        simp only [hshift] at hrest
        rw [if_pos hloaded, List.forall_mem_cons, loadSegment_inBounds_iff hloaded, hrest]
        exact and_congr_left' ⟨fun hfits _ => hfits, fun hfits => hfits htype⟩
      · cases h
    · rw [if_pos htype] at h ⊢
      have hrest := ih h
      simp only [hshift] at hrest
      rw [hrest]
      exact (and_iff_right fun hload => absurd hload htype).symm

theorem tableFits_iff :
    (∀ i < hdr.ePhnum.toNat, hdr.ePhoff.toNat + i * hdr.ePhentsize.toNat + phdrSize ≤ fileSize.toNat) ↔
      TableFits hdr fileSize := by
  unfold TableFits
  by_cases hzero : hdr.ePhnum = 0
  · simp [hzero]
  · have hpos : hdr.ePhnum.toNat ≠ 0 := fun h => hzero (BitVec.eq_of_toNat_eq h)
    obtain ⟨n, hn⟩ := Nat.exists_eq_succ_of_ne_zero hpos
    rw [hn, or_iff_right hzero, Nat.succ_mul]
    constructor
    · intro h
      have hlast := h n (Nat.lt_succ_self n)
      omega
    · intro h i hi
      have hle : i * hdr.ePhentsize.toNat ≤ n * hdr.ePhentsize.toNat := Nat.mul_le_mul_right _ (by omega)
      omega

/-- **Which of the files that the loader takes are in bounds.** -/
theorem elf_load_bounds_iff (image : Image) (fileSize : BitVec 64) (alloc : Nat → BitVec 64)
    (h : (elfLoadSegments image fileSize alloc).1 = true) :
    LoadInBounds (elfHeader image) fileSize (elfLoadSegments image fileSize alloc).2.2 ↔ FileFits image fileSize := by
  unfold elfLoadSegments at h ⊢
  unfold FileFits
  dsimp only at h ⊢
  split at h
  · rename_i hvalid
    have hloop := loadLoop_inBounds_iff h
    simp only [Nat.zero_add] at hloop
    rw [if_pos hvalid, ← tableFits_iff, ← hloop]
    exact ⟨fun hb => ⟨hb.headers, hb.segments⟩, fun hb => ⟨hb.1, hb.2⟩⟩
  · cases h

/-- A file of one `PT_LOAD` at 64, with these fields. -/
def oneSegment (offset vaddr filesz memsz : Nat) : Image := fun off =>
  let m : Lib.Mem := fun _ => 0
  let m := Lib.storeBytes m 0 4 elfMagic.toNat
  let m := Lib.storeBytes m 4 1 2
  let m := Lib.storeBytes m 5 1 1
  let m := Lib.storeBytes m 16 2 etExec.toNat
  let m := Lib.storeBytes m 18 2 emAarch64.toNat
  let m := Lib.storeBytes m 32 8 64
  let m := Lib.storeBytes m 54 2 phdrSize
  let m := Lib.storeBytes m 56 2 1
  let m := Lib.storeBytes m 64 4 ptLoad.toNat
  let m := Lib.storeBytes m 72 8 offset
  let m := Lib.storeBytes m 80 8 vaddr
  let m := Lib.storeBytes m 96 8 filesz
  let m := Lib.storeBytes m 104 8 memsz
  m off.toNat

theorem elf_load_bounds_onePage :
    LoadInBounds (elfHeader (oneSegment 120 0x400000 8 4096)) 128
        (elfLoadSegments (oneSegment 120 0x400000 8 4096) 128 fun _ => 4096).2.2 ↔
      FileFits (oneSegment 120 0x400000 8 4096) 128 :=
  elf_load_bounds_iff (oneSegment 120 0x400000 8 4096) 128 (fun _ => 4096) (by decide +kernel)

/-- A segment of no bytes, of which the file has eight: they are written, and nothing is mapped. -/
theorem elf_load_unmapped :
    (elfLoadSegments (oneSegment 120 0x400000 8 0) 128 fun _ => 4096).1 = true ∧
      ¬LoadInBounds (elfHeader (oneSegment 120 0x400000 8 0)) 128
        (elfLoadSegments (oneSegment 120 0x400000 8 0) 128 fun _ => 4096).2.2 := by
  have hrun : (elfLoadSegments (oneSegment 120 0x400000 8 0) 128 fun _ => 4096) = (true, some 0,
      [⟨phdrAt (oneSegment 120 0x400000 8 0) 64, [.copy 0x400000 120 8]⟩]) := by
    decide +kernel
  rw [hrun]
  refine ⟨rfl, fun hbounds => ?_⟩
  obtain ⟨e, he, hmaps⟩ := (hbounds.segments _ (List.mem_singleton_self _)).mapped 0x400000
    ⟨_, List.mem_singleton_self _, 0, by decide, rfl⟩
  obtain rfl := List.mem_singleton.mp he
  exact hmaps

end Crimson.Pkg
