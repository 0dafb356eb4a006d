import Crimson.Lib.Run
import Crimson.Crfs.Format
import Crimson.Crfs.Stored
import Crimson.Crfs.Taken

/-!
# Files across mounts

A history of a device: files are opened, written and closed, and the file system is synced and
mounted again, after a restart of the machine or without one. `CrfsRun` remembers the inodes of
earlier mounts as they were when they went out of memory. What should hold is that no block that
`crfs_alloc_block` returns is one of theirs (`NoneReferenced`), and that this is so at every
step of every write (`WriteFresh`).

It holds as long as every block that a write overwrites is alone in its segment, and not in the
segment the cursor is in: the bit that is cleared for it speaks for the whole segment, and the
mount after that begins its search there again.
-/

set_option autoImplicit false

namespace Crimson.Crfs

open Crimson.Lib Crimson.Mm

/-- The file system, and the inodes of the mounts before this one. -/
structure CrfsRun where
  fs : Fs
  mounts : Nat
  saved : Nat → InodeRef → Mem

inductive CrfsOp where
  /-- The end of `crfs_open`; the source says which saved inode it is that is read. -/
  | open (inodeNo : Nat) (flags : BitVec 32) (source : Option (Nat × InodeRef))
  | write (fd : Int) (buf : Mem) (count uptimeMs : Nat)
  | close (fd : Int)
  | sync
  /-- `crfs_sync`, and `crfs_mount` of the same device, after a restart or without one. -/
  | mount (restart : Bool) (env : Surroundings) (uptimeMs : Nat)

/-- The inode `r` of mount `k`: the one in memory, if that is this mount. -/
def CrfsRun.image (s : CrfsRun) (k : Nat) (r : InodeRef) : Mem := if k = s.mounts then s.fs.disk r else s.saved k r

def CrfsRun.walk (s : CrfsRun) (k : Nat) (r : InodeRef) (p : List Nat) : Option MapTable :=
  blockWalk s.fs.bdev.bytes (s.image k r) p

/-- The run with another file system. -/
def CrfsRun.at (s : CrfsRun) (fs : Fs) : CrfsRun := { s with fs := fs }

/-- Some inode has the block in its map. -/
def Referenced (s : CrfsRun) (x : Nat) : Prop := ∃ k r p l, s.walk k r p = some (.block l x)

/-- The saved inodes, without the one that is in memory again. -/
def openSaved (s : CrfsRun) (inodeNo : Nat) : Option (Nat × InodeRef) → Nat → InodeRef → Mem
  | none => s.saved
  | some i =>
    if loads s.fs inodeNo then Function.update s.saved i.1 (Function.update (s.saved i.1) i.2 zeroBuf) else s.saved

def crfsStep (s : CrfsRun) : CrfsOp → Option CrfsRun
  | .open inodeNo flags source =>
    some { s with fs := (openInode s.fs inodeNo flags).2, saved := openSaved s inodeNo source }
  | .write fd buf count uptimeMs => some (s.at (crfsWrite s.fs fd buf count uptimeMs).2)
  | .close fd => some (s.at (crfsClose s.fs fd))
  | .sync => some (s.at (crfsSync s.fs))
  | .mount restart env uptimeMs =>
    (crfsMount (crfsSync s.fs).bdev env (if restart then 0 else s.fs.blockInSeg) (if restart then 0 else s.fs.currentSeg)
      uptimeMs).map fun fs => { fs := fs, mounts := s.mounts + 1, saved := s.image }

/-! ## The property -/

/-- No block that `crfs_alloc_block` returns from here on is in the map of an inode. -/
def NoneReferenced (s : CrfsRun) : Prop :=
  ∀ n new fs', allocs n s.fs = some (new, fs') → ∀ x ∈ new, ¬Referenced s x

/-- Nor is one that is allocated in the middle of a write. -/
def WriteFresh (s : CrfsRun) : CrfsOp → CrfsRun → Prop
  | .write fd buf count _, _ => ∀ r, writeTarget s.fs fd = some r →
    EachChunk (fun fs b => ∀ new fs', allocs (1 + missingTables fs.bdev.bytes (fs.disk r) b) fs = some (new, fs') →
      ∀ x ∈ new, ¬Referenced (s.at fs) x) r buf (s.fs.files fd.toNat).offset count count 0 s.fs
  | _, _ => True

/-! ## The guard -/

/-- The allocations for the block succeed; and the block it replaces, if there is one, is the
    only one of its segment that an inode refers to, and the cursor is elsewhere. -/
def ChunkGuard (s : CrfsRun) (r : InodeRef) (b : Nat) : Prop :=
  allocs (1 + missingTables s.fs.bdev.bytes (s.fs.disk r) b) s.fs ≠ none ∧
    (mapAt s.fs.bdev.bytes (s.fs.disk r) b ≠ 0 →
      segOf (mapAt s.fs.bdev.bytes (s.fs.disk r) b) ≠ s.fs.currentSeg ∧
        ∀ k r' p l x, s.walk k r' p = some (.block l x) → segOf x = segOf (mapAt s.fs.bdev.bytes (s.fs.disk r) b) →
          k = s.mounts ∧ r' = r ∧ p = blockPath b)

/-- An inode can be stored there without overwriting a table. -/
def StoreApart (s : CrfsRun) (addr : Nat) : Prop :=
  ∀ k r p l x, s.walk k r p = some (.block (l + 1) x) → addr + blockSize ≤ x ∨ x + blockSize ≤ addr

/-- The inode that is read has the map of the saved one, or an empty map. -/
def LoadGuard (s : CrfsRun) (inodeNo : Nat) (source : Option (Nat × InodeRef)) : Prop :=
  match source with
  | none => AgreeOn zeroBuf (readBlock s.fs (inodeAddr s.fs inodeNo) zeroBuf) 88 112
  | some i => i.1 ≠ s.mounts ∧ AgreeOn (s.saved i.1 i.2) (readBlock s.fs (inodeAddr s.fs inodeNo) zeroBuf) 88 112

def CrfsGuard (s : CrfsRun) : CrfsOp → Prop
  | .open inodeNo _ source =>
    StoreApart s (inodeAddr s.fs inodeNo) ∧ (loads s.fs inodeNo = true → LoadGuard s inodeNo source)
  | .write fd buf count _ => ∀ r, writeTarget s.fs fd = some r →
    (s.fs.files fd.toNat).offset + count ≤ mapBlocks * blockSize ∧
      EachChunk (fun fs b => ChunkGuard (s.at fs) r b) r buf (s.fs.files fd.toNat).offset count count 0 s.fs
  | .close fd => ∀ r, (s.fs.files fd.toNat).inode = some r → StoreApart s (inodeAddr s.fs (s.fs.inodes r).inodeNo)
  | _ => True

/-! ## The invariant -/

/-- **Every block in the map of an inode is taken**, and no two inodes share one. -/
structure CrfsOk (s : CrfsRun) : Prop where
  device : s.fs.Reliable
  allocator : AllocOk s.fs
  maps : ∀ k r, MapOk s.fs.bdev.bytes (s.image k r)
  taken : ∀ x, Referenced s x → Taken s.fs x
  data : ∀ x, Referenced s x → 3 ≤ segOf x ∧ segOf x < sbTotalSegs s.fs.sb
  apart : ∀ k r p l k' r' p' l' x, s.walk k r p = some (.block l x) → s.walk k' r' p' = some (.block l' x) →
    k = k' ∧ r = r'

section

variable {s s' : CrfsRun} {fs fs₁ fs' : Fs} {r : InodeRef} {b n : Nat} {new : List Nat}

/-- What is allocated is not referenced. -/
theorem CrfsOk.noneReferenced (h : CrfsOk s) : NoneReferenced s := fun _ _ _ hnew x hx hr =>
  (allocs_handed h.allocator hnew).fresh x hx (h.taken x hr)

/-- **The inodes are the same ones**, up to their place: the source of an inode is the one whose
    map it has, or it has an empty map. -/
theorem CrfsOk.transport (h : CrfsOk s) (hdev : s'.fs.Reliable) (halloc : AllocOk s'.fs)
    (htaken : ∀ x, Referenced s x → Taken s.fs x → Taken s'.fs x) (htotal : sbTotalSegs s'.fs.sb = sbTotalSegs s.fs.sb)
    (source : Nat → InodeRef → Option (Nat × InodeRef))
    (hempty : ∀ k r, source k r = none → ∀ p l x, s'.walk k r p ≠ some (.block l x))
    (hwalk : ∀ k r i, source k r = some i → ∀ p, s'.walk k r p = s.walk i.1 i.2 p)
    (hinj : ∀ k r k' r' i, source k r = some i → source k' r' = some i → k = k' ∧ r = r') : CrfsOk s' := by
  have hfrom : ∀ {k r p l x}, s'.walk k r p = some (.block l x) →
      ∃ i, source k r = some i ∧ s.walk i.1 i.2 p = some (.block l x) := by
    intro k r p l x hp
    cases hs : source k r with
    | none => exact absurd hp (hempty k r hs p l x)
    | some i => exact ⟨i, rfl, by rw [← hwalk k r i hs]; exact hp⟩
  have href : ∀ x, Referenced s' x → Referenced s x := by
    rintro x ⟨k, r, p, l, hp⟩
    obtain ⟨i, -, hi⟩ := hfrom hp
    exact ⟨i.1, i.2, p, l, hi⟩
  refine ⟨hdev, halloc, fun k r => ⟨fun p l a hp => ?_, fun p q l l' a a' hp hq => ?_⟩, fun x hx => ?_, fun x hx => ?_, ?_⟩
  · obtain ⟨i, -, hi⟩ := hfrom hp
    exact (h.maps i.1 i.2).aligned p l a hi
  · obtain ⟨i, hi, hp⟩ := hfrom hp
    obtain ⟨j, hj, hq⟩ := hfrom hq
    obtain rfl := Option.some.inj (hi.symm.trans hj)
    exact (h.maps i.1 i.2).apart p q l l' a a' hp hq
  · exact htaken x (href x hx) (h.taken x (href x hx))
  · rw [htotal]
    exact h.data x (href x hx)
  · intro k r p l k' r' p' l' x hp hp'
    obtain ⟨i, hi, hp⟩ := hfrom hp
    obtain ⟨j, hj, hp'⟩ := hfrom hp'
    have hij : i = j := Prod.ext_iff.mpr (h.apart _ _ _ _ _ _ _ _ _ hp hp')
    exact hinj k r k' r' i hi (hij ▸ hj)

/-- Every inode keeps its map. -/
theorem CrfsOk.same (h : CrfsOk s) (hdev : s'.fs.Reliable) (halloc : AllocOk s'.fs)
    (htaken : ∀ x, Taken s.fs x → Taken s'.fs x) (htotal : sbTotalSegs s'.fs.sb = sbTotalSegs s.fs.sb)
    (hwalk : ∀ k r p, s'.walk k r p = s.walk k r p) : CrfsOk s' :=
  h.transport hdev halloc (fun x _ => htaken x) htotal (fun k r => some (k, r)) (fun _ _ he => absurd he (by simp))
    (fun _ _ _ he p => by rw [← Option.some.inj he]; exact hwalk _ _ p)
    (fun _ _ _ _ _ he he' => Prod.mk.inj ((Option.some.inj he).trans (Option.some.inj he').symm))

/-! ## One step of a write -/

/-- A block that is allocated is fresh in the map of every inode. -/
theorem CrfsOk.fresh (h : CrfsOk s) (hnew : allocs n s.fs = some (new, fs')) {x : Nat} (hx : x ∈ new) :
    x ≠ 0 ∧ ∀ k r p l, s.walk k r p ≠ some (.block l x) := by
  have hhanded := allocs_handed h.allocator hnew
  refine ⟨?_, fun k r p l hp => hhanded.fresh x hx (h.taken x ⟨k, r, p, l, hp⟩)⟩
  rintro rfl
  exact absurd (hhanded.data 0 hx).1 (by decide)

theorem CrfsRun.image_mounts (s : CrfsRun) (r : InodeRef) : s.image s.mounts r = s.fs.disk r := if_pos rfl

theorem CrfsRun.walk_mounts (s : CrfsRun) (r : InodeRef) (p : List Nat) :
    s.walk s.mounts r p = blockWalk s.fs.bdev.bytes (s.fs.disk r) p := by
  unfold CrfsRun.walk
  rw [s.image_mounts]

theorem CrfsOk.map (h : CrfsOk s) (r : InodeRef) : MapOk s.fs.bdev.bytes (s.fs.disk r) := by
  have hmap := h.maps s.mounts r
  rw [s.image_mounts] at hmap
  exact hmap

theorem CrfsOk.blocksFresh (h : CrfsOk s) (hg : ChunkGuard s r b) : BlocksFresh s.fs r b := by
  obtain ⟨⟨new, fs'⟩, hnew⟩ := Option.ne_none_iff_exists'.mp hg.1
  refine ⟨new, fs', hnew, fun x hx => ?_⟩
  obtain ⟨hne, hunused⟩ := h.fresh hnew hx
  refine ⟨hne, fun p l hp => hunused s.mounts r p l ?_⟩
  rw [s.walk_mounts]
  exact hp

/-- What a step of a write does not write to: the blocks of the other inodes. -/
theorem CrfsOk.chunk_other {c : Chunk} {buf : Mem} {total a : Nat} {tables : List Nat} (h : CrfsOk s)
    (hw : ChunkWritten s.fs r c buf total a tables fs₁ fs') {k : Nat} {r' : InodeRef} (hne : ¬(k = s.mounts ∧ r' = r))
    (p : List Nat) : (s.at fs').walk k r' p = s.walk k r' p := by
  have himage : (s.at fs').image k r' = s.image k r' := by
    unfold CrfsRun.image
    show (if k = s.mounts then fs'.disk r' else s.saved k r') = _
    split
    case isTrue hk =>
      have hr : r' ≠ r := fun hr => hne ⟨hk, hr⟩
      exact congrArg Inode.disk (hw.same.others r' hr)
    case isFalse hk => rfl
  have hplaces := (allocs_places hw.allocs fun x hx => (h.fresh hw.allocs hx).1).1
  unfold CrfsRun.walk
  rw [himage]
  refine blockWalk_congr (fun _ => rfl) fun q l x hq y h₁ h₂ => ?_
  have hx := (h.maps k r').aligned q _ x hq
  refine hw.bytes y (fun q' l' x' hq' => ?_) ?_
  · have hx' := hw.ok.aligned q' _ x' hq'
    have hxx : x ≠ x' := by
      rintro rfl
      rcases hw.refs q' _ x hq' with hnew | ⟨-, hold⟩
      · exact (h.fresh hw.allocs hnew).2 k r' q _ hq
      · rw [← s.walk_mounts] at hold
        exact hne (h.apart k r' q _ s.mounts r q' _ x hq hold)
    have := blocks_apart hx hx' hxx
    omega
  · have hxa : x ≠ a := by
      rintro rfl
      exact (h.fresh hw.allocs List.mem_cons_self).2 k r' q _ hq
    have := blocks_apart hx (hplaces a List.mem_cons_self).2 hxa
    omega

/-- Every block that is referenced after the step is new, or was referenced before, and is not
    the one that was replaced. -/
theorem CrfsOk.chunk_refs {c : Chunk} {buf : Mem} {total a : Nat} {tables : List Nat} (h : CrfsOk s)
    (hw : ChunkWritten s.fs r c buf total a tables fs₁ fs') {k : Nat} {r' : InodeRef} {p : List Nat} {l x : Nat}
    (hp : (s.at fs').walk k r' p = some (.block l x)) :
    (k = s.mounts ∧ r' = r ∧ x ∈ a :: tables) ∨
      (s.walk k r' p = some (.block l x) ∧ ¬(k = s.mounts ∧ r' = r ∧ p = blockPath c.blockNo)) := by
  by_cases hne : k = s.mounts ∧ r' = r
  · obtain ⟨rfl, rfl⟩ := hne
    rcases hw.refs p l x (((s.at fs').walk_mounts r' p).symm.trans hp) with hnew | ⟨hpath, hold⟩
    · exact Or.inl ⟨rfl, rfl, hnew⟩
    · rw [← s.walk_mounts] at hold
      exact Or.inr ⟨hold, fun hc => hpath hc.2.2⟩
  · rw [h.chunk_other hw hne] at hp
    exact Or.inr ⟨hp, fun hc => hne ⟨hc.1, hc.2.1⟩⟩

/-- **One step of a write.** -/
theorem CrfsOk.chunk {c : Chunk} {buf : Mem} {total a : Nat} {tables : List Nat} (h : CrfsOk s)
    (hb : c.blockNo < mapBlocks) (hg : ChunkGuard s r c.blockNo)
    (hw : ChunkWritten s.fs r c buf total a tables fs₁ fs') : CrfsOk (s.at fs') := by
  have hhanded := allocs_handed h.allocator hw.allocs
  have hold := hg.2
  have halloc := hw.alloc
  -- The segment of the block replaced is marked, so it is not one that was just taken.
  have hmarked : mapAt s.fs.bdev.bytes (s.fs.disk r) c.blockNo ≠ 0 →
      segBit s.fs.segBitmap (segOf (mapAt s.fs.bdev.bytes (s.fs.disk r) c.blockNo)) = true := fun hne => by
    refine (h.taken _ ⟨s.mounts, r, blockPath c.blockNo, 0, ?_⟩).1
    rw [s.walk_mounts]
    exact blockWalk_mapAt hb hne
  generalize mapAt s.fs.bdev.bytes (s.fs.disk r) c.blockNo = old at hold halloc hmarked
  have hok : AllocOk (freeOld fs₁ old) := by
    refine freeOld_ok hhanded.ok fun hne hcur => ?_
    rcases hhanded.cursor with hsame | hclear
    · exact (hold hne).1 (hcur.trans hsame)
    · rw [← hcur, hmarked hne] at hclear
      exact Bool.noConfusion hclear
  have htotal : sbTotalSegs fs'.sb = sbTotalSegs s.fs.sb := by
    rw [halloc]
    exact (freeOld_total old).trans hhanded.total
  have htaken : ∀ k r' p l x, (s.at fs').walk k r' p = some (.block l x) → Taken fs' x := by
    intro k r' p l x hp
    rw [halloc]
    show Taken (freeOld fs₁ old) x
    rcases h.chunk_refs hw hp with ⟨-, -, hnew⟩ | ⟨hp, hpath⟩
    · refine taken_freeOld (hhanded.taken x hnew) fun hne hseg => ?_
      rcases hhanded.seg x hnew with hcur | hclear
      · exact (hold hne).1 (hseg.symm.trans hcur)
      · rw [hseg, hmarked hne] at hclear
        exact Bool.noConfusion hclear
    · refine taken_freeOld (hhanded.keeps x (h.taken x ⟨k, r', p, l, hp⟩)) fun hne hseg => ?_
      exact hpath ((hold hne).2 k r' p l x hp hseg)
  refine ⟨hw.same.reliable h.device, ?_, fun k r' => ?_, ?_, ?_, ?_⟩
  · show AllocOk fs'
    rw [halloc]
    exact ⟨hok.fits, hok.next, hok.cursor⟩
  · by_cases hne : k = s.mounts ∧ r' = r
    · obtain ⟨rfl, rfl⟩ := hne
      show MapOk fs'.bdev.bytes ((s.at fs').image (s.at fs').mounts r')
      rw [(s.at fs').image_mounts]
      exact hw.ok
    · exact (h.maps k r').congr fun q => h.chunk_other hw hne q
  · rintro x ⟨k, r', p, l, hp⟩
    exact htaken k r' p l x hp
  · rintro x ⟨k, r', p, l, hp⟩
    show 3 ≤ segOf x ∧ segOf x < sbTotalSegs fs'.sb
    rw [htotal]
    rcases h.chunk_refs hw hp with ⟨-, -, hnew⟩ | ⟨hp, -⟩
    · exact hhanded.data x hnew
    · exact h.data x ⟨k, r', p, l, hp⟩
  · intro k r' p l k' r'' p' l' x hp hp'
    rcases h.chunk_refs hw hp with ⟨hk, hr, hnew⟩ | ⟨hp, -⟩
    · rcases h.chunk_refs hw hp' with ⟨hk', hr', -⟩ | ⟨hp', -⟩
      · exact ⟨hk.trans hk'.symm, hr.trans hr'.symm⟩
      · exact absurd hp' ((h.fresh hw.allocs hnew).2 k' r'' p' l')
    · rcases h.chunk_refs hw hp' with ⟨-, -, hnew⟩ | ⟨hp', -⟩
      · exact absurd hp ((h.fresh hw.allocs hnew).2 k r' p l)
      · exact h.apart k r' p l k' r'' p' l' x hp hp'

/-- **The loop of a write.** -/
theorem CrfsOk.loop {buf : Mem} {offset count : Nat} (hfit : offset + count ≤ mapBlocks * blockSize) {fuel total : Nat}
    (h : CrfsOk s) (hg : EachChunk (fun fs b => ChunkGuard (s.at fs) r b) r buf offset count fuel total s.fs) :
    CrfsOk (s.at (writeLoop r buf offset count fuel total s.fs)) ∧
      EachChunk (fun fs b => ∀ new fs', allocs (1 + missingTables fs.bdev.bytes (fs.disk r) b) fs = some (new, fs') →
        ∀ x ∈ new, ¬Referenced (s.at fs) x) r buf offset count fuel total s.fs := by
  induction fuel generalizing s total with
  | zero => exact ⟨h, trivial⟩
  | succ fuel ih =>
    rw [writeLoop]
    by_cases ht : total < count
    · rw [if_pos ht]
      obtain ⟨hchunk, hrest⟩ := hg ht
      have hb : (chunkAt offset count total).blockNo < mapBlocks := by
        rw [chunkAt_eq hfit ht]
        exact Nat.div_lt_of_lt_mul (by rw [Nat.mul_comm]; omega)
      obtain ⟨a, tables, fs₁, hw⟩ := @writeChunk_spec s.fs r (chunkAt offset count total) buf total h.device (h.map r) hb
        (h.blocksFresh hchunk)
      obtain ⟨hok, hfresh⟩ := ih (h.chunk hb hchunk hw) hrest
      exact ⟨hok, fun _ => ⟨fun new fs' hnew x hx => h.noneReferenced _ new fs' hnew x hx, hfresh⟩⟩
    · rw [if_neg ht]
      exact ⟨h, fun hlt => absurd hlt ht⟩

end

/-! ## The other calls -/

section

variable {s : CrfsRun} {fs' : Fs} {area : Nat → Prop} {addr : Nat}

/-- Maps are read from the inodes and the tables. -/
theorem walk_same (hbytes : ∀ k r p l x, s.walk k r p = some (.block (l + 1) x) →
      AgreeOn s.fs.bdev.bytes fs'.bdev.bytes x blockSize)
    (hdisks : ∀ r, AgreeOn (s.fs.disk r) (fs'.disk r) 88 112) (k : Nat) (r : InodeRef) (p : List Nat) :
    (s.at fs').walk k r p = s.walk k r p := by
  have himage : AgreeOn (s.image k r) ((s.at fs').image k r) 88 112 := by
    unfold CrfsRun.image
    show AgreeOn _ (if k = s.mounts then fs'.disk r else s.saved k r) 88 112
    split
    · exact hdisks r
    · exact fun _ _ _ => rfl
  exact blockWalk_congr (mapEntry_inode_congr himage) fun p l x hp => hbytes k r p l x hp

theorem CrfsOk.stored (h : CrfsOk s) (hs : Stored s.fs area fs')
    (hapart : ∀ k r p l x, s.walk k r p = some (.block (l + 1) x) → ∀ y, InBlock x y → ¬area y) : CrfsOk (s.at fs') := by
  have halloc := hs.alloc
  refine h.same ?_ ?_ ?_ ?_ (walk_same (fun k r p l x hp y h₁ h₂ => hs.bytes y (hapart k r p l x hp y ⟨h₁, h₂⟩)) hs.disks)
  · intro n
    show fs'.bdev.writeFails n = false
    rw [hs.writeFails]
    exact h.device n
  · show AllocOk fs'
    rw [halloc]
    exact ⟨h.allocator.fits, h.allocator.next, h.allocator.cursor⟩
  · intro x hx
    show Taken fs' x
    rw [halloc]
    exact hx
  · show sbTotalSegs fs'.sb = _
    rw [halloc]
    rfl

theorem StoreApart.inBlock (h : StoreApart s addr) :
    ∀ k r p l x, s.walk k r p = some (.block (l + 1) x) → ∀ y, InBlock x y → ¬InBlock addr y := by
  intro k r p l x hp y hy ha
  have := h k r p l x hp
  unfold InBlock at hy ha
  omega

theorem CrfsOk.write (h : CrfsOk s) {fd : Int} {buf : Mem} {count : Nat} (uptimeMs : Nat)
    (hg : ∀ r, writeTarget s.fs fd = some r → (s.fs.files fd.toNat).offset + count ≤ mapBlocks * blockSize ∧
      EachChunk (fun fs b => ChunkGuard (s.at fs) r b) r buf (s.fs.files fd.toNat).offset count count 0 s.fs) :
    CrfsOk (s.at (crfsWrite s.fs fd buf count uptimeMs).2) ∧ ∀ r, writeTarget s.fs fd = some r →
      EachChunk (fun fs b => ∀ new fs', allocs (1 + missingTables fs.bdev.bytes (fs.disk r) b) fs = some (new, fs') →
        ∀ x ∈ new, ¬Referenced (s.at fs) x) r buf (s.fs.files fd.toNat).offset count count 0 s.fs := by
  rw [crfsWrite_eq]
  cases ht : writeTarget s.fs fd with
  | none => exact ⟨h, fun r hr => absurd hr (by simp)⟩
  | some r =>
    obtain ⟨hfit, hchunks⟩ := hg r ht
    obtain ⟨hok, hfresh⟩ := h.loop hfit hchunks
    refine ⟨hok.stored (@stored_writeFinish _ (fun _ => False) r fd.toNat count uptimeMs) fun _ _ _ _ _ _ _ _ => id, ?_⟩
    intro r' hr
    obtain rfl := Option.some.inj hr
    exact hfresh

end

/-! ## Syncing and mounting -/

section

variable {s : CrfsRun} {fs : Fs}

theorem CrfsOk.sync (h : CrfsOk s) : CrfsOk (s.at (crfsSync s.fs)) := by
  have hs := crfsSync_spec h.device
  generalize crfsSync s.fs = fs' at hs
  have hlen := bitmapLen_le h.allocator.fits
  refine h.same hs.reliable ?_ ?_ hs.total (walk_same (fun k r p l x hp y h₁ h₂ => ?_) fun r => ?_)
  · show AllocOk fs'
    refine ⟨by rw [hs.total]; exact h.allocator.fits, by rw [hs.nextSeg]; exact h.allocator.next, ?_⟩
    rw [hs.currentSeg, hs.total, hs.segBitmap]
    exact h.allocator.cursor
  · intro x hx
    show segBit fs'.segBitmap (segOf x) = true ∧ (segOf x = fs'.currentSeg → placeOf x < fs'.blockInSeg)
    rw [hs.segBitmap, hs.currentSeg, hs.blockInSeg]
    exact hx
  · -- Tables are beyond the bitmap.
    have hdata := (h.data x ⟨k, r, p, l + 1, hp⟩).1
    have hfar : 3 * segSize ≤ x := by
      unfold segOf at hdata
      exact (Nat.le_div_iff_mul_le (by decide)).mp hdata
    have hblock : blockSize ≤ segSize := by decide
    rw [hs.bytes, copyBytes_of_notMem (by omega), copyBytes_of_notMem (by omega)]
  · unfold Fs.disk
    rw [hs.inodes]
    exact fun _ _ _ => rfl

/-- **Mounting what was synced**: the bitmap is what it was. -/
theorem synced_bit {fs' : Fs} (hs : Synced fs fs') (hfits : sbTotalSegs fs.sb ≤ 8 * segSize) {env : Surroundings}
    {blockInSeg currentSeg : Nat} {fs'' : Fs} (hm : Mounted fs'.bdev env blockInSeg currentSeg fs'') :
    sbTotalSegs fs''.sb = sbTotalSegs fs.sb ∧
      ∀ i, i < sbTotalSegs fs.sb → segBit fs.segBitmap i = true → segBit fs''.segBitmap i = true := by
  have hlen := bitmapLen_eq hfits
  have hle := bitmapLen_le hfits
  have htotal : load64 fs'.bdev.bytes 20 = sbTotalSegs fs.sb := by
    rw [hs.bytes, load64_copyBytes_disjoint (Or.inl (by decide)), ← hs.total]
    exact (@load64_copyBytes fs.bdev.bytes 0 0 blockSize fs'.sb 20 (by decide)).trans (by rw [Nat.zero_add]; rfl)
  refine ⟨hm.total.trans htotal, fun i hi hbit => ?_⟩
  rw [hm.bits, htotal]
  have hin : i / 8 < bitmapLen (sbTotalSegs fs.sb) := by omega
  have hsame : segBit (copyBytes env.heap 0 fs'.bdev.bytes (2 * segSize) (bitmapLen (sbTotalSegs fs.sb))) i =
      segBit fs.segBitmap i := by
    refine segBit_congr ?_
    rw [copyBytes_of_mem (Nat.zero_le _) (by omega), Nat.sub_zero, hs.bytes,
      copyBytes_of_mem (Nat.le_add_right _ _) (by omega), Nat.add_sub_cancel_left, Nat.zero_add]
  rw [hsame, hbit]
  rfl

theorem CrfsOk.mount (h : CrfsOk s) {restart : Bool} {env : Surroundings} {uptimeMs : Nat}
    (hm : crfsMount (crfsSync s.fs).bdev env (if restart then 0 else s.fs.blockInSeg)
      (if restart then 0 else s.fs.currentSeg) uptimeMs = some fs) :
    CrfsOk { fs := fs, mounts := s.mounts + 1, saved := s.image } := by
  have hsync := h.sync
  have hs := crfsSync_spec h.device
  have hm := crfsMount_spec hm
  obtain ⟨htotal, hbits⟩ := synced_bit hs h.allocator.fits hm
  have himage : ∀ k r, (s.at (crfsSync s.fs)).image k r = s.image k r := by
    intro k r
    unfold CrfsRun.image
    show (if k = s.mounts then ((crfsSync s.fs).inodes r).disk else s.saved k r) = _
    rw [hs.inodes]
    rfl
  -- a mount in the same kernel keeps the cursor, and after a restart there is none
  have hcursor : fs.currentSeg ≠ 0 → fs.currentSeg = s.fs.currentSeg ∧ fs.blockInSeg = s.fs.blockInSeg := by
    rw [hm.currentSeg, hm.blockInSeg]
    cases restart with
    | false => exact fun _ => ⟨rfl, rfl⟩
    | true => exact fun hne => absurd rfl hne
  have hdisk : ∀ r, fs.disk r = zeroBuf := by
    intro r
    unfold Fs.disk
    rw [hm.inodes]
    rfl
  have hbytes : fs.bdev.bytes = (crfsSync s.fs).bdev.bytes := by rw [hm.bdev]
  refine hsync.transport ?_ ⟨?_, ?_, fun hne => ?_⟩ (fun x hx ht => ⟨?_, fun hcur => ?_⟩) (htotal.trans hs.total.symm)
    (fun k r => if k = s.mounts + 1 then none else some (k, r)) ?_ ?_ ?_
  · intro n
    show fs.bdev.writeFails n = false
    rw [hm.bdev]
    exact hs.reliable n
  · rw [htotal]
    exact h.allocator.fits
  · rw [hm.nextSeg]
    decide
  · obtain ⟨hcur, -⟩ := hcursor hne
    rw [hcur] at hne ⊢
    obtain ⟨hlow, hlt, hmark⟩ := h.allocator.cursor hne
    exact ⟨hlow, by rw [htotal]; exact hlt, hbits _ hlt hmark⟩
  · have hdata := (hsync.data x hx).2
    have htaken := ht.1
    have hlt : segOf x < sbTotalSegs s.fs.sb := by
      rw [← hs.total]
      exact hdata
    refine hbits _ hlt ?_
    rw [← hs.segBitmap]
    exact htaken
  · have hlow := (hsync.data x hx).1
    have hcur : segOf x = fs.currentSeg := hcur
    obtain ⟨hsame, hblock⟩ := hcursor (by omega)
    show placeOf x < fs.blockInSeg
    rw [hblock, ← hs.blockInSeg]
    exact ht.2 (hcur.trans (hsame.trans hs.currentSeg.symm))
  · -- the inodes of the new mount are empty, so no path leads to a block
    intro k r hk p l x hp
    have hk : k = s.mounts + 1 := by
      by_contra hne
      rw [if_neg hne] at hk
      exact absurd hk (by simp)
    subst hk
    have hzero : ({ fs := fs, mounts := s.mounts + 1, saved := s.image } : CrfsRun).image (s.mounts + 1) r = zeroBuf :=
      (if_pos rfl).trans (hdisk r)
    unfold CrfsRun.walk at hp
    rw [hzero] at hp
    exact blockWalk_empty_ne _ p l x hp
  · -- those of the mounts before it walk as they did, since no byte of the device changes
    intro k r i hi p
    by_cases hk : k = s.mounts + 1
    · rw [if_pos hk] at hi
      exact absurd hi (by simp)
    · rw [if_neg hk] at hi
      obtain rfl := Option.some.inj hi
      have hsaved : ({ fs := fs, mounts := s.mounts + 1, saved := s.image } : CrfsRun).image k r = s.image k r := if_neg hk
      unfold CrfsRun.walk
      rw [hsaved, himage]
      show blockWalk fs.bdev.bytes _ p = _
      rw [hbytes]
      rfl
  · intro k r k' r' i hi hi'
    split at hi
    · exact absurd hi (by simp)
    · split at hi'
      · exact absurd hi' (by simp)
      · exact Prod.mk.inj ((Option.some.inj hi).trans (Option.some.inj hi').symm)

end

/-! ## Opening -/

section

variable {s : CrfsRun} {inodeNo : Nat} {flags : BitVec 32}

/-- Where a loaded inode comes from. -/
def loadSource (s : CrfsRun) (source : Option (Nat × InodeRef)) (k : Nat) (r : InodeRef) : Option (Nat × InodeRef) :=
  if k = s.mounts ∧ r = s.fs.inodeCount then source else if source = some (k, r) then none else some (k, r)

theorem loadSource_eq_some {source : Option (Nat × InodeRef)} {j : Nat × InodeRef} {k : Nat} {r : InodeRef}
    (h : loadSource s source k r = some j) :
    (k = s.mounts ∧ r = s.fs.inodeCount) ∧ source = some j ∨
      ¬(k = s.mounts ∧ r = s.fs.inodeCount) ∧ source ≠ some (k, r) ∧ j = (k, r) := by
  unfold loadSource at h
  split at h
  case isTrue hpos => exact Or.inl ⟨hpos, h⟩
  case isFalse hpos =>
    split at h
    case isTrue hsrc => exact absurd h (by simp)
    case isFalse hsrc => exact Or.inr ⟨hpos, hsrc, (Option.some.inj h).symm⟩

theorem loadSource_eq_none {source : Option (Nat × InodeRef)} {k : Nat} {r : InodeRef}
    (h : loadSource s source k r = none) :
    (k = s.mounts ∧ r = s.fs.inodeCount) ∧ source = none ∨
      ¬(k = s.mounts ∧ r = s.fs.inodeCount) ∧ source = some (k, r) := by
  unfold loadSource at h
  split at h
  case isTrue hpos => exact Or.inl ⟨hpos, h⟩
  case isFalse hpos =>
    split at h
    case isTrue hsrc => exact Or.inr ⟨hpos, hsrc⟩
    case isFalse hsrc => exact absurd h (by simp)

/-- No two inodes have the same source. -/
theorem loadSource_inj {source : Option (Nat × InodeRef)} {k k' : Nat} {r r' : InodeRef} {j : Nat × InodeRef}
    (h : loadSource s source k r = some j) (h' : loadSource s source k' r' = some j) : k = k' ∧ r = r' := by
  obtain ⟨hpos, hsrc⟩ | ⟨-, hne, rfl⟩ := loadSource_eq_some h
  · obtain ⟨hpos', -⟩ | ⟨-, hne, rfl⟩ := loadSource_eq_some h'
    · exact ⟨hpos.1.trans hpos'.1.symm, hpos.2.trans hpos'.2.symm⟩
    · exact absurd hsrc hne
  · obtain ⟨-, hsrc⟩ | ⟨-, -, heq⟩ := loadSource_eq_some h'
    · exact absurd hsrc hne
    · exact Prod.mk.inj heq

/-- The saved inodes that are left. -/
theorem openSaved_of_ne {source : Option (Nat × InodeRef)} (hloads : loads s.fs inodeNo = true) {k : Nat} {r : InodeRef}
    (hne : source ≠ some (k, r)) : openSaved s inodeNo source k r = s.saved k r := by
  unfold openSaved
  cases source with
  | none => rfl
  | some i =>
    dsimp only
    rw [if_pos hloads]
    by_cases hk : k = i.1
    · have hr : r ≠ i.2 := fun hr => hne (by rw [hk, hr])
      rw [hk, Function.update_self, Function.update_of_ne hr]
    · rw [Function.update_of_ne hk]

theorem openSaved_moved (hloads : loads s.fs inodeNo = true) (k : Nat) (r : InodeRef) :
    openSaved s inodeNo (some (k, r)) k r = zeroBuf := by
  unfold openSaved
  dsimp only
  rw [if_pos hloads, Function.update_self, Function.update_self]

/-- What has no source is empty. -/
theorem Loaded.walk_none {source : Option (Nat × InodeRef)} {fs' : Fs} (hl : Loaded s.fs inodeNo fs')
    (hloads : loads s.fs inodeNo = true) (hg : LoadGuard s inodeNo source) {k : Nat} {r : InodeRef}
    (hs : loadSource s source k r = none) (p : List Nat) (l x : Nat) :
    CrfsRun.walk { s with fs := fs', saved := openSaved s inodeNo source } k r p ≠ some (.block l x) := by
  intro hp
  unfold CrfsRun.walk CrfsRun.image at hp
  dsimp only at hp
  obtain ⟨⟨rfl, rfl⟩, rfl⟩ | ⟨-, rfl⟩ := loadSource_eq_none hs
  · rw [if_pos rfl, hl.disk_new, blockWalk_disk_congr hg] at hp
    exact blockWalk_empty_ne _ p l x hp
  · rw [if_neg hg.1, openSaved_moved hloads] at hp
    exact blockWalk_empty_ne _ p l x hp

/-- Everything else has the map of its source. -/
theorem Loaded.walk_some {source : Option (Nat × InodeRef)} {fs' : Fs} (hl : Loaded s.fs inodeNo fs')
    (hloads : loads s.fs inodeNo = true) (hg : LoadGuard s inodeNo source) {k : Nat} {r : InodeRef} {i : Nat × InodeRef}
    (hs : loadSource s source k r = some i) (p : List Nat) :
    CrfsRun.walk { s with fs := fs', saved := openSaved s inodeNo source } k r p = s.walk i.1 i.2 p := by
  have hbdev := hl.bdev
  unfold CrfsRun.walk CrfsRun.image
  dsimp only
  rw [hbdev]
  obtain ⟨⟨rfl, rfl⟩, rfl⟩ | ⟨hpos, hsrc, rfl⟩ := loadSource_eq_some hs
  · rw [if_pos rfl, hl.disk_new, if_neg hg.1]
    exact blockWalk_disk_congr hg.2 p
  · dsimp only
    by_cases hk : k = s.mounts
    · rw [if_pos hk, if_pos hk, hl.disk_old fun hr => hpos ⟨hk, hr⟩]
    · rw [if_neg hk, if_neg hk, openSaved_of_ne hloads hsrc]

/-- An inode read from the device has the map of the saved one, which is not saved any more. -/
theorem CrfsOk.load (h : CrfsOk s) {source : Option (Nat × InodeRef)} {fs' : Fs} (hloads : loads s.fs inodeNo = true)
    (hg : LoadGuard s inodeNo source) (hl : Loaded s.fs inodeNo fs') :
    CrfsOk { s with fs := fs', saved := openSaved s inodeNo source } ∧
      ∀ addr, StoreApart s addr → StoreApart { s with fs := fs', saved := openSaved s inodeNo source } addr := by
  have halloc := hl.alloc
  have hbdev := hl.bdev
  refine ⟨h.transport ?_ ?_ (fun x _ hx => ?_) ?_ (loadSource s source)
    (fun k r hs => hl.walk_none hloads hg hs) (fun k r i hs => hl.walk_some hloads hg hs)
    (fun k r k' r' i hs hs' => loadSource_inj hs hs'), ?_⟩
  · intro n
    show fs'.bdev.writeFails n = false
    rw [hbdev]
    exact h.device n
  · show AllocOk fs'
    rw [halloc]
    exact ⟨h.allocator.fits, h.allocator.next, h.allocator.cursor⟩
  · show Taken fs' x
    rw [halloc]
    exact hx
  · show sbTotalSegs fs'.sb = _
    rw [halloc]
    rfl
  · intro addr hapart k r p l x hp
    cases hs : loadSource s source k r with
    | none => exact absurd hp (hl.walk_none hloads hg hs p (l + 1) x)
    | some i =>
      rw [hl.walk_some hloads hg hs] at hp
      exact hapart i.1 i.2 p l x hp

theorem CrfsOk.open (h : CrfsOk s) {source : Option (Nat × InodeRef)} (hapart : StoreApart s (inodeAddr s.fs inodeNo))
    (hg : loads s.fs inodeNo = true → LoadGuard s inodeNo source) :
    CrfsOk { s with fs := (openInode s.fs inodeNo flags).2, saved := openSaved s inodeNo source } := by
  have hkept : loads s.fs inodeNo = false → openSaved s inodeNo source = s.saved := by
    intro hloads
    unfold openSaved
    cases source with
    | none => rfl
    | some i =>
      dsimp only
      rw [hloads]
      rfl
  rw [openInode_eq]
  rcases crfsIget_cases s.fs inodeNo with ⟨hloads, r, -, hno, hget⟩ | ⟨hloads, hget⟩ | ⟨hloads, fs', hget, hl⟩
  · rw [hget, hkept hloads]
    dsimp only
    have href := @stored_modInode s.fs (InBlock (inodeAddr s.fs inodeNo)) r
      (fun i => { i with refCount := (i.refCount + 1) % 2 ^ 32 }) (fun _ _ _ _ => rfl) fun _ => rfl
    generalize s.fs.modInode r (fun i => { i with refCount := (i.refCount + 1) % 2 ^ 32 }) = fs₁ at href
    have htail := @stored_openTail fs₁ r flags
    have haddr : inodeAddr fs₁ (fs₁.inodes r).inodeNo = inodeAddr s.fs inodeNo := by
      rw [href.inodeNos, hno]
      have halloc := href.alloc
      unfold inodeAddr
      rw [halloc]
      rfl
    rw [haddr] at htail
    exact h.stored (href.trans htail) hapart.inBlock
  · rw [hget, hkept hloads]
    exact h.stored ⟨rfl, rfl, fun _ _ => rfl, fun _ _ _ _ => rfl, fun _ => rfl⟩ hapart.inBlock
  · rw [hget]
    dsimp only
    obtain ⟨hok, hstore⟩ := h.load hloads (hg hloads) hl
    refine @CrfsOk.stored { s with fs := fs', saved := openSaved s inodeNo source } _ _ hok stored_openTail ?_
    have haddr : inodeAddr fs' (fs'.inodes s.fs.inodeCount).inodeNo = inodeAddr s.fs inodeNo := by
      have halloc := hl.alloc
      rw [hl.inodes, Function.update_self]
      unfold inodeAddr
      rw [halloc]
      rfl
    rw [haddr]
    exact (hstore _ hapart).inBlock

end

/-! ## Whole histories -/

/-- **One step of the history** keeps the invariant, if it meets the guard. -/
theorem crfsOk_step (s : CrfsRun) (op : CrfsOp) (s' : CrfsRun) (h : CrfsOk s) (hg : CrfsGuard s op)
    (hs : crfsStep s op = some s') : CrfsOk s' ∧ WriteFresh s op s' := by
  cases op with
  | «open» inodeNo flags source =>
    rw [← Option.some.inj hs]
    exact ⟨h.open hg.1 hg.2, trivial⟩
  | write fd buf count uptimeMs =>
    rw [← Option.some.inj hs]
    exact h.write uptimeMs hg
  | close fd =>
    rw [← Option.some.inj hs]
    refine ⟨?_, trivial⟩
    cases hr : (s.fs.files fd.toNat).inode with
    | none => exact h.stored (@crfsClose_none s.fs (fun _ => False) fd hr) fun _ _ _ _ _ _ _ _ => id
    | some r => exact h.stored (stored_crfsClose hr) (hg r hr).inBlock
  | sync =>
    rw [← Option.some.inj hs]
    exact ⟨h.sync, trivial⟩
  | mount restart env uptimeMs =>
    rw [crfsStep] at hs
    obtain ⟨fs, hm, rfl⟩ := Option.map_eq_some_iff.mp hs
    exact ⟨h.mount hm, trivial⟩

/-- A history begins where no inode has a block. -/
theorem crfsOk_empty {fs : Fs} (hdev : fs.Reliable) (halloc : AllocOk fs) (hdisk : ∀ r, fs.disk r = zeroBuf) :
    CrfsOk ⟨fs, 0, fun _ _ => zeroBuf⟩ := by
  have himage : ∀ k r, CrfsRun.image ⟨fs, 0, fun _ _ => zeroBuf⟩ k r = zeroBuf := by
    intro k r
    unfold CrfsRun.image
    dsimp only
    rw [hdisk, ite_self]
  have hwalk : ∀ k r p l x, CrfsRun.walk ⟨fs, 0, fun _ _ => zeroBuf⟩ k r p ≠ some (.block l x) := by
    intro k r p l x hp
    unfold CrfsRun.walk at hp
    rw [himage] at hp
    exact blockWalk_empty_ne _ p l x hp
  refine ⟨hdev, halloc, fun k r => ?_, ?_, ?_, fun k r p l k' r' p' l' x hp => absurd hp (hwalk k r p l x)⟩
  · rw [himage]
    exact mapOk_empty _
  · rintro x ⟨k, r, p, l, hp⟩
    exact absurd hp (hwalk k r p l x)
  · rintro x ⟨k, r, p, l, hp⟩
    exact absurd hp (hwalk k r p l x)

/-- A file system that was just formatted and mounted has no files. -/
theorem crfsOk_mounted {bdev d : Device} {env : Surroundings} {name : List (BitVec 8)} {uuid : Mem}
    {uptimeMs rootMs mountMs : Nat} {fs : Fs} (hdev : bdev.Reliable) (hsize : 16 ≤ bdev.size / segSize)
    (hfits : bdev.size / segSize ≤ 8 * segSize) (hformat : crfsFormat bdev name uuid uptimeMs rootMs = some d)
    (hmount : crfsMount d env 0 0 mountMs = some fs) : CrfsOk ⟨fs, 0, fun _ _ => zeroBuf⟩ := by
  have hlt : bdev.size < 2 ^ 64 := by
    unfold segSize at hfits
    omega
  obtain ⟨d', fs', hformat', hmount', hd, hm, htotal, -⟩ := @format_mount bdev env name uuid uptimeMs rootMs 0 0 mountMs
    hdev hsize hlt
  obtain rfl := Option.some.inj (hformat'.symm.trans hformat)
  obtain rfl := Option.some.inj (hmount'.symm.trans hmount)
  refine crfsOk_empty (fun n => ?_) ⟨by rw [htotal]; exact hfits, by rw [hm.nextSeg]; decide, fun hne => absurd hm.currentSeg hne⟩
    fun r => ?_
  · rw [hm.bdev]
    exact hd.reliable n
  · unfold Fs.disk
    rw [hm.inodes]
    rfl

/-- **What lasts from mount to mount**: after `crfs_format` the bitmap is right exactly where its
    place on the device was clear before; and in every history whose steps meet the guard, no
    block that is allocated is one that an inode refers to. -/
theorem crfs_persistence (bdev d : Device) (env : Surroundings) (name : List (BitVec 8)) (uuid : Mem)
    (uptimeMs rootMs blockInSeg currentSeg mountMs : Nat) (fs : Fs) (s : CrfsRun) (ops : List CrfsOp) :
    (bdev.Reliable → 16 ≤ bdev.size / segSize → bdev.size < 2 ^ 64 →
      crfsFormat bdev name uuid uptimeMs rootMs = some d → crfsMount d env blockInSeg currentSeg mountMs = some fs →
        ((∀ seg, seg < sbTotalSegs fs.sb → segBit fs.segBitmap seg = decide (seg < 5)) ↔
          bitmapLen (bdev.size / segSize) ≤ segSize ∧ ∀ seg, 5 ≤ seg → seg < bdev.size / segSize →
            segBit (copyBytes env.heap 0 bdev.bytes (2 * segSize) (bitmapLen (bdev.size / segSize))) seg = false)) ∧
      (CrfsOk s → Meets crfsStep CrfsGuard s ops →
        Always crfsStep NoneReferenced s ops ∧ AlwaysStep crfsStep WriteFresh s ops) := by
  constructor
  · intro hdev hsize hlt hformat hmount
    exact bitmap_mounted_iff hdev hsize hlt hformat hmount
  · intro h hg
    have hok := always_of_meets (fun s op s' h hg hs => (crfsOk_step s op s' h hg hs).1) h hg
    exact ⟨hok.mono fun s h => h.noneReferenced,
      alwaysStep_of_always (fun s op s' h hg hs => (crfsOk_step s op s' h hg hs).2) hok hg⟩

/-- An empty file on a fresh file system, as a history begins. -/
def emptyRun : CrfsRun := ⟨emptyFile, 0, fun _ _ => zeroBuf⟩

theorem emptyRun_ok : CrfsOk emptyRun := by
  have hcursor : emptyFile.currentSeg = 0 := by decide +kernel
  exact crfsOk_empty emptyFile_reliable ⟨by decide +kernel, by decide +kernel, fun hne => absurd hcursor hne⟩ fun _ => rfl

/-- On the blank device the bitmap is right; and a file is written and the device mounted again. -/
theorem crfs_persistence_blank :
    (∀ seg, seg < 16 → segBit ((mounted formattedDevice).getD noFs).segBitmap seg = decide (seg < 5)) ∧
      Always crfsStep NoneReferenced emptyRun [.write 0 sevens 2 0, .mount true quiet 0] := by
  constructor
  · have htotal : sbTotalSegs ((mounted formattedDevice).getD noFs).sb = 16 := by decide +kernel
    rw [← htotal]
    refine ((crfs_persistence blankDevice _ quiet [] zeroBuf 0 0 0 0 0 _ emptyRun []).1 (fun _ => rfl) (by decide)
      (by decide) blank_mounted.1 blank_mounted.2).mpr ⟨by decide +kernel, fun seg _ _ => ?_⟩
    refine (segBit_congr (m := zeroBuf) ?_).trans (by rw [segBit_eq]; exact BitVec.getLsbD_zero)
    unfold copyBytes
    split <;> rfl
  · refine ((crfs_persistence blankDevice blankDevice quiet [] zeroBuf 0 0 0 0 0 noFs emptyRun _).2 emptyRun_ok ?_).1
    intro s₁ _
    refine ⟨fun r hr => ?_, fun s₂ _ => ⟨trivial, trivial⟩⟩
    obtain rfl : (0 : InodeRef) = r := Option.some.inj hr
    refine ⟨by decide +kernel, fun _ => ⟨⟨?_, ?_⟩, fun h => absurd h (by decide)⟩⟩
    · obtain ⟨fs, hfs⟩ := emptyFile_alloc
      exact Option.ne_none_iff_exists'.mpr ⟨_, hfs⟩
    · intro hne
      exact absurd (show mapAt _ zeroBuf 0 = 0 by decide +kernel) hne

/-- A device that was in use before: bit 5 is set where the bitmap will be. -/
def usedDevice : Device := { blankDevice with bytes := fun x => if x = 2 * segSize then 0x20#8 else 0 }

/-- **It does not last**: the bitmap of a device that was in use before has a segment too many; and
    after a byte is written over, and the machine restarted, the block it is in is allocated. -/
theorem crfs_forgets :
    (∃ seg, seg < 16 ∧
      segBit (((crfsFormat usedDevice [] zeroBuf 0 0).bind mounted).getD noFs).segBitmap seg ≠ decide (seg < 5)) ∧
      ¬Always crfsStep NoneReferenced emptyRun [.write 0 sevens 1 0, .write 1 nines 1 0, .mount true quiet 0] := by
  constructor
  · exact ⟨5, by decide, by decide +kernel⟩
  · intro h
    have hrun := eq_some_getD emptyRun
      (o := run crfsStep emptyRun [.write 0 sevens 1 0, .write 1 nines 1 0, .mount true quiet 0]) (by decide +kernel)
    have hlast := h.last hrun
    generalize hs : (run crfsStep emptyRun [.write 0 sevens 1 0, .write 1 nines 1 0, .mount true quiet 0]).getD emptyRun = s
      at hlast
    have hsome := eq_some_getD ([], noFs) (o := allocs 2 s.fs) (by rw [← hs]; decide +kernel)
    refine hlast 2 _ _ hsome (5 * segSize + blockSize) (by rw [← hs]; decide +kernel) ⟨0, 0, [0], 0, ?_⟩
    rw [← hs]
    decide +kernel

end Crimson.Crfs
