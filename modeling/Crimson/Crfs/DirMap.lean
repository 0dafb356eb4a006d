import Crimson.Crfs.Placement

/-!
# The root directory as a map

A directory should be a map from names to inode numbers: `crfs_dir_add` puts a name in, as long as
there is room for its record, and `crfs_dir_lookup` finds those names and no others.

The block that `crfs_format` writes for the root leaves no empty record: that of `..` reaches to
the end of the block, and `crfs_dir_add`, which has computed how long its record would be, never
takes it out of the slack of another. So nothing is ever added. And `crfs_dir_lookup` compares as
many bytes as the record's name has, so that `.` is found under every name that begins with a dot.
-/

set_option autoImplicit false

namespace Crimson.Crfs

open Crimson.Lib Crimson.Mm

/-- The arguments of a call of `crfs_dir_add`. -/
structure DirAdd where
  name : List (BitVec 8)
  inodeNo : Nat
  type : Nat
deriving DecidableEq, Repr

/-- The calls, in order, with what each of them returned. -/
def dirAddAll (r : InodeRef) : List DirAdd → Fs → Option (List (DirAdd × Bool) × Fs)
  | [], fs => some ([], fs)
  | add :: rest, fs =>
    match crfsDirAdd fs r add.name add.inodeNo add.type with
    | none => none
    | some (ok, fs) => (dirAddAll r rest fs).map fun x => ((add, ok) :: x.1, x.2)

/-! ## The property -/

/-- The length of a record, as `crfs_dir_add` computes it. -/
def recLen (name : List (BitVec 8)) : Nat := (8 + name.length + 1 + 3) / 4 * 4

/-- The names are pairwise distinct, and each is a string of 1 to 255 characters. -/
structure DistinctNames (adds : List DirAdd) : Prop where
  distinct : (adds.map DirAdd.name).Nodup
  lengths : ∀ add ∈ adds, 1 ≤ add.name.length ∧ add.name.length ≤ 255
  strings : ∀ add ∈ adds, 0 ∉ add.name

/-- The records fit in the block, with those of `.` and `..`. -/
def RecordsFit (adds : List DirAdd) : Prop :=
  recLen [dot] + recLen [dot, dot] + (adds.map fun add => recLen add.name).sum ≤ blockSize

/-- Each call succeeds while the records fit. -/
def AddsWhileFit (results : List (DirAdd × Bool)) : Prop :=
  ∀ front add ok rest, results = front ++ (add, ok) :: rest → RecordsFit (front.map Prod.fst ++ [add]) → ok = true

/-- The inode number of a name: that of the root, or the one it was added with. -/
def inodeOf (results : List (DirAdd × Bool)) (name : List (BitVec 8)) : Option Nat :=
  if name = [dot] ∨ name = [dot, dot] then some rootIno
  else (results.find? fun x => x.2 && x.1.name == name).map fun x => x.1.inodeNo

/-- **The directory is a map**, after the calls and as far as one name can tell. -/
def DirIsMap (fs : Fs) (r : InodeRef) (adds : List DirAdd) (name : List (BitVec 8)) : Prop :=
  ∃ results fs', dirAddAll r adds fs = some (results, fs') ∧ AddsWhileFit results ∧
    crfsDirLookup fs' r name = some (inodeOf results name)

/-! ## What is added -/

section

variable {fs : Fs} {r : InodeRef} {adds : List DirAdd} {name : List (BitVec 8)}

/-- There is no empty record in the block that `crfs_format` writes. -/
theorem emptyDirent_root : emptyDirent formatRootBlock (blockSize + 1) 0 = some none := by
  obtain ⟨fuel, hfuel⟩ : ∃ fuel, blockSize + 1 = fuel + 1 + 1 + 1 := ⟨4094, rfl⟩
  have hnext : 0 + direntRecLen formatRootBlock 0 = 12 := by decide +kernel
  have hlast : 12 + direntRecLen formatRootBlock 12 = blockSize := by decide +kernel
  rw [hfuel, emptyDirent, if_neg (by decide), if_neg (by decide), if_neg (by decide +kernel), if_neg (by decide),
    if_neg (by decide +kernel), hnext]
  rw [emptyDirent, if_neg (by decide), if_neg (by decide), if_neg (by decide +kernel), if_neg (by decide),
    if_neg (by decide +kernel), hlast]
  rw [emptyDirent, if_pos le_rfl]

/-- **`crfs_dir_add` in the root directory** fails. -/
theorem RootDir.add (h : RootDir fs r) (name : List (BitVec 8)) (inodeNo type : Nat) :
    crfsDirAdd fs r name inodeNo type = some (false, fs) := by
  obtain ⟨fuel, hfuel⟩ : ∃ fuel, 2 ^ 32 = fuel + 1 + 1 := ⟨2 ^ 32 - 2, by decide⟩
  have hblock : dirBlock fs r 0 = (inodeGetBlock fs r 0, fs) := by
    unfold dirBlock
    dsimp only
    rw [if_pos h.there]
  unfold crfsDirAdd
  rw [hfuel, addToBlocks, if_pos (Or.inr rfl), hblock]
  dsimp only
  rw [h.block, emptyDirent_root]
  dsimp only
  -- The loop goes to a second block only where the directory has one.
  rw [addToBlocks, h.blocks, if_neg (by decide)]

theorem RootDir.addAll (h : RootDir fs r) : dirAddAll r adds fs = some (adds.map fun add => (add, false), fs) := by
  induction adds with
  | nil => rfl
  | cons add rest ih =>
    rw [dirAddAll, h.add]
    dsimp only
    rw [ih]
    rfl

theorem recordsFit_singleton {add : DirAdd} (hlen : add.name.length ≤ 255) : RecordsFit [add] := by
  unfold RecordsFit recLen blockSize
  simp only [List.map_cons, List.map_nil, List.sum_cons, List.sum_nil, List.length_cons, List.length_nil]
  omega

/-- The first record always fits. -/
theorem addsWhileFit_failed (hadds : DistinctNames adds) :
    AddsWhileFit (adds.map fun add => (add, false)) ↔ adds = [] := by
  constructor
  · intro h
    cases adds with
    | nil => rfl
    | cons add rest =>
      have hfit := recordsFit_singleton (hadds.lengths add (List.mem_cons_self)).2
      exact absurd (h [] add false (rest.map fun add => (add, false)) rfl hfit) Bool.false_ne_true
  · rintro rfl front add ok rest heq
    exact absurd heq (by simp)

/-- Nothing was added, so only `.` and `..` are there. -/
theorem inodeOf_failed : inodeOf (adds.map fun add => (add, false)) name =
    if name = [dot] ∨ name = [dot, dot] then some rootIno else none := by
  unfold inodeOf
  have hnone : (adds.map fun add => (add, false)).find? (fun x => x.2 && x.1.name == name) = none := by
    simp
  rw [hnone]
  rfl

theorem lookup_root_iff : (some (if name.getD 0 0 = dot then some rootIno else none) : Option (Option Nat)) =
      some (if name = [dot] ∨ name = [dot, dot] then some rootIno else none) ↔
    name = [dot] ∨ name = [dot, dot] ∨ name.getD 0 0 ≠ dot := by
  constructor
  · intro h
    by_cases hdots : name = [dot] ∨ name = [dot, dot]
    · exact hdots.imp_right Or.inl
    · rw [if_neg hdots] at h
      refine Or.inr (Or.inr fun hfirst => ?_)
      rw [if_pos hfirst] at h
      cases h
  · rintro (rfl | rfl | hfirst)
    · rfl
    · rfl
    · rw [if_neg hfirst, if_neg]
      rintro (rfl | rfl)
      · exact hfirst rfl
      · exact hfirst rfl

end

/-- **When the root directory is a map**: as long as nothing is added to it, for `.`, `..` and the
    names that do not begin with a dot. -/
theorem dirIsMap_iff {fs : Fs} {r : InodeRef} {adds : List DirAdd} {name : List (BitVec 8)} (hroot : RootDir fs r)
    (hadds : DistinctNames adds) :
    DirIsMap fs r adds name ↔ adds = [] ∧ (name = [dot] ∨ name = [dot, dot] ∨ name.getD 0 0 ≠ dot) := by
  unfold DirIsMap
  rw [hroot.addAll]
  constructor
  · rintro ⟨results, fs', heq, hfit, hlook⟩
    cases heq
    rw [hroot.lookup, inodeOf_failed] at hlook
    exact ⟨(addsWhileFit_failed hadds).mp hfit, lookup_root_iff.mp hlook⟩
  · rintro ⟨hnone, hname⟩
    refine ⟨_, fs, rfl, (addsWhileFit_failed hadds).mpr hnone, ?_⟩
    rw [hroot.lookup, inodeOf_failed]
    exact lookup_root_iff.mpr hname

/-- The root directory of the device that knows it, as `crfs_iget` yields it. -/
theorem known_rootDir : ∃ r fs', crfsIget knownRun.fs rootIno = (some r, fs') ∧ RootDir fs' r := by
  have hformat : crfsFormat knownDevice [] zeroBuf 0 0 = some knownFormatted := eq_some_getD knownDevice (by decide +kernel)
  have hmount : crfsMount knownFormatted quiet 0 0 0 = some knownRun.fs := eq_some_getD noFs (by decide +kernel)
  obtain ⟨d, hformat', hd⟩ := @crfsFormat_spec knownDevice [] zeroBuf 0 0 (fun _ => rfl) (by decide)
  obtain rfl := Option.some.inj (hformat'.symm.trans hformat)
  have hyielded : RootYielded knownRun.fs 0 := by
    refine (rootYielded_iff (fun _ => rfl) (by decide) (by decide) hformat hmount).mpr ⟨rfl, ?_⟩
    exact holds_copied_apart (by unfold BlocksApart; decide) (holds_copied _ _ _)
  obtain ⟨r, fs', hget, hold, -⟩ := hyielded
  refine ⟨r, fs', hget, rootDir_of_holds hold fun x hx => ?_⟩
  have hkeep := crfsIget_bdev knownRun.fs rootIno
  rw [hget] at hkeep
  rw [show fs'.bdev = knownFormatted from hkeep.trans (crfsMount_spec hmount).bdev]
  exact hd.rootBlock x hx

/-- In it `..` is found as long as nothing is added. -/
theorem dirIsMap_dots : ∃ r fs', crfsIget knownRun.fs rootIno = (some r, fs') ∧ DirIsMap fs' r [] [dot, dot] := by
  obtain ⟨r, fs', hget, hroot⟩ := known_rootDir
  have hadds : DistinctNames [] := ⟨List.nodup_nil, by simp, by simp⟩
  exact ⟨r, fs', hget, (dirIsMap_iff hroot hadds).mpr ⟨rfl, Or.inr (Or.inl rfl)⟩⟩

/-- **Not a map**: the first file cannot be added to it, and `.x` is found in it without being added. -/
theorem dir_not_map : ∃ r fs', crfsIget knownRun.fs rootIno = (some r, fs') ∧ RootDir fs' r ∧
    DistinctNames [⟨[0x61], 2, typeReg⟩] ∧ ¬DirIsMap fs' r [⟨[0x61], 2, typeReg⟩] [0x61] ∧ ¬DirIsMap fs' r [] [dot, 0x78] := by
  obtain ⟨r, fs', hget, hroot⟩ := known_rootDir
  refine ⟨r, fs', hget, hroot, ⟨by simp, by simp, by simp⟩, ?_, ?_⟩
  · rintro ⟨results, fs₁, hadds, hfit, -⟩
    rw [hroot.addAll] at hadds
    cases hadds
    exact absurd (hfit [] _ false [] rfl (recordsFit_singleton (by decide))) Bool.false_ne_true
  · rintro ⟨results, fs₁, hadds, -, hlook⟩
    cases hadds
    rw [hroot.lookup] at hlook
    exact absurd hlook (by decide)

end Crimson.Crfs
