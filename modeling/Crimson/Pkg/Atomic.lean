import Crimson.Lib.Overlay
import Crimson.Pkg.Install

/-!
# What an installation leaves behind when something fails

`pkg_install` with the files it writes. Every read of the package may deliver less than there is
(`ExtractEnv.file`, by round), every allocation and every opening of an output may fail, and `fs_write`
may write less than it is given (`OutputEnv`). `pkg_extract` looks at none of these results but at the
length of an entry, and it returns 0 however much of the package it has written; the allocation of the
database entry comes after the extraction, and when it fails the files stay.

`install_atomic_iff` says when the installation is all or nothing all the same.
-/

set_option autoImplicit false

namespace Crimson.Pkg

open Crimson.Lib Crimson.Str

/-! ## Files -/

/-- The files, by what their paths denote. -/
abbrev FileStore := List (List UInt8) → Option (List UInt8)

/-- What a round of the loop writes: the entry it has read, the path, and the bytes that get there. -/
structure Written where
  entry : List UInt8
  path : List UInt8
  bytes : List UInt8
deriving DecidableEq

/-- A file opened to be written and created, and not cut off (`FS_O_WRONLY | FS_O_CREAT`). -/
def FileStore.write (fs : FileStore) (w : Written) : FileStore :=
  Function.update fs (resolve w.path) (some (overlay ((fs (resolve w.path)).getD []) w.bytes))

/-- What the rounds meet at their outputs: what the memory `kmalloc` gives holds, whether the output can be
    opened, and how many bytes `fs_write` writes at most. -/
structure OutputEnv where
  heap : Nat → Nat → UInt8
  opens : Nat → Bool
  written : Nat → Nat

/-! ## Extraction -/

/-- The bytes `fs_write` is given: those of the data that the read has delivered, and behind them what is in memory. -/
def fdata (env : ExtractEnv) (out : OutputEnv) (i pos : Nat) (fe : List UInt8) (count : Nat) : List UInt8 :=
  let got := ((env.file i).drop (pos + fileEntrySize)).take (feCompressedSize fe)
  (List.range count).map fun k => got.getD k (out.heap i k)

/-- The output of a round, if there is memory for the data and it can be opened. -/
def writeFile (env : ExtractEnv) (out : OutputEnv) (hdr : Header) (dest : List UInt8) (i pos : Nat) (fe : List UInt8) :
    Option Written :=
  if env.allocOk i && out.opens i then
    let f := extractFile hdr dest fe (env.above i)
    some ⟨fe, f.path, (fdata env out i pos fe f.count).take (out.written i)⟩
  else none

/-- The loop of `pkg_extract`, with `k` rounds left: what each round writes. -/
def writeLoop (env : ExtractEnv) (out : OutputEnv) (hdr : Header) (dest : List UInt8) :
    Nat → Nat → Nat → List (Option Written)
  | 0, _, _ => []
  | k + 1, i, pos =>
    match readEntry (env.file i) pos with
    | none => []
    | some fe => writeFile env out hdr dest i pos fe :: writeLoop env out hdr dest k (i + 1) (nextPos env i pos fe)

/-- `pkg_extract`, the result and what the rounds write; none when the dependencies overrun the array. -/
def pkgExtractFiles (env : ExtractEnv) (out : OutputEnv) (dest : List UInt8) (hdr : Header) :
    Option (Int × List (Option Written)) :=
  if env.opens = false then some (-1, [])
  else if depsOverrun (env.file 0) hdr ≠ [] then none
  else some (0, writeLoop env out hdr dest (extractRounds hdr) 0 (firstPos env hdr))

/-! ## Installation -/

/-- What `pkg_install` does before it touches a file: the header, if every check is passed. -/
def installChecks (s : PkgState) (env : InstallEnv) : Option Header :=
  match pkgReadHeader env.file with
  | none => none
  | some hdr =>
    if ((pkgDbFind s (hdr.name env.above)).any fun e => 0 ≤ pkgVersionCompare e.version (hdr.version env.above)) = true
    then none
    else if pkgVerifySignature env.signatureOk hdr < 0 then none
    else if env.hashOk = false then none
    else if pkgInstallDeps hdr < 0 then none
    else some hdr

/-- `install_path`. -/
def installPath (s : PkgState) (env : InstallEnv) (hdr : Header) : List UInt8 :=
  joinPath 256 s.installRoot (hdr.name env.above)

/-- The result of a call, the database and the files after it, and what the rounds of the extraction wrote. -/
structure Outcome where
  result : Int
  db : PkgState
  files : FileStore
  rounds : List (Option Written)

/-- `pkg_install` with the files. What `pkg_db_save` then writes is left out: its result is not looked at. -/
def pkgInstallFiles (s : PkgState) (fs : FileStore) (env : InstallEnv) (out : OutputEnv) : Option Outcome :=
  match installChecks s env with
  | none => some ⟨-1, s, fs, []⟩
  | some hdr =>
    match pkgExtractFiles env.extract out (installPath s env hdr) hdr with
    | none => none
    | some (r, rounds) =>
      let fs := (rounds.filterMap id).foldl FileStore.write fs
      if r < 0 then some ⟨-1, s, fs, rounds⟩
      else
        match env.block with
        | none => some ⟨-1, s, fs, rounds⟩
        | some block =>
          let entry := newEntry s env hdr (hdr.name env.above) block
          let s := if (pkgDbFind s (hdr.name env.above)).isSome then pkgDbRemove s (hdr.name env.above) else s
          some ⟨0, pkgDbAdd s entry, fs, rounds⟩

/-- The result and the database are those of `pkgInstall`. -/
theorem pkgInstallFiles_db {s : PkgState} {fs : FileStore} {env : InstallEnv} {out : OutputEnv}
    (hfits : ∀ hdr, pkgReadHeader env.file = some hdr → depsOverrun (env.extract.file 0) hdr = []) :
    (pkgInstallFiles s fs env out).map (fun o => (o.result, o.db)) = pkgInstall s env := by
  unfold pkgInstallFiles pkgInstall installChecks
  cases hread : pkgReadHeader env.file with
  | none => rfl
  | some hdr =>
    have hnil := hfits hdr hread
    cases hopens : env.extract.opens with
    | false =>
      simp only [pkgExtract, pkgExtractFiles, hopens, if_true]
      split_ifs <;> simp_all
    | true =>
      simp only [pkgExtract, pkgExtractFiles, hopens, hnil, smashHeader_nil]
      cases env.block <;> split_ifs <;> simp_all

/-! ## The package -/

/-- Where entry `i` of the package lies. -/
def packagePos (pkg : List UInt8) (hdr : Header) : Nat → Nat
  | 0 => headerSize + hdr.depCount * dependencySize
  | i + 1 =>
    let pos := packagePos pkg hdr i
    pos + fileEntrySize + feCompressedSize ((pkg.drop pos).take fileEntrySize)

def packageEntry (pkg : List UInt8) (hdr : Header) (i : Nat) : List UInt8 :=
  (pkg.drop (packagePos pkg hdr i)).take fileEntrySize

/-- The data of file `i`, as they are in the package. -/
def packageData (pkg : List UInt8) (hdr : Header) (i : Nat) : List UInt8 :=
  (pkg.drop (packagePos pkg hdr i + fileEntrySize)).take (feCompressedSize (packageEntry pkg hdr i))

/-- The file is compressed in the package. -/
def Packed (hdr : Header) (fe : List UInt8) : Prop := hdr.compression = pkgCompLz4 ∧ feCompressedSize fe < feSize fe

instance (hdr : Header) (fe : List UInt8) : Decidable (Packed hdr fe) := inferInstanceAs (Decidable (_ ∧ _))

/-- The bytes of file `i`; `unpack` is the decompression. -/
def packageFile (unpack : List UInt8 → List UInt8) (pkg : List UInt8) (hdr : Header) (i : Nat) : List UInt8 :=
  if Packed hdr (packageEntry pkg hdr i) then unpack (packageData pkg hdr i)
  else (packageData pkg hdr i).take (feSize (packageEntry pkg hdr i))

/-! ## The law -/

/-- File `i` of the package has been written completely: its round has read its entry, and has written its bytes, as
    many as the entry says, to its path. -/
def FileComplete (unpack : List UInt8 → List UInt8) (pkg dest : List UInt8) (env : ExtractEnv) (hdr : Header)
    (rounds : List (Option Written)) (i : Nat) : Prop :=
  rounds[i]? = some (some ⟨packageEntry pkg hdr i, joinPath 512 dest (fePath (packageEntry pkg hdr i) (env.above i)),
      packageFile unpack pkg hdr i⟩) ∧
    (packageFile unpack pkg hdr i).length = feSize (packageEntry pkg hdr i)

/-- A call that returns -1 has changed neither the list of the installed packages nor a file in the directory of the
    package; one that returns 0 has written every file completely. -/
structure AllOrNothing (unpack : List UInt8 → List UInt8) (pkg : List UInt8) (s : PkgState) (fs : FileStore)
    (env : InstallEnv) (o : Outcome) : Prop where
  failed : o.result = -1 → o.db.installed = s.installed ∧
    ∀ hdr, pkgReadHeader env.file = some hdr → ∀ file, Below file (resolve (installPath s env hdr)) → o.files file = fs file
  done : o.result = 0 → ∀ hdr, pkgReadHeader env.file = some hdr → ∀ i < hdr.fileCount,
    FileComplete unpack pkg (installPath s env hdr) env.extract hdr o.rounds i

def InstallAtomic (unpack : List UInt8 → List UInt8) (pkg : List UInt8) (s : PkgState) (fs : FileStore)
    (env : InstallEnv) (out : OutputEnv) : Prop :=
  ∃ o, pkgInstallFiles s fs env out = some o ∧ AllOrNothing unpack pkg s fs env o

/-! ## The condition -/

/-- What round `i` writes, where the loop gets so far. -/
def roundWrite (env : ExtractEnv) (out : OutputEnv) (hdr : Header) (dest : List UInt8) (i : Nat) : Option Written :=
  (entryPos env hdr i).bind fun pos => (readEntry (env.file i) pos).bind (writeFile env out hdr dest i pos)

/-- What the rounds write to a file, in turn. -/
def writesTo (env : ExtractEnv) (out : OutputEnv) (hdr : Header) (dest : List UInt8) (file : List (List UInt8)) :
    List (List UInt8) :=
  (((List.range (extractRounds hdr)).filterMap (roundWrite env out hdr dest)).filter
    fun w => resolve w.path = file).map Written.bytes

/-- No file in the directory is created, and the last byte written to each place of one is the byte that was there. -/
def Restores (fs : FileStore) (env : ExtractEnv) (out : OutputEnv) (hdr : Header) (dest : List UInt8) : Prop :=
  ∀ file, Below file (resolve dest) → writesTo env out hdr dest file = [] ∨ ∃ old, fs file = some old ∧
    ∀ k, lastWritten (writesTo env out hdr dest file) k = none ∨
      lastWritten (writesTo env out hdr dest file) k = old[k]?

/-- Nothing fails in round `i`: it reads entry `i` of the package, there is memory, which holds the bytes of the file
    after the read, the file is not compressed, and its output is opened and written whole. -/
structure RoundWhole (pkg : List UInt8) (env : ExtractEnv) (out : OutputEnv) (hdr : Header) (i : Nat) : Prop where
  counted : i < pkgMaxFiles
  delivered : ∃ pos, entryPos env hdr i = some pos ∧ readEntry (env.file i) pos = some (packageEntry pkg hdr i) ∧
    fdata env out i pos (packageEntry pkg hdr i) (feSize (packageEntry pkg hdr i)) =
      (packageData pkg hdr i).take (feSize (packageEntry pkg hdr i))
  memory : env.allocOk i = true
  opens : out.opens i = true
  plain : ¬Packed hdr (packageEntry pkg hdr i)
  written : feSize (packageEntry pkg hdr i) ≤ out.written i

/-- The condition, for a package that passes the checks and can be opened again. -/
structure InstallGuard (pkg : List UInt8) (s : PkgState) (fs : FileStore) (env : InstallEnv) (out : OutputEnv)
    (hdr : Header) : Prop where
  fits : depsOverrun (env.extract.file 0) hdr = []
  failed : env.block = none → Restores fs env.extract out hdr (installPath s env hdr)
  done : env.block ≠ none → ∀ i < hdr.fileCount, RoundWhole pkg env.extract out hdr i

/-! ## The rounds -/

variable {env : ExtractEnv} {out : OutputEnv} {hdr : Header} {dest : List UInt8}

theorem roundWrite_of_pos {i pos : Nat} {fe : List UInt8} (hpos : entryPos env hdr i = some pos)
    (hfe : readEntry (env.file i) pos = some fe) :
    roundWrite env out hdr dest i = writeFile env out hdr dest i pos fe := by
  rw [roundWrite, hpos, Option.bind_some, hfe, Option.bind_some]

theorem roundWrite_of_none {i : Nat} (h : entryAt env hdr i = none) : roundWrite env out hdr dest i = none := by
  unfold roundWrite
  unfold entryAt at h
  cases hpos : entryPos env hdr i with
  | none => rfl
  | some pos =>
    rw [hpos, Option.bind_some] at h
    rw [Option.bind_some, h, Option.bind_none]

/-- **The loop writes, in turn, what the rounds write**, up to the first entry that is cut short. -/
theorem getElem?_writeLoop (k : Nat) : ∀ {i pos : Nat}, entryPos env hdr i = some pos → ∀ j,
    (writeLoop env out hdr dest k i pos)[j]? =
      if j < k then (entryAt env hdr (i + j)).map fun _ => roundWrite env out hdr dest (i + j) else none := by
  induction k with
  | zero => simp [writeLoop]
  | succ k ih =>
    intro i pos hpos j
    have hat := entryAt_of_pos hpos
    unfold writeLoop
    cases hfe : readEntry (env.file i) pos with
    | none =>
      rw [entryAt_none (hat.trans hfe)]
      simp
    | some fe =>
      cases j with
      | zero => simp [hat, hfe, roundWrite_of_pos hpos hfe]
      | succ j =>
        have hshift : i + (j + 1) = i + 1 + j := by omega
        rw [List.getElem?_cons_succ, ih (entryPos_succ hpos hfe), hshift]
        simp only [Nat.add_lt_add_iff_right]

theorem filterMap_writeLoop (k : Nat) : ∀ {i pos : Nat}, entryPos env hdr i = some pos →
    (writeLoop env out hdr dest k i pos).filterMap id = (List.range' i k).filterMap (roundWrite env out hdr dest) := by
  induction k with
  | zero => simp [writeLoop]
  | succ k ih =>
    intro i pos hpos
    have hat := entryAt_of_pos hpos
    unfold writeLoop
    rw [List.range'_succ]
    cases hfe : readEntry (env.file i) pos with
    | none =>
      have hnone (j : Nat) (hj : j ∈ i :: List.range' (i + 1) k) : roundWrite env out hdr dest j = none := by
        have hij : i ≤ j := by
          rw [← List.range'_succ, List.mem_range'_1] at hj
          exact hj.1
        have := entryAt_none (hat.trans hfe) (j - i)
        rw [Nat.add_sub_cancel' hij] at this
        exact roundWrite_of_none this
      exact (List.filterMap_eq_nil_iff.mpr hnone).symm
    | some fe =>
      have hrest := ih (entryPos_succ hpos hfe)
      rw [List.filterMap_cons, List.filterMap_cons, roundWrite_of_pos hpos hfe, hrest]
      rfl

/-- Each file holds what is written to it, over what it held. -/
theorem foldl_write_apply (ws : List Written) (fs : FileStore) (file : List (List UInt8)) :
    ws.foldl FileStore.write fs file =
      ((ws.filter fun w => resolve w.path = file).map Written.bytes).foldl
        (fun c bytes => some (overlay (c.getD []) bytes)) (fs file) := by
  induction ws generalizing fs with
  | nil => rfl
  | cons w ws ih =>
    rw [List.foldl_cons, ih]
    by_cases hw : resolve w.path = file
    · rw [List.filter_cons_of_pos (by simpa using hw), List.map_cons, List.foldl_cons]
      simp [FileStore.write, hw]
    · rw [List.filter_cons_of_neg (by simpa using hw), FileStore.write, Function.update_of_ne fun h => hw h.symm]

theorem foldl_overlay_some (ws : List (List UInt8)) (old : List UInt8) :
    ws.foldl (fun c bytes => some (overlay (c.getD []) bytes)) (some old) = some (ws.foldl overlay old) := by
  induction ws generalizing old with
  | nil => rfl
  | cons w ws ih =>
    rw [List.foldl_cons, List.foldl_cons]
    exact ih _

/-- When a file is as it was after the writes to it. -/
theorem foldl_file_eq_iff (ws : List (List UInt8)) (c : Option (List UInt8)) :
    ws.foldl (fun c bytes => some (overlay (c.getD []) bytes)) c = c ↔
      ws = [] ∨ ∃ old, c = some old ∧ ∀ k, lastWritten ws k = none ∨ lastWritten ws k = old[k]? := by
  cases ws with
  | nil => simp
  | cons w ws =>
    cases c with
    | none =>
      -- The file has been created.
      rw [List.foldl_cons, foldl_overlay_some]
      simp
    | some old =>
      rw [foldl_overlay_some, Option.some.injEq, foldl_overlay_eq_iff]
      simp

theorem writeLoop_all (env : ExtractEnv) (out : OutputEnv) (hdr : Header) (dest : List UInt8) :
    (writeLoop env out hdr dest (extractRounds hdr) 0 (firstPos env hdr)).filterMap id =
      (List.range (extractRounds hdr)).filterMap (roundWrite env out hdr dest) := by
  rw [List.range_eq_range']
  exact filterMap_writeLoop _ rfl

/-- **The files of a directory are as they were** exactly when the writes to them restore them. -/
theorem restores_iff (env : ExtractEnv) (out : OutputEnv) (hdr : Header) (dest : List UInt8) (fs : FileStore) :
    (∀ file, Below file (resolve dest) →
      ((writeLoop env out hdr dest (extractRounds hdr) 0 (firstPos env hdr)).filterMap id).foldl FileStore.write fs file =
        fs file) ↔ Restores fs env out hdr dest := by
  rw [writeLoop_all]
  refine forall₂_congr fun file _ => ?_
  rw [foldl_write_apply]
  exact foldl_file_eq_iff _ _

theorem writeFile_eq_some {i pos : Nat} {fe : List UInt8} {w : Written} :
    writeFile env out hdr dest i pos fe = some w ↔ env.allocOk i = true ∧ out.opens i = true ∧
      w = ⟨fe, joinPath 512 dest (fePath fe (env.above i)),
        (fdata env out i pos fe (extractFile hdr dest fe (env.above i)).count).take (out.written i)⟩ := by
  unfold writeFile
  simp only [extractFile_path, Bool.and_eq_true]
  by_cases h : env.allocOk i = true ∧ out.opens i = true
  · simp [h, eq_comm]
  · rw [if_neg h]
    simp only [reduceCtorEq, false_iff]
    exact fun h' => h ⟨h'.1, h'.2.1⟩

theorem extractFile_count (hdr : Header) (dest fe above : List UInt8) :
    (extractFile hdr dest fe above).count = if Packed hdr fe then feCompressedSize fe else feSize fe := by
  unfold extractFile Packed
  simp only
  exact apply_ite Extracted.count _ _ _

theorem length_fdata (env : ExtractEnv) (out : OutputEnv) (i pos : Nat) (fe : List UInt8) (count : Nat) :
    (fdata env out i pos fe count).length = count := by
  simp [fdata]

/-- The bytes of a file that is compressed are not what is written for it; those of another are, if the memory
    holds them and all of it is written. -/
theorem bytes_whole_iff (unpack : List UInt8 → List UInt8) (pkg dest : List UInt8) (i pos : Nat) :
    (fdata env out i pos (packageEntry pkg hdr i) (extractFile hdr dest (packageEntry pkg hdr i) (env.above i)).count).take
          (out.written i) = packageFile unpack pkg hdr i ∧
        (packageFile unpack pkg hdr i).length = feSize (packageEntry pkg hdr i) ↔
      ¬Packed hdr (packageEntry pkg hdr i) ∧
        fdata env out i pos (packageEntry pkg hdr i) (feSize (packageEntry pkg hdr i)) =
          (packageData pkg hdr i).take (feSize (packageEntry pkg hdr i)) ∧
        feSize (packageEntry pkg hdr i) ≤ out.written i := by
  by_cases hpacked : Packed hdr (packageEntry pkg hdr i)
  · -- As many bytes as the file has compressed are written.
    have hcount : (extractFile hdr dest (packageEntry pkg hdr i) (env.above i)).count =
        feCompressedSize (packageEntry pkg hdr i) := by
      rw [extractFile_count, if_pos hpacked]
    refine iff_of_false ?_ fun h => h.1 hpacked
    rintro ⟨hbytes, hlen⟩
    have hshort := congrArg List.length hbytes
    rw [List.length_take, length_fdata, hcount, hlen] at hshort
    have hless := hpacked.2
    omega
  · have hcount : (extractFile hdr dest (packageEntry pkg hdr i) (env.above i)).count =
        feSize (packageEntry pkg hdr i) := by
      rw [extractFile_count, if_neg hpacked]
    rw [hcount, packageFile, if_neg hpacked]
    have hdata := length_fdata env out i pos (packageEntry pkg hdr i) (feSize (packageEntry pkg hdr i))
    constructor
    · rintro ⟨hbytes, hlen⟩
      rw [← hbytes, List.length_take, hdata] at hlen
      have hwritten : feSize (packageEntry pkg hdr i) ≤ out.written i := by omega
      rw [List.take_of_length_le (hdata.trans_le hwritten)] at hbytes
      exact ⟨hpacked, hbytes, hwritten⟩
    · rintro ⟨_, hbytes, hwritten⟩
      rw [← hbytes]
      exact ⟨List.take_of_length_le (hdata.trans_le hwritten), hdata⟩

/-- **A file is written completely** exactly when nothing fails in its round. -/
theorem fileComplete_iff (unpack : List UInt8 → List UInt8) (pkg : List UInt8) {i : Nat} (hi : i < hdr.fileCount) :
    FileComplete unpack pkg dest env hdr (writeLoop env out hdr dest (extractRounds hdr) 0 (firstPos env hdr)) i ↔
      RoundWhole pkg env out hdr i := by
  have hround : (writeLoop env out hdr dest (extractRounds hdr) 0 (firstPos env hdr))[i]? =
      if i < extractRounds hdr then (entryAt env hdr i).map fun _ => roundWrite env out hdr dest i else none := by
    rw [getElem?_writeLoop (extractRounds hdr) (i := 0) rfl i, Nat.zero_add]
  have hrounds : i < extractRounds hdr ↔ i < pkgMaxFiles := by
    unfold extractRounds
    omega
  rw [FileComplete, hround]
  constructor
  · rintro ⟨hsome, hlen⟩
    obtain ⟨hlt, hmap⟩ := Option.ite_none_right_eq_some.mp hsome
    obtain ⟨fe, hfe, hwrite⟩ := Option.map_eq_some_iff.mp hmap
    obtain ⟨pos, hpos, hread⟩ := Option.bind_eq_some_iff.mp hfe
    rw [roundWrite_of_pos hpos hread, writeFile_eq_some, Written.mk.injEq] at hwrite
    obtain ⟨halloc, hopens, rfl, _, hbytes⟩ := hwrite
    obtain ⟨hplain, hdata, hwritten⟩ := (bytes_whole_iff unpack pkg dest i pos).mp ⟨hbytes.symm, hlen⟩
    exact ⟨hrounds.mp hlt, ⟨pos, hpos, hread, hdata⟩, halloc, hopens, hplain, hwritten⟩
  · rintro ⟨hcounted, ⟨pos, hpos, hread, hdata⟩, halloc, hopens, hplain, hwritten⟩
    obtain ⟨hbytes, hlen⟩ := (bytes_whole_iff unpack pkg dest i pos).mpr ⟨hplain, hdata, hwritten⟩
    refine ⟨?_, hlen⟩
    rw [if_pos (hrounds.mpr hcounted), entryAt_of_pos hpos, hread, Option.map_some, roundWrite_of_pos hpos hread]
    exact congrArg some (writeFile_eq_some.mpr ⟨halloc, hopens, by rw [hbytes]⟩)

/-! ## The installation -/

theorem installChecks_header {s : PkgState} {env : InstallEnv} {hdr : Header} (h : installChecks s env = some hdr) :
    pkgReadHeader env.file = some hdr := by
  unfold installChecks at h
  cases hread : pkgReadHeader env.file with
  | none => simp [hread] at h
  | some hdr =>
    simp only [hread] at h
    split_ifs at h
    exact h

/-- A call that has changed nothing and returns -1. -/
theorem allOrNothing_refused (unpack : List UInt8 → List UInt8) (pkg : List UInt8) (s : PkgState) (fs : FileStore)
    (env : InstallEnv) : AllOrNothing unpack pkg s fs env ⟨-1, s, fs, []⟩ where
  failed _ := ⟨rfl, fun _ _ _ _ => rfl⟩
  done h := absurd (show (-1 : Int) = 0 from h) (by decide)

/-- With the package open and no overrun, the allocation of the entry decides what is asked of the extraction. -/
theorem pkgInstallFiles_extracted (unpack : List UInt8 → List UInt8) (pkg : List UInt8) {s : PkgState} {fs : FileStore}
    {env : InstallEnv} {out : OutputEnv} {hdr : Header} (hchecks : installChecks s env = some hdr)
    (hopens : env.extract.opens = true) (hfits : depsOverrun (env.extract.file 0) hdr = []) :
    InstallAtomic unpack pkg s fs env out ↔ InstallGuard pkg s fs env out hdr := by
  have hread := installChecks_header hchecks
  have hextract : pkgExtractFiles env.extract out (installPath s env hdr) hdr =
      some (0, writeLoop env.extract out hdr (installPath s env hdr) (extractRounds hdr) 0 (firstPos env.extract hdr)) := by
    rw [pkgExtractFiles, if_neg (by simp [hopens]), if_neg (not_not.mpr hfits)]
  have hzero : ¬(0 : Int) < 0 := by decide
  have hone : ¬(0 : Int) = -1 := by decide
  have hone' : ¬(-1 : Int) = 0 := by decide
  unfold InstallAtomic pkgInstallFiles
  simp only [hchecks, hextract, if_neg hzero]
  cases hblock : env.block with
  | none =>
    -- The files have been written, and the call fails.
    simp only [Option.some.injEq, exists_eq_left']
    have hrestores := restores_iff env.extract out hdr (installPath s env hdr) fs
    constructor
    · intro h
      refine ⟨hfits, fun _ => ?_, fun hsome => absurd hblock hsome⟩
      exact hrestores.mp ((h.failed rfl).2 hdr hread)
    · intro h
      refine ⟨fun _ => ⟨rfl, ?_⟩, fun hdone => absurd hdone hone'⟩
      intro hdr' hread'
      obtain rfl := Option.some.inj (hread.symm.trans hread')
      exact hrestores.mpr (h.failed hblock)
  | some block =>
    simp only [Option.some.injEq, exists_eq_left']
    constructor
    · intro h
      refine ⟨hfits, fun hnone => absurd (hnone.symm.trans hblock) (by simp), ?_⟩
      intro _ i hi
      exact (fileComplete_iff unpack pkg hi).mp (h.done rfl hdr hread i hi)
    · intro h
      refine ⟨fun hfailed => absurd hfailed hone, ?_⟩
      intro _ hdr' hread' i hi
      obtain rfl := Option.some.inj (hread.symm.trans hread')
      exact (fileComplete_iff unpack pkg hi).mpr (h.done (by simp [hblock]) i hi)

/-- **An installation is all or nothing** exactly when its checks refuse the package, it cannot be opened again, or
    `InstallGuard` holds of it: for every package, and whatever fails on the way. -/
theorem install_atomic_iff (unpack : List UInt8 → List UInt8) (pkg : List UInt8) (s : PkgState) (fs : FileStore)
    (env : InstallEnv) (out : OutputEnv) :
    InstallAtomic unpack pkg s fs env out ↔
      ∀ hdr, installChecks s env = some hdr → env.extract.opens = true → InstallGuard pkg s fs env out hdr := by
  cases hchecks : installChecks s env with
  | none =>
    have hatomic : InstallAtomic unpack pkg s fs env out :=
      ⟨_, by rw [pkgInstallFiles, hchecks], allOrNothing_refused unpack pkg s fs env⟩
    simp [hatomic]
  | some hdr =>
    cases hopens : env.extract.opens with
    | false =>
      have hatomic : InstallAtomic unpack pkg s fs env out := by
        refine ⟨_, ?_, allOrNothing_refused unpack pkg s fs env⟩
        simp [pkgInstallFiles, hchecks, pkgExtractFiles, hopens]
      simp [hatomic]
    | true =>
      simp only [Option.some.injEq, forall_eq', forall_const]
      by_cases hfits : depsOverrun (env.extract.file 0) hdr = []
      · exact pkgInstallFiles_extracted unpack pkg hchecks hopens hfits
      · -- The read of the dependencies runs past its array.
        have hextract : pkgExtractFiles env.extract out (installPath s env hdr) hdr = none := by
          rw [pkgExtractFiles, if_neg (by simp [hopens]), if_pos hfits]
        refine iff_of_false ?_ fun h => hfits h.fits
        rintro ⟨o, ho, _⟩
        simp [pkgInstallFiles, hchecks, hextract] at ho

/-- A package `a` with one file `f` of two bytes. -/
def onePackage : List UInt8 :=
  [leBytes 4 crimsonPkgMagic, leBytes 4 1, List.replicate 12 0, ofString "a", List.replicate 127 0, ofString "1.0",
    List.replicate 1713 0, leBytes 4 1, List.replicate 156 0, ofString "f", List.replicate 259 0, leBytes 4 2,
    leBytes 4 2, List.replicate 44 0, [104, 105]].flatten

def onePackageHeader : Header where
  bytes := onePackage.take headerSize
  size := by decide +kernel

def onePackageOutput : OutputEnv := ⟨fun _ _ => 0, fun _ => true, fun _ => 512⟩

/-- Without memory for the database entry the call fails, and the file is there; without memory for the data it
    succeeds, and the file is not. -/
theorem install_not_atomic :
    ¬InstallAtomic id onePackage (pkgEmpty (ofString "/apps") 1) (fun _ => none)
        { sampleEnv onePackage with block := none } onePackageOutput ∧
      ¬InstallAtomic id onePackage (pkgEmpty (ofString "/apps") 1) (fun _ => none)
        { sampleEnv onePackage with extract := ⟨true, fun _ => onePackage, fun _ => [], fun _ => false⟩ }
        onePackageOutput := by
  have hread : pkgReadHeader (some onePackage) = some onePackageHeader := by decide +kernel
  constructor
  · rintro ⟨o, ho, h⟩
    have hrun : (pkgInstallFiles (pkgEmpty (ofString "/apps") 1) (fun _ => none)
        { sampleEnv onePackage with block := none } onePackageOutput).map
          (fun o => (o.result, o.files (resolve (ofString "/apps/a/f")))) = some (-1, some [104, 105]) := by decide +kernel
    rw [ho, Option.map_some, Option.some.injEq, Prod.mk.injEq] at hrun
    have hinside : InsideOf (installPath (pkgEmpty (ofString "/apps") 1) { sampleEnv onePackage with block := none }
        onePackageHeader) (ofString "/apps/a/f") := by decide +kernel
    have hkept := (h.failed hrun.1).2 onePackageHeader hread _ hinside
    rw [hrun.2] at hkept
    exact absurd hkept (by simp)
  · rintro ⟨o, ho, h⟩
    have hrun : (pkgInstallFiles (pkgEmpty (ofString "/apps") 1) (fun _ => none)
        { sampleEnv onePackage with extract := ⟨true, fun _ => onePackage, fun _ => [], fun _ => false⟩ }
        onePackageOutput).map (fun o => (o.result, o.rounds)) = some (0, [none]) := by decide +kernel
    rw [ho, Option.map_some, Option.some.injEq, Prod.mk.injEq] at hrun
    have hcount : 0 < onePackageHeader.fileCount := by decide +kernel
    have hfile := (h.done hrun.1 onePackageHeader hread 0 hcount).1
    rw [hrun.2] at hfile
    simp at hfile

end Crimson.Pkg
