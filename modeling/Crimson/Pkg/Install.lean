import Mathlib.Data.List.Nodup
import Crimson.Lib.Run
import Crimson.Pkg.Extract

/-!
# Installing and removing packages (`pkg_install`, `pkg_remove`)

A run is a list of installations, each with its own package, outcomes of verification and
memory, and of removals, from an empty database.

`pkg_install` passes its header to `pkg_extract`, whose array of dependencies lies below it
on the stack. A table of dependencies that is longer than the array runs into the bytes
between the two (`frame`), and then into the header: `smashHeader` is the header that
`pkg_install` goes on with, as long as what lies between is written with what it held.

`db_kept` is the law of the database, for runs without an overrun: names are distinct, the
counter is the length of the list, and versions never go down. The order of the steps in
`pkg_install` is what it rests on: the old entry of the name is looked up and compared
before anything is verified, and removed only when the new one is there to replace it.
-/

set_option autoImplicit false

namespace Crimson.Pkg

open Crimson.Lib Crimson.Str

/-- `pkg_read_header`, of the first 4096 bytes; a package that cannot be opened is `none`. -/
def pkgReadHeader (file : Option (List UInt8)) : Option Header :=
  let buf := (file.getD []).take 4096
  if hsize : headerSize ≤ buf.length then
    let hdr : Header := ⟨buf.take headerSize, by simp [Nat.min_eq_left hsize]⟩
    if hdr.magic ≠ crimsonPkgMagic then none
    else if hdr.formatVersion ≠ 1 then none
    else some hdr
  else none

/-- `pkg_verify_signature`, over the outcome for a signature of the known type. -/
def pkgVerifySignature (signatureOk : Bool) (hdr : Header) : Int :=
  if hdr.sigType = 0 then 0 -- PKG_SIG_NONE
  else if hdr.sigType ≠ 1 then -1 -- PKG_SIG_ED25519
  else if signatureOk then 0
  else -1

/-- `pkg_resolve_deps`, the result and `*missing_count`: its loop has no body. -/
def pkgResolveDeps : Int × UInt32 :=
  let missingCount : UInt32 := 0
  (if 0 < missingCount then -1 else 0, missingCount)

def pkgInstallDeps (hdr : Header) : Int :=
  if hdr.depCount = 0 then 0 else if pkgResolveDeps.1 < 0 then -1 else 0

/-- What a call of `pkg_install` meets: what the package holds when its header is read, the
    stack above the header and below it down to the array of dependencies, the outcomes of
    the verifications, the extraction, and what is in the memory `kmalloc` gives, at the path. -/
structure InstallEnv where
  file : Option (List UInt8)
  above : List UInt8
  frame : List UInt8
  signatureOk : Bool
  hashOk : Bool
  extract : ExtractEnv
  block : Option PathBuf
  uptime : UInt64

/-- The header after the bytes `tail` have been stored from the end of `deps` on. Where they
    change the frame between, or pass the header, nothing is known. -/
def smashHeader (frame : List UInt8) (hdr : Header) (tail : List UInt8) : Option Header :=
  if htail : tail.take frame.length = frame.take tail.length ∧ tail.length ≤ frame.length + headerSize then
    some
      { bytes := tail.drop frame.length ++ hdr.bytes.drop (tail.length - frame.length)
        size := by
          have := hdr.size
          rw [List.length_append, List.length_drop, List.length_drop]
          omega }
  else none

/-- The entry that `pkg_install` fills in, when it was called for a package of that name. -/
def newEntry (s : PkgState) (env : InstallEnv) (hdr : Header) (name : List UInt8) (block : PathBuf) : PkgEntry where
  header := hdr
  state := pkgStateInstalled
  repoId := 0xFFFFFFFF
  installPath := block.strcpy (joinPath 256 s.installRoot name) (length_joinPath_lt (by decide) _ _)
  installTime := env.uptime
  autoUpdate := s.autoUpdate

/-- `pkg_install`, the result and the database. -/
def pkgInstall (s : PkgState) (env : InstallEnv) : Option (Int × PkgState) :=
  match pkgReadHeader env.file with
  | none => some (-1, s)
  | some hdr =>
    let name := hdr.name env.above
    let existing := pkgDbFind s name
    if (existing.any fun e => 0 ≤ pkgVersionCompare e.version (hdr.version env.above)) = true then some (-1, s)
    else if pkgVerifySignature env.signatureOk hdr < 0 then some (-1, s)
    else if env.hashOk = false then some (-1, s)
    else if pkgInstallDeps hdr < 0 then some (-1, s)
    else
      let installPath := joinPath 256 s.installRoot name
      if ((pkgExtract env.extract installPath hdr).any fun r => r.1 < 0) = true then some (-1, s)
      else
        match smashHeader env.frame hdr (depsOverrun (env.extract.file 0) hdr) with
        | none => none
        | some hdr =>
          match env.block with
          | none => some (-1, s)
          | some block =>
            let entry := newEntry s env hdr name block
            let s := if existing.isSome then pkgDbRemove s (hdr.name env.above) else s
            some (0, pkgDbAdd s entry)

def pkgRemove (s : PkgState) (name : List UInt8) : Int × PkgState :=
  match pkgDbFindInstalled s name with
  | none => (-1, s)
  | some _ => (0, pkgDbRemove s name)

/-! ## Runs -/

inductive PkgOp where
  | install (env : InstallEnv)
  | remove (name : List UInt8)

def pkgStep (s : PkgState) : PkgOp → Option PkgState
  | .install env => (pkgInstall s env).map Prod.snd
  | .remove name => some (pkgRemove s name).2

def pkgEmpty (installRoot : List UInt8) (autoUpdate : UInt32) : PkgState := ⟨[], 0, installRoot, autoUpdate⟩

/-- Names are distinct, and the counter counts. -/
structure DbAgrees (s : PkgState) : Prop where
  names : (s.installed.map PkgEntry.name).Nodup
  total : s.totalInstalled.toNat = s.installed.length

/-- The version of an entry as the number it stands for. -/
def PkgEntry.key (e : PkgEntry) : Nat ×ₗ Nat ×ₗ Nat := (pkgParseVersion e.version).key

def Removes (op : PkgOp) (name : List UInt8) : Prop := op = .remove name

/-- Every package that is not removed is there afterwards, and no older. -/
def NotDowngraded (except : List UInt8 → Prop) (s s' : PkgState) : Prop :=
  ∀ e ∈ s.installed, ¬except e.name → ∃ e' ∈ s'.installed, e'.name = e.name ∧ e.key ≤ e'.key

/-- The law of the database over a run: it agrees in every state, and from any state on, a
    package is kept and no older until it is removed. -/
def DbKept (s : PkgState) (ops : List PkgOp) : Prop :=
  Always pkgStep DbAgrees s ops ∧
    ∀ before after s₁ s₂, ops = before ++ after → run pkgStep s before = some s₁ → run pkgStep s₁ after = some s₂ →
      NotDowngraded (fun name => ∃ op ∈ after, Removes op name) s₁ s₂

/-- The dependencies of the package fit in the array, and the counter does not wrap. -/
def InstallFits (s : PkgState) : PkgOp → Prop
  | .install env =>
    (∀ hdr, pkgReadHeader env.file = some hdr → depsOverrun (env.extract.file 0) hdr = []) ∧
      s.installed.length + 1 < 2 ^ 32
  | .remove _ => True

/-! ## The list -/

theorem pkgDbFind_name {s : PkgState} {name : List UInt8} {e : PkgEntry} (h : pkgDbFind s name = some e) :
    e ∈ s.installed ∧ e.name = name := by
  have hname := List.find?_some h
  exact ⟨List.mem_of_find?_eq_some h, by simpa using hname⟩

theorem pkgDbFind_none {s : PkgState} {name : List UInt8} (h : pkgDbFind s name = none) :
    ∀ e ∈ s.installed, e.name ≠ name := by
  simpa [pkgDbFind] using h

/-- With distinct names, an entry is found under its own. -/
theorem pkgDbFind_self {s : PkgState} (h : DbAgrees s) {e : PkgEntry} (he : e ∈ s.installed) :
    pkgDbFind s e.name = some e := by
  cases hfind : pkgDbFind s e.name with
  | none => exact absurd rfl (pkgDbFind_none hfind e he)
  | some old =>
    obtain ⟨hold, hname⟩ := pkgDbFind_name hfind
    rw [List.inj_on_of_nodup_map h.names hold he hname]

/-- With distinct names, unlinking the first entry of a name leaves those of other names. -/
theorem eraseP_name {l : List PkgEntry} (h : (l.map PkgEntry.name).Nodup) (name : List UInt8) :
    (l.eraseP fun e => e.name = name) = l.filter fun e => e.name ≠ name := by
  induction l with
  | nil => rfl
  | cons e l ih =>
    rw [List.map_cons, List.nodup_cons] at h
    obtain ⟨hhead, htail⟩ := h
    by_cases hname : e.name = name
    · have hrest : ∀ x ∈ l, x.name ≠ name := by
        intro x hx hxname
        exact hhead (List.mem_map.mpr ⟨x, hx, hxname.trans hname.symm⟩)
      rw [List.eraseP_cons_of_pos (by simpa using hname), List.filter_cons_of_neg (by simpa using hname)]
      exact (List.filter_eq_self.mpr (by simpa using hrest)).symm
    · rw [List.eraseP_cons_of_neg (by simpa using hname), List.filter_cons_of_pos (by simpa using hname), ih htail]

theorem mem_pkgDbRemove {s : PkgState} (h : DbAgrees s) {name : List UInt8} {e : PkgEntry} :
    e ∈ (pkgDbRemove s name).installed ↔ e ∈ s.installed ∧ e.name ≠ name := by
  unfold pkgDbRemove
  cases hfind : pkgDbFind s name with
  | none => exact ⟨fun he => ⟨he, pkgDbFind_none hfind e he⟩, fun he => he.1⟩
  | some old => simp [eraseP_name h.names]

theorem DbAgrees.remove {s : PkgState} (h : DbAgrees s) (name : List UInt8) : DbAgrees (pkgDbRemove s name) := by
  unfold pkgDbRemove
  cases hfind : pkgDbFind s name with
  | none => exact h
  | some old =>
    obtain ⟨hmem, hname⟩ := pkgDbFind_name hfind
    refine ⟨h.names.sublist (List.eraseP_sublist.map _), ?_⟩
    have hlen := List.length_eraseP_of_mem (p := fun e : PkgEntry => e.name = name) hmem (by simpa using hname)
    have hpos := List.length_pos_of_mem hmem
    have htotal := h.total
    have hone : (1 : UInt32) ≤ s.totalInstalled := by
      rw [UInt32.le_iff_toNat_le, htotal]
      exact hpos
    simp only
    rw [hlen, UInt32.toNat_sub_of_le _ _ hone, htotal]
    rfl

theorem DbAgrees.add {s : PkgState} (h : DbAgrees s) {entry : PkgEntry}
    (hname : ∀ e ∈ s.installed, e.name ≠ entry.name) (hlen : s.installed.length + 1 < 2 ^ 32) :
    DbAgrees (pkgDbAdd s entry) := by
  refine ⟨List.nodup_cons.mpr ⟨?_, h.names⟩, ?_⟩
  · intro hmem
    obtain ⟨e, he, heq⟩ := List.mem_map.mp hmem
    exact hname e he heq
  · have htotal := h.total
    simp only [pkgDbAdd, List.length_cons, UInt32.toNat_add, htotal]
    exact Nat.mod_eq_of_lt hlen

/-! ## One step -/

/-- A file that begins with a header. -/
theorem pkgReadHeader_append {hdr : Header} (hmagic : hdr.magic = crimsonPkgMagic) (hformat : hdr.formatVersion = 1)
    (rest : List UInt8) : pkgReadHeader (some (hdr.bytes ++ rest)) = some hdr := by
  have hsize : headerSize ≤ ((hdr.bytes ++ rest).take 4096).length := by
    have hlen := hdr.size
    rw [List.length_take, List.length_append]
    unfold headerSize at hlen ⊢
    omega
  have htake : ((hdr.bytes ++ rest).take 4096).take headerSize = hdr.bytes := by
    rw [List.take_take, min_eq_left (by decide), List.take_left' hdr.size]
  simp only [pkgReadHeader, Option.getD_some, hsize, htake, dite_true]
  rw [if_neg (not_not.mpr hmagic), if_neg (not_not.mpr hformat)]

theorem smashHeader_nil (frame : List UInt8) (hdr : Header) : smashHeader frame hdr [] = some hdr := by
  simp [smashHeader]

/-- The frame as it was and a header behind it: that header is the one left. -/
theorem smashHeader_append (frame : List UInt8) (hdr hdr' : Header) :
    smashHeader frame hdr (frame ++ hdr'.bytes) = some hdr' := by
  have hdrop : hdr.bytes.drop ((frame ++ hdr'.bytes).length - frame.length) = [] := by
    rw [List.length_append, Nat.add_sub_cancel_left, hdr'.size, ← hdr.size, List.drop_length]
  have htail : (frame ++ hdr'.bytes).take frame.length = frame.take (frame ++ hdr'.bytes).length := by
    rw [List.take_left, List.take_of_length_le (by simp)]
  rw [smashHeader, dif_pos ⟨htail, by rw [List.length_append, hdr'.size]⟩]
  simp only [hdrop, List.drop_left, List.append_nil]

theorem pkgVerifySignature_sigType {signatureOk : Bool} {hdr : Header}
    (h : ¬pkgVerifySignature signatureOk hdr < 0) : hdr.sigType < 2 := by
  unfold pkgVerifySignature at h
  split at h
  · omega
  · split at h
    · exact absurd (by decide) h
    · omega

theorem newEntry_name {s : PkgState} {env : InstallEnv} {hdr : Header} (hsig : hdr.sigType < 2)
    (name above : List UInt8) (block : PathBuf) : (newEntry s env hdr name block).name = hdr.name above := by
  unfold PkgEntry.name Header.name
  exact (Header.str_eq hsig (by decide) _).trans (Header.str_eq hsig (by decide) _).symm

theorem newEntry_version {s : PkgState} {env : InstallEnv} {hdr : Header} (hsig : hdr.sigType < 2)
    (name above : List UInt8) (block : PathBuf) : (newEntry s env hdr name block).version = hdr.version above := by
  unfold PkgEntry.version Header.version
  exact (Header.str_eq hsig (by decide) _).trans (Header.str_eq hsig (by decide) _).symm

/-- Removing a name that is not there does nothing, so the test before it does nothing either. -/
theorem pkgDbRemove_existing (s : PkgState) (name : List UInt8) :
    (if (pkgDbFind s name).isSome = true then pkgDbRemove s name else s) = pkgDbRemove s name := by
  unfold pkgDbRemove
  cases pkgDbFind s name <;> simp

/-- **What `pkg_install` does to the database** when the dependencies fit: nothing, or the
    entry of the package, newer than the one of its name, takes that one's place. -/
theorem pkgInstall_cases {s s' : PkgState} {env : InstallEnv} {r : Int}
    (hfits : ∀ hdr, pkgReadHeader env.file = some hdr → depsOverrun (env.extract.file 0) hdr = [])
    (h : pkgInstall s env = some (r, s')) :
    s' = s ∨ ∃ entry : PkgEntry,
      (∀ old, pkgDbFind s entry.name = some old → old.key < entry.key) ∧
        s' = pkgDbAdd (pkgDbRemove s entry.name) entry := by
  unfold pkgInstall at h
  cases hread : pkgReadHeader env.file with
  | none =>
    simp only [hread, Option.some.injEq, Prod.mk.injEq] at h
    exact Or.inl h.2.symm
  | some hdr =>
    simp only [hread, hfits hdr hread, smashHeader_nil, pkgDbRemove_existing] at h
    split_ifs at h with hexisting hsig hhash hdeps hextract
    any_goals
      simp only [Option.some.injEq, Prod.mk.injEq] at h
      exact Or.inl h.2.symm
    -- Every check is passed: what is left is whether there is memory for the entry.
    cases hblock : env.block with
    | none =>
      simp only [hblock, Option.some.injEq, Prod.mk.injEq] at h
      exact Or.inl h.2.symm
    | some block =>
      simp only [hblock, Option.some.injEq, Prod.mk.injEq] at h
      have htype := pkgVerifySignature_sigType hsig
      refine Or.inr ⟨newEntry s env hdr (hdr.name env.above) block, ?_, ?_⟩
      · intro old hold
        rw [newEntry_name htype _ env.above] at hold
        have hcompare : ¬0 ≤ pkgVersionCompare old.version (hdr.version env.above) := by
          simpa [hold] using hexisting
        rw [pkgVersionCompare_nonneg, ← newEntry_version htype _ env.above] at hcompare
        exact not_le.mp hcompare
      · rw [newEntry_name htype _ env.above]
        exact h.2.symm

/-- A new package whose dependencies run past the array, over the header. -/
theorem pkgInstall_smashed {s : PkgState} {env : InstallEnv} {hdr hdr' : Header} {block : PathBuf}
    (hread : pkgReadHeader env.file = some hdr) (hnew : pkgDbFind s (hdr.name env.above) = none)
    (hsig : hdr.sigType = 0) (hhash : env.hashOk = true) (hopens : env.extract.opens = true)
    (hover : depsOverrun (env.extract.file 0) hdr ≠ [])
    (hsmash : smashHeader env.frame hdr (depsOverrun (env.extract.file 0) hdr) = some hdr') (hblock : env.block = some block) :
    pkgInstall s env = some (0, pkgDbAdd s (newEntry s env hdr' (hdr.name env.above) block)) := by
  have hverify : ¬pkgVerifySignature env.signatureOk hdr < 0 := by
    rw [pkgVerifySignature, if_pos hsig]
    decide
  have hdeps : ¬pkgInstallDeps hdr < 0 := by
    have hresolve : ¬pkgResolveDeps.1 < 0 := by decide
    rw [pkgInstallDeps, if_neg hresolve, ite_self]
    decide
  have hextract : pkgExtract env.extract (joinPath 256 s.installRoot (hdr.name env.above)) hdr = none := by
    rw [pkgExtract, if_neg (by rw [hopens]; decide), if_pos hover]
  simp [pkgInstall, hread, hnew, hverify, hhash, hdeps, hextract, hsmash, hblock]

theorem pkgRemove_snd (s : PkgState) (name : List UInt8) :
    (pkgRemove s name).2 = s ∨ (pkgRemove s name).2 = pkgDbRemove s name := by
  unfold pkgRemove
  cases pkgDbFindInstalled s name
  · exact Or.inl rfl
  · exact Or.inr rfl

theorem DbAgrees.length_remove_le (s : PkgState) (name : List UInt8) :
    (pkgDbRemove s name).installed.length ≤ s.installed.length := by
  unfold pkgDbRemove
  cases pkgDbFind s name
  · exact le_refl _
  · exact List.length_eraseP_le

theorem DbAgrees.step {s s' : PkgState} {op : PkgOp} (h : DbAgrees s) (hfits : InstallFits s op)
    (hs : pkgStep s op = some s') : DbAgrees s' := by
  cases op with
  | install env =>
    obtain ⟨⟨r, t⟩, hinstall, rfl⟩ := Option.map_eq_some_iff.mp hs
    rcases pkgInstall_cases hfits.1 hinstall with rfl | ⟨entry, _, rfl⟩
    · exact h
    · refine (h.remove entry.name).add ?_ ?_
      · intro e he
        exact ((mem_pkgDbRemove h).mp he).2
      · have := DbAgrees.length_remove_le s entry.name
        have := hfits.2
        omega
  | remove name =>
    obtain rfl := Option.some.inj hs
    rcases pkgRemove_snd s name with he | he
    · rw [he]
      exact h
    · rw [he]
      exact h.remove name

/-- One step keeps every package but the one it removes, and makes none older. -/
theorem DbAgrees.notDowngraded {s s' : PkgState} {op : PkgOp} (h : DbAgrees s) (hfits : InstallFits s op)
    (hs : pkgStep s op = some s') : NotDowngraded (Removes op) s s' := by
  cases op with
  | install env =>
    obtain ⟨⟨r, t⟩, hinstall, rfl⟩ := Option.map_eq_some_iff.mp hs
    rcases pkgInstall_cases hfits.1 hinstall with rfl | ⟨entry, hnewer, rfl⟩
    · exact fun e he _ => ⟨e, he, rfl, le_refl _⟩
    · intro e he _
      by_cases hname : e.name = entry.name
      · refine ⟨entry, List.mem_cons_self, hname.symm, ?_⟩
        exact (hnewer e (hname ▸ pkgDbFind_self h he)).le
      · exact ⟨e, List.mem_cons_of_mem entry ((mem_pkgDbRemove h).mpr ⟨he, hname⟩), rfl, le_refl _⟩
  | remove name =>
    obtain rfl := Option.some.inj hs
    intro e he hkept
    have hname : e.name ≠ name := fun heq => hkept (by rw [Removes, heq])
    refine ⟨e, ?_, rfl, le_refl _⟩
    rcases pkgRemove_snd s name with heq | heq
    · rw [heq]
      exact he
    · rw [heq]
      exact (mem_pkgDbRemove h).mpr ⟨he, hname⟩

theorem NotDowngraded.refl (except : List UInt8 → Prop) (s : PkgState) : NotDowngraded except s s :=
  fun e he _ => ⟨e, he, rfl, le_refl _⟩

theorem NotDowngraded.trans {except : List UInt8 → Prop} {s t u : PkgState} (h : NotDowngraded except s t)
    (h' : NotDowngraded except t u) : NotDowngraded except s u := by
  intro e he hkept
  obtain ⟨e', he', hname, hle⟩ := h e he hkept
  obtain ⟨e'', he'', hname', hle'⟩ := h' e' he' (hname.symm ▸ hkept)
  exact ⟨e'', he'', hname'.trans hname, hle.trans hle'⟩

theorem NotDowngraded.mono {except except' : List UInt8 → Prop} (himp : ∀ name, except name → except' name)
    {s t : PkgState} (h : NotDowngraded except s t) : NotDowngraded except' s t :=
  fun e he hkept => h e he fun hname => hkept (himp _ hname)

theorem dbAgrees_empty (installRoot : List UInt8) (autoUpdate : UInt32) : DbAgrees (pkgEmpty installRoot autoUpdate) :=
  ⟨List.nodup_nil, rfl⟩

/-- **The law of the database**, from an empty one, over every run of installations whose
    dependencies fit and of removals. -/
theorem db_kept (installRoot : List UInt8) (autoUpdate : UInt32) (ops : List PkgOp)
    (hfits : Meets pkgStep InstallFits (pkgEmpty installRoot autoUpdate) ops) :
    DbKept (pkgEmpty installRoot autoUpdate) ops := by
  have halways : Always pkgStep DbAgrees (pkgEmpty installRoot autoUpdate) ops := by
    refine always_of_meets ?_ (dbAgrees_empty installRoot autoUpdate) hfits
    intro s op s' h hop hs
    exact h.step hop hs
  refine ⟨halways, ?_⟩
  intro before after s₁ s₂ hops hbefore hafter
  have hsteps : AlwaysStep pkgStep (fun s op s' => NotDowngraded (Removes op) s s')
      (pkgEmpty installRoot autoUpdate) (before ++ after) := by
    rw [← hops]
    refine alwaysStep_of_always ?_ halways hfits
    intro s op s' h hop hs
    exact h.notDowngraded hop hs
  refine (hsteps.behind hbefore).relates ?_ ?_ ?_ hafter
  · exact NotDowngraded.refl _
  · exact fun s t u h h' => h.trans h'
  · intro s op hop t h
    exact h.mono fun name hname => ⟨op, hop, hname⟩

/-! ## Two runs -/

/-- An unsigned package without files. -/
def sampleHeader (name version : String) (depCount : Nat) : List UInt8 :=
  leBytes 4 crimsonPkgMagic ++ leBytes 4 1 ++ List.replicate 12 0 ++
    ofString name ++ List.replicate (128 - name.length) 0 ++
    ofString version ++ List.replicate (32 - version.length) 0 ++
    List.replicate 1688 0 ++ leBytes 4 depCount ++ List.replicate 152 0

/-- A saved register and the return address. -/
def sampleFrame : List UInt8 := leBytes 8 0 ++ leBytes 8 0x40085A10

def sampleEnv (file : List UInt8) : InstallEnv where
  file := some file
  above := []
  frame := sampleFrame
  signatureOk := true
  hashOk := true
  extract := ⟨true, fun _ => file, fun _ => [], fun _ => true⟩
  block := some PathBuf.zeros
  uptime := 0

theorem db_kept_sample :
    DbKept (pkgEmpty (ofString "/apps") 1) [.install (sampleEnv (sampleHeader "a" "1.2" 0)), .remove (ofString "a")] := by
  apply db_kept
  intro s' _
  refine ⟨⟨?_, by decide⟩, fun s'' _ => ⟨trivial, trivial⟩⟩
  intro hdr hread
  have hdeps : (pkgReadHeader (some (sampleHeader "a" "1.2" 0))).map Header.depCount = some 0 := by decide +kernel
  rw [show (sampleEnv (sampleHeader "a" "1.2" 0)).file = some (sampleHeader "a" "1.2" 0) from rfl] at hread
  rw [hread] at hdeps
  simp [depsOverrun, depsRead, Option.some.inj hdeps]

/-- A package with 75 dependencies for the 64 there is room for: what is behind them in the
    file writes the frame as it was, and then the header of another package. -/
def smashingFile : List UInt8 :=
  sampleHeader "b" "1.0" 75 ++ List.replicate 12544 0 ++ sampleFrame ++ sampleHeader "a" "1.0" 0

/-- What is read past the array of dependencies. -/
theorem depsOverrun_smashingFile {hdr : Header} (hbytes : hdr.bytes = sampleHeader "b" "1.0" 75) :
    depsOverrun smashingFile hdr = sampleFrame ++ sampleHeader "a" "1.0" 0 := by
  have hcount : hdr.depCount = 75 := by
    rw [Header.depCount, hbytes]
    decide +kernel
  have hrest : (sampleFrame ++ sampleHeader "a" "1.0" 0).length = 2040 := by decide +kernel
  have hfile : smashingFile.drop headerSize = List.replicate 12544 0 ++ (sampleFrame ++ sampleHeader "a" "1.0" 0) := by
    rw [smashingFile, List.append_assoc, List.append_assoc, ← hbytes, List.drop_left' hdr.size]
  rw [depsOverrun, depsRead, hfile, hcount, List.take_of_length_le, List.drop_left' (List.length_replicate.trans (by decide))]
  rw [List.length_append, hrest, List.length_replicate]
  decide

/-- It is looked up as `b`, and installed as a second `a`. -/
theorem smashed_header_duplicates :
    ¬DbKept (pkgEmpty (ofString "/apps") 1)
      [.install (sampleEnv (sampleHeader "a" "1.0" 0)), .install (sampleEnv smashingFile)] := by
  rintro ⟨halways, _⟩
  obtain ⟨hdr, hbytes⟩ : ∃ hdr : Header, hdr.bytes = sampleHeader "b" "1.0" 75 := ⟨⟨_, by decide +kernel⟩, rfl⟩
  obtain ⟨hdr', hbytes'⟩ : ∃ hdr : Header, hdr.bytes = sampleHeader "a" "1.0" 0 := ⟨⟨_, by decide +kernel⟩, rfl⟩
  have hfirst : (pkgStep (pkgEmpty (ofString "/apps") 1) (.install (sampleEnv (sampleHeader "a" "1.0" 0)))).map
      (fun s => s.installed.map PkgEntry.name) = some [ofString "a"] := by decide +kernel
  obtain ⟨s, hs, hnames⟩ := Option.map_eq_some_iff.mp hfirst
  have hread : pkgReadHeader (some smashingFile) = some hdr := by
    rw [smashingFile, List.append_assoc, List.append_assoc, ← hbytes]
    refine pkgReadHeader_append ?_ ?_ _
    · rw [Header.magic, hbytes]
      decide +kernel
    · rw [Header.formatVersion, hbytes]
      decide +kernel
  have hname : hdr.name [] = ofString "b" := by
    rw [Header.name, Header.str, hbytes]
    decide +kernel
  have hnew : pkgDbFind s (hdr.name []) = none := by
    refine List.find?_eq_none.mpr fun e he => ?_
    have hmem := List.mem_map_of_mem (f := PkgEntry.name) he
    rw [hnames, List.mem_singleton] at hmem
    rw [hmem, hname]
    decide
  have hover : depsOverrun smashingFile hdr = sampleFrame ++ hdr'.bytes := by
    rw [hbytes', depsOverrun_smashingFile hbytes]
  have hnonempty : depsOverrun smashingFile hdr ≠ [] := by
    rw [hover]
    exact List.append_ne_nil_of_left_ne_nil (by decide) _
  have hsmash : smashHeader sampleFrame hdr (depsOverrun smashingFile hdr) = some hdr' := by
    rw [hover]
    exact smashHeader_append _ _ _
  have hsig : hdr.sigType = 0 := by
    rw [Header.sigType, hbytes]
    decide +kernel
  have hsecond := @pkgInstall_smashed s (sampleEnv smashingFile) hdr hdr' _ hread hnew hsig rfl rfl hnonempty hsmash rfl
  have hrun : run pkgStep (pkgEmpty (ofString "/apps") 1)
      [.install (sampleEnv (sampleHeader "a" "1.0" 0)), .install (sampleEnv smashingFile)] =
        some (pkgDbAdd s (newEntry s (sampleEnv smashingFile) hdr' (hdr.name []) PathBuf.zeros)) := by
    rw [run, hs, Option.bind_some, run, pkgStep, hsecond]
    rfl
  have hnodup := (halways.last hrun).names
  have hsame : (newEntry s (sampleEnv smashingFile) hdr' (hdr.name []) PathBuf.zeros).name = ofString "a" := by
    rw [newEntry_name (by rw [Header.sigType, hbytes']; decide +kernel) _ [], Header.name, Header.str, hbytes']
    decide +kernel
  rw [pkgDbAdd, List.map_cons, hnames, hsame] at hnodup
  revert hnodup
  decide

end Crimson.Pkg
