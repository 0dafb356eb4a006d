import Crimson.Pkg.Model

/-!
# The database file (`pkg_db_save`, `pkg_db_load`)

The file is a record for each installed entry, in the order of the list: the header, four
words (the state, the repository, and the two halves of the time), and the path. Loading
reads a record into one variable, `entry`, that lives through the whole loop, and puts a
copy of it at the *front* of the list. So what comes back is the list in reverse, and what
is not in the file, the `auto_update` of an entry, is what the stack held when the variable
came to be. `roundTrips_iff` says for which lists that makes no difference.
-/

set_option autoImplicit false

namespace Crimson.Pkg

open Crimson.Lib Crimson.Str

/-- The words `state_data` of an entry. -/
def stateWords (e : PkgEntry) : List UInt8 :=
  leBytes 4 e.state.toNat ++ leBytes 4 e.repoId.toNat ++ leBytes 4 (e.installTime >>> 32).toUInt32.toNat ++
    leBytes 4 e.installTime.toUInt32.toNat

/-- The record `pkg_db_save` writes for an entry. -/
def saveEntry (e : PkgEntry) : List UInt8 := e.header.bytes ++ stateWords e ++ e.installPath.bytes

/-- What `pkg_db_save` writes. -/
def pkgDbSave (s : PkgState) : List UInt8 := s.installed.flatMap saveEntry

/-- What a call of `pkg_db_load` meets: what the stack held where `entry` is, and whether
    `kmalloc` finds memory for the node of each record. -/
structure LoadEnv where
  installPath : PathBuf
  autoUpdate : UInt32
  allocOk : Nat → Bool

/-- The word read at an offset. -/
def word32 (bytes : List UInt8) (off : Nat) : UInt32 := (wordAt bytes off 4).toUInt32

/-- The loop of `pkg_db_load`: `path` is `entry.install_path`, `n` the number of records read.
    It has no result when a path does not end in its field, for then `strcpy` runs on. -/
def dbLoadLoop (env : LoadEnv) : Nat → PathBuf → Nat → List UInt8 → PkgState → Option PkgState
  | 0, _, _, _, s => some s
  | fuel + 1, path, n, file, s =>
    if hheader : headerSize ≤ file.length then
      let header : Header := ⟨file.take headerSize, by simp [Nat.min_eq_left hheader]⟩
      let stateData := (file.drop headerSize).take 16
      let pathBuf := (file.drop (headerSize + 16)).take 256
      if header.magic ≠ crimsonPkgMagic then some s
      else if stateData.length ≠ 16 then some s
      else if pathBuf.length ≠ 256 then some s
      else if hpath : (cstr pathBuf).length < 256 then
        let path := path.strcpy (cstr pathBuf) hpath
        let entry : PkgEntry :=
          { header := header
            state := word32 stateData 0
            repoId := word32 stateData 4
            installPath := path
            installTime := (word32 stateData 8).toUInt64 <<< 32 ||| (word32 stateData 12).toUInt64
            autoUpdate := env.autoUpdate }
        if env.allocOk n then
          dbLoadLoop env fuel path (n + 1) (file.drop (headerSize + 16 + 256)) (pkgDbAdd s entry)
        else some s
      else none
    else some s

/-- `pkg_db_load`; a database that cannot be opened is `none`. -/
def pkgDbLoad (env : LoadEnv) (file : Option (List UInt8)) (s : PkgState) : Option PkgState :=
  match file with
  | none => some s
  | some file => dbLoadLoop env (file.length + 1) env.installPath 0 file s

/-! ## The property -/

/-- The fields of an entry, the path as the string it is. -/
def PkgEntry.fields (e : PkgEntry) : Header × UInt32 × UInt32 × List UInt8 × UInt64 × UInt32 :=
  (e.header, e.state, e.repoId, cstr e.installPath.bytes, e.installTime, e.autoUpdate)

/-- Saving and loading into an empty state gives the same entries, in the same order, and counts them. -/
def RoundTrips (env : LoadEnv) (s : PkgState) : Prop :=
  ∃ t, pkgDbLoad env (some (pkgDbSave s)) { s with installed := [], totalInstalled := 0 } = some t ∧
    t.installed.map PkgEntry.fields = s.installed.map PkgEntry.fields ∧
    t.totalInstalled.toNat = s.installed.length

/-- The list reads the same backwards, every `auto_update` is what the stack will hold, every
    path ends in its field, there is memory for the nodes, and the counter can count them. -/
structure SurvivesReload (env : LoadEnv) (s : PkgState) : Prop where
  palindrome : (s.installed.map PkgEntry.fields).reverse = s.installed.map PkgEntry.fields
  autoUpdate : ∀ e ∈ s.installed, e.autoUpdate = env.autoUpdate
  terminated : ∀ e ∈ s.installed, (0 : UInt8) ∈ e.installPath.bytes
  memory : ∀ n < s.installed.length, env.allocOk n = true
  counted : s.installed.length < 2 ^ 32

/-! ## One record -/

theorem cstr_strcpy (buf : PathBuf) (bytes : List UInt8) (hs : (cstr bytes).length < 256) :
    cstr (buf.strcpy (cstr bytes) hs).bytes = cstr bytes :=
  cstr_zero (cstr_notMem bytes) _

theorem PathBuf.length_cstr_lt {buf : PathBuf} : (cstr buf.bytes).length < 256 ↔ (0 : UInt8) ∈ buf.bytes := by
  rw [← Str.length_cstr_lt, buf.size]

@[simp]
theorem length_stateWords (e : PkgEntry) : (stateWords e).length = 16 := by simp [stateWords]

theorem length_saveEntry (e : PkgEntry) : (saveEntry e).length = headerSize + 16 + 256 := by
  rw [saveEntry, List.length_append, List.length_append, e.header.size, length_stateWords, e.installPath.size]

theorem word32_leBytes (before : List UInt8) (x : UInt32) (rest : List UInt8) {off : Nat} (hoff : before.length = off) :
    word32 (before ++ (leBytes 4 x.toNat ++ rest)) off = x := by
  subst hoff
  unfold word32 wordAt
  rw [List.drop_left, List.take_left' (length_leBytes 4 _), leNat_leBytes x.toNat_lt]
  simp

/-- The time is put together again from its halves. -/
theorem join_halves (x : UInt64) : ((x >>> 32).toUInt32.toUInt64 <<< 32 ||| x.toUInt32.toUInt64) = x := by
  have hx := x.toNat_lt
  have hhigh : ((x >>> 32).toUInt32.toUInt64 <<< 32).toNat = (x.toNat / 2 ^ 32) <<< 32 := by
    simp [Nat.shiftRight_eq_div_pow, Nat.shiftLeft_eq]
    omega
  have hlow : x.toUInt32.toUInt64.toNat = x.toNat % 2 ^ 32 := by simp
  apply UInt64.toNat_inj.mp
  rw [UInt64.toNat_or, hhigh, hlow, ← Nat.shiftLeft_add_eq_or_of_lt (Nat.mod_lt _ (by decide)), Nat.shiftLeft_eq]
  omega

/-- The four words of a record are read back. -/
theorem word32_stateWords (e : PkgEntry) :
    word32 (stateWords e) 0 = e.state ∧ word32 (stateWords e) 4 = e.repoId ∧
      word32 (stateWords e) 8 = (e.installTime >>> 32).toUInt32 ∧ word32 (stateWords e) 12 = e.installTime.toUInt32 := by
  unfold stateWords
  refine ⟨?_, ?_, ?_, ?_⟩
  · rw [List.append_assoc, List.append_assoc]
    exact word32_leBytes [] e.state _ rfl
  · rw [List.append_assoc, List.append_assoc]
    exact word32_leBytes _ e.repoId _ (by simp)
  · rw [List.append_assoc]
    exact word32_leBytes _ _ _ (by simp)
  · rw [← List.append_nil (leBytes 4 e.installTime.toUInt32.toNat)]
    exact word32_leBytes _ _ _ (by simp)

/-- What a record comes back as. -/
def reloaded (env : LoadEnv) (path : PathBuf) (e : PkgEntry) (hpath : (cstr e.installPath.bytes).length < 256) :
    PkgEntry :=
  { e with installPath := path.strcpy (cstr e.installPath.bytes) hpath, autoUpdate := env.autoUpdate }

/-- **One round of the loop**, at a record that was saved. -/
theorem dbLoadLoop_record (env : LoadEnv) (fuel : Nat) (path : PathBuf) (n : Nat) (e : PkgEntry)
    (hmagic : e.header.magic = crimsonPkgMagic) (rest : List UInt8) (s : PkgState) :
    dbLoadLoop env (fuel + 1) path n (saveEntry e ++ rest) s =
      if hpath : (cstr e.installPath.bytes).length < 256 then
        if env.allocOk n = true then
          dbLoadLoop env fuel (path.strcpy (cstr e.installPath.bytes) hpath) (n + 1) rest
            (pkgDbAdd s (reloaded env path e hpath))
        else some s
      else none := by
  have hheader : (saveEntry e ++ rest).take headerSize = e.header.bytes := by
    rw [saveEntry, List.append_assoc, List.append_assoc, List.take_left' e.header.size]
  have hwords : ((saveEntry e ++ rest).drop headerSize).take 16 = stateWords e := by
    rw [saveEntry, List.append_assoc, List.append_assoc, List.drop_left' e.header.size,
      List.take_left' (length_stateWords e)]
  have hpath : ((saveEntry e ++ rest).drop (headerSize + 16)).take 256 = e.installPath.bytes := by
    have hlen : (e.header.bytes ++ stateWords e).length = headerSize + 16 := by
      rw [List.length_append, e.header.size, length_stateWords]
    rw [saveEntry, List.append_assoc, List.drop_left' hlen, List.take_left' e.installPath.size]
  have hrest : (saveEntry e ++ rest).drop (headerSize + 16 + 256) = rest := List.drop_left' (length_saveEntry e)
  have hlong : headerSize ≤ (saveEntry e ++ rest).length := by
    rw [List.length_append, length_saveEntry]
    omega
  obtain ⟨hstate, hrepo, hhigh, hlow⟩ := word32_stateWords e
  rw [dbLoadLoop, dif_pos hlong]
  simp only [hheader, hwords, hpath, hrest, hmagic, hstate, hrepo, hhigh, hlow, join_halves, length_stateWords,
    e.installPath.size, ne_eq, not_true_eq_false, if_false]
  rfl

/-! ## The whole file -/

/-- The fields a record comes back with. -/
def reloadedFields (env : LoadEnv) (e : PkgEntry) : Header × UInt32 × UInt32 × List UInt8 × UInt64 × UInt32 :=
  PkgEntry.fields { e with autoUpdate := env.autoUpdate }

theorem reloaded_fields (env : LoadEnv) (path : PathBuf) (e : PkgEntry) (hpath : (cstr e.installPath.bytes).length < 256) :
    (reloaded env path e hpath).fields = reloadedFields env e := by
  unfold reloaded reloadedFields PkgEntry.fields
  rw [cstr_strcpy]

/-- **What the loop makes of the saved records**: it puts the first `k` of them at the front,
    one after the other, and counts them; when it stops before the last it had no memory. -/
theorem dbLoadLoop_some (env : LoadEnv) (es : List PkgEntry) (hmagic : ∀ e ∈ es, e.header.magic = crimsonPkgMagic) :
    ∀ {fuel : Nat} {path : PathBuf} {n : Nat} {s t : PkgState}, es.length < fuel →
      dbLoadLoop env fuel path n (es.flatMap saveEntry) s = some t →
      ∃ k ≤ es.length,
        (∀ e ∈ es.take k, (0 : UInt8) ∈ e.installPath.bytes) ∧
        (∀ i < k, env.allocOk (n + i) = true) ∧
        (k < es.length → env.allocOk (n + k) = false) ∧
        t.installed.map PkgEntry.fields =
          ((es.take k).map (reloadedFields env)).reverse ++ s.installed.map PkgEntry.fields ∧
        t.totalInstalled = s.totalInstalled + k.toUInt32 := by
  induction es with
  | nil =>
    intro fuel path n s t hfuel h
    obtain ⟨fuel, rfl⟩ := Nat.exists_eq_succ_of_ne_zero (Nat.ne_of_gt (Nat.lt_of_le_of_lt (Nat.zero_le _) hfuel))
    simp only [List.flatMap_nil, dbLoadLoop, List.length_nil, headerSize] at h
    obtain rfl := Option.some.inj h
    exact ⟨0, by simp⟩
  | cons e es ih =>
    intro fuel path n s t hfuel h
    obtain ⟨fuel, rfl⟩ := Nat.exists_eq_succ_of_ne_zero (Nat.ne_of_gt (Nat.lt_of_le_of_lt (Nat.zero_le _) hfuel))
    rw [List.flatMap_cons, dbLoadLoop_record env fuel path n e (hmagic e List.mem_cons_self)] at h
    split at h
    · next hpath =>
      split at h
      · next halloc =>
        obtain ⟨k, hk, hterm, hmem, hstop, hfields, htotal⟩ :=
          ih (fun e' he' => hmagic e' (List.mem_cons_of_mem e he')) (by simpa using hfuel) h
        refine ⟨k + 1, by simpa using hk, ?_, ?_, ?_, ?_, ?_⟩
        · rw [List.take_succ_cons]
          intro e' he'
          rcases List.mem_cons.mp he' with rfl | he'
          · exact PathBuf.length_cstr_lt.mp hpath
          · exact hterm e' he'
        · intro i hi
          cases i with
          | zero => exact halloc
          | succ i =>
            have := hmem i (by omega)
            rwa [Nat.add_right_comm] at this
        · intro hlt
          have := hstop (by simpa using hlt)
          rwa [Nat.add_right_comm] at this
        · rw [hfields]
          simp [pkgDbAdd, reloaded_fields]
        · rw [htotal]
          simp [pkgDbAdd, UInt32.add_assoc, UInt32.add_comm]
      · next halloc =>
        -- no memory for the entry, and the loop stops
        obtain rfl := Option.some.inj h
        refine ⟨0, Nat.zero_le _, ?_⟩
        simpa using halloc
    · cases h

/-- When every path ends in its field, the loop has a result. -/
theorem dbLoadLoop_isSome (env : LoadEnv) (es : List PkgEntry) (hmagic : ∀ e ∈ es, e.header.magic = crimsonPkgMagic)
    (hterm : ∀ e ∈ es, (0 : UInt8) ∈ e.installPath.bytes) :
    ∀ (fuel : Nat) (path : PathBuf) (n : Nat) (s : PkgState),
      (dbLoadLoop env fuel path n (es.flatMap saveEntry) s).isSome = true := by
  induction es with
  | nil =>
    intro fuel path n s
    cases fuel <;> simp [dbLoadLoop, headerSize]
  | cons e es ih =>
    intro fuel path n s
    cases fuel with
    | zero => rfl
    | succ fuel =>
      have hpath := PathBuf.length_cstr_lt.mpr (hterm e List.mem_cons_self)
      rw [List.flatMap_cons, dbLoadLoop_record env fuel path n e (hmagic e List.mem_cons_self), dif_pos hpath]
      split
      · apply ih
        · exact fun e' he' => hmagic e' (List.mem_cons_of_mem e he')
        · exact fun e' he' => hterm e' (List.mem_cons_of_mem e he')
      · rfl

theorem length_le_pkgDbSave (s : PkgState) : s.installed.length ≤ (pkgDbSave s).length := by
  unfold pkgDbSave
  induction s.installed with
  | nil => exact Nat.zero_le _
  | cons e es ih =>
    rw [List.flatMap_cons, List.length_append, List.length_cons, length_saveEntry, headerSize]
    omega

theorem reloadedFields_eq {env : LoadEnv} {e : PkgEntry} (h : e.autoUpdate = env.autoUpdate) :
    reloadedFields env e = e.fields := by
  unfold reloadedFields
  rw [← h]

/-- **Which lists survive being saved and loaded**: for any entries with the magic in their
    headers, any stack and any memory. -/
theorem roundTrips_iff (env : LoadEnv) (s : PkgState) (hmagic : ∀ e ∈ s.installed, e.header.magic = crimsonPkgMagic) :
    RoundTrips env s ↔ SurvivesReload env s := by
  have hfuel : s.installed.length < (pkgDbSave s).length + 1 := Nat.lt_succ_of_le (length_le_pkgDbSave s)
  constructor
  · rintro ⟨t, hload, hfields, htotal⟩
    obtain ⟨k, hk, hterm, hmem, _, hloaded, hcount⟩ := dbLoadLoop_some env s.installed hmagic hfuel hload
    rw [hfields] at hloaded
    -- As many entries come back as are read, so all were read.
    obtain rfl : k = s.installed.length := by
      have hlen := congrArg List.length hloaded
      simp at hlen
      omega
    rw [List.take_length] at hterm hloaded
    simp only [List.map_nil, List.append_nil] at hloaded
    have hauto : ∀ e ∈ s.installed, e.autoUpdate = env.autoUpdate := by
      intro e he
      have hmem : e.fields ∈ ((s.installed.map (reloadedFields env)).reverse) := hloaded ▸ List.mem_map_of_mem he
      obtain ⟨e', _, heq⟩ := List.mem_map.mp (List.mem_reverse.mp hmem)
      have hlast := congrArg (fun fields => fields.2.2.2.2.2) heq
      exact hlast.symm
    have hsame : s.installed.map (reloadedFields env) = s.installed.map PkgEntry.fields :=
      List.map_congr_left fun e he => reloadedFields_eq (hauto e he)
    refine ⟨by rw [← hsame, ← hloaded, hsame], hauto, hterm, ?_, ?_⟩
    · intro n hn
      simpa using hmem n hn
    · rw [hcount] at htotal
      simp at htotal
      omega
  · intro h
    obtain ⟨t, hload⟩ := Option.isSome_iff_exists.mp
      (dbLoadLoop_isSome env s.installed hmagic h.terminated ((pkgDbSave s).length + 1) env.installPath 0
        { s with installed := [], totalInstalled := 0 })
    obtain ⟨k, hk, _, _, hstop, hloaded, hcount⟩ := dbLoadLoop_some env s.installed hmagic hfuel hload
    obtain rfl : k = s.installed.length := by
      by_contra hne
      have hlt : k < s.installed.length := by omega
      have hno := hstop hlt
      rw [Nat.zero_add, h.memory k hlt] at hno
      cases hno
    have hsame : s.installed.map (reloadedFields env) = s.installed.map PkgEntry.fields :=
      List.map_congr_left fun e he => reloadedFields_eq (h.autoUpdate e he)
    refine ⟨t, hload, ?_, ?_⟩
    · rw [hloaded, List.take_length, hsame, h.palindrome]
      simp
    · rw [hcount]
      have := h.counted
      simp
      omega

/-- An entry for a package of a one-letter name. -/
def letterEntry (letter : UInt8) : PkgEntry where
  header :=
    { bytes := leBytes 4 crimsonPkgMagic ++ List.replicate 16 0 ++ letter :: List.replicate 2003 0
      size := by simp only [List.length_append, length_leBytes, List.length_replicate, List.length_cons]; rfl }
  state := pkgStateInstalled
  repoId := 0xFFFFFFFF
  installPath := PathBuf.zeros
  installTime := 60
  autoUpdate := 1

def letterEnv : LoadEnv := ⟨PathBuf.zeros, 1, fun _ => true⟩

theorem roundTrips_one : RoundTrips letterEnv ⟨[letterEntry 97], 1, ofString "/apps", 1⟩ := by
  apply (roundTrips_iff letterEnv _ ?_).mpr
  · exact ⟨rfl, by decide +kernel, by decide +kernel, fun _ _ => rfl, by decide⟩
  · decide +kernel

/-- Two entries come back the other way round. -/
theorem two_entries_reversed : ¬RoundTrips letterEnv ⟨[letterEntry 97, letterEntry 98], 2, ofString "/apps", 1⟩ := by
  rintro ⟨t, hload, hfields, _⟩
  have hrun : (pkgDbLoad letterEnv (some (pkgDbSave ⟨[letterEntry 97, letterEntry 98], 2, ofString "/apps", 1⟩))
      ⟨[], 0, ofString "/apps", 1⟩).map (fun t => t.installed.map fun e => e.header.bytes.drop 20 |>.take 1) =
        some [[98], [97]] := by decide +kernel
  rw [hload] at hrun
  have hnames := congrArg (List.map fun fields => fields.1.bytes.drop 20 |>.take 1) hfields
  rw [List.map_map] at hnames
  have heq := (Option.some.inj hrun).symm.trans hnames
  revert heq
  decide +kernel

end Crimson.Pkg
