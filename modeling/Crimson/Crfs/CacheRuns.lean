import Crimson.Crfs.InodeCache

/-!
# The inode cache over whole runs

`CacheInv` is what every step keeps that meets its condition, `CacheGuard`: an inode that a
thread has read from the disk and not yet inserted is its own, and the inodes that threads have
at hand otherwise are in the cache. A step outside the condition ends in a state in which the
cache is not sound (`CacheInv.guard_of_sound`), so the cache is sound throughout a run exactly
where every step meets it (`inodeCache_sound_iff`).
-/

set_option autoImplicit false

namespace Crimson.Crfs

open Crimson.Lib Crimson.Mm

variable {fs fs' : Fs} {w w' : CacheWorld} {t inodeNo : Nat} {r : InodeRef} {p : CachePlace}

theorem mem_entriesFor :
    r ∈ entriesFor fs inodeNo ↔ r ∈ fs.inodeCache (inodeNo % 256) ∧ (fs.inodes r).inodeNo = inodeNo := by
  simp [entriesFor]

theorem cached_of_entry (h : r ∈ entriesFor fs inodeNo) : Cached fs r := ⟨_, (mem_entriesFor.mp h).1⟩

theorem entriesFor_congr (hcache : fs'.inodeCache = fs.inodeCache)
    (hno : ∀ r, Cached fs r → (fs'.inodes r).inodeNo = (fs.inodes r).inodeNo) : entriesFor fs' inodeNo = entriesFor fs inodeNo := by
  rw [entriesFor, entriesFor, hcache]
  exact List.filter_congr fun r hr => by rw [hno r ⟨_, hr⟩]

/-- What a place of a thread says of the inode it has at hand. -/
def PlaceOk (fs : Fs) : CachePlace → Prop
  | .hit inodeNo r => r ∈ entriesFor fs inodeNo
  | .hitLoaded inodeNo r count => r ∈ entriesFor fs inodeNo ∧ count < 2 ^ 32
  | .filled inodeNo r =>
    r < fs.inodeCount ∧ (fs.inodes r).inodeNo = inodeNo ∧ (fs.inodes r).refCount = 1 ∧ ¬Cached fs r
  | .put r | .putLocked r | .putStored r => Cached fs r
  | .putLoaded r count => Cached fs r ∧ count < 2 ^ 32
  | _ => True

/-- Entries that stay in the cache are good for the places that have them at hand. -/
theorem PlaceOk.mono (hp : PlaceOk fs p) (hentry : ∀ {no r}, r ∈ entriesFor fs no → r ∈ entriesFor fs' no)
    (hcached : ∀ {r}, Cached fs r → Cached fs' r) (hfilled : ∀ no r, p = .filled no r → PlaceOk fs' (.filled no r)) :
    PlaceOk fs' p := by
  cases p with
  | hit no r => exact hentry hp
  | hitLoaded no r count => exact ⟨hentry hp.1, hp.2⟩
  | filled no r => exact hfilled no r rfl
  | put r => exact hcached hp
  | putLocked r => exact hcached hp
  | putStored r => exact hcached hp
  | putLoaded r count => exact ⟨hcached hp.1, hp.2⟩
  | idle => trivial
  | lookup no => trivial
  | missed no => trivial

structure CacheInv (w : CacheWorld) : Prop where
  sound : CacheSound w
  allocated : ∀ r, Cached w.fs r → r < w.fs.inodeCount
  bounded : ∀ r, Cached w.fs r → (w.fs.inodes r).refCount < 2 ^ 32
  released : ∀ r ∈ w.released, Cached w.fs r
  places : ∀ t, PlaceOk w.fs (w.place t)
  own : ∀ t t' no no' r, w.place t = .filled no r → w.place t' = .filled no' r → t = t'

theorem cacheInv_start : CacheInv (cacheStart fs) := by
  have hempty (r : InodeRef) : ¬Cached (cacheStart fs).fs r := fun ⟨_, h⟩ => List.not_mem_nil h
  refine ⟨⟨fun hash r h => absurd ⟨hash, h⟩ (hempty r), fun no => Nat.zero_le 1, fun x hx => ?_, ?_⟩, ?_, ?_, ?_, ?_, ?_⟩
  · cases hx
  · exact fun r hr => absurd hr (hempty r)
  · exact fun r hr => absurd hr (hempty r)
  · exact fun r hr => absurd hr (hempty r)
  · exact fun r hr => absurd hr List.not_mem_nil
  · exact fun t => trivial
  · intro t t' no no' r h
    cases h

/-! ## Steps that keep the entries -/

/-- The cache and the numbers of the inodes are as they were, and the counts of the inodes that
    are not in it; new inodes are allocated behind the others. -/
structure EntriesKept (fs fs' : Fs) : Prop where
  cache : fs'.inodeCache = fs.inodeCache
  inodeCount : fs.inodeCount ≤ fs'.inodeCount
  inodeNo : ∀ r, r < fs.inodeCount → (fs'.inodes r).inodeNo = (fs.inodes r).inodeNo
  refCount : ∀ r, r < fs.inodeCount → ¬Cached fs r → (fs'.inodes r).refCount = (fs.inodes r).refCount

theorem EntriesKept.refl : EntriesKept fs fs := ⟨rfl, le_rfl, fun _ _ => rfl, fun _ _ _ => rfl⟩

theorem EntriesKept.cached (h : EntriesKept fs fs') : Cached fs' r ↔ Cached fs r := by
  unfold Cached
  rw [h.cache]

theorem CacheInv.entries (h : CacheInv w) (hk : EntriesKept w.fs fs') : entriesFor fs' inodeNo = entriesFor w.fs inodeNo :=
  entriesFor_congr hk.cache fun r hr => hk.inodeNo r (h.allocated r hr)

theorem CacheInv.placeOk (h : CacheInv w) (hk : EntriesKept w.fs fs') (hp : PlaceOk w.fs p) : PlaceOk fs' p := by
  refine hp.mono (fun hr => by rwa [h.entries hk]) hk.cached.mpr fun no r hat => ?_
  subst hat
  obtain ⟨hr, hno, hone, hout⟩ := hp
  refine ⟨Nat.lt_of_lt_of_le hr hk.inodeCount, ?_, ?_, ?_⟩
  · rw [hk.inodeNo r hr, hno]
  · rw [hk.refCount r hr hout, hone]
  · rwa [hk.cached]

theorem setRefCount_kept {c : Nat} (hr : Cached fs r) : EntriesKept fs (setRefCount fs r c) := by
  refine ⟨rfl, le_rfl, fun x _ => ?_, fun x _ hx => ?_⟩
  · by_cases hxr : x = r
    · subst hxr
      simp [setRefCount, Fs.modInode]
    · simp [setRefCount, Fs.modInode, Function.update_of_ne hxr]
  · have hxr : x ≠ r := fun h => hx (h ▸ hr)
    simp [setRefCount, Fs.modInode, Function.update_of_ne hxr]

theorem inodes_loadInode (hr : r < fs.inodeCount) : (loadInode fs inodeNo).inodes r = fs.inodes r :=
  Function.update_of_ne (Nat.ne_of_lt hr) _ _

theorem loadInode_kept : EntriesKept fs (loadInode fs inodeNo) :=
  ⟨rfl, Nat.le_succ _, fun r hr => by rw [inodes_loadInode hr], fun r hr _ => by rw [inodes_loadInode hr]⟩

theorem inodes_writeInode (x : InodeRef) : ((writeInode fs r).inodes x).inodeNo = (fs.inodes x).inodeNo ∧
    ((writeInode fs r).inodes x).refCount = (fs.inodes x).refCount := by
  by_cases hxr : x = r
  · subst hxr
    simp [writeInode, writeBlock, Fs.modDisk, Fs.modInode]
  · simp [writeInode, writeBlock, Fs.modDisk, Fs.modInode, Function.update_of_ne hxr]

theorem refCount_setRefCount {c : Nat} : ((setRefCount fs r c).inodes r).refCount = c := by
  simp [setRefCount, Fs.modInode]

theorem refCount_setRefCount_ne {c : Nat} {x : InodeRef} (hxr : x ≠ r) :
    ((setRefCount fs r c).inodes x).refCount = (fs.inodes x).refCount := by
  simp [setRefCount, Fs.modInode, Function.update_of_ne hxr]

/-- No other thread is about to insert the inode that the thread at `p` is about to insert. -/
def OwnAt (w : CacheWorld) (t : Nat) (p : CachePlace) : Prop :=
  ∀ no r, p = .filled no r → ∀ t' no', t' ≠ t → w.place t' ≠ .filled no' r

theorem CacheInv.own_update (h : CacheInv w) (hp : OwnAt w t p) {t₁ t₂ no no' : Nat}
    (h₁ : Function.update w.place t p t₁ = .filled no r) (h₂ : Function.update w.place t p t₂ = .filled no' r) :
    t₁ = t₂ := by
  by_cases h₁t : t₁ = t
  · by_cases h₂t : t₂ = t
    · rw [h₁t, h₂t]
    · rw [h₁t, Function.update_self] at h₁
      rw [Function.update_of_ne h₂t] at h₂
      exact absurd h₂ (hp no r h₁ t₂ no' h₂t)
  · rw [Function.update_of_ne h₁t] at h₁
    by_cases h₂t : t₂ = t
    · rw [h₂t, Function.update_self] at h₂
      exact absurd h₁ (hp no' r h₂ t₁ no h₁t)
    · rw [Function.update_of_ne h₂t] at h₂
      exact h.own t₁ t₂ no no' r h₁ h₂

/-- **A step that keeps the entries** keeps the invariant, if it keeps what is counted. -/
theorem CacheInv.of_kept (h : CacheInv w) (hk : EntriesKept w.fs w'.fs) (hplace : w'.place = Function.update w.place t p)
    (hp : PlaceOk w'.fs p) (hown : OwnAt w t p)
    (hreturned : ∀ x ∈ w'.returned, ∃ r, x.2 = some r ∧ r ∈ entriesFor w.fs x.1)
    (hreleased : ∀ r ∈ w'.released, Cached w.fs r)
    (hbounded : ∀ r, Cached w.fs r → (w'.fs.inodes r).refCount < 2 ^ 32)
    (hcounts : ∀ r, Cached w.fs r → ((w'.fs.inodes r).refCount : Int) = gets w' r - puts w' r) : CacheInv w' := by
  refine ⟨⟨?_, ?_, ?_, ?_⟩, ?_, ?_, ?_, ?_, ?_⟩
  · intro hash r hr
    rw [hk.cache] at hr
    rw [hk.inodeNo r (h.allocated r ⟨hash, hr⟩)]
    exact h.sound.hashed hash r hr
  · intro no
    rw [h.entries hk]
    exact h.sound.unique no
  · intro x hx
    rw [h.entries hk]
    exact hreturned x hx
  · intro r hr
    exact hcounts r (hk.cached.mp hr)
  · intro r hr
    exact Nat.lt_of_lt_of_le (h.allocated r (hk.cached.mp hr)) hk.inodeCount
  · intro r hr
    exact hbounded r (hk.cached.mp hr)
  · intro r hr
    exact hk.cached.mpr (hreleased r hr)
  · intro t'
    rw [hplace]
    by_cases ht : t' = t
    · subst ht
      rwa [Function.update_self]
    · rw [Function.update_of_ne ht]
      exact h.placeOk hk (h.places t')
  · intro t₁ t₂ no no' r h₁ h₂
    rw [hplace] at h₁ h₂
    exact h.own_update hown h₁ h₂

/-- A step that leaves the counts alone. -/
theorem CacheInv.moved (h : CacheInv w) (hk : EntriesKept w.fs w'.fs)
    (hsame : ∀ r, Cached w.fs r → (w'.fs.inodes r).refCount = (w.fs.inodes r).refCount)
    (hplace : w'.place = Function.update w.place t p) (hp : PlaceOk w'.fs p) (hown : OwnAt w t p)
    (hreturned : w'.returned = w.returned) (hreleased : w'.released = w.released) : CacheInv w' := by
  refine h.of_kept hk hplace hp hown ?_ ?_ ?_ ?_
  · rw [hreturned]
    exact h.sound.returned
  · rw [hreleased]
    exact h.released
  · intro r hr
    rw [hsame r hr]
    exact h.bounded r hr
  · intro r hr
    rw [hsame r hr, gets, puts, hreturned, hreleased]
    exact h.sound.counts r hr

/-- `crfs_iget` reads an inode from the disk. -/
theorem CacheInv.loaded (h : CacheInv w) (hfs : w'.fs = loadInode w.fs inodeNo)
    (hplace : w'.place = Function.update w.place t (.filled inodeNo w.fs.inodeCount)) (hreturned : w'.returned = w.returned)
    (hreleased : w'.released = w.released) : CacheInv w' := by
  have hkept : EntriesKept w.fs w'.fs := hfs ▸ loadInode_kept
  refine h.moved hkept (fun r hr => ?_) hplace ⟨?_, ?_, ?_, ?_⟩ ?_ hreturned hreleased
  · rw [hfs, inodes_loadInode (h.allocated r hr)]
  · rw [hfs]
    exact Nat.lt_succ_self _
  · simp [hfs, loadInode]
  · simp [hfs, loadInode]
  · rw [hkept.cached]
    exact fun hr => Nat.lt_irrefl _ (h.allocated _ hr)
  · -- the new inode is behind all that other threads have at hand
    intro no r hat t' no' _ hat'
    obtain ⟨-, rfl⟩ := CachePlace.filled.inj hat
    have hok := h.places t'
    rw [hat'] at hok
    exact Nat.lt_irrefl _ hok.1

/-- The end of `crfs_iput`. -/
theorem CacheInv.putEnd (h : CacheInv w) (hfs : w'.fs = writeInode w.fs r ∨ w'.fs = w.fs)
    (hplace : w'.place = Function.update w.place t .idle) (hreturned : w'.returned = w.returned)
    (hreleased : w'.released = w.released) : CacheInv w' := by
  have hsame (x : InodeRef) : (w'.fs.inodes x).inodeNo = (w.fs.inodes x).inodeNo ∧
      (w'.fs.inodes x).refCount = (w.fs.inodes x).refCount := by
    obtain hfs | hfs := hfs
    · rw [hfs]
      exact inodes_writeInode x
    · rw [hfs]
      exact ⟨rfl, rfl⟩
  have hkept : EntriesKept w.fs w'.fs := by
    obtain hfs | hfs := hfs
    · refine ⟨?_, ?_, fun x _ => (hsame x).1, fun x _ _ => (hsame x).2⟩
      · rw [hfs]
        rfl
      · rw [hfs]
        exact le_rfl
    · rw [hfs]
      exact .refl
  exact h.moved hkept (fun x _ => (hsame x).2) hplace trivial (fun no r hat => by cases hat) hreturned hreleased

/-! ## Counts -/

theorem gets_cons (h : w'.returned = (inodeNo, some r) :: w.returned) : gets w' r = gets w r + 1 := by
  simp [gets, h]

theorem gets_cons_ne {x : InodeRef} (h : w'.returned = (inodeNo, some r) :: w.returned) (hxr : x ≠ r) :
    gets w' x = gets w x := by
  have hne : r ≠ x := Ne.symm hxr
  simp [gets, h, hne]

theorem puts_cons (h : w'.released = r :: w.released) : puts w' r = puts w r + 1 := by
  simp [puts, h]

theorem puts_cons_ne {x : InodeRef} (h : w'.released = r :: w.released) (hxr : x ≠ r) : puts w' x = puts w x := by
  have hne : r ≠ x := Ne.symm hxr
  simp [puts, h, hne]

/-- An inode that is not in the cache has not been returned. -/
theorem CacheInv.gets_eq_zero (h : CacheInv w) (hr : ¬Cached w.fs r) : gets w r = 0 := by
  refine List.count_eq_zero.mpr fun hmem => hr ?_
  obtain ⟨x, hx, hxr⟩ := List.mem_map.mp hmem
  obtain ⟨r', hr', hentry⟩ := h.sound.returned x hx
  obtain rfl := Option.some.inj (hr'.symm.trans hxr)
  exact cached_of_entry hentry

theorem CacheInv.puts_eq_zero (h : CacheInv w) (hr : ¬Cached w.fs r) : puts w r = 0 :=
  List.count_eq_zero.mpr fun hmem => hr (h.released r hmem)

section Stores

variable {c : Nat}

/-- `crfs_iget` stores the count. -/
theorem CacheInv.hitStored (h : CacheInv w) (hentry : r ∈ entriesFor w.fs inodeNo)
    (hfs : w'.fs = setRefCount w.fs r ((c + 1) % 2 ^ 32)) (hplace : w'.place = Function.update w.place t .idle)
    (hreturned : w'.returned = (inodeNo, some r) :: w.returned) (hreleased : w'.released = w.released)
    (hc : c = (w.fs.inodes r).refCount) (hwrap : c + 1 < 2 ^ 32) : CacheInv w' := by
  have hr := cached_of_entry hentry
  have hmod : (c + 1) % 2 ^ 32 = c + 1 := Nat.mod_eq_of_lt hwrap
  rw [hmod] at hfs
  refine h.of_kept (hfs ▸ setRefCount_kept hr) hplace trivial (fun no r hat => by cases hat) ?_ ?_ ?_ ?_
  · intro x hx
    rw [hreturned] at hx
    rcases List.mem_cons.mp hx with rfl | hx
    · exact ⟨r, rfl, hentry⟩
    · exact h.sound.returned x hx
  · rw [hreleased]
    exact h.released
  · intro x hx
    by_cases hxr : x = r
    · subst hxr
      rw [hfs, refCount_setRefCount]
      exact hwrap
    · rw [hfs, refCount_setRefCount_ne hxr]
      exact h.bounded x hx
  · intro x hx
    have hcount := h.sound.counts x hx
    by_cases hxr : x = r
    · subst hxr
      rw [hfs, refCount_setRefCount, gets_cons hreturned, puts, hreleased, ← puts]
      omega
    · rw [hfs, refCount_setRefCount_ne hxr, gets_cons_ne hreturned hxr, puts, hreleased]
      exact hcount

theorem CacheInv.hitStored_guard (h : CacheInv w) (hsound : CacheSound w') (hentry : r ∈ entriesFor w.fs inodeNo)
    (hfs : w'.fs = setRefCount w.fs r ((c + 1) % 2 ^ 32)) (hreturned : w'.returned = (inodeNo, some r) :: w.returned)
    (hreleased : w'.released = w.released) (hlt : c < 2 ^ 32) :
    c = (w.fs.inodes r).refCount ∧ c + 1 < 2 ^ 32 := by
  have hr := cached_of_entry hentry
  have hkept : EntriesKept w.fs w'.fs := hfs ▸ setRefCount_kept hr
  have hcount := h.sound.counts r hr
  have hbound := h.bounded r hr
  have hnew := hsound.counts r (hkept.cached.mpr hr)
  rw [hfs, refCount_setRefCount, gets_cons hreturned, puts, hreleased, ← puts] at hnew
  omega

/-- `crfs_iput` stores the count. -/
theorem CacheInv.putStored (h : CacheInv w) (hr : Cached w.fs r)
    (hfs : w'.fs = setRefCount w.fs r ((c + (2 ^ 32 - 1)) % 2 ^ 32))
    (hplace : w'.place = Function.update w.place t (.putStored r)) (hreturned : w'.returned = w.returned)
    (hreleased : w'.released = r :: w.released) (hlt : c < 2 ^ 32) (hc : c = (w.fs.inodes r).refCount) (hpos : 0 < c) :
    CacheInv w' := by
  have hmod : (c + (2 ^ 32 - 1)) % 2 ^ 32 = c - 1 := by omega
  rw [hmod] at hfs
  have hkept : EntriesKept w.fs w'.fs := hfs ▸ setRefCount_kept hr
  refine h.of_kept hkept hplace (hkept.cached.mpr hr) (fun no r hat => by cases hat) ?_ ?_ ?_ ?_
  · rw [hreturned]
    exact h.sound.returned
  · intro x hx
    rw [hreleased] at hx
    rcases List.mem_cons.mp hx with rfl | hx
    · exact hr
    · exact h.released x hx
  · intro x hx
    by_cases hxr : x = r
    · subst hxr
      rw [hfs, refCount_setRefCount]
      omega
    · rw [hfs, refCount_setRefCount_ne hxr]
      exact h.bounded x hx
  · intro x hx
    have hcount := h.sound.counts x hx
    by_cases hxr : x = r
    · subst hxr
      rw [hfs, refCount_setRefCount, puts_cons hreleased, gets, hreturned, ← gets]
      omega
    · rw [hfs, refCount_setRefCount_ne hxr, puts_cons_ne hreleased hxr, gets, hreturned]
      exact hcount

theorem CacheInv.putStored_guard (h : CacheInv w) (hsound : CacheSound w') (hr : Cached w.fs r)
    (hfs : w'.fs = setRefCount w.fs r ((c + (2 ^ 32 - 1)) % 2 ^ 32)) (hreturned : w'.returned = w.returned)
    (hreleased : w'.released = r :: w.released) (hlt : c < 2 ^ 32) :
    c = (w.fs.inodes r).refCount ∧ 0 < c := by
  have hkept : EntriesKept w.fs w'.fs := hfs ▸ setRefCount_kept hr
  have hcount := h.sound.counts r hr
  have hbound := h.bounded r hr
  have hnew := hsound.counts r (hkept.cached.mpr hr)
  rw [hfs, refCount_setRefCount, puts_cons hreleased, gets, hreturned, ← gets] at hnew
  omega

end Stores

/-! ## An insertion -/

theorem insertInode_cached {x : InodeRef} : Cached (insertInode fs inodeNo r) x ↔ x = r ∨ Cached fs x := by
  constructor
  · rintro ⟨hash, hx⟩
    by_cases hhash : hash = inodeNo % 256
    · subst hhash
      have hx' : x ∈ r :: fs.inodeCache (inodeNo % 256) := by
        simpa [insertInode] using hx
      rcases List.mem_cons.mp hx' with rfl | hx'
      · exact Or.inl rfl
      · exact Or.inr ⟨_, hx'⟩
    · refine Or.inr ⟨hash, ?_⟩
      simpa [insertInode, Function.update_of_ne hhash] using hx
  · rintro (rfl | ⟨hash, hx⟩)
    · exact ⟨inodeNo % 256, by simp [insertInode]⟩
    · refine ⟨hash, ?_⟩
      by_cases hhash : hash = inodeNo % 256
      · subst hhash
        simp [insertInode, hx]
      · simpa [insertInode, Function.update_of_ne hhash] using hx

theorem entriesFor_insertInode_self (hno : (fs.inodes r).inodeNo = inodeNo) :
    entriesFor (insertInode fs inodeNo r) inodeNo = r :: entriesFor fs inodeNo := by
  have hchain : (insertInode fs inodeNo r).inodeCache (inodeNo % 256) = r :: fs.inodeCache (inodeNo % 256) := by
    simp [insertInode]
  rw [entriesFor, hchain]
  show List.filter (fun x => (fs.inodes x).inodeNo = inodeNo) (r :: fs.inodeCache (inodeNo % 256)) = _
  exact List.filter_cons_of_pos (by simpa using hno)

theorem entriesFor_insertInode_ne {no : Nat} (hno : (fs.inodes r).inodeNo = inodeNo) (hne : no ≠ inodeNo) :
    entriesFor (insertInode fs inodeNo r) no = entriesFor fs no := by
  have hother : (fs.inodes r).inodeNo ≠ no := fun h => hne (h.symm.trans hno)
  by_cases hhash : no % 256 = inodeNo % 256
  · have hchain : (insertInode fs inodeNo r).inodeCache (no % 256) = r :: fs.inodeCache (no % 256) := by
      simp [insertInode, hhash]
    rw [entriesFor, hchain]
    show List.filter (fun x => (fs.inodes x).inodeNo = no) (r :: fs.inodeCache (no % 256)) = _
    exact List.filter_cons_of_neg (by simpa using hother)
  · have hchain : (insertInode fs inodeNo r).inodeCache (no % 256) = fs.inodeCache (no % 256) :=
      Function.update_of_ne hhash _ _
    rw [entriesFor, hchain]
    rfl

theorem mem_entriesFor_insertInode {no : Nat} {x : InodeRef} (hno : (fs.inodes r).inodeNo = inodeNo)
    (hx : x ∈ entriesFor fs no) : x ∈ entriesFor (insertInode fs inodeNo r) no := by
  by_cases hne : no = inodeNo
  · subst hne
    rw [entriesFor_insertInode_self hno]
    exact List.mem_cons_of_mem _ hx
  · rwa [entriesFor_insertInode_ne hno hne]

/-- `crfs_iget` puts an inode into the cache, which has no entry for its number. -/
theorem CacheInv.inserted (h : CacheInv w) (hat : w.place t = .filled inodeNo r) (hfs : w'.fs = insertInode w.fs inodeNo r)
    (hplace : w'.place = Function.update w.place t .idle) (hreturned : w'.returned = (inodeNo, some r) :: w.returned)
    (hreleased : w'.released = w.released) (hfree : entriesFor w.fs inodeNo = []) : CacheInv w' := by
  have hok := h.places t
  rw [hat] at hok
  obtain ⟨halloc, hno, hone, hout⟩ := hok
  have hcached (x : InodeRef) : Cached w'.fs x ↔ x = r ∨ Cached w.fs x := by
    rw [hfs]
    exact insertInode_cached
  have hinodes : w'.fs.inodes = w.fs.inodes := by rw [hfs]; rfl
  have hmore {no : Nat} {x : InodeRef} (hx : x ∈ entriesFor w.fs no) : x ∈ entriesFor w'.fs no := by
    rw [hfs]
    exact mem_entriesFor_insertInode hno hx
  refine ⟨⟨?_, ?_, ?_, ?_⟩, ?_, ?_, ?_, ?_, ?_⟩
  · intro hash x hx
    rw [hinodes]
    by_cases hhash : hash = inodeNo % 256
    · subst hhash
      have hx' : x ∈ r :: w.fs.inodeCache (inodeNo % 256) := by
        rw [hfs] at hx
        simpa [insertInode] using hx
      rcases List.mem_cons.mp hx' with rfl | hx'
      · rw [hno]
      · exact h.sound.hashed _ x hx'
    · refine h.sound.hashed hash x ?_
      rw [hfs] at hx
      simpa [insertInode, Function.update_of_ne hhash] using hx
  · intro no
    by_cases hne : no = inodeNo
    · subst hne
      rw [hfs, entriesFor_insertInode_self hno, hfree]
      exact le_rfl
    · rw [hfs, entriesFor_insertInode_ne hno hne]
      exact h.sound.unique no
  · intro x hx
    rw [hreturned] at hx
    rcases List.mem_cons.mp hx with rfl | hx
    · refine ⟨r, rfl, ?_⟩
      rw [hfs, entriesFor_insertInode_self hno]
      exact List.mem_cons_self
    · obtain ⟨x', hx', hentry⟩ := h.sound.returned x hx
      exact ⟨x', hx', hmore hentry⟩
  · intro x hx
    rw [hinodes]
    rcases (hcached x).mp hx with rfl | hx
    · rw [hone, gets_cons hreturned, puts, hreleased, ← puts, h.gets_eq_zero hout, h.puts_eq_zero hout]
      rfl
    · have hxr : x ≠ r := fun heq => hout (heq ▸ hx)
      rw [gets_cons_ne hreturned hxr, puts, hreleased]
      exact h.sound.counts x hx
  · intro x hx
    rw [hfs]
    rcases (hcached x).mp hx with rfl | hx
    · exact halloc
    · exact h.allocated x hx
  · intro x hx
    rw [hinodes]
    rcases (hcached x).mp hx with rfl | hx
    · rw [hone]
      decide
    · exact h.bounded x hx
  · intro x hx
    rw [hreleased] at hx
    exact (hcached x).mpr (Or.inr (h.released x hx))
  · intro t'
    rw [hplace]
    by_cases ht : t' = t
    · subst ht
      rw [Function.update_self]
      trivial
    · rw [Function.update_of_ne ht]
      refine (h.places t').mono hmore (fun hx => (hcached _).mpr (Or.inr hx)) fun no x hat' => ?_
      have hok := h.places t'
      rw [hat'] at hok
      obtain ⟨hx, hxno, hxone, hxout⟩ := hok
      refine ⟨by rwa [hfs], by rwa [hinodes], by rwa [hinodes], fun hc => ?_⟩
      -- two threads that are about to insert have different inodes
      rcases (hcached x).mp hc with rfl | hc
      · exact ht (h.own t' t no inodeNo x hat' hat)
      · exact hxout hc
  · intro t₁ t₂ no no' x h₁ h₂
    rw [hplace] at h₁ h₂
    exact h.own_update (fun no r hat => by cases hat) h₁ h₂

theorem CacheInv.inserted_guard (h : CacheInv w) (hsound : CacheSound w') (hat : w.place t = .filled inodeNo r)
    (hfs : w'.fs = insertInode w.fs inodeNo r) : entriesFor w.fs inodeNo = [] := by
  have hok := h.places t
  rw [hat] at hok
  have hone := hsound.unique inodeNo
  rw [hfs, entriesFor_insertInode_self hok.2.1, List.length_cons] at hone
  exact List.length_eq_zero_iff.mp (by omega)

/-! ## Steps and runs -/

/-- A thread goes on, at a place where nothing is written to the cache. -/
theorem CacheInv.goto (h : CacheInv w) (hp : PlaceOk w.fs p) (hown : OwnAt w t p) : CacheInv (w.goto t p) :=
  h.moved .refl (fun _ _ => rfl) rfl hp hown rfl rfl

theorem find_entry (h : (fs.inodeCache (inodeNo % 256)).find? (fun r => (fs.inodes r).inodeNo = inodeNo) = some r) :
    r ∈ entriesFor fs inodeNo :=
  mem_entriesFor.mpr ⟨List.mem_of_find?_eq_some h, by simpa using List.find?_some h⟩

theorem CacheInv.go (h : CacheInv w) (hg : GuardAt w (w.place t)) (hs : placeStep w t (w.place t) = some w') :
    CacheInv w' := by
  have hok := h.places t
  -- where a lock is taken, there is no step while it is held
  cases hp : w.place t with
  | idle =>
    rw [hp] at hs
    cases hs
  | lookup no =>
    rw [hp, placeStep] at hs
    by_cases hlock : w.cacheLock = true
    · rw [if_pos hlock] at hs
      cases hs
    · rw [if_neg hlock] at hs
      cases hfind : (w.fs.inodeCache (no % 256)).find? fun r => (w.fs.inodes r).inodeNo = no with
      | none =>
        rw [hfind] at hs
        obtain rfl := Option.some.inj hs
        exact h.goto trivial fun no r hat => by cases hat
      | some r =>
        rw [hfind] at hs
        obtain rfl := Option.some.inj hs
        exact h.moved .refl (fun _ _ => rfl) rfl (find_entry hfind) (fun no r hat => by cases hat) rfl rfl
  | hit no r =>
    rw [hp] at hs hok
    obtain rfl := Option.some.inj hs
    exact h.goto ⟨hok, h.bounded r (cached_of_entry hok)⟩ fun no r hat => by cases hat
  | hitLoaded no r count =>
    rw [hp] at hs hok hg
    obtain rfl := Option.some.inj hs
    exact h.hitStored hok.1 rfl rfl rfl rfl hg.1 hg.2
  | missed no =>
    rw [hp] at hs hg
    have hmem : ¬w.fs.oom w.fs.kmallocs = true := fun h => Bool.false_ne_true (hg.symm.trans h)
    rw [placeStep, if_neg hmem] at hs
    obtain rfl := Option.some.inj hs
    exact h.loaded rfl rfl rfl rfl
  | filled no r =>
    rw [hp] at hs hg
    rw [placeStep] at hs
    by_cases hlock : w.cacheLock = true
    · rw [if_pos hlock] at hs
      cases hs
    · rw [if_neg hlock] at hs
      obtain rfl := Option.some.inj hs
      exact h.inserted hp rfl rfl rfl rfl hg
  | put r =>
    rw [hp] at hs hok
    rw [placeStep] at hs
    by_cases hlock : w.inodeLock r = true
    · rw [if_pos hlock] at hs
      cases hs
    · rw [if_neg hlock] at hs
      obtain rfl := Option.some.inj hs
      exact h.moved .refl (fun _ _ => rfl) rfl hok (fun no r hat => by cases hat) rfl rfl
  | putLocked r =>
    rw [hp] at hs hok
    obtain rfl := Option.some.inj hs
    exact h.goto ⟨hok, h.bounded r hok⟩ fun no r hat => by cases hat
  | putLoaded r count =>
    rw [hp] at hs hok hg
    obtain rfl := Option.some.inj hs
    exact h.putStored hok.1 rfl rfl rfl rfl hok.2 hg.1 hg.2
  | putStored r =>
    rw [hp] at hs hok
    obtain rfl := Option.some.inj hs
    refine h.putEnd (r := r) ?_ rfl rfl rfl
    by_cases hwrite : (w.fs.inodes r).refCount = 0 ∧ (w.fs.inodes r).dirty = true
    · exact Or.inl (if_pos hwrite)
    · exact Or.inr (if_neg hwrite)

theorem CacheInv.step (h : CacheInv w) {m : Nat × CacheMove} (hg : CacheGuard w m) (hs : cacheStep w m = some w') :
    CacheInv w' := by
  obtain ⟨t, move⟩ := m
  cases move with
  | get no =>
    rw [cacheStep] at hs
    by_cases hidle : w.place t = .idle
    · rw [if_pos hidle] at hs
      obtain rfl := Option.some.inj hs
      exact h.goto trivial fun no r hat => by cases hat
    · rw [if_neg hidle] at hs
      cases hs
  | put inode =>
    cases inode with
    | none =>
      rw [cacheStep] at hs
      by_cases hidle : w.place t = .idle
      · rw [if_pos hidle] at hs
        obtain rfl := Option.some.inj hs
        exact h
      · rw [if_neg hidle] at hs
        cases hs
    | some r =>
      rw [cacheStep] at hs
      by_cases hcall : w.place t = .idle ∧ some r ∈ w.returned.map Prod.snd
      · rw [if_pos hcall] at hs
        obtain rfl := Option.some.inj hs
        refine h.goto ?_ fun no r hat => by cases hat
        by_contra hout
        exact List.count_eq_zero.mp (h.gets_eq_zero hout) hcall.2
      · rw [if_neg hcall] at hs
        cases hs
  | go => exact h.go hg hs

/-- **A step outside the guard breaks the cache at once.** -/
theorem CacheInv.guard_of_sound (h : CacheInv w) {m : Nat × CacheMove} (hs : cacheStep w m = some w')
    (hsound : CacheSound w') : CacheGuard w m := by
  obtain ⟨t, move⟩ := m
  cases move with
  | get no => trivial
  | put inode => trivial
  | go =>
    have hok := h.places t
    show GuardAt w (w.place t)
    rw [cacheStep] at hs
    cases hp : w.place t with
    | hitLoaded no r count =>
      rw [hp] at hs hok
      obtain rfl := Option.some.inj hs
      exact h.hitStored_guard hsound hok.1 rfl rfl rfl hok.2
    | missed no =>
      rw [hp] at hs
      by_contra hnomem
      have hoom : w.fs.oom w.fs.kmallocs = true := by simpa [GuardAt] using hnomem
      rw [placeStep, if_pos hoom] at hs
      obtain rfl := Option.some.inj hs
      obtain ⟨r, hr, -⟩ := hsound.returned (no, none) List.mem_cons_self
      cases hr
    | filled no r =>
      rw [hp, placeStep] at hs
      by_cases hlock : w.cacheLock = true
      · rw [if_pos hlock] at hs
        cases hs
      · rw [if_neg hlock] at hs
        obtain rfl := Option.some.inj hs
        exact h.inserted_guard hsound hp rfl
    | putLoaded r count =>
      rw [hp] at hs hok
      obtain rfl := Option.some.inj hs
      exact h.putStored_guard hsound hok.1 rfl rfl rfl hok.2
    | idle => trivial
    | lookup no => trivial
    | hit no r => trivial
    | put r => trivial
    | putLocked r => trivial
    | putStored r => trivial

/-- **The inode cache is sound in every state of a run** exactly where every step of the run meets
    the condition. -/
theorem inodeCache_sound_iff (fs : Fs) (moves : List (Nat × CacheMove)) :
    Always cacheStep CacheSound (cacheStart fs) moves ↔ Meets cacheStep CacheGuard (cacheStart fs) moves :=
  always_iff_meets (fun _ h => h.sound) (fun _ _ _ h hg hs => h.step hg hs)
    (fun _ _ _ h hng hs hsound => hng (h.guard_of_sound hs hsound)) cacheInv_start

/-- A volume without contents, and memory for every inode. -/
def blankVolume : Fs where
  bdev := { size := 0, bytes := zeroBuf, writes := 0, writeFails := fun _ => false }
  sb := zeroBuf
  segBitmap := zeroBuf
  nextSeg := 5
  blockInSeg := 0
  currentSeg := 0
  inodes := fun _ => Inode.zero
  inodeCount := 0
  inodeCache := fun _ => []
  files := fun _ => File.zero
  kmallocs := 0
  oom := fun _ => false
  unset := 0

/-- Two threads look inode 7 up before either has put it into the cache. -/
def bothMiss : List (Nat × CacheMove) :=
  [(0, .get 7), (1, .get 7), (0, .go), (1, .go), (0, .go), (1, .go), (0, .go), (1, .go)]

/-- Both have their own inode 7 then. -/
theorem bothMiss_twice : ¬Always cacheStep CacheSound (cacheStart blankVolume) bothMiss := by
  intro h
  obtain ⟨w, hw⟩ : ∃ w, run cacheStep (cacheStart blankVolume) bothMiss = some w := ⟨_, rfl⟩
  have hone := (h.last hw).unique 7
  obtain rfl := Option.some.inj (hw.symm.trans rfl)
  revert hone
  decide

end Crimson.Crfs
