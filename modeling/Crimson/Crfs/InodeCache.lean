import Crimson.Crfs.Volume
import Crimson.Lib.Run

/-!
# The inode cache under concurrent calls (`crfs.c`)

`crfs_iget` looks an inode up in one critical section, reads it from the disk outside of any,
and puts it into the cache in a second one, which does not look again. `ref_count` is changed
under `inode_cache_lock` by `crfs_iget` and under the lock of the inode by `crfs_iput`, so the
two do not exclude each other: a load of the count and the store that follows it are steps of
their own here.

`CacheWorld` is the file system with any number of threads in the two functions, and
`cacheStep` one step of one of them. What a lock makes one step is taken as one: the walk
through a hash chain, and an insertion. The calls that have returned and the references that
have been given back are kept in the state.
-/

set_option autoImplicit false

namespace Crimson.Crfs

open Crimson.Lib Crimson.Mm

/-- Where a thread is. -/
inductive CachePlace where
  | idle
  /-- At the first section of `crfs_iget`. -/
  | lookup (inodeNo : Nat)
  /-- The inode is in the cache; `inode_cache_lock` is held. -/
  | hit (inodeNo : Nat) (r : InodeRef)
  /-- `ref_count` has been loaded. -/
  | hitLoaded (inodeNo : Nat) (r : InodeRef) (count : Nat)
  /-- The inode is not in the cache; no lock is held. -/
  | missed (inodeNo : Nat)
  /-- At the second section, with the inode read from the disk. -/
  | filled (inodeNo : Nat) (r : InodeRef)
  /-- At the section of `crfs_iput`. -/
  | put (r : InodeRef)
  /-- The lock of the inode is held. -/
  | putLocked (r : InodeRef)
  | putLoaded (r : InodeRef) (count : Nat)
  | putStored (r : InodeRef)
deriving DecidableEq, Repr

structure CacheWorld where
  fs : Fs
  place : Nat → CachePlace
  /-- `inode_cache_lock` is held. -/
  cacheLock : Bool
  /-- The lock of an inode is held. -/
  inodeLock : InodeRef → Bool
  /-- The calls of `crfs_iget` that have returned, with what they returned. -/
  returned : List (Nat × Option InodeRef)
  /-- The references that `crfs_iput` has taken off. -/
  released : List InodeRef

inductive CacheMove where
  | get (inodeNo : Nat)
  /-- `crfs_iput`, of a null pointer or of an inode. -/
  | put (inode : Option InodeRef)
  /-- The next step of a call. -/
  | go
deriving DecidableEq, Repr

def CacheWorld.goto (w : CacheWorld) (t : Nat) (p : CachePlace) : CacheWorld :=
  { w with place := Function.update w.place t p }

/-- A call of `crfs_iget` returns. -/
def CacheWorld.returns (w : CacheWorld) (t inodeNo : Nat) (result : Option InodeRef) : CacheWorld :=
  { w.goto t .idle with returned := (inodeNo, result) :: w.returned }

/-- The entries of an inode number in the cache. -/
def entriesFor (fs : Fs) (inodeNo : Nat) : List InodeRef :=
  (fs.inodeCache (inodeNo % 256)).filter fun r => (fs.inodes r).inodeNo = inodeNo

/-- An inode that `crfs_iget` has read from the disk, outside of the cache. -/
def loadInode (fs : Fs) (inodeNo : Nat) : Fs :=
  { fs with
    kmallocs := fs.kmallocs + 1
    inodes := Function.update fs.inodes fs.inodeCount
      { inodeNo := inodeNo, refCount := 1, dirty := false, disk := readBlock fs (inodeAddr fs inodeNo) zeroBuf }
    inodeCount := fs.inodeCount + 1 }

def insertInode (fs : Fs) (inodeNo : Nat) (r : InodeRef) : Fs :=
  { fs with
    inodeCache := Function.update fs.inodeCache (inodeNo % 256) (r :: fs.inodeCache (inodeNo % 256)) }

def setRefCount (fs : Fs) (r : InodeRef) (count : Nat) : Fs := fs.modInode r fun i => { i with refCount := count }

/-- The next step of thread `t`, which is at this place. -/
def placeStep (w : CacheWorld) (t : Nat) : CachePlace → Option CacheWorld
  | .idle => none
  | .lookup inodeNo =>
    if w.cacheLock then none
    else
      match (w.fs.inodeCache (inodeNo % 256)).find? fun r => (w.fs.inodes r).inodeNo = inodeNo with
      | some r => some { w.goto t (.hit inodeNo r) with cacheLock := true }
      | none => some (w.goto t (.missed inodeNo))
  | .hit inodeNo r => some (w.goto t (.hitLoaded inodeNo r (w.fs.inodes r).refCount))
  | .hitLoaded inodeNo r count =>
    some { w.returns t inodeNo (some r) with fs := setRefCount w.fs r ((count + 1) % 2 ^ 32), cacheLock := false }
  | .missed inodeNo =>
    if w.fs.oom w.fs.kmallocs then
      some { w.returns t inodeNo none with fs := { w.fs with kmallocs := w.fs.kmallocs + 1 } }
    else some { w.goto t (.filled inodeNo w.fs.inodeCount) with fs := loadInode w.fs inodeNo }
  | .filled inodeNo r =>
    if w.cacheLock then none
    else some { w.returns t inodeNo (some r) with fs := insertInode w.fs inodeNo r }
  | .put r =>
    if w.inodeLock r then none
    else some { w.goto t (.putLocked r) with inodeLock := Function.update w.inodeLock r true }
  | .putLocked r => some (w.goto t (.putLoaded r (w.fs.inodes r).refCount))
  | .putLoaded r count =>
    some { w.goto t (.putStored r) with
      fs := setRefCount w.fs r ((count + (2 ^ 32 - 1)) % 2 ^ 32), released := r :: w.released }
  | .putStored r =>
    some { w.goto t .idle with
      fs := if (w.fs.inodes r).refCount = 0 ∧ (w.fs.inodes r).dirty = true then writeInode w.fs r else w.fs
      inodeLock := Function.update w.inodeLock r false }

/-- One step of one thread. A thread calls `crfs_iput` with an inode that `crfs_iget` has returned. -/
def cacheStep (w : CacheWorld) : Nat × CacheMove → Option CacheWorld
  | (t, .get inodeNo) => if w.place t = .idle then some (w.goto t (.lookup inodeNo)) else none
  | (t, .put none) => if w.place t = .idle then some w else none
  | (t, .put (some r)) =>
    if w.place t = .idle ∧ some r ∈ w.returned.map Prod.snd then some (w.goto t (.put r)) else none
  | (t, .go) => placeStep w t (w.place t)

/-- No thread is in a call, and the cache is empty. -/
def cacheStart (fs : Fs) : CacheWorld where
  fs := { fs with inodeCache := fun _ => [] }
  place := fun _ => .idle
  cacheLock := false
  inodeLock := fun _ => false
  returned := []
  released := []

/-! ## What the cache is for -/

/-- The calls of `crfs_iget` that have returned an inode. -/
def gets (w : CacheWorld) (r : InodeRef) : Nat := (w.returned.map Prod.snd).count (some r)

/-- The calls of `crfs_iput` on an inode. -/
def puts (w : CacheWorld) (r : InodeRef) : Nat := w.released.count r

def Cached (fs : Fs) (r : InodeRef) : Prop := ∃ hash, r ∈ fs.inodeCache hash

/-- An inode is in the hash chain of its number, there is one entry for a number at most, every
    call has returned it, and it counts the references. -/
structure CacheSound (w : CacheWorld) : Prop where
  hashed : ∀ hash r, r ∈ w.fs.inodeCache hash → (w.fs.inodes r).inodeNo % 256 = hash
  unique : ∀ inodeNo, (entriesFor w.fs inodeNo).length ≤ 1
  returned : ∀ x ∈ w.returned, ∃ r, x.2 = some r ∧ r ∈ entriesFor w.fs x.1
  counts : ∀ r, Cached w.fs r → ((w.fs.inodes r).refCount : Int) = gets w r - puts w r

/-- The condition on a step from a place: memory is there for the inode, no entry for its number
    has come into the cache before it, and a count that is stored follows the one that is there,
    and does not wrap. -/
def GuardAt (w : CacheWorld) : CachePlace → Prop
  | .missed _ => w.fs.oom w.fs.kmallocs = false
  | .filled inodeNo _ => entriesFor w.fs inodeNo = []
  | .hitLoaded _ r count => count = (w.fs.inodes r).refCount ∧ count + 1 < 2 ^ 32
  | .putLoaded r count => count = (w.fs.inodes r).refCount ∧ 0 < count
  | _ => True

def CacheGuard (w : CacheWorld) : Nat × CacheMove → Prop
  | (t, .go) => GuardAt w (w.place t)
  | _ => True

/-! ## A call that no other call overlaps -/

variable {w : CacheWorld} {t inodeNo : Nat} {r : InodeRef}

/-- `crfs_iget` in a thread that runs alone is `crfsIget`. -/
theorem crfsIget_alone (hidle : w.place t = .idle) (hlock : w.cacheLock = false) :
    ∃ moves w', (∀ m ∈ moves, m.1 = t) ∧ run cacheStep w moves = some w' ∧ w'.fs = (crfsIget w.fs inodeNo).2 ∧
      w'.returned = (inodeNo, (crfsIget w.fs inodeNo).1) :: w.returned := by
  cases hfind : (w.fs.inodeCache (inodeNo % 256)).find? fun r => (w.fs.inodes r).inodeNo = inodeNo with
  | some r =>
    refine ⟨[(t, .get inodeNo), (t, .go), (t, .go), (t, .go)], ?_⟩
    simp [run, cacheStep, placeStep, CacheWorld.goto, CacheWorld.returns, hidle, hlock, hfind, crfsIget, setRefCount,
      Fs.modInode]
  | none =>
    by_cases hoom : w.fs.oom w.fs.kmallocs = true
    · refine ⟨[(t, .get inodeNo), (t, .go), (t, .go)], ?_⟩
      simp [run, cacheStep, placeStep, CacheWorld.goto, CacheWorld.returns, hidle, hlock, hfind, crfsIget, hoom]
    · refine ⟨[(t, .get inodeNo), (t, .go), (t, .go), (t, .go)], ?_⟩
      simp [run, cacheStep, placeStep, CacheWorld.goto, CacheWorld.returns, hidle, hlock, hfind, crfsIget, hoom,
        insertInode, loadInode]

/-- `crfs_iput` in a thread that runs alone is `crfsIput`. -/
theorem crfsIput_alone (hidle : w.place t = .idle) (hlock : w.inodeLock r = false)
    (hr : some r ∈ w.returned.map Prod.snd) :
    ∃ moves w', (∀ m ∈ moves, m.1 = t) ∧ run cacheStep w moves = some w' ∧ w'.fs = crfsIput w.fs r ∧
      w'.released = r :: w.released := by
  have hcall : cacheStep w (t, .put (some r)) = some (w.goto t (.put r)) := by
    rw [cacheStep, if_pos ⟨hidle, hr⟩]
  refine ⟨[(t, .put (some r)), (t, .go), (t, .go), (t, .go), (t, .go)], ?_⟩
  simp only [run, hcall]
  simp [cacheStep, placeStep, CacheWorld.goto, hlock, crfsIput, setRefCount, Fs.modInode]

end Crimson.Crfs
