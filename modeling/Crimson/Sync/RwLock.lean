import Crimson.Lib.Run
import Mathlib.Data.List.Perm.Lattice
import Mathlib.Logic.Function.Basic
import Mathlib.Algebra.Ring.Nat

/-!
# Reader-writer locks (`sync.c`)

Each function of the lock is a loop around one critical section, so a step of the system is
one section of one client: an attempt that may fail and be retried, or a release. The
clients are any type; what a client holds is not in the lock, and `RwState` keeps it as
two lists beside the lock, one entry for each lock held.

The lock's two fields and the two lists determine each other (`RwInv`). The release of a
read lock ignores a count of zero without complaint; the invariant is what says that a
client that holds a lock never meets that branch.
-/

set_option autoImplicit false

namespace Crimson.Sync

open Crimson.Lib

/-- `rwlock_t`, without its spinlock. -/
structure RwLock where
  readers : UInt32
  writer : Int
deriving DecidableEq, Repr

def rwlockInit : RwLock where
  readers := 0
  writer := 0

/-- The critical section of `rwlock_read_lock`; false is a retry after a yield. -/
def readTry (lock : RwLock) : Bool × RwLock :=
  if lock.writer = 0 then (true, { lock with readers := lock.readers + 1 }) else (false, lock)

def rwlockReadUnlock (lock : RwLock) : RwLock :=
  if 0 < lock.readers then { lock with readers := lock.readers - 1 } else lock

/-- The critical section of `rwlock_write_lock`; false is a retry after a yield. -/
def writeTry (lock : RwLock) : Bool × RwLock :=
  if lock.writer = 0 ∧ lock.readers = 0 then (true, { lock with writer := 1 }) else (false, lock)

def rwlockWriteUnlock (lock : RwLock) : RwLock := { lock with writer := 0 }

/-- Where a client is: outside the lock's functions, or in the loop of one of them. -/
inductive RwPc where
  | outside
  | reading
  | writing
deriving DecidableEq, Repr

/-- The lock, the clients, and the locks they hold. -/
structure RwState (ι : Type) where
  lock : RwLock
  pc : ι → RwPc
  readHolders : List ι
  writeHolders : List ι

inductive RwOp (ι : Type) where
  | callReadLock (client : ι)
  | callWriteLock (client : ι)
  /-- One round of the loop the client is in. -/
  | attempt (client : ι)
  | readUnlock (client : ι)
  | writeUnlock (client : ι)

variable {ι : Type}

def rwInitial : RwState ι where
  lock := rwlockInit
  pc := fun _ => .outside
  readHolders := []
  writeHolders := []

/-- One step of a client. A client that is in a loop makes no other call, and a client
    releases only what it holds. -/
def rwStep [DecidableEq ι] (s : RwState ι) : RwOp ι → Option (RwState ι)
  | .callReadLock i =>
    if s.pc i = .outside then some { s with pc := Function.update s.pc i .reading } else none
  | .callWriteLock i =>
    if s.pc i = .outside then some { s with pc := Function.update s.pc i .writing } else none
  | .attempt i =>
    match s.pc i with
    | .outside => none
    | .reading =>
      match readTry s.lock with
      | (true, lock) =>
        some { s with
          lock := lock
          pc := Function.update s.pc i .outside
          readHolders := i :: s.readHolders }
      | (false, lock) => some { s with lock := lock }
    | .writing =>
      match writeTry s.lock with
      | (true, lock) =>
        some { s with
          lock := lock
          pc := Function.update s.pc i .outside
          writeHolders := i :: s.writeHolders }
      | (false, lock) => some { s with lock := lock }
  | .readUnlock i =>
    if s.pc i = .outside ∧ i ∈ s.readHolders then
      some { s with lock := rwlockReadUnlock s.lock, readHolders := s.readHolders.erase i }
    else none
  | .writeUnlock i =>
    if s.pc i = .outside ∧ i ∈ s.writeHolders then
      some { s with lock := rwlockWriteUnlock s.lock, writeHolders := s.writeHolders.erase i }
    else none

/-- What the lock promises: no writer beside a reader or another writer, and its fields
    say who holds it. -/
structure RwExclusive (s : RwState ι) : Prop where
  exclusive : s.writeHolders ≠ [] → s.readHolders = []
  oneWriter : s.writeHolders.length ≤ 1
  readers : s.lock.readers.toNat = s.readHolders.length
  writer : s.lock.writer = 1 ↔ ∃ i, i ∈ s.writeHolders

/-- The invariant: the field `writer` is a flag, set while the lock is held for writing. -/
structure RwInv (s : RwState ι) : Prop where
  readers : s.lock.readers.toNat = s.readHolders.length
  writer : (s.lock.writer = 0 ∧ s.writeHolders = []) ∨
    s.lock.writer = 1 ∧ s.readHolders = [] ∧ ∃ i, s.writeHolders = [i]

theorem RwInv.exclusive {s : RwState ι} (h : RwInv s) : RwExclusive s := by
  rcases h.writer with ⟨hw, hnil⟩ | ⟨hw, hread, i, hone⟩
  · refine ⟨fun hne => absurd hnil hne, by simp [hnil], h.readers, ?_⟩
    simp [hw, hnil]
  · refine ⟨fun _ => hread, by simp [hone], h.readers, ?_⟩
    simp [hw, hone]

/-- Fewer than `2 ^ 31` read locks are held. -/
def FewReaders (s : RwState ι) (_ : RwOp ι) : Prop := s.readHolders.length < 2 ^ 31

theorem RwInv.init : RwInv (rwInitial : RwState ι) := ⟨rfl, Or.inl ⟨rfl, rfl⟩⟩

/-- A read lock is granted: nobody holds the lock for writing. -/
theorem RwInv.readGranted {s : RwState ι} (h : RwInv s) (hw : s.lock.writer = 0)
    (hfew : s.readHolders.length < 2 ^ 31) (i : ι) (pc : ι → RwPc) :
    RwInv { s with
      lock := { s.lock with readers := s.lock.readers + 1 }
      pc := pc
      readHolders := i :: s.readHolders } := by
  have hreaders := h.readers
  refine ⟨?_, ?_⟩
  · show (s.lock.readers + 1).toNat = s.readHolders.length + 1
    rw [UInt32.toNat_add, hreaders]
    exact Nat.mod_eq_of_lt (by simp; omega)
  · rcases h.writer with ⟨_, hnil⟩ | ⟨hone, _⟩
    · exact Or.inl ⟨hw, hnil⟩
    · exact absurd (hone.symm.trans hw) (by decide)

/-- The write lock is granted: nobody holds the lock. -/
theorem RwInv.writeGranted {s : RwState ι} (h : RwInv s) (hw : s.lock.writer = 0)
    (hr : s.lock.readers = 0) (i : ι) (pc : ι → RwPc) :
    RwInv { s with
      lock := { s.lock with writer := 1 }
      pc := pc
      writeHolders := i :: s.writeHolders } := by
  have hreaders := h.readers
  rw [hr] at hreaders
  have hread : s.readHolders = [] := List.length_eq_zero_iff.mp hreaders.symm
  refine ⟨h.readers, Or.inr ⟨rfl, hread, i, ?_⟩⟩
  rcases h.writer with ⟨_, hnil⟩ | ⟨hone, _⟩
  · simp [hnil]
  · exact absurd (hone.symm.trans hw) (by decide)

variable [DecidableEq ι]

/-- A read lock that is held is released: the count is not zero. -/
theorem RwInv.readReleased {s : RwState ι} (h : RwInv s) {i : ι} (hi : i ∈ s.readHolders) :
    RwInv { s with lock := rwlockReadUnlock s.lock, readHolders := s.readHolders.erase i } := by
  have hpos : 0 < s.readHolders.length := List.length_pos_of_mem hi
  have hlt : 0 < s.lock.readers := by
    rw [UInt32.lt_iff_toNat_lt, h.readers]
    exact hpos
  have hunlock : rwlockReadUnlock s.lock = { s.lock with readers := s.lock.readers - 1 } := if_pos hlt
  refine ⟨?_, ?_⟩
  · rw [hunlock]
    show (s.lock.readers - 1).toNat = (s.readHolders.erase i).length
    have hle : 1 ≤ s.lock.readers := by
      rw [UInt32.le_iff_toNat_le, h.readers]
      exact hpos
    rw [UInt32.toNat_sub_of_le _ _ hle, h.readers, List.length_erase_of_mem hi]
    rfl
  · rw [hunlock]
    rcases h.writer with hfree | ⟨_, hnil, _⟩
    · exact Or.inl hfree
    · rw [hnil] at hi
      exact absurd hi List.not_mem_nil

/-- The write lock is released by its holder. -/
theorem RwInv.writeReleased {s : RwState ι} (h : RwInv s) {i : ι} (hi : i ∈ s.writeHolders) :
    RwInv { s with lock := rwlockWriteUnlock s.lock, writeHolders := s.writeHolders.erase i } := by
  refine ⟨h.readers, Or.inl ⟨rfl, ?_⟩⟩
  rcases h.writer with ⟨_, hnil⟩ | ⟨_, _, j, hone⟩
  · rw [hnil] at hi
    exact absurd hi List.not_mem_nil
  · have hij : i = j := by simpa [hone] using hi
    show s.writeHolders.erase i = []
    rw [hone, hij]
    simp

/-- **Step lemma**: every step of every client keeps the invariant. -/
theorem RwInv.step {s s' : RwState ι} {op : RwOp ι} (h : RwInv s) (hfew : FewReaders s op)
    (hs : rwStep s op = some s') : RwInv s' := by
  cases op with
  | callReadLock i =>
    simp only [rwStep, Option.ite_none_right_eq_some, Option.some.injEq] at hs
    obtain ⟨_, rfl⟩ := hs
    exact ⟨h.readers, h.writer⟩
  | callWriteLock i =>
    simp only [rwStep, Option.ite_none_right_eq_some, Option.some.injEq] at hs
    obtain ⟨_, rfl⟩ := hs
    exact ⟨h.readers, h.writer⟩
  | attempt i =>
    cases hpc : s.pc i with
    | outside => simp [rwStep, hpc] at hs
    | reading =>
      by_cases hw : s.lock.writer = 0
      · simp only [rwStep, hpc, readTry, if_pos hw, Option.some.injEq] at hs
        exact hs ▸ h.readGranted hw hfew i _
      · simp only [rwStep, hpc, readTry, if_neg hw, Option.some.injEq] at hs
        exact hs ▸ h
    | writing =>
      by_cases hw : s.lock.writer = 0 ∧ s.lock.readers = 0
      · simp only [rwStep, hpc, writeTry, if_pos hw, Option.some.injEq] at hs
        exact hs ▸ h.writeGranted hw.1 hw.2 i _
      · simp only [rwStep, hpc, writeTry, if_neg hw, Option.some.injEq] at hs
        exact hs ▸ h
  | readUnlock i =>
    simp only [rwStep, Option.ite_none_right_eq_some, Option.some.injEq] at hs
    obtain ⟨⟨_, hi⟩, rfl⟩ := hs
    exact h.readReleased hi
  | writeUnlock i =>
    simp only [rwStep, Option.ite_none_right_eq_some, Option.some.injEq] at hs
    obtain ⟨⟨_, hi⟩, rfl⟩ := hs
    exact h.writeReleased hi

/-- **A reader-writer lock excludes.** For any clients and any interleaving of their
    attempts, retries and releases, with fewer than `2 ^ 31` read locks held at a time:
    at every moment there is no writer beside a reader or another writer, `readers`
    counts the read locks held, and `writer` is 1 exactly while some client holds the
    write lock. -/
theorem rwExclusive_of_run (ops : List (RwOp ι)) (hfew : Meets rwStep FewReaders rwInitial ops) :
    Always rwStep RwExclusive rwInitial ops :=
  (always_of_meets (fun _ _ _ h hg hs => h.step hg hs) RwInv.init hfew).mono fun _ h => h.exclusive

/-- A step grants at most one read lock. -/
theorem readHolders_step {s s' : RwState ι} {op : RwOp ι} (hs : rwStep s op = some s') :
    s'.readHolders.length ≤ s.readHolders.length + 1 := by
  cases op with
  | callReadLock i | callWriteLock i =>
    simp only [rwStep, Option.ite_none_right_eq_some, Option.some.injEq] at hs
    obtain ⟨_, rfl⟩ := hs
    exact Nat.le_succ _
  | attempt i =>
    cases hpc : s.pc i with
    | outside => simp [rwStep, hpc] at hs
    | reading =>
      by_cases hw : s.lock.writer = 0
      · simp only [rwStep, hpc, readTry, if_pos hw, Option.some.injEq] at hs
        rw [← hs]
        exact Nat.le_refl _
      · simp only [rwStep, hpc, readTry, if_neg hw, Option.some.injEq] at hs
        rw [← hs]
        exact Nat.le_succ _
    | writing =>
      by_cases hw : s.lock.writer = 0 ∧ s.lock.readers = 0
      · simp only [rwStep, hpc, writeTry, if_pos hw, Option.some.injEq] at hs
        rw [← hs]
        exact Nat.le_succ _
      · simp only [rwStep, hpc, writeTry, if_neg hw, Option.some.injEq] at hs
        rw [← hs]
        exact Nat.le_succ _
  | readUnlock i =>
    simp only [rwStep, Option.ite_none_right_eq_some, Option.some.injEq] at hs
    obtain ⟨_, rfl⟩ := hs
    exact Nat.le_succ_of_le List.length_erase_le
  | writeUnlock i =>
    simp only [rwStep, Option.ite_none_right_eq_some, Option.some.injEq] at hs
    obtain ⟨_, rfl⟩ := hs
    exact Nat.le_succ _

/-- A run too short to grant that many read locks has few readers throughout. -/
theorem fewReaders_of_length {ops : List (RwOp ι)} {s : RwState ι}
    (h : s.readHolders.length + ops.length ≤ 2 ^ 31) : Meets rwStep FewReaders s ops := by
  induction ops generalizing s with
  | nil => trivial
  | cons op ops ih =>
    rw [List.length_cons] at h
    intro s' hs
    have hstep := readHolders_step hs
    exact ⟨by unfold FewReaders; omega, ih (by omega)⟩

/-- Two readers, a writer that has to wait for both, and its release. -/
theorem rwExclusive_two_readers :
    Always rwStep RwExclusive (rwInitial : RwState (Fin 3))
      [.callReadLock 0, .attempt 0, .callWriteLock 2, .attempt 2, .callReadLock 1, .attempt 1,
        .readUnlock 0, .attempt 2, .readUnlock 1, .attempt 2, .writeUnlock 2] :=
  rwExclusive_of_run _ (fewReaders_of_length (by decide))

end Crimson.Sync
