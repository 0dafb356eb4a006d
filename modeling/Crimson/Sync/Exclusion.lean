import Crimson.Sync.Threads

/-!
# Mutual exclusion of a mutex

Any number of processes lock, try and unlock one mutex, step by step: the read of `locked`,
the compare-and-swap, the write of `owner`, the section that queues a process, its
`scheduler_yield`, the return from it, the section of the unlock and the hand-over to the
scheduler are steps of their own, and between any two of them other processes run.

`mutex_lock` does not look at the mutex again after its `scheduler_yield`: it returns as a
holder whoever owns the mutex. Whether that is right depends on who woke the process.
`scheduler_yield` puts its caller back on the run queue even if it has just gone to sleep,
so the process may run again with its place on the wait list still there. `mutex_excludes`
says that this is the only way in which exclusion fails.
-/

set_option autoImplicit false

namespace Crimson.Sync

open Crimson.Lib
open Crimson.Sched

/-- Where a process is in the functions of a mutex. -/
inductive MutexPc where
  | outside
  /-- `mutex_lock`: the read of `locked`, the compare-and-swap, the write of `owner`. -/
  | lockTest
  | lockCas
  | lockOwner
  /-- Its slow path: the read of `owner`, the section, the yield, the return. -/
  | lockSlow
  | lockLink
  | lockYield
  | lockBack
  | tryTest
  | tryCas
  | tryOwner
  /-- `mutex_unlock`: the read of `owner`, the section, the hand-over of the process woken. -/
  | unlockTest
  | unlockSection
  | unlockAdd (waiter : ProcRef)
deriving DecidableEq, Repr

inductive MutexCall where
  | lock
  | trylock
  | unlock
deriving DecidableEq, Repr

/-- The mutex, and the processes that have returned from `mutex_lock` or from a successful
    `mutex_trylock`, and not unlocked since. -/
structure MutexUse where
  mutex : Mutex
  holds : ProcRef → Bool

def MutexUse.modHolds (x : MutexUse) (p : ProcRef) (b : Bool) : MutexUse :=
  { x with holds := Function.update x.holds p b }

def mutexNext (p : ProcRef) (cpu : Nat) : MutexPc → SchedState → MutexUse → Option (MutexPc × SchedState × MutexUse)
  | .outside, _, _ => none
  | .lockTest, s, x => some (if x.mutex.locked = 0 then .lockCas else .lockSlow, s, x)
  | .lockCas, s, x =>
    if x.mutex.locked = 0 then some (.lockOwner, s, { x with mutex := { x.mutex with locked := 1 } })
    else some (.lockSlow, s, x)
  | .lockOwner, s, x => some (.outside, s, { x with mutex := { x.mutex with owner := some p } }.modHolds p true)
  | .lockSlow, s, x =>
    -- a process that owns the mutex is told of the deadlock and sent on
    if x.mutex.owner = some p then some (.outside, s, x.modHolds p true) else some (.lockLink, s, x)
  | .lockLink, s, x => some (.lockYield, (mutexLink s x.mutex p).1, { x with mutex := (mutexLink s x.mutex p).2 })
  | .lockYield, s, x => some (.lockBack, schedulerYield s cpu, x)
  | .lockBack, s, x => some (.outside, s, x.modHolds p true)
  | .tryTest, s, x => some (if x.mutex.locked = 0 then .tryCas else .outside, s, x)
  | .tryCas, s, x =>
    if x.mutex.locked = 0 then some (.tryOwner, s, { x with mutex := { x.mutex with locked := 1 } })
    else some (.outside, s, x)
  | .tryOwner, s, x => some (.outside, s, { x with mutex := { x.mutex with owner := some p } }.modHolds p true)
  | .unlockTest, s, x =>
    if x.mutex.owner = some p then some (.unlockSection, s, x) else some (.outside, s, x.modHolds p false)
  | .unlockSection, s, x =>
    match mutexRelease s x.mutex with
    | (some waiter, s, m) => some (.unlockAdd waiter, s, { x with mutex := m }.modHolds p false)
    | (none, s, m) => some (.outside, s, { x with mutex := m }.modHolds p false)
  | .unlockAdd waiter, s, x => some (.outside, schedulerAddProcess s waiter, x)

def mutexCode : Code MutexUse MutexPc MutexCall where
  outside := .outside
  entry
    | .lock => .lockTest
    | .trylock => .tryTest
    | .unlock => .unlockTest
  next := mutexNext

abbrev MutexThreads := Threads MutexUse MutexPc

/-- A mutex after `mutex_init`, on whatever the scheduler is doing. -/
def mutexStart (s : SchedState) : MutexThreads where
  sched := s
  obj := ⟨mutexInit, fun _ => false⟩
  pc := fun _ => .outside

/-- At most one process holds the mutex, and it is the owner. -/
structure MutexExclusive (x : MutexThreads) : Prop where
  unique : ∀ p q, x.obj.holds p = true → x.obj.holds q = true → p = q
  owner : ∀ p, x.obj.holds p = true → x.obj.mutex.owner = some p

/-- The process whose step it is does not own the mutex when it goes to sleep for it, and owns
    it when it comes back from that: the ownership was handed to it in between. -/
def ReturnsAsOwner (x : MutexThreads) (op : ThreadOp MutexCall) (_ : MutexThreads) : Prop :=
  StepMeets (fun x p => (x.pc p = .lockLink → x.obj.mutex.owner ≠ some p) ∧
    (x.pc p = .lockBack → x.obj.mutex.owner = some p)) x op

/-- A process that comes back from its `scheduler_yield` has been taken off the wait list. -/
def OffMutexList (x : MutexThreads) (p : ProcRef) : Prop :=
  x.pc p = .lockBack → ¬OnWaitList x.sched x.obj.mutex.waiters p

/-! ## The invariant -/

/-- Asleep for the mutex, or back from it. -/
def MutexPc.Asleep (pc : MutexPc) : Prop := pc = .lockYield ∨ pc = .lockBack

/-- The process has won the compare-and-swap and not written itself into `owner` yet. -/
def MutexPc.Won (pc : MutexPc) : Prop := pc = .lockOwner ∨ pc = .tryOwner

/-- What holds of process `p` at its place, with the wait list `W`. -/
structure MutexPlace (m : Mutex) (W : List ProcRef) (p : ProcRef) (pc : MutexPc) : Prop where
  listed : p ∈ W → pc.Asleep ∧ m.owner ≠ some p
  asleep : pc.Asleep → p ∈ W ∨ m.owner = some p
  won : pc.Won → m.locked ≠ 0 ∧ m.owner = none
  links : pc = .lockLink → m.owner ≠ some p
  releases : pc = .unlockSection → m.owner = some p

/-- `W` is the wait list. -/
structure MutexInv (x : MutexThreads) (W : List ProcRef) : Prop where
  linked : Linked (waitLink x.sched) x.obj.mutex.waiters W
  places : ∀ p, MutexPlace x.obj.mutex W p (x.pc p)
  free : x.obj.mutex.locked = 0 → x.obj.mutex.owner = none
  oneWon : ∀ p q, (x.pc p).Won → (x.pc q).Won → p = q
  holds : ∀ p, x.obj.holds p = true → x.obj.mutex.owner = some p

theorem MutexInv.exclusive {x : MutexThreads} {W : List ProcRef} (h : MutexInv x W) : MutexExclusive x := by
  refine ⟨?_, h.holds⟩
  intro p q hp hq
  exact Option.some.inj ((h.holds p hp).symm.trans (h.holds q hq))

theorem mutexStart_inv (s : SchedState) : MutexInv (mutexStart s) [] where
  linked := rfl
  places := fun p => by constructor <;> simp [mutexStart, mutexInit, MutexPc.Asleep, MutexPc.Won]
  free := fun _ => rfl
  oneWon := by simp [mutexStart, MutexPc.Won]
  holds := by simp [mutexStart]

section

variable {x : MutexThreads} {W : List ProcRef} {p : ProcRef} {pc : MutexPc}

theorem MutexInv.notMem (h : MutexInv x W) (hp : ¬(x.pc p).Asleep) : p ∉ W :=
  fun hmem => hp ((h.places p).listed hmem).1

/-- A place from which nothing special is known. -/
theorem MutexPlace.plain {m : Mutex} (hp : p ∉ W) (hpc : ¬pc.Asleep ∧ ¬pc.Won)
    (hlinks : pc = .lockLink → m.owner ≠ some p) (hreleases : pc = .unlockSection → m.owner = some p) :
    MutexPlace m W p pc where
  listed := fun hmem => absurd hmem hp
  asleep := fun hasleep => absurd hasleep hpc.1
  won := fun hwon => absurd hwon hpc.2
  links := hlinks
  releases := hreleases

/-- Only the process that moves can have become a winner. -/
theorem MutexInv.oneWon_moves (h : MutexInv x W) {dest : MutexPc × SchedState × MutexUse}
    (hdest : dest.1.Won → ∀ q, q ≠ p → ¬(x.pc q).Won) (q r : ProcRef) (hq : ((x.moves p dest).pc q).Won)
    (hr : ((x.moves p dest).pc r).Won) : q = r := by
  by_cases hqp : q = p
  · by_cases hrp : r = p
    · exact hqp.trans hrp.symm
    · subst hqp
      rw [Threads.moves_pc] at hq
      rw [Threads.moves_pc_ne x hrp] at hr
      exact absurd hr (hdest hq r hrp)
  · rw [Threads.moves_pc_ne x hqp] at hq
    by_cases hrp : r = p
    · subst hrp
      rw [Threads.moves_pc] at hr
      exact absurd hq (hdest hr q hqp)
    · rw [Threads.moves_pc_ne x hrp] at hr
      exact h.oneWon q r hq hr

/-- A step of a process that is not on the list and does not touch the mutex. -/
theorem MutexInv.goes (h : MutexInv x W) {s : SchedState} {holds : ProcRef → Bool} (hp : p ∉ W)
    (hs : waitLink s = waitLink x.sched) (hpc : ¬pc.Asleep ∧ ¬pc.Won)
    (hlinks : pc = .lockLink → x.obj.mutex.owner ≠ some p) (hreleases : pc = .unlockSection → x.obj.mutex.owner = some p)
    (hholds : ∀ q, holds q = true → x.obj.mutex.owner = some q) :
    MutexInv (x.moves p (pc, s, { x.obj with holds := holds })) W where
  linked := hs ▸ h.linked
  places := Threads.moves_forall (MutexPlace x.obj.mutex W) (MutexPlace.plain hp hpc hlinks hreleases)
    fun q _ => h.places q
  free := h.free
  oneWon := h.oneWon_moves fun hwon => absurd hwon hpc.2
  holds := hholds

/-- The compare-and-swap succeeds. -/
theorem MutexInv.wins (h : MutexInv x W) (hp : p ∉ W) (hlocked : x.obj.mutex.locked = 0) (hpc : pc.Won) :
    MutexInv (x.moves p (pc, x.sched, { x.obj with mutex := { x.obj.mutex with locked := 1 } })) W where
  linked := h.linked
  places := by
    have hone : (1 : UInt32) ≠ 0 := by decide
    refine Threads.moves_forall (MutexPlace { x.obj.mutex with locked := 1 } W) ?_ fun q _ => ?_
    · refine ⟨fun hmem => absurd hmem hp, ?_, fun _ => ⟨hone, h.free hlocked⟩, ?_, ?_⟩
      all_goals rcases hpc with rfl | rfl <;> simp [MutexPc.Asleep]
    · have hq := h.places q
      exact ⟨hq.listed, hq.asleep, fun hwon => ⟨hone, (hq.won hwon).2⟩, hq.links, hq.releases⟩
  free := fun hzero => absurd (show (1 : UInt32) = 0 from hzero) (by decide)
  oneWon := h.oneWon_moves fun _ q _ hwon => ((h.places q).won hwon).1 hlocked
  holds := h.holds

/-- The winner writes itself into `owner`. -/
theorem MutexInv.owns (h : MutexInv x W) (hp : (x.pc p).Won) :
    MutexInv (x.moves p (.outside, x.sched,
      { x.obj with mutex := { x.obj.mutex with owner := some p } }.modHolds p true)) W where
  linked := h.linked
  places := by
    obtain ⟨hlocked, hnone⟩ := (h.places p).won hp
    have hpW : p ∉ W := h.notMem (by rcases hp with hp | hp <;> simp [hp, MutexPc.Asleep])
    refine Threads.moves_forall (MutexPlace { x.obj.mutex with owner := some p } W) ?_ fun q hqp => ?_
    · exact MutexPlace.plain hpW (by simp [MutexPc.Asleep, MutexPc.Won]) (by simp) (by simp)
    · have hq := h.places q
      have hpq : some p ≠ some q := fun heq => hqp (Option.some.inj heq).symm
      refine ⟨fun hmem => ⟨(hq.listed hmem).1, hpq⟩, fun hasleep => Or.inl ?_, ?_, fun _ => hpq, fun hrel => ?_⟩
      · exact (hq.asleep hasleep).resolve_right fun hown => by simp [hnone] at hown
      · exact fun hwon => absurd (h.oneWon q p hwon hp) hqp
      · exact absurd (hq.releases hrel) (by simp [hnone])
  free := fun hlocked => absurd hlocked ((h.places p).won hp).1
  oneWon := h.oneWon_moves fun hwon => absurd hwon (by simp [MutexPc.Won])
  holds := by
    intro q hq
    by_cases hqp : q = p
    · rw [hqp]
      rfl
    · have hold : x.obj.holds q = true := by simpa [MutexUse.modHolds, hqp] using hq
      exact absurd (h.holds q hold) (by simp [((h.places p).won hp).2])

/-- The process queues itself. -/
theorem MutexInv.sleeps (h : MutexInv x W) (hp : x.pc p = .lockLink) :
    MutexInv (x.moves p (.lockYield, (mutexLink x.sched x.obj.mutex p).1,
      { x.obj with mutex := (mutexLink x.sched x.obj.mutex p).2 })) (p :: W) where
  linked := linked_linkWaiter h.linked (h.notMem (by simp [hp, MutexPc.Asleep]))
  places := by
    refine Threads.moves_forall (MutexPlace (mutexLink x.sched x.obj.mutex p).2 (p :: W)) ?_ fun q hqp => ?_
    · have hown := (h.places p).links hp
      exact ⟨fun _ => ⟨Or.inl rfl, hown⟩, fun _ => Or.inl List.mem_cons_self, by simp [MutexPc.Won], by simp, by simp⟩
    · have hq := h.places q
      refine ⟨fun hmem => hq.listed (List.mem_of_ne_of_mem hqp hmem), ?_, hq.won, hq.links, hq.releases⟩
      exact fun hasleep => (hq.asleep hasleep).imp_left (List.mem_cons_of_mem p)
  free := h.free
  oneWon := h.oneWon_moves fun hwon => absurd hwon (by simp [MutexPc.Won])
  holds := h.holds

/-- The process yields, on the list or already off it. -/
theorem MutexInv.yields (h : MutexInv x W) (hp : x.pc p = .lockYield) {s : SchedState}
    (hs : waitLink s = waitLink x.sched) : MutexInv (x.moves p (.lockBack, s, x.obj)) W where
  linked := hs ▸ h.linked
  places := by
    refine Threads.moves_forall (MutexPlace x.obj.mutex W) ?_ fun q _ => h.places q
    have hplace := h.places p
    rw [hp] at hplace
    refine ⟨fun hmem => ⟨Or.inr rfl, (hplace.listed hmem).2⟩, fun _ => hplace.asleep (Or.inl rfl), ?_, ?_, ?_⟩
    all_goals simp [MutexPc.Won]
  free := h.free
  oneWon := h.oneWon_moves fun hwon => absurd hwon (by simp [MutexPc.Won])
  holds := h.holds

/-- Nobody but the owner holds the mutex; once it has unlocked, nobody does. -/
theorem MutexInv.holds_unlocked (h : MutexInv x W) (hown : x.obj.mutex.owner = some p) (q : ProcRef) :
    (x.obj.modHolds p false).holds q ≠ true := by
  intro hq
  by_cases hqp : q = p
  · simp [MutexUse.modHolds, hqp] at hq
  · have hold : x.obj.holds q = true := by simpa [MutexUse.modHolds, hqp] using hq
    exact hqp (Option.some.inj ((h.holds q hold).symm.trans hown))

/-- The owner unlocks, and somebody waits: it is taken off the list and made the owner. -/
theorem MutexInv.hands {w : ProcRef} (h : MutexInv x (w :: W)) (hp : x.pc p = .unlockSection) :
    MutexInv (x.moves p (.unlockAdd w, releaseWaiter x.sched w,
      { x.obj with mutex := { x.obj.mutex with waiters := (x.sched.procs w).wqNext, owner := some w } }.modHolds p
        false)) W where
  linked := linked_releaseWaiter h.linked
  places := by
    have hown := (h.places p).releases hp
    have hw := (h.places w).listed List.mem_cons_self
    have hwW : w ∉ W := (List.nodup_cons.mp h.linked.nodup).1
    have hpW : p ∉ w :: W := h.notMem (by simp [hp, MutexPc.Asleep])
    refine Threads.moves_forall (MutexPlace _ W) ?_ fun q hqp => ?_
    · refine MutexPlace.plain (fun hmem => hpW (List.mem_cons_of_mem w hmem)) ?_ (by simp) (by simp)
      simp [MutexPc.Asleep, MutexPc.Won]
    · have hq := h.places q
      have hqown : x.obj.mutex.owner ≠ some q := fun heq => hqp (Option.some.inj (heq.symm.trans hown))
      refine ⟨fun hmem => ⟨(hq.listed (List.mem_cons_of_mem w hmem)).1, ?_⟩, fun hasleep => ?_, fun hwon => ?_,
        fun hlink => ?_, fun hrel => absurd (hq.releases hrel) hqown⟩
      · exact fun heq => hwW (Option.some.inj heq ▸ hmem)
      · rcases List.mem_cons.mp ((hq.asleep hasleep).resolve_right hqown) with hqw | hmem
        · exact Or.inr (congrArg some hqw.symm)
        · exact Or.inl hmem
      · exact absurd (hq.won hwon).2 (by simp [hown])
      · intro heq
        have hasleep := hw.1
        rw [Option.some.inj heq, hlink] at hasleep
        simp [MutexPc.Asleep] at hasleep
  free := fun hzero => absurd (h.free hzero) (by simp [(h.places p).releases hp])
  oneWon := h.oneWon_moves fun hwon => absurd hwon (by simp [MutexPc.Won])
  holds := fun q hq => absurd hq (h.holds_unlocked ((h.places p).releases hp) q)

/-- The owner unlocks, and nobody waits. -/
theorem MutexInv.frees (h : MutexInv x []) (hp : x.pc p = .unlockSection) :
    MutexInv (x.moves p (.outside, x.sched,
      { x.obj with mutex := ⟨none, 0, none⟩ }.modHolds p false)) [] where
  linked := rfl
  places := by
    have hown := (h.places p).releases hp
    refine Threads.moves_forall (MutexPlace _ []) ?_ fun q hqp => ?_
    · exact MutexPlace.plain (by simp) (by simp [MutexPc.Asleep, MutexPc.Won]) (by simp) (by simp)
    · have hq := h.places q
      have hqown : x.obj.mutex.owner ≠ some q := fun heq => hqp (Option.some.inj (heq.symm.trans hown))
      refine ⟨by simp, fun hasleep => ?_, fun hwon => ?_, fun _ => (Option.some_ne_none q).symm,
        fun hrel => absurd (hq.releases hrel) hqown⟩
      · exact absurd ((hq.asleep hasleep).resolve_right hqown) (by simp)
      · exact absurd (hq.won hwon).2 (by simp [hown])
  free := fun _ => rfl
  oneWon := h.oneWon_moves fun hwon => absurd hwon (by simp [MutexPc.Won])
  holds := fun q hq => absurd hq (h.holds_unlocked ((h.places p).releases hp) q)

/-- **One step** of the code: the invariant is kept, unless the process comes back from its
    yield while it is still on the list. -/
theorem MutexInv.next (h : MutexInv x W) (hg : OffMutexList x p) {cpu : Nat} {dest : MutexPc × SchedState × MutexUse}
    (hs : mutexNext p cpu (x.pc p) x.sched x.obj = some dest) : ∃ W', MutexInv (x.moves p dest) W' := by
  have hplace := h.places p
  have hset : x.obj.mutex.owner = some p → ∀ q, (x.obj.modHolds p true).holds q = true →
      x.obj.mutex.owner = some q := by
    intro hown q hq
    by_cases hqp : q = p
    · rw [hqp, hown]
    · exact h.holds q (by simpa [MutexUse.modHolds, hqp] using hq)
  have hclear : x.obj.mutex.owner ≠ some p → ∀ q, (x.obj.modHolds p false).holds q = true →
      x.obj.mutex.owner = some q := by
    intro _ q hq
    by_cases hqp : q = p
    · simp [MutexUse.modHolds, hqp] at hq
    · exact h.holds q (by simpa [MutexUse.modHolds, hqp] using hq)
  -- the list decides what `unlockSection` does, and the guard is about `lockBack` only
  cases hpc : x.pc p with
  | outside => simp [hpc, mutexNext] at hs
  | lockTest | tryTest =>
    rw [hpc] at hs
    obtain rfl := Option.some.inj hs
    refine ⟨W, h.goes (h.notMem (by simp [hpc, MutexPc.Asleep])) rfl ?_ ?_ ?_ h.holds⟩
    all_goals split <;> simp [MutexPc.Asleep, MutexPc.Won]
  | lockCas | tryCas =>
    have hpW : p ∉ W := h.notMem (by simp [hpc, MutexPc.Asleep])
    by_cases hlocked : x.obj.mutex.locked = 0
    · simp only [hpc, mutexNext, if_pos hlocked, Option.some.injEq] at hs
      exact ⟨W, hs ▸ h.wins hpW hlocked (by simp [MutexPc.Won])⟩
    · simp only [hpc, mutexNext, if_neg hlocked, Option.some.injEq] at hs
      exact ⟨W, hs ▸ h.goes hpW rfl (by simp [MutexPc.Asleep, MutexPc.Won]) (by simp) (by simp) h.holds⟩
  | lockOwner | tryOwner =>
    rw [hpc] at hs
    obtain rfl := Option.some.inj hs
    exact ⟨W, h.owns (by simp [hpc, MutexPc.Won])⟩
  | lockSlow =>
    have hpW : p ∉ W := h.notMem (by simp [hpc, MutexPc.Asleep])
    by_cases hown : x.obj.mutex.owner = some p
    · simp only [hpc, mutexNext, if_pos hown, Option.some.injEq] at hs
      exact ⟨W, hs ▸ h.goes hpW rfl (by simp [MutexPc.Asleep, MutexPc.Won]) (by simp) (by simp) (hset hown)⟩
    · simp only [hpc, mutexNext, if_neg hown, Option.some.injEq] at hs
      exact ⟨W, hs ▸ h.goes hpW rfl (by simp [MutexPc.Asleep, MutexPc.Won]) (fun _ => hown) (by simp) h.holds⟩
  | lockLink =>
    rw [hpc] at hs
    obtain rfl := Option.some.inj hs
    exact ⟨p :: W, h.sleeps hpc⟩
  | lockYield =>
    rw [hpc] at hs
    obtain rfl := Option.some.inj hs
    exact ⟨W, h.yields hpc (schedulerYield_waitLink x.sched cpu)⟩
  | lockBack =>
    rw [hpc] at hs
    obtain rfl := Option.some.inj hs
    -- off the list, which is the guard, it can only be the owner
    have hpW : p ∉ W := fun hmem => hg hpc ((onWaitList_iff h.linked p).mpr hmem)
    have hown := (hplace.asleep (Or.inr hpc)).resolve_left hpW
    exact ⟨W, h.goes hpW rfl (by simp [MutexPc.Asleep, MutexPc.Won]) (by simp) (by simp) (hset hown)⟩
  | unlockTest =>
    have hpW : p ∉ W := h.notMem (by simp [hpc, MutexPc.Asleep])
    by_cases hown : x.obj.mutex.owner = some p
    · simp only [hpc, mutexNext, if_pos hown, Option.some.injEq] at hs
      exact ⟨W, hs ▸ h.goes hpW rfl (by simp [MutexPc.Asleep, MutexPc.Won]) (by simp) (fun _ => hown) h.holds⟩
    · simp only [hpc, mutexNext, if_neg hown, Option.some.injEq] at hs
      exact ⟨W, hs ▸ h.goes hpW rfl (by simp [MutexPc.Asleep, MutexPc.Won]) (by simp) (by simp) (hclear hown)⟩
  | unlockSection =>
    have hhead := h.linked.head_eq
    cases W with
    | nil =>
      simp only [hpc, mutexNext, mutexRelease, hhead, List.head?_nil, Option.some.injEq] at hs
      refine ⟨[], ?_⟩
      rw [← hs]
      exact h.frees hpc
    | cons w W =>
      simp only [hpc, mutexNext, mutexRelease, hhead, List.head?_cons, Option.some.injEq] at hs
      refine ⟨W, ?_⟩
      rw [← hs]
      exact h.hands hpc
  | unlockAdd waiter =>
    rw [hpc] at hs
    obtain rfl := Option.some.inj hs
    refine ⟨W, h.goes (h.notMem (by simp [hpc, MutexPc.Asleep])) ?_ ?_ (by simp) (by simp) h.holds⟩
    · exact schedulerAddProcess_waitLink x.sched waiter
    · simp [MutexPc.Asleep, MutexPc.Won]

/-- A process that comes back while it is on the list returns as a holder that is not the owner. -/
theorem MutexInv.returns_unowned (h : MutexInv x W) (hpc : x.pc p = .lockBack) (hp : p ∈ W) {cpu : Nat}
    {dest : MutexPc × SchedState × MutexUse} (hs : mutexNext p cpu (x.pc p) x.sched x.obj = some dest) :
    ¬MutexExclusive (x.moves p dest) := by
  intro hexcl
  rw [hpc] at hs
  obtain rfl := Option.some.inj hs
  have hown := hexcl.owner p (by simp [MutexUse.modHolds])
  exact ((h.places p).listed hp).2 hown

end

/-! ## Runs -/

/-- **One step of the machine** keeps the invariant. -/
theorem mutexStep_keeps (x : MutexThreads) (op : ThreadOp MutexCall) (x' : MutexThreads) (hI : ∃ W, MutexInv x W)
    (hg : StepMeets OffMutexList x op) (hs : threadStep mutexCode x op = some x') : ∃ W, MutexInv x' W := by
  refine threadStep_keeps (I := fun x => ∃ W, MutexInv x W) ?_ ?_ ?_ x op x' hI hg hs
  · rintro y s hlink ⟨W, h⟩
    exact ⟨W, hlink ▸ h.linked, h.places, h.free, h.oneWon, h.holds⟩
  · rintro y p k ⟨W, h⟩ hout
    have hpW : p ∉ W := h.notMem (by simp [show y.pc p = .outside from hout, MutexPc.Asleep])
    refine ⟨W, h.goes hpW rfl ?_ ?_ ?_ h.holds⟩
    all_goals cases k <;> simp [mutexCode, MutexPc.Asleep, MutexPc.Won]
  · rintro y p cpu dest ⟨W, h⟩ hoff hnext
    exact h.next hoff hnext

/-- A step outside the guard is the return of a process that does not own the mutex. -/
theorem mutexStep_breaks (x : MutexThreads) (op : ThreadOp MutexCall) (x' : MutexThreads) (hI : ∃ W, MutexInv x W)
    (hg : ¬StepMeets OffMutexList x op) (hs : threadStep mutexCode x op = some x') : ¬MutexExclusive x' := by
  obtain ⟨W, h⟩ := hI
  simp only [StepMeets, OffMutexList, not_forall, not_not] at hg
  obtain ⟨cpu, p, rfl, hcur, hpc, hlist⟩ := hg
  simp only [threadStep, hcur, Option.bind_some] at hs
  obtain ⟨dest, hdest, rfl⟩ := Option.map_eq_some_iff.mp hs
  exact h.returns_unowned hpc ((onWaitList_iff h.linked p).mp hlist) hdest

theorem MutexInv.returns {x : MutexThreads} {W : List ProcRef} (h : MutexInv x W) {op : ThreadOp MutexCall}
    (hg : StepMeets OffMutexList x op) (x' : MutexThreads) : ReturnsAsOwner x op x' := by
  intro cpu p hop hcur
  refine ⟨(h.places p).links, fun hpc => ?_⟩
  refine ((h.places p).asleep (Or.inr hpc)).resolve_left fun hmem => ?_
  exact hg cpu p hop hcur hpc ((onWaitList_iff h.linked p).mpr hmem)

/-- **A mutex excludes** exactly in the runs in which no process comes back from its
    `scheduler_yield` in `mutex_lock` while it is still on the wait list; and there a process
    that slept for the mutex returns as its owner. -/
theorem mutex_excludes (s : SchedState) (ops : List (ThreadOp MutexCall)) :
    (Always (threadStep mutexCode) MutexExclusive (mutexStart s) ops ∧
        AlwaysStep (threadStep mutexCode) ReturnsAsOwner (mutexStart s) ops) ↔
      Meets (threadStep mutexCode) (StepMeets OffMutexList) (mutexStart s) ops := by
  have hinit : ∃ W, MutexInv (mutexStart s) W := ⟨[], mutexStart_inv s⟩
  have hiff : Always (threadStep mutexCode) MutexExclusive (mutexStart s) ops ↔
      Meets (threadStep mutexCode) (StepMeets OffMutexList) (mutexStart s) ops :=
    always_iff_meets (I := fun x => ∃ W, MutexInv x W) (fun _ ⟨_, h⟩ => h.exclusive) mutexStep_keeps
      mutexStep_breaks hinit
  constructor
  · exact fun h => hiff.mp h.1
  · intro hg
    refine ⟨hiff.mpr hg, ?_⟩
    have hinv := always_of_meets (P := fun x => ∃ W, MutexInv x W) mutexStep_keeps hinit hg
    refine alwaysStep_of_always ?_ hinv hg
    rintro x op x' ⟨W, h⟩ hoff -
    exact h.returns hoff x'

/-- The first of two processes locks the mutex, the second has to wait for it, and the first
    yields: the second one is run again. -/
def twoLockers : List (ThreadOp MutexCall) :=
  [.call 0 .lock, .step 0, .step 0, .step 0, .yield 0,
    .call 0 .lock, .step 0, .step 0, .step 0, .step 0, .yield 0, .step 0]

/-- On one CPU both of them hold the mutex. -/
theorem mutex_shared : ¬Always (threadStep mutexCode) MutexExclusive (mutexStart (startedKernel 1 2)) twoLockers := by
  intro halways
  have hrun := eq_some_getD (mutexStart (startedKernel 1 2))
    (o := run (threadStep mutexCode) (mutexStart (startedKernel 1 2)) twoLockers) (by decide +kernel)
  have hboth := (halways.last hrun).unique 0 1 (by decide +kernel) (by decide +kernel)
  exact absurd hboth (by decide)

/-- On two CPUs: a process waits on the first while the holder unlocks on the second, and
    comes back when the process that ran in its place yields. -/
def handedOver : List (ThreadOp MutexCall) :=
  [.call 1 .lock, .step 1, .step 1, .step 1,
    .call 0 .lock, .step 0, .step 0, .step 0, .step 0,
    .call 1 .unlock, .step 1, .step 1, .step 1, .yield 0, .step 0]

theorem mutex_excludes_handedOver :
    (Always (threadStep mutexCode) MutexExclusive (mutexStart (startedKernel 2 3)) handedOver ∧
      AlwaysStep (threadStep mutexCode) ReturnsAsOwner (mutexStart (startedKernel 2 3)) handedOver) ∧
    ∀ x, run (threadStep mutexCode) (mutexStart (startedKernel 2 3)) handedOver = some x → x.obj.holds 0 = true := by
  refine ⟨(mutex_excludes (startedKernel 2 3) handedOver).mpr ?_, ?_⟩
  · refine meets_of_check (returnsUnlisted .lockBack fun x => x.mutex.waiters) ?_ (by decide +kernel)
    exact fun _ _ h => stepMeets_of_returnsUnlisted h
  · have hheld : (run (threadStep mutexCode) (mutexStart (startedKernel 2 3)) handedOver).map (fun x => x.obj.holds 0) =
        some true := by decide +kernel
    intro x hx
    rw [hx] at hheld
    exact Option.some.inj hheld

end Crimson.Sync
