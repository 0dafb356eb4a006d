import Crimson.Sched.Model

/-!
# Blocking primitives (`sync.c`)

Mutexes, semaphores and barriers. A process that has to wait marks itself sleeping, links
itself on the object's wait list through its own `wq_next`, and calls `scheduler_yield`;
whoever releases it unlinks it, marks it ready and gives it to `scheduler_add_process`.
The wait lists are stacks: both ends work at the head.

Every spinlock section is one function here, and the whole calls are put together from
them. The interleavings of the sections of different processes are the subject of the
later modules, which use the same sections as their steps.
-/

set_option autoImplicit false

namespace Crimson.Sync

open Crimson.Sched

/-- The waiting process marks itself and puts itself in front of the list `head`. -/
def linkWaiter (s : SchedState) (head : Option ProcRef) (p : ProcRef) : SchedState :=
  s.modProc p fun x => { x with state := .sleeping, wqNext := head }

/-- A process is taken off a wait list and marked ready. -/
def releaseWaiter (s : SchedState) (p : ProcRef) : SchedState :=
  s.modProc p fun x => { x with wqNext := none, state := .ready }

/-! ## Mutexes -/

/-- `mutex_t`, without its spinlock. -/
structure Mutex where
  owner : Option ProcRef
  locked : UInt32
  waiters : Option ProcRef
deriving DecidableEq, Repr

def mutexInit : Mutex where
  owner := none
  locked := 0
  waiters := none

/-- The section of `mutex_lock`'s slow path. -/
def mutexLink (s : SchedState) (m : Mutex) (p : ProcRef) : SchedState × Mutex :=
  (linkWaiter s m.waiters p, { m with waiters := some p })

/-- The section of `mutex_unlock`; the process returned is to be given to the scheduler. -/
def mutexRelease (s : SchedState) (m : Mutex) : Option ProcRef × SchedState × Mutex :=
  match m.waiters with
  | some waiter =>
    (some waiter, releaseWaiter s waiter,
      { m with waiters := (s.procs waiter).wqNext, owner := some waiter })
  | none => (none, s, { m with owner := none, locked := 0 })

def mutexLock (s : SchedState) (m : Mutex) (cpu : Nat) : Option (SchedState × Mutex) :=
  let current := (s.runqueues cpu).current
  if m.locked = 0 then some (s, { m with locked := 1, owner := current })
  else
    match current with
    | none => none -- NULL dereference
    | some p =>
      if m.owner = some p then some (s, m)
      else
        let (s, m) := mutexLink s m p
        some (schedulerYield s cpu, m)

def mutexUnlock (s : SchedState) (m : Mutex) (cpu : Nat) : Option (SchedState × Mutex) :=
  let current := (s.runqueues cpu).current
  if m.owner ≠ current then if current = none then none else some (s, m)
  else
    match mutexRelease s m with
    | (some waiter, s, m) => some (schedulerAddProcess s waiter, m)
    | (none, s, m) => some (s, m)

def mutexTrylock (s : SchedState) (m : Mutex) (cpu : Nat) : Bool × Mutex :=
  if m.locked = 0 then (true, { m with locked := 1, owner := (s.runqueues cpu).current }) else (false, m)

/-! ## Semaphores -/

/-- `semaphore_t`, without its spinlock. -/
structure Semaphore where
  count : Int32
  waiters : Option ProcRef
deriving DecidableEq, Repr

def semInit (initial : Int32) : Semaphore where
  count := initial
  waiters := none

/-- The section of `sem_wait`; true is a process that has to yield. -/
def semWaitSection (s : SchedState) (sem : Semaphore) (p : ProcRef) : Bool × SchedState × Semaphore :=
  let sem := { sem with count := sem.count - 1 }
  if sem.count < 0 then (true, linkWaiter s sem.waiters p, { sem with waiters := some p })
  else (false, s, sem)

/-- The section of `sem_signal`; the process returned is to be given to the scheduler. -/
def semSignalSection (s : SchedState) (sem : Semaphore) : Option ProcRef × SchedState × Semaphore :=
  let sem := { sem with count := sem.count + 1 }
  match sem.waiters with
  | some waiter =>
    if sem.count ≤ 0 then
      (some waiter, releaseWaiter s waiter, { sem with waiters := (s.procs waiter).wqNext })
    else (none, s, sem)
  | none => (none, s, sem)

def semTrywait (sem : Semaphore) : Bool × Semaphore :=
  if 0 < sem.count then (true, { sem with count := sem.count - 1 }) else (false, sem)

def semWait (s : SchedState) (sem : Semaphore) (cpu : Nat) : Option (SchedState × Semaphore) :=
  match (s.runqueues cpu).current with
  | none =>
    let sem := { sem with count := sem.count - 1 }
    if sem.count < 0 then none else some (s, sem) -- NULL dereference
  | some p =>
    match semWaitSection s sem p with
    | (true, s, sem) => some (schedulerYield s cpu, sem)
    | (false, s, sem) => some (s, sem)

def semSignal (s : SchedState) (sem : Semaphore) : SchedState × Semaphore :=
  match semSignalSection s sem with
  | (some waiter, s, sem) => (schedulerAddProcess s waiter, sem)
  | (none, s, sem) => (s, sem)

/-! ## Barriers -/

/-- `barrier_t`, without its spinlock. -/
structure Barrier where
  target : UInt32
  current : UInt32
  cycle : UInt32
  waiters : Option ProcRef
deriving DecidableEq, Repr

/-- `barrier_init`, for a count that is not zero. -/
def barrierInit (count : UInt32) : Barrier where
  target := count
  current := 0
  cycle := 0
  waiters := none

/-- How the section of `barrier_wait` ends. -/
inductive Arrival where
  /-- The last arrival, with the list of those to be woken. -/
  | last (waiters : Option ProcRef)
  | sleep
deriving DecidableEq, Repr

/-- The section of `barrier_wait`. -/
def barrierArrive (s : SchedState) (b : Barrier) (p : ProcRef) : Arrival × SchedState × Barrier :=
  let b := { b with current := b.current + 1 }
  if b.target ≤ b.current then
    (.last b.waiters, s, { b with current := 0, cycle := b.cycle + 1, waiters := none })
  else (.sleep, linkWaiter s b.waiters p, { b with waiters := some p })

/-- The loop of the last arrival. -/
def barrierWake : Nat → Option ProcRef → SchedState → Option SchedState
  | _, none, s => some s
  | 0, some _, _ => none
  | fuel + 1, some p, s =>
    barrierWake fuel (s.procs p).wqNext (schedulerAddProcess (releaseWaiter s p) p)

def barrierWait (s : SchedState) (b : Barrier) (cpu : Nat) : Option (SchedState × Barrier) :=
  match (s.runqueues cpu).current with
  | none => none -- NULL dereference, unless it is the last arrival
  | some p =>
    match barrierArrive s b p with
    | (.last waiters, s, b) => (barrierWake maxProcesses waiters s).map fun s => (s, b)
    | (.sleep, s, b) => some (schedulerYield s cpu, b)

end Crimson.Sync
