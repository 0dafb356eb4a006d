import Mathlib.Data.BitVec
import Mathlib.Logic.Function.Basic

/-!
# The process scheduler (`sched.c`)

Five priority queues per CPU, threaded through the processes themselves by
`sched_next`, and a bitmap that says which of them may be non-empty. `SchedState` is the
process table with the run queues; a process pointer is an index into the table and
`none` is the null pointer, so two pointers are equal exactly when they name the same
process.

Each function below is one scheduler call as the source has it, run to its end under the
locks it takes; the CPU it runs on (`cpu_get_id()`) is an argument. What the context
switch itself saves and restores is not modelled. A call returns `none` where the code
dereferences a null pointer, or where it follows a list that never ends.
-/

set_option autoImplicit false

namespace Crimson.Sched

/-- `MAX_PROCESSES`, the length of `process_table`. -/
def maxProcesses : Nat := 1024

instance : NeZero maxProcesses := ⟨by decide⟩

/-- A pointer into `process_table`. -/
abbrev ProcRef := Fin maxProcesses

/-- `enum proc_state`. -/
inductive ProcState where
  | unused
  | ready
  | running
  | sleeping
  | stopped
  | zombie
  | dead
deriving DecidableEq, Repr

/-- `SCHED_QUEUES`. -/
def schedQueues : Nat := 5

/-! `enum proc_priority`; the field itself is a plain `int` and indexes the queues. -/

def prioRealtime : Nat := 0
def prioHigh : Nat := 1
def prioNormal : Nat := 2
def prioLow : Nat := 3
def prioIdle : Nat := 4

/-- The fields of `struct process` that scheduling and blocking use. -/
structure Process where
  state : ProcState
  priority : Nat
  cpu : Nat
  schedNext : Option ProcRef
  timeSlice : UInt64
  cpuTime : UInt64
  /-- The wait queue slept on, by its number. -/
  wq : Option Nat
  wqNext : Option ProcRef
deriving DecidableEq, Repr

/-- What `memset(proc, 0, sizeof(struct process))` leaves. -/
def Process.zero : Process where
  state := .unused
  priority := 0
  cpu := 0
  schedNext := none
  timeSlice := 0
  cpuTime := 0
  wq := none
  wqNext := none

/-- `runqueue_t`. -/
structure Runqueue where
  queues : Nat → Option ProcRef
  tails : Nat → Option ProcRef
  queueBitmap : BitVec 32
  current : Option ProcRef
  idleTask : Option ProcRef
  ticks : UInt32

def Runqueue.empty : Runqueue where
  queues := fun _ => none
  tails := fun _ => none
  queueBitmap := 0
  current := none
  idleTask := none
  ticks := 0

/-- The process table, the run queues, and the heads of the wait queues. -/
structure SchedState where
  procs : ProcRef → Process
  runqueues : Nat → Runqueue
  numCpus : Nat
  waitHead : Nat → Option ProcRef

def SchedState.modProc (s : SchedState) (p : ProcRef) (f : Process → Process) : SchedState :=
  { s with procs := Function.update s.procs p (f (s.procs p)) }

def SchedState.modRq (s : SchedState) (cpu : Nat) (f : Runqueue → Runqueue) : SchedState :=
  { s with runqueues := Function.update s.runqueues cpu (f (s.runqueues cpu)) }

/-- `time_quantum[]`. -/
def timeQuantum : Nat → UInt64
  | 0 => 0xFFFFFFFF
  | 1 => 4
  | 2 => 8
  | 3 => 16
  | 4 => 32
  | _ => 0

/-- `PRIORITY_BOOST_INTERVAL`. -/
def priorityBoostInterval : UInt32 := 200

def schedulerInit (s : SchedState) (numCpus : Nat) : SchedState :=
  { s with runqueues := fun _ => Runqueue.empty, numCpus := numCpus }

def enqueueProcess (s : SchedState) (proc : ProcRef) : SchedState :=
  let cpu := (s.procs proc).cpu
  let prio := (s.procs proc).priority
  let s := s.modProc proc fun p => { p with schedNext := none }
  let s :=
    match (s.runqueues cpu).tails prio with
    | some tail => s.modProc tail fun p => { p with schedNext := some proc }
    | none => s.modRq cpu fun rq => { rq with queues := Function.update rq.queues prio (some proc) }
  s.modRq cpu fun rq =>
    { rq with
      tails := Function.update rq.tails prio (some proc)
      queueBitmap := rq.queueBitmap ||| (1#32 <<< prio) }

/-- `__builtin_ctz`: the number of the lowest bit set, for a word that is not zero. -/
def ctz {width : Nat} (w : BitVec width) : Nat :=
  ((List.range width).find? fun i => w.getLsbD i).getD width

/-- The recursion of `dequeue_highest`. Every call clears the lowest bit set, so after 32
    of them the bitmap is zero and there is nothing left to dequeue. -/
def dequeueLoop : Nat → SchedState → Nat → Option ProcRef × SchedState
  | 0, s, _ => (none, s)
  | fuel + 1, s, cpu =>
    let rq := s.runqueues cpu
    if rq.queueBitmap = 0 then (none, s)
    else
      let prio := ctz rq.queueBitmap
      match rq.queues prio with
      | none =>
        dequeueLoop fuel
          (s.modRq cpu fun rq => { rq with queueBitmap := rq.queueBitmap &&& ~~~(1#32 <<< prio) }) cpu
      | some proc =>
        let next := (s.procs proc).schedNext
        let s := s.modRq cpu fun rq => { rq with queues := Function.update rq.queues prio next }
        let s :=
          if next = none then
            s.modRq cpu fun rq =>
              { rq with
                tails := Function.update rq.tails prio none
                queueBitmap := rq.queueBitmap &&& ~~~(1#32 <<< prio) }
          else s
        (some proc, s.modProc proc fun p => { p with schedNext := none })

def dequeueHighest (s : SchedState) (cpu : Nat) : Option ProcRef × SchedState :=
  dequeueLoop 32 s cpu

/-- The end of every switch: `next` becomes the CPU's current process. -/
def dispatch (s : SchedState) (cpu : Nat) (next : ProcRef) : SchedState :=
  (s.modRq cpu fun rq => { rq with current := some next }).modProc next fun p =>
    { p with state := .running, cpu := cpu, timeSlice := timeQuantum p.priority }

def schedulerStart (s : SchedState) (cpu : Nat) : Option SchedState :=
  match dequeueHighest s cpu with
  | (none, _) => none -- kernel_panic: no initial task
  | (some proc, s) => some (dispatch s cpu proc)

/-- The loop of `priority_boost` over one queue. -/
def boostWalk : Nat → Option ProcRef → SchedState → Option SchedState
  | _, none, s => some s
  | 0, some _, _ => none
  | fuel + 1, some proc, s =>
    let next := (s.procs proc).schedNext
    let s := s.modProc proc fun p => { p with priority := prioNormal, schedNext := none }
    boostWalk fuel next (enqueueProcess s proc)

/-- One CPU of `priority_boost`. The loop from `PRIO_LOW` down to, but not including,
    `PRIO_NORMAL` has one round. -/
def boostCpu (s : SchedState) (cpu : Nat) : Option SchedState :=
  (boostWalk maxProcesses ((s.runqueues cpu).queues prioLow) s).map fun s =>
    s.modRq cpu fun rq =>
      { rq with
        queues := Function.update rq.queues prioLow none
        tails := Function.update rq.tails prioLow none }

def priorityBoost (s : SchedState) : Option SchedState := (List.range s.numCpus).foldlM boostCpu s

/-- The end of `scheduler_tick`: a boost when the interval is over. -/
def tickBoost (s : SchedState) (cpu : Nat) : Option SchedState :=
  if priorityBoostInterval ≤ (s.runqueues cpu).ticks then
    priorityBoost (s.modRq cpu fun rq => { rq with ticks := 0 })
  else some s

/-- The middle of `scheduler_tick`: the slice has expired. The flag says whether the call
    goes on to the boost check. -/
def tickSwitch (s : SchedState) (cpu : Nat) (current : ProcRef) : Option (Bool × SchedState) :=
  let s := s.modProc current fun p => { p with state := .ready }
  let s := enqueueProcess s current
  let (next, s) := dequeueHighest s cpu
  match next.or (s.runqueues cpu).idleTask with
  | none => none -- NULL dereference
  | some next =>
    if next ≠ current then some (false, dispatch s cpu next)
    else some (true, s.modProc current fun p => { p with timeSlice := timeQuantum p.priority })

/-- The accounting at the start of `scheduler_tick`. -/
def tickCount (s : SchedState) (cpu : Nat) (current : ProcRef) : SchedState :=
  (s.modProc current fun p => { p with cpuTime := p.cpuTime + 1 }).modRq cpu fun rq =>
    { rq with ticks := rq.ticks + 1 }

def schedulerTick (s : SchedState) (cpu : Nat) : Option SchedState :=
  match (s.runqueues cpu).current with
  | none => some s
  | some current =>
    let s := tickCount s cpu current
    if (s.procs current).priority = prioRealtime then some s
    else
      let s := s.modProc current fun p =>
        { p with timeSlice := if 0 < p.timeSlice then p.timeSlice - 1 else p.timeSlice }
      if (s.procs current).timeSlice = 0 then
        match tickSwitch s cpu current with
        | none => none
        | some (false, s) => some s
        | some (true, s) => tickBoost s cpu
      else tickBoost s cpu

def schedulerYield (s : SchedState) (cpu : Nat) : SchedState :=
  match (s.runqueues cpu).current with
  | none => s
  | some current =>
    let s := s.modProc current fun p => { p with state := .ready }
    let s := enqueueProcess s current
    let (next, s) := dequeueHighest s cpu
    match next with
    | none => s.modProc current fun p => { p with timeSlice := timeQuantum p.priority }
    | some next =>
      if next = current then s.modProc current fun p => { p with timeSlice := timeQuantum p.priority }
      else dispatch s cpu next

/-- The number of queue bits set in a bitmap. -/
def queueLoad (bitmap : BitVec 32) : Nat := ((List.range schedQueues).filter fun q => bitmap.getLsbD q).length

/-- The target CPU of `scheduler_add_process`: the first with the fewest bits set. -/
def leastLoaded (s : SchedState) : Nat :=
  ((List.range s.numCpus).foldl
    (fun (best : Nat × Nat) i =>
      let count := queueLoad (s.runqueues i).queueBitmap
      if count < best.2 then (i, count) else best)
    (0, 0xFFFFFFFF)).1

/-- `scheduler_add_process`; the reschedule interrupt it may trigger is a later tick. -/
def schedulerAddProcess (s : SchedState) (proc : ProcRef) : SchedState :=
  let targetCpu := leastLoaded s
  enqueueProcess
    (s.modProc proc fun p =>
      { p with cpu := targetCpu, state := .ready, timeSlice := timeQuantum p.priority }) proc

/-- `*pp`, where `pp` is the address of the head (`none`) or of a process's link. -/
def SchedState.deref (s : SchedState) (cpu prio : Nat) : Option ProcRef → Option ProcRef
  | none => (s.runqueues cpu).queues prio
  | some y => (s.procs y).schedNext

/-- `*pp = v`. -/
def SchedState.assign (s : SchedState) (cpu prio : Nat) : Option ProcRef → Option ProcRef → SchedState
  | none, v => s.modRq cpu fun rq => { rq with queues := Function.update rq.queues prio v }
  | some y, v => s.modProc y fun p => { p with schedNext := v }

/-- `scheduler_remove_process` has found `proc` at `*pp`. -/
def unlinkAt (s : SchedState) (cpu prio : Nat) (proc : ProcRef) (pp : Option ProcRef) : SchedState :=
  let s := s.assign cpu prio pp (s.procs proc).schedNext
  if (s.runqueues cpu).tails prio = some proc then
    s.modRq cpu fun rq => { rq with tails := Function.update rq.tails prio none }
  else s

/-- The loop of `scheduler_remove_process`. -/
def removeWalk (s : SchedState) (cpu prio : Nat) (proc : ProcRef) :
    Nat → Option ProcRef → Option SchedState
  | 0, pp => if s.deref cpu prio pp = none then some s else none
  | fuel + 1, pp =>
    match s.deref cpu prio pp with
    | none => some s
    | some p =>
      if p = proc then some (unlinkAt s cpu prio proc pp)
      else removeWalk s cpu prio proc fuel (some p)

def schedulerRemoveProcess (s : SchedState) (proc : ProcRef) : Option SchedState :=
  (removeWalk s (s.procs proc).cpu (s.procs proc).priority proc maxProcesses none).map fun s =>
    s.modProc proc fun p => { p with schedNext := none, state := .dead }

/-- The first part of `scheduler_sleep_on`: the process is linked on the wait queue. -/
def sleepMark (s : SchedState) (current : ProcRef) (wq : Nat) : SchedState :=
  { s.modProc current fun p => { p with state := .sleeping, wq := some wq, wqNext := s.waitHead wq } with
    waitHead := Function.update s.waitHead wq (some current) }

def schedulerSleepOn (s : SchedState) (cpu wq : Nat) : Option SchedState :=
  match (s.runqueues cpu).current with
  | none => some s
  | some current =>
    let (next, s) := dequeueHighest (sleepMark s current wq) cpu
    match next.or (s.runqueues cpu).idleTask with
    | none => none -- NULL dereference
    | some next => some (dispatch s cpu next)

/-- A process taken off a wait queue. -/
def wakeMark (s : SchedState) (proc : ProcRef) : SchedState :=
  s.modProc proc fun p => { p with wqNext := none, wq := none, state := .ready }

def wakeProcess (s : SchedState) (proc : ProcRef) : SchedState :=
  schedulerAddProcess (wakeMark s proc) proc

/-- The loop of `scheduler_wakeup`. -/
def wakeWalk : Nat → Option ProcRef → SchedState → Option SchedState
  | _, none, s => some s
  | 0, some _, _ => none
  | fuel + 1, some proc, s =>
    let next := (s.procs proc).wqNext
    wakeWalk fuel next (wakeProcess s proc)

def schedulerWakeup (s : SchedState) (wq : Nat) : Option SchedState :=
  wakeWalk maxProcesses (s.waitHead wq) { s with waitHead := Function.update s.waitHead wq none }

def schedulerWakeupOne (s : SchedState) (wq : Nat) : SchedState :=
  match s.waitHead wq with
  | none => s
  | some proc =>
    wakeProcess { s with waitHead := Function.update s.waitHead wq (s.procs proc).wqNext } proc

def schedulerSetIdle (s : SchedState) (cpu : Nat) (idle : ProcRef) : SchedState :=
  if s.numCpus ≤ cpu then s else s.modRq cpu fun rq => { rq with idleTask := some idle }

end Crimson.Sched
