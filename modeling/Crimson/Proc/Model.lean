import Crimson.Sched.Model

/-!
# Process management (`process.c`)

The process table of the scheduler, with what `process.c` adds to it: identities, family
links, resources, the PID bitmap and the zombie list. The allocators it calls are a
parameter, `MemOps`: nothing in this file depends on how memory is handed out, only
on whether a call returned a null pointer, and results about resources instantiate it
with the kernel's own heap and page allocator.

A call returns `none` where the kernel panics or dereferences a null pointer, or follows
a list that never ends.
-/

set_option autoImplicit false

namespace Crimson.Proc

open Crimson.Sched

/-- The memory calls of `process.c`, over a memory state `μ`. -/
structure MemOps (μ : Type) where
  kmalloc : μ → Nat → Option (Nat × μ)
  kcalloc : μ → Nat → Nat → Option (Nat × μ)
  kfree : μ → Nat → μ
  pmmAlloc : μ → Nat × μ
  pmmFree : μ → Nat → μ
  vmmInit : μ → Nat → μ
  vmmFreeAll : μ → Nat → μ

/-- The fields of `struct process` that `process.c` owns. -/
structure ProcInfo where
  pid : Int
  ppid : Int
  flags : BitVec 32
  ctxSp : Nat
  pgd : Nat
  stackBase : Nat
  stackSize : Nat
  parent : Option ProcRef
  children : Option ProcRef
  sibling : Option ProcRef
  exitCode : Int
  uid : Nat
  euid : Nat
  sigPending : BitVec 64
  fdTable : Nat
deriving DecidableEq, Repr

def ProcInfo.zero : ProcInfo where
  pid := 0
  ppid := 0
  flags := 0
  ctxSp := 0
  pgd := 0
  stackBase := 0
  stackSize := 0
  parent := none
  children := none
  sibling := none
  exitCode := 0
  uid := 0
  euid := 0
  sigPending := 0
  fdTable := 0

/-- `process_table` and the other static variables. -/
structure ProcTable (μ : Type) where
  sched : SchedState
  info : ProcRef → ProcInfo
  pidBitmap : Nat → BitVec 64
  numProcesses : UInt32
  zombieList : Option ProcRef
  mem : μ

/-- `struct process_attr`. -/
structure ProcessAttr where
  entry : Nat
  priority : Nat
  stackSize : Nat
  flags : BitVec 32
deriving DecidableEq, Repr

/-! `enum status`, of which errors are returned negated. -/

def statusNomem : Int := 2
def statusInval : Int := 3
def statusNotfound : Int := 4
def statusPerm : Int := 8

/-- `PROC_FLAG_USER`. -/
def procFlagUser : BitVec 32 := 2#32

/-- `PID_BITMAP_SIZE`. -/
def pidBitmapSize : Nat := maxProcesses / 64

/-- `NUM_SIGNALS`. -/
def numSignals : Nat := 64

/-- `sizeof(struct fd_table)`. -/
def fdTableSize : Nat := 8

section

variable {μ : Type}

def ProcTable.state (s : ProcTable μ) (p : ProcRef) : ProcState := (s.sched.procs p).state

def ProcTable.setState (s : ProcTable μ) (p : ProcRef) (st : ProcState) : ProcTable μ :=
  { s with sched := s.sched.modProc p fun x => { x with state := st } }

def ProcTable.modInfo (s : ProcTable μ) (p : ProcRef) (f : ProcInfo → ProcInfo) : ProcTable μ :=
  { s with info := Function.update s.info p (f (s.info p)) }

/-- `process_table[pid - 1]`. -/
def slotOf (pid : Int) : Option ProcRef :=
  if h : (pid - 1).toNat < maxProcesses then some ⟨(pid - 1).toNat, h⟩ else none

def processInit (sched : SchedState) (mem : μ) : ProcTable μ where
  sched := { sched with procs := fun _ => Process.zero }
  info := fun _ => ProcInfo.zero
  pidBitmap := Function.update (fun _ => 0) 0 1
  numProcesses := 0
  zombieList := none
  mem := mem

def allocPid (s : ProcTable μ) : Int × ProcTable μ :=
  match (List.range pidBitmapSize).find? fun i => s.pidBitmap i ≠ BitVec.allOnes 64 with
  | none => (-1, s)
  | some i =>
    let bit := ctz (~~~s.pidBitmap i)
    ((i * 64 + bit : Nat),
      { s with pidBitmap := Function.update s.pidBitmap i (s.pidBitmap i ||| (1#64 <<< bit)) })

def freePid (s : ProcTable μ) (pid : Int) : ProcTable μ :=
  if pid < 0 ∨ (maxProcesses : Int) ≤ pid then s
  else
    let idx := pid.toNat / 64
    let bit := pid.toNat % 64
    { s with pidBitmap := Function.update s.pidBitmap idx (s.pidBitmap idx &&& ~~~(1#64 <<< bit)) }

/-- The first slot that is not in use. -/
def freeSlot (s : ProcTable μ) : Option ProcRef :=
  (List.finRange maxProcesses).find? fun i => s.state i = .unused

/-- `memset` and the fields set before anything is allocated. -/
def initSlot (s : ProcTable μ) (slot : ProcRef) (pid : Int) (attr : ProcessAttr) : ProcTable μ :=
  { s with
    sched := s.sched.modProc slot fun _ =>
      { Process.zero with state := .ready, priority := attr.priority }
    info := Function.update s.info slot { ProcInfo.zero with pid := pid, flags := attr.flags } }

/-- The ways out of `process_create` that give the slot and the pid back. -/
def abandonSlot (s : ProcTable μ) (slot : ProcRef) (pid : Int) : ProcTable μ :=
  (freePid s pid).setState slot .unused

/-- The stack's top is aligned and recorded. -/
def setStack (s : ProcTable μ) (slot : ProcRef) (stackTop : Nat) : ProcTable μ :=
  s.modInfo slot fun x => { x with ctxSp := stackTop / 16 * 16 }

/-- `ctx.sp - stack_size`, on `uintptr_t`. -/
def stackStart (sp stackSize : Nat) : Nat := (sp + (2 ^ 64 - stackSize % 2 ^ 64)) % 2 ^ 64

/-- The page directory of a user process; a null pointer is a failure. -/
def createPgd (ops : MemOps μ) (s : ProcTable μ) (slot : ProcRef) (attr : ProcessAttr) :
    Bool × ProcTable μ :=
  if attr.flags &&& procFlagUser ≠ 0#32 then
    let (pgd, mem) := ops.pmmAlloc s.mem
    let s := { s with mem := mem }.modInfo slot fun x => { x with pgd := pgd }
    if pgd = 0 then (false, s) else (true, { s with mem := ops.vmmInit s.mem pgd })
  else (true, s.modInfo slot fun x => { x with pgd := 0 })

/-- The end of `process_create`: the remaining fields, and the scheduler. The links are
    null already, from `memset`. -/
def createFinish (ops : MemOps μ) (s : ProcTable μ) (slot : ProcRef) (attr : ProcessAttr) :
    Option (ProcTable μ) :=
  let s := s.modInfo slot fun x =>
    { x with stackBase := stackStart x.ctxSp attr.stackSize, stackSize := attr.stackSize }
  match ops.kcalloc s.mem 1 fdTableSize with
  | none => none
  | some (fdTable, mem) =>
    let s := { s with mem := mem }.modInfo slot fun x => { x with fdTable := fdTable }
    let s := { s with numProcesses := s.numProcesses + 1 }
    some { s with sched := schedulerAddProcess s.sched slot }

def processCreate (ops : MemOps μ) (s : ProcTable μ) (attr : Option ProcessAttr) :
    Option (Int × ProcTable μ) :=
  match attr with
  | none => some (-statusInval, s)
  | some attr =>
    if attr.entry = 0 then some (-statusInval, s)
    else
      match freeSlot s with
      | none => some (-statusNomem, s)
      | some slot =>
        let (pid, s) := allocPid s
        if pid < 0 then some (-statusNomem, s)
        else
          let s := initSlot s slot pid attr
          match ops.kmalloc s.mem attr.stackSize with
          | none => none
          | some (stack, mem) =>
            let s := { s with mem := mem }
            let stackTop := (stack + attr.stackSize) % 2 ^ 64
            if stackTop = attr.stackSize % 2 ^ 64 then some (-statusNomem, abandonSlot s slot pid)
            else
              match createPgd ops (setStack s slot stackTop) slot attr with
              | (false, s) =>
                let s := { s with mem := ops.kfree s.mem (stackStart (s.info slot).ctxSp attr.stackSize) }
                some (-statusNomem, abandonSlot s slot pid)
              | (true, s) => (createFinish ops s slot attr).map fun s => (pid, s)

def processCleanup (ops : MemOps μ) (s : ProcTable μ) (proc : ProcRef) : ProcTable μ :=
  let s :=
    if (s.info proc).stackBase ≠ 0 then { s with mem := ops.kfree s.mem (s.info proc).stackBase } else s
  let s :=
    if (s.info proc).pgd ≠ 0 then
      { s with mem := ops.pmmFree (ops.vmmFreeAll s.mem (s.info proc).pgd) (s.info proc).pgd }
    else s
  let s :=
    if (s.info proc).fdTable ≠ 0 then { s with mem := ops.kfree s.mem (s.info proc).fdTable } else s
  (freePid s (s.info proc).pid).setState proc .unused

/-- The loop of `process_exit` over the children. -/
def reparent : Nat → Option ProcRef → ProcTable μ → Option (ProcTable μ)
  | _, none, s => some s
  | 0, some _, _ => none
  | fuel + 1, some child, s =>
    let s := s.modInfo child fun x => { x with ppid := 1 }
    reparent fuel (s.info child).sibling s

/-- `process_exit` up to its last statement, which is `scheduler_yield`. -/
def exitMark (s : ProcTable μ) (current : ProcRef) (code : Int) : Option (ProcTable μ) :=
  let s := s.modInfo current fun x => { x with exitCode := code }
  let s := s.setState current .zombie
  (reparent maxProcesses (s.info current).children s).map fun s =>
    let s := s.modInfo current fun x => { x with sibling := s.zombieList }
    { s with zombieList := some current, numProcesses := s.numProcesses - 1 }

def processExit (s : ProcTable μ) (cpu : Nat) (code : Int) : Option (ProcTable μ) :=
  match (s.sched.runqueues cpu).current with
  | none => none -- kernel_panic: no current process
  | some current =>
    (exitMark s current code).bind fun s =>
      let sched := schedulerYield s.sched cpu
      -- Back from the yield at once: kernel_panic.
      if (sched.runqueues cpu).current = some current then none else some { s with sched := sched }

def processGetByPid (s : ProcTable μ) (pid : Int) : Option ProcRef :=
  if pid ≤ 0 ∨ (maxProcesses : Int) < pid then none
  else
    match slotOf pid with
    | none => none
    | some proc => if s.state proc = .unused then none else some proc

/-- `process_kill`: the result is 0 or a negated status. -/
def processKill (s : ProcTable μ) (cpu : Nat) (pid sig : Int) : Option (Int × ProcTable μ) :=
  if pid ≤ 0 ∨ (maxProcesses : Int) ≤ pid then some (-statusInval, s)
  else if sig < 0 ∨ (numSignals : Int) ≤ sig then some (-statusInval, s)
  else
    match slotOf pid with
    | none => none
    | some proc =>
      if s.state proc = .unused ∨ s.state proc = .zombie then some (-statusNotfound, s)
      else
        match (s.sched.runqueues cpu).current with
        | none => none -- NULL dereference
        | some current =>
          if (s.info current).euid ≠ 0 ∧ (s.info current).euid ≠ (s.info proc).uid then
            some (-statusPerm, s)
          else
            let s := s.modInfo proc fun x => { x with sigPending := x.sigPending ||| (1#64 <<< sig.toNat) }
            if s.state proc = .sleeping then
              let s := s.setState proc .ready
              some (0, { s with sched := schedulerAddProcess s.sched proc })
            else some (0, s)

/-- How the search of `process_wait` among the children ends. -/
inductive ChildSearch where
  | found (child : ProcRef) (prev : Option ProcRef)
  | exhausted
deriving DecidableEq, Repr

def findZombie (s : ProcTable μ) (pid : Int) : Nat → Option ProcRef → Option ProcRef → Option ChildSearch
  | _, none, _ => some .exhausted
  | 0, some _, _ => none
  | fuel + 1, some child, prev =>
    if (pid = -1 ∨ (s.info child).pid = pid) ∧ s.state child = .zombie then some (.found child prev)
    else findZombie s pid fuel (s.info child).sibling (some child)

/-- What one round of `process_wait` comes to. -/
inductive WaitResult (μ : Type) where
  /-- The call returns this value, with the status stored if a child was found. -/
  | returns (value : Int) (status : Option Int) (s : ProcTable μ)
  /-- Nothing yet: the round ends in `scheduler_yield`, and another follows. -/
  | retry (s : ProcTable μ)

/-- One round of the loop of `process_wait`; `options` is nonzero for `WNOHANG`. -/
def processWait (ops : MemOps μ) (s : ProcTable μ) (cpu : Nat) (pid : Int) (nohang : Bool) :
    Option (WaitResult μ) :=
  match (s.sched.runqueues cpu).current with
  | none => none -- NULL dereference
  | some current =>
    match findZombie s pid maxProcesses (s.info current).children none with
    | none => none
    | some (.found child prev) =>
      let cpid := (s.info child).pid
      let status := (s.info child).exitCode
      let s :=
        match prev with
        | some prev => s.modInfo prev fun x => { x with sibling := (s.info child).sibling }
        | none => s.modInfo current fun x => { x with children := (s.info child).sibling }
      some (.returns cpid (some status) (processCleanup ops s child))
    | some .exhausted =>
      if nohang then some (.returns 0 none s)
      else if (s.info current).children = none then some (.returns (-statusNotfound) none s)
      else some (.retry { s with sched := schedulerYield s.sched cpu })

/-- The loop of `process_reap_zombies`. -/
def reapWalk : Nat → Option ProcRef → Option ProcRef → ProcTable μ → Option (ProcTable μ)
  | _, none, _, s => some s
  | 0, some _, _, _ => none
  | fuel + 1, some proc, prev, s =>
    let next := (s.info proc).sibling
    if s.state proc = .unused then
      let s :=
        match prev with
        | some prev => s.modInfo prev fun x => { x with sibling := next }
        | none => { s with zombieList := next }
      reapWalk fuel next prev s
    else reapWalk fuel next (some proc) s

def processReapZombies (s : ProcTable μ) : Option (ProcTable μ) :=
  reapWalk maxProcesses s.zombieList none s

end

end Crimson.Proc
