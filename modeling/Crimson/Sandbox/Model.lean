import Crimson.Proc.Model

/-!
# App sandboxes (`sandbox.c`)

A table of contexts, one for each sandboxed process. A context carries no process number:
`sandbox_create` uses its `pid` for messages only, and `sandbox_get` finds a process by its
number and then takes the first context in use, whoever it was made for.

The processes are those of `process.c`, with the word `cap[0]` of each beside them. The
audit log and the messages are not modelled.
-/

set_option autoImplicit false

namespace Crimson.Sandbox

open Crimson.Sched Crimson.Proc

/-- `CAP_ADMIN` of `sandbox.h`, and the bits the default sets use. -/
def capAdmin : UInt64 := 1
def capStorage : UInt64 := (1 : UInt64) <<< 3
def capDisplay : UInt64 := (1 : UInt64) <<< 4
def capIpc : UInt64 := (1 : UInt64) <<< 18

def capsSystem : UInt64 := 0xFFFFFFFFFFFFFFFF
def capsUserApp : UInt64 := capDisplay ||| capStorage ||| capIpc

/-- `SANDBOX_MAX_MEMORY`. -/
def sandboxMaxMemory : Nat := 256 * 1024 * 1024

/-- `MAX_SANDBOXES`. -/
def maxSandboxes : Nat := 128

/-- `sandbox_level_t`; the first is `SANDBOX_NONE`. -/
inductive SandboxLevel where
  | unrestricted
  | system
  | user
  | untrusted
deriving DecidableEq, Repr

/-- `sandbox_ctx_t`, without the counters no function here uses. -/
structure SandboxCtx where
  level : SandboxLevel
  capGranted : UInt64
  capUsed : UInt64
  capDenied : UInt64
  memBase : Nat
  memLimit : Nat
  appId : List UInt8
  dataDir : List UInt8
  violations : UInt32
deriving DecidableEq, Repr

/-- What `kmemset(ctx, 0, sizeof(*ctx))` leaves. -/
def SandboxCtx.zero : SandboxCtx where
  level := .unrestricted
  capGranted := 0
  capUsed := 0
  capDenied := 0
  memBase := 0
  memLimit := 0
  appId := []
  dataDir := []
  violations := 0

/-- An index into `g_sandboxes`. -/
abbrev Slot := Fin maxSandboxes

/-- `g_sandboxes` and the counters, with the processes and their words `cap[0]`. -/
structure SandboxState (μ : Type) where
  procs : ProcTable μ
  cap : ProcRef → UInt64
  sandboxes : Slot → SandboxCtx
  sandboxCount : UInt32
  sandboxViolationsTotal : UInt32

section

variable {μ : Type}

def SandboxState.modCtx (s : SandboxState μ) (i : Slot) (f : SandboxCtx → SandboxCtx) : SandboxState μ :=
  { s with sandboxes := Function.update s.sandboxes i (f (s.sandboxes i)) }

def SandboxState.setMem (s : SandboxState μ) (mem : μ) : SandboxState μ :=
  { s with procs := { s.procs with mem := mem } }

def sandboxInit (procs : ProcTable μ) (cap : ProcRef → UInt64) : SandboxState μ where
  procs := procs
  cap := cap
  sandboxes := fun _ => SandboxCtx.zero
  sandboxCount := 0
  sandboxViolationsTotal := 0

/-- The slot `sandbox_create` takes. -/
def freeSandbox (s : SandboxState μ) : Option Slot :=
  (List.finRange maxSandboxes).find? fun i =>
    (s.sandboxes i).level = .unrestricted ∧ (s.sandboxes i).memBase = 0

/-- The capabilities and the memory limit of a level. -/
def levelDefaults : SandboxLevel → UInt64 × Nat
  | .system => (capsSystem &&& ~~~capAdmin, sandboxMaxMemory)
  | .user => (capsUserApp, sandboxMaxMemory / 2)
  | .untrusted => (capDisplay ||| capIpc, sandboxMaxMemory / 4)
  | .unrestricted => (capsSystem, sandboxMaxMemory)

/-- The fields set before the memory is asked for. -/
def initCtx (level : SandboxLevel) (appId : List UInt8) : SandboxCtx :=
  { SandboxCtx.zero with
    level := level
    appId := appId.take 63
    capGranted := (levelDefaults level).1
    memLimit := (levelDefaults level).2 }

/-- `"/data/apps/"`. -/
def dataApps : List UInt8 := [47, 100, 97, 116, 97, 47, 97, 112, 112, 115, 47]

/-- `sandbox_create`; the slot is the pointer returned, `none` a null pointer. -/
def sandboxCreate (ops : MemOps μ) (s : SandboxState μ) (_pid : Int) (level : SandboxLevel)
    (appId : List UInt8) : Option (Option Slot × SandboxState μ) :=
  if maxSandboxes ≤ s.sandboxCount.toNat then some (none, s)
  else
    match freeSandbox s with
    | none => some (none, s)
    | some i =>
      let ctx := initCtx level appId
      match ops.kmalloc s.procs.mem ctx.memLimit with
      | none => none
      | some (memBase, mem) =>
        let s := s.setMem mem
        if memBase = 0 then some (none, s.modCtx i fun _ => SandboxCtx.zero)
        else
          let s := s.modCtx i fun _ => { ctx with memBase := memBase, dataDir := (dataApps ++ appId).take 127 }
          some (some i, { s with sandboxCount := s.sandboxCount + 1 })

/-- A context `sandbox_get` may return. -/
def SandboxCtx.inUse (c : SandboxCtx) : Bool := c.level ≠ .unrestricted ∧ c.memBase ≠ 0

def sandboxGet (s : SandboxState μ) (pid : Int) : Option Slot :=
  match processGetByPid s.procs pid with
  | none => none
  | some _ => (List.finRange maxSandboxes).find? fun i => (s.sandboxes i).inUse

def sandboxDestroy (ops : MemOps μ) (s : SandboxState μ) (pid : Int) : SandboxState μ :=
  match sandboxGet s pid with
  | none => s
  | some i =>
    let memBase := (s.sandboxes i).memBase
    let s := if memBase ≠ 0 then s.setMem (ops.kfree s.procs.mem memBase) else s
    let s := s.modCtx i fun _ => SandboxCtx.zero
    { s with sandboxCount := s.sandboxCount - 1 }

/-- The bits are all among those granted. -/
def SandboxCtx.allows (c : SandboxCtx) (cap : UInt64) : Bool := c.capGranted &&& cap = cap

def sandboxCheckCap (s : SandboxState μ) (pid : Int) (cap : UInt64) : Int × SandboxState μ :=
  match sandboxGet s pid with
  | none => (1, s)
  | some i =>
    if (s.sandboxes i).level = .unrestricted then (1, s)
    else if (s.sandboxes i).allows cap then (1, s.modCtx i fun c => { c with capUsed := c.capUsed ||| cap })
    else
      let s := s.modCtx i fun c => { c with capDenied := c.capDenied ||| cap, violations := c.violations + 1 }
      (0, { s with sandboxViolationsTotal := s.sandboxViolationsTotal + 1 })

def currentPid (t : ProcTable μ) (cpu : Nat) : Int :=
  match (t.sched.runqueues cpu).current with
  | some current => (t.info current).pid
  | none => 0

/-- The caller is a process without `CAP_ADMIN`. -/
def grantDenied (s : SandboxState μ) (cpu : Nat) : Bool :=
  match processGetByPid s.procs (currentPid s.procs cpu) with
  | some current => s.cap current &&& capAdmin = 0
  | none => false

def sandboxGrantCap (s : SandboxState μ) (cpu : Nat) (pid : Int) (cap : UInt64) : Int × SandboxState μ :=
  match sandboxGet s pid with
  | none => (-1, s)
  | some i =>
    if grantDenied s cpu then (-1, s)
    else (0, s.modCtx i fun c => { c with capGranted := c.capGranted ||| cap })

def sandboxRevokeCap (s : SandboxState μ) (pid : Int) (cap : UInt64) : Int × SandboxState μ :=
  match sandboxGet s pid with
  | none => (-1, s)
  | some i => (0, s.modCtx i fun c => { c with capGranted := c.capGranted &&& ~~~cap })

end

end Crimson.Sandbox
