import Crimson.Lib.Ring
import Crimson.Sandbox.Model

/-!
# Message ports (`sandbox.c`)

A table of 256 ports, each with a ring of 64 messages. A slot is free if its owner is 0, and a port
is looked up by its number, which is 0 in a slot that has been zeroed.

`ipc_send` and `ipc_receive` look the port up and check the caller without a lock, and touch the
ring under the lock of the port: the two critical sections are functions of their own here.
`kmemset`, `kmemcpy`, `kstrcmp` and `kstrncpy` are not in the repository; they are taken to do
what `memset`, `memcpy`, `strcmp` and `strncpy` do.
-/

set_option autoImplicit false

namespace Crimson.Sandbox

open Crimson.Lib Crimson.Proc

def ipcMsgMaxSize : UInt32 := 4096
def ipcPortMax : Nat := 256
def ipcQueueDepth : Nat := 64

/-- `ipc_msg_type_t`. -/
inductive IpcMsgType where
  | data
  | request
  | reply
  | signal
  | sharedMem
deriving DecidableEq, Repr

/-- `ipc_message_t`. -/
structure IpcMessage where
  id : UInt32
  type : IpcMsgType
  sender : Int
  receiver : Int
  port : UInt32
  size : UInt32
  timestamp : UInt64
  data : Nat → UInt8

def IpcMessage.zero : IpcMessage where
  id := 0
  type := .data
  sender := 0
  receiver := 0
  port := 0
  size := 0
  timestamp := 0
  data := fun _ => 0

/-- `ipc_port_t`; its lock is what makes the critical sections single steps. -/
structure IpcPort where
  portId : UInt32
  owner : Int
  name : List UInt8
  requiredCaps : UInt64
  queue : Nat → IpcMessage
  head : Nat
  tail : Nat
  count : Nat

/-- What `kmemset(port, 0, sizeof(*port))` leaves. -/
def IpcPort.zero : IpcPort where
  portId := 0
  owner := 0
  name := []
  requiredCaps := 0
  queue := fun _ => IpcMessage.zero
  head := 0
  tail := 0
  count := 0

/-- An index into `g_ipc_ports`. -/
abbrev PortSlot := Fin ipcPortMax

/-- `g_ipc_ports`, `ipc_next_port` and `ipc_msg_id`, with the sandboxes and the processes. -/
structure IpcState (μ : Type) where
  sb : SandboxState μ
  ports : PortSlot → IpcPort
  nextPort : UInt32
  msgId : UInt32

/-- What a caller of `ipc_send` passes, and who it is; the data is `none` for a null pointer. -/
structure IpcRequest where
  sender : Int
  port : UInt32
  data : Option (Nat → UInt8)
  size : UInt32
  type : IpcMsgType

section

variable {μ : Type}

def IpcState.setPort (s : IpcState μ) (i : PortSlot) (p : IpcPort) : IpcState μ :=
  { s with ports := Function.update s.ports i p }

/-- The zeroed table. -/
def ipcInit (sb : SandboxState μ) : IpcState μ where
  sb := sb
  ports := fun _ => IpcPort.zero
  nextPort := 1
  msgId := 1

/-- The first slot with this number. -/
def findPort (s : IpcState μ) (id : UInt32) : Option PortSlot :=
  (List.finRange ipcPortMax).find? fun i => (s.ports i).portId = id

/-- The slot `ipc_port_create` takes. -/
def freePort (s : IpcState μ) : Option PortSlot :=
  (List.finRange ipcPortMax).find? fun i => (s.ports i).owner = 0

/-- Whether an owned slot has this name. -/
def nameTaken (s : IpcState μ) (name : List UInt8) : Bool :=
  (List.finRange ipcPortMax).any fun i => (s.ports i).owner ≠ 0 ∧ (s.ports i).name = name

/-- What `kstrncpy(port->name, name, sizeof(port->name) - 1)` leaves in a zeroed name. -/
def portName (name : List UInt8) : List UInt8 := name.take 31

/-- `ipc_port_create`: the number of the port, `none` for -1. -/
def ipcPortCreate (s : IpcState μ) (cpu : Nat) (name : List UInt8) (requiredCaps : UInt64) :
    Option UInt32 × IpcState μ :=
  if nameTaken s name then (none, s)
  else
    match freePort s with
    | none => (none, s)
    | some i =>
      let port := { IpcPort.zero with
        portId := s.nextPort
        owner := currentPid s.sb.procs cpu
        requiredCaps := requiredCaps
        name := portName name }
      (some s.nextPort, { s.setPort i port with nextPort := s.nextPort + 1 })

def ipcPortDestroy (s : IpcState μ) (cpu : Nat) (id : UInt32) : Int × IpcState μ :=
  match findPort s id with
  | none => (-1, s)
  | some i =>
    let caller := currentPid s.sb.procs cpu
    if (s.ports i).owner = caller then (0, s.setPort i IpcPort.zero)
    else
      let check := sandboxCheckCap s.sb caller capAdmin
      let s := { s with sb := check.2 }
      if check.1 = 0 then (-1, s) else (0, s.setPort i IpcPort.zero)

/-- `ipc_send` before the lock: the slot, `none` for -1. -/
def ipcSendCheck (s : IpcState μ) (cpu : Nat) (id size : UInt32) : Option PortSlot × IpcState μ :=
  if ipcMsgMaxSize < size then (none, s)
  else
    match findPort s id with
    | none => (none, s)
    | some i =>
      if (s.ports i).requiredCaps = 0 then (some i, s)
      else
        let check := sandboxCheckCap s.sb (currentPid s.sb.procs cpu) (s.ports i).requiredCaps
        let s := { s with sb := check.2 }
        if check.1 = 0 then (none, s) else (some i, s)

/-- The message written over what is in the cell. -/
def IpcRequest.message (req : IpcRequest) (id : UInt32) (receiver : Int) (now : UInt64) (old : IpcMessage) :
    IpcMessage where
  id := id
  type := req.type
  sender := req.sender
  receiver := receiver
  port := req.port
  size := req.size
  timestamp := now
  data :=
    match req.data with
    | some data => fun k => if k < req.size.toNat then data k else old.data k
    | none => old.data

/-- A message behind those in the ring. -/
def IpcPort.enqueue (p : IpcPort) (msg : IpcMessage) : IpcPort :=
  { p with
    queue := Function.update p.queue p.tail msg
    tail := (p.tail + 1) % ipcQueueDepth
    count := p.count + 1 }

/-- The first message gone. -/
def IpcPort.dequeue (p : IpcPort) : IpcPort :=
  { p with
    head := (p.head + 1) % ipcQueueDepth
    count := p.count - 1 }

/-- The critical section of `ipc_send`: the cell written, `none` where the ring is full. -/
def ipcEnqueue (s : IpcState μ) (i : PortSlot) (req : IpcRequest) (now : UInt64) : Option Nat × IpcState μ :=
  let p := s.ports i
  if ipcQueueDepth ≤ p.count then (none, s)
  else
    (some p.tail,
      { s.setPort i (p.enqueue (req.message s.msgId p.owner now (p.queue p.tail))) with msgId := s.msgId + 1 })

/-- `return msg->id`, as an `int`. -/
def ipcSendResult (s : IpcState μ) (i : PortSlot) (cell : Nat) : Int := ((s.ports i).queue cell).id.toInt32.toInt

/-- `ipc_send`, with nothing else going on. -/
def ipcSend (s : IpcState μ) (cpu : Nat) (id : UInt32) (data : Option (Nat → UInt8)) (size : UInt32)
    (type : IpcMsgType) (now : UInt64) : Int × IpcState μ :=
  let sender := currentPid s.sb.procs cpu
  match ipcSendCheck s cpu id size with
  | (none, s) => (-1, s)
  | (some i, s) =>
    match ipcEnqueue s i ⟨sender, id, data, size, type⟩ now with
    | (none, s) => (-1, s)
    | (some cell, s) => (ipcSendResult s i cell, s)

/-- The critical section of `ipc_receive`: the message copied, `none` where there is none. -/
def ipcDequeue (s : IpcState μ) (i : PortSlot) : Option IpcMessage × IpcState μ :=
  let p := s.ports i
  if 0 < p.count then (some (p.queue p.head), s.setPort i p.dequeue) else (none, s)

/-- `ipc_receive` before the loop: the slot, `none` for -1. -/
def ipcReceiveCheck (s : IpcState μ) (cpu : Nat) (id : UInt32) : Option PortSlot :=
  match findPort s id with
  | none => none
  | some i => if (s.ports i).owner ≠ currentPid s.sb.procs cpu then none else some i

/-- The deadline of `ipc_receive`. -/
def ipcDeadline (now : UInt64) (timeoutMs : UInt32) : UInt64 := now + (timeoutMs * 1000).toUInt64

/-- The loop of `ipc_receive`, while the clock answers `ticks`; `none` if it is not left by then. -/
def receiveLoop (s : IpcState μ) (i : PortSlot) (timeoutMs : UInt32) (deadline : UInt64) :
    List UInt64 → Option (Int × Option IpcMessage × IpcState μ)
  | [] =>
    match ipcDequeue s i with
    | (some msg, s) => some (0, some msg, s)
    | (none, s) => if timeoutMs = 0 then some (-1, none, s) else none
  | t :: ticks =>
    match ipcDequeue s i with
    | (some msg, s) => some (0, some msg, s)
    | (none, s) =>
      if timeoutMs = 0 then some (-1, none, s)
      else if deadline ≤ t then some (-1, none, s)
      else receiveLoop s i timeoutMs deadline ticks

/-- `ipc_receive`, with nothing else going on: the result and what `*out_msg` is set to. -/
def ipcReceive (s : IpcState μ) (cpu : Nat) (id timeoutMs : UInt32) (now : UInt64) (ticks : List UInt64) :
    Option (Int × Option IpcMessage × IpcState μ) :=
  match ipcReceiveCheck s cpu id with
  | none => some (-1, none, s)
  | some i => receiveLoop s i timeoutMs (ipcDeadline now timeoutMs) ticks

/-! ## The lookup -/

variable {s : IpcState μ} {id : UInt32} {i : PortSlot}

@[simp] theorem setPort_self (s : IpcState μ) (i : PortSlot) (p : IpcPort) : (s.setPort i p).ports i = p := by
  simp [IpcState.setPort]

@[simp] theorem setPort_of_ne (s : IpcState μ) {i j : PortSlot} (h : j ≠ i) (p : IpcPort) :
    (s.setPort i p).ports j = s.ports j := by
  simp [IpcState.setPort, h]

theorem findPort_id (h : findPort s id = some i) : (s.ports i).portId = id := by
  simpa using List.find?_some h

theorem findPort_none (h : findPort s id = none) (i : PortSlot) : (s.ports i).portId ≠ id := by
  have hnone := List.find?_eq_none.mp h i (List.mem_finRange i)
  simpa using hnone

/-- The only slot with a number is found. -/
theorem findPort_of_unique (hi : (s.ports i).portId = id) (hunique : ∀ j, (s.ports j).portId = id → j = i) :
    findPort s id = some i := by
  cases hf : findPort s id with
  | none => exact absurd hi (findPort_none hf i)
  | some j => rw [hunique j (findPort_id hf)]

theorem freePort_owner (h : freePort s = some i) : (s.ports i).owner = 0 := by
  simpa using List.find?_some h

/-! ## The ring -/

/-- The messages in the ring, first one first. -/
def IpcPort.pending (p : IpcPort) : List IpcMessage := ringList p.queue ipcQueueDepth p.head p.count

structure IpcPort.Ok (p : IpcPort) : Prop where
  head : p.head < ipcQueueDepth
  tail : p.tail = (p.head + p.count) % ipcQueueDepth
  count : p.count ≤ ipcQueueDepth

theorem IpcPort.zero_ok : IpcPort.zero.Ok := ⟨Nat.zero_lt_succ 63, rfl, Nat.zero_le _⟩

variable {p : IpcPort}

@[simp] theorem length_pending (p : IpcPort) : p.pending.length = p.count := by simp [IpcPort.pending]

theorem IpcPort.Ok.enqueue (h : p.Ok) (hroom : p.count < ipcQueueDepth) (msg : IpcMessage) : (p.enqueue msg).Ok := by
  refine ⟨h.head, ?_, hroom⟩
  show (p.tail + 1) % ipcQueueDepth = (p.head + (p.count + 1)) % ipcQueueDepth
  rw [h.tail, Nat.mod_add_mod, Nat.add_assoc]

theorem enqueue_queue (p : IpcPort) (msg : IpcMessage) :
    (p.enqueue msg).queue = Function.update p.queue p.tail msg := rfl

/-- A message that is enqueued goes behind the others. -/
theorem pending_enqueue (h : p.Ok) (hroom : p.count < ipcQueueDepth) (msg : IpcMessage) :
    (p.enqueue msg).pending = p.pending ++ [msg] := by
  have hput : ringList (ringPut ipcQueueDepth p.queue ((p.head + p.count) % ipcQueueDepth) [msg]).1 ipcQueueDepth p.head
      (p.count + 1) = ringList p.queue ipcQueueDepth p.head p.count ++ [msg] :=
    ringList_ringPut (Nat.zero_lt_succ 63) hroom
  rw [← h.tail] at hput
  exact hput

theorem IpcPort.Ok.dequeue (h : p.Ok) (hpos : 0 < p.count) : p.dequeue.Ok := by
  refine ⟨Nat.mod_lt _ (Nat.zero_lt_succ 63), ?_, Nat.le_trans (Nat.sub_le _ _) h.count⟩
  show p.tail = ((p.head + 1) % ipcQueueDepth + (p.count - 1)) % ipcQueueDepth
  have hcount : 1 + (p.count - 1) = p.count := by omega
  rw [h.tail, Nat.mod_add_mod, Nat.add_assoc, hcount]

/-- The message that is dequeued is the first one. -/
theorem pending_dequeue (h : p.Ok) (hpos : 0 < p.count) : p.pending = p.queue p.head :: p.dequeue.pending := by
  obtain ⟨n, hn⟩ := Nat.exists_eq_add_one_of_ne_zero (Nat.ne_of_gt hpos)
  have hsucc : ringList p.queue ipcQueueDepth p.head (n + 1) =
      p.queue p.head :: ringList p.queue ipcQueueDepth ((p.head + 1) % ipcQueueDepth) n := ringList_succ h.head
  have hless : p.count - 1 = n := by omega
  rw [IpcPort.pending, hn, hsucc, IpcPort.pending, IpcPort.dequeue, hless]

/-! ## The calls -/

/-- What a message tells of the call that sent it. -/
structure Carries (req : IpcRequest) (msg : IpcMessage) : Prop where
  sender : msg.sender = req.sender
  type : msg.type = req.type
  size : msg.size = req.size
  data : ∀ data, req.data = some data → ∀ k < req.size.toNat, msg.data k = data k

theorem message_carries (req : IpcRequest) (id : UInt32) (receiver : Int) (now : UInt64) (old : IpcMessage) :
    Carries req (req.message id receiver now old) := by
  refine ⟨rfl, rfl, rfl, fun data hdata k hk => ?_⟩
  simp [IpcRequest.message, hdata, hk]

/-- What comes before the critical section of `ipc_send` leaves the ports alone. -/
theorem ipcSendCheck_ports (s : IpcState μ) (cpu : Nat) (id size : UInt32) :
    (ipcSendCheck s cpu id size).2.ports = s.ports ∧ (ipcSendCheck s cpu id size).2.nextPort = s.nextPort ∧
      (ipcSendCheck s cpu id size).2.msgId = s.msgId := by
  unfold ipcSendCheck
  split
  · exact ⟨rfl, rfl, rfl⟩
  · split
    · exact ⟨rfl, rfl, rfl⟩
    · split
      · exact ⟨rfl, rfl, rfl⟩
      · dsimp only
        split <;> exact ⟨rfl, rfl, rfl⟩

/-- A slot that it comes to is the one found. -/
theorem ipcSendCheck_found {cpu : Nat} {size : UInt32} (h : (ipcSendCheck s cpu id size).1 = some i) :
    findPort s id = some i := by
  unfold ipcSendCheck at h
  split at h
  next => cases h
  next =>
    split at h
    next => cases h
    next j hj =>
      split at h
      next => exact hj.trans h
      next =>
        dsimp only at h
        split at h
        · cases h
        · exact hj.trans h

theorem ipcEnqueue_cases (st : IpcState μ) (j : PortSlot) (req : IpcRequest) (now : UInt64) :
    (ipcQueueDepth ≤ (st.ports j).count ∧ ipcEnqueue st j req now = (none, st)) ∨
      ((st.ports j).count < ipcQueueDepth ∧ ∃ msg, Carries req msg ∧ msg.id = st.msgId ∧
        ipcEnqueue st j req now = (some (st.ports j).tail,
          { st.setPort j ((st.ports j).enqueue msg) with msgId := st.msgId + 1 })) := by
  by_cases hfull : ipcQueueDepth ≤ (st.ports j).count
  · exact Or.inl ⟨hfull, if_pos hfull⟩
  · exact Or.inr ⟨Nat.lt_of_not_le hfull, _, message_carries _ _ _ _ _, rfl, if_neg hfull⟩

theorem ipcDequeue_cases (st : IpcState μ) (j : PortSlot) :
    ((st.ports j).count = 0 ∧ ipcDequeue st j = (none, st)) ∨
      (0 < (st.ports j).count ∧
        ipcDequeue st j = (some ((st.ports j).queue (st.ports j).head), st.setPort j (st.ports j).dequeue)) := by
  by_cases hpos : 0 < (st.ports j).count
  · exact Or.inr ⟨hpos, if_pos hpos⟩
  · exact Or.inl ⟨by omega, if_neg hpos⟩

/-- What `ipc_port_create` leaves when it goes through. -/
theorem ipcPortCreate_some {st st' : IpcState μ} {cpu : Nat} {name : List UInt8} {caps : UInt64}
    (h : ipcPortCreate st cpu name caps = (some id, st')) :
    ∃ j, freePort st = some j ∧ nameTaken st name = false ∧ id = st.nextPort ∧
      st' = { st.setPort j { IpcPort.zero with
        portId := id, owner := currentPid st.sb.procs cpu, requiredCaps := caps, name := portName name } with
        nextPort := st.nextPort + 1 } := by
  unfold ipcPortCreate at h
  split at h
  next => cases h
  next hname =>
    split at h
    next => cases h
    next j hj =>
      obtain ⟨hid, rfl⟩ := Prod.mk.inj h
      obtain rfl := Option.some.inj hid
      exact ⟨j, hj, Bool.eq_false_iff.mpr hname, rfl, rfl⟩

/-- And that it leaves the table alone when it does not. -/
theorem ipcPortCreate_none {st st' : IpcState μ} {cpu : Nat} {name : List UInt8} {caps : UInt64}
    (h : ipcPortCreate st cpu name caps = (none, st')) : st' = st := by
  unfold ipcPortCreate at h
  split at h
  next => exact (Prod.mk.inj h).2.symm
  next =>
    split at h
    next => exact (Prod.mk.inj h).2.symm
    next => cases h

/-- `ipc_port_destroy` refuses, or zeroes the slot it finds. -/
theorem ipcPortDestroy_cases (s : IpcState μ) (cpu : Nat) (id : UInt32) :
    (∃ sb, ipcPortDestroy s cpu id = (-1, { s with sb := sb })) ∨
      ∃ j sb, findPort s id = some j ∧
        ((s.ports j).owner = currentPid s.sb.procs cpu ∨
          (sandboxCheckCap s.sb (currentPid s.sb.procs cpu) capAdmin).1 ≠ 0) ∧
        ipcPortDestroy s cpu id = (0, { s.setPort j IpcPort.zero with sb := sb }) := by
  unfold ipcPortDestroy
  cases hf : findPort s id with
  | none => exact Or.inl ⟨s.sb, rfl⟩
  | some j =>
    dsimp only
    split
    next howner => exact Or.inr ⟨j, s.sb, rfl, Or.inl howner, rfl⟩
    next =>
      split
      next => exact Or.inl ⟨_, rfl⟩
      next hcheck => exact Or.inr ⟨j, _, rfl, Or.inr hcheck, rfl⟩

/-- The loop of `ipc_receive` with nothing else going on: it finds a message at once or not at all. -/
theorem receiveLoop_cases {timeoutMs : UInt32} {deadline : UInt64} {ticks : List UInt64}
    {r : Int × Option IpcMessage × IpcState μ} (h : receiveLoop s i timeoutMs deadline ticks = some r) :
    (r.1 = -1 ∧ r.2.2 = s) ∨ (0 < (s.ports i).count ∧ r.2.2 = s.setPort i (s.ports i).dequeue) := by
  rcases ipcDequeue_cases s i with ⟨-, he⟩ | ⟨hpos, he⟩
  · refine Or.inl ?_
    induction ticks with
    | nil =>
      simp only [receiveLoop, he] at h
      split at h
      · obtain rfl := Option.some.inj h
        exact ⟨rfl, rfl⟩
      · cases h
    | cons t ticks ih =>
      simp only [receiveLoop, he] at h
      split at h
      · obtain rfl := Option.some.inj h
        exact ⟨rfl, rfl⟩
      · split at h
        · obtain rfl := Option.some.inj h
          exact ⟨rfl, rfl⟩
        · exact ih h
  · refine Or.inr ⟨hpos, ?_⟩
    cases ticks <;> (simp only [receiveLoop, he] at h; obtain rfl := Option.some.inj h; rfl)

end

end Crimson.Sandbox
