import Crimson.Lib.Run
import Crimson.Sandbox.Ipc
import Crimson.Sandbox.Isolation

/-!
# A port is a queue (`sandbox.c`)

Any number of calls of `ipc_send` and `ipc_receive` go on at a time. A call is a few steps: the lookup
with its checks, the critical section, and for a send the reading of the id that it returns, which
comes after the lock has been given back. Between the steps of one call come those of others.

`sent` and `received` record, for each slot, what the critical sections have put in and taken out.
-/

set_option autoImplicit false

namespace Crimson.Sandbox

open Crimson.Lib Crimson.Proc

/-- Where a call is. -/
inductive IpcCall where
  | idle
  /-- To take the lock, in `ipc_send`. -/
  | sending (i : PortSlot) (req : IpcRequest)
  /-- To read `msg->id`. -/
  | returning (i : PortSlot) (cell : Nat)
  /-- To take the lock, in the loop of `ipc_receive`. -/
  | receiving (i : PortSlot) (timeoutMs : UInt32) (deadline : UInt64)

/-- The ports and the calls that are going on, one a thread, with what has been put in and taken out
    of each slot. `answer` is what a call has returned that has ended with the last step. -/
structure IpcRun (μ : Type) where
  st : IpcState μ
  calls : Nat → IpcCall
  sent : PortSlot → List IpcRequest
  received : PortSlot → List IpcMessage
  answer : Option Int

inductive IpcOp (μ : Type) where
  /-- Thread `t` calls `ipc_send` and comes to the lock. -/
  | send (t cpu : Nat) (id : UInt32) (data : Option (Nat → UInt8)) (size : UInt32) (type : IpcMsgType)
  /-- It calls `ipc_receive` and comes to the loop. -/
  | receive (t cpu : Nat) (id timeoutMs : UInt32) (now : UInt64)
  /-- It goes on. -/
  | goOn (t : Nat) (now : UInt64)
  | create (cpu : Nat) (name : List UInt8) (requiredCaps : UInt64)
  | destroy (cpu : Nat) (id : UInt32)
  /-- Processes and sandboxes are now these. -/
  | elsewhere (sb : SandboxState μ)

section

variable {μ : Type}

def IpcRun.setCall (s : IpcRun μ) (t : Nat) (c : IpcCall) : IpcRun μ :=
  { s with calls := Function.update s.calls t c }

/-- The steps of a call behind its checks. -/
def ipcGoOn (s : IpcRun μ) (t : Nat) (now : UInt64) : Option (IpcRun μ) :=
  match s.calls t with
  | .idle => none
  | .sending i req =>
    match ipcEnqueue s.st i req now with
    | (none, st) => some { s.setCall t .idle with st := st, answer := some (-1) }
    | (some cell, st) =>
      some { s.setCall t (.returning i cell) with
        st := st
        sent := Function.update s.sent i (s.sent i ++ [req])
        answer := none }
  | .returning i cell => some { s.setCall t .idle with answer := some (ipcSendResult s.st i cell) }
  | .receiving i timeoutMs deadline =>
    match ipcDequeue s.st i with
    | (some msg, st) =>
      some { s.setCall t .idle with
        st := st
        received := Function.update s.received i (s.received i ++ [msg])
        answer := some 0 }
    | (none, st) =>
      if timeoutMs = 0 ∨ deadline ≤ now then some { s.setCall t .idle with st := st, answer := some (-1) }
      else some { s with st := st, answer := none }

def ipcStep (s : IpcRun μ) : IpcOp μ → Option (IpcRun μ)
  | .send t cpu id data size type =>
    match s.calls t with
    | .idle =>
      let check := ipcSendCheck s.st cpu id size
      let req : IpcRequest := ⟨currentPid s.st.sb.procs cpu, id, data, size, type⟩
      match check.1 with
      | none => some { s with st := check.2, answer := some (-1) }
      | some i => some { s.setCall t (.sending i req) with st := check.2, answer := none }
    | _ => none
  | .receive t cpu id timeoutMs now =>
    match s.calls t with
    | .idle =>
      match ipcReceiveCheck s.st cpu id with
      | none => some { s with answer := some (-1) }
      | some i => some { s.setCall t (.receiving i timeoutMs (ipcDeadline now timeoutMs)) with answer := none }
    | _ => none
  | .goOn t now => ipcGoOn s t now
  | .create cpu name requiredCaps => some { s with st := (ipcPortCreate s.st cpu name requiredCaps).2, answer := none }
  | .destroy cpu id => some { s with st := (ipcPortDestroy s.st cpu id).2, answer := some (ipcPortDestroy s.st cpu id).1 }
  | .elsewhere sb => some { s with st := { s.st with sb := sb }, answer := none }

/-- From a state of the ports on, with the calls that are going on. -/
def ipcFrom (st : IpcState μ) (calls : Nat → IpcCall) : IpcRun μ where
  st := st
  calls := calls
  sent := fun _ => []
  received := fun _ => []
  answer := none

/-- Port `id` is not destroyed, and its number is not given to another one. -/
def StaysLive (id : UInt32) (s : IpcRun μ) : IpcOp μ → Prop
  | .create _ _ _ => s.st.nextPort ≠ id
  | .destroy _ id' => id' ≠ id
  | _ => True

/-- The send that comes to the lock of slot `i`. -/
def sendingTo (i : PortSlot) : IpcCall → Bool
  | .sending j _ => j = i
  | _ => false

/-- No message for slot `i` gets the id that is -1 as an `int`. -/
def NotLastId (i : PortSlot) (s : IpcRun μ) : IpcOp μ → Prop
  | .goOn t _ =>
    sendingTo i (s.calls t) = true → (s.st.ports i).count < ipcQueueDepth → s.st.msgId ≠ 0xFFFFFFFF
  | _ => True

instance (id : UInt32) (s : IpcRun μ) (op : IpcOp μ) : Decidable (StaysLive id s op) := by
  cases op <;> unfold StaysLive <;> infer_instance

instance (i : PortSlot) (s : IpcRun μ) (op : IpcOp μ) : Decidable (NotLastId i s op) := by
  cases op <;> unfold NotLastId <;> infer_instance

/-- **First in, first out**: what has been received and what is in the ring are the messages that
    have been sent, one by one and in order. -/
structure Fifo (i : PortSlot) (s : IpcRun μ) : Prop where
  queue : List.Forall₂ Carries (s.sent i) (s.received i ++ (s.st.ports i).pending)
  bound : (s.st.ports i).pending.length ≤ ipcQueueDepth

/-- The size is too large, or the sender may not use the port. -/
def Refused (st : IpcState μ) (cpu : Nat) (i : PortSlot) (size : UInt32) : Prop :=
  ipcMsgMaxSize < size ∨ ((st.ports i).requiredCaps ≠ 0 ∧
    (sandboxCheckCap st.sb (currentPid st.sb.procs cpu) (st.ports i).requiredCaps).1 = 0)

/-- A send to the port answers -1 exactly if it is refused or finds 64 messages, and then nothing has
    changed; a receive takes the first message if there is one. -/
def Answers (id : UInt32) (i : PortSlot) (s : IpcRun μ) (op : IpcOp μ) (s' : IpcRun μ) : Prop :=
  match op with
  | .send _ cpu id' _ size _ =>
    id' = id → (s'.answer = some (-1) ↔ Refused s.st cpu i size) ∧ s'.st.ports = s.st.ports ∧ s'.sent = s.sent
  | .goOn t _ =>
    match s.calls t with
    | .sending j req =>
      j = i →
        if (s.st.ports i).pending.length = ipcQueueDepth then
          s'.answer = some (-1) ∧ s'.st.ports = s.st.ports ∧ s'.sent = s.sent
        else s'.answer = none ∧ s'.sent i = s.sent i ++ [req]
    | .returning j _ => j = i → ∃ r, s'.answer = some r ∧ r ≠ -1
    | .receiving j _ _ =>
      j = i → s'.received i = s.received i ++ (s.st.ports i).pending.take 1 ∧
        (s'.answer = some 0 ↔ (s.st.ports i).pending ≠ [])
    | .idle => True
  | _ => True

def returningTo (i : PortSlot) : IpcCall → Bool
  | .returning j _ => j = i
  | _ => false

theorem Answers.returned {id : UInt32} {i : PortSlot} {s s' : IpcRun μ} {t : Nat} {now : UInt64}
    (h : Answers id i s (.goOn t now) s') (hcall : returningTo i (s.calls t) = true) : s'.answer ≠ some (-1) := by
  cases hc : s.calls t with
  | idle | sending | receiving => simp [returningTo, hc] at hcall
  | returning j cell =>
    simp only [Answers, hc] at h
    obtain ⟨r, hr, hne⟩ := h (by simpa [returningTo, hc] using hcall)
    rw [hr]
    exact fun heq => hne (Option.some.inj heq)

theorem answer_of_alwaysStep {id : UInt32} {i : PortSlot} {s s' : IpcRun μ} {t : Nat} {now : UInt64}
    {ops : List (IpcOp μ)} (h : AlwaysStep ipcStep (Answers id i) s (.goOn t now :: ops))
    (hcall : returningTo i (s.calls t) = true) (hs : ipcStep s (.goOn t now) = some s') : s'.answer ≠ some (-1) :=
  (h s' hs).1.returned hcall

/-! ## The invariant -/

/-- Slot `i` is that of port `id` and of no other, and holds the queue. -/
structure FifoInv (id : UInt32) (i : PortSlot) (s : IpcRun μ) : Prop where
  portId : (s.st.ports i).portId = id
  unique : ∀ j, (s.st.ports j).portId = id → j = i
  owner : (s.st.ports i).owner ≠ 0
  ok : (s.st.ports i).Ok
  ids : ∀ cell, ((s.st.ports i).queue cell).id ≠ 0xFFFFFFFF
  queue : List.Forall₂ Carries (s.sent i) (s.received i ++ (s.st.ports i).pending)

variable {id : UInt32} {i : PortSlot} {s s' : IpcRun μ}

theorem FifoInv.fifo (h : FifoInv id i s) : Fifo i s :=
  ⟨h.queue, by rw [length_pending]; exact h.ok.count⟩

theorem FifoInv.found (h : FifoInv id i s) : findPort s.st id = some i := findPort_of_unique h.portId h.unique

/-- Where the ports and what went through the slot are the same, nothing changes. -/
theorem FifoInv.same (h : FifoInv id i s) (hports : s'.st.ports = s.st.ports) (hsent : s'.sent = s.sent)
    (hreceived : s'.received = s.received) : FifoInv id i s' where
  portId := by rw [hports]; exact h.portId
  unique := by rw [hports]; exact h.unique
  owner := by rw [hports]; exact h.owner
  ok := by rw [hports]; exact h.ok
  ids := by rw [hports]; exact h.ids
  queue := by rw [hports, hsent, hreceived]; exact h.queue

/-- What is done with another slot does not matter, as long as it does not get the number. -/
theorem FifoInv.other (h : FifoInv id i s) {j : PortSlot} (hj : j ≠ i) {p : IpcPort} (hp : p.portId ≠ id)
    (hports : s'.st.ports = Function.update s.st.ports j p) (hsent : s'.sent i = s.sent i)
    (hreceived : s'.received i = s.received i) : FifoInv id i s' := by
  have hsame : s'.st.ports i = s.st.ports i := by rw [hports, Function.update_of_ne (Ne.symm hj)]
  refine ⟨by rw [hsame]; exact h.portId, ?_, by rw [hsame]; exact h.owner, by rw [hsame]; exact h.ok,
    by rw [hsame]; exact h.ids, by rw [hsame, hsent, hreceived]; exact h.queue⟩
  intro k hk
  by_cases hkj : k = j
  · rw [hkj, hports, Function.update_self] at hk
    exact absurd hk hp
  · rw [hports, Function.update_of_ne hkj] at hk
    exact h.unique k hk

theorem FifoInv.otherId (h : FifoInv id i s) {j : PortSlot} (hj : j ≠ i) : (s.st.ports j).portId ≠ id :=
  fun hid => hj (h.unique j hid)

/-- The slot itself with another queue. -/
theorem FifoInv.self (h : FifoInv id i s) {p : IpcPort} (hid : p.portId = (s.st.ports i).portId)
    (howner : p.owner = (s.st.ports i).owner) (hok : p.Ok) (hids : ∀ cell, (p.queue cell).id ≠ 0xFFFFFFFF)
    (hports : s'.st.ports = Function.update s.st.ports i p)
    (hqueue : List.Forall₂ Carries (s'.sent i) (s'.received i ++ p.pending)) : FifoInv id i s' := by
  have hsame : s'.st.ports i = p := by rw [hports, Function.update_self]
  refine ⟨by rw [hsame, hid]; exact h.portId, ?_, by rw [hsame, howner]; exact h.owner, by rw [hsame]; exact hok,
    by rw [hsame]; exact hids, by rw [hsame]; exact hqueue⟩
  intro k hk
  by_cases hki : k = i
  · exact hki
  · rw [hports, Function.update_of_ne hki] at hk
    exact h.unique k hk

/-! ## The steps -/

/-- **The critical section of a send.** -/
theorem FifoInv.sendStep (h : FifoInv id i s) {t : Nat} {j : PortSlot} {req : IpcRequest} {now : UInt64}
    (hcall : s.calls t = .sending j req) (hid : NotLastId i s (.goOn t now)) (hs : ipcGoOn s t now = some s') :
    FifoInv id i s' := by
  simp only [ipcGoOn, hcall] at hs
  rcases ipcEnqueue_cases s.st j req now with ⟨-, he⟩ | ⟨hroom, msg, hcarries, hmsg, he⟩
  · simp only [he, Option.some.injEq] at hs
    subst hs
    exact h.same rfl rfl rfl
  · simp only [he, Option.some.injEq] at hs
    subst hs
    by_cases hj : j = i
    · subst hj
      refine h.self (p := (s.st.ports j).enqueue msg) rfl rfl (h.ok.enqueue hroom msg) ?_ rfl ?_
      · intro cell
        by_cases hcell : cell = (s.st.ports j).tail
        · rw [enqueue_queue, hcell, Function.update_self, hmsg]
          exact hid (by simp [sendingTo, hcall]) hroom
        · rw [enqueue_queue, Function.update_of_ne hcell]
          exact h.ids cell
      · rw [pending_enqueue h.ok hroom, ← List.append_assoc]
        show List.Forall₂ Carries (Function.update s.sent j (s.sent j ++ [req]) j) _
        rw [Function.update_self]
        exact List.rel_append h.queue (List.Forall₂.cons hcarries List.Forall₂.nil)
    · exact h.other (p := (s.st.ports j).enqueue msg) hj (h.otherId hj) rfl (Function.update_of_ne (Ne.symm hj) _ _) rfl

/-- **The critical section of a receive.** -/
theorem FifoInv.receiveStep (h : FifoInv id i s) {t : Nat} {j : PortSlot} {timeoutMs : UInt32} {deadline now : UInt64}
    (hcall : s.calls t = .receiving j timeoutMs deadline) (hs : ipcGoOn s t now = some s') : FifoInv id i s' := by
  simp only [ipcGoOn, hcall] at hs
  rcases ipcDequeue_cases s.st j with ⟨-, he⟩ | ⟨hpos, he⟩
  · simp only [he] at hs
    split at hs <;> (obtain rfl := Option.some.inj hs; exact h.same rfl rfl rfl)
  · simp only [he, Option.some.injEq] at hs
    subst hs
    by_cases hj : j = i
    · subst hj
      refine h.self (p := (s.st.ports j).dequeue) rfl rfl (h.ok.dequeue hpos) h.ids rfl ?_
      show List.Forall₂ Carries (s.sent j) (Function.update s.received j _ j ++ _)
      rw [Function.update_self, List.append_assoc, List.singleton_append, ← pending_dequeue h.ok hpos]
      exact h.queue
    · exact h.other (p := (s.st.ports j).dequeue) hj (h.otherId hj) rfl rfl (Function.update_of_ne (Ne.symm hj) _ _)

/-- The lookup and the checks of a send. -/
theorem FifoInv.callStep (h : FifoInv id i s) {t cpu : Nat} {id' size : UInt32} {data : Option (Nat → UInt8)}
    {type : IpcMsgType} (hs : ipcStep s (.send t cpu id' data size type) = some s') : FifoInv id i s' := by
  obtain ⟨hports, -, -⟩ := ipcSendCheck_ports s.st cpu id' size
  cases hcall : s.calls t with
  | idle =>
    simp only [ipcStep, hcall] at hs
    split at hs <;> (obtain rfl := Option.some.inj hs; exact h.same hports rfl rfl)
  | sending | returning | receiving => simp [ipcStep, hcall] at hs

theorem FifoInv.createStep (h : FifoInv id i s) {cpu : Nat} {name : List UInt8} {caps : UInt64}
    (hid : s.st.nextPort ≠ id) (hs : ipcStep s (.create cpu name caps) = some s') : FifoInv id i s' := by
  obtain rfl := Option.some.inj hs
  unfold ipcPortCreate
  split
  · exact h.same rfl rfl rfl
  · split
    next => exact h.same rfl rfl rfl
    next j hj =>
      -- the slot taken has no owner, so it is another one
      have hji : j ≠ i := by
        rintro rfl
        exact h.owner (freePort_owner hj)
      exact h.other (p := { IpcPort.zero with
        portId := s.st.nextPort, owner := currentPid s.st.sb.procs cpu, requiredCaps := caps, name := portName name })
        hji hid rfl rfl rfl

theorem FifoInv.destroyStep (h : FifoInv id i s) (hne : id ≠ 0) {cpu : Nat} {id' : UInt32} (hid : id' ≠ id)
    (hs : ipcStep s (.destroy cpu id') = some s') : FifoInv id i s' := by
  obtain rfl := Option.some.inj hs
  unfold ipcPortDestroy
  split
  next => exact h.same rfl rfl rfl
  next j hj =>
    have hji : j ≠ i := by
      rintro rfl
      exact hid ((findPort_id hj).symm.trans h.portId)
    dsimp only
    split
    · exact h.other (p := IpcPort.zero) hji (Ne.symm hne) rfl rfl rfl
    · split
      · exact h.same rfl rfl rfl
      · exact h.other (p := IpcPort.zero) hji (Ne.symm hne) rfl rfl rfl

/-- What a run of the port's life assumes of a step. -/
def LifeStep (id : UInt32) (i : PortSlot) (s : IpcRun μ) (op : IpcOp μ) : Prop := StaysLive id s op ∧ NotLastId i s op

theorem FifoInv.step (h : FifoInv id i s) (hne : id ≠ 0) {op : IpcOp μ} (hop : LifeStep id i s op)
    (hs : ipcStep s op = some s') : FifoInv id i s' := by
  obtain ⟨hlive, hlast⟩ := hop
  cases op with
  | send t cpu id' data size type => exact h.callStep hs
  | receive t cpu id' timeoutMs now =>
    cases hcall : s.calls t with
    | idle =>
      simp only [ipcStep, hcall] at hs
      split at hs <;> (obtain rfl := Option.some.inj hs; exact h.same rfl rfl rfl)
    | sending | returning | receiving => simp [ipcStep, hcall] at hs
  | goOn t now =>
    cases hcall : s.calls t with
    | idle => simp [ipcStep, ipcGoOn, hcall] at hs
    | sending j req => exact h.sendStep hcall hlast hs
    | returning j cell =>
      simp only [ipcStep, ipcGoOn, hcall, Option.some.injEq] at hs
      subst hs
      exact h.same rfl rfl rfl
    | receiving j timeoutMs deadline => exact h.receiveStep hcall hs
  | create cpu name caps => exact h.createStep hlive hs
  | destroy cpu id' => exact h.destroyStep hne hlive hs
  | elsewhere sb =>
    obtain rfl := Option.some.inj hs
    exact h.same rfl rfl rfl

/-! ## What the calls answer -/

/-- An id that is not the last one is not -1. -/
theorem toInt_ne_neg_one {id : UInt32} (h : id ≠ 0xFFFFFFFF) : id.toInt32.toInt ≠ -1 := by
  intro heq
  have hint : id.toInt32 = -1 := Int32.toInt_inj.mp heq
  have hback : id.toInt32.toUInt32 = id := UInt32.toUInt32_toInt32 id
  rw [hint] at hback
  exact h hback.symm

/-- A send that finds the port is refused for its size or the capabilities. -/
theorem ipcSendCheck_refused {st : IpcState μ} {cpu : Nat} {size : UInt32} (h : findPort st id = some i) :
    (ipcSendCheck st cpu id size).1 = none ↔ Refused st cpu i size := by
  unfold ipcSendCheck Refused
  simp only [h]
  by_cases hsize : ipcMsgMaxSize < size
  · simp [hsize]
  · by_cases hcaps : (st.ports i).requiredCaps = 0
    · simp [hsize, hcaps]
    · by_cases hcheck : (sandboxCheckCap st.sb (currentPid st.sb.procs cpu) (st.ports i).requiredCaps).1 = 0 <;>
        simp [hsize, hcaps, hcheck]

theorem FifoInv.callAnswers (h : FifoInv id i s) {t cpu : Nat} {size : UInt32} {data : Option (Nat → UInt8)}
    {type : IpcMsgType} (hs : ipcStep s (.send t cpu id data size type) = some s') :
    (s'.answer = some (-1) ↔ Refused s.st cpu i size) ∧ s'.st.ports = s.st.ports ∧ s'.sent = s.sent := by
  have hports := (ipcSendCheck_ports s.st cpu id size).1
  have hrefused := @ipcSendCheck_refused _ _ _ _ cpu size h.found
  cases hcall : s.calls t with
  | idle =>
    simp only [ipcStep, hcall] at hs
    split at hs
    next hnone =>
      obtain rfl := Option.some.inj hs
      exact ⟨iff_of_true rfl (hrefused.mp hnone), hports, rfl⟩
    next j hsome =>
      obtain rfl := Option.some.inj hs
      refine ⟨iff_of_false nofun ?_, hports, rfl⟩
      intro hno
      rw [hrefused.mpr hno] at hsome
      cases hsome
  | sending | returning | receiving => simp [ipcStep, hcall] at hs

/-- A send goes behind what is in the ring, or finds it full. -/
theorem FifoInv.sendAnswers (h : FifoInv id i s) {t : Nat} {req : IpcRequest} {now : UInt64}
    (hcall : s.calls t = .sending i req) (hs : ipcGoOn s t now = some s') :
    if (s.st.ports i).pending.length = ipcQueueDepth then
      s'.answer = some (-1) ∧ s'.st.ports = s.st.ports ∧ s'.sent = s.sent
    else s'.answer = none ∧ s'.sent i = s.sent i ++ [req] := by
  simp only [ipcGoOn, hcall] at hs
  rw [length_pending]
  rcases ipcEnqueue_cases s.st i req now with ⟨hfull, he⟩ | ⟨hroom, msg, -, -, he⟩
  · simp only [he, Option.some.injEq] at hs
    subst hs
    rw [if_pos (Nat.le_antisymm h.ok.count hfull)]
    exact ⟨rfl, rfl, rfl⟩
  · simp only [he, Option.some.injEq] at hs
    subst hs
    rw [if_neg (Nat.ne_of_lt hroom)]
    exact ⟨rfl, Function.update_self i _ s.sent⟩

/-- A receive takes the first message, or finds none. -/
theorem FifoInv.receiveAnswers (h : FifoInv id i s) {t : Nat} {timeoutMs : UInt32} {deadline now : UInt64}
    (hcall : s.calls t = .receiving i timeoutMs deadline) (hs : ipcGoOn s t now = some s') :
    s'.received i = s.received i ++ (s.st.ports i).pending.take 1 ∧
      (s'.answer = some 0 ↔ (s.st.ports i).pending ≠ []) := by
  simp only [ipcGoOn, hcall] at hs
  rcases ipcDequeue_cases s.st i with ⟨hzero, he⟩ | ⟨hpos, he⟩
  · have hnil : (s.st.ports i).pending = [] := by
      rw [← List.length_eq_zero_iff, length_pending]
      exact hzero
    rw [hnil]
    simp only [he] at hs
    split at hs <;> (obtain rfl := Option.some.inj hs; exact ⟨(List.append_nil _).symm, by simp⟩)
  · simp only [he, Option.some.injEq] at hs
    subst hs
    rw [pending_dequeue h.ok hpos]
    exact ⟨Function.update_self i _ s.received, by simp⟩

theorem FifoInv.answers (h : FifoInv id i s) {op : IpcOp μ} (hs : ipcStep s op = some s') : Answers id i s op s' := by
  cases op with
  | receive | create | destroy | elsewhere => trivial
  | send t cpu id' data size type =>
    rintro rfl
    exact h.callAnswers hs
  | goOn t now =>
    cases hcall : s.calls t with
    | idle => simp [ipcStep, ipcGoOn, hcall] at hs
    | sending j req =>
      simp only [Answers, hcall]
      rintro rfl
      exact h.sendAnswers hcall hs
    | returning j cell =>
      simp only [Answers, hcall]
      rintro rfl
      simp only [ipcStep, ipcGoOn, hcall, Option.some.injEq] at hs
      subst hs
      exact ⟨_, rfl, toInt_ne_neg_one (h.ids cell)⟩
    | receiving j timeoutMs deadline =>
      simp only [Answers, hcall]
      rintro rfl
      exact h.receiveAnswers hcall hs

/-- A port that has just been created is an empty queue. -/
theorem FifoInv.created {st st' : IpcState μ} {cpu : Nat} {name : List UInt8} {caps : UInt64}
    (hpid : currentPid st.sb.procs cpu ≠ 0) (hcreate : ipcPortCreate st cpu name caps = (some id, st'))
    (hfresh : ∀ j, (st.ports j).portId ≠ id) (hfound : findPort st' id = some i) (calls : Nat → IpcCall) :
    FifoInv id i (ipcFrom st' calls) := by
  obtain ⟨j, -, -, -, rfl⟩ := ipcPortCreate_some hcreate
  have hothers : ∀ k, k ≠ j → (st.ports k).portId ≠ id := fun k _ => hfresh k
  obtain rfl : i = j := by
    by_contra hij
    have hid := findPort_id hfound
    simp only [setPort_of_ne st hij] at hid
    exact hothers i hij hid
  refine ⟨?_, ?_, ?_, ?_, ?_, ?_⟩
  · simp [ipcFrom]
  · intro k hk
    by_contra hki
    simp only [ipcFrom, setPort_of_ne st hki] at hk
    exact hothers k hki hk
  · simpa [ipcFrom] using hpid
  · simp only [ipcFrom, setPort_self]
    exact ⟨IpcPort.zero_ok.head, IpcPort.zero_ok.tail, IpcPort.zero_ok.count⟩
  · intro cell
    simp only [ipcFrom, setPort_self]
    exact (by decide : (0 : UInt32) ≠ 0xFFFFFFFF)
  · simp only [ipcFrom, setPort_self]
    exact List.Forall₂.nil

/-- **A live port is a first-in first-out queue** of what is sent to it and received from it, and a send
    fails just when it is refused or finds 64 messages, as long as no message for the port gets
    the last of the `2 ^ 32` ids. -/
theorem fifo_of_ids {st st' : IpcState μ} {cpu : Nat} {name : List UInt8} {caps : UInt64}
    (hpid : currentPid st.sb.procs cpu ≠ 0) (hcreate : ipcPortCreate st cpu name caps = (some id, st'))
    (hne : id ≠ 0) (hfresh : ∀ j, (st.ports j).portId ≠ id) (hfound : findPort st' id = some i)
    (calls : Nat → IpcCall) {ops : List (IpcOp μ)} (hlive : Meets ipcStep (StaysLive id) (ipcFrom st' calls) ops)
    (hids : Meets ipcStep (NotLastId i) (ipcFrom st' calls) ops) :
    Always ipcStep (Fifo i) (ipcFrom st' calls) ops ∧ AlwaysStep ipcStep (Answers id i) (ipcFrom st' calls) ops := by
  have hinv : Always ipcStep (FifoInv id i) (ipcFrom st' calls) ops :=
    always_of_meets (fun _ _ _ h hop hs => h.step hne hop hs) (FifoInv.created hpid hcreate hfresh hfound calls)
      (hlive.and hids)
  exact ⟨hinv.mono fun _ h => h.fifo, alwaysStep_of_always (fun _ _ _ h _ hs => h.answers hs) hinv meets_true⟩

end

/-- Process 5 runs on every CPU. -/
def processFive : SandboxState Nat :=
  sandboxInit
    { readyProcs with
      sched := { readyProcs.sched with runqueues := fun _ => { Sched.Runqueue.empty with current := some 0 } }
      info := fun _ => { ProcInfo.zero with pid := 5 } }
    fun _ => 0

/-- The first port, after `n` messages have been sent. -/
def firstPort (n : UInt32) : IpcState Nat := (ipcPortCreate { ipcInit processFive with msgId := n } 0 [97] 0).2

def firstSlot : PortSlot := ⟨0, Nat.zero_lt_succ 255⟩

theorem firstPort_created : ipcPortCreate { ipcInit processFive with msgId := 1 } 0 [97] 0 = (some 1, firstPort 1) := by
  apply Prod.ext
  · decide +kernel
  · dsimp only [firstPort]

/-- One message of no bytes is sent and received. -/
def oneMessage : List (IpcOp Nat) :=
  [.send 0 0 1 none 0 .data, .goOn 0 7, .goOn 0 7, .receive 1 0 1 0 7, .goOn 1 7]

/-- The first message goes through. -/
theorem fifo_one_message :
    Always ipcStep (Fifo firstSlot) (ipcFrom (firstPort 1) fun _ => .idle) oneMessage ∧
      AlwaysStep ipcStep (Answers 1 firstSlot) (ipcFrom (firstPort 1) fun _ => .idle) oneMessage :=
  fifo_of_ids (by decide +kernel) firstPort_created (by decide) (fun _ => (by decide : (0 : UInt32) ≠ 1))
    (by decide +kernel) (fun _ => .idle)
    (meets_of_check (fun s op => decide (StaysLive 1 s op)) (fun _ _ => of_decide_eq_true) (by decide +kernel))
    (meets_of_check (fun s op => decide (NotLastId firstSlot s op)) (fun _ _ => of_decide_eq_true) (by decide +kernel))

/-- The state in which the send that gets the last id has yet to return. -/
def lastSent : IpcRun Nat :=
  (run ipcStep (ipcFrom (firstPort 0xFFFFFFFF) fun _ => .idle) [.send 0 0 1 none 0 .data, .goOn 0 7]).getD
    (ipcFrom (firstPort 0xFFFFFFFF) fun _ => .idle)

/-- It answers -1 although its message is in the ring. -/
theorem last_id_fails :
    ¬(Always ipcStep (Fifo firstSlot) (ipcFrom (firstPort 0xFFFFFFFF) fun _ => .idle) oneMessage ∧
      AlwaysStep ipcStep (Answers 1 firstSlot) (ipcFrom (firstPort 0xFFFFFFFF) fun _ => .idle) oneMessage) := by
  rintro ⟨-, h⟩
  have hsent : run ipcStep (ipcFrom (firstPort 0xFFFFFFFF) fun _ => .idle) [.send 0 0 1 none 0 .data, .goOn 0 7] =
      some lastSent := eq_some_getD _ (by decide +kernel)
  have hstep : ipcStep lastSent (.goOn 0 7) = some ((ipcStep lastSent (.goOn 0 7)).getD lastSent) :=
    eq_some_getD lastSent (by decide +kernel)
  exact answer_of_alwaysStep (h.behind hsent) (by decide +kernel) hstep (by decide +kernel)

end Crimson.Sandbox
