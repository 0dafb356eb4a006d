import Crimson.Lib.Run
import Crimson.Sandbox.Ipc
import Crimson.Sandbox.Isolation
import Mathlib.Data.List.Pairwise

/-!
# The table of ports (`sandbox.c`)

Whole calls one after the other. Beside the table stand the ports that have been created and not
destroyed, each with its slot.

A slot is free for `ipc_port_create` if its owner is 0, which is so of a port that the kernel has
created too. The lookup goes by the number, which is 0 in every slot that is not in use. A name is
cut at 31 characters when it is stored and compared uncut.
-/

set_option autoImplicit false

namespace Crimson.Sandbox

open Crimson.Lib Crimson.Proc

/-- The table, the ports created and not destroyed, how many have been created, and what the last call
    has returned. -/
structure IpcTable (μ : Type) where
  st : IpcState μ
  live : List (UInt32 × PortSlot)
  created : Nat
  answer : Option Int

inductive IpcTableOp (μ : Type) where
  | create (cpu : Nat) (name : List UInt8) (requiredCaps : UInt64)
  | destroy (cpu : Nat) (id : UInt32)
  | send (cpu : Nat) (id : UInt32) (data : Option (Nat → UInt8)) (size : UInt32) (type : IpcMsgType) (now : UInt64)
  | receive (cpu : Nat) (id timeoutMs : UInt32) (now : UInt64) (ticks : List UInt64)
  /-- Processes and sandboxes are now these. -/
  | elsewhere (sb : SandboxState μ)

section

variable {μ : Type}

/-- One call. -/
def ipcTableStep (s : IpcTable μ) : IpcTableOp μ → Option (IpcTable μ)
  | .create cpu name requiredCaps =>
    let r := ipcPortCreate s.st cpu name requiredCaps
    match r.1, freePort s.st with
    | some id, some i => some { st := r.2, live := (id, i) :: s.live, created := s.created + 1, answer := none }
    | _, _ => some { s with st := r.2, answer := none }
  | .destroy cpu id =>
    let r := ipcPortDestroy s.st cpu id
    some { s with
      st := r.2
      live := if r.1 = 0 then s.live.filter fun p => p.1 ≠ id else s.live
      answer := some r.1 }
  | .send cpu id data size type now =>
    let r := ipcSend s.st cpu id data size type now
    some { s with st := r.2, answer := some r.1 }
  | .receive cpu id timeoutMs now ticks =>
    (ipcReceive s.st cpu id timeoutMs now ticks).map fun r => { s with st := r.2.2, answer := some r.1 }
  | .elsewhere sb => some { s with st := { s.st with sb := sb }, answer := none }

def ipcTableStart (sb : SandboxState μ) : IpcTable μ where
  st := ipcInit sb
  live := []
  created := 0
  answer := none

/-- The number a call is about. -/
def IpcTableOp.port : IpcTableOp μ → Option UInt32
  | .destroy _ id => some id
  | .send _ id _ _ _ _ => some id
  | .receive _ id _ _ _ => some id
  | _ => none

/-- The live ports have numbers and names of their own, and are in their slots. -/
structure TableOk (s : IpcTable μ) : Prop where
  distinct : s.live.Pairwise fun p q => p.1 ≠ q.1 ∧ (s.st.ports p.2).name ≠ (s.st.ports q.2).name
  slots : ∀ p ∈ s.live, (s.st.ports p.2).portId = p.1

/-- What a call may do to a live port: nothing but put a message behind its queue or take the first one
    out, if it is about this port. -/
structure KeptPort (op : IpcTableOp μ) (id : UInt32) (p p' : IpcPort) : Prop where
  portId : p'.portId = p.portId
  owner : p'.owner = p.owner
  name : p'.name = p.name
  requiredCaps : p'.requiredCaps = p.requiredCaps
  queue : p'.pending = p.pending ∨
    op.port = some id ∧ ((∃ msg, p'.pending = p.pending ++ [msg]) ∨ ∃ msg, p.pending = msg :: p'.pending)

/-- The call has destroyed port `id`. -/
def Destroys (id : UInt32) (op : IpcTableOp μ) (s' : IpcTable μ) : Prop :=
  match op with
  | .destroy _ id' => id' = id ∧ s'.answer = some 0
  | _ => False

/-- Every live port that is not destroyed keeps its slot and its queue, and a call about a number that
    is not live answers -1 and changes no slot. -/
structure Keeps (s : IpcTable μ) (op : IpcTableOp μ) (s' : IpcTable μ) : Prop where
  live : ∀ p ∈ s.live, Destroys p.1 op s' ∨ p ∈ s'.live ∧ KeptPort op p.1 (s.st.ports p.2) (s'.st.ports p.2)
  dead : ∀ id, op.port = some id → (∀ p ∈ s.live, p.1 ≠ id) → s'.answer = some (-1) ∧ s'.st.ports = s.st.ports

/-- There have been fewer than `2 ^ 32` creations. -/
def FewCreations (s : IpcTable μ) : IpcTableOp μ → Prop
  | .create cpu name caps => (ipcPortCreate s.st cpu name caps).1 ≠ none → s.created + 1 < 2 ^ 32
  | _ => True

/-- A port that is created comes to a slot that no live port has, under a name that, cut, no live port
    has; and number 0 is neither sent to nor destroyed where the call would go through. -/
def ProperUse (s : IpcTable μ) : IpcTableOp μ → Prop
  | .create _ name _ =>
    nameTaken s.st name = false → ∀ i, freePort s.st = some i →
      ∀ p ∈ s.live, p.2 ≠ i ∧ (s.st.ports p.2).name ≠ portName name
  | .destroy cpu id =>
    id = 0 → findPort s.st 0 ≠ none →
      currentPid s.st.sb.procs cpu ≠ 0 ∧ (sandboxCheckCap s.st.sb (currentPid s.st.sb.procs cpu) capAdmin).1 = 0
  | .send _ id _ size _ _ => id = 0 → findPort s.st 0 ≠ none → ipcMsgMaxSize < size
  | _ => True

/-! ## The invariant -/

/-- The slots that are no live port's are zero, and the numbers are those given out so far. -/
structure TableInv (s : IpcTable μ) : Prop where
  created : s.created < 2 ^ 32
  nextPort : s.st.nextPort = UInt32.ofNat (s.created + 1)
  distinct : s.live.Pairwise fun p q => p.1 ≠ q.1 ∧ (s.st.ports p.2).name ≠ (s.st.ports q.2).name
  live : ∀ p ∈ s.live, p.1 ≠ 0 ∧ p.1.toNat ≤ s.created ∧ (s.st.ports p.2).portId = p.1 ∧ (s.st.ports p.2).Ok
  free : ∀ i, (∀ p ∈ s.live, p.2 ≠ i) → s.st.ports i = IpcPort.zero

variable {s s' : IpcTable μ}

theorem TableInv.ok (h : TableInv s) : TableOk s := ⟨h.distinct, fun p hp => (h.live p hp).2.2.1⟩

theorem tableInv_start (sb : SandboxState μ) : TableInv (ipcTableStart sb) :=
  ⟨Nat.zero_lt_succ _, rfl, List.Pairwise.nil, fun _ hp => absurd hp List.not_mem_nil, fun _ _ => rfl⟩

/-- A live number belongs to one live port. -/
theorem TableInv.eq_of_id (h : TableInv s) {p q : UInt32 × PortSlot} (hp : p ∈ s.live) (hq : q ∈ s.live)
    (hid : p.1 = q.1) : p = q := by
  by_contra hne
  have hsymm : Std.Symm fun p q : UInt32 × PortSlot =>
      p.1 ≠ q.1 ∧ (s.st.ports p.2).name ≠ (s.st.ports q.2).name := ⟨fun p q hpq => ⟨hpq.1.symm, hpq.2.symm⟩⟩
  exact (h.distinct.forall hp hq hne).1 hid

/-- So does a slot. -/
theorem TableInv.eq_of_slot (h : TableInv s) {p q : UInt32 × PortSlot} (hp : p ∈ s.live) (hq : q ∈ s.live)
    (hslot : p.2 = q.2) : p = q :=
  h.eq_of_id hp hq ((h.live p hp).2.2.1.symm.trans (hslot ▸ (h.live q hq).2.2.1))

/-- A slot is a live port's or zero. -/
theorem TableInv.slot_cases (h : TableInv s) (i : PortSlot) :
    (∃ p ∈ s.live, p.2 = i) ∨ s.st.ports i = IpcPort.zero := by
  by_cases hlive : ∃ p ∈ s.live, p.2 = i
  · exact Or.inl hlive
  · exact Or.inr (h.free i fun p hp hslot => hlive ⟨p, hp, hslot⟩)

/-- The lookup finds a live port in its slot. -/
theorem TableInv.found (h : TableInv s) {p : UInt32 × PortSlot} (hp : p ∈ s.live) : findPort s.st p.1 = some p.2 := by
  refine findPort_of_unique (h.live p hp).2.2.1 fun j hj => ?_
  rcases h.slot_cases j with ⟨q, hq, rfl⟩ | hzero
  · rw [h.eq_of_id hp hq ((h.live q hq).2.2.1.symm.trans hj).symm]
  · rw [hzero] at hj
    exact absurd hj.symm (h.live p hp).1

/-- What it finds for a number that is not live is a zero slot, and the number is 0. -/
theorem TableInv.found_dead (h : TableInv s) {id : UInt32} {i : PortSlot} (hdead : ∀ p ∈ s.live, p.1 ≠ id)
    (hf : findPort s.st id = some i) : id = 0 ∧ s.st.ports i = IpcPort.zero := by
  have hid := findPort_id hf
  rcases h.slot_cases i with ⟨p, hp, rfl⟩ | hzero
  · exact absurd ((h.live p hp).2.2.1.symm.trans hid) (hdead p hp)
  · rw [hzero] at hid
    exact ⟨hid.symm, hzero⟩

theorem TableInv.zero_dead (h : TableInv s) : ∀ p ∈ s.live, p.1 ≠ 0 := fun p hp => (h.live p hp).1

/-- A number that is found is that of the live port in its slot, or 0 and the slot zero. -/
theorem TableInv.found_cases (h : TableInv s) {id : UInt32} {i : PortSlot} (hf : findPort s.st id = some i) :
    (id, i) ∈ s.live ∨ id = 0 ∧ s.st.ports i = IpcPort.zero := by
  by_cases hlive : ∃ p ∈ s.live, p.1 = id
  · obtain ⟨p, hp, rfl⟩ := hlive
    have hi := h.found hp
    rw [hf, Option.some.injEq] at hi
    exact Or.inl (by rwa [hi])
  · exact Or.inr (h.found_dead (fun p hp hid => hlive ⟨p, hp, hid⟩) hf)

/-! ## What the calls do -/

theorem KeptPort.refl (op : IpcTableOp μ) (id : UInt32) (p : IpcPort) : KeptPort op id p p :=
  ⟨rfl, rfl, rfl, rfl, Or.inl rfl⟩

/-- The table with other sandboxes, another counter of the messages and an answer. -/
def IpcTable.after (s : IpcTable μ) (st : IpcState μ) (answer : Option Int) : IpcTable μ :=
  { s with st := st, answer := answer }

/-- Where the slots are as they were, everything is kept. -/
theorem TableInv.same (h : TableInv s) {t : IpcState μ} (hports : t.ports = s.st.ports)
    (hnext : t.nextPort = s.st.nextPort) (answer : Option Int) : TableInv (s.after t answer) where
  created := h.created
  nextPort := hnext.trans h.nextPort
  distinct := by
    show s.live.Pairwise fun p q => p.1 ≠ q.1 ∧ (t.ports p.2).name ≠ (t.ports q.2).name
    rw [hports]
    exact h.distinct
  live := by
    show ∀ p ∈ s.live, p.1 ≠ 0 ∧ p.1.toNat ≤ s.created ∧ (t.ports p.2).portId = p.1 ∧ (t.ports p.2).Ok
    rw [hports]
    exact h.live
  free := by
    show ∀ i, (∀ p ∈ s.live, p.2 ≠ i) → t.ports i = IpcPort.zero
    rw [hports]
    exact h.free

/-- And a call that answers -1 keeps what it must. -/
theorem keeps_same {op : IpcTableOp μ} {t : IpcState μ} {answer : Option Int} (hports : t.ports = s.st.ports)
    (hanswer : ∀ id, op.port = some id → (∀ p ∈ s.live, p.1 ≠ id) → answer = some (-1)) :
    Keeps s op (s.after t answer) where
  live := fun p hp => Or.inr ⟨hp, by
    show KeptPort op p.1 (s.st.ports p.2) (t.ports p.2)
    rw [hports]
    exact KeptPort.refl op p.1 _⟩
  dead := fun id hid hdead => ⟨hanswer id hid hdead, hports⟩

/-- **A change to the queue of a live port.** -/
theorem TableInv.queue (h : TableInv s) {id : UInt32} {i : PortSlot} (hp : (id, i) ∈ s.live) {t : IpcState μ}
    {port : IpcPort} (hports : t.ports = Function.update s.st.ports i port) (hnext : t.nextPort = s.st.nextPort)
    {op : IpcTableOp μ} (hport : op.port = some id) (hok : port.Ok) (hkept : KeptPort op id (s.st.ports i) port)
    (answer : Option Int) : TableInv (s.after t answer) ∧ Keeps s op (s.after t answer) := by
  -- the numbers and the names are those that were
  have hsame : ∀ j, (t.ports j).portId = (s.st.ports j).portId ∧ (t.ports j).name = (s.st.ports j).name := by
    intro j
    by_cases hj : j = i
    · rw [hj, hports, Function.update_self]
      exact ⟨hkept.portId, hkept.name⟩
    · rw [hports, Function.update_of_ne hj]
      exact ⟨rfl, rfl⟩
  refine ⟨⟨h.created, hnext.trans h.nextPort, ?_, ?_, ?_⟩, ?_, ?_⟩
  · refine h.distinct.imp fun {p q} hpq => ⟨hpq.1, ?_⟩
    show (t.ports p.2).name ≠ (t.ports q.2).name
    rw [(hsame p.2).2, (hsame q.2).2]
    exact hpq.2
  · intro q hq
    obtain ⟨hne, hle, hid, hqok⟩ := h.live q hq
    refine ⟨hne, hle, (hsame q.2).1.trans hid, ?_⟩
    show (t.ports q.2).Ok
    by_cases hj : q.2 = i
    · rw [hj, hports, Function.update_self]
      exact hok
    · rw [hports, Function.update_of_ne hj]
      exact hqok
  · intro j hj
    have hji : j ≠ i := fun heq => hj (id, i) hp heq.symm
    show t.ports j = IpcPort.zero
    rw [hports, Function.update_of_ne hji]
    exact h.free j hj
  · intro q hq
    refine Or.inr ⟨hq, ?_⟩
    show KeptPort op q.1 (s.st.ports q.2) (t.ports q.2)
    by_cases hj : q.2 = i
    · obtain rfl : q = (id, i) := h.eq_of_slot hq hp hj
      rw [hports, Function.update_self]
      exact hkept
    · rw [hports, Function.update_of_ne hj]
      exact KeptPort.refl op q.1 _
  · intro id' hid' hdead
    rw [hport, Option.some.injEq] at hid'
    exact absurd hid' (hdead (id, i) hp)

theorem zero_count : IpcPort.zero.count = 0 := rfl

theorem TableInv.receiveStep (h : TableInv s) {cpu : Nat} {id timeoutMs : UInt32} {now : UInt64} {ticks : List UInt64}
    (hs : ipcTableStep s (.receive cpu id timeoutMs now ticks) = some s') :
    TableInv s' ∧ Keeps s (.receive cpu id timeoutMs now ticks) s' := by
  obtain ⟨r, hr, rfl⟩ := Option.map_eq_some_iff.mp hs
  show TableInv (s.after r.2.2 (some r.1)) ∧ Keeps s _ (s.after r.2.2 (some r.1))
  have hfail : r.1 = -1 → r.2.2 = s.st →
      TableInv (s.after r.2.2 (some r.1)) ∧ Keeps s (.receive cpu id timeoutMs now ticks) (s.after r.2.2 (some r.1)) := by
    intro hminus hst
    rw [hminus, hst]
    exact ⟨h.same rfl rfl _, keeps_same rfl fun _ _ _ => rfl⟩
  unfold ipcReceive ipcReceiveCheck at hr
  cases hf : findPort s.st id with
  | none =>
    simp only [hf, Option.some.injEq] at hr
    subst hr
    exact hfail rfl rfl
  | some i =>
    simp only [hf] at hr
    by_cases howner : (s.st.ports i).owner = currentPid s.st.sb.procs cpu
    · simp only [ne_eq, howner, not_true_eq_false, if_false] at hr
      rcases receiveLoop_cases hr with ⟨hminus, hst⟩ | ⟨hpos, hst⟩
      · exact hfail hminus hst
      · rcases h.found_cases hf with hlive | ⟨-, hzero⟩
        · have hok := (h.live _ hlive).2.2.2
          refine h.queue hlive (by rw [hst]; rfl) (by rw [hst]; rfl) rfl (hok.dequeue hpos) ⟨rfl, rfl, rfl, rfl, ?_⟩ _
          exact Or.inr ⟨rfl, Or.inr ⟨_, pending_dequeue hok hpos⟩⟩
        · -- port 0 is any slot that is not taken, where nothing waits
          rw [hzero, zero_count] at hpos
          exact absurd hpos (Nat.lt_irrefl 0)
    · simp only [ne_eq, howner, not_false_eq_true, if_true, Option.some.injEq] at hr
      subst hr
      exact hfail rfl rfl

theorem TableInv.sendStep (h : TableInv s) {cpu : Nat} {id size : UInt32} {data : Option (Nat → UInt8)}
    {type : IpcMsgType} {now : UInt64} (hproper : ProperUse s (.send cpu id data size type now))
    (hs : ipcTableStep s (.send cpu id data size type now) = some s') :
    TableInv s' ∧ Keeps s (.send cpu id data size type now) s' := by
  obtain rfl := Option.some.inj hs
  show TableInv (s.after _ _) ∧ Keeps s _ (s.after _ _)
  obtain ⟨hports, hnext, -⟩ := ipcSendCheck_ports s.st cpu id size
  unfold ipcSend
  cases hc : ipcSendCheck s.st cpu id size with
  | mk found st =>
    rw [hc] at hports hnext
    cases found with
    | none => exact ⟨h.same hports hnext _, keeps_same hports fun _ _ _ => rfl⟩
    | some i =>
      dsimp only
      have hfound : findPort s.st id = some i := ipcSendCheck_found (by rw [hc])
      rcases ipcEnqueue_cases st i ⟨currentPid s.st.sb.procs cpu, id, data, size, type⟩ now with
        ⟨-, he⟩ | ⟨hroom, msg, -, -, he⟩
      · rw [he]
        exact ⟨h.same hports hnext _, keeps_same hports fun _ _ _ => rfl⟩
      · rw [he]
        rw [hports] at hroom
        rcases h.found_cases hfound with hlive | ⟨rfl, -⟩
        · have hok := (h.live _ hlive).2.2.2
          have hkept : KeptPort (.send cpu id data size type now : IpcTableOp μ) id (s.st.ports i)
              ((s.st.ports i).enqueue msg) :=
            ⟨rfl, rfl, rfl, rfl, Or.inr ⟨rfl, Or.inl ⟨msg, pending_enqueue hok hroom msg⟩⟩⟩
          refine h.queue (t := { st.setPort i ((st.ports i).enqueue msg) with msgId := st.msgId + 1 }) hlive ?_ hnext rfl
            (hok.enqueue hroom msg) hkept _
          show Function.update st.ports i ((st.ports i).enqueue msg) = _
          rw [hports]
        · -- the size has been refused before
          have hsize := hproper rfl (by rw [hfound]; simp)
          rw [ipcSendCheck, if_pos hsize] at hc
          cases hc

/-- **A live port destroyed.** -/
theorem TableInv.remove (h : TableInv s) {id : UInt32} {i : PortSlot} (hp : (id, i) ∈ s.live) {t : IpcState μ}
    (hports : t.ports = Function.update s.st.ports i IpcPort.zero) (hnext : t.nextPort = s.st.nextPort) (cpu : Nat) :
    TableInv { s with st := t, live := s.live.filter fun p => p.1 ≠ id, answer := some 0 } ∧
      Keeps s (.destroy cpu id) { s with st := t, live := s.live.filter fun p => p.1 ≠ id, answer := some 0 } := by
  have hother : ∀ q ∈ s.live, q.1 ≠ id → t.ports q.2 = s.st.ports q.2 := by
    intro q hq hne
    have hslot : q.2 ≠ i := fun hslot => hne (congrArg Prod.fst (h.eq_of_slot hq hp hslot))
    rw [hports, Function.update_of_ne hslot]
  have hmem : ∀ q, q ∈ s.live.filter (fun p => p.1 ≠ id) ↔ q ∈ s.live ∧ q.1 ≠ id := by
    intro q
    simp
  refine ⟨⟨h.created, hnext.trans h.nextPort, ?_, ?_, ?_⟩, ?_, ?_⟩
  · refine (h.distinct.filter _).imp_of_mem fun {p q} hp' hq' hpq => ⟨hpq.1, ?_⟩
    obtain ⟨hp', hpid⟩ := (hmem p).mp hp'
    obtain ⟨hq', hqid⟩ := (hmem q).mp hq'
    show (t.ports p.2).name ≠ (t.ports q.2).name
    rw [hother p hp' hpid, hother q hq' hqid]
    exact hpq.2
  · intro q hq
    obtain ⟨hq, hqid⟩ := (hmem q).mp hq
    show q.1 ≠ 0 ∧ q.1.toNat ≤ s.created ∧ (t.ports q.2).portId = q.1 ∧ (t.ports q.2).Ok
    rw [hother q hq hqid]
    exact h.live q hq
  · intro j hj
    show t.ports j = IpcPort.zero
    by_cases hji : j = i
    · rw [hji, hports, Function.update_self]
    · rw [hports, Function.update_of_ne hji]
      refine h.free j fun q hq hslot => ?_
      refine hj q ((hmem q).mpr ⟨hq, fun hqid => hji ?_⟩) hslot
      rw [← hslot, h.eq_of_id hq hp hqid]
  · intro q hq
    by_cases hqid : q.1 = id
    · exact Or.inl ⟨hqid.symm, rfl⟩
    · refine Or.inr ⟨(hmem q).mpr ⟨hq, hqid⟩, ?_⟩
      show KeptPort _ q.1 (s.st.ports q.2) (t.ports q.2)
      rw [hother q hq hqid]
      exact KeptPort.refl _ _ _
  · intro id' hid' hdead
    obtain rfl := Option.some.inj hid'
    exact absurd rfl (hdead (id, i) hp)

theorem TableInv.destroyStep (h : TableInv s) {cpu : Nat} {id : UInt32} (hproper : ProperUse s (.destroy cpu id))
    (hs : ipcTableStep s (.destroy cpu id) = some s') : TableInv s' ∧ Keeps s (.destroy cpu id) s' := by
  rcases ipcPortDestroy_cases s.st cpu id with ⟨sb, he⟩ | ⟨i, sb, hf, hallowed, he⟩
  · simp only [ipcTableStep, he] at hs
    obtain rfl := Option.some.inj hs
    exact ⟨h.same (t := { s.st with sb := sb }) rfl rfl (some (-1)),
      keeps_same (t := { s.st with sb := sb }) rfl fun _ _ _ => rfl⟩
  · rcases h.found_cases hf with hlive | ⟨rfl, hzero⟩
    · simp only [ipcTableStep, he] at hs
      obtain rfl := Option.some.inj hs
      exact h.remove (t := { s.st.setPort i IpcPort.zero with sb := sb }) hlive rfl rfl cpu
    · -- the caller may not destroy what is not there
      obtain ⟨hpid, hcheck⟩ := hproper rfl (by rw [hf]; simp)
      rcases hallowed with howner | hadmin
      · rw [hzero] at howner
        exact absurd howner.symm hpid
      · exact absurd hcheck hadmin

/-- The next number is one that nobody has. -/
theorem TableInv.nextPort_toNat (h : TableInv s) (hfew : s.created + 1 < 2 ^ 32) :
    s.st.nextPort.toNat = s.created + 1 := by
  rw [h.nextPort]
  exact UInt32.toNat_ofNat_of_lt' hfew

theorem TableInv.nextPort_ne (h : TableInv s) (hfew : s.created + 1 < 2 ^ 32) {p : UInt32 × PortSlot}
    (hp : p ∈ s.live) : s.st.nextPort ≠ p.1 := by
  intro heq
  have hle := (h.live p hp).2.1
  rw [← heq, h.nextPort_toNat hfew] at hle
  omega

/-- **A new port** in a zero slot, under a name that no live port has. -/
theorem TableInv.add (h : TableInv s) (hfew : s.created + 1 < 2 ^ 32) {j : PortSlot} {p : IpcPort}
    (hid : p.portId = s.st.nextPort) (hok : p.Ok)
    (hnew : ∀ q ∈ s.live, q.2 ≠ j ∧ (s.st.ports q.2).name ≠ p.name) (op : IpcTableOp μ) (hop : op.port = none) :
    TableInv
        { st := { s.st.setPort j p with nextPort := s.st.nextPort + 1 }, live := (s.st.nextPort, j) :: s.live
          created := s.created + 1, answer := none } ∧
      Keeps s op
        { st := { s.st.setPort j p with nextPort := s.st.nextPort + 1 }, live := (s.st.nextPort, j) :: s.live
          created := s.created + 1, answer := none } := by
  have hold : ∀ q ∈ s.live, (s.st.setPort j p).ports q.2 = s.st.ports q.2 :=
    fun q hq => setPort_of_ne s.st (hnew q hq).1 p
  have hnext := h.nextPort_toNat hfew
  refine ⟨⟨hfew, ?_, ?_, ?_, ?_⟩, fun q hq => Or.inr ⟨List.mem_cons_of_mem _ hq, ?_⟩, fun id hport _ => ?_⟩
  · show s.st.nextPort + 1 = UInt32.ofNat (s.created + 1 + 1)
    rw [h.nextPort, UInt32.ofNat_add (s.created + 1) 1]
    rfl
  · refine List.pairwise_cons.mpr ⟨fun q hq => ⟨h.nextPort_ne hfew hq, ?_⟩, ?_⟩
    · show ((s.st.setPort j p).ports j).name ≠ ((s.st.setPort j p).ports q.2).name
      rw [setPort_self, hold q hq]
      exact (hnew q hq).2.symm
    · refine h.distinct.imp_of_mem fun {q r} hq hr hqr => ⟨hqr.1, ?_⟩
      show ((s.st.setPort j p).ports q.2).name ≠ ((s.st.setPort j p).ports r.2).name
      rw [hold q hq, hold r hr]
      exact hqr.2
  · intro q hq
    show q.1 ≠ 0 ∧ q.1.toNat ≤ s.created + 1 ∧ ((s.st.setPort j p).ports q.2).portId = q.1 ∧
      ((s.st.setPort j p).ports q.2).Ok
    rcases List.mem_cons.mp hq with rfl | hq
    · refine ⟨?_, hnext.le, by rw [setPort_self, hid], by rw [setPort_self]; exact hok⟩
      intro hzero
      have hzero : s.st.nextPort = 0 := hzero
      rw [hzero] at hnext
      exact absurd hnext.symm (Nat.succ_ne_zero _)
    · rw [hold q hq]
      obtain ⟨hne, hle, hrest⟩ := h.live q hq
      exact ⟨hne, Nat.le_succ_of_le hle, hrest⟩
  · intro i hi
    have hij : i ≠ j := fun heq => hi (s.st.nextPort, j) List.mem_cons_self heq.symm
    show (s.st.setPort j p).ports i = IpcPort.zero
    rw [setPort_of_ne s.st hij]
    exact h.free i fun q hq => hi q (List.mem_cons_of_mem _ hq)
  · show KeptPort op q.1 (s.st.ports q.2) ((s.st.setPort j p).ports q.2)
    rw [hold q hq]
    exact KeptPort.refl op q.1 _
  · rw [hop] at hport
    cases hport

theorem TableInv.createStep (h : TableInv s) {cpu : Nat} {name : List UInt8} {caps : UInt64}
    (hfew : FewCreations s (.create cpu name caps)) (hproper : ProperUse s (.create cpu name caps))
    (hs : ipcTableStep s (.create cpu name caps) = some s') : TableInv s' ∧ Keeps s (.create cpu name caps) s' := by
  cases hc : ipcPortCreate s.st cpu name caps with
  | mk r st =>
    cases r with
    | none =>
      obtain rfl := ipcPortCreate_none hc
      simp only [ipcTableStep, hc, Option.some.injEq] at hs
      subst hs
      exact ⟨h.same rfl rfl none, keeps_same rfl fun _ hid _ => nomatch hid⟩
    | some id =>
      obtain ⟨j, hfree, hname, rfl, rfl⟩ := ipcPortCreate_some hc
      simp only [ipcTableStep, hc, hfree, Option.some.injEq] at hs
      subst hs
      exact h.add (p := { IpcPort.zero with
          portId := s.st.nextPort, owner := currentPid s.st.sb.procs cpu, requiredCaps := caps, name := portName name })
        (hfew (by rw [hc]; simp)) rfl ⟨IpcPort.zero_ok.head, IpcPort.zero_ok.tail, IpcPort.zero_ok.count⟩
        (hproper hname j hfree) (.create cpu name caps) rfl

theorem TableInv.step (h : TableInv s) {op : IpcTableOp μ} (hfew : FewCreations s op) (hproper : ProperUse s op)
    (hs : ipcTableStep s op = some s') : TableInv s' ∧ Keeps s op s' := by
  cases op with
  | create cpu name caps => exact h.createStep hfew hproper hs
  | destroy cpu id => exact h.destroyStep hproper hs
  | send cpu id data size type now => exact h.sendStep hproper hs
  | receive cpu id timeoutMs now ticks => exact h.receiveStep hs
  | elsewhere sb =>
    obtain rfl := Option.some.inj hs
    exact ⟨h.same (t := { s.st with sb := sb }) rfl rfl none,
      keeps_same (t := { s.st with sb := sb }) rfl fun _ hid _ => nomatch hid⟩

/-! ## What goes wrong -/

/-- A port that is created in a live port's slot, or under its name, is found out. -/
theorem TableInv.create_proper (h : TableInv s) {cpu : Nat} {name : List UInt8} {caps : UInt64}
    (hfew : FewCreations s (.create cpu name caps)) (hs : ipcTableStep s (.create cpu name caps) = some s')
    (hok : TableOk s') (hkeeps : Keeps s (.create cpu name caps) s') : ProperUse s (.create cpu name caps) := by
  intro hname j hj q hq
  cases hc : ipcPortCreate s.st cpu name caps with
  | mk r st =>
    cases r with
    | none => simp [ipcPortCreate, hname, hj] at hc
    | some id =>
      obtain ⟨k, hk, -, rfl, rfl⟩ := ipcPortCreate_some hc
      obtain rfl : k = j := Option.some.inj (hk.symm.trans hj)
      simp only [ipcTableStep, hc, hj, Option.some.injEq] at hs
      subst hs
      have hslot : q.2 ≠ k := by
        intro hslot
        rcases hkeeps.live q hq with hgone | ⟨-, hkept⟩
        · exact hgone
        · -- the slot has the new number now
          have hid := hkept.portId
          rw [(h.live q hq).2.2.1] at hid
          simp only [hslot, setPort_self] at hid
          exact h.nextPort_ne (hfew (by rw [hc]; simp)) hq hid
      refine ⟨hslot, fun heq => ?_⟩
      have hnames := ((List.pairwise_cons.mp hok.distinct).1 q hq).2
      simp only [setPort_self, setPort_of_ne s.st hslot] at hnames
      exact hnames heq.symm

/-- So is a call about number 0 that goes through. -/
theorem TableInv.destroy_proper (h : TableInv s) {cpu : Nat} {id : UInt32}
    (hs : ipcTableStep s (.destroy cpu id) = some s') (hkeeps : Keeps s (.destroy cpu id) s') :
    ProperUse s (.destroy cpu id) := by
  rintro rfl hf
  obtain ⟨i, hi⟩ := Option.ne_none_iff_exists'.mp hf
  obtain ⟨-, hzero⟩ := h.found_dead h.zero_dead hi
  have hanswer := (hkeeps.dead 0 rfl h.zero_dead).1
  obtain rfl := Option.some.inj hs
  have hminus : (ipcPortDestroy s.st cpu 0).1 = -1 := Option.some.inj hanswer
  simp only [ipcPortDestroy, hi, hzero] at hminus
  split at hminus
  next => cases hminus
  next hpid =>
    split at hminus
    next hcheck => exact ⟨Ne.symm hpid, hcheck⟩
    next => cases hminus

theorem TableInv.send_proper (h : TableInv s) {cpu : Nat} {id size : UInt32} {data : Option (Nat → UInt8)}
    {type : IpcMsgType} {now : UInt64} (hs : ipcTableStep s (.send cpu id data size type now) = some s')
    (hkeeps : Keeps s (.send cpu id data size type now) s') : ProperUse s (.send cpu id data size type now) := by
  rintro rfl hf
  obtain ⟨i, hi⟩ := Option.ne_none_iff_exists'.mp hf
  obtain ⟨-, hzero⟩ := h.found_dead h.zero_dead hi
  have hports := (hkeeps.dead 0 rfl h.zero_dead).2
  obtain rfl := Option.some.inj hs
  by_contra hsize
  -- the free slot asks for no capability and has room
  have hcheck : ipcSendCheck s.st cpu 0 size = (some i, s.st) := by
    have hcaps : (s.st.ports i).requiredCaps = 0 := by rw [hzero]; rfl
    simp only [ipcSendCheck, if_neg hsize, hi, hcaps, if_true]
  have hport := congrFun hports i
  rcases ipcEnqueue_cases s.st i ⟨currentPid s.st.sb.procs cpu, 0, data, size, type⟩ now with
    ⟨hfull, -⟩ | ⟨-, msg, -, -, he⟩
  · rw [hzero, zero_count] at hfull
    exact absurd hfull (by decide)
  · simp only [ipcSend, hcheck, he, setPort_self] at hport
    have hcount : (s.st.ports i).count + 1 = (s.st.ports i).count := congrArg IpcPort.count hport
    omega

/-- **A step outside the proper use breaks the table at once.** -/
theorem TableInv.proper (h : TableInv s) {op : IpcTableOp μ} (hfew : FewCreations s op)
    (hs : ipcTableStep s op = some s') (hok : TableOk s') (hkeeps : Keeps s op s') : ProperUse s op := by
  cases op with
  | receive | elsewhere => trivial
  | create cpu name caps => exact h.create_proper hfew hs hok hkeeps
  | destroy cpu id => exact h.destroy_proper hs hkeeps
  | send cpu id data size type now => exact h.send_proper hs hkeeps

/-- **The table keeps its ports apart exactly under proper use**, as long as the numbers do not come
    round. -/
theorem table_iff (sb : SandboxState μ) {ops : List (IpcTableOp μ)}
    (hfew : Meets ipcTableStep FewCreations (ipcTableStart sb) ops) :
    (Always ipcTableStep TableOk (ipcTableStart sb) ops ∧ AlwaysStep ipcTableStep Keeps (ipcTableStart sb) ops) ↔
      Meets ipcTableStep ProperUse (ipcTableStart sb) ops :=
  always_step_iff_assuming (fun _ h => h.ok) (fun _ _ _ h hfew hproper hs => h.step hfew hproper hs)
    (fun _ _ _ h hfew hs hok hkeeps => h.proper hfew hs hok hkeeps) (tableInv_start sb) hfew

instance (s : IpcTable μ) (op : IpcTableOp μ) : Decidable (FewCreations s op) := by
  cases op <;> unfold FewCreations <;> infer_instance

instance (s : IpcTable μ) (op : IpcTableOp μ) : Decidable (ProperUse s op) :=
  match op with
  | .create _ name _ =>
    -- the ports are tried one by one, and not all the pairs there are
    have (i : PortSlot) : Decidable (∀ p ∈ s.live, p.2 ≠ i ∧ (s.st.ports p.2).name ≠ portName name) :=
      List.decidableBAll _ _
    inferInstanceAs (Decidable (nameTaken s.st name = false → ∀ i, freePort s.st = some i →
      ∀ p ∈ s.live, p.2 ≠ i ∧ (s.st.ports p.2).name ≠ portName name))
  | .destroy _ _ => inferInstanceAs (Decidable (_ → _ → _))
  | .send _ _ _ _ _ _ => inferInstanceAs (Decidable (_ → _ → _))
  | .receive .. => inferInstanceAs (Decidable True)
  | .elsewhere .. => inferInstanceAs (Decidable True)

end

/-- Process 7 runs on every CPU but the first, which runs the kernel. -/
def processSeven : SandboxState Nat :=
  sandboxInit
    { readyProcs with
      sched := { readyProcs.sched with
        runqueues := fun cpu => { Sched.Runqueue.empty with current := if cpu = 0 then none else some 0 } }
      info := fun _ => { ProcInfo.zero with pid := 7 } }
    fun _ => 0

/-- A port of process 7, which is used and destroyed. -/
theorem table_one_port :
    Always ipcTableStep TableOk (ipcTableStart processSeven)
        [.create 1 [97] 0, .send 1 1 none 0 .data 0, .receive 1 1 0 0 [], .destroy 1 1] ∧
      AlwaysStep ipcTableStep Keeps (ipcTableStart processSeven)
        [.create 1 [97] 0, .send 1 1 none 0 .data 0, .receive 1 1 0 0 [], .destroy 1 1] :=
  (table_iff processSeven
    (meets_of_check (fun s op => decide (FewCreations s op)) (fun _ _ => of_decide_eq_true) (by decide +kernel))).mpr
    (meets_of_check (fun s op => decide (ProperUse s op)) (fun _ _ => of_decide_eq_true) (by decide +kernel))

/-- A port of the kernel is overwritten by the next one that is created. -/
theorem kernel_port_lost :
    ¬(Always ipcTableStep TableOk (ipcTableStart processSeven) [.create 0 [97] 0, .create 1 [98] 0] ∧
      AlwaysStep ipcTableStep Keeps (ipcTableStart processSeven) [.create 0 [97] 0, .create 1 [98] 0]) := by
  rintro ⟨h, -⟩
  have hrun := eq_some_getD (ipcTableStart processSeven) (o := run ipcTableStep (ipcTableStart processSeven)
    [.create 0 [97] 0, .create 1 [98] 0]) (by decide +kernel)
  have hslot := (h.last hrun).slots (1, ⟨0, by decide⟩) (by decide +kernel)
  exact absurd hslot (by decide +kernel)

end Crimson.Sandbox
