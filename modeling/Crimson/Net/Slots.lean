import Mathlib.Data.List.Nodup
import Crimson.Lib.Run
import Crimson.Net.Tcp

/-!
# Who owns a socket slot

The table of sockets under all that takes slots, gives them up and frees their buffers:
`tcp_socket_create`, the calls on a socket, `tcp_close` up to its wait and from there on,
`tcp_rx` and the timer. Sockets are numbered in the order they are created; which one a slot
holds, and for which one a process waits in `tcp_close`, is recorded beside the table.

`in_use` is cleared in four places and the buffers are freed in one, so they are lost when
the timer gives up a connection nobody closes. While a process waits in `tcp_close`, the
slot may be free already: a socket created in it then is what the waiting process clears
and frees. The law holds in the runs where neither happens (`Undisturbed`).
-/

set_option autoImplicit false

namespace Crimson.Net

open Crimson.Lib

/-- A process that waits in `tcp_close`: the slot it looks at, and the socket it was called for. -/
structure Closer where
  slot : Nat
  id : Nat
deriving DecidableEq

structure SlotTable where
  socks : List TcpSocket
  /-- The socket that was created in a slot last. -/
  owner : Nat → Option Nat
  /-- The buffers of all the sockets created, 0 for none. -/
  created : List (Nat × Nat)
  closers : List Closer
  freed : List Nat

inductive SlotOp where
  /-- `tcp_socket_create`, with what its two calls of `kmalloc` return. -/
  | create (rx tx : Nat)
  | bind (i ip port : Nat)
  | listen (i : Nat)
  | connect (i ip port localPort us ms : Nat)
  | close (i : Nat)
  /-- A process that waits in `tcp_close` sees that it is done. -/
  | closeReturn (c : Closer)
  | rx (seg : TcpSegment) (us ms : Nat)
  | timer (now : Nat)

/-- The buffers that a socket has. -/
def buffersOf (p : Nat × Nat) : List Nat := [p.1, p.2].filter (· ≠ 0)

namespace SlotTable

/-- What `kmalloc` may return: no buffer, or one that was never returned before. A buffer
    stands for an allocation: an address that is given out again is another one. -/
def Fresh (st : SlotTable) (rx tx : Nat) : Prop :=
  (buffersOf (rx, tx)).Nodup ∧ ∀ b ∈ buffersOf (rx, tx), b ∉ st.created.flatMap buffersOf

instance (st : SlotTable) (rx tx : Nat) : Decidable (st.Fresh rx tx) :=
  inferInstanceAs (Decidable ((buffersOf (rx, tx)).Nodup ∧ ∀ b ∈ buffersOf (rx, tx), b ∉ st.created.flatMap buffersOf))

/-- The slot `tcp_socket_create` finds. -/
def freeSlot (st : SlotTable) : Option Nat := st.socks.findIdx? fun s => !s.inUse

/-- A call on the socket `i` that changes no more than the socket. -/
def onSocket (st : SlotTable) (i : Nat) (f : TcpSocket → TcpSocket) : SlotTable :=
  match st.socks[i]? with
  | none => st
  | some s => if s.inUse then { st with socks := st.socks.set i (f s) } else st

end SlotTable

def slotStep (st : SlotTable) : SlotOp → Option SlotTable
  | .create rx tx =>
    match st.freeSlot with
    | none => some st
    | some i =>
      if st.Fresh rx tx then
        some { st with
          socks := st.socks.set i (freshSocket rx tx)
          owner := Function.update st.owner i (some st.created.length)
          created := st.created ++ [(rx, tx)] }
      else none
  | .bind i ip port => some (st.onSocket i fun s => tcpBind s ip port)
  | .listen i => some (st.onSocket i tcpListen)
  | .connect i ip port localPort us ms => some (st.onSocket i fun s => (tcpConnectStart s ip port localPort us ms).1)
  | .close i =>
    match st.socks[i]?, st.owner i with
    | some s, some id =>
      if s.inUse then
        some { st with
          socks := st.socks.set i (tcpCloseStart s).1
          closers := ⟨i, id⟩ :: st.closers }
      else some st
    | _, _ => some st
  | .closeReturn c =>
    match st.socks[c.slot]? with
    | none => none
    | some s =>
      if c ∈ st.closers ∧ tcpCloseDone s then
        some { st with
          socks := st.socks.set c.slot (tcpCloseFinish s)
          closers := st.closers.erase c
          freed := st.freed ++ buffersOf (s.rxBuf, s.txBuf) }
      else none
  | .rx seg us ms => some { st with socks := (tcpRxTable st.socks seg us ms).1 }
  | .timer now => some { st with socks := st.socks.map fun s => (tcpTimer s now).1 }

/-- The table at boot. -/
def slotInit : SlotTable where
  socks := List.replicate TCP_MAX_SOCKETS zeroSocket
  owner := fun _ => none
  created := []
  closers := []
  freed := []

namespace SlotTable

/-- The socket `id` is in use. -/
def InUse (st : SlotTable) (id : Nat) : Prop :=
  ∃ (i : Nat) (s : TcpSocket), st.socks[i]? = some s ∧ st.owner i = some id ∧ s.inUse = true

/-- A process waits in `tcp_close` for the slot `i`. -/
def Waits (st : SlotTable) (i : Nat) : Prop := ∃ c ∈ st.closers, c.slot = i

/-- A process waits in `tcp_close` for the socket `id`. -/
def Waited (st : SlotTable) (id : Nat) : Prop := ∃ c ∈ st.closers, c.id = id

/-- **The law of the buffers**: a socket that is in use, or that somebody is closing, has its
    buffers; from then on they have been freed, once. -/
def BuffersKept (st : SlotTable) : Prop :=
  ∀ id p, st.created[id]? = some p → ∀ b ∈ buffersOf p,
    (st.InUse id ∨ st.Waited id → b ∉ st.freed) ∧ (¬ st.InUse id ∧ ¬ st.Waited id → st.freed.count b = 1)

end SlotTable

/-- A `tcp_close` that ends leaves all the other sockets alone. -/
def ClosesOwn (st : SlotTable) (op : SlotOp) (st' : SlotTable) : Prop :=
  match op with
  | .closeReturn c => ∀ id, id ≠ c.id → (st.InUse id → st'.InUse id) ∧
      ∀ p, st.created[id]? = some p → ∀ b ∈ buffersOf p, st'.freed.count b = st.freed.count b
  | _ => True

/-- The steps that do not disturb the law: a slot that a process still looks at is not taken,
    a socket is closed by one process at a time, and the timer gives up no connection that
    nobody closes. -/
def Undisturbed (st : SlotTable) : SlotOp → Prop
  | .create _ _ => ∀ i, st.freeSlot = some i → ¬ st.Waits i
  | .close i => ¬ st.Waits i
  | .timer now => ∀ (i : Nat) (s : TcpSocket), st.socks[i]? = some s → s.inUse = true → keepAliveEnds s now → st.Waits i
  | _ => True

/-! ## The invariant -/

/-- The states after `tcp_close`, in which the socket is given up without it. -/
def TcpState.leaving : TcpState → Bool
  | .finWait1 | .finWait2 | .closing | .lastAck | .timeWait => true
  | _ => false

structure SlotInv (st : SlotTable) : Prop where
  owned : ∀ (i : Nat) (s : TcpSocket), st.socks[i]? = some s → s.inUse = true → ∃ id, st.owner i = some id
  buffers : ∀ (i : Nat) (id : Nat), st.owner i = some id →
    ∃ s, st.socks[i]? = some s ∧ st.created[id]? = some (s.rxBuf, s.txBuf)
  owners : ∀ i j id, st.owner i = some id → st.owner j = some id → i = j
  closer : ∀ c ∈ st.closers, st.owner c.slot = some c.id
  single : (st.closers.map Closer.slot).Nodup
  distinct : ∀ (id : Nat) (p : Nat × Nat), st.created[id]? = some p → (buffersOf p).Nodup
  apart : ∀ (id : Nat) (p : Nat × Nat) (id' : Nat) (p' : Nat × Nat) (b : Nat), st.created[id]? = some p → st.created[id']? = some p' → b ∈ buffersOf p →
    b ∈ buffersOf p' → id = id'
  given : ∀ b ∈ st.freed, b ∈ st.created.flatMap buffersOf
  leaving : ∀ (i : Nat) (s : TcpSocket), st.socks[i]? = some s → s.inUse = true → s.state.leaving = true → st.Waits i
  kept : st.BuffersKept

theorem slotInv_init : SlotInv slotInit := by
  have hsock : ∀ (i : Nat) (s : TcpSocket), slotInit.socks[i]? = some s → s.inUse = false := by
    intro i s hs
    have hmem : s ∈ List.replicate TCP_MAX_SOCKETS zeroSocket := List.mem_of_getElem? hs
    rw [List.eq_of_mem_replicate hmem]
    rfl
  refine ⟨?_, ?_, ?_, ?_, List.nodup_nil, ?_, ?_, ?_, ?_, ?_⟩
  · intro i s hs hin
    rw [hsock i s hs] at hin
    cases hin
  · intro i id h
    cases h
  · intro i j id h
    cases h
  · intro c h
    cases h
  · intro id p h
    cases h
  · intro id p id' p' b h
    cases h
  · intro b h
    cases h
  · intro i s hs hin
    rw [hsock i s hs] at hin
    cases hin
  · intro id p h
    cases h

/-! ## Steps that change sockets only -/

/-- A socket before and after a step that neither creates nor closes it. -/
structure SockStep (st : SlotTable) (i : Nat) (s s' : TcpSocket) : Prop where
  rxBuf : s'.rxBuf = s.rxBuf
  txBuf : s'.txBuf = s.txBuf
  inUse : s'.inUse = true → s.inUse = true
  leaving : s'.state.leaving = true → s.state.leaving = true ∨ st.Waits i
  ended : s.inUse = true → s'.inUse = false → st.Waits i

theorem SockStep.refl (st : SlotTable) (i : Nat) (s : TcpSocket) : SockStep st i s s := by
  refine ⟨rfl, rfl, id, Or.inl, ?_⟩
  intro h h'
  rw [h] at h'
  cases h'

/-- **A step that changes sockets only** keeps the invariant. -/
theorem SlotInv.evolve {st : SlotTable} (h : SlotInv st) {socks : List TcpSocket} (hlen : socks.length = st.socks.length)
    (hstep : ∀ (i : Nat) (s s' : TcpSocket), st.socks[i]? = some s → socks[i]? = some s' → SockStep st i s s') :
    SlotInv { st with socks := socks } := by
  have hback : ∀ (i : Nat) (s' : TcpSocket), socks[i]? = some s' → ∃ s, st.socks[i]? = some s ∧ SockStep st i s s' := by
    intro i s' hs'
    have hlt : i < st.socks.length := hlen ▸ (List.getElem?_eq_some_iff.mp hs').1
    exact ⟨_, List.getElem?_eq_getElem hlt, hstep i _ s' (List.getElem?_eq_getElem hlt) hs'⟩
  have hforth : ∀ (i : Nat) (s : TcpSocket), st.socks[i]? = some s → ∃ s', socks[i]? = some s' ∧ SockStep st i s s' := by
    intro i s hs
    have hlt : i < socks.length := hlen.symm ▸ (List.getElem?_eq_some_iff.mp hs).1
    exact ⟨_, List.getElem?_eq_getElem hlt, hstep i s _ hs (List.getElem?_eq_getElem hlt)⟩
  refine ⟨?_, ?_, h.owners, h.closer, h.single, h.distinct, h.apart, h.given, ?_, ?_⟩
  · intro i s' hs' hin
    obtain ⟨s, hs, hst⟩ := hback i s' hs'
    exact h.owned i s hs (hst.inUse hin)
  · intro i id hown
    obtain ⟨s, hs, hbuf⟩ := h.buffers i id hown
    obtain ⟨s', hs', hst⟩ := hforth i s hs
    refine ⟨s', hs', ?_⟩
    rw [hst.rxBuf, hst.txBuf]
    exact hbuf
  · intro i s' hs' hin hleave
    obtain ⟨s, hs, hst⟩ := hback i s' hs'
    cases hst.leaving hleave with
    | inl hold => exact h.leaving i s hs (hst.inUse hin) hold
    | inr hwait => exact hwait
  · intro id p hp b hb
    obtain ⟨hlive, hdead⟩ := h.kept id p hp b hb
    -- a socket that is no longer in use is one somebody waits for
    have hor : (∃ i s', socks[i]? = some s' ∧ st.owner i = some id ∧ s'.inUse = true) ∨ st.Waited id ↔
        st.InUse id ∨ st.Waited id := by
      constructor
      · intro hcase
        cases hcase with
        | inl hin =>
          obtain ⟨i, s', hs', hown, hin⟩ := hin
          obtain ⟨s, hs, hst⟩ := hback i s' hs'
          exact Or.inl ⟨i, s, hs, hown, hst.inUse hin⟩
        | inr hwait => exact Or.inr hwait
      · intro hcase
        cases hcase with
        | inl hin =>
          obtain ⟨i, s, hs, hown, hin⟩ := hin
          obtain ⟨s', hs', hst⟩ := hforth i s hs
          cases hin' : s'.inUse with
          | true => exact Or.inl ⟨i, s', hs', hown, hin'⟩
          | false =>
            obtain ⟨c, hc, hslot⟩ := hst.ended hin hin'
            have hid : st.owner i = some c.id := hslot ▸ h.closer c hc
            exact Or.inr ⟨c, hc, Option.some.inj (hid.symm.trans hown)⟩
        | inr hwait => exact Or.inr hwait
    refine ⟨fun hcase => hlive (hor.mp hcase), fun hno => hdead ?_⟩
    have hnone : ¬ (st.InUse id ∨ st.Waited id) := fun hcase => (not_or.mpr hno) (hor.mpr hcase)
    exact not_or.mp hnone

/-- A socket that stays in use, with its buffers, and is not given up. -/
structure SockKeep (s s' : TcpSocket) : Prop where
  rxBuf : s'.rxBuf = s.rxBuf
  txBuf : s'.txBuf = s.txBuf
  inUse : s'.inUse = s.inUse
  leaving : s'.state.leaving = true → s.state.leaving = true

theorem SockKeep.step {s s' : TcpSocket} (h : SockKeep s s') (st : SlotTable) (i : Nat) : SockStep st i s s' := by
  refine ⟨h.rxBuf, h.txBuf, fun hin => h.inUse ▸ hin, fun hleave => Or.inl (h.leaving hleave), ?_⟩
  intro hin hout
  rw [h.inUse, hin] at hout
  cases hout

theorem keep_of_eq {s s' : TcpSocket} (hrx : s'.rxBuf = s.rxBuf) (htx : s'.txBuf = s.txBuf) (hin : s'.inUse = s.inUse)
    (hst : s'.state = s.state) : SockKeep s s' :=
  ⟨hrx, htx, hin, fun h => hst ▸ h⟩

theorem keep_of_state {s s' : TcpSocket} (hrx : s'.rxBuf = s.rxBuf) (htx : s'.txBuf = s.txBuf) (hin : s'.inUse = s.inUse)
    (hst : s'.state.leaving = false) : SockKeep s s' := by
  refine ⟨hrx, htx, hin, ?_⟩
  intro h
  rw [hst] at h
  cases h

theorem tcpProcessAck_keep (s : TcpSocket) (ack : UInt32) : SockKeep s (tcpProcessAck s ack) := by
  obtain ⟨una, cc, h⟩ := tcpProcessAck_eq s ack
  rw [h]
  exact keep_of_eq rfl rfl rfl rfl

theorem rxSynSent_keep (s : TcpSocket) (seg : TcpSegment) : SockKeep s (rxSynSent s seg).1 := by
  unfold rxSynSent
  split
  · simp only
    split
    · have hack := tcpProcessAck_keep { s with irs := seg.seq, rcvNxt := seg.seq + 1, sndUna := seg.ack } seg.ack
      exact keep_of_state hack.rxBuf hack.txBuf hack.inUse rfl
    · exact keep_of_state rfl rfl rfl rfl
  · exact keep_of_eq rfl rfl rfl rfl

theorem rxSynReceived_keep (s : TcpSocket) (seg : TcpSegment) : SockKeep s (rxSynReceived s seg) := by
  unfold rxSynReceived
  split
  · have hack := tcpProcessAck_keep { s with sndUna := seg.ack } seg.ack
    exact keep_of_state hack.rxBuf hack.txBuf hack.inUse rfl
  · exact keep_of_eq rfl rfl rfl rfl

theorem rxListen_keep (s : TcpSocket) (seg : TcpSegment) (us : Nat) : SockKeep s (rxListen s seg us).1 := by
  unfold rxListen
  split
  · exact keep_of_state rfl rfl rfl rfl
  · exact keep_of_eq rfl rfl rfl rfl

theorem rxStream_keep (s : TcpSocket) (seg : TcpSegment) : SockKeep s (rxStream s seg).1 := by
  obtain ⟨una, cc, wnd, hack⟩ := rxAck_eq s seg
  have hdata : SockKeep s (rxData (rxAck s seg) seg).1 := by
    rw [hack]
    unfold rxData
    split
    · exact keep_of_eq rfl rfl rfl rfl
    · exact keep_of_eq rfl rfl rfl rfl
  unfold rxStream rxFin
  generalize rxData (rxAck s seg) seg = d at hdata
  split
  · refine ⟨hdata.rxBuf, hdata.txBuf, hdata.inUse, ?_⟩
    intro hleave
    apply hdata.leaving
    have hfin : (finState d.1.state).leaving = true := hleave
    cases hst : d.1.state with
    | finWait1 | finWait2 | closing | lastAck | timeWait => rfl
    | _ =>
      rw [hst] at hfin
      cases hfin
  · exact hdata

/-- **What arrives** frees no slot, but the last ACK of a socket that somebody waits for. -/
theorem tcpRxState_sock {st : SlotTable} {i : Nat} {s : TcpSocket} (seg : TcpSegment) (us : Nat)
    (hwait : s.inUse = true → s.state.leaving = true → st.Waits i) : SockStep st i s (tcpRxState s seg us).1 := by
  cases hst : s.state with
  | synSent => exact tcpRxState_synSent hst ▸ (rxSynSent_keep s seg).step st i
  | synReceived => exact tcpRxState_synReceived hst ▸ (rxSynReceived_keep s seg).step st i
  | listen => exact tcpRxState_listen hst ▸ (rxListen_keep s seg us).step st i
  | established => exact tcpRxState_stream (Or.inl hst) ▸ (rxStream_keep s seg).step st i
  | finWait1 => exact tcpRxState_stream (Or.inr (Or.inl hst)) ▸ (rxStream_keep s seg).step st i
  | finWait2 => exact tcpRxState_stream (Or.inr (Or.inr hst)) ▸ (rxStream_keep s seg).step st i
  | closed => exact tcpRxState_idle (Or.inl hst) ▸ SockStep.refl st i s
  | closeWait => exact tcpRxState_idle (Or.inr (Or.inl hst)) ▸ SockStep.refl st i s
  | timeWait => exact tcpRxState_idle (Or.inr (Or.inr hst)) ▸ SockStep.refl st i s
  | closing =>
    rw [tcpRxState_closing hst, rxClosing]
    split
    · have hkeep : SockKeep s { s with state := .timeWait } := ⟨rfl, rfl, rfl, fun _ => by rw [hst]; rfl⟩
      exact hkeep.step st i
    · exact SockStep.refl st i s
  | lastAck =>
    rw [tcpRxState_lastAck hst, rxLastAck]
    split
    · refine ⟨rfl, rfl, ?_, ?_, fun hin _ => hwait hin (by rw [hst]; rfl)⟩
      · intro h
        cases h
      · intro h
        cases h
    · exact SockStep.refl st i s

theorem tcpTimer_sock {st : SlotTable} {i : Nat} {s : TcpSocket} {now : Nat}
    (hwait : s.inUse = true → s.state.leaving = true → st.Waits i)
    (hkeep : s.inUse = true → keepAliveEnds s now → st.Waits i) : SockStep st i s (tcpTimer s now).1 := by
  unfold tcpTimer
  cases hin : s.inUse with
  | false => exact SockStep.refl st i s
  | true =>
    obtain ⟨cc, hcc⟩ := timerRetransmit_eq s now
    rw [if_pos rfl, hcc]
    -- the timer may end a socket, with its buffers, while somebody waits for it
    have hended : ∀ {s' : TcpSocket}, s'.rxBuf = s.rxBuf → s'.txBuf = s.txBuf → s'.inUse = false →
        s'.state.leaving = false → st.Waits i → SockStep st i s s' := by
      intro s' hrx htx hout hleave hw
      refine ⟨hrx, htx, ?_, ?_, fun _ _ => hw⟩
      · intro h
        rw [hout] at h
        cases h
      · intro h
        rw [hleave] at h
        cases h
    have hprobe : (timerKeepAlive { s with cc := cc } now).1.state = s.state ∧
          SockKeep s (timerKeepAlive { s with cc := cc } now).1 ∨
        (timerKeepAlive { s with cc := cc } now).1.state = .closed ∧
          SockStep st i s (timerKeepAlive { s with cc := cc } now).1 := by
      unfold timerKeepAlive
      split
      · rename_i hdue
        simp only
        split
        · rename_i hprobes
          exact Or.inr ⟨rfl, hended rfl rfl rfl rfl (hkeep hin ⟨hdue.1, hdue.2, hprobes⟩)⟩
        · exact Or.inl ⟨rfl, keep_of_eq rfl rfl rfl rfl⟩
      · exact Or.inl ⟨rfl, keep_of_eq rfl rfl rfl rfl⟩
    generalize timerKeepAlive { s with cc := cc } now = out at hprobe
    show SockStep st i s (timerTimeWait out.1 now)
    cases timerTimeWait_eq out.1 now with
    | inl hsame =>
      rw [hsame]
      cases hprobe with
      | inl h => exact h.2.step st i
      | inr h => exact h.2
    | inr hend =>
      rw [hend.2]
      cases hprobe with
      | inl h =>
        have hleave : s.state.leaving = true := by
          rw [← h.1, hend.1]
          rfl
        exact hended h.2.rxBuf h.2.txBuf rfl rfl (hwait hin hleave)
      | inr h =>
        rw [hend.1] at h
        cases h.1

/-- A step of one socket. -/
theorem SlotInv.set {st : SlotTable} (h : SlotInv st) {i : Nat} {s s' : TcpSocket} (hs : st.socks[i]? = some s)
    (hstep : SockStep st i s s') : SlotInv { st with socks := st.socks.set i s' } := by
  apply h.evolve List.length_set
  intro j t t' ht ht'
  by_cases hij : i = j
  · subst hij
    have hlt : i < st.socks.length := (List.getElem?_eq_some_iff.mp hs).1
    rw [List.getElem?_set_self hlt] at ht'
    rw [hs] at ht
    cases ht
    cases ht'
    exact hstep
  · rw [List.getElem?_set_ne hij, ht] at ht'
    cases ht'
    exact SockStep.refl st j t

theorem SlotInv.onSocket {st : SlotTable} (h : SlotInv st) (i : Nat) {f : TcpSocket → TcpSocket}
    (hf : ∀ s, SockKeep s (f s)) : SlotInv (st.onSocket i f) := by
  unfold SlotTable.onSocket
  cases hs : st.socks[i]? with
  | none => exact h
  | some s =>
    simp only
    split
    · exact h.set hs ((hf s).step st i)
    · exact h

theorem SlotInv.rx {st : SlotTable} (h : SlotInv st) (seg : TcpSegment) (us ms : Nat) :
    SlotInv { st with socks := (tcpRxTable st.socks seg us ms).1 } := by
  unfold tcpRxTable
  cases hfind : findSocket st.socks seg with
  | none => exact h
  | some i =>
    simp only
    cases hs : st.socks[i]? with
    | none => exact h
    | some s =>
      have hrx : SockStep st i (s.touch ms) (tcpRxState (s.touch ms) seg us).1 :=
        tcpRxState_sock seg us (h.leaving i s hs)
      exact h.set hs ⟨hrx.rxBuf, hrx.txBuf, hrx.inUse, hrx.leaving, hrx.ended⟩

theorem SlotInv.timer {st : SlotTable} (h : SlotInv st) {now : Nat} (hg : Undisturbed st (.timer now)) :
    SlotInv { st with socks := st.socks.map fun s => (tcpTimer s now).1 } := by
  apply h.evolve (List.length_map _)
  intro i s s' hs hs'
  rw [List.getElem?_map, hs] at hs'
  cases hs'
  exact tcpTimer_sock (h.leaving i s hs) (hg i s hs)

/-! ## Creating -/

theorem freeSlot_some {st : SlotTable} {i : Nat} (h : st.freeSlot = some i) :
    ∃ s, st.socks[i]? = some s ∧ s.inUse = false := by
  obtain ⟨hlt, hfree, -⟩ := List.findIdx?_eq_some_iff_getElem.mp h
  refine ⟨_, List.getElem?_eq_getElem hlt, ?_⟩
  rw [Bool.not_eq_true'] at hfree
  exact hfree

/-- The table after a socket was created in the slot `i`. -/
def SlotTable.create (st : SlotTable) (i rx tx : Nat) : SlotTable :=
  { st with
    socks := st.socks.set i (freshSocket rx tx)
    owner := Function.update st.owner i (some st.created.length)
    created := st.created ++ [(rx, tx)] }

section

variable {st : SlotTable} {i rx tx : Nat}

theorem created_old {id : Nat} {p : Nat × Nat} (h : st.created[id]? = some p) : (st.create i rx tx).created[id]? = some p := by
  have hlt : id < st.created.length := (List.getElem?_eq_some_iff.mp h).1
  exact (List.getElem?_append_left hlt).trans h

/-- A socket after the creation is an old one or the new one. -/
theorem created_cases {id : Nat} {p : Nat × Nat} (h : (st.create i rx tx).created[id]? = some p) :
    st.created[id]? = some p ∨ id = st.created.length ∧ p = (rx, tx) := by
  have hlt : id < st.created.length + 1 := by
    have hl := (List.getElem?_eq_some_iff.mp h).1
    rw [SlotTable.create, List.length_append, List.length_singleton] at hl
    exact hl
  cases Nat.lt_succ_iff_lt_or_eq.mp hlt with
  | inl hold => exact Or.inl ((List.getElem?_append_left hold).symm.trans h)
  | inr hnew =>
    subst hnew
    have hlast : (st.created ++ [(rx, tx)])[st.created.length]? = some (rx, tx) := List.getElem?_concat_length
    exact Or.inr ⟨rfl, Option.some.inj (h.symm.trans hlast)⟩

theorem mem_created {id : Nat} {p : Nat × Nat} {b : Nat} (h : st.created[id]? = some p) (hb : b ∈ buffersOf p) :
    b ∈ st.created.flatMap buffersOf :=
  List.mem_flatMap.mpr ⟨p, List.mem_of_getElem? h, hb⟩

/-- The slot a socket is created in, and the other ones. -/
theorem owner_create {j id : Nat} (h : (st.create i rx tx).owner j = some id) :
    j = i ∧ id = st.created.length ∨ j ≠ i ∧ st.owner j = some id := by
  by_cases hj : j = i
  · subst hj
    have hown : Function.update st.owner j (some st.created.length) j = some id := h
    rw [Function.update_self] at hown
    exact Or.inl ⟨rfl, (Option.some.inj hown).symm⟩
  · have hown : Function.update st.owner i (some st.created.length) j = some id := h
    rw [Function.update_of_ne hj] at hown
    exact Or.inr ⟨hj, hown⟩

theorem owner_lt (h : SlotInv st) {j id : Nat} (hown : st.owner j = some id) : id < st.created.length := by
  obtain ⟨s, -, hbuf⟩ := h.buffers j id hown
  exact (List.getElem?_eq_some_iff.mp hbuf).1

/-- A socket that was there is in use as before. -/
theorem inUse_create (hslot : st.freeSlot = some i) {id : Nat} (hne : id ≠ st.created.length) :
    (st.create i rx tx).InUse id ↔ st.InUse id := by
  obtain ⟨s, hs, hfree⟩ := freeSlot_some hslot
  have hother : ∀ j, j ≠ i → (st.create i rx tx).socks[j]? = st.socks[j]? := fun j hj => List.getElem?_set_ne (Ne.symm hj)
  constructor
  · rintro ⟨j, t, ht, hown, hin⟩
    cases owner_create hown with
    | inl hnewj => exact absurd hnewj.2 hne
    | inr holdj => exact ⟨j, t, (hother j holdj.1).symm.trans ht, holdj.2, hin⟩
  · rintro ⟨j, t, ht, hown, hin⟩
    have hj : j ≠ i := by
      rintro rfl
      rw [hs] at ht
      cases ht
      rw [hfree] at hin
      cases hin
    exact ⟨j, t, (hother j hj).trans ht, (Function.update_of_ne hj _ st.owner).trans hown, hin⟩

/-- A socket has one slot, the new one too. -/
theorem SlotInv.owners_create (h : SlotInv st) {j k id : Nat} (hj : (st.create i rx tx).owner j = some id)
    (hk : (st.create i rx tx).owner k = some id) : j = k := by
  cases owner_create hj with
  | inl hnewj =>
    obtain ⟨rfl, rfl⟩ := hnewj
    cases owner_create hk with
    | inl hnewk => exact hnewk.1.symm
    | inr hold => exact absurd (owner_lt h hold.2) (Nat.lt_irrefl _)
  | inr holdj =>
    cases owner_create hk with
    | inl hnewk =>
      obtain ⟨rfl, rfl⟩ := hnewk
      exact absurd (owner_lt h holdj.2) (Nat.lt_irrefl _)
    | inr holdk => exact h.owners j k id holdj.2 holdk.2

/-- No buffer belongs to two sockets, where those of the new one are new. -/
theorem SlotInv.apart_create (h : SlotInv st) (hfresh : st.Fresh rx tx) {id id' b : Nat} {p p' : Nat × Nat}
    (hp : (st.create i rx tx).created[id]? = some p) (hp' : (st.create i rx tx).created[id']? = some p')
    (hb : b ∈ buffersOf p) (hb' : b ∈ buffersOf p') : id = id' := by
  cases created_cases hp with
  | inl hold =>
    cases created_cases hp' with
    | inl hold' => exact h.apart id p id' p' b hold hold' hb hb'
    | inr hnew' =>
      rw [hnew'.2] at hb'
      exact absurd (mem_created hold hb) (hfresh.2 b hb')
  | inr hnewp =>
    rw [hnewp.2] at hb
    cases created_cases hp' with
    | inl hold' => exact absurd (mem_created hold' hb') (hfresh.2 b hb)
    | inr hnew' => rw [hnewp.1, hnew'.1]

/-- **Creating a socket** in a slot that nobody looks at. -/
theorem SlotInv.create (h : SlotInv st) (hslot : st.freeSlot = some i) (hwait : ¬ st.Waits i) (hfresh : st.Fresh rx tx) :
    SlotInv (st.create i rx tx) := by
  obtain ⟨s, hs, hfree⟩ := freeSlot_some hslot
  have hlt : i < st.socks.length := (List.getElem?_eq_some_iff.mp hs).1
  have hnew : (st.create i rx tx).socks[i]? = some (freshSocket rx tx) := List.getElem?_set_self hlt
  have hother : ∀ j, j ≠ i → (st.create i rx tx).socks[j]? = st.socks[j]? := fun j hj => List.getElem?_set_ne (Ne.symm hj)
  have howni : (st.create i rx tx).owner i = some st.created.length := Function.update_self i _ st.owner
  have hownj : ∀ j, j ≠ i → (st.create i rx tx).owner j = st.owner j := fun j hj => Function.update_of_ne hj _ st.owner
  -- nobody waits at the slot, so every `tcp_close` under way keeps its own socket
  have hclosers : ∀ c ∈ st.closers, c.slot ≠ i := fun c hc hci => hwait ⟨c, hc, hci⟩
  refine ⟨?_, ?_, fun j k id => h.owners_create, ?_, h.single, ?_, fun id p id' p' b => h.apart_create hfresh, ?_, ?_, ?_⟩
  · intro j t ht hin
    by_cases hj : j = i
    · subst hj
      exact ⟨_, howni⟩
    · rw [hother j hj] at ht
      rw [hownj j hj]
      exact h.owned j t ht hin
  · intro j id hown
    cases owner_create hown with
    | inl hnewj =>
      obtain ⟨rfl, rfl⟩ := hnewj
      exact ⟨_, hnew, List.getElem?_concat_length⟩
    | inr hold =>
      obtain ⟨hj, hown⟩ := hold
      obtain ⟨t, ht, hbuf⟩ := h.buffers j id hown
      exact ⟨t, (hother j hj).trans ht, created_old hbuf⟩
  · intro c hc
    rw [hownj c.slot (hclosers c hc)]
    exact h.closer c hc
  · intro id p hp
    cases created_cases hp with
    | inl hold => exact h.distinct id p hold
    | inr hnewp =>
      rw [hnewp.2]
      exact hfresh.1
  · intro b hb
    obtain ⟨p, hp, hbp⟩ := List.mem_flatMap.mp (h.given b hb)
    exact List.mem_flatMap.mpr ⟨p, List.mem_append_left _ hp, hbp⟩
  · intro j t ht hin hleave
    by_cases hj : j = i
    · subst hj
      rw [hnew] at ht
      cases ht
      cases hleave
    · rw [hother j hj] at ht
      exact h.leaving j t ht hin hleave
  · intro id p hp b hb
    cases created_cases hp with
    | inl hold =>
      have hne : id ≠ st.created.length := Nat.ne_of_lt (List.getElem?_eq_some_iff.mp hold).1
      obtain ⟨hlive, hdead⟩ := h.kept id p hold b hb
      rw [inUse_create hslot hne]
      exact ⟨hlive, hdead⟩
    | inr hnewp =>
      obtain ⟨rfl, rfl⟩ := hnewp
      refine ⟨fun _ hmem => hfresh.2 b hb (h.given b hmem), ?_⟩
      intro hno
      exact absurd ⟨i, _, hnew, howni, rfl⟩ hno.1

end

/-! ## Closing -/

theorem tcpCloseStart_sock {st : SlotTable} {i : Nat} (s : TcpSocket) (hwait : st.Waits i) :
    SockStep st i s (tcpCloseStart s).1 := by
  unfold tcpCloseStart
  split
  · exact ⟨rfl, rfl, id, fun _ => Or.inr hwait, fun _ _ => hwait⟩
  · exact ⟨rfl, rfl, id, fun _ => Or.inr hwait, fun _ _ => hwait⟩
  · exact SockStep.refl st i s

/-- A process begins to wait for a socket that is in use and that nobody closes. -/
theorem SlotInv.wait {st : SlotTable} (h : SlotInv st) {i id : Nat} {s : TcpSocket} (hs : st.socks[i]? = some s)
    (hown : st.owner i = some id) (hin : s.inUse = true) (hwait : ¬ st.Waits i) :
    SlotInv { st with closers := ⟨i, id⟩ :: st.closers } := by
  refine ⟨h.owned, h.buffers, h.owners, ?_, ?_, h.distinct, h.apart, h.given, ?_, ?_⟩
  · intro c hc
    cases List.mem_cons.mp hc with
    | inl hnew =>
      rw [hnew]
      exact hown
    | inr hold => exact h.closer c hold
  · rw [List.map_cons, List.nodup_cons]
    refine ⟨?_, h.single⟩
    intro hmem
    exact hwait (List.mem_map.mp hmem)
  · intro j t ht hint hleave
    obtain ⟨c, hc, hslot⟩ := h.leaving j t ht hint hleave
    exact ⟨c, List.mem_cons_of_mem _ hc, hslot⟩
  · intro id' p hp b hb
    obtain ⟨hlive, hdead⟩ := h.kept id' p hp b hb
    refine ⟨fun hcase => hlive ?_, fun hno => hdead ⟨hno.1, ?_⟩⟩
    · cases hcase with
      | inl hinuse => exact Or.inl hinuse
      | inr hwaited =>
        obtain ⟨c, hc, hid⟩ := hwaited
        cases List.mem_cons.mp hc with
        | inl hnew =>
          rw [hnew] at hid
          exact Or.inl ⟨i, s, hs, hid ▸ hown, hin⟩
        | inr hold => exact Or.inr ⟨c, hold, hid⟩
    · rintro ⟨c, hc, hid⟩
      exact hno.2 ⟨c, List.mem_cons_of_mem _ hc, hid⟩

theorem SlotInv.close {st st' : SlotTable} (h : SlotInv st) {i : Nat} (hg : Undisturbed st (.close i))
    (hs : slotStep st (.close i) = some st') : SlotInv st' := by
  unfold slotStep at hs
  simp only at hs
  split at hs
  · rename_i s id hget hown
    split at hs
    · rename_i hin
      cases hs
      have hwait := h.wait hget hown hin hg
      exact hwait.set hget (tcpCloseStart_sock s ⟨_, List.mem_cons_self, rfl⟩)
    · cases hs
      exact h
  · cases hs
    exact h

/-- The table after the process `c` has cleared and freed the socket `s`. -/
def SlotTable.release (st : SlotTable) (c : Closer) (s : TcpSocket) : SlotTable :=
  { st with
    socks := st.socks.set c.slot (tcpCloseFinish s)
    closers := st.closers.erase c
    freed := st.freed ++ buffersOf (s.rxBuf, s.txBuf) }

section

variable {st : SlotTable} {c : Closer} {s : TcpSocket}

/-- The sockets in use after the release: all but the released one. -/
theorem inUse_release (h : SlotInv st) (hc : c ∈ st.closers) (hs : st.socks[c.slot]? = some s) {id : Nat} :
    (st.release c s).InUse id ↔ id ≠ c.id ∧ st.InUse id := by
  have hlt : c.slot < st.socks.length := (List.getElem?_eq_some_iff.mp hs).1
  have hown := h.closer c hc
  constructor
  · rintro ⟨j, t, ht, hownj, hin⟩
    by_cases hj : c.slot = j
    · subst hj
      have hself : (st.socks.set c.slot (tcpCloseFinish s))[c.slot]? = some t := ht
      rw [List.getElem?_set_self hlt] at hself
      cases hself
      cases hin
    · have hget : st.socks[j]? = some t := (List.getElem?_set_ne hj).symm.trans ht
      refine ⟨?_, j, t, hget, hownj, hin⟩
      intro hid
      exact hj (h.owners c.slot j id (hid ▸ hown) hownj)
  · rintro ⟨hne, j, t, ht, hownj, hin⟩
    have hj : c.slot ≠ j := by
      intro hj
      have hboth : some c.id = some id := by
        rw [← hown, hj]
        exact hownj
      exact hne (Option.some.inj hboth).symm
    exact ⟨j, t, (List.getElem?_set_ne hj).trans ht, hownj, hin⟩

theorem closers_release (h : SlotInv st) (hc : c ∈ st.closers) {d : Closer} :
    d ∈ st.closers.erase c ↔ d.slot ≠ c.slot ∧ d ∈ st.closers := by
  have hnodup : st.closers.Nodup := List.Nodup.of_map _ h.single
  rw [hnodup.mem_erase_iff]
  constructor
  · rintro ⟨hne, hd⟩
    refine ⟨?_, hd⟩
    intro hslot
    exact hne (List.inj_on_of_nodup_map h.single hd hc hslot)
  · rintro ⟨hslot, hd⟩
    refine ⟨?_, hd⟩
    intro heq
    exact hslot (heq ▸ rfl)

/-- The sockets waited for after the release: all but the released one. -/
theorem waited_release (h : SlotInv st) (hc : c ∈ st.closers) {id : Nat} :
    (st.release c s).Waited id ↔ id ≠ c.id ∧ st.Waited id := by
  have hmem : ∀ d, d ∈ (st.release c s).closers ↔ d.slot ≠ c.slot ∧ d ∈ st.closers := fun d => closers_release h hc
  constructor
  · rintro ⟨d, hd, hid⟩
    obtain ⟨hslot, hd⟩ := (hmem d).mp hd
    refine ⟨?_, d, hd, hid⟩
    intro heq
    apply hslot
    apply h.owners d.slot c.slot d.id (h.closer d hd)
    rw [hid, heq]
    exact h.closer c hc
  · rintro ⟨hne, d, hd, hid⟩
    refine ⟨d, (hmem d).mpr ⟨?_, hd⟩, hid⟩
    intro hslot
    have hboth : some d.id = some c.id := by
      rw [← h.closer d hd, ← h.closer c hc, hslot]
    exact hne (hid.symm.trans (Option.some.inj hboth))

/-- What a release frees: the buffers of the socket it was called for. -/
theorem count_release (h : SlotInv st) (hc : c ∈ st.closers) (hs : st.socks[c.slot]? = some s) {id : Nat} {p : Nat × Nat}
    {b : Nat} (hp : st.created[id]? = some p) (hb : b ∈ buffersOf p) :
    (st.release c s).freed.count b = st.freed.count b + if id = c.id then 1 else 0 := by
  obtain ⟨t, ht, hbuf⟩ := h.buffers c.slot c.id (h.closer c hc)
  rw [hs] at ht
  cases ht
  have hcount : (st.release c s).freed.count b = st.freed.count b + (buffersOf (s.rxBuf, s.txBuf)).count b :=
    List.count_append
  rw [hcount]
  congr 1
  by_cases hid : id = c.id
  · have hpair : p = (s.rxBuf, s.txBuf) := by
      rw [hid, hbuf] at hp
      exact (Option.some.inj hp).symm
    rw [if_pos hid, ← hpair]
    exact List.count_eq_one_of_mem (h.distinct id p hp) hb
  · rw [if_neg hid, List.count_eq_zero]
    intro hmem
    exact hid (h.apart id p c.id _ b hp hbuf hb hmem)

/-- **A `tcp_close` that ends** frees its own socket and keeps the invariant. -/
theorem SlotInv.release (h : SlotInv st) (hc : c ∈ st.closers) (hs : st.socks[c.slot]? = some s) :
    SlotInv (st.release c s) := by
  have hlt : c.slot < st.socks.length := (List.getElem?_eq_some_iff.mp hs).1
  have hself : (st.release c s).socks[c.slot]? = some (tcpCloseFinish s) := List.getElem?_set_self hlt
  have hother : ∀ j, c.slot ≠ j → (st.release c s).socks[j]? = st.socks[j]? := fun j hj => List.getElem?_set_ne hj
  refine ⟨?_, ?_, h.owners, ?_, ?_, h.distinct, h.apart, ?_, ?_, ?_⟩
  · intro j t ht hin
    by_cases hj : c.slot = j
    · exact ⟨c.id, hj ▸ h.closer c hc⟩
    · rw [hother j hj] at ht
      exact h.owned j t ht hin
  · intro j id hown
    obtain ⟨t, ht, hbuf⟩ := h.buffers j id hown
    by_cases hj : c.slot = j
    · subst hj
      rw [hs] at ht
      cases ht
      exact ⟨_, hself, hbuf⟩
    · exact ⟨t, (hother j hj).trans ht, hbuf⟩
  · intro d hd
    exact h.closer d ((closers_release h hc).mp hd).2
  · exact h.single.sublist (List.erase_sublist.map Closer.slot)
  · intro b hb
    cases List.mem_append.mp hb with
    | inl hold => exact h.given b hold
    | inr hnew =>
      obtain ⟨t, ht, hbuf⟩ := h.buffers c.slot c.id (h.closer c hc)
      rw [hs] at ht
      cases ht
      exact mem_created hbuf hnew
  · intro j t ht hin hleave
    by_cases hj : c.slot = j
    · subst hj
      rw [hself] at ht
      cases ht
      cases hin
    · rw [hother j hj] at ht
      obtain ⟨d, hd, hslot⟩ := h.leaving j t ht hin hleave
      refine ⟨d, (closers_release h hc).mpr ⟨?_, hd⟩, hslot⟩
      rw [hslot]
      exact Ne.symm hj
  · intro id p hp b hb
    obtain ⟨hlive, hdead⟩ := h.kept id p hp b hb
    have hcount := count_release h hc hs hp hb
    rw [inUse_release h hc hs, waited_release h hc]
    constructor
    · intro hcase
      have hne : id ≠ c.id := by
        cases hcase with
        | inl hin => exact hin.1
        | inr hwait => exact hwait.1
      have hbefore : b ∉ st.freed := hlive (hcase.imp And.right And.right)
      rw [if_neg hne, List.count_eq_zero_of_not_mem hbefore] at hcount
      exact List.count_eq_zero.mp hcount
    · -- freed by this call, or before it and then not again
      rintro ⟨hin, hwait⟩
      rw [hcount]
      by_cases hid : id = c.id
      · have hbefore : b ∉ st.freed := hlive (Or.inr ⟨c, hc, hid.symm⟩)
        rw [if_pos hid, List.count_eq_zero_of_not_mem hbefore]
      · rw [if_neg hid]
        exact hdead ⟨fun hold => hin ⟨hid, hold⟩, fun hold => hwait ⟨hid, hold⟩⟩

end

/-! ## Runs -/

/-- **Every undisturbed step keeps the invariant.** -/
theorem SlotInv.step {st st' : SlotTable} {op : SlotOp} (h : SlotInv st) (hg : Undisturbed st op)
    (hs : slotStep st op = some st') : SlotInv st' := by
  cases op with
  | create rx tx =>
    unfold slotStep at hs
    simp only at hs
    cases hslot : st.freeSlot with
    | none =>
      rw [hslot] at hs
      cases hs
      exact h
    | some i =>
      rw [hslot] at hs
      simp only [Option.ite_none_right_eq_some, Option.some.injEq] at hs
      obtain ⟨hfresh, rfl⟩ := hs
      exact h.create hslot (hg i hslot) hfresh
  | bind i ip port =>
    cases hs
    exact h.onSocket i fun s => keep_of_state rfl rfl rfl rfl
  | listen i =>
    cases hs
    exact h.onSocket i fun s => keep_of_state rfl rfl rfl rfl
  | connect i ip port localPort us ms =>
    cases hs
    exact h.onSocket i fun s => keep_of_state rfl rfl rfl rfl
  | close i => exact h.close hg hs
  | closeReturn c =>
    unfold slotStep at hs
    simp only at hs
    split at hs
    · cases hs
    · rename_i s hget
      simp only [Option.ite_none_right_eq_some, Option.some.injEq] at hs
      obtain ⟨⟨hc, -⟩, rfl⟩ := hs
      exact h.release hc hget
  | rx seg us ms =>
    cases hs
    exact h.rx seg us ms
  | timer now =>
    cases hs
    exact h.timer hg

theorem SlotInv.closesOwn {st st' : SlotTable} {op : SlotOp} (h : SlotInv st) (hs : slotStep st op = some st') :
    ClosesOwn st op st' := by
  cases op with
  | closeReturn c =>
    unfold slotStep at hs
    simp only at hs
    split at hs
    · cases hs
    · rename_i s hget
      simp only [Option.ite_none_right_eq_some, Option.some.injEq] at hs
      obtain ⟨⟨hc, -⟩, rfl⟩ := hs
      intro id hne
      refine ⟨fun hin => (inUse_release h hc hget).mpr ⟨hne, hin⟩, ?_⟩
      intro p hp b hb
      have hcount := count_release h hc hget hp hb
      rw [if_neg hne] at hcount
      exact hcount
  | _ => trivial

/-- **Slot ownership** in undisturbed runs: every socket's buffers are freed exactly once,
    when it is neither in use nor being closed any more, and a `tcp_close` that ends leaves
    every other socket alone. -/
theorem tcp_slots_owned (ops : List SlotOp) (hg : Meets slotStep Undisturbed slotInit ops) :
    Always slotStep SlotTable.BuffersKept slotInit ops ∧ AlwaysStep slotStep ClosesOwn slotInit ops := by
  have hinv : Always slotStep SlotInv slotInit ops :=
    always_of_meets (fun _ _ _ h hg hs => h.step hg hs) slotInv_init hg
  exact ⟨hinv.mono fun st h => h.kept, alwaysStep_of_always (fun _ _ _ h _ hs => h.closesOwn hs) hinv hg⟩

theorem tcp_slots_owned_once :
    Always slotStep SlotTable.BuffersKept slotInit [.create 16 32, .close 0, .closeReturn ⟨0, 0⟩] ∧
      AlwaysStep slotStep ClosesOwn slotInit [.create 16 32, .close 0, .closeReturn ⟨0, 0⟩] := by
  have hnone : ∀ {st : SlotTable} {i : Nat}, st.closers = [] → ¬ st.Waits i := by
    rintro st i hnil ⟨c, hc, -⟩
    rw [hnil] at hc
    cases hc
  apply tcp_slots_owned
  intro st hs
  cases hs
  refine ⟨fun i _ => hnone rfl, ?_⟩
  intro st hs
  cases hs
  refine ⟨hnone rfl, ?_⟩
  intro st hs
  exact ⟨trivial, trivial⟩

/-- A segment of the peer at the other end of the socket of `reuse`. -/
def fromPeer (seq : UInt32) (flags : BitVec 8) : TcpSegment :=
  ⟨0x0200000A, 0x0100000A, 80, 49152, seq, 1001, flags, 65535, []⟩

/-- A connection that the peer closes first. The ACK of the FIN arrives, and before the
    process in `tcp_close` looks, a second socket is created. -/
def reuse : List SlotOp :=
  [.create 16 32, .connect 0 0x0200000A 80 49152 1000 1, .rx (fromPeer 5000 (TCP_FLAG_SYN ||| TCP_FLAG_ACK)) 0 2,
    .rx (fromPeer 5001 TCP_FLAG_ACK) 0 3, .rx (fromPeer 5001 (TCP_FLAG_FIN ||| TCP_FLAG_ACK)) 0 4, .close 0,
    .rx (fromPeer 5002 TCP_FLAG_ACK) 0 5, .create 48 64]

/-- The second socket loses its buffers while it is in use, and the first one's are lost. -/
theorem reuse_frees_other :
    ∃ st st', run slotStep slotInit reuse = some st ∧ slotStep st (.closeReturn ⟨0, 0⟩) = some st' ∧
      st.created = [(16, 32), (48, 64)] ∧ st'.freed = [48, 64] ∧ st'.closers = [] ∧
      st.InUse 1 ∧ ¬ st'.InUse 1 ∧ ¬ st'.BuffersKept ∧ ¬ ClosesOwn st (.closeReturn ⟨0, 0⟩) st' := by
  have howner : ∀ (i id : Nat), Function.update (Function.update (fun _ => none) 0 (some 0)) 0 (some 1) i = some id →
      i = 0 ∧ id = 1 := by
    intro i id h
    by_cases hi : i = 0
    · subst hi
      cases h
      exact ⟨rfl, rfl⟩
    · rw [Function.update_of_ne hi, Function.update_of_ne hi] at h
      cases h
  have hgone : ∀ (st : SlotTable) (id : Nat), st.socks[0]?.map TcpSocket.inUse = some false →
      st.owner = Function.update (Function.update (fun _ => none) 0 (some 0)) 0 (some 1) → ¬ st.InUse id := by
    rintro st id hfree hown ⟨j, t, ht, hj, hin⟩
    rw [hown] at hj
    obtain ⟨rfl, -⟩ := howner j id hj
    rw [ht, Option.map_some, hin] at hfree
    cases hfree
  refine ⟨_, _, rfl, rfl, rfl, rfl, rfl, ⟨0, _, rfl, rfl, rfl⟩, hgone _ 1 rfl rfl, ?_, ?_⟩
  · intro h
    have hbufs := (h 0 (16, 32) rfl 16 (by decide)).2 ⟨hgone _ 0 rfl rfl, ?_⟩
    · exact absurd hbufs (by decide)
    · rintro ⟨c, hc, -⟩
      cases hc
  · intro h
    have hkept := (h 1 (by decide)).1 ⟨0, _, rfl, rfl, rfl⟩
    exact hgone _ 1 rfl rfl hkept

end Crimson.Net
