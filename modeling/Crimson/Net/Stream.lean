import Crimson.Lib.Numbered
import Crimson.Lib.Run
import Crimson.Net.Tcp

/-!
# The byte stream of a connection

One direction of a connection: `a` writes, `b` reads. Everything `a` transmits is kept, and
what arrives at `b` is any of it, at any time and any number of times: loss, repetition and
reordering are choices of the run. What arrives at `a` is arbitrary. Both sides may also
use the other direction, close, and be looked at by the timer.

The bytes go through four places: those given to `tcp_send` and not yet queued, the transmit
ring, the segments, the receive ring. The invariant (`StreamInv`) says that the first three
make up what was given, that the segments are a stream numbered by `snd_nxt`, and that what
`b` has got is a beginning of it, with `rcv_nxt` as its length as long as data is taken.
-/

set_option autoImplicit false

namespace Crimson.Net

open Crimson.Lib

structure StreamState where
  a : TcpSocket
  b : TcpSocket
  /-- All that `a` has transmitted, in that order. -/
  fromA : List TcpSegment
  /-- What is left to the running `tcp_send`. -/
  pending : List Byte
  given : List Byte
  returned : List Byte

inductive StreamOp where
  | send (data : List Byte)
  /-- One round of the loop of `tcp_send`. -/
  | round
  /-- A `tcp_recv` of `b` that need not wait (any longer). -/
  | recv (len : Nat)
  /-- A segment of `a` arrives at `b`. -/
  | toB (i us ms : Nat)
  /-- Any segment at all arrives at `a`. -/
  | toA (seg : TcpSegment) (us ms : Nat)
  | sendB (data : List Byte)
  | recvA (len : Nat)
  | closeA
  | closeB
  | timerA (now : Nat)
  | timerB (now : Nat)

namespace StreamState

/-- The socket `a` after a call that returns it with what it sent. -/
def withA (st : StreamState) (out : TcpSocket × List TcpSegment) : StreamState :=
  { st with a := out.1, fromA := st.fromA ++ out.2 }

def withB (st : StreamState) (b : TcpSocket) : StreamState := { st with b := b }

end StreamState

/-- Every `tcp_send_segment` of `a` transmits. -/
def streamStep (st : StreamState) : StreamOp → Option StreamState
  | .send data =>
    if st.a.inUse ∧ st.a.state = .established ∧ st.pending = [] then
      some { st with pending := data, given := st.given ++ data }
    else none
  | .round =>
    if st.pending = [] then none
    else (tcpSendRound st.a st.pending true).map fun out =>
      { st.withA (out.1, out.2.2) with pending := out.2.1 }
  | .recv len =>
    if tcpRecvWaits st.b then none
    else
      let out := tcpRecv st.b len
      some { st.withB out.1 with returned := st.returned ++ out.2.1 }
  | .toB i us ms => st.fromA[i]?.map fun seg => st.withB (deliverTo st.b seg us ms).1
  | .toA seg us ms => some (st.withA (deliverTo st.a seg us ms))
  | .sendB data => (tcpSendRound st.b data true).map fun out => st.withB out.1
  | .recvA len =>
    if tcpRecvWaits st.a then none
    else
      let out := tcpRecv st.a len
      some (st.withA (out.1, out.2.2))
  | .closeA => some (st.withA (tcpCloseStart st.a))
  | .closeB => some (st.withB (tcpCloseStart st.b).1)
  | .timerA now => some (st.withA (tcpTimer st.a now))
  | .timerB now => some (st.withB (tcpTimer st.b now).1)

/-! ## The two rings -/

structure TxOk (s : TcpSocket) : Prop where
  tail : s.txTail < TCP_TX_BUF_SIZE
  head : s.txHead = (s.txTail + s.txCount) % TCP_TX_BUF_SIZE
  count : s.txCount ≤ TCP_TX_BUF_SIZE

structure RxOk (s : TcpSocket) : Prop where
  tail : s.rxTail < TCP_RX_BUF_SIZE
  head : s.rxHead = (s.rxTail + s.rxCount) % TCP_RX_BUF_SIZE
  count : s.rxCount ≤ TCP_RX_BUF_SIZE

/-- The bytes queued in the transmit buffer. -/
def txQueue (s : TcpSocket) : List Byte := ringList s.txCells TCP_TX_BUF_SIZE s.txTail s.txCount

/-- The bytes waiting in the receive buffer. -/
def rxQueue (s : TcpSocket) : List Byte := ringList s.rxCells TCP_RX_BUF_SIZE s.rxTail s.rxCount

/-- Two connected sockets that have not sent anything to each other yet. -/
structure StreamStart (a b : TcpSocket) : Prop where
  establishedA : a.state = .established
  establishedB : b.state = .established
  numbers : a.sndNxt = b.rcvNxt
  txOk : TxOk a
  rxOk : RxOk b
  txEmpty : a.txCount = 0
  rxEmpty : b.rxCount = 0

def streamStart (a b : TcpSocket) : StreamState where
  a := a
  b := b
  fromA := []
  pending := []
  given := []
  returned := []

/-! ## What is left alone -/

/-- The sending half of a socket is unchanged. -/
structure SndSame (s s' : TcpSocket) : Prop where
  sndNxt : s'.sndNxt = s.sndNxt
  cells : s'.txCells = s.txCells
  head : s'.txHead = s.txHead
  tail : s'.txTail = s.txTail
  count : s'.txCount = s.txCount

/-- The receiving half of a socket is unchanged. -/
structure RcvSame (s s' : TcpSocket) : Prop where
  rcvNxt : s'.rcvNxt = s.rcvNxt
  cells : s'.rxCells = s.rxCells
  head : s'.rxHead = s.rxHead
  tail : s'.rxTail = s.rxTail
  count : s'.rxCount = s.rxCount

theorem SndSame.txOk {s s' : TcpSocket} (h : SndSame s s') (hok : TxOk s) : TxOk s' where
  tail := h.tail ▸ hok.tail
  head := by rw [h.head, h.tail, h.count, hok.head]
  count := h.count ▸ hok.count

theorem SndSame.txQueue {s s' : TcpSocket} (h : SndSame s s') : txQueue s' = txQueue s := by
  rw [Net.txQueue, Net.txQueue, h.cells, h.tail, h.count]

theorem RcvSame.rxOk {s s' : TcpSocket} (h : RcvSame s s') (hok : RxOk s) : RxOk s' where
  tail := h.tail ▸ hok.tail
  head := by rw [h.head, h.tail, h.count, hok.head]
  count := h.count ▸ hok.count

theorem RcvSame.rxQueue {s s' : TcpSocket} (h : RcvSame s s') : rxQueue s' = rxQueue s := by
  rw [Net.rxQueue, Net.rxQueue, h.cells, h.tail, h.count]

/-- A side that said nothing new: its sending half is unchanged and its segments are empty. -/
structure Quiet (s : TcpSocket) (out : TcpSocket × List TcpSegment) : Prop where
  same : SndSame s out.1
  empty : ∀ seg ∈ out.2, seg.payload = [] ∧ seg.seq = s.sndNxt
  connected : s.state.connected = true → out.1.state.connected = true

theorem SndSame.refl (s : TcpSocket) : SndSame s s := ⟨rfl, rfl, rfl, rfl, rfl⟩

theorem RcvSame.refl (s : TcpSocket) : RcvSame s s := ⟨rfl, rfl, rfl, rfl, rfl⟩

theorem quiet_nil {s s' : TcpSocket} (h : SndSame s s') (hc : s.state.connected = true → s'.state.connected = true) :
    Quiet s (s', []) :=
  ⟨h, fun _ hmem => absurd hmem List.not_mem_nil, hc⟩

theorem quiet_single {s s' t : TcpSocket} {flags : BitVec 8} (h : SndSame s s')
    (hc : s.state.connected = true → s'.state.connected = true) (ht : t.sndNxt = s.sndNxt) :
    Quiet s (s', [segment t flags []]) := by
  refine ⟨h, ?_, hc⟩
  intro seg hmem
  rw [List.mem_singleton.mp hmem]
  exact ⟨rfl, ht⟩

/-! ## The sender -/

/-- The states that take data: what is received leaves the sending half alone. -/
theorem rxStream_quiet (s : TcpSocket) (seg : TcpSegment) : Quiet s (rxStream s seg) := by
  obtain ⟨una, cc, wnd, hack⟩ := rxAck_eq s seg
  rw [rxStream, hack]
  generalize hr : ({ s with sndUna := una, cc := cc, sndWnd := wnd } : TcpSocket) = r
  have hsame : SndSame s r := hr ▸ ⟨rfl, rfl, rfl, rfl, rfl⟩
  have hstate : r.state = s.state := hr ▸ rfl
  have hdata : Quiet s (rxData r seg) ∧ (rxData r seg).1.state = s.state := by
    unfold rxData
    split
    · refine ⟨quiet_single ⟨hsame.sndNxt, hsame.cells, hsame.head, hsame.tail, hsame.count⟩ ?_ hsame.sndNxt, hstate⟩
      show s.state.connected = true → r.state.connected = true
      rw [hstate]
      exact id
    · refine ⟨quiet_nil hsame ?_, hstate⟩
      rw [hstate]
      exact id
  generalize rxData r seg = d at hdata
  obtain ⟨hd, hds⟩ := hdata
  unfold rxFin
  split
  · refine ⟨⟨hd.same.sndNxt, hd.same.cells, hd.same.head, hd.same.tail, hd.same.count⟩, ?_, ?_⟩
    · intro o ho
      cases List.mem_append.mp ho with
      | inl hold => exact hd.empty o hold
      | inr hnew =>
        rw [List.mem_singleton.mp hnew]
        exact ⟨rfl, hd.same.sndNxt⟩
    · intro hc
      show (finState d.1.state).connected = true
      rw [hds]
      cases hst : s.state with
      | listen | synSent | synReceived =>
        rw [hst] at hc
        cases hc
      | _ => rfl
  · refine ⟨hd.same, ?_, hd.connected⟩
    show ∀ o ∈ d.2 ++ [], _
    rw [List.append_nil]
    exact hd.empty

/-- **Whatever arrives at a connected socket**, it keeps what it has to send. -/
theorem deliverTo_quiet (s : TcpSocket) (seg : TcpSegment) (us ms : Nat) (hc : s.state.connected = true) :
    Quiet s (deliverTo s seg us ms) := by
  unfold deliverTo
  split
  · have hrx : Quiet (s.touch ms) (tcpRxState (s.touch ms) seg us) := by
      have ht : (s.touch ms).state.connected = true := hc
      generalize s.touch ms = t at ht
      cases hst : t.state with
      | listen | synSent | synReceived =>
        rw [hst] at ht
        cases ht
      | established =>
        rw [tcpRxState_stream (Or.inl hst)]
        exact rxStream_quiet t seg
      | finWait1 =>
        rw [tcpRxState_stream (Or.inr (Or.inl hst))]
        exact rxStream_quiet t seg
      | finWait2 =>
        rw [tcpRxState_stream (Or.inr (Or.inr hst))]
        exact rxStream_quiet t seg
      | lastAck =>
        rw [tcpRxState_lastAck hst, rxLastAck]
        split
        · exact quiet_nil ⟨rfl, rfl, rfl, rfl, rfl⟩ fun _ => rfl
        · exact quiet_nil (SndSame.refl t) id
      | closing =>
        rw [tcpRxState_closing hst, rxClosing]
        split
        · exact quiet_nil ⟨rfl, rfl, rfl, rfl, rfl⟩ fun _ => rfl
        · exact quiet_nil (SndSame.refl t) id
      | closed =>
        rw [tcpRxState_idle (Or.inl hst)]
        exact quiet_nil (SndSame.refl t) id
      | closeWait =>
        rw [tcpRxState_idle (Or.inr (Or.inl hst))]
        exact quiet_nil (SndSame.refl t) id
      | timeWait =>
        rw [tcpRxState_idle (Or.inr (Or.inr hst))]
        exact quiet_nil (SndSame.refl t) id
    exact ⟨⟨hrx.same.sndNxt, hrx.same.cells, hrx.same.head, hrx.same.tail, hrx.same.count⟩, hrx.empty, hrx.connected⟩
  · exact quiet_nil (SndSame.refl s) id

theorem tcpCloseStart_quiet (s : TcpSocket) : Quiet s (tcpCloseStart s) := by
  unfold tcpCloseStart
  split
  · exact quiet_single ⟨rfl, rfl, rfl, rfl, rfl⟩ (fun _ => rfl) rfl
  · exact quiet_single ⟨rfl, rfl, rfl, rfl, rfl⟩ (fun _ => rfl) rfl
  · exact quiet_nil (SndSame.refl s) id

theorem tcpRecv_quiet (s : TcpSocket) (len : Nat) : Quiet s ((tcpRecv s len).1, (tcpRecv s len).2.2) := by
  unfold tcpRecv
  simp only
  split
  · exact quiet_single ⟨rfl, rfl, rfl, rfl, rfl⟩ id rfl
  · exact quiet_nil ⟨rfl, rfl, rfl, rfl, rfl⟩ id

theorem timerKeepAlive_quiet (s : TcpSocket) (now : Nat) : Quiet s (timerKeepAlive s now) := by
  unfold timerKeepAlive
  split
  · simp only
    split
    · exact quiet_single ⟨rfl, rfl, rfl, rfl, rfl⟩ (fun _ => rfl) rfl
    · exact quiet_single ⟨rfl, rfl, rfl, rfl, rfl⟩ id rfl
  · exact quiet_nil (SndSame.refl s) id

theorem tcpTimer_quiet (s : TcpSocket) (now : Nat) : Quiet s (tcpTimer s now) := by
  unfold tcpTimer
  split
  · obtain ⟨cc, hcc⟩ := timerRetransmit_eq s now
    rw [hcc]
    have hkeep := timerKeepAlive_quiet { s with cc := cc } now
    generalize timerKeepAlive { s with cc := cc } now = out at hkeep
    have hout : Quiet s out :=
      ⟨⟨hkeep.same.sndNxt, hkeep.same.cells, hkeep.same.head, hkeep.same.tail, hkeep.same.count⟩, hkeep.empty,
        hkeep.connected⟩
    cases timerTimeWait_eq out.1 now with
    | inl hsame =>
      show Quiet s (timerTimeWait out.1 now, out.2)
      rw [hsame]
      exact hout
    | inr hend =>
      show Quiet s (timerTimeWait out.1 now, out.2)
      rw [hend.2]
      exact ⟨⟨hout.same.sndNxt, hout.same.cells, hout.same.head, hout.same.tail, hout.same.count⟩, hout.empty,
        fun _ => rfl⟩
  · exact quiet_nil (SndSame.refl s) id

/-- Bytes that fit are appended to the transmit queue. -/
theorem queueData_spec {s : TcpSocket} {data : List Byte} (h : TxOk s) (hroom : s.txCount + data.length ≤ TCP_TX_BUF_SIZE) :
    TxOk (queueData s data) ∧ txQueue (queueData s data) = txQueue s ++ data := by
  have hpos : 0 < TCP_TX_BUF_SIZE := by decide
  have hsize : TCP_TX_BUF_SIZE < 2 ^ 32 := by decide
  have hcount : (s.txCount + data.length) % 2 ^ 32 = s.txCount + data.length := Nat.mod_eq_of_lt (by omega)
  have hlt : s.txHead < TCP_TX_BUF_SIZE := by
    rw [h.head]
    exact Nat.mod_lt _ hpos
  refine ⟨⟨h.tail, ?_, ?_⟩, ?_⟩
  · show (ringPut TCP_TX_BUF_SIZE s.txCells s.txHead data).2 = _
    rw [ringPut_snd hlt, h.head, Nat.mod_add_mod]
    show _ = (s.txTail + (s.txCount + data.length) % 2 ^ 32) % TCP_TX_BUF_SIZE
    rw [hcount, Nat.add_assoc]
  · show (s.txCount + data.length) % 2 ^ 32 ≤ _
    rw [hcount]
    exact hroom
  · show ringList (ringPut TCP_TX_BUF_SIZE s.txCells s.txHead data).1 TCP_TX_BUF_SIZE s.txTail _ = _
    rw [h.head]
    show ringList _ _ _ ((s.txCount + data.length) % 2 ^ 32) = _
    rw [hcount]
    exact ringList_ringPut hpos hroom

/-- The bytes sent leave the front of the transmit queue. -/
theorem sendQueued_spec {s : TcpSocket} {n : Nat} (h : TxOk s) (hn : n ≤ s.txCount) :
    TxOk (sendQueued s n true).1 ∧
      ∃ seg, (sendQueued s n true).2 = [seg] ∧ seg.seq = s.sndNxt ∧ txQueue s = seg.payload ++ txQueue (sendQueued s n true).1 ∧
        (sendQueued s n true).1.sndNxt = s.sndNxt + UInt32.ofNat seg.payload.length := by
  have hcount : (s.txCount + 2 ^ 32 - n) % 2 ^ 32 = s.txCount - n := by
    have hle := h.count
    have hsize : TCP_TX_BUF_SIZE < 2 ^ 32 := by decide
    omega
  refine ⟨⟨Nat.mod_lt _ (by decide), ?_, ?_⟩, _, rfl, rfl, ?_, rfl⟩
  · show s.txHead = ((s.txTail + n) % TCP_TX_BUF_SIZE + (s.txCount + 2 ^ 32 - n) % 2 ^ 32) % TCP_TX_BUF_SIZE
    rw [hcount, Nat.mod_add_mod, Nat.add_assoc, Nat.add_sub_cancel' hn]
    exact h.head
  · show (s.txCount + 2 ^ 32 - n) % 2 ^ 32 ≤ _
    rw [hcount]
    exact (Nat.sub_le _ _).trans h.count
  · show ringList s.txCells TCP_TX_BUF_SIZE s.txTail s.txCount =
      ringList s.txCells TCP_TX_BUF_SIZE s.txTail n ++
        ringList s.txCells TCP_TX_BUF_SIZE ((s.txTail + n) % TCP_TX_BUF_SIZE) ((s.txCount + 2 ^ 32 - n) % 2 ^ 32)
    rw [hcount, ← ringList_add, Nat.add_sub_cancel' hn]

/-- One round of `tcp_send`: the bytes given, queued and sent are the same stream. -/
structure SendRound (s : TcpSocket) (data : List Byte) (out : TcpSocket × List Byte × List TcpSegment) : Prop where
  ok : TxOk out.1
  stream : txQueue s ++ data = streamOf TcpSegment.payload out.2.2 ++ txQueue out.1 ++ out.2.1
  next : out.1.sndNxt = s.sndNxt + UInt32.ofNat (streamOf TcpSegment.payload out.2.2).length
  segs : out.2.2 = [] ∨ ∃ seg, out.2.2 = [seg] ∧ seg.seq = s.sndNxt

theorem tcpSendRound_spec {s : TcpSocket} {data : List Byte} {out : TcpSocket × List Byte × List TcpSegment}
    (h : TxOk s) (hr : tcpSendRound s data true = some out) : SendRound s data out := by
  have hspace : txSpace s = TCP_TX_BUF_SIZE - s.txCount := by
    have hle := h.count
    have hsize : TCP_TX_BUF_SIZE < 2 ^ 32 := by decide
    rw [txSpace]
    omega
  unfold tcpSendRound at hr
  simp only at hr
  split at hr
  · cases hr
  · generalize hc : min data.length (txSpace s) = c at hr
    have hlen : (data.take c).length = c := by
      rw [List.length_take]
      omega
    have hroom : s.txCount + (data.take c).length ≤ TCP_TX_BUF_SIZE := by
      have hle := h.count
      rw [hlen]
      omega
    obtain ⟨hok, hqueue⟩ := queueData_spec h hroom
    have hsnd : (queueData s (data.take c)).sndNxt = s.sndNxt := rfl
    have hdata : txQueue s ++ data = txQueue (queueData s (data.take c)) ++ data.drop c := by
      rw [hqueue, List.append_assoc, List.take_append_drop]
    generalize queueData s (data.take c) = q at hr hok hsnd hdata
    have hkept : SendRound s data (q, data.drop c, []) := by
      refine ⟨hok, hdata, ?_, Or.inl rfl⟩
      rw [streamOf_nil, List.length_nil, hsnd]
      exact (UInt32.add_zero _).symm
    split at hr
    · split at hr
      · simp only [Option.some.injEq] at hr
        subst hr
        have hn : sendPayload q ≤ q.txCount := (Nat.min_le_left _ _).trans (Nat.min_le_left _ _)
        obtain ⟨hok', seg, hseg, hseq, hsplit, hnext⟩ := sendQueued_spec hok hn
        refine ⟨hok', ?_, ?_, Or.inr ⟨seg, hseg, hseq.trans hsnd⟩⟩
        · show _ = streamOf TcpSegment.payload (sendQueued q (sendPayload q) true).2 ++ _ ++ _
          rw [hseg, streamOf_singleton, ← hsplit]
          exact hdata
        · show (sendQueued q (sendPayload q) true).1.sndNxt = _
          rw [hnext, hsnd]
          show _ = s.sndNxt + UInt32.ofNat (streamOf TcpSegment.payload (sendQueued q (sendPayload q) true).2).length
          rw [hseg, streamOf_singleton]
      · simp only [Option.some.injEq] at hr
        exact hr ▸ hkept
    · simp only [Option.some.injEq] at hr
      exact hr ▸ hkept

/-! ## The receiver -/

/-- Bytes read leave the front of the receive queue. -/
theorem tcpRecv_spec {s : TcpSocket} (len : Nat) (h : RxOk s) :
    RxOk (tcpRecv s len).1 ∧ rxQueue s = (tcpRecv s len).2.1 ++ rxQueue (tcpRecv s len).1 ∧
      (tcpRecv s len).2.1.length = min len s.rxCount := by
  have hn : min len s.rxCount ≤ s.rxCount := Nat.min_le_right _ _
  have hgot : (tcpRecv s len).2.1 = ringList s.rxCells TCP_RX_BUF_SIZE s.rxTail (min len s.rxCount) :=
    congrArg Prod.fst (ringGet_eq h.tail)
  have htail : (tcpRecv s len).1.rxTail = (s.rxTail + min len s.rxCount) % TCP_RX_BUF_SIZE :=
    congrArg Prod.snd (ringGet_eq h.tail)
  have hqueue : rxQueue (tcpRecv s len).1 = ringList s.rxCells TCP_RX_BUF_SIZE ((s.rxTail + min len s.rxCount) % TCP_RX_BUF_SIZE)
      (s.rxCount - min len s.rxCount) := by
    rw [← htail]
    rfl
  rw [hgot, hqueue]
  refine ⟨⟨?_, ?_, (Nat.sub_le _ _).trans h.count⟩, ?_, length_ringList⟩
  · rw [htail]
    exact Nat.mod_lt _ (by decide)
  · rw [htail]
    show s.rxHead = (_ + (s.rxCount - min len s.rxCount)) % TCP_RX_BUF_SIZE
    rw [Nat.mod_add_mod, Nat.add_assoc, Nat.add_sub_cancel' hn]
    exact h.head
  · rw [← ringList_add, Nat.add_sub_cancel' hn]
    rfl

/-- The bytes of a segment that the socket `s` takes when it arrives. -/
def accepts (s : TcpSocket) (seg : TcpSegment) : Nat :=
  if tcpMatches seg s ∧ s.state.takesData = true then rxAccepted s seg else 0

/-- Whether the socket `s` counts the FIN of a segment that arrives. -/
def acceptsFin (s : TcpSocket) (seg : TcpSegment) : Bool :=
  tcpMatches seg s && s.state.takesData && seg.has TCP_FLAG_FIN

/-- What a segment does to the receiving half. -/
structure Received (s : TcpSocket) (seg : TcpSegment) (s' : TcpSocket) : Prop where
  ok : RxOk s'
  queue : rxQueue s' = rxQueue s ++ seg.payload.take (accepts s seg)
  next : s'.rcvNxt = s.rcvNxt + UInt32.ofNat (accepts s seg) + if acceptsFin s seg then 1 else 0
  takes : s'.state.takesData = (s.state.takesData && !acceptsFin s seg)
  connected : s'.state.connected = true

theorem rxAccepted_le {s : TcpSocket} (seg : TcpSegment) (h : RxOk s) :
    s.rxCount + rxAccepted s seg ≤ TCP_RX_BUF_SIZE ∧ rxAccepted s seg ≤ seg.payload.length := by
  have hspace : rxSpace s = TCP_RX_BUF_SIZE - s.rxCount := by
    have hle := h.count
    have hsize : TCP_RX_BUF_SIZE < 2 ^ 32 := by decide
    rw [rxSpace]
    omega
  have hle := h.count
  unfold rxAccepted
  split <;> omega

/-- The payload goes to the end of the receive queue, as far as it fits. -/
theorem rxData_spec {s : TcpSocket} (seg : TcpSegment) (h : RxOk s) :
    RxOk (rxData s seg).1 ∧ rxQueue (rxData s seg).1 = rxQueue s ++ seg.payload.take (rxAccepted s seg) ∧
      (rxData s seg).1.rcvNxt = s.rcvNxt + UInt32.ofNat (rxAccepted s seg) ∧ (rxData s seg).1.state = s.state := by
  have hroom := rxAccepted_le seg h
  have hzero : ¬ (0 < seg.payload.length ∧ seg.seq = s.rcvNxt) → rxAccepted s seg = 0 := fun hno => if_neg hno
  unfold rxData
  split
  · generalize rxAccepted s seg = n at hroom
    have hlen : (seg.payload.take n).length = n := by
      rw [List.length_take]
      omega
    have hpos : 0 < TCP_RX_BUF_SIZE := by decide
    have hsize : TCP_RX_BUF_SIZE < 2 ^ 32 := by decide
    have hcount : (s.rxCount + n) % 2 ^ 32 = s.rxCount + n := Nat.mod_eq_of_lt (by omega)
    have hlt : s.rxHead < TCP_RX_BUF_SIZE := by
      rw [h.head]
      exact Nat.mod_lt _ hpos
    refine ⟨⟨h.tail, ?_, ?_⟩, ?_, rfl, rfl⟩
    · show (ringPut TCP_RX_BUF_SIZE s.rxCells s.rxHead (seg.payload.take n)).2 =
        (s.rxTail + (s.rxCount + n) % 2 ^ 32) % TCP_RX_BUF_SIZE
      rw [ringPut_snd hlt, hlen, hcount, h.head, Nat.mod_add_mod, Nat.add_assoc]
    · show (s.rxCount + n) % 2 ^ 32 ≤ _
      rw [hcount]
      exact hroom.1
    · show ringList (ringPut TCP_RX_BUF_SIZE s.rxCells s.rxHead (seg.payload.take n)).1 TCP_RX_BUF_SIZE s.rxTail
        ((s.rxCount + n) % 2 ^ 32) = _
      rw [hcount, h.head]
      have hfit : s.rxCount + (seg.payload.take n).length ≤ TCP_RX_BUF_SIZE := by
        rw [hlen]
        exact hroom.1
      have hsum : s.rxCount + n = s.rxCount + (seg.payload.take n).length := by rw [hlen]
      rw [hsum]
      exact ringList_ringPut hpos hfit
  · rename_i hno
    rw [hzero hno, List.take_zero, List.append_nil]
    exact ⟨h, rfl, (UInt32.add_zero _).symm, rfl⟩

theorem rxStream_received {s : TcpSocket} (seg : TcpSegment) (h : RxOk s) (ht : s.state.takesData = true) :
    RxOk (rxStream s seg).1 ∧ rxQueue (rxStream s seg).1 = rxQueue s ++ seg.payload.take (rxAccepted s seg) ∧
      (rxStream s seg).1.rcvNxt = s.rcvNxt + UInt32.ofNat (rxAccepted s seg) + (if seg.has TCP_FLAG_FIN then 1 else 0) ∧
      (rxStream s seg).1.state.takesData = (s.state.takesData && !seg.has TCP_FLAG_FIN) ∧
      (rxStream s seg).1.state.connected = true := by
  obtain ⟨una, cc, wnd, hack⟩ := rxAck_eq s seg
  have hconn : s.state.connected = true := by
    cases hst : s.state with
    | listen | synSent | synReceived =>
      rw [hst] at ht
      cases ht
    | _ => rfl
  have hok : RxOk (rxAck s seg) := by
    rw [hack]
    exact ⟨h.tail, h.head, h.count⟩
  obtain ⟨hrx, hqueue, hnext, hstate⟩ := rxData_spec seg hok
  have hsame : rxQueue (rxAck s seg) = rxQueue s ∧ (rxAck s seg).rcvNxt = s.rcvNxt ∧ (rxAck s seg).state = s.state ∧
      rxAccepted (rxAck s seg) seg = rxAccepted s seg := by
    rw [hack]
    exact ⟨rfl, rfl, rfl, rfl⟩
  rw [hsame.1, hsame.2.2.2] at hqueue
  rw [hsame.2.1, hsame.2.2.2] at hnext
  rw [hsame.2.2.1] at hstate
  unfold rxStream rxFin
  generalize rxData (rxAck s seg) seg = d at hrx hqueue hnext hstate
  cases hfin : seg.has TCP_FLAG_FIN with
  | true =>
    refine ⟨⟨hrx.tail, hrx.head, hrx.count⟩, hqueue, ?_, ?_, ?_⟩
    · show d.1.rcvNxt + 1 = _
      rw [hnext]
      rfl
    · show (finState d.1.state).takesData = _
      rw [hstate, Bool.not_true, Bool.and_false]
      cases hst : s.state with
      | established | finWait1 | finWait2 => rfl
      | _ =>
        rw [hst] at ht
        cases ht
    · show (finState d.1.state).connected = true
      rw [hstate]
      cases hst : s.state with
      | established | finWait1 | finWait2 => rfl
      | _ =>
        rw [hst] at ht
        cases ht
  | false =>
    refine ⟨hrx, hqueue, ?_, ?_, ?_⟩
    · show d.1.rcvNxt = _
      rw [hnext]
      exact (UInt32.add_zero _).symm
    · show d.1.state.takesData = _
      rw [hstate, Bool.not_false, Bool.and_true]
    · show d.1.state.connected = true
      rw [hstate]
      exact hconn

/-- A socket that does not look at the payload keeps its receiving half. -/
theorem received_none {s s' : TcpSocket} {seg : TcpSegment} (h : RcvSame s s') (hok : RxOk s)
    (hno : tcpMatches seg s = false ∨ s.state.takesData = false) (ht : s'.state.takesData = s.state.takesData)
    (hc : s'.state.connected = true) : Received s seg s' := by
  have hacc : accepts s seg = 0 := by
    rw [accepts, if_neg]
    rintro ⟨hm, htake⟩
    cases hno with
    | inl h =>
      rw [h] at hm
      cases hm
    | inr h =>
      rw [h] at htake
      cases htake
  have hfin : acceptsFin s seg = false := by
    cases hno with
    | inl h => rw [acceptsFin, h, Bool.false_and, Bool.false_and]
    | inr h => rw [acceptsFin, h, Bool.and_false, Bool.false_and]
  refine ⟨h.rxOk hok, ?_, ?_, ?_, hc⟩
  · rw [hacc, List.take_zero, List.append_nil, h.rxQueue]
  · rw [hacc, hfin, h.rcvNxt]
    exact ((UInt32.add_zero _).trans (UInt32.add_zero _)).symm
  · rw [hfin, ht, Bool.not_false, Bool.and_true]

/-- **Whatever arrives at a connected socket**: the bytes it accepts go to the end of its
    queue, and `rcv_nxt` counts them and the FIN. -/
theorem deliverTo_received {s : TcpSocket} (seg : TcpSegment) (us ms : Nat) (h : RxOk s) (hc : s.state.connected = true) :
    Received s seg (deliverTo s seg us ms).1 := by
  unfold deliverTo
  split
  · rename_i hm
    cases htake : s.state.takesData with
    | true =>
      have hstream : tcpRxState (s.touch ms) seg us = rxStream (s.touch ms) seg := by
        apply tcpRxState_stream
        show s.state = _ ∨ s.state = _ ∨ s.state = _
        cases hst : s.state with
        | established => exact Or.inl rfl
        | finWait1 => exact Or.inr (Or.inl rfl)
        | finWait2 => exact Or.inr (Or.inr rfl)
        | _ =>
          rw [hst] at htake
          cases htake
      have hacc : accepts s seg = rxAccepted s seg := if_pos ⟨hm, htake⟩
      have hfin : acceptsFin s seg = seg.has TCP_FLAG_FIN := by rw [acceptsFin, hm, htake, Bool.true_and, Bool.true_and]
      obtain ⟨hok, hqueue, hnext, htakes, hconn⟩ := @rxStream_received (s.touch ms) seg ⟨h.tail, h.head, h.count⟩ htake
      rw [tcpRxSocket, hstream]
      refine ⟨hok, ?_, ?_, ?_, hconn⟩
      · rw [hacc]
        exact hqueue
      · rw [hacc, hfin]
        exact hnext
      · rw [hfin]
        exact htakes
    | false =>
      -- in the states that take no data the state machine moves on, and the receiving half stays
      have hquiet : ∀ t : TcpSocket, RcvSame s t → t.state.takesData = false → t.state.connected = true →
          Received s seg t := fun t hsame ht hconn => received_none hsame h (Or.inr htake) (ht.trans htake.symm) hconn
      show Received s seg (tcpRxState (s.touch ms) seg us).1
      have hsame : RcvSame s (s.touch ms) := ⟨rfl, rfl, rfl, rfl, rfl⟩
      have hstate : (s.touch ms).state = s.state := rfl
      generalize s.touch ms = t at hsame hstate
      cases hst : s.state with
      | listen | synSent | synReceived =>
        rw [hst] at hc
        cases hc
      | established | finWait1 | finWait2 =>
        rw [hst] at htake
        cases htake
      | lastAck =>
        rw [tcpRxState_lastAck (hstate.trans hst), rxLastAck]
        split
        · exact hquiet _ ⟨hsame.rcvNxt, hsame.cells, hsame.head, hsame.tail, hsame.count⟩ rfl rfl
        · exact hquiet _ hsame (by rw [hstate, hst]; rfl) (by rw [hstate, hst]; rfl)
      | closing =>
        rw [tcpRxState_closing (hstate.trans hst), rxClosing]
        split
        · exact hquiet _ ⟨hsame.rcvNxt, hsame.cells, hsame.head, hsame.tail, hsame.count⟩ rfl rfl
        · exact hquiet _ hsame (by rw [hstate, hst]; rfl) (by rw [hstate, hst]; rfl)
      | closed =>
        rw [tcpRxState_idle (Or.inl (hstate.trans hst))]
        exact hquiet _ hsame (by rw [hstate, hst]; rfl) (by rw [hstate, hst]; rfl)
      | closeWait =>
        rw [tcpRxState_idle (Or.inr (Or.inl (hstate.trans hst)))]
        exact hquiet _ hsame (by rw [hstate, hst]; rfl) (by rw [hstate, hst]; rfl)
      | timeWait =>
        rw [tcpRxState_idle (Or.inr (Or.inr (hstate.trans hst)))]
        exact hquiet _ hsame (by rw [hstate, hst]; rfl) (by rw [hstate, hst]; rfl)
  · rename_i hm
    apply received_none (RcvSame.refl s) h (Or.inl _) rfl hc
    exact eq_false_of_ne_true hm

/-- A step that leaves the receiving half alone and begins to take no data. -/
structure RcvIdle (s s' : TcpSocket) : Prop where
  same : RcvSame s s'
  takes : s'.state.takesData = true → s.state.takesData = true
  connected : s.state.connected = true → s'.state.connected = true

theorem RcvIdle.trans {s t u : TcpSocket} (h : RcvIdle s t) (h' : RcvIdle t u) : RcvIdle s u where
  same := ⟨h'.same.rcvNxt.trans h.same.rcvNxt, h'.same.cells.trans h.same.cells, h'.same.head.trans h.same.head,
    h'.same.tail.trans h.same.tail, h'.same.count.trans h.same.count⟩
  takes := fun ht => h.takes (h'.takes ht)
  connected := fun hc => h'.connected (h.connected hc)

theorem queueData_idle (s : TcpSocket) (data : List Byte) : RcvIdle s (queueData s data) :=
  ⟨⟨rfl, rfl, rfl, rfl, rfl⟩, id, id⟩

theorem sendQueued_idle (s : TcpSocket) (n : Nat) (sent : Bool) : RcvIdle s (sendQueued s n sent).1 := by
  cases sent with
  | true => exact ⟨⟨rfl, rfl, rfl, rfl, rfl⟩, id, id⟩
  | false => exact ⟨⟨rfl, rfl, rfl, rfl, rfl⟩, id, id⟩

theorem tcpSendRound_idle {s : TcpSocket} {data : List Byte} {sent : Bool}
    {out : TcpSocket × List Byte × List TcpSegment} (hr : tcpSendRound s data sent = some out) : RcvIdle s out.1 := by
  unfold tcpSendRound at hr
  simp only at hr
  split at hr
  · cases hr
  · have hq := queueData_idle s (data.take (min data.length (txSpace s)))
    generalize queueData s (data.take (min data.length (txSpace s))) = q at hr hq
    split at hr
    · split at hr
      · simp only [Option.some.injEq] at hr
        subst hr
        exact hq.trans (sendQueued_idle q _ sent)
      · simp only [Option.some.injEq] at hr
        subst hr
        exact hq
    · simp only [Option.some.injEq] at hr
      subst hr
      exact hq

theorem tcpCloseStart_idle (s : TcpSocket) : RcvIdle s (tcpCloseStart s).1 := by
  unfold tcpCloseStart
  split
  · rename_i h
    exact ⟨⟨rfl, rfl, rfl, rfl, rfl⟩, fun _ => by rw [h]; rfl, fun _ => rfl⟩
  · rename_i h
    refine ⟨⟨rfl, rfl, rfl, rfl, rfl⟩, fun ht => ?_, fun _ => rfl⟩
    cases ht
  · exact ⟨RcvSame.refl s, id, id⟩

theorem timerKeepAlive_idle (s : TcpSocket) (now : Nat) : RcvIdle s (timerKeepAlive s now).1 := by
  unfold timerKeepAlive
  split
  · simp only
    split
    · refine ⟨⟨rfl, rfl, rfl, rfl, rfl⟩, fun ht => ?_, fun _ => rfl⟩
      cases ht
    · exact ⟨⟨rfl, rfl, rfl, rfl, rfl⟩, id, id⟩
  · exact ⟨RcvSame.refl s, id, id⟩

theorem tcpTimer_idle (s : TcpSocket) (now : Nat) : RcvIdle s (tcpTimer s now).1 := by
  unfold tcpTimer
  split
  · obtain ⟨cc, hcc⟩ := timerRetransmit_eq s now
    rw [hcc]
    have hkeep := timerKeepAlive_idle { s with cc := cc } now
    generalize timerKeepAlive { s with cc := cc } now = out at hkeep
    have hout : RcvIdle s out.1 :=
      ⟨⟨hkeep.same.rcvNxt, hkeep.same.cells, hkeep.same.head, hkeep.same.tail, hkeep.same.count⟩, hkeep.takes,
        hkeep.connected⟩
    show RcvIdle s (timerTimeWait out.1 now)
    cases timerTimeWait_eq out.1 now with
    | inl hsame =>
      rw [hsame]
      exact hout
    | inr hend =>
      rw [hend.2]
      refine ⟨⟨hout.same.rcvNxt, hout.same.cells, hout.same.head, hout.same.tail, hout.same.count⟩, fun ht => ?_,
        fun _ => rfl⟩
      cases ht
  · exact ⟨RcvSame.refl s, id, id⟩

/-! ## The invariant -/

/-- What `a` has transmitted. -/
def StreamState.transmitted (st : StreamState) : List Byte := streamOf TcpSegment.payload st.fromA

/-- What `b` has got. -/
def StreamState.received (st : StreamState) : List Byte := st.returned ++ rxQueue st.b

/-- What `a` had transmitted before its segment `i`. -/
def StreamState.before (st : StreamState) (i : Nat) : List Byte := streamBefore TcpSegment.payload st.fromA i

/-- The sequence number of a place in the stream that starts with the number `base`. -/
def seqAt (base : UInt32) (n : Nat) : UInt32 := base + UInt32.ofNat n

theorem seqAt_add (base : UInt32) (m n : Nat) : seqAt base (m + n) = seqAt base m + UInt32.ofNat n := by
  rw [seqAt, seqAt, UInt32.ofNat_add, UInt32.add_assoc]

/-- Places less than a round of the numbers apart have different numbers. -/
theorem seqAt_inj {base : UInt32} {m n : Nat} (hm : m < 2 ^ 32) (hn : n < 2 ^ 32) (h : seqAt base m = seqAt base n) :
    m = n := by
  have hof : UInt32.ofNat m = UInt32.ofNat n := (UInt32.add_right_inj base).mp h
  have hnat := congrArg UInt32.toNat hof
  rw [UInt32.toNat_ofNat', UInt32.toNat_ofNat', Nat.mod_eq_of_lt hm, Nat.mod_eq_of_lt hn] at hnat
  exact hnat

structure StreamInv (base : UInt32) (st : StreamState) : Prop where
  txOk : TxOk st.a
  given : st.given = st.transmitted ++ txQueue st.a ++ st.pending
  sndNxt : st.a.sndNxt = seqAt base st.transmitted.length
  numbered : Numbered TcpSegment.payload TcpSegment.seq (seqAt base) st.fromA
  connectedA : st.a.state.connected = true
  rxOk : RxOk st.b
  got : st.received <+: st.transmitted
  rcvNxt : st.b.state.takesData = true → st.b.rcvNxt = seqAt base st.received.length
  connectedB : st.b.state.connected = true

theorem streamInv_start {a b : TcpSocket} (h : StreamStart a b) : StreamInv a.sndNxt (streamStart a b) where
  txOk := h.txOk
  given := by
    show [] = [] ++ txQueue a ++ []
    rw [txQueue, h.txEmpty]
    rfl
  sndNxt := (UInt32.add_zero _).symm
  numbered := numbered_nil
  connectedA := by
    rw [streamStart, h.establishedA]
    rfl
  rxOk := h.rxOk
  got := by
    show [] ++ rxQueue b <+: _
    rw [rxQueue, h.rxEmpty]
    exact List.nil_prefix
  rcvNxt := by
    intro _
    show b.rcvNxt = seqAt a.sndNxt ([] ++ rxQueue b).length
    rw [rxQueue, h.rxEmpty, h.numbers]
    exact (UInt32.add_zero _).symm
  connectedB := by
    rw [streamStart, h.establishedB]
    rfl

/-- A step of the sender that says nothing new. -/
theorem StreamInv.quiet {base : UInt32} {st : StreamState} {out : TcpSocket × List TcpSegment} (h : StreamInv base st)
    (hq : Quiet st.a out) : StreamInv base (st.withA out) := by
  have hempty : ∀ seg ∈ out.2, seg.payload = [] ∧ seg.seq = seqAt base (streamOf TcpSegment.payload st.fromA).length :=
    fun seg hseg => ⟨(hq.empty seg hseg).1, (hq.empty seg hseg).2.trans h.sndNxt⟩
  obtain ⟨hnum, hsame⟩ := h.numbered.append_empty hempty
  have htrans : (st.withA out).transmitted = st.transmitted := hsame
  refine ⟨hq.same.txOk h.txOk, ?_, ?_, hnum, hq.connected h.connectedA, h.rxOk, ?_, h.rcvNxt, h.connectedB⟩
  · show st.given = (st.withA out).transmitted ++ txQueue out.1 ++ st.pending
    rw [htrans, hq.same.txQueue]
    exact h.given
  · show out.1.sndNxt = _
    rw [htrans, hq.same.sndNxt]
    exact h.sndNxt
  · rw [htrans]
    exact h.got

/-- A step of the receiver that takes nothing. -/
theorem StreamInv.idle {base : UInt32} {st : StreamState} {b : TcpSocket} (h : StreamInv base st)
    (hi : RcvIdle st.b b) : StreamInv base (st.withB b) := by
  have hrec : (st.withB b).received = st.received := by
    show st.returned ++ rxQueue b = _
    rw [hi.same.rxQueue]
    rfl
  refine ⟨h.txOk, h.given, h.sndNxt, h.numbered, h.connectedA, hi.same.rxOk h.rxOk, ?_, ?_, hi.connected h.connectedB⟩
  · rw [hrec]
    exact h.got
  · intro ht
    rw [hrec]
    exact hi.same.rcvNxt.trans (h.rcvNxt (hi.takes ht))

/-- A step of the receiver on data of the stream. -/
theorem StreamInv.take {base : UInt32} {st : StreamState} {b : TcpSocket} {i : Nat} {seg : TcpSegment}
    (h : StreamInv base st) (hseg : st.fromA[i]? = some seg) (hrec : Received st.b seg b)
    (hplace : 0 < accepts st.b seg → (st.before i).length = st.received.length) :
    StreamInv base (st.withB b) ∧ (st.withB b).received = st.received ++ seg.payload.take (accepts st.b seg) := by
  have hgot : (st.withB b).received = st.received ++ seg.payload.take (accepts st.b seg) := by
    show st.returned ++ rxQueue b = _
    rw [hrec.queue, ← List.append_assoc]
    rfl
  refine ⟨⟨h.txOk, h.given, h.sndNxt, h.numbered, h.connectedA, hrec.ok, ?_, ?_, hrec.connected⟩, hgot⟩
  · rw [hgot]
    cases Nat.eq_zero_or_pos (accepts st.b seg) with
    | inl hzero =>
      rw [hzero, List.take_zero, List.append_nil]
      exact h.got
    | inr hpos => exact prefix_accept hseg h.got (hplace hpos) _
  · intro ht
    have htakes : st.b.state.takesData = true ∧ acceptsFin st.b seg = false := by
      have hboth := hrec.takes.symm.trans ht
      rw [Bool.and_eq_true, Bool.not_eq_true'] at hboth
      exact hboth
    have hlen : (seg.payload.take (accepts st.b seg)).length = accepts st.b seg := by
      have hle : accepts st.b seg ≤ seg.payload.length := by
        unfold accepts
        split
        · exact (rxAccepted_le seg h.rxOk).2
        · exact Nat.zero_le _
      rw [List.length_take, Nat.min_eq_left hle]
    show b.rcvNxt = _
    rw [hrec.next, htakes.2, h.rcvNxt htakes.1, hgot, List.length_append, hlen, seqAt_add]
    exact UInt32.add_zero _

/-- What arrives at `b` is taken only where it belongs in the stream. -/
def InPlace (st : StreamState) : StreamOp → Prop
  | .toB i _ _ => ∀ seg, st.fromA[i]? = some seg → 0 < accepts st.b seg → (st.before i).length = st.received.length
  | _ => True

/-- **Every step keeps the stream**, as long as data is taken in its place. -/
theorem StreamInv.step {base : UInt32} {st st' : StreamState} {op : StreamOp} (h : StreamInv base st)
    (hplace : InPlace st op) (hs : streamStep st op = some st') : StreamInv base st' := by
  cases op with
  | send data =>
    simp only [streamStep, Option.ite_none_right_eq_some, Option.some.injEq] at hs
    obtain ⟨⟨-, -, hidle⟩, rfl⟩ := hs
    -- the call before it has nothing left to queue, so the new data comes behind all the other
    refine ⟨h.txOk, ?_, h.sndNxt, h.numbered, h.connectedA, h.rxOk, h.got, h.rcvNxt, h.connectedB⟩
    show st.given ++ data = st.transmitted ++ txQueue st.a ++ data
    rw [h.given, hidle, List.append_nil]
  | round =>
    simp only [streamStep, Option.ite_none_left_eq_some, Option.map_eq_some_iff] at hs
    obtain ⟨-, out, hr, rfl⟩ := hs
    have hround := tcpSendRound_spec h.txOk hr
    have htrans : streamOf TcpSegment.payload (st.fromA ++ out.2.2) =
        st.transmitted ++ streamOf TcpSegment.payload out.2.2 := streamOf_append
    refine ⟨hround.ok, ?_, ?_, ?_, ?_, h.rxOk, ?_, h.rcvNxt, h.connectedB⟩
    · show st.given = streamOf TcpSegment.payload (st.fromA ++ out.2.2) ++ txQueue out.1 ++ out.2.1
      rw [h.given, htrans, List.append_assoc, hround.stream]
      simp only [List.append_assoc]
    · show out.1.sndNxt = seqAt base (streamOf TcpSegment.payload (st.fromA ++ out.2.2)).length
      rw [hround.next, h.sndNxt, htrans, List.length_append, seqAt_add]
    · show Numbered TcpSegment.payload TcpSegment.seq (seqAt base) (st.fromA ++ out.2.2)
      cases hround.segs with
      | inl hnil =>
        rw [hnil, List.append_nil]
        exact h.numbered
      | inr hone =>
        obtain ⟨seg, hseg, hseq⟩ := hone
        rw [hseg]
        exact h.numbered.append (hseq.trans h.sndNxt)
    · show out.1.state.connected = true
      exact (tcpSendRound_idle hr).connected h.connectedA
    · show st.received <+: streamOf TcpSegment.payload (st.fromA ++ out.2.2)
      rw [htrans]
      exact h.got.trans (List.prefix_append _ _)
  | recv len =>
    simp only [streamStep, Option.ite_none_left_eq_some, Option.some.injEq] at hs
    obtain ⟨-, rfl⟩ := hs
    obtain ⟨hok, hqueue, -⟩ := tcpRecv_spec len h.rxOk
    have hrec : st.returned ++ (tcpRecv st.b len).2.1 ++ rxQueue (tcpRecv st.b len).1 = st.received := by
      rw [List.append_assoc, ← hqueue]
      rfl
    refine ⟨h.txOk, h.given, h.sndNxt, h.numbered, h.connectedA, hok, ?_, ?_, h.connectedB⟩
    · show st.returned ++ (tcpRecv st.b len).2.1 ++ rxQueue (tcpRecv st.b len).1 <+: st.transmitted
      rw [hrec]
      exact h.got
    · intro ht
      show st.b.rcvNxt = seqAt base (st.returned ++ (tcpRecv st.b len).2.1 ++ rxQueue (tcpRecv st.b len).1).length
      rw [hrec]
      exact h.rcvNxt ht
  | toB i us ms =>
    simp only [streamStep, Option.map_eq_some_iff] at hs
    obtain ⟨seg, hseg, rfl⟩ := hs
    -- the one step that takes data, and the one that the guard is about
    exact (h.take hseg (deliverTo_received seg us ms h.rxOk h.connectedB) (hplace seg hseg)).1
  | toA seg us ms =>
    cases hs
    exact h.quiet (deliverTo_quiet st.a seg us ms h.connectedA)
  | sendB data =>
    simp only [streamStep, Option.map_eq_some_iff] at hs
    obtain ⟨out, hr, rfl⟩ := hs
    exact h.idle (tcpSendRound_idle hr)
  | recvA len =>
    simp only [streamStep, Option.ite_none_left_eq_some, Option.some.injEq] at hs
    obtain ⟨-, rfl⟩ := hs
    exact h.quiet (tcpRecv_quiet st.a len)
  | closeA =>
    cases hs
    exact h.quiet (tcpCloseStart_quiet st.a)
  | closeB =>
    cases hs
    exact h.idle (tcpCloseStart_idle st.b)
  | timerA now =>
    cases hs
    exact h.quiet (tcpTimer_quiet st.a now)
  | timerB now =>
    cases hs
    exact h.idle (tcpTimer_idle st.b now)

theorem streamStep_given {st st' : StreamState} {op : StreamOp} (hs : streamStep st op = some st') :
    st.given.length ≤ st'.given.length := by
  cases op with
  | send data =>
    simp only [streamStep, Option.ite_none_right_eq_some, Option.some.injEq] at hs
    obtain ⟨-, rfl⟩ := hs
    show st.given.length ≤ (st.given ++ data).length
    rw [List.length_append]
    exact Nat.le_add_right _ _
  | round =>
    simp only [streamStep, Option.ite_none_left_eq_some, Option.map_eq_some_iff] at hs
    obtain ⟨-, out, -, rfl⟩ := hs
    exact Nat.le_refl _
  | recv len | recvA len =>
    simp only [streamStep, Option.ite_none_left_eq_some, Option.some.injEq] at hs
    obtain ⟨-, rfl⟩ := hs
    exact Nat.le_refl _
  | toB i us ms | sendB data =>
    simp only [streamStep, Option.map_eq_some_iff] at hs
    obtain ⟨out, -, rfl⟩ := hs
    exact Nat.le_refl _
  | toA | closeA | closeB | timerA | timerB =>
    cases hs
    exact Nat.le_refl _

/-- As long as the numbers do not come round, the expected number is the place in the stream. -/
theorem StreamInv.inPlace {base : UInt32} {st : StreamState} (h : StreamInv base st) (hlen : st.given.length < 2 ^ 32)
    (op : StreamOp) : InPlace st op := by
  cases op with
  | toB i us ms =>
    intro seg hseg hacc
    have htake : st.b.state.takesData = true ∧ seg.seq = st.b.rcvNxt := by
      unfold accepts at hacc
      split at hacc
      · rename_i hm
        refine ⟨hm.2, ?_⟩
        unfold rxAccepted at hacc
        split at hacc
        · rename_i hexp
          exact hexp.2
        · cases hacc
      · cases hacc
    have hle : st.transmitted.length ≤ st.given.length := by
      rw [h.given, List.length_append, List.length_append]
      omega
    apply inPlace_of_number h.numbered hseg h.got (htake.2.trans (h.rcvNxt htake.1))
    intro m n hm hn heq
    exact seqAt_inj (Nat.lt_of_le_of_lt (hm.trans hle) hlen) (Nat.lt_of_le_of_lt (hn.trans hle) hlen) heq
  | _ => trivial

/-- **Stream safety**: what `tcp_recv` has returned is a beginning of what was given to
    `tcp_send`, whatever is lost, repeated or reordered on the way. -/
theorem tcp_stream_safe {a b : TcpSocket} (h : StreamStart a b) (ops : List StreamOp) (st : StreamState)
    (hr : run streamStep (streamStart a b) ops = some st) (hlen : st.given.length < 2 ^ 32) :
    st.returned <+: st.given := by
  have hinv : st.given.length < 2 ^ 32 → StreamInv a.sndNxt st := by
    have hstep : ∀ s op s', (s.given.length < 2 ^ 32 → StreamInv a.sndNxt s) → streamStep s op = some s' →
        s'.given.length < 2 ^ 32 → StreamInv a.sndNxt s' := by
      intro s op s' hs hstep hlen'
      have hlt : s.given.length < 2 ^ 32 := Nat.lt_of_le_of_lt (streamStep_given hstep) hlen'
      exact (hs hlt).step ((hs hlt).inPlace hlt op) hstep
    exact run_mem (S := fun s => s.given.length < 2 ^ 32 → StreamInv a.sndNxt s) hstep (fun _ => streamInv_start h) hr
  have hfinal := hinv hlen
  have hgot : st.returned <+: st.transmitted := (List.prefix_append _ _).trans hfinal.got
  rw [hfinal.given, List.append_assoc]
  exact hgot.trans (List.prefix_append _ _)

/-- Two segments that overtake each other, one of them three times, and a byte read in between. -/
def reordering : List StreamOp :=
  [.send [1, 2], .round, .send [3], .toA ⟨0x0200000A, 0x0100000A, 80, 49152, 0, 2, TCP_FLAG_ACK, 65535, []⟩ 0 1, .round,
    .toB 1 0 2, .toB 0 0 3, .toB 0 0 4, .recv 1, .toB 0 0 5, .toB 1 0 6, .recv 1]

def reordered : StreamState := (run streamStep (streamStart nearPeer farPeer) reordering).getD (streamStart nearPeer farPeer)

theorem tcp_stream_safe_reordered : reordered.returned = [1, 2] ∧ reordered.returned <+: reordered.given := by
  have hstart : StreamStart nearPeer farPeer :=
    ⟨rfl, rfl, rfl, ⟨by decide, rfl, by decide⟩, ⟨by decide, rfl, by decide⟩, rfl, rfl⟩
  have hrun : run streamStep (streamStart nearPeer farPeer) reordering = some reordered :=
    eq_some_getD _ (by decide +kernel)
  exact ⟨by decide +kernel, tcp_stream_safe hstart reordering reordered hrun (by decide +kernel)⟩

end Crimson.Net
