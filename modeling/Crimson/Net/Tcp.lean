import Crimson.Lib.Memory
import Crimson.Lib.Ring

/-!
# TCP sockets (`net.c`)

One socket and what each call and each received segment does to it. A segment is the
part of a packet that `tcp_rx` looks at; `segment` is the one `tcp_send_segment` would
build from a socket at that moment. Functions that send return the segments beside the
socket, and leave to the caller what becomes of them: `tcp_send_segment` gives up when no
buffer is to be had or the next hop is not in the ARP cache.

The calls that wait (`tcp_connect`, `tcp_send`, `tcp_recv`, `tcp_close`) are cut at
their `scheduler_yield`: what happens before it, when it is left, and what happens after.

Sequence numbers and the congestion state wrap at 32 bits and are `UInt32`; the ring
indices and counts are natural numbers, reduced where the source's type is.
-/

set_option autoImplicit false

namespace Crimson.Net

open Crimson.Lib

abbrev Byte := BitVec 8

def TCP_MAX_SOCKETS : Nat := 256
def TCP_RX_BUF_SIZE : Nat := 64 * 1024
def TCP_TX_BUF_SIZE : Nat := 64 * 1024
def TCP_MSS : Nat := 1460
def TCP_DEFAULT_WINDOW : Nat := 64 * 1024

def TCP_FLAG_FIN : BitVec 8 := 0x01
def TCP_FLAG_SYN : BitVec 8 := 0x02
def TCP_FLAG_PSH : BitVec 8 := 0x08
def TCP_FLAG_ACK : BitVec 8 := 0x10

/-- `enum tcp_state` -/
inductive TcpState where
  | closed
  | listen
  | synSent
  | synReceived
  | established
  | finWait1
  | finWait2
  | closeWait
  | closing
  | lastAck
  | timeWait
deriving DecidableEq, Repr

/-- The state of a connection that was established. -/
def TcpState.connected : TcpState → Bool
  | .listen | .synSent | .synReceived => false
  | _ => true

/-- The states in which `tcp_rx` looks at the payload and at a FIN. -/
def TcpState.takesData : TcpState → Bool
  | .established | .finWait1 | .finWait2 => true
  | _ => false

/-- `tcp_cc_t`, without the fields of the round-trip estimate, which nothing calls. -/
structure TcpCc where
  cwnd : UInt32
  ssthresh : UInt32
  flightSize : UInt32
  dupAcks : UInt32
  rto : UInt32
deriving DecidableEq, Repr

/-- `tcp_socket_t`. A buffer is its address (`rxBuf`, `txBuf`, 0 for none) and its cells. -/
structure TcpSocket where
  localIp : Nat
  localPort : Nat
  remoteIp : Nat
  remotePort : Nat
  state : TcpState
  sndUna : UInt32
  sndNxt : UInt32
  sndWnd : Nat
  rcvNxt : UInt32
  rcvWnd : Nat
  iss : UInt32
  irs : UInt32
  rxBuf : Nat
  rxCells : Mem
  rxHead : Nat
  rxTail : Nat
  rxCount : Nat
  txBuf : Nat
  txCells : Mem
  txHead : Nat
  txTail : Nat
  txCount : Nat
  cc : TcpCc
  lastActivity : Nat
  keepaliveProbes : Nat
  mss : Nat
  inUse : Bool

/-- A socket of all zeros, as `memset` leaves it. -/
def zeroSocket : TcpSocket where
  localIp := 0
  localPort := 0
  remoteIp := 0
  remotePort := 0
  state := .closed
  sndUna := 0
  sndNxt := 0
  sndWnd := 0
  rcvNxt := 0
  rcvWnd := 0
  iss := 0
  irs := 0
  rxBuf := 0
  rxCells := fun _ => 0
  rxHead := 0
  rxTail := 0
  rxCount := 0
  txBuf := 0
  txCells := fun _ => 0
  txHead := 0
  txTail := 0
  txCount := 0
  cc := ⟨0, 0, 0, 0, 0⟩
  lastActivity := 0
  keepaliveProbes := 0
  mss := 0
  inUse := false

/-- What `tcp_rx` reads of a packet: the sender, the header's fields and the payload. -/
structure TcpSegment where
  srcIp : Nat
  dstIp : Nat
  srcPort : Nat
  dstPort : Nat
  seq : UInt32
  ack : UInt32
  flags : BitVec 8
  window : Nat
  payload : List Byte
deriving DecidableEq, Repr

/-- `flags & flag` -/
def TcpSegment.has (seg : TcpSegment) (flag : BitVec 8) : Bool := seg.flags &&& flag != 0

/-! ## Sending -/

/-- The segment `tcp_send_segment` builds. -/
def segment (s : TcpSocket) (flags : BitVec 8) (data : List Byte) : TcpSegment where
  srcIp := s.localIp
  dstIp := s.remoteIp
  srcPort := s.localPort
  dstPort := s.remotePort
  seq := s.sndNxt
  ack := if flags &&& TCP_FLAG_ACK != 0 then s.rcvNxt else 0
  flags := flags
  window := min s.rcvWnd 65535
  payload := data

@[simp] theorem segment_has (s : TcpSocket) (flags flag : BitVec 8) (data : List Byte) :
    (segment s flags data).has flag = (flags &&& flag != 0) := rfl

@[simp] theorem segment_payload (s : TcpSocket) (flags : BitVec 8) (data : List Byte) :
    (segment s flags data).payload = data := rfl

/-- `tcp_send_segment`, up to whether the packet was transmitted. -/
def tcpSendSegment (s : TcpSocket) (flags : BitVec 8) (data : List Byte) (sent : Bool) :
    TcpSocket × List TcpSegment :=
  if sent then ({ s with sndNxt := s.sndNxt + UInt32.ofNat data.length }, [segment s flags data])
  else (s, [])

/-- The congestion state after an ACK of new data. -/
def TcpCc.grow (cc : TcpCc) (acked : UInt32) : TcpCc :=
  let cwnd :=
    if cc.cwnd < cc.ssthresh then cc.cwnd + UInt32.ofNat TCP_MSS
    else
      let cwnd := cc.cwnd + UInt32.ofNat (TCP_MSS * TCP_MSS) / cc.cwnd
      if cwnd < UInt32.ofNat TCP_MSS then UInt32.ofNat TCP_MSS else cwnd
  { cc with flightSize := cc.flightSize - acked, cwnd := cwnd, dupAcks := 0 }

/-- The congestion state after a duplicate ACK; the third halves the window. -/
def TcpCc.duplicate (cc : TcpCc) : TcpCc :=
  let dupAcks := cc.dupAcks + 1
  if dupAcks = 3 then
    let half := cc.cwnd / 2
    let ssthresh := if half < UInt32.ofNat (2 * TCP_MSS) then UInt32.ofNat (2 * TCP_MSS) else half
    { cc with dupAcks := dupAcks, ssthresh := ssthresh, cwnd := ssthresh + UInt32.ofNat (3 * TCP_MSS) }
  else { cc with dupAcks := dupAcks }

/-- `tcp_process_ack`. The retransmission it may ask for only writes a message. -/
def tcpProcessAck (s : TcpSocket) (ack : UInt32) : TcpSocket :=
  if s.sndUna < ack then { s with sndUna := ack, cc := s.cc.grow (ack - s.sndUna) }
  else if ack = s.sndUna then { s with cc := s.cc.duplicate }
  else s

/-- An ACK changes the send window's lower end and the congestion state, nothing else. -/
theorem tcpProcessAck_eq (s : TcpSocket) (ack : UInt32) :
    ∃ una cc, tcpProcessAck s ack = { s with sndUna := una, cc := cc } := by
  unfold tcpProcessAck
  split
  · exact ⟨_, _, rfl⟩
  · split
    · exact ⟨s.sndUna, _, rfl⟩
    · exact ⟨s.sndUna, s.cc, rfl⟩

/-! ## Receiving -/

/-- `TCP_RX_BUF_SIZE - sock->rx_count` -/
def rxSpace (s : TcpSocket) : Nat := (TCP_RX_BUF_SIZE + 2 ^ 32 - s.rxCount) % 2 ^ 32

/-- The bytes of a segment that go to the receive buffer, in the states that take data. -/
def rxAccepted (s : TcpSocket) (seg : TcpSegment) : Nat :=
  if 0 < seg.payload.length ∧ seg.seq = s.rcvNxt then min seg.payload.length (rxSpace s) else 0

def rxAck (s : TcpSocket) (seg : TcpSegment) : TcpSocket :=
  if seg.has TCP_FLAG_ACK then { tcpProcessAck s seg.ack with sndWnd := seg.window } else s

def rxData (s : TcpSocket) (seg : TcpSegment) : TcpSocket × List TcpSegment :=
  if 0 < seg.payload.length ∧ seg.seq = s.rcvNxt then
    let n := rxAccepted s seg
    let put := ringPut TCP_RX_BUF_SIZE s.rxCells s.rxHead (seg.payload.take n)
    let s := { s with
      rxCells := put.1
      rxHead := put.2
      rxCount := (s.rxCount + n) % 2 ^ 32
      rcvNxt := s.rcvNxt + UInt32.ofNat n }
    (s, [segment s TCP_FLAG_ACK []])
  else (s, [])

/-- The state a FIN leads to. -/
def finState : TcpState → TcpState
  | .established => .closeWait
  | .finWait1 => .closing
  | .finWait2 => .timeWait
  | st => st

def rxFin (s : TcpSocket) (seg : TcpSegment) : TcpSocket × List TcpSegment :=
  if seg.has TCP_FLAG_FIN then
    let s := { s with rcvNxt := s.rcvNxt + 1 }
    ({ s with state := finState s.state }, [segment s TCP_FLAG_ACK []])
  else (s, [])

theorem rxAck_eq (s : TcpSocket) (seg : TcpSegment) :
    ∃ una cc wnd, rxAck s seg = { s with sndUna := una, cc := cc, sndWnd := wnd } := by
  unfold rxAck
  split
  · obtain ⟨una, cc, h⟩ := tcpProcessAck_eq s seg.ack
    exact ⟨una, cc, seg.window, by rw [h]⟩
  · exact ⟨s.sndUna, s.cc, s.sndWnd, rfl⟩

/-- The states that take data: an ACK, then the payload, then a FIN. -/
def rxStream (s : TcpSocket) (seg : TcpSegment) : TcpSocket × List TcpSegment :=
  let data := rxData (rxAck s seg) seg
  let fin := rxFin data.1 seg
  (fin.1, data.2 ++ fin.2)

/-- A segment without data and without a FIN: there is nothing to acknowledge. -/
def TcpSegment.Bare (seg : TcpSegment) : Prop := seg.payload = [] ∧ seg.has TCP_FLAG_FIN = false

theorem rxData_nil {s : TcpSocket} {seg : TcpSegment} (h : seg.payload = []) : rxData s seg = (s, []) := by
  have hno : ¬ (0 < seg.payload.length ∧ seg.seq = s.rcvNxt) := by simp [h]
  exact if_neg hno

theorem rxStream_bare {s : TcpSocket} {seg : TcpSegment} (h : seg.Bare) : rxStream s seg = (rxAck s seg, []) := by
  have hfin : rxFin (rxAck s seg) seg = (rxAck s seg, []) := if_neg (by simp [h.2])
  rw [rxStream, rxData_nil h.1, hfin]
  rfl

def rxSynSent (s : TcpSocket) (seg : TcpSegment) : TcpSocket × List TcpSegment :=
  if seg.has TCP_FLAG_SYN then
    let s := { s with irs := seg.seq, rcvNxt := seg.seq + 1 }
    let s := if seg.has TCP_FLAG_ACK then tcpProcessAck { s with sndUna := seg.ack } seg.ack else s
    let s := { s with sndWnd := seg.window }
    ({ s with sndNxt := s.iss + 1, state := .synReceived },
      [segment s (TCP_FLAG_SYN ||| TCP_FLAG_ACK) []])
  else (s, [])

def rxSynReceived (s : TcpSocket) (seg : TcpSegment) : TcpSocket :=
  if seg.has TCP_FLAG_ACK then
    { tcpProcessAck { s with sndUna := seg.ack } seg.ack with state := .established }
  else s

/-- A listening socket becomes the connection; `us` is the clock its sequence numbers
    start from. -/
def rxListen (s : TcpSocket) (seg : TcpSegment) (us : Nat) : TcpSocket × List TcpSegment :=
  if seg.has TCP_FLAG_SYN then
    let s := { s with
      irs := seg.seq
      rcvNxt := seg.seq + 1
      iss := UInt32.ofNat us
      sndUna := UInt32.ofNat us
      sndNxt := UInt32.ofNat us + 1
      remoteIp := seg.srcIp
      remotePort := seg.srcPort }
    ({ s with state := .synReceived }, [segment s (TCP_FLAG_SYN ||| TCP_FLAG_ACK) []])
  else (s, [])

def rxLastAck (s : TcpSocket) (seg : TcpSegment) : TcpSocket :=
  if seg.has TCP_FLAG_ACK then { s with state := .closed, inUse := false } else s

def rxClosing (s : TcpSocket) (seg : TcpSegment) : TcpSocket :=
  if seg.has TCP_FLAG_ACK then { s with state := .timeWait } else s

/-- The state machine of `tcp_rx`. -/
def tcpRxState (s : TcpSocket) (seg : TcpSegment) (us : Nat) : TcpSocket × List TcpSegment :=
  match s.state with
  | .synSent => rxSynSent s seg
  | .synReceived => (rxSynReceived s seg, [])
  | .listen => rxListen s seg us
  | .established | .finWait1 | .finWait2 => rxStream s seg
  | .lastAck => (rxLastAck s seg, [])
  | .closing => (rxClosing s seg, [])
  | .closed | .closeWait | .timeWait => (s, [])

def TcpSocket.touch (s : TcpSocket) (ms : Nat) : TcpSocket := { s with lastActivity := ms }

/-- `tcp_rx`, on the socket it found. -/
def tcpRxSocket (s : TcpSocket) (seg : TcpSegment) (us ms : Nat) : TcpSocket × List TcpSegment :=
  tcpRxState (s.touch ms) seg us

section

variable {s : TcpSocket} {seg : TcpSegment} {us : Nat}

theorem tcpRxState_listen (h : s.state = .listen) : tcpRxState s seg us = rxListen s seg us := by
  rw [tcpRxState, h]

theorem tcpRxState_synSent (h : s.state = .synSent) : tcpRxState s seg us = rxSynSent s seg := by
  rw [tcpRxState, h]

theorem tcpRxState_synReceived (h : s.state = .synReceived) : tcpRxState s seg us = (rxSynReceived s seg, []) := by
  rw [tcpRxState, h]

theorem tcpRxState_stream (h : s.state = .established ∨ s.state = .finWait1 ∨ s.state = .finWait2) :
    tcpRxState s seg us = rxStream s seg := by
  rcases h with h | h | h
  · rw [tcpRxState, h]
  · rw [tcpRxState, h]
  · rw [tcpRxState, h]

theorem tcpRxState_lastAck (h : s.state = .lastAck) : tcpRxState s seg us = (rxLastAck s seg, []) := by
  rw [tcpRxState, h]

theorem tcpRxState_closing (h : s.state = .closing) : tcpRxState s seg us = (rxClosing s seg, []) := by
  rw [tcpRxState, h]

theorem tcpRxState_idle (h : s.state = .closed ∨ s.state = .closeWait ∨ s.state = .timeWait) :
    tcpRxState s seg us = (s, []) := by
  rcases h with h | h | h
  · rw [tcpRxState, h]
  · rw [tcpRxState, h]
  · rw [tcpRxState, h]

end

/-- Whether a segment is for the socket: its own connection, or a listener on the port. -/
def tcpMatches (seg : TcpSegment) (s : TcpSocket) : Bool :=
  s.inUse && ((s.localPort == seg.dstPort && s.remotePort == seg.srcPort && s.remoteIp == seg.srcIp) ||
    (s.state == .listen && s.localPort == seg.dstPort))

/-- A segment that arrives at a socket, if it is for it. -/
def deliverTo (s : TcpSocket) (seg : TcpSegment) (us ms : Nat) : TcpSocket × List TcpSegment :=
  if tcpMatches seg s then tcpRxSocket s seg us ms else (s, [])

/-- The search of `tcp_rx`: the first socket the segment is for. -/
def findSocket (socks : List TcpSocket) (seg : TcpSegment) : Option Nat :=
  socks.findIdx? (tcpMatches seg)

/-- A segment given to the socket it is for: the sockets and the segments sent. -/
def tcpRxTable (socks : List TcpSocket) (seg : TcpSegment) (us ms : Nat) : List TcpSocket × List TcpSegment :=
  match findSocket socks seg with
  | none => (socks, [])
  | some i =>
    match socks[i]? with
    | none => (socks, [])
    | some s =>
      let out := tcpRxSocket s seg us ms
      (socks.set i out.1, out.2)

/-! ## The socket calls -/

/-- A socket that `tcp_socket_create` hands out, with its two buffers. -/
def freshSocket (rxBuf txBuf : Nat) : TcpSocket :=
  { zeroSocket with
    rxBuf := rxBuf
    txBuf := txBuf
    rcvWnd := TCP_DEFAULT_WINDOW
    mss := TCP_MSS
    inUse := true
    cc := { zeroSocket.cc with cwnd := UInt32.ofNat TCP_MSS, ssthresh := 65535, rto := 1000 } }

/-- `tcp_bind`; `port` is the given one, or an ephemeral one for 0. -/
def tcpBind (s : TcpSocket) (ip port : Nat) : TcpSocket := { s with localIp := ip, localPort := port, state := .closed }

def tcpListen (s : TcpSocket) : TcpSocket := { s with state := .listen }

/-- `tcp_connect` up to its wait. -/
def tcpConnectStart (s : TcpSocket) (ip port localPort us ms : Nat) : TcpSocket × List TcpSegment :=
  let s := { s with
    remoteIp := ip
    remotePort := port
    localPort := localPort
    iss := UInt32.ofNat us
    sndUna := UInt32.ofNat us
    sndNxt := UInt32.ofNat us + 1
    state := .synSent
    lastActivity := ms }
  (s, [segment s TCP_FLAG_SYN []])

/-- `tcp_connect` when it looks at the state: still waiting, or its result. -/
def tcpConnectPoll (s : TcpSocket) : Option Int :=
  if s.state = .synSent then none else if s.state = .established then some 0 else some (-1)

/-- `tcp_accept` when it looks at the state: still waiting, or whether it succeeds. -/
def tcpAcceptPoll (s : TcpSocket) : Option Bool :=
  if s.state = .listen then none else some (s.state == .established)

/-- `TCP_TX_BUF_SIZE - s->tx_count` -/
def txSpace (s : TcpSocket) : Nat := (TCP_TX_BUF_SIZE + 2 ^ 32 - s.txCount) % 2 ^ 32

/-- What a round of `tcp_send` sends: all that is queued, as far as the windows allow. -/
def sendPayload (s : TcpSocket) : Nat :=
  min (min s.txCount (s.cc.cwnd - s.cc.flightSize).toNat) s.mss

/-- The first `n` queued bytes sent and removed. -/
def sendQueued (s : TcpSocket) (n : Nat) (sent : Bool) : TcpSocket × List TcpSegment :=
  let bytes := ringList s.txCells TCP_TX_BUF_SIZE s.txTail n
  let out := tcpSendSegment s (TCP_FLAG_ACK ||| TCP_FLAG_PSH) bytes sent
  ({ out.1 with
      txTail := (s.txTail + n) % TCP_TX_BUF_SIZE
      txCount := (s.txCount + 2 ^ 32 - n) % 2 ^ 32
      cc := { s.cc with flightSize := s.cc.flightSize + UInt32.ofNat n } }, out.2)

/-- The bytes of a round copied to the transmit buffer. -/
def queueData (s : TcpSocket) (data : List Byte) : TcpSocket :=
  let put := ringPut TCP_TX_BUF_SIZE s.txCells s.txHead data
  { s with txCells := put.1, txHead := put.2, txCount := (s.txCount + data.length) % 2 ^ 32 }

/-- One round of the loop of `tcp_send` on the bytes still to be sent: the socket, the
    bytes left and the segments. `none` is the wait for space in the buffer. -/
def tcpSendRound (s : TcpSocket) (data : List Byte) (sent : Bool) :
    Option (TcpSocket × List Byte × List TcpSegment) :=
  let space := txSpace s
  if space = 0 then none
  else
    let toCopy := min data.length space
    let s := queueData s (data.take toCopy)
    -- Nagle: only when nothing is unacknowledged, or a full segment was added
    if s.sndUna = s.sndNxt ∨ s.mss ≤ toCopy then
      let payload := sendPayload s
      if 0 < payload then
        let out := sendQueued s payload sent
        some (out.1, data.drop toCopy, out.2)
      else some (s, data.drop toCopy, [])
    else some (s, data.drop toCopy, [])

/-- Whether `tcp_recv` waits. -/
def tcpRecvWaits (s : TcpSocket) : Bool := s.rxCount == 0 && s.state == .established

/-- `tcp_recv` past its wait: the bytes it returns and the ACK it offers. -/
def tcpRecv (s : TcpSocket) (len : Nat) : TcpSocket × List Byte × List TcpSegment :=
  let n := min len s.rxCount
  let got := ringGet TCP_RX_BUF_SIZE s.rxCells s.rxTail n
  let s := { s with
    rxTail := got.2
    rxCount := s.rxCount - n
    rcvWnd := (TCP_DEFAULT_WINDOW + 2 ^ 32 - (s.rxCount - n)) % 2 ^ 32 }
  (s, got.1, if 0 < n then [segment s TCP_FLAG_ACK []] else [])

/-- `tcp_close` up to its wait. -/
def tcpCloseStart (s : TcpSocket) : TcpSocket × List TcpSegment :=
  match s.state with
  | .established =>
    let s := { s with state := .finWait1 }
    (s, [segment s (TCP_FLAG_FIN ||| TCP_FLAG_ACK) []])
  | .closeWait =>
    let s := { s with state := .lastAck }
    (s, [segment s (TCP_FLAG_FIN ||| TCP_FLAG_ACK) []])
  | _ => (s, [])

/-- Whether `tcp_close` stops waiting. -/
def tcpCloseDone (s : TcpSocket) : Bool := s.state == .closed || s.state == .timeWait

/-- The end of `tcp_close`, as far as the socket goes. -/
def tcpCloseFinish (s : TcpSocket) : TcpSocket := { s with inUse := false }

/-! ## The timer -/

/-- `now - s->last_activity` -/
def idleTime (s : TcpSocket) (now : Nat) : Nat := (now + 2 ^ 64 - s.lastActivity) % 2 ^ 64

/-- The retransmit timer. The retransmission itself only writes a message. -/
def timerRetransmit (s : TcpSocket) (now : Nat) : TcpSocket :=
  if 0 < s.cc.flightSize ∧ s.cc.rto.toNat < idleTime s now then
    { s with cc := { s.cc with ssthresh := s.cc.cwnd / 2, cwnd := UInt32.ofNat TCP_MSS } }
  else s

/-- The keep-alive timer: a bare ACK, and the end of the connection after the tenth. -/
def timerKeepAlive (s : TcpSocket) (now : Nat) : TcpSocket × List TcpSegment :=
  if s.state = .established ∧ 7200000 < idleTime s now then
    let probes := (s.keepaliveProbes + 1) % 2 ^ 32
    let sent := [segment s TCP_FLAG_ACK []]
    if 9 < probes then ({ s with keepaliveProbes := probes, state := .closed, inUse := false }, sent)
    else ({ s with keepaliveProbes := probes }, sent)
  else (s, [])

/-- The timer gives up an idle connection. -/
def keepAliveEnds (s : TcpSocket) (now : Nat) : Prop :=
  s.state = .established ∧ 7200000 < idleTime s now ∧ 9 < (s.keepaliveProbes + 1) % 2 ^ 32

def timerTimeWait (s : TcpSocket) (now : Nat) : TcpSocket :=
  if s.state = .timeWait ∧ 120000 < idleTime s now then { s with state := .closed, inUse := false } else s

theorem timerRetransmit_eq (s : TcpSocket) (now : Nat) : ∃ cc, timerRetransmit s now = { s with cc := cc } := by
  unfold timerRetransmit
  split
  · exact ⟨_, rfl⟩
  · exact ⟨s.cc, rfl⟩

theorem timerTimeWait_eq (s : TcpSocket) (now : Nat) :
    timerTimeWait s now = s ∨ s.state = .timeWait ∧ timerTimeWait s now = { s with state := .closed, inUse := false } := by
  unfold timerTimeWait
  split
  · rename_i h
    exact Or.inr ⟨h.1, rfl⟩
  · exact Or.inl rfl

/-- `tcp_timer_callback`, on one socket. -/
def tcpTimer (s : TcpSocket) (now : Nat) : TcpSocket × List TcpSegment :=
  if s.inUse then
    let out := timerKeepAlive (timerRetransmit s now) now
    (timerTimeWait out.1 now, out.2)
  else (s, [])

/-- Two connected sockets on one cable. -/
def nearPeer : TcpSocket :=
  { freshSocket 16 32 with
    state := .established
    localIp := 0x0100000A
    localPort := 49152
    remoteIp := 0x0200000A
    remotePort := 80 }

def farPeer : TcpSocket :=
  { freshSocket 48 64 with
    state := .established
    localIp := 0x0200000A
    localPort := 80
    remoteIp := 0x0100000A
    remotePort := 49152 }

end Crimson.Net
