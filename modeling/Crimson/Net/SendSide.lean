import Crimson.Net.Stream

/-!
# The sending side of a connection (`net.c`)

A socket that programs send on, with the segments that reach it and the timer, in any
order. A `tcp_send` runs one round of its loop at a time; whether the segment of a round
is transmitted is left open, since `tcp_send_segment` gives up without an interface,
without memory, or when the peer is not in the ARP cache, and does not say so.
-/

set_option autoImplicit false

namespace Crimson.Net

open Crimson.Lib

/-- A round of `tcp_send` on `data` comes to its call of `tcp_send_segment`. -/
def SendsSegment (s : TcpSocket) (data : List Byte) : Prop :=
  let toCopy := min data.length (txSpace s)
  (s.sndUna = s.sndNxt ∨ s.mss ≤ toCopy) ∧ 0 < sendPayload (queueData s (data.take toCopy))

instance (s : TcpSocket) (data : List Byte) : Decidable (SendsSegment s data) :=
  inferInstanceAs (Decidable (_ ∧ _))

/-- The bytes a round has to send, once it has copied. -/
def queuedCount (s : TcpSocket) (len : Nat) : Nat := (s.txCount + min len (txSpace s)) % 2 ^ 32

theorem queueData_count (s : TcpSocket) (data : List Byte) :
    (queueData s (data.take (min data.length (txSpace s)))).txCount = queuedCount s data.length := by
  have hlen : (data.take (min data.length (txSpace s))).length = min data.length (txSpace s) := by
    rw [List.length_take]
    omega
  show (s.txCount + (data.take (min data.length (txSpace s))).length) % 2 ^ 32 = _
  rw [hlen]
  rfl

/-- The payload of a round in terms of the socket before it. -/
theorem sendPayload_queueData (s : TcpSocket) (data : List Byte) :
    sendPayload (queueData s (data.take (min data.length (txSpace s)))) =
      min (min (queuedCount s data.length) (s.cc.cwnd - s.cc.flightSize).toNat) s.mss := by
  rw [sendPayload, queueData_count]
  rfl

/-- The two ends of a round: the bytes are only queued, or a segment is offered too. -/
inductive RoundEnd (s : TcpSocket) (data : List Byte) (sent : Bool) : TcpSocket × List Byte × List TcpSegment → Prop where
  | queued (k : Nat) (hk : k = min data.length (txSpace s)) (hno : ¬ SendsSegment s data) :
      RoundEnd s data sent (queueData s (data.take k), data.drop k, [])
  | offered (k n : Nat) (hk : k = min data.length (txSpace s)) (hsends : SendsSegment s data) (hn : 0 < n)
      (hpayload : n = sendPayload (queueData s (data.take k))) :
      RoundEnd s data sent
        ((sendQueued (queueData s (data.take k)) n sent).1, data.drop k, (sendQueued (queueData s (data.take k)) n sent).2)

/-- **What a round does**, when there is space in the buffer. -/
theorem tcpSendRound_end {s : TcpSocket} {data : List Byte} {sent : Bool} {out : TcpSocket × List Byte × List TcpSegment}
    (h : tcpSendRound s data sent = some out) : txSpace s ≠ 0 ∧ RoundEnd s data sent out := by
  unfold tcpSendRound at h
  simp only at h
  split at h
  · cases h
  · rename_i hspace
    refine ⟨hspace, ?_⟩
    split at h
    · rename_i hnagle
      split at h
      · rename_i hpos
        obtain rfl := Option.some.inj h
        exact RoundEnd.offered _ _ rfl ⟨hnagle, hpos⟩ hpos rfl
      · rename_i hpos
        obtain rfl := Option.some.inj h
        exact RoundEnd.queued _ rfl fun hsends => hpos hsends.2
    · rename_i hnagle
      obtain rfl := Option.some.inj h
      exact RoundEnd.queued _ rfl fun hsends => hnagle hsends.1

/-- A round with no space is the wait for some. -/
theorem tcpSendRound_wait {s : TcpSocket} {data : List Byte} {sent : Bool} (h : txSpace s = 0) :
    tcpSendRound s data sent = none := if_pos h

/-! ## Runs -/

/-- The socket, what is left of the `tcp_send` in progress, all the bytes that were given
    to `tcp_send`, the segments transmitted, and whether a segment of data was given up. -/
structure SendState where
  sock : TcpSocket
  pending : List Byte
  given : List Byte
  segments : List TcpSegment
  gaveUp : Bool

inductive SendOp where
  /-- `tcp_send` is called. -/
  | send (data : List Byte)
  /-- One round of the loop, and whether `tcp_send_segment` transmits in it. -/
  | round (sent : Bool)
  | rx (seg : TcpSegment) (us ms : Nat)
  | timer (now : Nat)

/-- The socket after an event that offers the segments `out.2`. -/
def SendState.after (st : SendState) (out : TcpSocket × List TcpSegment) : SendState :=
  { st with sock := out.1, segments := st.segments ++ out.2 }

def sendStep (st : SendState) : SendOp → Option SendState
  | .send data =>
    if st.sock.inUse ∧ st.sock.state = .established ∧ st.pending = [] then
      some { st with pending := data, given := st.given ++ data }
    else none
  | .round sent =>
    if st.pending = [] then none
    else (tcpSendRound st.sock st.pending sent).map fun out =>
      { st.after (out.1, out.2.2) with
        pending := out.2.1
        gaveUp := st.gaveUp || (!sent && decide (SendsSegment st.sock st.pending)) }
  | .rx seg us ms => some (st.after (deliverTo st.sock seg us ms))
  | .timer now => some (st.after (tcpTimer st.sock now))

/-- A socket on which nothing was given to `tcp_send` yet. -/
def sendStart (s : TcpSocket) : SendState where
  sock := s
  pending := []
  given := []
  segments := []
  gaveUp := false

/-- A connection on which nothing was sent yet. -/
def freshSend : SendState := sendStart nearPeer

/-- An ACK from the peer. -/
def peerAck (ack : UInt32) : TcpSegment := { segment farPeer TCP_FLAG_ACK [] with ack := ack }

variable {st st' : SendState}

/-- A round that is taken. -/
theorem sendStep_round {sent : Bool} (h : sendStep st (.round sent) = some st') :
    st.pending ≠ [] ∧ ∃ out, tcpSendRound st.sock st.pending sent = some out ∧
      st' = { st.after (out.1, out.2.2) with
        pending := out.2.1
        gaveUp := st.gaveUp || (!sent && decide (SendsSegment st.sock st.pending)) } := by
  simp only [sendStep] at h
  split at h
  · cases h
  · rename_i hne
    obtain ⟨out, hout, rfl⟩ := Option.map_eq_some_iff.mp h
    exact ⟨hne, out, hout, rfl⟩

theorem sendStep_send {data : List Byte} (h : sendStep st (.send data) = some st') :
    st.sock.state = .established ∧ st.pending = [] ∧ st' = { st with pending := data, given := st.given ++ data } := by
  simp only [sendStep] at h
  split at h
  · rename_i hc
    exact ⟨hc.2.1, hc.2.2, (Option.some.inj h).symm⟩
  · cases h

/-- The socket of a connection stays that of a connection. -/
theorem sendStep_connected {op : SendOp} (hc : st.sock.state.connected = true) (h : sendStep st op = some st') :
    st'.sock.state.connected = true := by
  cases op with
  | send data =>
    obtain ⟨-, -, rfl⟩ := sendStep_send h
    exact hc
  | round sent =>
    obtain ⟨-, out, hout, rfl⟩ := sendStep_round h
    exact (tcpSendRound_idle hout).connected hc
  | rx seg us ms =>
    obtain rfl := Option.some.inj h
    exact (deliverTo_quiet st.sock seg us ms hc).connected hc
  | timer now =>
    obtain rfl := Option.some.inj h
    exact (tcpTimer_quiet st.sock now).connected hc

end Crimson.Net
