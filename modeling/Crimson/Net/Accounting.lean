import Crimson.Net.SendSide

/-!
# What is in flight (`net.c`)

`flight_size` counts the bytes between `snd_una` and `snd_nxt`, but the three numbers are
kept in different places. `tcp_send` adds to the count whether or not
`tcp_send_segment` transmits; `tcp_process_ack` compares ACK numbers as plain numbers, and
with `snd_una` only; and the window that is left is an unsigned difference, although a
timeout takes the congestion window below what is in flight. Each of the three is a
condition on a step, and together they are exact.
-/

set_option autoImplicit false

namespace Crimson.Net

open Crimson.Lib

/-- The count agrees with the sequence numbers. -/
def Consistent (s : TcpSocket) : Prop := s.cc.flightSize = s.sndNxt - s.sndUna

/-- `ack` lies in `(snd_una, snd_nxt]` modulo 2^32. -/
def InFlight (s : TcpSocket) (ack : UInt32) : Prop := ack - s.sndUna ≠ 0 ∧ ack - s.sndUna ≤ s.sndNxt - s.sndUna

/-- An ACK that `tcp_rx` gives to `tcp_process_ack` on an established socket. -/
def Acks (s : TcpSocket) (seg : TcpSegment) : Prop :=
  tcpMatches seg s = true ∧ s.state = .established ∧ seg.has TCP_FLAG_ACK = true

/-- What a step has to do: an ACK moves `snd_una` exactly when it is for data in flight,
    and after a segment of data was sent no more is in flight than the window has. -/
def Accounted (st : SendState) (op : SendOp) (st' : SendState) : Prop :=
  match op with
  | .rx seg _ _ =>
    Acks st.sock seg →
      (InFlight st.sock seg.ack → st'.sock.sndUna = seg.ack) ∧
      (¬ InFlight st.sock seg.ack → st'.sock.sndUna = st.sock.sndUna)
  | .round sent =>
    SendsSegment st.sock st.pending → sent = true → st'.sock.cc.flightSize ≤ st'.sock.cc.cwnd
  | _ => True

/-- A later ACK, as plain numbers go, is for data in flight, and an earlier one is not. -/
def PlainAck (s : TcpSocket) (ack : UInt32) : Prop :=
  (s.sndUna < ack → ack - s.sndUna ≤ s.sndNxt - s.sndUna) ∧ (ack < s.sndUna → s.sndNxt - s.sndUna < ack - s.sndUna)

/-- The window is not below what is in flight, or so much is in flight that the count wraps. -/
def RoomLeft (s : TcpSocket) (len : Nat) : Prop :=
  s.cc.flightSize ≤ s.cc.cwnd ∨
    2 ^ 32 ≤ s.cc.flightSize.toNat + min (queuedCount s len) s.mss

/-- The condition on a step. -/
def AccountGuard (st : SendState) (op : SendOp) : Prop :=
  match op with
  | .rx seg _ _ => Acks st.sock seg → PlainAck st.sock seg.ack
  | .round sent => SendsSegment st.sock st.pending → sent = true ∧ RoomLeft st.sock st.pending.length
  | _ => True

instance (s : TcpSocket) (seg : TcpSegment) : Decidable (Acks s seg) := inferInstanceAs (Decidable (_ ∧ _ ∧ _))

instance (s : TcpSocket) (ack : UInt32) : Decidable (PlainAck s ack) :=
  inferInstanceAs (Decidable ((_ → _ ≤ _) ∧ (_ → _ < _)))

instance (s : TcpSocket) (len : Nat) : Decidable (RoomLeft s len) := inferInstanceAs (Decidable (_ ∨ _))

instance (st : SendState) (op : SendOp) : Decidable (AccountGuard st op) :=
  match op with
  | .send _ => .isTrue trivial
  | .round _ => inferInstanceAs (Decidable (_ → _ ∧ _))
  | .rx _ _ _ => inferInstanceAs (Decidable (_ → _))
  | .timer _ => .isTrue trivial

/-! ## ACKs -/

variable {s : TcpSocket}

theorem toNat_sub32 (a b : UInt32) : (a - b).toNat = (2 ^ 32 - b.toNat + a.toNat) % 2 ^ 32 := UInt32.toNat_sub a b

theorem inFlight_iff (s : TcpSocket) (ack : UInt32) :
    InFlight s ack ↔ 0 < (ack - s.sndUna).toNat ∧ (ack - s.sndUna).toNat ≤ (s.sndNxt - s.sndUna).toNat := by
  have hzero : ack - s.sndUna ≠ 0 ↔ 0 < (ack - s.sndUna).toNat := by
    rw [Nat.pos_iff_ne_zero, ne_eq, ne_eq, ← UInt32.toNat_inj]
    rfl
  rw [InFlight, hzero, UInt32.le_iff_toNat_le]

/-- The comparison of `tcp_process_ack` finds the data in flight exactly under the condition. -/
theorem plainAck_iff (s : TcpSocket) (ack : UInt32) : PlainAck s ack ↔ (s.sndUna < ack ↔ InFlight s ack) := by
  have hack : ack.toNat < 2 ^ 32 := ack.toNat_lt
  have huna : s.sndUna.toNat < 2 ^ 32 := s.sndUna.toNat_lt
  rw [inFlight_iff, PlainAck]
  simp only [UInt32.lt_iff_toNat_lt, UInt32.le_iff_toNat_le, toNat_sub32]
  omega

/-- Where `tcp_process_ack` leaves `snd_una`. -/
theorem tcpProcessAck_una (s : TcpSocket) (ack : UInt32) :
    (tcpProcessAck s ack).sndUna = if s.sndUna < ack then ack else s.sndUna := by
  unfold tcpProcessAck
  split
  · rfl
  · split <;> rfl

/-- An ACK keeps the count and the numbers together, whatever it acknowledges. -/
theorem Consistent.processAck (h : Consistent s) (ack : UInt32) : Consistent (tcpProcessAck s ack) := by
  unfold tcpProcessAck
  split
  · show s.cc.flightSize - (ack - s.sndUna) = s.sndNxt - ack
    have hack : ack.toNat < 2 ^ 32 := ack.toNat_lt
    have huna : s.sndUna.toNat < 2 ^ 32 := s.sndUna.toNat_lt
    rw [h, ← UInt32.toNat_inj]
    simp only [toNat_sub32]
    omega
  · split
    · have hflight : s.cc.duplicate.flightSize = s.cc.flightSize := by
        unfold TcpCc.duplicate
        simp only
        split <;> rfl
      show s.cc.duplicate.flightSize = s.sndNxt - s.sndUna
      rw [hflight]
      exact h
    · exact h

/-! ## What arrives -/

/-- The count and the numbers are what they were. -/
structure NumbersSame (s s' : TcpSocket) : Prop where
  una : s'.sndUna = s.sndUna
  nxt : s'.sndNxt = s.sndNxt
  flight : s'.cc.flightSize = s.cc.flightSize

theorem NumbersSame.refl (s : TcpSocket) : NumbersSame s s := ⟨rfl, rfl, rfl⟩

theorem NumbersSame.trans {s t u : TcpSocket} (h : NumbersSame s t) (h' : NumbersSame t u) : NumbersSame s u :=
  ⟨h'.una.trans h.una, h'.nxt.trans h.nxt, h'.flight.trans h.flight⟩

theorem NumbersSame.consistent {s s' : TcpSocket} (h : NumbersSame s s') (hc : Consistent s) : Consistent s' := by
  unfold Consistent
  rw [h.una, h.nxt, h.flight]
  exact hc

theorem rxData_numbers (s : TcpSocket) (seg : TcpSegment) : NumbersSame s (rxData s seg).1 := by
  unfold rxData
  split
  · exact ⟨rfl, rfl, rfl⟩
  · exact NumbersSame.refl s

theorem rxFin_numbers (s : TcpSocket) (seg : TcpSegment) : NumbersSame s (rxFin s seg).1 := by
  unfold rxFin
  split
  · exact ⟨rfl, rfl, rfl⟩
  · exact NumbersSame.refl s

theorem rxStream_numbers (s : TcpSocket) (seg : TcpSegment) : NumbersSame (rxAck s seg) (rxStream s seg).1 :=
  (rxData_numbers _ seg).trans (rxFin_numbers _ seg)

theorem Consistent.rxStream (h : Consistent s) (seg : TcpSegment) : Consistent (rxStream s seg).1 := by
  refine (rxStream_numbers s seg).consistent ?_
  unfold rxAck
  split
  · exact h.processAck seg.ack
  · exact h

/-- **Whatever arrives at a connected socket** keeps the count and the numbers together. -/
theorem Consistent.deliverTo (h : Consistent s) (hc : s.state.connected = true) (seg : TcpSegment) (us ms : Nat) :
    Consistent (deliverTo s seg us ms).1 := by
  unfold Net.deliverTo
  split
  · have ht : Consistent (s.touch ms) := h
    have hconn : (s.touch ms).state.connected = true := hc
    unfold tcpRxSocket
    generalize s.touch ms = t at ht hconn
    cases hst : t.state with
    | listen | synSent | synReceived =>
      rw [hst] at hconn
      cases hconn
    | established =>
      rw [tcpRxState_stream (Or.inl hst)]
      exact ht.rxStream seg
    | finWait1 =>
      rw [tcpRxState_stream (Or.inr (Or.inl hst))]
      exact ht.rxStream seg
    | finWait2 =>
      rw [tcpRxState_stream (Or.inr (Or.inr hst))]
      exact ht.rxStream seg
    | lastAck =>
      rw [tcpRxState_lastAck hst, rxLastAck]
      split <;> exact ht
    | closing =>
      rw [tcpRxState_closing hst, rxClosing]
      split <;> exact ht
    | closed =>
      rw [tcpRxState_idle (Or.inl hst)]
      exact ht
    | closeWait =>
      rw [tcpRxState_idle (Or.inr (Or.inl hst))]
      exact ht
    | timeWait =>
      rw [tcpRxState_idle (Or.inr (Or.inr hst))]
      exact ht
  · exact h

/-- An ACK on an established socket moves `snd_una` as `tcp_process_ack` does. -/
theorem deliverTo_una {seg : TcpSegment} (h : Acks s seg) (us ms : Nat) :
    (deliverTo s seg us ms).1.sndUna = if s.sndUna < seg.ack then seg.ack else s.sndUna := by
  obtain ⟨hm, hst, hack⟩ := h
  have hstream : tcpRxState (s.touch ms) seg us = rxStream (s.touch ms) seg := tcpRxState_stream (Or.inl hst)
  rw [deliverTo, if_pos hm, tcpRxSocket, hstream, (rxStream_numbers _ seg).una, rxAck, if_pos hack]
  exact tcpProcessAck_una (s.touch ms) seg.ack

theorem InFlight.ne {ack : UInt32} (h : InFlight s ack) : ack ≠ s.sndUna := by
  rintro rfl
  exact h.1 (UInt32.sub_self _)

/-- An ACK does what it has to exactly when its plain comparison is right. -/
theorem accounted_rx_iff {seg : TcpSegment} (h : Acks s seg) (us ms : Nat) :
    ((InFlight s seg.ack → (deliverTo s seg us ms).1.sndUna = seg.ack) ∧
      (¬ InFlight s seg.ack → (deliverTo s seg us ms).1.sndUna = s.sndUna)) ↔ PlainAck s seg.ack := by
  rw [deliverTo_una h, plainAck_iff]
  by_cases hlt : s.sndUna < seg.ack
  · have hne : seg.ack ≠ s.sndUna := by
      intro heq
      rw [heq] at hlt
      exact UInt32.lt_irrefl _ hlt
    simp only [if_pos hlt, iff_true_left hlt]
    exact ⟨fun hr => by_contra fun hno => hne (hr.2 hno), fun hin => ⟨fun _ => trivial, fun hno => absurd hin hno⟩⟩
  · simp only [if_neg hlt, iff_false_left hlt]
    exact ⟨fun hr hin => hin.ne (hr.1 hin).symm, fun hno => ⟨fun hin => absurd hin hno, fun _ => trivial⟩⟩

/-! ## The timer -/

theorem tcpTimer_numbers (s : TcpSocket) (now : Nat) : NumbersSame s (tcpTimer s now).1 := by
  unfold tcpTimer
  split
  · have hretransmit : NumbersSame s (timerRetransmit s now) := by
      unfold timerRetransmit
      split
      · exact ⟨rfl, rfl, rfl⟩
      · exact NumbersSame.refl s
    generalize timerRetransmit s now = t at hretransmit
    have halive : NumbersSame t (timerKeepAlive t now).1 := by
      unfold timerKeepAlive
      split
      · simp only
        split <;> exact ⟨rfl, rfl, rfl⟩
      · exact NumbersSame.refl t
    have hwait : NumbersSame (timerKeepAlive t now).1 (timerTimeWait (timerKeepAlive t now).1 now) := by
      unfold timerTimeWait
      split
      · exact ⟨rfl, rfl, rfl⟩
      · exact NumbersSame.refl _
    exact (hretransmit.trans halive).trans hwait
  · exact NumbersSame.refl s

/-! ## A round of `tcp_send` -/

theorem queueData_numbers (s : TcpSocket) (data : List Byte) : NumbersSame s (queueData s data) := ⟨rfl, rfl, rfl⟩

/-- What is in flight after a segment fits the window exactly where there was room left. -/
theorem flight_le_cwnd_iff {n count : Nat} (hcount : count < 2 ^ 32) (hn : 0 < n)
    (hpayload : n = min (min count (s.cc.cwnd - s.cc.flightSize).toNat) s.mss) :
    s.cc.flightSize + UInt32.ofNat n ≤ s.cc.cwnd ↔
      s.cc.flightSize ≤ s.cc.cwnd ∨ 2 ^ 32 ≤ s.cc.flightSize.toNat + min count s.mss := by
  have hflight : s.cc.flightSize.toNat < 2 ^ 32 := s.cc.flightSize.toNat_lt
  have hcwnd : s.cc.cwnd.toNat < 2 ^ 32 := s.cc.cwnd.toNat_lt
  rw [toNat_sub32] at hpayload
  rw [UInt32.le_iff_toNat_le, UInt32.le_iff_toNat_le, UInt32.toNat_add, UInt32.toNat_ofNat']
  omega

/-- The count after a segment agrees with the numbers exactly when it was transmitted. -/
theorem consistent_sendQueued_iff {n : Nat} (hn : 0 < n) (hlt : n < 2 ^ 32) (hc : Consistent s) (sent : Bool) :
    Consistent (sendQueued s n sent).1 ↔ sent = true := by
  have hcount : (ringList s.txCells TCP_TX_BUF_SIZE s.txTail n).length = n := length_ringList
  have huna : s.sndUna.toNat < 2 ^ 32 := s.sndUna.toNat_lt
  have hnxt : s.sndNxt.toNat < 2 ^ 32 := s.sndNxt.toNat_lt
  cases sent with
  | true =>
    refine iff_true_right rfl |>.mpr ?_
    show s.cc.flightSize + UInt32.ofNat n = s.sndNxt + UInt32.ofNat (ringList _ _ _ n).length - s.sndUna
    rw [hcount, hc, ← UInt32.toNat_inj]
    simp only [toNat_sub32, UInt32.toNat_add, UInt32.toNat_ofNat']
    omega
  | false =>
    refine iff_of_false ?_ Bool.false_ne_true
    show ¬ s.cc.flightSize + UInt32.ofNat n = s.sndNxt - s.sndUna
    rw [hc, ← UInt32.toNat_inj]
    simp only [toNat_sub32, UInt32.toNat_add, UInt32.toNat_ofNat']
    omega

/-- **A round of `tcp_send`** from consistent numbers keeps them, and sends within the
    window, exactly when the condition is met. -/
theorem round_iff {data : List Byte} {sent : Bool} {out : TcpSocket × List Byte × List TcpSegment}
    (hc : Consistent s) (h : tcpSendRound s data sent = some out) :
    (Consistent out.1 ∧ (SendsSegment s data → sent = true → out.1.cc.flightSize ≤ out.1.cc.cwnd)) ↔
      (SendsSegment s data → sent = true ∧ RoomLeft s data.length) := by
  obtain ⟨-, hend⟩ := tcpSendRound_end h
  cases hend with
  | queued k hk hno =>
    have hsame := (queueData_numbers s (data.take k)).consistent hc
    exact ⟨fun _ hs => absurd hs hno, fun _ => ⟨hsame, fun hs => absurd hs hno⟩⟩
  | offered k n hk hsends hn hpayload =>
    subst hk
    have hq := (queueData_numbers s (data.take (min data.length (txSpace s)))).consistent hc
    rw [sendPayload_queueData] at hpayload
    have hcount : queuedCount s data.length < 2 ^ 32 := Nat.mod_lt _ (by decide)
    have hlt : n < 2 ^ 32 := by omega
    have hroom := flight_le_cwnd_iff hcount hn hpayload
    simp only [hsends, true_implies]
    rw [consistent_sendQueued_iff hn hlt hq sent]
    refine and_congr_right fun hsent => ?_
    subst hsent
    exact (forall_prop_of_true rfl).trans hroom

/-! ## Runs -/

/-- **The sharp step**: from consistent numbers a step keeps them and does what it has to
    exactly when it meets the condition. -/
theorem accounted_step {st st' : SendState} {op : SendOp} (hconn : st.sock.state.connected = true)
    (hc : Consistent st.sock) (h : sendStep st op = some st') :
    (Consistent st'.sock ∧ Accounted st op st') ↔ AccountGuard st op := by
  cases op with
  | send data =>
    obtain ⟨-, -, rfl⟩ := sendStep_send h
    exact ⟨fun _ => trivial, fun _ => ⟨hc, trivial⟩⟩
  | round sent =>
    obtain ⟨-, out, hout, rfl⟩ := sendStep_round h
    exact round_iff hc hout
  | rx seg us ms =>
    obtain rfl := Option.some.inj h
    have hkeep := hc.deliverTo hconn seg us ms
    show (Consistent (deliverTo st.sock seg us ms).1 ∧ (Acks st.sock seg → _)) ↔ (Acks st.sock seg → _)
    rw [and_iff_right hkeep]
    exact forall_congr' fun hacks => accounted_rx_iff hacks us ms
  | timer now =>
    obtain rfl := Option.some.inj h
    exact ⟨fun _ => trivial, fun _ => ⟨(tcpTimer_numbers st.sock now).consistent hc, trivial⟩⟩

/-- **What is in flight is accounted for exactly under the condition**: in a run from
    an established socket with consistent numbers the count agrees with the numbers in
    every state, and every ACK and every segment of data does what it has to, exactly
    when every step meets the condition. -/
theorem accounted_iff (st : SendState) (ops : List SendOp) (hest : st.sock.state = .established)
    (hc : Consistent st.sock) :
    (Always sendStep (fun st => Consistent st.sock) st ops ∧ AlwaysStep sendStep Accounted st ops) ↔
      Meets sendStep AccountGuard st ops := by
  have hconn : st.sock.state.connected = true := by rw [hest]; rfl
  have hiff := @always_step_iff _ _ sendStep (fun st => Consistent st.sock) AccountGuard
    (fun st => st.sock.state.connected = true) Accounted
    (fun _ _ _ h hs => sendStep_connected h hs)
    (fun _ _ _ hI hP hg hs => (accounted_step hI hP hs).mpr hg)
    (fun _ _ _ hI hP hs hP' hR => (accounted_step hI hP hs).mp ⟨hP', hR⟩) ops st hconn
  exact hiff.trans (and_iff_right hc)

theorem accounted_iff_byte :
    Always sendStep (fun st => Consistent st.sock) freshSend [.send [7], .round true, .rx (peerAck 1) 0 0, .timer 9] ∧
      AlwaysStep sendStep Accounted freshSend [.send [7], .round true, .rx (peerAck 1) 0 0, .timer 9] :=
  (accounted_iff freshSend [.send [7], .round true, .rx (peerAck 1) 0 0, .timer 9] rfl rfl).mpr
    (meets_of_check (fun st op => decide (AccountGuard st op)) (fun _ _ h => of_decide_eq_true h) (by decide))

/-- An ACK of 1000 bytes that were never sent is taken. -/
theorem forgedAck_taken :
    freshSend.sock.state = .established ∧ Consistent freshSend.sock ∧
      ¬ (Always sendStep (fun st => Consistent st.sock) freshSend [.rx (peerAck 1000) 0 0] ∧
        AlwaysStep sendStep Accounted freshSend [.rx (peerAck 1000) 0 0]) := by
  refine ⟨rfl, rfl, ?_⟩
  rintro ⟨-, hsteps⟩
  have hacks : Acks freshSend.sock (peerAck 1000) := by decide
  have hno : ¬ InFlight freshSend.sock (peerAck 1000).ack := by
    rintro ⟨-, hle⟩
    exact absurd hle (by decide)
  exact absurd (((hsteps _ rfl).1 hacks).2 hno) (by decide)

end Crimson.Net
