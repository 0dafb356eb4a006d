import Crimson.Lib.Run
import Crimson.Net.Tcp

/-!
# The congestion window (`net.c`)

A socket from `tcp_socket_create` under every call and every event that reaches it. Only
two functions move the congestion window and the slow-start threshold:
`tcp_process_ack`, in three ways, and the retransmit timer. The window never leaves
`[MSS, MSS² + MSS]`; it takes a bound on the threshold, MSS², to see that slow start
stops in time.
-/

set_option autoImplicit false

namespace Crimson.Net

open Crimson.Lib

/-- What can happen to a socket. `ack` is a call of `tcp_process_ack`; `rx` is a segment
    that `tcp_rx` found the socket for. -/
inductive SocketOp where
  | bind (ip port : Nat)
  | listen
  | connect (ip port localPort us ms : Nat)
  | ack (ack : UInt32)
  | rx (seg : TcpSegment) (us ms : Nat)
  /-- One round of the loop of `tcp_send`, and whether its segment is transmitted. -/
  | round (data : List Byte) (sent : Bool)
  | recv (len : Nat)
  | closeStart
  | closeFinish
  | timer (now : Nat)

def socketStep (s : TcpSocket) : SocketOp → Option TcpSocket
  | .bind ip port => some (tcpBind s ip port)
  | .listen => some (tcpListen s)
  | .connect ip port localPort us ms => some (tcpConnectStart s ip port localPort us ms).1
  | .ack ack => some (tcpProcessAck s ack)
  | .rx seg us ms => some (tcpRxSocket s seg us ms).1
  | .round data sent => (tcpSendRound s data sent).map Prod.fst
  | .recv len => some (tcpRecv s len).1
  | .closeStart => some (tcpCloseStart s).1
  | .closeFinish => some (tcpCloseFinish s)
  | .timer now => some (tcpTimer s now).1

/-! ## The bounds -/

/-- The window's bounds, and the one on the threshold that they need. -/
structure CwndOk (cc : TcpCc) : Prop where
  low : TCP_MSS ≤ cc.cwnd.toNat
  high : cc.cwnd.toNat ≤ TCP_MSS * TCP_MSS + TCP_MSS
  threshold : cc.ssthresh.toNat ≤ TCP_MSS * TCP_MSS

/-- What `tcp_process_ack` computes with the window stays within 32 bits: the two ways it
    grows, the divisor of the second, and the window after the third duplicate. -/
structure CwndExact (cc : TcpCc) : Prop where
  slowStart : cc.cwnd.toNat + TCP_MSS < 2 ^ 32
  divisor : cc.cwnd ≠ 0
  avoidance : cc.cwnd.toNat + TCP_MSS * TCP_MSS / cc.cwnd.toNat < 2 ^ 32
  halved : max (cc.cwnd.toNat / 2) (2 * TCP_MSS) + 3 * TCP_MSS < 2 ^ 32

variable {cc cc' : TcpCc}

/-- Above MSS the increment of congestion avoidance is at most MSS. -/
theorem CwndOk.increment_le (h : CwndOk cc) : TCP_MSS * TCP_MSS / cc.cwnd.toNat ≤ TCP_MSS := by
  have hpos : 0 < TCP_MSS := by decide
  calc TCP_MSS * TCP_MSS / cc.cwnd.toNat ≤ TCP_MSS * TCP_MSS / TCP_MSS := Nat.div_le_div_left h.low hpos
    _ = TCP_MSS := Nat.mul_div_cancel _ hpos

/-- Above MSS² there is no increment. -/
theorem increment_zero (h : TCP_MSS * TCP_MSS < cc.cwnd.toNat) : TCP_MSS * TCP_MSS / cc.cwnd.toNat = 0 :=
  Nat.div_eq_of_lt h

theorem CwndOk.exact (h : CwndOk cc) : CwndExact cc where
  slowStart := by
    have hhigh := h.high
    simp only [TCP_MSS] at hhigh ⊢
    omega
  divisor := by
    intro hzero
    have hlow := h.low
    rw [hzero] at hlow
    exact absurd hlow (by decide)
  avoidance := by
    have hinc := h.increment_le
    have hhigh := h.high
    simp only [TCP_MSS] at hinc hhigh ⊢
    omega
  halved := by
    have hhigh := h.high
    simp only [TCP_MSS] at hhigh ⊢
    omega

/-- The window after an ACK of new data, as a number. -/
theorem toNat_grow_cwnd (h : CwndOk cc) (acked : UInt32) :
    (cc.grow acked).cwnd.toNat =
      if cc.cwnd.toNat < cc.ssthresh.toNat then cc.cwnd.toNat + TCP_MSS
      else cc.cwnd.toNat + TCP_MSS * TCP_MSS / cc.cwnd.toNat := by
  have hexact := h.exact
  have hmss : (UInt32.ofNat TCP_MSS).toNat = TCP_MSS := rfl
  have hsquare : (UInt32.ofNat (TCP_MSS * TCP_MSS)).toNat = TCP_MSS * TCP_MSS := rfl
  unfold TcpCc.grow
  simp only [UInt32.lt_iff_toNat_lt]
  split
  · rw [UInt32.toNat_add, hmss, Nat.mod_eq_of_lt hexact.slowStart]
  · have hsum : (cc.cwnd + UInt32.ofNat (TCP_MSS * TCP_MSS) / cc.cwnd).toNat =
        cc.cwnd.toNat + TCP_MSS * TCP_MSS / cc.cwnd.toNat := by
      rw [UInt32.toNat_add, UInt32.toNat_div, hsquare, Nat.mod_eq_of_lt hexact.avoidance]
    have hge : ¬ (cc.cwnd + UInt32.ofNat (TCP_MSS * TCP_MSS) / cc.cwnd).toNat < (UInt32.ofNat TCP_MSS).toNat := by
      rw [hsum, hmss]
      exact Nat.not_lt.mpr (Nat.le_add_right_of_le h.low)
    rw [if_neg hge, hsum]

theorem CwndOk.grow (h : CwndOk cc) (acked : UInt32) : CwndOk (cc.grow acked) := by
  have hlow := h.low
  have hthreshold : (cc.grow acked).ssthresh.toNat ≤ TCP_MSS * TCP_MSS := h.threshold
  refine ⟨?_, ?_, hthreshold⟩
  · rw [toNat_grow_cwnd h]
    split
    · exact Nat.le_add_right_of_le hlow
    · exact Nat.le_add_right_of_le hlow
  · rw [toNat_grow_cwnd h]
    split
    · rename_i hslow
      have hbound := h.threshold
      omega
    · by_cases hbig : TCP_MSS * TCP_MSS < cc.cwnd.toNat
      · rw [increment_zero hbig]
        exact h.high
      · exact Nat.add_le_add (Nat.le_of_not_lt hbig) h.increment_le

/-- The threshold after the third duplicate: half the window, and at least two segments. -/
theorem CwndOk.duplicate (h : CwndOk cc) : CwndOk cc.duplicate := by
  unfold TcpCc.duplicate
  simp only
  split
  · have hhalf : (cc.cwnd / 2).toNat = cc.cwnd.toNat / 2 := UInt32.toNat_div _ _
    have hhigh := h.high
    generalize hth : (if cc.cwnd / 2 < UInt32.ofNat (2 * TCP_MSS) then UInt32.ofNat (2 * TCP_MSS) else cc.cwnd / 2) =
      ssthresh
    have hle : ssthresh.toNat ≤ max (2 * TCP_MSS) (cc.cwnd.toNat / 2) := by
      subst hth
      split
      · exact Nat.le_max_left _ _
      · rw [hhalf]
        exact Nat.le_max_right _ _
    have hsum : (ssthresh + UInt32.ofNat (3 * TCP_MSS)).toNat = ssthresh.toNat + 3 * TCP_MSS := by
      rw [UInt32.toNat_add]
      refine Nat.mod_eq_of_lt ?_
      show ssthresh.toNat + 3 * TCP_MSS < 2 ^ 32
      simp only [TCP_MSS] at hle hhigh ⊢
      omega
    simp only [TCP_MSS] at hle hhigh hsum
    constructor
    · show TCP_MSS ≤ (ssthresh + UInt32.ofNat (3 * TCP_MSS)).toNat
      simp only [TCP_MSS]
      omega
    · show (ssthresh + UInt32.ofNat (3 * TCP_MSS)).toNat ≤ TCP_MSS * TCP_MSS + TCP_MSS
      simp only [TCP_MSS]
      omega
    · show ssthresh.toNat ≤ TCP_MSS * TCP_MSS
      simp only [TCP_MSS]
      omega
  · exact ⟨h.low, h.high, h.threshold⟩

theorem CwndOk.timeout (h : CwndOk cc) :
    CwndOk { cc with ssthresh := cc.cwnd / 2, cwnd := UInt32.ofNat TCP_MSS } where
  low := Nat.le_refl _
  high := Nat.le_add_left _ _
  threshold := by
    have hhalf : (cc.cwnd / 2).toNat = cc.cwnd.toNat / 2 := UInt32.toNat_div _ _
    have hhigh := h.high
    show (cc.cwnd / 2).toNat ≤ _
    rw [hhalf]
    simp only [TCP_MSS] at hhigh ⊢
    omega

/-- The data in flight and the count of duplicates have no part in it. -/
theorem CwndOk.congr (h : CwndOk cc) (hcwnd : cc'.cwnd = cc.cwnd) (hth : cc'.ssthresh = cc.ssthresh) : CwndOk cc' where
  low := hcwnd ▸ h.low
  high := hcwnd ▸ h.high
  threshold := hth ▸ h.threshold

/-! ## The calls -/

variable {s s' : TcpSocket}

theorem CwndOk.processAck (h : CwndOk s.cc) (ack : UInt32) : CwndOk (tcpProcessAck s ack).cc := by
  unfold tcpProcessAck
  split
  · exact h.grow _
  · split
    · exact h.duplicate
    · exact h

theorem CwndOk.rxAck (h : CwndOk s.cc) (seg : TcpSegment) : CwndOk (rxAck s seg).cc := by
  unfold Net.rxAck
  split
  · exact h.processAck seg.ack
  · exact h

theorem rxData_cc (s : TcpSocket) (seg : TcpSegment) : (rxData s seg).1.cc = s.cc := by
  unfold rxData
  split <;> rfl

theorem rxFin_cc (s : TcpSocket) (seg : TcpSegment) : (rxFin s seg).1.cc = s.cc := by
  unfold rxFin
  split <;> rfl

theorem CwndOk.rxSynSent (h : CwndOk s.cc) (seg : TcpSegment) : CwndOk (rxSynSent s seg).1.cc := by
  unfold Net.rxSynSent
  split
  · simp only
    split
    · exact CwndOk.processAck (s := { s with irs := seg.seq, rcvNxt := seg.seq + 1, sndUna := seg.ack }) h seg.ack
    · exact h
  · exact h

theorem CwndOk.rxSynReceived (h : CwndOk s.cc) (seg : TcpSegment) : CwndOk (rxSynReceived s seg).cc := by
  unfold Net.rxSynReceived
  split
  · exact CwndOk.processAck (s := { s with sndUna := seg.ack }) h seg.ack
  · exact h

theorem CwndOk.rxStream (h : CwndOk s.cc) (seg : TcpSegment) : CwndOk (rxStream s seg).1.cc := by
  show CwndOk (rxFin (rxData (Net.rxAck s seg) seg).1 seg).1.cc
  rw [rxFin_cc, rxData_cc]
  exact h.rxAck seg

/-- A segment in any state of the socket. -/
theorem CwndOk.rx (h : CwndOk s.cc) (seg : TcpSegment) (us ms : Nat) : CwndOk (tcpRxSocket s seg us ms).1.cc := by
  have ht : CwndOk (s.touch ms).cc := h
  unfold tcpRxSocket
  generalize s.touch ms = t at ht
  unfold tcpRxState
  split
  · exact ht.rxSynSent seg
  · exact ht.rxSynReceived seg
  · unfold rxListen
    split <;> exact ht
  · exact ht.rxStream seg
  · exact ht.rxStream seg
  · exact ht.rxStream seg
  · unfold rxLastAck
    split <;> exact ht
  · unfold rxClosing
    split <;> exact ht
  · exact ht
  · exact ht
  · exact ht

theorem CwndOk.round {data : List Byte} {sent : Bool} {out : TcpSocket × List Byte × List TcpSegment} (h : CwndOk s.cc)
    (hr : tcpSendRound s data sent = some out) : CwndOk out.1.cc := by
  unfold tcpSendRound at hr
  simp only at hr
  split at hr
  · cases hr
  · split at hr
    · split at hr
      · obtain rfl := Option.some.inj hr
        exact h.congr rfl rfl
      · obtain rfl := Option.some.inj hr
        exact h
    · obtain rfl := Option.some.inj hr
      exact h

theorem CwndOk.timer (h : CwndOk s.cc) (now : Nat) : CwndOk (tcpTimer s now).1.cc := by
  have hretransmit : CwndOk (timerRetransmit s now).cc := by
    unfold timerRetransmit
    split
    · exact h.timeout
    · exact h
  unfold tcpTimer
  split
  · generalize timerRetransmit s now = t at hretransmit
    have halive : (timerKeepAlive t now).1.cc = t.cc := by
      unfold timerKeepAlive
      split
      · simp only
        split <;> rfl
      · rfl
    have hwait : (timerTimeWait (timerKeepAlive t now).1 now).cc = t.cc := by
      rw [← halive]
      unfold timerTimeWait
      split <;> rfl
    show CwndOk (timerTimeWait (timerKeepAlive t now).1 now).cc
    rw [hwait]
    exact hretransmit
  · exact h

/-- **Every step keeps the bounds.** -/
theorem CwndOk.step {op : SocketOp} (h : CwndOk s.cc) (hs : socketStep s op = some s') : CwndOk s'.cc := by
  cases op with
  | ack ack =>
    obtain rfl := Option.some.inj hs
    exact h.processAck ack
  | rx seg us ms =>
    obtain rfl := Option.some.inj hs
    exact h.rx seg us ms
  | round data sent =>
    obtain ⟨out, hout, rfl⟩ := Option.map_eq_some_iff.mp hs
    exact h.round hout
  | timer now =>
    obtain rfl := Option.some.inj hs
    exact h.timer now
  | closeStart =>
    obtain rfl := Option.some.inj hs
    unfold tcpCloseStart
    split <;> exact h
  | bind | listen | connect | recv | closeFinish =>
    obtain rfl := Option.some.inj hs
    exact h

theorem freshSocket_cwndOk (rxBuf txBuf : Nat) : CwndOk (freshSocket rxBuf txBuf).cc where
  low := Nat.le_refl _
  high := Nat.le_add_left _ _
  threshold := by
    show 65535 ≤ TCP_MSS * TCP_MSS
    decide

/-- **The congestion window stays within its bounds**: after any calls and events since
    `tcp_socket_create` the window is between MSS and MSS² + MSS, and what the next ACK
    computes with it neither divides by zero nor wraps. -/
theorem cwnd_bounded (rxBuf txBuf : Nat) (ops : List SocketOp) :
    Always socketStep
      (fun s => 1460 ≤ s.cc.cwnd.toNat ∧ s.cc.cwnd.toNat ≤ 1460 * 1460 + 1460 ∧ CwndExact s.cc)
      (freshSocket rxBuf txBuf) ops := by
  have hok : Always socketStep (fun s => CwndOk s.cc) (freshSocket rxBuf txBuf) ops :=
    always_of_step (fun _ _ _ h hs => h.step hs) (freshSocket_cwndOk rxBuf txBuf)
  exact hok.mono fun s h => ⟨h.low, h.high, h.exact⟩

end Crimson.Net
