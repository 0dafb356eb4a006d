import Crimson.Net.Congestion
import Crimson.Net.SendSide

/-!
# Whether `tcp_send` comes to an end (`net.c`)

The whole of one `tcp_send`, against a peer that acknowledges everything while it yields.
ACKs do not touch the transmit buffer: only a round of `tcp_send` takes bytes off it, at
most one segment, and right after it copied some. So a call that does not fit the buffer
leaves it nearly full, and one that does leaves it empty only if one segment took it all.
-/

set_option autoImplicit false

namespace Crimson.Net

open Crimson.Lib

/-- A peer that, whenever the socket yields, sends it segments of which one acknowledges
    everything transmitted. -/
structure AckingPeer where
  sends : Nat → TcpSocket → List TcpSegment
  acks : ∀ k s, ∃ seg ∈ sends k s, seg.srcIp = s.remoteIp ∧ seg.srcPort = s.remotePort ∧
    seg.dstPort = s.localPort ∧ seg.has TCP_FLAG_ACK = true ∧ seg.ack = s.sndNxt

/-- The segments that arrive during one `scheduler_yield`. -/
def arrive (s : TcpSocket) (segs : List TcpSegment) (us ms : Nat) : TcpSocket :=
  segs.foldl (fun s seg => (deliverTo s seg us ms).1) s

/-- What does not come from the socket: the peer, the clock, and the results of `tcp_send_segment`. -/
structure SendWorld where
  peer : AckingPeer
  us : Nat → Nat
  ms : Nat → Nat
  sent : Nat → Bool

/-- The loop of `tcp_send` from its iteration `k`. `none`: it still runs after `fuel` iterations. -/
def sendLoop (w : SendWorld) : Nat → Nat → TcpSocket → List Byte → Option TcpSocket
  | _, _, s, [] => some s
  | 0, _, _, _ :: _ => none
  | fuel + 1, k, s, b :: bs =>
    match tcpSendRound s (b :: bs) (w.sent k) with
    | none => sendLoop w fuel (k + 1) (arrive s (w.peer.sends k s) (w.us k) (w.ms k)) (b :: bs)
    | some out => sendLoop w fuel (k + 1) out.1 out.2.1

/-- `tcp_send`: the socket and the value returned, if it returns within `fuel` iterations. -/
def tcpSend (w : SendWorld) (fuel : Nat) (s : TcpSocket) (data : List Byte) : Option (TcpSocket × Int) :=
  if s.inUse ∧ s.state = .established then
    (sendLoop w fuel 0 s data).map fun s' => (s', (data.length : Int))
  else some (s, -1)

/-- `tcp_send` returns `len`, and whatever arrives later nothing stays in the buffer. -/
def Delivers (w : SendWorld) (s : TcpSocket) (data : List Byte) : Prop :=
  ∃ fuel s', tcpSend w fuel s data = some (s', (data.length : Int)) ∧
    ∀ k us ms, (arrive s' (w.peer.sends k s') us ms).txCount = 0

/-- The window that is left, as the source computes it. -/
def windowLeft (s : TcpSocket) : Nat := (s.cc.cwnd - s.cc.flightSize).toNat

/-- Nothing to send and nothing queued; or all that is queued and given fits one segment
    and the window, and may be sent. -/
def OneSegment (s : TcpSocket) (len : Nat) : Prop :=
  len = 0 ∧ s.txCount = 0 ∨
  0 < len ∧ s.txCount + len ≤ min (windowLeft s) TCP_MSS ∧ (s.sndUna = s.sndNxt ∨ TCP_MSS ≤ len)

/-- The buffer and the segment size are as the stack keeps them. -/
structure BufferOk (s : TcpSocket) : Prop where
  mss : s.mss = TCP_MSS
  count : s.txCount ≤ TCP_TX_BUF_SIZE

variable {s : TcpSocket} {data : List Byte}

/-- The bytes a round copies. -/
def toCopy (s : TcpSocket) (len : Nat) : Nat := min len (TCP_TX_BUF_SIZE - s.txCount)

theorem txSpace_eq (h : s.txCount ≤ TCP_TX_BUF_SIZE) : txSpace s = TCP_TX_BUF_SIZE - s.txCount := by
  have hsize : TCP_TX_BUF_SIZE < 2 ^ 32 := by decide
  unfold txSpace
  omega

/-! ## A full buffer -/

theorem arrive_count (segs : List TcpSegment) (us ms : Nat) (hc : s.state.connected = true) :
    (arrive s segs us ms).txCount = s.txCount ∧ (arrive s segs us ms).state.connected = true := by
  induction segs generalizing s with
  | nil => exact ⟨rfl, hc⟩
  | cons seg segs ih =>
    have hq := deliverTo_quiet s seg us ms hc
    obtain ⟨hcount, hconn⟩ := ih (hq.connected hc)
    exact ⟨hcount.trans hq.same.count, hconn⟩

/-- With no space in the buffer the loop waits, and no ACK makes space. -/
theorem sendLoop_full (w : SendWorld) (fuel k : Nat) (hc : s.state.connected = true) (hfull : txSpace s = 0)
    (hdata : data ≠ []) : sendLoop w fuel k s data = none := by
  obtain ⟨b, bs, rfl⟩ := List.exists_cons_of_ne_nil hdata
  induction fuel generalizing k s with
  | zero => rfl
  | succ fuel ih =>
    obtain ⟨hcount, hconn⟩ := arrive_count (w.peer.sends k s) (w.us k) (w.ms k) hc
    have hspace : txSpace (arrive s (w.peer.sends k s) (w.us k) (w.ms k)) = 0 := by
      rw [txSpace, hcount]
      exact hfull
    rw [sendLoop, tcpSendRound_wait hfull]
    exact ih (k + 1) hconn hspace

/-! ## One round -/

theorem tcpSendRound_taken (h : txSpace s ≠ 0) (data : List Byte) (sent : Bool) :
    ∃ out, tcpSendRound s data sent = some out := by
  rw [tcpSendRound]
  simp only [if_neg h]
  split
  · split
    · exact ⟨_, rfl⟩
    · exact ⟨_, rfl⟩
  · exact ⟨_, rfl⟩

/-- What a round leaves in the buffer. -/
structure RoundCounts (s : TcpSocket) (data : List Byte) (out : TcpSocket × List Byte × List TcpSegment) : Prop where
  rest : out.2.1 = data.drop (toCopy s data.length)
  mss : out.1.mss = s.mss
  connected : s.state.connected = true → out.1.state.connected = true
  queued : ¬ SendsSegment s data → out.1.txCount = s.txCount + toCopy s data.length
  offered : SendsSegment s data →
    out.1.txCount = s.txCount + toCopy s data.length -
      min (min (s.txCount + toCopy s data.length) (windowLeft s)) TCP_MSS

theorem queuedCount_eq (h : BufferOk s) (len : Nat) : queuedCount s len = s.txCount + toCopy s len := by
  have hsize : TCP_TX_BUF_SIZE < 2 ^ 32 := by decide
  have hle := h.count
  have hfit : s.txCount + toCopy s len < 2 ^ 32 := by
    unfold toCopy
    omega
  rw [queuedCount, txSpace_eq h.count]
  exact Nat.mod_eq_of_lt hfit

theorem sendPayload_eq (h : BufferOk s) (data : List Byte) :
    sendPayload (queueData s (data.take (min data.length (txSpace s)))) =
      min (min (s.txCount + toCopy s data.length) (windowLeft s)) TCP_MSS := by
  rw [sendPayload_queueData, queuedCount_eq h, h.mss, windowLeft]

/-- When a round offers a segment. -/
theorem sendsSegment_iff (h : BufferOk s) (data : List Byte) :
    SendsSegment s data ↔ (s.sndUna = s.sndNxt ∨ TCP_MSS ≤ toCopy s data.length) ∧
      0 < min (min (s.txCount + toCopy s data.length) (windowLeft s)) TCP_MSS := by
  rw [← sendPayload_eq h, ← h.mss, toCopy, ← txSpace_eq h.count]
  rfl

theorem round_counts {sent : Bool} {out : TcpSocket × List Byte × List TcpSegment} (h : BufferOk s)
    (hr : tcpSendRound s data sent = some out) : RoundCounts s data out := by
  have hcopy : min data.length (txSpace s) = toCopy s data.length := by rw [txSpace_eq h.count, toCopy]
  have hcount := queueData_count s data
  rw [queuedCount_eq h] at hcount
  have hpayload := sendPayload_eq h data
  rw [hcopy] at hcount hpayload
  have hidle := (tcpSendRound_idle hr).connected
  obtain ⟨-, hend⟩ := tcpSendRound_end hr
  cases hend with
  | queued k hk hno =>
    obtain rfl := hk.trans hcopy
    exact ⟨rfl, rfl, hidle, fun _ => hcount, fun hsends => absurd hsends hno⟩
  | offered k n hk hsends hn hn' =>
    obtain rfl := hk.trans hcopy
    refine ⟨rfl, ?_, hidle, fun hno => absurd hsends hno, fun _ => ?_⟩
    · cases sent <;> rfl
    · have hsize : TCP_TX_BUF_SIZE < 2 ^ 32 := by decide
      have hle := h.count
      have hsum : s.txCount + toCopy s data.length ≤ TCP_TX_BUF_SIZE := by
        unfold toCopy
        omega
      rw [hpayload] at hn'
      show ((queueData s (data.take (toCopy s data.length))).txCount + 2 ^ 32 - n) % 2 ^ 32 = _
      rw [hcount, ← hn']
      omega

/-- A round takes at most one segment off the buffer. -/
theorem RoundCounts.low {out : TcpSocket × List Byte × List TcpSegment} (h : RoundCounts s data out) :
    s.txCount + toCopy s data.length ≤ out.1.txCount + TCP_MSS ∧
      out.1.txCount ≤ s.txCount + toCopy s data.length := by
  by_cases hsends : SendsSegment s data
  · rw [h.offered hsends]
    omega
  · rw [h.queued hsends]
    omega

theorem RoundCounts.bufferOk {out : TcpSocket × List Byte × List TcpSegment} (h : RoundCounts s data out)
    (hok : BufferOk s) : BufferOk out.1 where
  mss := h.mss.trans hok.mss
  count := by
    have hle := h.low.2
    have hcount := hok.count
    unfold toCopy at hle
    omega

/-- A round that leaves something to copy has filled the buffer. -/
theorem RoundCounts.full {out : TcpSocket × List Byte × List TcpSegment} (h : RoundCounts s data out)
    (hok : BufferOk s) (hrest : out.2.1 ≠ []) : TCP_TX_BUF_SIZE ≤ out.1.txCount + TCP_MSS := by
  have hlow := h.low.1
  have hcount := hok.count
  rw [h.rest, ne_eq, List.drop_eq_nil_iff] at hrest
  unfold toCopy at hlow hrest
  omega

/-! ## Every socket -/

/-- The segment size and the count of the transmit buffer are left alone. -/
structure BufferSame (s s' : TcpSocket) : Prop where
  mss : s'.mss = s.mss
  count : s'.txCount = s.txCount

theorem BufferSame.refl (s : TcpSocket) : BufferSame s s := ⟨rfl, rfl⟩

theorem BufferSame.trans {s t u : TcpSocket} (h : BufferSame s t) (h' : BufferSame t u) : BufferSame s u :=
  ⟨h'.mss.trans h.mss, h'.count.trans h.count⟩

theorem BufferSame.bufferOk {s s' : TcpSocket} (h : BufferSame s s') (hok : BufferOk s) : BufferOk s' where
  mss := h.mss.trans hok.mss
  count := h.count ▸ hok.count

theorem tcpProcessAck_buffer (s : TcpSocket) (ack : UInt32) : BufferSame s (tcpProcessAck s ack) := by
  obtain ⟨una, cc, h⟩ := tcpProcessAck_eq s ack
  rw [h]
  exact ⟨rfl, rfl⟩

theorem rxStream_buffer (s : TcpSocket) (seg : TcpSegment) : BufferSame s (rxStream s seg).1 := by
  obtain ⟨una, cc, wnd, h⟩ := rxAck_eq s seg
  have hack : BufferSame s (rxAck s seg) := by
    rw [h]
    exact ⟨rfl, rfl⟩
  have hdata : ∀ t, BufferSame t (rxData t seg).1 := by
    intro t
    unfold rxData
    split <;> exact ⟨rfl, rfl⟩
  have hfin : ∀ t, BufferSame t (rxFin t seg).1 := by
    intro t
    unfold rxFin
    split <;> exact ⟨rfl, rfl⟩
  exact (hack.trans (hdata _)).trans (hfin _)

/-- Nothing that arrives touches the transmit buffer. -/
theorem tcpRxSocket_buffer (s : TcpSocket) (seg : TcpSegment) (us ms : Nat) :
    BufferSame s (tcpRxSocket s seg us ms).1 := by
  have ht : BufferSame s (s.touch ms) := ⟨rfl, rfl⟩
  refine ht.trans ?_
  unfold tcpRxSocket
  generalize s.touch ms = t
  unfold tcpRxState
  split
  · unfold rxSynSent
    split
    · simp only
      split
      · have hack := tcpProcessAck_buffer { t with irs := seg.seq, rcvNxt := seg.seq + 1, sndUna := seg.ack } seg.ack
        exact ⟨hack.mss, hack.count⟩
      · exact ⟨rfl, rfl⟩
    · exact BufferSame.refl t
  · unfold rxSynReceived
    split
    · have hack := tcpProcessAck_buffer { t with sndUna := seg.ack } seg.ack
      exact ⟨hack.mss, hack.count⟩
    · exact BufferSame.refl t
  · unfold rxListen
    split <;> exact ⟨rfl, rfl⟩
  · exact rxStream_buffer t seg
  · exact rxStream_buffer t seg
  · exact rxStream_buffer t seg
  · unfold rxLastAck
    split <;> exact ⟨rfl, rfl⟩
  · unfold rxClosing
    split <;> exact ⟨rfl, rfl⟩
  · exact BufferSame.refl t
  · exact BufferSame.refl t
  · exact BufferSame.refl t

theorem tcpTimer_buffer (s : TcpSocket) (now : Nat) : BufferSame s (tcpTimer s now).1 := by
  unfold tcpTimer
  split
  · obtain ⟨cc, h⟩ := timerRetransmit_eq s now
    have halive : ∀ t, BufferSame t (timerKeepAlive t now).1 := by
      intro t
      unfold timerKeepAlive
      split
      · simp only
        split <;> exact ⟨rfl, rfl⟩
      · exact BufferSame.refl t
    have hwait : ∀ t, BufferSame t (timerTimeWait t now) := by
      intro t
      unfold timerTimeWait
      split <;> exact ⟨rfl, rfl⟩
    have hretransmit : BufferSame s (timerRetransmit s now) := by
      rw [h]
      exact ⟨rfl, rfl⟩
    exact (hretransmit.trans (halive _)).trans (hwait _)
  · exact BufferSame.refl s

theorem BufferOk.step {s' : TcpSocket} {op : SocketOp} (hok : BufferOk s) (hs : socketStep s op = some s') :
    BufferOk s' := by
  cases op with
  | ack ack =>
    obtain rfl := Option.some.inj hs
    exact (tcpProcessAck_buffer s ack).bufferOk hok
  | rx seg us ms =>
    obtain rfl := Option.some.inj hs
    exact (tcpRxSocket_buffer s seg us ms).bufferOk hok
  | round data sent =>
    obtain ⟨out, hout, rfl⟩ := Option.map_eq_some_iff.mp hs
    exact (round_counts hok hout).bufferOk hok
  | timer now =>
    obtain rfl := Option.some.inj hs
    exact (tcpTimer_buffer s now).bufferOk hok
  | closeStart =>
    obtain rfl := Option.some.inj hs
    refine BufferSame.bufferOk ?_ hok
    unfold tcpCloseStart
    split <;> exact ⟨rfl, rfl⟩
  | bind | listen | connect | recv | closeFinish =>
    obtain rfl := Option.some.inj hs
    exact ⟨hok.mss, hok.count⟩

/-- Every socket that `tcp_socket_create` handed out has its buffer and segment size so. -/
theorem bufferOk_always (rxBuf txBuf : Nat) (ops : List SocketOp) :
    Always socketStep BufferOk (freshSocket rxBuf txBuf) ops :=
  always_of_step (fun _ _ _ h hs => h.step hs) ⟨rfl, Nat.zero_le _⟩

/-! ## The loop -/

theorem sendLoop_nil (w : SendWorld) (fuel k : Nat) : sendLoop w fuel k s [] = some s := by
  cases fuel <;> rfl

/-- **A buffer that was filled once stays nearly full**, if the loop ends at all. -/
theorem sendLoop_nearlyFull (w : SendWorld) {fuel k : Nat} {s' : TcpSocket} (hok : BufferOk s)
    (hc : s.state.connected = true) (hfull : TCP_TX_BUF_SIZE ≤ s.txCount + TCP_MSS)
    (hr : sendLoop w fuel k s data = some s') :
    TCP_TX_BUF_SIZE ≤ s'.txCount + 2 * TCP_MSS ∧ s'.state.connected = true := by
  induction fuel generalizing k s data with
  | zero =>
    cases data with
    | nil =>
      obtain rfl := Option.some.inj hr
      exact ⟨by omega, hc⟩
    | cons b bs => cases hr
  | succ fuel ih =>
    cases data with
    | nil =>
      obtain rfl := Option.some.inj hr
      exact ⟨by omega, hc⟩
    | cons b bs =>
      cases hround : tcpSendRound s (b :: bs) (w.sent k) with
      | none =>
        have hspace : txSpace s = 0 := by
          by_contra hne
          obtain ⟨out, hout⟩ := tcpSendRound_taken hne (b :: bs) (w.sent k)
          rw [hround] at hout
          cases hout
        rw [sendLoop_full w (fuel + 1) k hc hspace (List.cons_ne_nil b bs)] at hr
        cases hr
      | some out =>
        have hcounts := round_counts hok hround
        rw [sendLoop, hround] at hr
        by_cases hrest : out.2.1 = []
        · have hr' : sendLoop w fuel (k + 1) out.1 out.2.1 = some s' := hr
          rw [hrest, sendLoop_nil] at hr'
          obtain rfl := Option.some.inj hr'
          have hlow := hcounts.low.1
          exact ⟨by omega, hcounts.connected hc⟩
        · exact ih (hcounts.bufferOk hok) (hcounts.connected hc) (hcounts.full hok hrest) hr

/-! ## The call -/

theorem tcpSend_ready (w : SendWorld) (fuel : Nat) (hin : s.inUse = true) (hst : s.state = .established) :
    tcpSend w fuel s data = (sendLoop w fuel 0 s data).map fun s' => (s', (data.length : Int)) :=
  if_pos ⟨hin, hst⟩

/-- On an established socket only the buffer behind the loop decides. -/
theorem sendLoop_delivers_iff (w : SendWorld) (hin : s.inUse = true) (hst : s.state = .established) :
    Delivers w s data ↔ ∃ fuel s', sendLoop w fuel 0 s data = some s' ∧
      ∀ k us ms, (arrive s' (w.peer.sends k s') us ms).txCount = 0 := by
  unfold Delivers
  refine exists_congr fun fuel => exists_congr fun s' => and_congr_left fun _ => ?_
  rw [tcpSend_ready w fuel hin hst, Option.map_eq_some_iff]
  constructor
  · rintro ⟨t, ht, heq⟩
    rw [ht, (Prod.mk.inj heq).1]
  · exact fun h => ⟨s', h, rfl⟩

/-- A round empties the buffer when there is nothing in it, or when its segment takes it all. -/
theorem RoundCounts.zero_iff {out : TcpSocket × List Byte × List TcpSegment} (h : RoundCounts s data out) :
    out.1.txCount = 0 ↔ s.txCount + toCopy s data.length = 0 ∨
      (SendsSegment s data ∧ s.txCount + toCopy s data.length ≤ min (windowLeft s) TCP_MSS) := by
  by_cases hsends : SendsSegment s data
  · rw [h.offered hsends]
    simp only [hsends, true_and]
    omega
  · rw [h.queued hsends]
    simp only [hsends, false_and, or_false]

/-- The round that takes everything. -/
theorem RoundCounts.empty_iff {out : TcpSocket × List Byte × List TcpSegment} (h : RoundCounts s data out)
    (hok : BufferOk s) (hdata : data ≠ []) :
    (out.2.1 = [] ∧ out.1.txCount = 0) ↔ OneSegment s data.length := by
  have hpos : 0 < data.length := List.length_pos_of_ne_nil hdata
  have hmss : 2 * TCP_MSS ≤ TCP_TX_BUF_SIZE := by decide
  have hcount := hok.count
  rw [h.rest, List.drop_eq_nil_iff, h.zero_iff, sendsSegment_iff hok, OneSegment]
  unfold toCopy
  by_cases hidle : s.sndUna = s.sndNxt
  · simp only [hidle, true_or, true_and, and_true]
    omega
  · simp only [hidle, false_or]
    omega

/-- A call that does not come to one segment hangs or leaves bytes in the buffer. -/
theorem Delivers.oneSegment {w : SendWorld} (hin : s.inUse = true) (hst : s.state = .established) (hok : BufferOk s)
    (h : Delivers w s data) : OneSegment s data.length := by
  have hc : s.state.connected = true := by rw [hst]; rfl
  obtain ⟨fuel, s', hr, hzero⟩ := (sendLoop_delivers_iff w hin hst).mp h
  cases data with
  | nil =>
    rw [sendLoop_nil] at hr
    obtain rfl := Option.some.inj hr
    refine Or.inl ⟨rfl, ?_⟩
    rw [← hzero 0 0 0, (arrive_count _ 0 0 hc).1]
  | cons b bs =>
    have hne : b :: bs ≠ [] := List.cons_ne_nil b bs
    cases fuel with
    | zero => cases hr
    | succ fuel =>
      have hspace : txSpace s ≠ 0 := by
        intro hfull
        rw [sendLoop_full w (fuel + 1) 0 hc hfull hne] at hr
        cases hr
      obtain ⟨out, hround⟩ := tcpSendRound_taken hspace (b :: bs) (w.sent 0)
      have hcounts := round_counts hok hround
      rw [sendLoop, hround] at hr
      have hr' : sendLoop w fuel 1 out.1 out.2.1 = some s' := hr
      have hrest : out.2.1 = [] := by
        by_contra hrest
        -- the buffer was filled, so it is nearly full at the end
        obtain ⟨hfull, hc'⟩ :=
          sendLoop_nearlyFull w (hcounts.bufferOk hok) (hcounts.connected hc) (hcounts.full hok hrest) hr'
        have hempty : s'.txCount = 0 := by
          rw [← hzero 0 0 0, (arrive_count _ 0 0 hc').1]
        rw [hempty] at hfull
        exact absurd hfull (by decide)
      rw [hrest, sendLoop_nil] at hr'
      obtain rfl := Option.some.inj hr'
      have hempty : out.1.txCount = 0 := by
        rw [← hzero 0 0 0, (arrive_count _ 0 0 (hcounts.connected hc)).1]
      exact (hcounts.empty_iff hok hne).mp ⟨hrest, hempty⟩

/-- One segment is sent in the first round. -/
theorem OneSegment.delivers (w : SendWorld) (hin : s.inUse = true) (hst : s.state = .established) (hok : BufferOk s)
    (h : OneSegment s data.length) : Delivers w s data := by
  have hc : s.state.connected = true := by rw [hst]; rfl
  refine (sendLoop_delivers_iff w hin hst).mpr ?_
  cases data with
  | nil =>
    refine ⟨0, s, sendLoop_nil w 0 0, fun k us ms => ?_⟩
    rw [(arrive_count _ us ms hc).1]
    exact h.elim And.right fun hpos => absurd hpos.1 (Nat.lt_irrefl 0)
  | cons b bs =>
    have hspace : txSpace s ≠ 0 := by
      have hmss : TCP_MSS < TCP_TX_BUF_SIZE := by decide
      have hlen : (b :: bs).length = bs.length + 1 := rfl
      rw [txSpace_eq hok.count]
      unfold OneSegment at h
      omega
    obtain ⟨out, hround⟩ := tcpSendRound_taken hspace (b :: bs) (w.sent 0)
    have hcounts := round_counts hok hround
    obtain ⟨hrest, hempty⟩ := (hcounts.empty_iff hok (List.cons_ne_nil b bs)).mpr h
    refine ⟨1, out.1, ?_, fun k us ms => ?_⟩
    · rw [sendLoop, hround]
      show sendLoop w 0 1 out.1 out.2.1 = some out.1
      rw [hrest, sendLoop_nil]
    · rw [(arrive_count _ us ms (hcounts.connected hc)).1]
      exact hempty

/-- **`tcp_send` delivers exactly what fits one segment**: against a peer that
    acknowledges everything, it returns `len` and leaves nothing in the buffer exactly
    when what is queued and given makes one segment that the window and Nagle's rule let
    through at once, or there is nothing. -/
theorem tcpSend_delivers_iff (w : SendWorld) (s : TcpSocket) (data : List Byte) (hin : s.inUse = true)
    (hst : s.state = .established) (hok : BufferOk s) : Delivers w s data ↔ OneSegment s data.length :=
  ⟨Delivers.oneSegment hin hst hok, OneSegment.delivers w hin hst hok⟩

/-- A peer that answers each yield with one ACK. -/
def politePeer : AckingPeer where
  sends := fun _ s =>
    [{ segment farPeer TCP_FLAG_ACK [] with
        srcIp := s.remoteIp, srcPort := s.remotePort, dstPort := s.localPort, ack := s.sndNxt }]
  acks := fun _ _ =>
    have hack : (TCP_FLAG_ACK &&& TCP_FLAG_ACK != 0) = true := by decide
    ⟨_, List.mem_singleton_self _, rfl, rfl, rfl, hack, rfl⟩

def politeWorld : SendWorld := ⟨politePeer, fun _ => 0, fun _ => 0, fun _ => true⟩

theorem nearPeer_bufferOk : BufferOk nearPeer := ⟨rfl, by decide⟩

theorem tcpSend_delivers_bytes : Delivers politeWorld nearPeer [1, 2, 3] :=
  (tcpSend_delivers_iff politeWorld nearPeer [1, 2, 3] rfl rfl nearPeer_bufferOk).mpr
    (Or.inr ⟨by decide, by decide, Or.inl rfl⟩)

/-- One byte more than a segment, on a fresh connection: the byte stays in the buffer. -/
theorem tcpSend_keepsTail :
    nearPeer.inUse = true ∧ nearPeer.state = .established ∧ BufferOk nearPeer ∧
      ¬ Delivers politeWorld nearPeer (List.replicate 1461 7) := by
  refine ⟨rfl, rfl, nearPeer_bufferOk, ?_⟩
  intro h
  have hone := h.oneSegment rfl rfl nearPeer_bufferOk
  rw [List.length_replicate] at hone
  rcases hone with ⟨hzero, -⟩ | ⟨-, hfit, -⟩
  · cases hzero
  · exact absurd hfit (by decide)

end Crimson.Net
