import Crimson.Lib.Run
import Crimson.Net.Tcp

/-!
# Closing a connection

Two connected sockets, each closed once, at any moment, with the segments that follow
delivered in order. Everything the two sides then say is a FIN or a plain ACK, and the
sequence numbers play no part, so the pair behaves as a finite system (`closeAbs`): the
states of the two sockets and the two queues. The concrete pair simulates it
(`closeStep_simulated`), and what holds of its few reachable states is settled by going
through them.

A simultaneous close ends in TIME_WAIT on both sides. In any other order the side that
closes first stays in CLOSING: the ACK of its FIN arrives in FIN_WAIT_1, where it is not
looked at, and FIN_WAIT_2 is never entered. A socket that listens or is being connected
is not closed at all: `tcp_close` has no case for it, and waits.
-/

set_option autoImplicit false

namespace Crimson.Net

open Crimson.Lib

/-- One side: its socket, the state it was in when `tcp_close` was called, and the segments
    on their way to it. -/
structure CloseSide where
  sock : TcpSocket
  called : Option TcpState
  queue : List TcpSegment

structure ClosePair where
  a : CloseSide
  b : CloseSide

inductive CloseOp where
  | closeA
  | closeB
  | deliverA (us ms : Nat)
  | deliverB (us ms : Nat)
  /-- `tcp_close` finds that it need not wait any longer. -/
  | finishA
  | finishB

namespace CloseSide

/-- `tcp_close` is called on the side `x`; what it sends is on its way to `y`. -/
def close (x y : CloseSide) : Option (CloseSide × CloseSide) :=
  if x.sock.inUse ∧ x.called = none then
    let out := tcpCloseStart x.sock
    some ({ x with sock := out.1, called := some x.sock.state }, { y with queue := y.queue ++ out.2 })
  else none

def deliver (x y : CloseSide) (us ms : Nat) : Option (CloseSide × CloseSide) :=
  match x.queue with
  | [] => none
  | seg :: rest =>
    let out := deliverTo x.sock seg us ms
    some ({ x with sock := out.1, queue := rest }, { y with queue := y.queue ++ out.2 })

def finish (x y : CloseSide) : Option (CloseSide × CloseSide) :=
  if x.called.isSome ∧ tcpCloseDone x.sock then some ({ x with sock := tcpCloseFinish x.sock }, y) else none

end CloseSide

def closeStep (st : ClosePair) : CloseOp → Option ClosePair
  | .closeA => (st.a.close st.b).map fun p => ⟨p.1, p.2⟩
  | .closeB => (st.b.close st.a).map fun p => ⟨p.2, p.1⟩
  | .deliverA us ms => (st.a.deliver st.b us ms).map fun p => ⟨p.1, p.2⟩
  | .deliverB us ms => (st.b.deliver st.a us ms).map fun p => ⟨p.2, p.1⟩
  | .finishA => (st.a.finish st.b).map fun p => ⟨p.1, p.2⟩
  | .finishB => (st.b.finish st.a).map fun p => ⟨p.2, p.1⟩

def closeStart (a b : TcpSocket) : ClosePair where
  a := ⟨a, none, []⟩
  b := ⟨b, none, []⟩

/-- Each socket is the other one's remote end. -/
structure Peers (a b : TcpSocket) : Prop where
  portA : a.localPort = b.remotePort
  portB : b.localPort = a.remotePort
  ipA : a.localIp = b.remoteIp
  ipB : b.localIp = a.remoteIp

theorem Peers.symm {a b : TcpSocket} (h : Peers a b) : Peers b a := ⟨h.portB, h.portA, h.ipB, h.ipA⟩

/-- Both sides were closed, and everything sent was delivered. -/
structure Settled (st : ClosePair) : Prop where
  calledA : st.a.called.isSome = true
  calledB : st.b.called.isSome = true
  queueA : st.a.queue = []
  queueB : st.b.queue = []

/-- Both calls of `tcp_close` return. -/
def Finished (st : ClosePair) : Prop := tcpCloseDone st.a.sock = true ∧ tcpCloseDone st.b.sock = true

/-- Each side was closed before the other one's FIN reached it. -/
def Crossed (st : ClosePair) : Prop :=
  st.a.called = some .established ∧ st.b.called = some .established

/-! ## The finite system -/

/-- What a segment says when a connection is closed. -/
inductive Kind where
  | ack
  | fin
deriving DecidableEq, Repr

structure AbsSide where
  state : TcpState
  inUse : Bool
  called : Option TcpState
  queue : List Kind
deriving DecidableEq, Repr

structure AbsPair where
  a : AbsSide
  b : AbsSide
deriving DecidableEq, Repr

inductive AbsOp where
  | closeA
  | closeB
  | deliverA
  | deliverB
  | finishA
  | finishB
deriving DecidableEq

def absClose : TcpState → TcpState × List Kind
  | .established => (.finWait1, [.fin])
  | .closeWait => (.lastAck, [.fin])
  | st => (st, [])

/-- A socket in use and what it is told: its state, whether it is still in use, and what
    it says. -/
def absRx : TcpState → Kind → TcpState × Bool × List Kind
  | .established, .fin => (.closeWait, true, [.ack])
  | .finWait1, .fin => (.closing, true, [.ack])
  | .finWait2, .fin => (.timeWait, true, [.ack])
  | .lastAck, _ => (.closed, false, [])
  | .closing, _ => (.timeWait, true, [])
  | st, _ => (st, true, [])

def absDone (st : TcpState) : Bool := st == .closed || st == .timeWait

/-- A side is closed; the other one's queue grows. -/
def AbsSide.close (x y : AbsSide) : Option (AbsSide × AbsSide) :=
  if x.inUse ∧ x.called = none then
    some ({ x with state := (absClose x.state).1, called := some x.state },
      { y with queue := y.queue ++ (absClose x.state).2 })
  else none

def AbsSide.deliver (x y : AbsSide) : Option (AbsSide × AbsSide) :=
  match x.queue with
  | [] => none
  | k :: rest =>
    if x.inUse then
      some ({ x with state := (absRx x.state k).1, inUse := (absRx x.state k).2.1, queue := rest },
        { y with queue := y.queue ++ (absRx x.state k).2.2 })
    else some ({ x with queue := rest }, y)

def AbsSide.finish (x y : AbsSide) : Option (AbsSide × AbsSide) :=
  if x.called.isSome ∧ absDone x.state then some ({ x with inUse := false }, y) else none

def closeAbs (t : AbsPair) : AbsOp → Option AbsPair
  | .closeA => (t.a.close t.b).map fun p => ⟨p.1, p.2⟩
  | .closeB => (t.b.close t.a).map fun p => ⟨p.2, p.1⟩
  | .deliverA => (t.a.deliver t.b).map fun p => ⟨p.1, p.2⟩
  | .deliverB => (t.b.deliver t.a).map fun p => ⟨p.2, p.1⟩
  | .finishA => (t.a.finish t.b).map fun p => ⟨p.1, p.2⟩
  | .finishB => (t.b.finish t.a).map fun p => ⟨p.2, p.1⟩

def absStart : AbsPair := ⟨⟨.established, true, none, []⟩, ⟨.established, true, none, []⟩⟩

def absOps : List AbsOp := [.closeA, .closeB, .deliverA, .deliverB, .finishA, .finishB]

/-- The states after at most `n` rounds of steps. -/
def absReach : Nat → List AbsPair
  | 0 => [absStart]
  | n + 1 => (absReach n ++ (absReach n).flatMap fun t => absOps.filterMap (closeAbs t)).dedup

/-- Eight rounds reach everything. -/
theorem absReach_closed : ∀ t ∈ absReach 8, ∀ op t', closeAbs t op = some t' → t' ∈ absReach 8 := by
  have hall : ∀ t ∈ absReach 8, ∀ op ∈ absOps, ∀ t' ∈ closeAbs t op, t' ∈ absReach 8 := by decide +kernel
  intro t ht op t' hs
  have hop : op ∈ absOps := by
    cases op <;> decide
  exact hall t ht op hop t' hs

/-- **What going through the states shows**: when both sides were closed and nothing is on
    its way, both calls return exactly if the two closes crossed. -/
theorem absReach_finished : ∀ t ∈ absReach 8, t.a.called.isSome = true → t.b.called.isSome = true →
    t.a.queue = [] → t.b.queue = [] →
      ((absDone t.a.state = true ∧ absDone t.b.state = true) ↔
        t.a.called = some .established ∧ t.b.called = some .established) := by
  decide +kernel

/-! ## The simulation -/

/-- What a segment says. -/
def kindOf (seg : TcpSegment) : Kind := if seg.has TCP_FLAG_FIN then .fin else .ack

theorem kindOf_segment (s : TcpSocket) (flags : BitVec 8) :
    kindOf (segment s flags []) = if flags &&& TCP_FLAG_FIN != 0 then .fin else .ack := rfl

theorem kindOf_ack (s : TcpSocket) : kindOf (segment s TCP_FLAG_ACK []) = .ack :=
  (kindOf_segment s _).trans (by decide)

theorem kindOf_fin (s : TcpSocket) : kindOf (segment s (TCP_FLAG_FIN ||| TCP_FLAG_ACK) []) = .fin :=
  (kindOf_segment s _).trans (by decide)

/-- A segment of a closing connection, from the peer of `s`. -/
structure Plain (s : TcpSocket) (seg : TcpSegment) : Prop where
  payload : seg.payload = []
  ack : seg.has TCP_FLAG_ACK = true
  srcIp : s.remoteIp = seg.srcIp
  srcPort : s.remotePort = seg.srcPort
  dstPort : s.localPort = seg.dstPort

/-- The two sockets are the same end of the same connection. -/
structure SameEnd (s s' : TcpSocket) : Prop where
  localIp : s'.localIp = s.localIp
  localPort : s'.localPort = s.localPort
  remoteIp : s'.remoteIp = s.remoteIp
  remotePort : s'.remotePort = s.remotePort

/-- A side and its abstraction. -/
structure SideRel (x : CloseSide) (t : AbsSide) : Prop where
  state : x.sock.state = t.state
  inUse : x.sock.inUse = t.inUse
  called : x.called = t.called
  queue : x.queue.map kindOf = t.queue
  plain : ∀ seg ∈ x.queue, Plain x.sock seg
  connected : x.sock.state.connected = true

structure PairRel (x y : CloseSide) (t u : AbsSide) : Prop where
  left : SideRel x t
  right : SideRel y u
  peers : Peers x.sock y.sock

theorem PairRel.symm {x y : CloseSide} {t u : AbsSide} (h : PairRel x y t u) : PairRel y x u t :=
  ⟨h.right, h.left, h.peers.symm⟩

theorem Plain.sameEnd {s s' : TcpSocket} {seg : TcpSegment} (h : Plain s seg) (he : SameEnd s s') : Plain s' seg where
  payload := h.payload
  ack := h.ack
  srcIp := he.remoteIp.trans h.srcIp
  srcPort := he.remotePort.trans h.srcPort
  dstPort := he.localPort.trans h.dstPort

theorem Peers.sameEnd {a a' b : TcpSocket} (h : Peers a b) (he : SameEnd a a') : Peers a' b where
  portA := he.localPort.trans h.portA
  portB := h.portB.trans he.remotePort.symm
  ipA := he.localIp.trans h.ipA
  ipB := h.ipB.trans he.remoteIp.symm

/-- What a socket sends is plain for its peer. -/
theorem plain_segment {a b : TcpSocket} (h : Peers a b) {flags : BitVec 8} (hack : (flags &&& TCP_FLAG_ACK != 0) = true) :
    Plain b (segment a flags []) where
  payload := rfl
  ack := hack
  srcIp := h.ipA.symm
  srcPort := h.portA.symm
  dstPort := h.portB

/-- A plain segment is for the socket as long as it is in use. -/
theorem tcpMatches_plain {s : TcpSocket} {seg : TcpSegment} (h : Plain s seg) (hc : s.state.connected = true) :
    tcpMatches seg s = s.inUse := by
  have hbeq : (s.state == .listen) = false := by
    cases hst : s.state with
    | listen =>
      rw [hst] at hc
      cases hc
    | _ => rfl
  simp [tcpMatches, h.srcIp, h.srcPort, h.dstPort, hbeq]

/-- What a plain segment does to a socket in use: what the finite system says. -/
structure RxPlain (s : TcpSocket) (k : Kind) (out : TcpSocket × List TcpSegment) : Prop where
  sameEnd : SameEnd s out.1
  state : out.1.state = (absRx s.state k).1
  inUse : out.1.inUse = (absRx s.state k).2.1
  answer : out.2.map kindOf = (absRx s.state k).2.2
  plain : ∀ seg ∈ out.2, ∀ b, Peers s b → Plain b seg
  connected : out.1.state.connected = true

/-- In the states that take data: only a FIN changes the state and is answered. -/
theorem rxStream_plain {s : TcpSocket} {seg : TcpSegment} (h : Plain s seg) (hin : s.inUse = true)
    (hst : s.state = .established ∨ s.state = .finWait1 ∨ s.state = .finWait2) :
    RxPlain s (kindOf seg) (rxStream s seg) := by
  obtain ⟨una, cc, wnd, hack⟩ := rxAck_eq s seg
  cases hfin : seg.has TCP_FLAG_FIN with
  | false =>
    have hk : kindOf seg = .ack := by simp [kindOf, hfin]
    rw [rxStream_bare ⟨h.payload, hfin⟩, hack, hk]
    refine ⟨⟨rfl, rfl, rfl, rfl⟩, ?_, ?_, ?_, fun _ hmem => absurd hmem List.not_mem_nil, ?_⟩
    · rcases hst with h | h | h <;> rw [h] <;> rfl
    · show s.inUse = _
      rcases hst with h | h | h <;> rw [h, hin] <;> rfl
    · rcases hst with h | h | h <;> rw [h] <;> rfl
    · show s.state.connected = true
      rcases hst with h | h | h <;> rw [h] <;> rfl
  | true =>
    have hk : kindOf seg = .fin := by simp [kindOf, hfin]
    let t : TcpSocket := { s with sndUna := una, cc := cc, sndWnd := wnd, rcvNxt := s.rcvNxt + 1 }
    have hrx : rxStream s seg = ({ t with state := finState s.state }, [segment t TCP_FLAG_ACK []]) := by
      rw [rxStream, rxData_nil h.payload, hack, rxFin, if_pos hfin]
      rfl
    rw [hrx, hk]
    refine ⟨⟨rfl, rfl, rfl, rfl⟩, ?_, ?_, ?_, ?_, ?_⟩
    · show finState s.state = _
      rcases hst with h | h | h <;> rw [h] <;> rfl
    · show s.inUse = _
      rcases hst with h | h | h <;> rw [h, hin] <;> rfl
    · show [kindOf (segment t TCP_FLAG_ACK [])] = _
      rw [kindOf_ack]
      rcases hst with h | h | h <;> rw [h] <;> rfl
    · intro o ho b hb
      have hack : (TCP_FLAG_ACK &&& TCP_FLAG_ACK != 0) = true := by decide
      have hpt : Peers t b := ⟨hb.portA, hb.portB, hb.ipA, hb.ipB⟩
      rw [List.mem_singleton.mp ho]
      exact plain_segment hpt hack
    · show (finState s.state).connected = true
      rcases hst with h | h | h <;> rw [h] <;> rfl

/-- In any state of a connection. -/
theorem tcpRxState_plain {s : TcpSocket} {seg : TcpSegment} {us : Nat} (h : Plain s seg) (hin : s.inUse = true)
    (hc : s.state.connected = true) :
    RxPlain s (kindOf seg) (tcpRxState s seg us) := by
  have hquiet : ∀ (s' : TcpSocket), SameEnd s s' → s'.state = (absRx s.state (kindOf seg)).1 →
      s'.inUse = (absRx s.state (kindOf seg)).2.1 → (absRx s.state (kindOf seg)).2.2 = [] →
      s'.state.connected = true → RxPlain s (kindOf seg) (s', []) := fun s' he hs' hi hsay hc' =>
    ⟨he, hs', hi, hsay.symm, fun _ hmem => absurd hmem List.not_mem_nil, hc'⟩
  cases hst : s.state with
  | listen | synSent | synReceived =>
    rw [hst] at hc
    cases hc
  | established => exact tcpRxState_stream (Or.inl hst) ▸ rxStream_plain h hin (Or.inl hst)
  | finWait1 => exact tcpRxState_stream (Or.inr (Or.inl hst)) ▸ rxStream_plain h hin (Or.inr (Or.inl hst))
  | finWait2 => exact tcpRxState_stream (Or.inr (Or.inr hst)) ▸ rxStream_plain h hin (Or.inr (Or.inr hst))
  | lastAck =>
    rw [tcpRxState_lastAck hst, rxLastAck, if_pos h.ack]
    exact hquiet _ ⟨rfl, rfl, rfl, rfl⟩ (by rw [hst]; rfl) (by rw [hst]; rfl) (by rw [hst]; rfl) rfl
  | closing =>
    rw [tcpRxState_closing hst, rxClosing, if_pos h.ack]
    refine hquiet _ ⟨rfl, rfl, rfl, rfl⟩ (by rw [hst]; rfl) ?_ (by rw [hst]; rfl) rfl
    rw [hst]
    exact hin
  | closed =>
    rw [tcpRxState_idle (Or.inl hst)]
    exact hquiet _ ⟨rfl, rfl, rfl, rfl⟩ (by rw [hst]; rfl) (by rw [hst]; exact hin) (by rw [hst]; rfl) hc
  | closeWait =>
    rw [tcpRxState_idle (Or.inr (Or.inl hst))]
    exact hquiet _ ⟨rfl, rfl, rfl, rfl⟩ (by rw [hst]; rfl) (by rw [hst]; exact hin) (by rw [hst]; rfl) hc
  | timeWait =>
    rw [tcpRxState_idle (Or.inr (Or.inr hst))]
    exact hquiet _ ⟨rfl, rfl, rfl, rfl⟩ (by rw [hst]; rfl) (by rw [hst]; exact hin) (by rw [hst]; rfl) hc

/-- What is on its way to a side stays plain when more is said. -/
theorem SideRel.append {y : CloseSide} {u : AbsSide} (h : SideRel y u) {segs : List TcpSegment} {ks : List Kind}
    (hsay : segs.map kindOf = ks) (hplain : ∀ seg ∈ segs, Plain y.sock seg) :
    SideRel { y with queue := y.queue ++ segs } { u with queue := u.queue ++ ks } where
  state := h.state
  inUse := h.inUse
  called := h.called
  queue := by rw [List.map_append, h.queue, hsay]
  plain := by
    intro seg hmem
    cases List.mem_append.mp hmem with
    | inl hold => exact h.plain seg hold
    | inr hnew => exact hplain seg hnew
  connected := h.connected

theorem PairRel.deliver {x y x' y' : CloseSide} {t u : AbsSide} {us ms : Nat} (h : PairRel x y t u)
    (hs : x.deliver y us ms = some (x', y')) : ∃ t' u', t.deliver u = some (t', u') ∧ PairRel x' y' t' u' := by
  have hqueue := h.left.queue
  cases hq : x.queue with
  | nil => simp [CloseSide.deliver, hq] at hs
  | cons seg rest =>
    simp only [CloseSide.deliver, hq, Option.some.injEq, Prod.mk.injEq] at hs
    obtain ⟨rfl, rfl⟩ := hs
    rw [hq, List.map_cons] at hqueue
    have hplain : Plain x.sock seg := h.left.plain seg (by rw [hq]; exact List.mem_cons_self)
    have hrest : ∀ o ∈ rest, Plain x.sock o := fun o ho => h.left.plain o (by rw [hq]; exact List.mem_cons_of_mem seg ho)
    have hmatch := tcpMatches_plain hplain h.left.connected
    -- a segment for a socket that is gone is dropped on both levels
    cases hin : x.sock.inUse with
    | true =>
      have hdel : deliverTo x.sock seg us ms = tcpRxState (x.sock.touch ms) seg us := by
        rw [deliverTo, if_pos (hmatch.trans hin)]
        rfl
      have hrx : RxPlain (x.sock.touch ms) (kindOf seg) (tcpRxState (x.sock.touch ms) seg us) :=
        tcpRxState_plain ⟨hplain.payload, hplain.ack, hplain.srcIp, hplain.srcPort, hplain.dstPort⟩ hin
          h.left.connected
      have hstate : (x.sock.touch ms).state = t.state := h.left.state
      have hend : SameEnd x.sock (tcpRxState (x.sock.touch ms) seg us).1 :=
        ⟨hrx.sameEnd.localIp, hrx.sameEnd.localPort, hrx.sameEnd.remoteIp, hrx.sameEnd.remotePort⟩
      have hpeers : Peers (x.sock.touch ms) y.sock := ⟨h.peers.portA, h.peers.portB, h.peers.ipA, h.peers.ipB⟩
      refine ⟨{ t with
          state := (absRx t.state (kindOf seg)).1
          inUse := (absRx t.state (kindOf seg)).2.1
          queue := rest.map kindOf }, { u with queue := u.queue ++ (absRx t.state (kindOf seg)).2.2 }, ?_,
        ⟨⟨?_, ?_, h.left.called, rfl, ?_, ?_⟩, h.right.append ?_ ?_, ?_⟩⟩
      · rw [AbsSide.deliver, ← hqueue]
        exact if_pos (h.left.inUse.symm.trans hin)
      · rw [hdel, hrx.state, hstate]
      · rw [hdel, hrx.inUse, hstate]
      · intro o ho
        rw [hdel]
        exact (hrest o ho).sameEnd hend
      · rw [hdel]
        exact hrx.connected
      · rw [hdel, hrx.answer, hstate]
      · rw [hdel]
        exact fun o ho => hrx.plain o ho _ hpeers
      · rw [hdel]
        exact h.peers.sameEnd hend
    | false =>
      have hdel : deliverTo x.sock seg us ms = (x.sock, []) := by
        rw [deliverTo, if_neg]
        rw [hmatch, hin]
        decide
      have hout : ¬ t.inUse = true := by
        rw [← h.left.inUse, hin]
        decide
      refine ⟨{ t with queue := rest.map kindOf }, u, ?_, ?_⟩
      · rw [AbsSide.deliver, ← hqueue]
        exact if_neg hout
      · rw [hdel]
        refine ⟨⟨h.left.state, h.left.inUse, h.left.called, rfl, hrest, h.left.connected⟩, ?_, h.peers⟩
        have happ : y.queue ++ [] = y.queue := List.append_nil _
        rw [happ]
        exact h.right

theorem PairRel.close {x y x' y' : CloseSide} {t u : AbsSide} (h : PairRel x y t u)
    (hs : x.close y = some (x', y')) : ∃ t' u', t.close u = some (t', u') ∧ PairRel x' y' t' u' := by
  simp only [CloseSide.close, Option.ite_none_right_eq_some, Option.some.injEq, Prod.mk.injEq] at hs
  obtain ⟨⟨hin, hnone⟩, rfl, rfl⟩ := hs
  have hguard : t.inUse = true ∧ t.called = none := ⟨h.left.inUse.symm.trans hin, h.left.called.symm.trans hnone⟩
  refine ⟨{ t with state := (absClose t.state).1, called := some t.state },
    { u with queue := u.queue ++ (absClose t.state).2 }, if_pos hguard, ?_⟩
  -- only two states have a case; in the others nothing happens
  have hquiet : tcpCloseStart x.sock = (x.sock, []) → absClose t.state = (t.state, []) →
      PairRel { x with sock := (tcpCloseStart x.sock).1, called := some x.sock.state }
        { y with queue := y.queue ++ (tcpCloseStart x.sock).2 }
        { t with state := (absClose t.state).1, called := some t.state }
        { u with queue := u.queue ++ (absClose t.state).2 } := by
    intro hcon habs
    rw [hcon, habs]
    refine ⟨⟨h.left.state, h.left.inUse, congrArg some h.left.state, h.left.queue, h.left.plain,
      h.left.connected⟩, h.right.append rfl fun _ hmem => absurd hmem List.not_mem_nil, h.peers⟩
  have hsent : ∀ st, tcpCloseStart x.sock = ({ x.sock with state := st },
        [segment { x.sock with state := st } (TCP_FLAG_FIN ||| TCP_FLAG_ACK) []]) → absClose t.state = (st, [.fin]) →
      st.connected = true →
      PairRel { x with sock := (tcpCloseStart x.sock).1, called := some x.sock.state }
        { y with queue := y.queue ++ (tcpCloseStart x.sock).2 }
        { t with state := (absClose t.state).1, called := some t.state }
        { u with queue := u.queue ++ (absClose t.state).2 } := by
    intro st hcon habs hst
    rw [hcon, habs]
    refine ⟨⟨rfl, h.left.inUse, congrArg some h.left.state, h.left.queue, ?_, hst⟩, h.right.append ?_ ?_,
      ⟨h.peers.portA, h.peers.portB, h.peers.ipA, h.peers.ipB⟩⟩
    · intro o ho
      exact (h.left.plain o ho).sameEnd ⟨rfl, rfl, rfl, rfl⟩
    · exact congrArg (fun k => [k]) (kindOf_fin _)
    · intro o ho
      have hack : (TCP_FLAG_FIN ||| TCP_FLAG_ACK) &&& TCP_FLAG_ACK != 0 := by decide
      rw [List.mem_singleton.mp ho]
      exact plain_segment ⟨h.peers.portA, h.peers.portB, h.peers.ipA, h.peers.ipB⟩ hack
  have hstate := h.left.state
  cases hst : x.sock.state with
  | established => exact hst ▸ hsent .finWait1 (by rw [tcpCloseStart, hst]) (by rw [← hstate, hst]; rfl) rfl
  | closeWait => exact hst ▸ hsent .lastAck (by rw [tcpCloseStart, hst]) (by rw [← hstate, hst]; rfl) rfl
  | _ => exact hst ▸ hquiet (by rw [tcpCloseStart, hst]) (by rw [← hstate, hst]; rfl)

theorem PairRel.finish {x y x' y' : CloseSide} {t u : AbsSide} (h : PairRel x y t u)
    (hs : x.finish y = some (x', y')) : ∃ t' u', t.finish u = some (t', u') ∧ PairRel x' y' t' u' := by
  simp only [CloseSide.finish, Option.ite_none_right_eq_some, Option.some.injEq, Prod.mk.injEq] at hs
  obtain ⟨⟨hcalled, hdone⟩, rfl, rfl⟩ := hs
  have hguard : t.called.isSome = true ∧ absDone t.state = true := by
    rw [← h.left.called, ← h.left.state]
    exact ⟨hcalled, hdone⟩
  refine ⟨{ t with inUse := false }, u, if_pos hguard, ⟨h.left.state, rfl, h.left.called, h.left.queue, ?_,
    h.left.connected⟩, h.right, ⟨h.peers.portA, h.peers.portB, h.peers.ipA, h.peers.ipB⟩⟩
  intro o ho
  exact (h.left.plain o ho).sameEnd ⟨rfl, rfl, rfl, rfl⟩

/-- The step of the finite system that matches a step. -/
def absOp : CloseOp → AbsOp
  | .closeA => .closeA
  | .closeB => .closeB
  | .deliverA _ _ => .deliverA
  | .deliverB _ _ => .deliverB
  | .finishA => .finishA
  | .finishB => .finishB

/-- **The pair simulates the finite system**, step by step. -/
theorem closeStep_simulated (st : ClosePair) (op : CloseOp) (st' : ClosePair) (t : AbsPair)
    (h : PairRel st.a st.b t.a t.b) (hs : closeStep st op = some st') :
    ∃ t', closeAbs t (absOp op) = some t' ∧ PairRel st'.a st'.b t'.a t'.b := by
  cases op with
  | closeA =>
    obtain ⟨p, hp, rfl⟩ := Option.map_eq_some_iff.mp hs
    obtain ⟨t', u', ht, hrel⟩ := h.close hp
    exact ⟨⟨t', u'⟩, by rw [absOp, closeAbs, ht]; rfl, hrel⟩
  | closeB =>
    obtain ⟨p, hp, rfl⟩ := Option.map_eq_some_iff.mp hs
    obtain ⟨t', u', ht, hrel⟩ := h.symm.close hp
    exact ⟨⟨u', t'⟩, by rw [absOp, closeAbs, ht]; rfl, hrel.symm⟩
  | deliverA us ms =>
    obtain ⟨p, hp, rfl⟩ := Option.map_eq_some_iff.mp hs
    obtain ⟨t', u', ht, hrel⟩ := h.deliver hp
    exact ⟨⟨t', u'⟩, by rw [absOp, closeAbs, ht]; rfl, hrel⟩
  | deliverB us ms =>
    obtain ⟨p, hp, rfl⟩ := Option.map_eq_some_iff.mp hs
    obtain ⟨t', u', ht, hrel⟩ := h.symm.deliver hp
    exact ⟨⟨u', t'⟩, by rw [absOp, closeAbs, ht]; rfl, hrel.symm⟩
  | finishA =>
    obtain ⟨p, hp, rfl⟩ := Option.map_eq_some_iff.mp hs
    obtain ⟨t', u', ht, hrel⟩ := h.finish hp
    exact ⟨⟨t', u'⟩, by rw [absOp, closeAbs, ht]; rfl, hrel⟩
  | finishB =>
    obtain ⟨p, hp, rfl⟩ := Option.map_eq_some_iff.mp hs
    obtain ⟨t', u', ht, hrel⟩ := h.symm.finish hp
    exact ⟨⟨u', t'⟩, by rw [absOp, closeAbs, ht]; rfl, hrel.symm⟩

/-! ## Sockets that are not connected -/

/-- A socket after a list of segments, whoever sent them. -/
def receiveAll (s : TcpSocket) : List (TcpSegment × Nat × Nat) → TcpSocket
  | [] => s
  | (seg, us, ms) :: rest => receiveAll (deliverTo s seg us ms).1 rest

/-- The states a socket can go through from listening or connecting on, while nobody
    closes it. -/
def TcpState.unclosed : TcpState → Bool
  | .listen | .synSent | .synReceived | .established | .closeWait => true
  | _ => false

theorem unclosed_deliverTo {s : TcpSocket} (seg : TcpSegment) (us ms : Nat) (h : s.state.unclosed = true) :
    (deliverTo s seg us ms).1.state.unclosed = true := by
  unfold deliverTo
  split
  · have ht : (s.touch ms).state.unclosed = true := h
    show (tcpRxState (s.touch ms) seg us).1.state.unclosed = true
    generalize s.touch ms = t at ht
    cases hst : t.state with
    | listen =>
      rw [tcpRxState_listen hst, rxListen]
      split
      · rfl
      · exact ht
    | synSent =>
      rw [tcpRxState_synSent hst, rxSynSent]
      split
      · rfl
      · exact ht
    | synReceived =>
      rw [tcpRxState_synReceived hst, rxSynReceived]
      split
      · rfl
      · exact ht
    | established =>
      obtain ⟨una, cc, wnd, hack⟩ := rxAck_eq t seg
      have hdata : (rxData (rxAck t seg) seg).1.state = .established := by
        rw [hack, rxData]
        split
        · exact hst
        · exact hst
      rw [tcpRxState_stream (Or.inl hst), rxStream, rxFin]
      split
      · show (finState (rxData (rxAck t seg) seg).1.state).unclosed = true
        rw [hdata]
        rfl
      · show (rxData (rxAck t seg) seg).1.state.unclosed = true
        rw [hdata]
        rfl
    | closeWait =>
      rw [tcpRxState_idle (Or.inr (Or.inl hst))]
      exact ht
    | _ =>
      rw [hst] at ht
      cases ht
  · exact h

theorem unclosed_receiveAll {s : TcpSocket} (segs : List (TcpSegment × Nat × Nat)) (h : s.state.unclosed = true) :
    (receiveAll s segs).state.unclosed = true := by
  induction segs generalizing s with
  | nil => exact h
  | cons seg rest ih => exact ih (unclosed_deliverTo seg.1 seg.2.1 seg.2.2 h)

/-- **When `tcp_close` returns.** On a connected pair, when both sides were closed and all
    segments are delivered: both calls return exactly if each was made before the other
    side's FIN had arrived. On a socket that listens or is being connected: never. -/
theorem tcp_close_iff (a b : TcpSocket) (hp : Peers a b) (ha : a.state = .established) (hb : b.state = .established)
    (hina : a.inUse = true) (hinb : b.inUse = true) :
    (∀ ops st, run closeStep (closeStart a b) ops = some st → Settled st → (Finished st ↔ Crossed st)) ∧
    ∀ s : TcpSocket, s.state = .listen ∨ s.state = .synSent ∨ s.state = .synReceived →
      ∀ segs, tcpCloseDone (receiveAll (tcpCloseStart s).1 segs) = false := by
  constructor
  · intro ops st hrun hset
    have hstart : PairRel (closeStart a b).a (closeStart a b).b absStart.a absStart.b :=
      ⟨⟨ha, hina, rfl, rfl, fun _ hmem => absurd hmem List.not_mem_nil, by rw [closeStart, ha]; rfl⟩,
        ⟨hb, hinb, rfl, rfl, fun _ hmem => absurd hmem List.not_mem_nil, by rw [closeStart, hb]; rfl⟩, hp⟩
    obtain ⟨t, ht, hrel⟩ := run_simulates (R := fun (st : ClosePair) (t : AbsPair) => PairRel st.a st.b t.a t.b)
      closeStep_simulated hstart hrun
    have hmem : t ∈ absReach 8 := run_mem (fun t op t' h hs => absReach_closed t h op t' hs) (by decide +kernel) ht
    have hnil : ∀ {q : List TcpSegment} {ks : List Kind}, q.map kindOf = ks → q = [] → ks = [] := by
      intro q ks hks hq
      rw [← hks, hq]
      rfl
    have hfin := absReach_finished t hmem (hrel.left.called ▸ hset.calledA) (hrel.right.called ▸ hset.calledB)
      (hnil hrel.left.queue hset.queueA) (hnil hrel.right.queue hset.queueB)
    rw [← hrel.left.state, ← hrel.right.state, ← hrel.left.called, ← hrel.right.called] at hfin
    exact hfin
  · intro s hs segs
    have hquiet : (tcpCloseStart s).1.state.unclosed = true := by
      rcases hs with h | h | h
      · rw [tcpCloseStart, h]
        show s.state.unclosed = true
        rw [h]
        rfl
      · rw [tcpCloseStart, h]
        show s.state.unclosed = true
        rw [h]
        rfl
      · rw [tcpCloseStart, h]
        show s.state.unclosed = true
        rw [h]
        rfl
    have hall := unclosed_receiveAll segs hquiet
    rw [tcpCloseDone]
    cases hst : (receiveAll (tcpCloseStart s).1 segs).state with
    | closed | timeWait =>
      rw [hst] at hall
      cases hall
    | _ => rfl

theorem tcp_close_peers :
    (∀ ops st, run closeStep (closeStart nearPeer farPeer) ops = some st → Settled st → (Finished st ↔ Crossed st)) ∧
    ∀ s : TcpSocket, s.state = .listen ∨ s.state = .synSent ∨ s.state = .synReceived →
      ∀ segs, tcpCloseDone (receiveAll (tcpCloseStart s).1 segs) = false :=
  tcp_close_iff nearPeer farPeer ⟨rfl, rfl, rfl, rfl⟩ rfl rfl rfl rfl

/-- One side closes, the other one follows: the first one stays in CLOSING. A socket that
    listens is not closed when nothing arrives. -/
theorem close_in_turn_stuck :
    (∃ st, run closeStep (closeStart nearPeer farPeer)
        [.closeA, .deliverB 0 1, .closeB, .deliverA 0 2, .deliverA 0 3, .deliverB 0 4] = some st ∧
      Settled st ∧ st.a.sock.state = .closing ∧ st.b.sock.state = .closed ∧ ¬ Finished st) ∧
    tcpCloseDone (receiveAll (tcpCloseStart (tcpListen nearPeer)).1 []) = false := by
  refine ⟨⟨_, rfl, ⟨rfl, rfl, rfl, rfl⟩, rfl, rfl, ?_⟩, rfl⟩
  intro h
  exact absurd h.1 (by decide)

end Crimson.Net
