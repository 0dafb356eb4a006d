import Crimson.Lib.Run
import Crimson.Net.Tcp

/-!
# The TCP handshake

A socket that connects and a socket that listens, with the segments between them in two
queues: what one side sends is delivered to the other, once and in order, to the socket
if it is for it. The clock of a delivery is any; so is the moment at which `tcp_connect`
and `tcp_accept` look at their socket.

`tcp_rx` answers a SYN-ACK with another SYN-ACK and waits, in `TCP_SYN_RECEIVED`, for an
acknowledgement that the listener has no reason to send. The side that connects is
therefore never established (`handshake_never`). Nor do the numbers agree: both sides
send their SYN with the number behind their initial one, and both count it once more on
receipt, so that each expects the byte behind the one the other will send first.
-/

set_option autoImplicit false

namespace Crimson.Net

open Crimson.Lib

/-- The two sockets, the segments on their way, and the results of the two calls. -/
structure Handshake where
  client : TcpSocket
  server : TcpSocket
  toServer : List TcpSegment
  toClient : List TcpSegment
  connected : Option Int
  accepted : Option Bool

inductive HandshakeOp where
  | deliverToServer (us ms : Nat)
  | deliverToClient (us ms : Nat)
  /-- `tcp_connect` looks at the state. -/
  | pollConnect
  /-- `tcp_accept` looks at the state. -/
  | pollAccept

def handshakeStep (st : Handshake) : HandshakeOp → Option Handshake
  | .deliverToServer us ms =>
    match st.toServer with
    | [] => none
    | seg :: rest =>
      let out := deliverTo st.server seg us ms
      some { st with server := out.1, toServer := rest, toClient := st.toClient ++ out.2 }
  | .deliverToClient us ms =>
    match st.toClient with
    | [] => none
    | seg :: rest =>
      let out := deliverTo st.client seg us ms
      some { st with client := out.1, toClient := rest, toServer := st.toServer ++ out.2 }
  | .pollConnect =>
    if st.connected = none then (tcpConnectPoll st.client).map fun r => { st with connected := some r } else none
  | .pollAccept =>
    if st.accepted = none then (tcpAcceptPoll st.server).map fun r => { st with accepted := some r } else none

/-- `tcp_connect` was called on `client`, while `server` listens. -/
def handshakeStart (client server : TcpSocket) (ip port localPort us ms : Nat) : Handshake :=
  let out := tcpConnectStart client ip port localPort us ms
  { client := out.1
    server := server
    toServer := out.2
    toClient := []
    connected := none
    accepted := none }

/-- The connection as the two calls promise it. -/
structure Connected (st : Handshake) : Prop where
  client : st.client.state = .established
  server : st.server.state = .established
  result : st.connected = some 0
  toServer : st.client.sndNxt = st.server.rcvNxt
  toClient : st.server.sndNxt = st.client.rcvNxt

/-- The states of a side that connects, and of one that listens. -/
structure HandshakeInv (st : Handshake) : Prop where
  client : st.client.state = .synSent ∨
    st.client.state = .synReceived ∧ st.toClient = [] ∧ st.server.state ≠ .listen
  server : st.server.state = .listen ∨ st.server.state = .synReceived ∨ st.server.state = .established
  quiet : st.server.state = .listen → st.toClient = []
  single : st.toClient.length ≤ 1
  bare : ∀ seg ∈ st.toServer, seg.Bare
  result : st.connected ≠ some 0

/-- **Listening side**: a segment changes its state only from listening on, and is answered
    only by a SYN-ACK to the first SYN. -/
theorem deliverTo_server {s : TcpSocket} {seg : TcpSegment} (hseg : seg.Bare) (us ms : Nat)
    (hs : s.state = .listen ∨ s.state = .synReceived ∨ s.state = .established) :
    (deliverTo s seg us ms).1.state = s.state ∧ (deliverTo s seg us ms).2 = [] ∨
    s.state = .listen ∧ (deliverTo s seg us ms).1.state = .synReceived ∧ (deliverTo s seg us ms).2.length = 1 ∨
    s.state = .synReceived ∧ (deliverTo s seg us ms).1.state = .established ∧ (deliverTo s seg us ms).2 = [] := by
  unfold deliverTo tcpRxSocket
  split
  · have hst : (s.touch ms).state = s.state := rfl
    rw [← hst] at hs ⊢
    generalize s.touch ms = t at hs ⊢
    rcases hs with hl | hr | he
    · rw [tcpRxState_listen hl, rxListen]
      split
      · exact Or.inr (Or.inl ⟨hl, rfl, rfl⟩)
      · exact Or.inl ⟨rfl, rfl⟩
    · rw [tcpRxState_synReceived hr, rxSynReceived]
      split
      · exact Or.inr (Or.inr ⟨hr, rfl, rfl⟩)
      · exact Or.inl ⟨rfl, rfl⟩
    · rw [tcpRxState_stream (Or.inl he), rxStream_bare hseg]
      obtain ⟨una, cc, wnd, hack⟩ := rxAck_eq t seg
      rw [hack]
      exact Or.inl ⟨rfl, rfl⟩
  · exact Or.inl ⟨rfl, rfl⟩

/-- **Connecting side**: the answer to its SYN takes it to `TCP_SYN_RECEIVED`, and is
    answered by a bare segment. -/
theorem deliverTo_client {s : TcpSocket} {seg : TcpSegment} (us ms : Nat) (hs : s.state = .synSent) :
    ((deliverTo s seg us ms).1.state = .synSent ∨ (deliverTo s seg us ms).1.state = .synReceived) ∧
      ∀ out ∈ (deliverTo s seg us ms).2, out.Bare := by
  unfold deliverTo tcpRxSocket
  split
  · have hst : (s.touch ms).state = .synSent := hs
    rw [tcpRxState_synSent hst, rxSynSent]
    split
    · refine ⟨Or.inr rfl, fun out hout => ?_⟩
      rw [List.mem_singleton.mp hout]
      exact ⟨segment_payload _ _ _, segment_has _ _ _ _⟩
    · exact ⟨Or.inl hst, fun out hout => absurd hout List.not_mem_nil⟩
  · exact ⟨Or.inl hs, fun out hout => absurd hout List.not_mem_nil⟩

/-- While the server listens the client has had no answer. -/
theorem HandshakeInv.sent {st : Handshake} (h : HandshakeInv st) (hl : st.server.state = .listen) :
    st.client.state = .synSent := by
  cases h.client with
  | inl hsent => exact hsent
  | inr hrecv => exact absurd hl hrecv.2.2

/-- The listener has answered, and this is its only answer. -/
theorem HandshakeInv.answered {st : Handshake} (h : HandshakeInv st) {seg : TcpSegment} {rest : List TcpSegment}
    (hq : st.toClient = seg :: rest) : st.server.state ≠ .listen ∧ rest = [] ∧ st.client.state = .synSent := by
  refine ⟨?_, ?_, ?_⟩
  · intro hl
    have hnil := h.quiet hl
    rw [hq] at hnil
    exact List.cons_ne_nil _ _ hnil
  · have hone := h.single
    rw [hq, List.length_cons] at hone
    exact List.length_eq_zero_iff.mp (by omega)
  · cases h.client with
    | inl hsent => exact hsent
    | inr hrecv =>
      rw [hq] at hrecv
      exact absurd hrecv.2.1 (List.cons_ne_nil _ _)

/-- The server at the first segment of its queue. -/
theorem HandshakeInv.serve {st : Handshake} (h : HandshakeInv st) {seg : TcpSegment} {rest : List TcpSegment}
    (hq : st.toServer = seg :: rest) (us ms : Nat) :
    HandshakeInv
      { st with
        server := (deliverTo st.server seg us ms).1
        toServer := rest
        toClient := st.toClient ++ (deliverTo st.server seg us ms).2 } := by
  have hbare := h.bare
  rw [hq] at hbare
  have hrest : ∀ s ∈ rest, s.Bare := fun s hmem => hbare s (List.mem_cons_of_mem seg hmem)
  rcases deliverTo_server (hbare seg List.mem_cons_self) us ms h.server with
    ⟨hst, hout⟩ | ⟨hl, hst, hout⟩ | ⟨hr, hst, hout⟩
  · -- nothing happens
    rw [hout, List.append_nil]
    refine ⟨?_, ?_, ?_, h.single, hrest, h.result⟩
    · show st.client.state = .synSent ∨ _ ∧ _ ∧ (deliverTo st.server seg us ms).1.state ≠ .listen
      rw [hst]
      exact h.client
    · show (deliverTo st.server seg us ms).1.state = .listen ∨ _
      rw [hst]
      exact h.server
    · intro hl
      exact h.quiet (hst.symm.trans hl)
  · -- the answer to the SYN
    refine ⟨Or.inl (h.sent hl), Or.inr (Or.inl hst), ?_, ?_, hrest, h.result⟩
    · intro hl'
      exact absurd (hst.symm.trans hl') (by decide)
    · show (st.toClient ++ _).length ≤ 1
      rw [h.quiet hl, List.nil_append, hout]
  · -- the connection is established
    rw [hout, List.append_nil]
    have hnl : (deliverTo st.server seg us ms).1.state ≠ .listen := by
      rw [hst]
      decide
    refine ⟨?_, Or.inr (Or.inr hst), fun hl => absurd hl hnl, h.single, hrest, h.result⟩
    exact h.client.imp_right fun hrecv => ⟨hrecv.1, hrecv.2.1, hnl⟩

/-- The client at the first segment of its queue. -/
theorem HandshakeInv.receive {st : Handshake} (h : HandshakeInv st) {seg : TcpSegment} {rest : List TcpSegment}
    (hq : st.toClient = seg :: rest) (us ms : Nat) :
    HandshakeInv
      { st with
        client := (deliverTo st.client seg us ms).1
        toClient := rest
        toServer := st.toServer ++ (deliverTo st.client seg us ms).2 } := by
  obtain ⟨hnl, rfl, hsent⟩ := h.answered hq
  obtain ⟨hst, hout⟩ := @deliverTo_client _ seg us ms hsent
  refine ⟨?_, h.server, fun hl => absurd hl hnl, Nat.zero_le 1, ?_, h.result⟩
  · exact hst.imp_right fun hrecv => ⟨hrecv, rfl, hnl⟩
  · intro s hmem
    cases List.mem_append.mp hmem with
    | inl hold => exact h.bare s hold
    | inr hnew => exact hout s hnew

theorem HandshakeInv.step {st st' : Handshake} {op : HandshakeOp} (h : HandshakeInv st)
    (hs : handshakeStep st op = some st') : HandshakeInv st' := by
  cases op with
  | deliverToServer us ms =>
    cases hq : st.toServer with
    | nil => simp [handshakeStep, hq] at hs
    | cons seg rest =>
      simp only [handshakeStep, hq, Option.some.injEq] at hs
      subst hs
      exact h.serve hq us ms
  | deliverToClient us ms =>
    cases hq : st.toClient with
    | nil => simp [handshakeStep, hq] at hs
    | cons seg rest =>
      simp only [handshakeStep, hq, Option.some.injEq] at hs
      subst hs
      exact h.receive hq us ms
  | pollConnect =>
    simp only [handshakeStep, Option.ite_none_right_eq_some, Option.map_eq_some_iff] at hs
    obtain ⟨-, r, hr, rfl⟩ := hs
    refine ⟨h.client, h.server, h.quiet, h.single, h.bare, ?_⟩
    intro hzero
    have hr0 : r = 0 := Option.some.inj hzero
    rcases h.client with hsent | ⟨hrecv, -, -⟩
    · simp [tcpConnectPoll, hsent] at hr
    · simp only [tcpConnectPoll, hrecv, reduceCtorEq, if_false, Option.some.injEq] at hr
      exact absurd (hr.trans hr0) (by decide)
  | pollAccept =>
    simp only [handshakeStep, Option.ite_none_right_eq_some, Option.map_eq_some_iff] at hs
    obtain ⟨-, r, -, rfl⟩ := hs
    exact ⟨h.client, h.server, h.quiet, h.single, h.bare, h.result⟩

theorem handshakeInv_start {client server : TcpSocket} (ip port localPort us ms : Nat)
    (hl : server.state = .listen) : HandshakeInv (handshakeStart client server ip port localPort us ms) where
  client := Or.inl rfl
  server := Or.inl hl
  quiet := fun _ => rfl
  single := Nat.zero_le 1
  bare := by
    intro seg hseg
    rw [List.mem_singleton.mp hseg]
    exact ⟨segment_payload _ _ _, segment_has _ _ _ _⟩
  result := by
    intro h
    cases h

/-- **The handshake never completes**: for any two sockets, addresses, ports and clock
    values, and at every moment of every delivery, the two sides are not connected as
    `tcp_connect` promises; the side that connects is not established, and the call does
    not return 0. -/
theorem handshake_never (client server : TcpSocket) (ip port localPort us ms : Nat)
    (hl : server.state = .listen) (ops : List HandshakeOp) :
    Always handshakeStep (fun st => ¬ Connected st ∧ st.client.state ≠ .established ∧ st.connected ≠ some 0)
      (handshakeStart client server ip port localPort us ms) ops := by
  have hstart : HandshakeInv (handshakeStart client server ip port localPort us ms) :=
    handshakeInv_start ip port localPort us ms hl
  have hinv : Always handshakeStep HandshakeInv (handshakeStart client server ip port localPort us ms) ops :=
    always_of_step (fun _ _ _ h hs => h.step hs) hstart
  refine hinv.mono fun st h => ?_
  have hne : st.client.state ≠ .established := by
    rcases h.client with hsent | ⟨hrecv, -, -⟩
    · rw [hsent]
      decide
    · rw [hrecv]
      decide
  exact ⟨fun hc => hne hc.client, hne, h.result⟩

/-- A socket of 10.0.0.1 that was just made. -/
def newClient : TcpSocket := { freshSocket 0x1000 0x2000 with localIp := 0x0100000A }

/-- A socket of 10.0.0.2 that listens on port 80. -/
def newServer : TcpSocket := tcpListen { freshSocket 0x3000 0x4000 with localIp := 0x0200000A, localPort := 80 }

def newHandshake : Handshake := handshakeStart newClient newServer 0x0200000A 80 49152 1000 1

/-- The SYN, its answer, and the answer to that one are delivered, and both calls look. -/
def fullExchange : List HandshakeOp :=
  [.deliverToServer 2000 2, .deliverToClient 3000 3, .deliverToServer 4000 4, .pollConnect, .pollAccept]

theorem handshake_never_eighty :
    Always handshakeStep (fun st => ¬ Connected st ∧ st.client.state ≠ .established ∧ st.connected ≠ some 0)
      newHandshake fullExchange :=
  handshake_never newClient newServer 0x0200000A 80 49152 1000 1 rfl fullExchange

/-- Everything is delivered and `tcp_connect` has failed: one side is established, and the
    other one waits for an acknowledgement. -/
theorem handshake_stuck :
    ∃ st, run handshakeStep newHandshake fullExchange = some st ∧ st.toServer = [] ∧ st.toClient = [] ∧
      st.client.state = .synReceived ∧ st.server.state = .established ∧ st.connected = some (-1) ∧
      st.accepted = some true ∧ ¬ Connected st := by
  refine ⟨_, rfl, rfl, rfl, rfl, rfl, rfl, rfl, ?_⟩
  intro h
  exact absurd h.client (by decide)

/-! ## The numbers -/

/-- What a bare segment does to the numbers of a side that listened: the first SYN sets
    them, and nothing changes them later. -/
theorem deliverTo_server_numbers {s : TcpSocket} {seg : TcpSegment} (hseg : seg.Bare) (us ms : Nat)
    (hs : s.state = .listen ∨ s.state = .synReceived ∨ s.state = .established) :
    ((deliverTo s seg us ms).1.state = .listen ∨ s.state ≠ .listen) ∧
      (deliverTo s seg us ms).1.sndNxt = s.sndNxt ∧ (deliverTo s seg us ms).1.rcvNxt = s.rcvNxt ∧
      (deliverTo s seg us ms).2 = [] ∨
    s.state = .listen ∧ (deliverTo s seg us ms).1.rcvNxt = seg.seq + 1 ∧
      ∀ out ∈ (deliverTo s seg us ms).2, out.seq = (deliverTo s seg us ms).1.sndNxt := by
  unfold deliverTo tcpRxSocket
  split
  · rcases hs with hl | hr | he
    · have hst : (s.touch ms).state = .listen := hl
      rw [tcpRxState_listen hst, rxListen]
      split
      · refine Or.inr ⟨hl, rfl, fun out hout => ?_⟩
        rw [List.mem_singleton.mp hout]
        rfl
      · exact Or.inl ⟨Or.inl hst, rfl, rfl, rfl⟩
    · have hst : (s.touch ms).state = .synReceived := hr
      have hne : s.state ≠ .listen := by
        rw [hr]
        decide
      rw [tcpRxState_synReceived hst, rxSynReceived]
      split
      · obtain ⟨una, cc, hack⟩ := tcpProcessAck_eq { s.touch ms with sndUna := seg.ack } seg.ack
        rw [hack]
        exact Or.inl ⟨Or.inr hne, rfl, rfl, rfl⟩
      · exact Or.inl ⟨Or.inr hne, rfl, rfl, rfl⟩
    · have hst : (s.touch ms).state = .established := he
      have hne : s.state ≠ .listen := by
        rw [he]
        decide
      obtain ⟨una, cc, wnd, hack⟩ := rxAck_eq (s.touch ms) seg
      rw [tcpRxState_stream (Or.inl hst), rxStream_bare hseg, hack]
      exact Or.inl ⟨Or.inr hne, rfl, rfl, rfl⟩
  · rcases hs with hl | hr | he
    · exact Or.inl ⟨Or.inl hl, rfl, rfl, rfl⟩
    · exact Or.inl ⟨Or.inr (by rw [hr]; decide), rfl, rfl, rfl⟩
    · exact Or.inl ⟨Or.inr (by rw [he]; decide), rfl, rfl, rfl⟩

/-- What an answer does to the numbers of the side that connects. -/
theorem deliverTo_client_numbers {s : TcpSocket} {seg : TcpSegment} (us ms : Nat) (hs : s.state = .synSent) :
    (deliverTo s seg us ms).1.iss = s.iss ∧
    ((deliverTo s seg us ms).1.state = .synSent ∧ (deliverTo s seg us ms).1.sndNxt = s.sndNxt ∧
      (deliverTo s seg us ms).2 = [] ∨
    (deliverTo s seg us ms).1.state = .synReceived ∧ (deliverTo s seg us ms).1.sndNxt = s.iss + 1 ∧
      (deliverTo s seg us ms).1.rcvNxt = seg.seq + 1) := by
  unfold deliverTo tcpRxSocket
  split
  · have hst : (s.touch ms).state = .synSent := hs
    rw [tcpRxState_synSent hst, rxSynSent]
    split
    · obtain ⟨una, cc, hack⟩ := tcpProcessAck_eq
        { s.touch ms with irs := seg.seq, rcvNxt := seg.seq + 1, sndUna := seg.ack } seg.ack
      split
      · simp only [hack]
        exact ⟨rfl, Or.inr ⟨trivial, rfl, trivial⟩⟩
      · exact ⟨rfl, Or.inr ⟨rfl, rfl, rfl⟩⟩
    · exact ⟨rfl, Or.inl ⟨hst, rfl, rfl⟩⟩
  · exact ⟨rfl, Or.inl ⟨hs, rfl, rfl⟩⟩

/-- What each side knows of the other one's numbers: one too many. -/
structure NumbersInv (st : Handshake) : Prop extends HandshakeInv st where
  iss : st.client.sndNxt = st.client.iss + 1
  syn : st.server.state = .listen → ∀ seg ∈ st.toServer, seg.seq = st.client.sndNxt
  serverRcv : st.server.state ≠ .listen → st.server.rcvNxt = st.client.sndNxt + 1
  synAck : ∀ seg ∈ st.toClient, seg.seq = st.server.sndNxt
  clientRcv : st.client.state ≠ .synSent → st.client.rcvNxt = st.server.sndNxt + 1

/-- The numbers when the server takes the first segment of its queue. -/
theorem NumbersInv.serve {st : Handshake} (h : NumbersInv st) {seg : TcpSegment} {rest : List TcpSegment}
    (hq : st.toServer = seg :: rest) (us ms : Nat) :
    NumbersInv
      { st with
        server := (deliverTo st.server seg us ms).1
        toServer := rest
        toClient := st.toClient ++ (deliverTo st.server seg us ms).2 } := by
  have hinv := h.toHandshakeInv.serve hq us ms
  have hseg : seg.Bare := h.bare seg (by rw [hq]; exact List.mem_cons_self)
  have hsyn := h.syn
  rw [hq] at hsyn
  rcases deliverTo_server_numbers hseg us ms h.server with ⟨hst, hsnd, hrcv, hout⟩ | ⟨hl, hrcv, hout⟩
  · have hold : (deliverTo st.server seg us ms).1.state ≠ .listen → st.server.state ≠ .listen := by
      intro hne
      cases hst with
      | inl hl => exact absurd hl hne
      | inr hne' => exact hne'
    refine ⟨hinv, h.iss, ?_, ?_, ?_, ?_⟩
    · intro hl s hmem
      rcases deliverTo_server hseg us ms h.server with ⟨heq, -⟩ | ⟨-, hr, -⟩ | ⟨-, he, -⟩
      · exact hsyn (heq.symm.trans hl) s (List.mem_cons_of_mem seg hmem)
      · exact absurd (hr.symm.trans hl) (by decide)
      · exact absurd (he.symm.trans hl) (by decide)
    · intro hne
      exact hrcv.trans (h.serverRcv (hold hne))
    · intro s hmem
      show s.seq = (deliverTo st.server seg us ms).1.sndNxt
      rw [hsnd]
      refine h.synAck s ?_
      simpa [hout] using hmem
    · intro hne
      show st.client.rcvNxt = (deliverTo st.server seg us ms).1.sndNxt + 1
      rw [hsnd]
      exact h.clientRcv hne
  · refine ⟨hinv, h.iss, ?_, ?_, ?_, fun hne => absurd (h.sent hl) hne⟩
    · intro hl' s hmem
      exact hsyn hl s (List.mem_cons_of_mem seg hmem)
    · intro _
      show (deliverTo st.server seg us ms).1.rcvNxt = _
      rw [hrcv, hsyn hl seg List.mem_cons_self]
    · intro s hmem
      have hnew : s ∈ st.toClient ++ (deliverTo st.server seg us ms).2 := hmem
      rw [h.quiet hl, List.nil_append] at hnew
      exact hout s hnew

/-- The numbers when the client takes the first segment of its queue. -/
theorem NumbersInv.receive {st : Handshake} (h : NumbersInv st) {seg : TcpSegment} {rest : List TcpSegment}
    (hq : st.toClient = seg :: rest) (us ms : Nat) :
    NumbersInv
      { st with
        client := (deliverTo st.client seg us ms).1
        toClient := rest
        toServer := st.toServer ++ (deliverTo st.client seg us ms).2 } := by
  have hsyn := h.synAck
  rw [hq] at hsyn
  obtain ⟨hnl, -, hsent⟩ := h.answered hq
  obtain ⟨hiss, hcase⟩ := @deliverTo_client_numbers _ seg us ms hsent
  have hsnd : (deliverTo st.client seg us ms).1.sndNxt = st.client.sndNxt := by
    rcases hcase with ⟨-, hsnd, -⟩ | ⟨-, hsnd, -⟩
    · exact hsnd
    · rw [hsnd, h.iss]
  refine ⟨h.toHandshakeInv.receive hq us ms, ?_, fun hl => absurd hl hnl, ?_, ?_, ?_⟩
  · show (deliverTo st.client seg us ms).1.sndNxt = (deliverTo st.client seg us ms).1.iss + 1
    rw [hsnd, hiss]
    exact h.iss
  · intro hne
    show st.server.rcvNxt = (deliverTo st.client seg us ms).1.sndNxt + 1
    rw [hsnd]
    exact h.serverRcv hne
  · intro s hmem
    exact hsyn s (List.mem_cons_of_mem seg hmem)
  · intro hne
    rcases hcase with ⟨hstay, -⟩ | ⟨-, -, hrcv⟩
    · exact absurd hstay hne
    · show (deliverTo st.client seg us ms).1.rcvNxt = _
      rw [hrcv, hsyn seg List.mem_cons_self]

theorem NumbersInv.step {st st' : Handshake} {op : HandshakeOp} (h : NumbersInv st)
    (hs : handshakeStep st op = some st') : NumbersInv st' := by
  have hinv := h.toHandshakeInv.step hs
  cases op with
  | deliverToServer us ms =>
    cases hq : st.toServer with
    | nil => simp [handshakeStep, hq] at hs
    | cons seg rest =>
      simp only [handshakeStep, hq, Option.some.injEq] at hs
      subst hs
      exact h.serve hq us ms
  | deliverToClient us ms =>
    cases hq : st.toClient with
    | nil => simp [handshakeStep, hq] at hs
    | cons seg rest =>
      simp only [handshakeStep, hq, Option.some.injEq] at hs
      subst hs
      exact h.receive hq us ms
  | pollConnect =>
    simp only [handshakeStep, Option.ite_none_right_eq_some, Option.map_eq_some_iff] at hs
    obtain ⟨-, r, -, rfl⟩ := hs
    exact ⟨hinv, h.iss, h.syn, h.serverRcv, h.synAck, h.clientRcv⟩
  | pollAccept =>
    simp only [handshakeStep, Option.ite_none_right_eq_some, Option.map_eq_some_iff] at hs
    obtain ⟨-, r, -, rfl⟩ := hs
    exact ⟨hinv, h.iss, h.syn, h.serverRcv, h.synAck, h.clientRcv⟩

/-- **The numbers do not agree either**: whenever a side has taken the other one's SYN, it
    expects the byte behind the one that comes first. -/
theorem handshake_numbers (client server : TcpSocket) (ip port localPort us ms : Nat)
    (hl : server.state = .listen) (ops : List HandshakeOp) :
    Always handshakeStep (fun st =>
        (st.server.state ≠ .listen → st.server.rcvNxt = st.client.sndNxt + 1) ∧
        (st.client.state ≠ .synSent → st.client.rcvNxt = st.server.sndNxt + 1))
      (handshakeStart client server ip port localPort us ms) ops := by
  have hstart : NumbersInv (handshakeStart client server ip port localPort us ms) := by
    refine ⟨handshakeInv_start ip port localPort us ms hl, rfl, ?_, fun hne => absurd hl hne, ?_,
      fun hne => absurd rfl hne⟩
    · intro _ seg hseg
      rw [List.mem_singleton.mp hseg]
      rfl
    · exact fun seg hseg => absurd hseg List.not_mem_nil
  have hinv : Always handshakeStep NumbersInv (handshakeStart client server ip port localPort us ms) ops :=
    always_of_step (fun _ _ _ h hs => h.step hs) hstart
  exact hinv.mono fun st h => ⟨h.serverRcv, h.clientRcv⟩

theorem handshake_numbers_full :
    Always handshakeStep (fun st =>
        (st.server.state ≠ .listen → st.server.rcvNxt = st.client.sndNxt + 1) ∧
        (st.client.state ≠ .synSent → st.client.rcvNxt = st.server.sndNxt + 1))
      newHandshake fullExchange :=
  handshake_numbers newClient newServer 0x0200000A 80 49152 1000 1 rfl fullExchange

end Crimson.Net
