import Crimson.Lib.FirstFound
import Crimson.Net.Tcp

/-!
# Which socket a segment goes to

`tcp_rx` goes through the table once and takes the first socket that either has the segment's
connection or listens on its port. So a listener that stands before the connection takes its
segments (`portTaken`), and where the slots stand is decided by what was created and closed
before. **`demux_iff`** says in which tables, and in the tables of which sockets, connections come
first all the same.
-/

set_option autoImplicit false

namespace Crimson.Net

open Crimson.Lib

/-- The segment belongs to the socket's connection. -/
def ofConnection (seg : TcpSegment) (s : TcpSocket) : Bool :=
  s.inUse && (s.localPort == seg.dstPort && s.remotePort == seg.srcPort && s.remoteIp == seg.srcIp)

/-- The socket listens on the segment's port. -/
def listensFor (seg : TcpSegment) (s : TcpSocket) : Bool :=
  s.inUse && (s.state == .listen && s.localPort == seg.dstPort)

/-- The segment is given to the socket. -/
def Delivered (socks : List TcpSocket) (seg : TcpSegment) (s : TcpSocket) : Prop :=
  ∃ i, findSocket socks seg = some i ∧ socks[i]? = some s

/-- **Connections come first**: a segment goes to a socket whose connection it belongs to, if there
    is one, and a listener gets only what belongs to none. -/
structure Demuxed (socks : List TcpSocket) (seg : TcpSegment) : Prop where
  connection : (∃ s ∈ socks, ofConnection seg s = true) → ∃ s, Delivered socks seg s ∧ ofConnection seg s = true
  listener : ∀ s, Delivered socks seg s → s.state = .listen → ofConnection seg s = false →
    ∀ t ∈ socks, ofConnection seg t = false

/-- No listener on the port stands before the first socket of the connection. -/
def NoListenerBefore (socks : List TcpSocket) (seg : TcpSegment) : Prop :=
  ∀ before s after, socks = before ++ s :: after → ofConnection seg s = true →
    (∀ t ∈ before, ofConnection seg t = false) → ∀ t ∈ before, listensFor seg t = false

section

variable {socks : List TcpSocket} {seg : TcpSegment} {s : TcpSocket}

theorem tcpMatches_eq (seg : TcpSegment) (s : TcpSocket) :
    tcpMatches seg s = (ofConnection seg s || listensFor seg s) := by
  unfold tcpMatches ofConnection listensFor
  rw [← Bool.and_or_distrib_left]

/-- The search is for the first socket of either kind. -/
theorem delivered_iff : Delivered socks seg s ↔
    socks.find? (fun s => ofConnection seg s || listensFor seg s) = some s := by
  have hmatches : tcpMatches seg = fun s => ofConnection seg s || listensFor seg s := funext (tcpMatches_eq seg)
  unfold Delivered findSocket
  rw [hmatches]
  constructor
  · rintro ⟨i, hi, hs⟩
    obtain ⟨hlt, hfound, hbefore⟩ := List.findIdx?_eq_some_iff_getElem.mp hi
    obtain rfl : socks[i] = s := Option.some.inj ((List.getElem?_eq_getElem hlt).symm.trans hs)
    exact List.find?_eq_some_iff_getElem.mpr ⟨hfound, i, hlt, rfl, fun j hj => by simpa using hbefore j hj⟩
  · intro h
    obtain ⟨hfound, i, hlt, rfl, hbefore⟩ := List.find?_eq_some_iff_getElem.mp h
    refine ⟨i, List.findIdx?_eq_some_iff_getElem.mpr ⟨hlt, hfound, fun j hj => by simpa using hbefore j hj⟩, ?_⟩
    exact List.getElem?_eq_getElem hlt

/-- A segment is given to the socket by `tcp_rx`, and to no other. -/
theorem Delivered.tcpRxTable (h : Delivered socks seg s) (us ms : Nat) :
    ∃ i, socks[i]? = some s ∧ Net.tcpRxTable socks seg us ms =
      (socks.set i (tcpRxSocket s seg us ms).1, (tcpRxSocket s seg us ms).2) := by
  obtain ⟨i, hi, hs⟩ := h
  refine ⟨i, hs, ?_⟩
  rw [Net.tcpRxTable, hi]
  dsimp only
  rw [hs]

theorem demuxed_iff_prefers : Demuxed socks seg ↔ Prefers (ofConnection seg) (listensFor seg) socks := by
  constructor
  · intro h hsome
    obtain ⟨s, hs, hconn⟩ := h.connection hsome
    exact ⟨s, delivered_iff.mp hs, hconn⟩
  · intro h
    refine ⟨fun hsome => ?_, fun s hs _ hother t ht => ?_⟩
    · obtain ⟨s, hs, hconn⟩ := h hsome
      exact ⟨s, delivered_iff.mpr hs, hconn⟩
    · by_contra hne
      obtain ⟨s', hs', hconn⟩ := h ⟨t, ht, by simpa using hne⟩
      obtain rfl : s' = s := Option.some.inj (hs'.symm.trans (delivered_iff.mp hs))
      rw [hother] at hconn
      cases hconn

/-- **Where connections come first**, in a table as it stands and in whatever order. -/
theorem demux_iff (socks : List TcpSocket) (seg : TcpSegment) :
    (Demuxed socks seg ↔ NoListenerBefore socks seg) ∧
      ((∀ socks', socks'.Perm socks → Demuxed socks' seg) ↔
        (∀ s ∈ socks, ofConnection seg s = false) ∨ ∀ s ∈ socks, listensFor seg s = true → ofConnection seg s = true) := by
  constructor
  · rw [demuxed_iff_prefers]
    exact prefers_iff
  · rw [← prefers_perm_iff]
    exact forall₂_congr fun _ _ => demuxed_iff_prefers

end

/-! ## A port that is listened on again -/

/-- A segment from port 5000 of `0x0200000A` to port 80. -/
def toPort80 (flags : BitVec 8) (seq ack : UInt32) (payload : List Byte) : TcpSegment where
  srcIp := 0x0200000A
  dstIp := 0x0100000A
  srcPort := 5000
  dstPort := 80
  seq := seq
  ack := ack
  flags := flags
  window := 65535
  payload := payload

/-- Two sockets are created. The second one listens on port 80 and becomes a connection; then the
    first one listens on the port. -/
def portTaken : List TcpSocket :=
  let listener := tcpListen (tcpBind (freshSocket 16 32) 0x0100000A 80)
  let accepted := (tcpRxSocket (tcpListen (tcpBind (freshSocket 48 64) 0x0100000A 80))
    (toPort80 TCP_FLAG_SYN 100 0 []) 7 0).1
  [listener, (tcpRxSocket accepted (toPort80 TCP_FLAG_ACK 101 8 []) 7 0).1]

/-- **A segment of the connection goes to the listener.** -/
theorem demux_to_listener : ¬ ∀ socks seg, Demuxed socks seg := by
  intro h
  have hfirst := (demuxed_iff_prefers.mp (h portTaken (toPort80 (TCP_FLAG_ACK ||| TCP_FLAG_PSH) 101 8 [1]))) (by decide)
  exact absurd hfirst (by decide)

end Crimson.Net
