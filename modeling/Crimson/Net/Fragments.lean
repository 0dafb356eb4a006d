import Crimson.Net.Bounds

/-!
# Fragments of a datagram

A datagram is cut into pieces on 8-byte boundaries (`Cut`), each piece travels in a frame
(`Carries`), and the frames arrive in any order, more than once, and among the fragments
of other datagrams (`Scenario`). `Reassembled` is what a receiver owes the upper layer:
one call, with the original payload, when the last missing piece is there, and a free
slot afterwards.

`ip_rx` copies a fragment into its slot and counts its bytes, and that is all: no branch
looks at the count, so a fragment never leads to a call, and its slot is never given
back. A datagram is therefore delivered as it should be exactly when it was not cut at
all and arrived once.
-/

set_option autoImplicit false

namespace Crimson.Net

open Crimson.Lib

/-! ## What the upper layers do to the state and report -/

/-- Every event of the computation is a read of the packet. -/
def OnlyReads {α : Type} (x : Rx α) : Prop := x.All fun e => ∃ i, e = .read i

theorem onlyReads_readsOf {a n : Nat} : ∀ e ∈ readsOf a n, ∃ i, e = .read i := by
  intro e he
  obtain ⟨i, -, rfl⟩ := List.mem_map.mp he
  exact ⟨a + i, rfl⟩

@[simp] theorem onlyReads_pure {α : Type} (a : α) : OnlyReads (pure a : Rx α) := Traced.all_pure a

@[simp] theorem onlyReads_bind {α β : Type} (x : Rx α) (f : α → Rx β) :
    OnlyReads (x >>= f) ↔ OnlyReads x ∧ OnlyReads (f x.val) := Traced.all_bind x f

theorem onlyReads_ite {α : Type} (c : Prop) [Decidable c] (x y : Rx α) :
    OnlyReads (if c then x else y) ↔ (c → OnlyReads x) ∧ (¬ c → OnlyReads y) := Traced.all_ite c x y

@[simp] theorem onlyReads_read8 (pkt : Mem) (a : Nat) : OnlyReads (read8 pkt a) := onlyReads_readsOf

@[simp] theorem onlyReads_read16 (pkt : Mem) (a : Nat) : OnlyReads (read16 pkt a) := onlyReads_readsOf

@[simp] theorem onlyReads_read32 (pkt : Mem) (a : Nat) : OnlyReads (read32 pkt a) := onlyReads_readsOf

@[simp] theorem onlyReads_readRaw (pkt : Mem) (a n : Nat) : OnlyReads (readRaw pkt a n) := onlyReads_readsOf

@[simp] theorem onlyReads_readBlock (a n : Nat) : OnlyReads (readBlock a n) := onlyReads_readsOf

@[simp] theorem onlyReads_readChecksum (pkt : Mem) (a n : Nat) : OnlyReads (readChecksum pkt a n) :=
  onlyReads_readsOf

theorem onlyReads_skipLabels (pkt : Mem) (payload plen off : Nat) : OnlyReads (skipLabels pkt payload plen off) := by
  induction hn : plen - off using Nat.strong_induction_on generalizing off with
  | _ n ih =>
    rw [skipLabels]
    simp only [onlyReads_ite, onlyReads_bind, onlyReads_read8, onlyReads_pure, true_and, implies_true, and_true]
    intro hoff _ _
    exact ih _ (by omega) _ rfl

theorem onlyReads_skipName (pkt : Mem) (payload plen off : Nat) : OnlyReads (skipName pkt payload plen off) := by
  rw [skipName]
  simp only [onlyReads_ite, onlyReads_bind, onlyReads_read8, onlyReads_pure, onlyReads_skipLabels, implies_true,
    and_self]

theorem onlyReads_skipQuestions (pkt : Mem) (payload plen q off : Nat) :
    OnlyReads (skipQuestions pkt payload plen q off) := by
  induction q generalizing off with
  | zero => exact onlyReads_pure off
  | succ q ih =>
    rw [skipQuestions]
    simp only [onlyReads_ite, onlyReads_bind, onlyReads_skipName, onlyReads_pure, ih, implies_true, and_self]

theorem onlyReads_findAnswer (pkt : Mem) (payload plen a off : Nat) :
    OnlyReads (findAnswer pkt payload plen a off) := by
  induction a generalizing off with
  | zero => exact onlyReads_pure none
  | succ a ih =>
    rw [findAnswer, skipAnswerName]
    simp only [onlyReads_ite, onlyReads_bind, onlyReads_read8, onlyReads_read16, onlyReads_read32,
      onlyReads_skipName, onlyReads_pure, ih, implies_true, and_self]

variable {net : NetStack}

theorem onlyReads_udpRx (pkt : Mem) (data len : Nat) : OnlyReads (net.udpRx pkt data len) := by
  unfold NetStack.udpRx NetStack.dnsRx
  simp only [onlyReads_ite, onlyReads_bind, onlyReads_read16, onlyReads_pure, implies_true, true_and, and_true]
  intro _ _ _ _
  split
  · exact onlyReads_pure net
  · simp only [onlyReads_bind, onlyReads_read16, onlyReads_pure, onlyReads_skipQuestions, onlyReads_findAnswer,
      and_self]

theorem onlyReads_icmpRx (dev : NetIf) (pkt : Mem) (ip data : Nat) : OnlyReads (net.icmpRx dev pkt ip data) := by
  unfold NetStack.icmpRx
  simp only [onlyReads_ite, onlyReads_bind, onlyReads_read8, onlyReads_readRaw, onlyReads_pure, implies_true,
    true_and, and_true]
  intro _
  split
  · exact onlyReads_pure _
  · simp only [onlyReads_bind, onlyReads_readRaw, onlyReads_pure, and_self]

theorem onlyReads_tcpRx (pkt : Mem) (ip data len us ms : Nat) : OnlyReads (net.tcpRx pkt ip data len us ms) := by
  unfold NetStack.tcpRx
  simp only [onlyReads_bind, onlyReads_read8, onlyReads_read16, onlyReads_read32, onlyReads_readRaw,
    onlyReads_readBlock, onlyReads_pure, and_self]

/-! The fragment table is left alone by everything behind `ip_rx`. -/

theorem arpLookup_ipFrags (ip : Nat) : (net.arpLookup ip).1.ipFrags = net.ipFrags := by
  unfold NetStack.arpLookup
  cases net.arpEntry ip with
  | none => rfl
  | some e => rfl

theorem icmpRx_ipFrags (dev : NetIf) (pkt : Mem) (ip data : Nat) :
    (net.icmpRx dev pkt ip data).val.ipFrags = net.ipFrags := by
  unfold NetStack.icmpRx
  rw [Traced.val_bind]
  split
  · rw [Traced.val_bind]
    have hlook := @arpLookup_ipFrags net (readRaw pkt (ip + 12) 4).val
    split
    · rename_i heq
      rw [heq] at hlook
      exact hlook
    · rename_i heq
      rw [heq] at hlook
      exact hlook
  · rfl

theorem udpRx_ipFrags (pkt : Mem) (data len : Nat) : (net.udpRx pkt data len).val.ipFrags = net.ipFrags := by
  have hdns : ∀ payload plen, (net.dnsRx pkt payload plen).val.ipFrags = net.ipFrags := by
    intro payload plen
    unfold NetStack.dnsRx
    simp only [Traced.val_bind]
    split
    · rfl
    · split
      · rfl
      · rename_i slot _
        simp only [Traced.val_bind, Traced.val_pure]
        generalize (findAnswer pkt payload plen _ _).val = answer
        cases answer with
        | none => rfl
        | some ip => rfl
  unfold NetStack.udpRx
  split
  · rfl
  · simp only [Traced.val_bind]
    split
    · rfl
    · split
      · exact hdns _ _
      · rfl

/-- What sending a segment changes. -/
theorem transmitSegment_keep (seg : TcpSegment) :
    ∃ k sent, net.transmitSegment seg = { net with kmallocs := k, sent := sent } := by
  have hlook : ∀ (net' : NetStack) (ip : Nat),
      ∃ sent, (net'.arpLookup ip).1 = { net' with sent := sent } := by
    intro net' ip
    unfold NetStack.arpLookup
    split
    · exact ⟨net'.sent, rfl⟩
    · exact ⟨_, rfl⟩
  unfold NetStack.transmitSegment
  split
  · exact ⟨net.kmallocs, net.sent, rfl⟩
  · split
    · next net' hk =>
      obtain rfl : net.kmalloc.1 = net' := congrArg Prod.fst hk
      exact ⟨_, net.sent, rfl⟩
    · next net' hk =>
      obtain rfl : net.kmalloc.1 = net' := congrArg Prod.fst hk
      obtain ⟨sent, hsent⟩ := hlook net.kmalloc.1 seg.dstIp
      split
      · next net'' h =>
        obtain rfl : (net.kmalloc.1.arpLookup seg.dstIp).1 = net'' := congrArg Prod.fst h
        exact ⟨_, sent, hsent⟩
      · next net'' mac h =>
        obtain rfl : (net.kmalloc.1.arpLookup seg.dstIp).1 = net'' := congrArg Prod.fst h
        rw [hsent]
        exact ⟨_, _, rfl⟩

theorem foldl_transmitSegment_keep (segs : List TcpSegment) :
    ∀ net : NetStack, ∃ k sent, segs.foldl NetStack.transmitSegment net = { net with kmallocs := k, sent := sent } := by
  induction segs with
  | nil => exact fun net => ⟨net.kmallocs, net.sent, rfl⟩
  | cons seg segs ih =>
    intro net
    obtain ⟨k, sent, hone⟩ := @transmitSegment_keep net seg
    obtain ⟨k', sent', hrest⟩ := ih (net.transmitSegment seg)
    refine ⟨k', sent', ?_⟩
    rw [List.foldl_cons, hrest, hone]

theorem tcpRx_ipFrags (pkt : Mem) (ip data len us ms : Nat) :
    (net.tcpRx pkt ip data len us ms).val.ipFrags = net.ipFrags := by
  have hseg : ∀ seg, (net.tcpRxSegment seg us ms).ipFrags = net.ipFrags := by
    intro seg
    unfold NetStack.tcpRxSegment
    obtain ⟨k, sent, h⟩ := foldl_transmitSegment_keep (tcpRxTable net.tcpSockets seg us ms).2
      { net with tcpSockets := (tcpRxTable net.tcpSockets seg us ms).1 }
    rw [h]
  exact hseg _

/-! ## Calls -/

/-- What identifies a datagram: the four fields a fragment is matched by. -/
structure DatagramKey where
  src : Nat
  dst : Nat
  id : Nat
  protocol : Nat
deriving DecidableEq, Repr

def UpperCall.key (c : UpperCall) : DatagramKey := ⟨c.src, c.dst, c.id, c.protocol⟩

def IpHeader.key (h : IpHeader) : DatagramKey := ⟨h.src, h.dst, h.id, h.protocol⟩

def IpFrag.key (f : IpFrag) : DatagramKey := ⟨f.src, f.dst, f.id, f.protocol⟩

/-- The payload of an event that is a call for the datagram. -/
def callFor (k : DatagramKey) : RxEvent → Option (List Byte)
  | .upper c => if c.key = k then some c.payload else none
  | _ => none

/-- The payloads the upper layer was called with for the datagram. -/
def callsOf (k : DatagramKey) (trace : List RxEvent) : List (List Byte) := trace.filterMap (callFor k)

variable {k : DatagramKey}

@[simp] theorem callsOf_nil : callsOf k [] = [] := rfl

@[simp] theorem callsOf_append (t u : List RxEvent) : callsOf k (t ++ u) = callsOf k t ++ callsOf k u :=
  List.filterMap_append

theorem callsOf_onlyReads {α : Type} {x : Rx α} (h : OnlyReads x) : callsOf k x.trace = [] := by
  refine List.filterMap_eq_nil_iff.mpr fun e he => ?_
  obtain ⟨i, rfl⟩ := h e he
  rfl

@[simp] theorem callsOf_readsOf (a n : Nat) : callsOf k (readsOf a n) = [] :=
  callsOf_onlyReads (x := readBlock a n) (onlyReads_readBlock a n)

@[simp] theorem callsOf_writeFrag (a n : Nat) : callsOf k (writeFrag a n).trace = [] := by
  refine List.filterMap_eq_nil_iff.mpr fun e he => ?_
  obtain ⟨i, -, rfl⟩ := List.mem_map.mp he
  rfl

theorem callsOf_upper (c : UpperCall) : callsOf k [.upper c] = if c.key = k then [c.payload] else [] := by
  by_cases hk : c.key = k
  · simp [callsOf, callFor, hk]
  · simp [callsOf, callFor, hk]

/-- A fragment leads to no call. -/
theorem fragRx_calls (pkt : Mem) (h : IpHeader) (now : Nat) : callsOf k (net.fragRx pkt h now).trace = [] := by
  unfold NetStack.fragRx
  cases net.fragSlot h with
  | none => rfl
  | some i =>
    simp only [Traced.trace_bind, Traced.trace_pure, callsOf_append, callsOf_writeFrag, List.append_nil]
    exact callsOf_readsOf _ _

/-- The protocols that have an upper layer. -/
def KnownProtocol (p : Nat) : Prop := p = IP_PROTO_ICMP ∨ p = IP_PROTO_UDP ∨ p = IP_PROTO_TCP

/-- A whole datagram of a known protocol leads to one call, with its payload. -/
theorem protocolRx_calls (dev : NetIf) (pkt : Mem) (h : IpHeader) (us ms : Nat) (hp : KnownProtocol h.protocol) :
    callsOf k (net.protocolRx dev pkt h us ms).trace =
      if h.key = k then [bytesAt pkt (ETH_HDR_LEN + h.ihl) h.payloadLen] else [] := by
  have hcall : ∀ x : Rx NetStack, OnlyReads x →
      callsOf k (RxEvent.upper ⟨h.src, h.dst, h.id, h.protocol, bytesAt pkt (ETH_HDR_LEN + h.ihl) h.payloadLen⟩ ::
        x.trace) = if h.key = k then [bytesAt pkt (ETH_HDR_LEN + h.ihl) h.payloadLen] else [] := by
    intro x hx
    show callsOf k ([_] ++ x.trace) = _
    rw [callsOf_append, callsOf_onlyReads hx, List.append_nil, callsOf_upper]
    rfl
  unfold NetStack.protocolRx
  split
  · exact hcall _ (onlyReads_icmpRx _ _ _ _)
  · split
    · exact hcall _ (onlyReads_udpRx _ _ _)
    · split
      · exact hcall _ (onlyReads_tcpRx _ _ _ _ _ _)
      · rename_i hicmp hudp htcp
        exact absurd hp (by rintro (h | h | h) <;> contradiction)

theorem protocolRx_ipFrags (dev : NetIf) (pkt : Mem) (h : IpHeader) (us ms : Nat) :
    (net.protocolRx dev pkt h us ms).val.ipFrags = net.ipFrags := by
  unfold NetStack.protocolRx
  split
  · rw [Traced.val_bind]
    exact icmpRx_ipFrags _ _ _ _
  · split
    · rw [Traced.val_bind]
      exact udpRx_ipFrags _ _ _
    · split
      · rw [Traced.val_bind]
        exact tcpRx_ipFrags _ _ _ _ _ _
      · rfl

/-- What `ip_rx` does behind its checks. -/
def ipBody (net : NetStack) (dev : NetIf) (pkt : Mem) (us ms : Nat) : Rx NetStack :=
  if (ipHeader pkt).fragmented then net.fragRx pkt (ipHeader pkt) ms
  else net.protocolRx dev pkt (ipHeader pkt) us ms

/-- An IPv4 packet that passes the checks of `ip_rx`. -/
structure IpPacket (pkt : Mem) (len : Nat) : Prop where
  type : field16 pkt 12 = ETH_P_IP
  long : 34 ≤ len
  version : (pkt 14).toNat / 16 = 4
  checksum : HeaderOk pkt

/-- **Spec of `net_rx_packet`** on such a packet: the state and the calls are those of the
    body of `ip_rx`. -/
theorem netRxPacket_ip {dev : NetIf} {pkt : Mem} {len us ms : Nat} (h : IpPacket pkt len) :
    (net.netRxPacket dev pkt len us ms).val = (ipBody net dev pkt us ms).val ∧
      callsOf k (net.netRxPacket dev pkt len us ms).trace = callsOf k (ipBody net dev pkt us ms).trace := by
  have hlen : ¬ len < ETH_HDR_LEN + IP_HDR_LEN := Nat.not_lt_of_le h.long
  have heth : ¬ len < ETH_HDR_LEN := fun hlt => hlen (Nat.lt_of_lt_of_le hlt (Nat.le_add_right _ _))
  have htype : (read16 pkt 12).val = ETH_P_IP := h.type
  have hvlan : ¬ (read16 pkt 12).val = ETH_P_VLAN := by
    rw [htype]
    decide
  have harp : ¬ (read16 pkt 12).val = ETH_P_ARP := by
    rw [htype]
    decide
  have hver : ¬ (read8 pkt ETH_HDR_LEN).val / 16 ≠ 4 := not_not_intro h.version
  have hck : ¬ (readChecksum pkt ETH_HDR_LEN ((read8 pkt ETH_HDR_LEN).val % 16 * 4)).val ≠ 0 :=
    not_not_intro h.checksum
  have hip : (net.ipRx dev pkt len us ms).val = (ipBody net dev pkt us ms).val ∧
      callsOf k (net.ipRx dev pkt len us ms).trace = callsOf k (ipBody net dev pkt us ms).trace := by
    unfold NetStack.ipRx
    rw [if_neg hlen]
    simp only [Traced.val_bind, Traced.trace_bind, if_neg hver, if_neg hck]
    refine ⟨rfl, ?_⟩
    simp only [callsOf_append, callsOf_onlyReads (onlyReads_read8 _ _), callsOf_onlyReads (onlyReads_read16 _ _),
      callsOf_onlyReads (onlyReads_readChecksum _ _ _), callsOf_onlyReads (onlyReads_readRaw _ _ _), List.nil_append]
    rfl
  unfold NetStack.netRxPacket
  rw [if_neg heth]
  simp only [Traced.val_bind, Traced.trace_bind, if_neg hvlan, NetStack.dispatch, if_neg harp, if_pos htype]
  refine ⟨hip.1, ?_⟩
  rw [callsOf_append, callsOf_onlyReads (onlyReads_read16 _ _), List.nil_append]
  exact hip.2

/-! ## Datagrams and their pieces -/

/-- A datagram, as its sender has it. -/
structure Datagram where
  key : DatagramKey
  payload : List Byte
  known : KnownProtocol key.protocol
  short : payload.length ≤ 65515

/-- A piece of a datagram: its place, its bytes, and whether more follows. -/
structure Piece where
  offset : Nat
  bytes : List Byte
  more : Bool
deriving DecidableEq, Repr

/-- A payload cut on 8-byte boundaries, from the offset `off` on. -/
inductive Cut : Nat → List Byte → List Piece → Prop
  | last (off : Nat) (bs : List Byte) : Cut off bs [⟨off, bs, false⟩]
  | more {off : Nat} {bs rest : List Byte} {ps : List Piece} (hpos : bs ≠ []) (h8 : 8 ∣ bs.length)
      (hrest : rest ≠ []) (h : Cut (off + bs.length) rest ps) : Cut off (bs ++ rest) (⟨off, bs, true⟩ :: ps)

/-- The frame is an IPv4 packet with the piece. -/
structure Carries (k : DatagramKey) (p : Piece) (pkt : Mem) (len : Nat) : Prop extends IpPacket pkt len where
  ihl : 20 ≤ (ipHeader pkt).ihl
  key : (ipHeader pkt).key = k
  totalLen : (ipHeader pkt).totalLen = (ipHeader pkt).ihl + p.bytes.length
  complete : ETH_HDR_LEN + (ipHeader pkt).totalLen ≤ len
  fragOff : (ipHeader pkt).fragOff &&& 0x3FFF = p.offset / 8 + if p.more then 0x2000 else 0
  payload : bytesAt pkt (ETH_HDR_LEN + (ipHeader pkt).ihl) p.bytes.length = p.bytes

/-- A frame that arrives, with what it carries. -/
structure Arrival where
  datagram : Datagram
  piece : Piece
  pkt : Mem
  len : Nat
  us : Nat
  ms : Nat

namespace Arrival

def rx (a : Arrival) (dev : NetIf) (net : NetStack) : Rx NetStack := net.netRxPacket dev a.pkt a.len a.us a.ms

end Arrival

/-- The state behind a list of arrivals. -/
def rxState (dev : NetIf) : NetStack → List Arrival → NetStack
  | net, [] => net
  | net, a :: as => rxState dev (a.rx dev net).val as

/-- The calls for a datagram over a list of arrivals. -/
def rxCalls (dev : NetIf) (k : DatagramKey) : NetStack → List Arrival → List (List Byte)
  | _, [] => []
  | net, a :: as => callsOf k (a.rx dev net).trace ++ rxCalls dev k (a.rx dev net).val as

/-- The frames of a datagram cut into `ps`, all of them, in any order and any number of
    times, among fragments of at most 15 other datagrams. -/
structure Scenario (d : Datagram) (ps : List Piece) (others : List Datagram) (as : List Arrival) : Prop where
  cut : Cut 0 d.payload ps
  few : others.length ≤ 15
  apart : ∀ o ∈ others, o.key ≠ d.key
  carried : ∀ a ∈ as, Carries a.datagram.key a.piece a.pkt a.len
  pieces : ∀ a ∈ as, (a.datagram = d ∧ a.piece ∈ ps) ∨
    (a.datagram ∈ others ∧ ∃ qs, Cut 0 a.datagram.payload qs ∧ a.piece ∈ qs)
  all : ∀ p ∈ ps, ∃ a ∈ as, a.datagram = d ∧ a.piece = p

/-- Every piece of the datagram is among the arrivals. -/
def AllHere (d : Datagram) (ps : List Piece) (as : List Arrival) : Prop :=
  ∀ p ∈ ps, ∃ a ∈ as, a.datagram = d ∧ a.piece = p

/-- No slot in use is the datagram's. -/
def SlotFree (k : DatagramKey) (net : NetStack) : Prop := ∀ f ∈ net.ipFrags, f.active = true → f.key ≠ k

/-- **What a receiver owes the upper layer**: one call with the payload, at the arrival
    that completes the datagram, and a slot that is free from then on. -/
def Reassembled (dev : NetIf) (net : NetStack) (d : Datagram) (ps : List Piece) (as : List Arrival) : Prop :=
  ∃ pre a post, as = pre ++ a :: post ∧ ¬ AllHere d ps pre ∧ AllHere d ps (pre ++ [a]) ∧
    rxCalls dev d.key net pre = [] ∧
    callsOf d.key (a.rx dev (rxState dev net pre)).trace = [d.payload] ∧
    rxCalls dev d.key (rxState dev net (pre ++ [a])) post = [] ∧
    SlotFree d.key (rxState dev net (pre ++ [a]))

/-- A piece without the more-fragments bit is the whole, or lies behind another one. -/
theorem Cut.last_piece {off : Nat} {bs : List Byte} {ps : List Piece} (h : Cut off bs ps) :
    ∀ p ∈ ps, p.more = false → (ps = [p] ∧ p.offset = off ∧ p.bytes = bs) ∨ off + 8 ≤ p.offset := by
  induction h with
  | last off bs =>
    intro p hp _
    have hpe := List.mem_singleton.mp hp
    subst hpe
    exact Or.inl ⟨rfl, rfl, rfl⟩
  | @more off bs rest ps hpos h8 _ _ ih =>
    intro p hp hmore
    have hlen : 8 ≤ bs.length := Nat.le_of_dvd (List.length_pos_iff.mpr hpos) h8
    cases List.mem_cons.mp hp with
    | inl heq =>
      rw [heq] at hmore
      cases hmore
    | inr htail =>
      cases ih p htail hmore with
      | inl hone =>
        rw [hone.2.1]
        exact Or.inr (by omega)
      | inr hlater => exact Or.inr (by omega)

/-- A datagram that was cut travels in fragments. -/
theorem Cut.fragmented {d : List Byte} {ps : List Piece} (h : Cut 0 d ps) (hps : ps.length ≠ 1) {k : DatagramKey}
    {p : Piece} (hp : p ∈ ps) {pkt : Mem} {len : Nat} (hc : Carries k p pkt len) :
    (ipHeader pkt).fragmented = true := by
  have hne : (ipHeader pkt).fragOff &&& 0x3FFF ≠ 0 := by
    rw [hc.fragOff]
    cases hmore : p.more with
    | true => simp
    | false =>
      cases h.last_piece p hp hmore with
      | inl hone =>
        rw [hone.1] at hps
        exact absurd rfl hps
      | inr hlater =>
        have hdiv : 1 ≤ p.offset / 8 := (Nat.le_div_iff_mul_le (by decide)).mpr (by omega)
        simp only [Bool.false_eq_true, if_false, Nat.add_zero]
        omega
  simpa [IpHeader.fragmented] using hne

/-- The only piece of a datagram travels whole. -/
theorem Cut.whole {d : List Byte} {p : Piece} (h : Cut 0 d [p]) : p = ⟨0, d, false⟩ := by
  cases h with
  | last _ _ => rfl
  | more _ _ _ h => cases h

/-! ## Arrivals -/

/-- An arrival of one datagram leads to no call for another one. -/
theorem calls_of_ne {dev : NetIf} {a : Arrival} (hc : Carries a.datagram.key a.piece a.pkt a.len)
    (hk : a.datagram.key ≠ k) : callsOf k (a.rx dev net).trace = [] := by
  have hkey : (ipHeader a.pkt).key ≠ k := by
    rw [hc.key]
    exact hk
  have hproto : (ipHeader a.pkt).protocol = a.datagram.key.protocol := by
    rw [← hc.key]
    rfl
  have hknown : KnownProtocol (ipHeader a.pkt).protocol := by
    rw [hproto]
    exact a.datagram.known
  rw [Arrival.rx, (netRxPacket_ip hc.toIpPacket).2, ipBody]
  split
  · exact fragRx_calls _ _ _
  · rw [protocolRx_calls _ _ _ _ _ hknown, if_neg hkey]

/-- A fragment leads to no call. -/
theorem calls_of_fragment {dev : NetIf} {a : Arrival} (hc : Carries a.datagram.key a.piece a.pkt a.len)
    (hf : (ipHeader a.pkt).fragmented = true) : callsOf k (a.rx dev net).trace = [] := by
  rw [Arrival.rx, (netRxPacket_ip hc.toIpPacket).2, ipBody, if_pos hf]
  exact fragRx_calls _ _ _

/-- An arrival of a whole datagram leads to a call with its payload. -/
theorem calls_of_whole {dev : NetIf} {a : Arrival} (hc : Carries a.datagram.key a.piece a.pkt a.len)
    (hw : a.piece = ⟨0, a.datagram.payload, false⟩) :
    callsOf a.datagram.key (a.rx dev net).trace = [a.datagram.payload] := by
  have hproto : (ipHeader a.pkt).protocol = a.datagram.key.protocol := by
    rw [← hc.key]
    rfl
  have hknown : KnownProtocol (ipHeader a.pkt).protocol := by
    rw [hproto]
    exact a.datagram.known
  have hfrag : ¬ (ipHeader a.pkt).fragmented = true := by
    have hzero := hc.fragOff
    rw [hw] at hzero
    simp [IpHeader.fragmented, hzero]
  have hlen : (ipHeader a.pkt).payloadLen = a.datagram.payload.length := by
    have hshort := a.datagram.short
    have htotal := hc.totalLen
    rw [hw] at htotal
    simp only [IpHeader.payloadLen, htotal]
    omega
  have hbytes := hc.payload
  rw [hw] at hbytes
  rw [Arrival.rx, (netRxPacket_ip hc.toIpPacket).2, ipBody, if_neg hfrag, protocolRx_calls _ _ _ _ _ hknown,
    if_pos hc.key, hlen, hbytes]

/-- An arrival of another datagram, or of a whole one, takes no slot for this one. -/
theorem slotFree_rx {dev : NetIf} {a : Arrival} (hc : Carries a.datagram.key a.piece a.pkt a.len)
    (h : a.datagram.key ≠ k ∨ (ipHeader a.pkt).fragmented = false) (hfree : SlotFree k net) :
    SlotFree k (a.rx dev net).val := by
  rw [Arrival.rx, (netRxPacket_ip (k := k) hc.toIpPacket).1, ipBody]
  split
  · rename_i hfrag
    have hne : (ipHeader a.pkt).key ≠ k := by
      rw [hc.key]
      cases h with
      | inl hk => exact hk
      | inr hw => exact absurd (hfrag.symm.trans hw) (by decide)
    unfold NetStack.fragRx
    cases net.fragSlot (ipHeader a.pkt) with
    | none => exact hfree
    | some i =>
      intro f hf hact
      obtain ⟨j, hj⟩ := List.mem_iff_getElem?.mp hf
      have hmod : (net.ipFrags.modify i fun f => (f.claim (ipHeader a.pkt) a.ms).store (ipHeader a.pkt) a.pkt)[j]? =
          some f := hj
      rw [List.getElem?_modify, Option.map_eq_map, Option.map_eq_some_iff] at hmod
      obtain ⟨g, hg, hgf⟩ := hmod
      have hgfree := hfree g (List.mem_of_getElem? hg)
      by_cases hij : i = j
      · rw [if_pos hij] at hgf
        rw [← hgf]
        cases hgact : g.active with
        | true =>
          have hclaim : g.claim (ipHeader a.pkt) a.ms = g := if_pos hgact
          rw [hclaim]
          exact hgfree hgact
        | false =>
          have hclaim : (g.claim (ipHeader a.pkt) a.ms).key = (ipHeader a.pkt).key := by
            rw [IpFrag.claim, if_neg (by rw [hgact]; decide)]
            rfl
          intro hkey
          exact hne (hclaim.symm.trans hkey)
      · rw [if_neg hij] at hgf
        rw [← hgf] at hact ⊢
        exact hgfree hact
  · intro f hf
    rw [protocolRx_ipFrags] at hf
    exact hfree f hf

theorem rxState_append {dev : NetIf} (as bs : List Arrival) :
    rxState dev net (as ++ bs) = rxState dev (rxState dev net as) bs := by
  induction as generalizing net with
  | nil => rfl
  | cons a as ih => exact ih

/-- Arrivals of other datagrams: no call, and no slot taken. -/
theorem rx_others {dev : NetIf} {as : List Arrival} (hc : ∀ a ∈ as, Carries a.datagram.key a.piece a.pkt a.len)
    (hk : ∀ a ∈ as, a.datagram.key ≠ k) (hfree : SlotFree k net) :
    rxCalls dev k net as = [] ∧ SlotFree k (rxState dev net as) := by
  induction as generalizing net with
  | nil => exact ⟨rfl, hfree⟩
  | cons a as ih =>
    have hca := hc a List.mem_cons_self
    have hka := hk a List.mem_cons_self
    have hnext : SlotFree k (a.rx dev net).val := slotFree_rx hca (Or.inl hka) hfree
    have hrest := ih (fun b hb => hc b (List.mem_cons_of_mem a hb)) (fun b hb => hk b (List.mem_cons_of_mem a hb))
      hnext
    refine ⟨?_, hrest.2⟩
    rw [rxCalls, calls_of_ne hca hka, hrest.1, List.nil_append]

variable {d : Datagram} {ps : List Piece} {others : List Datagram} {as : List Arrival}

/-- The arrivals of the datagram are those with its key. -/
theorem Scenario.of_key (hs : Scenario d ps others as) {a : Arrival} (ha : a ∈ as) (hk : a.datagram.key = d.key) :
    a.datagram = d ∧ a.piece ∈ ps := by
  cases hs.pieces a ha with
  | inl h => exact h
  | inr h => exact absurd hk (hs.apart _ h.1)

/-- **A datagram that was cut is never handed to its upper layer.** -/
theorem Scenario.no_call (hs : Scenario d ps others as) (hps : ps.length ≠ 1) {dev : NetIf} {a : Arrival}
    (ha : a ∈ as) : callsOf d.key (a.rx dev net).trace = [] := by
  have hc := hs.carried a ha
  by_cases hk : a.datagram.key = d.key
  · exact calls_of_fragment hc (hs.cut.fragmented hps (hs.of_key ha hk).2 hc)
  · exact calls_of_ne hc hk

/-- A datagram that was not cut is handed over at each of its arrivals. -/
theorem Scenario.call (hs : Scenario d ps others as) (hps : ps.length = 1) {dev : NetIf} {a : Arrival}
    (ha : a ∈ as) (hk : a.datagram.key = d.key) : callsOf d.key (a.rx dev net).trace = [d.payload] := by
  obtain ⟨p, rfl⟩ := List.length_eq_one_iff.mp hps
  obtain ⟨hd, hp⟩ := hs.of_key ha hk
  have hwhole : a.piece = ⟨0, a.datagram.payload, false⟩ := by
    rw [hd, List.mem_singleton.mp hp]
    exact hs.cut.whole
  have hcall : callsOf a.datagram.key (a.rx dev net).trace = [a.datagram.payload] :=
    calls_of_whole (hs.carried a ha) hwhole
  rwa [hd] at hcall

/-- Without a call, no arrival was the datagram's. -/
theorem Scenario.no_arrival (hs : Scenario d ps others as) (hps : ps.length = 1) {dev : NetIf} {bs : List Arrival}
    (hsub : ∀ b ∈ bs, b ∈ as) (hnone : rxCalls dev d.key net bs = []) : ∀ b ∈ bs, b.datagram.key ≠ d.key := by
  induction bs generalizing net with
  | nil => exact fun b hb => absurd hb List.not_mem_nil
  | cons b bs ih =>
    obtain ⟨hb, hrest⟩ := List.append_eq_nil_iff.mp hnone
    intro c hcmem
    cases List.mem_cons.mp hcmem with
    | inl heq =>
      intro hk
      rw [heq] at hk
      rw [hs.call hps (hsub b List.mem_cons_self) hk] at hb
      exact absurd hb (List.cons_ne_nil _ _)
    | inr htail => exact ih (fun e he => hsub e (List.mem_cons_of_mem b he)) hrest c htail

/-- **When a datagram is delivered as it should be**: exactly when it was not cut, and its
    one frame arrived once. -/
theorem reassembled_iff (net : NetStack) (dev : NetIf) (d : Datagram) (ps : List Piece) (others : List Datagram)
    (as : List Arrival) (hfree : ∀ f ∈ net.ipFrags, f.active = false) (hs : Scenario d ps others as) :
    Reassembled dev net d ps as ↔
      ps.length = 1 ∧ (as.filter fun a => a.datagram.key = d.key).length = 1 := by
  constructor
  · rintro ⟨pre, a, post, rfl, -, -, hpre, hcall, hpost, -⟩
    have ha : a ∈ pre ++ a :: post := List.mem_append_right _ List.mem_cons_self
    have hps : ps.length = 1 := by
      by_contra hne
      rw [hs.no_call hne ha] at hcall
      exact absurd hcall (by simp)
    have hka : a.datagram.key = d.key := by
      by_contra hne
      rw [calls_of_ne (hs.carried a ha) hne] at hcall
      exact absurd hcall (by simp)
    have hpre' := hs.no_arrival hps (fun b hb => List.mem_append_left _ hb) hpre
    have hpost' := hs.no_arrival hps (fun b hb => List.mem_append_right _ (List.mem_cons_of_mem a hb)) hpost
    refine ⟨hps, ?_⟩
    have hnil : ∀ bs : List Arrival, (∀ b ∈ bs, b.datagram.key ≠ d.key) →
        (bs.filter fun b => b.datagram.key = d.key) = [] := by
      intro bs hbs
      refine List.filter_eq_nil_iff.mpr fun b hb => ?_
      simpa using hbs b hb
    rw [List.filter_append, List.filter_cons_of_pos (by simpa using hka), hnil pre hpre', hnil post hpost']
    rfl
  · -- one arrival of the datagram, and only those of others before and behind it
    rintro ⟨hps, hone⟩
    obtain ⟨a, ha⟩ := List.length_eq_one_iff.mp hone
    obtain ⟨pre, post, rfl, hpre, hka, hpost⟩ := List.filter_eq_cons_iff.mp ha
    have hmem : a ∈ pre ++ a :: post := List.mem_append_right _ List.mem_cons_self
    have hka' : a.datagram.key = d.key := by simpa using hka
    have hpre' : ∀ b ∈ pre, b.datagram.key ≠ d.key := fun b hb => by simpa using hpre b hb
    have hpost' : ∀ b ∈ post, b.datagram.key ≠ d.key := by
      intro b hb
      simpa using List.filter_eq_nil_iff.mp hpost b hb
    have hcarried := hs.carried
    have hfree' : SlotFree d.key net := fun f hf hact => absurd ((hfree f hf).symm.trans hact) (by decide)
    have hbefore : rxCalls dev d.key net pre = [] ∧ SlotFree d.key (rxState dev net pre) :=
      rx_others (fun b hb => hcarried b (List.mem_append_left _ hb)) hpre' hfree'
    obtain ⟨p, rfl⟩ := List.length_eq_one_iff.mp hps
    obtain ⟨hd, hp⟩ := hs.of_key hmem hka'
    have hwhole : (ipHeader a.pkt).fragmented = false := by
      have hfrag := (hcarried a hmem).fragOff
      rw [List.mem_singleton.mp hp, hs.cut.whole] at hfrag
      simp [IpHeader.fragmented, hfrag]
    have hafter : SlotFree d.key (rxState dev net (pre ++ [a])) := by
      rw [rxState_append]
      exact slotFree_rx (hcarried a hmem) (Or.inr hwhole) hbefore.2
    have hlater : rxCalls dev d.key (rxState dev net (pre ++ [a])) post = [] ∧
        SlotFree d.key (rxState dev (rxState dev net (pre ++ [a])) post) :=
      rx_others (fun b hb => hcarried b (List.mem_append_right _ (List.mem_cons_of_mem a hb))) hpost' hafter
    refine ⟨pre, a, post, rfl, ?_, ?_, hbefore.1, hs.call hps hmem hka', hlater.1, hafter⟩
    · intro hall
      obtain ⟨b, hb, hbd, -⟩ := hall p List.mem_cons_self
      exact hpre' b hb (congrArg Datagram.key hbd)
    · intro q hq
      refine ⟨a, by simp, hd, ?_⟩
      rw [List.mem_singleton.mp hp, List.mem_singleton.mp hq]

/-! A datagram of sixteen zero bytes from 10.0.0.1 to 10.0.0.2, in one frame and in two. -/

/-- A frame with the given length, fragment field and checksum, and a payload of zeros. -/
def zerosFrame (totalLen fragHi fragLo sumLo sumHi : Nat) : Mem :=
  packetOf [0, 0, 0, 0, 0, 0, 0, 0, 0, 0, 0, 0, 0x08, 0x00,
    0x45, 0, 0, totalLen, 0, 7, fragHi, fragLo, 64, 17, sumLo, sumHi, 10, 0, 0, 1, 10, 0, 0, 2]

def sixteenZeros : Datagram where
  key := ⟨0x0100000A, 0x0200000A, 7, IP_PROTO_UDP⟩
  payload := List.replicate 16 0
  known := Or.inr (Or.inl rfl)
  short := by decide

def wholeArrival : Arrival where
  datagram := sixteenZeros
  piece := ⟨0, List.replicate 16 0, false⟩
  pkt := zerosFrame 36 0 0 0x66 0xC0
  len := 50
  us := 0
  ms := 0

def firstHalf : Arrival where
  datagram := sixteenZeros
  piece := ⟨0, List.replicate 8 0, true⟩
  pkt := zerosFrame 28 0x20 0 0x46 0xC8
  len := 42
  us := 0
  ms := 0

def secondHalf : Arrival where
  datagram := sixteenZeros
  piece := ⟨8, List.replicate 8 0, false⟩
  pkt := zerosFrame 28 0 1 0x66 0xC7
  len := 42
  us := 0
  ms := 0

instance (k : DatagramKey) (p : Piece) (pkt : Mem) (len : Nat) : Decidable (Carries k p pkt len) :=
  decidable_of_iff
    ((field16 pkt 12 = ETH_P_IP ∧ 34 ≤ len ∧ (pkt 14).toNat / 16 = 4 ∧ ipChecksum pkt 14 (ipHeader pkt).ihl = 0) ∧
      20 ≤ (ipHeader pkt).ihl ∧ (ipHeader pkt).key = k ∧ (ipHeader pkt).totalLen = (ipHeader pkt).ihl + p.bytes.length ∧
        ETH_HDR_LEN + (ipHeader pkt).totalLen ≤ len ∧
          (ipHeader pkt).fragOff &&& 0x3FFF = p.offset / 8 + (if p.more then 0x2000 else 0) ∧
            bytesAt pkt (ETH_HDR_LEN + (ipHeader pkt).ihl) p.bytes.length = p.bytes)
    ⟨fun ⟨⟨h₁, h₂, h₃, h₄⟩, h₅, h₆, h₇, h₈, h₉, h⟩ => ⟨⟨h₁, h₂, h₃, h₄⟩, h₅, h₆, h₇, h₈, h₉, h⟩,
      fun h => ⟨⟨h.type, h.long, h.version, h.checksum⟩, h.ihl, h.key, h.totalLen, h.complete, h.fragOff, h.payload⟩⟩

theorem arrivals_carry :
    ∀ a ∈ [wholeArrival, firstHalf, secondHalf], Carries a.datagram.key a.piece a.pkt a.len := by
  decide +kernel

theorem scenario_whole : Scenario sixteenZeros [wholeArrival.piece] [] [wholeArrival] where
  cut := .last 0 _
  few := by decide
  apart := by simp
  carried := by
    intro a ha
    rw [List.mem_singleton.mp ha]
    exact arrivals_carry _ (by simp)
  pieces := by
    intro a ha
    rw [List.mem_singleton.mp ha]
    exact Or.inl ⟨rfl, List.mem_singleton.mpr rfl⟩
  all := by
    intro p hp
    exact ⟨wholeArrival, List.mem_singleton.mpr rfl, rfl, (List.mem_singleton.mp hp).symm⟩

theorem scenario_halves : Scenario sixteenZeros [firstHalf.piece, secondHalf.piece] [] [firstHalf, secondHalf] where
  cut := @Cut.more 0 (List.replicate 8 0) (List.replicate 8 0) _ (by decide) (by decide) (by decide) (.last 8 _)
  few := by decide
  apart := by simp
  carried := by
    intro a ha
    exact arrivals_carry a (List.mem_cons_of_mem _ ha)
  pieces := by
    intro a ha
    cases List.mem_cons.mp ha with
    | inl h =>
      rw [h]
      exact Or.inl ⟨rfl, List.mem_cons_self⟩
    | inr h =>
      rw [List.mem_singleton.mp h]
      exact Or.inl ⟨rfl, List.mem_cons_of_mem _ List.mem_cons_self⟩
  all := by
    intro p hp
    cases List.mem_cons.mp hp with
    | inl h => exact ⟨firstHalf, by simp, rfl, h.symm⟩
    | inr h => exact ⟨secondHalf, by simp, rfl, (List.mem_singleton.mp h).symm⟩

theorem netInit_free (netIf : Option NetIf) (kmallocs : Nat → Bool) :
    ∀ f ∈ (netInit netIf kmallocs).ipFrags, f.active = false := by
  intro f hf
  rw [List.eq_of_mem_replicate hf]

theorem reassembled_whole :
    Reassembled ⟨0, 0, 0, 0⟩ (netInit none fun _ => true) sixteenZeros [wholeArrival.piece] [wholeArrival] :=
  (reassembled_iff _ _ _ _ [] _ (netInit_free _ _) scenario_whole).mpr ⟨rfl, by decide +kernel⟩

/-- In two halves it is never delivered: not every scenario ends in a reassembly. -/
theorem halves_not_reassembled :
    Scenario sixteenZeros [firstHalf.piece, secondHalf.piece] [] [firstHalf, secondHalf] ∧
      ¬ Reassembled ⟨0, 0, 0, 0⟩ (netInit none fun _ => true) sixteenZeros [firstHalf.piece, secondHalf.piece]
        [firstHalf, secondHalf] := by
  refine ⟨scenario_halves, ?_⟩
  rintro ⟨pre, a, post, has, -, -, -, hcall, -⟩
  have ha : a ∈ [firstHalf, secondHalf] := by
    rw [has]
    exact List.mem_append_right _ List.mem_cons_self
  rw [scenario_halves.no_call (by decide) ha] at hcall
  exact absurd hcall (by simp)

end Crimson.Net
