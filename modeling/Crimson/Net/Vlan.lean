import Crimson.Net.Fragments

/-!
# VLAN tags

`net_rx_packet` looks for the type of a tagged frame behind the tag, and then hands the
frame to `arp_rx` and `ip_rx` as it is; these begin where the header of an untagged frame
ends. Of a tagged frame they take the tag for the first four bytes of their packet.

For `arp_rx` the type of the frame then stands where the protocol is, and every tagged ARP
packet is ignored. For `ip_rx` the first byte of the tag is the version and the header
length, and a tagged datagram is ignored unless that and the checksum happen to fit
(`TagRejected`). A frame whose tag is rejected has the effect of the untagged one exactly
when that one has none: `FrameActs` says field by field when it has.
-/

set_option autoImplicit false

namespace Crimson.Net

open Crimson.Lib

/-- The frame of the memory `t` is the one of `pkt` with a tag after the addresses. -/
structure Tagged (pkt : Mem) (len tci : Nat) (t : Mem) : Prop where
  addresses : ∀ x < 12, t x = pkt x
  tpid : field16 t 12 = ETH_P_VLAN
  tag : field16 t 14 = tci
  rest : ∀ x, 12 ≤ x → x < len → t (x + 4) = pkt x

/-- Two states that agree in what the property speaks of. -/
structure SameEffect (net net' : NetStack) : Prop where
  arpCache : net'.arpCache = net.arpCache
  ipFrags : net'.ipFrags = net.ipFrags
  dnsQueries : net'.dnsQueries = net.dnsQueries
  tcpSockets : net'.tcpSockets = net.tcpSockets
  sent : net'.sent = net.sent

/-- The tagged frame has the effect of the untagged one. -/
def VlanTransparent (net : NetStack) (dev : NetIf) (pkt : Mem) (len : Nat) (t : Mem) (us ms : Nat) : Prop :=
  SameEffect (net.netRxPacket dev pkt len us ms).val (net.netRxPacket dev t (len + 4) us ms).val

/-! ## When a frame has an effect -/

/-- An ARP request for the interface, or a reply that is news. -/
def ArpActs (net : NetStack) (dev : NetIf) (pkt : Mem) (ms : Nat) : Prop :=
  field16 pkt 14 = 1 ∧ field16 pkt 16 = ETH_P_IP ∧
    (field16 pkt 20 = ARP_REQUEST ∧ loadBytes pkt 38 4 = dev.ipAddr ∨
      field16 pkt 20 = ARP_REPLY ∧ ∃ slot, net.arpSlot (loadBytes pkt 28 4) = some slot ∧
        net.arpCache[slot]? ≠ some ⟨loadBytes pkt 28 4, loadBytes pkt 22 6, ms, true⟩)

/-- A fragment changes its slot: it claims it, brings bytes, or tells another length. -/
def FragActs (net : NetStack) (h : IpHeader) : Prop :=
  ∃ i f, net.fragSlot h = some i ∧ net.ipFrags[i]? = some f ∧
    (f.active = false ∨ (f.received + h.payloadLen) % 2 ^ 16 ≠ f.received ∨
      h.fragOff &&& 0x2000 = 0 ∧ (h.offset + h.payloadLen) % 2 ^ 16 ≠ f.total)

/-- A DNS response with an address for a query that waits for it. -/
def DnsActs (net : NetStack) (pkt : Mem) (payload plen : Nat) : Prop :=
  field16 pkt (payload + 2) &&& 0x8000 ≠ 0 ∧ field16 pkt (payload + 2) &&& 0x000F = 0 ∧
    (net.dnsSlot (field16 pkt payload)).isSome = true ∧
    (findAnswer pkt payload plen (field16 pkt (payload + 6))
      (skipQuestions pkt payload plen (field16 pkt (payload + 4)) 12).val).val.isSome = true

/-- A DNS response that is long enough, and acts. -/
def UdpActs (net : NetStack) (pkt : Mem) (data len : Nat) : Prop :=
  8 ≤ len ∧ 8 ≤ field16 pkt (data + 4) ∧ field16 pkt data = DNS_PORT ∧ 12 ≤ field16 pkt (data + 4) - 8 ∧
    DnsActs net pkt (data + 8) (field16 pkt (data + 4) - 8)

/-- A segment with bytes in order: it fills the receive buffer, or an ACK goes out. -/
def DataActs (net : NetStack) (s : TcpSocket) (seg : TcpSegment) : Prop :=
  0 < seg.payload.length ∧ seg.seq = s.rcvNxt ∧
    ((s.rxCount + rxAccepted s seg) % 2 ^ 32 ≠ s.rxCount ∨ net.netIf.isSome = true ∧ net.kmallocs 0 = true)

/-- The state machine of `tcp_rx` takes notice of a segment. -/
def SegmentActs (net : NetStack) (s : TcpSocket) (seg : TcpSegment) : Prop :=
  match s.state with
  | .synSent | .listen => seg.has TCP_FLAG_SYN = true
  | .synReceived | .lastAck | .closing => seg.has TCP_FLAG_ACK = true
  | .established | .finWait1 | .finWait2 =>
    seg.has TCP_FLAG_ACK = true ∧ (s.sndUna ≤ seg.ack ∨ seg.window ≠ s.sndWnd) ∨ DataActs net s seg ∨
      seg.has TCP_FLAG_FIN = true
  | .closed | .closeWait | .timeWait => False

/-- A segment for a socket, whose last activity was earlier or which takes notice of it. -/
def TcpActs (net : NetStack) (seg : TcpSegment) (ms : Nat) : Prop :=
  ∃ i s, findSocket net.tcpSockets seg = some i ∧ net.tcpSockets[i]? = some s ∧
    (s.lastActivity ≠ ms ∨ SegmentActs net s seg)

/-- A datagram that is not a fragment. -/
def ProtocolActs (net : NetStack) (pkt : Mem) (h : IpHeader) (ms : Nat) : Prop :=
  h.protocol = IP_PROTO_ICMP ∧ (pkt (14 + h.ihl)).toNat = ICMP_ECHO_REQUEST ∨
    h.protocol = IP_PROTO_UDP ∧ UdpActs net pkt (14 + h.ihl) h.payloadLen ∨
    h.protocol = IP_PROTO_TCP ∧ TcpActs net (segmentAt pkt 14 (14 + h.ihl) h.payloadLen) ms

/-- A datagram that is accepted, and acts. -/
def IpActs (net : NetStack) (pkt : Mem) (len ms : Nat) : Prop :=
  34 ≤ len ∧ (pkt 14).toNat / 16 = 4 ∧ HeaderOk pkt ∧
    if (ipHeader pkt).fragmented then FragActs net (ipHeader pkt) else ProtocolActs net pkt (ipHeader pkt) ms

/-- A frame of the two types that has an effect. -/
def FrameActs (net : NetStack) (dev : NetIf) (pkt : Mem) (len ms : Nat) : Prop :=
  (field16 pkt 12 = ETH_P_ARP ∧ ArpActs net dev pkt ms) ∨ (field16 pkt 12 = ETH_P_IP ∧ IpActs net pkt len ms)

/-- The tag is not taken for the beginning of an IPv4 header. -/
def TagRejected (len tci : Nat) (t : Mem) : Prop :=
  len < 30 ∨ tci / 4096 ≠ 4 ∨ ipChecksum t 14 (tci / 256 % 16 * 4) ≠ 0

/-! ## The tagged frame -/

theorem field16_eq (m : Mem) (a : Nat) : field16 m a = (m a).toNat * 256 + (m (a + 1)).toNat := by
  have h₁ := (m a).isLt
  have h₂ := (m (a + 1)).isLt
  simp only [field16, ntohs, loadBytes]
  omega

theorem read16_val (m : Mem) (a : Nat) : (read16 m a).val = field16 m a := rfl

theorem Tagged.type {pkt t : Mem} {len tci : Nat} (h : Tagged pkt len tci t) (hlen : 14 ≤ len) :
    field16 t 16 = field16 pkt 12 := by
  rw [field16_eq, field16_eq, h.rest 12 (by omega) (by omega), h.rest 13 (by omega) (by omega)]

theorem Tagged.first {pkt t : Mem} {len tci : Nat} (h : Tagged pkt len tci t) : (t 14).toNat = tci / 256 := by
  have h₁ := (t 15).isLt
  rw [← h.tag, field16_eq]
  omega

theorem SameEffect.refl (net : NetStack) : SameEffect net net := ⟨rfl, rfl, rfl, rfl, rfl⟩

theorem SameEffect.symm {net net' : NetStack} (h : SameEffect net net') : SameEffect net' net :=
  ⟨h.arpCache.symm, h.ipFrags.symm, h.dnsQueries.symm, h.tcpSockets.symm, h.sent.symm⟩

variable {net : NetStack} {dev : NetIf} {pkt t : Mem} {len tci us ms : Nat}

/-- A packet whose protocol field is another than IPv4 is ignored. -/
theorem arpRx_ignored (h : field16 pkt 16 ≠ ETH_P_IP) : (net.arpRx dev pkt ms).val = net := by
  have hproto : (read16 pkt (ETH_HDR_LEN + 2)).val ≠ ETH_P_IP := h
  unfold NetStack.arpRx
  simp only [Traced.val_bind]
  split
  · rfl
  · rw [Traced.val_bind, if_pos hproto]
    rfl

/-- What `ip_rx` does not accept, it ignores. -/
theorem ipRx_ignored (h : len < 34 ∨ (pkt 14).toNat / 16 ≠ 4 ∨ ¬HeaderOk pkt) :
    (net.ipRx dev pkt len us ms).val = net := by
  unfold NetStack.ipRx
  split
  · rfl
  · next hlen =>
    simp only [Traced.val_bind]
    split
    · rfl
    · next hver =>
      have hbad : (readChecksum pkt ETH_HDR_LEN ((read8 pkt ETH_HDR_LEN).val % 16 * 4)).val ≠ 0 := by
        rcases h with hshort | hno | hsum
        · exact absurd hshort hlen
        · exact absurd hno hver
        · exact hsum
      rw [Traced.val_bind, if_pos hbad]
      rfl

theorem ipRx_accepted (hlen : 34 ≤ len) (hver : (pkt 14).toNat / 16 = 4) (hok : HeaderOk pkt) :
    (net.ipRx dev pkt len us ms).val = (ipBody net dev pkt us ms).val := by
  have hshort : ¬len < ETH_HDR_LEN + IP_HDR_LEN := Nat.not_lt_of_le hlen
  have hver' : ¬(read8 pkt ETH_HDR_LEN).val / 16 ≠ 4 := not_not_intro hver
  have hsum : ¬(readChecksum pkt ETH_HDR_LEN ((read8 pkt ETH_HDR_LEN).val % 16 * 4)).val ≠ 0 := not_not_intro hok
  unfold NetStack.ipRx
  rw [if_neg hshort]
  simp only [Traced.val_bind, if_neg hver', if_neg hsum]
  rfl

/-- The dispatch of an untagged frame. -/
theorem netRxPacket_untagged (hlen : 14 ≤ len) (htype : field16 pkt 12 ≠ ETH_P_VLAN) :
    (net.netRxPacket dev pkt len us ms).val = (net.dispatch dev (field16 pkt 12) pkt len us ms).val := by
  have hlong : ¬len < ETH_HDR_LEN := Nat.not_lt_of_le hlen
  unfold NetStack.netRxPacket
  have htype' : ¬(read16 pkt 12).val = ETH_P_VLAN := htype
  rw [if_neg hlong, Traced.val_bind, if_neg htype', read16_val]

/-- The dispatch of a tagged one: by the type behind the tag, and at the same place. -/
theorem netRxPacket_tagged (hlen : 14 ≤ len) (h : Tagged pkt len tci t) :
    (net.netRxPacket dev t (len + 4) us ms).val = (net.dispatch dev (field16 pkt 12) t (len + 4) us ms).val := by
  have hlong : ¬len + 4 < ETH_HDR_LEN := by
    unfold ETH_HDR_LEN
    omega
  have hlong' : ¬len + 4 < ETH_VLAN_HDR_LEN := by
    unfold ETH_VLAN_HDR_LEN
    omega
  unfold NetStack.netRxPacket
  have htype : (read16 t 12).val = ETH_P_VLAN := h.tpid
  rw [if_neg hlong, Traced.val_bind, if_pos htype, if_neg hlong', Traced.val_bind, read16_val, h.type hlen]

/-- **A tagged frame is ignored**: an ARP packet always, a datagram if its tag is rejected. -/
theorem tagged_ignored (hlen : 14 ≤ len) (h : Tagged pkt len tci t)
    (htype : field16 pkt 12 = ETH_P_IP ∨ field16 pkt 12 = ETH_P_ARP)
    (hrej : field16 pkt 12 = ETH_P_IP → TagRejected len tci t) :
    (net.netRxPacket dev t (len + 4) us ms).val = net := by
  rw [netRxPacket_tagged hlen h]
  unfold NetStack.dispatch
  rcases htype with hip | harp
  · rw [hip, if_neg (by decide), if_pos rfl]
    apply ipRx_ignored
    rcases hrej hip with hshort | hver | hsum
    · exact Or.inl (by omega)
    · refine Or.inr (Or.inl ?_)
      rw [h.first]
      omega
    · refine Or.inr (Or.inr ?_)
      unfold HeaderOk ipHeader
      rwa [h.first]
  · rw [harp, if_pos rfl]
    apply arpRx_ignored
    rw [h.type hlen, harp]
    decide

/-! ## The untagged frame -/

theorem sameEffect_transmit (frame : Frame) : ¬SameEffect net (net.transmit frame) := by
  intro h
  have hsent := h.sent
  simp [NetStack.transmit] at hsent

/-- A slot is written with what it held exactly when nothing changes. -/
theorem set_eq_self_iff {α : Type} {l : List α} {i : Nat} {a : α} (hi : i < l.length) : l.set i a = l ↔ l[i]? = some a := by
  constructor
  · intro h
    rw [← h, List.getElem?_set_self hi]
  · intro h
    obtain ⟨_, rfl⟩ := List.getElem?_eq_some_iff.mp h
    exact List.set_getElem_self hi

theorem arpSlot_lt {ip slot : Nat} (h : net.arpSlot ip = some slot) : slot < net.arpCache.length := by
  unfold NetStack.arpSlot at h
  rcases Option.or_eq_some_iff.mp h with h | ⟨_, h⟩
  · exact (List.findIdx?_eq_some_iff_getElem.mp h).1
  · exact (List.findIdx?_eq_some_iff_getElem.mp h).1

/-- The reply cached in its slot. -/
def cacheReply (net : NetStack) (pkt : Mem) (ms slot : Nat) : NetStack :=
  { net with arpCache := net.arpCache.set slot ⟨loadBytes pkt 28 4, loadBytes pkt 22 6, ms, true⟩ }

theorem cacheReply_acts {slot : Nat} (h : slot < net.arpCache.length) :
    ¬SameEffect net (cacheReply net pkt ms slot) ↔
      net.arpCache[slot]? ≠ some ⟨loadBytes pkt 28 4, loadBytes pkt 22 6, ms, true⟩ := by
  refine not_congr (Iff.trans ?_ (set_eq_self_iff h))
  constructor
  · exact fun hs => hs.arpCache
  · exact fun hset => ⟨hset, rfl, rfl, rfl, rfl⟩

theorem arpRx_val : (net.arpRx dev pkt ms).val =
    if field16 pkt 14 ≠ 1 then net
    else if field16 pkt 16 ≠ ETH_P_IP then net
    else if field16 pkt 20 = ARP_REQUEST then
      if loadBytes pkt 38 4 = dev.ipAddr then
        net.transmit (arpFrame dev ARP_REPLY (loadBytes pkt 22 6) (loadBytes pkt 22 6) (loadBytes pkt 28 4))
      else net
    else if field16 pkt 20 = ARP_REPLY then
      match net.arpSlot (loadBytes pkt 28 4) with
      | none => net
      | some slot => cacheReply net pkt ms slot
    else net := by
  unfold NetStack.arpRx
  simp only [Traced.val_bind, apply_ite Traced.val, Traced.val_pure]
  have hip : (readRaw pkt (ETH_HDR_LEN + 14) 4).val = loadBytes pkt 28 4 := rfl
  rw [hip]
  cases net.arpSlot (loadBytes pkt 28 4) <;> rfl

/-- **When `arp_rx` has an effect.** -/
theorem arpRx_acts : ¬SameEffect net (net.arpRx dev pkt ms).val ↔ ArpActs net dev pkt ms := by
  have hsame : ¬¬SameEffect net net := not_not_intro (SameEffect.refl net)
  rw [arpRx_val, ArpActs]
  by_cases hhw : field16 pkt 14 = 1
  swap
  · simp [hhw, hsame]
  by_cases hproto : field16 pkt 16 = ETH_P_IP
  swap
  · simp [hproto, hsame]
  simp only [hhw, hproto, ne_eq, not_true_eq_false, if_false, true_and]
  have hne : ARP_REPLY ≠ ARP_REQUEST := by decide
  by_cases hreq : field16 pkt 20 = ARP_REQUEST
  · by_cases hip : loadBytes pkt 38 4 = dev.ipAddr
    · simp [hreq, hip, sameEffect_transmit]
    · simp [hreq, hip, hsame, hne.symm]
  · by_cases hrep : field16 pkt 20 = ARP_REPLY
    · simp only [hrep, hne, if_true, if_false, true_and, false_and, false_or]
      cases hslot : net.arpSlot (loadBytes pkt 28 4) with
      | none => simp [hsame]
      | some slot => simp [cacheReply_acts (arpSlot_lt hslot)]
    · simp [hreq, hrep, hsame]

theorem modify_eq_self_iff {α : Type} {l : List α} {i : Nat} {g : α → α} (hi : i < l.length) :
    l.modify i g = l ↔ g l[i] = l[i] := by
  constructor
  · intro h
    have hat := congrArg (fun l => l[i]?) h
    simpa [List.getElem?_modify, hi] using hat
  · intro h
    apply List.ext_getElem (List.length_modify ..)
    intro j hj hj'
    rw [List.getElem_modify]
    split
    · next heq =>
      subst heq
      exact h
    · rfl

/-- A sum with a number below the modulus is what it was only if that number is 0. -/
theorem eq_zero_of_count {a n w : Nat} (hn : n < w) (h : (a + n) % w = a) : n = 0 := by
  have ha : a < w := h ▸ Nat.mod_lt _ (by omega)
  by_cases hlt : a + n < w
  · rw [Nat.mod_eq_of_lt hlt] at h
    omega
  · rw [Nat.mod_eq_sub_mod (by omega), Nat.mod_eq_of_lt (by omega)] at h
    omega

theorem copyBytes_none (m src : Mem) (a b : Nat) : copyBytes m a src b 0 = m := by
  funext x
  exact if_neg (by omega)

theorem store_claim_eq_iff {f : IpFrag} {h : IpHeader} : (f.claim h ms).store h pkt = f ↔
    ¬(f.active = false ∨ (f.received + h.payloadLen) % 2 ^ 16 ≠ f.received ∨
      h.fragOff &&& 0x2000 = 0 ∧ (h.offset + h.payloadLen) % 2 ^ 16 ≠ f.total) := by
  constructor
  · intro heq
    have hactive : f.active = true := by
      rw [← heq]
      unfold IpFrag.store IpFrag.claim
      split
      · assumption
      · rfl
    have hclaim : f.claim h ms = f := if_pos hactive
    rw [hclaim] at heq
    rintro (hfree | hcount | ⟨hlast, htotal⟩)
    · rw [hactive] at hfree
      cases hfree
    · exact hcount (congrArg IpFrag.received heq)
    · apply htotal
      have hset := congrArg IpFrag.total heq
      rwa [IpFrag.store, if_pos hlast] at hset
  · intro hkeep
    obtain ⟨hactive, hkeep⟩ := not_or.mp hkeep
    obtain ⟨hcount, htotal⟩ := not_or.mp hkeep
    have hclaim : f.claim h ms = f := if_pos (Bool.eq_true_of_not_eq_false hactive)
    have hnone : h.payloadLen = 0 := eq_zero_of_count (Nat.mod_lt _ (by decide)) (not_not.mp hcount)
    have hlen : (if h.fragOff &&& 0x2000 = 0 then (h.offset + h.payloadLen) % 2 ^ 16 else f.total) = f.total := by
      split
      · next hlast => exact not_not.mp fun hne => htotal ⟨hlast, hne⟩
      · rfl
    rw [hclaim, IpFrag.store, hlen, not_not.mp hcount, hnone, copyBytes_none]

theorem fragRx_acts {h : IpHeader} : ¬SameEffect net (net.fragRx pkt h ms).val ↔ FragActs net h := by
  unfold NetStack.fragRx FragActs
  cases hslot : net.fragSlot h with
  | none => simp [SameEffect.refl]
  | some i =>
    have hlt : i < net.ipFrags.length := (List.findIdx?_eq_some_iff_getElem.mp hslot).1
    have hfrag := modify_eq_self_iff (g := fun f => (f.claim h ms).store h pkt) hlt
    rw [store_claim_eq_iff] at hfrag
    constructor
    · intro hacts
      refine ⟨i, net.ipFrags[i], rfl, List.getElem?_eq_getElem hlt, ?_⟩
      by_contra hkeep
      exact hacts ⟨rfl, hfrag.mpr hkeep, rfl, rfl, rfl⟩
    · rintro ⟨i', f, hi', hf, hchange⟩ hs
      obtain rfl := Option.some.inj hi'
      obtain ⟨_, rfl⟩ := List.getElem?_eq_some_iff.mp hf
      exact hfrag.mp hs.ipFrags hchange

theorem icmpRx_acts {ip data : Nat} :
    ¬SameEffect net (net.icmpRx dev pkt ip data).val ↔ (pkt data).toNat = ICMP_ECHO_REQUEST := by
  unfold NetStack.icmpRx
  rw [Traced.val_bind, val_read8]
  by_cases htype : (pkt data).toNat = ICMP_ECHO_REQUEST
  · rw [if_pos htype]
    refine iff_of_true ?_ htype
    -- An echo request is answered, or the MAC to answer to is asked for.
    unfold NetStack.arpLookup
    rw [Traced.val_bind, val_readRaw]
    cases net.arpEntry (loadBytes pkt (ip + 12) 4) with
    | none => exact sameEffect_transmit _
    | some e => exact sameEffect_transmit _
  · rw [if_neg htype]
    exact iff_of_false (not_not_intro (SameEffect.refl net)) htype

/-- The answer to a query that waits is news. -/
theorem storeAnswer_acts {id slot ip : Nat} (h : net.dnsSlot id = some slot) :
    ¬SameEffect net (net.storeAnswer slot (some ip)) := by
  intro hs
  obtain ⟨hlt, hwaits, _⟩ := List.findIdx?_eq_some_iff_getElem.mp h
  have hkeep := (modify_eq_self_iff hlt).mp hs.dnsQueries
  have hresolved : net.dnsQueries[slot].resolved = true := by rw [← hkeep]
  simp [hresolved] at hwaits

theorem dnsRx_acts {payload plen : Nat} :
    ¬SameEffect net (net.dnsRx pkt payload plen).val ↔ DnsActs net pkt payload plen := by
  have hsame : ¬¬SameEffect net net := not_not_intro (SameEffect.refl net)
  have hval : (net.dnsRx pkt payload plen).val =
      if field16 pkt (payload + 2) &&& 0x8000 = 0 ∨ field16 pkt (payload + 2) &&& 0x000F ≠ 0 then net
      else
        match net.dnsSlot (field16 pkt payload) with
        | none => net
        | some slot =>
          net.storeAnswer slot
            (findAnswer pkt payload plen (field16 pkt (payload + 6))
              (skipQuestions pkt payload plen (field16 pkt (payload + 4)) 12).val).val := by
    unfold NetStack.dnsRx
    simp only [Traced.val_bind, apply_ite Traced.val, Traced.val_pure]
    have hid : (read16 pkt payload).val = field16 pkt payload := rfl
    rw [hid]
    cases net.dnsSlot (field16 pkt payload) <;> rfl
  rw [hval, DnsActs]
  by_cases hflags : field16 pkt (payload + 2) &&& 0x8000 = 0 ∨ field16 pkt (payload + 2) &&& 0x000F ≠ 0
  · rw [if_pos hflags]
    refine iff_of_false hsame ?_
    rintro ⟨hqr, hcode, _⟩
    exact hflags.elim hqr fun h => h hcode
  · rw [if_neg hflags]
    obtain ⟨hqr, hcode⟩ := not_or.mp hflags
    simp only [hqr, not_not.mp hcode, not_false_eq_true, ne_eq, true_and]
    cases hslot : net.dnsSlot (field16 pkt payload) with
    | none => simp [hsame]
    | some slot =>
      generalize (findAnswer pkt payload plen (field16 pkt (payload + 6))
        (skipQuestions pkt payload plen (field16 pkt (payload + 4)) 12).val).val = answer
      cases answer with
      | none => simpa [NetStack.storeAnswer] using hsame
      | some ip => simp [storeAnswer_acts hslot]

theorem udpRx_acts {data n : Nat} : ¬SameEffect net (net.udpRx pkt data n).val ↔ UdpActs net pkt data n := by
  have hsame : ¬¬SameEffect net net := not_not_intro (SameEffect.refl net)
  have hval : (net.udpRx pkt data n).val =
      if n < 8 then net
      else if field16 pkt (data + 4) < 8 then net
      else if field16 pkt data = DNS_PORT ∧ field16 pkt (data + 4) - 8 ≥ 12 then
        (net.dnsRx pkt (data + 8) (field16 pkt (data + 4) - 8)).val
      else net := by
    unfold NetStack.udpRx
    simp only [Traced.val_bind, apply_ite Traced.val, Traced.val_pure]
    rfl
  rw [hval, UdpActs, ← @dnsRx_acts net]
  split_ifs with hshort hplen hdns
  · exact iff_of_false hsame fun h => absurd h.1 (by omega)
  · exact iff_of_false hsame fun h => absurd h.2.1 (by omega)
  · exact ⟨fun h => ⟨by omega, by omega, hdns.1, hdns.2, h⟩, fun h => h.2.2.2.2⟩
  · exact iff_of_false hsame fun h => hdns ⟨h.2.2.1, h.2.2.2.1⟩

/-! ## A segment -/

section

variable {s : TcpSocket} {seg : TcpSegment}

/-- A segment is sent, or the MAC to send it to is asked for. -/
theorem transmitSegment_acts (seg : TcpSegment) :
    ¬SameEffect net (net.transmitSegment seg) ↔ net.netIf.isSome = true ∧ net.kmallocs 0 = true := by
  have hlonger : ∀ net' frame, net'.sent = net.sent → ¬SameEffect net (NetStack.transmit net' frame) := by
    intro net' frame heq h
    have hsent := h.sent
    simp [NetStack.transmit, heq] at hsent
  unfold NetStack.transmitSegment
  split
  · next hif => simp [hif, SameEffect.refl]
  · next dev hif =>
    split
    · next net' hk =>
      have hfail : net.kmallocs 0 = false := congrArg Prod.snd hk
      obtain rfl : net.kmalloc.1 = net' := congrArg Prod.fst hk
      exact iff_of_false (not_not_intro ⟨rfl, rfl, rfl, rfl, rfl⟩) (by simp [hfail])
    · next net' hk =>
      have hok : net.kmallocs 0 = true := congrArg Prod.snd hk
      obtain rfl : net.kmalloc.1 = net' := congrArg Prod.fst hk
      refine iff_of_true ?_ ⟨by rw [hif]; rfl, hok⟩
      unfold NetStack.arpLookup
      cases net.kmalloc.1.arpEntry seg.dstIp with
      | none => exact hlonger net.kmalloc.1 _ rfl
      | some e => exact hlonger net.kmalloc.1 _ rfl

theorem tcpProcessAck_eq_self_iff {ack : UInt32} : tcpProcessAck s ack = s ↔ ¬s.sndUna ≤ ack := by
  unfold tcpProcessAck
  split
  · next hlt =>
    refine iff_of_false ?_ (not_not_intro (UInt32.le_of_lt hlt))
    intro h
    have hack : ack = s.sndUna := congrArg TcpSocket.sndUna h
    rw [hack] at hlt
    exact UInt32.lt_irrefl _ hlt
  · next hlt =>
    split
    · next hack =>
      -- A duplicate is counted.
      refine iff_of_false ?_ (not_not_intro (hack ▸ UInt32.le_refl _))
      intro h
      have hcount : s.cc.duplicate.dupAcks = s.cc.dupAcks := congrArg (fun s => s.cc.dupAcks) h
      have hnext : s.cc.duplicate.dupAcks = s.cc.dupAcks + 1 := by
        unfold TcpCc.duplicate
        simp only [apply_ite TcpCc.dupAcks, ite_self]
      rw [hnext] at hcount
      have hnat := congrArg UInt32.toNat hcount
      rw [UInt32.toNat_add] at hnat
      exact absurd (eq_zero_of_count (by decide) hnat) (by decide)
    · next hack =>
      refine iff_of_true rfl fun hle => ?_
      rcases UInt32.lt_or_eq_of_le hle with h | h
      · exact hlt h
      · exact hack h.symm

theorem rxAck_eq_self_iff : rxAck s seg = s ↔
    ¬(seg.has TCP_FLAG_ACK = true ∧ (s.sndUna ≤ seg.ack ∨ seg.window ≠ s.sndWnd)) := by
  unfold rxAck
  split
  · next hack =>
    simp only [hack, true_and, not_or, ne_eq, not_not]
    rw [← tcpProcessAck_eq_self_iff]
    constructor
    · intro h
      have hwnd : seg.window = s.sndWnd := congrArg TcpSocket.sndWnd h
      obtain ⟨una, cc, heq⟩ := tcpProcessAck_eq s seg.ack
      rw [heq] at h ⊢
      obtain rfl : una = s.sndUna := congrArg TcpSocket.sndUna h
      obtain rfl : cc = s.cc := congrArg TcpSocket.cc h
      exact ⟨rfl, hwnd⟩
    · rintro ⟨h, hwnd⟩
      rw [h, hwnd]
  · next hack => exact iff_of_true rfl fun h => hack h.1

theorem rxData_eq (s : TcpSocket) (seg : TcpSegment) : ∃ cells head count rcv,
    (rxData s seg).1 = { s with rxCells := cells, rxHead := head, rxCount := count, rcvNxt := rcv } := by
  unfold rxData
  split
  · exact ⟨_, _, _, _, rfl⟩
  · exact ⟨s.rxCells, s.rxHead, s.rxCount, s.rcvNxt, rfl⟩

theorem rxFin_eq (s : TcpSocket) (seg : TcpSegment) :
    ∃ rcv st, (rxFin s seg).1 = { s with rcvNxt := rcv, state := st } := by
  unfold rxFin
  split
  · exact ⟨_, _, rfl⟩
  · exact ⟨s.rcvNxt, s.state, rfl⟩

theorem rxStream_lastActivity : (rxStream s seg).1.lastActivity = s.lastActivity := by
  obtain ⟨una, cc, wnd, hack⟩ := rxAck_eq s seg
  obtain ⟨cells, head, count, rcv, hdata⟩ := rxData_eq (rxAck s seg) seg
  obtain ⟨rcv', st, hfin⟩ := rxFin_eq (rxData (rxAck s seg) seg).1 seg
  have hstream : (rxStream s seg).1 = (rxFin (rxData (rxAck s seg) seg).1 seg).1 := rfl
  rw [hstream, hfin, hdata, hack]

/-- An ACK that changes the socket is not undone by the payload. -/
theorem rxData_rxAck_ne (h : rxAck s seg ≠ s) : (rxData (rxAck s seg) seg).1 ≠ s := by
  intro heq
  apply h
  obtain ⟨una, cc, wnd, hack⟩ := rxAck_eq s seg
  obtain ⟨cells, head, count, rcv, hdata⟩ := rxData_eq (rxAck s seg) seg
  rw [hdata, hack] at heq
  rw [hack]
  obtain rfl : una = s.sndUna := congrArg TcpSocket.sndUna heq
  obtain rfl : cc = s.cc := congrArg TcpSocket.cc heq
  obtain rfl : wnd = s.sndWnd := congrArg TcpSocket.sndWnd heq
  rfl

theorem rxAccepted_lt : rxAccepted s seg < 2 ^ 32 := by
  have hspace : rxSpace s < 2 ^ 32 := Nat.mod_lt _ (by decide)
  unfold rxAccepted
  split
  · omega
  · decide

/-- **When a payload has an effect.** -/
theorem rxData_acts : ((rxData s seg).1 ≠ s ∨ ¬SameEffect net ((rxData s seg).2.foldl NetStack.transmitSegment net)) ↔
    DataActs net s seg := by
  unfold DataActs
  by_cases hin : 0 < seg.payload.length ∧ seg.seq = s.rcvNxt
  · simp only [hin.1, hin.2, true_and]
    have hsent : ∃ ack, (rxData s seg).2 = [ack] := ⟨_, by rw [rxData, if_pos hin]⟩
    obtain ⟨ack, hsent⟩ := hsent
    rw [hsent, List.foldl_cons, List.foldl_nil, transmitSegment_acts]
    refine or_congr_left' fun _ => not_congr ?_
    constructor
    · intro h
      have hcount := congrArg TcpSocket.rxCount h
      rwa [rxData, if_pos hin] at hcount
    · intro hcount
      have hnone : rxAccepted s seg = 0 := eq_zero_of_count rxAccepted_lt hcount
      rw [rxData, if_pos hin]
      simp only [hcount]
      simp only [hnone, List.take_zero, ringPut]
      have hrcv : s.rcvNxt + UInt32.ofNat 0 = s.rcvNxt := UInt32.add_zero _
      rw [hrcv]
  · rw [rxData, if_neg hin]
    refine iff_of_false ?_ fun h => hin ⟨h.1, h.2.1⟩
    rintro (h | h)
    · exact h rfl
    · exact h (SameEffect.refl net)

/-- **When a segment for a connection has an effect.** -/
theorem rxStream_acts (hst : s.state.takesData = true) :
    ((rxStream s seg).1 ≠ s ∨ ¬SameEffect net ((rxStream s seg).2.foldl NetStack.transmitSegment net)) ↔
      (seg.has TCP_FLAG_ACK = true ∧ (s.sndUna ≤ seg.ack ∨ seg.window ≠ s.sndWnd) ∨ DataActs net s seg ∨
        seg.has TCP_FLAG_FIN = true) := by
  by_cases hfin : seg.has TCP_FLAG_FIN = true
  · -- A FIN leads to another state.
    refine iff_of_true (Or.inl fun h => ?_) (Or.inr (Or.inr hfin))
    obtain ⟨una, cc, wnd, hack⟩ := rxAck_eq s seg
    obtain ⟨cells, head, count, rcv, hdata⟩ := rxData_eq (rxAck s seg) seg
    have hstate : (rxStream s seg).1.state = finState s.state := by
      have hkeep : (rxData (rxAck s seg) seg).1.state = s.state := by rw [hdata, hack]
      rw [← hkeep]
      show (rxFin (rxData (rxAck s seg) seg).1 seg).1.state = _
      rw [rxFin, if_pos hfin]
    rw [h] at hstate
    revert hst hstate
    cases s.state <;> decide
  · have hstream : rxStream s seg = rxData (rxAck s seg) seg := by
      have hnone : rxFin (rxData (rxAck s seg) seg).1 seg = ((rxData (rxAck s seg) seg).1, []) := if_neg hfin
      rw [rxStream, hnone, List.append_nil]
    rw [hstream]
    by_cases hack : rxAck s seg = s
    · rw [hack, rxData_acts]
      have hquiet := rxAck_eq_self_iff.mp hack
      simp [hquiet, hfin]
    · refine iff_of_true (Or.inl (rxData_rxAck_ne hack)) (Or.inl ?_)
      exact not_not.mp fun h => hack (rxAck_eq_self_iff.mpr h)

theorem tcpRxState_lastActivity : (tcpRxState s seg us).1.lastActivity = s.lastActivity := by
  have hack : ∀ (s : TcpSocket) (ack : UInt32), (tcpProcessAck s ack).lastActivity = s.lastActivity := by
    intro s ack
    obtain ⟨una, cc, h⟩ := tcpProcessAck_eq s ack
    rw [h]
  have hrx : (rxAck s seg).lastActivity = s.lastActivity := by
    obtain ⟨una, cc, wnd, h⟩ := rxAck_eq s seg
    rw [h]
  unfold tcpRxState
  split
  · unfold rxSynSent
    split
    · simp only [apply_ite TcpSocket.lastActivity, hack, ite_self]
    · rfl
  · unfold rxSynReceived
    split
    · exact hack _ _
    · rfl
  · unfold rxListen
    split <;> rfl
  · exact rxStream_lastActivity
  · exact rxStream_lastActivity
  · exact rxStream_lastActivity
  · unfold rxLastAck
    split <;> rfl
  · unfold rxClosing
    split <;> rfl
  · rfl
  · rfl
  · rfl

/-- A state in which one flag leads to another state, and nothing else does anything. -/
theorem flag_acts {out : TcpSocket × List TcpSegment} {set : Bool} {st : TcpState} (hst : st ≠ s.state)
    (hon : set = true → out.1.state = st) (hoff : set = false → out = (s, [])) :
    (out.1 ≠ s ∨ ¬SameEffect net (out.2.foldl NetStack.transmitSegment net)) ↔ set = true := by
  cases set with
  | true => exact iff_of_true (Or.inl fun h => hst ((hon rfl).symm.trans (congrArg TcpSocket.state h))) rfl
  | false =>
    rw [hoff rfl]
    exact iff_of_false (fun h => h.elim (fun h => h rfl) fun h => h (SameEffect.refl net)) (by decide)

/-- **When the state machine has an effect.** -/
theorem tcpRxState_acts : ((tcpRxState s seg us).1 ≠ s ∨
    ¬SameEffect net ((tcpRxState s seg us).2.foldl NetStack.transmitSegment net)) ↔ SegmentActs net s seg := by
  have hidle : ¬((s, ([] : List TcpSegment)).1 ≠ s ∨
      ¬SameEffect net ((s, ([] : List TcpSegment)).2.foldl NetStack.transmitSegment net)) :=
    fun h => h.elim (fun h => h rfl) fun h => h (SameEffect.refl net)
  unfold SegmentActs
  -- five states wait for one flag, three take data, and three do nothing
  cases hst : s.state with
  | synSent =>
    rw [tcpRxState_synSent hst]
    have hne : TcpState.synReceived ≠ s.state := by
      rw [hst]
      decide
    apply flag_acts hne
    · intro hsyn
      rw [rxSynSent, if_pos hsyn]
    · exact fun hsyn => if_neg (by simp [hsyn])
  | synReceived =>
    rw [tcpRxState_synReceived hst]
    have hne : TcpState.established ≠ s.state := by
      rw [hst]
      decide
    apply flag_acts hne
    · intro hack
      rw [rxSynReceived, if_pos hack]
    · intro hack
      rw [rxSynReceived, if_neg (by simp [hack])]
  | listen =>
    rw [tcpRxState_listen hst]
    have hne : TcpState.synReceived ≠ s.state := by
      rw [hst]
      decide
    apply flag_acts hne
    · intro hsyn
      rw [rxListen, if_pos hsyn]
    · exact fun hsyn => if_neg (by simp [hsyn])
  | lastAck =>
    rw [tcpRxState_lastAck hst]
    have hne : TcpState.closed ≠ s.state := by
      rw [hst]
      decide
    apply flag_acts hne
    · intro hack
      rw [rxLastAck, if_pos hack]
    · intro hack
      rw [rxLastAck, if_neg (by simp [hack])]
  | closing =>
    rw [tcpRxState_closing hst]
    have hne : TcpState.timeWait ≠ s.state := by
      rw [hst]
      decide
    apply flag_acts hne
    · intro hack
      rw [rxClosing, if_pos hack]
    · intro hack
      rw [rxClosing, if_neg (by simp [hack])]
  | established =>
    rw [tcpRxState_stream (Or.inl hst)]
    exact rxStream_acts (by rw [hst]; rfl)
  | finWait1 =>
    rw [tcpRxState_stream (Or.inr (Or.inl hst))]
    exact rxStream_acts (by rw [hst]; rfl)
  | finWait2 =>
    rw [tcpRxState_stream (Or.inr (Or.inr hst))]
    exact rxStream_acts (by rw [hst]; rfl)
  | closed =>
    rw [tcpRxState_idle (Or.inl hst)]
    exact iff_of_false hidle id
  | closeWait =>
    rw [tcpRxState_idle (Or.inr (Or.inl hst))]
    exact iff_of_false hidle id
  | timeWait =>
    rw [tcpRxState_idle (Or.inr (Or.inr hst))]
    exact iff_of_false hidle id

/-- A segment changes its socket, or the answers to it do something. -/
theorem tcpRxSegment_found {i : Nat} (hi : findSocket net.tcpSockets seg = some i) (hs : net.tcpSockets[i]? = some s) :
    ¬SameEffect net (net.tcpRxSegment seg us ms) ↔ (tcpRxSocket s seg us ms).1 ≠ s ∨
      ¬SameEffect net ((tcpRxSocket s seg us ms).2.foldl NetStack.transmitSegment net) := by
  have hrx : net.tcpRxSegment seg us ms = (tcpRxSocket s seg us ms).2.foldl NetStack.transmitSegment
      { net with tcpSockets := net.tcpSockets.set i (tcpRxSocket s seg us ms).1 } := by
    unfold NetStack.tcpRxSegment tcpRxTable
    simp only [hi, hs]
  obtain ⟨hlt, hat⟩ := List.getElem?_eq_some_iff.mp hs
  rw [hrx]
  by_cases hsame : (tcpRxSocket s seg us ms).1 = s
  · have hset : net.tcpSockets.set i s = net.tcpSockets := (set_eq_self_iff hlt).mpr hs
    simp only [hsame, hset, ne_eq, not_true_eq_false, false_or]
  · refine iff_of_true ?_ (Or.inl hsame)
    intro h
    obtain ⟨k, sent, hfold⟩ := foldl_transmitSegment_keep (tcpRxSocket s seg us ms).2
      { net with tcpSockets := net.tcpSockets.set i (tcpRxSocket s seg us ms).1 }
    rw [hfold] at h
    have hset := (set_eq_self_iff hlt).mp h.tcpSockets
    rw [hs] at hset
    exact hsame (Option.some.inj hset).symm

/-- **When `tcp_rx` has an effect.** -/
theorem tcpRxSegment_acts : ¬SameEffect net (net.tcpRxSegment seg us ms) ↔ TcpActs net seg ms := by
  unfold TcpActs
  cases hi : findSocket net.tcpSockets seg with
  | none =>
    have hnone : net.tcpRxSegment seg us ms = net := by
      unfold NetStack.tcpRxSegment tcpRxTable
      simp only [hi]
      rfl
    rw [hnone]
    exact iff_of_false (not_not_intro (SameEffect.refl net)) (by simp)
  | some i =>
    have hlt : i < net.tcpSockets.length := (List.findIdx?_eq_some_iff_getElem.mp hi).1
    have hs := List.getElem?_eq_getElem hlt
    rw [tcpRxSegment_found hi hs]
    by_cases hms : net.tcpSockets[i].lastActivity = ms
    · have htouch : net.tcpSockets[i].touch ms = net.tcpSockets[i] := by
        rw [← hms]
        rfl
      rw [tcpRxSocket, htouch, tcpRxState_acts]
      simp [hlt, hms]
    · refine iff_of_true (Or.inl fun h => hms ?_) ⟨i, _, rfl, hs, Or.inl hms⟩
      have hat := congrArg TcpSocket.lastActivity h
      rw [tcpRxSocket, tcpRxState_lastActivity] at hat
      exact hat.symm

end

theorem protocolRx_acts {h : IpHeader} :
    ¬SameEffect net (net.protocolRx dev pkt h us ms).val ↔ ProtocolActs net pkt h ms := by
  have hsame : ¬¬SameEffect net net := not_not_intro (SameEffect.refl net)
  unfold NetStack.protocolRx ProtocolActs
  by_cases hicmp : h.protocol = IP_PROTO_ICMP
  · have hdiff : IP_PROTO_ICMP ≠ IP_PROTO_UDP ∧ IP_PROTO_ICMP ≠ IP_PROTO_TCP := by decide
    simp only [hicmp, if_true, Traced.val_bind, icmpRx_acts, true_and, hdiff.1, hdiff.2, false_and, or_false]
    rfl
  · by_cases hudp : h.protocol = IP_PROTO_UDP
    · have hdiff : IP_PROTO_UDP ≠ IP_PROTO_ICMP ∧ IP_PROTO_UDP ≠ IP_PROTO_TCP := by decide
      simp only [hudp, if_true, Traced.val_bind, udpRx_acts, true_and, hdiff.1, hdiff.2, if_false, false_and, false_or,
        or_false]
      rfl
    · by_cases htcp : h.protocol = IP_PROTO_TCP
      · simp only [htcp] at hicmp hudp ⊢
        simp only [hicmp, hudp, if_true, if_false, Traced.val_bind, true_and, false_and, false_or]
        exact tcpRxSegment_acts
      · simp [hicmp, hudp, htcp, hsame]

theorem ipRx_acts : ¬SameEffect net (net.ipRx dev pkt len us ms).val ↔ IpActs net pkt len ms := by
  unfold IpActs
  by_cases hlen : 34 ≤ len
  swap
  · simp [ipRx_ignored (Or.inl (Nat.lt_of_not_le hlen)), hlen, SameEffect.refl]
  by_cases hver : (pkt 14).toNat / 16 = 4
  swap
  · simp [ipRx_ignored (Or.inr (Or.inl hver)), hver, SameEffect.refl]
  by_cases hok : HeaderOk pkt
  swap
  · simp [ipRx_ignored (Or.inr (Or.inr hok)), hok, SameEffect.refl]
  simp only [ipRx_accepted hlen hver hok, hlen, hver, hok, true_and, ipBody]
  cases (ipHeader pkt).fragmented with
  | true => simpa using fragRx_acts
  | false => simpa using protocolRx_acts

/-! ## The property -/

theorem netRxPacket_acts (hlen : 14 ≤ len) (htype : field16 pkt 12 = ETH_P_IP ∨ field16 pkt 12 = ETH_P_ARP) :
    ¬SameEffect net (net.netRxPacket dev pkt len us ms).val ↔ FrameActs net dev pkt len ms := by
  unfold FrameActs
  have hdiff : ETH_P_IP ≠ ETH_P_ARP ∧ ETH_P_IP ≠ ETH_P_VLAN ∧ ETH_P_ARP ≠ ETH_P_VLAN := by decide
  rcases htype with hip | harp
  · rw [netRxPacket_untagged hlen (by rw [hip]; exact hdiff.2.1), hip]
    simp only [NetStack.dispatch, hdiff.1, if_true, if_false, false_and, false_or, true_and]
    exact ipRx_acts
  · rw [netRxPacket_untagged hlen (by rw [harp]; exact hdiff.2.2), harp]
    simp only [NetStack.dispatch, hdiff.1.symm, if_true, true_and, false_and, or_false]
    exact arpRx_acts

theorem netRxFrame_eq (htype : field16 pkt 12 ≠ ETH_P_VLAN) :
    (net.netRxFrame dev pkt len us ms).val = (net.netRxPacket dev pkt len us ms).val := by
  have htype' : ¬(read16 pkt 12).val = ETH_P_VLAN := htype
  unfold NetStack.netRxFrame NetStack.netRxPacket
  split
  · rfl
  · rw [Traced.val_bind, Traced.val_bind, if_neg htype']

/-- **VLAN transparency.** A tagged frame whose tag is not taken for an IPv4 header has the
    effect of the untagged one exactly when that one has none; and the two entry points
    have the same effect on every untagged frame. -/
theorem vlan_transparent (net : NetStack) (dev : NetIf) (pkt t : Mem) (len tci us ms : Nat) (hlen : 14 ≤ len)
    (htype : field16 pkt 12 = ETH_P_IP ∨ field16 pkt 12 = ETH_P_ARP) (htag : Tagged pkt len tci t) :
    ((field16 pkt 12 = ETH_P_IP → TagRejected len tci t) →
      (VlanTransparent net dev pkt len t us ms ↔ ¬FrameActs net dev pkt len ms)) ∧
    ∀ (pkt' : Mem) (len' : Nat), field16 pkt' 12 ≠ ETH_P_VLAN →
      (net.netRxFrame dev pkt' len' us ms).val = (net.netRxPacket dev pkt' len' us ms).val := by
  refine ⟨?_, fun pkt' len' h => netRxFrame_eq h⟩
  intro hrej
  rw [VlanTransparent, tagged_ignored hlen htag htype hrej, ← netRxPacket_acts hlen htype, not_not]
  exact ⟨SameEffect.symm, SameEffect.symm⟩

/-- A frame with a tag after the addresses. -/
def insertTag (tci : Nat) (frame : List Nat) : List Nat :=
  frame.take 12 ++ [0x81, 0, tci / 256, tci % 256] ++ frame.drop 12

theorem insertTag_front {frame : List Nat} {tci x : Nat} (hframe : 12 ≤ frame.length) (hx : x < 12) :
    (insertTag tci frame)[x]? = frame[x]? := by
  have hlen : (frame.take 12).length = 12 := List.length_take_of_le hframe
  unfold insertTag
  rw [List.append_assoc, List.getElem?_append_left (by omega), List.getElem?_take_of_lt hx]

theorem insertTag_tag {frame : List Nat} {tci j : Nat} (hframe : 12 ≤ frame.length) (hj : j < 4) :
    (insertTag tci frame)[12 + j]? = [0x81, 0, tci / 256, tci % 256][j]? := by
  have hlen : (frame.take 12).length = 12 := List.length_take_of_le hframe
  unfold insertTag
  rw [List.append_assoc, List.getElem?_append_right (by omega), hlen, Nat.add_sub_cancel_left,
    List.getElem?_append_left (by simpa using hj)]

theorem insertTag_back {frame : List Nat} {tci x : Nat} (hframe : 12 ≤ frame.length) (hx : 12 ≤ x) :
    (insertTag tci frame)[x + 4]? = frame[x]? := by
  have hlen : (frame.take 12).length = 12 := List.length_take_of_le hframe
  unfold insertTag
  rw [List.getElem?_append_right (by simp; omega), List.getElem?_drop]
  congr 1
  simp
  omega

theorem tagged_insertTag {frame : List Nat} {len tci : Nat} (hframe : 12 ≤ frame.length)
    (htci : tci < 2 ^ 16) : Tagged (packetOf frame) len tci (packetOf (insertTag tci frame)) := by
  have hbyte : ∀ j < 4, packetOf (insertTag tci frame) (12 + j) =
      BitVec.ofNat 8 ([0x81, 0, tci / 256, tci % 256].getD j 0) := by
    intro j hj
    simp only [packetOf, List.getD_eq_getElem?_getD, insertTag_tag hframe hj]
  refine ⟨?_, ?_, ?_, ?_⟩
  · intro x hx
    simp only [packetOf, List.getD_eq_getElem?_getD, insertTag_front hframe hx]
  · have h₀ : packetOf (insertTag tci frame) 12 = 0x81#8 := hbyte 0 (by decide)
    have h₁ : packetOf (insertTag tci frame) 13 = 0#8 := hbyte 1 (by decide)
    rw [field16_eq, h₀, h₁]
    rfl
  · have h₂ : packetOf (insertTag tci frame) 14 = BitVec.ofNat 8 (tci / 256) := hbyte 2 (by decide)
    have h₃ : packetOf (insertTag tci frame) 15 = BitVec.ofNat 8 (tci % 256) := hbyte 3 (by decide)
    rw [field16_eq, h₂, h₃, BitVec.toNat_ofNat, BitVec.toNat_ofNat]
    omega
  · intro x hlow _
    simp only [packetOf, List.getD_eq_getElem?_getD, insertTag_back hframe hlow]

/-- An ARP request for an address. -/
def arpRequestFor (ip : List Nat) : List Nat :=
  [255, 255, 255, 255, 255, 255, 2, 0, 0, 0, 0, 1, 8, 6, 0, 1, 8, 0, 6, 4, 0, 1, 2, 0, 0, 0, 0, 1, 10, 0, 0, 1,
    0, 0, 0, 0, 0, 0] ++ ip

/-- An interface with the address 10.0.0.2. -/
def sampleIf : NetIf := ⟨2, 0x0200000A, 0x00FFFFFF, 0x0100000A⟩

/-- A request for another address does nothing, with or without a tag. -/
theorem vlan_transparent_other :
    VlanTransparent (netInit (some sampleIf) fun _ => true) sampleIf (packetOf (arpRequestFor [10, 0, 0, 3])) 42
      (packetOf (insertTag 5 (arpRequestFor [10, 0, 0, 3]))) 0 0 := by
  have htype : field16 (packetOf (arpRequestFor [10, 0, 0, 3])) 12 = ETH_P_ARP := by decide +kernel
  have htag : Tagged (packetOf (arpRequestFor [10, 0, 0, 3])) 42 5 (packetOf (insertTag 5 (arpRequestFor [10, 0, 0, 3]))) :=
    tagged_insertTag (by decide) (by decide)
  apply ((vlan_transparent _ _ _ _ _ _ _ _ (by decide) (Or.inr htype) htag).1 ?_).mpr
  · rintro (⟨_, _, _, ⟨_, hip⟩ | ⟨hrep, _⟩⟩ | ⟨hip, _⟩)
    · revert hip
      decide +kernel
    · revert hrep
      decide +kernel
    · rw [htype] at hip
      exact absurd hip (by decide)
  · intro hip
    rw [htype] at hip
    exact absurd hip (by decide)

/-- A request for the interface's own address is answered without the tag, and ignored with it. -/
theorem tagged_request_unanswered :
    field16 (packetOf (arpRequestFor [10, 0, 0, 2])) 12 = ETH_P_ARP ∧
      Tagged (packetOf (arpRequestFor [10, 0, 0, 2])) 42 5 (packetOf (insertTag 5 (arpRequestFor [10, 0, 0, 2]))) ∧
      ¬VlanTransparent (netInit (some sampleIf) fun _ => true) sampleIf (packetOf (arpRequestFor [10, 0, 0, 2])) 42
        (packetOf (insertTag 5 (arpRequestFor [10, 0, 0, 2]))) 0 0 := by
  refine ⟨by decide +kernel, tagged_insertTag (by decide) (by decide), ?_⟩
  intro h
  have hsent := congrArg List.length h.sent
  revert hsent
  decide +kernel

end Crimson.Net
