import Crimson.Lib.Run
import Crimson.Net.Vlan
import Mathlib.Data.Fintype.Card
import Mathlib.Data.List.Find
import Mathlib.Data.List.Nodup

/-!
# ARP between the hosts of a network (`net.c`)

Hosts that run the stack share a segment. What one of them has sent reaches any other, or itself,
any number of times, in any order or never, and between two frames the upper layers do whatever they
do: a TCP call leaves some socket table and some segments, a name is asked for, DHCP is started.

The ARP caches are then the truth about the segment (`arp_caches_true`): a valid entry pairs the
address of a host with the MAC of that host, no address is cached twice, and every datagram is sent
to the MAC of the host that its next hop belongs to. An entry is never dropped. So an address stays
resolved once it is (`arp_exchange`), and on a segment of at most 64 hosts one request that arrives
and one answer that arrives are enough for that. The cache has 64 entries and none expires: a host that
has filled it learns no other address (`full_table_stays`).
-/

set_option autoImplicit false

namespace Crimson.Net

open Crimson.Lib

/-! ## Sending from the upper layers -/

/-- The packet of `udp_send_raw`; `id` is the time it was built at. -/
def udpFrame (dev : NetIf) (dstMac dstIp srcPort dstPort id : Nat) (payload : List Byte) : Frame where
  bytes :=
    let m := putEth (fun _ => 0) dstMac dev.mac ETH_P_IP
    let m := storeBytes (storeBytes m 14 1 0x45) 15 1 0
    let m := storeBytes m 16 2 (ntohs (IP_HDR_LEN + UDP_HDR_LEN + payload.length))
    let m := storeBytes (storeBytes m 18 2 (ntohs (id % 2 ^ 16))) 20 2 0
    let m := storeBytes (storeBytes m 22 1 64) 23 1 IP_PROTO_UDP
    let m := storeBytes m 24 2 0
    let m := storeBytes (storeBytes m 26 4 dev.ipAddr) 30 4 dstIp
    let m := storeBytes m 24 2 (ipChecksum m 14 IP_HDR_LEN)
    let m := storeBytes (storeBytes m 34 2 (ntohs srcPort)) 36 2 (ntohs dstPort)
    let m := storeBytes (storeBytes m 38 2 (ntohs (UDP_HDR_LEN + payload.length))) 40 2 0
    putBytes m 42 payload
  len := ETH_HDR_LEN + IP_HDR_LEN + UDP_HDR_LEN + payload.length

/-- The packet of `dhcp_start`. Its Ethernet and IP headers stay zero. -/
def dhcpFrame (dev : NetIf) (xid : Nat) : Frame where
  bytes :=
    let udp := ETH_HDR_LEN + IP_HDR_LEN
    let dhcp := udp + UDP_HDR_LEN
    let opt := dhcp + 240
    let m : Mem := fun _ => 0
    let m := storeBytes (storeBytes m udp 2 (ntohs 68)) (udp + 2) 2 (ntohs 67)
    let m := storeBytes m (udp + 4) 2 (ntohs (576 - ETH_HDR_LEN - IP_HDR_LEN))
    let m := putBytes m dhcp [1, 1, 6, 0]
    let m := storeBytes m (dhcp + 4) 4 (ntohl xid)
    let m := storeBytes m (dhcp + 28) 6 dev.mac
    let m := putBytes m (dhcp + 236) [0x63, 0x82, 0x53, 0x63]
    let m := putBytes m opt [53, 1, 1, 55, 4, 1, 3, 6, 15, 61, 7, 1]
    let m := storeBytes m (opt + 12) 6 dev.mac
    storeBytes m (opt + 18) 1 255
  len := 576

namespace NetStack

/-- `udp_send_raw` -/
def udpSendRaw (net : NetStack) (dstIp srcPort dstPort id : Nat) (payload : List Byte) : NetStack :=
  match net.netIf with
  | none => net
  | some dev =>
    match net.kmalloc with
    | (net, false) => net
    | (net, true) =>
      match net.arpLookup dstIp with
      | (net, none) => net
      | (net, some dstMac) => net.transmit (udpFrame dev dstMac dstIp srcPort dstPort id payload)

/-- `dhcp_start` -/
def dhcpStart (net : NetStack) (dev : NetIf) (us : Nat) : NetStack := net.transmit (dhcpFrame dev (us % 2 ^ 32))

end NetStack

/-! ## The hosts of a segment -/

variable {S : Type}

/-- The stack of every host. -/
abbrev Hosts (S : Type) := S → NetStack

inductive HostOp (S : Type) where
  /-- The `k`-th frame that `src` sent reaches `dst` through `net_rx_packet`; behind the frame the
      driver's buffer holds anything. -/
  | rxPacket (dst src : S) (k : Nat) (pkt : Mem) (us ms : Nat)
  /-- The same through `net_rx_frame`. -/
  | rxFrame (dst src : S) (k : Nat) (pkt : Mem) (us ms : Nat)
  | lookup (s : S) (ip : Nat)
  | udp (s : S) (dstIp srcPort dstPort id : Nat) (payload : List Byte)
  | dhcp (s : S) (us : Nat)
  /-- A call or a timer of TCP: the table it leaves and the segments it sends. -/
  | tcp (s : S) (socks : List TcpSocket) (segs : List TcpSegment)

section Steps

variable [DecidableEq S]

def Hosts.update (hosts : Hosts S) (s : S) (net : NetStack) : Hosts S := Function.update hosts s net

/-- A frame of `src` in the buffer of `dst`, with the interface it came in on. -/
def Hosts.arrives (hosts : Hosts S) (dst src : S) (k : Nat) (pkt : Mem) : Option (NetIf × Nat) := do
  let frame ← (hosts src).sent[k]?
  let dev ← (hosts dst).netIf
  if ∀ i < frame.len, pkt i = frame.bytes i then some (dev, frame.len) else none

def hostStep (hosts : Hosts S) : HostOp S → Option (Hosts S)
  | .rxPacket dst src k pkt us ms => do
    let (dev, len) ← hosts.arrives dst src k pkt
    return hosts.update dst ((hosts dst).netRxPacket dev pkt len us ms).val
  | .rxFrame dst src k pkt us ms => do
    let (dev, len) ← hosts.arrives dst src k pkt
    return hosts.update dst ((hosts dst).netRxFrame dev pkt len us ms).val
  | .lookup s ip => some (hosts.update s ((hosts s).arpLookup ip).1)
  | .udp s dstIp srcPort dstPort id payload =>
    some (hosts.update s ((hosts s).udpSendRaw dstIp srcPort dstPort id payload))
  | .dhcp s us => some (hosts.update s ((hosts s).dhcpStart (hosts s).dev0 us))
  | .tcp s socks segs =>
    some (hosts.update s (segs.foldl NetStack.transmitSegment { hosts s with tcpSockets := socks }))

end Steps

/-- The hosts after `net_init`, each with its interface. -/
def hostsInit (dev : S → NetIf) (kmallocs : S → Nat → Bool) : Hosts S := fun s => netInit (some (dev s)) (kmallocs s)

/-! ## What a host sends -/

/-- The address that the next hop of `ip` has, seen from the interface. -/
def NetIf.hop (dev : NetIf) (ip : Nat) : Nat :=
  if ip &&& dev.netmask ≠ dev.ipAddr &&& dev.netmask then dev.gateway else ip

/-- Some host of the segment has this address and this MAC. -/
def Owns (dev : S → NetIf) (ip mac : Nat) : Prop := ∃ t, (dev t).ipAddr = ip ∧ (dev t).mac = mac

/-- A frame says the truth: as an ARP packet about its sender, as a datagram about where it goes. -/
inductive FrameTrue (dev : S → NetIf) (s : S) (f : Frame) : Prop where
  | arp (type : field16 f.bytes 12 = ETH_P_ARP) (long : 42 ≤ f.len)
      (mac : loadBytes f.bytes 22 6 = (dev s).mac) (ip : loadBytes f.bytes 28 4 = (dev s).ipAddr)
  | ip (dst : Nat) (type : field16 f.bytes 12 = ETH_P_IP) (long : 14 ≤ f.len) (address : loadBytes f.bytes 30 4 = dst % 2 ^ 32)
      (owned : Owns dev ((dev s).hop dst) (loadBytes f.bytes 0 6))
  | other (type : field16 f.bytes 12 = 0) (long : 14 ≤ f.len)

/-- The addresses and MACs fit their fields. -/
structure Addressed (dev : S → NetIf) : Prop where
  mac : ∀ s, (dev s).mac < 2 ^ 48
  ip : ∀ s, (dev s).ipAddr < 2 ^ 32

/-- A host on its interface whose cache is true. -/
structure Honest (dev : S → NetIf) (s : S) (net : NetStack) : Prop where
  netIf : net.netIf = some (dev s)
  cache : ∀ e ∈ net.arpCache, e.valid = true → Owns dev e.ip e.mac

/-- From `net` to `net'` nothing happens to the interface and the cache, and what is sent is true. -/
structure Sends (dev : S → NetIf) (s : S) (net net' : NetStack) : Prop where
  netIf : net'.netIf = net.netIf
  cache : net'.arpCache = net.arpCache
  sent : ∃ frames, net'.sent = net.sent ++ frames ∧ ∀ f ∈ frames, FrameTrue dev s f

section Sending

variable {dev : S → NetIf} {s : S} {net net' net'' : NetStack}

theorem Sends.same (hif : net'.netIf = net.netIf) (hcache : net'.arpCache = net.arpCache) (hsent : net'.sent = net.sent) :
    Sends dev s net net' :=
  ⟨hif, hcache, [], by rw [hsent, List.append_nil], fun _ h => absurd h List.not_mem_nil⟩

theorem Sends.refl (net : NetStack) : Sends dev s net net := Sends.same rfl rfl rfl

theorem Sends.trans (h : Sends dev s net net') (h' : Sends dev s net' net'') : Sends dev s net net'' := by
  obtain ⟨frames, hsent, htrue⟩ := h.sent
  obtain ⟨frames', hsent', htrue'⟩ := h'.sent
  refine ⟨h'.netIf.trans h.netIf, h'.cache.trans h.cache, frames ++ frames', ?_, ?_⟩
  · rw [hsent', hsent, List.append_assoc]
  · intro f hf
    rcases List.mem_append.mp hf with hf | hf
    · exact htrue f hf
    · exact htrue' f hf

theorem Sends.transmit {f : Frame} (h : FrameTrue dev s f) : Sends dev s net (net.transmit f) :=
  ⟨rfl, rfl, [f], rfl, fun _ hg => List.mem_singleton.mp hg ▸ h⟩

theorem Honest.sends (h : Honest dev s net) (hs : Sends dev s net net') : Honest dev s net' :=
  ⟨hs.netIf.trans h.netIf, fun e he => h.cache e (hs.cache ▸ he)⟩

theorem Honest.nextHop (h : Honest dev s net) (ip : Nat) : net.nextHop ip = (dev s).hop ip := by
  unfold NetStack.nextHop NetIf.hop NetStack.dev0
  rw [h.netIf]
  rfl

theorem Honest.dev0 (h : Honest dev s net) : net.dev0 = dev s := by
  unfold NetStack.dev0
  rw [h.netIf]
  rfl

/-! ### The frames it builds -/

theorem loadBytes_putBytes {m : Mem} {a b k : Nat} {bs : List Byte} (h : b + k ≤ a) :
    loadBytes (putBytes m a bs) b k = loadBytes m b k :=
  loadBytes_congr fun _ _ _ => if_neg (by omega)

theorem loadBytes_storeBytes_other {m : Mem} {a n v b k : Nat} (h : b + k ≤ a ∨ a + n ≤ b) :
    loadBytes (storeBytes m a n v) b k = loadBytes m b k :=
  loadBytes_congr (agreeOn_storeBytes h)

/-- The byte order is exchanged twice. -/
theorem ntohs_swap {lo hi : Nat} (hlo : lo < 256) (hhi : hi < 256) : ntohs (lo * 256 + hi) = hi * 256 + lo := by
  unfold ntohs
  omega

/-- A stored half-word, read back. -/
theorem ntohs_stored {v : Nat} (h : v < 2 ^ 16) : ntohs (ntohs v % 256 ^ 2) = v := by
  have hhi : v / 256 < 256 := by omega
  have hlo : v % 256 < 256 := Nat.mod_lt _ (by decide)
  have hswap : ntohs v = v % 256 * 256 + v / 256 := by rw [ntohs, Nat.mod_eq_of_lt hhi]
  have hword : v % 256 * 256 + v / 256 < 256 ^ 2 := by omega
  rw [hswap, Nat.mod_eq_of_lt hword, ntohs_swap hlo hhi, Nat.div_add_mod']

theorem putEth_type (m : Mem) (dst src : Nat) {type : Nat} (h : type < 2 ^ 16) : field16 (putEth m dst src type) 12 = type := by
  rw [field16, putEth, loadBytes_storeBytes_same]
  exact ntohs_stored h

theorem putEth_dst (m : Mem) (dst src type : Nat) (h : dst < 2 ^ 48) : loadBytes (putEth m dst src type) 0 6 = dst := by
  unfold putEth
  rw [loadBytes_storeBytes_other (by omega), loadBytes_storeBytes_other (by omega), loadBytes_storeBytes_same]
  exact Nat.mod_eq_of_lt h

/-- Behind the type, a packet leaves the Ethernet header as it is. -/
theorem field16_congr {m m' : Mem} {a : Nat} (h : loadBytes m' a 2 = loadBytes m a 2) : field16 m' a = field16 m a := by
  rw [field16, field16, h]

theorem arpFrame_type (d : NetIf) (opcode dst targetMac targetIp : Nat) :
    field16 (arpFrame d opcode dst targetMac targetIp).bytes 12 = ETH_P_ARP := by
  rw [← putEth_type (fun _ => 0) dst d.mac (show ETH_P_ARP < 2 ^ 16 by decide)]
  refine field16_congr ?_
  simp (disch := omega) only [arpFrame, loadBytes_storeBytes_other]

theorem arpFrame_true (ha : Addressed dev) (opcode dst targetMac targetIp : Nat) :
    FrameTrue dev s (arpFrame (dev s) opcode dst targetMac targetIp) := by
  refine .arp (arpFrame_type _ _ _ _ _) (Nat.le_refl _) ?_ ?_
  · have hmac := ha.mac s
    simp (disch := omega) only [arpFrame, loadBytes_storeBytes_other, loadBytes_storeBytes_same]
    exact Nat.mod_eq_of_lt hmac
  · have hip := ha.ip s
    simp (disch := omega) only [arpFrame, loadBytes_storeBytes_other, loadBytes_storeBytes_same]
    exact Nat.mod_eq_of_lt hip

/-- A datagram's header leaves the Ethernet header in front of it as it is. -/
theorem putIp_front {m : Mem} {b k : Nat} (totalLen protocol src dst : Nat) (h : b + k ≤ 14) :
    loadBytes (putIp m totalLen protocol src dst) b k = loadBytes m b k := by
  simp (disch := omega) only [putIp, loadBytes_storeBytes_other]

theorem putIp_dst (m : Mem) (totalLen protocol src dst : Nat) :
    loadBytes (putIp m totalLen protocol src dst) 30 4 = dst % 2 ^ 32 := by
  simp (disch := omega) only [putIp, loadBytes_storeBytes_other, loadBytes_storeBytes_same]
  rfl

/-- What makes a datagram's frame true: its type, its destination and a MAC that the next hop owns. -/
theorem datagram_true (ha : Addressed dev) {f : Frame} {dst mac : Nat} {m : Mem} {k : Nat} (hlong : 14 ≤ f.len)
    (hfront : ∀ b j, b + j ≤ 14 → loadBytes f.bytes b j = loadBytes (putEth m mac k ETH_P_IP) b j)
    (hdst : loadBytes f.bytes 30 4 = dst % 2 ^ 32) (howned : Owns dev ((dev s).hop dst) mac) : FrameTrue dev s f := by
  refine .ip dst ?_ hlong hdst ?_
  · rw [field16_congr (hfront 12 2 (by omega))]
    exact putEth_type m mac k (by decide)
  · obtain ⟨t, hip, rfl⟩ := howned
    rw [hfront 0 6 (by omega), putEth_dst _ _ _ _ (ha.mac t)]
    exact ⟨t, hip, rfl⟩

theorem icmpReplyFrame_true (ha : Addressed dev) {mac src : Nat} (dst id seq : Nat)
    (howned : Owns dev ((dev s).hop src) mac) : FrameTrue dev s (icmpReplyFrame (dev s) mac src dst id seq) := by
  refine datagram_true ha (m := fun _ => 0) (k := (dev s).mac) ?_ ?_ ?_ howned
  · show 14 ≤ 14 + 20 + 8
    decide
  · intro b k hbk
    simp (disch := omega) only [icmpReplyFrame, loadBytes_storeBytes_other, putIp_front]
  · simp (disch := omega) only [icmpReplyFrame, loadBytes_storeBytes_other, putIp_dst]

theorem tcpFrame_true (ha : Addressed dev) {mac : Nat} (seg : TcpSegment)
    (howned : Owns dev ((dev s).hop seg.dstIp) mac) : FrameTrue dev s (tcpFrame (dev s) mac seg) := by
  refine datagram_true ha (m := fun _ => 0) (k := (dev s).mac) ?_ ?_ ?_ howned
  · show 14 ≤ 14 + 20 + 20 + seg.payload.length
    omega
  · intro b k hbk
    simp (disch := omega) only [tcpFrame, loadBytes_putBytes, loadBytes_storeBytes_other, putIp_front]
  · simp (disch := omega) only [tcpFrame, loadBytes_putBytes, loadBytes_storeBytes_other, putIp_dst]

theorem udpFrame_true (ha : Addressed dev) {mac dstIp : Nat} (srcPort dstPort id : Nat) (payload : List Byte)
    (howned : Owns dev ((dev s).hop dstIp) mac) :
    FrameTrue dev s (udpFrame (dev s) mac dstIp srcPort dstPort id payload) := by
  refine datagram_true ha (m := fun _ => 0) (k := (dev s).mac) ?_ ?_ ?_ howned
  · show 14 ≤ 14 + 20 + 8 + payload.length
    omega
  · intro b k hbk
    simp (disch := omega) only [udpFrame, loadBytes_putBytes, loadBytes_storeBytes_other]
  · simp (disch := omega) only [udpFrame, loadBytes_putBytes, loadBytes_storeBytes_other, loadBytes_storeBytes_same]
    rfl

theorem dhcpFrame_true (xid : Nat) : FrameTrue dev s (dhcpFrame (dev s) xid) := by
  refine .other ?_ (show 14 ≤ 576 by decide)
  have hempty : loadBytes (dhcpFrame (dev s) xid).bytes 12 2 = loadBytes (fun _ => 0) 12 2 := by
    simp (disch := decide) only [dhcpFrame, ETH_HDR_LEN, IP_HDR_LEN, UDP_HDR_LEN, loadBytes_putBytes, loadBytes_storeBytes_other]
  rw [field16, hempty]
  rfl

/-! ### The functions that send -/

theorem Honest.arpLookup (h : Honest dev s net) (ha : Addressed dev) (ip : Nat) :
    Sends dev s net (net.arpLookup ip).1 ∧ ∀ mac, (net.arpLookup ip).2 = some mac → Owns dev ((dev s).hop ip) mac := by
  unfold NetStack.arpLookup
  cases hentry : net.arpEntry ip with
  | none =>
    refine ⟨Sends.transmit ?_, fun mac hmac => absurd hmac (by simp)⟩
    rw [h.dev0]
    exact arpFrame_true ha _ _ _ _
  | some e =>
    refine ⟨Sends.refl net, ?_⟩
    rintro mac ⟨rfl⟩
    have hmem := List.mem_of_find?_eq_some hentry
    have hfound := List.find?_some hentry
    rw [Bool.and_eq_true, beq_iff_eq, h.nextHop] at hfound
    exact hfound.2 ▸ h.cache e hmem hfound.1

/-- A datagram sent to the MAC that was looked up, or nothing sent. -/
theorem Honest.toLookedUp (h : Honest dev s net) (ha : Addressed dev) (ip : Nat) (frame : Nat → Frame)
    (hframe : ∀ mac, Owns dev ((dev s).hop ip) mac → FrameTrue dev s (frame mac)) :
    Sends dev s net (match net.arpLookup ip with
      | (net, none) => net
      | (net, some mac) => net.transmit (frame mac)) := by
  obtain ⟨hsends, howned⟩ := h.arpLookup ha ip
  split
  · next net' hlook =>
    rw [hlook] at hsends
    exact hsends
  · next net' mac hlook =>
    rw [hlook] at hsends
    exact hsends.trans (Sends.transmit (hframe mac (howned mac (congrArg Prod.snd hlook))))

theorem Honest.transmitSegment (h : Honest dev s net) (ha : Addressed dev) (seg : TcpSegment) :
    Sends dev s net (net.transmitSegment seg) := by
  unfold NetStack.transmitSegment
  rw [h.netIf]
  have hkm : Sends dev s net net.kmalloc.1 := Sends.same rfl rfl rfl
  dsimp only
  split
  · next net' hk =>
    rw [hk] at hkm
    exact hkm
  · next net' hk =>
    obtain rfl : net.kmalloc.1 = net' := congrArg Prod.fst hk
    exact hkm.trans ((h.sends hkm).toLookedUp ha seg.dstIp _ fun mac howned => tcpFrame_true ha seg howned)

theorem Honest.transmitSegments (h : Honest dev s net) (ha : Addressed dev) (segs : List TcpSegment) :
    Sends dev s net (segs.foldl NetStack.transmitSegment net) := by
  induction segs generalizing net with
  | nil => exact Sends.refl net
  | cons seg segs ih =>
    have hone := h.transmitSegment ha seg
    exact hone.trans (ih (h.sends hone))

theorem Honest.udpSendRaw (h : Honest dev s net) (ha : Addressed dev) (dstIp srcPort dstPort id : Nat) (payload : List Byte) :
    Sends dev s net (net.udpSendRaw dstIp srcPort dstPort id payload) := by
  unfold NetStack.udpSendRaw
  rw [h.netIf]
  have hkm : Sends dev s net net.kmalloc.1 := Sends.same rfl rfl rfl
  dsimp only
  split
  · next net' hk =>
    rw [hk] at hkm
    exact hkm
  · next net' hk =>
    obtain rfl : net.kmalloc.1 = net' := congrArg Prod.fst hk
    exact hkm.trans ((h.sends hkm).toLookedUp ha dstIp _ fun mac howned =>
      udpFrame_true ha srcPort dstPort id payload howned)

/-! ### The functions that receive datagrams -/

theorem Honest.icmpRx (h : Honest dev s net) (ha : Addressed dev) (pkt : Mem) (ip data : Nat) :
    Sends dev s net (net.icmpRx (dev s) pkt ip data).val := by
  have hreply := h.toLookedUp ha (loadBytes pkt (ip + 12) 4) (fun mac =>
    icmpReplyFrame (dev s) mac (loadBytes pkt (ip + 12) 4) (loadBytes pkt (ip + 16) 4) (loadBytes pkt (data + 4) 2)
      (loadBytes pkt (data + 6) 2)) fun mac howned => icmpReplyFrame_true ha _ _ _ howned
  unfold NetStack.icmpRx
  rw [Traced.val_bind]
  split
  · rw [Traced.val_bind, val_readRaw]
    rcases hlook : net.arpLookup (loadBytes pkt (ip + 12) 4) with ⟨net', _ | mac⟩
    · rw [hlook] at hreply
      exact hreply
    · rw [hlook] at hreply
      exact hreply
  · exact Sends.refl net

theorem sends_dnsRx (pkt : Mem) (payload plen : Nat) : Sends dev s net (net.dnsRx pkt payload plen).val := by
  unfold NetStack.dnsRx
  simp only [Traced.val_bind]
  split
  · exact Sends.refl net
  · split
    · exact Sends.refl net
    · simp only [Traced.val_bind, Traced.val_pure]
      generalize (findAnswer pkt payload plen _ _).val = answer
      cases answer with
      | none => exact Sends.refl net
      | some ip => exact Sends.same rfl rfl rfl

theorem sends_udpRx (pkt : Mem) (data len : Nat) : Sends dev s net (net.udpRx pkt data len).val := by
  unfold NetStack.udpRx
  split
  · exact Sends.refl net
  · simp only [Traced.val_bind]
    split
    · exact Sends.refl net
    · split
      · exact sends_dnsRx _ _ _
      · exact Sends.refl net

theorem Honest.tcpRx (h : Honest dev s net) (ha : Addressed dev) (pkt : Mem) (ip data len us ms : Nat) :
    Sends dev s net (net.tcpRx pkt ip data len us ms).val := by
  have hseg : ∀ seg, Sends dev s net (net.tcpRxSegment seg us ms) := by
    intro seg
    have htable : Sends dev s net { net with tcpSockets := (tcpRxTable net.tcpSockets seg us ms).1 } :=
      Sends.same rfl rfl rfl
    exact htable.trans ((h.sends htable).transmitSegments ha _)
  exact hseg _

theorem sends_fragRx (pkt : Mem) (h : IpHeader) (now : Nat) : Sends dev s net (net.fragRx pkt h now).val := by
  unfold NetStack.fragRx
  cases net.fragSlot h with
  | none => exact Sends.refl net
  | some i => exact Sends.same rfl rfl rfl

theorem Honest.protocolRx (h : Honest dev s net) (ha : Addressed dev) (pkt : Mem) (hd : IpHeader) (us ms : Nat) :
    Sends dev s net (net.protocolRx (dev s) pkt hd us ms).val := by
  unfold NetStack.protocolRx
  split
  · rw [Traced.val_bind]
    exact h.icmpRx ha _ _ _
  · split
    · rw [Traced.val_bind]
      exact sends_udpRx _ _ _
    · split
      · rw [Traced.val_bind]
        exact h.tcpRx ha _ _ _ _ _ _
      · exact Sends.refl net

/-- **A datagram changes nothing in the cache, and what it makes the host send is true.** -/
theorem Honest.ipRx (h : Honest dev s net) (ha : Addressed dev) (pkt : Mem) (len us ms : Nat) :
    Sends dev s net (net.ipRx (dev s) pkt len us ms).val := by
  by_cases hbad : len < 34 ∨ (pkt 14).toNat / 16 ≠ 4 ∨ ¬HeaderOk pkt
  · rw [ipRx_ignored hbad]
    exact Sends.refl net
  · rw [not_or, not_or, not_not, not_not, Nat.not_lt] at hbad
    rw [ipRx_accepted hbad.1 hbad.2.1 hbad.2.2, ipBody]
    split
    · exact sends_fragRx _ _ _
    · exact h.protocolRx ha _ _ _ _

end Sending

/-! ## The cache as a table -/

/-- The entries in use come first, one an address; behind them the cache is as `net_init` left it. -/
structure ArpTable (net : NetStack) (entries : List ArpEntry) : Prop where
  cache : net.arpCache = entries ++ List.replicate (ARP_CACHE_SIZE - entries.length) ⟨0, 0, 0, false⟩
  fits : entries.length ≤ ARP_CACHE_SIZE
  valid : ∀ e ∈ entries, e.valid = true
  distinct : (entries.map ArpEntry.ip).Nodup

/-- What a reply makes of the table. -/
def learn (entries : List ArpEntry) (e : ArpEntry) : List ArpEntry :=
  match entries.findIdx? fun d => d.ip == e.ip with
  | some i => entries.set i e
  | none => if entries.length < ARP_CACHE_SIZE then entries ++ [e] else entries

theorem learn_some {entries : List ArpEntry} {e : ArpEntry} {i : Nat}
    (h : (entries.findIdx? fun d => d.ip == e.ip) = some i) : learn entries e = entries.set i e := by
  rw [learn, h]

theorem learn_none {entries : List ArpEntry} {e : ArpEntry} (h : (entries.findIdx? fun d => d.ip == e.ip) = none) :
    learn entries e = if entries.length < ARP_CACHE_SIZE then entries ++ [e] else entries := by
  rw [learn, h]

theorem findIdx?_known {entries : List ArpEntry} {ip : Nat} :
    (entries.findIdx? fun d => d.ip == ip) = none ↔ ip ∉ entries.map ArpEntry.ip := by
  simp only [List.findIdx?_eq_none_iff, List.mem_map, not_exists, not_and, beq_eq_false_iff_ne]

/-- The addresses of the table: the new one is added if there is room. -/
theorem learn_ips (entries : List ArpEntry) (e : ArpEntry) :
    (learn entries e).map ArpEntry.ip =
      if e.ip ∉ entries.map ArpEntry.ip ∧ entries.length < ARP_CACHE_SIZE then entries.map ArpEntry.ip ++ [e.ip]
      else entries.map ArpEntry.ip := by
  cases h : entries.findIdx? fun d => d.ip == e.ip with
  | none =>
    rw [learn_none h]
    have hnot := findIdx?_known.mp h
    by_cases hroom : entries.length < ARP_CACHE_SIZE
    · rw [if_pos hroom, if_pos ⟨hnot, hroom⟩, List.map_append, List.map_singleton]
    · rw [if_neg hroom, if_neg fun hand => hroom hand.2]
  | some i =>
    have hknown : ¬e.ip ∉ entries.map ArpEntry.ip := fun hnot => by simp [findIdx?_known.mpr hnot] at h
    obtain ⟨hi, hip, -⟩ := List.findIdx?_eq_some_iff_getElem.mp h
    rw [learn_some h, if_neg fun hand => hknown hand.1, List.map_set]
    refine (set_eq_self_iff (by rwa [List.length_map])).mpr ?_
    rw [List.getElem?_map, List.getElem?_eq_getElem hi]
    exact congrArg some (beq_iff_eq.mp hip)

theorem mem_learn {entries : List ArpEntry} {d e : ArpEntry} (h : d ∈ learn entries e) : d ∈ entries ∨ d = e := by
  unfold learn at h
  split at h
  · exact List.mem_or_eq_of_mem_set h
  · split at h
    · exact (List.mem_append.mp h).imp_right List.mem_singleton.mp
    · exact Or.inl h

/-- A reply of which there is an entry, or for which there is room, is in the table. -/
theorem learn_self {entries : List ArpEntry} {e : ArpEntry}
    (h : e.ip ∈ entries.map ArpEntry.ip ∨ entries.length < ARP_CACHE_SIZE) : e.ip ∈ (learn entries e).map ArpEntry.ip := by
  rw [learn_ips]
  split
  · exact List.mem_append_right _ (List.mem_singleton.mpr rfl)
  · next hnot =>
    rcases h with h | h
    · exact h
    · by_contra hne
      exact hnot ⟨hne, h⟩

theorem arpTable_init (netIf : Option NetIf) (kmallocs : Nat → Bool) : ArpTable (netInit netIf kmallocs) [] :=
  ⟨rfl, Nat.zero_le _, fun _ h => absurd h List.not_mem_nil, List.nodup_nil⟩

section Table

variable {net net' : NetStack} {entries : List ArpEntry}

theorem ArpTable.congr (h : ArpTable net entries) (hcache : net'.arpCache = net.arpCache) : ArpTable net' entries :=
  ⟨hcache.trans h.cache, h.fits, h.valid, h.distinct⟩

/-- The place of a reply: its entry, or else the first unused one. -/
theorem ArpTable.arpSlot (h : ArpTable net entries) (ip : Nat) :
    net.arpSlot ip = (entries.findIdx? fun d => d.ip == ip).or
      (if entries.length < ARP_CACHE_SIZE then some entries.length else none) := by
  have hvalid : (entries.findIdx? fun e => !e.valid) = none := by
    refine List.findIdx?_eq_none_iff.mpr fun e he => ?_
    rw [h.valid e he]
    rfl
  rw [NetStack.arpSlot, h.cache, List.findIdx?_append, List.findIdx?_append, hvalid, Option.none_or, Option.or_assoc]
  congr 1
  rw [List.findIdx?_replicate, List.findIdx?_replicate]
  by_cases hroom : entries.length < ARP_CACHE_SIZE
  · have hpos : 0 < ARP_CACHE_SIZE - entries.length := Nat.sub_pos_of_lt hroom
    by_cases hip : ((0 : Nat) == ip) = true
    · simp [hpos, hip, hroom]
    · simp [hpos, hip, hroom]
  · have hnone : ¬0 < ARP_CACHE_SIZE - entries.length := by omega
    simp [hnone, hroom]

/-- A reply cached, in the table. -/
def cached (net : NetStack) (pkt : Mem) (ms : Nat) : NetStack :=
  match net.arpSlot (loadBytes pkt 28 4) with
  | none => net
  | some slot => cacheReply net pkt ms slot

/-- **A reply is learned.** -/
theorem ArpTable.learns (h : ArpTable net entries) (pkt : Mem) (ms : Nat) :
    ArpTable (cached net pkt ms) (learn entries ⟨loadBytes pkt 28 4, loadBytes pkt 22 6, ms, true⟩) := by
  generalize he : (⟨loadBytes pkt 28 4, loadBytes pkt 22 6, ms, true⟩ : ArpEntry) = e
  have hip : e.ip = loadBytes pkt 28 4 := he ▸ rfl
  have hslot := h.arpSlot (loadBytes pkt 28 4)
  have hmem : ∀ d ∈ learn entries e, d.valid = true := by
    intro d hd
    rcases mem_learn hd with hd | rfl
    · exact h.valid d hd
    · exact he ▸ rfl
  have hnodup : ((learn entries e).map ArpEntry.ip).Nodup := by
    rw [learn_ips]
    split
    · next hnew => exact List.nodup_append.mpr ⟨h.distinct, List.nodup_singleton _, by simpa using hnew.1⟩
    · exact h.distinct
  have hfits := h.fits
  unfold cached
  cases hidx : entries.findIdx? fun d => d.ip == loadBytes pkt 28 4 with
  | some i =>
    have hi := (List.findIdx?_eq_some_iff_getElem.mp hidx).1
    rw [hidx, Option.some_or] at hslot
    rw [hslot]
    rw [← hip] at hidx
    refine ⟨?_, ?_, hmem, hnodup⟩
    · simp only [learn_some hidx, List.length_set, cacheReply, h.cache, he]
      exact List.set_append_left _ _ hi
    · rwa [learn_some hidx, List.length_set]
  | none =>
    rw [hidx, Option.none_or] at hslot
    rw [hslot]
    rw [← hip] at hidx
    rw [learn_none hidx] at hmem hnodup ⊢
    by_cases hroom : entries.length < ARP_CACHE_SIZE
    · simp only [if_pos hroom] at hmem hnodup ⊢
      refine ⟨?_, ?_, hmem, hnodup⟩
      · have hrest : ARP_CACHE_SIZE - entries.length = ARP_CACHE_SIZE - (entries ++ [e]).length + 1 := by
          rw [List.length_append, List.length_singleton]
          omega
        simp only [cacheReply, h.cache, he]
        rw [List.set_append_right _ _ (Nat.le_refl _), Nat.sub_self, hrest, List.replicate_succ,
          List.set_cons_zero, List.append_assoc]
        rfl
      · rw [List.length_append, List.length_singleton]
        exact hroom
    · simp only [if_neg hroom] at hmem hnodup ⊢
      exact h

end Table

/-! ## A host among the others -/

/-- A host on its interface: its cache is a table of true entries, and what it sent is true. -/
structure HostTrue (dev : S → NetIf) (s : S) (net : NetStack) : Prop where
  netIf : net.netIf = some (dev s)
  table : ∃ entries, ArpTable net entries ∧ ∀ e ∈ entries, Owns dev e.ip e.mac
  sent : ∀ f ∈ net.sent, FrameTrue dev s f

/-- There is an entry for the address. -/
def Knows (net : NetStack) (ip : Nat) : Prop := ∃ e ∈ net.arpCache, e.valid = true ∧ e.ip = ip

/-- Every entry is in use. -/
def TableFull (net : NetStack) : Prop := ∀ e ∈ net.arpCache, e.valid = true

/-- From `net` to `net'`: what was sent stays sent, the entries stay, and a full table stays as it is. -/
structure Grows (net net' : NetStack) : Prop where
  sent : net.sent <+: net'.sent
  knows : ∀ ip, Knows net ip → Knows net' ip
  full : TableFull net → TableFull net' ∧ ∀ ip, Knows net' ip → Knows net ip

section Host

variable {dev : S → NetIf} {s src : S} {net net' net'' : NetStack} {entries : List ArpEntry} {f : Frame}
  {pkt : Mem} {len us ms : Nat}

theorem ArpTable.knows_iff (h : ArpTable net entries) (ip : Nat) : Knows net ip ↔ ip ∈ entries.map ArpEntry.ip := by
  simp only [Knows, h.cache, List.mem_append, List.mem_map]
  constructor
  · rintro ⟨e, he | he, hvalid, hip⟩
    · exact ⟨e, he, hip⟩
    · rw [List.eq_of_mem_replicate he] at hvalid
      exact absurd hvalid (by simp)
  · rintro ⟨e, he, hip⟩
    exact ⟨e, Or.inl he, h.valid e he, hip⟩

theorem ArpTable.full_iff (h : ArpTable net entries) : TableFull net ↔ entries.length = ARP_CACHE_SIZE := by
  constructor
  · intro hfull
    by_contra hne
    have hlt : 0 < ARP_CACHE_SIZE - entries.length := by
      have := h.fits
      omega
    have hunused : (⟨0, 0, 0, false⟩ : ArpEntry) ∈ net.arpCache := by
      rw [h.cache]
      exact List.mem_append_right _ (List.mem_replicate.mpr ⟨Nat.ne_of_gt hlt, rfl⟩)
    exact absurd (hfull _ hunused) (by simp)
  · intro hlen e he
    rw [h.cache, hlen, Nat.sub_self, List.replicate_zero, List.append_nil] at he
    exact h.valid e he

theorem HostTrue.honest (h : HostTrue dev s net) : Honest dev s net := by
  obtain ⟨entries, htable, howned⟩ := h.table
  refine ⟨h.netIf, fun e he hvalid => ?_⟩
  obtain ⟨d, hd, hdip⟩ := List.mem_map.mp ((htable.knows_iff e.ip).mp ⟨e, he, hvalid, rfl⟩)
  rw [htable.cache] at he
  rcases List.mem_append.mp he with he | he
  · exact howned e he
  · rw [List.eq_of_mem_replicate he] at hvalid
    exact absurd hvalid (by simp)

theorem Grows.refl (net : NetStack) : Grows net net :=
  ⟨List.prefix_refl _, fun _ h => h, fun h => ⟨h, fun _ h => h⟩⟩

theorem Grows.trans (h : Grows net net') (h' : Grows net' net'') : Grows net net'' :=
  ⟨h.sent.trans h'.sent, fun ip hip => h'.knows ip (h.knows ip hip), fun hfull =>
    ⟨(h'.full (h.full hfull).1).1, fun ip hip => (h.full hfull).2 ip ((h'.full (h.full hfull).1).2 ip hip)⟩⟩

theorem Sends.grows (h : Sends dev s net net') : Grows net net' := by
  obtain ⟨frames, hsent, -⟩ := h.sent
  refine ⟨⟨frames, hsent.symm⟩, ?_, ?_⟩
  · simp only [Knows, h.cache, imp_self, implies_true]
  · simp only [TableFull, Knows, h.cache]
    exact fun hfull => ⟨hfull, fun _ hip => hip⟩

theorem HostTrue.sends (h : HostTrue dev s net) (hs : Sends dev s net net') : HostTrue dev s net' := by
  obtain ⟨entries, htable, howned⟩ := h.table
  obtain ⟨frames, hsent, htrue⟩ := hs.sent
  refine ⟨hs.netIf.trans h.netIf, ⟨entries, htable.congr hs.cache, howned⟩, ?_⟩
  intro g hg
  rw [hsent] at hg
  rcases List.mem_append.mp hg with hg | hg
  · exact h.sent g hg
  · exact htrue g hg

/-- What a host is after a step of its own. -/
def Advances (dev : S → NetIf) (s : S) (net net' : NetStack) : Prop := HostTrue dev s net' ∧ Grows net net'

theorem HostTrue.advances (h : HostTrue dev s net) (hs : Sends dev s net net') : Advances dev s net net' :=
  ⟨h.sends hs, hs.grows⟩

/-- A reply whose sender fields are true is learned as such. -/
theorem HostTrue.learns (h : HostTrue dev s net) (howns : Owns dev (loadBytes pkt 28 4) (loadBytes pkt 22 6)) :
    Advances dev s net (cached net pkt ms) := by
  obtain ⟨entries, htable, howned⟩ := h.table
  have hlearned := htable.learns pkt ms
  have hsame : (cached net pkt ms).netIf = net.netIf ∧ (cached net pkt ms).sent = net.sent := by
    unfold cached
    split
    · exact ⟨rfl, rfl⟩
    · exact ⟨rfl, rfl⟩
  refine ⟨⟨hsame.1.trans h.netIf, ⟨_, hlearned, ?_⟩, hsame.2 ▸ h.sent⟩, ?_⟩
  · intro e he
    rcases mem_learn he with he | rfl
    · exact howned e he
    · exact howns
  · refine ⟨hsame.2 ▸ List.prefix_refl _, ?_, ?_⟩
    · intro ip hip
      rw [htable.knows_iff] at hip
      rw [hlearned.knows_iff, learn_ips]
      split
      · exact List.mem_append_left _ hip
      · exact hip
    · intro hfull
      rw [htable.full_iff] at hfull
      have hnoroom : ¬entries.length < ARP_CACHE_SIZE := Nat.not_lt_of_le (Nat.le_of_eq hfull.symm)
      have hips := learn_ips entries ⟨loadBytes pkt 28 4, loadBytes pkt 22 6, ms, true⟩
      rw [if_neg fun hand => hnoroom hand.2] at hips
      refine ⟨?_, ?_⟩
      · rw [hlearned.full_iff, ← hfull, ← List.length_map (f := ArpEntry.ip), hips, List.length_map]
      · intro ip hip
        rwa [hlearned.knows_iff, hips, ← htable.knows_iff] at hip

/-! ### A frame arrives -/

/-- The buffer has the bytes of the frame. -/
def InBuffer (f : Frame) (pkt : Mem) : Prop := ∀ i < f.len, pkt i = f.bytes i

theorem InBuffer.load (h : InBuffer f pkt) {a n : Nat} (hlen : a + n ≤ f.len) : loadBytes pkt a n = loadBytes f.bytes a n :=
  loadBytes_congr fun x _ hx => h x (by omega)

theorem FrameTrue.long (h : FrameTrue dev s f) : 14 ≤ f.len := by
  cases h with
  | arp _ long _ _ => exact Nat.le_trans (by decide) long
  | ip _ _ long _ _ => exact long
  | other _ long => exact long

/-- No host sends a tag. -/
theorem FrameTrue.untagged (h : FrameTrue dev s f) : field16 f.bytes 12 ≠ ETH_P_VLAN := by
  cases h with
  | arp type _ _ _ => rw [type]; decide
  | ip _ type _ _ _ => rw [type]; decide
  | other type _ => rw [type]; decide

/-- An ARP packet tells the truth about its sender. -/
theorem FrameTrue.sender (h : FrameTrue dev src f) (htype : field16 f.bytes 12 = ETH_P_ARP) :
    42 ≤ f.len ∧ loadBytes f.bytes 22 6 = (dev src).mac ∧ loadBytes f.bytes 28 4 = (dev src).ipAddr := by
  cases h with
  | arp _ long mac ip => exact ⟨long, mac, ip⟩
  | ip _ type _ _ _ => exact absurd (htype.symm.trans type) (by decide)
  | other type _ => exact absurd (htype.symm.trans type) (by decide)

theorem HostTrue.arpRx (h : HostTrue dev s net) (ha : Addressed dev)
    (howns : Owns dev (loadBytes pkt 28 4) (loadBytes pkt 22 6)) : Advances dev s net (net.arpRx (dev s) pkt ms).val := by
  have hsame : Advances dev s net net := h.advances (Sends.refl net)
  rw [arpRx_val]
  split
  · exact hsame
  · split
    · exact hsame
    · split
      · split
        · exact h.advances (Sends.transmit (arpFrame_true ha _ _ _ _))
        · exact hsame
      · split
        · exact h.learns howns
        · exact hsame

theorem HostTrue.dispatch (h : HostTrue dev s net) (ha : Addressed dev) (hf : FrameTrue dev src f) (hb : InBuffer f pkt) :
    Advances dev s net (net.dispatch (dev s) (field16 pkt 12) pkt len us ms).val := by
  have htype : field16 pkt 12 = field16 f.bytes 12 := field16_congr (hb.load hf.long)
  unfold NetStack.dispatch
  split
  · next harp =>
    obtain ⟨hlong, hmac, hip⟩ := hf.sender (htype.symm.trans harp)
    refine h.arpRx ha ⟨src, ?_, ?_⟩
    · rw [hb.load (Nat.le_trans (by decide) hlong), hip]
    · rw [hb.load (Nat.le_trans (by decide) hlong), hmac]
  · split
    · exact h.advances (h.honest.ipRx ha _ _ _ _)
    · exact h.advances (Sends.refl net)

/-- **What a host makes of a frame of the segment**: it stays true. -/
theorem HostTrue.netRxPacket (h : HostTrue dev s net) (ha : Addressed dev) (hf : FrameTrue dev src f) (hb : InBuffer f pkt) :
    Advances dev s net (net.netRxPacket (dev s) pkt f.len us ms).val := by
  have htype : field16 pkt 12 = field16 f.bytes 12 := field16_congr (hb.load hf.long)
  rw [netRxPacket_untagged hf.long fun hv => hf.untagged (htype.symm.trans hv)]
  exact h.dispatch ha hf hb

theorem HostTrue.netRxFrame (h : HostTrue dev s net) (ha : Addressed dev) (hf : FrameTrue dev src f) (hb : InBuffer f pkt) :
    Advances dev s net (net.netRxFrame (dev s) pkt f.len us ms).val := by
  have htype : field16 pkt 12 = field16 f.bytes 12 := field16_congr (hb.load hf.long)
  rw [netRxFrame_eq fun hv => hf.untagged (htype.symm.trans hv)]
  exact h.netRxPacket ha hf hb

end Host

/-! ## Steps and runs -/

section Runs

variable {dev : S → NetIf} {hosts hosts' : Hosts S}

/-- Every host is true. -/
def AllTrue (dev : S → NetIf) (hosts : Hosts S) : Prop := ∀ s, HostTrue dev s (hosts s)

/-- Every host has grown. -/
def AllGrow (hosts hosts' : Hosts S) : Prop := ∀ s, Grows (hosts s) (hosts' s)

theorem allTrue_init (dev : S → NetIf) (kmallocs : S → Nat → Bool) : AllTrue dev (hostsInit dev kmallocs) := fun _ =>
  ⟨rfl, ⟨[], arpTable_init _ _, fun _ h => absurd h List.not_mem_nil⟩, fun _ h => absurd h List.not_mem_nil⟩

theorem arrives_some {dst src : S} {k : Nat} {pkt : Mem} {d : NetIf} {len : Nat}
    (h : hosts.arrives dst src k pkt = some (d, len)) :
    ∃ f, (hosts src).sent[k]? = some f ∧ (hosts dst).netIf = some d ∧ InBuffer f pkt ∧ len = f.len := by
  simp only [Hosts.arrives, Option.bind_eq_bind, Option.bind_eq_some_iff, Option.ite_none_right_eq_some, Option.some.injEq,
    Prod.mk.injEq] at h
  obtain ⟨f, hf, d', hd, hin, rfl, rfl⟩ := h
  exact ⟨f, hf, hd, hin, rfl⟩

variable [DecidableEq S]

theorem AllTrue.update (h : AllTrue dev hosts) {s : S} {net : NetStack} (hs : Advances dev s (hosts s) net) :
    AllTrue dev (hosts.update s net) ∧ AllGrow hosts (hosts.update s net) := by
  unfold Hosts.update
  constructor
  · intro t
    by_cases hts : t = s
    · subst hts
      rw [Function.update_self]
      exact hs.1
    · rw [Function.update_of_ne hts]
      exact h t
  · intro t
    by_cases hts : t = s
    · subst hts
      rw [Function.update_self]
      exact hs.2
    · rw [Function.update_of_ne hts]
      exact Grows.refl _

/-- **Every step leaves the hosts true, and only adds to what they sent and know.** -/
theorem AllTrue.step (h : AllTrue dev hosts) (ha : Addressed dev) {op : HostOp S} (hs : hostStep hosts op = some hosts') :
    AllTrue dev hosts' ∧ AllGrow hosts hosts' := by
  cases op with
  | rxPacket dst src k pkt us ms =>
    simp only [hostStep, Option.bind_eq_bind, Option.bind_eq_some_iff] at hs
    obtain ⟨⟨d, len⟩, harr, hs⟩ := hs
    obtain rfl := Option.some.inj hs
    obtain ⟨f, hf, hd, hin, rfl⟩ := arrives_some harr
    obtain rfl := Option.some.inj ((h dst).netIf.symm.trans hd)
    exact h.update ((h dst).netRxPacket ha ((h src).sent f (List.mem_of_getElem? hf)) hin)
  | rxFrame dst src k pkt us ms =>
    simp only [hostStep, Option.bind_eq_bind, Option.bind_eq_some_iff] at hs
    obtain ⟨⟨d, len⟩, harr, hs⟩ := hs
    obtain rfl := Option.some.inj hs
    obtain ⟨f, hf, hd, hin, rfl⟩ := arrives_some harr
    obtain rfl := Option.some.inj ((h dst).netIf.symm.trans hd)
    exact h.update ((h dst).netRxFrame ha ((h src).sent f (List.mem_of_getElem? hf)) hin)
  | lookup s ip =>
    obtain rfl := Option.some.inj hs
    exact h.update ((h s).advances ((h s).honest.arpLookup ha ip).1)
  | udp s dstIp srcPort dstPort id payload =>
    obtain rfl := Option.some.inj hs
    exact h.update ((h s).advances ((h s).honest.udpSendRaw ha _ _ _ _ _))
  | dhcp s us =>
    obtain rfl := Option.some.inj hs
    refine h.update ((h s).advances (Sends.transmit ?_))
    rw [(h s).honest.dev0]
    exact dhcpFrame_true _
  | tcp s socks segs =>
    obtain rfl := Option.some.inj hs
    have hsocks : Sends dev s (hosts s) { hosts s with tcpSockets := socks } := Sends.same rfl rfl rfl
    exact h.update ((h s).advances (hsocks.trans (((h s).honest.sends hsocks).transmitSegments ha segs)))

theorem AllTrue.run (h : AllTrue dev hosts) (ha : Addressed dev) {ops : List (HostOp S)}
    (hr : run hostStep hosts ops = some hosts') : AllTrue dev hosts' ∧ AllGrow hosts hosts' := by
  induction ops generalizing hosts with
  | nil =>
    obtain rfl := Option.some.inj hr
    exact ⟨h, fun s => Grows.refl _⟩
  | cons op ops ih =>
    simp only [Lib.run, Option.bind_eq_some_iff] at hr
    obtain ⟨mid, hop, hr⟩ := hr
    obtain ⟨hmid, hgrow⟩ := h.step ha hop
    obtain ⟨hend, hgrow'⟩ := ih hmid hr
    exact ⟨hend, fun s => (hgrow s).trans (hgrow' s)⟩

/-! ## Truth -/

/-- **Safety.** In every state of every run, whatever arrives where and how often, the cache of every host
    holds true entries only, one an address, and every frame that was sent is true: an ARP packet about its
    sender, a datagram in being sent to the host that its next hop belongs to. -/
theorem arp_caches_true (ha : Addressed dev) (kmallocs : S → Nat → Bool) (ops : List (HostOp S)) :
    Always hostStep (AllTrue dev) (hostsInit dev kmallocs) ops :=
  always_of_step (fun _ _ _ h hs => (h.step ha hs).1) (allTrue_init dev kmallocs)

/-- Two hosts of a network, neighbours. -/
def twoHosts : Bool → NetIf
  | false => ⟨0x0000020000000001, 0x0100000A, 0x00FFFFFF, 0x0200000A⟩
  | true => ⟨0x0000020000000002, 0x0200000A, 0x00FFFFFF, 0x0200000A⟩

theorem addressed_twoHosts : Addressed twoHosts := by
  constructor
  · decide
  · decide

theorem arp_caches_true_two :
    Always hostStep (AllTrue twoHosts) (hostsInit twoHosts fun _ _ => true)
      [.lookup false 0x0200000A, .rxPacket true false 0 (arpFrame (twoHosts false) ARP_REQUEST 0xFFFFFFFFFFFF 0 0x0200000A).bytes 0 0] :=
  arp_caches_true addressed_twoHosts _ _

/-! ## Exchanges -/

section Exchange

variable {s t : S} {net : NetStack} {pkt : Mem} {ip us ms : Nat}

omit [DecidableEq S]

/-- The fields of an ARP packet that `arp_rx` reads. -/
theorem arpFrame_fields (d : NetIf) {opcode targetIp : Nat} (dst targetMac : Nat) (hop : opcode < 256) (hip : targetIp < 2 ^ 32)
    (hb : InBuffer (arpFrame d opcode dst targetMac targetIp) pkt) :
    field16 pkt 14 = 1 ∧ field16 pkt 16 = ETH_P_IP ∧ field16 pkt 20 = opcode ∧ loadBytes pkt 38 4 = targetIp ∧
      loadBytes pkt 22 6 = d.mac % 2 ^ 48 ∧ loadBytes pkt 28 4 = d.ipAddr % 2 ^ 32 := by
  have hin {a n : Nat} (h : a + n ≤ 42) := hb.load (a := a) (n := n) h
  refine ⟨?_, ?_, ?_, ?_, ?_, ?_⟩
  · rw [field16, hin (by decide)]
    simp (disch := omega) only [arpFrame, loadBytes_storeBytes_other, loadBytes_storeBytes_same]
    decide
  · rw [field16, hin (by decide)]
    simp (disch := omega) only [arpFrame, loadBytes_storeBytes_other, loadBytes_storeBytes_same]
    decide
  · rw [field16, hin (by decide)]
    simp (disch := omega) only [arpFrame, loadBytes_storeBytes_other, loadBytes_storeBytes_same]
    exact ntohs_stored (by omega)
  · rw [hin (by decide)]
    simp (disch := omega) only [arpFrame, loadBytes_storeBytes_same]
    exact Nat.mod_eq_of_lt hip
  · rw [hin (by decide)]
    simp (disch := omega) only [arpFrame, loadBytes_storeBytes_other, loadBytes_storeBytes_same]
    rfl
  · rw [hin (by decide)]
    simp (disch := omega) only [arpFrame, loadBytes_storeBytes_other, loadBytes_storeBytes_same]
    rfl

/-- An ARP packet is given to `arp_rx`. -/
theorem netRxPacket_arp {e : NetIf} {opcode dst targetMac targetIp : Nat} (d : NetIf)
    (hb : InBuffer (arpFrame e opcode dst targetMac targetIp) pkt) :
    (net.netRxPacket d pkt (ETH_HDR_LEN + ARP_HDR_LEN) us ms).val = (net.arpRx d pkt ms).val := by
  have htype : field16 pkt 12 = ETH_P_ARP := by
    rw [field16_congr (hb.load (show 12 + 2 ≤ 42 by decide))]
    exact arpFrame_type _ _ _ _ _
  rw [netRxPacket_untagged (by decide) (by rw [htype]; decide), htype, NetStack.dispatch, if_pos rfl]

/-- A request is answered by the host that it asks for. -/
theorem request_answered (ha : Addressed dev) (dst targetMac : Nat)
    (hb : InBuffer (arpFrame (dev s) ARP_REQUEST dst targetMac (dev t).ipAddr) pkt) :
    (net.netRxPacket (dev t) pkt (ETH_HDR_LEN + ARP_HDR_LEN) us ms).val =
      net.transmit (arpFrame (dev t) ARP_REPLY (dev s).mac (dev s).mac (dev s).ipAddr) := by
  obtain ⟨h1, h2, h3, h4, h5, h6⟩ := arpFrame_fields (dev s) dst targetMac (show ARP_REQUEST < 256 by decide) (ha.ip t) hb
  rw [netRxPacket_arp _ hb, arpRx_val, if_neg (not_not_intro h1), if_neg (not_not_intro h2), if_pos h3, if_pos h4, h5, h6,
    Nat.mod_eq_of_lt (ha.mac s), Nat.mod_eq_of_lt (ha.ip s)]

/-- An answer is cached. -/
theorem reply_cached (ha : Addressed dev) (d : NetIf) (dst targetMac : Nat) {targetIp : Nat} (hip : targetIp < 2 ^ 32)
    (hb : InBuffer (arpFrame (dev t) ARP_REPLY dst targetMac targetIp) pkt) :
    (net.netRxPacket d pkt (ETH_HDR_LEN + ARP_HDR_LEN) us ms).val = cached net pkt ms ∧
      loadBytes pkt 28 4 = (dev t).ipAddr := by
  obtain ⟨h1, h2, h3, -, -, h6⟩ := arpFrame_fields (dev t) dst targetMac (show ARP_REPLY < 256 by decide) hip hb
  refine ⟨?_, h6.trans (Nat.mod_eq_of_lt (ha.ip t))⟩
  have hno : ¬field16 pkt 20 = ARP_REQUEST := by
    rw [h3]
    decide
  rw [netRxPacket_arp _ hb, arpRx_val, if_neg (not_not_intro h1), if_neg (not_not_intro h2), if_neg hno, if_pos h3]
  rfl

/-- A host that knows an address finds its owner's MAC. -/
theorem HostTrue.lookup_known (h : HostTrue dev s net) (hdistinct : Function.Injective fun t => (dev t).ipAddr)
    (hhop : (dev s).hop ip = (dev t).ipAddr) (hknown : Knows net (dev t).ipAddr) :
    net.arpLookup ip = (net, some (dev t).mac) := by
  obtain ⟨e, he, hvalid, hip⟩ := hknown
  have hsome : (net.arpEntry ip).isSome = true := by
    refine List.find?_isSome.mpr ⟨e, he, ?_⟩
    rw [h.honest.nextHop, hhop, hvalid, hip, Bool.true_and, beq_self_eq_true]
  obtain ⟨d, hd⟩ := Option.isSome_iff_exists.mp hsome
  have hmem := List.mem_of_find?_eq_some hd
  have hfound := List.find?_some hd
  rw [Bool.and_eq_true, beq_iff_eq, h.honest.nextHop, hhop] at hfound
  obtain ⟨u, huip, humac⟩ := h.honest.cache d hmem hfound.1
  obtain rfl : u = t := hdistinct (huip.trans hfound.2)
  rw [NetStack.arpLookup, hd, humac]

/-- A host that does not know an address asks for it. -/
theorem HostTrue.lookup_unknown (h : HostTrue dev s net) (hunknown : ¬Knows net ((dev s).hop ip)) :
    net.arpLookup ip = (net.transmit (arpFrame (dev s) ARP_REQUEST 0xFFFFFFFFFFFF 0 ((dev s).hop ip)), none) := by
  have hnone : net.arpEntry ip = none := by
    refine List.find?_eq_none.mpr fun e he hfound => hunknown ⟨e, he, ?_⟩
    rwa [Bool.and_eq_true, beq_iff_eq, h.honest.nextHop] at hfound
  rw [NetStack.arpLookup, hnone, h.honest.dev0, h.honest.nextHop]

/-- On a segment of at most 64 hosts there is room for every one of them. -/
theorem HostTrue.room [Fintype S] (h : HostTrue dev s net) (hdistinct : Function.Injective fun t => (dev t).ipAddr)
    (hfew : Fintype.card S ≤ ARP_CACHE_SIZE) (hip : loadBytes pkt 28 4 = (dev t).ipAddr) :
    Knows (cached net pkt ms) (dev t).ipAddr := by
  obtain ⟨entries, htable, howned⟩ := h.table
  rw [(htable.learns pkt ms).knows_iff, ← hip]
  refine learn_self ?_
  by_contra hno
  rw [not_or] at hno
  obtain ⟨hnew, hnoroom⟩ := hno
  -- the addresses of a full table and one more would be those of 65 hosts
  have hnodup : ((dev t).ipAddr :: entries.map ArpEntry.ip).Nodup := List.nodup_cons.mpr ⟨hip ▸ hnew, htable.distinct⟩
  have hsub : ((dev t).ipAddr :: entries.map ArpEntry.ip).toFinset ⊆ Finset.univ.image fun t => (dev t).ipAddr := by
    intro a ha
    rw [List.mem_toFinset, List.mem_cons, List.mem_map] at ha
    rw [Finset.mem_image]
    rcases ha with rfl | ⟨e, he, rfl⟩
    · exact ⟨t, Finset.mem_univ t, rfl⟩
    · obtain ⟨u, hu, -⟩ := howned e he
      exact ⟨u, Finset.mem_univ u, hu⟩
  have hcard := Finset.card_le_card hsub
  rw [List.toFinset_card_of_nodup hnodup, Finset.card_image_of_injective _ hdistinct, Finset.card_univ, List.length_cons,
    List.length_map] at hcard
  omega

end Exchange

/-- The host `s` looks `ip` up; its request, or what it sent next, reaches `t`; what `t` then sent first
    reaches `s`. Between these anything may happen. -/
inductive Exchange (s t : S) (ip : Nat) : Hosts S → Hosts S → Prop where
  | intro {a b c d e f : Hosts S} {ops ops' : List (HostOp S)} {pkt pkt' : Mem} {us ms us' ms' : Nat}
      (asks : hostStep a (.lookup s ip) = some b) (waits : run hostStep b ops = some c)
      (request : hostStep c (.rxPacket t s (a s).sent.length pkt us ms) = some d)
      (waits' : run hostStep d ops' = some e)
      (answer : hostStep e (.rxPacket s t (c t).sent.length pkt' us' ms') = some f) : Exchange s t ip a f

/-- The frame that a step delivers, and what the receiver is after it. -/
theorem rxPacket_some {a b : Hosts S} {dst src : S} {k : Nat} {pkt : Mem} {us ms : Nat} {frame : Frame} (h : AllTrue dev a)
    (hframe : (a src).sent[k]? = some frame) (hs : hostStep a (.rxPacket dst src k pkt us ms) = some b) :
    InBuffer frame pkt ∧ b dst = ((a dst).netRxPacket (dev dst) pkt frame.len us ms).val := by
  simp only [hostStep, Option.bind_eq_bind, Option.bind_eq_some_iff] at hs
  obtain ⟨⟨d, len⟩, harr, hs⟩ := hs
  obtain rfl := Option.some.inj hs
  obtain ⟨f, hf, hd, hin, rfl⟩ := arrives_some harr
  obtain rfl := Option.some.inj ((h dst).netIf.symm.trans hd)
  obtain rfl := Option.some.inj (hf.symm.trans hframe)
  exact ⟨hin, by rw [Hosts.update, Function.update_self]⟩

/-- A frame that was sent stays at its place. -/
theorem Grows.frame {net net' : NetStack} (h : Grows net net') {k : Nat} {frame : Frame} (hk : net.sent[k]? = some frame) :
    net'.sent[k]? = some frame := by
  obtain ⟨rest, hrest⟩ := h.sent
  rw [← hrest, List.getElem?_append_left (List.getElem?_eq_some_iff.mp hk).1, hk]

/-- **One exchange resolves an address.** -/
theorem Exchange.knows [Fintype S] {a f : Hosts S} {s t : S} {ip : Nat} (hx : Exchange s t ip a f) (ha : Addressed dev)
    (hdistinct : Function.Injective fun t => (dev t).ipAddr) (hfew : Fintype.card S ≤ ARP_CACHE_SIZE) (h : AllTrue dev a)
    (hhop : (dev s).hop ip = (dev t).ipAddr) : AllTrue dev f ∧ Knows (f s) (dev t).ipAddr := by
  obtain ⟨asks, waits, request, waits', answer⟩ := hx
  rename_i b c d e ops ops' pkt pkt' us ms us' ms'
  obtain ⟨hb, hab⟩ := h.step ha asks
  obtain ⟨hc, hbc⟩ := hb.run ha waits
  obtain ⟨hd, hcd⟩ := hc.step ha request
  obtain ⟨he, hde⟩ := hd.run ha waits'
  obtain ⟨hf, hef⟩ := he.step ha answer
  refine ⟨hf, ?_⟩
  by_cases hknown : Knows (a s) ((dev s).hop ip)
  · rw [← hhop]
    exact ((((hab s).trans (hbc s)).trans (hcd s)).trans ((hde s).trans (hef s))).knows _ hknown
  · have hbs : b s = (a s).transmit (arpFrame (dev s) ARP_REQUEST 0xFFFFFFFFFFFF 0 ((dev s).hop ip)) := by
      rw [← Option.some.inj asks, Hosts.update, Function.update_self, (h s).lookup_unknown hknown]
    have hreq : (c s).sent[(a s).sent.length]? = some (arpFrame (dev s) ARP_REQUEST 0xFFFFFFFFFFFF 0 ((dev s).hop ip)) := by
      refine (hbc s).frame ?_
      rw [hbs, NetStack.transmit, List.getElem?_concat_length]
    obtain ⟨hin, hdt⟩ := rxPacket_some hc hreq request
    rw [hhop] at hin
    have hrep : (e t).sent[(c t).sent.length]? = some (arpFrame (dev t) ARP_REPLY (dev s).mac (dev s).mac (dev s).ipAddr) := by
      refine (hde t).frame ?_
      rw [hdt]
      have hanswered : ((c t).netRxPacket (dev t) pkt _ us ms).val = _ := request_answered ha _ _ hin
      rw [show (arpFrame (dev s) ARP_REQUEST 0xFFFFFFFFFFFF 0 ((dev s).hop ip)).len = ETH_HDR_LEN + ARP_HDR_LEN from rfl,
        hanswered, NetStack.transmit, List.getElem?_concat_length]
    obtain ⟨hin', hfs⟩ := rxPacket_some he hrep answer
    obtain ⟨hcached, hip⟩ : ((e s).netRxPacket (dev s) pkt' _ us' ms').val = _ ∧ _ := reply_cached ha _ _ _ (ha.ip s) hin'
    rw [hfs, show (arpFrame (dev t) ARP_REPLY (dev s).mac (dev s).mac (dev s).ipAddr).len = ETH_HDR_LEN + ARP_HDR_LEN from rfl,
      hcached]
    exact (he s).room hdistinct hfew hip

/-- **Progress.** On a segment of at most 64 hosts with different addresses an exchange, however slow and with
    whatever in between, resolves the address: in every later state of the run a lookup of it gives the MAC of
    the host asked for, and sends nothing. -/
theorem arp_exchange [Fintype S] (ha : Addressed dev) (hdistinct : Function.Injective fun t => (dev t).ipAddr)
    (hfew : Fintype.card S ≤ ARP_CACHE_SIZE) {kmallocs : S → Nat → Bool} {ops ops' : List (HostOp S)} {a f g : Hosts S}
    {s t : S} {ip : Nat} (hbefore : run hostStep (hostsInit dev kmallocs) ops = some a) (hx : Exchange s t ip a f)
    (hafter : run hostStep f ops' = some g) (hhop : (dev s).hop ip = (dev t).ipAddr) :
    (g s).arpLookup ip = (g s, some (dev t).mac) := by
  obtain ⟨htrue, -⟩ := (allTrue_init dev kmallocs).run ha hbefore
  obtain ⟨hf, hknows⟩ := hx.knows ha hdistinct hfew htrue hhop
  obtain ⟨hg, hgrow⟩ := hf.run ha hafter
  exact (hg s).lookup_known hdistinct hhop ((hgrow s).knows _ hknows)

/-- The first of two hosts asks for the second. -/
def asked : Hosts Bool := (hostStep (hostsInit twoHosts fun _ _ => true) (.lookup false 0x0200000A)).getD fun _ => netInit none fun _ => true

/-- Its request arrives. -/
def requested : Hosts Bool :=
  (hostStep asked (.rxPacket true false 0 (arpFrame (twoHosts false) ARP_REQUEST 0xFFFFFFFFFFFF 0 0x0200000A).bytes 0 0)).getD asked

/-- The answer arrives. -/
def answered : Hosts Bool :=
  (hostStep requested (.rxPacket false true 0
    (arpFrame (twoHosts true) ARP_REPLY 0x0000020000000001 0x0000020000000001 0x0100000A).bytes 0 7)).getD asked

theorem exchange_two : Exchange false true 0x0200000A (hostsInit twoHosts fun _ _ => true) answered := by
  have hrequest : hostStep asked (.rxPacket true false 0
      (arpFrame (twoHosts false) ARP_REQUEST 0xFFFFFFFFFFFF 0 0x0200000A).bytes 0 0) = some requested :=
    eq_some_getD _ (by decide)
  have hanswer : hostStep requested (.rxPacket false true 0
      (arpFrame (twoHosts true) ARP_REPLY 0x0000020000000001 0x0000020000000001 0x0100000A).bytes 0 7) = some answered :=
    eq_some_getD _ (by decide)
  have hnothing (hosts : Hosts Bool) : run hostStep hosts [] = some hosts := rfl
  exact .intro (eq_some_getD _ rfl) (hnothing asked) hrequest (hnothing requested) hanswer

theorem arp_exchange_two : (answered false).arpLookup 0x0200000A = (answered false, some (twoHosts true).mac) :=
  have hnothing (hosts : Hosts Bool) : run hostStep hosts [] = some hosts := rfl
  arp_exchange addressed_twoHosts (by decide) (by decide) (hnothing _) exchange_two (hnothing _) (by decide)

/-! ## A full cache -/

/-- **A full cache stays as it is.** Once all 64 entries of a host are in use, an address that it does not know
    then it never knows, and every lookup of it, for ever, sends another request. -/
theorem full_table_stays (ha : Addressed dev) (h : AllTrue dev hosts) {ops : List (HostOp S)} {s : S} {ip : Nat}
    (hfull : TableFull (hosts s)) (hunknown : ¬Knows (hosts s) ((dev s).hop ip)) (hr : run hostStep hosts ops = some hosts') :
    (hosts' s).arpLookup ip =
      ((hosts' s).transmit (arpFrame (dev s) ARP_REQUEST 0xFFFFFFFFFFFF 0 ((dev s).hop ip)), none) := by
  obtain ⟨htrue, hgrow⟩ := h.run ha hr
  exact (htrue s).lookup_unknown fun hknown => hunknown (((hgrow s).full hfull).2 _ hknown)

end Runs

/-- Hosts on a network without a mask, numbered. -/
def manyHosts (n : Fin 66) : NetIf := ⟨n, n, 0, 0⟩

/-- Host 0 knows the hosts 1 to 64. -/
def crowded : Hosts (Fin 66) := fun n =>
  { netInit (some (manyHosts n)) fun _ => true with
    arpCache := (List.range 64).map fun k => ⟨k + 1, k + 1, 0, true⟩ }

theorem allTrue_crowded : AllTrue manyHosts crowded := by
  intro s
  refine ⟨rfl, ⟨(List.range 64).map fun k => ⟨k + 1, k + 1, 0, true⟩, ⟨rfl, by decide, by decide, by decide⟩, ?_⟩, ?_⟩
  · intro e he
    obtain ⟨k, hk, rfl⟩ := List.mem_map.mp he
    have hlt := List.mem_range.mp hk
    exact ⟨⟨k + 1, by omega⟩, rfl, rfl⟩
  · exact fun f hf => absurd hf List.not_mem_nil

theorem full_table_stays_crowded :
    (crowded 0).arpLookup 65 =
      ((crowded 0).transmit (arpFrame (manyHosts 0) ARP_REQUEST 0xFFFFFFFFFFFF 0 ((manyHosts 0).hop 65)), none) :=
  have hfull : ∀ e ∈ (crowded 0).arpCache, e.valid = true := by decide
  have hunknown : ¬∃ e ∈ (crowded 0).arpCache, e.valid = true ∧ e.ip = (manyHosts 0).hop 65 := by decide
  have hnothing : run hostStep crowded [] = some crowded := rfl
  full_table_stays ⟨by decide, by decide⟩ allTrue_crowded hfull hunknown hnothing

end Crimson.Net
