import Crimson.Lib.Traced
import Crimson.Net.Tcp

/-!
# The receive path (`net.c`)

From a received frame to the state it leaves: `net_rx_packet` and `net_rx_frame`, ARP,
IPv4 with its fragment table, ICMP echo, UDP with the DNS parser, and TCP, whose state
machine is in `Crimson.Net.Tcp`.

A frame is a memory from its first byte on and a length; the memory goes on behind the
length, as the driver's buffer does, and the functions read it wherever their pointers
lead. Each function reports the addresses it reads, the places of the fragment buffers it
writes and the calls of the upper layers (`RxEvent`); `len` stands only where the source
tests it.

Fields that are compared or copied in network order are raw little-endian loads, those
that the source converts go through `ntohs` and `ntohl`.
-/

set_option autoImplicit false

namespace Crimson.Net

open Crimson.Lib

def ETH_HDR_LEN : Nat := 14
def ETH_VLAN_HDR_LEN : Nat := 18
def ETH_P_IP : Nat := 0x0800
def ETH_P_ARP : Nat := 0x0806
def ETH_P_VLAN : Nat := 0x8100
def IP_HDR_LEN : Nat := 20
def ARP_HDR_LEN : Nat := 28
def UDP_HDR_LEN : Nat := 8
def ICMP_HDR_LEN : Nat := 8
def TCP_HDR_LEN : Nat := 20
def ARP_REQUEST : Nat := 1
def ARP_REPLY : Nat := 2
def IP_PROTO_ICMP : Nat := 1
def IP_PROTO_TCP : Nat := 6
def IP_PROTO_UDP : Nat := 17
def ARP_CACHE_SIZE : Nat := 64
def MAX_IP_FRAGS : Nat := 16
def DNS_MAX_QUERIES : Nat := 32
def ICMP_ECHO_REPLY : Nat := 0
def ICMP_ECHO_REQUEST : Nat := 8
def DNS_PORT : Nat := 53

/-! ## State -/

/-- The part of `net_if_t` the stack reads; a MAC is its six bytes as a number. -/
structure NetIf where
  mac : Nat
  ipAddr : Nat
  netmask : Nat
  gateway : Nat
deriving DecidableEq, Repr

/-- `arp_entry_t` -/
structure ArpEntry where
  ip : Nat
  mac : Nat
  timestamp : Nat
  valid : Bool
deriving DecidableEq, Repr

/-- `ip_frag_t` -/
structure IpFrag where
  src : Nat
  dst : Nat
  id : Nat
  protocol : Nat
  buf : Mem
  received : Nat
  total : Nat
  timestamp : Nat
  active : Bool

/-- The part of `dns_query_t` that a response is matched with and written to. -/
structure DnsQuery where
  id : Nat
  resultIp : Nat
  resolved : Bool
  inUse : Bool
deriving DecidableEq, Repr

/-- A frame given to a driver. -/
structure Frame where
  bytes : Mem
  len : Nat

/-- The static data of the stack. `netIf` is `net_ifs[0]`; `kmallocs` says which of the
    next packet allocations succeed; `sent` is what the drivers were given. -/
structure NetStack where
  netIf : Option NetIf
  arpCache : List ArpEntry
  ipFrags : List IpFrag
  dnsQueries : List DnsQuery
  tcpSockets : List TcpSocket
  kmallocs : Nat → Bool
  sent : List Frame

/-- The state `net_init` leaves, with an interface and the results of `kmalloc` to come. -/
def netInit (netIf : Option NetIf) (kmallocs : Nat → Bool) : NetStack where
  netIf := netIf
  arpCache := List.replicate ARP_CACHE_SIZE ⟨0, 0, 0, false⟩
  ipFrags := List.replicate MAX_IP_FRAGS ⟨0, 0, 0, 0, fun _ => 0, 0, 0, 0, false⟩
  dnsQueries := List.replicate DNS_MAX_QUERIES ⟨0, 0, false, false⟩
  tcpSockets := List.replicate TCP_MAX_SOCKETS zeroSocket
  kmallocs := kmallocs
  sent := []

/-- What an upper layer is called with. -/
structure UpperCall where
  src : Nat
  dst : Nat
  id : Nat
  protocol : Nat
  payload : List Byte
deriving DecidableEq, Repr

inductive RxEvent where
  /-- A byte of the packet is read. -/
  | read (i : Nat)
  /-- A byte of a fragment buffer is written. -/
  | fragWrite (i : Nat)
  /-- `icmp_rx`, `udp_rx` or `tcp_rx` is called. -/
  | upper (call : UpperCall)
deriving DecidableEq, Repr

abbrev Rx (α : Type) := Traced RxEvent α

/-! ## Bytes -/

/-- `ntohs`, which is also `htons` -/
def ntohs (v : Nat) : Nat := v % 256 * 256 + v / 256 % 256

/-- `ntohl`, which is also `htonl` -/
def ntohl (v : Nat) : Nat :=
  v % 256 * 2 ^ 24 + v / 256 % 256 * 2 ^ 16 + v / 2 ^ 16 % 256 * 256 + v / 2 ^ 24 % 256

/-- The `n` bytes from `a`, as a list. -/
def bytesAt (m : Mem) (a n : Nat) : List Byte := (List.range n).map fun i => m (a + i)

def putBytes (m : Mem) (a : Nat) (bs : List Byte) : Mem := fun x =>
  if a ≤ x ∧ x < a + bs.length then bs.getD (x - a) 0 else m x

/-- The reads of `n` bytes from `a`. -/
def readsOf (a n : Nat) : List RxEvent := (List.range n).map fun i => .read (a + i)

/-- A packet of the given bytes, in a buffer of zeros. -/
def packetOf (bs : List Nat) : Mem := fun i => BitVec.ofNat 8 (bs.getD i 0)

/-- A load of an `n`-byte field. -/
def readRaw (pkt : Mem) (a n : Nat) : Rx Nat := ⟨loadBytes pkt a n, readsOf a n⟩

def read8 (pkt : Mem) (a : Nat) : Rx Nat := ⟨(pkt a).toNat, readsOf a 1⟩

def read16 (pkt : Mem) (a : Nat) : Rx Nat := ⟨ntohs (loadBytes pkt a 2), readsOf a 2⟩

def read32 (pkt : Mem) (a : Nat) : Rx Nat := ⟨ntohl (loadBytes pkt a 4), readsOf a 4⟩

/-- The source of a copy of `n` bytes from `a`. -/
def readBlock (a n : Nat) : Rx Unit := ⟨(), readsOf a n⟩

/-- The destination of a copy of `n` bytes into a fragment buffer, from `a`. -/
def writeFrag (a n : Nat) : Rx Unit := ⟨(), (List.range n).map fun i => .fragWrite (a + i)⟩

/-- The sum of the 16-bit words of `n` bytes; an odd byte counts by itself. -/
def sumWords (m : Mem) : Nat → Nat → Nat
  | _, 0 => 0
  | a, 1 => (m a).toNat
  | a, n + 2 => loadBytes m a 2 + sumWords m (a + 2) n

/-- The carries of a sum added to its low 16 bits, in at most `rounds` rounds. -/
def foldSum : Nat → Nat → Nat
  | 0, sum => sum
  | rounds + 1, sum => if sum / 2 ^ 16 = 0 then sum else foldSum rounds (sum % 2 ^ 16 + sum / 2 ^ 16)

/-- `ip_checksum`. No caller sums more than 60 bytes, so the 32-bit sum does not wrap. -/
def ipChecksum (m : Mem) (a n : Nat) : Nat := 2 ^ 16 - 1 - foldSum 2 (sumWords m a n) % 2 ^ 16

def readChecksum (pkt : Mem) (a n : Nat) : Rx Nat := ⟨ipChecksum pkt a n, readsOf a n⟩

/-! ## Frames the stack builds -/

/-- The Ethernet header. -/
def putEth (m : Mem) (dst src type : Nat) : Mem :=
  storeBytes (storeBytes (storeBytes m 0 6 dst) 6 6 src) 12 2 (ntohs type)

/-- The ARP packet of `arp_request` and of the reply in `arp_rx`. -/
def arpFrame (dev : NetIf) (opcode dst targetMac targetIp : Nat) : Frame where
  bytes :=
    let m := putEth (fun _ => 0) dst dev.mac ETH_P_ARP
    let m := storeBytes (storeBytes m 14 2 (ntohs 1)) 16 2 (ntohs ETH_P_IP)
    let m := storeBytes (storeBytes m 18 1 6) 19 1 4
    let m := storeBytes m 20 2 (ntohs opcode)
    let m := storeBytes (storeBytes m 22 6 dev.mac) 28 4 dev.ipAddr
    storeBytes (storeBytes m 32 6 targetMac) 38 4 targetIp
  len := ETH_HDR_LEN + ARP_HDR_LEN

/-- The IPv4 header without options, its checksum last. -/
def putIp (m : Mem) (totalLen protocol src dst : Nat) : Mem :=
  let m := storeBytes (storeBytes m 14 1 0x45) 15 1 0
  let m := storeBytes m 16 2 (ntohs totalLen)
  let m := storeBytes (storeBytes m 18 2 0) 20 2 0
  let m := storeBytes (storeBytes m 22 1 64) 23 1 protocol
  let m := storeBytes m 24 2 0
  let m := storeBytes (storeBytes m 26 4 src) 30 4 dst
  storeBytes m 24 2 (ipChecksum m 14 IP_HDR_LEN)

/-- The echo reply of `icmp_rx`: addresses exchanged, identifier and sequence number kept. -/
def icmpReplyFrame (dev : NetIf) (dstMac src dst id seq : Nat) : Frame where
  bytes :=
    let m := putEth (fun _ => 0) dstMac dev.mac ETH_P_IP
    let m := putIp m (IP_HDR_LEN + ICMP_HDR_LEN) IP_PROTO_ICMP dst src
    let m := storeBytes (storeBytes m 34 1 ICMP_ECHO_REPLY) 35 1 0
    let m := storeBytes m 36 2 0
    let m := storeBytes (storeBytes m 38 2 id) 40 2 seq
    storeBytes m 36 2 (ipChecksum m 34 ICMP_HDR_LEN)
  len := ETH_HDR_LEN + IP_HDR_LEN + ICMP_HDR_LEN

/-- The packet of `tcp_send_segment`. -/
def tcpFrame (dev : NetIf) (dstMac : Nat) (seg : TcpSegment) : Frame where
  bytes :=
    let m := putEth (fun _ => 0) dstMac dev.mac ETH_P_IP
    let m := putIp m (IP_HDR_LEN + TCP_HDR_LEN + seg.payload.length) IP_PROTO_TCP seg.srcIp seg.dstIp
    let m := storeBytes (storeBytes m 34 2 (ntohs seg.srcPort)) 36 2 (ntohs seg.dstPort)
    let m := storeBytes (storeBytes m 38 4 (ntohl seg.seq.toNat)) 42 4 (ntohl seg.ack.toNat)
    let m := storeBytes (storeBytes m 46 1 (TCP_HDR_LEN / 4 * 16)) 47 1 seg.flags.toNat
    let m := storeBytes m 48 2 (ntohs seg.window)
    let m := storeBytes (storeBytes m 50 2 0) 52 2 0
    putBytes m 54 seg.payload
  len := ETH_HDR_LEN + IP_HDR_LEN + TCP_HDR_LEN + seg.payload.length

namespace NetStack

def transmit (net : NetStack) (frame : Frame) : NetStack := { net with sent := net.sent ++ [frame] }

/-- The next result of `kmalloc`. -/
def kmalloc (net : NetStack) : NetStack × Bool :=
  ({ net with kmallocs := fun n => net.kmallocs (n + 1) }, net.kmallocs 0)

/-- `net_ifs[0]` where the source reads it unchecked; a null interface reads as zeros. -/
def dev0 (net : NetStack) : NetIf := net.netIf.getD ⟨0, 0, 0, 0⟩

/-! ## ARP -/

/-- The address the next hop of `ip` is looked up under. -/
def nextHop (net : NetStack) (ip : Nat) : Nat :=
  if ip &&& net.dev0.netmask ≠ net.dev0.ipAddr &&& net.dev0.netmask then net.dev0.gateway else ip

/-- The entry `arp_lookup` finds. -/
def arpEntry (net : NetStack) (ip : Nat) : Option ArpEntry :=
  net.arpCache.find? fun e => e.valid && e.ip == net.nextHop ip

/-- `arp_lookup`: the MAC, or a request for it. -/
def arpLookup (net : NetStack) (ip : Nat) : NetStack × Option Nat :=
  match net.arpEntry ip with
  | some e => (net, some e.mac)
  | none => (net.transmit (arpFrame net.dev0 ARP_REQUEST 0xFFFFFFFFFFFF 0 (net.nextHop ip)), none)

/-- The slot a reply is cached in: the address's own, or else the first invalid one. -/
def arpSlot (net : NetStack) (ip : Nat) : Option Nat :=
  (net.arpCache.findIdx? fun e => e.ip == ip).or (net.arpCache.findIdx? fun e => !e.valid)

def arpRx (net : NetStack) (dev : NetIf) (pkt : Mem) (now : Nat) : Rx NetStack := do
  let arp := ETH_HDR_LEN
  let hwType ← read16 pkt arp
  if hwType ≠ 1 then return net
  let protoType ← read16 pkt (arp + 2)
  if protoType ≠ ETH_P_IP then return net
  let opcode ← read16 pkt (arp + 6)
  if opcode = ARP_REQUEST then
    let targetIp ← readRaw pkt (arp + 24) 4
    if targetIp = dev.ipAddr then
      let senderMac ← readRaw pkt (arp + 8) 6
      let senderIp ← readRaw pkt (arp + 14) 4
      return net.transmit (arpFrame dev ARP_REPLY senderMac senderMac senderIp)
    else return net
  else if opcode = ARP_REPLY then
    let senderIp ← readRaw pkt (arp + 14) 4
    match net.arpSlot senderIp with
    | none => return net
    | some slot =>
      let senderMac ← readRaw pkt (arp + 8) 6
      return { net with arpCache := net.arpCache.set slot ⟨senderIp, senderMac, now, true⟩ }
  else return net

/-! ## ICMP -/

def icmpRx (net : NetStack) (dev : NetIf) (pkt : Mem) (ip data : Nat) : Rx NetStack := do
  let type ← read8 pkt data
  if type = ICMP_ECHO_REQUEST then
    let src ← readRaw pkt (ip + 12) 4
    match net.arpLookup src with
    | (net, none) => return net
    | (net, some dstMac) =>
      let dst ← readRaw pkt (ip + 16) 4
      let id ← readRaw pkt (data + 4) 2
      let seq ← readRaw pkt (data + 6) 2
      return net.transmit (icmpReplyFrame dev dstMac src dst id seq)
  else return net

end NetStack

/-! ## DNS responses -/

/-- The loop over a name's labels: it stops at the end, at a zero byte, or behind a
    compression pointer. -/
def skipLabels (pkt : Mem) (payload plen off : Nat) : Rx Nat :=
  if off < plen then do
    let label ← read8 pkt (payload + off)
    if label = 0 then return off
    else if label &&& 0xC0 = 0xC0 then return off + 2
    else skipLabels pkt payload plen (off + 1 + label)
  else return off
termination_by plen - off

/-- A name: its labels, then the zero byte if one is there. -/
def skipName (pkt : Mem) (payload plen off : Nat) : Rx Nat := do
  let off ← skipLabels pkt payload plen off
  if off < plen then
    let root ← read8 pkt (payload + off)
    return if root = 0 then off + 1 else off
  else return off

/-- The question section, of `qdcount` questions. -/
def skipQuestions (pkt : Mem) (payload plen : Nat) : Nat → Nat → Rx Nat
  | 0, off => return off
  | q + 1, off =>
    if off < plen then do
      let off ← skipName pkt payload plen off
      skipQuestions pkt payload plen q (off + 4)
    else return off

/-- The name of an answer record, which may be a compression pointer alone. -/
def skipAnswerName (pkt : Mem) (payload plen off : Nat) : Rx Nat := do
  let first ← read8 pkt (payload + off)
  if first &&& 0xC0 = 0xC0 then return off + 2 else skipName pkt payload plen off

/-- The answer section: the address of its first A record. -/
def findAnswer (pkt : Mem) (payload plen : Nat) : Nat → Nat → Rx (Option Nat)
  | 0, _ => return none
  | a + 1, off =>
    if off + 10 < plen then do
      let off ← skipAnswerName pkt payload plen off
      if off + 10 > plen then return none
      let rtype ← read16 pkt (payload + off)
      let rclass ← read16 pkt (payload + off + 2)
      let rdlen ← read16 pkt (payload + off + 8)
      if rtype = 1 ∧ rclass = 1 ∧ rdlen = 4 ∧ off + 10 + 4 ≤ plen then
        let ip ← read32 pkt (payload + off + 10)
        return some ip
      else findAnswer pkt payload plen a (off + 10 + rdlen)
    else return none

namespace NetStack

/-- The query a response is for. -/
def dnsSlot (net : NetStack) (id : Nat) : Option Nat :=
  net.dnsQueries.findIdx? fun q => q.inUse && !q.resolved && q.id == id

/-- The query resolved, if the response has an address for it. -/
def storeAnswer (net : NetStack) (slot : Nat) : Option Nat → NetStack
  | none => net
  | some ip =>
    { net with dnsQueries := net.dnsQueries.modify slot fun q => { q with resultIp := ip, resolved := true } }

/-- The part of `udp_rx` for a response from a DNS server. -/
def dnsRx (net : NetStack) (pkt : Mem) (payload plen : Nat) : Rx NetStack := do
  let id ← read16 pkt payload
  let flags ← read16 pkt (payload + 2)
  let ancount ← read16 pkt (payload + 6)
  if flags &&& 0x8000 = 0 ∨ flags &&& 0x000F ≠ 0 then return net
  match net.dnsSlot id with
  | none => return net
  | some slot =>
    let qdcount ← read16 pkt (payload + 4)
    let off ← skipQuestions pkt payload plen qdcount 12
    let answer ← findAnswer pkt payload plen ancount off
    return net.storeAnswer slot answer

/-! ## UDP and TCP -/

def udpRx (net : NetStack) (pkt : Mem) (data len : Nat) : Rx NetStack := do
  if len < UDP_HDR_LEN then return net
  let srcPort ← read16 pkt data
  let _dstPort ← read16 pkt (data + 2)
  let plen ← read16 pkt (data + 4)
  if plen < UDP_HDR_LEN then return net
  if srcPort = DNS_PORT ∧ plen - UDP_HDR_LEN ≥ 12 then
    net.dnsRx pkt (data + UDP_HDR_LEN) (plen - UDP_HDR_LEN)
  else return net

/-- `tcp_send_segment` from the interface on: the packet is built and handed to the
    driver, unless there is no interface, no buffer or no MAC. -/
def transmitSegment (net : NetStack) (seg : TcpSegment) : NetStack :=
  match net.netIf with
  | none => net
  | some dev =>
    match net.kmalloc with
    | (net, false) => net
    | (net, true) =>
      match net.arpLookup seg.dstIp with
      | (net, none) => net
      | (net, some dstMac) => net.transmit (tcpFrame dev dstMac seg)

/-- What `tcp_rx` does with a segment once it is read. -/
def tcpRxSegment (net : NetStack) (seg : TcpSegment) (us ms : Nat) : NetStack :=
  let out := tcpRxTable net.tcpSockets seg us ms
  out.2.foldl transmitSegment { net with tcpSockets := out.1 }

end NetStack

/-- The socket a segment is for. -/
def NetStack.receiver (net : NetStack) (seg : TcpSegment) : Option TcpSocket :=
  (findSocket net.tcpSockets seg).bind fun i => net.tcpSockets[i]?

/-- The bytes of the payload that `tcp_rx` copies. -/
def copiedBytes (net : NetStack) (seg : TcpSegment) : Nat :=
  match net.receiver seg with
  | some s => if s.state.takesData then rxAccepted s seg else 0
  | none => 0

namespace NetStack

def tcpRx (net : NetStack) (pkt : Mem) (ip data len us ms : Nat) : Rx NetStack := do
  let srcPort ← read16 pkt data
  let dstPort ← read16 pkt (data + 2)
  let dataOff ← read8 pkt (data + 12)
  let seq ← read32 pkt (data + 4)
  let ack ← read32 pkt (data + 8)
  let flags ← read8 pkt (data + 13)
  let window ← read16 pkt (data + 14)
  let srcIp ← readRaw pkt (ip + 12) 4
  let tcpHlen := dataOff / 16 * 4
  let seg : TcpSegment :=
    { srcIp := srcIp
      dstIp := loadBytes pkt (ip + 16) 4
      srcPort := srcPort
      dstPort := dstPort
      seq := UInt32.ofNat seq
      ack := UInt32.ofNat ack
      flags := BitVec.ofNat 8 flags
      window := window
      payload := bytesAt pkt (data + tcpHlen) ((len + 2 ^ 16 - tcpHlen) % 2 ^ 16) }
  readBlock (data + tcpHlen) (copiedBytes net seg)
  return net.tcpRxSegment seg us ms

end NetStack

/-! ## IPv4 -/

/-- What `ip_rx` takes from the IPv4 header: its length in bytes, the fields it converts,
    and the addresses as they stand in the packet. -/
structure IpHeader where
  ihl : Nat
  totalLen : Nat
  id : Nat
  fragOff : Nat
  protocol : Nat
  src : Nat
  dst : Nat
deriving DecidableEq, Repr

/-- `total_len - ihl`, in 16 bits -/
def IpHeader.payloadLen (h : IpHeader) : Nat := (h.totalLen + 2 ^ 16 - h.ihl) % 2 ^ 16

/-- The place of a fragment in its datagram. -/
def IpHeader.offset (h : IpHeader) : Nat := (h.fragOff &&& 0x1FFF) * 8

/-- More fragments, or a fragment offset. -/
def IpHeader.fragmented (h : IpHeader) : Bool := h.fragOff &&& 0x3FFF != 0

/-- The slot is a datagram's: the four fields `ip_rx` compares. -/
def IpFrag.holds (f : IpFrag) (h : IpHeader) : Bool :=
  f.src == h.src && f.dst == h.dst && f.id == h.id && f.protocol == h.protocol

/-- A slot before the copy: a free one is given to the datagram. -/
def IpFrag.claim (f : IpFrag) (h : IpHeader) (now : Nat) : IpFrag :=
  if f.active then f
  else
    { f with
      active := true
      src := h.src
      dst := h.dst
      id := h.id
      protocol := h.protocol
      received := 0
      timestamp := now }

/-- A slot after the copy. -/
def IpFrag.store (f : IpFrag) (h : IpHeader) (pkt : Mem) : IpFrag :=
  { f with
    buf := copyBytes f.buf h.offset pkt (ETH_HDR_LEN + h.ihl) h.payloadLen
    received := (f.received + h.payloadLen) % 2 ^ 16
    total := if h.fragOff &&& 0x2000 = 0 then (h.offset + h.payloadLen) % 2 ^ 16 else f.total }

namespace NetStack

/-- The slot a fragment goes to: the first one that is free or holds its datagram. -/
def fragSlot (net : NetStack) (h : IpHeader) : Option Nat :=
  net.ipFrags.findIdx? fun f => !f.active || f.holds h

/-- `ip_rx` on a fragment. -/
def fragRx (net : NetStack) (pkt : Mem) (h : IpHeader) (now : Nat) : Rx NetStack :=
  match net.fragSlot h with
  | none => return net
  | some i => do
    readBlock (ETH_HDR_LEN + h.ihl) h.payloadLen
    writeFrag h.offset h.payloadLen
    return { net with ipFrags := net.ipFrags.modify i fun f => (f.claim h now).store h pkt }

/-- `ip_rx` on a whole datagram. -/
def protocolRx (net : NetStack) (dev : NetIf) (pkt : Mem) (h : IpHeader) (us ms : Nat) : Rx NetStack :=
  let payload := ETH_HDR_LEN + h.ihl
  let call : UpperCall := ⟨h.src, h.dst, h.id, h.protocol, bytesAt pkt payload h.payloadLen⟩
  if h.protocol = IP_PROTO_ICMP then do
    Traced.emit (.upper call)
    net.icmpRx dev pkt ETH_HDR_LEN payload
  else if h.protocol = IP_PROTO_UDP then do
    Traced.emit (.upper call)
    net.udpRx pkt payload h.payloadLen
  else if h.protocol = IP_PROTO_TCP then do
    Traced.emit (.upper call)
    net.tcpRx pkt ETH_HDR_LEN payload h.payloadLen us ms
  else return net

/-- `ip_rx` -/
def ipRx (net : NetStack) (dev : NetIf) (pkt : Mem) (len us ms : Nat) : Rx NetStack := do
  if len < ETH_HDR_LEN + IP_HDR_LEN then return net
  let ip := ETH_HDR_LEN
  let verIhl ← read8 pkt ip
  let ihl := verIhl % 16 * 4
  let totalLen ← read16 pkt (ip + 2)
  if verIhl / 16 ≠ 4 then return net
  let sum ← readChecksum pkt ip ihl
  if sum ≠ 0 then return net
  let fragOff ← read16 pkt (ip + 6)
  let src ← readRaw pkt (ip + 12) 4
  let dst ← readRaw pkt (ip + 16) 4
  let id ← read16 pkt (ip + 4)
  let protocol ← read8 pkt (ip + 9)
  let h : IpHeader :=
    { ihl := ihl
      totalLen := totalLen
      id := id
      fragOff := fragOff
      protocol := protocol
      src := src
      dst := dst }
  if h.fragmented then net.fragRx pkt h ms else net.protocolRx dev pkt h us ms

/-! ## Ethernet -/

/-- The dispatch on a frame's type. -/
def dispatch (net : NetStack) (dev : NetIf) (type : Nat) (pkt : Mem) (len us ms : Nat) : Rx NetStack :=
  if type = ETH_P_ARP then net.arpRx dev pkt ms
  else if type = ETH_P_IP then net.ipRx dev pkt len us ms
  else return net

/-- `net_rx_packet` -/
def netRxPacket (net : NetStack) (dev : NetIf) (pkt : Mem) (len us ms : Nat) : Rx NetStack := do
  if len < ETH_HDR_LEN then return net
  let type ← read16 pkt 12
  if type = ETH_P_VLAN then
    if len < ETH_VLAN_HDR_LEN then return net
    let type ← read16 pkt 16
    net.dispatch dev type pkt len us ms
  else net.dispatch dev type pkt len us ms

/-- `net_rx_frame` -/
def netRxFrame (net : NetStack) (dev : NetIf) (pkt : Mem) (len us ms : Nat) : Rx NetStack := do
  if len < ETH_HDR_LEN then return net
  let type ← read16 pkt 12
  net.dispatch dev type pkt len us ms

end NetStack

end Crimson.Net
