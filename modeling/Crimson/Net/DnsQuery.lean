import Crimson.Lib.DnsMessage
import Crimson.Net.Receive

/-!
# The DNS query (`net.c`)

`net_dns_resolve` up to its first `udp_send_raw`: it takes a query slot and builds the
query in 512 bytes on its stack. Each byte goes to `pkt[off++]`, so the packet is the bytes
in the order they are written, and nothing but the number of bytes decides whether one is
written outside.
-/

set_option autoImplicit false

namespace Crimson.Net

open Crimson.Lib

def DNS_PKT_SIZE : Nat := 512

/-- `'.'` -/
def DOT : Byte := 46

/-- A host name is the bytes of the string before its zero byte. -/
abbrev HostName := List Byte

/-! ## The packet -/

/-- `pkt` and `off`. -/
structure DnsPkt where
  bytes : Mem
  off : Nat

/-- The indices of `pkt` that are written. -/
abbrev Tx (α : Type) := Traced Nat α

/-- `pkt[off++] = b` -/
def DnsPkt.put (p : DnsPkt) (b : Byte) : Tx DnsPkt :=
  ⟨{ bytes := Function.update p.bytes p.off b, off := p.off + 1 }, [p.off]⟩

/-- Bytes written one after the other. -/
def DnsPkt.putAll (p : DnsPkt) : List Byte → Tx DnsPkt
  | [] => return p
  | b :: bs => do
    let p ← p.put b
    p.putAll bs

/-- The first label of what is left of a host name. -/
def firstLabel (h : HostName) : List Byte := h.takeWhile (· ≠ DOT)

/-- What is left behind the first label and its dot. -/
def behindLabel (h : HostName) : HostName := (h.dropWhile (· ≠ DOT)).drop 1

theorem behindLabel_length (b : Byte) (bs : HostName) : (behindLabel (b :: bs)).length < (b :: bs).length := by
  unfold behindLabel
  rw [List.length_drop]
  have hle : ((b :: bs).dropWhile (· ≠ DOT)).length ≤ (b :: bs).length := (List.dropWhile_sublist _).length_le
  rw [List.length_cons] at hle ⊢
  omega

/-- The labels of a host name, each with its length in 8 bits. -/
def DnsPkt.putLabels (p : DnsPkt) : HostName → Tx DnsPkt
  | [] => return p
  | b :: bs => do
    let label := firstLabel (b :: bs)
    let llen := label.length % 256
    let p ← p.put (BitVec.ofNat 8 llen)
    let p ← p.putAll (label.take llen)
    p.putLabels (behindLabel (b :: bs))
termination_by h => h.length
decreasing_by exact behindLabel_length b bs

/-- The header: the identifier, RD, and one question. -/
def dnsHeader (qid : BitVec 16) : List Byte :=
  [(qid >>> 8).truncate 8, qid.truncate 8, 0x01, 0x00, 0x00, 0x01, 0x00, 0x00, 0x00, 0x00, 0x00, 0x00]

/-- The root label, type A and class IN. -/
def dnsTail : List Byte := [0x00, 0x00, 0x01, 0x00, 0x01]

/-- The query, in a buffer that holds `stack`. -/
def dnsQueryPkt (stack : Mem) (qid : BitVec 16) (hostname : HostName) : Tx DnsPkt := do
  let p ← DnsPkt.putAll ⟨stack, 0⟩ (dnsHeader qid)
  let p ← p.putLabels hostname
  p.putAll dnsTail

/-! ## `net_dns_resolve` -/

/-- `*p == '.' || ('0' <= *p && *p <= '9')` for every character -/
def allDigits (hostname : HostName) : Bool := hostname.all fun c => c == DOT || (48 ≤ c && c ≤ 57)

/-- The static data `net_dns_resolve` uses; `dns1` is that of the first interface. -/
structure DnsResolver where
  numNetIfs : Nat
  dns1 : Nat
  queries : List DnsQuery
  nextId : BitVec 16

/-- How a call comes to its wait, or ends before. -/
inductive DnsStart where
  /-- 0 is returned. -/
  | failed
  /-- The string is taken for an address; no query is sent. -/
  | numeric
  /-- The arguments of `udp_send_raw`. -/
  | sent (server srcPort dstPort : Nat) (pkt : DnsPkt) (len : Nat)

/-- The slot a query gets. -/
def DnsResolver.freeSlot (r : DnsResolver) : Option Nat := r.queries.findIdx? fun q => !q.inUse

/-- `net_dns_resolve` up to its first `udp_send_raw`. -/
def netDnsResolve (r : DnsResolver) (stack : Mem) (hostname : HostName) : Tx (DnsResolver × DnsStart) :=
  if r.numNetIfs = 0 then return (r, .failed)
  else if allDigits hostname then return (r, .numeric)
  else
    match r.freeSlot with
    | none => return (r, .failed)
    | some slot => do
      let r' := { r with
        nextId := r.nextId + 1
        queries := r.queries.set slot ⟨r.nextId.toNat, 0, false, true⟩ }
      let pkt ← dnsQueryPkt stack r.nextId hostname
      let server := if r.dns1 ≠ 0 then r.dns1 else 0x08080808
      return (r', .sent (ntohl server) (1024 + slot) DNS_PORT pkt (pkt.off % 2 ^ 16))

/-! ## The bytes of the query -/

/-- The labels of a host name: what stands between the dots. A dot at the end ends the last
    label and begins none. -/
def labelsOf : HostName → List (List Byte)
  | [] => []
  | b :: bs =>
    if b = DOT then [] :: labelsOf bs
    else
      match labelsOf bs with
      | [] => [[b]]
      | l :: ls => (b :: l) :: ls

/-- A label as it is written: its length in 8 bits, and as many of its bytes. -/
def labelBytes (label : List Byte) : List Byte :=
  BitVec.ofNat 8 (label.length % 256) :: label.take (label.length % 256)

/-- The query as bytes. -/
def queryBytes (qid : BitVec 16) (hostname : HostName) : List Byte :=
  dnsHeader qid ++ (labelsOf hostname).flatMap labelBytes ++ dnsTail

theorem labelsOf_cons (b : Byte) (bs : HostName) :
    labelsOf (b :: bs) = firstLabel (b :: bs) :: labelsOf (behindLabel (b :: bs)) := by
  induction bs generalizing b with
  | nil =>
    by_cases hb : b = DOT
    · simp [labelsOf, firstLabel, behindLabel, hb]
    · simp [labelsOf, firstLabel, behindLabel, hb]
  | cons c cs ih =>
    by_cases hb : b = DOT
    · simp [labelsOf, firstLabel, behindLabel, hb]
    · have hfirst : firstLabel (b :: c :: cs) = b :: firstLabel (c :: cs) := by simp [firstLabel, hb]
      have hbehind : behindLabel (b :: c :: cs) = behindLabel (c :: cs) := by simp [behindLabel, hb]
      rw [labelsOf, if_neg hb, ih, hfirst, hbehind]

theorem putAll_append (p : DnsPkt) (bs cs : List Byte) :
    p.putAll (bs ++ cs) = p.putAll bs >>= fun q => q.putAll cs := by
  induction bs generalizing p with
  | nil => rfl
  | cons b bs ih =>
    show p.put b >>= (fun q => q.putAll (bs ++ cs)) = (p.put b >>= fun q => q.putAll bs) >>= fun q => q.putAll cs
    rw [Traced.bind_assoc]
    simp only [ih]

/-- The loop over the labels writes their bytes. -/
theorem putLabels_eq (p : DnsPkt) (h : HostName) : p.putLabels h = p.putAll ((labelsOf h).flatMap labelBytes) := by
  induction hn : h.length using Nat.strong_induction_on generalizing p h with
  | _ n ih =>
    cases h with
    | nil =>
      rw [DnsPkt.putLabels]
      rfl
    | cons b bs =>
      have hrest : ∀ q : DnsPkt, q.putLabels (behindLabel (b :: bs)) =
          q.putAll ((labelsOf (behindLabel (b :: bs))).flatMap labelBytes) :=
        fun q => ih _ (hn ▸ behindLabel_length b bs) q _ rfl
      rw [DnsPkt.putLabels, labelsOf_cons, List.flatMap_cons, labelBytes, List.cons_append]
      simp only [hrest]
      show _ = p.put _ >>= fun q => q.putAll _
      simp only [putAll_append]

theorem dnsQueryPkt_eq (stack : Mem) (qid : BitVec 16) (hostname : HostName) :
    dnsQueryPkt stack qid hostname = DnsPkt.putAll ⟨stack, 0⟩ (queryBytes qid hostname) := by
  rw [queryBytes, putAll_append, putAll_append, Traced.bind_assoc, dnsQueryPkt]
  simp only [putLabels_eq]

/-- What is written, and where. -/
theorem putAll_trace (p : DnsPkt) (bs : List Byte) : (p.putAll bs).trace = List.range' p.off bs.length := by
  induction bs generalizing p with
  | nil => rfl
  | cons b bs ih =>
    show p.off :: (DnsPkt.putAll _ bs).trace = _
    rw [ih, List.length_cons, List.range'_succ]
    rfl

theorem putAll_off (p : DnsPkt) (bs : List Byte) : (p.putAll bs).val.off = p.off + bs.length := by
  induction bs generalizing p with
  | nil => rfl
  | cons b bs ih =>
    show (DnsPkt.putAll _ bs).val.off = _
    rw [ih, List.length_cons]
    show p.off + 1 + bs.length = _
    omega

theorem putAll_before (p : DnsPkt) (bs : List Byte) {i : Nat} (h : i < p.off) :
    (p.putAll bs).val.bytes i = p.bytes i := by
  induction bs generalizing p with
  | nil => rfl
  | cons b bs ih =>
    show (DnsPkt.putAll _ bs).val.bytes i = _
    rw [ih _ (Nat.lt_succ_of_lt h)]
    exact Function.update_of_ne (Nat.ne_of_lt h) b p.bytes

theorem putAll_bytes (p : DnsPkt) (bs : List Byte) {i : Nat} (h : i < bs.length) :
    (p.putAll bs).val.bytes (p.off + i) = bs[i] := by
  induction bs generalizing p i with
  | nil => cases h
  | cons b bs ih =>
    show (DnsPkt.putAll ⟨Function.update p.bytes p.off b, p.off + 1⟩ bs).val.bytes (p.off + i) = _
    cases i with
    | zero =>
      rw [putAll_before _ bs (Nat.lt_succ_self p.off)]
      exact Function.update_self p.off b p.bytes
    | succ i =>
      have hnext := ih ⟨Function.update p.bytes p.off b, p.off + 1⟩ (Nat.lt_of_succ_lt_succ h)
      have haddr : p.off + (i + 1) = p.off + 1 + i := by omega
      rw [haddr, List.getElem_cons_succ]
      exact hnext

/-! ## Its size -/

/-- The bytes of a query: the header, each label as far as its 8-bit length goes, and the end. -/
def querySize (hostname : HostName) : Nat := 17 + ((labelsOf hostname).map fun l => 1 + l.length % 256).sum

theorem length_labelBytes (label : List Byte) : (labelBytes label).length = 1 + label.length % 256 := by
  have hle : label.length % 256 ≤ label.length := Nat.mod_le _ _
  rw [labelBytes, List.length_cons, List.length_take, Nat.min_eq_left hle, Nat.add_comm]

theorem length_queryBytes (qid : BitVec 16) (hostname : HostName) : (queryBytes qid hostname).length = querySize hostname := by
  have hlabels : ((labelsOf hostname).flatMap labelBytes).length =
      ((labelsOf hostname).map fun l => 1 + l.length % 256).sum := by
    rw [List.length_flatMap]
    simp only [length_labelBytes]
  rw [queryBytes, List.length_append, List.length_append, hlabels, querySize]
  show 12 + _ + 5 = _
  omega

/-- No byte of the query is written outside `pkt` exactly when it is no longer than that. -/
theorem dnsQueryPkt_inside_iff (stack : Mem) (qid : BitVec 16) (hostname : HostName) :
    (dnsQueryPkt stack qid hostname).All (· < DNS_PKT_SIZE) ↔ querySize hostname ≤ DNS_PKT_SIZE := by
  rw [dnsQueryPkt_eq, Traced.All, putAll_trace, length_queryBytes]
  have hpos : 0 < querySize hostname := by
    unfold querySize
    omega
  constructor
  · intro h
    have hlast := h (querySize hostname - 1) (List.mem_range'_1.mpr ⟨Nat.zero_le _, by omega⟩)
    omega
  · intro h off hoff
    have hlt : off < 0 + querySize hostname := (List.mem_range'_1.mp hoff).2
    show off < DNS_PKT_SIZE
    omega

/-! ## Its question -/

/-- The host name is the labels, separated by single dots, and at most 253 characters. -/
structure HostLabels (hostname : HostName) (labels : List (List Byte)) : Prop where
  joined : hostname = List.intercalate [DOT] labels
  valid : Dns.ValidLabels labels
  noDots : ∀ l ∈ labels, DOT ∉ l
  short : hostname.length ≤ 253

theorem labelsOf_dot {l : List Byte} (h : DOT ∉ l) (rest : HostName) :
    labelsOf (l ++ DOT :: rest) = l :: labelsOf rest := by
  induction l with
  | nil => simp [labelsOf]
  | cons b l ih =>
    obtain ⟨hb, hl⟩ := not_or.mp (mt List.mem_cons.mpr h)
    rw [List.cons_append, labelsOf, if_neg fun heq => hb heq.symm, ih hl]

theorem labelsOf_single {l : List Byte} (h : DOT ∉ l) (hne : l ≠ []) : labelsOf l = [l] := by
  induction l with
  | nil => exact absurd rfl hne
  | cons b l ih =>
    obtain ⟨hb, hl⟩ := not_or.mp (mt List.mem_cons.mpr h)
    rw [labelsOf, if_neg fun heq => hb heq.symm]
    cases l with
    | nil => rfl
    | cons c cs => rw [ih hl (List.cons_ne_nil c cs)]

/-- The labels of a joined host name are those it was joined from. -/
theorem labelsOf_intercalate {labels : List (List Byte)} (hv : Dns.ValidLabels labels)
    (hdots : ∀ l ∈ labels, DOT ∉ l) : labelsOf (List.intercalate [DOT] labels) = labels := by
  induction labels with
  | nil => rfl
  | cons l ls ih =>
    have hl := hdots l List.mem_cons_self
    have hne : l ≠ [] := List.ne_nil_of_length_pos (hv l List.mem_cons_self).1
    cases ls with
    | nil =>
      have hone : List.intercalate [DOT] [l] = l := by simp [List.intercalate]
      rw [hone, labelsOf_single hl hne]
    | cons k ks =>
      have hmore : List.intercalate [DOT] (l :: k :: ks) = l ++ DOT :: List.intercalate [DOT] (k :: ks) := by
        simp [List.intercalate]
      rw [hmore, labelsOf_dot hl, ih (fun j hj => hv j (List.mem_cons_of_mem l hj))
        fun j hj => hdots j (List.mem_cons_of_mem l hj)]

theorem HostLabels.labelsOf {hostname : HostName} {labels : List (List Byte)} (h : HostLabels hostname labels) :
    labelsOf hostname = labels := by
  rw [h.joined]
  exact labelsOf_intercalate h.valid h.noDots

/-- A valid label is written whole. -/
theorem flatMap_labelBytes {labels : List (List Byte)} (hv : Dns.ValidLabels labels) :
    labels.flatMap labelBytes ++ dnsTail = Dns.nameBytes labels ++ [0x00, 0x01, 0x00, 0x01] := by
  have hwhole : labels.flatMap labelBytes = labels.flatMap fun l => BitVec.ofNat 8 l.length :: l := by
    refine List.flatMap_congr fun l hl => ?_
    have hmod : l.length % 256 = l.length := Nat.mod_eq_of_lt (Nat.lt_of_le_of_lt (hv l hl).2 (by decide))
    rw [labelBytes, hmod, List.take_length]
  rw [hwhole, Dns.nameBytes, List.append_assoc]
  rfl

/-- A name and its dots are as long as the string and one more. -/
theorem length_nameBytes_le {labels : List (List Byte)} :
    (Dns.nameBytes labels).length ≤ (List.intercalate [DOT] labels).length + 2 := by
  induction labels with
  | nil => simp [Dns.nameBytes]
  | cons l ls ih =>
    have hcons : (Dns.nameBytes (l :: ls)).length = 1 + l.length + (Dns.nameBytes ls).length := by
      simp only [Dns.nameBytes, List.flatMap_cons, List.cons_append, List.length_cons, List.length_append]
      omega
    cases ls with
    | nil =>
      have hone : List.intercalate [DOT] [l] = l := by simp [List.intercalate]
      rw [hcons, hone]
      show 1 + l.length + 1 ≤ _
      omega
    | cons k ks =>
      have hmore : (List.intercalate [DOT] (l :: k :: ks)).length =
          l.length + 1 + (List.intercalate [DOT] (k :: ks)).length := by
        simp only [List.intercalate, List.intersperse_cons_cons, List.flatten_cons, List.length_append]
        simp
        omega
      rw [hcons, hmore]
      omega

/-- The query for a proper host name: its bytes, and that they fit. -/
theorem HostLabels.query {hostname : HostName} {labels : List (List Byte)} (h : HostLabels hostname labels)
    (qid : BitVec 16) :
    queryBytes qid hostname = dnsHeader qid ++ Dns.nameBytes labels ++ [0x00, 0x01, 0x00, 0x01] ∧
      (queryBytes qid hostname).length = 16 + (Dns.nameBytes labels).length ∧
      16 + (Dns.nameBytes labels).length ≤ DNS_PKT_SIZE := by
  have hbytes : queryBytes qid hostname = dnsHeader qid ++ Dns.nameBytes labels ++ [0x00, 0x01, 0x00, 0x01] := by
    rw [queryBytes, h.labelsOf, List.append_assoc, flatMap_labelBytes h.valid, ← List.append_assoc]
  have hlen : (queryBytes qid hostname).length = 16 + (Dns.nameBytes labels).length := by
    rw [hbytes, List.length_append, List.length_append]
    show 12 + _ + 4 = _
    omega
  have hshort := h.short
  have hle := @length_nameBytes_le labels
  rw [← h.joined] at hle
  refine ⟨hbytes, hlen, ?_⟩
  show _ ≤ 512
  omega

theorem word_of_holds {m : Mem} {a : Nat} {hi lo : Byte} {bs : List Byte} (h : Dns.Holds m a (hi :: lo :: bs)) :
    Dns.word m a = hi.toNat * 256 + lo.toNat := by
  obtain ⟨hhi, hrest⟩ := Dns.holds_cons.mp h
  obtain ⟨hlo, -⟩ := Dns.holds_cons.mp hrest
  rw [Dns.word, hhi, hlo]

/-- The packet holds the bytes of the query. -/
theorem dnsQueryPkt_holds (stack : Mem) (qid : BitVec 16) (hostname : HostName) :
    Dns.Holds (dnsQueryPkt stack qid hostname).val.bytes 0 (queryBytes qid hostname) ∧
      (dnsQueryPkt stack qid hostname).val.off = (queryBytes qid hostname).length := by
  rw [dnsQueryPkt_eq]
  constructor
  · refine List.ext_getElem (by simp) fun i hi hi' => ?_
    have hbyte := putAll_bytes ⟨stack, 0⟩ (queryBytes qid hostname) hi'
    simp only [Dns.slice, List.getElem_map, List.getElem_range]
    exact hbyte
  · rw [putAll_off]
    exact Nat.zero_add _

/-- The query for a proper host name asks for its address. -/
theorem HostLabels.asks {hostname : HostName} {labels : List (List Byte)} (h : HostLabels hostname labels)
    (stack : Mem) (qid : BitVec 16) :
    Dns.word (dnsQueryPkt stack qid hostname).val.bytes 4 = 1 ∧
      Dns.Asks (dnsQueryPkt stack qid hostname).val.bytes (16 + (Dns.nameBytes labels).length) 12 labels 1 1 ∧
      (dnsQueryPkt stack qid hostname).val.off = 16 + (Dns.nameBytes labels).length := by
  obtain ⟨hholds, hoff⟩ := dnsQueryPkt_holds stack qid hostname
  obtain ⟨hbytes, hlen, -⟩ := h.query qid
  rw [hlen] at hoff
  rw [hbytes, Dns.holds_append, Dns.holds_append] at hholds
  generalize (dnsQueryPkt stack qid hostname).val.bytes = m at hholds
  obtain ⟨⟨hheader, hname⟩, hend⟩ := hholds
  have hcount : Dns.word m 4 = 1 := by
    have hcut : Dns.Holds m 0 ((dnsHeader qid).take 4 ++ (dnsHeader qid).drop 4) := hheader
    exact word_of_holds (Dns.holds_append.mp hcut).2
  have haddr : 0 + (dnsHeader qid ++ Dns.nameBytes labels).length = 12 + (Dns.nameBytes labels).length := by
    rw [List.length_append, Nat.zero_add]
    rfl
  rw [haddr] at hend
  refine ⟨hcount, ⟨12 + (Dns.nameBytes labels).length, ?_, ?_, ?_, by omega⟩, hoff⟩
  · exact Dns.nameAt_nameBytes h.valid hname (by omega)
  · exact (word_of_holds hend).trans (by decide)
  · obtain ⟨-, hrest⟩ := Dns.holds_cons.mp hend
    obtain ⟨-, hcls⟩ := Dns.holds_cons.mp hrest
    exact (word_of_holds hcls).trans (by decide)

/-! ## The call -/

/-- The call comes to building a query. -/
def Queries (r : DnsResolver) (hostname : HostName) : Prop :=
  r.numNetIfs ≠ 0 ∧ allDigits hostname = false ∧ r.freeSlot.isSome = true

/-- Nothing is written outside `pkt`; and a query for a proper host name has one question,
    which is for its labels, type A and class IN, and for nothing else. -/
structure QuerySound (r : DnsResolver) (stack : Mem) (hostname : HostName) : Prop where
  inside : (netDnsResolve r stack hostname).All (· < DNS_PKT_SIZE)
  question : ∀ labels, HostLabels hostname labels →
    ∀ server srcPort dstPort pkt len, (netDnsResolve r stack hostname).val.2 = .sent server srcPort dstPort pkt len →
      Dns.word pkt.bytes 4 = 1 ∧
        ∀ labels' type cls, Dns.Asks pkt.bytes len 12 labels' type cls ↔ labels' = labels ∧ type = 1 ∧ cls = 1

theorem netDnsResolve_queries {r : DnsResolver} {hostname : HostName} (stack : Mem) (h : Queries r hostname) :
    (netDnsResolve r stack hostname).trace = (dnsQueryPkt stack r.nextId hostname).trace ∧
      ∃ server srcPort dstPort, (netDnsResolve r stack hostname).val.2 =
        .sent server srcPort dstPort (dnsQueryPkt stack r.nextId hostname).val
          ((dnsQueryPkt stack r.nextId hostname).val.off % 2 ^ 16) := by
  obtain ⟨hif, hdigits, hslot⟩ := h
  obtain ⟨slot, hslot⟩ := Option.isSome_iff_exists.mp hslot
  have hno : ¬ allDigits hostname = true := by rw [hdigits]; exact Bool.false_ne_true
  rw [netDnsResolve, if_neg hif, if_neg hno, hslot]
  exact ⟨List.append_nil _, _, _, _, rfl⟩

/-- A call that builds no query writes nothing and sends nothing. -/
theorem netDnsResolve_none {r : DnsResolver} {hostname : HostName} (stack : Mem) (h : ¬ Queries r hostname) :
    (netDnsResolve r stack hostname).trace = [] ∧ ∀ server srcPort dstPort pkt len,
      (netDnsResolve r stack hostname).val.2 ≠ .sent server srcPort dstPort pkt len := by
  unfold netDnsResolve
  split
  · exact ⟨rfl, fun _ _ _ _ _ hs => DnsStart.noConfusion hs⟩
  · rename_i hif
    split
    · exact ⟨rfl, fun _ _ _ _ _ hs => DnsStart.noConfusion hs⟩
    · rename_i hdigits
      cases hslot : r.freeSlot with
      | none => exact ⟨rfl, fun _ _ _ _ _ hs => DnsStart.noConfusion hs⟩
      | some slot => exact absurd ⟨hif, eq_false_of_ne_true hdigits, by rw [hslot]; rfl⟩ h

theorem inside_iff {r : DnsResolver} {hostname : HostName} (stack : Mem) (h : Queries r hostname) :
    (netDnsResolve r stack hostname).All (· < DNS_PKT_SIZE) ↔ querySize hostname ≤ DNS_PKT_SIZE := by
  rw [← dnsQueryPkt_inside_iff stack r.nextId hostname, Traced.All, (netDnsResolve_queries stack h).1]
  rfl

/-- The query for a proper host name is read as what it was built from. -/
theorem HostLabels.question {r : DnsResolver} {hostname : HostName} {labels : List (List Byte)}
    (h : HostLabels hostname labels) {stack : Mem} {server srcPort dstPort len : Nat} {pkt : DnsPkt}
    (hq : Queries r hostname) (hs : (netDnsResolve r stack hostname).val.2 = .sent server srcPort dstPort pkt len) :
    Dns.word pkt.bytes 4 = 1 ∧
      ∀ labels' type cls, Dns.Asks pkt.bytes len 12 labels' type cls ↔ labels' = labels ∧ type = 1 ∧ cls = 1 := by
  obtain ⟨-, server, srcPort, dstPort, hsent⟩ := netDnsResolve_queries stack hq
  obtain ⟨-, -, -, rfl, rfl⟩ := DnsStart.sent.inj (hsent.symm.trans hs)
  obtain ⟨hcount, hasks, hoff⟩ := h.asks stack r.nextId
  obtain ⟨-, -, hfit⟩ := h.query r.nextId
  have hlen : (dnsQueryPkt stack r.nextId hostname).val.off % 2 ^ 16 = 16 + (Dns.nameBytes labels).length := by
    rw [hoff]
    exact Nat.mod_eq_of_lt (Nat.lt_of_le_of_lt hfit (by decide))
  rw [hlen]
  refine ⟨hcount, fun labels' type cls => ⟨hasks.unique, ?_⟩⟩
  rintro ⟨rfl, rfl, rfl⟩
  exact hasks

/-- **Where the query is sound**: exactly where the packet is no longer than its 512 bytes. -/
theorem netDnsResolve_sound_iff (r : DnsResolver) (stack : Mem) (hostname : HostName) :
    QuerySound r stack hostname ↔ (Queries r hostname → querySize hostname ≤ DNS_PKT_SIZE) := by
  by_cases hq : Queries r hostname
  · constructor
    · exact fun h _ => (inside_iff stack hq).mp h.inside
    · intro h
      exact ⟨(inside_iff stack hq).mpr (h hq), fun labels hlabels _ _ _ _ _ hs => hlabels.question hq hs⟩
  · obtain ⟨htrace, hnone⟩ := netDnsResolve_none stack hq
    refine iff_of_true ⟨?_, ?_⟩ fun h => absurd h hq
    · rw [Traced.All, htrace]
      intro off hoff
      cases hoff
    · intro labels _ server srcPort dstPort pkt len hs
      exact absurd hs (hnone server srcPort dstPort pkt len)

/-- Eight labels of 63 times the letter `a`. -/
def longHost : HostName := List.intercalate [DOT] (List.replicate 8 (List.replicate 63 97))

/-- One interface and no query yet. -/
def freshResolver : DnsResolver := ⟨1, 0, List.replicate DNS_MAX_QUERIES ⟨0, 0, false, false⟩, 0x1234⟩

/-- The query for a long host name overruns the packet. -/
theorem longHost_overruns :
    allDigits longHost = false ∧
      ¬ (netDnsResolve freshResolver (fun _ => 0) longHost).All (· < DNS_PKT_SIZE) := by
  have hlabels : labelsOf longHost = List.replicate 8 (List.replicate 63 97) := by
    apply labelsOf_intercalate
    · intro l hl
      rw [List.eq_of_mem_replicate hl, List.length_replicate]
      decide
    · intro l hl hdot
      rw [List.eq_of_mem_replicate hl] at hdot
      exact absurd (List.eq_of_mem_replicate hdot) (by decide)
  have hsize : querySize longHost = 529 := by
    rw [querySize, hlabels]
    simp
  have hdigits : allDigits longHost = false := by decide +kernel
  have hq : Queries freshResolver longHost := ⟨by decide, hdigits, by decide⟩
  refine ⟨hdigits, fun h => ?_⟩
  have hle := (inside_iff (fun _ => 0) hq).mp h
  rw [hsize] at hle
  exact absurd hle (by decide)

end Crimson.Net
