import Crimson.Net.Receive
import Crimson.Lib.Walk

/-!
# What the receive path reads

`InBounds len` is the rule for one event: a byte of the packet is read below its length,
a byte of a fragment buffer is written below the buffer's size. The functions test few of
the length fields of a packet, so the rule is a condition on the packet: `ArpFits`,
`IcmpFits`, `UdpFits`, `TcpFits` and `IpFits` say, function by function, which fields must
lie inside, and each is exactly what its function needs.

The DNS parser believes the length field of the UDP header. What it inspects is given by
a walk over the message (`DnsStep`, from cursor to cursor) that is independent of the
loops: a message fits when every cursor of the walk does.
-/

set_option autoImplicit false

namespace Crimson.Net

open Crimson.Lib

/-- The rule for one event. -/
def InBounds (len : Nat) : RxEvent → Prop
  | .read i => i < len
  | .fragWrite i => i < 65536
  | .upper _ => True

/-- Every event of a computation obeys the rule. -/
def Safe {α : Type} (len : Nat) (x : Rx α) : Prop := x.All (InBounds len)

variable {len : Nat}

theorem safe_readsOf {a n : Nat} : (∀ e ∈ readsOf a n, InBounds len e) ↔ n = 0 ∨ a + n ≤ len := by
  constructor
  · intro h
    cases n with
    | zero => exact Or.inl rfl
    | succ n =>
      have hlast : InBounds len (.read (a + n)) :=
        h _ (List.mem_map.mpr ⟨n, List.mem_range.mpr (Nat.lt_succ_self n), rfl⟩)
      have hlt : a + n < len := hlast
      exact Or.inr hlt
  · intro h e he
    obtain ⟨i, hi, rfl⟩ := List.mem_map.mp he
    have hin := List.mem_range.mp hi
    show a + i < len
    omega

@[simp] theorem safe_pure {α : Type} (a : α) : Safe len (pure a : Rx α) := Traced.all_pure a

@[simp] theorem safe_bind {α β : Type} (x : Rx α) (f : α → Rx β) :
    Safe len (x >>= f) ↔ Safe len x ∧ Safe len (f x.val) := Traced.all_bind x f

@[simp] theorem safe_upper (call : UpperCall) : Safe len (Traced.emit (.upper call)) :=
  (Traced.all_emit _).mpr trivial

theorem safe_ite {α : Type} (c : Prop) [Decidable c] (x y : Rx α) :
    Safe len (if c then x else y) ↔ (c → Safe len x) ∧ (¬ c → Safe len y) := Traced.all_ite c x y

@[simp] theorem safe_read8 {pkt : Mem} {a : Nat} : Safe len (read8 pkt a) ↔ a + 1 ≤ len :=
  safe_readsOf.trans (by simp)

@[simp] theorem safe_read16 {pkt : Mem} {a : Nat} : Safe len (read16 pkt a) ↔ a + 2 ≤ len :=
  safe_readsOf.trans (by simp)

@[simp] theorem safe_read32 {pkt : Mem} {a : Nat} : Safe len (read32 pkt a) ↔ a + 4 ≤ len :=
  safe_readsOf.trans (by simp)

@[simp] theorem safe_readRaw {pkt : Mem} {a n : Nat} : Safe len (readRaw pkt a n) ↔ n = 0 ∨ a + n ≤ len :=
  safe_readsOf

@[simp] theorem safe_readBlock {a n : Nat} : Safe len (readBlock a n) ↔ n = 0 ∨ a + n ≤ len := safe_readsOf

@[simp] theorem safe_readChecksum {pkt : Mem} {a n : Nat} :
    Safe len (readChecksum pkt a n) ↔ n = 0 ∨ a + n ≤ len := safe_readsOf

@[simp] theorem safe_writeFrag {a n : Nat} : Safe len (writeFrag a n) ↔ n = 0 ∨ a + n ≤ 65536 := by
  constructor
  · intro h
    cases n with
    | zero => exact Or.inl rfl
    | succ n =>
      have hlast : InBounds len (.fragWrite (a + n)) :=
        h _ (List.mem_map.mpr ⟨n, List.mem_range.mpr (Nat.lt_succ_self n), rfl⟩)
      have hlt : a + n < 65536 := hlast
      exact Or.inr hlt
  · intro h e he
    obtain ⟨i, hi, rfl⟩ := List.mem_map.mp he
    have hin := List.mem_range.mp hi
    show a + i < 65536
    omega

/-! The fields of a packet, as the functions see them. -/

@[simp] theorem val_read8 (pkt : Mem) (a : Nat) : (read8 pkt a).val = (pkt a).toNat := rfl

@[simp] theorem val_read16 (pkt : Mem) (a : Nat) : (read16 pkt a).val = ntohs (loadBytes pkt a 2) := rfl

@[simp] theorem val_read32 (pkt : Mem) (a : Nat) : (read32 pkt a).val = ntohl (loadBytes pkt a 4) := rfl

@[simp] theorem val_readRaw (pkt : Mem) (a n : Nat) : (readRaw pkt a n).val = loadBytes pkt a n := rfl

@[simp] theorem val_readChecksum (pkt : Mem) (a n : Nat) : (readChecksum pkt a n).val = ipChecksum pkt a n := rfl

/-- A 16-bit field in host order. -/
def field16 (pkt : Mem) (a : Nat) : Nat := ntohs (loadBytes pkt a 2)

/-! ## ARP and ICMP -/

/-- An ARP packet reaches as far as its operation is looked into. -/
def ArpFits (pkt : Mem) (len : Nat) : Prop :=
  16 ≤ len ∧ (field16 pkt 14 = 1 → 18 ≤ len ∧ (field16 pkt 16 = ETH_P_IP → 22 ≤ len ∧
    (field16 pkt 20 = ARP_REQUEST → 42 ≤ len) ∧ (field16 pkt 20 = ARP_REPLY → 32 ≤ len)))

theorem safe_arpRx {net : NetStack} {dev : NetIf} {pkt : Mem} {now : Nat} :
    Safe len (net.arpRx dev pkt now) ↔ ArpFits pkt len := by
  unfold NetStack.arpRx
  simp only [safe_bind, safe_ite, safe_read16, safe_readRaw, safe_pure]
  cases hslot : net.arpSlot (readRaw pkt (ETH_HDR_LEN + 14) 4).val with
  | none =>
    simp only [safe_pure, val_read16, ETH_HDR_LEN, ARP_REQUEST, ARP_REPLY, ArpFits, field16, Nat.reduceAdd]
    grind
  | some slot =>
    simp only [safe_bind, safe_readRaw, safe_pure, val_read16, ETH_HDR_LEN, ARP_REQUEST, ARP_REPLY, ArpFits,
      field16, Nat.reduceAdd]
    grind

/-- An ICMP message at `data`: its type, and an echo request that is answered to the end
    of its header. -/
def IcmpFits (net : NetStack) (pkt : Mem) (ip data len : Nat) : Prop :=
  data + 1 ≤ len ∧ ((pkt data).toNat = ICMP_ECHO_REQUEST →
    (net.arpEntry (loadBytes pkt (ip + 12) 4)).isSome = true → data + 8 ≤ len)

theorem safe_icmpRx {net : NetStack} {dev : NetIf} {pkt : Mem} {ip data : Nat} (hip : ip + 20 ≤ len) :
    Safe len (net.icmpRx dev pkt ip data) ↔ IcmpFits net pkt ip data len := by
  unfold NetStack.icmpRx NetStack.arpLookup
  simp only [safe_bind, safe_ite, safe_read8, safe_readRaw, safe_pure, val_readRaw, IcmpFits]
  cases harp : net.arpEntry (loadBytes pkt (ip + 12) 4) with
  | none =>
    simp only [safe_pure, val_read8, Option.isSome_none, Bool.false_eq_true, false_imp_iff]
    grind
  | some e =>
    simp only [safe_bind, safe_readRaw, safe_pure, val_read8, Option.isSome_some, true_imp_iff]
    grind

/-! ## DNS responses -/

/-- The section a name stands in, with the entries that follow it there. -/
inductive DnsPart where
  | question (left : Nat)
  | answer (left : Nat)

/-- A position in the walk over a DNS message: before a question or an answer record, in
    the labels of a name, behind them, and at the fixed part of a record. -/
inductive DnsCursor where
  | questions (left off : Nat)
  | labels (part : DnsPart) (off : Nat)
  | root (part : DnsPart) (off : Nat)
  | answers (left off : Nat)
  | record (left off : Nat)

/-- A message: the memory, where it starts, how long it says it is, and how many answers
    it says it has. -/
structure DnsMessage where
  bytes : Mem
  start : Nat
  plen : Nat
  ancount : Nat

namespace DnsMessage

def byte (m : DnsMessage) (off : Nat) : Nat := (m.bytes (m.start + off)).toNat

/-- A compression pointer starts at `off`. -/
def Pointer (m : DnsMessage) (off : Nat) : Prop := m.byte off &&& 0xC0 = 0xC0

/-- The zero byte of a name is at `off`. -/
def Root (m : DnsMessage) (off : Nat) : Prop := off < m.plen ∧ m.byte off = 0

instance (m : DnsMessage) (off : Nat) : Decidable (m.Root off) :=
  inferInstanceAs (Decidable (off < m.plen ∧ m.byte off = 0))

/-- The record whose fixed part is at `off` is an address, and complete. -/
def Address (m : DnsMessage) (off : Nat) : Prop :=
  field16 m.bytes (m.start + off) = 1 ∧ field16 m.bytes (m.start + off + 2) = 1 ∧
    field16 m.bytes (m.start + off + 8) = 4 ∧ off + 10 + 4 ≤ m.plen

/-- Where the walk goes on behind a name. -/
def behind : DnsPart → Nat → DnsCursor
  | .question left, off => .questions left (off + 4)
  | .answer left, off => .record left off

/-- The walk over a message. -/
inductive Step (m : DnsMessage) : DnsCursor → DnsCursor → Prop
  | question {left off : Nat} (h : off < m.plen) :
      Step m (.questions (left + 1) off) (.labels (.question left) off)
  | noQuestion {left off : Nat} (h : left = 0 ∨ m.plen ≤ off) :
      Step m (.questions left off) (.answers m.ancount off)
  | label {part : DnsPart} {off : Nat} (h : off < m.plen) (hb : m.byte off ≠ 0) (hp : ¬ m.Pointer off) :
      Step m (.labels part off) (.labels part (off + 1 + m.byte off))
  | pointer {part : DnsPart} {off : Nat} (h : off < m.plen) (hb : m.byte off ≠ 0) (hp : m.Pointer off) :
      Step m (.labels part off) (.root part (off + 2))
  | nameEnd {part : DnsPart} {off : Nat} (h : m.plen ≤ off ∨ m.byte off = 0) :
      Step m (.labels part off) (.root part off)
  | root {part : DnsPart} {off : Nat} (h : m.Root off) : Step m (.root part off) (behind part (off + 1))
  | noRoot {part : DnsPart} {off : Nat} (h : ¬ m.Root off) : Step m (.root part off) (behind part off)
  | answer {left off : Nat} (h : off + 10 < m.plen) (hp : ¬ m.Pointer off) :
      Step m (.answers (left + 1) off) (.labels (.answer left) off)
  | answerPointer {left off : Nat} (h : off + 10 < m.plen) (hp : m.Pointer off) :
      Step m (.answers (left + 1) off) (.record left (off + 2))
  | record {left off : Nat} (h : off + 10 ≤ m.plen) (ha : ¬ m.Address off) :
      Step m (.record left off) (.answers left (off + 10 + field16 m.bytes (m.start + off + 8)))

/-- The bytes that are looked at in a position lie below `len`. -/
def Covered (m : DnsMessage) (len : Nat) : DnsCursor → Prop
  | .questions _ _ => True
  | .labels _ off | .root _ off => off < m.plen → m.start + off + 1 ≤ len
  | .answers left off => 0 < left → off + 10 < m.plen → m.start + off + 1 ≤ len
  | .record _ off => off + 10 ≤ m.plen →
      m.start + off + 10 ≤ len ∧ (m.Address off → m.start + off + 14 ≤ len)

/-- The walk from a cursor stays below `len`. -/
def Fits (m : DnsMessage) (len : Nat) (c : DnsCursor) : Prop :=
  ∀ c', Relation.ReflTransGen m.Step c c' → m.Covered len c'

variable {m : DnsMessage}

/-- One step of the walk at a time. -/
theorem fits_iff {c : DnsCursor} :
    m.Fits len c ↔ m.Covered len c ∧ ∀ c', m.Step c c' → m.Fits len c' :=
  throughout_iff

/-- A step that is the only one. -/
theorem fits_of_step {c c' : DnsCursor} (hs : m.Step c c') (hone : ∀ d, m.Step c d → d = c') :
    m.Fits len c ↔ m.Covered len c ∧ m.Fits len c' :=
  throughout_next hs hone

/-- The loop over the labels of a name walks to the end of the name. -/
theorem fits_labels {part : DnsPart} {off : Nat} :
    m.Fits len (.labels part off) ↔ Safe len (skipLabels m.bytes m.start m.plen off) ∧
      m.Fits len (.root part (skipLabels m.bytes m.start m.plen off).val) := by
  induction hn : m.plen - off using Nat.strong_induction_on generalizing off with
  | _ n ih =>
    rw [skipLabels]
    -- the zero byte, a pointer and the end of the message end the name, and a label is stepped over
    by_cases hoff : off < m.plen
    · rw [if_pos hoff]
      simp only [safe_bind, safe_read8, Traced.val_bind]
      have hval : (read8 m.bytes (m.start + off)).val = m.byte off := rfl
      by_cases hroot : m.byte off = 0
      · have hone : ∀ d, m.Step (.labels part off) d → d = .root part off := by
          intro d hd
          cases hd with
          | label _ hb _ => exact absurd hroot hb
          | pointer _ hb _ => exact absurd hroot hb
          | nameEnd _ => rfl
        rw [fits_of_step (.nameEnd (Or.inr hroot)) hone, if_pos (hval.trans hroot)]
        simp [Covered, hoff]
      · have hroot' : (read8 m.bytes (m.start + off)).val ≠ 0 := hroot
        rw [if_neg hroot']
        by_cases hptr : m.Pointer off
        · have hone : ∀ d, m.Step (.labels part off) d → d = .root part (off + 2) := by
            intro d hd
            cases hd with
            | label _ _ hp => exact absurd hptr hp
            | pointer _ _ _ => rfl
            | nameEnd h => exact absurd h (by omega)
          rw [fits_of_step (.pointer hoff hroot hptr) hone]
          have hptr' : (read8 m.bytes (m.start + off)).val &&& 0xC0 = 0xC0 := hptr
          rw [if_pos hptr']
          simp [Covered, hoff]
        · have hone : ∀ d, m.Step (.labels part off) d → d = .labels part (off + 1 + m.byte off) := by
            intro d hd
            cases hd with
            | label _ _ _ => rfl
            | pointer _ _ hp => exact absurd hp hptr
            | nameEnd h => exact absurd h (by omega)
          have hlater : m.plen - (off + 1 + m.byte off) < n := by omega
          rw [fits_of_step (.label hoff hroot hptr) hone, ih _ hlater rfl]
          have hptr' : ¬ (read8 m.bytes (m.start + off)).val &&& 0xC0 = 0xC0 := hptr
          rw [if_neg hptr']
          simp only [Covered, hoff, true_imp_iff, and_assoc]
          rfl
    · have hone : ∀ d, m.Step (.labels part off) d → d = .root part off := by
        intro d hd
        cases hd with
        | label h _ _ => exact absurd h hoff
        | pointer h _ _ => exact absurd h hoff
        | nameEnd _ => rfl
      rw [fits_of_step (.nameEnd (Or.inl (Nat.le_of_not_lt hoff))) hone, if_neg hoff]
      simp [Covered, hoff]

/-- Behind the labels: the zero byte, if one is there. -/
theorem fits_root {part : DnsPart} {off : Nat} :
    m.Fits len (.root part off) ↔ (off < m.plen → m.start + off + 1 ≤ len) ∧
      m.Fits len (behind part (if m.Root off then off + 1 else off)) := by
  by_cases hroot : m.Root off
  · have hone : ∀ d, m.Step (.root part off) d → d = behind part (off + 1) := by
      intro d hd
      cases hd with
      | root _ => rfl
      | noRoot h => exact absurd hroot h
    rw [fits_of_step (.root hroot) hone, if_pos hroot]
    rfl
  · have hone : ∀ d, m.Step (.root part off) d → d = behind part off := by
      intro d hd
      cases hd with
      | root h => exact absurd h hroot
      | noRoot _ => rfl
    rw [fits_of_step (.noRoot hroot) hone, if_neg hroot]
    rfl

/-- A name, from its first label to what stands behind it. -/
theorem fits_name {part : DnsPart} {off : Nat} :
    m.Fits len (.labels part off) ↔ Safe len (skipName m.bytes m.start m.plen off) ∧
      m.Fits len (behind part (skipName m.bytes m.start m.plen off).val) := by
  rw [fits_labels, fits_root, skipName]
  simp only [safe_bind, Traced.val_bind, and_assoc]
  refine and_congr_right fun _ => ?_
  generalize (skipLabels m.bytes m.start m.plen off).val = e
  by_cases he : e < m.plen
  · by_cases hb : m.byte e = 0
    · have hb' : (m.bytes (m.start + e)).toNat = 0 := hb
      simp [he, hb', Root, hb]
    · have hb' : (m.bytes (m.start + e)).toNat ≠ 0 := hb
      simp [he, hb', Root, hb]
  · simp [he, Root]

/-- The question section. -/
theorem fits_questions {left off : Nat} :
    m.Fits len (.questions left off) ↔ Safe len (skipQuestions m.bytes m.start m.plen left off) ∧
      m.Fits len (.answers m.ancount (skipQuestions m.bytes m.start m.plen left off).val) := by
  induction left generalizing off with
  | zero =>
    have hone : ∀ d, m.Step (.questions 0 off) d → d = .answers m.ancount off := by
      intro d hd
      cases hd with
      | noQuestion _ => rfl
    rw [fits_of_step (.noQuestion (Or.inl rfl)) hone]
    simp [skipQuestions, Covered]
  | succ left ih =>
    rw [skipQuestions]
    by_cases hoff : off < m.plen
    · have hone : ∀ d, m.Step (.questions (left + 1) off) d → d = .labels (.question left) off := by
        intro d hd
        cases hd with
        | question _ => rfl
        | noQuestion h => exact absurd h (by omega)
      rw [fits_of_step (.question hoff) hone, fits_name, if_pos hoff, behind, ih]
      simp only [Covered, safe_bind, Traced.val_bind, true_and, and_assoc]
    · have hone : ∀ d, m.Step (.questions (left + 1) off) d → d = .answers m.ancount off := by
        intro d hd
        cases hd with
        | question h => exact absurd h hoff
        | noQuestion _ => rfl
      rw [fits_of_step (.noQuestion (Or.inr (Nat.le_of_not_lt hoff))) hone, if_neg hoff]
      simp [Covered]

/-- The fixed part of a record: an address ends the walk, any other record leads on. -/
theorem fits_record {left off : Nat} :
    m.Fits len (.record left off) ↔ (off + 10 ≤ m.plen → m.start + off + 10 ≤ len ∧
      (m.Address off → m.start + off + 14 ≤ len) ∧ (¬ m.Address off →
        m.Fits len (.answers left (off + 10 + field16 m.bytes (m.start + off + 8))))) := by
  rw [fits_iff]
  constructor
  · intro h hoff
    obtain ⟨hfix, haddr⟩ := h.1 hoff
    exact ⟨hfix, haddr, fun hother => h.2 _ (.record hoff hother)⟩
  · intro h
    refine ⟨fun hoff => ⟨(h hoff).1, (h hoff).2.1⟩, ?_⟩
    intro d hd
    cases hd with
    | record hoff hother => exact (h hoff).2.2 hother

/-- The name of an answer record. -/
theorem fits_answerName {left off : Nat} (hoff : off + 10 < m.plen) :
    m.Fits len (.answers (left + 1) off) ↔ Safe len (skipAnswerName m.bytes m.start m.plen off) ∧
      m.Fits len (.record left (skipAnswerName m.bytes m.start m.plen off).val) := by
  rw [skipAnswerName]
  simp only [safe_bind, safe_read8, Traced.val_bind]
  by_cases hptr : m.Pointer off
  · have hone : ∀ d, m.Step (.answers (left + 1) off) d → d = .record left (off + 2) := by
      intro d hd
      cases hd with
      | answer _ hp => exact absurd hptr hp
      | answerPointer _ _ => rfl
    have hptr' : (read8 m.bytes (m.start + off)).val &&& 0xC0 = 0xC0 := hptr
    rw [fits_of_step (.answerPointer hoff hptr) hone, if_pos hptr']
    simp [Covered, hoff]
  · have hone : ∀ d, m.Step (.answers (left + 1) off) d → d = .labels (.answer left) off := by
      intro d hd
      cases hd with
      | answer _ _ => rfl
      | answerPointer _ hp => exact absurd hp hptr
    have hptr' : ¬ (read8 m.bytes (m.start + off)).val &&& 0xC0 = 0xC0 := hptr
    rw [fits_of_step (.answer hoff hptr) hone, if_neg hptr', fits_name, behind]
    simp [Covered, hoff, and_assoc]

/-- The answer section. -/
theorem fits_answers {left off : Nat} :
    m.Fits len (.answers left off) ↔ Safe len (findAnswer m.bytes m.start m.plen left off) := by
  induction left generalizing off with
  | zero =>
    rw [fits_iff, findAnswer]
    refine iff_of_true ⟨fun h => absurd h (Nat.lt_irrefl 0), ?_⟩ (safe_pure none)
    intro d hd
    cases hd
  | succ left ih =>
    by_cases hoff : off + 10 < m.plen
    · rw [fits_answerName hoff, findAnswer, if_pos hoff, safe_bind]
      refine and_congr_right fun _ => ?_
      generalize (skipAnswerName m.bytes m.start m.plen off).val = e
      rw [fits_record]
      by_cases he : e + 10 > m.plen
      · simp only [if_pos he, safe_pure, iff_true]
        omega
      · have haddr : m.Address e ↔ (read16 m.bytes (m.start + e)).val = 1 ∧
            (read16 m.bytes (m.start + e + 2)).val = 1 ∧ (read16 m.bytes (m.start + e + 8)).val = 4 ∧
              e + 10 + 4 ≤ m.plen := Iff.rfl
        have hlater : (read16 m.bytes (m.start + e + 8)).val = field16 m.bytes (m.start + e + 8) := rfl
        simp only [if_neg he, safe_bind, safe_ite, safe_read16, safe_read32, safe_pure]
        rw [← haddr, hlater, ih]
        grind
    · rw [fits_iff, findAnswer, if_neg hoff]
      refine iff_of_true ⟨fun _ h => absurd h hoff, ?_⟩ (safe_pure none)
      intro d hd
      cases hd with
      | answer h _ => exact absurd h hoff
      | answerPointer h _ => exact absurd h hoff

end DnsMessage

/-- A response at `payload`, its length as the UDP header gives it: the header, and, when
    it answers a query, the walk over its sections. -/
def DnsFits (net : NetStack) (pkt : Mem) (payload plen len : Nat) : Prop :=
  payload + 8 ≤ len ∧ (field16 pkt (payload + 2) &&& 0x8000 ≠ 0 → field16 pkt (payload + 2) &&& 0x000F = 0 →
    (net.dnsSlot (field16 pkt payload)).isSome = true →
    (DnsMessage.mk pkt payload plen (field16 pkt (payload + 6))).Fits len
      (.questions (field16 pkt (payload + 4)) 12))

theorem safe_dnsRx {net : NetStack} {pkt : Mem} {payload plen : Nat} :
    Safe len (net.dnsRx pkt payload plen) ↔ DnsFits net pkt payload plen len := by
  unfold NetStack.dnsRx
  simp only [safe_bind, safe_ite, safe_read16, safe_pure]
  cases hslot : net.dnsSlot (read16 pkt payload).val with
  | none =>
    have hslot' : net.dnsSlot (field16 pkt payload) = none := hslot
    simp only [safe_pure, DnsFits, hslot', Option.isSome_none, Bool.false_eq_true, false_imp_iff]
    grind
  | some slot =>
    have hslot' : net.dnsSlot (field16 pkt payload) = some slot := hslot
    simp only [safe_bind, safe_read16, safe_pure, DnsFits, hslot', Option.isSome_some, true_imp_iff,
      DnsMessage.fits_questions, DnsMessage.fits_answers]
    simp only [val_read16, field16]
    grind

/-! ## UDP and TCP -/

/-- A UDP datagram of `n` bytes at `data`, as far as its header is looked into. -/
def UdpFits (net : NetStack) (pkt : Mem) (data n len : Nat) : Prop :=
  UDP_HDR_LEN ≤ n → data + 6 ≤ len ∧
    (field16 pkt data = DNS_PORT → UDP_HDR_LEN + 12 ≤ field16 pkt (data + 4) →
      DnsFits net pkt (data + UDP_HDR_LEN) (field16 pkt (data + 4) - UDP_HDR_LEN) len)

theorem safe_udpRx {net : NetStack} {pkt : Mem} {data n : Nat} :
    Safe len (net.udpRx pkt data n) ↔ UdpFits net pkt data n len := by
  unfold NetStack.udpRx
  simp only [safe_bind, safe_ite, safe_read16, safe_pure, safe_dnsRx]
  simp only [UdpFits, val_read16, field16, UDP_HDR_LEN]
  grind

/-- The length of the TCP header at `data`. -/
def tcpHlen (pkt : Mem) (data : Nat) : Nat := (pkt (data + 12)).toNat / 16 * 4

/-- The segment in the `n` bytes from `data`. -/
def segmentAt (pkt : Mem) (ip data n : Nat) : TcpSegment where
  srcIp := loadBytes pkt (ip + 12) 4
  dstIp := loadBytes pkt (ip + 16) 4
  srcPort := field16 pkt data
  dstPort := field16 pkt (data + 2)
  seq := UInt32.ofNat (ntohl (loadBytes pkt (data + 4) 4))
  ack := UInt32.ofNat (ntohl (loadBytes pkt (data + 8) 4))
  flags := BitVec.ofNat 8 (pkt (data + 13)).toNat
  window := field16 pkt (data + 14)
  payload := bytesAt pkt (data + tcpHlen pkt data) ((n + 2 ^ 16 - tcpHlen pkt data) % 2 ^ 16)

/-- A TCP segment of `n` bytes at `data`: its header, and as much of the payload as the
    receive buffer of its socket has room for. -/
def TcpFits (net : NetStack) (pkt : Mem) (ip data n len : Nat) : Prop :=
  data + 16 ≤ len ∧ ∀ s, net.receiver (segmentAt pkt ip data n) = some s → s.state.takesData = true →
    0 < (segmentAt pkt ip data n).payload.length → (segmentAt pkt ip data n).seq = s.rcvNxt →
      rxSpace s = 0 ∨
        data + tcpHlen pkt data + min (segmentAt pkt ip data n).payload.length (rxSpace s) ≤ len

theorem safe_tcpRx {net : NetStack} {pkt : Mem} {ip data n us ms : Nat} (hip : ip + 20 ≤ len) :
    Safe len (net.tcpRx pkt ip data n us ms) ↔ TcpFits net pkt ip data n len := by
  have hcopy : Safe len (net.tcpRx pkt ip data n us ms) ↔ data + 16 ≤ len ∧
      (copiedBytes net (segmentAt pkt ip data n) = 0 ∨
        data + tcpHlen pkt data + copiedBytes net (segmentAt pkt ip data n) ≤ len) := by
    unfold NetStack.tcpRx
    simp only [safe_bind, safe_read8, safe_read16, safe_read32, safe_readRaw, safe_readBlock, safe_pure, and_true]
    show _ ∧ _ ∧ _ ∧ _ ∧ _ ∧ _ ∧ _ ∧ _ ∧ (copiedBytes net (segmentAt pkt ip data n) = 0 ∨
      data + tcpHlen pkt data + copiedBytes net (segmentAt pkt ip data n) ≤ len) ↔ _
    omega
  rw [hcopy, TcpFits, copiedBytes]
  refine and_congr_right fun _ => ?_
  generalize segmentAt pkt ip data n = seg
  cases hrec : net.receiver seg with
  | none => simp
  | some s =>
    by_cases htake : s.state.takesData = true
    · simp only [htake, if_true, rxAccepted, Option.some.injEq, forall_eq']
      split
      · rename_i h
        simp only [h, true_imp_iff]
        omega
      · rename_i h
        refine iff_of_true (Or.inl rfl) ?_
        intro _ hpos hseq
        exact absurd ⟨hpos, hseq⟩ h
    · simp [htake]

/-! ## IPv4 and Ethernet -/

/-- The header of an IPv4 packet. -/
def ipHeader (pkt : Mem) : IpHeader where
  ihl := (pkt 14).toNat % 16 * 4
  totalLen := field16 pkt 16
  id := field16 pkt 18
  fragOff := field16 pkt 20
  protocol := (pkt 23).toNat
  src := loadBytes pkt 26 4
  dst := loadBytes pkt 30 4

/-- The checksum of an IPv4 packet's header is right. -/
def HeaderOk (pkt : Mem) : Prop := ipChecksum pkt 14 (ipHeader pkt).ihl = 0

/-- The message of an IPv4 packet that is a whole datagram. -/
def ProtocolFits (net : NetStack) (pkt : Mem) (h : IpHeader) (len : Nat) : Prop :=
  (h.protocol = IP_PROTO_ICMP → IcmpFits net pkt 14 (14 + h.ihl) len) ∧
  (h.protocol = IP_PROTO_UDP → UdpFits net pkt (14 + h.ihl) h.payloadLen len) ∧
  (h.protocol = IP_PROTO_TCP → TcpFits net pkt 14 (14 + h.ihl) h.payloadLen len)

/-- The payload of a fragment, where it comes from and where it goes to. -/
def FragFits (net : NetStack) (h : IpHeader) (len : Nat) : Prop :=
  (net.fragSlot h).isSome = true → h.payloadLen = 0 ∨
    14 + h.ihl + h.payloadLen ≤ len ∧ h.offset + h.payloadLen ≤ 65536

/-- An IPv4 packet that is long enough for a header without options. -/
def IpFits (net : NetStack) (pkt : Mem) (len : Nat) : Prop :=
  34 ≤ len → (pkt 14).toNat / 16 = 4 → 14 + (ipHeader pkt).ihl ≤ len ∧ (HeaderOk pkt →
    if (ipHeader pkt).fragmented then FragFits net (ipHeader pkt) len
    else ProtocolFits net pkt (ipHeader pkt) len)

theorem safe_fragRx {net : NetStack} {pkt : Mem} {h : IpHeader} {now : Nat} :
    Safe len (net.fragRx pkt h now) ↔ FragFits net h len := by
  unfold NetStack.fragRx FragFits
  cases net.fragSlot h with
  | none => simp
  | some i =>
    simp only [safe_bind, safe_readBlock, safe_writeFrag, safe_pure, Option.isSome_some, true_imp_iff, ETH_HDR_LEN]
    grind

theorem safe_protocolRx {net : NetStack} {dev : NetIf} {pkt : Mem} {h : IpHeader} {us ms : Nat} (hlen : 34 ≤ len) :
    Safe len (net.protocolRx dev pkt h us ms) ↔ ProtocolFits net pkt h len := by
  have hip : ETH_HDR_LEN + 20 ≤ len := hlen
  unfold NetStack.protocolRx ProtocolFits
  simp only [safe_ite, safe_bind, safe_upper, safe_pure, true_and, safe_icmpRx hip, safe_udpRx, safe_tcpRx hip]
  simp only [ETH_HDR_LEN, IP_PROTO_ICMP, IP_PROTO_UDP, IP_PROTO_TCP]
  grind

theorem safe_ipRx {net : NetStack} {dev : NetIf} {pkt : Mem} {us ms : Nat} :
    Safe len (net.ipRx dev pkt len us ms) ↔ IpFits net pkt len := by
  unfold NetStack.ipRx IpFits
  by_cases hlen : len < ETH_HDR_LEN + IP_HDR_LEN
  · have hshort : ¬ 34 ≤ len := Nat.not_le_of_lt hlen
    simp [if_pos hlen, hshort]
  · have hlong : 34 ≤ len := Nat.le_of_not_lt hlen
    rw [if_neg hlen]
    simp only [safe_bind, safe_ite, safe_read8, safe_read16, safe_readRaw, safe_readChecksum, safe_pure,
      safe_fragRx, safe_protocolRx hlong]
    show _ ∧ _ ∧ _ ∧ (¬ (pkt 14).toNat / 16 ≠ 4 → ((ipHeader pkt).ihl = 0 ∨ 14 + (ipHeader pkt).ihl ≤ len) ∧ _ ∧
      (¬ ipChecksum pkt 14 (ipHeader pkt).ihl ≠ 0 → _ ∧ _ ∧ _ ∧ _ ∧ _ ∧
        ((ipHeader pkt).fragmented = true → FragFits net (ipHeader pkt) len) ∧
        (¬ (ipHeader pkt).fragmented = true → ProtocolFits net pkt (ipHeader pkt) len))) ↔ _
    simp only [ETH_HDR_LEN, HeaderOk]
    generalize ipHeader pkt = h
    cases hf : h.fragmented with
    | true => grind
    | false => grind

/-! ## Ethernet -/

/-- A frame of the given type. -/
def TypeFits (net : NetStack) (type : Nat) (pkt : Mem) (len : Nat) : Prop :=
  (type = ETH_P_ARP → ArpFits pkt len) ∧ (type = ETH_P_IP → IpFits net pkt len)

/-- What `net_rx_frame` is given. -/
def FrameFits (net : NetStack) (pkt : Mem) (len : Nat) : Prop :=
  ETH_HDR_LEN ≤ len → TypeFits net (field16 pkt 12) pkt len

/-- What `net_rx_packet` is given: behind a VLAN tag stands the type. -/
def PacketFits (net : NetStack) (pkt : Mem) (len : Nat) : Prop :=
  ETH_HDR_LEN ≤ len → if field16 pkt 12 = ETH_P_VLAN then
    ETH_VLAN_HDR_LEN ≤ len → TypeFits net (field16 pkt 16) pkt len
  else TypeFits net (field16 pkt 12) pkt len

theorem safe_dispatch {net : NetStack} {dev : NetIf} {type : Nat} {pkt : Mem} {us ms : Nat} :
    Safe len (net.dispatch dev type pkt len us ms) ↔ TypeFits net type pkt len := by
  unfold NetStack.dispatch TypeFits
  simp only [safe_ite, safe_arpRx, safe_ipRx, safe_pure]
  simp only [ETH_P_ARP, ETH_P_IP]
  grind

/-- **What the receive path accesses.** A received frame makes every access obey the rule,
    for every interface, state and clock, exactly when its length fields fit: the
    functions check little more than that the fixed headers of Ethernet and IPv4 are
    there. -/
theorem rx_inBounds_iff (net : NetStack) (dev : NetIf) (pkt : Mem) (len us ms : Nat) :
    ((net.netRxPacket dev pkt len us ms).All (InBounds len) ↔ PacketFits net pkt len) ∧
    ((net.netRxFrame dev pkt len us ms).All (InBounds len) ↔ FrameFits net pkt len) := by
  constructor
  · show Safe len _ ↔ _
    unfold NetStack.netRxPacket PacketFits
    simp only [safe_bind, safe_ite, safe_read16, safe_pure, safe_dispatch]
    simp only [val_read16, field16, ETH_HDR_LEN, ETH_VLAN_HDR_LEN]
    grind
  · show Safe len _ ↔ _
    unfold NetStack.netRxFrame FrameFits
    simp only [safe_bind, safe_ite, safe_read16, safe_pure, safe_dispatch]
    simp only [val_read16, field16, ETH_HDR_LEN]
    grind

/-- An ARP frame that ends with its Ethernet header. -/
def bareArp : Mem := packetOf [0, 0, 0, 0, 0, 0, 0, 0, 0, 0, 0, 0, 0x08, 0x06]

/-- The last fragment of a datagram, 16 bytes long, at the offset 65528. -/
def farFragment : Mem :=
  packetOf [0, 0, 0, 0, 0, 0, 0, 0, 0, 0, 0, 0, 0x08, 0x00,
    0x45, 0, 0, 36, 0, 1, 0x1F, 0xFF, 64, 17, 0x46, 0xC7, 10, 0, 0, 1, 10, 0, 0, 2]

/-- The operation of a bare ARP frame is read behind its end, and the far fragment, which
    is all there, is copied past the end of its buffer. -/
theorem rx_out_of_bounds :
    (¬ ((netInit none fun _ => true).netRxPacket ⟨0, 0, 0, 0⟩ bareArp 14 0 0).All (InBounds 14)) ∧
    ¬ ((netInit none fun _ => true).netRxPacket ⟨0, 0, 0, 0⟩ farFragment 50 0 0).All (InBounds 50) := by
  constructor
  · intro h
    have hread : InBounds 14 (.read 14) := h (.read 14) (by decide +kernel)
    exact absurd hread (Nat.lt_irrefl 14)
  · intro h
    have hwrite : InBounds 50 (.fragWrite 65536) := h (.fragWrite 65536) (by decide +kernel)
    exact absurd hwrite (Nat.lt_irrefl 65536)

end Crimson.Net
