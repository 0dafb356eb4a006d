import Crimson.Lib.DnsMessage
import Crimson.Net.Bounds

/-!
# The DNS answer (`net.c`)

The parser of `udp_rx` against the format of RFC 1035 (`Crimson.Lib.Dns`). It skips a name by
its labels and then a zero byte if there is one, and it does so also behind a compression
pointer, where a name has ended already. There the next byte is the high byte of the type,
which is zero for the usual types, so the parser slips by one byte; only an answer name
that is a pointer alone is skipped on a path of its own.
-/

set_option autoImplicit false

namespace Crimson.Net

open Crimson.Lib

/-- The message at `payload`. -/
def messageAt (pkt : Mem) (payload : Nat) : Dns.Bytes := fun i => pkt (payload + i)

section

variable {pkt : Mem} {payload plen off next : Nat}

/-! ## Its bytes -/

theorem val_read16_word (a : Nat) : (read16 pkt (payload + a)).val = Dns.word (messageAt pkt payload) a := by
  have hlo := (pkt (payload + a)).isLt
  have hhi := (pkt (payload + a + 1)).isLt
  simp only [val_read16, ntohs, loadBytes, Dns.word, messageAt, ← Nat.add_assoc]
  omega

theorem ntohl_bytes {a b c d : Nat} (ha : a < 256) (hb : b < 256) (hc : c < 256) (hd : d < 256) :
    ntohl (a + 256 * (b + 256 * (c + 256 * d))) = (a * 256 + b) * 2 ^ 16 + (c * 256 + d) := by
  have h0 : (a + 256 * (b + 256 * (c + 256 * d))) % 256 = a := by omega
  have h1 : (a + 256 * (b + 256 * (c + 256 * d))) / 256 % 256 = b := by omega
  have h2 : (a + 256 * (b + 256 * (c + 256 * d))) / 2 ^ 16 % 256 = c := by omega
  have h3 : (a + 256 * (b + 256 * (c + 256 * d))) / 2 ^ 24 % 256 = d := by omega
  rw [ntohl, h0, h1, h2, h3]
  omega

theorem val_read32_word (a : Nat) :
    (read32 pkt (payload + a)).val =
      Dns.word (messageAt pkt payload) a * 2 ^ 16 + Dns.word (messageAt pkt payload) (a + 2) :=
  ntohl_bytes (pkt (payload + a)).isLt (pkt (payload + a + 1)).isLt (pkt (payload + a + 2)).isLt
    (pkt (payload + a + 3)).isLt

/-- `(b & 0xC0) == 0xC0` -/
theorem and_C0_iff (b : Byte) : b.toNat &&& 0xC0 = 0xC0 ↔ Dns.PointerByte b := by
  revert b
  decide

/-! ## Names -/

/-- Where `skipLabels` stops: at the zero byte, or behind the pointer. -/
def labelsEnd : Dns.NameEnd → Nat → Nat
  | .zero, next => next - 1
  | .pointer, next => next

theorem skipLabels_written {e : Dns.NameEnd} (h : Dns.Written (messageAt pkt payload) plen off e next) :
    (skipLabels pkt payload plen off).val = labelsEnd e next ∧
      (e = .zero → messageAt pkt payload (next - 1) = 0) := by
  induction h with
  | @root off hlt hzero =>
    have hbyte : (read8 pkt (payload + off)).val = 0 := congrArg BitVec.toNat hzero
    rw [skipLabels, if_pos hlt, Traced.val_bind, if_pos hbyte]
    exact ⟨rfl, fun _ => hzero⟩
  | @pointer off hlt hptr =>
    have hne : (read8 pkt (payload + off)).val ≠ 0 := by
      intro hzero
      have hbyte : messageAt pkt payload off = 0 := BitVec.eq_of_toNat_eq hzero
      rw [hbyte] at hptr
      exact Dns.not_pointerByte_zero hptr
    have hmask : (read8 pkt (payload + off)).val &&& 0xC0 = 0xC0 := (and_C0_iff _).mpr hptr
    rw [skipLabels, if_pos (by omega), Traced.val_bind, if_neg hne, if_pos hmask]
    exact ⟨rfl, fun h => Dns.NameEnd.noConfusion h⟩
  | @label off next e hlt hpos hmax rest ih =>
    have hne : (read8 pkt (payload + off)).val ≠ 0 := Nat.ne_of_gt hpos
    have hmask : ¬ (read8 pkt (payload + off)).val &&& 0xC0 = 0xC0 :=
      fun h => Dns.not_pointerByte_of_le hmax ((and_C0_iff _).mp h)
    rw [skipLabels, if_pos hlt, Traced.val_bind, if_neg hne, if_neg hmask]
    exact ih

/-- **A name and the byte behind it**: the parser goes one byte too far behind a pointer that
    a zero byte follows. -/
theorem skipName_written {e : Dns.NameEnd} (h : Dns.Written (messageAt pkt payload) plen off e next)
    (hnext : next < plen) :
    (skipName pkt payload plen off).val =
      if e = .pointer ∧ messageAt pkt payload next = 0 then next + 1 else next := by
  obtain ⟨hend, hzero⟩ := skipLabels_written h
  have hlt := h.lt.1
  have hbyte : ∀ a, (read8 pkt (payload + a)).val = 0 ↔ messageAt pkt payload a = 0 :=
    fun a => ⟨fun h => BitVec.eq_of_toNat_eq h, fun h => congrArg BitVec.toNat h⟩
  rw [skipName, Traced.val_bind, hend]
  cases e with
  | zero =>
    have hin : labelsEnd .zero next < plen := Nat.lt_of_le_of_lt (Nat.sub_le _ _) hnext
    have hroot : (read8 pkt (payload + labelsEnd .zero next)).val = 0 := (hbyte _).mpr (hzero rfl)
    rw [if_pos hin, Traced.val_bind, if_pos hroot, if_neg (by simp)]
    show next - 1 + 1 = next
    omega
  | pointer =>
    rw [if_pos (show labelsEnd .pointer next < plen from hnext), Traced.val_bind]
    show (pure (if (read8 pkt (payload + next)).val = 0 then next + 1 else next) : Rx Nat).val = _
    by_cases hroot : messageAt pkt payload next = 0
    · rw [if_pos ((hbyte _).mpr hroot), if_pos ⟨rfl, hroot⟩]
      rfl
    · rw [if_neg (mt (hbyte _).mp hroot), if_neg fun h => hroot h.2]
      rfl

/-! ## The question section -/

/-- The parser slips behind the name of a question: it ends with a pointer, and the type is
    below 256. -/
def QuestionSlips (m : Dns.Bytes) (len : Nat) (q : Dns.Entry) : Prop :=
  Dns.Written m len q.off .pointer q.fixed ∧ m q.fixed = 0

/-- It slips behind the name of an answer: labels and a pointer, and the type is below 256. -/
def AnswerSlips (m : Dns.Bytes) (len : Nat) (r : Dns.Entry) : Prop :=
  Dns.LabelsThenPointer m len r.off r.fixed ∧ m r.fixed = 0

theorem skipName_steady {labels : List (List Byte)} (h : Dns.NameAt (messageAt pkt payload) plen off labels next)
    (hnext : next < plen)
    (hsteady : ¬ (Dns.Written (messageAt pkt payload) plen off .pointer next ∧ messageAt pkt payload next = 0)) :
    (skipName pkt payload plen off).val = next := by
  obtain ⟨e, hw⟩ := h.written
  rw [skipName_written hw hnext, if_neg]
  rintro ⟨rfl, hzero⟩
  exact hsteady ⟨hw, hzero⟩

theorem skipQuestions_steady {questions : List Dns.Entry} {last : Nat}
    (h : Dns.Section (Dns.QuestionAt (messageAt pkt payload) plen) off questions last)
    (hsteady : ∀ q ∈ questions, ¬ QuestionSlips (messageAt pkt payload) plen q) :
    (skipQuestions pkt payload plen questions.length off).val = last := by
  induction h with
  | nil => rfl
  | @cons q qs next last head tail ih =>
    obtain ⟨⟨labels, hname⟩, rfl, hle⟩ := head
    obtain ⟨e, hw⟩ := hname.written
    have hlt := hw.lt
    rw [List.length_cons, skipQuestions, if_pos (by omega), Traced.val_bind,
      skipName_steady hname (by omega) (hsteady q List.mem_cons_self)]
    exact ih fun p hp => hsteady p (List.mem_cons_of_mem q hp)

/-! ## The answer section -/

/-- The answers as far as the parser has to look: up to the first address. -/
def upToAddress (m : Dns.Bytes) : List Dns.Entry → List Dns.Entry
  | [] => []
  | r :: rs => if r.IsAddress m then [r] else r :: upToAddress m rs

theorem skipAnswerName_steady {r : Dns.Entry} {labels : List (List Byte)}
    (h : Dns.NameAt (messageAt pkt payload) plen r.off labels r.fixed) (hnext : r.fixed < plen)
    (hsteady : ¬ AnswerSlips (messageAt pkt payload) plen r) :
    (skipAnswerName pkt payload plen r.off).val = r.fixed := by
  rw [skipAnswerName, Traced.val_bind]
  by_cases hptr : Dns.PointerByte (messageAt pkt payload r.off)
  · have hmask : (read8 pkt (payload + r.off)).val &&& 0xC0 = 0xC0 := (and_C0_iff _).mpr hptr
    rw [if_pos hmask, h.eq_of_pointer hptr]
    rfl
  · have hmask : ¬ (read8 pkt (payload + r.off)).val &&& 0xC0 = 0xC0 := fun hm => hptr ((and_C0_iff _).mp hm)
    rw [if_neg hmask]
    exact skipName_steady h hnext fun hw => hsteady ⟨⟨hw.1, hptr⟩, hw.2⟩

/-- The test of `findAnswer` on a fixed part: an address with its four bytes. -/
def Taken (m : Dns.Bytes) (plen fixed : Nat) : Prop :=
  Dns.word m fixed = 1 ∧ Dns.word m (fixed + 2) = 1 ∧ Dns.word m (fixed + 8) = 4 ∧ fixed + 10 + 4 ≤ plen

/-- One record of `findAnswer`, by where its fixed part is taken to be. -/
theorem findAnswer_taken {count fixed : Nat} (h : off + 10 < plen)
    (hname : (skipAnswerName pkt payload plen off).val = fixed) (ht : Taken (messageAt pkt payload) plen fixed) :
    (findAnswer pkt payload plen (count + 1) off).val =
      some (Dns.word (messageAt pkt payload) (fixed + 10) * 2 ^ 16 + Dns.word (messageAt pkt payload) (fixed + 12)) := by
  obtain ⟨htype, hcls, hlen, hdata⟩ := ht
  rw [findAnswer, if_pos h, Traced.val_bind, hname, if_neg (by omega)]
  simp only [Traced.val_bind, Nat.add_assoc payload, val_read16_word, htype, hcls, hlen, hdata, and_self, if_true,
    val_read32_word, Traced.val_pure]

theorem findAnswer_passed {count fixed : Nat} (h : off + 10 < plen)
    (hname : (skipAnswerName pkt payload plen off).val = fixed) (hfit : fixed + 10 ≤ plen)
    (ht : ¬ Taken (messageAt pkt payload) plen fixed) :
    (findAnswer pkt payload plen (count + 1) off).val =
      (findAnswer pkt payload plen count (fixed + 10 + Dns.word (messageAt pkt payload) (fixed + 8))).val := by
  unfold Taken at ht
  rw [findAnswer, if_pos h, Traced.val_bind, hname, if_neg (by omega)]
  simp only [Traced.val_bind, Nat.add_assoc payload, val_read16_word, if_neg ht]

/-- **The answer section, parsed steadily**: the first address, if there is one. -/
theorem findAnswer_steady {answers : List Dns.Entry} {last : Nat}
    (h : Dns.Section (Dns.RecordAt (messageAt pkt payload) plen) off answers last)
    (hsteady : ∀ r ∈ upToAddress (messageAt pkt payload) answers, ¬ AnswerSlips (messageAt pkt payload) plen r) :
    (findAnswer pkt payload plen answers.length off).val =
      (answers.find? fun r => r.IsAddress (messageAt pkt payload)).map fun r => r.address (messageAt pkt payload) := by
  induction h with
  | nil => rfl
  | @cons r rs next last head tail ih =>
    obtain ⟨⟨labels, hname⟩, rfl, hle, hfour⟩ := head
    obtain ⟨e, hw⟩ := hname.written
    have hlt := hw.lt
    have hfirst : ¬ AnswerSlips (messageAt pkt payload) plen r := by
      apply hsteady
      rw [upToAddress]
      split
      · exact List.mem_singleton_self r
      · exact List.mem_cons_self
    have hskip := skipAnswerName_steady hname (by omega) hfirst
    rw [List.length_cons, List.find?_cons]
    by_cases haddr : r.IsAddress (messageAt pkt payload)
    · have hdata : r.rdlength (messageAt pkt payload) = 4 := hfour haddr
      have htaken : Taken (messageAt pkt payload) plen r.fixed := ⟨haddr.1, haddr.2, hdata, by omega⟩
      rw [findAnswer_taken (by omega) hskip htaken]
      simp [haddr, Dns.Entry.address]
    · have hpassed : ¬ Taken (messageAt pkt payload) plen r.fixed := fun ht => haddr ⟨ht.1, ht.2.1⟩
      rw [findAnswer_passed (by omega) hskip (by omega) hpassed]
      have hrest : ∀ p ∈ upToAddress (messageAt pkt payload) rs, ¬ AnswerSlips (messageAt pkt payload) plen p := by
        intro p hp
        apply hsteady
        rw [upToAddress, if_neg haddr]
        exact List.mem_cons_of_mem r hp
      simp only [haddr, decide_false]
      exact ih hrest

/-! ## A slip -/

theorem findAnswer_past {count : Nat} (h : plen ≤ off) : (findAnswer pkt payload plen count off).val = none := by
  cases count with
  | zero => rfl
  | succ count =>
    rw [findAnswer, if_neg (by omega)]
    rfl

theorem skipAnswerName_slips {r : Dns.Entry} (h : AnswerSlips (messageAt pkt payload) plen r) (hnext : r.fixed < plen) :
    (skipAnswerName pkt payload plen r.off).val = r.fixed + 1 := by
  obtain ⟨⟨hw, hptr⟩, hzero⟩ := h
  have hmask : ¬ (read8 pkt (payload + r.off)).val &&& 0xC0 = 0xC0 := fun hm => hptr ((and_C0_iff _).mp hm)
  rw [skipAnswerName, Traced.val_bind, if_neg hmask, skipName_written hw hnext, if_pos ⟨rfl, hzero⟩]

/-- Behind a slip the low byte of a record's length is read as the high one. -/
theorem slipped_length {m : Dns.Bytes} {a : Nat} (h : 2 ≤ Dns.word m a % 256) : 512 ≤ Dns.word m (a + 1) := by
  have hlo := (m (a + 1)).isLt
  unfold Dns.word at h ⊢
  omega

/-- **One slip loses the address**, in a message of at most 512 bytes whose records have the
    lengths one meets. -/
theorem findAnswer_slipped {answers : List Dns.Entry} {last : Nat}
    (h : Dns.Section (Dns.RecordAt (messageAt pkt payload) plen) off answers last) (hshort : plen ≤ 512)
    (hlong : ∀ r ∈ upToAddress (messageAt pkt payload) answers, 2 ≤ r.rdlength (messageAt pkt payload) % 256)
    (hslip : ∃ r ∈ upToAddress (messageAt pkt payload) answers, AnswerSlips (messageAt pkt payload) plen r) :
    (findAnswer pkt payload plen answers.length off).val = none := by
  induction h with
  | nil =>
    obtain ⟨r, hr, -⟩ := hslip
    cases hr
  | @cons r rs next last head tail ih =>
    obtain ⟨⟨labels, hname⟩, rfl, hle, hfour⟩ := head
    obtain ⟨e, hw⟩ := hname.written
    have hlt := hw.lt
    have hmem : r ∈ upToAddress (messageAt pkt payload) (r :: rs) := by
      rw [upToAddress]
      split
      · exact List.mem_singleton_self r
      · exact List.mem_cons_self
    have hlength : 512 ≤ Dns.word (messageAt pkt payload) (r.fixed + 8 + 1) := slipped_length (hlong r hmem)
    have hdata : 2 ≤ r.rdlength (messageAt pkt payload) := (hlong r hmem).trans (Nat.mod_le _ _)
    rw [List.length_cons]
    by_cases hr : AnswerSlips (messageAt pkt payload) plen r
    · have hskip := skipAnswerName_slips hr (by omega)
      have hpassed : ¬ Taken (messageAt pkt payload) plen (r.fixed + 1) := by
        rintro ⟨-, -, hfour, -⟩
        rw [Nat.add_right_comm] at hfour
        omega
      rw [findAnswer_passed (by omega) hskip (by omega) hpassed]
      apply findAnswer_past
      rw [Nat.add_right_comm r.fixed 1 8]
      omega
    · obtain ⟨p, hp, hslips⟩ := hslip
      have hno : ¬ r.IsAddress (messageAt pkt payload) := by
        intro haddr
        rw [upToAddress, if_pos haddr, List.mem_singleton] at hp
        exact hr (hp ▸ hslips)
      have hsplit : upToAddress (messageAt pkt payload) (r :: rs) = r :: upToAddress (messageAt pkt payload) rs := by
        rw [upToAddress, if_neg hno]
      rw [hsplit] at hp hlong
      have hpassed : ¬ Taken (messageAt pkt payload) plen r.fixed := fun ht => hno ⟨ht.1, ht.2.1⟩
      rw [findAnswer_passed (by omega) (skipAnswerName_steady hname (by omega) hr) (by omega) hpassed]
      refine ih (fun q hq => hlong q (List.mem_cons_of_mem r hq)) ⟨p, ?_, hslips⟩
      refine (List.mem_cons.mp hp).resolve_left ?_
      rintro rfl
      exact hr hslips

end

/-! ## The response -/

/-- A datagram from a DNS server that is a response to the query in `slot`: the length in its
    UDP header is that of a message in the datagram. -/
structure PendingResponse (net : NetStack) (pkt : Mem) (data n slot : Nat) where
  srcPort : field16 pkt data = DNS_PORT
  length : field16 pkt (data + 4) ≤ n
  message : Dns.Response (messageAt pkt (data + UDP_HDR_LEN)) (field16 pkt (data + 4) - UDP_HDR_LEN)
  pending : net.dnsSlot (Dns.word (messageAt pkt (data + UDP_HDR_LEN)) 0) = some slot

/-- The parser slips behind no name it has to skip. -/
structure Steady {m : Dns.Bytes} {len : Nat} (r : Dns.Response m len) : Prop where
  questions : ∀ q ∈ r.questions, ¬ QuestionSlips m len q
  answers : ∀ a ∈ upToAddress m r.answers, ¬ AnswerSlips m len a

/-- A message in which a slip shows: no longer than RFC 1035 allows over UDP, with plain names
    in its questions, and no record up to the address whose length has a low byte of 0 or 1. -/
structure Telltale {m : Dns.Bytes} {len : Nat} (r : Dns.Response m len) : Prop where
  short : len ≤ 512
  questions : ∀ q ∈ r.questions, ¬ QuestionSlips m len q
  lengths : ∀ a ∈ upToAddress m r.answers, 2 ≤ a.rdlength m % 256

variable {net : NetStack} {pkt : Mem} {data n slot : Nat}

/-- What a response does is decided by what its two sections are parsed to. -/
theorem PendingResponse.udpRx (r : PendingResponse net pkt data n slot) :
    (net.udpRx pkt data n).val = net.storeAnswer slot
      (findAnswer pkt (data + UDP_HDR_LEN) (field16 pkt (data + 4) - UDP_HDR_LEN) r.message.answers.length
        (skipQuestions pkt (data + UDP_HDR_LEN) (field16 pkt (data + 4) - UDP_HDR_LEN)
          r.message.questions.length 12).val).val := by
  have hheader := r.message.header
  have hlength := r.length
  have hport : (read16 pkt data).val = DNS_PORT := r.srcPort
  have hlen : (read16 pkt (data + 4)).val = field16 pkt (data + 4) := rfl
  have hmin : ¬ n < UDP_HDR_LEN := by
    unfold UDP_HDR_LEN at hheader ⊢
    omega
  have hplen : ¬ field16 pkt (data + 4) < UDP_HDR_LEN := by
    unfold UDP_HDR_LEN at hheader ⊢
    omega
  rw [NetStack.udpRx, if_neg hmin]
  simp only [Traced.val_bind, hport, hlen, if_neg hplen, hheader, and_self, if_true, ge_iff_le]
  have hid : (read16 pkt (data + UDP_HDR_LEN)).val = Dns.word (messageAt pkt (data + UDP_HDR_LEN)) 0 :=
    val_read16_word 0
  have hflags : ¬ (Dns.word (messageAt pkt (data + UDP_HDR_LEN)) 2 &&& 0x8000 = 0 ∨
      Dns.word (messageAt pkt (data + UDP_HDR_LEN)) 2 &&& 0x000F ≠ 0) :=
    fun h => h.elim r.message.isResponse fun hcode => hcode r.message.noError
  rw [NetStack.dnsRx]
  simp only [Traced.val_bind, val_read16_word, hid, if_neg hflags, r.pending, r.message.qdcount, r.message.ancount,
    Traced.val_pure]

/-- The query is resolved to the address of the first A/IN record, or left alone. -/
def PendingResponse.Resolves (r : PendingResponse net pkt data n slot) : Prop :=
  (net.udpRx pkt data n).val = net.storeAnswer slot r.message.firstAddress

/-- An answer resolves the query of its slot. -/
theorem storeAnswer_ne {id ip : Nat} (h : net.dnsSlot id = some slot) : net.storeAnswer slot (some ip) ≠ net := by
  intro heq
  have hqueries : (net.dnsQueries.modify slot fun q => { q with resultIp := ip, resolved := true }) = net.dnsQueries :=
    congrArg NetStack.dnsQueries heq
  obtain ⟨hlt, hfound, -⟩ := List.findIdx?_eq_some_iff_getElem.mp h
  have hget : (net.dnsQueries.modify slot fun q => { q with resultIp := ip, resolved := true })[slot]? =
      some { net.dnsQueries[slot] with resultIp := ip, resolved := true } := by
    simp [List.getElem?_eq_getElem hlt]
  rw [hqueries, List.getElem?_eq_getElem hlt] at hget
  have hresolved : net.dnsQueries[slot].resolved = true := congrArg DnsQuery.resolved (Option.some.inj hget)
  simp [hresolved] at hfound

theorem Steady.resolves {r : PendingResponse net pkt data n slot} (h : Steady r.message) : r.Resolves := by
  have hmid := skipQuestions_steady r.message.asked h.questions
  have hanswer := findAnswer_steady r.message.answered h.answers
  rw [PendingResponse.Resolves, r.udpRx, hmid, hanswer]
  rfl

/-- Where a slip shows, the query is left alone. -/
theorem Telltale.lost {r : PendingResponse net pkt data n slot} (h : Telltale r.message) (hslip : ¬ Steady r.message) :
    (net.udpRx pkt data n).val = net := by
  have hsome : ∃ a ∈ upToAddress (messageAt pkt (data + UDP_HDR_LEN)) r.message.answers,
      AnswerSlips (messageAt pkt (data + UDP_HDR_LEN)) (field16 pkt (data + 4) - UDP_HDR_LEN) a := by
    by_contra hno
    exact hslip ⟨h.questions, fun a ha hs => hno ⟨a, ha, hs⟩⟩
  rw [r.udpRx, skipQuestions_steady r.message.asked h.questions,
    findAnswer_slipped r.message.answered h.short h.lengths hsome]
  rfl

theorem Telltale.resolves_iff {r : PendingResponse net pkt data n slot} (h : Telltale r.message) :
    r.Resolves ↔ r.message.firstAddress = none ∨ Steady r.message := by
  by_cases hsteady : Steady r.message
  · exact iff_of_true hsteady.resolves (Or.inr hsteady)
  · rw [or_iff_left hsteady, PendingResponse.Resolves, h.lost hsteady]
    cases hfirst : r.message.firstAddress with
    | none => exact iff_of_true rfl rfl
    | some ip => exact iff_of_false (storeAnswer_ne r.pending).symm (Option.some_ne_none ip)

/-- A datagram that is no longer than it says is read within its length. -/
theorem udpFits_of_length (net : NetStack) {pkt : Mem} {data n : Nat} (h : field16 pkt (data + 4) ≤ n) :
    UdpFits net pkt data n (data + n) := by
  intro hn
  unfold UDP_HDR_LEN at hn ⊢
  refine ⟨by omega, fun _ hplen => ⟨by omega, fun _ _ _ c _ => ?_⟩⟩
  cases c <;> unfold DnsMessage.Covered
  · trivial
  · dsimp only
    omega
  · dsimp only
    omega
  · dsimp only
    omega
  · dsimp only
    refine fun hfit => ⟨by omega, fun haddr => ?_⟩
    have hdata := haddr.2.2.2
    dsimp only at hdata
    omega

/-- **DNS answers**: the bytes read lie below the received length exactly where the walk over
    the message does; and a response resolves its query as it should if the parser slips
    behind no name, exactly then where a slip shows. -/
theorem udpRx_dns (net : NetStack) (pkt : Mem) (data n : Nat) :
    (Safe (data + n) (net.udpRx pkt data n) ↔ UdpFits net pkt data n (data + n)) ∧
      ∀ slot (r : PendingResponse net pkt data n slot),
        (Steady r.message → r.Resolves) ∧
          (Telltale r.message → (r.Resolves ↔ r.message.firstAddress = none ∨ Steady r.message)) :=
  ⟨safe_udpRx, fun _ _ => ⟨Steady.resolves, Telltale.resolves_iff⟩⟩

/-! ## Two answers -/

/-- A query is pending in slot 0. -/
def askingNet : NetStack :=
  { netInit none (fun _ => true) with dnsQueries := [⟨0x1234, 0, false, true⟩] }

/-- A UDP header from port 53, and a response with one question, for `a`, and one answer. -/
def responseTo (udpLen : Nat) (answer : List Nat) : Mem :=
  packetOf ([0, 53, 4, 0, 0, udpLen, 0, 0] ++
    [0x12, 0x34, 0x81, 0x80, 0, 1, 0, 1, 0, 0, 0, 0] ++ [1, 97, 0, 0, 1, 0, 1] ++ answer)

/-- Type A, class IN, a minute to live and the address 1.2.3.4. -/
def addressRecord : List Nat := [0, 1, 0, 1, 0, 0, 0, 60, 0, 4, 1, 2, 3, 4]

/-- The name of the answer is a pointer to that of the question. -/
def pointerAnswer : Mem := responseTo 43 ([0xC0, 0x0C] ++ addressRecord)

/-- The name of the answer is `b` in front of that of the question. -/
def labelAnswer : Mem := responseTo 45 ([1, 98, 0xC0, 0x0C] ++ addressRecord)

section

variable {m : Dns.Bytes} {len : Nat}

/-- The name `a` at 12. -/
theorem questionName (hlen : 15 ≤ len) (hone : m 12 = 1) (hzero : m 14 = 0) : Dns.NameAt m len 12 [[m 13]] 15 := by
  have hnat : (m 12).toNat = 1 := by rw [hone]; rfl
  have hrest : Dns.NameAt m len (12 + 1 + (m 12).toNat) [] 15 := by
    rw [hnat]
    exact .root hlen hzero
  have hname := Dns.NameAt.label (by omega) (by omega) (by omega) hrest
  rw [hnat] at hname
  exact hname

theorem questionAsked (hlen : 19 ≤ len) (hone : m 12 = 1) (hzero : m 14 = 0) :
    Dns.Section (Dns.QuestionAt m len) 12 [⟨12, 15⟩] 19 :=
  .cons (e := ⟨12, 15⟩) ⟨⟨_, questionName (by omega) hone hzero⟩, rfl, hlen⟩ .nil

/-- A name without a pointer is skipped as it should be. -/
theorem question_steady (hlen : 15 ≤ len) (hone : m 12 = 1) (hzero : m 14 = 0) : ¬ QuestionSlips m len ⟨12, 15⟩ := by
  rintro ⟨hw, -⟩
  have hnat : (m 12).toNat = 1 := by rw [hone]; rfl
  have hrest : Dns.Written m len (12 + 1 + (m 12).toNat) .zero 15 := by
    rw [hnat]
    exact .root hlen hzero
  have hzeroEnd := Dns.Written.label (by omega) (by omega) (by omega) hrest
  exact Dns.NameEnd.noConfusion (hw.unique hzeroEnd).1

end

/-- The response with a pointer for the answer's name. -/
def pointerResponse : PendingResponse askingNet pointerAnswer 0 43 0 where
  srcPort := by decide
  length := by decide
  pending := by decide
  message :=
    { questions := [⟨12, 15⟩]
      answers := [⟨19, 21⟩]
      mid := 19
      last := 35
      header := by decide
      isResponse := by decide
      noError := by decide
      qdcount := by decide
      ancount := by decide
      asked := questionAsked (by decide) (by decide) (by decide)
      answered := .cons (e := ⟨19, 21⟩)
        ⟨⟨_, .pointer (by decide) (by decide) (by decide) (questionName (by decide) (by decide) (by decide))⟩,
          by decide, by decide, by decide⟩ .nil }

/-- The response with a label and a pointer for the answer's name. -/
def labelResponse : PendingResponse askingNet labelAnswer 0 45 0 where
  srcPort := by decide
  length := by decide
  pending := by decide
  message :=
    { questions := [⟨12, 15⟩]
      answers := [⟨19, 23⟩]
      mid := 19
      last := 37
      header := by decide
      isResponse := by decide
      noError := by decide
      qdcount := by decide
      ancount := by decide
      asked := questionAsked (by decide) (by decide) (by decide)
      answered := .cons (e := ⟨19, 23⟩)
        ⟨⟨_, .label (by decide) (by decide) (by decide)
          (.pointer (by decide) (by decide) (by decide) (questionName (by decide) (by decide) (by decide)))⟩,
          by decide, by decide, by decide⟩ .nil }

theorem pointerResponse_steady : Steady pointerResponse.message where
  questions := by
    intro q hq
    rw [List.mem_singleton.mp hq]
    exact question_steady (by decide) (by decide) (by decide)
  answers := by
    intro a ha
    have hone : upToAddress (messageAt pointerAnswer (0 + UDP_HDR_LEN)) [⟨19, 21⟩] = [⟨19, 21⟩] := by decide
    rw [show pointerResponse.message.answers = [⟨19, 21⟩] from rfl, hone, List.mem_singleton] at ha
    rw [ha]
    exact fun hslips => hslips.1.2 (by decide)

theorem udpRx_dns_pointer : pointerResponse.Resolves :=
  ((udpRx_dns askingNet pointerAnswer 0 43).2 0 pointerResponse).1 pointerResponse_steady

theorem labelResponse_slips :
    AnswerSlips (messageAt labelAnswer (0 + UDP_HDR_LEN)) (field16 labelAnswer (0 + 4) - UDP_HDR_LEN) ⟨19, 23⟩ :=
  ⟨⟨.label (by decide) (by decide) (by decide) (.pointer (by decide) (by decide)), by decide⟩, by decide⟩

/-- A response that is a header only, in a datagram that says it is longer. -/
def cutResponse : Mem := responseTo 200 []

/-- **The answer behind a label and a pointer is not found, and a length that is not the
    datagram's is followed.** -/
theorem dnsAnswer_lost : ¬ labelResponse.Resolves ∧ ¬ Safe (0 + 20) (askingNet.udpRx cutResponse 0 20) := by
  constructor
  · have htelltale : Telltale labelResponse.message := by
      refine ⟨by decide, ?_, by decide⟩
      intro q hq
      rw [List.mem_singleton.mp hq]
      exact question_steady (by decide) (by decide) (by decide)
    rw [htelltale.resolves_iff, not_or]
    refine ⟨by decide, fun hsteady => ?_⟩
    exact hsteady.answers ⟨19, 23⟩ (by decide) labelResponse_slips
  · intro hsafe
    have hfits := (safe_udpRx.mp hsafe (by decide)).2 (by decide) (by decide)
    have hwalk := hfits.2 (by decide) (by decide) (by decide)
    have hcovered := hwalk _ (.single (.question (by decide)))
    exact absurd (hcovered (by decide)) (by decide)

end Crimson.Net
