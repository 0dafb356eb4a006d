import Mathlib.Algebra.Group.Nat.Defs
import Mathlib.Data.List.Basic

/-!
# DNS messages

The format of RFC 1035 as a grammar over the bytes of a message. A name is a sequence of
labels that ends with a zero byte or with a pointer to an earlier name; what it stands
for and where it ends in the message are determined by where it starts
(`NameAt.unique`). A question is a name and two 16-bit numbers, a resource record a name,
a fixed part of ten bytes and its data.
-/

set_option autoImplicit false

namespace Crimson.Lib.Dns

/-- The bytes of a message. -/
abbrev Bytes := Nat → BitVec 8

/-- A 16-bit number, its high byte first. -/
def word (m : Bytes) (a : Nat) : Nat := (m a).toNat * 256 + (m (a + 1)).toNat

/-- The `n` bytes from `a`. -/
def slice (m : Bytes) (a n : Nat) : List (BitVec 8) := (List.range n).map fun i => m (a + i)

/-- The byte says that a pointer starts there. -/
def PointerByte (b : BitVec 8) : Prop := b.toNat / 64 = 3

instance (b : BitVec 8) : Decidable (PointerByte b) := inferInstanceAs (Decidable (_ = _))

/-- The place a pointer at `a` points to. -/
def target (m : Bytes) (a : Nat) : Nat := (m a).toNat % 64 * 256 + (m (a + 1)).toNat

/-- In a message of `len` bytes the name at the first place has the labels and ends before
    the second place. -/
inductive NameAt (m : Bytes) (len : Nat) : Nat → List (List (BitVec 8)) → Nat → Prop
  | root {off : Nat} (h : off < len) (hzero : m off = 0) : NameAt m len off [] (off + 1)
  | label {off next : Nat} {labels : List (List (BitVec 8))} (h : off < len) (hpos : 0 < (m off).toNat)
      (hmax : (m off).toNat ≤ 63) (rest : NameAt m len (off + 1 + (m off).toNat) labels next) :
      NameAt m len off (slice m (off + 1) (m off).toNat :: labels) next
  | pointer {off next : Nat} {labels : List (List (BitVec 8))} (h : off + 1 < len) (hptr : PointerByte (m off))
      (hprior : target m off < off) (name : NameAt m len (target m off) labels next) : NameAt m len off labels (off + 2)

variable {m : Bytes} {len : Nat}

@[simp] theorem length_slice (a n : Nat) : (slice m a n).length = n := by simp [slice]

theorem slice_add (a n k : Nat) : slice m a (n + k) = slice m a n ++ slice m (a + n) k := by
  simp [slice, List.range_add, Nat.add_assoc]

theorem slice_succ (a n : Nat) : slice m a (n + 1) = m a :: slice m (a + 1) n := by
  rw [Nat.add_comm, slice_add]
  simp [slice]

/-- The bytes stand in the message from `a` on. -/
def Holds (m : Bytes) (a : Nat) (bs : List (BitVec 8)) : Prop := slice m a bs.length = bs

theorem holds_append {a : Nat} {bs cs : List (BitVec 8)} :
    Holds m a (bs ++ cs) ↔ Holds m a bs ∧ Holds m (a + bs.length) cs := by
  unfold Holds
  rw [List.length_append, slice_add]
  constructor
  · exact fun h => List.append_inj h (length_slice a bs.length)
  · rintro ⟨hbs, hcs⟩
    rw [hbs, hcs]

theorem holds_cons {a : Nat} {b : BitVec 8} {bs : List (BitVec 8)} :
    Holds m a (b :: bs) ↔ m a = b ∧ Holds m (a + 1) bs := by
  unfold Holds
  rw [List.length_cons, slice_succ, List.cons.injEq]

theorem not_pointerByte_of_le {b : BitVec 8} (h : b.toNat ≤ 63) : ¬ PointerByte b := by
  unfold PointerByte
  omega

theorem not_pointerByte_zero : ¬ PointerByte 0 := by decide

/-- **A name is determined by where it starts.** -/
theorem NameAt.unique {off next next' : Nat} {labels labels' : List (List (BitVec 8))} (h : NameAt m len off labels next)
    (h' : NameAt m len off labels' next') : labels = labels' ∧ next = next' := by
  induction h generalizing labels' next' with
  | root hlt hzero =>
    cases h' with
    | root _ _ => exact ⟨rfl, rfl⟩
    | label _ hpos _ _ =>
      rw [hzero] at hpos
      cases hpos
    | pointer _ hptr _ _ =>
      rw [hzero] at hptr
      exact absurd hptr not_pointerByte_zero
  | label hlt hpos hmax _ ih =>
    cases h' with
    | root _ hzero =>
      rw [hzero] at hpos
      cases hpos
    | label _ _ _ rest' =>
      obtain ⟨hlabels, hnext⟩ := ih rest'
      exact ⟨by rw [hlabels], hnext⟩
    | pointer _ hptr _ _ => exact absurd hptr (not_pointerByte_of_le hmax)
  | pointer hlt hptr _ _ ih =>
    cases h' with
    | root _ hzero =>
      rw [hzero] at hptr
      exact absurd hptr not_pointerByte_zero
    | label _ _ hmax _ => exact absurd hptr (not_pointerByte_of_le hmax)
    | pointer _ _ _ name' => exact ⟨(ih name').1, rfl⟩

/-- A name without compression: each label behind its length, and a zero byte. -/
def nameBytes (labels : List (List (BitVec 8))) : List (BitVec 8) :=
  labels.flatMap (fun l => BitVec.ofNat 8 l.length :: l) ++ [0]

/-- Labels may have up to 63 bytes and none is empty. -/
def ValidLabels (labels : List (List (BitVec 8))) : Prop := ∀ l ∈ labels, 1 ≤ l.length ∧ l.length ≤ 63

/-- **A name written without compression reads back.** -/
theorem nameAt_nameBytes {off : Nat} {labels : List (List (BitVec 8))} (hv : ValidLabels labels)
    (h : Holds m off (nameBytes labels)) (hlen : off + (nameBytes labels).length ≤ len) :
    NameAt m len off labels (off + (nameBytes labels).length) := by
  induction labels generalizing off with
  | nil =>
    obtain ⟨hzero, -⟩ := holds_cons.mp h
    have hlt : off + 1 ≤ len := hlen
    exact .root hlt hzero
  | cons l ls ih =>
    obtain ⟨hpos, hmax⟩ := hv l List.mem_cons_self
    have hsplit : nameBytes (l :: ls) = BitVec.ofNat 8 l.length :: (l ++ nameBytes ls) := by simp [nameBytes]
    have hlength : (nameBytes (l :: ls)).length = 1 + l.length + (nameBytes ls).length := by
      rw [hsplit, List.length_cons, List.length_append]
      omega
    rw [hsplit, holds_cons, holds_append] at h
    obtain ⟨hbyte, hlabel, hrest⟩ := h
    have hnat : (m off).toNat = l.length := by
      rw [hbyte, BitVec.toNat_ofNat]
      exact Nat.mod_eq_of_lt (by omega)
    have hslice : slice m (off + 1) (m off).toNat = l := by
      rw [hnat]
      exact hlabel
    rw [hlength] at hlen ⊢
    have hnext := ih (fun k hk => hv k (List.mem_cons_of_mem l hk)) hrest (by omega)
    have hend : off + 1 + l.length + (nameBytes ls).length = off + (1 + l.length + (nameBytes ls).length) := by omega
    rw [hend, ← hnat] at hnext
    rw [← hnat]
    have hname := NameAt.label (by omega) (by omega) (by omega) hnext
    rw [hslice] at hname
    exact hname

/-- A name that starts with a pointer is the pointer. -/
theorem NameAt.eq_of_pointer {off next : Nat} {labels : List (List (BitVec 8))} (h : NameAt m len off labels next)
    (hptr : PointerByte (m off)) : next = off + 2 := by
  cases h with
  | root _ hzero =>
    rw [hzero] at hptr
    exact absurd hptr not_pointerByte_zero
  | label _ _ hmax _ => exact absurd hptr (not_pointerByte_of_le hmax)
  | pointer _ _ _ _ => rfl

/-! ## Where a name ends -/

/-- How a name is written in its place: labels up to a zero byte, or up to a pointer. -/
inductive NameEnd where
  | zero
  | pointer
deriving DecidableEq, Repr

/-- The name at the first place ends before the second one, in the given way. -/
inductive Written (m : Bytes) (len : Nat) : Nat → NameEnd → Nat → Prop
  | root {off : Nat} (h : off < len) (hzero : m off = 0) : Written m len off .zero (off + 1)
  | pointer {off : Nat} (h : off + 1 < len) (hptr : PointerByte (m off)) : Written m len off .pointer (off + 2)
  | label {off next : Nat} {e : NameEnd} (h : off < len) (hpos : 0 < (m off).toNat) (hmax : (m off).toNat ≤ 63)
      (rest : Written m len (off + 1 + (m off).toNat) e next) : Written m len off e next

theorem NameAt.written {off next : Nat} {labels : List (List (BitVec 8))} (h : NameAt m len off labels next) :
    ∃ e, Written m len off e next := by
  induction h with
  | root hlt hzero => exact ⟨.zero, .root hlt hzero⟩
  | label hlt hpos hmax _ ih =>
    obtain ⟨e, hw⟩ := ih
    exact ⟨e, .label hlt hpos hmax hw⟩
  | pointer hlt hptr _ _ _ => exact ⟨.pointer, .pointer hlt hptr⟩

theorem Written.lt {off next : Nat} {e : NameEnd} (h : Written m len off e next) : off < next ∧ next ≤ len := by
  induction h with
  | root hlt _ => omega
  | pointer hlt _ => omega
  | label _ _ _ _ ih => omega

/-- How a name is written is determined too. -/
theorem Written.unique {off next next' : Nat} {e e' : NameEnd} (h : Written m len off e next)
    (h' : Written m len off e' next') : e = e' ∧ next = next' := by
  induction h with
  | root _ hzero =>
    cases h' with
    | root _ _ => exact ⟨rfl, rfl⟩
    | pointer _ hptr =>
      rw [hzero] at hptr
      exact absurd hptr not_pointerByte_zero
    | label _ hpos _ _ =>
      rw [hzero] at hpos
      cases hpos
  | pointer _ hptr =>
    cases h' with
    | root _ hzero =>
      rw [hzero] at hptr
      exact absurd hptr not_pointerByte_zero
    | pointer _ _ => exact ⟨rfl, rfl⟩
    | label _ _ hmax _ => exact absurd hptr (not_pointerByte_of_le hmax)
  | label _ hpos hmax _ ih =>
    cases h' with
    | root _ hzero =>
      rw [hzero] at hpos
      cases hpos
    | pointer _ hptr => exact absurd hptr (not_pointerByte_of_le hmax)
    | label _ _ _ rest' => exact ih rest'

/-- A name of labels and a pointer behind them. -/
def LabelsThenPointer (m : Bytes) (len off next : Nat) : Prop :=
  Written m len off .pointer next ∧ ¬ PointerByte (m off)

/-! ## Questions and records -/

/-- An entry of a section: where its name starts, and where its fixed part. -/
structure Entry where
  off : Nat
  fixed : Nat
deriving DecidableEq, Repr

/-- A question: its name, its type and its class. -/
def QuestionAt (m : Bytes) (len : Nat) (q : Entry) (next : Nat) : Prop :=
  (∃ labels, NameAt m len q.off labels q.fixed) ∧ next = q.fixed + 4 ∧ next ≤ len

/-- The question at `off` is for the labels, with the type and the class. -/
def Asks (m : Bytes) (len off : Nat) (labels : List (List (BitVec 8))) (type cls : Nat) : Prop :=
  ∃ next, NameAt m len off labels next ∧ word m next = type ∧ word m (next + 2) = cls ∧ next + 4 ≤ len

theorem Asks.unique {off type type' cls cls' : Nat} {labels labels' : List (List (BitVec 8))}
    (h : Asks m len off labels type cls) (h' : Asks m len off labels' type' cls') :
    labels' = labels ∧ type' = type ∧ cls' = cls := by
  obtain ⟨next, hname, htype, hcls, -⟩ := h
  obtain ⟨next', hname', htype', hcls', -⟩ := h'
  obtain ⟨hlabels, hnext⟩ := hname'.unique hname
  subst hnext
  exact ⟨hlabels, htype'.symm.trans htype, hcls'.symm.trans hcls⟩

/-- A record of type A and class IN. -/
def Entry.IsAddress (m : Bytes) (r : Entry) : Prop := word m r.fixed = 1 ∧ word m (r.fixed + 2) = 1

instance (m : Bytes) (r : Entry) : Decidable (r.IsAddress m) := inferInstanceAs (Decidable (_ ∧ _))

/-- The length of a record's data. -/
def Entry.rdlength (m : Bytes) (r : Entry) : Nat := word m (r.fixed + 8)

/-- The address in a record's data, its first byte the highest. -/
def Entry.address (m : Bytes) (r : Entry) : Nat := word m (r.fixed + 10) * 2 ^ 16 + word m (r.fixed + 12)

/-- A record: its name, its fixed part and its data; that of an address has four bytes. -/
def RecordAt (m : Bytes) (len : Nat) (r : Entry) (next : Nat) : Prop :=
  (∃ labels, NameAt m len r.off labels r.fixed) ∧ next = r.fixed + 10 + r.rdlength m ∧ next ≤ len ∧
    (r.IsAddress m → r.rdlength m = 4)

/-- Entries one behind the other, each as `entry` says. -/
inductive Section (entry : Entry → Nat → Prop) : Nat → List Entry → Nat → Prop
  | nil {off : Nat} : Section entry off [] off
  | cons {e : Entry} {es : List Entry} {next last : Nat} (head : entry e next) (tail : Section entry next es last) :
      Section entry e.off (e :: es) last

/-- A response: the header, the questions and the answers. What stands behind the answers
    is left open. -/
structure Response (m : Bytes) (len : Nat) where
  questions : List Entry
  answers : List Entry
  mid : Nat
  last : Nat
  header : 12 ≤ len
  isResponse : word m 2 &&& 0x8000 ≠ 0
  noError : word m 2 &&& 0x000F = 0
  qdcount : word m 4 = questions.length
  ancount : word m 6 = answers.length
  asked : Section (QuestionAt m len) 12 questions mid
  answered : Section (RecordAt m len) mid answers last

/-- The address of the first A/IN record, if there is one. -/
def Response.firstAddress (r : Response m len) : Option Nat :=
  (r.answers.find? fun e => e.IsAddress m).map fun e => e.address m

end Crimson.Lib.Dns
