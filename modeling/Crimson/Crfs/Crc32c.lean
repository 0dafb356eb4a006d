import Crimson.Crfs.Volume
import Crimson.Lib.ShiftRegister

/-!
# The checksum of the metadata (`crc32c` in `crfs.c`)

The loop adds a byte to the register and shifts it eight times. That is the same as taking in the
bits of the byte one by one, the lowest first (`crcByte_eq`), so `crc32c` is what a shift register
with the polynomial 0x82F63B78 makes of all the bits of the data.
-/

set_option autoImplicit false

namespace Crimson.Crfs

open Crimson.Lib Crimson.Lib.ShiftRegister

/-- The bytes that the checksum is taken of. -/
def firstBytes (data : Mem) (len : Nat) : List (BitVec 8) := (List.range len).map data

/-- The bits of a byte in the order in which they are shifted out. -/
def byteBits (b : BitVec 8) : List Bool := (List.range 8).map b.getLsbD

/-- The bits of the bytes in the order in which the loop consumes them. -/
def consumed (bytes : List (BitVec 8)) : List Bool := bytes.flatMap byteBits

/-- They differ only in this window of 32 bits. -/
def DifferWithin (bytes bytes' : List (BitVec 8)) (start : Nat) : Prop :=
  ∀ k, (consumed bytes).getD k false ≠ (consumed bytes').getD k false → start ≤ k ∧ k < start + 32

/-- The polynomial. -/
def crcPoly : BitVec 32 := 0x82F63B78

/-! ## The register -/

theorem crcBit_eq (crc : BitVec 32) : crcBit crc = shift crcPoly crc := by
  have hlow : crc &&& 1#32 = lowBit 32 (crc.getLsbD 0) := BitVec.and_one_eq_setWidth_ofBool_getLsbD
  rw [crcBit, shift, hlow]
  cases crc.getLsbD 0
  · exact BitVec.xor_zero
  · rfl

theorem crcBits_eq : crcBit^[8] = (shift crcPoly)^[8] := by
  rw [show crcBit = shift crcPoly from funext crcBit_eq]

theorem ofBits_byteBits (b : BitVec 8) : ofBits 32 (byteBits b) = b.setWidth 32 := by
  apply BitVec.eq_of_getLsbD_eq
  intro i hi
  rw [getLsbD_ofBits, decide_eq_true hi, Bool.true_and, BitVec.getLsbD_setWidth, decide_eq_true hi, Bool.true_and]
  by_cases h8 : i < 8
  · rw [List.getD_eq_getElem _ _ (by simpa [byteBits] using h8)]
    simp [byteBits]
  · rw [List.getD_eq_default _ _ (by simpa [byteBits] using h8), BitVec.getLsbD_of_ge _ _ (by omega)]

theorem crcByte_eq (crc : BitVec 32) (b : BitVec 8) : crcByte crc b = feedAll crcPoly crc (byteBits b) := by
  rw [crcByte, crcBits_eq, ← ofBits_byteBits, feedAll_eq (by simp [byteBits])]
  rfl

theorem crcBytes_eq (bytes : List (BitVec 8)) (crc : BitVec 32) :
    bytes.foldl crcByte crc = feedAll crcPoly crc (consumed bytes) := by
  induction bytes generalizing crc with
  | nil => rfl
  | cons b bytes ih =>
    have hbits : consumed (b :: bytes) = byteBits b ++ consumed bytes := rfl
    rw [List.foldl_cons, ih, hbits, feedAll_append, crcByte_eq]

theorem crc32c_eq (data : Mem) (len : Nat) :
    crc32c data len = ~~~(feedAll crcPoly 0xFFFFFFFF#32 (consumed (firstBytes data len))) := by
  rw [crc32c, ← crcBytes_eq, firstBytes, List.foldl_map]

/-! ## What it notices -/

theorem crcPoly_msb : crcPoly.msb = true := by decide

theorem length_consumed (bytes : List (BitVec 8)) : (consumed bytes).length = 8 * bytes.length := by
  induction bytes with
  | nil => rfl
  | cons b bytes ih =>
    have hbits : consumed (b :: bytes) = byteBits b ++ consumed bytes := rfl
    rw [hbits, List.length_append, ih, List.length_cons]
    simp [byteBits]
    omega

theorem byteBits_injective : Function.Injective byteBits := by
  intro b b' h
  apply BitVec.eq_of_getLsbD_eq
  intro i hi
  have hbit := congrArg (fun bits => bits.getD i false) h
  simpa [byteBits, hi] using hbit

theorem consumed_injective : Function.Injective consumed := by
  intro bytes bytes' h
  induction bytes generalizing bytes' with
  | nil =>
    have hlen := length_consumed bytes'
    rw [← h] at hlen
    exact (List.length_eq_zero_iff.mp (by simpa [consumed] using hlen.symm)).symm
  | cons b bytes ih =>
    cases bytes' with
    | nil => simp [consumed, byteBits] at h
    | cons b' bytes' =>
      have hsplit : byteBits b ++ consumed bytes = byteBits b' ++ consumed bytes' := h
      obtain ⟨hfirst, hrest⟩ := List.append_inj hsplit (by simp [byteBits])
      rw [byteBits_injective hfirst, ih hrest]

/-- **Changes inside 32 bits in a row change the checksum**; and the inner loop is linear and loses
    nothing. -/
theorem crc32c_notices :
    (∀ (data data' : Mem) len start, firstBytes data len ≠ firstBytes data' len →
      DifferWithin (firstBytes data len) (firstBytes data' len) start → crc32c data len ≠ crc32c data' len) ∧
    (∀ crc crc', crcBit^[8] (crc ^^^ crc') = crcBit^[8] crc ^^^ crcBit^[8] crc') ∧ Function.Injective crcBit^[8] := by
  refine ⟨?_, ?_, ?_⟩
  · intro data data' len start hne hwithin heq
    rw [crc32c_eq, crc32c_eq] at heq
    have hreg := BitVec.not_inj.mp heq
    have hlen : (consumed (firstBytes data len)).length = (consumed (firstBytes data' len)).length := by
      rw [length_consumed, length_consumed, firstBytes, firstBytes, List.length_map, List.length_map]
    exact feedAll_ne_of_window crcPoly_msb hlen (fun h => hne (consumed_injective h)) hwithin hreg
  · intro crc crc'
    rw [crcBits_eq]
    exact iterate_shift_xor 8
  · rw [crcBits_eq]
    exact (shift_injective crcPoly_msb).iterate 8

/-- A byte and another one. -/
theorem crc32c_one_byte : crc32c (fun _ => 0) 1 ≠ crc32c (fun _ => 1) 1 := by
  refine crc32c_notices.1 (fun _ => 0) (fun _ => 1) 1 0 (by decide) fun k hk => ⟨Nat.zero_le k, ?_⟩
  by_contra hfar
  rw [List.getD_eq_default _ _ (by rw [length_consumed]; simp [firstBytes]; omega),
    List.getD_eq_default _ _ (by rw [length_consumed]; simp [firstBytes]; omega)] at hk
  exact hk rfl

end Crimson.Crfs
