import Crimson.Lib.Armv8
import Crimson.Lib.GcmField

/-!
# The multiplication of GHASH (`gcm_gmul` in `crypto_stub.c`)

`gcmGmul` is the sequence of instructions, on the registers. It is linear in both arguments
(`gcmGmulReg_xor_left`, `gcmGmulReg_xor_right`), so what it does is what it makes of a bit of
the one and a bit of the other (`pairProduct`): bits of the same half go where they belong in
the 256 bits, bits of different halves have the halves of the middle part exchanged, and the
bits of a byte stand in the order of the register and not in that of the field.
-/

set_option autoImplicit false

namespace Crimson.Crypto

open Crimson.Lib Crimson.Lib.Armv8 Crimson.Lib.GcmField
open Crimson.Lib.Aes (Block)

/-- The reduction constant. -/
def gcmR : BitVec 64 := 0xE100000000000000

/-- The instructions between the loads and the store. -/
def gcmGmulReg (v0 v1 : Reg) : Reg :=
  let v2 := pmull v0 v1
  let v3 := pmull2 v0 v1
  let v4 := ext8 v1 v1
  let v5 := pmull v0 v4
  let v6 := pmull2 v0 v4
  let v5 := v5 ^^^ v6
  let v6 : Reg := 0
  let v4 := ext8 v5 v6
  let v5 := ext8 v6 v5
  let v2 := v2 ^^^ v4
  let v3 := v3 ^^^ v5
  let v4 := dup gcmR
  let v5 := pmull2 v3 v4
  let v6 := ext8 v5 v5
  let v3 := v3 ^^^ v6
  let v2 := v2 ^^^ v5
  let v5 := pmull v3 v4
  let v2 := v2 ^^^ v5
  let v2 := v2 ^^^ v3
  v2

def gcmGmul (x y : Block) : Block := st1 (gcmGmulReg (ld1 x) (ld1 y))

/-- The product is the one of the field. -/
def IsProduct (a b : Block) : Prop := element (gcmGmul a b) = element a * element b

/-- The bit of a register that is bit `j` of the block. -/
def place (j : Nat) : Nat := 8 * (j / 8) + (7 - j % 8)

/-- What the reduction makes of bit `p` of the upper 128 bits. -/
def foldedBit (p : Nat) : Reg :=
  let r : Reg := gcmR.setWidth 128
  if p < 64 then r <<< p ^^^ BitVec.twoPow 128 p
  else
    let c := r <<< (p - 64)
    c ^^^ ext8 c c ^^^ polynomialMult (hi c) gcmR ^^^ BitVec.twoPow 128 p

/-- What the instructions make of bit `n` of the one register and bit `m` of the other. -/
def pairProduct (n m : Nat) : Reg :=
  if n < 64 ∧ m < 64 then BitVec.twoPow 128 (n + m)
  else if 64 ≤ n ∧ 64 ≤ m then foldedBit (n + m - 128)
  -- the middle part, with its lower half in the upper 128 bits and its upper half in the lower
  else if n + m < 128 then foldedBit (n + m)
  else BitVec.twoPow 128 (n + m - 128)

/-- By how much it misses the product of bit `j` of the one block and bit `k` of the other. -/
noncomputable def pairError (j k : Nat) : Element := element (st1 (pairProduct (place j) (place k))) + x ^ (j + k)

variable {v w v' w' : Reg} {a b : Block} {n m : Nat}

/-! ## Linearity -/

theorem pmull_xor_left : pmull (v ^^^ v') w = pmull v w ^^^ pmull v' w := by
  simp only [pmull, lo_xor, polynomialMult_xor_left]

theorem pmull_xor_right : pmull v (w ^^^ w') = pmull v w ^^^ pmull v w' := by
  simp only [pmull, lo_xor, polynomialMult_xor_right]

theorem pmull2_xor_left : pmull2 (v ^^^ v') w = pmull2 v w ^^^ pmull2 v' w := by
  simp only [pmull2, hi_xor, polynomialMult_xor_left]

theorem pmull2_xor_right : pmull2 v (w ^^^ w') = pmull2 v w ^^^ pmull2 v w' := by
  simp only [pmull2, hi_xor, polynomialMult_xor_right]

/-- The two rounds of the reduction. -/
def reduceReg (v2 v3 : Reg) : Reg :=
  let v5 := pmull2 v3 (dup gcmR)
  let v3 := v3 ^^^ ext8 v5 v5
  v2 ^^^ v5 ^^^ pmull v3 (dup gcmR) ^^^ v3

/-- The middle part of the product. -/
def middle (v w : Reg) : Reg := polynomialMult (lo v) (hi w) ^^^ polynomialMult (hi v) (lo w)

theorem gcmGmulReg_eq : gcmGmulReg v w =
    reduceReg (pmull v w ^^^ ext8 (middle v w) 0) (pmull2 v w ^^^ ext8 0 (middle v w)) := by
  have hmiddle : pmull v (ext8 w w) ^^^ pmull2 v (ext8 w w) = middle v w := by
    simp only [pmull, pmull2, middle, lo_ext8, hi_ext8]
  simp only [gcmGmulReg, hmiddle]
  rfl

theorem middle_xor_left : middle (v ^^^ v') w = middle v w ^^^ middle v' w := by
  simp only [middle, lo_xor, hi_xor, polynomialMult_xor_left]
  ac_rfl

theorem middle_xor_right : middle v (w ^^^ w') = middle v w ^^^ middle v w' := by
  simp only [middle, lo_xor, hi_xor, polynomialMult_xor_right]
  ac_rfl

theorem reduceReg_xor : reduceReg (v ^^^ v') (w ^^^ w') = reduceReg v w ^^^ reduceReg v' w' := by
  simp only [reduceReg, pmull_xor_left, pmull2_xor_left, ext8_xor]
  ac_rfl

theorem ext8_xor_zero : ext8 (v ^^^ v') 0 = ext8 v 0 ^^^ ext8 v' 0 :=
  ext8_xor v v' 0 0

theorem ext8_zero_xor : ext8 0 (v ^^^ v') = ext8 0 v ^^^ ext8 0 v' :=
  ext8_xor 0 0 v v'

theorem gcmGmulReg_xor_left : gcmGmulReg (v ^^^ v') w = gcmGmulReg v w ^^^ gcmGmulReg v' w := by
  simp only [gcmGmulReg_eq, ← reduceReg_xor, pmull_xor_left, pmull2_xor_left, middle_xor_left, ext8_xor_zero,
    ext8_zero_xor]
  congr 1 <;> ac_rfl

theorem gcmGmulReg_xor_right : gcmGmulReg v (w ^^^ w') = gcmGmulReg v w ^^^ gcmGmulReg v w' := by
  simp only [gcmGmulReg_eq, ← reduceReg_xor, pmull_xor_right, pmull2_xor_right, middle_xor_right, ext8_xor_zero,
    ext8_zero_xor]
  congr 1 <;> ac_rfl

/-! ## A pair of bits -/

theorem lo_twoPow (n : Nat) : lo (BitVec.twoPow 128 n) = if n < 64 then BitVec.twoPow 64 n else 0 := by
  apply BitVec.eq_of_getLsbD_eq
  intro i hi
  rw [getLsbD_lo, BitVec.getLsbD_twoPow]
  split <;> rename_i hn
  · simp [hi, Nat.lt_trans hn, eq_comm]
  · simp [Nat.ne_of_gt (Nat.lt_of_lt_of_le hi (Nat.le_of_not_lt hn))]

theorem hi_twoPow (hn : n < 128) : hi (BitVec.twoPow 128 n) = if n < 64 then 0 else BitVec.twoPow 64 (n - 64) := by
  apply BitVec.eq_of_getLsbD_eq
  intro i hi
  rw [getLsbD_hi, BitVec.getLsbD_twoPow, decide_eq_true hi, Bool.true_and]
  split <;> rename_i hlow
  · simp [show n ≠ 64 + i by omega]
  · have hplace : n = 64 + i ↔ n - 64 = i := by omega
    rw [BitVec.getLsbD_twoPow, decide_eq_true hn, decide_eq_true (show n - 64 < 64 by omega), Bool.true_and,
      Bool.true_and, decide_eq_decide.mpr hplace]

theorem polynomialMult_twoPow (hn : n < 64) (hm : m < 64) :
    polynomialMult (BitVec.twoPow 64 n) (BitVec.twoPow 64 m) = BitVec.twoPow 128 (n + m) := by
  rw [polynomialMult_twoPow_left _ hn]
  apply twoPow_ext
  intro i hi
  rw [BitVec.getLsbD_shiftLeft, BitVec.getLsbD_setWidth, BitVec.getLsbD_twoPow, Bool.eq_iff_iff]
  simp only [Bool.and_eq_true, decide_eq_true_eq, Bool.not_eq_true', decide_eq_false_iff_not]
  omega

theorem ext8_twoPow_zero (hn : n < 128) :
    ext8 (BitVec.twoPow 128 n) 0 = if n < 64 then 0 else BitVec.twoPow 128 (n - 64) := by
  apply BitVec.eq_of_getLsbD_eq
  intro i hi
  rw [getLsbD_ext8 _ _ hi, BitVec.getLsbD_twoPow, apply_ite (fun v => BitVec.getLsbD v i), BitVec.getLsbD_twoPow,
    decide_eq_true hn]
  by_cases hlow : n < 64
  · by_cases hilow : i < 64
    · simp [hlow, hilow, show n ≠ 64 + i by omega]
    · simp [hlow, hilow]
  · by_cases hilow : i < 64
    · have hplace : n = 64 + i ↔ n - 64 = i := by omega
      simp [hlow, hilow, decide_eq_decide.mpr hplace, show n - 64 < 128 by omega]
    · simp [hlow, hilow, show n - 64 ≠ i by omega]

theorem ext8_zero_twoPow (hn : n < 128) :
    ext8 0 (BitVec.twoPow 128 n) = if n < 64 then BitVec.twoPow 128 (n + 64) else 0 := by
  apply BitVec.eq_of_getLsbD_eq
  intro i hi
  rw [getLsbD_ext8 _ _ hi, BitVec.getLsbD_twoPow, apply_ite (fun v => BitVec.getLsbD v i), BitVec.getLsbD_twoPow,
    decide_eq_true hn]
  by_cases hlow : n < 64
  · by_cases hilow : i < 64
    · simp [hlow, hilow, show n + 64 ≠ i by omega]
    · have hplace : n = i - 64 ↔ n + 64 = i := by omega
      simp [hlow, hilow, decide_eq_decide.mpr hplace, show n + 64 < 128 by omega]
  · by_cases hilow : i < 64
    · simp [hlow, hilow]
    · simp [hlow, hilow, show n ≠ i - 64 by omega]

/-- Nothing in the upper bits, nothing to reduce. -/
theorem reduceReg_zero : reduceReg v 0 = v := by
  simp only [reduceReg, pmull, pmull2, lo_zero, hi_zero, polynomialMult_zero_left, ext8_zero, reg_xor_zero]

theorem reduceReg_twoPow (hn : n < 128) : reduceReg 0 (BitVec.twoPow 128 n) = foldedBit n := by
  by_cases hlow : n < 64
  · have hupper : pmull2 (BitVec.twoPow 128 n) (dup gcmR) = 0 := by
      rw [pmull2, hi_twoPow hn, if_pos hlow, polynomialMult_zero_left]
    have hlower : pmull (BitVec.twoPow 128 n) (dup gcmR) = gcmR.setWidth 128 <<< n := by
      rw [pmull, lo_twoPow, if_pos hlow, lo_dup, polynomialMult_twoPow_left _ hlow]
    simp only [reduceReg, foldedBit, hupper, hlower, hlow, if_true, ext8_zero, reg_xor_zero, reg_zero_xor]
  · have hupper : pmull2 (BitVec.twoPow 128 n) (dup gcmR) = gcmR.setWidth 128 <<< (n - 64) := by
      rw [pmull2, hi_twoPow hn, if_neg hlow, hi_dup, polynomialMult_twoPow_left _ (by omega)]
    have hlower (c : Reg) : pmull (BitVec.twoPow 128 n ^^^ ext8 c c) (dup gcmR) = polynomialMult (hi c) gcmR := by
      rw [pmull, lo_xor, lo_twoPow, if_neg hlow, lo_ext8, lo_dup]
      exact congrArg (fun v => polynomialMult v gcmR) BitVec.zero_xor
    simp only [reduceReg, foldedBit, hupper, hlower, hlow, if_false, reg_zero_xor]
    ac_rfl

/-- A bit of the middle part. -/
theorem reduceReg_middle (hn : n < 128) :
    reduceReg (ext8 (BitVec.twoPow 128 n) 0) (ext8 0 (BitVec.twoPow 128 n)) =
      if n < 64 then foldedBit (n + 64) else BitVec.twoPow 128 (n - 64) := by
  rw [ext8_twoPow_zero hn, ext8_zero_twoPow hn]
  by_cases hlow : n < 64
  · rw [if_pos hlow, if_pos hlow, if_pos hlow, reduceReg_twoPow (by omega)]
  · rw [if_neg hlow, if_neg hlow, if_neg hlow, reduceReg_zero]

/-- **A bit of each, through the instructions.** -/
theorem gcmGmulReg_twoPow (hn : n < 128) (hm : m < 128) :
    gcmGmulReg (BitVec.twoPow 128 n) (BitVec.twoPow 128 m) = pairProduct n m := by
  rw [gcmGmulReg_eq]
  simp only [pmull, pmull2, middle, lo_twoPow, hi_twoPow hn, hi_twoPow hm, pairProduct]
  -- which halves the bits are in decides which of the four products is not 0
  by_cases hnlow : n < 64
  · by_cases hmlow : m < 64
    · simp only [hnlow, hmlow, if_true, and_self, polynomialMult_zero_left, polynomialMult_zero_right,
        reg_xor_zero, ext8_zero, polynomialMult_twoPow hnlow hmlow, reduceReg_zero]
    · have hmid : reduceReg _ _ = _ := reduceReg_middle (show n + (m - 64) < 128 by omega)
      simp only [hnlow, hmlow, if_true, if_false, and_false, polynomialMult_zero_left, polynomialMult_zero_right,
        reg_zero_xor, reg_xor_zero, Nat.not_le_of_lt hnlow, false_and,
        polynomialMult_twoPow hnlow (show m - 64 < 64 by omega), hmid]
      by_cases hsum : n + m < 128
      · rw [if_pos (by omega), if_pos hsum, show n + (m - 64) + 64 = n + m by omega]
      · rw [if_neg (by omega), if_neg hsum, show n + (m - 64) - 64 = n + m - 128 by omega]
  · by_cases hmlow : m < 64
    · have hmid : reduceReg _ _ = _ := reduceReg_middle (show n - 64 + m < 128 by omega)
      simp only [hnlow, hmlow, if_true, if_false, false_and, polynomialMult_zero_left, polynomialMult_zero_right,
        reg_zero_xor, Nat.not_le_of_lt hmlow, and_false,
        polynomialMult_twoPow (show n - 64 < 64 by omega) hmlow, hmid]
      by_cases hsum : n + m < 128
      · rw [if_pos (by omega), if_pos hsum, show n - 64 + m + 64 = n + m by omega]
      · rw [if_neg (by omega), if_neg hsum, show n - 64 + m - 64 = n + m - 128 by omega]
    · have hsum : n - 64 + (m - 64) = n + m - 128 := by omega
      simp only [hnlow, hmlow, Nat.le_of_not_lt hnlow, Nat.le_of_not_lt hmlow, if_true, if_false, and_self,
        polynomialMult_zero_left, polynomialMult_zero_right, reg_xor_zero, ext8_zero,
        polynomialMult_twoPow (show n - 64 < 64 by omega) (show m - 64 < 64 by omega), hsum]
      exact reduceReg_twoPow (by omega)

/-! ## Registers as elements -/

noncomputable def regElement (v : Reg) : Element := element (st1 v)

theorem place_lt (hn : n < 128) : place n < 128 := by
  unfold place
  omega

theorem place_place (n : Nat) : place (place n) = n := by
  unfold place
  omega

theorem bit_st1 (v : Reg) (j : Fin 128) : bit (st1 v) j = v.getLsbD (place j) := by
  have hplace : 8 * (j.val / 8) + (8 - 1 - j.val % 8) = place j := by
    unfold place
    omega
  rw [bit, get_st1, BitVec.getMsbD_eq_getLsbD, lane, BitVec.getLsbD_extractLsb', hplace]
  simp [show j.val % 8 < 8 by omega, show 7 - j.val % 8 < 8 by omega]

theorem regElement_eq_sum : regElement v = ∑ j : Fin 128, if v.getLsbD (place j) then x ^ j.val else 0 := by
  simp only [regElement, element_eq_sum, bit_st1]

/-- A sum over the bits of a register respects `^^^`. -/
theorem ite_xor (p q : Bool) (e : Element) : (if p ^^ q then e else 0) = (if p then e else 0) + if q then e else 0 := by
  cases p <;> cases q <;> simp

theorem regElement_xor : regElement (v ^^^ w) = regElement v + regElement w := by
  simp only [regElement_eq_sum, BitVec.getLsbD_xor, ite_xor, Finset.sum_add_distrib]

theorem regElement_twoPow (hn : n < 128) : regElement (BitVec.twoPow 128 n) = x ^ place n := by
  rw [regElement_eq_sum, Finset.sum_eq_single ⟨place n, place_lt hn⟩]
  · simp [place_place, hn]
  · intro j _ hj
    have hne : n ≠ place j := by
      rintro rfl
      exact hj (Fin.ext (place_place j).symm)
    simp [hne]
  · simp

theorem regElement_zero : regElement 0 = 0 := by
  simp [regElement_eq_sum]

theorem regElement_eq_zero (h : regElement v = 0) : v = 0 := by
  have hst : st1 v = st1 0 := element_injective (h.trans regElement_zero.symm)
  have hld := congrArg ld1 hst
  rwa [ld1_st1, ld1_st1] at hld

theorem element_eq (a : Block) : element a = regElement (ld1 a) := by
  rw [regElement, st1_ld1]

theorem isProduct_iff : IsProduct a b ↔
    regElement (gcmGmulReg (ld1 a) (ld1 b)) + regElement (ld1 a) * regElement (ld1 b) = 0 := by
  rw [add_eq_zero_iff, IsProduct, element_eq a, element_eq b]
  rfl

/-! ## The errors of the pairs of bits -/

noncomputable def errorSum (v w : Reg) : Element :=
  ∑ j : Fin 128, ∑ k : Fin 128, if v.getLsbD (place j) && w.getLsbD (place k) then pairError j k else 0

theorem errorSum_xor_left : errorSum (v ^^^ v') w = errorSum v w + errorSum v' w := by
  simp only [errorSum, BitVec.getLsbD_xor, Bool.and_xor_distrib_right, ite_xor, Finset.sum_add_distrib]

theorem errorSum_xor_right : errorSum v (w ^^^ w') = errorSum v w + errorSum v w' := by
  simp only [errorSum, BitVec.getLsbD_xor, Bool.and_xor_distrib_left, ite_xor, Finset.sum_add_distrib]

theorem errorSum_twoPow (hn : n < 128) (hm : m < 128) :
    errorSum (BitVec.twoPow 128 n) (BitVec.twoPow 128 m) = pairError (place n) (place m) := by
  have hbit (i : Nat) (hi : i < 128) (j : Fin 128) (hj : j ≠ ⟨place i, place_lt hi⟩) :
      (BitVec.twoPow 128 i).getLsbD (place j) = false := by
    have hne : i ≠ place j := by
      rintro rfl
      exact hj (Fin.ext (place_place j).symm)
    simp [hne]
  rw [errorSum, Finset.sum_eq_single ⟨place n, place_lt hn⟩, Finset.sum_eq_single ⟨place m, place_lt hm⟩]
  · simp [place_place, hn, hm]
  · intro k _ hk
    simp [hbit m hm k hk]
  · simp
  · intro j _ hj
    simp [hbit n hn j hj]
  · simp

theorem gcmGmulReg_zero_left : gcmGmulReg 0 w = 0 := by
  have h : gcmGmulReg (0 ^^^ 0) w = gcmGmulReg 0 w ^^^ gcmGmulReg 0 w := gcmGmulReg_xor_left
  rwa [BitVec.xor_self, BitVec.xor_self] at h

theorem gcmGmulReg_zero_right : gcmGmulReg v 0 = 0 := by
  have h : gcmGmulReg v (0 ^^^ 0) = gcmGmulReg v 0 ^^^ gcmGmulReg v 0 := gcmGmulReg_xor_right
  rwa [BitVec.xor_self, BitVec.xor_self] at h

theorem errorSum_zero_left : errorSum 0 w = 0 := by
  simp [errorSum]

theorem errorSum_zero_right : errorSum v 0 = 0 := by
  simp [errorSum]

/-- **What is missed is the sum of what is missed of the pairs of bits.** -/
theorem errorSum_eq (v w : Reg) : regElement (gcmGmulReg v w) + regElement v * regElement w = errorSum v w := by
  induction v using bits_induction with
  | hzero => rw [gcmGmulReg_zero_left, regElement_zero, errorSum_zero_left, zero_mul, add_zero]
  | hxor v v' hv hv' =>
    rw [gcmGmulReg_xor_left, regElement_xor, regElement_xor, errorSum_xor_left, ← hv, ← hv', add_mul]
    exact add_add_add_comm ..
  | hbit n hn =>
    induction w using bits_induction with
    | hzero => rw [gcmGmulReg_zero_right, regElement_zero, errorSum_zero_right, mul_zero, add_zero]
    | hxor w w' hw hw' =>
      rw [gcmGmulReg_xor_right, regElement_xor, regElement_xor, errorSum_xor_right, ← hw, ← hw', mul_add]
      exact add_add_add_comm ..
    | hbit m hm =>
      rw [gcmGmulReg_twoPow hn hm, regElement_twoPow hn, regElement_twoPow hm, errorSum_twoPow hn hm, pairError,
        place_place, place_place, pow_add]
      rfl

/-! ## One factor that no other is right with -/

/-- The product with x, on a register. -/
def mulX (v : Reg) : Reg :=
  ((v >>> 1) &&& 0x7f7f7f7f7f7f7f7f7f7f7f7f7f7f7f7f) ^^^ ((v <<< 15) &&& 0x80808080808080808080808080808080) ^^^
    if v.getLsbD 120 then 0xe1 else 0

theorem and_xor_mask (v w c : Reg) : (v ^^^ w) &&& c = (v &&& c) ^^^ (w &&& c) := by
  apply BitVec.eq_of_getLsbD_eq
  intro i _
  simp only [BitVec.getLsbD_and, BitVec.getLsbD_xor, Bool.and_xor_distrib_right]

theorem xor_regroup (a a' b b' c c' : Reg) :
    (a ^^^ a') ^^^ (b ^^^ b') ^^^ (c ^^^ c') = (a ^^^ b ^^^ c) ^^^ (a' ^^^ b' ^^^ c') := by
  ac_rfl

theorem mulX_xor : mulX (v ^^^ w) = mulX v ^^^ mulX w := by
  have hcarry (p q : Bool) (c : Reg) : (if p ^^ q then c else 0) = (if p then c else 0) ^^^ if q then c else 0 := by
    cases p <;> cases q <;> simp
  unfold mulX
  rw [BitVec.ushiftRight_xor_distrib, BitVec.shiftLeft_xor_distrib, and_xor_mask, and_xor_mask, BitVec.getLsbD_xor,
    hcarry]
  exact xor_regroup ..

theorem mulX_twoPow : ∀ n < 128, n ≠ 120 → mulX (BitVec.twoPow 128 n) = BitVec.twoPow 128 (place (place n + 1)) := by
  decide +kernel

/-- The carry, as the relation of the field has it. -/
theorem mulX_carry : mulX (BitVec.twoPow 128 120) =
    BitVec.twoPow 128 0 ^^^ BitVec.twoPow 128 5 ^^^ BitVec.twoPow 128 6 ^^^ BitVec.twoPow 128 7 := by
  decide +kernel

theorem regElement_mulX (v : Reg) : regElement (mulX v) = x * regElement v := by
  induction v using bits_induction with
  | hzero =>
    have hzero : mulX 0 = 0 := rfl
    rw [hzero, regElement_zero, mul_zero]
  | hxor v w hv hw => rw [mulX_xor, regElement_xor, regElement_xor, hv, hw, mul_add]
  | hbit n hn =>
    rw [regElement_twoPow hn, ← pow_succ']
    by_cases hlast : n = 120
    · have hplace : place n + 1 = 128 := by
        rw [hlast]
        rfl
      have hseven : place 0 = 7 := rfl
      have htwo : place 5 = 2 := rfl
      have hone : place 6 = 1 := rfl
      have hzero : place 7 = 0 := rfl
      rw [hplace, x_pow_128, hlast, mulX_carry, regElement_xor, regElement_xor, regElement_xor,
        regElement_twoPow (by decide), regElement_twoPow (by decide), regElement_twoPow (by decide),
        regElement_twoPow (by decide), hseven, htwo, hone, hzero, pow_one, pow_zero]
    · have hbelow : place n + 1 < 128 := by
        unfold place
        omega
      rw [mulX_twoPow n hn hlast, regElement_twoPow (place_lt hbelow), place_place]

/-- By how much the product with bit 0 of the register, which is x^7, is missed. -/
def miss (w : Reg) : Reg := gcmGmulReg (BitVec.twoPow 128 0) w ^^^ mulX^[7] w

theorem mulX_iterate_xor (n : Nat) : mulX^[n] (v ^^^ w) = mulX^[n] v ^^^ mulX^[n] w := by
  induction n with
  | zero => rfl
  | succ n ih => rw [Function.iterate_succ_apply', Function.iterate_succ_apply', Function.iterate_succ_apply', ih,
      mulX_xor]

theorem regElement_mulX_iterate (n : Nat) : regElement (mulX^[n] v) = x ^ n * regElement v := by
  induction n with
  | zero => rw [Function.iterate_zero_apply, pow_zero, one_mul]
  | succ n ih => rw [Function.iterate_succ_apply', regElement_mulX, ih, pow_succ', mul_assoc]

theorem miss_xor : miss (v ^^^ w) = miss v ^^^ miss w := by
  simp only [miss, gcmGmulReg_xor_right, mulX_iterate_xor]
  ac_rfl

theorem regElement_miss : regElement (miss w) =
    regElement (gcmGmulReg (BitVec.twoPow 128 0) w) + regElement (BitVec.twoPow 128 0) * regElement w := by
  rw [miss, regElement_xor, regElement_mulX_iterate, regElement_twoPow (by decide)]
  rfl

/-- The images of the single bits under `miss`. -/
def missBit (n : Nat) : Reg := pairProduct 0 n ^^^ mulX^[7] (BitVec.twoPow 128 n)

theorem solve_missBit : ∀ n < 128, solve (eliminate missBit 128) (missBit n) = BitVec.twoPow 128 n := by
  decide +kernel

/-- **Only 0 is multiplied rightly.** -/
theorem miss_eq_zero (h : miss w = 0) : w = 0 := by
  have hbit (n : Nat) (hn : n < 128) :
      solve (eliminate missBit 128) (miss (BitVec.twoPow 128 n)) = BitVec.twoPow 128 n := by
    rw [miss, gcmGmulReg_twoPow (by decide) hn]
    exact solve_missBit n hn
  have hback := solve_image (fun _ _ => miss_xor) hbit w
  have hnone := solve_image (fun _ _ => miss_xor) hbit 0
  have hzero : miss 0 = 0 := by
    rw [miss, gcmGmulReg_zero_right]
    rfl
  calc w = solve (eliminate missBit 128) (miss w) := hback.symm
    _ = solve (eliminate missBit 128) (miss 0) := by rw [h, hzero]
    _ = 0 := hnone

/-! ## Where it is right -/

theorem pairProduct_comm (n m : Nat) : pairProduct n m = pairProduct m n := by
  simp only [pairProduct, Nat.add_comm m n, and_comm]

theorem pairError_comm (j k : Nat) : pairError j k = pairError k j := by
  rw [pairError, pairError, pairProduct_comm, Nat.add_comm j k]

theorem bit_eq (a : Block) (j : Fin 128) : bit a j = (ld1 a).getLsbD (place j) := by
  rw [← bit_st1, st1_ld1]

theorem isProduct_iff_errors : IsProduct a b ↔
    ∑ j : Fin 128, ∑ k : Fin 128, (if bit a j && bit b k then pairError j k else 0) = 0 := by
  simp only [isProduct_iff, errorSum_eq, errorSum, bit_eq]

theorem isProduct_comm : IsProduct a b ↔ IsProduct b a := by
  rw [isProduct_iff_errors, isProduct_iff_errors, Finset.sum_comm]
  simp only [Bool.and_comm, pairError_comm]

theorem isProduct_zero (a : Block) : IsProduct a (Vector.replicate 16 0) := by
  have hzero : ld1 (Vector.replicate 16 0) = 0 := by decide
  rw [isProduct_iff, hzero, gcmGmulReg_zero_right, regElement_zero, mul_zero, add_zero]

theorem isProduct_all_iff : (∀ a, IsProduct a b) ↔ b = Vector.replicate 16 0 := by
  constructor
  · intro h
    have hbit := isProduct_iff.mp (h (st1 (BitVec.twoPow 128 0)))
    rw [ld1_st1, ← regElement_miss] at hbit
    have hzero := miss_eq_zero (regElement_eq_zero hbit)
    rw [← st1_ld1 b, hzero]
    decide
  · rintro rfl
    exact isProduct_zero

/-- **Where `gcm_gmul` is the product of the field**: a pair of blocks exactly where the errors of
    the pairs of their bits cancel, and a block with every other one only if it is 0. -/
theorem gcmGmul_product_iff (a b : Block) :
    (IsProduct a b ↔ ∑ j : Fin 128, ∑ k : Fin 128, (if bit a j && bit b k then pairError j k else 0) = 0) ∧
    ((∀ c, IsProduct c b) ↔ b = Vector.replicate 16 0) ∧ ((∀ c, IsProduct a c) ↔ a = Vector.replicate 16 0) :=
  ⟨isProduct_iff_errors, isProduct_all_iff, (forall_congr' fun _ => isProduct_comm).trans isProduct_all_iff⟩

/-- The block 80 00 ... 00. -/
def oneBlock : Block := #v[0x80, 0, 0, 0, 0, 0, 0, 0, 0, 0, 0, 0, 0, 0, 0, 0]

/-- **The one of the field is no unit of `gcm_gmul`**, not even for itself. -/
theorem gcmGmul_one_misses : ¬ IsProduct oneBlock oneBlock := by
  intro h
  have hld : ld1 oneBlock = BitVec.twoPow 128 7 := by decide
  have hone : element oneBlock = 1 := by
    rw [element_eq, hld, regElement_twoPow (by decide)]
    rfl
  rw [IsProduct, hone, mul_one, ← hone] at h
  have hblock := element_injective h
  rw [gcmGmul, hld, gcmGmulReg_twoPow (by decide) (by decide)] at hblock
  exact absurd hblock (by decide)

end Crimson.Crypto
