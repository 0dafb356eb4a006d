import Crimson.Lib.Aes
import Crimson.Lib.Gf2
import Mathlib.Data.Fin.VecNotation

/-!
# Instructions of Armv8 on vector registers

A register has 128 bits. As `.16b` it is sixteen bytes, the first of them the lowest bits, and
as `.2d` two halves. The cryptographic instructions are those of the extension: `aese` and
`aesmc` on the bytes of an AES state, `pmull` on polynomials over GF(2), bit `i` of an operand
the coefficient of the power `i`.
-/

set_option autoImplicit false

namespace Crimson.Lib.Armv8

open Crimson.Lib.Aes

abbrev Reg := BitVec 128

/-- Byte `i` of a register. -/
def lane (v : Reg) (i : Fin 16) : Byte := v.extractLsb' (8 * i.val) 8

/-- Bytes in a row, the first of them the lowest bits. -/
def concat : (n : Nat) → (Fin n → Byte) → BitVec (8 * n)
  | 0, _ => 0
  | n + 1, f => (f (Fin.last n) ++ concat n fun i => f i.castSucc).cast (by omega)

def ofLanes (f : Fin 16 → Byte) : Reg := concat 16 f

/-- The halves of a register. -/
def lo (v : Reg) : BitVec 64 := v.extractLsb' 0 64
def hi (v : Reg) : BitVec 64 := v.extractLsb' 64 64

/-- `LD1 {Vt.16b}, [Xn]` and `ST1 {Vt.16b}, [Xn]`, with the sixteen bytes in memory. -/
def ld1 (b : Block) : Reg := ofLanes b.get
def st1 (v : Reg) : Block := Vector.ofFn fun i => lane v i

def shiftRowsTable : List Nat := [0, 5, 10, 15, 4, 9, 14, 3, 8, 13, 2, 7, 12, 1, 6, 11]

theorem shiftRowsTable_lt : ∀ i : Fin 16, shiftRowsTable.getD i.val 0 < 16 := by decide

/-- `AESShiftRows`: where byte `i` of the result comes from. -/
def shiftRowsLane (i : Fin 16) : Fin 16 := ⟨shiftRowsTable.getD i.val 0, shiftRowsTable_lt i⟩

/-- `AESE Vd.16b, Vn.16b`. -/
def aese (d n : Reg) : Reg := ofLanes fun i => sbox (lane (d ^^^ n) (shiftRowsLane i))

/-- `AESMixColumns` on the four bytes of a column. -/
def mixColumn (in0 in1 in2 in3 : Byte) : Fin 4 → Byte :=
  ![mul 2 in0 ^^^ mul 3 in1 ^^^ in2 ^^^ in3,
    in0 ^^^ mul 2 in1 ^^^ mul 3 in2 ^^^ in3,
    in0 ^^^ in1 ^^^ mul 2 in2 ^^^ mul 3 in3,
    mul 3 in0 ^^^ in1 ^^^ in2 ^^^ mul 2 in3]

/-- `AESMC Vd.16b, Vn.16b`. -/
def aesmc (n : Reg) : Reg :=
  ofLanes fun i =>
    let c := 4 * (i.val / 4)
    mixColumn (lane n ⟨c, by omega⟩) (lane n ⟨c + 1, by omega⟩) (lane n ⟨c + 2, by omega⟩) (lane n ⟨c + 3, by omega⟩)
      ⟨i.val % 4, row_lt i⟩

/-- `PolynomialMult` of the halves of registers. -/
def polynomialMult (op1 op2 : BitVec 64) : Reg :=
  (List.range 64).foldl (fun r i => if op1.getLsbD i then r ^^^ (op2.setWidth 128 <<< i) else r) 0

/-- `PMULL Vd.1q, Vn.1d, Vm.1d` and `PMULL2 Vd.1q, Vn.2d, Vm.2d`. -/
def pmull (n m : Reg) : Reg := polynomialMult (lo n) (lo m)
def pmull2 (n m : Reg) : Reg := polynomialMult (hi n) (hi m)

/-- `EXT Vd.16b, Vn.16b, Vm.16b, #8`: sixteen bytes of the two registers, from byte 8 on. -/
def ext8 (n m : Reg) : Reg := (m ++ n).extractLsb' 64 128

/-- `DUP Vd.2d, Xn`. -/
def dup (x : BitVec 64) : Reg := x ++ x

/-! ## Bytes -/

theorem getLsbD_concat {n k : Nat} (f : Fin n → Byte) (i : Fin n) (hk : k < 8) :
    (concat n f).getLsbD (8 * i.val + k) = (f i).getLsbD k := by
  induction n with
  | zero => exact i.elim0
  | succ n ih =>
    rw [concat, BitVec.getLsbD_cast, BitVec.getLsbD_append]
    cases i using Fin.lastCases with
    | last =>
      rw [Fin.val_last, if_neg (by omega), Nat.add_sub_cancel_left]
    | cast i =>
      rw [Fin.val_castSucc, if_pos (by omega)]
      exact ih (fun i => f i.castSucc) i

@[simp] theorem lane_ofLanes (f : Fin 16 → Byte) (i : Fin 16) : lane (ofLanes f) i = f i := by
  apply BitVec.eq_of_getLsbD_eq
  intro k hk
  rw [lane, BitVec.getLsbD_extractLsb', decide_eq_true hk, Bool.true_and]
  exact getLsbD_concat f i hk

@[simp] theorem lane_xor (v w : Reg) (i : Fin 16) : lane (v ^^^ w) i = lane v i ^^^ lane w i := by
  simp only [lane, BitVec.extractLsb'_xor]

theorem reg_ext {v v' : Reg} (h : ∀ i, lane v i = lane v' i) : v = v' := by
  apply BitVec.eq_of_getLsbD_eq
  intro k hk
  have hbyte := congrArg (fun x => x.getLsbD (k % 8)) (h ⟨k / 8, by omega⟩)
  have hmod : k % 8 < 8 := by omega
  simpa [lane, hmod, Nat.div_add_mod] using hbyte

@[simp] theorem lane_ld1 (s : Block) (i : Fin 16) : lane (ld1 s) i = s.get i := lane_ofLanes ..

@[simp] theorem get_st1 (v : Reg) (i : Fin 16) : (st1 v).get i = lane v i := Vector.getElem_ofFn ..

@[simp] theorem st1_ld1 (s : Block) : st1 (ld1 s) = s := by
  apply Vector.ext
  intro i hi
  rw [st1, Vector.getElem_ofFn, lane_ld1]
  rfl

@[simp] theorem ld1_st1 (v : Reg) : ld1 (st1 v) = v := by
  apply reg_ext
  intro i
  rw [lane_ld1, get_st1]

/-! ## Halves -/

theorem getLsbD_lo (v : Reg) (i : Nat) : (lo v).getLsbD i = (decide (i < 64) && v.getLsbD i) := by
  simp [lo]

theorem getLsbD_hi (v : Reg) (i : Nat) : (hi v).getLsbD i = (decide (i < 64) && v.getLsbD (64 + i)) := by
  simp [hi]

theorem getLsbD_ext8 (n m : Reg) {i : Nat} (h : i < 128) :
    (ext8 n m).getLsbD i = if i < 64 then n.getLsbD (64 + i) else m.getLsbD (i - 64) := by
  rw [ext8, BitVec.getLsbD_extractLsb', decide_eq_true h, Bool.true_and, BitVec.getLsbD_append]
  by_cases hlow : i < 64
  · rw [if_pos (by omega), if_pos hlow]
  · have hfrom : 64 + i - 128 = i - 64 := by omega
    rw [if_neg (by omega), if_neg hlow, hfrom]

@[simp] theorem lo_xor (v w : Reg) : lo (v ^^^ w) = lo v ^^^ lo w := by simp only [lo, BitVec.extractLsb'_xor]
@[simp] theorem hi_xor (v w : Reg) : hi (v ^^^ w) = hi v ^^^ hi w := by simp only [hi, BitVec.extractLsb'_xor]

@[simp] theorem lo_zero : lo 0 = 0 := rfl
@[simp] theorem hi_zero : hi 0 = 0 := rfl

theorem reg_zero_xor (v : Reg) : 0 ^^^ v = v := BitVec.zero_xor
theorem reg_xor_zero (v : Reg) : v ^^^ 0 = v := BitVec.xor_zero
theorem ext8_zero : ext8 0 0 = 0 := rfl

@[simp] theorem lo_dup (x : BitVec 64) : lo (dup x) = x := by
  apply BitVec.eq_of_getLsbD_eq
  intro i hi
  rw [getLsbD_lo, dup, BitVec.getLsbD_append, if_pos hi, decide_eq_true hi, Bool.true_and]

@[simp] theorem hi_dup (x : BitVec 64) : hi (dup x) = x := by
  apply BitVec.eq_of_getLsbD_eq
  intro i hi
  rw [getLsbD_hi, dup, BitVec.getLsbD_append, if_neg (by omega), decide_eq_true hi, Bool.true_and,
    Nat.add_sub_cancel_left]

@[simp] theorem lo_ext8 (n m : Reg) : lo (ext8 n m) = hi n := by
  apply BitVec.eq_of_getLsbD_eq
  intro i hi
  rw [getLsbD_lo, getLsbD_hi, getLsbD_ext8 n m (by omega), if_pos hi]

@[simp] theorem hi_ext8 (n m : Reg) : hi (ext8 n m) = lo m := by
  apply BitVec.eq_of_getLsbD_eq
  intro i hi
  rw [getLsbD_lo, getLsbD_hi, getLsbD_ext8 n m (by omega), if_neg (by omega), Nat.add_sub_cancel_left]

theorem ext8_xor (n n' m m' : Reg) : ext8 (n ^^^ n') (m ^^^ m') = ext8 n m ^^^ ext8 n' m' := by
  apply BitVec.eq_of_getLsbD_eq
  intro i hi
  rw [BitVec.getLsbD_xor, getLsbD_ext8 _ _ hi, getLsbD_ext8 _ _ hi, getLsbD_ext8 _ _ hi]
  split <;> rw [BitVec.getLsbD_xor]

/-! ## Products -/

theorem polynomialMult_xor_left (a b m : BitVec 64) :
    polynomialMult (a ^^^ b) m = polynomialMult a m ^^^ polynomialMult b m := by
  have hfold (l : List Nat) (r s : Reg) :
      l.foldl (fun r i => if (a ^^^ b).getLsbD i then r ^^^ (m.setWidth 128 <<< i) else r) (r ^^^ s) =
        l.foldl (fun r i => if a.getLsbD i then r ^^^ (m.setWidth 128 <<< i) else r) r ^^^
          l.foldl (fun r i => if b.getLsbD i then r ^^^ (m.setWidth 128 <<< i) else r) s := by
    induction l generalizing r s with
    | nil => rfl
    | cons i l ih =>
      simp only [List.foldl_cons, ← ih, BitVec.getLsbD_xor]
      congr 1
      cases a.getLsbD i <;> cases b.getLsbD i
      · rfl
      · simp only [Bool.false_bne, Bool.false_eq_true, if_false, if_true, BitVec.xor_assoc]
      · simp only [Bool.bne_false, Bool.false_eq_true, if_false, if_true]
        ac_rfl
      · have hself : r ^^^ (m.setWidth 128 <<< i) ^^^ (s ^^^ (m.setWidth 128 <<< i)) = r ^^^ s := by
          rw [BitVec.xor_comm s, ← BitVec.xor_assoc, BitVec.xor_assoc r, BitVec.xor_self, BitVec.xor_zero]
        simp only [bne_self_eq_false, Bool.false_eq_true, if_false, if_true, hself]
  exact hfold (List.range 64) 0 0

theorem polynomialMult_xor_right (n a b : BitVec 64) :
    polynomialMult n (a ^^^ b) = polynomialMult n a ^^^ polynomialMult n b := by
  have hfold (l : List Nat) (r s : Reg) :
      l.foldl (fun r i => if n.getLsbD i then r ^^^ ((a ^^^ b).setWidth 128 <<< i) else r) (r ^^^ s) =
        l.foldl (fun r i => if n.getLsbD i then r ^^^ (a.setWidth 128 <<< i) else r) r ^^^
          l.foldl (fun r i => if n.getLsbD i then r ^^^ (b.setWidth 128 <<< i) else r) s := by
    induction l generalizing r s with
    | nil => rfl
    | cons i l ih =>
      simp only [List.foldl_cons, ← ih, BitVec.setWidth_xor, BitVec.shiftLeft_xor_distrib]
      congr 1
      split
      · ac_rfl
      · rfl
  exact hfold (List.range 64) 0 0

@[simp] theorem polynomialMult_zero_left (m : BitVec 64) : polynomialMult 0 m = 0 := by
  have h := polynomialMult_xor_left 0 0 m
  simpa using h

@[simp] theorem polynomialMult_zero_right (n : BitVec 64) : polynomialMult n 0 = 0 := by
  have h := polynomialMult_xor_right n 0 0
  simpa using h

/-- A single bit shifts. -/
theorem polynomialMult_twoPow_left {i : Nat} (m : BitVec 64) (hi : i < 64) :
    polynomialMult (BitVec.twoPow 64 i) m = m.setWidth 128 <<< i := by
  have hfold (k : Nat) (hk : k ≤ 64) : (List.range k).foldl
      (fun r j => if (BitVec.twoPow 64 i).getLsbD j then r ^^^ (m.setWidth 128 <<< j) else r) (0 : Reg) =
        if i < k then m.setWidth 128 <<< i else 0 := by
    induction k with
    | zero => rfl
    | succ k ih =>
      rw [List.range_succ, List.foldl_append, ih (by omega), List.foldl_cons, List.foldl_nil, BitVec.getLsbD_twoPow]
      rcases Nat.lt_trichotomy i k with hlt | rfl | hgt
      · simp [hlt, Nat.ne_of_lt hlt, Nat.lt_succ_of_lt hlt]
      · simp [hi]
      · simp [Nat.not_lt_of_gt hgt, Nat.ne_of_gt hgt, show ¬ i < k + 1 by omega]
  rw [polynomialMult, hfold 64 le_rfl, if_pos hi]

end Crimson.Lib.Armv8
