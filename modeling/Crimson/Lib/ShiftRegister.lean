import Mathlib.Logic.Function.Iterate
import Mathlib.Data.BitVec
import Mathlib.Data.List.GetD

/-!
# Shift registers with feedback

A register of `w` bits that takes in bits at its low end: a bit is added to the lowest one, the
register moves down, and where a one falls out the polynomial is added. Over GF(2) that is linear
in the register and the bits (`feedAll_xor`), and with a polynomial that has the highest bit set
nothing is lost (`shift_injective`). So two inputs that differ in one window no longer than the
register leave it different (`feedAll_ne_of_window`).
-/

set_option autoImplicit false

namespace Crimson.Lib.ShiftRegister

variable {w : Nat} {P r s : BitVec w} {b c : Bool} {l l' : List Bool}

def shift (P r : BitVec w) : BitVec w := if r.getLsbD 0 then (r >>> 1) ^^^ P else r >>> 1

/-- A single bit, at the low end. -/
def lowBit (w : Nat) (b : Bool) : BitVec w := (BitVec.ofBool b).setWidth w

def feed (P r : BitVec w) (b : Bool) : BitVec w := shift P (r ^^^ lowBit w b)

def feedAll (P r : BitVec w) (l : List Bool) : BitVec w := l.foldl (feed P) r

/-- Bits in a row, the first of them the lowest. -/
def ofBits (w : Nat) : List Bool → BitVec w
  | [] => 0
  | b :: l => lowBit w b ^^^ (ofBits w l <<< 1)

/-! ## Linearity -/

theorem lowBit_xor : lowBit w (b ^^ c) = lowBit w b ^^^ lowBit w c := by
  cases b <;> cases c <;> simp [lowBit]

theorem shift_xor : shift P (r ^^^ s) = shift P r ^^^ shift P s := by
  unfold shift
  rw [BitVec.getLsbD_xor, BitVec.ushiftRight_xor_distrib]
  cases r.getLsbD 0 <;> cases s.getLsbD 0
  · rfl
  · simp only [Bool.false_bne, if_true, Bool.false_eq_true, if_false, BitVec.xor_assoc]
  · simp only [Bool.bne_false, if_true, Bool.false_eq_true, if_false]
    ac_rfl
  · have hself : r >>> 1 ^^^ P ^^^ (s >>> 1 ^^^ P) = r >>> 1 ^^^ s >>> 1 := by
      rw [BitVec.xor_comm (s >>> 1), ← BitVec.xor_assoc, BitVec.xor_assoc (r >>> 1), BitVec.xor_self, BitVec.xor_zero]
    simp only [bne_self_eq_false, Bool.false_eq_true, if_false, if_true, hself]

theorem shift_zero : shift P 0 = 0 := by
  simp [shift]

theorem feed_xor : feed P (r ^^^ s) (b ^^ c) = feed P r b ^^^ feed P s c := by
  rw [feed, feed, feed, ← shift_xor, lowBit_xor]
  congr 1
  ac_rfl

theorem feedAll_xor (h : l.length = l'.length) :
    feedAll P (r ^^^ s) (List.zipWith (· ^^ ·) l l') = feedAll P r l ^^^ feedAll P s l' := by
  induction l generalizing l' r s with
  | nil =>
    obtain rfl := List.length_eq_zero_iff.mp h.symm
    rfl
  | cons b l ih =>
    cases l' with
    | nil => simp at h
    | cons c l' =>
      have hrest : l.length = l'.length := by simpa using h
      have hnext := ih (r := feed P r b) (s := feed P s c) hrest
      rwa [← feed_xor] at hnext

theorem iterate_shift_xor (n : Nat) : (shift P)^[n] (r ^^^ s) = (shift P)^[n] r ^^^ (shift P)^[n] s := by
  induction n generalizing r s with
  | zero => rfl
  | succ n ih => rw [Function.iterate_succ_apply, Function.iterate_succ_apply, Function.iterate_succ_apply, shift_xor, ih]

/-! ## Nothing is lost -/

theorem shift_eq_zero (hP : P.msb = true) (h : shift P r = 0) : r = 0 := by
  -- had a one fallen out, the polynomial would have left its highest bit
  have hlow : r.getLsbD 0 = false := by
    by_contra hset
    rw [Bool.not_eq_false] at hset
    rw [shift, if_pos hset] at h
    have hmsb := congrArg BitVec.msb h
    rw [BitVec.msb_xor, hP] at hmsb
    simp [BitVec.msb_ushiftRight] at hmsb
  rw [shift, hlow, if_neg (by simp)] at h
  apply BitVec.eq_of_getLsbD_eq
  intro i _
  cases i with
  | zero => simpa using hlow
  | succ i =>
    have hbit := congrArg (fun v => v.getLsbD i) h
    simpa [Nat.add_comm] using hbit

/-- **The register can be wound back.** -/
theorem shift_injective (hP : P.msb = true) : Function.Injective (shift P) := by
  intro r s h
  have hzero : shift P (r ^^^ s) = 0 := by rw [shift_xor, h, BitVec.xor_self]; rfl
  exact BitVec.xor_eq_zero_iff.mp (shift_eq_zero hP hzero)

/-! ## Many bits at a time -/

/-- What has not come down yet only moves. -/
theorem shift_shiftLeft (h : r.getLsbD (w - 1) = false) : shift P (r <<< 1) = r := by
  have hlow : (r <<< 1).getLsbD 0 = false := by simp
  rw [shift, hlow, if_neg (by simp)]
  apply BitVec.eq_of_getLsbD_eq
  intro i hi
  rw [BitVec.getLsbD_ushiftRight, BitVec.getLsbD_shiftLeft, Nat.add_sub_cancel_left]
  by_cases hlast : i = w - 1
  · rw [hlast, h, Bool.and_false]
  · have hlt : 1 + i < w := by omega
    simp [hlt]

theorem getLsbD_ofBits (i : Nat) : (ofBits w l).getLsbD i = (decide (i < w) && l.getD i false) := by
  induction l generalizing i with
  | nil => simp [ofBits]
  | cons b l ih =>
    rw [ofBits, BitVec.getLsbD_xor, BitVec.getLsbD_shiftLeft, ih, lowBit, BitVec.getLsbD_setWidth]
    cases i with
    | zero => simp
    | succ i =>
      by_cases hlt : i + 1 < w
      · simp [hlt, Nat.lt_of_succ_lt hlt]
      · simp [hlt]

/-- **Bits that fit are taken in as if they were added all at once.** -/
theorem feedAll_eq (h : l.length ≤ w) : feedAll P r l = (shift P)^[l.length] (r ^^^ ofBits w l) := by
  induction l generalizing r with
  | nil => exact (BitVec.xor_zero).symm
  | cons b l ih =>
    rw [List.length_cons] at h
    have htop : (ofBits w l).getLsbD (w - 1) = false := by
      rw [getLsbD_ofBits, List.getD_eq_default _ _ (by omega), Bool.and_false]
    have hfeed : feedAll P r (b :: l) = feedAll P (feed P r b) l := rfl
    rw [hfeed, ih (by omega), List.length_cons, Function.iterate_succ_apply, ofBits, ← BitVec.xor_assoc, shift_xor,
      shift_shiftLeft htop, feed]

/-- Zeros only move the register. -/
theorem feedAll_false (h : ∀ b ∈ l, b = false) : feedAll P r l = (shift P)^[l.length] r := by
  induction l generalizing r with
  | nil => rfl
  | cons b l ih =>
    obtain ⟨rfl, hrest⟩ := List.forall_mem_cons.mp h
    have hfeed : feedAll P r (false :: l) = feedAll P (shift P r) l := by simp [feedAll, feed, lowBit]
    rw [hfeed, ih hrest, List.length_cons, Function.iterate_succ_apply]

theorem feedAll_append : feedAll P r (l ++ l') = feedAll P (feedAll P r l) l' := List.foldl_append

theorem iterate_shift_zero (n : Nat) : (shift P)^[n] 0 = 0 := Function.iterate_fixed shift_zero n

/-- Ones that are no further apart than the register is long do not go unnoticed. -/
theorem feedAll_ne_zero (hP : P.msb = true) {start : Nat} (hone : true ∈ l)
    (hwindow : ∀ k, l.getD k false = true → start ≤ k ∧ k < start + w) : feedAll P 0 l ≠ 0 := by
  have hsplit : l = l.take start ++ ((l.drop start).take w ++ (l.drop start).drop w) := by
    rw [List.take_append_drop, List.take_append_drop]
  -- zeros, the window, and zeros again
  have hbefore : ∀ b ∈ l.take start, b = false := by
    intro b hb
    obtain ⟨k, hk, rfl⟩ := List.mem_iff_getElem.mp hb
    by_contra hset
    rw [List.getElem_take, Bool.not_eq_false] at hset
    rw [List.length_take] at hk
    have hin := hwindow k (by rw [List.getD_eq_getElem _ _ (by omega), hset])
    omega
  have hbehind : ∀ b ∈ (l.drop start).drop w, b = false := by
    intro b hb
    obtain ⟨k, hk, rfl⟩ := List.mem_iff_getElem.mp hb
    by_contra hset
    rw [List.getElem_drop, List.getElem_drop, Bool.not_eq_false] at hset
    rw [List.length_drop, List.length_drop] at hk
    have hin := hwindow (start + (w + k)) (by rw [List.getD_eq_getElem _ _ (by omega), hset])
    omega
  have hmiddle : ofBits w ((l.drop start).take w) ≠ 0 := by
    obtain ⟨k, hk, hset⟩ := List.mem_iff_getElem.mp hone
    have hin := hwindow k (by rw [List.getD_eq_getElem _ _ hk, hset])
    intro hzero
    have hbit := congrArg (fun v => v.getLsbD (k - start)) hzero
    rw [getLsbD_ofBits] at hbit
    have hget : ((l.drop start).take w).getD (k - start) false = true := by
      rw [List.getD_eq_getElem _ _ (by rw [List.length_take, List.length_drop]; omega), List.getElem_take,
        List.getElem_drop]
      simpa [Nat.add_sub_cancel' hin.1] using hset
    rw [hget] at hbit
    simp at hbit
    omega
  have hlen : ((l.drop start).take w).length ≤ w := by
    rw [List.length_take]
    exact Nat.min_le_left ..
  have hstart : 0 ^^^ ofBits w ((l.drop start).take w) = ofBits w ((l.drop start).take w) := BitVec.zero_xor
  rw [hsplit, feedAll_append, feedAll_append, feedAll_false hbefore, iterate_shift_zero, feedAll_eq hlen, hstart,
    feedAll_false hbehind, ← Function.iterate_add_apply]
  intro hzero
  have hinj : Function.Injective ((shift P)^[((l.drop start).drop w).length + ((l.drop start).take w).length]) :=
    (shift_injective hP).iterate _
  exact hmiddle (hinj (hzero.trans (iterate_shift_zero _).symm))

/-- **Burst errors are noticed**: inputs of one length that differ only inside a window of `w` bits. -/
theorem feedAll_ne_of_window (hP : P.msb = true) {start : Nat} (hlen : l.length = l'.length) (hne : l ≠ l')
    (hwindow : ∀ k, l.getD k false ≠ l'.getD k false → start ≤ k ∧ k < start + w) : feedAll P r l ≠ feedAll P r l' := by
  have hget (k : Nat) : (List.zipWith (· ^^ ·) l l').getD k false = (l.getD k false ^^ l'.getD k false) := by
    by_cases hk : k < l.length
    · rw [List.getD_eq_getElem _ _ (by simpa [← hlen] using hk), List.getElem_zipWith, List.getD_eq_getElem _ _ hk,
        List.getD_eq_getElem _ _ (hlen ▸ hk)]
    · rw [List.getD_eq_default _ _ (by simp; omega), List.getD_eq_default _ _ (by omega),
        List.getD_eq_default _ _ (by omega)]
      rfl
  have hone : true ∈ List.zipWith (· ^^ ·) l l' := by
    by_contra hnone
    refine hne (List.ext_getElem hlen fun k hk hk' => ?_)
    have hk'' : k < (List.zipWith (· ^^ ·) l l').length := by simpa [← hlen] using hk
    have hbit := hget k
    rw [List.getD_eq_getElem _ _ hk'', List.getD_eq_getElem _ _ hk, List.getD_eq_getElem _ _ hk'] at hbit
    by_contra hdiff
    refine hnone (List.mem_iff_getElem.mpr ⟨k, hk'', ?_⟩)
    rw [hbit]
    simpa using hdiff
  intro heq
  have hzero : feedAll P 0 (List.zipWith (· ^^ ·) l l') = 0 := by
    have hxor := feedAll_xor (P := P) (r := r) (s := r) hlen
    rwa [BitVec.xor_self, heq, BitVec.xor_self] at hxor
  refine feedAll_ne_zero hP hone (fun k hk => hwindow k ?_) hzero
  rw [hget] at hk
  simpa using hk

end Crimson.Lib.ShiftRegister
