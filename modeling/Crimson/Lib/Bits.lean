import Mathlib.Data.BitVec

/-!
# Single bits of a word

Sets of small numbers are kept as words, one bit a number: `1 << i` selects a bit, `|` sets
it, `& ~` clears it and `&` tests it. The lemmas say so, bit by bit, at any width.
-/

set_option autoImplicit false

namespace Crimson.Lib

variable {w : Nat}

/-- The single bit `i`. -/
theorem getLsbD_one_shift (i j : Nat) : (1#w <<< i).getLsbD j = decide (j = i ∧ j < w) := by
  rw [BitVec.getLsbD_shiftLeft]
  by_cases hj : j < w
  · by_cases hlt : j < i
    · have hne : j ≠ i := Nat.ne_of_lt hlt
      simp [hlt, hne]
    · by_cases hij : j = i
      · subst hij
        simp [hj, Nat.lt_of_le_of_lt (Nat.zero_le j) hj]
      · have hsub : j - i ≠ 0 := by omega
        simp [hij, hsub]
  · simp [hj]

/-- Setting one bit. -/
theorem getLsbD_or_shift (x : BitVec w) (i j : Nat) :
    (x ||| (1#w <<< i)).getLsbD j = (x.getLsbD j || decide (j = i ∧ j < w)) := by
  rw [BitVec.getLsbD_or, getLsbD_one_shift]

/-- Clearing one bit. -/
theorem getLsbD_clear (x : BitVec w) (i j : Nat) :
    (x &&& ~~~(1#w <<< i)).getLsbD j = (x.getLsbD j && !decide (j = i)) := by
  rw [BitVec.getLsbD_and, BitVec.getLsbD_not, getLsbD_one_shift]
  by_cases hj : j < w
  · simp [hj]
  · simp [BitVec.getLsbD_of_ge x j (Nat.le_of_not_lt hj)]

/-- Testing one bit. -/
theorem and_shift_ne_zero (x : BitVec w) {i : Nat} (hi : i < w) : ((x &&& 1#w <<< i) != 0#w) = x.getLsbD i := by
  rw [Bool.eq_iff_iff, bne_iff_ne, ne_eq]
  constructor
  · intro hne
    by_contra hbit
    refine hne (BitVec.eq_of_getLsbD_eq fun j hj => ?_)
    rw [BitVec.getLsbD_and, getLsbD_one_shift]
    by_cases hji : j = i
    · have hclear : x.getLsbD i = false := Bool.eq_false_iff.mpr hbit
      rw [hji, hclear]
      simp
    · simp [hji]
  · intro hbit hz
    have hbit' : (x &&& 1#w <<< i).getLsbD i = false := by
      rw [hz]
      exact BitVec.getLsbD_zero
    rw [BitVec.getLsbD_and, getLsbD_one_shift, hbit] at hbit'
    simp [hi] at hbit'

end Crimson.Lib
