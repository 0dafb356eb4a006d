import Mathlib.Data.Nat.ModEq
import Mathlib.Tactic.Ring

/-!
# One's-complement sums

A number in base `b` is folded by adding what it carries past its low digit back to that
digit, until nothing is carried. The result is one digit, congruent to the number modulo
`b - 1`, and 0 only for 0. So the digit that complements it brings the number to a sum
that folds to `b - 1`, the other zero of the arithmetic.
-/

set_option autoImplicit false

namespace Crimson.Lib

variable {b s t : Nat}

/-- One round: the carry added to the low digit. -/
def carryRound (b s : Nat) : Nat := s % b + s / b

theorem carryRound_lt (hb : 1 < b) (hs : b ≤ s) : carryRound b s < s := by
  have hquot : 0 < s / b := Nat.div_pos hs (by omega)
  have hsplit : s % b + b * (s / b) = s := Nat.mod_add_div s b
  have hmore : 2 * (s / b) ≤ b * (s / b) := Nat.mul_le_mul_right _ hb
  unfold carryRound
  omega

/-- The carries folded in until there are none. -/
def carryFold (b s : Nat) : Nat :=
  if _h : 1 < b ∧ b ≤ s then carryFold b (carryRound b s) else s
termination_by s
decreasing_by exact carryRound_lt _h.1 _h.2

theorem carryFold_of_lt (h : s < b) : carryFold b s = s := by
  rw [carryFold, dif_neg (by omega)]

theorem carryFold_of_le (hb : 1 < b) (h : b ≤ s) : carryFold b s = carryFold b (carryRound b s) := by
  rw [carryFold, dif_pos ⟨hb, h⟩]

/-- A number with nothing to carry is its own round. -/
theorem carryRound_of_lt (h : s < b) : carryRound b s = s := by
  rw [carryRound, Nat.mod_eq_of_lt h, Nat.div_eq_of_lt h, Nat.add_zero]

theorem carryFold_round (hb : 1 < b) (s : Nat) : carryFold b (carryRound b s) = carryFold b s := by
  by_cases h : s < b
  · rw [carryRound_of_lt h]
  · exact (carryFold_of_le hb (Nat.le_of_not_lt h)).symm

theorem carryFold_lt (hb : 1 < b) (s : Nat) : carryFold b s < b := by
  induction s using Nat.strong_induction_on with
  | _ s ih =>
    by_cases h : s < b
    · rwa [carryFold_of_lt h]
    · have hle : b ≤ s := Nat.le_of_not_lt h
      rw [carryFold_of_le hb hle]
      exact ih _ (carryRound_lt hb hle)

/-- A round takes away a multiple of `b - 1`. -/
theorem carryRound_modEq (hb : 1 < b) (s : Nat) : carryRound b s ≡ s [MOD b - 1] := by
  have hbase : b ≡ 1 [MOD b - 1] := by
    have hself : b - 1 + 1 ≡ 0 + 1 [MOD b - 1] := (Nat.modEq_zero_iff_dvd.mpr dvd_rfl).add_right 1
    rwa [Nat.sub_add_cancel (by omega), Nat.zero_add] at hself
  calc carryRound b s = s % b + 1 * (s / b) := by rw [carryRound, Nat.one_mul]
    _ ≡ s % b + b * (s / b) [MOD b - 1] := (hbase.symm.mul_right _).add_left _
    _ = s := Nat.mod_add_div s b

theorem carryFold_modEq (hb : 1 < b) (s : Nat) : carryFold b s ≡ s [MOD b - 1] := by
  induction s using Nat.strong_induction_on with
  | _ s ih =>
    by_cases h : s < b
    · rw [carryFold_of_lt h]
    · have hle : b ≤ s := Nat.le_of_not_lt h
      rw [carryFold_of_le hb hle]
      exact (ih _ (carryRound_lt hb hle)).trans (carryRound_modEq hb s)

/-- Folding never loses a sum that is not 0. -/
theorem carryFold_pos (hb : 1 < b) (h : 0 < s) : 0 < carryFold b s := by
  induction s using Nat.strong_induction_on with
  | _ s ih =>
    by_cases hs : s < b
    · rwa [carryFold_of_lt hs]
    · have hle : b ≤ s := Nat.le_of_not_lt hs
      have hquot : 0 < s / b := Nat.div_pos hle (by omega)
      rw [carryFold_of_le hb hle]
      exact ih _ (carryRound_lt hb hle) (by unfold carryRound; omega)

/-- **A number and the complement of its fold add up to the other zero.** -/
theorem carryFold_complement (hb : 1 < b) (s : Nat) :
    carryFold b (s + (b - 1 - carryFold b s)) = b - 1 := by
  have hdigit : carryFold b s < b := carryFold_lt hb s
  have hlt : carryFold b (s + (b - 1 - carryFold b s)) < b := carryFold_lt hb _
  have hpos : 0 < carryFold b (s + (b - 1 - carryFold b s)) := by
    apply carryFold_pos hb
    rcases Nat.eq_zero_or_pos s with rfl | hs
    · have hzero : carryFold b 0 = 0 := carryFold_of_lt (by omega)
      omega
    · omega
  have hzero : carryFold b (s + (b - 1 - carryFold b s)) ≡ 0 [MOD b - 1] := by
    calc carryFold b (s + (b - 1 - carryFold b s))
        ≡ s + (b - 1 - carryFold b s) [MOD b - 1] := carryFold_modEq hb _
      _ ≡ carryFold b s + (b - 1 - carryFold b s) [MOD b - 1] := (carryFold_modEq hb s).symm.add_right _
      _ = b - 1 := by omega
      _ ≡ 0 [MOD b - 1] := Nat.modEq_zero_iff_dvd.mpr dvd_rfl
  have hle : b - 1 ≤ carryFold b (s + (b - 1 - carryFold b s)) :=
    Nat.le_of_dvd hpos (Nat.modEq_zero_iff_dvd.mp hzero)
  omega

/-- A sum of two digits' worth is folded in two rounds. -/
theorem carryRound_carryRound_lt (hb : 1 < b) (h : s < b * b) : carryRound b (carryRound b s) < b := by
  have hlow : s % b < b := Nat.mod_lt _ (by omega)
  have hhigh : s / b < b := Nat.div_lt_of_lt_mul h
  by_cases hs : carryRound b s < b
  · rwa [carryRound_of_lt hs]
  · have hround : carryRound b s ≤ 2 * b - 2 := by unfold carryRound; omega
    have hquot : carryRound b s / b < 2 := Nat.div_lt_of_lt_mul (by omega)
    have hsplit : carryRound b s % b + b * (carryRound b s / b) = carryRound b s := Nat.mod_add_div _ b
    have hone : carryRound b s / b = 1 := by
      have hposq : 0 < carryRound b s / b := Nat.div_pos (by omega) (by omega)
      omega
    rw [hone, Nat.mul_one] at hsplit
    rw [carryRound, hone]
    omega

end Crimson.Lib
