import Mathlib.Algebra.Field.ZMod
import Mathlib.RingTheory.AdjoinRoot
import Mathlib.Tactic.ComputeDegree

/-!
# The field of GCM

GF(2^128) as NIST SP 800-38D has it: polynomials over GF(2) modulo x^128 + x^7 + x^2 + x + 1.
Bit `j` of a block of sixteen bytes, the leftmost bit of a byte first, is the coefficient of
x^j.
-/

set_option autoImplicit false

namespace Crimson.Lib.GcmField

open Polynomial

noncomputable def modulus : (ZMod 2)[X] := X ^ 128 + (X ^ 7 + X ^ 2 + X + 1)

abbrev Element := AdjoinRoot modulus

noncomputable abbrev x : Element := AdjoinRoot.root modulus

/-- Bit `j` of a block. -/
def bit (b : Vector (BitVec 8) 16) (j : Fin 128) : Bool := (b.get ⟨j.val / 8, by omega⟩).getMsbD (j.val % 8)

noncomputable def poly (b : Vector (BitVec 8) 16) : (ZMod 2)[X] := ∑ j, if bit b j then X ^ j.val else 0

/-- The element a block stands for. -/
noncomputable def element (b : Vector (BitVec 8) 16) : Element := AdjoinRoot.mk modulus (poly b)

variable {b c : Vector (BitVec 8) 16}

/-! ## Arithmetic -/

@[simp] theorem add_self (a : Element) : a + a = 0 := by
  have htwo : (1 : ZMod 2) + 1 = 0 := by decide
  have h := congrArg (algebraMap (ZMod 2) Element) htwo
  rw [map_add, map_one, map_zero] at h
  rw [← mul_one a, ← mul_add, h, mul_zero]

theorem add_eq_zero_iff (a a' : Element) : a + a' = 0 ↔ a = a' := by
  constructor
  · intro h
    rw [← add_zero a, ← add_self a', ← add_assoc, h, zero_add]
  · rintro rfl
    exact add_self a

theorem modulus_eq : modulus = X ^ 128 + (X ^ 7 + X ^ 2 + X + 1) := by
  unfold modulus
  rfl

/-- The relation of the field. -/
theorem x_pow_128 : x ^ 128 = x ^ 7 + x ^ 2 + x + 1 := by
  have h := (congrArg (AdjoinRoot.mk modulus) modulus_eq).symm.trans AdjoinRoot.mk_self
  simp only [map_add, map_pow, map_one, AdjoinRoot.mk_X] at h
  exact (add_eq_zero_iff _ _).mp h

theorem element_eq_sum : element b = ∑ j, if bit b j then x ^ j.val else 0 := by
  simp only [element, poly, map_sum, apply_ite (AdjoinRoot.mk modulus), map_pow, AdjoinRoot.mk_X, map_zero]

/-! ## Different blocks are different elements -/

theorem coeff_poly (j : Fin 128) : (poly b).coeff j.val = if bit b j then 1 else 0 := by
  rw [poly, finsetSum_coeff, Finset.sum_eq_single j]
  · split <;> simp
  · intro i _ hi
    have hne : j.val ≠ i.val := fun h => hi (Fin.ext h.symm)
    split <;> simp [coeff_X_pow, hne]
  · simp

theorem degree_poly : (poly b).degree < 128 := by
  refine (degree_lt_iff_coeff_zero _ 128).mpr fun m hm => ?_
  rw [poly, finsetSum_coeff]
  refine Finset.sum_eq_zero fun j _ => ?_
  have hne : m ≠ j.val := by omega
  split <;> simp [coeff_X_pow, hne]

theorem degree_modulus : modulus.degree = 128 := by
  unfold modulus
  compute_degree!

theorem ext_bit (h : ∀ j, bit b j = bit c j) : b = c := by
  apply Vector.ext
  intro i hi
  apply BitVec.eq_of_getMsbD_eq
  intro k hk
  have hbyte := h ⟨8 * i + k, by omega⟩
  have hdiv : (8 * i + k) / 8 = i := by omega
  have hmod : (8 * i + k) % 8 = k := by omega
  simp only [bit, hdiv, hmod] at hbyte
  exact hbyte

set_option maxRecDepth 2000 in
/-- **The element determines the block.** -/
theorem element_injective (h : element b = element c) : b = c := by
  have hdvd : modulus ∣ poly b - poly c := AdjoinRoot.mk_eq_mk.mp h
  have hdegree : (poly b - poly c).degree < modulus.degree := by
    rw [degree_modulus]
    exact (degree_sub_le _ _).trans_lt (max_lt degree_poly degree_poly)
  have hpoly : poly b = poly c := sub_eq_zero.mp (eq_zero_of_dvd_of_degree_lt hdvd hdegree)
  refine ext_bit fun j => ?_
  have hcoeff := congrArg (fun p => p.coeff j.val) hpoly
  simp only [coeff_poly] at hcoeff
  cases hb : bit b j <;> cases hc : bit c j <;> simp_all

end Crimson.Lib.GcmField
