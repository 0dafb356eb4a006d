import Mathlib.Logic.Function.Basic

/-!
# Bit vectors as vectors over GF(2)

`BitVec n` is generated by its single bits under `^^^`, so what respects `^^^` is settled on the
single bits (`bits_induction`). A linear map is injective where Gaussian elimination on the
images of the single bits gets every one of them back (`solve_image`).
-/

set_option autoImplicit false

namespace Crimson.Lib

variable {n : Nat}

/-! ## Single bits -/

theorem twoPow_ext {v : BitVec n} {i : Nat} (h : ∀ j < n, v.getLsbD j = decide (i = j)) :
    v = BitVec.twoPow n i := by
  apply BitVec.eq_of_getLsbD_eq
  intro j hj
  rw [h j hj, BitVec.getLsbD_twoPow]
  by_cases hij : i = j
  · simp [hij, hj]
  · simp [hij]

/-- **What holds of 0, of the single bits and of sums holds of every vector.** -/
theorem bits_induction {P : BitVec n → Prop} (hzero : P 0) (hxor : ∀ v w, P v → P w → P (v ^^^ w))
    (hbit : ∀ i < n, P (BitVec.twoPow n i)) (v : BitVec n) : P v := by
  suffices hbelow : ∀ k (v : BitVec n), (∀ i, k ≤ i → v.getLsbD i = false) → P v from
    hbelow n v fun i hi => BitVec.getLsbD_of_ge v i hi
  intro k
  induction k with
  | zero =>
    intro v hv
    have hv0 : v = 0 := BitVec.eq_of_getLsbD_eq fun i _ => by simp [hv i (Nat.zero_le i)]
    exact hv0 ▸ hzero
  | succ k ih =>
    intro v hv
    by_cases hk : v.getLsbD k = true
    · -- the highest bit, taken off and put back
      have hkn : k < n := BitVec.lt_of_getLsbD hk
      have hrest : P (v ^^^ BitVec.twoPow n k) := by
        refine ih _ fun i hi => ?_
        rw [BitVec.getLsbD_xor, BitVec.getLsbD_twoPow]
        rcases Nat.eq_or_lt_of_le hi with rfl | hlt
        · simp [hk, hkn]
        · simp [hv i hlt, Nat.ne_of_lt hlt]
      have hback : v = (v ^^^ BitVec.twoPow n k) ^^^ BitVec.twoPow n k := by
        rw [BitVec.xor_assoc, BitVec.xor_self, BitVec.xor_zero]
      rw [hback]
      exact hxor _ _ hrest (hbit k hkn)
    · refine ih v fun i hi => ?_
      rcases Nat.eq_or_lt_of_le hi with rfl | hlt
      · exact Bool.not_eq_true _ ▸ hk
      · exact hv i hlt

/-! ## Elimination -/

/-- A row: the bit it clears, the image of a vector and the vector. -/
structure Row (n : Nat) where
  pivot : Nat
  image : BitVec n
  source : BitVec n

/-- An image and its source, with the rows taken off, the oldest first. -/
def reduceBy (rows : List (Row n)) (v c : BitVec n) : BitVec n × BitVec n :=
  rows.foldr (fun r s => if s.1.getLsbD r.pivot then (s.1 ^^^ r.image, s.2 ^^^ r.source) else s) (v, c)

/-- The rows of the images `f 0`, ..., `f (k - 1)` of the single bits. -/
def eliminate (f : Nat → BitVec n) : Nat → List (Row n)
  | 0 => []
  | k + 1 =>
    let rows := eliminate f k
    let s := reduceBy rows (f k) (BitVec.twoPow n k)
    { pivot := s.1.toNat.log2, image := s.1, source := s.2 } :: rows

/-- The source of an image, as the rows give it. -/
def solve (rows : List (Row n)) (v : BitVec n) : BitVec n := (reduceBy rows v 0).2

theorem reduceBy_xor (rows : List (Row n)) (v w c d : BitVec n) :
    reduceBy rows (v ^^^ w) (c ^^^ d) =
      ((reduceBy rows v c).1 ^^^ (reduceBy rows w d).1, (reduceBy rows v c).2 ^^^ (reduceBy rows w d).2) := by
  induction rows with
  | nil => rfl
  | cons r rows ih =>
    simp only [reduceBy, List.foldr_cons] at ih ⊢
    simp only [ih, BitVec.getLsbD_xor]
    generalize List.foldr _ (v, c) rows = s
    generalize List.foldr _ (w, d) rows = t
    cases s.1.getLsbD r.pivot with
    | false =>
      cases t.1.getLsbD r.pivot with
      | false => simp
      | true => simp [BitVec.xor_assoc]
    | true =>
      cases t.1.getLsbD r.pivot with
      | false =>
        simp only [Bool.true_bne, Bool.not_false, if_true, Bool.false_eq_true, if_false, Prod.mk.injEq]
        constructor <;> ac_rfl
      | true =>
        have hcancel (a b r : BitVec n) : a ^^^ b = a ^^^ r ^^^ (b ^^^ r) := by
          rw [BitVec.xor_assoc a r, BitVec.xor_comm b r, ← BitVec.xor_assoc r r, BitVec.xor_self, BitVec.zero_xor]
        simp [← hcancel]

theorem solve_xor (rows : List (Row n)) (v w : BitVec n) : solve rows (v ^^^ w) = solve rows v ^^^ solve rows w := by
  have hzero : (0 : BitVec n) = 0 ^^^ 0 := by simp
  rw [solve, hzero, reduceBy_xor]
  rfl

/-- **Rows that give back each single bit give back every vector.** -/
theorem solve_image {f : BitVec n → BitVec n} {rows : List (Row n)} (hxor : ∀ v w, f (v ^^^ w) = f v ^^^ f w)
    (hbit : ∀ i < n, solve rows (f (BitVec.twoPow n i)) = BitVec.twoPow n i) (v : BitVec n) :
    solve rows (f v) = v := by
  have hself (g : BitVec n → BitVec n) (hg : ∀ v w, g (v ^^^ w) = g v ^^^ g w) : g 0 = 0 := by
    have h := hg 0 0
    simpa using h
  induction v using bits_induction with
  | hzero => exact hself (fun v => solve rows (f v)) fun v w => by rw [hxor, solve_xor]
  | hxor v w hv hw => rw [hxor, solve_xor, hv, hw]
  | hbit i hi => exact hbit i hi

end Crimson.Lib
