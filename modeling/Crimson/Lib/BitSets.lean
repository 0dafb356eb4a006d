import Crimson.Lib.Bits
import Mathlib.Data.List.Dedup
import Mathlib.Data.List.Perm.Basic

/-!
# Sets of small numbers in a word

The word that has the bits of a list of numbers, and the number of bits of a word. A word
with the bits of a list has as many bits as the list has different members.
-/

set_option autoImplicit false

namespace Crimson.Lib

variable {w : Nat}

/-- The bits of a list set one after the other. -/
theorem getLsbD_foldl_or (x : BitVec w) (ids : List Nat) {i : Nat} (hi : i < w) :
    (ids.foldl (fun x i => x ||| 1#w <<< i) x).getLsbD i = (x.getLsbD i || decide (i ∈ ids)) := by
  induction ids generalizing x with
  | nil => simp
  | cons id ids ih =>
    rw [List.foldl_cons, ih, getLsbD_or_shift]
    simp [hi, Bool.or_assoc]

/-- The number of bits set. -/
def bitCount (x : BitVec w) : Nat := (List.range w).countP x.getLsbD

theorem bitCount_eq {x : BitVec w} {ids : List Nat} (hids : ∀ i ∈ ids, i < w)
    (hx : ∀ i, i < w → (x.getLsbD i = true ↔ i ∈ ids)) : bitCount x = ids.dedup.length := by
  rw [bitCount, List.countP_eq_length_filter]
  refine List.Perm.length_eq ((List.perm_ext_iff_of_nodup (List.nodup_range.filter _) ids.nodup_dedup).mpr ?_)
  intro i
  rw [List.mem_filter, List.mem_range, List.mem_dedup]
  constructor
  · intro h
    exact (hx i h.1).mp h.2
  · intro h
    exact ⟨hids i h, (hx i (hids i h)).mpr h⟩

theorem bitCount_eq_zero {x : BitVec w} : bitCount x = 0 ↔ x = 0#w := by
  rw [bitCount, List.countP_eq_zero]
  constructor
  · intro h
    refine BitVec.eq_of_getLsbD_eq fun i hi => ?_
    have hclear := h i (List.mem_range.mpr hi)
    simpa using hclear
  · intro h i _
    simp [h]

end Crimson.Lib
