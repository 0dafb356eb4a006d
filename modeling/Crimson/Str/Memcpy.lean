import Crimson.Lib.Memory

/-!
# `memcpy` (`string.c`)

A forward copy: by words of eight bytes while both pointers are aligned to them, then by bytes.
Between ranges that do not meet it copies the bytes that were there before the call.
-/

set_option autoImplicit false

namespace Crimson.Str

open Crimson.Lib

/-- `k` units of `w` bytes, one after the other: the loop of words at 8, that of bytes at 1. -/
def copyUnits (w : Nat) : Nat → Mem → Nat → Nat → Mem
  | 0, m, _, _ => m
  | k + 1, m, d, s => copyUnits w k (storeBytes m d w (loadBytes m s w)) (d + w) (s + w)

/-- The pointer returned and the memory. -/
def memcpy (m : Mem) (dest src n : Nat) : Nat × Mem :=
  if 8 ≤ n ∧ dest % 8 = 0 ∧ src % 8 = 0 then
    let m := copyUnits 8 (n / 8) m dest src
    (dest, copyUnits 1 (n % 8) m (dest + 8 * (n / 8)) (src + 8 * (n / 8)))
  else (dest, copyUnits 1 n m dest src)

variable {m : Mem} {w k d s dest src n i x : Nat}

/-- A byte of a stored load is the byte that was loaded. -/
theorem loadBytes_byte (h : i < w) : BitVec.ofNat 8 (loadBytes m s w / 256 ^ i) = m (s + i) := by
  induction w generalizing s i with
  | zero => exact absurd h (Nat.not_lt_zero i)
  | succ w ih =>
    have hbyte : (m s).toNat < 256 := (m s).isLt
    cases i with
    | zero =>
      apply BitVec.eq_of_toNat_eq
      rw [Nat.add_zero s, loadBytes, BitVec.toNat_ofNat, Nat.pow_zero, Nat.div_one]
      omega
    | succ i =>
      have hrest := ih (s := s + 1) (i := i) (by omega)
      have hdrop : ((m s).toNat + 256 * loadBytes m (s + 1) w) / 256 = loadBytes m (s + 1) w := by omega
      rw [loadBytes, Nat.pow_succ, Nat.mul_comm (256 ^ i), ← Nat.div_div_eq_div_mul, hdrop, hrest, Nat.add_assoc,
        Nat.add_comm 1]

/-- Bytes outside the destination are kept. -/
theorem copyUnits_of_notMem (h : x < d ∨ d + w * k ≤ x) : copyUnits w k m d s x = m x := by
  induction k generalizing m d s with
  | zero => rfl
  | succ k ih =>
    rw [Nat.mul_succ] at h
    rw [copyUnits, ih (by omega)]
    exact storeBytes_of_notMem (by omega)

/-- Ranges apart: each unit still finds what was in the source before the loop. -/
theorem copyUnits_of_mem (hapart : d + w * k ≤ s ∨ s + w * k ≤ d) (hi : i < w * k) :
    copyUnits w k m d s (d + i) = m (s + i) := by
  induction k generalizing m d s i with
  | zero => exact absurd hi (Nat.not_lt_zero i)
  | succ k ih =>
    rw [Nat.mul_succ] at hapart hi
    rw [copyUnits]
    by_cases hfirst : i < w
    · have hin : d ≤ d + i ∧ d + i < d + w := by omega
      rw [copyUnits_of_notMem (by omega), storeBytes, if_pos hin, Nat.add_sub_cancel_left]
      exact loadBytes_byte hfirst
    · have hrest := ih (m := storeBytes m d w (loadBytes m s w)) (d := d + w) (s := s + w) (i := i - w)
        (by omega) (by omega)
      have hdest : d + w + (i - w) = d + i := by omega
      have hsrc : s + w + (i - w) = s + i := by omega
      rw [hdest, hsrc] at hrest
      rw [hrest]
      exact storeBytes_of_notMem (by omega)

theorem memcpy_of_notMem (h : x < dest ∨ dest + n ≤ x) : (memcpy m dest src n).2 x = m x := by
  unfold memcpy
  split
  · dsimp only
    rw [copyUnits_of_notMem (by omega), copyUnits_of_notMem (by omega)]
  · exact copyUnits_of_notMem (by omega)

/-- **`memcpy` between ranges that do not meet.** -/
theorem memcpy_of_mem (hapart : dest + n ≤ src ∨ src + n ≤ dest) (hi : i < n) :
    (memcpy m dest src n).2 (dest + i) = m (src + i) := by
  unfold memcpy
  split
  · dsimp only
    by_cases hword : i < 8 * (n / 8)
    · rw [copyUnits_of_notMem (by omega)]
      exact copyUnits_of_mem (by omega) hword
    · -- a byte of the rest, which the words have left alone
      have hdest : dest + i = dest + 8 * (n / 8) + (i - 8 * (n / 8)) := by omega
      have hsrc : src + 8 * (n / 8) + (i - 8 * (n / 8)) = src + i := by omega
      rw [hdest, copyUnits_of_mem (by omega) (by omega), hsrc]
      exact copyUnits_of_notMem (by omega)
  · exact copyUnits_of_mem (by omega) (by omega)

end Crimson.Str
