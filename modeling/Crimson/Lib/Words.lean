import Mathlib.Data.List.Basic
import Mathlib.Data.List.TakeWhile
import Mathlib.Algebra.Ring.Nat

/-!
# Little-endian words in a list of bytes

`leBytes n x` is the word `x` as `n` bytes, lowest first, and `leNat` reads a list of bytes
back. `wordAt` reads the word of `n` bytes at an offset.
-/

set_option autoImplicit false

namespace Crimson.Lib

def leBytes : Nat → Nat → List UInt8
  | 0, _ => []
  | n + 1, x => x.toUInt8 :: leBytes n (x / 256)

def leNat : List UInt8 → Nat
  | [] => 0
  | b :: bytes => b.toNat + 256 * leNat bytes

def wordAt (bytes : List UInt8) (off n : Nat) : Nat := leNat ((bytes.drop off).take n)

@[simp]
theorem length_leBytes (n x : Nat) : (leBytes n x).length = n := by
  induction n generalizing x with
  | zero => rfl
  | succ n ih => simp [leBytes, ih]

/-- A word that fits in `n` bytes is read back. -/
theorem leNat_leBytes {n x : Nat} (h : x < 256 ^ n) : leNat (leBytes n x) = x := by
  induction n generalizing x with
  | zero =>
    rw [Nat.pow_zero] at h
    simp [leBytes, leNat]
    omega
  | succ n ih =>
    have hrest : x / 256 < 256 ^ n := Nat.div_lt_of_lt_mul (by rwa [Nat.pow_succ, Nat.mul_comm] at h)
    have hlow : x.toUInt8.toNat = x % 256 := by simp
    rw [leBytes, leNat, ih hrest, hlow]
    exact Nat.mod_add_div x 256

/-- A word below the weight of its highest byte has a zero byte. -/
theorem leNat_zero_mem {bytes : List UInt8} {n : Nat} (hn : n + 1 = bytes.length) (h : leNat bytes < 256 ^ n) :
    (0 : UInt8) ∈ bytes := by
  induction bytes generalizing n with
  | nil => simp at hn
  | cons b bytes ih =>
    cases n with
    | zero =>
      obtain rfl : bytes = [] := List.length_eq_zero_iff.mp (by simpa using hn.symm)
      have hb : b = 0 := by
        apply UInt8.toNat_inj.mp
        simp [leNat] at h
        simp [h]
      simp [hb]
    | succ n =>
      have hlow : leNat bytes < 256 ^ n := by
        rw [leNat, Nat.pow_succ] at h
        omega
      exact List.mem_cons_of_mem b (ih (by simpa using hn) hlow)

end Crimson.Lib
