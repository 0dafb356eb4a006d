import Crimson.Str.Memcpy
import Mathlib.Tactic.IntervalCases

/-!
# `memset` and `memmove` (`string.c`)

`memset` fills by words of eight bytes while the pointer is aligned to them, then by bytes;
`memmove` copies by bytes, upwards or downwards, so that a byte of the source is read before it
is written. With `memcpy` they leave what the definitions by bytes leave.
-/

set_option autoImplicit false

namespace Crimson.Str

open Crimson.Lib

/-- `k` units of `w` bytes with the value `v`, one after the other: the loop of words at 8, that
    of bytes at 1. -/
def setUnits (w v : Nat) : Nat → Mem → Nat → Mem
  | 0, m, _ => m
  | k + 1, m, p => setUnits w v k (storeBytes m p w v) (p + w)

/-- `word_val`: the byte in all eight places. -/
def wordVal (val : BitVec 8) : BitVec 64 :=
  let w := val.setWidth 64
  let w := w ||| w <<< 8
  let w := w ||| w <<< 16
  w ||| w <<< 32

/-- The pointer returned and the memory. -/
def memset (m : Mem) (s : Nat) (c : BitVec 32) (n : Nat) : Nat × Mem :=
  let val := c.setWidth 8
  if 8 ≤ n ∧ s % 8 = 0 then
    let m := setUnits 8 (wordVal val).toNat (n / 8) m s
    (s, setUnits 1 val.toNat (n % 8) m (s + 8 * (n / 8)))
  else (s, setUnits 1 val.toNat n m s)

/-- `while (n--) *--d = *--s;` -/
def copyDown : Nat → Mem → Nat → Nat → Mem
  | 0, m, _, _ => m
  | n + 1, m, d, s => copyDown n (storeBytes m (d - 1) 1 (loadBytes m (s - 1) 1)) (d - 1) (s - 1)

/-- The pointer returned and the memory. -/
def memmove (m : Mem) (dest src n : Nat) : Nat × Mem :=
  if dest < src then (dest, copyUnits 1 n m dest src)
  else if src < dest then (dest, copyDown n m (dest + n) (src + n))
  else (dest, m)

variable {m : Mem} {v w k p d s dest src n : Nat} {c : BitVec 8}

/-! ## Filling -/

theorem wordVal_byte : ∀ (val : BitVec 8) (i : Fin 8), BitVec.ofNat 8 ((wordVal val).toNat / 256 ^ i.val) = val := by
  decide +kernel

theorem setUnits_eq_fillBytes (hv : ∀ i, i < w → BitVec.ofNat 8 (v / 256 ^ i) = c) :
    setUnits w v k m p = fillBytes m p (w * k) c := by
  induction k generalizing m p with
  | zero =>
    funext x
    exact (if_neg (by omega)).symm
  | succ k ih =>
    rw [setUnits, ih]
    funext x
    rw [Nat.mul_succ]
    simp only [fillBytes, storeBytes]
    by_cases hfirst : p ≤ x ∧ x < p + w
    · have hnot : ¬(p + w ≤ x ∧ x < p + w + w * k) := by omega
      have hall : p ≤ x ∧ x < p + (w * k + w) := by omega
      rw [if_neg hnot, if_pos hfirst, if_pos hall]
      exact hv _ (by omega)
    · rw [if_neg hfirst]
      exact if_congr (by omega) rfl rfl

theorem setUnits_bytes : setUnits 1 c.toNat n m p = fillBytes m p n c := by
  rw [setUnits_eq_fillBytes, Nat.one_mul]
  intro i hi
  obtain rfl : i = 0 := by omega
  simp

theorem setUnits_words : setUnits 8 (wordVal c).toNat k m p = fillBytes m p (8 * k) c :=
  setUnits_eq_fillBytes fun i hi => wordVal_byte c ⟨i, hi⟩

theorem fillBytes_append : fillBytes (fillBytes m p n c) (p + n) k c = fillBytes m p (n + k) c := by
  funext x
  simp only [fillBytes]
  by_cases hsecond : p + n ≤ x ∧ x < p + n + k
  · rw [if_pos hsecond, if_pos (by omega)]
  · rw [if_neg hsecond]
    exact if_congr (by omega) rfl rfl

/-- **`memset` fills its range.** -/
theorem memset_eq (c : BitVec 32) : memset m s c n = (s, fillBytes m s n (c.setWidth 8)) := by
  unfold memset
  split
  · have hsplit : 8 * (n / 8) + n % 8 = n := Nat.div_add_mod n 8
    dsimp only
    rw [setUnits_words, setUnits_bytes, fillBytes_append, hsplit]
  · dsimp only
    rw [setUnits_bytes]

/-! ## Copying -/

/-- A byte copied by hand. -/
theorem storeBytes_loadBytes_one : storeBytes m d 1 (loadBytes m s 1) = copyBytes m d m s 1 := by
  funext x
  simp only [storeBytes, copyBytes]
  split
  · have hx : x = d := by omega
    subst hx
    simp [loadBytes]
  · rfl

/-- Upwards from below: what is still to be read has not been written. -/
theorem copyUnits_up (h : d ≤ s) : copyUnits 1 n m d s = copyBytes m d m s n := by
  induction n generalizing m d s with
  | zero =>
    funext x
    exact (if_neg (by omega)).symm
  | succ n ih =>
    rw [copyUnits, ih (by omega), storeBytes_loadBytes_one]
    funext x
    simp only [copyBytes]
    by_cases hrest : d + 1 ≤ x ∧ x < d + 1 + n
    · have hnot : ¬(d ≤ s + 1 + (x - (d + 1)) ∧ s + 1 + (x - (d + 1)) < d + 1) := by omega
      have hsource : s + 1 + (x - (d + 1)) = s + (x - d) := by omega
      rw [if_pos hrest, if_neg hnot, if_pos (by omega), hsource]
    · rw [if_neg hrest]
      exact if_congr (by omega) rfl rfl

/-- Downwards from above. -/
theorem copyDown_eq (h : s ≤ d) : copyDown n m (d + n) (s + n) = copyBytes m d m s n := by
  induction n generalizing m with
  | zero =>
    funext x
    exact (if_neg (by omega)).symm
  | succ n ih =>
    have hd : d + (n + 1) - 1 = d + n := by omega
    have hs : s + (n + 1) - 1 = s + n := by omega
    rw [copyDown, hd, hs, ih, storeBytes_loadBytes_one]
    funext x
    simp only [copyBytes]
    by_cases hrest : d ≤ x ∧ x < d + n
    · have hnot : ¬(d + n ≤ s + (x - d) ∧ s + (x - d) < d + n + 1) := by omega
      rw [if_pos hrest, if_neg hnot, if_pos (by omega)]
    · rw [if_neg hrest]
      by_cases hlast : d + n ≤ x ∧ x < d + n + 1
      · have hx : s + n + (x - (d + n)) = s + (x - d) := by omega
        rw [if_pos hlast, if_pos (by omega), hx]
      · rw [if_neg hlast, if_neg (by omega)]

theorem copyBytes_self : copyBytes m d m d n = m := by
  funext x
  simp only [copyBytes]
  split
  · congr 1
    omega
  · rfl

/-- **`memmove` copies the bytes that were there, however the ranges meet.** -/
theorem memmove_eq : memmove m dest src n = (dest, copyBytes m dest m src n) := by
  unfold memmove
  split
  · rw [copyUnits_up (by omega)]
  · split
    · rw [copyDown_eq (by omega)]
    · obtain rfl : dest = src := by omega
      rw [copyBytes_self]

theorem copyUnits_apart (hapart : d + w * k ≤ s ∨ s + w * k ≤ d) :
    copyUnits w k m d s = copyBytes m d m s (w * k) := by
  funext x
  by_cases hx : d ≤ x ∧ x < d + w * k
  · obtain ⟨i, rfl⟩ := Nat.exists_eq_add_of_le hx.1
    rw [copyUnits_of_mem hapart (by omega), copyBytes_of_mem hx.1 hx.2, Nat.add_sub_cancel_left]
  · rw [copyUnits_of_notMem (by omega), copyBytes_of_notMem (by omega)]

/-- The same of `memcpy`, whose ranges are apart. -/
theorem memcpy_eq (hapart : dest + n ≤ src ∨ src + n ≤ dest) :
    memcpy m dest src n = (dest, copyBytes m dest m src n) := by
  have hpointer : (memcpy m dest src n).1 = dest := by
    unfold memcpy
    split <;> rfl
  refine Prod.ext hpointer ?_
  show (memcpy m dest src n).2 = copyBytes m dest m src n
  funext x
  by_cases hx : dest ≤ x ∧ x < dest + n
  · obtain ⟨i, rfl⟩ := Nat.exists_eq_add_of_le hx.1
    rw [memcpy_of_mem hapart (by omega), copyBytes_of_mem hx.1 hx.2, Nat.add_sub_cancel_left]
  · rw [memcpy_of_notMem (by omega), copyBytes_of_notMem (by omega)]

/-- **The operations on memory are those by bytes.** -/
theorem memory_operations_bytewise (m : Mem) (s dest src n : Nat) (c : BitVec 32) :
    memset m s c n = (s, setUnits 1 (c.setWidth 8).toNat n m s) ∧
      (memset m s c n).2 = fillBytes m s n (c.setWidth 8) ∧
      (dest + n ≤ src ∨ src + n ≤ dest →
        memcpy m dest src n = (dest, copyUnits 1 n m dest src) ∧
          (memcpy m dest src n).2 = copyBytes m dest m src n) ∧
      memmove m dest src n = (dest, copyBytes m dest m src n) := by
  refine ⟨?_, ?_, ?_, memmove_eq⟩
  · rw [memset_eq, setUnits_bytes]
  · rw [memset_eq]
  · intro hapart
    constructor
    · rw [memcpy_eq hapart, copyUnits_apart (by omega), Nat.one_mul]
    · rw [memcpy_eq hapart]

/-- Nine bytes between aligned places: one word and one byte. -/
theorem memory_operations_nine :
    memcpy (fun x => BitVec.ofNat 8 x) 0 16 9 = (0, copyUnits 1 9 (fun x => BitVec.ofNat 8 x) 0 16) ∧
      (memcpy (fun x => BitVec.ofNat 8 x) 0 16 9).2 =
        copyBytes (fun x => BitVec.ofNat 8 x) 0 (fun x => BitVec.ofNat 8 x) 16 9 :=
  (memory_operations_bytewise (fun x => BitVec.ofNat 8 x) 0 0 16 9 0).2.2.1 (.inl (by decide))

end Crimson.Str
