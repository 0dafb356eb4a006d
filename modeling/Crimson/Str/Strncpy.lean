import Crimson.Lib.Memory
import Crimson.Lib.Traced

/-!
# `strncpy` (`string.c`)

Two loops share the counter. The first stops behind the terminator of the source, which it
has written without counting it; the second writes a zero for each byte the counter still
has. So a source shorter than `n` costs `n + 1` bytes of the destination.

The functions report the addresses they write.
-/

set_option autoImplicit false

namespace Crimson.Str

open Crimson.Lib

/-- `*d = c`. -/
def putChar (m : Mem) (d : Nat) (c : BitVec 8) : Traced Nat Mem := do
  Traced.emit d
  return Function.update m d c

/-- `while (n && (*d++ = *src++)) n--;`: the memory, `d` and `n` after it. -/
def strncpyChars (m : Mem) (d src : Nat) : Nat → Traced Nat (Mem × Nat × Nat)
  | 0 => pure (m, d, 0)
  | n + 1 => do
    let m' ← putChar m d (m src)
    if m src ≠ 0 then strncpyChars m' (d + 1) (src + 1) n else pure (m', d + 1, n + 1)

/-- `while (n--) *d++ = '\0';` -/
def strncpyPad (m : Mem) (d : Nat) : Nat → Traced Nat Mem
  | 0 => pure m
  | n + 1 => do
    let m' ← putChar m d 0
    strncpyPad m' (d + 1) n

/-- The pointer returned and the memory. -/
def strncpy (m : Mem) (dest src n : Nat) : Traced Nat (Nat × Mem) := do
  let r ← strncpyChars m dest src n
  let m' ← strncpyPad r.1 r.2.1 r.2.2
  return (dest, m')

/-- A string of `len` characters starts at `src`. -/
structure IsString (m : Mem) (src len : Nat) : Prop where
  chars : ∀ i, i < len → m (src + i) ≠ 0
  terminator : m (src + len) = 0

/-- What a call of `strncpy` is for: `dest[0..n)` is written and nothing else, with the
    characters of the source and then zeros. -/
structure CopiesExactly (m : Mem) (dest src n len : Nat) (r : Traced Nat (Nat × Mem)) : Prop where
  result : r.val.1 = dest
  written : ∀ x, x ∈ r.trace ↔ dest ≤ x ∧ x < dest + n
  chars : ∀ i, i < n → i < len → r.val.2 (dest + i) = m (src + i)
  zeros : ∀ i, i < n → len ≤ i → r.val.2 (dest + i) = 0
  unchanged : ∀ x, x < dest ∨ dest + n ≤ x → r.val.2 x = m x

/-! ## The loops -/

variable {m : Mem} {d dest src n len : Nat}

/-- The string behind the first character, which a write elsewhere leaves alone. -/
theorem IsString.tail (h : IsString m src (len + 1)) {c : BitVec 8} (hd : ∀ i, i ≤ len → src + 1 + i ≠ d) :
    IsString (Function.update m d c) (src + 1) len := by
  constructor
  · intro i hi
    rw [Function.update_of_ne (hd i (by omega)), Nat.add_assoc, Nat.add_comm 1]
    exact h.chars (i + 1) (by omega)
  · rw [Function.update_of_ne (hd len le_rfl), Nat.add_assoc, Nat.add_comm 1]
    exact h.terminator

/-- A character copied before the rest is copied with it. -/
theorem copyBytes_update (happart : ∀ i, i < n → src + 1 + i ≠ d) :
    copyBytes (Function.update m d (m src)) (d + 1) (Function.update m d (m src)) (src + 1) n =
      copyBytes m d m src (n + 1) := by
  funext x
  simp only [copyBytes]
  by_cases hfirst : x = d
  · subst hfirst
    rw [if_neg (by omega), if_pos (by omega), Function.update_self, Nat.sub_self, Nat.add_zero]
  · by_cases hin : d + 1 ≤ x ∧ x < d + 1 + n
    · have hread : src + 1 + (x - (d + 1)) = src + (x - d) := by omega
      rw [if_pos hin, if_pos (by omega), Function.update_of_ne (happart _ (by omega)), hread]
    · rw [if_neg hin, if_neg (by omega), Function.update_of_ne hfirst]

/-- The first loop copies characters until one of the two ends; a terminator it comes to is
    copied too. -/
theorem strncpyChars_eq (hstr : IsString m src len)
    (happart : ∀ i j, i ≤ len → j < n → src + i ≠ d + j) :
    strncpyChars m d src n =
      if n ≤ len then ⟨(copyBytes m d m src n, d + n, 0), List.range' d n⟩
      else ⟨(copyBytes m d m src (len + 1), d + (len + 1), n - len), List.range' d (len + 1)⟩ := by
  induction n generalizing m d src len with
  | zero =>
    have hnone : copyBytes m d m src 0 = m := funext fun x => if_neg (by omega)
    rw [if_pos (Nat.zero_le len), hnone]
    rfl
  | succ n ih =>
    cases len with
    | zero =>
      -- the terminator itself is stored, and then the loop ends
      have hzero : m src = 0 := hstr.terminator
      have hone : copyBytes m d m src 1 = Function.update m d (m src) := by
        rw [← copyBytes_update (fun i hi => absurd hi (Nat.not_lt_zero i))]
        exact funext fun x => if_neg (by omega)
      rw [if_neg (by omega), Nat.zero_add, hone, hzero]
      simp only [strncpyChars, hzero, putChar]
      rfl
    | succ len =>
      have hchar : m src ≠ 0 := hstr.chars 0 (by omega)
      have hfar : ∀ i, i ≤ len → src + 1 + i ≠ d := fun i hi => by
        have := happart (i + 1) 0 (by omega) (by omega)
        omega
      have hrest := ih (d := d + 1) (hstr.tail (c := m src) hfar) fun i j hi hj => by
        have := happart (i + 1) (j + 1) (by omega) (by omega)
        omega
      -- the first store is far from the rest of the string, so the rest is copied as it was
      have hloop : strncpyChars m d src (n + 1) =
          ⟨(strncpyChars (Function.update m d (m src)) (d + 1) (src + 1) n).val,
            d :: (strncpyChars (Function.update m d (m src)) (d + 1) (src + 1) n).trace⟩ := by
        simp only [strncpyChars, if_pos hchar]
        rfl
      rw [hloop, hrest]
      by_cases hle : n ≤ len
      · rw [if_pos hle, if_pos (by omega), copyBytes_update fun i hi => hfar i (by omega), List.range'_succ,
          Nat.add_assoc, Nat.add_comm 1]
      · have htrace : List.range' d (len + 1 + 1) = d :: List.range' (d + 1) (len + 1) := List.range'_succ
        have hend : d + 1 + (len + 1) = d + (len + 1 + 1) := by omega
        rw [if_neg hle, if_neg (by omega), copyBytes_update fun i hi => hfar i (by omega), htrace, hend,
          Nat.add_sub_add_right]

theorem strncpyPad_eq : strncpyPad m d n = ⟨fillBytes m d n 0, List.range' d n⟩ := by
  induction n generalizing m d with
  | zero =>
    have hnone : fillBytes m d 0 0 = m := funext fun x => if_neg (by omega)
    rw [hnone]
    rfl
  | succ n ih =>
    have hfill : fillBytes (Function.update m d 0) (d + 1) n 0 = fillBytes m d (n + 1) 0 := by
      funext x
      simp only [fillBytes]
      by_cases hfirst : x = d
      · subst hfirst
        rw [if_neg (by omega), if_pos (by omega), Function.update_self]
      · rw [Function.update_of_ne hfirst]
        exact if_congr (by omega) rfl rfl
    have hloop : strncpyPad m d (n + 1) =
        ⟨(strncpyPad (Function.update m d 0) (d + 1) n).val, d :: (strncpyPad (Function.update m d 0) (d + 1) n).trace⟩ :=
      rfl
    rw [hloop, ih, hfill, List.range'_succ]

/-! ## The call -/

/-- A source of at least `n` characters: they are copied, and nothing else is written. -/
theorem strncpy_long (hstr : IsString m src len) (happart : ∀ i j, i ≤ len → j < n → src + i ≠ dest + j)
    (hlong : n ≤ len) : strncpy m dest src n = ⟨(dest, copyBytes m dest m src n), List.range' dest n⟩ := by
  have hchars := strncpyChars_eq hstr happart
  rw [if_pos hlong] at hchars
  unfold strncpy
  rw [hchars]
  exact congrArg (fun t => (⟨(dest, copyBytes m dest m src n), t⟩ : Traced Nat (Nat × Mem))) (List.append_nil _)

/-- **A shorter source**: the terminator, and behind it a zero for each of the `n - len` bytes that
    the counter still has, so the last zero goes to `dest[n]`. -/
theorem strncpy_short (hstr : IsString m src len) (happart : ∀ i j, i ≤ len → j < n → src + i ≠ dest + j)
    (hshort : len < n) :
    strncpy m dest src n =
      ⟨(dest, fillBytes (copyBytes m dest m src (len + 1)) (dest + (len + 1)) (n - len) 0),
        List.range' dest (n + 1)⟩ := by
  have hchars := strncpyChars_eq hstr happart
  rw [if_neg (by omega)] at hchars
  have htrace : List.range' dest (n + 1) =
      List.range' dest (len + 1) ++ List.range' (dest + (len + 1)) (n - len) := by
    have hsplit := List.range'_append_1 (s := dest) (m := len + 1) (n := n - len)
    rwa [show len + 1 + (n - len) = n + 1 by omega, eq_comm] at hsplit
  unfold strncpy
  rw [hchars, htrace]
  simp only [strncpyPad_eq]
  exact congrArg (fun t => (⟨_, t⟩ : Traced Nat (Nat × Mem)))
    (congrArg (List.range' dest (len + 1) ++ ·) (List.append_nil _))

/-- Where a source of at least `n` characters is exactly the case in which the call does what it
    is for. -/
theorem strncpy_exact_iff (hstr : IsString m src len) (happart : ∀ i j, i ≤ len → j < n → src + i ≠ dest + j) :
    CopiesExactly m dest src n len (strncpy m dest src n) ↔ n ≤ len := by
  constructor
  · intro h
    by_contra hshort
    have hmem : dest + n ∈ (strncpy m dest src n).trace := by
      rw [strncpy_short hstr happart (by omega)]
      exact List.mem_range'_1.mpr (by omega)
    have hbound := ((h.written (dest + n)).mp hmem).2
    omega
  · intro hlong
    rw [strncpy_long hstr happart hlong]
    refine ⟨rfl, fun x => List.mem_range'_1, fun i hi _ => ?_, fun i hi hlen => absurd hi (by omega), fun x hx => ?_⟩
    · have hread : src + (dest + i - dest) = src + i := by omega
      show copyBytes m dest m src n (dest + i) = m (src + i)
      rw [copyBytes_of_mem (by omega) (by omega), hread]
    · exact copyBytes_of_notMem hx

/-- The string "A" at 100, and 7 in the byte behind a destination of two bytes at 200. -/
def oneChar : Mem := fun x => if x = 100 then 65 else if x = 202 then 7 else 0

theorem oneChar_isString : IsString oneChar 100 1 := by
  constructor
  · intro i hi
    obtain rfl : i = 0 := by omega
    decide
  · decide

/-- A destination of one byte gets the character. -/
theorem strncpy_one_exact : CopiesExactly oneChar 200 100 1 1 (strncpy oneChar 200 100 1) :=
  (strncpy_exact_iff oneChar_isString (by omega)).mpr le_rfl

/-- One of two bytes gets the character, a zero, and a zero behind it. -/
theorem strncpy_overruns : ¬CopiesExactly oneChar 200 100 2 1 (strncpy oneChar 200 100 2) := by
  intro h
  exact absurd (h.unchanged 202 (Or.inr le_rfl)) (by decide)

end Crimson.Str
