import Crimson.Str.Model

/-!
# `strtoul` (`string.c` and `stdlib.c`)

There are two definitions, and the one of `string.c` is linked, that of `stdlib.c` being weak.
Only the weak one finds a base, for 0, and skips `0x`, for 16; the strong one takes the base as
it is, so with 0 it reads no digit at all.

A string is the list of its bytes, which the terminator follows. The result is the value and
what `endptr` is left at.
-/

set_option autoImplicit false

namespace Crimson.Str

/-- The value of a digit, of either case. -/
def digitValue (c : UInt8) : Option Int :=
  if 48 ≤ c ∧ c ≤ 57 then some (c.toNat - 48)
  else if 97 ≤ c ∧ c ≤ 122 then some (c.toNat - 97 + 10)
  else if 65 ≤ c ∧ c ≤ 90 then some (c.toNat - 65 + 10)
  else none

def skipBlanks (s : List UInt8) : List UInt8 := s.dropWhile fun c => c = 32 ∨ c = 9

/-- The loop of `string.c`, `while (*str)`. -/
def strtoulDigits (base : Int) (result : UInt64) : List UInt8 → UInt64 × List UInt8
  | [] => (result, [])
  | c :: s =>
    if c = 0 then (result, c :: s)
    else match digitValue c with
      | none => (result, c :: s)
      | some digit =>
        if digit ≥ base then (result, c :: s)
        else strtoulDigits base (result * UInt64.ofInt base + UInt64.ofInt digit) s

/-- `strtoul` of `string.c`. -/
def strtoul (str : List UInt8) (base : Int) : UInt64 × List UInt8 := strtoulDigits base 0 (skipBlanks str)

namespace Weak

/-- "Determine base": the base and where the digits start. -/
def determineBase (str : List UInt8) (base : Int) : Int × List UInt8 :=
  if base = 0 then
    if charAt str 0 = 48 then
      if charAt str 1 = 120 ∨ charAt str 1 = 88 then (16, str.drop 2) else (8, str.drop 1)
    else (10, str)
  else if base = 16 then
    if charAt str 0 = 48 ∧ (charAt str 1 = 120 ∨ charAt str 1 = 88) then (16, str.drop 2) else (16, str)
  else (base, str)

/-- The loop of `stdlib.c`, `while (1)`, which the terminator leaves as any other character
    that is no digit does. -/
def strtoulDigits (base : Int) (result : UInt64) : List UInt8 → UInt64 × List UInt8
  | [] => (result, [])
  | c :: s =>
    match digitValue c with
    | none => (result, c :: s)
    | some digit =>
      if digit ≥ base then (result, c :: s)
      else strtoulDigits base (result * UInt64.ofInt base + UInt64.ofInt digit) s

/-- `strtoul` of `stdlib.c`. -/
def strtoul (str : List UInt8) (base : Int) : UInt64 × List UInt8 :=
  let d := determineBase (skipBlanks str) base
  strtoulDigits d.1 0 d.2

end Weak

/-- `0x` or `0X`, the first thing after the blanks. -/
def HexFirst (str : List UInt8) : Prop :=
  charAt (skipBlanks str) 0 = 48 ∧ (charAt (skipBlanks str) 1 = 120 ∨ charAt (skipBlanks str) 1 = 88)

/-- A decimal digit, the first thing after the blanks. -/
def DigitFirst (str : List UInt8) : Prop := isDigit (charAt (skipBlanks str) 0)

variable {s t : List UInt8} {c : UInt8} {base digit : Int} {result : UInt64}

/-! ## The loop -/

/-- The two loops are one. -/
theorem weak_strtoulDigits : Weak.strtoulDigits base result s = strtoulDigits base result s := by
  induction s generalizing result with
  | nil => rfl
  | cons c s ih =>
    rw [Weak.strtoulDigits, strtoulDigits]
    by_cases hzero : c = 0
    · subst hzero
      rfl
    · rw [if_neg hzero]
      split
      · rfl
      · rw [ih]

/-- What is left is never longer. -/
theorem length_strtoulDigits_le : (strtoulDigits base result s).2.length ≤ s.length := by
  induction s generalizing result with
  | nil => exact le_rfl
  | cons c s ih =>
    rw [strtoulDigits]
    split
    · exact le_rfl
    · split
      · exact le_rfl
      · split
        · exact le_rfl
        · exact ih.trans (Nat.le_succ _)

/-- A decimal digit is below ten, a letter is not. -/
theorem digitValue_of_isDigit (h : isDigit c) : ∃ digit, digitValue c = some digit ∧ 0 ≤ digit ∧ digit < 10 := by
  have hc : 48 ≤ c ∧ c ≤ 57 := by simpa [isDigit] using h
  refine ⟨_, if_pos hc, ?_⟩
  simp only [UInt8.le_iff_toNat_le, UInt8.reduceToNat] at hc
  omega

theorem ten_le_digitValue (h : ¬isDigit c) (hdigit : digitValue c = some digit) : 10 ≤ digit := by
  have hc : ¬(48 ≤ c ∧ c ≤ 57) := by simpa [isDigit] using h
  unfold digitValue at hdigit
  rw [if_neg hc] at hdigit
  simp only [UInt8.le_iff_toNat_le, UInt8.reduceToNat] at hdigit
  split at hdigit
  · cases hdigit
    omega
  · split at hdigit
    · cases hdigit
      omega
    · cases hdigit

theorem digitValue_nonneg (hdigit : digitValue c = some digit) : 0 ≤ digit := by
  by_cases h : isDigit c
  · obtain ⟨digit', heq, hle, -⟩ := digitValue_of_isDigit h
    rw [heq] at hdigit
    cases hdigit
    exact hle
  · have hten := ten_le_digitValue h hdigit
    omega

/-- A loop that finds no digit below its base. -/
theorem strtoulDigits_stop (h : ∀ digit, digitValue (charAt s 0) = some digit → base ≤ digit) :
    strtoulDigits base result s = (result, s) := by
  cases s with
  | nil => rfl
  | cons c s =>
    rw [strtoulDigits]
    split
    · rfl
    · split
      · rfl
      · rename_i digit hdigit
        exact if_pos (h digit hdigit)

/-- A digit of the base is read. -/
theorem length_strtoulDigits_lt (hdigit : digitValue c = some digit) (hbase : digit < base) :
    (strtoulDigits base result (c :: s)).2.length ≤ s.length := by
  have hc : c ≠ 0 := by
    rintro rfl
    cases hdigit
  rw [strtoulDigits, if_neg hc, hdigit]
  dsimp only
  rw [if_neg (by omega)]
  exact length_strtoulDigits_le

/-- The strong definition in base 0: nothing is read, and the value is 0. -/
theorem strtoul_base_zero : strtoul s 0 = (0, skipBlanks s) :=
  strtoulDigits_stop fun _ => digitValue_nonneg

/-! ## The two definitions -/

theorem eq_cons_of_charAt (h : charAt s 0 = c) (hc : c ≠ 0) : ∃ t, s = c :: t := by
  cases s with
  | nil => exact absurd h.symm hc
  | cons d t => exact ⟨t, by rw [← h]; rfl⟩

/-- The strong definition stops at the `x`, and the weak one starts behind it. -/
theorem strtoul_ne_of_hexFirst (h : HexFirst s) : strtoul s 16 ≠ Weak.strtoul s 16 := by
  obtain ⟨hfirst, hsecond⟩ := h
  have hbase : Weak.determineBase (skipBlanks s) 16 = (16, (skipBlanks s).drop 2) := by
    unfold Weak.determineBase
    rw [if_neg (by decide), if_pos rfl, if_pos ⟨hfirst, hsecond⟩]
  have hstop : 2 ≤ (skipBlanks s).length ∧ (strtoul s 16).2.length + 1 = (skipBlanks s).length := by
    obtain ⟨t, ht⟩ := eq_cons_of_charAt hfirst (by decide)
    rw [ht] at hsecond
    unfold strtoul
    rw [ht]
    cases hsecond with
    | inl hx =>
      obtain ⟨t', rfl⟩ := eq_cons_of_charAt (s := t) hx (by decide)
      exact ⟨by simp, rfl⟩
    | inr hx =>
      obtain ⟨t', rfl⟩ := eq_cons_of_charAt (s := t) hx (by decide)
      exact ⟨by simp, rfl⟩
  have hshorter : (Weak.strtoul s 16).2.length ≤ ((skipBlanks s).drop 2).length := by
    unfold Weak.strtoul
    rw [hbase, weak_strtoulDigits]
    exact length_strtoulDigits_le
  intro heq
  rw [heq] at hstop
  rw [List.length_drop] at hshorter
  omega

theorem strtoul_eq_of_not_hexFirst (h : ¬HexFirst s) : strtoul s 16 = Weak.strtoul s 16 := by
  have hbase : Weak.determineBase (skipBlanks s) 16 = (16, skipBlanks s) := by
    unfold Weak.determineBase
    rw [if_neg (by decide), if_pos rfl]
    exact if_neg h
  unfold Weak.strtoul
  rw [hbase, weak_strtoulDigits]
  rfl

/-- In base 0 the weak definition reads the digit that the strong one stops at. -/
theorem strtoul_ne_of_digitFirst (h : DigitFirst s) : strtoul s 0 ≠ Weak.strtoul s 0 := by
  have hne : charAt (skipBlanks s) 0 ≠ 0 := by
    intro hzero
    rw [DigitFirst, hzero] at h
    cases h
  obtain ⟨t, ht⟩ := eq_cons_of_charAt rfl hne
  have hshorter : (Weak.strtoul s 0).2.length ≤ t.length := by
    unfold Weak.strtoul
    rw [weak_strtoulDigits]
    by_cases hzero : charAt (skipBlanks s) 0 = 48
    · have hdrop : (Weak.determineBase (skipBlanks s) 0).2.length ≤ t.length := by
        unfold Weak.determineBase
        rw [if_pos rfl, if_pos hzero, ht]
        split
        · simp
        · simp
      exact length_strtoulDigits_le.trans hdrop
    · have hbase : Weak.determineBase (skipBlanks s) 0 = (10, skipBlanks s) := by
        unfold Weak.determineBase
        rw [if_pos rfl, if_neg hzero]
      obtain ⟨digit, hdigit, -, hten⟩ := digitValue_of_isDigit h
      rw [hbase, ht]
      exact length_strtoulDigits_lt hdigit hten
  intro heq
  rw [← heq, strtoul_base_zero, ht, List.length_cons] at hshorter
  omega

theorem strtoul_eq_of_not_digitFirst (h : ¬DigitFirst s) : strtoul s 0 = Weak.strtoul s 0 := by
  have hbase : Weak.determineBase (skipBlanks s) 0 = (10, skipBlanks s) := by
    have hzero : charAt (skipBlanks s) 0 ≠ 48 := by
      intro hzero
      exact h (by rw [DigitFirst, hzero]; rfl)
    unfold Weak.determineBase
    rw [if_pos rfl, if_neg hzero]
  unfold Weak.strtoul
  rw [strtoul_base_zero, hbase, weak_strtoulDigits]
  exact (strtoulDigits_stop fun _ => ten_le_digitValue h).symm

/-- **Where the two definitions agree**: in every base but 16 and 0; in 16 where no `0x` is to
    be skipped; in 0 where there is nothing to read. -/
theorem strtoul_agree_iff (s : List UInt8) (base : Int) :
    strtoul s base = Weak.strtoul s base ↔ (base = 16 → ¬HexFirst s) ∧ (base = 0 → ¬DigitFirst s) := by
  by_cases hsixteen : base = 16
  · subst hsixteen
    constructor
    · intro heq
      exact ⟨fun _ hhex => strtoul_ne_of_hexFirst hhex heq, fun h => absurd h (by decide)⟩
    · intro h
      exact strtoul_eq_of_not_hexFirst (h.1 rfl)
  · by_cases hzero : base = 0
    · subst hzero
      constructor
      · intro heq
        exact ⟨fun h => absurd h hsixteen, fun _ hdigit => strtoul_ne_of_digitFirst hdigit heq⟩
      · intro h
        exact strtoul_eq_of_not_digitFirst (h.2 rfl)
    · refine iff_of_true ?_ ⟨fun h => absurd h hsixteen, fun h => absurd h hzero⟩
      have hbase : Weak.determineBase (skipBlanks s) base = (base, skipBlanks s) := by
        unfold Weak.determineBase
        rw [if_neg hzero, if_neg hsixteen]
      unfold Weak.strtoul
      rw [hbase, weak_strtoulDigits]
      rfl

/-- `hexdump 10`: the address the shell takes is 0, where the weak definition reads ten. -/
theorem strtoul_disagree :
    strtoul (ofString "10") 0 = (0, ofString "10") ∧ Weak.strtoul (ofString "10") 0 = (10, []) ∧
      strtoul (ofString "10") 0 ≠ Weak.strtoul (ofString "10") 0 := by
  decide

end Crimson.Str
