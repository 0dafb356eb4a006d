import Crimson.Str.Model

/-!
# Decimal numbers (`atoi` of `string.c`)

What `atoi` makes of digits, and of what follows them: the number they are, wrapped.
-/

set_option autoImplicit false

namespace Crimson.Str

/-- The number that digits stand for. -/
def decimalValue (digits : List UInt8) : Nat := digits.foldl (fun v c => v * 10 + (c.toNat - 48)) 0

variable {digits rest : List UInt8}

theorem atoiDigits_foldl (v : Nat) :
    digits.foldl (fun result c => result * 10 + Int32.ofNat (c.toNat - 48)) (Int32.ofNat v) =
      Int32.ofNat (digits.foldl (fun v c => v * 10 + (c.toNat - 48)) v) := by
  induction digits generalizing v with
  | nil => rfl
  | cons c digits ih =>
    have hstep : Int32.ofNat v * 10 + Int32.ofNat (c.toNat - 48) = Int32.ofNat (v * 10 + (c.toNat - 48)) := by
      rw [Int32.ofNat_add, Int32.ofNat_mul]
      rfl
    rw [List.foldl_cons, List.foldl_cons, hstep, ih]

/-- **`atoi` reads the digits and stops behind them.** -/
theorem atoi_digits (hdigits : ∀ c ∈ digits, isDigit c = true) (hne : digits ≠ [])
    (hrest : ∀ c ∈ rest.head?, isDigit c = false) : atoi (digits ++ rest) = Int32.ofNat (decimalValue digits) := by
  have htake : (digits ++ rest).takeWhile isDigit = digits := by
    rw [List.takeWhile_append_of_pos hdigits]
    cases rest with
    | nil => simp
    | cons c rest => simp [hrest c (by simp)]
  obtain ⟨d, ds, rfl⟩ := List.exists_cons_of_ne_nil hne
  have hd : 48 ≤ d ∧ d ≤ 57 := by simpa [isDigit] using hdigits d List.mem_cons_self
  have hblank : (d :: ds ++ rest).dropWhile (fun c => c = 32 ∨ c = 9) = d :: ds ++ rest := by
    have hnot : ¬(d = 32 ∨ d = 9) := by
      rintro (rfl | rfl)
      · exact absurd hd (by decide)
      · exact absurd hd (by decide)
    rw [List.cons_append, List.dropWhile_cons_of_neg (by simpa using hnot)]
  have hminus : d ≠ 45 := by
    rintro rfl
    exact absurd hd (by decide)
  have hplus : d ≠ 43 := by
    rintro rfl
    exact absurd hd (by decide)
  have hunsigned : atoi (d :: ds ++ rest) = atoiDigits (d :: ds ++ rest) := by
    unfold atoi
    rw [hblank]
    split
    · rename_i heq
      exact absurd (List.cons.inj heq).1 hminus
    · rename_i heq
      exact absurd (List.cons.inj heq).1 hplus
    · rfl
  rw [hunsigned, atoiDigits, htake]
  exact atoiDigits_foldl 0

end Crimson.Str
