import Mathlib.Data.List.TakeWhile

/-!
# Strings (`string.c`)

A string is the list of its bytes, without the terminating zero; `cstr` reads one from
memory. Signed overflow in `atoi` wraps.
-/

set_option autoImplicit false

namespace Crimson.Str

/-- The string that starts at these bytes. -/
def cstr (bytes : List UInt8) : List UInt8 := bytes.takeWhile fun c => c ≠ 0

/-- A string literal of the source. -/
def ofString (s : String) : List UInt8 := s.toList.map fun c => c.toNat.toUInt8

/-- `s[i]`. -/
def charAt (s : List UInt8) (i : Nat) : UInt8 := s.getD i 0

def isDigit (c : UInt8) : Bool := 48 ≤ c ∧ c ≤ 57

/-- The digit loop of `atoi`. -/
def atoiDigits (s : List UInt8) : Int32 :=
  (s.takeWhile isDigit).foldl (fun result c => result * 10 + Int32.ofNat (c.toNat - 48)) 0

def atoi (s : List UInt8) : Int32 :=
  match s.dropWhile fun c => c = 32 ∨ c = 9 with
  | 45 :: s => -atoiDigits s
  | 43 :: s => atoiDigits s
  | s => atoiDigits s

/-! ## Characters -/

theorem charAt_of_lt {s : List UInt8} {i : Nat} (h : i < s.length) : charAt s i = s[i] := by
  rw [charAt, List.getD_eq_getElem?_getD, List.getElem?_eq_getElem h]
  rfl

theorem charAt_mem {s : List UInt8} {i : Nat} (h : i < s.length) : charAt s i ∈ s := by
  rw [charAt_of_lt h]
  exact List.getElem_mem h

theorem lt_of_charAt_ne {s : List UInt8} {i : Nat} (h : charAt s i ≠ 0) : i < s.length := by
  by_contra hlt
  apply h
  rw [charAt, List.getD_eq_getElem?_getD, List.getElem?_eq_none (by omega)]
  rfl

theorem charAt_append_left {s t : List UInt8} {i : Nat} (h : i < s.length) : charAt (s ++ t) i = charAt s i := by
  rw [charAt, charAt, List.getD_eq_getElem?_getD, List.getElem?_append_left h, ← List.getD_eq_getElem?_getD]

theorem charAt_append_right (s t : List UInt8) (i : Nat) : charAt (s ++ t) (s.length + i) = charAt t i := by
  rw [charAt, charAt, List.getD_eq_getElem?_getD, List.getElem?_append_right (Nat.le_add_right _ _),
    Nat.add_sub_cancel_left, ← List.getD_eq_getElem?_getD]

/-! ## Where a string ends -/

theorem cstr_notMem (bytes : List UInt8) : (0 : UInt8) ∉ cstr bytes := by
  intro h
  have := List.mem_takeWhile_imp h
  simp at this

theorem cstr_eq_self_iff {bytes : List UInt8} : cstr bytes = bytes ↔ (0 : UInt8) ∉ bytes := by
  constructor
  · intro h
    rw [← h]
    exact cstr_notMem bytes
  · intro h
    apply List.takeWhile_eq_self_iff.mpr
    intro c hc
    have hne : c ≠ 0 := fun h0 => h (h0 ▸ hc)
    simpa using hne

/-- A string is shorter than the bytes it is read from exactly when a zero is among them. -/
theorem length_cstr_lt {bytes : List UInt8} : (cstr bytes).length < bytes.length ↔ (0 : UInt8) ∈ bytes := by
  have hinit : cstr bytes <+: bytes := List.takeWhile_prefix _
  constructor
  · intro h
    by_contra hmem
    rw [cstr_eq_self_iff.mpr hmem] at h
    omega
  · intro h
    have hne : (cstr bytes).length ≠ bytes.length := by
      intro heq
      exact cstr_eq_self_iff.mp (hinit.eq_of_length heq) h
    have := hinit.length_le
    omega

/-- What follows a zero is not read. -/
theorem cstr_append {bytes : List UInt8} (h : (0 : UInt8) ∈ bytes) (above : List UInt8) :
    cstr (bytes ++ above) = cstr bytes := by
  have hlt := length_cstr_lt.mpr h
  unfold cstr at hlt ⊢
  rw [List.takeWhile_append, if_neg (by omega)]

theorem cstr_zero {s : List UInt8} (h : (0 : UInt8) ∉ s) (rest : List UInt8) : cstr (s ++ 0 :: rest) = s := by
  have hself : (s.takeWhile fun c => c ≠ 0) = s := cstr_eq_self_iff.mpr h
  unfold cstr
  rw [List.takeWhile_append, hself]
  simp

end Crimson.Str
