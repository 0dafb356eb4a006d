import Crimson.Str.Model
import Crimson.Lib.CStrings
import Mathlib.Data.List.Basic

/-!
# `strncmp`, `strchr` and strings in memory (`string.c`)

The functions take a string by its characters, wherever they stand: `charAt s` for a list `s`,
`charsAt m a` for what stands in memory at `a`. `Holds m a s` says that this is the string `s`.

`strchr` goes no further than an address space has bytes.
-/

set_option autoImplicit false

namespace Crimson.Str

open Crimson.Lib

/-- The characters from `a` on. -/
def charsAt (m : Mem) (a i : Nat) : UInt8 := UInt8.ofBitVec (m (a + i))

/-- The string `s` and its terminator stand at `a`. -/
def Holds (m : Mem) (a : Nat) (s : List UInt8) : Prop := Spells m a (s.map UInt8.toBitVec)

/-- The loop of `strncmp`, with `n` characters to go from the `i`-th on. -/
def strncmpFrom (s1 s2 : Nat → UInt8) (i : Nat) : Nat → Int
  | 0 => 0
  | n + 1 =>
    if s1 i ≠ 0 ∧ s1 i = s2 i then strncmpFrom s1 s2 (i + 1) n
    else (s1 i).toNat - (s2 i).toNat

def strncmp (s1 s2 : Nat → UInt8) (n : Nat) : Int := strncmpFrom s1 s2 0 n

/-- The loop of `strchr`, from the `i`-th character on. -/
def strchrFrom (s : Nat → UInt8) (ch : UInt8) : Nat → Nat → Option Nat
  | 0, _ => none
  | fuel + 1, i =>
    if s i = 0 then if ch = 0 then some i else none
    else if s i = ch then some i
    else strchrFrom s ch fuel (i + 1)

/-- A pointer to the character, `none` for a null pointer. -/
def strchr (m : Mem) (s : Nat) (ch : UInt8) : Option Nat := (strchrFrom (charsAt m s) ch (2 ^ 64) 0).map fun i => s + i

/-- `atoi` of the string at `s`. -/
def atoiAt (m : Mem) (s : Nat) : Int32 := atoi ((stringAt m s (2 ^ 64)).map UInt8.ofBitVec)

variable {s1 s2 : Nat → UInt8} {i n a fuel : Nat} {s t : List UInt8} {c : UInt8} {m m' : Mem}

theorem strncmpFrom_eq_zero_iff (h : ∀ j, j < n → s2 (i + j) ≠ 0) :
    strncmpFrom s1 s2 i n = 0 ↔ ∀ j, j < n → s1 (i + j) = s2 (i + j) := by
  induction n generalizing i with
  | zero => simp [strncmpFrom]
  | succ n ih =>
    have hshift (j : Nat) : i + 1 + j = i + (j + 1) := by omega
    have hrest := @ih (i + 1) fun j hj => by
      rw [hshift]
      exact h (j + 1) (by omega)
    rw [strncmpFrom]
    by_cases hsame : s1 i = s2 i
    · have hne : s1 i ≠ 0 := hsame ▸ h 0 (by omega)
      rw [if_pos ⟨hne, hsame⟩, hrest]
      constructor
      · intro hall j hj
        cases j with
        | zero => exact hsame
        | succ j =>
          rw [← hshift]
          exact hall j (by omega)
      · intro hall j hj
        rw [hshift]
        exact hall (j + 1) (by omega)
    · rw [if_neg fun hboth => hsame hboth.2]
      have hdiff : ((s1 i).toNat : Int) - (s2 i).toNat ≠ 0 := by
        intro hzero
        exact hsame (UInt8.toNat_inj.mp (by omega))
      exact iff_of_false hdiff fun hall => hsame (hall 0 (by omega))

/-- **`strncmp` with the whole of a string finds it at the front.** -/
theorem strncmp_eq_zero_iff (h : ∀ j, j < n → s2 j ≠ 0) : strncmp s1 s2 n = 0 ↔ ∀ j, j < n → s1 j = s2 j := by
  have hfrom : strncmpFrom s1 s2 0 n = 0 ↔ ∀ j, j < n → s1 (0 + j) = s2 (0 + j) :=
    strncmpFrom_eq_zero_iff (by simpa using h)
  simpa [strncmp] using hfrom

/-! ## Strings in memory -/

theorem Holds.charsAt_eq (h : Holds m a s) (hi : i ≤ s.length) : charsAt m a i = charAt s i := by
  unfold charsAt charAt
  by_cases hlt : i < s.length
  · have hchar := h.chars i (by simpa using hlt)
    rw [hchar, List.getElem_map, List.getD_eq_getElem?_getD, List.getElem?_eq_getElem hlt]
    rfl
  · obtain rfl : i = s.length := by omega
    have hend := h.terminator
    rw [List.length_map] at hend
    rw [hend, List.getD_eq_getElem?_getD, List.getElem?_eq_none le_rfl]
    rfl

/-- What stands behind the first characters of a string. -/
theorem Holds.append (h : Holds m a (s ++ t)) : Holds m (a + s.length) t := by
  induction s generalizing a with
  | nil => exact h
  | cons c s ih =>
    have htail : Holds m (a + 1) (s ++ t) := (spells_cons.mp h).2
    rw [List.length_cons, Nat.add_comm s.length, ← Nat.add_assoc]
    exact ih htail

theorem Holds.congr (h : Holds m a s) (heq : AgreeOn m m' a (s.length + 1)) : Holds m' a s :=
  Spells.congr h (by simpa using heq)

theorem Holds.stringAt_eq (h : Holds m a s) (hs : (0 : UInt8) ∉ s) (hlen : s.length < n) :
    (stringAt m a n).map UInt8.ofBitVec = s := by
  induction s generalizing a n with
  | nil =>
    have hend : m a = 0 := h.terminator
    cases n with
    | zero => rfl
    | succ n => simp [stringAt, hend]
  | cons c s ih =>
    obtain ⟨hc, htail⟩ := spells_cons.mp h
    rw [List.mem_cons, not_or] at hs
    rw [List.length_cons] at hlen
    obtain ⟨k, rfl⟩ : ∃ k, n = k + 1 := ⟨n - 1, by omega⟩
    have hne : m a ≠ 0 := by
      rw [hc]
      intro hzero
      exact hs.1 (UInt8.toBitVec_inj.mp hzero.symm)
    have hrest := ih (n := k) htail hs.2 (by omega)
    rw [stringAt, if_neg hne, List.map_cons, hrest, hc]

/-! ## Finding a character -/

theorem strchrFrom_eq {f : Nat → UInt8} (hf : ∀ j, j ≤ s.length → f (i + j) = charAt s j) (hs : (0 : UInt8) ∉ s)
    (hc : c ≠ 0) (hfuel : s.length < fuel) :
    strchrFrom f c fuel i = if c ∈ s then some (i + s.idxOf c) else none := by
  induction s generalizing i fuel with
  | nil =>
    obtain ⟨fuel, rfl⟩ : ∃ fuel', fuel = fuel' + 1 := ⟨fuel - 1, by omega⟩
    have hend : f i = 0 := hf 0 le_rfl
    rw [strchrFrom, if_pos hend, if_neg hc]
    rfl
  | cons d s ih =>
    rw [List.length_cons] at hf hfuel
    rw [List.mem_cons, not_or] at hs
    obtain ⟨fuel, rfl⟩ : ∃ fuel', fuel = fuel' + 1 := ⟨fuel - 1, by omega⟩
    have hfirst : f i = d := hf 0 (Nat.zero_le _)
    have hrest := @ih (i + 1) fuel (fun j hj => by
      rw [Nat.add_assoc, Nat.add_comm 1]
      exact hf (j + 1) (by omega)) hs.2 (by omega)
    rw [strchrFrom, hfirst, if_neg (Ne.symm hs.1), hrest]
    by_cases hd : d = c
    · simp [hd]
    · rw [if_neg hd, List.idxOf_cons_ne s hd]
      by_cases hmem : c ∈ s
      · rw [if_pos hmem, if_pos (List.mem_cons_of_mem _ hmem), Nat.succ_eq_add_one, Nat.add_assoc, Nat.add_comm 1]
      · rw [if_neg hmem, if_neg (by simp [Ne.symm hd, hmem])]

/-- **`strchr` finds the first place of a character, if there is one.** -/
theorem strchr_eq (h : Holds m a s) (hs : (0 : UInt8) ∉ s) (hc : c ≠ 0) (hlen : s.length < 2 ^ 64) :
    strchr m a c = if c ∈ s then some (a + s.idxOf c) else none := by
  have hfrom := strchrFrom_eq (i := 0) (f := charsAt m a) (fun j hj => by
    rw [Nat.zero_add]
    exact h.charsAt_eq hj) hs hc hlen
  unfold strchr
  rw [hfrom]
  split
  · simp
  · rfl

end Crimson.Str
