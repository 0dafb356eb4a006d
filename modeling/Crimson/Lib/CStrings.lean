import Crimson.Lib.Memory
import Mathlib.Data.List.TakeWhile

/-!
# Strings in memory

`Spells m a s` says that the bytes `s` stand in `m` from `a` on with a zero behind them. `s` may
hold zeros itself, so several lists are spelled at one place, but only one without a zero
(`Spells.unique`); it is what `untilZero` leaves of any of them (`Spells.untilZero`).
`stringAt m a n` is the string that a copy of at most `n` bytes finds at `a`.
-/

set_option autoImplicit false

namespace Crimson.Lib

structure Spells (m : Mem) (a : Nat) (s : List (BitVec 8)) : Prop where
  chars : ∀ i (h : i < s.length), m (a + i) = s[i]
  terminator : m (a + s.length) = 0

/-- A list of bytes, read as a string. -/
def untilZero (s : List (BitVec 8)) : List (BitVec 8) := s.takeWhile fun c => c ≠ 0

def stringAt (m : Mem) : Nat → Nat → List (BitVec 8)
  | _, 0 => []
  | a, n + 1 => if m a = 0 then [] else m a :: stringAt m (a + 1) n

variable {m m' : Mem} {a n : Nat} {c : BitVec 8} {s t : List (BitVec 8)}

theorem zero_notMem_untilZero (s : List (BitVec 8)) : (0 : BitVec 8) ∉ untilZero s := by
  intro h
  have hne := List.mem_takeWhile_imp h
  simp at hne

theorem zero_notMem_stringAt : (0 : BitVec 8) ∉ stringAt m a n := by
  induction n generalizing a with
  | zero => simp [stringAt]
  | succ n ih =>
    by_cases hzero : m a = 0
    · simp [stringAt, hzero]
    · rw [stringAt, if_neg hzero, List.mem_cons, not_or]
      exact ⟨Ne.symm hzero, ih⟩

theorem length_stringAt_le : (stringAt m a n).length ≤ n := by
  induction n generalizing a with
  | zero => simp [stringAt]
  | succ n ih =>
    by_cases hzero : m a = 0
    · simp [stringAt, hzero]
    · rw [stringAt, if_neg hzero, List.length_cons]
      exact Nat.succ_le_succ ih

theorem Spells.congr (h : Spells m a s) (heq : AgreeOn m m' a (s.length + 1)) : Spells m' a s := by
  constructor
  · intro i hi
    rw [heq (a + i) (by omega) (by omega)]
    exact h.chars i hi
  · rw [heq (a + s.length) (by omega) (by omega)]
    exact h.terminator

/-- The same bytes at another place. -/
theorem Spells.moved {b : Nat} (h : Spells m a s) (heq : ∀ i, i ≤ s.length → m' (b + i) = m (a + i)) : Spells m' b s := by
  constructor
  · intro i hi
    rw [heq i (by omega)]
    exact h.chars i hi
  · rw [heq s.length le_rfl]
    exact h.terminator

@[simp] theorem spells_nil : Spells m a [] ↔ m a = 0 := by
  constructor
  · intro h
    exact h.terminator
  · intro h
    exact ⟨fun i hi => absurd hi (Nat.not_lt_zero i), h⟩

@[simp] theorem spells_cons : Spells m a (c :: s) ↔ m a = c ∧ Spells m (a + 1) s := by
  have hshift (i : Nat) : a + 1 + i = a + (i + 1) := by omega
  constructor
  · intro h
    refine ⟨h.chars 0 (by simp), ?_, ?_⟩
    · intro i hi
      rw [hshift]
      exact h.chars (i + 1) (by simpa using hi)
    · rw [hshift]
      exact h.terminator
  · rintro ⟨hc, h⟩
    constructor
    · intro i hi
      cases i with
      | zero => exact hc
      | succ i =>
        rw [← hshift]
        exact h.chars i (by simpa using hi)
    · have hend := h.terminator
      rwa [hshift] at hend

/-- Bytes in front of a string. -/
theorem Spells.append (ht : Spells m (a + s.length) t) (hs : ∀ i (h : i < s.length), m (a + i) = s[i]) :
    Spells m a (s ++ t) := by
  induction s generalizing a with
  | nil => exact ht
  | cons c s ih =>
    rw [List.cons_append, spells_cons]
    refine ⟨hs 0 (by simp), ih ?_ ?_⟩
    · rwa [List.length_cons, Nat.add_comm s.length, ← Nat.add_assoc] at ht
    · intro i hi
      rw [Nat.add_assoc, Nat.add_comm 1]
      exact hs (i + 1) (by simpa using hi)

/-- **One string without a zero stands at a place.** -/
theorem Spells.unique (hs : Spells m a s) (ht : Spells m a t) (hs0 : (0 : BitVec 8) ∉ s) (ht0 : (0 : BitVec 8) ∉ t) :
    s = t := by
  induction s generalizing a t with
  | nil =>
    cases t with
    | nil => rfl
    | cons d t => simp_all
  | cons c s ih =>
    cases t with
    | nil => simp_all
    | cons d t =>
      rw [spells_cons] at hs ht
      rw [List.mem_cons, not_or] at hs0 ht0
      rw [ih hs.2 ht.2 hs0.2 ht0.2, ← hs.1, ht.1]

/-- What is spelled is spelled up to its first zero too. -/
theorem Spells.untilZero (h : Spells m a s) : Spells m a (untilZero s) := by
  induction s generalizing a with
  | nil => exact h
  | cons c s ih =>
    rw [spells_cons] at h
    by_cases hc : c = 0
    · have hcut : Lib.untilZero (c :: s) = [] := List.takeWhile_cons_of_neg (by simp [hc])
      rw [hcut, spells_nil, h.1, hc]
    · have hkeep : Lib.untilZero (c :: s) = c :: Lib.untilZero s := List.takeWhile_cons_of_pos (by simpa using hc)
      rw [hkeep, spells_cons]
      exact ⟨h.1, ih h.2⟩

end Crimson.Lib
