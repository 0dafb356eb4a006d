import Mathlib.Data.List.Induction

/-!
# Writes over the start of a file

`overlay old new` is what a file that holds `old` holds after `new` is written from its start, when it
is not cut off before. After a list of such writes each place holds what was written to it last, or what
it held.
-/

set_option autoImplicit false

namespace Crimson.Lib

variable {α : Type*}

def overlay (old new : List α) : List α := new ++ old.drop new.length

theorem getElem?_overlay (old new : List α) (k : Nat) : (overlay old new)[k]? = new[k]?.or old[k]? := by
  rw [overlay, List.getElem?_append]
  by_cases hk : k < new.length
  · rw [if_pos hk, List.getElem?_eq_getElem hk, Option.some_or]
  · rw [if_neg hk, List.getElem?_eq_none (Nat.not_lt.mp hk), Option.none_or, List.getElem?_drop]
    congr 1
    omega

/-- The last of the writes that reaches place `k`, and what it puts there. -/
def lastWritten (ws : List (List α)) (k : Nat) : Option α := ws.foldl (fun last w => w[k]?.or last) none

theorem lastWritten_append (ws : List (List α)) (w : List α) (k : Nat) :
    lastWritten (ws ++ [w]) k = w[k]?.or (lastWritten ws k) := by
  rw [lastWritten, lastWritten, List.foldl_append, List.foldl_cons, List.foldl_nil]

theorem getElem?_foldl_overlay (ws : List (List α)) (old : List α) (k : Nat) :
    (ws.foldl overlay old)[k]? = (lastWritten ws k).or old[k]? := by
  induction ws using List.reverseRecOn with
  | nil => rw [List.foldl_nil, lastWritten, List.foldl_nil, Option.none_or]
  | append_singleton ws w ih =>
    rw [List.foldl_append, List.foldl_cons, List.foldl_nil, getElem?_overlay, ih, lastWritten_append, Option.or_assoc]

/-- **The writes leave the file as it was** exactly when what is written last to each place was there. -/
theorem foldl_overlay_eq_iff (ws : List (List α)) (old : List α) :
    ws.foldl overlay old = old ↔ ∀ k, lastWritten ws k = none ∨ lastWritten ws k = old[k]? := by
  constructor
  · intro h k
    have hk := getElem?_foldl_overlay ws old k
    rw [h] at hk
    cases hlast : lastWritten ws k with
    | none => exact Or.inl rfl
    | some b =>
      rw [hlast, Option.some_or] at hk
      exact Or.inr hk.symm
  · intro h
    refine List.ext_getElem? ?_
    intro k
    rw [getElem?_foldl_overlay]
    obtain hk | hk := h k
    · rw [hk, Option.none_or]
    · rw [hk, Option.or_self]

end Crimson.Lib
