import Mathlib.Data.List.Perm.Basic
import Mathlib.Data.List.Range
import Mathlib.Logic.Function.Basic

/-!
# Bags in arrays

The first `n` cells of an array as a collection in which the order does not matter. An
element is put behind the last one, and taken out by moving the last one to its place
(`swapRemove`). Up to the order, that takes out one occurrence and leaves the others.
-/

set_option autoImplicit false

namespace Crimson.Lib

variable {α : Type}

/-- The elements of the first `n` cells. -/
def bagList (cells : Nat → α) (n : Nat) : List α := (List.range n).map cells

/-- The cells with the last of `n` moved to cell `j`. -/
def swapRemove (cells : Nat → α) (j n : Nat) : Nat → α := Function.update cells j (cells (n - 1))

variable {cells cells' : Nat → α} {n j : Nat} {x : α}

@[simp] theorem bagList_zero : bagList cells 0 = [] := rfl

theorem mem_bagList : x ∈ bagList cells n ↔ ∃ j, j < n ∧ cells j = x := by simp [bagList]

theorem bagList_succ : bagList cells (n + 1) = bagList cells n ++ [cells n] := by
  simp [bagList, List.range_succ]

theorem bagList_congr (h : ∀ i, i < n → cells' i = cells i) : bagList cells' n = bagList cells n :=
  List.map_congr_left fun i hi => h i (List.mem_range.mp hi)

/-- **Putting an element in.** -/
theorem bagList_push : bagList (Function.update cells n x) (n + 1) = bagList cells n ++ [x] := by
  rw [bagList_succ, Function.update_self]
  congr 1
  exact bagList_congr fun i hi => Function.update_of_ne (Nat.ne_of_lt hi) _ _

/-- **Taking an element out.** -/
theorem bagList_swapRemove (hj : j < n) : (bagList cells n).Perm (cells j :: bagList (swapRemove cells j n) (n - 1)) := by
  obtain ⟨n, rfl⟩ := Nat.exists_eq_succ_of_ne_zero (Nat.ne_of_gt (Nat.zero_lt_of_lt hj))
  rw [Nat.succ_sub_one, bagList_succ]
  by_cases hlast : j = n
  · -- the last one is taken out itself
    subst hlast
    have hsame : bagList (swapRemove cells j (j + 1)) j = bagList cells j :=
      bagList_congr fun i hi => Function.update_of_ne (Nat.ne_of_lt hi) _ _
    rw [hsame]
    exact List.perm_append_singleton _ _
  · obtain ⟨k, rfl⟩ : ∃ k, n = j + 1 + k := ⟨n - (j + 1), by omega⟩
    have hsplit : ∀ f : Nat → α, bagList f (j + 1 + k) =
        bagList f j ++ f j :: (List.range k).map fun i => f (j + 1 + i) := by
      intro f
      rw [bagList, List.range_add, List.map_append, List.range_succ, List.map_append, List.map_map, List.append_assoc]
      rfl
    have hbelow : bagList (swapRemove cells j (j + 1 + k + 1)) j = bagList cells j :=
      bagList_congr fun i hi => Function.update_of_ne (Nat.ne_of_lt hi) _ _
    have habove : (List.range k).map (fun i => swapRemove cells j (j + 1 + k + 1) (j + 1 + i)) =
        (List.range k).map fun i => cells (j + 1 + i) :=
      List.map_congr_left fun i _ => Function.update_of_ne (by omega) _ _
    have hmoved : swapRemove cells j (j + 1 + k + 1) j = cells (j + 1 + k) := Function.update_self ..
    rw [hsplit, hsplit, hbelow, habove, hmoved, List.append_assoc]
    refine List.Perm.trans ?_ (((List.perm_append_singleton (cells (j + 1 + k)) _).append_left _).cons _)
    exact List.perm_middle

end Crimson.Lib
