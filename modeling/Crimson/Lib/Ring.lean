import Mathlib.Data.List.Basic
import Mathlib.Data.Nat.ModEq
import Mathlib.Logic.Function.Basic

/-!
# Ring buffers

`cap` cells used in a circle. The queue in a ring is its `n` elements from the cell
`start` on (`ringList`); it is written one element after the other at the cell behind
its last one (`ringPut`) and read from its first one (`ringGet`). Writing appends to the
queue while there is room, reading removes from its front.
-/

set_option autoImplicit false

namespace Crimson.Lib

variable {α : Type}

/-- The `n` elements of the ring from the cell `start` on. -/
def ringList (cells : Nat → α) (cap start n : Nat) : List α :=
  (List.range n).map fun i => cells ((start + i) % cap)

/-- The cells and the next free cell after a list was written from the cell `idx` on. -/
def ringPut (cap : Nat) (cells : Nat → α) (idx : Nat) : List α → (Nat → α) × Nat
  | [] => (cells, idx)
  | b :: bs => ringPut cap (Function.update cells idx b) ((idx + 1) % cap) bs

/-- The first `n` elements and the cell behind them. -/
def ringGet (cap : Nat) (cells : Nat → α) : Nat → Nat → List α × Nat
  | idx, 0 => ([], idx)
  | idx, n + 1 =>
    let rest := ringGet cap cells ((idx + 1) % cap) n
    (cells idx :: rest.1, rest.2)

variable {cap : Nat} {cells cells' : Nat → α} {start idx n k : Nat}

@[simp] theorem length_ringList : (ringList cells cap start n).length = n := by simp [ringList]

@[simp] theorem ringList_zero : ringList cells cap start 0 = [] := rfl

/-- A queue is its first elements and the rest. -/
theorem ringList_add :
    ringList cells cap start (n + k) = ringList cells cap start n ++ ringList cells cap ((start + n) % cap) k := by
  rw [ringList, List.range_add, List.map_append, List.map_map]
  congr 1
  refine List.map_congr_left fun i _ => ?_
  show cells ((start + (n + i)) % cap) = cells (((start + n) % cap + i) % cap)
  rw [Nat.mod_add_mod, Nat.add_assoc]

theorem ringList_congr (h : ∀ i < n, cells' ((start + i) % cap) = cells ((start + i) % cap)) :
    ringList cells' cap start n = ringList cells cap start n :=
  List.map_congr_left fun i hi => h i (List.mem_range.mp hi)

theorem ringList_succ (hidx : idx < cap) :
    ringList cells cap idx (n + 1) = cells idx :: ringList cells cap ((idx + 1) % cap) n := by
  rw [Nat.add_comm, ringList_add]
  simp [ringList, Nat.mod_eq_of_lt hidx]

/-- **Reading a ring**: the first elements of the queue, and the cell behind them. -/
theorem ringGet_eq (hidx : idx < cap) :
    ringGet cap cells idx n = (ringList cells cap idx n, (idx + n) % cap) := by
  induction n generalizing idx with
  | zero => simp [ringGet, Nat.mod_eq_of_lt hidx]
  | succ n ih =>
    have hrest := ih (Nat.mod_lt (idx + 1) (Nat.lt_of_le_of_lt (Nat.zero_le idx) hidx))
    rw [ringGet, hrest, ringList_succ hidx, Nat.mod_add_mod, Nat.add_assoc idx 1 n, Nat.add_comm 1 n]

theorem ringPut_snd {bs : List α} (hidx : idx < cap) :
    (ringPut cap cells idx bs).2 = (idx + bs.length) % cap := by
  induction bs generalizing cells idx with
  | nil => simp [ringPut, Nat.mod_eq_of_lt hidx]
  | cons b bs ih =>
    have hnext : (idx + 1) % cap < cap := Nat.mod_lt _ (Nat.lt_of_le_of_lt (Nat.zero_le idx) hidx)
    have hrest : (ringPut cap (Function.update cells idx b) ((idx + 1) % cap) bs).2 =
        ((idx + 1) % cap + bs.length) % cap := ih hnext
    rw [ringPut, hrest, Nat.mod_add_mod, List.length_cons, Nat.add_assoc, Nat.add_comm 1]

/-- Two places of a ring less than a round apart are different cells. -/
theorem add_mod_ne {i j : Nat} (hij : i < j) (hj : j < i + cap) : (start + i) % cap ≠ (start + j) % cap := by
  intro heq
  have hdvd : cap ∣ (start + j) - (start + i) := (Nat.modEq_iff_dvd' (by omega)).mp heq
  have hpos : 0 < (start + j) - (start + i) := by omega
  have hle := Nat.le_of_dvd hpos hdvd
  omega

/-- The cells that a write does not reach. -/
theorem ringPut_other {bs : List α} {x : Nat} (hidx : idx < cap)
    (hx : ∀ i < bs.length, x ≠ (idx + i) % cap) : (ringPut cap cells idx bs).1 x = cells x := by
  induction bs generalizing cells idx with
  | nil => rfl
  | cons b bs ih =>
    have hnext : (idx + 1) % cap < cap := Nat.mod_lt _ (Nat.lt_of_le_of_lt (Nat.zero_le idx) hidx)
    have hfirst : x ≠ idx := by
      have h0 := hx 0 (by simp)
      rwa [Nat.add_zero, Nat.mod_eq_of_lt hidx] at h0
    rw [ringPut, ih hnext ?_, Function.update_of_ne hfirst]
    intro i hi
    have hi' := hx (i + 1) (by simpa using hi)
    rwa [Nat.mod_add_mod, Nat.add_assoc, Nat.add_comm 1 i]

/-- The cells that a write reaches hold what was written. -/
theorem ringList_ringPut_self {bs : List α} (hidx : idx < cap) (hlen : bs.length ≤ cap) :
    ringList (ringPut cap cells idx bs).1 cap idx bs.length = bs := by
  induction bs generalizing cells idx with
  | nil => rfl
  | cons b bs ih =>
    have hnext : (idx + 1) % cap < cap := Nat.mod_lt _ (Nat.lt_of_le_of_lt (Nat.zero_le idx) hidx)
    rw [List.length_cons] at hlen
    rw [List.length_cons, ringList_succ hidx, ringPut, ih hnext (by omega)]
    congr 1
    rw [ringPut_other hnext]
    · exact Function.update_self idx b cells
    · intro i hi
      have hne : (idx + 0) % cap ≠ (idx + (1 + i)) % cap := add_mod_ne (by omega) (by omega)
      rwa [Nat.add_zero, Nat.mod_eq_of_lt hidx, ← Nat.add_assoc, ← Nat.mod_add_mod] at hne

/-- **Writing to a ring** with room for the new elements appends them to the queue. -/
theorem ringList_ringPut {bs : List α} (hcap : 0 < cap) (hroom : n + bs.length ≤ cap) :
    ringList (ringPut cap cells ((start + n) % cap) bs).1 cap start (n + bs.length) =
      ringList cells cap start n ++ bs := by
  have hidx : (start + n) % cap < cap := Nat.mod_lt _ hcap
  rw [ringList_add, ringList_ringPut_self hidx (by omega)]
  congr 1
  refine ringList_congr fun i hi => ringPut_other hidx fun j hj => ?_
  have hne : (start + i) % cap ≠ (start + (n + j)) % cap := add_mod_ne (by omega) (by omega)
  rwa [← Nat.add_assoc, ← Nat.mod_add_mod (start + n)] at hne

end Crimson.Lib
