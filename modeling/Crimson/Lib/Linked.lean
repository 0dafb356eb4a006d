import Mathlib.Data.List.Nodup
import Mathlib.Data.List.Lemmas
import Mathlib.Logic.Function.Basic

/-!
# Singly linked lists threaded through a link function

`Linked next h l` says: following `next` from the head pointer `h` visits exactly the
elements of `l`, in order, and then ends. The pointers are `Option α`, `none` being
the null pointer. `Segment next h l t` is the open form: the walk visits `l` and then
stands at `t`.

Nothing is assumed about `next` outside the list, so a link written anywhere else
leaves the list alone (`Linked.congr`). That the walk *ends* already makes the list
duplicate-free (`Linked.nodup`): a repeated element would be followed by the same
infinite tail each time.
-/

set_option autoImplicit false

namespace Crimson.Lib

variable {α : Type*}

/-- Following `next` from `h` visits `l` and then stands at `t`. -/
def Segment (next : α → Option α) : Option α → List α → Option α → Prop
  | h, [], t => h = t
  | h, a :: l, t => h = some a ∧ Segment next (next a) l t

/-- The null-terminated list from `h` is `l`. -/
abbrev Linked (next : α → Option α) (h : Option α) (l : List α) : Prop :=
  Segment next h l none

variable {next next' : α → Option α} {h t : Option α} {l l₁ l₂ : List α} {a : α}

@[simp] theorem segment_nil : Segment next h [] t ↔ h = t := Iff.rfl

@[simp] theorem segment_cons :
    Segment next h (a :: l) t ↔ h = some a ∧ Segment next (next a) l t := Iff.rfl

theorem segment_append :
    Segment next h (l₁ ++ l₂) t ↔ ∃ m, Segment next h l₁ m ∧ Segment next m l₂ t := by
  induction l₁ generalizing h with
  | nil => simp
  | cons a l₁ ih =>
    simp only [List.cons_append, segment_cons, ih]
    constructor
    · rintro ⟨ha, m, h₁, h₂⟩
      exact ⟨m, ⟨ha, h₁⟩, h₂⟩
    · rintro ⟨m, ⟨ha, h₁⟩, h₂⟩
      exact ⟨ha, m, h₁, h₂⟩

/-- A link function that agrees on the list's own elements threads the same list. -/
theorem Segment.congr (hs : Segment next h l t) (hc : ∀ a ∈ l, next' a = next a) :
    Segment next' h l t := by
  induction l generalizing h with
  | nil => exact hs
  | cons a l ih =>
    refine ⟨hs.1, ?_⟩
    rw [hc a (by simp)]
    exact ih hs.2 fun b hb => hc b (by simp [hb])

theorem Linked.head_eq (hs : Linked next h l) : h = l.head? := by
  cases l with
  | nil => exact hs
  | cons a l => exact hs.1

theorem Linked.eq_nil_iff (hs : Linked next h l) : h = none ↔ l = [] := by
  rw [hs.head_eq, List.head?_eq_none_iff]

/-- One head pointer threads at most one null-terminated list. -/
theorem Linked.unique {l' : List α} (h₁ : Linked next h l) (h₂ : Linked next h l') : l = l' := by
  induction l generalizing h l' with
  | nil =>
    cases l' with
    | nil => rfl
    | cons b l' => rw [segment_nil.mp h₁] at h₂; exact absurd h₂.1 (by simp)
  | cons a l ih =>
    cases l' with
    | nil => rw [segment_nil.mp h₂] at h₁; exact absurd h₁.1 (by simp)
    | cons b l' =>
      have hab : a = b := Option.some.inj (h₁.1.symm.trans h₂.1)
      subst hab
      rw [ih h₁.2 h₂.2]

/-- The walk from an element of a null-terminated list is a tail of that list. -/
theorem Linked.suffix (hs : Linked next h (l₁ ++ a :: l₂)) : Linked next (some a) (a :: l₂) := by
  obtain ⟨m, _, hm⟩ := segment_append.mp hs
  exact ⟨rfl, hm.2⟩

theorem Linked.next_eq (hs : Linked next h (l₁ ++ a :: l₂)) : next a = l₂.head? :=
  Linked.head_eq hs.suffix.2

/-- **A walk that ends visits nothing twice.** -/
theorem Linked.nodup (hs : Linked next h l) : l.Nodup := by
  induction l generalizing h with
  | nil => exact List.nodup_nil
  | cons a l ih =>
    refine List.nodup_cons.mpr ⟨?_, ih hs.2⟩
    intro hmem
    obtain ⟨l₁, l₂, rfl⟩ := List.append_of_mem hmem
    -- From `a` the walk is both `a :: l₁ ++ a :: l₂` and `a :: l₂`: lengths disagree.
    have h₁ : Linked next (some a) (a :: (l₁ ++ a :: l₂)) := ⟨rfl, hs.2⟩
    have h₂ : Linked next (some a) (a :: l₂) := Linked.suffix hs.2
    have hlen := congrArg List.length (Linked.unique h₁ h₂)
    simp only [List.length_cons, List.length_append] at hlen
    omega

/-- A list ends at an element whose link is cleared. -/
theorem Linked.cut (hs : Linked next h (l₁ ++ a :: l₂)) (hne : ∀ b, b ≠ a → next' b = next b) (hnone : next' a = none) :
    Linked next' h (l₁ ++ [a]) := by
  have ha : a ∉ l₁ := fun ha => (List.nodup_append.mp (Linked.nodup hs)).2.2 a ha a (by simp) rfl
  obtain ⟨m, h₁, h₂⟩ := segment_append.mp hs
  exact segment_append.mpr ⟨m, h₁.congr fun b hb => hne b fun hba => ha (hba ▸ hb), h₂.1, hnone⟩

/-- A walk that ends passes every point it reaches. -/
theorem Linked.of_segment (hs : Linked next h l) (hl : Segment next h l₁ t) :
    ∃ l₂, l = l₁ ++ l₂ ∧ Linked next t l₂ := by
  induction l₁ generalizing h l with
  | nil => exact ⟨l, rfl, segment_nil.mp hl ▸ hs⟩
  | cons a l₁ ih =>
    cases l with
    | nil =>
      rw [segment_nil.mp hs] at hl
      exact absurd hl.1 (by simp)
    | cons b l =>
      have hab : b = a := Option.some.inj (hs.1.symm.trans hl.1)
      subst hab
      obtain ⟨l₂, rfl, hl₂⟩ := ih hs.2 hl.2
      exact ⟨l₂, rfl, hl₂⟩

/-- A walk that comes back to where it was never ends. -/
theorem Segment.not_linked (hl : Segment next h l₁ h) (hne : l₁ ≠ []) : ¬Linked next h l := by
  intro hs
  obtain ⟨l₂, rfl, hl₂⟩ := Linked.of_segment hs hl
  have hlen := congrArg List.length (Linked.unique hs hl₂)
  rw [List.length_append] at hlen
  exact hne (List.length_eq_zero_iff.mp (by omega))

/-- Two lists over one link function that have the same elements are the same list. -/
theorem Linked.eq_of_mem_iff {h' : Option α} {l' : List α} (hs : Linked next h l)
    (hs' : Linked next h' l') (hmem : ∀ a, a ∈ l ↔ a ∈ l') : l = l' := by
  cases l' with
  | nil => exact List.eq_nil_iff_forall_not_mem.mpr fun a ha => absurd ((hmem a).mp ha) (by simp)
  | cons a l' =>
    obtain ⟨u, v, rfl⟩ := List.append_of_mem ((hmem a).mpr (by simp))
    have hv : a :: v = a :: l' := Linked.unique (Linked.suffix hs) ⟨rfl, hs'.2⟩
    obtain ⟨-, rfl⟩ := List.cons.inj hv
    have hnd := List.nodup_append.mp (Linked.nodup hs)
    have hu : u = [] := List.eq_nil_iff_forall_not_mem.mpr fun b hb =>
      hnd.2.2 b hb b ((hmem b).mp (by simp [hb])) rfl
    rw [hu, List.nil_append]

section Update

variable [DecidableEq α]

/-- A link written outside the list leaves it alone. -/
theorem Segment.update_of_notMem (hs : Segment next h l t) {v : Option α} (ha : a ∉ l) :
    Segment (Function.update next a v) h l t :=
  hs.congr fun b hb => Function.update_of_ne (fun hba : b = a => ha (hba ▸ hb)) _ _

/-- Unlink an element that has a predecessor. -/
theorem Linked.unlink {y : α} (hs : Linked next h (l₁ ++ y :: a :: l₂)) :
    Linked (Function.update next y (next a)) h (l₁ ++ y :: l₂) := by
  have hnd := Linked.nodup hs
  obtain ⟨m, h₁, h₂⟩ := segment_append.mp hs
  have hnd' := List.nodup_append.mp hnd
  have hy₁ : y ∉ l₁ := fun hy => hnd'.2.2 y hy y (by simp) rfl
  have hy₂ : y ∉ l₂ := fun hy => by
    have := (List.nodup_cons.mp hnd'.2.1).1
    exact this (by simp [hy])
  refine segment_append.mpr ⟨m, h₁.update_of_notMem hy₁, h₂.1, ?_⟩
  rw [Function.update_self]
  exact h₂.2.2.update_of_notMem hy₂

end Update

end Crimson.Lib
