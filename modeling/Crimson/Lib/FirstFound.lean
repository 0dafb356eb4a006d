import Mathlib.Data.List.Perm.Basic

/-!
# The first of two kinds

A search that takes the first entry of either of two kinds, where entries of the first kind are
meant to be preferred. It prefers them exactly where none of the second kind stands before them
(`prefers_iff`), and it does so in every order of the list exactly where there is nothing to
choose (`prefers_perm_iff`).
-/

set_option autoImplicit false

namespace Crimson.Lib

variable {α : Type*} {p q : α → Bool} {l : List α}

/-- If there is an entry of the first kind, such an entry is found. -/
def Prefers (p q : α → Bool) (l : List α) : Prop :=
  (∃ x ∈ l, p x = true) → ∃ x, l.find? (fun x => p x || q x) = some x ∧ p x = true

theorem prefers_cons_of_pos {x : α} (h : p x = true) : Prefers p q (x :: l) := by
  intro _
  exact ⟨x, by simp [h], h⟩

theorem prefers_cons_of_other {x : α} (hp : p x = false) (hq : q x = true) :
    Prefers p q (x :: l) ↔ ∀ y ∈ l, p y = false := by
  have hfind : (x :: l).find? (fun x => p x || q x) = some x := by simp [hq]
  constructor
  · intro h y hy
    by_contra hne
    obtain ⟨z, hz, hpz⟩ := h ⟨y, List.mem_cons_of_mem _ hy, by simpa using hne⟩
    rw [hfind] at hz
    obtain rfl := Option.some.inj hz
    rw [hp] at hpz
    cases hpz
  · rintro h ⟨y, hy, hpy⟩
    rcases List.mem_cons.mp hy with rfl | hy
    · rw [hp] at hpy
      cases hpy
    · rw [h y hy] at hpy
      cases hpy

theorem prefers_cons_of_neither {x : α} (hp : p x = false) (hq : q x = false) :
    Prefers p q (x :: l) ↔ Prefers p q l := by
  unfold Prefers
  simp [hp, hq]

/-- **No entry of the second kind stands before the first of the first kind.** -/
theorem prefers_iff : Prefers p q l ↔
    ∀ before x after, l = before ++ x :: after → p x = true → (∀ y ∈ before, p y = false) → ∀ y ∈ before, q y = false := by
  induction l with
  | nil => simp [Prefers]
  | cons a l ih =>
    by_cases hp : p a = true
    · refine ⟨fun _ before x after hl _ hbefore => ?_, fun _ => prefers_cons_of_pos hp⟩
      cases before with
      | nil => simp
      | cons b before =>
        obtain ⟨rfl, -⟩ := List.cons.inj hl
        rw [hbefore a List.mem_cons_self] at hp
        cases hp
    · have hp : p a = false := by simpa using hp
      by_cases hq : q a = true
      · rw [prefers_cons_of_other hp hq]
        constructor
        · intro h before x after hl hx
          cases before with
          | nil => simp
          | cons b before =>
            obtain ⟨-, rfl⟩ := List.cons.inj hl
            rw [h x (by simp)] at hx
            cases hx
        · intro h y hy
          by_contra hne
          -- The first entry of the first kind has this one before it.
          obtain ⟨before, x, after, hl, hx, hbefore⟩ : ∃ before x after, l = before ++ x :: after ∧ p x = true ∧
              ∀ y ∈ before, p y = false := by
            obtain ⟨x, hx⟩ := Option.isSome_iff_exists.mp (List.find?_isSome.mpr ⟨y, hy, by simpa using hne⟩)
            obtain ⟨hpx, before, after, hl, hbefore⟩ := List.find?_eq_some_iff_append.mp hx
            exact ⟨before, x, after, hl, hpx, fun y hy => by simpa using hbefore y hy⟩
          have hnone := h (a :: before) x after (by rw [hl]; rfl) hx (by simpa [hp] using hbefore) a (by simp)
          rw [hq] at hnone
          cases hnone
      · have hq : q a = false := by simpa using hq
        rw [prefers_cons_of_neither hp hq, ih]
        constructor
        · intro h before x after hl hx hbefore
          cases before with
          | nil => simp
          | cons b before =>
            obtain ⟨rfl, htail⟩ := List.cons.inj hl
            have hrest := h before x after htail hx fun y hy => hbefore y (List.mem_cons_of_mem _ hy)
            simpa [hq] using hrest
        · intro h before x after hl hx hbefore y hy
          exact h (a :: before) x after (by rw [hl]; rfl) hx (by simpa [hp] using hbefore) y (List.mem_cons_of_mem _ hy)

/-- **In every order**: one of the two kinds is missing. -/
theorem prefers_perm_iff : (∀ l', l'.Perm l → Prefers p q l') ↔
    (∀ x ∈ l, p x = false) ∨ ∀ x ∈ l, q x = true → p x = true := by
  constructor
  · intro h
    by_cases hq : ∀ x ∈ l, q x = true → p x = true
    · exact Or.inr hq
    · left
      push Not at hq
      obtain ⟨x, hx, hqx, hpx⟩ := hq
      -- The order that puts the other kind first.
      obtain ⟨front, back, rfl⟩ := List.append_of_mem hx
      have hnone := (prefers_cons_of_other (by simpa using hpx) hqx).mp (h (x :: (front ++ back)) List.perm_middle.symm)
      intro y hy
      rcases List.mem_cons.mp (List.perm_middle.subset hy) with rfl | hy
      · simpa using hpx
      · exact hnone y hy
  · rintro (hnone | hsame) l' hperm
    · rintro ⟨x, hx, hpx⟩
      rw [hnone x (hperm.subset hx)] at hpx
      cases hpx
    · rintro ⟨x, hx, hpx⟩
      obtain ⟨y, hy⟩ := Option.isSome_iff_exists.mp (List.find?_isSome.mpr ⟨x, hx, by simp [hpx]⟩ :
        (l'.find? fun x => p x || q x).isSome = true)
      refine ⟨y, hy, ?_⟩
      rcases Bool.or_eq_true_iff.mp (by simpa using List.find?_some hy) with hp | hq
      · exact hp
      · exact hsame y (hperm.subset (List.mem_of_find?_eq_some hy)) hq

end Crimson.Lib
