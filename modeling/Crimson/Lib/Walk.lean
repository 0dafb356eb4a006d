import Mathlib.Logic.Relation

/-!
# Walks

`Throughout step P a` says that `P` holds wherever a walk from `a` comes to: at `a`, and after
each further step. `throughout_iff` unfolds it by one step, which is the form an induction on
the fuel of a loop uses; `throughout_next` is the case in which there is one way to go on, and
`throughout_stop` the case in which there is none.

`Yields o ok spec` is what such an induction proves of the result of a loop that may fail.
-/

set_option autoImplicit false

namespace Crimson.Lib

variable {α : Type*} {step : α → α → Prop} {P Q : α → Prop} {a b : α}

def Throughout (step : α → α → Prop) (P : α → Prop) (a : α) : Prop :=
  ∀ b, Relation.ReflTransGen step a b → P b

theorem Throughout.head (h : Throughout step P a) : P a := h a .refl

theorem Throughout.tail (h : Throughout step P a) (hs : step a b) : Throughout step P b :=
  fun c hc => h c (.head hs hc)

theorem throughout_iff : Throughout step P a ↔ P a ∧ ∀ b, step a b → Throughout step P b := by
  constructor
  · intro h
    exact ⟨h.head, fun b hs => h.tail hs⟩
  · rintro ⟨ha, hnext⟩ c hr
    cases Relation.ReflTransGen.cases_head hr with
    | inl heq => exact heq ▸ ha
    | inr hstep =>
      obtain ⟨b, hs, hr⟩ := hstep
      exact hnext b hs c hr

/-- A step that is the only one. -/
theorem throughout_next (hs : step a b) (hone : ∀ c, step a c → c = b) :
    Throughout step P a ↔ P a ∧ Throughout step P b := by
  rw [throughout_iff]
  constructor
  · intro h
    exact ⟨h.1, h.2 b hs⟩
  · intro h
    refine ⟨h.1, ?_⟩
    intro c hc
    exact hone c hc ▸ h.2

theorem throughout_stop (hnone : ∀ b, ¬step a b) : Throughout step P a ↔ P a := by
  rw [throughout_iff]
  exact and_iff_left fun b hs => absurd hs (hnone b)

theorem Throughout.mono (hPQ : ∀ b, P b → Q b) (h : Throughout step P a) : Throughout step Q a :=
  fun b hr => hPQ b (h b hr)

/-- There is a result exactly where `ok` holds, and the result is as `spec` says. -/
structure Yields {β : Type*} (o : Option β) (ok : Prop) (spec : β → Prop) : Prop where
  isSome_iff : o.isSome ↔ ok
  result : ∀ v, o = some v → spec v

variable {β : Type*} {o : Option β} {ok : Prop} {spec : β → Prop} {v : β}

theorem Yields.not_inside (h : Yields o ok spec) (hnone : o = none) : ¬ok := by
  intro hok
  have hsome := h.isSome_iff.mpr hok
  rw [hnone] at hsome
  cases hsome

theorem Yields.inside (h : Yields o ok spec) (hsome : o = some v) : ok :=
  h.isSome_iff.mp (by rw [hsome]; rfl)

theorem Yields.fault (h : ¬ok) : Yields none ok spec := by
  constructor
  · simpa using h
  · intro v hv
    cases hv

theorem Yields.done (h : ok) (hv : spec v) : Yields (some v) ok spec := by
  constructor
  · simpa using h
  · intro w hw
    obtain rfl := Option.some.inj hw
    exact hv

/-- A test that fails the loop. -/
theorem Yields.guard {bad : Prop} [Decidable bad] (hbad : bad → ¬ok) (h : ¬bad → Yields o ok spec) :
    Yields (if bad then none else o) ok spec := by
  by_cases hb : bad
  · rw [if_pos hb]
    exact .fault (hbad hb)
  · rw [if_neg hb]
    exact h hb

/-- A test that splits the loop. -/
theorem Yields.branch {o' : Option β} {c : Prop} [Decidable c] (hpos : c → Yields o ok spec)
    (hneg : ¬c → Yields o' ok spec) : Yields (if c then o else o') ok spec := by
  by_cases hc : c
  · rw [if_pos hc]
    exact hpos hc
  · rw [if_neg hc]
    exact hneg hc

end Crimson.Lib
