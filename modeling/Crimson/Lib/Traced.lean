import Mathlib.Data.List.Basic

/-!
# Computations that report what they did

A `Traced ε α` is a value together with the list of the events of its computation, in
order: the addresses it read, the calls it made. Computations compose by `bind`, and a
property of all events of a composite splits along it (`all_bind`), so that a statement
about every access of a long function is proved one access at a time, with the
conditions its branches test in scope.
-/

set_option autoImplicit false

namespace Crimson.Lib

/-- A value and the events of its computation. -/
structure Traced (ε α : Type) where
  val : α
  trace : List ε

namespace Traced

variable {ε α β : Type}

/-- An event on its own. -/
def emit (e : ε) : Traced ε Unit := ⟨(), [e]⟩

instance : Monad (Traced ε) where
  pure a := ⟨a, []⟩
  bind x f := ⟨(f x.val).val, x.trace ++ (f x.val).trace⟩

/-- Every event of the computation satisfies `P`. -/
def All (P : ε → Prop) (x : Traced ε α) : Prop := ∀ e ∈ x.trace, P e

@[simp] theorem val_pure (a : α) : (pure a : Traced ε α).val = a := rfl

@[simp] theorem trace_pure (a : α) : (pure a : Traced ε α).trace = [] := rfl

@[simp] theorem val_bind (x : Traced ε α) (f : α → Traced ε β) : (x >>= f).val = (f x.val).val := rfl

@[simp] theorem trace_bind (x : Traced ε α) (f : α → Traced ε β) :
    (x >>= f).trace = x.trace ++ (f x.val).trace := rfl

@[simp] theorem trace_emit (e : ε) : (emit e).trace = [e] := rfl

theorem bind_assoc {γ : Type} (x : Traced ε α) (f : α → Traced ε β) (g : β → Traced ε γ) :
    x >>= f >>= g = x >>= fun a => f a >>= g := by
  show Traced.mk _ (x.trace ++ (f x.val).trace ++ _) = Traced.mk _ (x.trace ++ ((f x.val).trace ++ _))
  rw [List.append_assoc]
  rfl

variable {P : ε → Prop}

@[simp] theorem all_pure (a : α) : All P (pure a : Traced ε α) := by
  intro e he
  exact absurd he List.not_mem_nil

@[simp] theorem all_emit (e : ε) : All P (emit e) ↔ P e := by simp [All]

/-- **The events of a composite are those of its parts.** -/
@[simp] theorem all_bind (x : Traced ε α) (f : α → Traced ε β) :
    All P (x >>= f) ↔ All P x ∧ All P (f x.val) := by
  constructor
  · intro h
    exact ⟨fun e he => h e (List.mem_append_left _ he), fun e he => h e (List.mem_append_right _ he)⟩
  · intro h e he
    cases List.mem_append.mp he with
    | inl hx => exact h.1 e hx
    | inr hf => exact h.2 e hf

/-- The events of a branch, under the condition that selects it. -/
theorem all_ite (c : Prop) [Decidable c] (x y : Traced ε α) :
    All P (if c then x else y) ↔ (c → All P x) ∧ (¬ c → All P y) := by
  by_cases hc : c
  · simp [hc]
  · simp [hc]

end Traced

end Crimson.Lib
