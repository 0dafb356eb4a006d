import Mathlib.Data.List.Infix

/-!
# Trees of tables

A radix tree kept in tables: `E a i` is entry `i` of the table at `a`, and `child` reads
an entry as the address of another table, if it is one. `walk child E r p` is the table
that the indices `p` lead to from the root `r`.

Two changes are described, each by what it does to *every* walk: writing an entry
(`walk_write`), which only reaches the walks that pass through it, and linking an empty
table into an empty entry (`walk_graft`), which adds one walk and changes no other. The
hypothesis of both is that entries other than the one written read as before. Where
tables do not overlap that is a fact about memory, and says nothing of the tree.
-/

set_option autoImplicit false

namespace Crimson.Lib

variable {α ι W : Type*} {child : W → Option α} {E E' : α → ι → W} {r a b : α} {i : ι} {p q : List ι}

/-- The table that the indices lead to. -/
def walk (child : W → Option α) (E : α → ι → W) : α → List ι → Option α
  | a, [] => some a
  | a, i :: p => (child (E a i)).bind fun b => walk child E b p

@[simp] theorem walk_nil : walk child E r [] = some r := rfl

theorem walk_append : walk child E r (p ++ q) = (walk child E r p).bind fun a => walk child E a q := by
  induction p generalizing r with
  | nil => rfl
  | cons i p ih =>
    rw [List.cons_append, walk, walk]
    cases child (E r i) with
    | none => rfl
    | some b => exact ih

theorem walk_snoc : walk child E r (p ++ [i]) = (walk child E r p).bind fun a => child (E a i) := by
  rw [walk_append]
  cases walk child E r p with
  | none => rfl
  | some a =>
    rw [Option.bind_some, Option.bind_some, walk]
    cases child (E a i) with
    | none => rfl
    | some b => rfl

/-- A walk depends on nothing but the entries on its way. -/
theorem walk_congr
    (h : ∀ p i, p ++ [i] <+: q → ∀ a, walk child E r p = some a → E' a i = E a i) :
    walk child E' r q = walk child E r q := by
  induction q using List.reverseRecOn with
  | nil => rfl
  | append_singleton q i ih =>
    have hq : walk child E' r q = walk child E r q := by
      refine ih fun p j hp => h p j (hp.trans (List.prefix_append q [i]))
    rw [walk_snoc, walk_snoc, hq]
    cases ha : walk child E r q with
    | none => rfl
    | some a => rw [Option.bind_some, Option.bind_some, h q i (List.prefix_refl _) a ha]

/-- **Writing entry `i` of the table at `p`** leaves every walk alone that does not pass
    through it. -/
theorem walk_write {n : Nat}
    (hother : ∀ q b j, q.length < n → walk child E r q = some b → ¬(q = p ∧ j = i) → E' b j = E b j)
    (hlen : q.length ≤ n) (hq : ¬p ++ [i] <+: q) : walk child E' r q = walk child E r q := by
  refine walk_congr fun p' j hp' a ha => ?_
  have hlt : p'.length < n := by
    have := hp'.length_le
    rw [List.length_append, List.length_singleton] at this
    omega
  refine hother p' a j hlt ha ?_
  rintro ⟨rfl, rfl⟩
  exact hq hp'

/-- **Linking a table**: entry `i` of the table at `p` led nowhere and now leads to `b`. One walk
    is added, if the entries of `b` lead nowhere where walks go on from it. -/
theorem walk_link [DecidableEq ι] {n : Nat} (hp : walk child E r p = some a)
    (hnone : child (E a i) = none) (hlink : child (E' a i) = some b)
    (hnull : p.length + 1 < n → ∀ j, child (E' b j) = none)
    (hother : ∀ q b j, q.length < n → walk child E r q = some b → ¬(q = p ∧ j = i) → E' b j = E b j)
    (hlen : q.length ≤ n) :
    walk child E' r q = if q = p ++ [i] then some b else walk child E r q := by
  by_cases hpre : p ++ [i] <+: q
  · obtain ⟨l, rfl⟩ := hpre
    rw [List.length_append, List.length_append, List.length_singleton] at hlen
    -- The walk to `p` itself does not pass through the entry written.
    have hp' : walk child E' r p = some a := by
      rw [← hp]
      refine walk_write hother (by omega) fun h => ?_
      have := h.length_le
      rw [List.length_append, List.length_singleton] at this
      omega
    have hnew : walk child E' r (p ++ [i]) = some b := by rw [walk_snoc, hp', Option.bind_some, hlink]
    have hold : walk child E r (p ++ [i]) = none := by rw [walk_snoc, hp, Option.bind_some, hnone]
    cases l with
    | nil => rw [List.append_nil, if_pos rfl, hnew]
    | cons j l =>
      rw [List.length_cons] at hlen
      have hne : p ++ [i] ++ j :: l ≠ p ++ [i] := by simp
      rw [if_neg hne, walk_append (p := p ++ [i]), walk_append (p := p ++ [i]), hnew, hold, Option.bind_some,
        Option.bind_none, walk, hnull (by omega) j, Option.bind_none]
  · have hne : q ≠ p ++ [i] := fun h => hpre (h ▸ List.prefix_refl _)
    rw [if_neg hne]
    exact walk_write hother hlen hpre

/-- **Linking an empty table**: entry `i` of the table at `p` led nowhere and now leads to
    the table at `b`, whose entries lead nowhere. One walk is added. -/
theorem walk_graft [DecidableEq ι] {n : Nat} (hp : walk child E r p = some a)
    (hnone : child (E a i) = none) (hlink : child (E' a i) = some b) (hnull : ∀ j, child (E' b j) = none)
    (hother : ∀ q b j, q.length < n → walk child E r q = some b → ¬(q = p ∧ j = i) → E' b j = E b j)
    (hlen : q.length ≤ n) :
    walk child E' r q = if q = p ++ [i] then some b else walk child E r q :=
  walk_link hp hnone hlink (fun _ => hnull) hother hlen

end Crimson.Lib
