import Mathlib.Data.List.Basic

/-!
# A stream carried in numbered pieces

A sender cuts a stream into pieces and numbers each with the place it starts at, as far as
the numbers reach: `num` takes places in the stream to numbers and may wrap around. The
pieces may be lost, repeated and reordered on the way. A receiver that appends to what it
has got (a prefix of) a piece that starts where it is, has a prefix of the stream at any
time (`prefix_accept`); as long as no two places have one number, the piece whose number is
the expected one is such a piece (`inPlace_of_number`).
-/

set_option autoImplicit false

namespace Crimson.Lib

variable {π ν α : Type*}

section

variable (body : π → List α)

/-- What a list of pieces carries. -/
def streamOf (ps : List π) : List α := ps.flatMap body

/-- The stream before the piece `i`. -/
def streamBefore (ps : List π) (i : Nat) : List α := streamOf body (ps.take i)

variable (number : π → ν) (num : Nat → ν)

/-- Every piece has the number of the place it starts at. -/
def Numbered (ps : List π) : Prop :=
  ∀ i p, ps[i]? = some p → number p = num (streamBefore body ps i).length

end

variable {body : π → List α} {number : π → ν} {num : Nat → ν} {ps qs : List π} {p : π} {i : Nat} {got : List α}

theorem streamOf_append : streamOf body (ps ++ qs) = streamOf body ps ++ streamOf body qs := List.flatMap_append

@[simp] theorem streamOf_nil : streamOf body [] = [] := rfl

theorem streamOf_singleton : streamOf body [p] = body p := by simp [streamOf]

/-- The stream before a piece does not change when more is sent. -/
theorem streamBefore_append (hi : i ≤ ps.length) : streamBefore body (ps ++ qs) i = streamBefore body ps i := by
  rw [streamBefore, List.take_append_of_le_length hi, streamBefore]

theorem lt_length_of_piece (h : ps[i]? = some p) : i < ps.length := (List.getElem?_eq_some_iff.mp h).1

/-- A piece stands in the stream behind what was sent before it. -/
theorem streamBefore_extends (h : ps[i]? = some p) : streamBefore body ps i ++ body p <+: streamOf body ps := by
  obtain ⟨hi, hget⟩ := List.getElem?_eq_some_iff.mp h
  have hcut : ps = ps.take i ++ p :: ps.drop (i + 1) := by
    rw [← hget, List.getElem_cons_drop, List.take_append_drop]
  have hrest : streamOf body (p :: ps.drop (i + 1)) = body p ++ streamOf body (ps.drop (i + 1)) := List.flatMap_cons
  refine ⟨streamOf body (ps.drop (i + 1)), ?_⟩
  rw [streamBefore, List.append_assoc, ← hrest, ← streamOf_append, ← hcut]

theorem numbered_nil : Numbered body number num [] := by
  intro i p h
  cases h

/-- A new piece gets the number of the end of the stream. -/
theorem Numbered.append (h : Numbered body number num ps) (hp : number p = num (streamOf body ps).length) :
    Numbered body number num (ps ++ [p]) := by
  intro i q hq
  cases Nat.lt_or_ge i ps.length with
  | inl hi =>
    rw [List.getElem?_append_left hi] at hq
    rw [streamBefore_append (Nat.le_of_lt hi)]
    exact h i q hq
  | inr hi =>
    rw [List.getElem?_append_right hi] at hq
    obtain ⟨hlt, hget⟩ := List.getElem?_eq_some_iff.mp hq
    have hlast : i = ps.length := by
      rw [List.length_singleton] at hlt
      omega
    subst hlast
    have hqp : p = q := by simpa using hget
    rw [← hqp, streamBefore_append (Nat.le_refl _), streamBefore, List.take_length]
    exact hp

/-- Pieces that carry nothing leave the end where it is. -/
theorem Numbered.append_empty (h : Numbered body number num ps)
    (hqs : ∀ q ∈ qs, body q = [] ∧ number q = num (streamOf body ps).length) :
    Numbered body number num (ps ++ qs) ∧ streamOf body (ps ++ qs) = streamOf body ps := by
  induction qs generalizing ps with
  | nil =>
    rw [List.append_nil]
    exact ⟨h, rfl⟩
  | cons q qs ih =>
    obtain ⟨hbody, hnum⟩ := hqs q List.mem_cons_self
    have hsame : streamOf body (ps ++ [q]) = streamOf body ps := by
      rw [streamOf_append, streamOf_singleton, hbody, List.append_nil]
    have hnext := ih (h.append hnum) (fun r hr => by
      rw [hsame]
      exact hqs r (List.mem_cons_of_mem q hr))
    rw [List.append_assoc, List.singleton_append, hsame] at hnext
    exact hnext

/-- Two beginnings of the same length are the same. -/
theorem streamBefore_eq_of_length (h : ps[i]? = some p) (hgot : got <+: streamOf body ps)
    (hlen : (streamBefore body ps i).length = got.length) : streamBefore body ps i = got := by
  have hbefore : streamBefore body ps i <+: streamOf body ps :=
    (List.prefix_append _ _).trans (streamBefore_extends h)
  exact (List.prefix_of_prefix_length_le hbefore hgot (Nat.le_of_eq hlen)).eq_of_length hlen

/-- **Accepting a piece in its place**: what was got and the piece's first elements are a
    beginning of the stream. -/
theorem prefix_accept (h : ps[i]? = some p) (hgot : got <+: streamOf body ps)
    (hlen : (streamBefore body ps i).length = got.length) (n : Nat) :
    got ++ (body p).take n <+: streamOf body ps := by
  have hpiece : streamBefore body ps i ++ body p <+: streamOf body ps := streamBefore_extends h
  rw [streamBefore_eq_of_length h hgot hlen] at hpiece
  exact ((List.prefix_append_right_inj got).mpr (List.take_prefix n (body p))).trans hpiece

/-- **The expected number is the expected place**, where no two places have one number. -/
theorem inPlace_of_number (hnum : Numbered body number num ps) (h : ps[i]? = some p)
    (hgot : got <+: streamOf body ps) (hexp : number p = num got.length)
    (hinj : ∀ m n, m ≤ (streamOf body ps).length → n ≤ (streamOf body ps).length → num m = num n → m = n) :
    (streamBefore body ps i).length = got.length := by
  have hbefore : streamBefore body ps i <+: streamOf body ps :=
    (List.prefix_append _ _).trans (streamBefore_extends h)
  exact hinj _ _ hbefore.length_le hgot.length_le ((hnum i p h).symm.trans hexp)

end Crimson.Lib
