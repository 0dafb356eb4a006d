import Crimson.Lib.Linked

/-!
# First-in first-out queues with a tail pointer

A queue is a null-terminated list together with a pointer to its last element, so that
appending needs no walk. `TailQueue next head tail l` says that `head` and `tail`
delimit the queue `l` under the link function `next`.

The rules are stated for *any* link function `next'` that agrees with what the edit
wrote, element by element, and not for one particular expression of the edit: several
queues may be threaded through the same link function, and the records that carry the
links may be edited for other reasons in between.
-/

set_option autoImplicit false

namespace Crimson.Lib

variable {α : Type*}

/-- `head` and `tail` delimit the queue `l`. -/
structure TailQueue (next : α → Option α) (head tail : Option α) (l : List α) : Prop where
  linked : Linked next head l
  tail_eq : tail = l.getLast?

variable {next next' : α → Option α} {head tail : Option α} {l l₁ l₂ : List α} {a : α}

theorem TailQueue.empty : TailQueue next none none [] := ⟨rfl, rfl⟩

theorem TailQueue.congr (hq : TailQueue next head tail l) (hc : ∀ b ∈ l, next' b = next b) :
    TailQueue next' head tail l :=
  ⟨hq.linked.congr hc, hq.tail_eq⟩

theorem TailQueue.nodup (hq : TailQueue next head tail l) : l.Nodup := hq.linked.nodup

theorem TailQueue.tail_mem (hq : TailQueue next head tail l) {z : α} (hz : tail = some z) :
    z ∈ l :=
  List.mem_of_getLast? (hq.tail_eq ▸ hz)

/-- **Append**: the new element's link is null, the old last element (if there is one)
    points to the new one, and an empty queue gets the new element as its head. -/
theorem TailQueue.push (hq : TailQueue next head tail l) (ha : a ∉ l) {head' : Option α}
    (hnull : next' a = none) (hlast : ∀ z, tail = some z → next' z = some a)
    (hrest : ∀ b ∈ l, tail ≠ some b → next' b = next b)
    (hhead : head' = if tail = none then some a else head) :
    TailQueue next' head' (some a) (l ++ [a]) := by
  refine ⟨?_, by simp⟩
  rcases List.eq_nil_or_concat l with rfl | ⟨l, z, rfl⟩
  · have htail : tail = none := hq.tail_eq
    rw [hhead, if_pos htail]
    exact ⟨rfl, hnull⟩
  · rw [List.concat_eq_append] at hq ha hrest ⊢
    have htail : tail = some z := by rw [hq.tail_eq]; simp
    have hz : z ∉ l := by
      intro hz
      exact (List.nodup_append.mp hq.nodup).2.2 z hz z (by simp) rfl
    rw [hhead, htail, if_neg (by simp)]
    obtain ⟨m, h₁, h₂⟩ := segment_append.mp hq.linked
    refine segment_append.mpr ⟨some a, segment_append.mpr ⟨m, h₁.congr ?_, h₂.1, hlast z htail⟩, ?_⟩
    · intro b hb
      refine hrest b (by simp [hb]) ?_
      rw [htail]
      intro hzb
      exact hz (Option.some.inj hzb ▸ hb)
    · exact ⟨rfl, hnull⟩

/-- **Take the head**: the head moves to the next element, and the tail pointer is
    cleared with the last one. -/
theorem TailQueue.pop (hq : TailQueue next head tail (a :: l)) (hc : ∀ b ∈ l, next' b = next b) :
    TailQueue next' (next a) (if next a = none then none else tail) l := by
  refine ⟨hq.linked.2.congr hc, ?_⟩
  have htail := hq.tail_eq
  have hnext : next a = none ↔ l = [] := Linked.eq_nil_iff hq.linked.2
  cases l with
  | nil => rw [if_pos (hnext.mpr rfl)]; rfl
  | cons b l =>
    rw [if_neg (fun hn => by simp [hnext] at hn), htail, List.getLast?_cons_cons]

/-- **Unlink an element that has a predecessor** `y` and a successor. -/
theorem TailQueue.unlink {y : α} (hq : TailQueue next head tail (l₁ ++ y :: a :: l₂))
    (hl : l₂ ≠ []) (hy : next' y = next a) (hc : ∀ b ∈ l₁ ++ l₂, next' b = next b) :
    TailQueue next' head tail (l₁ ++ y :: l₂) := by
  obtain ⟨m, h₁, h₂⟩ := segment_append.mp hq.linked
  refine ⟨segment_append.mpr ⟨m, h₁.congr ?_, h₂.1, ?_⟩, ?_⟩
  · intro b hb
    exact hc b (by simp [hb])
  · rw [hy]
    exact h₂.2.2.congr fun b hb => hc b (by simp [hb])
  · obtain ⟨b, l₂, rfl⟩ := List.exists_cons_of_ne_nil hl
    rw [hq.tail_eq]
    simp

end Crimson.Lib
