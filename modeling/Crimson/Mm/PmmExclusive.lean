import Crimson.Mm.PmmCount
import Mathlib.Data.Set.Lattice
import Mathlib.Data.Finset.Image
import Mathlib.Order.CompletePartialOrder

/-!
# The page allocator hands every page to one owner

A run of the allocator is watched together with its clients: `Holdings` pairs the
allocator with the list of live allocations, each the set of its page addresses, and a
client frees pages of live allocations only, one at a time.

A page that is handed out has its bit clear, and a page about to be handed out has its
bit set. That one remark, kept as the invariant `Held`, gives `exclusive_of_run`: live
allocations never overlap each other, never leave the managed range, and never include
a page `pmm_init` marked used, in particular no page of the bitmap.
-/

set_option autoImplicit false

namespace Crimson.Mm

open Crimson.Lib

/-- The `n` consecutive pages from address `a`. -/
def pagesFrom (a n : Nat) : Finset Nat := (Finset.range n).image fun i => a + i * 4096

/-- The bytes of a set of pages. -/
def pageBytes (pages : Finset Nat) : Set Nat := {x | ∃ p ∈ pages, p ≤ x ∧ x < p + 4096}

/-- The allocator and the live allocations. -/
structure Holdings where
  mm : MmState
  live : List (Finset Nat)

inductive AllocOp where
  | alloc
  | allocN (n : Nat)
  | free (paddr : Nat)
deriving DecidableEq, Repr

/-- Record what a call returned: address 0 is a failure. -/
def Holdings.grant (h : Holdings) (result : Nat × MmState) (n : Nat) : Holdings :=
  { mm := result.2, live := if result.1 = 0 then h.live else pagesFrom result.1 n :: h.live }

/-- One call. `pmm_alloc_n` is called with at most `total_pages`, and `pmm_free` on a page
    of a live allocation. -/
def holdStep (h : Holdings) : AllocOp → Option Holdings
  | .alloc => some (h.grant (pmmAlloc h.mm) 1)
  | .allocN n => if n ≤ h.mm.totalPages then some (h.grant (pmmAllocN h.mm n) n) else none
  | .free paddr =>
    if ∃ pages ∈ h.live, paddr ∈ pages then
      some { mm := pmmFree h.mm paddr, live := h.live.map fun pages => pages.erase paddr }
    else none

/-- What the owners of pages rely on, relative to the state `s₀` that `pmm_init` left. -/
structure Exclusive (s₀ : MmState) (h : Holdings) : Prop where
  disjoint : h.live.Pairwise fun A B => Disjoint (pageBytes A) (pageBytes B)
  inside : ∀ A ∈ h.live, ∀ x ∈ pageBytes A,
    s₀.physBase ≤ x ∧ x < s₀.physBase + s₀.totalPages * 4096
  notBitmap : ∀ A ∈ h.live, ∀ x ∈ pageBytes A,
    ¬(s₀.pageBitmap ≤ x ∧ x < s₀.pageBitmap + s₀.bitmapPages * 4096)
  notReserved : ∀ A ∈ h.live, ∀ idx, idx < s₀.totalPages → s₀.pageBit idx = false →
    ∀ x ∈ pageBytes A, ¬(s₀.physBase + idx * 4096 ≤ x ∧ x < s₀.physBase + (idx + 1) * 4096)

/-- The page at `p` is a managed page that was free after `pmm_init` and is taken now. -/
def HeldPage (s₀ s : MmState) (p : Nat) : Prop :=
  ∃ idx, idx < s₀.totalPages ∧ p = s₀.physBase + idx * 4096 ∧ s.pageBit idx = false ∧
    s₀.pageBit idx = true

/-- The invariant of a run that starts at `s₀`. -/
structure Held (s₀ : MmState) (h : Holdings) : Prop where
  same : SameRange s₀ h.mm
  held : ∀ A ∈ h.live, ∀ p ∈ A, HeldPage s₀ h.mm p
  reserved : ∀ idx, idx < s₀.totalPages → s₀.pageBit idx = false → h.mm.pageBit idx = false
  disjoint : h.live.Pairwise Disjoint

/-- Pages lie on a grid: two of them with a byte in common are the same page. -/
theorem page_eq_of_byte {base i j x : Nat} (hi : base + i * 4096 ≤ x ∧ x < base + i * 4096 + 4096)
    (hj : base + j * 4096 ≤ x ∧ x < base + j * 4096 + 4096) : i = j := by
  omega

theorem Held.exclusive {s₀ : MmState} {h : Holdings} (hh : Held s₀ h)
    (hbitmap : s₀.pageBitmap = s₀.physBase) (hpages : s₀.bitmapPages ≤ s₀.totalPages)
    (hclear : ∀ idx, idx < s₀.bitmapPages → s₀.pageBit idx = false) : Exclusive s₀ h := by
  have hreserved : ∀ A ∈ h.live, ∀ idx, idx < s₀.totalPages → s₀.pageBit idx = false →
      ∀ x ∈ pageBytes A,
        ¬(s₀.physBase + idx * 4096 ≤ x ∧ x < s₀.physBase + (idx + 1) * 4096) := by
    intro A hA idx _ hbit x hx hin
    obtain ⟨p, hp, hpx⟩ := hx
    obtain ⟨j, _, rfl, _, hj⟩ := hh.held A hA p hp
    have hij : j = idx := page_eq_of_byte hpx ⟨hin.1, by omega⟩
    rw [hij, hbit] at hj
    exact Bool.noConfusion hj
  refine ⟨?_, ?_, ?_, hreserved⟩
  · refine hh.disjoint.imp_of_mem ?_
    intro A B hA hB hAB
    refine Set.disjoint_left.mpr ?_
    rintro x ⟨p, hp, hpx⟩ ⟨q, hq, hqx⟩
    obtain ⟨i, _, rfl, _⟩ := hh.held A hA p hp
    obtain ⟨j, _, rfl, _⟩ := hh.held B hB q hq
    rw [page_eq_of_byte hpx hqx] at hp
    exact Finset.disjoint_left.mp hAB hp hq
  · rintro A hA x ⟨p, hp, hpx⟩
    obtain ⟨idx, hidx, rfl, _⟩ := hh.held A hA p hp
    omega
  · intro A hA x hx hin
    rw [hbitmap] at hin
    have hidx : (x - s₀.physBase) / 4096 < s₀.bitmapPages := by omega
    exact hreserved A hA _ (lt_of_lt_of_le hidx hpages) (hclear _ hidx) x hx (by omega)

/-- Taking a run of free pages adds an allocation disjoint from those already live. -/
theorem Held.took {s₀ : MmState} {h : Holdings} (hh : Held s₀ h) {st n : Nat} {s' : MmState}
    (htook : Took h.mm st n s') (hwrap : s₀.physBase + s₀.totalPages * 4096 ≤ 2 ^ 64) :
    Held s₀ (h.grant ((h.mm.physBase + st * 4096) % 2 ^ 64, s') n) := by
  have hin := htook.inRange
  have htotal := hh.same.totalPages
  have hbase := hh.same.physBase
  -- A bit that is clear stays clear: taking pages clears bits only.
  have hstays : ∀ idx, h.mm.pageBit idx = false → s'.pageBit idx = false := by
    intro idx hidx
    rw [htook.bits, hidx, Bool.false_and]
  have hold : ∀ A ∈ h.live, ∀ p ∈ A, HeldPage s₀ s' p := by
    intro A hA p hp
    obtain ⟨idx, hidx, hpe, hclear, hset⟩ := hh.held A hA p hp
    exact ⟨idx, hidx, hpe, hstays idx hclear, hset⟩
  have hreserved : ∀ idx, idx < s₀.totalPages → s₀.pageBit idx = false → s'.pageBit idx = false :=
    fun idx hidx hbit => hstays idx (hh.reserved idx hidx hbit)
  have hsame : SameRange s₀ s' := hh.same.trans htook.same.range
  unfold Holdings.grant
  by_cases hzero : (h.mm.physBase + st * 4096) % 2 ^ 64 = 0
  · rw [if_pos hzero]
    exact ⟨hsame, hold, hreserved, hh.disjoint⟩
  rw [if_neg hzero]
  -- The new pages: their bits were set, so no live allocation has them.
  have hnew : ∀ p ∈ pagesFrom ((h.mm.physBase + st * 4096) % 2 ^ 64) n,
      ∃ idx, st ≤ idx ∧ idx < st + n ∧ p = s₀.physBase + idx * 4096 := by
    intro p hp
    obtain ⟨i, hi, rfl⟩ := Finset.mem_image.mp hp
    have hi := Finset.mem_range.mp hi
    have haddr : (h.mm.physBase + st * 4096) % 2 ^ 64 = h.mm.physBase + st * 4096 :=
      Nat.mod_eq_of_lt (by omega)
    exact ⟨st + i, by omega, by omega, by rw [haddr]; omega⟩
  refine ⟨hsame, ?_, hreserved, List.pairwise_cons.mpr ⟨?_, hh.disjoint⟩⟩
  · intro A hA p hp
    rcases List.mem_cons.mp hA with rfl | hA
    · obtain ⟨idx, h₁, h₂, rfl⟩ := hnew p hp
      refine ⟨idx, by omega, rfl, ?_, ?_⟩
      · rw [htook.bits, decide_eq_true ⟨h₁, h₂⟩, Bool.not_true, Bool.and_false]
      · by_contra hbit
        have := hh.reserved idx (by omega) (by simpa using hbit)
        rw [htook.wasFree idx h₁ h₂] at this
        exact Bool.noConfusion this
    · exact hold A hA p hp
  · intro A hA
    refine Finset.disjoint_left.mpr fun p hp hpA => ?_
    obtain ⟨idx, h₁, h₂, rfl⟩ := hnew p hp
    obtain ⟨j, _, hj, hclear, _⟩ := hh.held A hA _ hpA
    have hij : idx = j := by omega
    rw [← hij, htook.wasFree idx h₁ h₂] at hclear
    exact Bool.noConfusion hclear

/-- The invariant speaks of the bits of managed pages only, and of no order of owners. -/
theorem Held.frame {s₀ : MmState} {h : Holdings} (hh : Held s₀ h) {s : MmState}
    (hrange : SameRange h.mm s) (hbits : ∀ idx, idx < s₀.totalPages → s.pageBit idx = h.mm.pageBit idx)
    {live : List (Finset Nat)} (hperm : live.Perm h.live) : Held s₀ { mm := s, live := live } where
  same := hh.same.trans hrange
  held := fun A hA p hp => by
    obtain ⟨idx, hidx, hpe, hclear, hset⟩ := hh.held A (hperm.subset hA) p hp
    exact ⟨idx, hidx, hpe, (hbits idx hidx).trans hclear, hset⟩
  reserved := fun idx hidx hbit => (hbits idx hidx).trans (hh.reserved idx hidx hbit)
  disjoint := hperm.symm.pairwise hh.disjoint fun h => Disjoint.symm h

/-- Failing leaves the holdings as they were. -/
theorem Holdings.grant_fail (h : Holdings) (n : Nat) : h.grant (0, h.mm) n = h := rfl

/-- The address of a managed page is one that `pmm_free` acts on. -/
theorem Held.pmmFree_gave {s₀ : MmState} {h : Holdings} (hh : Held s₀ h) {paddr idx : Nat}
    (hidx : idx < s₀.totalPages) (hpe : paddr = s₀.physBase + idx * 4096) :
    Gave h.mm idx (pmmFree h.mm paddr) := by
  have hbase := hh.same.physBase
  have htotal := hh.same.totalPages
  have hpage : (paddr - h.mm.physBase) / 4096 = idx := by omega
  rcases pmmFree_cases h.mm paddr with ⟨_, hout⟩ | ⟨_, hgave⟩
  · omega
  · rwa [hpage] at hgave

/-- Freeing a page of a live allocation. -/
theorem Held.gave {s₀ : MmState} {h : Holdings} (hh : Held s₀ h) {A : Finset Nat} (hA : A ∈ h.live)
    {paddr : Nat} (hp : paddr ∈ A) :
    Held s₀ { mm := pmmFree h.mm paddr, live := h.live.map fun pages => pages.erase paddr } := by
  obtain ⟨idx, hidx, hpe, _, hset⟩ := hh.held A hA paddr hp
  have hgave := hh.pmmFree_gave hidx hpe
  -- Only page `idx` became free, and no live allocation keeps it.
  have hother : ∀ j, j ≠ idx → h.mm.pageBit j = false →
      (pmmFree h.mm paddr).pageBit j = false := by
    intro j hj hbit
    rw [hgave.bits, hbit, decide_eq_false hj, Bool.or_false]
  refine ⟨hh.same.trans hgave.same.range, ?_, ?_, ?_⟩
  · intro B hB q hq
    obtain ⟨C, hC, rfl⟩ := List.mem_map.mp hB
    obtain ⟨hne, hqC⟩ := Finset.mem_erase.mp hq
    obtain ⟨j, hj, hqe, hclear, hjset⟩ := hh.held C hC q hqC
    refine ⟨j, hj, hqe, hother j ?_ hclear, hjset⟩
    rintro rfl
    exact hne (hqe.trans hpe.symm)
  · intro j hj hbit
    refine hother j ?_ (hh.reserved j hj hbit)
    rintro rfl
    rw [hset] at hbit
    exact Bool.noConfusion hbit
  · rw [List.pairwise_map]
    exact hh.disjoint.imp fun hAB => Finset.disjoint_of_subset_left (Finset.erase_subset _ _)
      (Finset.disjoint_of_subset_right (Finset.erase_subset _ _) hAB)

theorem held_holdStep {s₀ : MmState} (hsmall : s₀.totalPages < 2 ^ 64)
    (hwrap : s₀.physBase + s₀.totalPages * 4096 ≤ 2 ^ 64) (h : Holdings) (op : AllocOp)
    (h' : Holdings) (hh : Held s₀ h) (hstep : holdStep h op = some h') : Held s₀ h' := by
  cases op with
  | alloc =>
    simp only [holdStep, Option.some.injEq] at hstep
    subst hstep
    rcases pmmAlloc_cases h.mm with ⟨he, _⟩ | ⟨idx, s', he, htook, _⟩
    · rw [he, Holdings.grant_fail]; exact hh
    · rw [he]; exact hh.took htook hwrap
  | allocN n =>
    simp only [holdStep] at hstep
    split at hstep
    case isFalse => cases hstep
    case isTrue hn =>
      simp only [Option.some.injEq] at hstep
      subst hstep
      rcases pmmAllocN_cases h.mm hn (by rw [hh.same.totalPages]; exact hsmall) with
        ⟨he, _⟩ | ⟨_, st, s', he, htook, _⟩
      · rw [he, Holdings.grant_fail]; exact hh
      · rw [he]; exact hh.took htook hwrap
  | free paddr =>
    simp only [holdStep] at hstep
    split at hstep
    case isFalse => cases hstep
    case isTrue howned =>
      simp only [Option.some.injEq] at hstep
      subst hstep
      obtain ⟨A, hA, hp⟩ := howned
      exact hh.gave hA hp

/-- **Page exclusivity.** From the state `pmm_init` leaves for a range that does not wrap,
    through any sequence of allocations and of frees of live pages, the live allocations
    are pairwise disjoint, inside the managed range, and clear of the bitmap and of every
    page marked used at the start. -/
theorem exclusive_of_run (kernelSize : Nat) (s : MmState) (base size : Nat)
    (hwrap : alignUp base 4096 + size / 4096 * 4096 ≤ 2 ^ 64) (ops : List AllocOp) :
    Always holdStep (Exclusive (pmmInit kernelSize s base size))
      { mm := pmmInit kernelSize s base size, live := [] } ops := by
  obtain ⟨htotal, hbase, hbitmap, hpages, hclear⟩ := pmmInit_spec kernelSize s hwrap
  have hstart : Held (pmmInit kernelSize s base size)
      { mm := pmmInit kernelSize s base size, live := [] } :=
    ⟨SameRange.refl _, fun A hA => absurd hA (by simp), fun _ _ hbit => hbit, List.Pairwise.nil⟩
  have hrun : Always holdStep (Held (pmmInit kernelSize s base size))
      { mm := pmmInit kernelSize s base size, live := [] } ops :=
    always_of_step (held_holdStep (by rw [htotal]; omega) (by rw [htotal, hbase]; exact hwrap))
      hstart
  refine hrun.mono ?_
  intro h hh
  exact hh.exclusive (hbitmap.trans hbase.symm) hpages hclear

/-- Four pages, the first of them the bitmap's: a run of two, its second page freed and
    handed out again. -/
theorem exclusive_reuse : Always holdStep (Exclusive (pmmInit 0 blank 0x41000000 0x4000))
    { mm := pmmInit 0 blank 0x41000000 0x4000, live := [] }
    [.allocN 2, .free 0x41002000, .alloc, .alloc] :=
  exclusive_of_run 0 blank 0x41000000 0x4000 (by decide +kernel) _

end Crimson.Mm
