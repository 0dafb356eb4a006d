import Crimson.Lib.Run
import Crimson.Mm.Pmm
import Mathlib.Algebra.Order.Group.Nat

/-!
# The page counter over whole runs

`free_pages` and the bitmap are updated separately, and agree as long as each update of
the one is matched by the other. `pmm_mark_used` tests the bit before it touches the
counter; `pmm_free` does not, so freeing a page that is already free counts it twice.
`countAgrees_iff` says that this is the only way the two part: they agree throughout a
run exactly when no step of it frees a page that is free already.

The state every run starts from is `pmm_init`'s, described on the way: `pmmInit_spec`
says what the marking loops leave.
-/

set_option autoImplicit false

namespace Crimson.Mm

open Crimson.Lib

/-! ## Counting free pages -/

/-- The number of set bits at indices below `total_pages`. -/
def MmState.freeCount (s : MmState) : Nat :=
  ((Finset.range s.totalPages).filter fun idx => s.pageBit idx = true).card

theorem MmState.freeCount_le (s : MmState) : s.freeCount ≤ s.totalPages :=
  (Finset.card_filter_le _ _).trans (Finset.card_range _).le

theorem Took.freeCount {s s' : MmState} {start n : Nat} (h : Took s start n s') :
    s.freeCount = s'.freeCount + n := by
  have hset : (Finset.range s.totalPages).filter (fun idx => s.pageBit idx = true) =
      ((Finset.range s'.totalPages).filter fun idx => s'.pageBit idx = true) ∪
        Finset.Ico start (start + n) := by
    ext idx
    simp only [Finset.mem_union, Finset.mem_filter, Finset.mem_range, Finset.mem_Ico, h.bits,
      h.same.totalPages, Bool.and_eq_true, Bool.not_eq_true', decide_eq_false_iff_not]
    constructor
    · rintro ⟨hlt, hbit⟩
      by_cases hin : start ≤ idx ∧ idx < start + n
      · exact Or.inr hin
      · exact Or.inl ⟨hlt, hbit, hin⟩
    · rintro (⟨hlt, hbit, _⟩ | ⟨h₁, h₂⟩)
      · exact ⟨hlt, hbit⟩
      · exact ⟨lt_of_lt_of_le h₂ h.inRange, h.wasFree idx h₁ h₂⟩
  have hdisj : Disjoint ((Finset.range s'.totalPages).filter fun idx => s'.pageBit idx = true)
      (Finset.Ico start (start + n)) := by
    refine Finset.disjoint_left.mpr fun idx hidx hin => ?_
    simp only [Finset.mem_filter, h.bits, Bool.and_eq_true, Bool.not_eq_true',
      decide_eq_false_iff_not] at hidx
    exact hidx.2.2 (Finset.mem_Ico.mp hin)
  rw [MmState.freeCount, hset, Finset.card_union_of_disjoint hdisj, Nat.card_Ico,
    Nat.add_sub_cancel_left, MmState.freeCount]

theorem Gave.freeCount_of_taken {s s' : MmState} {idx : Nat} (h : Gave s idx s')
    (hbit : s.pageBit idx = false) : s'.freeCount = s.freeCount + 1 := by
  have hset : (Finset.range s'.totalPages).filter (fun j => s'.pageBit j = true) =
      insert idx ((Finset.range s.totalPages).filter fun j => s.pageBit j = true) := by
    ext j
    simp only [Finset.mem_insert, Finset.mem_filter, Finset.mem_range, h.bits, h.same.totalPages,
      Bool.or_eq_true, decide_eq_true_eq]
    constructor
    · rintro ⟨hlt, hb | he⟩
      · exact Or.inr ⟨hlt, hb⟩
      · exact Or.inl he
    · rintro (rfl | ⟨hlt, hb⟩)
      · exact ⟨h.inRange, Or.inr rfl⟩
      · exact ⟨hlt, Or.inl hb⟩
  rw [MmState.freeCount, hset, Finset.card_insert_of_notMem (by simp [hbit]), MmState.freeCount]

theorem Gave.freeCount_of_free {s s' : MmState} {idx : Nat} (h : Gave s idx s')
    (hbit : s.pageBit idx = true) : s'.freeCount = s.freeCount := by
  unfold MmState.freeCount
  rw [h.same.totalPages]
  refine congrArg Finset.card (Finset.filter_congr fun j _ => ?_)
  rw [h.bits]
  by_cases hj : j = idx
  · simp [hj, hbit]
  · simp [hj]

/-- The counter counts the set bits. -/
structure Counted (s : MmState) : Prop where
  count : s.freePages = s.freeCount
  small : s.totalPages < 2 ^ 52

theorem Took.counted {s s' : MmState} {start n : Nat} (h : Took s start n s') (hs : Counted s) :
    Counted s' := by
  have hcount := h.freeCount
  have hle := s.freeCount_le
  have hsmall := hs.small
  refine ⟨?_, by rw [h.same.totalPages]; exact hsmall⟩
  rw [h.count, sub64, hs.count]
  omega

theorem counted_pmmMarkUsed {s : MmState} (hs : Counted s) (paddr : Nat) :
    Counted (pmmMarkUsed s paddr) := by
  rcases pmmMarkUsed_cases s paddr with ⟨he, _⟩ | ⟨s', he, _, htook⟩
  · rwa [he]
  · rw [he]; exact htook.counted hs

/-! ## The state `pmm_init` leaves -/

/-- The registers `pmm_init` sets, over a bitmap of ones. -/
def pmmCleared (s : MmState) (base size : Nat) : MmState :=
  (List.range ((size / 4096 + 63) / 64 * 8 / 8)).foldl
    (fun s i => s.setWord i (BitVec.allOnes 64))
    { s with
      physBase := alignUp base 4096, totalPages := size / 4096, freePages := size / 4096,
      pageBitmap := alignUp base 4096 }

/-- `pmm_init` is the clearing loop followed by two marking loops, the second of which
    may have nothing to mark. -/
theorem pmmInit_eq (kernelSize : Nat) (s : MmState) (base size : Nat) :
    ∃ k, pmmInit kernelSize s base size =
      (List.range k).foldl (fun s i => pmmMarkUsed s ((0x40080000 + i * 4096) % 2 ^ 64))
        ((List.range (alignUp ((size / 4096 + 63) / 64 * 8) 4096 / 4096)).foldl
          (fun s i => pmmMarkUsed s ((alignUp base 4096 + i * 4096) % 2 ^ 64))
          (pmmCleared s base size)) := by
  unfold pmmInit
  dsimp only
  split
  · exact ⟨_, rfl⟩
  · exact ⟨0, rfl⟩

theorem setOnes_spec (s : MmState) (k : Nat) (hk : k ≤ (s.totalPages + 63) / 64) :
    SameButBitmap s
      ((List.range k).foldl (fun s i => s.setWord i (BitVec.allOnes 64)) s) ∧
    ((List.range k).foldl (fun s i => s.setWord i (BitVec.allOnes 64)) s).freePages
      = s.freePages ∧
    ∀ idx, idx < 64 * k →
      ((List.range k).foldl (fun s i => s.setWord i (BitVec.allOnes 64)) s).pageBit idx = true := by
  induction k with
  | zero => exact ⟨SameButBitmap.refl s, rfl, fun idx h => absurd h (by omega)⟩
  | succ k ih =>
    obtain ⟨hsame, hfree, hbits⟩ := ih (by omega)
    rw [List.range_succ, List.foldl_append, List.foldl_cons, List.foldl_nil]
    refine ⟨hsame.trans (SameButBitmap.setWord _ _ (by rw [hsame.totalPages]; omega)), hfree,
      fun idx hidx => ?_⟩
    rw [MmState.pageBit_setWord]
    split
    · rw [BitVec.getLsbD_allOnes]
      exact decide_eq_true (Nat.mod_lt _ (by omega))
    · exact hbits idx (by omega)

/-- After the clearing loop every page is free. -/
theorem pmmCleared_spec (s : MmState) (base size : Nat) :
    (pmmCleared s base size).totalPages = size / 4096 ∧
    (pmmCleared s base size).physBase = alignUp base 4096 ∧
    (pmmCleared s base size).pageBitmap = alignUp base 4096 ∧
    (pmmCleared s base size).freePages = size / 4096 ∧
    ∀ idx, idx < size / 4096 → (pmmCleared s base size).pageBit idx = true := by
  have hk : (size / 4096 + 63) / 64 * 8 / 8 = (size / 4096 + 63) / 64 := by omega
  unfold pmmCleared
  rw [hk]
  obtain ⟨hsame, hfree, hbits⟩ := setOnes_spec
    { s with
      physBase := alignUp base 4096, totalPages := size / 4096, freePages := size / 4096,
      pageBitmap := alignUp base 4096 } ((size / 4096 + 63) / 64) le_rfl
  exact ⟨hsame.totalPages, hsame.physBase, hsame.pageBitmap, hfree,
    fun idx h => hbits idx (by omega)⟩

theorem counted_pmmCleared (s : MmState) (base : Nat) {size : Nat} (hsize : size < 2 ^ 64) :
    Counted (pmmCleared s base size) := by
  obtain ⟨htotal, _, _, hfree, hbits⟩ := pmmCleared_spec s base size
  refine ⟨?_, by rw [htotal]; omega⟩
  rw [hfree, MmState.freeCount, htotal, Finset.filter_true_of_mem, Finset.card_range]
  exact fun idx h => hbits idx (Finset.mem_range.mp h)

/-- A property every `pmm_mark_used` preserves survives a marking loop. -/
theorem markLoop_induction {P : MmState → Prop} {addr : Nat → Nat}
    (hstep : ∀ s paddr, P s → P (pmmMarkUsed s paddr)) {s : MmState} (hs : P s) (k : Nat) :
    P ((List.range k).foldl (fun s i => pmmMarkUsed s (addr i)) s) := by
  induction k with
  | zero => exact hs
  | succ k ih =>
    rw [List.range_succ, List.foldl_append]
    exact hstep _ _ ih

theorem counted_pmmInit (kernelSize : Nat) (s : MmState) (base : Nat) {size : Nat}
    (hsize : size < 2 ^ 64) : Counted (pmmInit kernelSize s base size) := by
  obtain ⟨k, hk⟩ := pmmInit_eq kernelSize s base size
  rw [hk]
  have hstep : ∀ s paddr, Counted s → Counted (pmmMarkUsed s paddr) :=
    fun _ paddr h => counted_pmmMarkUsed h paddr
  exact markLoop_induction hstep (markLoop_induction hstep (counted_pmmCleared s base hsize) _) _

/-- Marking only ever clears bits, and leaves everything but bits and counter alone. -/
structure Darker (s s' : MmState) : Prop where
  same : SameButBitmap s s'
  bits : ∀ idx, s'.pageBit idx = true → s.pageBit idx = true

theorem darker_pmmMarkUsed (s : MmState) (paddr : Nat) : Darker s (pmmMarkUsed s paddr) := by
  rcases pmmMarkUsed_cases s paddr with ⟨he, _⟩ | ⟨s', he, _, htook⟩
  · rw [he]; exact ⟨SameButBitmap.refl s, fun _ h => h⟩
  · rw [he]
    refine ⟨htook.same, fun idx h => ?_⟩
    rw [htook.bits, Bool.and_eq_true] at h
    exact h.1

theorem Darker.step {s s' : MmState} (h : Darker s s') (paddr : Nat) :
    Darker s (pmmMarkUsed s' paddr) :=
  have h' := darker_pmmMarkUsed s' paddr
  ⟨h.same.trans h'.same, fun idx hb => h.bits idx (h'.bits idx hb)⟩

/-- Marking a page that is in range leaves its bit clear. -/
theorem pageBit_pmmMarkUsed {s : MmState} {idx : Nat} (hidx : idx < s.totalPages)
    (hwrap : s.physBase + s.totalPages * 4096 ≤ 2 ^ 64) :
    (pmmMarkUsed s ((s.physBase + idx * 4096) % 2 ^ 64)).pageBit idx = false := by
  have haddr : (s.physBase + idx * 4096) % 2 ^ 64 = s.physBase + idx * 4096 :=
    Nat.mod_eq_of_lt (by omega)
  rw [haddr]
  have hpage : idx = (s.physBase + idx * 4096 - s.physBase) / 4096 := by omega
  rcases pmmMarkUsed_cases s (s.physBase + idx * 4096) with ⟨he, hclear⟩ | ⟨s', he, _, htook⟩
  · rw [he]; exact hclear idx hidx (by omega) hpage
  · rw [he, htook.bits]
    have hin : decide ((s.physBase + idx * 4096 - s.physBase) / 4096 ≤ idx ∧
      idx < (s.physBase + idx * 4096 - s.physBase) / 4096 + 1) = true := decide_eq_true (by omega)
    rw [hin, Bool.not_true, Bool.and_false]

theorem markLoop_bits {s : MmState} (hwrap : s.physBase + s.totalPages * 4096 ≤ 2 ^ 64) (k : Nat)
    (hk : k ≤ s.totalPages) :
    Darker s ((List.range k).foldl
      (fun s' i => pmmMarkUsed s' ((s.physBase + i * 4096) % 2 ^ 64)) s) ∧
    ∀ idx, idx < k → ((List.range k).foldl
      (fun s' i => pmmMarkUsed s' ((s.physBase + i * 4096) % 2 ^ 64)) s).pageBit idx = false := by
  induction k with
  | zero => exact ⟨⟨SameButBitmap.refl s, fun _ h => h⟩, fun idx h => absurd h (by omega)⟩
  | succ k ih =>
    obtain ⟨hdark, hclear⟩ := ih (by omega)
    rw [List.range_succ, List.foldl_append, List.foldl_cons, List.foldl_nil]
    generalize (List.range k).foldl
      (fun s' i => pmmMarkUsed s' ((s.physBase + i * 4096) % 2 ^ 64)) s = t at hdark hclear
    refine ⟨hdark.step _, fun idx hidx => ?_⟩
    by_cases he : idx = k
    · subst he
      rw [← hdark.same.physBase]
      exact pageBit_pmmMarkUsed (by rw [hdark.same.totalPages]; omega)
        (by rw [hdark.same.physBase, hdark.same.totalPages]; exact hwrap)
    · have hclear := hclear idx (by omega)
      by_contra hb
      rw [(darker_pmmMarkUsed t _).bits idx (by simpa using hb)] at hclear
      exact Bool.noConfusion hclear

/-- The number of pages the bitmap itself fills. -/
def MmState.bitmapPages (s : MmState) : Nat := alignUp s.bitmapBytes 4096 / 4096

/-- **What `pmm_init` leaves**: its registers, and the bitmap's own pages marked used. -/
theorem pmmInit_spec (kernelSize : Nat) (s : MmState) {base size : Nat}
    (hwrap : alignUp base 4096 + size / 4096 * 4096 ≤ 2 ^ 64) :
    let s₀ := pmmInit kernelSize s base size
    s₀.totalPages = size / 4096 ∧ s₀.physBase = alignUp base 4096 ∧
    s₀.pageBitmap = alignUp base 4096 ∧
    s₀.bitmapPages ≤ s₀.totalPages ∧ ∀ idx, idx < s₀.bitmapPages → s₀.pageBit idx = false := by
  obtain ⟨htotal, hbase, hbitmap, _, _⟩ := pmmCleared_spec s base size
  obtain ⟨k, hk⟩ := pmmInit_eq kernelSize s base size
  have hpages : alignUp ((size / 4096 + 63) / 64 * 8) 4096 / 4096 ≤ size / 4096 := by
    unfold alignUp; omega
  have hloop := markLoop_bits (s := pmmCleared s base size) (by rw [htotal, hbase]; exact hwrap)
    (alignUp ((size / 4096 + 63) / 64 * 8) 4096 / 4096) (by rw [htotal]; exact hpages)
  rw [hbase] at hloop
  obtain ⟨hdark, hclear⟩ := hloop
  dsimp only
  rw [hk]
  generalize (List.range (alignUp ((size / 4096 + 63) / 64 * 8) 4096 / 4096)).foldl
    (fun s i => pmmMarkUsed s ((alignUp base 4096 + i * 4096) % 2 ^ 64))
    (pmmCleared s base size) = t at hdark hclear
  -- The kernel loop only darkens what the bitmap loop left.
  have hdark' : Darker t ((List.range k).foldl
      (fun s i => pmmMarkUsed s ((0x40080000 + i * 4096) % 2 ^ 64)) t) :=
    markLoop_induction (fun _ paddr h => h.step paddr) ⟨SameButBitmap.refl t, fun _ h => h⟩ k
  generalize (List.range k).foldl
    (fun s i => pmmMarkUsed s ((0x40080000 + i * 4096) % 2 ^ 64)) t = u at hdark'
  have hsame := hdark.same.trans hdark'.same
  have hnum : u.bitmapPages = alignUp ((size / 4096 + 63) / 64 * 8) 4096 / 4096 := by
    rw [MmState.bitmapPages, hsame.bitmapBytes, MmState.bitmapBytes, htotal]
  refine ⟨hsame.totalPages.trans htotal, hsame.physBase.trans hbase,
    hsame.pageBitmap.trans hbitmap, ?_, fun idx hidx => ?_⟩
  · rw [hnum, hsame.totalPages, htotal]; exact hpages
  · rw [hnum] at hidx
    have hclear := hclear idx hidx
    by_contra hb
    rw [hdark'.bits idx (by simpa using hb)] at hclear
    exact Bool.noConfusion hclear

/-! ## The counter over a run -/

inductive PmmOp where
  | alloc
  | allocN (n : Nat)
  | free (paddr : Nat)
  | markUsed (paddr : Nat)
deriving DecidableEq, Repr

/-- Memory of zeros, before anything is set up. -/
def blank : MmState where
  mem := fun _ => 0
  pageBitmap := 0
  totalPages := 0
  freePages := 0
  physBase := 0
  heapStart := 0
  heapSize := 0

/-- One call. `pmm_alloc_n` is called with at most `total_pages`. -/
def pmmStep (s : MmState) : PmmOp → Option MmState
  | .alloc => some (pmmAlloc s).2
  | .allocN n => if n ≤ s.totalPages then some (pmmAllocN s n).2 else none
  | .free paddr => some (pmmFree s paddr)
  | .markUsed paddr => some (pmmMarkUsed s paddr)

/-- No managed page lies at address 0, the value `pmm_alloc` fails with. -/
def MmState.NullUnmanaged (s : MmState) : Prop :=
  0 < s.physBase ∧ s.physBase + s.totalPages * 4096 ≤ 2 ^ 64

/-- `free_pages` is the number of set bits, hence at most `total_pages`, and `pmm_alloc`
    gives up only when no page is free. -/
structure CountAgrees (s : MmState) : Prop where
  count : pmmGetFreePages s = s.freeCount
  le : pmmGetFreePages s ≤ s.totalPages
  givesUp : pmmAlloc s = (0, s) → ∀ idx, idx < s.totalPages → s.pageBit idx = false
  null : s.NullUnmanaged → (pmmAlloc s).1 = 0 → ∀ idx, idx < s.totalPages → s.pageBit idx = false

/-- A call of `pmm_free` finds the page, if it manages it at all, in use. -/
def FreesTaken (s : MmState) : PmmOp → Prop
  | .free paddr =>
    s.physBase ≤ paddr → (paddr - s.physBase) / 4096 < s.totalPages →
      s.pageBit ((paddr - s.physBase) / 4096) = false
  | _ => True

theorem Counted.agrees {s : MmState} (h : Counted s) : CountAgrees s := by
  have hle := s.freeCount_le
  -- The counter is 0 only when the filtered set is empty.
  have hzero : s.freePages = 0 → ∀ idx, idx < s.totalPages → s.pageBit idx = false := by
    intro hz idx hidx
    have hcard : s.freeCount = 0 := by rw [← h.count, hz]
    have hempty := Finset.filter_eq_empty_iff.mp (Finset.card_eq_zero.mp hcard)
    simpa using hempty (Finset.mem_range.mpr hidx)
  refine ⟨h.count, by rw [pmmGetFreePages, h.count]; exact hle, fun hfail => ?_, fun hnull hret => ?_⟩
  · rcases pmmAlloc_cases s with ⟨_, hf | hall⟩ | ⟨idx, s', he, htook, _⟩
    · exact hzero hf
    · exact hall
    · -- A page was taken: the state is not the same.
      rw [he, Prod.mk.injEq] at hfail
      have hbit := htook.bits idx
      rw [hfail.2, htook.wasFree idx le_rfl (by omega)] at hbit
      simp at hbit
  · rcases pmmAlloc_cases s with ⟨_, hf | hall⟩ | ⟨idx, s', he, htook, _⟩
    · exact hzero hf
    · exact hall
    · have hin := htook.inRange
      have hpos := hnull.1
      have hend := hnull.2
      rw [he] at hret
      dsimp only at hret
      omega

theorem counted_pmmStep (s : MmState) (op : PmmOp) (s' : MmState) (hs : Counted s)
    (hop : FreesTaken s op) (hstep : pmmStep s op = some s') : Counted s' := by
  have hsmall := hs.small
  cases op with
  | alloc =>
    simp only [pmmStep, Option.some.injEq] at hstep
    rcases pmmAlloc_cases s with ⟨he, _⟩ | ⟨idx, t, he, htook, _⟩
    · rw [he] at hstep; exact hstep ▸ hs
    · rw [he] at hstep; exact hstep ▸ htook.counted hs
  | allocN n =>
    simp only [pmmStep] at hstep
    split at hstep
    case isFalse => cases hstep
    case isTrue hn =>
      simp only [Option.some.injEq] at hstep
      rcases pmmAllocN_cases s hn (by omega) with ⟨he, _⟩ | ⟨_, st, t, he, htook, _⟩
      · rw [he] at hstep; exact hstep ▸ hs
      · rw [he] at hstep; exact hstep ▸ htook.counted hs
  | free paddr =>
    simp only [pmmStep, Option.some.injEq] at hstep
    rcases pmmFree_cases s paddr with ⟨he, _⟩ | ⟨hlow, hgave⟩
    · rw [he] at hstep; exact hstep ▸ hs
    · rw [hstep] at hgave
      have hbit := hop hlow hgave.inRange
      have hcount := hgave.freeCount_of_taken hbit
      have hle := s.freeCount_le
      refine ⟨?_, by rw [hgave.same.totalPages]; exact hsmall⟩
      rw [hgave.count, hs.count]
      omega
  | markUsed paddr =>
    simp only [pmmStep, Option.some.injEq] at hstep
    exact hstep ▸ counted_pmmMarkUsed hs paddr

/-- Freeing a page that is free already moves the counter and not the bitmap. -/
theorem not_countAgrees_of_refree (s : MmState) (op : PmmOp) (s' : MmState) (hs : Counted s)
    (hop : ¬FreesTaken s op) (hstep : pmmStep s op = some s') : ¬CountAgrees s' := by
  have hsmall := hs.small
  cases op with
  | free paddr =>
    simp only [FreesTaken, not_forall, Bool.not_eq_false] at hop
    obtain ⟨hlow, hin, hbit⟩ := hop
    simp only [pmmStep, Option.some.injEq] at hstep
    rcases pmmFree_cases s paddr with ⟨_, hout⟩ | ⟨_, hgave⟩
    · omega
    · rw [hstep] at hgave
      intro hagree
      have hcount := hagree.count
      rw [pmmGetFreePages, hgave.count, hgave.freeCount_of_free hbit, hs.count] at hcount
      have hle := s.freeCount_le
      omega
  | alloc => exact absurd trivial hop
  | allocN n => exact absurd trivial hop
  | markUsed paddr => exact absurd trivial hop

/-- **The counter agrees with the bitmap throughout a run exactly when no step of the run
    frees a managed page that is already free.** -/
theorem countAgrees_iff (kernelSize : Nat) (s : MmState) (base size : Nat) (hsize : size < 2 ^ 64)
    (ops : List PmmOp) :
    Always pmmStep CountAgrees (pmmInit kernelSize s base size) ops ↔
      Meets pmmStep FreesTaken (pmmInit kernelSize s base size) ops :=
  always_iff_meets (I := Counted) (fun _ h => h.agrees) counted_pmmStep not_countAgrees_of_refree
    (counted_pmmInit kernelSize s base hsize)

/-- A run that meets the condition: the page freed is the page just allocated. -/
theorem countAgrees_alloc_free :
    Always pmmStep CountAgrees (pmmInit 0 blank 0x41000000 0x10000) [.alloc, .free 0x41001000] := by
  refine (countAgrees_iff 0 blank 0x41000000 0x10000 (by omega) _).mpr ?_
  intro s hs
  refine ⟨trivial, fun s' _ => ⟨fun _ _ => ?_, trivial⟩⟩
  simp only [pmmStep, Option.some.injEq] at hs
  subst hs
  decide +kernel

/-- Sixteen pages, one of them the bitmap's. Allocating one and freeing it twice leaves 15
    set bits and a counter of 16. -/
theorem refree_overcounts :
    ¬Always pmmStep CountAgrees (pmmInit 0 blank 0x41000000 0x10000)
      [.alloc, .free 0x41001000, .free 0x41001000] := by
  intro h
  have hcount := (((h.2 _ rfl).2 _ rfl).2 _ rfl).count
  revert hcount
  decide +kernel

end Crimson.Mm
