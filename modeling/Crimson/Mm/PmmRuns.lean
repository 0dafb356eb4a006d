import Crimson.Lib.Traced
import Crimson.Mm.PmmCount

/-!
# The bits that `pmm_alloc_n` reads (`mm.c`)

The scans of the page allocator again, each with the bitmap bits it looks at. A word that
`pmm_alloc` tests and then searches for its lowest set bit is read up to that bit, and a word
of zeros is read whole.

With `n` at most `total_pages` the scan of `pmm_alloc_n` keeps to the bitmap and takes the
lowest run. With a larger `n` the bound `total_pages - n` wraps, and the scan leaves the
bitmap at the first starting point that does not fail before its end.
-/

set_option autoImplicit false

namespace Crimson.Mm

open Crimson.Lib

/-- The bits of `page_bitmap[i]` that decide `!= 0` and `__builtin_ctzll`. -/
def readWord (s : MmState) (i : Nat) : Traced Nat (BitVec 64) :=
  ⟨s.word i, (List.range (min 64 ((s.word i).ctz.toNat + 1))).map fun bit => i * 64 + bit⟩

/-- `pmmAllocScan`. -/
def tracedAllocScan (s : MmState) : Nat → Nat → Traced Nat (Nat × MmState)
  | 0, _ => pure (0, s)
  | k + 1, i => do
    let w ← readWord s i
    if w ≠ 0#64 then
      let bit := w.ctz.toNat
      let pageIdx := i * 64 + bit
      if s.totalPages ≤ pageIdx then pure (0, s)
      else
        pure ((s.physBase + pageIdx * 4096) % 2 ^ 64,
          { s.clearBit i bit with freePages := sub64 s.freePages 1 })
    else tracedAllocScan s k (i + 1)

/-- `pmmAlloc`. -/
def tracedAlloc (s : MmState) : Traced Nat (Nat × MmState) :=
  if s.freePages = 0 then pure (0, s) else tracedAllocScan s ((s.totalPages + 63) / 64) 0

/-- The inner loop of `pmm_alloc_n`, from page `j` of the run on, up to its `break`. -/
def tracedRunFree (s : MmState) (start : Nat) : Nat → Nat → Traced Nat Bool
  | 0, _ => pure true
  | k + 1, j => do
    Traced.emit ((start + j) % 2 ^ 64)
    if s.testBit ((start + j) % 2 ^ 64 / 64) ((start + j) % 2 ^ 64 % 64) then tracedRunFree s start k (j + 1)
    else pure false

/-- `pmmAllocNScan`. -/
def tracedAllocNScan (s : MmState) (n : Nat) : Nat → Nat → Traced Nat (Nat × MmState)
  | 0, _ => pure (0, s)
  | k + 1, start => do
    let found ← tracedRunFree s start n 0
    if found then
      pure ((s.physBase + start * 4096) % 2 ^ 64,
        { takeRun s start n with freePages := sub64 s.freePages n })
    else tracedAllocNScan s n k (start + 1)

/-- `pmmAllocN`. -/
def tracedAllocN (s : MmState) (n : Nat) : Traced Nat (Nat × MmState) :=
  if n = 0 then pure (0, s)
  else if n = 1 then tracedAlloc s
  else tracedAllocNScan s n (sub64 s.totalPages n + 1) 0

/-- The `n` pages from `start` are managed and free. -/
def FreeRun (s : MmState) (start n : Nat) : Prop :=
  start + n ≤ s.totalPages ∧ ∀ idx, start ≤ idx → idx < start + n → s.pageBit idx = true

/-- What a call of `pmm_alloc_n(n)` is for. -/
structure TakesLowestRun (s : MmState) (n : Nat) (r : Traced Nat (Nat × MmState)) : Prop where
  reads : r.All fun idx => idx < s.totalPages
  result :
    (∃ start, FreeRun s start n ∧ (∀ st, st < start → ¬FreeRun s st n) ∧
        r.val.1 = (s.physBase + start * 4096) % 2 ^ 64 ∧ Took s start n r.val.2) ∨
      (∀ start, ¬FreeRun s start n) ∧ r.val = (0, s)

/-- One call; `pmm_alloc_n` is called with any `size_t`. -/
def runStep (s : MmState) : PmmOp → Option MmState
  | .alloc => some (pmmAlloc s).2
  | .allocN n => if n < 2 ^ 64 then some (tracedAllocN s n).val.2 else none
  | .free paddr => some (pmmFree s paddr)
  | .markUsed paddr => some (pmmMarkUsed s paddr)

/-- A call of `pmm_alloc_n` does what it is for. -/
def LowestRunStep (s : MmState) : PmmOp → MmState → Prop
  | .allocN n, _ => 1 ≤ n → TakesLowestRun s n (tracedAllocN s n)
  | _, _ => True

/-- Some page is free. -/
def SomeFree (s : MmState) : Prop := ∃ idx, idx < s.totalPages ∧ s.pageBit idx = true

/-- `n` is at most `total_pages`. For a single page it is the counter instead that has to say
    whether a page is free; where none is, it may be wrong if the last word is a full one. -/
def InBitmap (s : MmState) : PmmOp → Prop
  | .allocN n =>
    (2 ≤ n → n ≤ s.totalPages) ∧
      (n = 1 → (s.freePages ≠ 0 ↔ SomeFree s) ∨ ¬SomeFree s ∧ 64 ∣ s.totalPages)
  | _ => True

/-! ## The same functions -/

variable {s : MmState} {n k start i j : Nat}

theorem val_tracedAllocScan : (tracedAllocScan s k i).val = pmmAllocScan s k i := by
  induction k generalizing i with
  | zero => rfl
  | succ k ih =>
    unfold tracedAllocScan pmmAllocScan
    simp only [Traced.val_bind, readWord]
    split
    · split <;> rfl
    · exact ih

theorem val_tracedRunFree :
    (tracedRunFree s start k j).val =
      (List.range' j k).all fun j => s.testBit ((start + j) % 2 ^ 64 / 64) ((start + j) % 2 ^ 64 % 64) := by
  induction k generalizing j with
  | zero => rfl
  | succ k ih =>
    rw [List.range'_succ, List.all_cons, ← ih, tracedRunFree, Traced.val_bind]
    split
    next htest => rw [htest, Bool.true_and]
    next htest =>
      rw [Bool.not_eq_true] at htest
      rw [htest, Bool.false_and]
      rfl

theorem val_tracedAllocNScan : (tracedAllocNScan s n k start).val = pmmAllocNScan s n k start := by
  induction k generalizing start with
  | zero => rfl
  | succ k ih =>
    have hrun : (tracedRunFree s start n 0).val = runFree s start n := by
      rw [val_tracedRunFree, runFree, List.range_eq_range']
    unfold tracedAllocNScan pmmAllocNScan
    rw [Traced.val_bind, hrun]
    split
    · rfl
    · exact ih

/-- The traced call is `pmm_alloc_n`. -/
theorem val_tracedAllocN (s : MmState) (n : Nat) : (tracedAllocN s n).val = pmmAllocN s n := by
  unfold tracedAllocN pmmAllocN
  split
  · rfl
  split
  · unfold tracedAlloc pmmAlloc
    split
    · rfl
    · exact val_tracedAllocScan
  · exact val_tracedAllocNScan

/-! ## What `pmm_alloc` reads -/

theorem mem_readWord {e : Nat} : e ∈ (readWord s i).trace ↔ ∃ bit, bit < 64 ∧ bit ≤ (s.word i).ctz.toNat ∧ e = i * 64 + bit := by
  simp only [readWord, List.mem_map, List.mem_range]
  constructor
  · rintro ⟨bit, hbit, rfl⟩
    exact ⟨bit, by omega, by omega, rfl⟩
  · rintro ⟨bit, h64, hctz, rfl⟩
    exact ⟨bit, by omega, rfl⟩

/-- The scan of the words, one step on. -/
theorem trace_tracedAllocScan :
    (tracedAllocScan s (k + 1) i).trace =
      (readWord s i).trace ++ if s.word i ≠ 0#64 then [] else (tracedAllocScan s k (i + 1)).trace := by
  rw [tracedAllocScan, Traced.trace_bind]
  refine congrArg ((readWord s i).trace ++ ·) ?_
  by_cases hw : s.word i ≠ 0#64
  · rw [if_pos hw]
    refine (congrArg Traced.trace (if_pos hw)).trans ?_
    dsimp only
    split <;> rfl
  · rw [if_neg hw]
    exact congrArg Traced.trace (if_neg hw)

/-- A free page ahead, or a bitmap of whole words, keeps the scan inside. -/
theorem tracedAllocScan_inside (hik : i + k = (s.totalPages + 63) / 64)
    (hstop : (∃ idx, i * 64 ≤ idx ∧ idx < s.totalPages ∧ s.pageBit idx = true) ∨ 64 ∣ s.totalPages) :
    (tracedAllocScan s k i).All fun idx => idx < s.totalPages := by
  induction k generalizing i with
  | zero => exact Traced.all_pure _
  | succ k ih =>
    intro e he
    rw [trace_tracedAllocScan, List.mem_append] at he
    rcases he with he | he
    · obtain ⟨bit, h64, hctz, rfl⟩ := mem_readWord.mp he
      rcases hstop with ⟨idx, hle, hlt, hbit⟩ | hdvd
      · by_cases hword : idx / 64 = i
        · -- the free page is in this word, and the lowest set bit not above it
          have hlow : (s.word i).ctz.toNat ≤ idx % 64 := by
            by_contra hgt
            rw [MmState.pageBit, hword, BitVec.getLsbD_false_of_lt_ctz (by omega)] at hbit
            exact Bool.noConfusion hbit
          omega
        · omega
      · omega
    · by_cases hw : s.word i ≠ 0#64
      · rw [if_pos hw] at he
        exact absurd he List.not_mem_nil
      · rw [if_neg hw] at he
        refine ih (by omega) ?_ e he
        rcases hstop with ⟨idx, hle, hlt, hbit⟩ | hdvd
        · refine Or.inl ⟨idx, ?_, hlt, hbit⟩
          by_contra hgt
          have hword : idx / 64 = i := by omega
          rw [MmState.pageBit, hword, not_not.mp hw] at hbit
          simp at hbit
        · exact Or.inr hdvd

/-- With no free page, and a last word that is not a full one, the scan reads on behind the
    last page. -/
theorem tracedAllocScan_outside (hik : i + k = (s.totalPages + 63) / 64) (hpos : 0 < k) (hnone : ¬SomeFree s)
    (hpart : ¬64 ∣ s.totalPages) : ∃ e ∈ (tracedAllocScan s k i).trace, s.totalPages ≤ e := by
  induction k generalizing i with
  | zero => exact absurd hpos (lt_irrefl 0)
  | succ k ih =>
    rw [trace_tracedAllocScan]
    by_cases hw : s.word i ≠ 0#64
    · -- the lowest set bit belongs to no page
      have hctz : (s.word i).ctz.toNat < 64 := by
        simpa [BitVec.lt_def] using BitVec.ctz_lt_iff_ne_zero.mpr hw
      have hset : s.pageBit (i * 64 + (s.word i).ctz.toNat) = true := by
        rw [MmState.pageBit, show (i * 64 + (s.word i).ctz.toNat) / 64 = i by omega,
          show (i * 64 + (s.word i).ctz.toNat) % 64 = (s.word i).ctz.toNat by omega]
        exact BitVec.getLsbD_true_ctz_of_ne_zero hw
      refine ⟨i * 64 + (s.word i).ctz.toNat, List.mem_append_left _ (mem_readWord.mpr ⟨_, hctz, le_rfl, rfl⟩), ?_⟩
      by_contra hin
      exact hnone ⟨_, not_le.mp hin, hset⟩
    · have hctz : (s.word i).ctz.toNat = 64 := by
        rw [not_not.mp hw]
        decide +kernel
      by_cases hend : s.totalPages ≤ i * 64 + 63
      · exact ⟨i * 64 + 63, List.mem_append_left _ (mem_readWord.mpr ⟨63, by omega, by omega, rfl⟩), hend⟩
      · rw [if_neg hw]
        obtain ⟨e, he, hle⟩ := ih (i := i + 1) (by omega) (by omega)
        exact ⟨e, List.mem_append_right _ he, hle⟩

/-! ## What the search for a run reads -/

theorem trace_tracedRunFree :
    (tracedRunFree s start (k + 1) j).trace =
      (start + j) % 2 ^ 64 ::
        if s.testBit ((start + j) % 2 ^ 64 / 64) ((start + j) % 2 ^ 64 % 64) then (tracedRunFree s start k (j + 1)).trace
        else [] := by
  simp only [tracedRunFree, Traced.trace_bind, Traced.trace_emit, List.singleton_append]
  refine congrArg (List.cons _) ?_
  split <;> rfl

theorem tracedRunFree_inside (hin : start + j + k ≤ s.totalPages) :
    (tracedRunFree s start k j).All fun idx => idx < s.totalPages := by
  induction k generalizing j with
  | zero => exact Traced.all_pure _
  | succ k ih =>
    intro e he
    rw [trace_tracedRunFree] at he
    rcases List.mem_cons.mp he with rfl | he
    · have := Nat.mod_le (start + j) (2 ^ 64)
      omega
    · split at he
      · exact ih (by omega) e he
      · exact absurd he List.not_mem_nil

/-- A run found free has been read to its end. -/
theorem mem_tracedRunFree {x : Nat} (hfree : (tracedRunFree s start k j).val = true) (hx : j ≤ x) (hxk : x < j + k) :
    (start + x) % 2 ^ 64 ∈ (tracedRunFree s start k j).trace := by
  induction k generalizing j with
  | zero => omega
  | succ k ih =>
    rw [trace_tracedRunFree]
    by_cases hfirst : x = j
    · rw [hfirst]
      exact List.mem_cons_self
    · rw [tracedRunFree, Traced.val_bind] at hfree
      split at hfree
      next htest =>
        rw [if_pos htest]
        exact List.mem_cons_of_mem _ (ih hfree (by omega) (by omega))
      next => exact absurd hfree (by simp)

theorem trace_tracedAllocNScan :
    (tracedAllocNScan s n (k + 1) start).trace =
      (tracedRunFree s start n 0).trace ++
        if (tracedRunFree s start n 0).val then [] else (tracedAllocNScan s n k (start + 1)).trace := by
  rw [tracedAllocNScan, Traced.trace_bind]
  refine congrArg ((tracedRunFree s start n 0).trace ++ ·) ?_
  split <;> rfl

theorem tracedAllocNScan_inside (hin : start + k + n ≤ s.totalPages + 1) :
    (tracedAllocNScan s n k start).All fun idx => idx < s.totalPages := by
  induction k generalizing start with
  | zero => exact Traced.all_pure _
  | succ k ih =>
    intro e he
    rw [trace_tracedAllocNScan, List.mem_append] at he
    rcases he with he | he
    · exact tracedRunFree_inside (by omega) e he
    · split at he
      · exact absurd he List.not_mem_nil
      · exact ih (by omega) e he

/-- **More pages than there are**: one of the starting points up to `total_pages` leads the
    scan out of the bitmap. -/
theorem tracedAllocNScan_outside (hsmall : s.totalPages < 2 ^ 64) (hn : s.totalPages < n)
    (hstart : start ≤ s.totalPages) (hk : s.totalPages < start + k) :
    ∃ e ∈ (tracedAllocNScan s n k start).trace, s.totalPages ≤ e := by
  induction k generalizing start with
  | zero => omega
  | succ k ih =>
    rw [trace_tracedAllocNScan]
    by_cases hfree : (tracedRunFree s start n 0).val = true
    · have hread := mem_tracedRunFree (x := s.totalPages - start) hfree (by omega) (by omega)
      have hlast : (start + (s.totalPages - start)) % 2 ^ 64 = s.totalPages := by omega
      rw [hlast] at hread
      exact ⟨_, List.mem_append_left _ hread, le_rfl⟩
    · rw [if_neg hfree]
      by_cases hlast : start = s.totalPages
      · obtain ⟨n, rfl⟩ := Nat.exists_eq_succ_of_ne_zero (n := n) (by omega)
        refine ⟨(start + 0) % 2 ^ 64, List.mem_append_left _ ?_, by omega⟩
        rw [trace_tracedRunFree]
        exact List.mem_cons_self
      · obtain ⟨e, he, hle⟩ := @ih (start + 1) (by omega) (by omega)
        exact ⟨e, List.mem_append_right _ he, hle⟩

/-! ## The call -/

theorem freeRun_one : FreeRun s start 1 ↔ start < s.totalPages ∧ s.pageBit start = true := by
  constructor
  · rintro ⟨hin, hfree⟩
    exact ⟨by omega, hfree start le_rfl (by omega)⟩
  · rintro ⟨hin, hfree⟩
    refine ⟨by omega, fun idx hle hlt => ?_⟩
    obtain rfl : idx = start := by omega
    exact hfree

theorem Took.freeRun {s' : MmState} (h : Took s start n s') : FreeRun s start n := ⟨h.inRange, h.wasFree⟩

/-- Where the counter lets it search, `pmm_alloc_n` within the bitmap has the right result. -/
theorem pmmAllocN_result (hn : 1 ≤ n) (hle : n ≤ s.totalPages) (hsmall : s.totalPages < 2 ^ 64)
    (hcount : n = 1 → s.freePages = 0 → ¬SomeFree s) :
    (∃ start, FreeRun s start n ∧ (∀ st, st < start → ¬FreeRun s st n) ∧
        (pmmAllocN s n).1 = (s.physBase + start * 4096) % 2 ^ 64 ∧ Took s start n (pmmAllocN s n).2) ∨
      (∀ start, ¬FreeRun s start n) ∧ pmmAllocN s n = (0, s) := by
  rcases pmmAllocN_cases s hle hsmall with ⟨he, hwhy⟩ | ⟨-, start, s', he, htook, hlow⟩
  · refine Or.inr ⟨fun start hrun => ?_, he⟩
    rcases hwhy with hzero | ⟨hone, hfree⟩ | hnone
    · omega
    · subst hone
      exact hcount rfl hfree ⟨start, freeRun_one.mp hrun⟩
    · exact hnone start hrun.1 hrun.2
  · refine Or.inl ⟨start, htook.freeRun, fun st hst hrun => hlow st hst hrun.2, ?_, ?_⟩
    · rw [he]
    · rw [he]
      exact htook

theorem takesLowestRun_many (hsmall : s.totalPages < 2 ^ 64) (hn : 2 ≤ n) (hlt : n < 2 ^ 64) :
    TakesLowestRun s n (tracedAllocN s n) ↔ n ≤ s.totalPages := by
  have hscan : tracedAllocN s n = tracedAllocNScan s n (sub64 s.totalPages n + 1) 0 := by
    rw [tracedAllocN, if_neg (by omega), if_neg (by omega)]
  constructor
  · intro h
    by_contra hbig
    -- the bound has wrapped, so every starting point up to `total_pages` is tried
    have hwrap : s.totalPages < 0 + (sub64 s.totalPages n + 1) := by
      unfold sub64
      omega
    obtain ⟨e, he, hle⟩ := tracedAllocNScan_outside hsmall (not_le.mp hbig) (Nat.zero_le _) hwrap
    have hlt := h.reads e (hscan ▸ he)
    omega
  · intro hle
    constructor
    · rw [hscan]
      refine tracedAllocNScan_inside ?_
      unfold sub64
      omega
    · rw [val_tracedAllocN]
      exact pmmAllocN_result (by omega) hle hsmall (by omega)

theorem no_freeRun_one : (∀ start, ¬FreeRun s start 1) ↔ ¬SomeFree s := by
  constructor
  · rintro h ⟨idx, hidx⟩
    exact h idx (freeRun_one.mpr hidx)
  · intro h start hrun
    exact h ⟨start, freeRun_one.mp hrun⟩

/-- Nothing comes out where every page is taken. -/
theorem pmmAllocN_none (hnone : ¬SomeFree s) : pmmAllocN s 1 = (0, s) := by
  rcases pmmAlloc_cases s with ⟨he, -⟩ | ⟨idx, s', -, htook, -⟩
  · exact he
  · have hin := htook.inRange
    exact absurd ⟨idx, by omega, htook.wasFree idx le_rfl (by omega)⟩ hnone

/-- **A counter of 0** answers for the bitmap. -/
theorem takesLowestRun_refused (hzero : s.freePages = 0) : TakesLowestRun s 1 (tracedAllocN s 1) ↔ ¬SomeFree s := by
  have hret : tracedAllocN s 1 = pure (0, s) := if_pos hzero
  rw [hret]
  constructor
  · intro h
    rcases h.result with ⟨start, -, -, -, htook⟩ | ⟨hnone, -⟩
    · have hbit := htook.bits start
      have hsame : s.pageBit start = true := htook.wasFree start le_rfl (by omega)
      simp [Traced.val_pure, hsame] at hbit
    · exact no_freeRun_one.mp hnone
  · intro h
    exact ⟨Traced.all_pure _, Or.inr ⟨no_freeRun_one.mpr h, rfl⟩⟩

/-- **A search in vain** goes through every word, and out of the bitmap with the last one unless
    its 64 pages are all there. -/
theorem takesLowestRun_vain (hnone : ¬SomeFree s) (hzero : s.freePages ≠ 0) :
    TakesLowestRun s 1 (tracedAllocN s 1) ↔ 64 ∣ s.totalPages := by
  have hscan : tracedAllocN s 1 = tracedAllocScan s ((s.totalPages + 63) / 64) 0 := if_neg hzero
  constructor
  · intro h
    by_contra hpart
    obtain ⟨e, he, hle⟩ := tracedAllocScan_outside (i := 0) (k := (s.totalPages + 63) / 64) (by omega)
      (by omega) hnone hpart
    have hlt := h.reads e (hscan ▸ he)
    omega
  · intro hdvd
    constructor
    · rw [hscan]
      exact tracedAllocScan_inside (by omega) (Or.inr hdvd)
    · rw [val_tracedAllocN]
      exact Or.inr ⟨no_freeRun_one.mpr hnone, pmmAllocN_none hnone⟩

/-- **A search that finds a page** stops there. -/
theorem takesLowestRun_found (hsmall : s.totalPages < 2 ^ 64) (hsome : SomeFree s) (hzero : s.freePages ≠ 0) :
    TakesLowestRun s 1 (tracedAllocN s 1) := by
  have hscan : tracedAllocN s 1 = tracedAllocScan s ((s.totalPages + 63) / 64) 0 := if_neg hzero
  obtain ⟨idx, hidx, hbit⟩ := hsome
  constructor
  · rw [hscan]
    exact tracedAllocScan_inside (by omega) (Or.inl ⟨idx, by omega, hidx, hbit⟩)
  · rw [val_tracedAllocN]
    exact pmmAllocN_result le_rfl (by omega) hsmall fun _ hf => absurd hf hzero

theorem takesLowestRun_one (hsmall : s.totalPages < 2 ^ 64) :
    TakesLowestRun s 1 (tracedAllocN s 1) ↔
      (s.freePages ≠ 0 ↔ SomeFree s) ∨ ¬SomeFree s ∧ 64 ∣ s.totalPages := by
  by_cases hzero : s.freePages = 0
  · rw [takesLowestRun_refused hzero]
    constructor
    · intro h
      exact Or.inl (iff_of_false (not_not.mpr hzero) h)
    · rintro (h | h)
      · exact fun hsome => h.mpr hsome hzero
      · exact h.1
  · by_cases hsome : SomeFree s
    · exact iff_of_true (takesLowestRun_found hsmall hsome hzero) (Or.inl (iff_of_true hzero hsome))
    · rw [takesLowestRun_vain hsome hzero]
      constructor
      · intro hdvd
        exact Or.inr ⟨hsome, hdvd⟩
      · rintro (h | ⟨-, hdvd⟩)
        · exact absurd (h.mp hzero) hsome
        · exact hdvd

/-- **A call, exactly.** -/
theorem lowestRunStep_iff (hsmall : s.totalPages < 2 ^ 64) {op : PmmOp} {s' : MmState}
    (hs : runStep s op = some s') : LowestRunStep s op s' ↔ InBitmap s op := by
  cases op with
  | alloc | free | markUsed => exact Iff.rfl
  | allocN n =>
    simp only [runStep] at hs
    split at hs
    case isFalse => cases hs
    case isTrue hlt =>
      simp only [LowestRunStep, InBitmap]
      rcases Nat.lt_or_ge 1 n with htwo | hle
      · rw [takesLowestRun_many hsmall htwo hlt]
        exact ⟨fun h => ⟨fun _ => h (by omega), fun h1 => absurd h1 (by omega)⟩, fun h _ => h.1 htwo⟩
      · rcases Nat.lt_or_ge n 1 with hzero | hone
        · exact iff_of_true (fun h => absurd h (by omega)) ⟨fun h => absurd h (by omega), fun h => absurd h (by omega)⟩
        · obtain rfl : n = 1 := by omega
          rw [takesLowestRun_one hsmall]
          exact ⟨fun h => ⟨fun h2 => absurd h2 (by omega), fun _ => h le_rfl⟩, fun h _ => h.2 rfl⟩

/-- With a counter that counts the free pages, only the size matters. -/
theorem inBitmap_of_counted (hs : Counted s) : InBitmap s (.allocN n) ↔ n ≤ s.totalPages ∨ n ≤ 1 := by
  have hsome : s.freePages ≠ 0 ↔ SomeFree s := by
    rw [hs.count, MmState.freeCount, Ne, Finset.card_eq_zero, Finset.filter_eq_empty_iff]
    simp [SomeFree]
  constructor
  · rintro ⟨hmany, -⟩
    omega
  · intro h
    exact ⟨fun htwo => by omega, fun _ => Or.inl hsome⟩

/-! ## Runs -/

theorem pmmAllocNScan_total (s : MmState) (n k start : Nat) :
    (pmmAllocNScan s n k start).2.totalPages = s.totalPages := by
  induction k generalizing start with
  | zero => rfl
  | succ k ih =>
    unfold pmmAllocNScan
    split
    · show (takeRun s start n).totalPages = s.totalPages
      unfold takeRun
      generalize List.range n = l
      induction l using List.reverseRecOn with
      | nil => rfl
      | append_singleton l j ihl =>
        rw [List.foldl_append]
        exact ihl
    · exact ih (start + 1)

theorem pmmAllocN_total (s : MmState) (n : Nat) : (pmmAllocN s n).2.totalPages = s.totalPages := by
  have hone : (pmmAlloc s).2.totalPages = s.totalPages := by
    rcases pmmAlloc_cases s with ⟨he, -⟩ | ⟨idx, s', he, htook, -⟩
    · rw [he]
    · rw [he]
      exact htook.same.totalPages
  unfold pmmAllocN
  split
  · rfl
  split
  · exact hone
  · exact pmmAllocNScan_total s n _ _

theorem runStep_total {op : PmmOp} {s' : MmState} (hs : runStep s op = some s') : s'.totalPages = s.totalPages := by
  cases op with
  | alloc =>
    obtain rfl := Option.some.inj hs
    exact pmmAllocN_total s 1
  | allocN n =>
    simp only [runStep] at hs
    split at hs
    case isFalse => cases hs
    case isTrue =>
      obtain rfl := Option.some.inj hs
      rw [val_tracedAllocN]
      exact pmmAllocN_total s n
  | free paddr =>
    obtain rfl := Option.some.inj hs
    rcases pmmFree_cases s paddr with ⟨he, -⟩ | ⟨-, hgave⟩
    · rw [he]
    · exact hgave.same.totalPages
  | markUsed paddr =>
    obtain rfl := Option.some.inj hs
    exact (darker_pmmMarkUsed s paddr).same.totalPages

/-- **From `pmm_init` on**, whatever has been allocated and freed before: the calls of
    `pmm_alloc_n` do what they are for exactly when each asks for no more than there is. -/
theorem lowestRun_iff (kernelSize : Nat) (s : MmState) (base size : Nat) (hsize : size < 2 ^ 64) (ops : List PmmOp) :
    AlwaysStep runStep LowestRunStep (pmmInit kernelSize s base size) ops ↔
      Meets runStep InBitmap (pmmInit kernelSize s base size) ops := by
  refine alwaysStep_iff_meets (I := fun t => t.totalPages < 2 ^ 64) ?_ ?_ ?_
  · intro t op t' hI hs
    rw [runStep_total hs]
    exact hI
  · intro t op t' hI hs
    exact lowestRunStep_iff hI hs
  · have hsmall := (counted_pmmInit kernelSize s base hsize).small
    omega

/-- Sixteen pages, of which two in a row are asked for. -/
theorem lowestRun_two :
    AlwaysStep runStep LowestRunStep (pmmInit 0 blank 0x41000000 0x10000) [.allocN 2] := by
  refine (lowestRun_iff 0 blank 0x41000000 0x10000 (by omega) _).mpr ?_
  intro s' _
  exact ⟨⟨fun _ => by decide, fun h => absurd h (by decide)⟩, trivial⟩

/-- Seventeen of sixteen: the scan reads a seventeenth bit. -/
theorem seventeen_leaves :
    ¬AlwaysStep runStep LowestRunStep (pmmInit 0 blank 0x41000000 0x10000) [.allocN 17] := by
  intro h
  have hcall : runStep (pmmInit 0 blank 0x41000000 0x10000) (.allocN 17) =
      some (tracedAllocN (pmmInit 0 blank 0x41000000 0x10000) 17).val.2 := by
    rw [runStep, if_pos (by decide)]
  have hsmall : (pmmInit 0 blank 0x41000000 0x10000).totalPages < 2 ^ 52 :=
    (counted_pmmInit 0 blank 0x41000000 (by decide)).small
  have hle := (takesLowestRun_many (by omega) (by decide) (by decide)).mp ((h _ hcall).1 (by decide))
  exact absurd hle (by decide)

end Crimson.Mm
