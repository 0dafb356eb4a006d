import Crimson.Lib.Bits
import Crimson.Lib.Memory
import Mathlib.Data.Finset.Card
import Mathlib.Order.Interval.Finset.Nat

/-!
# The physical page allocator (`mm.c`)

One bit per page, set while the page is free, in an array of 64-bit words that lives at
the start of the memory it describes. The model keeps that: `MmState` is the file's static
variables together with the memory they point into, and a bitmap word is a load from
`page_bitmap`. Addresses and counters are `uintptr_t`/`size_t`, so arithmetic on them is
modulo `2 ^ 64`; 4096 is `PAGE_SIZE`. The spinlock is not modelled: each function here
is one critical section.

The functions come first, each as the source has it. After them, one lemma a function
says what it can do: `Took` is the effect of taking a run of free pages, `Gave` of
returning one, and every caller reasons with these two and never unfolds a scan.
-/

set_option autoImplicit false

namespace Crimson.Mm

open Crimson.Lib

/-- `mm.c`'s static variables and the memory they live beside. -/
structure MmState where
  mem : Mem
  pageBitmap : Nat
  totalPages : Nat
  freePages : Nat
  physBase : Nat
  heapStart : Nat
  heapSize : Nat

/-- `ALIGN_UP(x, a)` for `a` a power of two, where masking is rounding down. -/
def alignUp (x a : Nat) : Nat := (x + a - 1) % 2 ^ 64 / a * a

/-- `x - y` on `size_t`. -/
def sub64 (x y : Nat) : Nat := (x + (2 ^ 64 - y % 2 ^ 64)) % 2 ^ 64

/-- `page_bitmap[i]`. -/
def MmState.word (s : MmState) (i : Nat) : BitVec 64 :=
  BitVec.ofNat 64 (load64 s.mem (s.pageBitmap + 8 * i))

def MmState.setWord (s : MmState) (i : Nat) (w : BitVec 64) : MmState :=
  { s with mem := store64 s.mem (s.pageBitmap + 8 * i) w.toNat }

/-- `page_bitmap[i] & (1ULL << bit)`, as a condition. -/
def MmState.testBit (s : MmState) (i bit : Nat) : Bool := s.word i &&& (1#64 <<< bit) != 0#64

/-- `page_bitmap[i] &= ~(1ULL << bit)`. -/
def MmState.clearBit (s : MmState) (i bit : Nat) : MmState := s.setWord i (s.word i &&& ~~~(1#64 <<< bit))

/-- `page_bitmap[i] |= (1ULL << bit)`. -/
def MmState.setBit (s : MmState) (i bit : Nat) : MmState := s.setWord i (s.word i ||| (1#64 <<< bit))

def pmmMarkUsed (s : MmState) (paddr : Nat) : MmState :=
  if paddr < s.physBase then s
  else
    let pageIdx := (paddr - s.physBase) / 4096
    if s.totalPages ≤ pageIdx then s
    else if s.testBit (pageIdx / 64) (pageIdx % 64) then
      { s.clearBit (pageIdx / 64) (pageIdx % 64) with freePages := sub64 s.freePages 1 }
    else s

def pmmInit (kernelSize : Nat) (s : MmState) (base size : Nat) : MmState :=
  let physBase := alignUp base 4096
  let totalPages := size / 4096
  let bitmapSize := (totalPages + 63) / 64 * 8
  let bitmapPages := alignUp bitmapSize 4096 / 4096
  let s := { s with
    physBase := physBase, totalPages := totalPages, freePages := totalPages,
    pageBitmap := physBase }
  -- Clear bitmap: all pages free.
  let s := (List.range (bitmapSize / 8)).foldl (fun s i => s.setWord i (BitVec.allOnes 64)) s
  let s := (List.range bitmapPages).foldl
    (fun s i => pmmMarkUsed s ((physBase + i * 4096) % 2 ^ 64)) s
  let kernelBase := 0x40080000
  let kernelBytes := alignUp kernelSize 4096
  if physBase ≤ kernelBase ∧ kernelBase < (physBase + totalPages * 4096) % 2 ^ 64 then
    (List.range (kernelBytes / 4096)).foldl
      (fun s i => pmmMarkUsed s ((kernelBase + i * 4096) % 2 ^ 64)) s
  else s

/-- The word loop of `pmm_alloc`: `k` words left to look at, from word `i`. -/
def pmmAllocScan (s : MmState) : Nat → Nat → Nat × MmState
  | 0, _ => (0, s)
  | k + 1, i =>
    if s.word i ≠ 0#64 then
      let bit := (s.word i).ctz.toNat
      let pageIdx := i * 64 + bit
      if s.totalPages ≤ pageIdx then (0, s)
      else
        ((s.physBase + pageIdx * 4096) % 2 ^ 64,
          { s.clearBit i bit with freePages := sub64 s.freePages 1 })
    else pmmAllocScan s k (i + 1)

def pmmAlloc (s : MmState) : Nat × MmState :=
  if s.freePages = 0 then (0, s) else pmmAllocScan s ((s.totalPages + 63) / 64) 0

/-- The inner loop of `pmm_alloc_n`: are the `n` pages from `start` all free? -/
def runFree (s : MmState) (start n : Nat) : Bool :=
  (List.range n).all fun j =>
    s.testBit ((start + j) % 2 ^ 64 / 64) ((start + j) % 2 ^ 64 % 64)

/-- Mark all `n` pages from `start` as used. -/
def takeRun (s : MmState) (start n : Nat) : MmState :=
  (List.range n).foldl
    (fun s j => s.clearBit ((start + j) % 2 ^ 64 / 64) ((start + j) % 2 ^ 64 % 64)) s

/-- The outer loop of `pmm_alloc_n`: `k` more starting points, from `start`. -/
def pmmAllocNScan (s : MmState) (n : Nat) : Nat → Nat → Nat × MmState
  | 0, _ => (0, s)
  | k + 1, start =>
    if runFree s start n then
      ((s.physBase + start * 4096) % 2 ^ 64,
        { takeRun s start n with freePages := sub64 s.freePages n })
    else pmmAllocNScan s n k (start + 1)

/-- The loop bound `total_pages - n` is a `size_t`: it wraps when `n` is the larger. -/
def pmmAllocN (s : MmState) (n : Nat) : Nat × MmState :=
  if n = 0 then (0, s)
  else if n = 1 then pmmAlloc s
  else pmmAllocNScan s n (sub64 s.totalPages n + 1) 0

def pmmFree (s : MmState) (paddr : Nat) : MmState :=
  if paddr < s.physBase then s
  else
    let pageIdx := (paddr - s.physBase) / 4096
    if s.totalPages ≤ pageIdx then s
    else { s.setBit (pageIdx / 64) (pageIdx % 64) with freePages := (s.freePages + 1) % 2 ^ 64 }

def pmmGetFreePages (s : MmState) : Nat := s.freePages

/-! ## One bit a page -/

/-- Bit `idx` of the bitmap: set while page `idx` is free. -/
def MmState.pageBit (s : MmState) (idx : Nat) : Bool := (s.word (idx / 64)).getLsbD (idx % 64)

/-- The bytes of the bitmap words that describe pages below `total_pages`. -/
def MmState.bitmapBytes (s : MmState) : Nat := (s.totalPages + 63) / 64 * 8

/-- `s'` is `s` but for bitmap words and `free_pages`. -/
structure SameButBitmap (s s' : MmState) : Prop where
  pageBitmap : s'.pageBitmap = s.pageBitmap
  totalPages : s'.totalPages = s.totalPages
  physBase : s'.physBase = s.physBase
  heapStart : s'.heapStart = s.heapStart
  heapSize : s'.heapSize = s.heapSize
  mem : ∀ x, x < s.pageBitmap ∨ s.pageBitmap + s.bitmapBytes ≤ x → s'.mem x = s.mem x

theorem SameButBitmap.refl (s : MmState) : SameButBitmap s s :=
  ⟨rfl, rfl, rfl, rfl, rfl, fun _ _ => rfl⟩

theorem SameButBitmap.trans {s₁ s₂ s₃ : MmState} (h : SameButBitmap s₁ s₂) (h' : SameButBitmap s₂ s₃) :
    SameButBitmap s₁ s₃ where
  pageBitmap := h'.pageBitmap.trans h.pageBitmap
  totalPages := h'.totalPages.trans h.totalPages
  physBase := h'.physBase.trans h.physBase
  heapStart := h'.heapStart.trans h.heapStart
  heapSize := h'.heapSize.trans h.heapSize
  mem := fun x hx => by
    rw [h'.mem x (by rw [h.pageBitmap, MmState.bitmapBytes, h.totalPages]; exact hx), h.mem x hx]

theorem SameButBitmap.bitmapBytes {s s' : MmState} (h : SameButBitmap s s') :
    s'.bitmapBytes = s.bitmapBytes := by rw [MmState.bitmapBytes, h.totalPages, MmState.bitmapBytes]

/-- `s'` manages the range `s` does, with its bitmap in the same place. -/
structure SameRange (s s' : MmState) : Prop where
  pageBitmap : s'.pageBitmap = s.pageBitmap
  totalPages : s'.totalPages = s.totalPages
  physBase : s'.physBase = s.physBase

theorem SameRange.refl (s : MmState) : SameRange s s := ⟨rfl, rfl, rfl⟩

theorem SameRange.trans {s₁ s₂ s₃ : MmState} (h : SameRange s₁ s₂) (h' : SameRange s₂ s₃) :
    SameRange s₁ s₃ :=
  ⟨h'.pageBitmap.trans h.pageBitmap, h'.totalPages.trans h.totalPages, h'.physBase.trans h.physBase⟩

theorem SameButBitmap.range {s s' : MmState} (h : SameButBitmap s s') : SameRange s s' :=
  ⟨h.pageBitmap, h.totalPages, h.physBase⟩

/-- **The pages `start, …, start + n - 1` were free and are now taken.** -/
structure Took (s : MmState) (start n : Nat) (s' : MmState) : Prop where
  inRange : start + n ≤ s.totalPages
  wasFree : ∀ idx, start ≤ idx → idx < start + n → s.pageBit idx = true
  bits : ∀ idx, s'.pageBit idx = (s.pageBit idx && !decide (start ≤ idx ∧ idx < start + n))
  count : s'.freePages = sub64 s.freePages n
  same : SameButBitmap s s'

/-- **Page `idx` is now free** (whether or not it was before). -/
structure Gave (s : MmState) (idx : Nat) (s' : MmState) : Prop where
  inRange : idx < s.totalPages
  bits : ∀ j, s'.pageBit j = (s.pageBit j || decide (j = idx))
  count : s'.freePages = (s.freePages + 1) % 2 ^ 64
  same : SameButBitmap s s'

theorem MmState.testBit_eq (s : MmState) (idx : Nat) :
    s.testBit (idx / 64) (idx % 64) = s.pageBit idx :=
  and_shift_ne_zero _ (Nat.mod_lt _ (by omega))

theorem MmState.word_setWord (s : MmState) (i j : Nat) (w : BitVec 64) :
    (s.setWord i w).word j = if j = i then w else s.word j := by
  unfold MmState.word MmState.setWord
  split
  case isTrue h =>
    subst h
    rw [load64_store64_same w.isLt, BitVec.ofNat_toNat, BitVec.setWidth_eq]
  case isFalse h =>
    rw [load64_congr (agreeOn_store64 (by dsimp only; omega))]

theorem SameButBitmap.setWord (s : MmState) {i : Nat} (w : BitVec 64) (hi : i < (s.totalPages + 63) / 64) :
    SameButBitmap s (s.setWord i w) where
  pageBitmap := rfl
  totalPages := rfl
  physBase := rfl
  heapStart := rfl
  heapSize := rfl
  mem := fun x hx => by
    unfold MmState.bitmapBytes at hx
    exact storeBytes_of_notMem (by omega)

/-- A write of word `i` changes the bits of that word and no others. -/
theorem MmState.pageBit_setWord (s : MmState) (i idx : Nat) (w : BitVec 64) :
    (s.setWord i w).pageBit idx = if idx / 64 = i then w.getLsbD (idx % 64) else s.pageBit idx := by
  rw [MmState.pageBit, MmState.word_setWord]
  split <;> rfl

theorem MmState.pageBit_clearBit (s : MmState) (idx j : Nat) :
    (s.clearBit (idx / 64) (idx % 64)).pageBit j = (s.pageBit j && !decide (j = idx)) := by
  rw [MmState.clearBit, MmState.pageBit_setWord]
  split
  case isTrue hw =>
    rw [getLsbD_clear, MmState.pageBit, hw]
    have : j % 64 = idx % 64 ↔ j = idx := by omega
    simp [this]
  case isFalse hw =>
    have : j ≠ idx := fun h => hw (by rw [h])
    simp [this]

theorem MmState.pageBit_setBit (s : MmState) (idx j : Nat) :
    (s.setBit (idx / 64) (idx % 64)).pageBit j = (s.pageBit j || decide (j = idx)) := by
  have hlt : j % 64 < 64 := Nat.mod_lt _ (by omega)
  rw [MmState.setBit, MmState.pageBit_setWord]
  split
  case isTrue hw =>
    rw [getLsbD_or_shift, MmState.pageBit, hw]
    have : j % 64 = idx % 64 ↔ j = idx := by omega
    simp [hlt, this]
  case isFalse hw =>
    have : j ≠ idx := fun h => hw (by rw [h])
    simp [this]

/-- `free_pages` is no part of the bitmap. -/
theorem MmState.pageBit_freePages (s : MmState) (f idx : Nat) :
    MmState.pageBit { s with freePages := f } idx = s.pageBit idx := rfl

theorem SameButBitmap.clearBit (s : MmState) {idx : Nat} (h : idx < s.totalPages) :
    SameButBitmap s (s.clearBit (idx / 64) (idx % 64)) :=
  SameButBitmap.setWord s _ (by omega)

theorem SameButBitmap.freePages {s s' : MmState} (h : SameButBitmap s s') (f : Nat) :
    SameButBitmap s { s' with freePages := f } :=
  ⟨h.pageBitmap, h.totalPages, h.physBase, h.heapStart, h.heapSize, h.mem⟩

/-- The single-page effect behind `pmm_mark_used` and `pmm_alloc`. -/
theorem took_clearBit (s : MmState) {idx : Nat} (h : idx < s.totalPages) (hbit : s.pageBit idx = true) :
    Took s idx 1 { s.clearBit (idx / 64) (idx % 64) with freePages := sub64 s.freePages 1 } where
  inRange := h
  wasFree := fun j h₁ h₂ => by
    have : j = idx := by omega
    exact this ▸ hbit
  bits := fun j => by
    rw [MmState.pageBit_freePages, MmState.pageBit_clearBit]
    congr 2
    exact decide_eq_decide.mpr (by omega)
  count := rfl
  same := (SameButBitmap.clearBit s h).freePages _

/-! ## What each function can do -/

/-- `pmm_mark_used` does nothing, or takes the one page at its address. -/
theorem pmmMarkUsed_cases (s : MmState) (paddr : Nat) :
    (pmmMarkUsed s paddr = s ∧
      ∀ idx, idx < s.totalPages → s.physBase ≤ paddr → idx = (paddr - s.physBase) / 4096 →
        s.pageBit idx = false) ∨
    ∃ s', pmmMarkUsed s paddr = s' ∧ s.physBase ≤ paddr ∧
      Took s ((paddr - s.physBase) / 4096) 1 s' := by
  unfold pmmMarkUsed
  by_cases hlow : paddr < s.physBase
  · refine Or.inl ⟨if_pos hlow, fun idx _ h => absurd h (by omega)⟩
  rw [if_neg hlow]
  dsimp only
  by_cases hhigh : s.totalPages ≤ (paddr - s.physBase) / 4096
  · refine Or.inl ⟨if_pos hhigh, fun idx h _ he => absurd h (by omega)⟩
  rw [if_neg hhigh, MmState.testBit_eq]
  by_cases hbit : s.pageBit ((paddr - s.physBase) / 4096) = true
  · rw [if_pos hbit]
    exact Or.inr ⟨_, rfl, by omega, took_clearBit s (by omega) hbit⟩
  · rw [if_neg hbit]
    refine Or.inl ⟨rfl, fun idx _ _ he => ?_⟩
    simpa [he] using hbit

/-- `pmm_free` does nothing, or frees the one page at its address. -/
theorem pmmFree_cases (s : MmState) (paddr : Nat) :
    (pmmFree s paddr = s ∧ (paddr < s.physBase ∨ s.totalPages ≤ (paddr - s.physBase) / 4096)) ∨
    (s.physBase ≤ paddr ∧ Gave s ((paddr - s.physBase) / 4096) (pmmFree s paddr)) := by
  unfold pmmFree
  by_cases hlow : paddr < s.physBase
  · exact Or.inl ⟨if_pos hlow, Or.inl hlow⟩
  rw [if_neg hlow]
  dsimp only
  by_cases hhigh : s.totalPages ≤ (paddr - s.physBase) / 4096
  · exact Or.inl ⟨if_pos hhigh, Or.inr hhigh⟩
  rw [if_neg hhigh]
  refine Or.inr ⟨by omega, by omega, fun j => ?_, rfl, ?_⟩
  · rw [MmState.pageBit_freePages, MmState.pageBit_setBit]
  · exact (SameButBitmap.setWord s _ (by omega)).freePages _

/-- The word scan from word `i`: all pages below `64 * i` are known taken. -/
theorem pmmAllocScan_cases (s : MmState) (k i : Nat) (hik : i + k = (s.totalPages + 63) / 64)
    (hlow : ∀ idx, idx < 64 * i → s.pageBit idx = false) :
    (pmmAllocScan s k i = (0, s) ∧ ∀ idx, idx < s.totalPages → s.pageBit idx = false) ∨
    ∃ idx s', pmmAllocScan s k i = ((s.physBase + idx * 4096) % 2 ^ 64, s') ∧
      Took s idx 1 s' ∧ ∀ j, j < idx → s.pageBit j = false := by
  induction k generalizing i with
  | zero => exact Or.inl ⟨rfl, fun idx h => hlow idx (by omega)⟩
  | succ k ih =>
    unfold pmmAllocScan
    by_cases hw : s.word i = 0#64
    · rw [if_neg (by simp [hw])]
      refine ih (i + 1) (by omega) fun idx h => ?_
      by_cases hi : idx < 64 * i
      · exact hlow idx hi
      · have : idx / 64 = i := by omega
        rw [MmState.pageBit, this, hw]
        simp
    · rw [if_pos hw]
      dsimp only
      have hctz : (s.word i).ctz.toNat < 64 := by
        simpa [BitVec.lt_def] using BitVec.ctz_lt_iff_ne_zero.mpr hw
      have hset : s.pageBit (i * 64 + (s.word i).ctz.toNat) = true := by
        rw [MmState.pageBit, show (i * 64 + (s.word i).ctz.toNat) / 64 = i by omega,
          show (i * 64 + (s.word i).ctz.toNat) % 64 = (s.word i).ctz.toNat by omega]
        exact BitVec.getLsbD_true_ctz_of_ne_zero hw
      have hbelow : ∀ j, j < i * 64 + (s.word i).ctz.toNat → s.pageBit j = false := by
        intro j hj
        by_cases hji : j < 64 * i
        · exact hlow j hji
        · rw [MmState.pageBit, show j / 64 = i by omega]
          exact BitVec.getLsbD_false_of_lt_ctz (by omega)
      by_cases hin : s.totalPages ≤ i * 64 + (s.word i).ctz.toNat
      · rw [if_pos hin]
        exact Or.inl ⟨rfl, fun idx h => hbelow idx (by omega)⟩
      · rw [if_neg hin]
        refine Or.inr ⟨i * 64 + (s.word i).ctz.toNat, _, rfl, ?_, hbelow⟩
        have htook := took_clearBit s (by omega) hset
        rwa [show (i * 64 + (s.word i).ctz.toNat) / 64 = i by omega,
          show (i * 64 + (s.word i).ctz.toNat) % 64 = (s.word i).ctz.toNat by omega] at htook

/-- **`pmm_alloc`** changes nothing and returns 0, or takes the lowest free page. It
    gives up only when the counter says so or when no page is free. -/
theorem pmmAlloc_cases (s : MmState) :
    (pmmAlloc s = (0, s) ∧
      (s.freePages = 0 ∨ ∀ idx, idx < s.totalPages → s.pageBit idx = false)) ∨
    ∃ idx s', pmmAlloc s = ((s.physBase + idx * 4096) % 2 ^ 64, s') ∧
      Took s idx 1 s' ∧ ∀ j, j < idx → s.pageBit j = false := by
  unfold pmmAlloc
  by_cases hf : s.freePages = 0
  · exact Or.inl ⟨if_pos hf, Or.inl hf⟩
  rw [if_neg hf]
  rcases pmmAllocScan_cases s ((s.totalPages + 63) / 64) 0 (by omega) (fun idx h => absurd h (by omega)) with h | h
  · exact Or.inl ⟨h.1, Or.inr h.2⟩
  · exact Or.inr h

theorem runFree_iff {s : MmState} {start n : Nat} (h : start + n < 2 ^ 64) :
    runFree s start n = true ↔ ∀ idx, start ≤ idx → idx < start + n → s.pageBit idx = true := by
  rw [runFree, List.all_eq_true]
  constructor
  · intro hall idx h₁ h₂
    have := hall (idx - start) (List.mem_range.mpr (by omega))
    rwa [show start + (idx - start) = idx by omega, Nat.mod_eq_of_lt (by omega : idx < 2 ^ 64),
      MmState.testBit_eq] at this
  · intro hall j hj
    have hj := List.mem_range.mp hj
    rw [Nat.mod_eq_of_lt (by omega : start + j < 2 ^ 64), MmState.testBit_eq]
    exact hall (start + j) (by omega) (by omega)

/-- The marking loop of `pmm_alloc_n` clears the bits of the run, one at a time. -/
theorem takeRun_spec (s : MmState) (start n : Nat) (h : start + n ≤ s.totalPages)
    (ht : s.totalPages < 2 ^ 64) :
    (∀ idx, (takeRun s start n).pageBit idx =
      (s.pageBit idx && !decide (start ≤ idx ∧ idx < start + n))) ∧
    SameButBitmap s (takeRun s start n) := by
  induction n with
  | zero =>
    refine ⟨fun idx => ?_, SameButBitmap.refl s⟩
    have hempty : decide (start ≤ idx ∧ idx < start + 0) = false := decide_eq_false (by omega)
    rw [hempty]
    simp [takeRun]
  | succ n ih =>
    obtain ⟨hbits, hsame⟩ := ih (by omega)
    have hstep : takeRun s start (n + 1) =
        (takeRun s start n).clearBit ((start + n) / 64) ((start + n) % 64) := by
      rw [takeRun, List.range_succ, List.foldl_append, List.foldl_cons, List.foldl_nil,
        Nat.mod_eq_of_lt (by omega : start + n < 2 ^ 64), takeRun]
    rw [hstep]
    refine ⟨fun idx => ?_, hsame.trans (SameButBitmap.clearBit _ (by rw [hsame.totalPages]; omega))⟩
    rw [MmState.pageBit_clearBit, hbits, Bool.and_assoc, ← Bool.not_or, ← Bool.decide_or]
    congr 2
    exact decide_eq_decide.mpr (by omega)

/-- The start loop from `start`: no run begins below it. -/
theorem pmmAllocNScan_cases (s : MmState) (n : Nat) (ht : s.totalPages < 2 ^ 64)
    (k start : Nat) (hk : start + k + n = s.totalPages + 1)
    (hnone : ∀ st, st < start → ¬∀ idx, st ≤ idx → idx < st + n → s.pageBit idx = true) :
    (pmmAllocNScan s n k start = (0, s) ∧
      ∀ st, st + n ≤ s.totalPages → ¬∀ idx, st ≤ idx → idx < st + n → s.pageBit idx = true) ∨
    ∃ st s', pmmAllocNScan s n k start = ((s.physBase + st * 4096) % 2 ^ 64, s') ∧
      Took s st n s' ∧
      ∀ st', st' < st → ¬∀ idx, st' ≤ idx → idx < st' + n → s.pageBit idx = true := by
  induction k generalizing start with
  | zero => exact Or.inl ⟨rfl, fun st h => hnone st (by omega)⟩
  | succ k ih =>
    unfold pmmAllocNScan
    have hfit : start + n ≤ s.totalPages := by omega
    have hiff : runFree s start n = true ↔ _ := runFree_iff (by omega)
    by_cases hrun : runFree s start n = true
    · rw [if_pos hrun]
      obtain ⟨hbits, hsame⟩ := takeRun_spec s start n hfit ht
      exact Or.inr ⟨start, _, rfl, ⟨hfit, hiff.mp hrun, hbits, rfl, hsame.freePages _⟩, hnone⟩
    · rw [if_neg hrun]
      refine ih (start + 1) (by omega) fun st hst => ?_
      by_cases he : st = start
      · subst he; exact fun hall => hrun (hiff.mpr hall)
      · exact hnone st (by omega)

/-- **`pmm_alloc_n(n)`**, for `n` at most `total_pages`, changes nothing and returns 0,
    or takes the lowest run of `n` free pages. -/
theorem pmmAllocN_cases (s : MmState) {n : Nat} (hn : n ≤ s.totalPages) (ht : s.totalPages < 2 ^ 64) :
    (pmmAllocN s n = (0, s) ∧ (n = 0 ∨ (n = 1 ∧ s.freePages = 0) ∨
      ∀ st, st + n ≤ s.totalPages → ¬∀ idx, st ≤ idx → idx < st + n → s.pageBit idx = true)) ∨
    (0 < n ∧ ∃ st s', pmmAllocN s n = ((s.physBase + st * 4096) % 2 ^ 64, s') ∧
      Took s st n s' ∧
      ∀ st', st' < st → ¬∀ idx, st' ≤ idx → idx < st' + n → s.pageBit idx = true) := by
  unfold pmmAllocN
  by_cases h0 : n = 0
  · exact Or.inl ⟨if_pos h0, Or.inl h0⟩
  rw [if_neg h0]
  by_cases h1 : n = 1
  · subst h1
    rw [if_pos rfl]
    rcases pmmAlloc_cases s with ⟨he, hf | hall⟩ | ⟨idx, s', he, htook, hlow⟩
    · exact Or.inl ⟨he, Or.inr (Or.inl ⟨rfl, hf⟩)⟩
    · refine Or.inl ⟨he, Or.inr (Or.inr fun st hst hfree => ?_)⟩
      have := hfree st (by omega) (by omega)
      rw [hall st (by omega)] at this
      exact Bool.false_ne_true this
    · refine Or.inr ⟨by omega, idx, s', he, htook, fun st hst hfree => ?_⟩
      have := hfree st (by omega) (by omega)
      rw [hlow st hst] at this
      exact Bool.false_ne_true this
  · rw [if_neg h1]
    have hb : sub64 s.totalPages n = s.totalPages - n := by unfold sub64; omega
    rw [hb]
    rcases pmmAllocNScan_cases s n ht (s.totalPages - n + 1) 0 (by omega)
      (fun st h => absurd h (by omega)) with ⟨he, hnone⟩ | hsome
    · exact Or.inl ⟨he, Or.inr (Or.inr hnone)⟩
    · exact Or.inr ⟨by omega, hsome⟩

/-! `heap_start` is none of the page allocator's business, whatever it is asked for. -/

theorem pmmAllocScan_heapStart (s : MmState) (k i : Nat) :
    (pmmAllocScan s k i).2.heapStart = s.heapStart := by
  induction k generalizing i with
  | zero => rfl
  | succ k ih =>
    unfold pmmAllocScan
    split
    · dsimp only
      split <;> rfl
    · exact ih (i + 1)

theorem takeRun_heapStart (s : MmState) (start n : Nat) :
    (takeRun s start n).heapStart = s.heapStart := by
  unfold takeRun
  induction n with
  | zero => rfl
  | succ n ih =>
    rw [List.range_succ, List.foldl_append]
    exact ih

theorem pmmAllocNScan_heapStart (s : MmState) (n k start : Nat) :
    (pmmAllocNScan s n k start).2.heapStart = s.heapStart := by
  induction k generalizing start with
  | zero => rfl
  | succ k ih =>
    unfold pmmAllocNScan
    split
    · exact takeRun_heapStart s start n
    · exact ih (start + 1)

theorem pmmAllocN_heapStart (s : MmState) (n : Nat) :
    (pmmAllocN s n).2.heapStart = s.heapStart := by
  unfold pmmAllocN pmmAlloc
  split
  · rfl
  split
  · split
    · rfl
    · exact pmmAllocScan_heapStart s _ _
  · exact pmmAllocNScan_heapStart s n _ _

end Crimson.Mm
