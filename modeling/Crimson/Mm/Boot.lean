import Crimson.Mm.HeapSafety
import Crimson.Mm.PmmExclusive

/-!
# Two allocators over one region (`crimson_init_memory`)

At boot `pmm_init` and `kmalloc_init` are both given the region from `__heap_start` to
`__heap_end` (`linker.ld`): the page allocator puts its bitmap at the start of the region
it manages, and the heap puts the header of its first block in the same place. That block
covers everything the page allocator will hand out, and its header lies on the first
three words of the bitmap.

A run of both allocators' calls is nonetheless safe as long as `kmalloc` never takes that
block, and lives off the pages it gets from `pmm_alloc_n`: `separate_of_run`. The
invariant, `Coupled`, is the heap's (`Tiled`, up to the first block) together with the
page allocator's (`Held`, with the heap's pages among those held).
-/

set_option autoImplicit false

namespace Crimson.Mm

open Crimson.Lib

/-! ## The layout and the run -/

/-- `__heap_start`, for a kernel of `k` pages: the stack and the page tables lie between. -/
def linkHeapStart (k : Nat) : Nat := 0x40080000 + k * 4096 + 0x100000 + 0x400000

/-- `__heap_end`. -/
def linkHeapEnd : Nat := 0x50080000

def crimsonInitMemory (k : Nat) (s : MmState) : MmState :=
  kmallocInit (pmmInit (k * 4096) s (linkHeapStart k) (linkHeapEnd - linkHeapStart k))
    (linkHeapStart k) linkHeapEnd

/-- The heap's run, beside the pages its other clients hold. -/
structure MemRun where
  heap : HeapRun
  clients : List (Finset Nat)

inductive MemOp where
  | kmalloc (size : Nat)
  | kfree (ptr : Nat)
  | pmmAlloc
  | pmmAllocN (n : Nat)
  | pmmFree (paddr : Nat)
deriving DecidableEq, Repr

def MemRun.holdings (r : MemRun) : Holdings := { mm := r.heap.mm, live := r.clients }

/-- The run after a call of the page allocator that left these holdings. -/
def MemRun.withHoldings (r : MemRun) (h : Holdings) : MemRun :=
  { heap := { r.heap with mm := h.mm }, clients := h.live }

/-- One call. `kfree` and `pmm_free` are called on what is live. -/
def memStep (r : MemRun) : MemOp → Option MemRun
  | .kmalloc size => (heapStep r.heap (.kmalloc size)).map fun h => { r with heap := h }
  | .kfree ptr => (heapStep r.heap (.kfree ptr)).map fun h => { r with heap := h }
  | .pmmAlloc => some (r.withHoldings (r.holdings.grant (pmmAlloc r.heap.mm) 1))
  | .pmmAllocN n => some (r.withHoldings (r.holdings.grant (pmmAllocN r.heap.mm n) n))
  | .pmmFree paddr =>
    if ∃ pages ∈ r.clients, paddr ∈ pages then
      some (r.withHoldings
        { mm := pmmFree r.heap.mm paddr, live := r.clients.map fun pages => pages.erase paddr })
    else none

def bootRun (k : Nat) (s : MmState) : MemRun where
  heap := { mm := crimsonInitMemory k s, live := [], owned := [] }
  clients := []

/-- The bytes of an allocation, header and payload. -/
def allocBytes (p : Nat × Nat) : Set Nat := Set.Ico (p.1 - 24) (p.1 + p.2)

/-- **The two allocators keep apart**: no allocation of the heap's meets a page of another
    client's or the page bitmap. -/
structure Separate (r : MemRun) : Prop where
  pages : ∀ p ∈ r.heap.live, ∀ A ∈ r.clients, Disjoint (allocBytes p) (pageBytes A)
  bitmap : ∀ p ∈ r.heap.live, Disjoint (allocBytes p)
    (Set.Ico r.heap.mm.pageBitmap (r.heap.mm.pageBitmap + r.heap.mm.bitmapBytes))

/-- The two states have the same bitmap words. -/
def SameWords (s s' : MmState) : Prop := ∀ i, i < (s.totalPages + 63) / 64 → s'.word i = s.word i

/-- The bitmap is written by the page allocator alone: not by `kfree`, and by `kmalloc`
    only through the `pmm_alloc_n` it calls. -/
def BitmapByPmm (r : MemRun) : MemOp → MemRun → Prop
  | .kmalloc size, r' => SameWords r.heap.mm r'.heap.mm ∨
    SameWords (pmmAllocN r.heap.mm (pagesNeeded (alignUp size 16))).2 r'.heap.mm
  | .kfree _, r' => SameWords r.heap.mm r'.heap.mm
  | _, _ => True

/-- `kmalloc` is called with a size that does not wrap, finds a block other than the first
    one if it finds any, and asks for no more pages than there are; `kfree` merges
    physical neighbours only. -/
def AvoidsFirstBlock (r : MemRun) : MemOp → Prop
  | .kmalloc size =>
    NoWrap size ∧
    firstFit r.heap.mm.mem (alignUp size 16) (2 ^ 64) r.heap.mm.heapStart ≠
      some (.found r.heap.mm.physBase) ∧
    (firstFit r.heap.mm.mem (alignUp size 16) (2 ^ 64) r.heap.mm.heapStart = some .exhausted →
      pagesNeeded (alignUp size 16) ≤ r.heap.mm.totalPages)
  | .kfree ptr => MergesAdjacent r.heap (.kfree ptr)
  | .pmmAllocN n => n ≤ r.heap.mm.totalPages
  | _ => True

/-! ## The state at boot -/

/-- The bits of the bitmap, as bits of the words in memory. -/
theorem MmState.pageBit_eq_testBit (s : MmState) (idx : Nat) :
    s.pageBit idx = (load64 s.mem (s.pageBitmap + 8 * (idx / 64))).testBit (idx % 64) := by
  have hlt : idx % 64 < 64 := Nat.mod_lt _ (by omega)
  rw [MmState.pageBit, MmState.word, BitVec.getLsbD_ofNat, decide_eq_true hlt, Bool.true_and]

/-- What the proof uses of the state at boot: where the allocators stand, and which bits
    are clear, the first block's header being what the first three words now hold. -/
structure BootState (s : MmState) : Prop where
  bitmap : s.pageBitmap = s.physBase
  start : s.heapStart = s.physBase
  base : 0 < s.physBase
  some : 0 < s.totalPages
  pages : s.totalPages ≤ 65536
  top : s.physBase + s.totalPages * 4096 ≤ 2 ^ 32
  first : ∀ idx, idx < 3 → s.pageBit idx = false
  used : ∀ idx, 64 ≤ idx → idx < 96 → s.pageBit idx = false
  next : ∀ idx, 128 ≤ idx → idx < 192 → s.pageBit idx = false

/-- The header `kmalloc_init` writes, as the words of memory under it. -/
theorem kmallocInit_words (s : MmState) (heapStart heapEnd : Nat) :
    load64 (kmallocInit s heapStart heapEnd).mem heapStart = sub64 (sub64 heapEnd heapStart) 24 ∧
    load32 (kmallocInit s heapStart heapEnd).mem (heapStart + 8) = 0 ∧
    load64 (kmallocInit s heapStart heapEnd).mem (heapStart + 16) = 0 := by
  have hlt : sub64 (sub64 heapEnd heapStart) 24 < 2 ^ 64 := Nat.mod_lt _ (by omega)
  simp (disch := omega) only [kmallocInit, setMagic, setNext, setUsed, setSize,
    load64_store32_disjoint, load64_store64_disjoint, load64_store64_same,
    load32_store32_disjoint, load32_store64_disjoint, load32_store32_same, and_self]

theorem kmallocInit_range (s : MmState) (heapStart heapEnd : Nat) :
    SameRange s (kmallocInit s heapStart heapEnd) := ⟨rfl, rfl, rfl⟩

theorem kmallocInit_heapStart (s : MmState) (heapStart heapEnd : Nat) :
    (kmallocInit s heapStart heapEnd).heapStart = heapStart := rfl

theorem bootState_crimsonInitMemory (k : Nat) (s : MmState) (hk : linkHeapStart k < linkHeapEnd) :
    BootState (crimsonInitMemory k s) := by
  unfold crimsonInitMemory
  unfold linkHeapEnd linkHeapStart at *
  generalize hstart : 0x40080000 + k * 4096 + 0x100000 + 0x400000 = start at hk
  have halign : alignUp start 4096 = start := by unfold alignUp; omega
  have hinit := @pmmInit_spec (k * 4096) s start (0x50080000 - start) (by rw [halign]; omega)
  generalize pmmInit (k * 4096) s start (0x50080000 - start) = u at hinit
  obtain ⟨htotal, hbase, hbitmap, _, _⟩ := hinit
  obtain ⟨hword₀, hword₁, hword₂⟩ := kmallocInit_words u start 0x50080000
  have hrange := kmallocInit_range u start 0x50080000
  have hheap : (kmallocInit u start 0x50080000).heapStart = start := rfl
  generalize kmallocInit u start 0x50080000 = t at *
  rw [halign] at hbase hbitmap
  have hbase := hrange.physBase.trans hbase
  have hbitmap := hrange.pageBitmap.trans hbitmap
  have htotal := hrange.totalPages.trans htotal
  have hbits : ∀ idx, t.pageBit idx = (load64 t.mem (start + 8 * (idx / 64))).testBit (idx % 64) := by
    intro idx
    rw [MmState.pageBit_eq_testBit, hbitmap]
  refine ⟨by omega, by omega, by omega, by omega, by omega, by omega, ?_, ?_, ?_⟩
  · intro idx hidx
    have hdiv : idx / 64 = 0 := by omega
    have hmod : idx % 64 = idx := by omega
    have hval : sub64 (sub64 0x50080000 start) 24 = (0xFB00 - k) * 4096 - 24 := by
      unfold sub64
      omega
    rw [hbits, hdiv, hmod, Nat.mul_zero, Nat.add_zero, hword₀, hval,
      Nat.testBit_eq_decide_div_mod_eq, decide_eq_false_iff_not]
    have hcases : idx = 0 ∨ idx = 1 ∨ idx = 2 := by omega
    rcases hcases with rfl | rfl | rfl <;> omega
  · intro idx h₁ h₂
    have hdiv : idx / 64 = 1 := by omega
    rw [hbits, hdiv, Nat.mul_one, load64_eq, hword₁, Nat.zero_add, Nat.testBit_two_pow_mul,
      decide_eq_false (by omega), Bool.false_and]
  · intro idx h₁ h₂
    have hdiv : idx / 64 = 2 := by omega
    rw [hbits, hdiv, hword₂, Nat.zero_testBit]

/-! ## The invariant -/

/-- The pages of an owned range. -/
def heapPages (o : Nat × Nat) : Finset Nat := pagesFrom o.1 (o.2 / 4096)

/-- Up to the first block, the heap is tiled by pages that the page allocator has handed
    out to it alone; and the bits under the first block's header stay clear. -/
structure Coupled (s₀ : MmState) (r : MemRun) (bs : List Block) : Prop where
  tiled : Tiled r.heap bs s₀.physBase
  held : Held s₀ { mm := r.heap.mm, live := r.heap.owned.map heapPages ++ r.clients }
  whole : ∀ o ∈ r.heap.owned, 4096 ∣ o.2
  dark : ∀ idx, idx < 192 → s₀.pageBit idx = false → r.heap.mm.pageBit idx = false

variable {s₀ : MmState} {r : MemRun} {bs : List Block}

theorem mem_pageBytes_heapPages {o : Nat × Nat} (ho : 4096 ∣ o.2) {x : Nat} (h₁ : o.1 ≤ x)
    (h₂ : x < o.1 + o.2) : x ∈ pageBytes (heapPages o) := by
  obtain ⟨n, hn⟩ := ho
  refine ⟨o.1 + (x - o.1) / 4096 * 4096, Finset.mem_image.mpr ⟨(x - o.1) / 4096, ?_, rfl⟩, ?_⟩
  · rw [Finset.mem_range]
    omega
  · omega

/-- A byte the heap owns lies in a page that the heap was given, past the bitmap. -/
theorem Coupled.owned_page (hc : Coupled s₀ r bs) (hs₀ : BootState s₀) {x : Nat}
    (hx : x ∈ rangeBytes r.heap.owned) :
    ∃ A ∈ r.heap.owned.map heapPages, x ∈ pageBytes A ∧ s₀.physBase + 12288 ≤ x ∧
      x < s₀.physBase + s₀.totalPages * 4096 := by
  obtain ⟨o, ho, h₁, h₂⟩ := hx
  have hxo := mem_pageBytes_heapPages (hc.whole o ho) h₁ h₂
  have hmem : heapPages o ∈ r.heap.owned.map heapPages := List.mem_map.mpr ⟨o, ho, rfl⟩
  refine ⟨heapPages o, hmem, hxo, ?_⟩
  obtain ⟨p, hp, hpx⟩ := hxo
  obtain ⟨idx, hidx, rfl, _, hset⟩ := hc.held.held _ (List.mem_append_left _ hmem) p hp
  have hlow : ¬idx < 3 := by
    intro hlt
    rw [hs₀.first idx hlt] at hset
    cases hset
  omega

/-- What the heap's blocks are made of is what the heap owns. -/
theorem Coupled.block_owned (hc : Coupled s₀ r bs) {b : Block} (hb : b ∈ bs) {x : Nat}
    (h₁ : b.addr ≤ x) (h₂ : x < b.stop) : x ∈ rangeBytes r.heap.owned :=
  hc.tiled.tiles ▸ ⟨b, hb, h₁, h₂⟩

theorem Coupled.separate (hc : Coupled s₀ r bs) (hs₀ : BootState s₀) : Separate r := by
  have howned : ∀ p ∈ r.heap.live, ∀ x ∈ allocBytes p, x ∈ rangeBytes r.heap.owned := by
    intro p hp x hx
    obtain ⟨b, hb, _, hpb, hsize, _⟩ := hc.tiled.live p hp
    simp only [allocBytes, Set.mem_Ico] at hx
    refine hc.block_owned hb (by omega) ?_
    unfold Block.stop
    omega
  have htotal := hc.held.same.totalPages
  have hbitmap := hc.held.same.pageBitmap
  have hboot := hs₀.bitmap
  have hpages := hs₀.pages
  dsimp only at htotal hbitmap
  refine ⟨?_, ?_⟩
  · intro p hp A hA
    refine Set.disjoint_left.mpr fun x hx hxA => ?_
    obtain ⟨B, hB, hxB, _⟩ := hc.owned_page hs₀ (howned p hp x hx)
    -- `A` and `B` are two different holdings, and pages lie on a grid.
    have hdisj := (List.pairwise_append.mp hc.held.disjoint).2.2 B hB A hA
    obtain ⟨q, hq, hqx⟩ := hxA
    obtain ⟨q', hq', hqx'⟩ := hxB
    obtain ⟨i, _, rfl, _⟩ := hc.held.held A (List.mem_append_right _ hA) q hq
    obtain ⟨j, _, rfl, _⟩ := hc.held.held B (List.mem_append_left _ hB) q' hq'
    rw [page_eq_of_byte hqx hqx'] at hq
    exact Finset.disjoint_left.mp hdisj hq' hq
  · intro p hp
    refine Set.disjoint_left.mpr fun x hx hin => ?_
    obtain ⟨_, _, _, hlow, _⟩ := hc.owned_page hs₀ (howned p hp x hx)
    rw [Set.mem_Ico, MmState.bitmapBytes] at hin
    omega

/-- The header of the first block reads as that of a free block at the end of the list. -/
theorem Coupled.firstBlock (hc : Coupled s₀ r bs) (hs₀ : BootState s₀) :
    hdrUsed r.heap.mm.mem s₀.physBase = 0 ∧ hdrNext r.heap.mm.mem s₀.physBase = 0 := by
  have hbitmap := hc.held.same.pageBitmap
  have hboot := hs₀.bitmap
  dsimp only at hbitmap
  have hbits : ∀ i j, i < 64 → j < 3 →
      (load64 r.heap.mm.mem (s₀.physBase + 8 * j)).testBit i = r.heap.mm.pageBit (64 * j + i) := by
    intro i j hi hj
    have hdiv : (64 * j + i) / 64 = j := by omega
    have hmod : (64 * j + i) % 64 = i := by omega
    rw [MmState.pageBit_eq_testBit, hbitmap, hboot, hdiv, hmod]
  constructor
  · have hlow : load32 r.heap.mm.mem (s₀.physBase + 8) =
        load64 r.heap.mm.mem (s₀.physBase + 8 * 1) % 2 ^ 32 := by
      have hlt : load32 r.heap.mm.mem (s₀.physBase + 8) < 2 ^ 32 := load32_lt
      rw [Nat.mul_one, load64_eq]
      omega
    rw [hdrUsed, hlow]
    refine Nat.eq_of_testBit_eq fun i => ?_
    rw [Nat.testBit_mod_two_pow, Nat.zero_testBit]
    by_cases hi : i < 32
    · rw [hbits i 1 (by omega) (by omega),
        hc.dark _ (by omega) (hs₀.used _ (by omega) (by omega)), Bool.and_false]
    · rw [decide_eq_false hi, Bool.false_and]
  · refine Nat.eq_of_testBit_eq fun i => ?_
    rw [Nat.zero_testBit]
    by_cases hi : i < 64
    · have hbit := hbits i 2 hi (by omega)
      rw [hc.dark _ (by omega) (hs₀.next _ (by omega) (by omega))] at hbit
      exact hbit
    · refine Nat.testBit_lt_two_pow (lt_of_lt_of_le load64_lt ?_)
      exact Nat.pow_le_pow_right (by omega) (by omega)

/-! ## What a step changes -/

/-- The managed range and everything below its fourth page are as they were. Writes to
    what the heap owns are of this kind. -/
structure LowSame (s s' : MmState) : Prop where
  range : SameRange s s'
  mem : ∀ x, x < s.physBase + 12288 → s'.mem x = s.mem x

theorem LowSame.word {s s' : MmState} (h : LowSame s s') (hbitmap : s.pageBitmap = s.physBase)
    {i : Nat} (hi : i < 1536) : s'.word i = s.word i := by
  unfold MmState.word
  rw [h.range.pageBitmap, load64_congr]
  intro x _ hx
  exact h.mem x (by omega)

theorem LowSame.pageBit {s s' : MmState} (h : LowSame s s') (hbitmap : s.pageBitmap = s.physBase)
    {idx : Nat} (hidx : idx < 98304) : s'.pageBit idx = s.pageBit idx := by
  rw [MmState.pageBit, MmState.pageBit, h.word hbitmap (by omega)]

/-- The page allocator's side of the invariant survives writes to the heap. -/
theorem Held.lowSame (hs₀ : BootState s₀) {h : Holdings} (hh : Held s₀ h) {s : MmState}
    (hlow : LowSame h.mm s) : Held s₀ { h with mm := s } ∧ SameWords h.mm s := by
  have hbitmap : h.mm.pageBitmap = h.mm.physBase := by
    rw [hh.same.pageBitmap, hh.same.physBase, hs₀.bitmap]
  have hpages := hs₀.pages
  refine ⟨hh.frame hlow.range (fun idx hidx => hlow.pageBit hbitmap (by omega)) (List.Perm.refl _), ?_⟩
  intro i hi
  rw [hh.same.totalPages] at hi
  exact hlow.word hbitmap (by omega)

theorem lowSame_dark (hs₀ : BootState s₀) {s s' : MmState} (hrange : SameRange s₀ s)
    (hdark : ∀ idx, idx < 192 → s₀.pageBit idx = false → s.pageBit idx = false)
    (hlow : LowSame s s') : ∀ idx, idx < 192 → s₀.pageBit idx = false → s'.pageBit idx = false := by
  have hbitmap : s.pageBitmap = s.physBase := by rw [hrange.pageBitmap, hrange.physBase, hs₀.bitmap]
  intro idx hidx hbit
  rw [hlow.pageBit hbitmap (by omega)]
  exact hdark idx hidx hbit

/-- Where the heap's blocks are, and what the first block's place is not. -/
theorem Coupled.block_low (hc : Coupled s₀ r bs) (hs₀ : BootState s₀) {b : Block} (hb : b ∈ bs) :
    s₀.physBase + 12288 ≤ b.addr := by
  have hpos : b.addr < b.stop := by unfold Block.stop; omega
  obtain ⟨_, _, _, hlow, _⟩ := hc.owned_page hs₀ (hc.block_owned hb le_rfl hpos)
  exact hlow

/-- A change of memory inside what the heap owns. -/
theorem Coupled.heapStep (hc : Coupled s₀ r bs) (hs₀ : BootState s₀) {h : HeapRun} {bs' : List Block}
    (ht : Tiled h bs' s₀.physBase) (howned : h.owned = r.heap.owned) (hlow : LowSame r.heap.mm h.mm) :
    Coupled s₀ { r with heap := h } bs' ∧ SameWords r.heap.mm h.mm := by
  obtain ⟨hheld, hwords⟩ := hc.held.lowSame hs₀ hlow
  refine ⟨⟨ht, ?_, ?_, lowSame_dark hs₀ hc.held.same hc.dark hlow⟩, hwords⟩
  · dsimp only
    rw [howned]
    exact hheld
  · intro o ho
    exact hc.whole o (howned ▸ ho)

theorem coupled_kfree (hc : Coupled s₀ r bs) (hs₀ : BootState s₀) {ptr : Nat}
    (hadj : MergesAdjacent r.heap (.kfree ptr)) {r' : MemRun}
    (hstep : memStep r (.kfree ptr) = some r') :
    (∃ bs', Coupled s₀ r' bs') ∧ SameWords r.heap.mm r'.heap.mm := by
  simp only [memStep, Option.map_eq_some_iff] at hstep
  obtain ⟨h, hstep, rfl⟩ := hstep
  obtain ⟨hused, _⟩ := hc.firstBlock hs₀
  have hend : s₀.physBase = 0 ∨
      (hdrUsed r.heap.mm.mem s₀.physBase = 0 ∧ ∀ b ∈ bs, s₀.physBase ≠ b.stop) := by
    refine Or.inr ⟨hused, fun b hb he => ?_⟩
    have hlow := hc.block_low hs₀ hb
    unfold Block.stop at he
    omega
  obtain ⟨bs', ht⟩ := tiled_kfree hc.tiled hend hadj hstep
  simp only [Mm.heapStep] at hstep
  split at hstep
  case isFalse => cases hstep
  case isTrue hptr =>
    cases hstep
    obtain ⟨l₁, b, l₂, rfl, _, rfl, htop⟩ := hc.tiled.block_of_live hptr
    have hlow := hc.block_low hs₀ (b := b) (by simp)
    have hbase : r.heap.mm.physBase = s₀.physBase := hc.held.same.physBase
    have hsame : LowSame r.heap.mm (kfree r.heap.mm (b.addr + 24)) := by
      refine ⟨?_, fun x hx => kfree_frame _ htop (by omega)⟩
      rw [kfree_heapStart]
      exact ⟨rfl, rfl, rfl⟩
    obtain ⟨hc', hwords⟩ := hc.heapStep hs₀ ht rfl hsame
    exact ⟨⟨bs', hc'⟩, hwords⟩

/-! ## Calls of the page allocator -/

/-- The page allocator writes its bitmap, and the heap owns nothing there. -/
theorem Coupled.owned_same (hc : Coupled s₀ r bs) (hs₀ : BootState s₀) {s : MmState}
    (hsame : SameButBitmap r.heap.mm s) : ∀ x ∈ rangeBytes r.heap.owned, s.mem x = r.heap.mm.mem x := by
  intro x hx
  obtain ⟨_, _, _, hlow, _⟩ := hc.owned_page hs₀ hx
  have hpages := hs₀.pages
  have hboot := hs₀.bitmap
  have hbitmap := hc.held.same.pageBitmap
  have htotal := hc.held.same.totalPages
  dsimp only at hbitmap htotal
  refine hsame.mem x ?_
  unfold MmState.bitmapBytes
  omega

theorem Took.dark {s s' : MmState} {st n : Nat} (htook : Took s st n s')
    (hdark : ∀ idx, idx < 192 → s₀.pageBit idx = false → s.pageBit idx = false) :
    ∀ idx, idx < 192 → s₀.pageBit idx = false → s'.pageBit idx = false := by
  intro idx hidx hbit
  rw [htook.bits, hdark idx hidx hbit, Bool.false_and]

/-- Where a run of free pages is. -/
theorem Coupled.took_addr (hc : Coupled s₀ r bs) (hs₀ : BootState s₀) {st n : Nat} {s : MmState}
    (htook : Took r.heap.mm st n s) (hn : 0 < n) :
    (r.heap.mm.physBase + st * 4096) % 2 ^ 64 = s₀.physBase + st * 4096 ∧ 3 ≤ st ∧
      st + n ≤ s₀.totalPages := by
  have hin := htook.inRange
  have hbase := hc.held.same.physBase
  have htotal := hc.held.same.totalPages
  have htop := hs₀.top
  dsimp only at hbase htotal
  refine ⟨by rw [hbase]; exact Nat.mod_eq_of_lt (by omega), ?_, by omega⟩
  by_contra hlt
  have hclear := hc.dark st (by omega) (hs₀.first st (by omega))
  rw [htook.wasFree st le_rfl (by omega)] at hclear
  cases hclear

/-- A grant of free pages to another client. -/
theorem Coupled.grant (hc : Coupled s₀ r bs) (hs₀ : BootState s₀) {st n : Nat} {s : MmState}
    (htook : Took r.heap.mm st n s) (hn : 0 < n) :
    Coupled s₀ (r.withHoldings (r.holdings.grant ((r.heap.mm.physBase + st * 4096) % 2 ^ 64, s) n)) bs := by
  have htop := hs₀.top
  obtain ⟨haddr, _, _⟩ := hc.took_addr hs₀ htook hn
  have hheld := hc.held.took htook (by omega)
  rw [haddr] at hheld ⊢
  unfold Holdings.grant at hheld ⊢
  have hne : s₀.physBase + st * 4096 ≠ 0 := by
    have := hs₀.base
    omega
  simp only [if_neg hne] at hheld ⊢
  refine ⟨hc.tiled.frame (hc.owned_same hs₀ htook.same) htook.same.heapStart, ?_, hc.whole,
    htook.dark hc.dark⟩
  exact hheld.frame (SameRange.refl _) (fun _ _ => rfl) List.perm_middle

theorem coupled_grant_fail (hc : Coupled s₀ r bs) (n : Nat) :
    Coupled s₀ (r.withHoldings (r.holdings.grant (0, r.heap.mm) n)) bs := hc

/-- Another client's page is freed. -/
theorem Coupled.pmmFree (hc : Coupled s₀ r bs) (hs₀ : BootState s₀) {A : Finset Nat} (hA : A ∈ r.clients)
    {paddr : Nat} (hp : paddr ∈ A) :
    Coupled s₀ (r.withHoldings
      { mm := Mm.pmmFree r.heap.mm paddr, live := r.clients.map fun pages => pages.erase paddr }) bs := by
  have hA' : A ∈ r.heap.owned.map heapPages ++ r.clients := List.mem_append_right _ hA
  obtain ⟨idx, hidx, hpe, _, hset⟩ := hc.held.held A hA' paddr hp
  have hgave := hc.held.pmmFree_gave hidx hpe
  have hheld := hc.held.gave hA' hp
  -- The page is the client's, so the heap's own pages stay as they are.
  have hmine : (r.heap.owned.map heapPages).map (fun pages => pages.erase paddr) =
      r.heap.owned.map heapPages := by
    refine (List.map_congr_left fun B hB => ?_).trans (List.map_id _)
    have hdisj := (List.pairwise_append.mp hc.held.disjoint).2.2 B hB A hA
    exact Finset.erase_eq_of_notMem fun hpB => Finset.disjoint_left.mp hdisj hpB hp
  dsimp only at hheld hgave
  rw [List.map_append, hmine] at hheld
  refine ⟨hc.tiled.frame (hc.owned_same hs₀ hgave.same) hgave.same.heapStart, hheld, hc.whole, ?_⟩
  intro j hj hbit
  have hne : j ≠ idx := by
    rintro rfl
    rw [hset] at hbit
    cases hbit
  have hclear := hc.dark j hj hbit
  unfold MemRun.withHoldings
  dsimp only
  rw [hgave.bits, hclear, decide_eq_false hne, Bool.or_false]

/-! ## Calls of `kmalloc` -/

/-- The walk of `kmalloc`: what is left when no block of the heap's own pages fits is up to
    the first block. -/
theorem Coupled.walk (hc : Coupled s₀ r bs) (hs₀ : BootState s₀) (size : Nat) :
    (∃ l₁ b l₂, bs = l₁ ++ b :: l₂ ∧ b.Fits size ∧
      firstFit r.heap.mm.mem size (2 ^ 64) r.heap.mm.heapStart = some (.found b.addr)) ∨
    firstFit r.heap.mm.mem size (2 ^ 64) r.heap.mm.heapStart = some (.found s₀.physBase) ∨
    firstFit r.heap.mm.mem size (2 ^ 64) r.heap.mm.heapStart = some (.corrupt s₀.physBase) ∨
    firstFit r.heap.mm.mem size (2 ^ 64) r.heap.mm.heapStart = some .exhausted := by
  have hpos := hs₀.base
  rcases hc.tiled.walk size with hfound | ⟨fuel, hw, hfuel⟩
  · exact Or.inl hfound
  · refine Or.inr ?_
    have hlen : bs.length ≤ 2 ^ 64 - 2 :=
      hc.tiled.arena.length_le fun b hb => le_trans (by omega) (hc.block_low hs₀ hb)
    obtain ⟨fuel, rfl⟩ : ∃ f, fuel = f + 1 := ⟨fuel - 1, by omega⟩
    obtain ⟨_, hnext⟩ := hc.firstBlock hs₀
    rw [hw, firstFit, if_neg (by omega)]
    split
    · exact Or.inr (Or.inl rfl)
    split
    · exact Or.inl rfl
    · rw [hnext, firstFit, if_pos rfl]
      exact Or.inr (Or.inr rfl)

/-- Memory written by `carve` and `growHeap` in fresh pages is past the bitmap's. -/
theorem carve_lowSame {s : MmState} {b : Block} {size lo : Nat} (hb : HdrOk s.mem b)
    (htop : b.stop ≤ 2 ^ 64) (hsize : size + 40 < 2 ^ 64) (hlo : s.physBase + 12288 ≤ lo)
    (hlow : lo ≤ b.addr) : LowSame s { s with mem := carve s.mem b.addr size } where
  range := ⟨rfl, rfl, rfl⟩
  mem := fun x hx => carve_frame hb htop hsize (Or.inl (by omega))

theorem coupled_kmalloc_found (hc : Coupled s₀ r bs) (hs₀ : BootState s₀) {size : Nat} (hpos : 0 < size)
    (hsize : NoWrap size) {l₁ l₂ : List Block} {b : Block} (hbs : bs = l₁ ++ b :: l₂)
    (hfit : b.Fits (alignUp size 16))
    (hw : firstFit r.heap.mm.mem (alignUp size 16) (2 ^ 64) r.heap.mm.heapStart = some (.found b.addr)) :
    ∃ r' bs', memStep r (.kmalloc size) = some r' ∧ Coupled s₀ r' bs' ∧
      SameWords r.heap.mm r'.heap.mm := by
  have hb : b ∈ bs := by rw [hbs]; simp
  have htop := hc.tiled.arena.top b hb
  have hround := hsize.alignUp_spec
  have hbase : r.heap.mm.physBase = s₀.physBase := hc.held.same.physBase
  have hcarve : alignUp size 16 + 40 < 2 ^ 64 := by omega
  have hlow := carve_lowSame (hc.tiled.list.hdrs b hb) htop hcarve (le_of_eq (by rw [hbase]))
    (hc.block_low hs₀ hb)
  subst hbs
  obtain ⟨hc', hwords⟩ := hc.heapStep hs₀ (hc.tiled.carve hpos hsize hfit) rfl hlow
  refine ⟨_, _, ?_, hc', hwords⟩
  rw [memStep, heapStep_found hpos hsize hw hfit htop]
  rfl

/-- Taking a block of pages just added to the heap writes in these pages only. -/
theorem grown_lowSame {s : MmState} {p n size : Nat} (hne : p ≠ 0) (hn : 0 < n)
    (htop : p + n * 4096 ≤ 2 ^ 64) (hsize : size + 40 < 2 ^ 64) (hlow : s.physBase + 12288 ≤ p) :
    LowSame s { growHeap s p n with mem := carve (growHeap s p n).mem p size } := by
  have hhdr := growHeap_hdrOk s hne hn (by omega)
  have hstop : (grownBlock p n).stop ≤ 2 ^ 64 := by
    rw [grownBlock_stop _ hn]
    exact htop
  refine ⟨⟨rfl, rfl, rfl⟩, fun x hx => ?_⟩
  have hxp : x < (grownBlock p n).addr := by
    unfold grownBlock
    dsimp only
    omega
  exact (carve_frame hhdr hstop hsize (Or.inl hxp)).trans (growHeap_frame s (Or.inl (by omega)))

/-- Free pages are none of what the heap owns. -/
theorem Coupled.took_disjoint (hc : Coupled s₀ r bs) (hs₀ : BootState s₀) {st n : Nat} {s : MmState}
    (htook : Took r.heap.mm st n s) :
    Disjoint (rangeBytes [(s₀.physBase + st * 4096, n * 4096)]) (rangeBytes r.heap.owned) := by
  refine Set.disjoint_left.mpr fun x hx howned => ?_
  obtain ⟨o, ho, h₁, h₂⟩ := hx
  rw [List.mem_singleton.mp ho] at h₁ h₂
  dsimp only at h₁ h₂
  obtain ⟨A, hA, ⟨q, hq, hqx⟩, _⟩ := hc.owned_page hs₀ howned
  obtain ⟨idx, _, rfl, hclear, _⟩ := hc.held.held A (List.mem_append_left _ hA) q hq
  dsimp only at hclear
  rw [htook.wasFree idx (by omega) (by omega)] at hclear
  cases hclear

theorem heapPages_mul (p n : Nat) : heapPages (p, n * 4096) = pagesFrom p n := by
  unfold heapPages
  rw [Nat.mul_div_cancel _ (by omega)]

/-- The heap grows: its new pages join those it holds. -/
theorem coupled_kmalloc_grow (hc : Coupled s₀ r bs) (hs₀ : BootState s₀) {size : Nat} (hpos : 0 < size)
    (hsize : NoWrap size)
    (hw : firstFit r.heap.mm.mem (alignUp size 16) (2 ^ 64) r.heap.mm.heapStart = some .exhausted)
    {st : Nat} {s : MmState}
    (hp : pmmAllocN r.heap.mm (pagesNeeded (alignUp size 16)) =
      ((r.heap.mm.physBase + st * 4096) % 2 ^ 64, s))
    (htook : Took r.heap.mm st (pagesNeeded (alignUp size 16)) s) :
    ∃ r' bs', memStep r (.kmalloc size) = some r' ∧ Coupled s₀ r' bs' ∧ SameWords s r'.heap.mm := by
  have hroom := hsize.le_pagesNeeded
  have hround := hsize.alignUp_spec
  have htop := hs₀.top
  have hn : 0 < pagesNeeded (alignUp size 16) := by omega
  obtain ⟨haddr, hst, hin⟩ := hc.took_addr hs₀ htook hn
  have hdisj := hc.took_disjoint hs₀ htook
  have hbase : s.physBase = s₀.physBase := htook.same.physBase.trans hc.held.same.physBase
  have hheld := hc.held.took htook (by omega)
  rw [haddr] at hp
  dsimp only at hheld
  rw [haddr, Holdings.grant, if_neg (by omega)] at hheld
  have hend : s₀.physBase + st * 4096 + pagesNeeded (alignUp size 16) * 4096 ≤ 2 ^ 64 := by omega
  have hne : s₀.physBase + st * 4096 ≠ 0 := by omega
  -- On the heap's side: one more block in front, which is then taken.
  have hgrown : Tiled _ ([] ++ grownBlock _ (pagesNeeded (alignUp size 16)) :: bs) s₀.physBase :=
    hc.tiled.grow (by omega) (hc.owned_same hs₀ htook.same) htook.same.heapStart hne hn hend hdisj
  have hcarved := hgrown.carve hpos hsize (grownBlock_fits hsize _)
  have hmoved := hc.tiled.heapStart_ne hn (by omega) hdisj
  have hstep := heapStep_grow hpos hsize hw hp hne hend hmoved
  -- On the page allocator's side: the pages are held, and then only written.
  have hlow := grown_lowSame (s := s) (n := pagesNeeded (alignUp size 16)) hne hn hend
    (by omega : alignUp size 16 + 40 < 2 ^ 64) (by omega)
  obtain ⟨hheld', hwords⟩ := hheld.lowSame hs₀ hlow
  have hdark := lowSame_dark hs₀ hheld.same (htook.dark hc.dark) hlow
  refine ⟨{ r with heap := _ }, _, ?_, ⟨hcarved, ?_, ?_, hdark⟩, hwords⟩
  · rw [memStep, hstep]
    rfl
  · dsimp only
    rw [List.map_cons, heapPages_mul]
    exact hheld'
  · intro o ho
    rcases List.mem_cons.mp ho with rfl | ho
    · exact Dvd.intro_left _ rfl
    · exact hc.whole o ho

/-- **A guarded `kmalloc` returns and keeps the two allocators coupled**, and no bitmap
    word changes but by the `pmm_alloc_n` it calls. -/
theorem coupled_kmalloc (hc : Coupled s₀ r bs) (hs₀ : BootState s₀) {size : Nat}
    (hg : AvoidsFirstBlock r (.kmalloc size)) :
    ∃ r' bs', memStep r (.kmalloc size) = some r' ∧ Coupled s₀ r' bs' ∧
      BitmapByPmm r (.kmalloc size) r' := by
  obtain ⟨hsize, hfirst, hpages⟩ := hg
  have hbase : r.heap.mm.physBase = s₀.physBase := hc.held.same.physBase
  have htotal : r.heap.mm.totalPages = s₀.totalPages := hc.held.same.totalPages
  have htop := hs₀.top
  rcases Nat.eq_zero_or_pos size with rfl | hpos
  · refine ⟨r, bs, ?_, hc, Or.inl fun _ _ => rfl⟩
    rw [memStep, heapStep_zero]
    rfl
  rcases hc.walk hs₀ (alignUp size 16) with ⟨l₁, b, l₂, hbs, hfit, hw⟩ | hw | hw | hw
  · obtain ⟨r', bs', hs, hc', hwords⟩ := coupled_kmalloc_found hc hs₀ hpos hsize hbs hfit hw
    exact ⟨r', bs', hs, hc', Or.inl hwords⟩
  · exact absurd (hbase ▸ hw) hfirst
  · refine ⟨r, bs, ?_, hc, Or.inl fun _ _ => rfl⟩
    rw [memStep, heapStep_corrupt hpos hw]
    rfl
  · rcases pmmAllocN_cases r.heap.mm (hpages hw) (by omega) with ⟨hp, _⟩ | ⟨_, st, s, hp, htook, _⟩
    · refine ⟨r, bs, ?_, hc, Or.inl fun _ _ => rfl⟩
      rw [memStep, heapStep_fail hpos hw hp]
      rfl
    · obtain ⟨r', bs', hs, hc', hwords⟩ := coupled_kmalloc_grow hc hs₀ hpos hsize hw hp htook
      refine ⟨r', bs', hs, hc', Or.inr ?_⟩
      rw [hp]
      exact hwords

/-! ## Runs -/

/-- What one guarded call does, whichever it is. -/
theorem coupled_memStep (hs₀ : BootState s₀) (op : MemOp) (r' : MemRun) (hc : ∃ bs, Coupled s₀ r bs)
    (hg : AvoidsFirstBlock r op) (hstep : memStep r op = some r') :
    (∃ bs, Coupled s₀ r' bs) ∧ BitmapByPmm r op r' := by
  obtain ⟨bs, hc⟩ := hc
  have htotal : r.heap.mm.totalPages = s₀.totalPages := hc.held.same.totalPages
  have htop := hs₀.top
  cases op with
  | kmalloc size =>
    obtain ⟨r'', bs', he, hc', hwords⟩ := coupled_kmalloc hc hs₀ hg
    rw [he, Option.some.injEq] at hstep
    exact hstep ▸ ⟨⟨bs', hc'⟩, hwords⟩
  | kfree ptr => exact coupled_kfree hc hs₀ hg hstep
  | pmmAlloc =>
    simp only [memStep, Option.some.injEq] at hstep
    subst hstep
    rcases pmmAlloc_cases r.heap.mm with ⟨he, _⟩ | ⟨idx, s, he, htook, _⟩
    · rw [he]
      exact ⟨⟨bs, coupled_grant_fail hc 1⟩, trivial⟩
    · rw [he]
      exact ⟨⟨bs, hc.grant hs₀ htook one_pos⟩, trivial⟩
  | pmmAllocN n =>
    simp only [memStep, Option.some.injEq] at hstep
    subst hstep
    rcases pmmAllocN_cases r.heap.mm hg (by omega) with ⟨he, _⟩ | ⟨hn, st, s, he, htook, _⟩
    · rw [he]
      exact ⟨⟨bs, coupled_grant_fail hc n⟩, trivial⟩
    · rw [he]
      exact ⟨⟨bs, hc.grant hs₀ htook hn⟩, trivial⟩
  | pmmFree paddr =>
    simp only [memStep] at hstep
    split at hstep
    case isFalse => cases hstep
    case isTrue howned =>
      simp only [Option.some.injEq] at hstep
      subst hstep
      obtain ⟨A, hA, hp⟩ := howned
      exact ⟨⟨bs, hc.pmmFree hs₀ hA hp⟩, trivial⟩

/-- At boot the heap owns no page: its first block is not one of its own. -/
theorem coupled_bootRun (k : Nat) (s : MmState) (hs₀ : BootState (crimsonInitMemory k s)) :
    Coupled (crimsonInitMemory k s) (bootRun k s) [] := by
  refine ⟨⟨heapSeg_nil.mpr hs₀.start, ⟨List.Pairwise.nil, fun b hb => absurd hb (by simp)⟩, ?_,
      fun p hp => absurd hp (by simp [bootRun]), List.nodup_nil⟩,
    ⟨SameRange.refl _, fun A hA => absurd hA (by simp [bootRun]), fun _ _ hbit => hbit,
      List.Pairwise.nil⟩, fun o ho => absurd ho (by simp [bootRun]), fun _ _ hbit => hbit⟩
  ext x
  simp [rangeBytes, bootRun]

/-- **The heap and the page allocator keep apart in every run that never takes the heap's
    first block.** -/
theorem separate_of_run (k : Nat) (s : MmState) (hk : linkHeapStart k < linkHeapEnd) (ops : List MemOp)
    (hg : Meets memStep AvoidsFirstBlock (bootRun k s) ops) :
    Always memStep Separate (bootRun k s) ops ∧ AlwaysStep memStep BitmapByPmm (bootRun k s) ops := by
  have hs₀ := bootState_crimsonInitMemory k s hk
  have hrun : Always memStep (fun r => ∃ bs, Coupled (crimsonInitMemory k s) r bs) (bootRun k s) ops :=
    always_of_meets (fun _ op r' hc hgi hs => (coupled_memStep hs₀ op r' hc hgi hs).1)
      ⟨[], coupled_bootRun k s hs₀⟩ hg
  refine ⟨hrun.mono ?_, alwaysStep_of_always ?_ hrun hg⟩
  · intro r hc
    obtain ⟨bs, hc⟩ := hc
    exact hc.separate hs₀
  · intro r op r' hc hgi hs
    exact (coupled_memStep hs₀ op r' hc hgi hs).2

/-- A kernel so large that it leaves 128 pages, whose first word of bits the page allocator
    hands out to other clients. The first block then reads as empty, and the heap gets a
    page of its own. -/
theorem separate_from_pages :
    Always memStep Separate (bootRun 64128 blank) (List.replicate 15 .pmmAlloc ++ [.kmalloc 100]) ∧
      AlwaysStep memStep BitmapByPmm (bootRun 64128 blank)
        (List.replicate 15 .pmmAlloc ++ [.kmalloc 100]) := by
  refine separate_of_run 64128 blank (by decide) _ (meets_append (meets_of_forall ?_) ?_)
  · intro r op hop
    rw [List.eq_of_mem_replicate hop]
    trivial
  · intro r hr r' _
    have he : r = (run memStep (bootRun 64128 blank) (List.replicate 15 .pmmAlloc)).getD
        (bootRun 64128 blank) := by rw [hr]; rfl
    refine ⟨⟨by decide, ?_, fun _ => ?_⟩, trivial⟩
    · rw [he]
      decide +kernel
    · rw [he]
      decide +kernel

/-- What `kmalloc_init` leaves is a heap of one free block, which the first call takes. -/
theorem firstFit_kmallocInit (u : MmState) {heapStart heapEnd size : Nat} (hne : heapStart ≠ 0)
    (hroom : heapStart + 24 + size ≤ heapEnd) (htop : heapEnd < 2 ^ 64) :
    firstFit (kmallocInit u heapStart heapEnd).mem size (2 ^ 64)
      (kmallocInit u heapStart heapEnd).heapStart = some (.found heapStart) := by
  have ht := (tiled_heapBoot u hne (by omega) htop).list
  have hlen : [(⟨heapStart, heapEnd - heapStart - 24, false⟩ : Block)].length ≤ 2 ^ 64 := by simp
  have hfit : Block.Fits ⟨heapStart, heapEnd - heapStart - 24, false⟩ size :=
    ⟨rfl, by dsimp only; omega⟩
  rcases firstFit_heapSeg ht hlen with ⟨l₁, b, l₂, hl, _, he⟩ | ⟨hnone, _⟩
  · have hb : b ∈ l₁ ++ b :: l₂ := by simp
    rw [← hl, List.mem_singleton] at hb
    rw [hb] at he
    exact he
  · exact absurd hfit (hnone _ (by simp))

/-- An allocation whose header is at the start of the bitmap. -/
theorem not_separate_of_mem {size start : Nat} (hlive : (start + 24, size) ∈ r.heap.live)
    (hbitmap : r.heap.mm.pageBitmap = start) (hpages : 0 < r.heap.mm.totalPages) : ¬Separate r := by
  intro hsep
  have hbytes : start ∈ allocBytes (start + 24, size) := by
    rw [allocBytes, Set.mem_Ico]
    dsimp only
    omega
  refine Set.disjoint_left.mp (hsep.bitmap _ hlive) hbytes ?_
  rw [hbitmap, MmState.bitmapBytes, Set.mem_Ico]
  omega

/-- The heap's only block starts where the bitmap does, and is taken. -/
theorem firstAlloc_overlaps {t : MmState} {start : Nat}
    (hw : firstFit t.mem (alignUp 16 16) (2 ^ 64) t.heapStart = some (.found start))
    (hbitmap : t.pageBitmap = start) (hpages : 0 < t.totalPages) (htop : start + 40 ≤ 2 ^ 64) :
    ∃ r, memStep ⟨⟨t, [], []⟩, []⟩ (.kmalloc 16) = some r ∧ ¬Separate r := by
  have hround : alignUp 16 16 = 16 := by decide
  have hfit : Block.Fits ⟨start, 16, false⟩ (alignUp 16 16) := ⟨rfl, by rw [hround]⟩
  have hstop : (Block.mk start 16 false).stop = start + 40 := rfl
  have hstep := heapStep_found (h := ⟨t, [], []⟩) (by omega) (by decide) hw hfit (by omega)
  refine ⟨_, by rw [memStep, hstep]; rfl, ?_⟩
  exact not_separate_of_mem (List.mem_cons_self ..) hbitmap hpages

theorem firstBlock_overlaps (k : Nat) (s : MmState) (hk : linkHeapStart k < linkHeapEnd) :
    ∃ r, memStep (bootRun k s) (.kmalloc 16) = some r ∧ ¬Separate r := by
  have hs₀ := bootState_crimsonInitMemory k s hk
  have hround : alignUp 16 16 = 16 := by decide
  have hw := firstFit_kmallocInit
    (pmmInit (k * 4096) s (linkHeapStart k) (linkHeapEnd - linkHeapStart k))
    (by unfold linkHeapStart; omega)
    (by rw [hround]; unfold linkHeapStart linkHeapEnd at *; omega :
      linkHeapStart k + 24 + alignUp 16 16 ≤ linkHeapEnd)
    (by unfold linkHeapEnd; omega)
  rw [← crimsonInitMemory] at hw
  have hbitmap : (crimsonInitMemory k s).pageBitmap = linkHeapStart k := by
    rw [hs₀.bitmap, ← hs₀.start, crimsonInitMemory, kmallocInit_heapStart]
  exact firstAlloc_overlaps hw hbitmap hs₀.some (by unfold linkHeapStart linkHeapEnd at *; omega)

/-- A kernel of 1 MiB. The first allocation is handed the memory of the page bitmap. -/
theorem first_alloc_overlaps : ¬Always memStep Separate (bootRun 256 blank) [.kmalloc 16] := by
  obtain ⟨r, hs, hbad⟩ := firstBlock_overlaps 256 blank (by decide)
  exact fun h => hbad (h.2 r hs)

end Crimson.Mm
