import Crimson.Mm.HeapLive
import Crimson.Mm.HeapSafety

/-!
# What `kmalloc`, `kcalloc` and `krealloc` hand out (`mm.c`)

A pointer that is not null should stand for a block of at least the size asked for, made of
memory that was free. Three roundings can break this. `ALIGN_UP(size, 16)` is 0 for the last
15 sizes there are, and every free block is large enough for that; `nmemb * size` is taken
modulo `2 ^ 64`; and a request for more pages than `pmm_alloc_n` manages sends it past the
end of its bitmap, from where it may come back with pages that do not exist. The sum with the
header wraps too, but such a request is refused: it asks for no page, or for single pages until
there are none.

`Obtains` is when `kmalloc` returns a block at all, and `Within` when the block is right.
-/

set_option autoImplicit false

namespace Crimson.Mm

open Crimson.Lib

/-- The bytes of the free pages. -/
def freePageBytes (s : MmState) : Set Nat :=
  {x | ∃ idx, idx < s.totalPages ∧ s.pageBit idx = true ∧
    s.physBase + idx * 4096 ≤ x ∧ x < s.physBase + (idx + 1) * 4096}

/-- The pages the heap may still get: memory, and no part of its blocks or of the bitmap. -/
structure FreePagesApart (s : MmState) (bs : List Block) : Prop where
  aligned : s.physBase % 4096 = 0
  top : s.physBase + s.totalPages * 4096 < 2 ^ 64
  heap : Disjoint (freePageBytes s) (heapBytes bs)
  bitmap : Disjoint (freePageBytes s) (Set.Ico s.pageBitmap (s.pageBitmap + s.bitmapBytes))

/-- These bytes are in one free block, or in free pages. -/
def FreeMemory (s : MmState) (bs : List Block) (bytes : Set Nat) : Prop :=
  (∃ b ∈ bs, b.used = false ∧ bytes ⊆ b.bytes) ∨ bytes ⊆ freePageBytes s

/-- The block of the pointer `p`. -/
def blockOf (s : MmState) (p : Nat) : Block := blockAt s.mem (p - 24)

/-- In `s'`, the pointer `p` has a payload of at least `n` bytes; its block was free in `s`. -/
structure Payload (s : MmState) (bs : List Block) (s' : MmState) (p n : Nat) : Prop where
  size : n ≤ (blockOf s' p).size
  free : FreeMemory s bs (blockOf s' p).bytes

/-- What `kmalloc(size)` is for. -/
def KmallocServes (s : MmState) (bs : List Block) (size : Nat) : Prop :=
  ∀ p s', kmalloc s size = some (p, s') → p ≠ 0 → Payload s bs s' p size

/-- What `kcalloc(nmemb, size)` is for. -/
def KcallocServes (s : MmState) (bs : List Block) (nmemb size : Nat) : Prop :=
  ∀ p s', kcalloc s nmemb size = some (p, s') → p ≠ 0 →
    Payload s bs s' p (nmemb * size) ∧ ∀ i, i < nmemb * size → s'.mem (p + i) = 0

/-- What `krealloc(ptr, newSize)` is for: the block stays, or there is a new one with the
    bytes of the old. -/
def KreallocServes (s : MmState) (bs : List Block) (ptr newSize : Nat) : Prop :=
  ∀ p s', krealloc s ptr newSize = some (p, s') → p ≠ 0 →
    (p = ptr ∧ s' = s ∧ newSize ≤ (blockOf s ptr).size ∨ Payload s bs s' p newSize) ∧
    (ptr ≠ 0 → ∀ i, i < min (blockOf s ptr).size newSize → s'.mem (p + i) = s.mem (ptr + i))

/-- Some block of the list is large enough for `n` bytes as `kmalloc` rounds them. -/
def SomeFits (bs : List Block) (n : Nat) : Prop := ∃ b ∈ bs, b.Fits (alignUp n 16)

/-- The pages asked for `n` bytes hold them, as they do unless a sum wraps. -/
def PagesHold (n : Nat) : Prop :=
  alignUp n 16 ≠ 0 ∧ alignUp n 16 + 24 ≤ pagesNeeded (alignUp n 16) * 4096

/-- `kmalloc(n)` has a block to return: one of the list, or new pages. -/
def Obtains (s : MmState) (bs : List Block) (n : Nat) : Prop :=
  n ≠ 0 ∧ (SomeFits bs n ∨ PagesHold n ∧ (pmmAllocN s (pagesNeeded (alignUp n 16))).1 ≠ 0)

/-- `n` can be rounded up to 16, and the pages it takes when no block fits exist. -/
def Within (s : MmState) (bs : List Block) (n : Nat) : Prop :=
  n ≤ 2 ^ 64 - 16 ∧ (SomeFits bs n ∨ pagesNeeded (alignUp n 16) ≤ s.totalPages)

variable {s s' s₁ : MmState} {bs : List Block} {b : Block} {size nmemb newSize n p st ptr : Nat}

/-! ## Rounding -/

theorem alignUp_of_le (h : n ≤ 2 ^ 64 - 16) : n ≤ alignUp n 16 ∧ alignUp n 16 < n + 16 ∧ alignUp n 16 % 16 = 0 := by
  unfold alignUp
  omega

/-- The last 15 sizes are rounded up to 0. -/
theorem alignUp_of_gt (h : 2 ^ 64 - 16 < n) (hlt : n < 2 ^ 64) : alignUp n 16 = 0 := by
  unfold alignUp
  omega

/-- Where the sum with the header wraps, no page is asked for, or a single one. -/
theorem pagesNeeded_of_wraps (h : ¬PagesHold n) :
    pagesNeeded (alignUp n 16) = 0 ∨
      pagesNeeded (alignUp n 16) = 1 ∧ (alignUp n 16 = 0 ∨ alignUp n 16 = 2 ^ 64 - 16) := by
  have hmul : alignUp n 16 % 16 = 0 ∧ alignUp n 16 < 2 ^ 64 := by
    unfold alignUp
    omega
  unfold PagesHold pagesNeeded at h
  unfold pagesNeeded
  generalize alignUp n 16 = x at h hmul
  unfold alignUp at h ⊢
  omega

/-- The pages asked for are no more than it takes, and the block ends far from wrapping. -/
theorem PagesHold.spec (h : PagesHold n) :
    pagesNeeded (alignUp n 16) * 4096 < alignUp n 16 + 24 + 4096 ∧ alignUp n 16 + 48 ≤ 2 ^ 64 := by
  unfold PagesHold pagesNeeded at h
  unfold pagesNeeded
  generalize alignUp n 16 = x at h
  unfold alignUp at h ⊢
  omega

/-! ## Pages -/

/-- Whatever it is asked for, `pmm_alloc_n` answers with the address of a page. -/
theorem pmmAllocN_addr (s : MmState) (n : Nat) :
    (pmmAllocN s n).1 = 0 ∨ ∃ idx, (pmmAllocN s n).1 = (s.physBase + idx * 4096) % 2 ^ 64 := by
  have hscan : ∀ k i, (pmmAllocScan s k i).1 = 0 ∨
      ∃ idx, (pmmAllocScan s k i).1 = (s.physBase + idx * 4096) % 2 ^ 64 := by
    intro k i
    induction k generalizing i with
    | zero => exact Or.inl rfl
    | succ k ih =>
      unfold pmmAllocScan
      split
      · dsimp only
        split
        · exact Or.inl rfl
        · exact Or.inr ⟨_, rfl⟩
      · exact ih (i + 1)
  have hscanN : ∀ k start, (pmmAllocNScan s n k start).1 = 0 ∨
      ∃ idx, (pmmAllocNScan s n k start).1 = (s.physBase + idx * 4096) % 2 ^ 64 := by
    intro k start
    induction k generalizing start with
    | zero => exact Or.inl rfl
    | succ k ih =>
      unfold pmmAllocNScan
      split
      · exact Or.inr ⟨start, rfl⟩
      · exact ih (start + 1)
  unfold pmmAllocN pmmAlloc
  split
  · exact Or.inl rfl
  split
  · split
    · exact Or.inl rfl
    · exact hscan _ _
  · exact hscanN _ _

/-- No header or pointer in a page wraps. -/
theorem FreePagesApart.answer_top (h : FreePagesApart s bs) (n : Nat) : (pmmAllocN s n).1 + 24 < 2 ^ 64 := by
  have haligned := h.aligned
  rcases pmmAllocN_addr s n with he | ⟨idx, he⟩
  · omega
  · omega

/-- In range, the answer is a run of free pages. -/
theorem FreePagesApart.took (h : FreePagesApart s bs) (hn : n ≤ s.totalPages) (hne : (pmmAllocN s n).1 ≠ 0) :
    ∃ st s₁, pmmAllocN s n = (s.physBase + st * 4096, s₁) ∧ 0 < n ∧ Took s st n s₁ := by
  have htop := h.top
  rcases pmmAllocN_cases s hn (by omega) with ⟨he, -⟩ | ⟨hpos, st, s₁, he, htook, -⟩
  · exact absurd (by rw [he]) hne
  · have hin := htook.inRange
    have hst : st * 4096 ≤ s.totalPages * 4096 := Nat.mul_le_mul_right 4096 (by omega)
    have hlt : s.physBase + st * 4096 < 2 ^ 64 := Nat.lt_of_le_of_lt (Nat.add_le_add_left hst _) htop
    rw [Nat.mod_eq_of_lt hlt] at he
    exact ⟨st, s₁, he, hpos, htook⟩

theorem mem_freePageBytes {x : Nat} :
    x ∈ freePageBytes s ↔ ∃ idx, idx < s.totalPages ∧ s.pageBit idx = true ∧
      s.physBase + idx * 4096 ≤ x ∧ x < s.physBase + (idx + 1) * 4096 := Iff.rfl

theorem Took.run_free (h : Took s st n s₁) :
    Set.Ico (s.physBase + st * 4096) (s.physBase + st * 4096 + n * 4096) ⊆ freePageBytes s := by
  intro x hx
  rw [Set.mem_Ico] at hx
  have hin := h.inRange
  have hfree := h.wasFree ((x - s.physBase) / 4096) (by omega) (by omega)
  exact mem_freePageBytes.mpr ⟨_, by omega, hfree, by omega, by omega⟩

/-- Free pages stay within the pages there are. -/
theorem freePageBytes_lt {x : Nat} (h : x ∈ freePageBytes s) :
    s.physBase ≤ x ∧ x < s.physBase + s.totalPages * 4096 := by
  obtain ⟨idx, hlt, -, h₁, h₂⟩ := h
  omega

/-- Apart from the blocks of the list and from the bitmap. -/
theorem FreePagesApart.run_apart (h : FreePagesApart s bs) (htook : Took s st n s₁) (hpos : 0 < n) :
    (∀ b ∈ bs, (grownBlock (s.physBase + st * 4096) n).Apart b) ∧
      ((grownBlock (s.physBase + st * 4096) n).stop ≤ s.pageBitmap ∨
        s.pageBitmap + s.bitmapBytes ≤ s.physBase + st * 4096) := by
  have hrun := htook.run_free
  have hbytes := grownBlock_bytes (s.physBase + st * 4096) hpos
  rw [← hbytes] at hrun
  constructor
  · intro b hb
    rw [Block.apart_iff]
    refine (h.heap.mono_left hrun).mono_right fun x hx => mem_heapBytes.mpr ⟨b, hb, hx⟩
  · have hdisj := h.bitmap.mono_left hrun
    rw [hbytes, Set.Ico_disjoint_Ico] at hdisj
    rw [grownBlock_stop _ hpos]
    unfold MmState.bitmapBytes at *
    have hin := htook.inRange
    omega

/-- New pages leave the heap in order. -/
theorem HeapReady.grow (h : HeapReady s bs) (hp : FreePagesApart s bs) (htook : Took s st n s₁) (hpos : 0 < n)
    (hne : s.physBase + st * 4096 ≠ 0) :
    HeapReady (growHeap s₁ (s.physBase + st * 4096) n) (grownBlock (s.physBase + st * 4096) n :: bs) := by
  have hin := htook.inRange
  have htop := hp.top
  have haligned := hp.aligned
  have hsame := htook.same
  obtain ⟨hapart, hbitmap⟩ := hp.run_apart htook hpos
  have hstop := grownBlock_stop (s.physBase + st * 4096) hpos
  -- taking pages writes bits of the bitmap, which is apart from the blocks
  have hlist : HeapSeg s₁.mem s₁.heapStart bs 0 := by
    rw [hsame.heapStart]
    refine h.list.congr fun b hb x h₁ h₂ => hsame.mem x ?_
    have hb := h.bitmap b hb
    unfold Block.stop at hb
    omega
  -- the new header links to the old list, so the pointer must fit in it
  have hhead : s₁.heapStart < 2 ^ 64 := by
    rw [hsame.heapStart]
    cases bs with
    | nil =>
      have he := heapSeg_nil.mp h.list
      omega
    | cons b bs =>
      have he := (heapSeg_cons.mp h.list).1
      have hb := h.top b (by simp)
      unfold Block.stop at hb
      omega
  have hmap : (growHeap s₁ (s.physBase + st * 4096) n).pageBitmap = s.pageBitmap := hsame.pageBitmap
  have hlen : (growHeap s₁ (s.physBase + st * 4096) n).bitmapBytes = s.bitmapBytes := hsame.bitmapBytes
  refine ⟨hlist.grow hhead hne hpos (by omega) hapart, ⟨List.pairwise_cons.mpr ⟨hapart, h.arena.apart⟩, ?_⟩,
    ?_, ?_, ?_⟩
  all_goals
    intro b hb
    rcases List.mem_cons.mp hb with rfl | hb
  · omega
  · exact h.arena.top b hb
  · dsimp only [grownBlock]
    omega
  · exact h.low b hb
  · omega
  · exact h.top b hb
  · rw [hmap, hlen]
    exact hbitmap
  · rw [hmap, hlen]
    exact h.bitmap b hb

/-- The pages that are left are still apart from the heap. -/
theorem FreePagesApart.grow (hp : FreePagesApart s bs) (htook : Took s st n s₁) (hpos : 0 < n) :
    FreePagesApart (growHeap s₁ (s.physBase + st * 4096) n) (grownBlock (s.physBase + st * 4096) n :: bs) := by
  have hsame := htook.same
  obtain ⟨-, hbitmap⟩ := hp.run_apart htook hpos
  rw [grownBlock_stop _ hpos] at hbitmap
  -- the header of the new block is not in the bitmap
  have hbits : ∀ idx, idx < s.totalPages →
      (growHeap s₁ (s.physBase + st * 4096) n).pageBit idx = s₁.pageBit idx := by
    intro idx hidx
    refine MmState.pageBit_congr (s := s₁) (fun x h₁ h₂ => growHeap_frame s₁ ?_) (by rw [hsame.totalPages]; exact hidx)
    rw [hsame.pageBitmap] at h₁ h₂
    rw [hsame.bitmapBytes] at h₂
    omega
  have hleft : ∀ x ∈ freePageBytes (growHeap s₁ (s.physBase + st * 4096) n),
      x ∈ freePageBytes s ∧ x ∉ (grownBlock (s.physBase + st * 4096) n).bytes := by
    intro x hx
    obtain ⟨idx, hlt, hfree, h₁, h₂⟩ := mem_freePageBytes.mp hx
    have hlt : idx < s.totalPages := hsame.totalPages ▸ hlt
    have hbase : (growHeap s₁ (s.physBase + st * 4096) n).physBase = s.physBase := hsame.physBase
    rw [hbase] at h₁ h₂
    rw [hbits idx hlt, htook.bits, Bool.and_eq_true] at hfree
    refine ⟨mem_freePageBytes.mpr ⟨idx, hlt, hfree.1, h₁, h₂⟩, ?_⟩
    have hout : ¬(st ≤ idx ∧ idx < st + n) := of_decide_eq_false (by simpa only [Bool.not_eq_true'] using hfree.2)
    rw [grownBlock_bytes _ hpos, Set.mem_Ico]
    omega
  have hmap : (growHeap s₁ (s.physBase + st * 4096) n).pageBitmap = s.pageBitmap := hsame.pageBitmap
  have hlen : (growHeap s₁ (s.physBase + st * 4096) n).bitmapBytes = s.bitmapBytes := hsame.bitmapBytes
  refine ⟨?_, ?_, ?_, ?_⟩
  · exact hsame.physBase ▸ hp.aligned
  · have htop := hp.top
    rw [← hsame.physBase, ← hsame.totalPages] at htop
    exact htop
  · rw [heapBytes_cons]
    refine Set.disjoint_left.mpr fun x hx => ?_
    rintro (hnew | hold)
    · exact (hleft x hx).2 hnew
    · exact Set.disjoint_left.mp hp.heap (hleft x hx).1 hold
  · rw [hmap, hlen]
    exact Set.disjoint_left.mpr fun x hx => Set.disjoint_left.mp hp.bitmap (hleft x hx).1

/-! ## The block that `carve` leaves -/

/-- The size in the header, which is written after the header of the rest. -/
theorem hdrSize_carve {m : Mem} {a x : Nat} (hlt : x < 2 ^ 64) :
    hdrSize (carve m a x) a = if (x + 24 + 16) % 2 ^ 64 ≤ hdrSize m a then x else hdrSize m a := by
  unfold carve
  split
  · simp only [hdrSize, setUsed, setNext, setSize, setMagic]
    simp (disch := omega) only [load64_store32_disjoint, load64_store64_disjoint, load64_store64_same]
  · simp only [hdrSize, setUsed]
    simp (disch := omega) only [load64_store32_disjoint]

/-- The payload, by the header of the block. -/
theorem payload_iff {a : Nat} :
    Payload s bs s' (a + 24) n ↔
      n ≤ hdrSize s'.mem a ∧ FreeMemory s bs (Set.Ico a (a + 24 + hdrSize s'.mem a)) := by
  constructor
  · intro hpay
    exact ⟨hpay.size, hpay.free⟩
  · intro hpay
    exact ⟨hpay.1, hpay.2⟩

/-- The part of a free block that is taken. -/
theorem HeapReady.carve_size (h : HeapReady s bs) (hb : b ∈ bs) (hfit : b.Fits n) :
    n ≤ hdrSize (Mm.carve s.mem b.addr n) b.addr ∧ hdrSize (Mm.carve s.mem b.addr n) b.addr ≤ b.size ∧
      (b.size < n + 40 ∨ hdrSize (Mm.carve s.mem b.addr n) b.addr = n) := by
  have hle := hfit.2
  have htop := h.top b hb
  have hlow := h.low b hb
  unfold Block.stop at htop
  have hsize := hdrSize_carve (m := s.mem) (a := b.addr) (x := n) (by omega)
  rw [(h.list.hdrs b hb).size] at hsize
  rw [hsize]
  split <;> omega

/-- Free memory is none of a used block's. -/
theorem FreeMemory.disjoint (h : HeapReady s bs) (hp : FreePagesApart s bs) {bytes : Set Nat}
    (hfree : FreeMemory s bs bytes) (hb : b ∈ bs) (hused : b.used = true) : Disjoint bytes b.bytes := by
  rcases hfree with ⟨c, hc, hcfree, hsub⟩ | hsub
  · have hne : c ≠ b := by
      rintro rfl
      rw [hcfree] at hused
      exact Bool.noConfusion hused
    exact (Block.apart_iff.mp (h.arena.apart_of_ne hc hb hne)).mono_left hsub
  · exact (hp.heap.mono_left hsub).mono_right fun x hx => mem_heapBytes.mpr ⟨b, hb, hx⟩

/-! ## `kmalloc` that finds a block -/

theorem kmalloc_fits (h : HeapReady s bs) (hn : n ≠ 0) (hfits : SomeFits bs n) :
    ∃ b ∈ bs, b.Fits (alignUp n 16) ∧
      kmalloc s n = some (b.addr + 24, { s with mem := carve s.mem b.addr (alignUp n 16) }) := by
  rcases h.search n with ⟨l₁, b, l₂, rfl, hfit, hw⟩ | ⟨hnone, -⟩
  · have htop := h.top b (by simp)
    unfold Block.stop at htop
    have hk := kmalloc_found hn hw
    rw [Nat.mod_eq_of_lt (by omega : b.addr + 24 < 2 ^ 64)] at hk
    exact ⟨b, by simp, hfit, hk⟩
  · obtain ⟨b, hb, hfit⟩ := hfits
    exact absurd hfit (hnone b hb)

/-- The block found is large enough unless the rounding has wrapped. -/
theorem payload_fits (h : HeapReady s bs) (hb : b ∈ bs) (hfit : b.Fits (alignUp n 16)) (hlt : n < 2 ^ 64) :
    Payload s bs { s with mem := carve s.mem b.addr (alignUp n 16) } (b.addr + 24) n ↔ n ≤ 2 ^ 64 - 16 := by
  rw [payload_iff]
  dsimp only
  obtain ⟨hge, hle, hpart⟩ := h.carve_size hb hfit
  constructor
  · rintro ⟨hsize, -⟩
    by_contra hgt
    rw [alignUp_of_gt (by omega) hlt] at hsize hpart hle
    omega
  · intro hsmall
    have hround := alignUp_of_le hsmall
    refine ⟨Nat.le_trans hround.1 hge, Or.inl ⟨b, hb, hfit.1, ?_⟩⟩
    exact Set.Ico_subset_Ico_right (Nat.add_le_add_left hle _)

theorem keeps_fits (h : HeapReady s bs) (hb : b ∈ bs) (hfit : b.Fits n) {c : Block} (hc : c ∈ bs)
    (hused : c.used = true) {x : Nat} (hx : x ∈ c.bytes) : carve s.mem b.addr n x = s.mem x := by
  have hfree := hfit.1
  have hle := hfit.2
  have htop := h.top b hb
  have hlow := h.low b hb
  have hne : b ≠ c := by
    rintro rfl
    rw [hfree] at hused
    exact Bool.noConfusion hused
  have hapart := h.arena.apart_of_ne hb hc hne
  rw [Block.mem_bytes] at hx
  unfold Block.Apart at hapart
  refine carve_frame (h.list.hdrs b hb) (Nat.le_of_lt htop) ?_ (by omega)
  unfold Block.stop at htop
  omega

/-! ## `kmalloc` that asks for pages -/

/-- A single page comes from within the bitmap. -/
theorem totalPages_pos (hne : (pmmAllocN s 1).1 ≠ 0) : 1 ≤ s.totalPages := by
  rcases pmmAlloc_cases s with ⟨he, -⟩ | ⟨idx, s', -, htook, -⟩
  · exact absurd (congrArg Prod.fst he) hne
  · have hin := htook.inRange
    omega

/-- A call that asks for one page fails, or goes on with a larger heap. -/
theorem kmallocRec_onePage {fuel : Nat} (h : HeapReady s bs) (hp : FreePagesApart s bs) (hn : n ≠ 0)
    (hw : kmallocSearch s n = some .exhausted) (hone : pagesNeeded (alignUp n 16) = 1)
    (hk : kmallocRec (fuel + 1) s n = some (p, s')) :
    p = 0 ∨ ∃ t cs, HeapReady t cs ∧ FreePagesApart t cs ∧ kmallocRec fuel t (alignUp n 16) = some (p, s') := by
  have hrec := @kmallocRec_exhausted n s _ fuel _ hn hw Prod.mk.eta.symm
  rw [hk, hone] at hrec
  by_cases hzero : (pmmAllocN s 1).1 = 0
  · rw [if_pos hzero] at hrec
    exact Or.inl (Prod.mk.inj (Option.some.inj hrec)).1
  · rw [if_neg hzero] at hrec
    obtain ⟨st, s₁, htaken, hpos, htook⟩ := hp.took (totalPages_pos hzero) hzero
    rw [htaken] at hrec hzero
    exact Or.inr ⟨_, _, h.grow hp htook hpos hzero, hp.grow htook hpos, hrec.symm⟩

/-- No block is as large as the last multiple of 16: single pages are added to the heap until
    there are none. -/
theorem kmallocRec_largest {fuel : Nat} (h : HeapReady s bs) (hp : FreePagesApart s bs)
    (hround : alignUp n 16 = 2 ^ 64 - 16) (hk : kmallocRec fuel s n = some (p, s')) : p = 0 := by
  induction fuel generalizing s bs n with
  | zero => exact absurd hk (by simp [kmallocRec])
  | succ fuel ih =>
    have hn : n ≠ 0 := by
      rintro rfl
      exact absurd hround (by decide)
    rcases h.search n with ⟨l₁, b, l₂, rfl, hfit, -⟩ | ⟨-, hw⟩
    · have hbig := hfit.2
      have htop := h.top b (by simp)
      have hlow := h.low b (by simp)
      unfold Block.stop at htop
      omega
    · have hone : pagesNeeded (alignUp n 16) = 1 := by
        rw [hround]
        decide
      rcases kmallocRec_onePage h hp hn hw hone hk with hnull | ⟨t, cs, h', hp', hk'⟩
      · exact hnull
      · exact ih h' hp' (by rw [alignUp_twice, hround]) hk'

/-- A request that obtains nothing is refused. -/
theorem kmalloc_null (h : HeapReady s bs) (hp : FreePagesApart s bs) (hnot : ¬Obtains s bs n)
    (hk : kmalloc s n = some (p, s')) : p = 0 := by
  rw [kmalloc_eq] at hk
  by_cases hn : n = 0
  · rw [hn, kmallocRec, if_pos rfl] at hk
    exact (Prod.mk.inj (Option.some.inj hk)).1.symm
  rcases h.search n with ⟨l₁, b, l₂, rfl, hfit, -⟩ | ⟨-, hw⟩
  · exact absurd ⟨hn, Or.inl ⟨b, by simp, hfit⟩⟩ hnot
  have hrefused : (pmmAllocN s (pagesNeeded (alignUp n 16))).1 = 0 → p = 0 := by
    intro hzero
    rw [kmallocRec_exhausted hn hw Prod.mk.eta.symm, if_pos hzero] at hk
    exact (Prod.mk.inj (Option.some.inj hk)).1.symm
  by_cases hold : PagesHold n
  · apply hrefused
    by_contra hne
    exact hnot ⟨hn, Or.inr ⟨hold, hne⟩⟩
  rcases pagesNeeded_of_wraps hold with hnone | ⟨hone, hround⟩
  · apply hrefused
    rw [hnone]
    rfl
  rcases kmallocRec_onePage h hp hn hw hone hk with hnull | ⟨t, cs, h', hp', hk'⟩
  · exact hnull
  rcases hround with hround | hround
  · -- the retry asks for nothing
    rw [hround, kmallocRec, if_pos rfl] at hk'
    exact (Prod.mk.inj (Option.some.inj hk')).1.symm
  · exact kmallocRec_largest h' hp' (by rw [alignUp_twice, hround]) hk'

/-- The block in the new pages. -/
theorem kmalloc_newPages (h : HeapReady s bs) (hp : FreePagesApart s bs) (hn : n ≠ 0) (hnone : ¬SomeFits bs n)
    (hold : PagesHold n) {newPages : Nat} (hans : pmmAllocN s (pagesNeeded (alignUp n 16)) = (newPages, s₁))
    (hne : newPages ≠ 0) :
    kmalloc s n = some (newPages + 24,
      { growHeap s₁ newPages (pagesNeeded (alignUp n 16)) with
        mem := carve (growHeap s₁ newPages (pagesNeeded (alignUp n 16))).mem newPages (alignUp n 16) }) := by
  rcases h.search n with ⟨l₁, b, l₂, rfl, hfit, -⟩ | ⟨-, hw⟩
  · exact absurd ⟨b, by simp, hfit⟩ hnone
  · have htop := hp.answer_top (pagesNeeded (alignUp n 16))
    rw [hans] at htop
    exact kmalloc_grow hn hold.1 hold.2 hw hans hne htop

/-- The part of the new pages that is taken: enough for the size as it was rounded. -/
theorem carve_newPages (s₁ : MmState) (hold : PagesHold n) {newPages : Nat} (hne : newPages ≠ 0) :
    alignUp n 16 ≤ hdrSize (carve (growHeap s₁ newPages (pagesNeeded (alignUp n 16))).mem newPages (alignUp n 16)) newPages ∧
      24 + hdrSize (carve (growHeap s₁ newPages (pagesNeeded (alignUp n 16))).mem newPages (alignUp n 16)) newPages ≤
        pagesNeeded (alignUp n 16) * 4096 := by
  have hspec := hold.spec
  have hroom := hold.2
  have hlt := pagesNeeded_lt (alignUp n 16)
  have hhdr := (growHeap_hdrOk s₁ hne (by omega) hlt).size
  have hsize := hdrSize_carve (m := (growHeap s₁ newPages (pagesNeeded (alignUp n 16))).mem) (a := newPages)
    (x := alignUp n 16) (by omega)
  have hhdr : hdrSize (growHeap s₁ newPages (pagesNeeded (alignUp n 16))).mem newPages =
      pagesNeeded (alignUp n 16) * 4096 - 24 := hhdr
  rw [hsize, hhdr]
  split <;> omega

/-- The block in the new pages is right when there are that many pages. -/
theorem payload_newPages (hp : FreePagesApart s bs) (hlt : n < 2 ^ 64) (hnone : ¬SomeFits bs n)
    (hold : PagesHold n) {newPages : Nat} (hans : pmmAllocN s (pagesNeeded (alignUp n 16)) = (newPages, s₁))
    (hne : newPages ≠ 0) :
    Payload s bs
      { growHeap s₁ newPages (pagesNeeded (alignUp n 16)) with
        mem := carve (growHeap s₁ newPages (pagesNeeded (alignUp n 16))).mem newPages (alignUp n 16) }
      (newPages + 24) n ↔ pagesNeeded (alignUp n 16) ≤ s.totalPages := by
  rw [payload_iff]
  dsimp only
  have hspec := hold.spec
  obtain ⟨hge, hle⟩ := carve_newPages s₁ hold hne
  generalize hdrSize (carve _ newPages (alignUp n 16)) newPages = size at hge hle ⊢
  constructor
  · rintro ⟨-, hfree⟩
    have hfirst : newPages ∈ Set.Ico newPages (newPages + 24 + size) := Set.mem_Ico.mpr (by omega)
    have hlast : newPages + 23 + size ∈ Set.Ico newPages (newPages + 24 + size) := Set.mem_Ico.mpr (by omega)
    rcases hfree with ⟨b, hb, hbfree, hsub⟩ | hsub
    · -- a free block that holds it would have been found
      have hfirst := Block.mem_bytes.mp (hsub hfirst)
      have hlast := Block.mem_bytes.mp (hsub hlast)
      unfold Block.stop at hfirst hlast
      exact absurd ⟨b, hb, hbfree, by omega⟩ hnone
    · have hfirst := freePageBytes_lt (hsub hfirst)
      have hlast := freePageBytes_lt (hsub hlast)
      omega
  · intro hpages
    have hsmall : n ≤ 2 ^ 64 - 16 := by
      by_contra hgt
      exact hold.1 (alignUp_of_gt (by omega) hlt)
    have hround := alignUp_of_le hsmall
    obtain ⟨st, s₂, htaken, -, htook⟩ := hp.took hpages (by rw [hans]; exact hne)
    obtain ⟨rfl, rfl⟩ := Prod.mk.inj (hans.symm.trans htaken)
    refine ⟨Nat.le_trans hround.1 hge, Or.inr ?_⟩
    refine Set.Subset.trans (Set.Ico_subset_Ico_right ?_) htook.run_free
    omega

/-- New pages are apart from the used blocks, which keep their bytes. -/
theorem keeps_newPages (h : HeapReady s bs) (hp : FreePagesApart s bs) (hold : PagesHold n)
    (hpages : pagesNeeded (alignUp n 16) ≤ s.totalPages) {newPages : Nat}
    (hans : pmmAllocN s (pagesNeeded (alignUp n 16)) = (newPages, s₁)) (hne : newPages ≠ 0)
    (hb : b ∈ bs) {x : Nat} (hx : x ∈ b.bytes) :
    carve (growHeap s₁ newPages (pagesNeeded (alignUp n 16))).mem newPages (alignUp n 16) x = s.mem x := by
  have hspec := hold.spec
  have htop := hp.top
  obtain ⟨st, s₂, htaken, hpos, htook⟩ := hp.took hpages (by rw [hans]; exact hne)
  obtain ⟨rfl, rfl⟩ := Prod.mk.inj (hans.symm.trans htaken)
  have hin := htook.inRange
  have hlt := pagesNeeded_lt (alignUp n 16)
  have hbitmap := h.bitmap b hb
  have hapart := (hp.run_apart htook hpos).1 b hb
  have hstop := grownBlock_stop (s.physBase + st * 4096) hpos
  rw [Block.mem_bytes] at hx
  unfold Block.Apart at hapart
  rw [hstop] at hapart
  dsimp only [grownBlock] at hapart
  have hhdr := growHeap_hdrOk s₁ hne hpos hlt
  have hout : x < s.physBase + st * 4096 ∨ s.physBase + st * 4096 + pagesNeeded (alignUp n 16) * 4096 ≤ x := by omega
  have hcarve : carve (growHeap s₁ (s.physBase + st * 4096) (pagesNeeded (alignUp n 16))).mem
      (s.physBase + st * 4096) (alignUp n 16) x = (growHeap s₁ (s.physBase + st * 4096) (pagesNeeded (alignUp n 16))).mem x :=
    carve_frame hhdr (by rw [hstop]; omega) (by omega) (by rw [hstop]; exact hout)
  have hgrow : (growHeap s₁ (s.physBase + st * 4096) (pagesNeeded (alignUp n 16))).mem x = s₁.mem x :=
    growHeap_frame s₁ (by omega)
  exact (hcarve.trans hgrow).trans (htook.same.mem x (by omega))

/-! ## The three functions -/

/-- A request that obtains a block: it is right when the request is `Within`, and then no used
    block has changed. -/
theorem kmalloc_obtained (h : HeapReady s bs) (hp : FreePagesApart s bs) (hlt : n < 2 ^ 64)
    (hobt : Obtains s bs n) :
    ∃ a s', kmalloc s n = some (a + 24, s') ∧ (Payload s bs s' (a + 24) n ↔ Within s bs n) ∧
      (Within s bs n → ∀ b ∈ bs, b.used = true → ∀ x ∈ b.bytes, s'.mem x = s.mem x) := by
  obtain ⟨hn, hobt⟩ := hobt
  by_cases hfits : SomeFits bs n
  · obtain ⟨b, hb, hfit, hk⟩ := kmalloc_fits h hn hfits
    refine ⟨b.addr, _, hk, ?_, fun _ c hc hused x hx => keeps_fits h hb hfit hc hused hx⟩
    rw [payload_fits h hb hfit hlt, Within, and_iff_left (Or.inl hfits)]
  · obtain ⟨hold, hne⟩ := hobt.resolve_left hfits
    rcases hans : pmmAllocN s (pagesNeeded (alignUp n 16)) with ⟨newPages, s₁⟩
    rw [hans] at hne
    refine ⟨newPages, _, kmalloc_newPages h hp hn hfits hold hans hne, ?_, ?_⟩
    · have hsmall : n ≤ 2 ^ 64 - 16 := by
        by_contra hgt
        exact hold.1 (alignUp_of_gt (by omega) hlt)
      rw [payload_newPages hp hlt hfits hold hans hne, Within, and_iff_right hsmall, or_iff_right hfits]
    · intro hwithin b hb _ x hx
      exact keeps_newPages h hp hold (hwithin.2.resolve_left hfits) hans hne hb hx

theorem kmallocServes_iff (h : HeapReady s bs) (hp : FreePagesApart s bs) (hlt : n < 2 ^ 64) :
    KmallocServes s bs n ↔ (Obtains s bs n → Within s bs n) := by
  constructor
  · intro hserves hobt
    obtain ⟨a, s', hk, hpay, -⟩ := kmalloc_obtained h hp hlt hobt
    exact hpay.mp (hserves _ _ hk (Nat.succ_ne_zero _))
  · intro hwithin p s' hk hne
    have hobt : Obtains s bs n := by
      by_contra hnot
      exact hne (kmalloc_null h hp hnot hk)
    obtain ⟨a, s₁, hk', hpay, -⟩ := kmalloc_obtained h hp hlt hobt
    obtain ⟨rfl, rfl⟩ := Prod.mk.inj (Option.some.inj (hk.symm.trans hk'))
    exact hpay.mpr (hwithin hobt)

/-- The payload, in a memory with the same header. -/
theorem Payload.congr {a : Nat} (hhdr : hdrSize s'.mem a = hdrSize s₁.mem a) :
    Payload s bs s' (a + 24) n ↔ Payload s bs s₁ (a + 24) n := by
  rw [payload_iff, payload_iff, hhdr]

/-- Clearing the payload leaves the header alone. -/
theorem payload_fill {a k : Nat} :
    Payload s bs { s₁ with mem := fillBytes s₁.mem (a + 24) k 0 } (a + 24) n ↔ Payload s bs s₁ (a + 24) n := by
  have hhdr : hdrSize (MmState.mem { s₁ with mem := fillBytes s₁.mem (a + 24) k 0 }) a = hdrSize s₁.mem a :=
    load64_congr (agreeOn_fillBytes (Or.inl (by omega)))
  exact Payload.congr hhdr

theorem kcallocServes_iff (h : HeapReady s bs) (hp : FreePagesApart s bs) :
    KcallocServes s bs nmemb size ↔
      (Obtains s bs (nmemb * size % 2 ^ 64) → Within s bs (nmemb * size)) := by
  have hlt : nmemb * size % 2 ^ 64 < 2 ^ 64 := Nat.mod_lt _ (by omega)
  constructor
  · intro hserves hobt
    obtain ⟨a, s₁, hk, hpay, -⟩ := kmalloc_obtained h hp hlt hobt
    have hkc : kcalloc s nmemb size =
        some (a + 24, { s₁ with mem := fillBytes s₁.mem (a + 24) (nmemb * size % 2 ^ 64) 0 }) := by
      simp only [kcalloc, hk]
      rfl
    have hall := payload_fill.mp (hserves _ _ hkc (Nat.succ_ne_zero _)).1
    have hsize : hdrSize s₁.mem a < 2 ^ 64 := load64_lt
    have hle := (payload_iff.mp hall).1
    rw [Nat.mod_eq_of_lt (Nat.lt_of_le_of_lt hle hsize)] at hpay
    exact hpay.mp hall
  · intro hwithin p s' hkc hne
    dsimp only [kcalloc] at hkc
    cases hk : kmalloc s (nmemb * size % 2 ^ 64) with
    | none =>
      rw [hk] at hkc
      exact absurd hkc (by simp)
    | some r =>
      obtain ⟨q, s₂⟩ := r
      rw [hk] at hkc
      obtain ⟨rfl, rfl⟩ := Prod.mk.inj (Option.some.inj hkc)
      have hobt : Obtains s bs (nmemb * size % 2 ^ 64) := by
        by_contra hnot
        exact hne (kmalloc_null h hp hnot hk)
      have hwithin := hwithin hobt
      have hsmall : nmemb * size < 2 ^ 64 := Nat.lt_of_le_of_lt hwithin.1 (by omega)
      obtain ⟨a, s₁, hk', hpay, -⟩ := kmalloc_obtained h hp hlt hobt
      obtain ⟨rfl, rfl⟩ := Prod.mk.inj (Option.some.inj (hk.symm.trans hk'))
      rw [Nat.mod_eq_of_lt hsmall] at hpay ⊢
      rw [if_pos hne]
      refine ⟨payload_fill.mpr (hpay.mpr hwithin), ?_⟩
      intro i hi
      exact if_pos ⟨by omega, by omega⟩

/-- The pointer of a used block. -/
theorem HeapReady.blockOf (h : HeapReady s bs) (hb : b ∈ bs) : Mm.blockOf s (b.addr + 24) = b :=
  (h.list.hdrs b hb).blockAt

/-- The last two steps of `krealloc`: the copy to `p` and the release of the old block. -/
def movePayload (t : MmState) (p ptr : Nat) : MmState :=
  kfree { t with mem := (Str.memcpy t.mem p ptr (hdrSize t.mem (sub64 ptr 24))).2 } ptr

/-- `krealloc` of a block that is too small returns what `kmalloc` does. -/
theorem krealloc_moves (h : HeapReady s bs) (hb : b ∈ bs) (hsmall : b.size < newSize) (hne : p ≠ 0) :
    krealloc s (b.addr + 24) newSize = some (p, s') ↔
      ∃ t, kmalloc s newSize = some (p, t) ∧ s' = movePayload t p (b.addr + 24) := by
  have htop := h.top b hb
  unfold Block.stop at htop
  have hblock : sub64 (b.addr + 24) 24 = b.addr := by unfold sub64; omega
  have hsize := (h.list.hdrs b hb).size
  unfold krealloc movePayload
  rw [if_neg (Nat.succ_ne_zero _), if_neg (by omega)]
  dsimp only
  rw [hblock, hsize, if_neg (by omega)]
  cases kmalloc s newSize with
  | none => simp
  | some r =>
    obtain ⟨q, t⟩ := r
    dsimp only
    constructor
    · intro hkr
      by_cases hq : q = 0
      · rw [if_neg (not_not.mpr hq)] at hkr
        exact absurd ((Prod.mk.inj (Option.some.inj hkr)).1.symm.trans hq) hne
      · rw [if_pos hq] at hkr
        obtain ⟨rfl, rfl⟩ := Prod.mk.inj (Option.some.inj hkr)
        exact ⟨t, rfl, rfl⟩
    · rintro ⟨t', hk, hs'⟩
      obtain ⟨rfl, rfl⟩ := Prod.mk.inj (Option.some.inj hk)
      rw [if_pos hne, hs']

/-- The two steps write the new payload and the header of the old block. -/
theorem movePayload_frame (h : HeapReady s bs) (hb : b ∈ bs) {t : MmState} {x : Nat}
    (hold : x < b.addr ∨ b.addr + 24 ≤ x) (hnew : x < p ∨ p + hdrSize t.mem b.addr ≤ x) :
    (movePayload t p (b.addr + 24)).mem x = t.mem x := by
  have htop := h.top b hb
  unfold Block.stop at htop
  have hhdr : b.addr + 24 < 2 ^ 64 := by omega
  have hblock : sub64 (b.addr + 24) 24 = b.addr := by unfold sub64; omega
  unfold movePayload
  rw [kfree_frame _ hhdr hold, hblock]
  dsimp only
  rw [Str.memcpy_of_notMem hnew]

/-- Between payloads apart, the bytes of the old are those of the new. -/
theorem movePayload_copies (h : HeapReady s bs) (hb : b ∈ bs) {t : MmState} (hsize : hdrSize t.mem b.addr = b.size)
    (hapart : p + b.size ≤ b.addr ∨ b.stop ≤ p) {i : Nat} (hi : i < b.size) :
    (movePayload t p (b.addr + 24)).mem (p + i) = t.mem (b.addr + 24 + i) := by
  have htop := h.top b hb
  unfold Block.stop at htop hapart
  have hblock : sub64 (b.addr + 24) 24 = b.addr := by unfold sub64; omega
  unfold movePayload
  rw [kfree_frame _ (by omega) (by omega), hblock, hsize]
  exact Str.memcpy_of_mem (by omega) hi

/-- Whatever the new block is, made of free memory it shares no byte with the old one. -/
theorem Payload.apart (h : HeapReady s bs) (hp : FreePagesApart s bs) (hb : b ∈ bs) (hused : b.used = true)
    {t : MmState} {a : Nat} (hpay : Payload s bs t (a + 24) newSize) :
    a + 24 + hdrSize t.mem a ≤ b.addr ∨ b.stop ≤ a := by
  have hfree := (payload_iff.mp hpay).2.disjoint h hp hb hused
  rw [Block.bytes, Set.Ico_disjoint_Ico] at hfree
  unfold Block.stop at hfree ⊢
  omega

theorem kreallocServes_moves (h : HeapReady s bs) (hp : FreePagesApart s bs) (hlt : newSize < 2 ^ 64)
    (hb : b ∈ bs) (hused : b.used = true) (hsmall : b.size < newSize) :
    KreallocServes s bs (b.addr + 24) newSize ↔ (Obtains s bs newSize → Within s bs newSize) := by
  have htop := h.top b hb
  unfold Block.stop at htop
  have hblock := h.blockOf hb
  constructor
  · intro hserves hobt
    obtain ⟨a, t, hk, hpay, -⟩ := kmalloc_obtained h hp hlt hobt
    have hkr := (krealloc_moves h hb hsmall (Nat.succ_ne_zero _)).mpr ⟨t, hk, rfl⟩
    rcases (hserves _ _ hkr (Nat.succ_ne_zero _)).1 with ⟨-, -, hbig⟩ | hmoved
    · rw [hblock] at hbig
      omega
    · have hapart := Payload.apart h hp hb hused hmoved
      have hhdr : hdrSize (movePayload t (a + 24) (b.addr + 24)).mem a = hdrSize t.mem a := by
        unfold Block.stop at hapart
        exact load64_congr fun x h₁ h₂ => movePayload_frame h hb (by omega) (by omega)
      exact hpay.mp ((Payload.congr hhdr).mp hmoved)
  · intro hwithin p s' hkr hne
    -- what `kmalloc` gave, as it is after the copy and the release
    obtain ⟨t, hk, hs'⟩ := (krealloc_moves h hb hsmall hne).mp hkr
    have hobt : Obtains s bs newSize := by
      by_contra hnot
      exact hne (kmalloc_null h hp hnot hk)
    obtain ⟨a, t', hk', hpay, hkeeps⟩ := kmalloc_obtained h hp hlt hobt
    obtain ⟨rfl, rfl⟩ := Prod.mk.inj (Option.some.inj (hk.symm.trans hk'))
    have hpay := hpay.mpr (hwithin hobt)
    have hkeeps := hkeeps (hwithin hobt) b hb hused
    have hlarge := (payload_iff.mp hpay).1
    have hapart := Payload.apart h hp hb hused hpay
    unfold Block.stop at hapart
    have hold : hdrSize t.mem b.addr = b.size := by
      rw [← (h.list.hdrs b hb).size]
      refine load64_congr fun x h₁ h₂ => hkeeps x ?_
      rw [Block.mem_bytes]
      unfold Block.stop
      omega
    have hhdr : hdrSize (movePayload t (a + 24) (b.addr + 24)).mem a = hdrSize t.mem a :=
      load64_congr fun x h₁ h₂ => movePayload_frame h hb (by omega) (by omega)
    rw [hs', hblock]
    refine ⟨Or.inr ((Payload.congr hhdr).mpr hpay), fun _ i hi => ?_⟩
    rw [movePayload_copies h hb hold (by unfold Block.stop; omega) (by omega)]
    refine hkeeps _ ?_
    rw [Block.mem_bytes]
    unfold Block.stop
    omega

/-- Of the null pointer `krealloc` is `kmalloc`. -/
theorem kreallocServes_null : KreallocServes s bs 0 newSize ↔ KmallocServes s bs newSize := by
  have hcall : krealloc s 0 newSize = kmalloc s newSize := if_pos rfl
  unfold KreallocServes KmallocServes
  rw [hcall]
  constructor
  · intro hserves p s' hk hne
    exact (hserves p s' hk hne).1.resolve_left fun hsame => hne hsame.1
  · intro hserves p s' hk hne
    exact ⟨Or.inr (hserves p s' hk hne), fun hnull => absurd rfl hnull⟩

/-- A block that is large enough stays. -/
theorem kreallocServes_stays (h : HeapReady s bs) (hb : b ∈ bs) (hlarge : newSize ≤ b.size) :
    KreallocServes s bs (b.addr + 24) newSize := by
  have htop := h.top b hb
  unfold Block.stop at htop
  intro p s' hkr hne
  have hsub : sub64 (b.addr + 24) 24 = b.addr := by unfold sub64; omega
  unfold krealloc at hkr
  rw [if_neg (Nat.succ_ne_zero _)] at hkr
  by_cases hzero : newSize = 0
  · rw [if_pos hzero] at hkr
    exact absurd (Prod.mk.inj (Option.some.inj hkr)).1.symm hne
  · rw [if_neg hzero, hsub] at hkr
    dsimp only at hkr
    rw [(h.list.hdrs b hb).size, if_pos hlarge] at hkr
    obtain ⟨rfl, rfl⟩ := Prod.mk.inj (Option.some.inj hkr)
    rw [h.blockOf hb]
    exact ⟨Or.inl ⟨rfl, rfl, hlarge⟩, fun _ _ _ => rfl⟩

theorem kreallocServes_iff (h : HeapReady s bs) (hp : FreePagesApart s bs) (hlt : newSize < 2 ^ 64)
    (hptr : ptr = 0 ∨ ptr ∈ liveAllocs s) :
    KreallocServes s bs ptr newSize ↔
      ((ptr ≠ 0 → (blockOf s ptr).size < newSize) → Obtains s bs newSize → Within s bs newSize) := by
  rcases hptr with rfl | hptr
  · rw [kreallocServes_null, kmallocServes_iff h hp hlt]
    constructor
    · intro hwithin _
      exact hwithin
    · intro hwithin
      exact hwithin fun hnull => absurd rfl hnull
  · obtain ⟨b, hb, hused, rfl⟩ := (h.live ptr).mp hptr
    rw [h.blockOf hb]
    by_cases hsmall : b.size < newSize
    · rw [kreallocServes_moves h hp hlt hb hused hsmall]
      constructor
      · intro hwithin _
        exact hwithin
      · intro hwithin
        exact hwithin fun _ => hsmall
    · exact iff_of_true (kreallocServes_stays h hb (Nat.le_of_not_lt hsmall)) fun hgrows =>
        absurd (hgrows (Nat.succ_ne_zero _)) hsmall

/-- **When the sizes are right.** For a heap in order and any sizes, `kmalloc`, `kcalloc` and
    `krealloc` hand out a payload of the size asked for exactly when the request is `Within`,
    or obtains nothing, or, for `krealloc`, the old block is large enough. -/
theorem sizes_iff (h : HeapReady s bs) (hp : FreePagesApart s bs) (hsize : size < 2 ^ 64)
    (hnew : newSize < 2 ^ 64) (hptr : ptr = 0 ∨ ptr ∈ liveAllocs s) :
    (KmallocServes s bs size ↔ (Obtains s bs size → Within s bs size)) ∧
      (KcallocServes s bs nmemb size ↔
        (Obtains s bs (nmemb * size % 2 ^ 64) → Within s bs (nmemb * size))) ∧
      (KreallocServes s bs ptr newSize ↔
        ((ptr ≠ 0 → (blockOf s ptr).size < newSize) → Obtains s bs newSize → Within s bs newSize)) :=
  ⟨kmallocServes_iff h hp hsize, kcallocServes_iff h hp, kreallocServes_iff h hp hnew hptr⟩

/-! The heap of one page beside sixteen pages, at boot. -/

def firstBlock : Block := { addr := 0x50000000, size := 0xFE8, used := false }

theorem smallHeap_ready : HeapReady smallHeap.mm [firstBlock] := by
  have hboot : Tiled smallHeap [firstBlock] 0 := tiled_heapBoot _ (by decide) (by decide) (by omega)
  refine ⟨hboot.list, hboot.arena, ?_, ?_, ?_⟩
  all_goals
    intro b hb
    rw [List.mem_singleton.mp hb]
    decide +kernel

theorem smallHeap_pagesApart : FreePagesApart smallHeap.mm [firstBlock] := by
  have hbase : smallHeap.mm.physBase = 0x41000000 ∧ smallHeap.mm.totalPages = 16 ∧
      smallHeap.mm.pageBitmap = 0x41000000 ∧ smallHeap.mm.bitmapBytes = 8 ∧
      smallHeap.mm.pageBit 0 = false := by decide +kernel
  obtain ⟨hphys, htotal, hmap, hlen, hfirst⟩ := hbase
  refine ⟨by rw [hphys], by rw [hphys, htotal]; decide, ?_, ?_⟩
  · refine Set.disjoint_left.mpr fun x hx hxb => ?_
    have hlt := (freePageBytes_lt hx).2
    obtain ⟨b, hb, hxb⟩ := mem_heapBytes.mp hxb
    rw [List.mem_singleton.mp hb, Block.mem_bytes] at hxb
    have hlow : 0x50000000 ≤ x := hxb.1
    rw [hphys, htotal] at hlt
    omega
  · refine Set.disjoint_left.mpr fun x hx hxb => ?_
    obtain ⟨idx, -, hfree, hlow, -⟩ := mem_freePageBytes.mp hx
    have hne : idx ≠ 0 := by
      rintro rfl
      rw [hfirst] at hfree
      exact Bool.noConfusion hfree
    rw [hmap, hlen, Set.mem_Ico] at hxb
    rw [hphys] at hlow
    omega

theorem firstBlock_fits (hn : alignUp n 16 ≤ 0xFE8) : SomeFits [firstBlock] n :=
  ⟨firstBlock, List.mem_singleton.mpr rfl, rfl, hn⟩

theorem sizes_hundred :
    KmallocServes smallHeap.mm [firstBlock] 100 ∧ KcallocServes smallHeap.mm [firstBlock] 2 100 ∧
      KreallocServes smallHeap.mm [firstBlock] 0 100 := by
  have hsizes := @sizes_iff _ _ 100 2 100 0 smallHeap_ready smallHeap_pagesApart (by decide) (by decide) (Or.inl rfl)
  obtain ⟨hkmalloc, hkcalloc, hkrealloc⟩ := hsizes
  have hwithin : Within smallHeap.mm [firstBlock] 100 := ⟨by decide, Or.inl (firstBlock_fits (by decide))⟩
  have hproduct : Within smallHeap.mm [firstBlock] (2 * 100) := ⟨by decide, Or.inl (firstBlock_fits (by decide))⟩
  exact ⟨hkmalloc.mpr fun _ => hwithin, hkcalloc.mpr fun _ => hproduct, hkrealloc.mpr fun _ _ => hwithin⟩

/-- The largest size is given a block of no bytes, and a product that wraps to 16 one of 16. -/
theorem largest_size_wraps :
    ((kmalloc smallHeap.mm (2 ^ 64 - 1)).map fun r => (r.1, (blockOf r.2 r.1).size)) = some (0x50000018, 0) ∧
      ¬KmallocServes smallHeap.mm [firstBlock] (2 ^ 64 - 1) ∧
      ¬KcallocServes smallHeap.mm [firstBlock] (2 ^ 60 + 1) 16 := by
  refine ⟨by decide +kernel, ?_, ?_⟩
  · rw [kmallocServes_iff smallHeap_ready smallHeap_pagesApart (by decide)]
    intro hwithin
    exact absurd (hwithin ⟨by decide, Or.inl (firstBlock_fits (by decide))⟩).1 (by decide)
  · rw [kcallocServes_iff smallHeap_ready smallHeap_pagesApart]
    intro hwithin
    exact absurd (hwithin ⟨by decide, Or.inl (firstBlock_fits (by decide))⟩).1 (by decide)

end Crimson.Mm
