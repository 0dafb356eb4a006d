import Crimson.Lib.Linked
import Crimson.Mm.Heap
import Mathlib.Order.Interval.Set.Disjoint
import Mathlib.Order.CompletePartialOrder

/-!
# The heap as a list of blocks

The abstract heap: a list of blocks with their address, size and state. `HeapSeg` says
that a stretch of the list in memory is such a list of blocks, and an `Arena` is a list of
blocks that do not overlap. The abstract operations `Block.split` and `Block.release` are
what `carve` and `kfree` do to the list: `carve_heapSeg` and `kfree_heapSeg`.

List order is not address order, and `release` does not look: it absorbs the *list*
successor of a block, wherever that is.
-/

set_option autoImplicit false

namespace Crimson.Mm

open Crimson.Lib

structure Block where
  addr : Nat
  size : Nat
  used : Bool
deriving DecidableEq, Repr

/-- The address after the block: 24 bytes of header and the payload. -/
def Block.stop (b : Block) : Nat := b.addr + 24 + b.size

/-- The two blocks have no byte in common. -/
def Block.Apart (a b : Block) : Prop := a.stop ≤ b.addr ∨ b.stop ≤ a.addr

theorem Block.Apart.symm {a b : Block} (h : a.Apart b) : b.Apart a := Or.symm h

instance : Std.Symm Block.Apart := ⟨fun _ _ => Block.Apart.symm⟩

/-- A C pointer: 0 is null. -/
def ptr (a : Nat) : Option Nat := if a = 0 then none else some a

@[simp] theorem ptr_zero : ptr 0 = none := rfl

theorem ptr_of_ne {a : Nat} (h : a ≠ 0) : ptr a = some a := if_neg h

theorem ptr_eq_some {a b : Nat} : ptr a = some b ↔ a = b ∧ b ≠ 0 := by
  unfold ptr
  split
  case isTrue h => simp [h]; omega
  case isFalse h =>
    simp only [Option.some.injEq]
    constructor
    · rintro rfl; exact ⟨rfl, h⟩
    · exact fun hab => hab.1

theorem ptr_injective : Function.Injective ptr := by
  intro a b hab
  unfold ptr at hab
  split at hab <;> split at hab <;> simp_all

/-- The `next` field as a link. -/
def nextOf (m : Mem) (block : Nat) : Option Nat := ptr (hdrNext m block)

/-- The header in memory is that of `b`. -/
structure HdrOk (m : Mem) (b : Block) : Prop where
  addr : b.addr ≠ 0
  size : hdrSize m b.addr = b.size
  used : hdrUsed m b.addr = if b.used then 1 else 0
  magic : hdrMagic m b.addr = heapMagic

/-- Walking the list from `h` meets the blocks `bs`, intact, and then stands at `t`. -/
structure HeapSeg (m : Mem) (h : Nat) (bs : List Block) (t : Nat) : Prop where
  links : Segment (nextOf m) (ptr h) (bs.map Block.addr) (ptr t)
  hdrs : ∀ b ∈ bs, HdrOk m b

/-- The blocks are pairwise apart and end in the 64-bit address space. -/
structure Arena (bs : List Block) : Prop where
  apart : bs.Pairwise Block.Apart
  top : ∀ b ∈ bs, b.stop ≤ 2 ^ 64

/-- What `kmalloc` makes of a free block it takes for `size` bytes. -/
def Block.split (b : Block) (size : Nat) : List Block :=
  if size + 40 ≤ b.size then
    [{ addr := b.addr, size := size, used := true },
      { addr := b.addr + 24 + size, size := b.size - size - 24, used := false }]
  else [{ b with used := true }]

/-- The fit test of `kmalloc` on a block. -/
def Block.Fits (b : Block) (size : Nat) : Prop := b.used = false ∧ size ≤ b.size

instance (b : Block) (size : Nat) : Decidable (b.Fits size) := inferInstanceAs (Decidable (_ ∧ _))

/-- The bytes of a block, header included. -/
def Block.bytes (b : Block) : Set Nat := Set.Ico b.addr b.stop

/-- The bytes of a list of blocks. -/
def heapBytes (bs : List Block) : Set Nat := {x | ∃ b ∈ bs, x ∈ b.bytes}

variable {m m' : Mem} {h t size : Nat} {bs l l' l₁ l₂ : List Block} {b : Block}

theorem Block.mem_bytes {x : Nat} : x ∈ b.bytes ↔ b.addr ≤ x ∧ x < b.stop := Iff.rfl

@[simp] theorem mem_heapBytes {x : Nat} : x ∈ heapBytes bs ↔ ∃ b ∈ bs, x ∈ b.bytes := Iff.rfl

theorem heapBytes_append : heapBytes (l₁ ++ l₂) = heapBytes l₁ ∪ heapBytes l₂ := by
  ext x
  simp only [mem_heapBytes, List.mem_append, Set.mem_union]
  constructor
  · rintro ⟨b, hb | hb, hx⟩
    · exact Or.inl ⟨b, hb, hx⟩
    · exact Or.inr ⟨b, hb, hx⟩
  · rintro (⟨b, hb, hx⟩ | ⟨b, hb, hx⟩)
    · exact ⟨b, Or.inl hb, hx⟩
    · exact ⟨b, Or.inr hb, hx⟩

@[simp] theorem heapBytes_nil : heapBytes [] = ∅ := by
  ext x
  simp

theorem heapBytes_cons : heapBytes (b :: bs) = b.bytes ∪ heapBytes bs := by
  ext x
  simp

/-- Being apart is having no byte in common, since no block is empty. -/
theorem Block.apart_iff {a : Block} : a.Apart b ↔ Disjoint a.bytes b.bytes := by
  rw [Block.bytes, Block.bytes, Set.Ico_disjoint_Ico]
  unfold Block.Apart Block.stop
  omega

/-- Exchange a stretch of an arena for blocks that lie within it. -/
theorem Arena.replace (ha : Arena (l₁ ++ l ++ l₂)) (hl : l'.Pairwise Block.Apart)
    (hsub : heapBytes l' ⊆ heapBytes l) : Arena (l₁ ++ l' ++ l₂) := by
  have happ := List.pairwise_append.mp ha.apart
  have happ₁ := List.pairwise_append.mp happ.1
  -- A block apart from everything in `l` is apart from everything in `l'`.
  have hfar : ∀ a : Block, (∀ c ∈ l, a.Apart c) → ∀ c ∈ l', a.Apart c := by
    intro a hac c hc
    refine Block.apart_iff.mpr (Set.disjoint_left.mpr fun x hxa hxc => ?_)
    obtain ⟨d, hd, hxd⟩ := hsub ⟨c, hc, hxc⟩
    exact Set.disjoint_left.mp (Block.apart_iff.mp (hac d hd)) hxa hxd
  refine ⟨List.pairwise_append.mpr ⟨List.pairwise_append.mpr ⟨happ₁.1, hl, ?_⟩, happ.2.1, ?_⟩, ?_⟩
  · intro a haa
    exact hfar a (happ₁.2.2 a haa)
  · intro c hc d hd
    rcases List.mem_append.mp hc with hc | hc
    · exact happ.2.2 c (by simp [hc]) d hd
    · exact (hfar d (fun e he => (happ.2.2 e (by simp [he]) d hd).symm) c hc).symm
  · intro c hc
    by_cases hcl : c ∈ l'
    · have hlast : c.stop - 1 ∈ c.bytes := by
        rw [Block.mem_bytes]
        unfold Block.stop
        omega
      obtain ⟨d, hd, hxd⟩ := hsub ⟨c, hcl, hlast⟩
      have htop := ha.top d (by simp [hd])
      rw [Block.mem_bytes] at hxd
      omega
    · refine ha.top c ?_
      simp only [List.mem_append] at hc ⊢
      tauto

theorem Block.split_bytes : heapBytes (b.split size) = b.bytes := by
  ext x
  unfold Block.split
  split
  case isTrue h =>
    simp only [mem_heapBytes, List.mem_cons, List.not_mem_nil, or_false, exists_eq_or_imp,
      exists_eq_left, Block.mem_bytes, Block.stop]
    omega
  case isFalse h =>
    simp [Block.mem_bytes, Block.stop]

theorem Block.split_apart : (b.split size).Pairwise Block.Apart := by
  unfold Block.split
  split
  case isTrue h =>
    refine List.pairwise_cons.mpr ⟨?_, List.pairwise_singleton _ _⟩
    intro c hc
    rw [List.mem_singleton.mp hc]
    exact Or.inl le_rfl
  case isFalse h => exact List.pairwise_singleton _ _

/-- An arena has no more blocks than there are addresses for them. -/
theorem Arena.length_le (ha : Arena bs) {lo : Nat} (hlo : ∀ b ∈ bs, lo ≤ b.addr) :
    bs.length ≤ 2 ^ 64 - lo := by
  have hnd : (bs.map Block.addr).Nodup := by
    refine List.pairwise_map.mpr (ha.apart.imp ?_)
    intro a b hab he
    unfold Block.Apart Block.stop at hab
    omega
  have hsub : (bs.map Block.addr).toFinset ⊆ Finset.Ico lo (2 ^ 64) := by
    intro x hx
    obtain ⟨b, hb, rfl⟩ := List.mem_map.mp (List.mem_toFinset.mp hx)
    have htop := ha.top b hb
    unfold Block.stop at htop
    exact Finset.mem_Ico.mpr ⟨hlo b hb, by omega⟩
  have hcard := Finset.card_le_card hsub
  rwa [List.toFinset_card_of_nodup hnd, Nat.card_Ico, List.length_map] at hcard

/-! ## Frames -/

theorem HdrOk.congr (hb : HdrOk m b) (hm : AgreeOn m m' b.addr 24) : HdrOk m' b where
  addr := hb.addr
  size := (load64_congr (hm.mono le_rfl (by omega))).trans hb.size
  used := (load32_congr (hm.mono (by omega) (by omega))).trans hb.used
  magic := (load32_congr (hm.mono (by omega) (by omega))).trans hb.magic

theorem nextOf_congr {a : Nat} (hm : AgreeOn m m' a 24) : nextOf m' a = nextOf m a := by
  unfold nextOf hdrNext
  rw [load64_congr (hm.mono (by omega) (by omega))]

/-- The list depends on nothing but its own headers. -/
theorem HeapSeg.congr (hs : HeapSeg m h bs t) (hm : ∀ b ∈ bs, AgreeOn m m' b.addr 24) :
    HeapSeg m' h bs t where
  links := hs.links.congr fun a ha => by
    obtain ⟨b, hb, rfl⟩ := List.mem_map.mp ha
    exact nextOf_congr (hm b hb)
  hdrs := fun b hb => (hs.hdrs b hb).congr (hm b hb)

/-! ## Taking the list apart -/

@[simp] theorem heapSeg_nil : HeapSeg m h [] t ↔ h = t := by
  constructor
  · intro hs
    exact ptr_injective hs.links
  · intro he
    exact ⟨congrArg ptr he, fun b hb => absurd hb (by simp)⟩

theorem heapSeg_cons :
    HeapSeg m h (b :: bs) t ↔ h = b.addr ∧ HdrOk m b ∧ HeapSeg m (hdrNext m b.addr) bs t := by
  constructor
  · intro hs
    obtain ⟨hhead, htail⟩ := hs.links
    exact ⟨(ptr_eq_some.mp hhead).1, hs.hdrs b (by simp), htail, fun c hc => hs.hdrs c (by simp [hc])⟩
  · rintro ⟨rfl, hb, hs⟩
    refine ⟨⟨ptr_of_ne hb.addr, hs.links⟩, ?_⟩
    intro c hc
    rcases List.mem_cons.mp hc with rfl | hc
    · exact hb
    · exact hs.hdrs c hc

theorem heapSeg_append :
    HeapSeg m h (l₁ ++ l₂) t ↔ ∃ x, HeapSeg m h l₁ x ∧ HeapSeg m x l₂ t := by
  induction l₁ generalizing h with
  | nil => simp
  | cons b l₁ ih =>
    simp only [List.cons_append, heapSeg_cons, ih]
    constructor
    · rintro ⟨he, hb, x, h₁, h₂⟩
      exact ⟨x, ⟨he, hb, h₁⟩, h₂⟩
    · rintro ⟨x, ⟨he, hb, h₁⟩, h₂⟩
      exact ⟨he, hb, x, h₁, h₂⟩

/-- Rewrite the stretch `l₁` of a list: what follows it is untouched. -/
theorem HeapSeg.replace {l : List Block} (hs : HeapSeg m h (l₁ ++ b :: l₂) t)
    (hpre : ∀ c ∈ l₁, AgreeOn m m' c.addr 24) (hpost : ∀ c ∈ l₂, AgreeOn m m' c.addr 24)
    (hl : HeapSeg m' b.addr l (hdrNext m b.addr)) : HeapSeg m' h (l₁ ++ l ++ l₂) t := by
  obtain ⟨x, h₁, h₂⟩ := heapSeg_append.mp hs
  obtain ⟨rfl, _, h₃⟩ := heapSeg_cons.mp h₂
  rw [heapSeg_append]
  exact ⟨_, heapSeg_append.mpr ⟨_, h₁.congr hpre, hl⟩, h₃.congr hpost⟩

/-! ## The walk -/

/-- Walking intact blocks either stops at the first that fits or passes them all. -/
theorem firstFit_heapSeg (hs : HeapSeg m h bs t) {fuel : Nat} (hfuel : bs.length ≤ fuel) :
    (∃ l₁ b l₂, bs = l₁ ++ b :: l₂ ∧ b.Fits size ∧ firstFit m size fuel h = some (.found b.addr)) ∨
    ((∀ b ∈ bs, ¬b.Fits size) ∧
      firstFit m size fuel h = firstFit m size (fuel - bs.length) t) := by
  induction bs generalizing h fuel with
  | nil =>
    obtain rfl := heapSeg_nil.mp hs
    exact Or.inr ⟨fun b hb => absurd hb (by simp), rfl⟩
  | cons b bs ih =>
    obtain ⟨rfl, hb, hs⟩ := heapSeg_cons.mp hs
    cases fuel with
    | zero => simp at hfuel
    | succ fuel =>
      have htest : (hdrUsed m b.addr = 0 ∧ size ≤ hdrSize m b.addr) ↔ b.Fits size := by
        rw [hb.used, hb.size, Block.Fits]
        cases b.used <;> simp
      rw [firstFit, if_neg hb.addr, if_neg (by simp [hb.magic])]
      by_cases hfit : b.Fits size
      · rw [if_pos (htest.mpr hfit)]
        exact Or.inl ⟨[], b, bs, rfl, hfit, rfl⟩
      · rw [if_neg (mt htest.mp hfit)]
        rcases ih hs (by simpa using hfuel) with ⟨l₁, c, l₂, rfl, hc, he⟩ | ⟨hnone, he⟩
        · exact Or.inl ⟨b :: l₁, c, l₂, rfl, hc, he⟩
        · refine Or.inr ⟨?_, ?_⟩
          · intro c hc
            rcases List.mem_cons.mp hc with rfl | hc
            · exact hfit
            · exact hnone c hc
          · rw [he, List.length_cons, Nat.add_sub_add_right]

/-! ## What the functions write -/

theorem Block.Apart.agreeOn {c : Block} (hbc : b.Apart c)
    (hm : ∀ x, x < b.addr ∨ b.stop ≤ x → m' x = m x) : AgreeOn m m' c.addr 24 := by
  intro x h₁ h₂
  unfold Block.Apart Block.stop at hbc
  refine hm x ?_
  unfold Block.stop
  omega

/-- `carve` writes inside the block it takes. -/
theorem carve_frame (hb : HdrOk m b) (htop : b.stop ≤ 2 ^ 64)
    (hsize : size + 40 < 2 ^ 64) {x : Nat} (hx : x < b.addr ∨ b.stop ≤ x) :
    carve m b.addr size x = m x := by
  unfold Block.stop at htop hx
  unfold carve
  rw [Nat.mod_eq_of_lt (by omega : size + 24 + 16 < 2 ^ 64), hb.size]
  by_cases hsplit : size + 24 + 16 ≤ b.size
  · have hnew : (b.addr + 24 + size) % 2 ^ 64 = b.addr + 24 + size := Nat.mod_eq_of_lt (by omega)
    simp only [if_pos hsplit, hnew, setSize, setUsed, setMagic, setNext, store64, store32]
    simp (disch := omega) only [storeBytes_of_notMem]
  · simp only [if_neg hsplit, setUsed, store32]
    simp (disch := omega) only [storeBytes_of_notMem]

/-- The blocks `carve` leaves in place of `b`, from `b` to what followed it. -/
theorem carve_split (hb : HdrOk m b) (htop : b.stop ≤ 2 ^ 64) (hfit : b.Fits size)
    (hsize : size + 40 < 2 ^ 64) :
    HeapSeg (carve m b.addr size) b.addr (b.split size) (hdrNext m b.addr) := by
  have hle := hfit.2
  have hne := hb.addr
  have hnext : hdrNext m b.addr < 2 ^ 64 := load64_lt
  unfold Block.stop at htop
  unfold carve Block.split
  rw [Nat.mod_eq_of_lt (by omega : size + 24 + 16 < 2 ^ 64), hb.size]
  by_cases hsplit : size + 40 ≤ b.size
  · have hnew : (b.addr + 24 + size) % 2 ^ 64 = b.addr + 24 + size := Nat.mod_eq_of_lt (by omega)
    have hrest : sub64 (sub64 b.size size) 24 = b.size - size - 24 := by unfold sub64; omega
    have hmagic := hb.magic
    rw [if_pos (by omega), if_pos hsplit, heapSeg_cons, heapSeg_cons, heapSeg_nil, hnew, hrest]
    simp only [heapMagic, hdrNext, hdrMagic, setSize, setUsed, setNext, setMagic] at hmagic hnext ⊢
    refine ⟨trivial, ⟨hne, ?_, ?_, ?_⟩, ?_, ⟨by dsimp only; omega, ?_, ?_, ?_⟩, ?_⟩
    all_goals
      simp (disch := omega) only [load64_store64_same, load32_store32_same, load64_store64_disjoint,
        load64_store32_disjoint, load32_store64_disjoint, load32_store32_disjoint, hmagic,
        hdrSize, hdrUsed, hdrMagic, heapMagic, if_true, Bool.false_eq_true, if_false]
  · rw [if_neg (by omega), if_neg hsplit, heapSeg_cons, heapSeg_nil]
    have hsame := hb.size
    have hmagic := hb.magic
    simp only [hdrSize, hdrNext, hdrMagic, setUsed] at hsame hmagic ⊢
    refine ⟨trivial, ⟨hne, ?_, ?_, ?_⟩, ?_⟩
    all_goals
      simp (disch := omega) only [load32_store32_same, load64_store32_disjoint,
        load32_store32_disjoint, hsame, hmagic, hdrSize, hdrUsed, hdrMagic, if_true]

/-- The sizes `kmalloc` is called with: rounding up to whole pages does not wrap. -/
def NoWrap (size : Nat) : Prop := size + 15 + 24 + 4095 < 2 ^ 64

instance (size : Nat) : Decidable (NoWrap size) := inferInstanceAs (Decidable (_ < _))

theorem NoWrap.alignUp_spec (h : NoWrap size) :
    alignUp size 16 = (size + 15) / 16 * 16 ∧ size ≤ alignUp size 16 ∧
      alignUp size 16 + 24 + 4095 < 2 ^ 64 := by
  unfold NoWrap at h
  unfold alignUp
  omega

/-- Rounding up to 16 is done once. -/
theorem alignUp_twice (x : Nat) : alignUp (alignUp x 16) 16 = alignUp x 16 := by
  unfold alignUp
  omega

/-- The pages asked for hold the block asked for. -/
theorem NoWrap.le_pagesNeeded (h : NoWrap size) :
    alignUp size 16 + 24 ≤ pagesNeeded (alignUp size 16) * 4096 := by
  have hsize := h.alignUp_spec
  unfold pagesNeeded
  generalize alignUp size 16 = n at hsize
  unfold alignUp
  omega

/-- The block that `growHeap` makes of new pages. -/
def grownBlock (newPages pages : Nat) : Block where
  addr := newPages
  size := pages * 4096 - 24
  used := false

theorem growHeap_frame (s : MmState) {newPages pages x : Nat} (hx : x < newPages ∨ newPages + 24 ≤ x) :
    (growHeap s newPages pages).mem x = s.mem x := by
  simp only [growHeap, setSize, setUsed, setMagic, setNext, store64, store32]
  simp (disch := omega) only [storeBytes_of_notMem]

theorem growHeap_hdrOk (s : MmState) {newPages pages : Nat} (hne : newPages ≠ 0) (hpages : 0 < pages)
    (hlt : pages * 4096 < 2 ^ 64) :
    HdrOk (growHeap s newPages pages).mem (grownBlock newPages pages) := by
  have hsize : sub64 (pages * 4096 % 2 ^ 64) 24 = pages * 4096 - 24 := by unfold sub64; omega
  unfold growHeap grownBlock
  simp only [hsize, setSize, setUsed, setMagic, setNext]
  refine ⟨hne, ?_, ?_, ?_⟩
  all_goals
    simp (disch := omega) only [load64_store64_same, load32_store32_same, load64_store64_disjoint,
      load64_store32_disjoint, load32_store64_disjoint, load32_store32_disjoint,
      hdrSize, hdrUsed, hdrMagic, heapMagic, Bool.false_eq_true, if_false]

theorem growHeap_next (s : MmState) {newPages pages : Nat} (hstart : s.heapStart < 2 ^ 64) :
    hdrNext (growHeap s newPages pages).mem newPages = s.heapStart := by
  simp only [growHeap, hdrNext, setNext]
  exact load64_store64_same hstart

theorem grownBlock_stop (newPages : Nat) {pages : Nat} (hpages : 0 < pages) :
    (grownBlock newPages pages).stop = newPages + pages * 4096 := by
  unfold Block.stop grownBlock
  dsimp only
  omega

theorem grownBlock_bytes (newPages : Nat) {pages : Nat} (hpages : 0 < pages) :
    (grownBlock newPages pages).bytes = Set.Ico newPages (newPages + pages * 4096) := by
  rw [Block.bytes, grownBlock_stop _ hpages]
  rfl

/-- New pages apart from the blocks of the list: they are its first block. -/
theorem HeapSeg.grow {s : MmState} {newPages pages : Nat} (hs : HeapSeg s.mem s.heapStart bs t)
    (hhead : s.heapStart < 2 ^ 64) (hne : newPages ≠ 0) (hpages : 0 < pages) (hlt : pages * 4096 < 2 ^ 64)
    (hapart : ∀ b ∈ bs, (grownBlock newPages pages).Apart b) :
    HeapSeg (growHeap s newPages pages).mem newPages (grownBlock newPages pages :: bs) t := by
  have hagree : ∀ b ∈ bs, AgreeOn s.mem (growHeap s newPages pages).mem b.addr 24 := by
    intro b hb
    refine (hapart b hb).agreeOn fun x hx => growHeap_frame s ?_
    rw [grownBlock_stop _ hpages] at hx
    dsimp only [grownBlock] at hx
    omega
  have hlist := hs.congr hagree
  have hnext : hdrNext (growHeap s newPages pages).mem newPages = s.heapStart := growHeap_next s hhead
  rw [← hnext] at hlist
  exact heapSeg_cons.mpr ⟨rfl, growHeap_hdrOk s hne hpages hlt, hlist⟩

/-- What `kfree` makes of a block and the blocks after it. -/
def Block.release (b : Block) : List Block → List Block
  | [] => [{ b with used := false }]
  | c :: rest =>
    if c.used then { b with used := false } :: c :: rest
    else { b with size := b.size + (24 + c.size), used := false } :: rest

theorem Block.release_keep {c : Block} (hc : c.used = true) (rest : List Block) :
    b.release (c :: rest) = { b with used := false } :: c :: rest := if_pos hc

theorem Block.release_merge {c : Block} (hc : c.used = false) (rest : List Block) :
    b.release (c :: rest) = { b with size := b.size + (24 + c.size), used := false } :: rest :=
  if_neg (by simp [hc])

/-- `kfree` writes the header of the block it is given, and nothing else. -/
theorem kfree_frame (s : MmState) {x : Nat} (hb : b.addr + 24 < 2 ^ 64)
    (hx : x < b.addr ∨ b.addr + 24 ≤ x) : (kfree s (b.addr + 24)).mem x = s.mem x := by
  have hblock : sub64 (b.addr + 24) 24 = b.addr := by unfold sub64; omega
  have hnull : b.addr + 24 ≠ 0 := by omega
  simp only [kfree, if_neg hnull, hblock]
  split
  · rfl
  split
  · rfl
  split
  all_goals
    simp only [setUsed, setNext, setSize, store64, store32]
    simp (disch := omega) only [storeBytes_of_notMem]

theorem kfree_heapStart (s : MmState) (ptr : Nat) :
    kfree s ptr = { s with mem := (kfree s ptr).mem } := by
  unfold kfree
  split
  · rfl
  dsimp only
  split
  · rfl
  split
  · rfl
  split <;> rfl

/-- `kfree` on the block `b`: the flag is cleared, and a free successor is absorbed. -/
theorem kfree_eq (s : MmState) (hb : HdrOk s.mem b) (hused : b.used = true) (htop : b.addr + 24 < 2 ^ 64) :
    kfree s (b.addr + 24) =
      let m := setUsed s.mem b.addr 0
      if hdrNext s.mem b.addr ≠ 0 ∧ hdrUsed m (hdrNext s.mem b.addr) = 0 then
        let m' := setSize m b.addr ((b.size + (24 + hdrSize m (hdrNext s.mem b.addr))) % 2 ^ 64)
        { s with mem := setNext m' b.addr (hdrNext m' (hdrNext s.mem b.addr)) }
      else { s with mem := m } := by
  have hblock : sub64 (b.addr + 24) 24 = b.addr := by unfold sub64; omega
  have hflag := hb.used
  rw [hused, if_pos rfl] at hflag
  have hnext : hdrNext (setUsed s.mem b.addr 0) b.addr = hdrNext s.mem b.addr := by
    simp only [hdrNext, setUsed]
    exact load64_store32_disjoint (by omega)
  have hsize : hdrSize (setUsed s.mem b.addr 0) b.addr = b.size := by
    rw [← hb.size]
    simp only [hdrSize, setUsed]
    exact load64_store32_disjoint (by omega)
  have hlive : hdrUsed s.mem b.addr ≠ 0 := by omega
  rw [kfree, if_neg (by omega)]
  simp only [hblock, hb.magic, ne_eq, not_true, if_false, hlive, hnext, hsize]

theorem setUsed_zero_hdrOk (hb : HdrOk m b) :
    HdrOk (setUsed m b.addr 0) { b with used := false } ∧
      hdrNext (setUsed m b.addr 0) b.addr = hdrNext m b.addr := by
  have hsize := hb.size
  have hmagic := hb.magic
  simp only [hdrSize, hdrMagic] at hsize hmagic
  refine ⟨⟨hb.addr, ?_, ?_, ?_⟩, ?_⟩
  all_goals
    simp (disch := omega) only [load32_store32_same, load64_store32_disjoint, load32_store32_disjoint,
      hdrSize, hdrUsed, hdrMagic, hdrNext, setUsed, hsize, hmagic, Bool.false_eq_true, if_false]

/-- No free successor: only the flag changes. -/
theorem kfree_keep {s : MmState} (hb : HdrOk s.mem b) (hused : b.used = true)
    (htop : b.addr + 24 < 2 ^ 64)
    (hnext : hdrNext s.mem b.addr = 0 ∨
      hdrUsed (setUsed s.mem b.addr 0) (hdrNext s.mem b.addr) ≠ 0) :
    HdrOk (kfree s (b.addr + 24)).mem { b with used := false } ∧
      hdrNext (kfree s (b.addr + 24)).mem b.addr = hdrNext s.mem b.addr := by
  have heq := kfree_eq s hb hused htop
  have hcond : ¬(hdrNext s.mem b.addr ≠ 0 ∧
      hdrUsed (setUsed s.mem b.addr 0) (hdrNext s.mem b.addr) = 0) := by
    rintro ⟨h₁, h₂⟩
    exact hnext.elim h₁ fun h => h h₂
  simp only [if_neg hcond] at heq
  rw [heq]
  exact setUsed_zero_hdrOk hb

/-- A free successor `c` is absorbed. -/
theorem kfree_merge {s : MmState} {c : Block} (hb : HdrOk s.mem b) (hused : b.used = true)
    (hnext : hdrNext s.mem b.addr = c.addr) (hc : HdrOk s.mem c) (hfree : c.used = false)
    (hbc : b.Apart c) (hroom : b.size + (24 + c.size) < 2 ^ 64) (htop : b.addr + 24 < 2 ^ 64) :
    HdrOk (kfree s (b.addr + 24)).mem { b with size := b.size + (24 + c.size), used := false } ∧
      hdrNext (kfree s (b.addr + 24)).mem b.addr = hdrNext s.mem c.addr := by
  have heq := kfree_eq s hb hused htop
  have hflag := hc.used
  have hcsize := hc.size
  have hmagic := hb.magic
  have hcnext : hdrNext s.mem c.addr < 2 ^ 64 := load64_lt
  unfold Block.Apart Block.stop at hbc
  rw [hfree] at hflag
  simp only [hdrUsed, hdrSize, hdrMagic, hdrNext, Bool.false_eq_true, if_false] at hflag hcsize hmagic hcnext
  -- The header of `c` is read through the writes to that of `b`.
  have hread : hdrUsed (setUsed s.mem b.addr 0) c.addr = 0 ∧
      hdrSize (setUsed s.mem b.addr 0) c.addr = c.size := by
    simp (disch := omega) only [hdrUsed, hdrSize, setUsed, load32_store32_disjoint,
      load64_store32_disjoint, hflag, hcsize, and_self]
  have hcond : c.addr ≠ 0 ∧ hdrUsed (setUsed s.mem b.addr 0) c.addr = 0 := ⟨hc.addr, hread.1⟩
  simp only [hnext, if_pos hcond, hread.2, Nat.mod_eq_of_lt hroom] at heq
  rw [heq]
  refine ⟨⟨hb.addr, ?_, ?_, ?_⟩, ?_⟩
  all_goals
    simp (disch := omega) only [load64_store64_same, load32_store32_same, load64_store64_disjoint,
      load64_store32_disjoint, load32_store64_disjoint, load32_store32_disjoint, hmagic,
      hdrSize, hdrUsed, hdrMagic, hdrNext, setUsed, setSize, setNext, Bool.false_eq_true, if_false]

/-- **`kfree` on a live block releases it**: whatever the addresses of the two are, its
    free list successor is absorbed. -/
theorem kfree_heapSeg {s : MmState} (hs : HeapSeg s.mem s.heapStart (l₁ ++ b :: l₂) t)
    (ha : Arena (l₁ ++ b :: l₂)) (hused : b.used = true) (htop : b.addr + 24 < 2 ^ 64)
    (hlast : l₂ = [] → t = 0) :
    HeapSeg (kfree s (b.addr + 24)).mem s.heapStart (l₁ ++ b.release l₂) t := by
  obtain ⟨x, hpre, hrest⟩ := heapSeg_append.mp hs
  obtain ⟨rfl, hb, hrest⟩ := heapSeg_cons.mp hrest
  have happ := List.pairwise_append.mp ha.apart
  have hbl := (List.pairwise_cons.mp happ.2.1).1
  -- Only the header of `b` is written, so every other block is as it was.
  have hagree : ∀ c : Block, b.Apart c → AgreeOn s.mem (kfree s (b.addr + 24)).mem c.addr 24 := by
    intro c hc
    refine hc.agreeOn fun x hx => kfree_frame s htop ?_
    unfold Block.stop at hx
    omega
  have hpre' := hpre.congr fun c hc => hagree c (happ.2.2 c hc b (by simp)).symm
  refine heapSeg_append.mpr ⟨_, hpre', ?_⟩
  cases l₂ with
  | nil =>
    have ht := heapSeg_nil.mp hrest
    obtain ⟨hb', hnext⟩ := kfree_keep hb hused htop (Or.inl (ht.trans (hlast rfl)))
    rw [Block.release, heapSeg_cons, heapSeg_nil]
    exact ⟨rfl, hb', hnext.trans ht⟩
  | cons c rest =>
    obtain ⟨hc, hcok, hrest'⟩ := heapSeg_cons.mp hrest
    have hbc := hbl c (by simp)
    have hafter : ∀ d ∈ c :: rest, AgreeOn s.mem (kfree s (b.addr + 24)).mem d.addr 24 :=
      fun d hd => hagree d (hbl d hd)
    by_cases hcu : c.used = true
    · have hcok' : HdrOk (setUsed s.mem b.addr 0) c := hcok.congr (hbc.agreeOn fun x hx => by
        unfold Block.stop at hx
        exact storeBytes_of_notMem (by omega))
      have hbusy : hdrUsed (setUsed s.mem b.addr 0) (hdrNext s.mem b.addr) ≠ 0 := by
        rw [hc, hcok'.used, if_pos hcu]
        exact one_ne_zero
      obtain ⟨hb', hnext⟩ := kfree_keep hb hused htop (Or.inr hbusy)
      rw [Block.release_keep hcu, heapSeg_cons]
      dsimp only
      rw [hnext]
      exact ⟨rfl, hb', hrest.congr hafter⟩
    · have htopb := ha.top b (by simp)
      have htopc := ha.top c (by simp)
      have hroom : b.size + (24 + c.size) < 2 ^ 64 := by
        unfold Block.Apart at hbc
        unfold Block.stop at htopb htopc hbc
        omega
      have hcu : c.used = false := by simpa using hcu
      obtain ⟨hb', hnext⟩ := kfree_merge hb hused hc hcok hcu hbc hroom htop
      rw [Block.release_merge hcu, heapSeg_cons]
      dsimp only
      rw [hnext]
      exact ⟨rfl, hb', hrest'.congr fun d hd => hafter d (by simp [hd])⟩

/-! ## `kmalloc` by the outcome of its walk -/

theorem carve_heapSeg (hs : HeapSeg m h (l₁ ++ b :: l₂) t) (ha : Arena (l₁ ++ b :: l₂))
    (hfit : b.Fits size) (hsize : size + 40 < 2 ^ 64) :
    HeapSeg (carve m b.addr size) h (l₁ ++ b.split size ++ l₂) t := by
  have hb := hs.hdrs b (by simp)
  have htop := ha.top b (by simp)
  have happ := List.pairwise_append.mp ha.apart
  have hframe : ∀ x, x < b.addr ∨ b.stop ≤ x → carve m b.addr size x = m x :=
    fun _ hx => carve_frame hb htop hsize hx
  refine hs.replace ?_ ?_ (carve_split hb htop hfit hsize)
  · intro c hc
    exact (happ.2.2 c hc b (by simp)).symm.agreeOn hframe
  · intro c hc
    exact ((List.pairwise_cons.mp happ.2.1).1 c hc).agreeOn hframe

variable {s s' : MmState} {fuel : Nat}

theorem kmallocRec_found {current : Nat} (hne : size ≠ 0)
    (hw : firstFit s.mem (alignUp size 16) (2 ^ 64) s.heapStart = some (.found current)) :
    kmallocRec (fuel + 1) s size =
      some ((current + 24) % 2 ^ 64, { s with mem := carve s.mem current (alignUp size 16) }) := by
  simp only [kmallocRec, if_neg hne, hw]

theorem kmallocRec_corrupt {block : Nat} (hne : size ≠ 0)
    (hw : firstFit s.mem (alignUp size 16) (2 ^ 64) s.heapStart = some (.corrupt block)) :
    kmallocRec (fuel + 1) s size = some (0, s) := by
  simp only [kmallocRec, if_neg hne, hw]

theorem kmallocRec_exhausted {newPages : Nat} (hne : size ≠ 0)
    (hw : firstFit s.mem (alignUp size 16) (2 ^ 64) s.heapStart = some .exhausted)
    (hp : pmmAllocN s (pagesNeeded (alignUp size 16)) = (newPages, s')) :
    kmallocRec (fuel + 1) s size =
      if newPages = 0 then some (0, s')
      else kmallocRec fuel (growHeap s' newPages (pagesNeeded (alignUp size 16))) (alignUp size 16) := by
  simp only [kmallocRec, if_neg hne, hw, hp]

theorem kmalloc_eq (s : MmState) (size : Nat) :
    kmalloc s size = kmallocRec (2 ^ 64 - 2 + 1 + 1) s size := rfl

/-- The walk stops at the new block at once, if it is large enough. -/
theorem firstFit_growHeap (s : MmState) {newPages pages : Nat} (hne : newPages ≠ 0)
    (hfits : size + 24 ≤ pages * 4096) (hlt : pages * 4096 < 2 ^ 64) :
    firstFit (growHeap s newPages pages).mem size (fuel + 1) newPages = some (.found newPages) := by
  have hb := growHeap_hdrOk s hne (by omega) hlt
  have hmagic : hdrMagic (growHeap s newPages pages).mem newPages = heapMagic := hb.magic
  have hused : hdrUsed (growHeap s newPages pages).mem newPages = 0 := hb.used
  have hsize : hdrSize (growHeap s newPages pages).mem newPages = pages * 4096 - 24 := hb.size
  have hbig : size ≤ hdrSize (growHeap s newPages pages).mem newPages := by omega
  rw [firstFit, if_neg hne, if_neg (by simp [hmagic]), if_pos ⟨hused, hbig⟩]

theorem pagesNeeded_lt (x : Nat) : pagesNeeded x * 4096 < 2 ^ 64 := by
  unfold pagesNeeded alignUp
  omega

/-- The retry after the heap has grown takes the new block at once. -/
theorem kmalloc_grow {newPages : Nat} (hne : size ≠ 0) (hround : alignUp size 16 ≠ 0)
    (hroom : alignUp size 16 + 24 ≤ pagesNeeded (alignUp size 16) * 4096)
    (hw : firstFit s.mem (alignUp size 16) (2 ^ 64) s.heapStart = some .exhausted)
    (hp : pmmAllocN s (pagesNeeded (alignUp size 16)) = (newPages, s')) (hnew : newPages ≠ 0)
    (htop : newPages + 24 < 2 ^ 64) :
    let grown := growHeap s' newPages (pagesNeeded (alignUp size 16))
    kmalloc s size =
      some (newPages + 24, { grown with mem := carve grown.mem newPages (alignUp size 16) }) := by
  have hwalk : firstFit (growHeap s' newPages (pagesNeeded (alignUp size 16))).mem
      (alignUp (alignUp size 16) 16) (2 ^ 64)
      (growHeap s' newPages (pagesNeeded (alignUp size 16))).heapStart = some (.found newPages) := by
    rw [alignUp_twice]
    exact firstFit_growHeap s' hnew hroom (pagesNeeded_lt _)
  have hmod : (newPages + 24) % 2 ^ 64 = newPages + 24 := Nat.mod_eq_of_lt htop
  dsimp only
  rw [kmalloc_eq, kmallocRec_exhausted hne hw hp, if_neg hnew, kmallocRec_found hround hwalk,
    alignUp_twice, hmod]

end Crimson.Mm
