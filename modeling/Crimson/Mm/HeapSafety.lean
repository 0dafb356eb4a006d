import Crimson.Lib.Run
import Crimson.Mm.HeapBlocks
import Crimson.Mm.PmmCount

/-!
# What the kernel heap keeps, and what `kfree` breaks

A run of `kmalloc` and `kfree` is watched together with its clients and its memory:
`HeapRun` pairs the allocator with the live allocations and with the ranges the heap
owns, the region it was given at the start and the pages it got from `pmm_alloc_n` since.

The invariant `Tiled` says that the list's blocks are apart and *fill* what the heap
owns. `kfree` absorbs a free list successor without looking where it is. When the
successor starts where the block stops, the merged block covers the two; otherwise it
runs over whatever does start there, another block or memory the heap does not own. So
the invariant is kept exactly by the merges of physical neighbours: `heapOk_iff`.
-/

set_option autoImplicit false

namespace Crimson.Mm

open Crimson.Lib

/-- The allocator, the live allocations as (pointer, size asked for), and the owned ranges
    as (start, bytes). -/
structure HeapRun where
  mm : MmState
  live : List (Nat × Nat)
  owned : List (Nat × Nat)

inductive HeapOp where
  | kmalloc (size : Nat)
  | kfree (ptr : Nat)
deriving DecidableEq, Repr

/-- The bytes of a list of (start, bytes) ranges. -/
def rangeBytes (rs : List (Nat × Nat)) : Set Nat := {x | ∃ r ∈ rs, r.1 ≤ x ∧ x < r.1 + r.2}

/-- What the heap owns after a call: when `heap_start` has moved, the new pages it
    stands at are owned too. -/
def HeapRun.ownedAfter (h : HeapRun) (mm : MmState) (size : Nat) : List (Nat × Nat) :=
  if mm.heapStart = h.mm.heapStart then h.owned
  else (mm.heapStart, pagesNeeded (alignUp size 16) * 4096) :: h.owned

/-- One call. `kfree` is called on live pointers. -/
def heapStep (h : HeapRun) : HeapOp → Option HeapRun
  | .kmalloc size =>
    (kmalloc h.mm size).map fun r =>
      { mm := r.2
        live := if r.1 = 0 then h.live else (r.1, size) :: h.live
        owned := h.ownedAfter r.2 size }
  | .kfree ptr =>
    if ptr ∈ h.live.map Prod.fst then
      some { h with mm := kfree h.mm ptr, live := h.live.filter fun p => p.1 ≠ ptr }
    else none

/-- The run as `kmalloc_init` leaves it. -/
def heapBoot (s : MmState) (heapStart heapEnd : Nat) : HeapRun where
  mm := kmallocInit s heapStart heapEnd
  live := []
  owned := [(heapStart, heapEnd - heapStart)]

/-- The block whose header is at `a`. -/
def blockAt (m : Mem) (a : Nat) : Block where
  addr := a
  size := hdrSize m a
  used := hdrUsed m a ≠ 0

/-- **The heap as its clients rely on it**: the list ends, its blocks are apart and inside
    what the heap owns, and live payloads are disjoint. -/
def HeapOk (h : HeapRun) : Prop :=
  (∃ addrs, Linked (nextOf h.mm.mem) (ptr h.mm.heapStart) addrs ∧
    (addrs.map (blockAt h.mm.mem)).Pairwise Block.Apart ∧
    ∀ a ∈ addrs, (blockAt h.mm.mem a).bytes ⊆ rangeBytes h.owned) ∧
  h.live.Pairwise fun p q => Disjoint (Set.Ico p.1 (p.1 + p.2)) (Set.Ico q.1 (q.1 + q.2))

/-- What `kmalloc` is promised: its size does not wrap, and when it asks for pages, the
    answer is 0 or fresh memory and the heap's memory is not written. -/
def Promised (h : HeapRun) : HeapOp → Prop
  | .kmalloc size =>
    NoWrap size ∧
    (firstFit h.mm.mem (alignUp size 16) (2 ^ 64) h.mm.heapStart = some .exhausted →
      let r := pmmAllocN h.mm (pagesNeeded (alignUp size 16))
      (∀ x ∈ rangeBytes h.owned, r.2.mem x = h.mm.mem x) ∧
      (r.1 ≠ 0 → r.1 + pagesNeeded (alignUp size 16) * 4096 ≤ 2 ^ 64 ∧
        Disjoint (rangeBytes [(r.1, pagesNeeded (alignUp size 16) * 4096)]) (rangeBytes h.owned)))
  | .kfree _ => True

/-- A free list successor of the block being freed starts where that block stops. -/
def MergesAdjacent (h : HeapRun) : HeapOp → Prop
  | .kmalloc _ => True
  | .kfree ptr =>
    hdrNext h.mm.mem (sub64 ptr 24) ≠ 0 → hdrUsed h.mm.mem (hdrNext h.mm.mem (sub64 ptr 24)) = 0 →
      hdrNext h.mm.mem (sub64 ptr 24) = (blockAt h.mm.mem (sub64 ptr 24)).stop

instance (h : HeapRun) (op : HeapOp) : Decidable (MergesAdjacent h op) :=
  match op with
  | .kmalloc _ => inferInstanceAs (Decidable True)
  | .kfree _ => inferInstanceAs (Decidable (_ → _ → _))

/-! ## The invariant -/

/-- Up to the block at `t` (the end of the list, when `t` is null), the list's blocks are
    `bs`; they fill what the heap owns, and live allocations lie in used blocks. -/
structure Tiled (h : HeapRun) (bs : List Block) (t : Nat) : Prop where
  list : HeapSeg h.mm.mem h.mm.heapStart bs t
  arena : Arena bs
  tiles : heapBytes bs = rangeBytes h.owned
  live : ∀ p ∈ h.live, ∃ b ∈ bs, b.used = true ∧ p.1 = b.addr + 24 ∧ p.2 ≤ b.size ∧ 0 < p.2
  nodup : (h.live.map Prod.fst).Nodup

theorem HdrOk.blockAt {m : Mem} {b : Block} (hb : HdrOk m b) : blockAt m b.addr = b := by
  have hused := hb.used
  cases b with
  | mk addr size used =>
    simp only [Mm.blockAt, hb.size, Block.mk.injEq, true_and]
    dsimp only at hused
    rw [hused]
    cases used <;> simp

theorem HeapSeg.map_blockAt {m : Mem} {h t : Nat} {bs : List Block} (hs : HeapSeg m h bs t) :
    (bs.map Block.addr).map (blockAt m) = bs := by
  rw [List.map_map]
  refine (List.map_congr_left fun b hb => ?_).trans (List.map_id bs)
  exact (hs.hdrs b hb).blockAt

/-- Different blocks of an arena are apart, in either order. -/
theorem Arena.apart_of_ne {bs : List Block} (ha : Arena bs) {b c : Block} (hb : b ∈ bs) (hc : c ∈ bs)
    (hne : b ≠ c) : b.Apart c :=
  ha.apart.forall hb hc hne

theorem Tiled.ok {h : HeapRun} {bs : List Block} (ht : Tiled h bs 0) : HeapOk h := by
  refine ⟨⟨bs.map Block.addr, ht.list.links, ?_, ?_⟩, ?_⟩
  · rw [ht.list.map_blockAt]
    exact ht.arena.apart
  · intro a ha
    obtain ⟨b, hb, rfl⟩ := List.mem_map.mp ha
    rw [(ht.list.hdrs b hb).blockAt, ← ht.tiles]
    intro x hx
    exact ⟨b, hb, hx⟩
  · refine (List.pairwise_map.mp ht.nodup).imp_of_mem ?_
    intro p q hp hq hne
    obtain ⟨b, hb, _, hpb, hpsize, _⟩ := ht.live p hp
    obtain ⟨c, hc, _, hqc, hqsize, _⟩ := ht.live q hq
    have hbc : b ≠ c := by
      rintro rfl
      exact hne (hpb.trans hqc.symm)
    have hapart := ht.arena.apart_of_ne hb hc hbc
    unfold Block.Apart Block.stop at hapart
    rw [Set.Ico_disjoint_Ico]
    omega

/-! ## Boot -/

theorem tiled_heapBoot (s : MmState) {heapStart heapEnd : Nat} (hne : heapStart ≠ 0)
    (hroom : heapStart + 24 ≤ heapEnd) (htop : heapEnd < 2 ^ 64) :
    Tiled (heapBoot s heapStart heapEnd)
      [{ addr := heapStart, size := heapEnd - heapStart - 24, used := false }] 0 := by
  have hsize : sub64 (sub64 heapEnd heapStart) 24 = heapEnd - heapStart - 24 := by
    unfold sub64; omega
  have hnext : hdrNext (heapBoot s heapStart heapEnd).mm.mem heapStart = 0 := by
    simp (disch := omega) only [heapBoot, kmallocInit, setMagic, setNext, hdrNext,
      load64_store32_disjoint, load64_store64_same]
  refine ⟨heapSeg_cons.mpr ⟨rfl, ⟨hne, ?_, ?_, ?_⟩, heapSeg_nil.mpr hnext⟩,
    ⟨List.pairwise_singleton _ _, ?_⟩, ?_, fun p hp => absurd hp (by simp [heapBoot]), List.nodup_nil⟩
  · simp (disch := omega) only [heapBoot, kmallocInit, setMagic, setNext, setUsed, setSize, hdrSize,
      hsize, load64_store32_disjoint, load64_store64_disjoint, load64_store64_same]
  · simp (disch := omega) only [heapBoot, kmallocInit, setMagic, setNext, setUsed, hdrUsed,
      load32_store32_disjoint, load32_store64_disjoint, load32_store32_same, Bool.false_eq_true,
      if_false]
  · simp (disch := omega) only [heapBoot, kmallocInit, setMagic, hdrMagic, heapMagic,
      load32_store32_same]
  · intro b hb
    rw [List.mem_singleton.mp hb, Block.stop]
    dsimp only
    omega
  · ext x
    simp only [heapBytes, rangeBytes, heapBoot, Block.mem_bytes, Block.stop, Set.mem_ofPred_eq,
      List.mem_singleton, exists_eq_left]
    omega

/-! ## `kfree` -/

/-- A live pointer is the payload of a used block. -/
theorem Tiled.block_of_live {h : HeapRun} {bs : List Block} {t : Nat} (ht : Tiled h bs t) {ptr : Nat}
    (hptr : ptr ∈ h.live.map Prod.fst) :
    ∃ l₁ b l₂, bs = l₁ ++ b :: l₂ ∧ b.used = true ∧ ptr = b.addr + 24 ∧ ptr < 2 ^ 64 := by
  obtain ⟨p, hp, rfl⟩ := List.mem_map.mp hptr
  obtain ⟨b, hb, hused, hpb, hsize, hpos⟩ := ht.live p hp
  have htop := ht.arena.top b hb
  obtain ⟨l₁, l₂, rfl⟩ := List.append_of_mem hb
  unfold Block.stop at htop
  exact ⟨l₁, b, l₂, rfl, hused, hpb, by omega⟩

/-- The block that `kfree` would absorb, as its code finds it. -/
theorem mergesAdjacent_iff {h : HeapRun} {l₁ l₂ : List Block} {b : Block} {t : Nat}
    (htop : b.addr + 24 < 2 ^ 64) (hs : HeapSeg h.mm.mem h.mm.heapStart (l₁ ++ b :: l₂) t) :
    MergesAdjacent h (.kfree (b.addr + 24)) ↔
      (l₂ = [] → t ≠ 0 → hdrUsed h.mm.mem t = 0 → t = b.stop) ∧
      ∀ c rest, l₂ = c :: rest → c.used = false → c.addr = b.stop := by
  have hblock : sub64 (b.addr + 24) 24 = b.addr := by unfold sub64; omega
  obtain ⟨x, _, hrest⟩ := heapSeg_append.mp hs
  obtain ⟨_, hb, hrest⟩ := heapSeg_cons.mp hrest
  simp only [MergesAdjacent, hblock, hb.blockAt]
  cases l₂ with
  | nil =>
    rw [heapSeg_nil.mp hrest]
    simp
  | cons c rest =>
    obtain ⟨hc, hcok, _⟩ := heapSeg_cons.mp hrest
    rw [hc, hcok.used]
    constructor
    · intro hm
      refine ⟨fun hnil => absurd hnil (by simp), ?_⟩
      intro d ds hd hfree
      obtain ⟨rfl, rfl⟩ := List.cons.inj hd
      exact hm hcok.addr (by simp [hfree])
    · intro hm _ hfree
      refine hm.2 c rest rfl ?_
      cases hu : c.used with
      | true => simp [hu] at hfree
      | false => rfl

/-- Releasing a block leaves the bytes of the list as they were, and its blocks apart,
    when the block absorbed starts where it stops. -/
theorem Arena.release {l₁ l₂ : List Block} {b : Block} (ha : Arena (l₁ ++ b :: l₂))
    (hadj : ∀ c rest, l₂ = c :: rest → c.used = false → c.addr = b.stop) :
    Arena (l₁ ++ b.release l₂) ∧ heapBytes (l₁ ++ b.release l₂) = heapBytes (l₁ ++ b :: l₂) := by
  have hkeep : ∀ l, Arena (l₁ ++ b :: l) →
      Arena (l₁ ++ { b with used := false } :: l) ∧
        heapBytes (l₁ ++ { b with used := false } :: l) = heapBytes (l₁ ++ b :: l) := by
    intro l hl
    have hbytes : Block.bytes { b with used := false } = b.bytes := rfl
    have hl' : Arena (l₁ ++ [b] ++ l) := by simpa using hl
    have hnew := hl'.replace (List.pairwise_singleton _ { b with used := false })
      (by simp [heapBytes_cons, hbytes])
    exact ⟨by simpa using hnew, by simp [heapBytes_append, heapBytes_cons, hbytes]⟩
  cases l₂ with
  | nil => exact hkeep [] ha
  | cons c rest =>
    by_cases hc : c.used = true
    · rw [Block.release_keep hc]
      exact hkeep (c :: rest) ha
    · have hc : c.used = false := by simpa using hc
      have hnext := hadj c rest rfl hc
      rw [Block.release_merge hc]
      have hbytes : Block.bytes { b with size := b.size + (24 + c.size), used := false } =
          b.bytes ∪ c.bytes := by
        ext x
        simp only [Set.mem_union, Block.mem_bytes, Block.stop] at hnext ⊢
        omega
      have ha' : Arena (l₁ ++ [b, c] ++ rest) := by simpa using ha
      have hnew := ha'.replace
        (List.pairwise_singleton _ { b with size := b.size + (24 + c.size), used := false })
        (by simp [heapBytes_cons, hbytes])
      exact ⟨by simpa using hnew,
        by simp [heapBytes_append, heapBytes_cons, hbytes, Set.union_assoc]⟩

/-- The blocks that survive a release, besides the released one itself: all but a free
    successor. -/
theorem Block.mem_release {b d : Block} {l : List Block} (hd : d ∈ l) (hused : d.used = true) :
    d ∈ b.release l := by
  cases l with
  | nil => exact absurd hd (by simp)
  | cons c rest =>
    by_cases hc : c.used = true
    · rw [Block.release_keep hc]
      exact List.mem_cons_of_mem _ hd
    · have hc : c.used = false := by simpa using hc
      rw [Block.release_merge hc]
      rcases List.mem_cons.mp hd with rfl | hd
      · rw [hc] at hused
        exact Bool.noConfusion hused
      · exact List.mem_cons_of_mem _ hd

/-- `kfree` keeps the heap tiled when what it merges is adjacent. A list that goes on at a
    free block `t` must not have `t` where a block of `bs` stops. -/
theorem tiled_kfree {h : HeapRun} {bs : List Block} {t : Nat} (ht : Tiled h bs t)
    (hend : t = 0 ∨ (hdrUsed h.mm.mem t = 0 ∧ ∀ b ∈ bs, t ≠ b.stop)) {ptr : Nat}
    (hadj : MergesAdjacent h (.kfree ptr)) {h' : HeapRun} (hstep : heapStep h (.kfree ptr) = some h') :
    ∃ bs', Tiled h' bs' t := by
  simp only [heapStep] at hstep
  split at hstep
  case isFalse => cases hstep
  case isTrue hptr =>
    cases hstep
    obtain ⟨l₁, b, l₂, rfl, hused, rfl, htop⟩ := ht.block_of_live hptr
    obtain ⟨hlast, hnext⟩ := (mergesAdjacent_iff htop ht.list).mp hadj
    have hnull : l₂ = [] → t = 0 := by
      intro hnil
      by_contra hne
      obtain ⟨hfree, hstop⟩ := hend.resolve_left hne
      exact hstop b (by simp) (hlast hnil hne hfree)
    have hrelease := ht.arena.release hnext
    have hlist := kfree_heapSeg ht.list ht.arena hused htop hnull
    refine ⟨l₁ ++ b.release l₂, ?_, hrelease.1, hrelease.2.trans ht.tiles, ?_, ?_⟩
    · rw [kfree_heapStart]
      exact hlist
    · intro p hp
      obtain ⟨hp, hpne⟩ := List.mem_filter.mp hp
      obtain ⟨d, hd, hdused, hpd, hrest⟩ := ht.live p hp
      refine ⟨d, ?_, hdused, hpd, hrest⟩
      rw [List.mem_append, List.mem_cons] at hd
      rcases hd with hd | rfl | hd
      · exact List.mem_append_left _ hd
      · simp [hpd] at hpne
      · exact List.mem_append_right _ (Block.mem_release hd hdused)
    · exact ht.nodup.sublist (List.filter_sublist.map _)

/-- A merge with a block elsewhere runs over a block of the list, or out of the heap. -/
theorem not_heapOk_of_merge {h : HeapRun} {bs : List Block} (ht : Tiled h bs 0) {ptr : Nat}
    (hadj : ¬MergesAdjacent h (.kfree ptr)) {h' : HeapRun}
    (hstep : heapStep h (.kfree ptr) = some h') : ¬HeapOk h' := by
  simp only [heapStep] at hstep
  split at hstep
  case isFalse => cases hstep
  case isTrue hptr =>
    cases hstep
    obtain ⟨l₁, b, l₂, rfl, hused, rfl, htop⟩ := ht.block_of_live hptr
    rw [mergesAdjacent_iff htop ht.list] at hadj
    have hadj : ∃ c rest, l₂ = c :: rest ∧ c.used = false ∧ c.addr ≠ b.stop := by
      by_contra hnone
      push Not at hnone
      exact hadj ⟨fun _ hne => absurd rfl hne, hnone⟩
    obtain ⟨c, rest, rfl, hfree, hne⟩ := hadj
    have hlist := kfree_heapSeg ht.list ht.arena hused htop (fun _ => rfl)
    rw [Block.release_merge hfree] at hlist
    intro hok
    obtain ⟨⟨addrs, hlinked, happ, hin⟩, _⟩ := hok
    dsimp only at hlinked happ hin
    rw [kfree_heapStart] at hlinked
    obtain rfl := hlinked.unique hlist.links
    rw [hlist.map_blockAt] at happ
    -- The byte after `b`: the merged block has it, so the heap owns it.
    have hmerged := hin b.addr (by simp)
    have hblock := (hlist.hdrs { b with size := b.size + (24 + c.size), used := false } (by simp)).blockAt
    dsimp only at hblock
    rw [hblock] at hmerged
    have hstop : b.stop ∈ Block.bytes { b with size := b.size + (24 + c.size), used := false } := by
      rw [Block.mem_bytes]
      unfold Block.stop
      dsimp only
      omega
    have howned := hmerged hstop
    rw [← ht.tiles] at howned
    obtain ⟨d, hd, hxd⟩ := howned
    -- Its block in the old list is neither `b` nor `c`, so it is still in the list.
    have hbd := ht.arena.apart_of_ne (b := b) (c := c) (by simp) (by simp)
      (by rintro rfl; rw [hused] at hfree; cases hfree)
    unfold Block.Apart at hbd
    rw [Block.mem_bytes] at hxd
    have hpos : b.addr < b.stop := by unfold Block.stop; omega
    have hold : d ∈ l₁ ∨ d ∈ rest := by
      simp only [List.mem_append, List.mem_cons] at hd
      rcases hd with hd | rfl | rfl | hd
      · exact Or.inl hd
      · omega
      · omega
      · exact Or.inr hd
    have happ := List.pairwise_append.mp happ
    have hfar : Block.Apart d { b with size := b.size + (24 + c.size), used := false } := by
      rcases hold with hd | hd
      · exact happ.2.2 d hd _ (by simp)
      · exact ((List.pairwise_cons.mp happ.2.1).1 d hd).symm
    exact Set.disjoint_left.mp (Block.apart_iff.mp hfar) hxd hstop

/-! ## `kmalloc` -/

/-- Taking a free block for a new allocation. -/
theorem Tiled.carve {h : HeapRun} {l₁ l₂ : List Block} {b : Block} {t : Nat}
    (ht : Tiled h (l₁ ++ b :: l₂) t) {size : Nat} (hpos : 0 < size) (hsize : NoWrap size) (hfit : b.Fits (alignUp size 16)) :
    Tiled
      { h with
        mm := { h.mm with mem := Mm.carve h.mm.mem b.addr (alignUp size 16) }
        live := (b.addr + 24, size) :: h.live }
      (l₁ ++ b.split (alignUp size 16) ++ l₂) t := by
  have hround := hsize.alignUp_spec
  have ha : Arena (l₁ ++ [b] ++ l₂) := by simpa using ht.arena
  -- Old allocations lie in used blocks, so not in `b`.
  have hold : ∀ p ∈ h.live, ∃ d ∈ l₁ ++ l₂, d.used = true ∧ p.1 = d.addr + 24 ∧ p.2 ≤ d.size ∧ 0 < p.2 := by
    intro p hp
    obtain ⟨d, hd, hdused, hrest⟩ := ht.live p hp
    refine ⟨d, ?_, hdused, hrest⟩
    have hdb : d ≠ b := by
      rintro rfl
      rw [hfit.1] at hdused
      cases hdused
    simpa [hdb] using hd
  refine ⟨carve_heapSeg ht.list ht.arena hfit (by omega),
    ha.replace Block.split_apart (by simp [Block.split_bytes, heapBytes_cons]), ?_, ?_, ?_⟩
  · rw [← ht.tiles]
    simp [heapBytes_append, heapBytes_cons, Block.split_bytes]
  · intro p hp
    rcases List.mem_cons.mp hp with rfl | hp
    · have hle := hfit.2
      unfold Block.split
      split
      · exact ⟨_, List.mem_append_left _ (List.mem_append_right _ (List.mem_cons_self ..)), rfl, rfl,
          hround.2.1, hpos⟩
      · exact ⟨_, List.mem_append_left _ (List.mem_append_right _ (List.mem_cons_self ..)), rfl, rfl,
          by dsimp only; omega, hpos⟩
    · obtain ⟨d, hd, hrest⟩ := hold p hp
      refine ⟨d, ?_, hrest⟩
      simp only [List.mem_append] at hd ⊢
      tauto
  · refine List.nodup_cons.mpr ⟨?_, ht.nodup⟩
    intro hmem
    obtain ⟨p, hp, hpb⟩ := List.mem_map.mp hmem
    obtain ⟨d, hd, hdused, hpd, _⟩ := hold p hp
    have hdb : d ≠ b := by
      rintro rfl
      rw [hfit.1] at hdused
      cases hdused
    have hdmem : d ∈ l₁ ++ b :: l₂ := by
      simp only [List.mem_append, List.mem_cons] at hd ⊢
      tauto
    have hapart := ht.arena.apart_of_ne hdmem (c := b) (by simp) hdb
    unfold Block.Apart Block.stop at hapart
    omega

theorem rangeBytes_cons (r : Nat × Nat) (rs : List (Nat × Nat)) :
    rangeBytes (r :: rs) = Set.Ico r.1 (r.1 + r.2) ∪ rangeBytes rs := by
  ext x
  simp [rangeBytes]

/-- Adding fresh pages to the heap. `s` is the state `pmm_alloc_n` left. -/
theorem Tiled.grow {h : HeapRun} {bs : List Block} {t : Nat} (ht : Tiled h bs t) (ht64 : t < 2 ^ 64)
    {s : MmState}
    (hmem : ∀ x ∈ rangeBytes h.owned, s.mem x = h.mm.mem x) (hstart : s.heapStart = h.mm.heapStart)
    {newPages pages : Nat} (hne : newPages ≠ 0) (hpages : 0 < pages)
    (htop : newPages + pages * 4096 ≤ 2 ^ 64)
    (hfresh : Disjoint (rangeBytes [(newPages, pages * 4096)]) (rangeBytes h.owned)) :
    Tiled
      { h with mm := growHeap s newPages pages, owned := (newPages, pages * 4096) :: h.owned }
      (grownBlock newPages pages :: bs) t := by
  have hrange := grownBlock_bytes newPages hpages
  have hapart : ∀ b ∈ bs, (grownBlock newPages pages).Apart b := by
    intro b hb
    refine Block.apart_iff.mpr (Set.disjoint_left.mpr fun x hx hxb => ?_)
    have howned : x ∈ rangeBytes h.owned := ht.tiles ▸ ⟨b, hb, hxb⟩
    refine Set.disjoint_left.mp hfresh ?_ howned
    rw [rangeBytes_cons]
    exact Or.inl (hrange ▸ hx)
  have hlist : HeapSeg s.mem s.heapStart bs t := by
    rw [hstart]
    refine ht.list.congr fun b hb x h₁ h₂ => hmem x (ht.tiles ▸ ⟨b, hb, ?_⟩)
    rw [Block.mem_bytes]
    unfold Block.stop
    omega
  have hhead : s.heapStart < 2 ^ 64 := by
    cases bs with
    | nil =>
      have he := heapSeg_nil.mp hlist
      omega
    | cons b bs =>
      have he := (heapSeg_cons.mp hlist).1
      have hb := ht.arena.top b (by simp)
      unfold Block.stop at hb
      omega
  refine ⟨hlist.grow hhead hne hpages (by omega) hapart, ⟨?_, ?_⟩, ?_, ?_, ht.nodup⟩
  · exact List.pairwise_cons.mpr ⟨hapart, ht.arena.apart⟩
  · intro b hb
    rcases List.mem_cons.mp hb with rfl | hb
    · rw [grownBlock_stop _ hpages]
      exact htop
    · exact ht.arena.top b hb
  · rw [heapBytes_cons, rangeBytes_cons, hrange, ht.tiles]
  · intro p hp
    obtain ⟨b, hb, hrest⟩ := ht.live p hp
    exact ⟨b, List.mem_cons_of_mem _ hb, hrest⟩

/-- A state with the same heap memory has the same heap. -/
theorem Tiled.frame {h : HeapRun} {bs : List Block} {t : Nat} (ht : Tiled h bs t) {s : MmState}
    (hmem : ∀ x ∈ rangeBytes h.owned, s.mem x = h.mm.mem x) (hstart : s.heapStart = h.mm.heapStart) :
    Tiled { h with mm := s } bs t := by
  refine ⟨?_, ht.arena, ht.tiles, ht.live, ht.nodup⟩
  dsimp only
  rw [hstart]
  refine ht.list.congr fun b hb x h₁ h₂ => hmem x (ht.tiles ▸ ⟨b, hb, ?_⟩)
  rw [Block.mem_bytes]
  unfold Block.stop
  omega

/-! One call of `kmalloc`, by the outcome of its walk. -/

theorem heapStep_zero (h : HeapRun) : heapStep h (.kmalloc 0) = some h := by
  simp only [heapStep]
  rw [kmalloc_eq, kmallocRec, if_pos rfl]
  simp [HeapRun.ownedAfter]

theorem heapStep_corrupt {h : HeapRun} {size block : Nat} (hpos : 0 < size)
    (hw : firstFit h.mm.mem (alignUp size 16) (2 ^ 64) h.mm.heapStart = some (.corrupt block)) :
    heapStep h (.kmalloc size) = some h := by
  simp only [heapStep]
  rw [kmalloc_eq, kmallocRec_corrupt (by omega) hw]
  simp [HeapRun.ownedAfter]

theorem heapStep_found {h : HeapRun} {size : Nat} {b : Block} (hpos : 0 < size) (hsize : NoWrap size)
    (hw : firstFit h.mm.mem (alignUp size 16) (2 ^ 64) h.mm.heapStart = some (.found b.addr))
    (hfit : b.Fits (alignUp size 16)) (htop : b.stop ≤ 2 ^ 64) :
    heapStep h (.kmalloc size) = some
      { h with
        mm := { h.mm with mem := carve h.mm.mem b.addr (alignUp size 16) }
        live := (b.addr + 24, size) :: h.live } := by
  have hround := hsize.alignUp_spec
  have hle := hfit.2
  unfold Block.stop at htop
  have hret : (b.addr + 24) % 2 ^ 64 = b.addr + 24 := Nat.mod_eq_of_lt (by omega)
  simp only [heapStep]
  rw [kmalloc_eq, kmallocRec_found (by omega) hw, hret]
  simp [HeapRun.ownedAfter]

theorem heapStep_fail {h : HeapRun} {size : Nat} {s : MmState} (hpos : 0 < size)
    (hw : firstFit h.mm.mem (alignUp size 16) (2 ^ 64) h.mm.heapStart = some .exhausted)
    (hp : pmmAllocN h.mm (pagesNeeded (alignUp size 16)) = (0, s)) :
    heapStep h (.kmalloc size) = some { h with mm := s } := by
  have hstart := pmmAllocN_heapStart h.mm (pagesNeeded (alignUp size 16))
  rw [hp] at hstart
  dsimp only at hstart
  simp only [heapStep]
  rw [kmalloc_eq, kmallocRec_exhausted (by omega) hw hp, if_pos rfl, Option.map_some]
  simp only [if_true, HeapRun.ownedAfter, hstart]

theorem heapStep_grow {h : HeapRun} {size newPages : Nat} {s : MmState} (hpos : 0 < size)
    (hsize : NoWrap size)
    (hw : firstFit h.mm.mem (alignUp size 16) (2 ^ 64) h.mm.heapStart = some .exhausted)
    (hp : pmmAllocN h.mm (pagesNeeded (alignUp size 16)) = (newPages, s)) (hne : newPages ≠ 0)
    (htop : newPages + pagesNeeded (alignUp size 16) * 4096 ≤ 2 ^ 64)
    (hmoved : newPages ≠ h.mm.heapStart) :
    let grown := growHeap s newPages (pagesNeeded (alignUp size 16))
    heapStep h (.kmalloc size) = some
      { mm := { grown with mem := carve grown.mem newPages (alignUp size 16) }
        live := (newPages + 24, size) :: h.live
        owned := (newPages, pagesNeeded (alignUp size 16) * 4096) :: h.owned } := by
  have hmoved' : (growHeap s newPages (pagesNeeded (alignUp size 16))).heapStart ≠
    h.mm.heapStart := hmoved
  have hround := hsize.alignUp_spec
  have hroom := hsize.le_pagesNeeded
  simp only [heapStep]
  rw [kmalloc_grow (by omega) (by omega) hroom hw hp hne (by omega), Option.map_some]
  simp only [HeapRun.ownedAfter]
  rw [if_neg (by omega), if_neg hmoved']
  rfl

/-- The new block is large enough for what it was asked for. -/
theorem grownBlock_fits {size : Nat} (hsize : NoWrap size) (newPages : Nat) :
    (grownBlock newPages (pagesNeeded (alignUp size 16))).Fits (alignUp size 16) := by
  have hroom := hsize.le_pagesNeeded
  refine ⟨rfl, ?_⟩
  unfold grownBlock
  dsimp only
  omega

/-- What the walk of `kmalloc` finds in an intact heap: a block that fits, or the end of
    the stretch. -/
theorem Tiled.walk {h : HeapRun} {bs : List Block} {t : Nat} (ht : Tiled h bs t) (size : Nat) :
    (∃ l₁ b l₂, bs = l₁ ++ b :: l₂ ∧ b.Fits size ∧
      firstFit h.mm.mem size (2 ^ 64) h.mm.heapStart = some (.found b.addr)) ∨
    ∃ fuel, firstFit h.mm.mem size (2 ^ 64) h.mm.heapStart =
      firstFit h.mm.mem size (fuel + 1) t ∧ 2 ^ 64 = fuel + 1 + bs.length := by
  have hlen : bs.length ≤ 2 ^ 64 - 1 :=
    ht.arena.length_le fun b hb => Nat.one_le_iff_ne_zero.mpr (ht.list.hdrs b hb).addr
  rcases firstFit_heapSeg ht.list (by omega : bs.length ≤ 2 ^ 64) with hfound | ⟨_, he⟩
  · exact Or.inl hfound
  · obtain ⟨fuel, hfuel⟩ : ∃ fuel, 2 ^ 64 - bs.length = fuel + 1 := ⟨2 ^ 64 - bs.length - 1, by omega⟩
    rw [hfuel] at he
    exact Or.inr ⟨fuel, he, by omega⟩

/-- Memory that the heap owns is not what `pmm_alloc_n` answers, so neither is where its
    list starts. -/
theorem Tiled.heapStart_ne {h : HeapRun} {bs : List Block} {t : Nat} (ht : Tiled h bs t)
    {newPages pages : Nat} (hpages : 0 < pages) (hne : newPages ≠ t)
    (hdisj : Disjoint (rangeBytes [(newPages, pages * 4096)]) (rangeBytes h.owned)) :
    newPages ≠ h.mm.heapStart := by
  rintro rfl
  have hin : h.mm.heapStart ∈ rangeBytes h.owned := by
    cases bs with
    | nil => exact absurd (heapSeg_nil.mp ht.list) hne
    | cons b bs =>
      rw [← ht.tiles, (heapSeg_cons.mp ht.list).1]
      refine ⟨b, by simp, ?_⟩
      rw [Block.mem_bytes]
      unfold Block.stop
      omega
  refine Set.disjoint_left.mp hdisj ?_ hin
  rw [rangeBytes_cons]
  exact Or.inl (Set.mem_Ico.mpr (by dsimp only; omega))

/-- **`kmalloc` on an intact heap returns**, and leaves the heap intact: with a block of
    its own for the new allocation, or with nothing changed but the page bitmap. -/
theorem tiled_kmalloc {h : HeapRun} {bs : List Block} (ht : Tiled h bs 0) {size : Nat}
    (hpromised : Promised h (.kmalloc size)) :
    ∃ h' bs', heapStep h (.kmalloc size) = some h' ∧ Tiled h' bs' 0 := by
  obtain ⟨hsize, hfresh⟩ := hpromised
  rcases Nat.eq_zero_or_pos size with rfl | hpos
  · exact ⟨h, bs, heapStep_zero h, ht⟩
  rcases ht.walk (alignUp size 16) with ⟨l₁, b, l₂, rfl, hfit, hw⟩ | ⟨fuel, hw, _⟩
  · exact ⟨_, _, heapStep_found hpos hsize hw hfit (ht.arena.top b (by simp)), ht.carve hpos hsize hfit⟩
  · rw [firstFit, if_pos rfl] at hw
    obtain ⟨hmem, hnew⟩ := hfresh hw
    have hstart := pmmAllocN_heapStart h.mm (pagesNeeded (alignUp size 16))
    generalize hp : pmmAllocN h.mm (pagesNeeded (alignUp size 16)) = r at hmem hnew hstart
    obtain ⟨newPages, s⟩ := r
    by_cases hfail : newPages = 0
    · subst hfail
      exact ⟨_, _, heapStep_fail hpos hw hp, ht.frame hmem hstart⟩
    · obtain ⟨htop, hdisj⟩ := hnew hfail
      have hroom := hsize.le_pagesNeeded
      have hgrown : Tiled _ ([] ++ grownBlock newPages (pagesNeeded (alignUp size 16)) :: bs) 0 :=
        ht.grow (by omega) hmem hstart hfail (by omega) htop hdisj
      have hmoved := ht.heapStart_ne (by omega) hfail hdisj
      exact ⟨_, _, heapStep_grow hpos hsize hw hp hfail htop hmoved,
        hgrown.carve hpos hsize (grownBlock_fits hsize newPages)⟩

/-- The page allocator keeps the promise when the heap owns none of the memory it manages
    and none of its bitmap. -/
theorem promised_of_apart {h : HeapRun} {size : Nat} (hsize : NoWrap size)
    (htop : h.mm.physBase + h.mm.totalPages * 4096 ≤ 2 ^ 64)
    (hpages : pagesNeeded (alignUp size 16) ≤ h.mm.totalPages)
    (hpmm : ∀ x ∈ rangeBytes h.owned, x < h.mm.physBase ∨ h.mm.physBase + h.mm.totalPages * 4096 ≤ x)
    (hbitmap : ∀ x ∈ rangeBytes h.owned, x < h.mm.pageBitmap ∨ h.mm.pageBitmap + h.mm.bitmapBytes ≤ x) :
    Promised h (.kmalloc size) := by
  refine ⟨hsize, fun _ => ?_⟩
  rcases pmmAllocN_cases h.mm hpages (by omega) with ⟨he, _⟩ | ⟨_, st, s, he, htook, _⟩
  · rw [he]
    exact ⟨fun _ _ => rfl, fun hne => absurd rfl hne⟩
  · have hin := htook.inRange
    rw [he]
    refine ⟨fun x hx => htook.same.mem x (hbitmap x hx), fun hne => ?_⟩
    dsimp only at hne ⊢
    generalize pagesNeeded (alignUp size 16) = pages at hin
    have hret : (h.mm.physBase + st * 4096) % 2 ^ 64 = h.mm.physBase + st * 4096 :=
      Nat.mod_eq_of_lt (by omega)
    rw [hret]
    refine ⟨by omega, Set.disjoint_left.mpr fun x hx howned => ?_⟩
    rw [rangeBytes_cons] at hx
    have hout := hpmm x howned
    simp only [rangeBytes, List.not_mem_nil, false_and, exists_false, Set.mem_union, Set.mem_Ico] at hx
    rcases hx with hx | hx
    · omega
    · exact hx

/-! ## Runs -/

theorem tiled_heapStep (h : HeapRun) (op : HeapOp) (h' : HeapRun) (ht : ∃ bs, Tiled h bs 0)
    (hpromised : Promised h op) (hadj : MergesAdjacent h op) (hstep : heapStep h op = some h') :
    ∃ bs, Tiled h' bs 0 := by
  obtain ⟨bs, ht⟩ := ht
  cases op with
  | kmalloc size =>
    obtain ⟨h'', bs', he, ht'⟩ := tiled_kmalloc ht hpromised
    rw [he, Option.some.injEq] at hstep
    exact ⟨bs', hstep ▸ ht'⟩
  | kfree ptr => exact tiled_kfree ht (Or.inl rfl) hadj hstep

theorem not_heapOk_heapStep (h : HeapRun) (op : HeapOp) (h' : HeapRun) (ht : ∃ bs, Tiled h bs 0)
    (hadj : ¬MergesAdjacent h op) (hstep : heapStep h op = some h') : ¬HeapOk h' := by
  obtain ⟨bs, ht⟩ := ht
  cases op with
  | kmalloc size => exact absurd trivial hadj
  | kfree ptr => exact not_heapOk_of_merge ht hadj hstep

/-- **The heap stays well formed throughout a run exactly when every `kfree` that merges
    merges with the physical neighbour**, given sizes that do not wrap and page
    allocations that are fresh. -/
theorem heapOk_iff (s : MmState) {heapStart heapEnd : Nat} (hne : heapStart ≠ 0)
    (hroom : heapStart + 24 ≤ heapEnd) (htop : heapEnd < 2 ^ 64) (ops : List HeapOp)
    (hpromised : Meets heapStep Promised (heapBoot s heapStart heapEnd) ops) :
    Always heapStep HeapOk (heapBoot s heapStart heapEnd) ops ↔
      Meets heapStep MergesAdjacent (heapBoot s heapStart heapEnd) ops := by
  refine always_iff_meets_assuming (I := fun h => ∃ bs, Tiled h bs 0) ?_ tiled_heapStep ?_
    ⟨_, tiled_heapBoot s hne hroom htop⟩ hpromised
  · intro h ht
    obtain ⟨bs, ht⟩ := ht
    exact ht.ok
  · intro h op h' ht _
    exact not_heapOk_heapStep h op h' ht

/-! A heap of one page beside sixteen pages of the page allocator's, one of them its
    bitmap. An allocation of 8160 bytes makes the heap grow by two pages. -/

def smallHeap : HeapRun := heapBoot (pmmInit 0 blank 0x41000000 0x10000) 0x50000000 0x50001000

theorem smallHeap_promised : Promised smallHeap (.kmalloc 8160) := by
  have howned : ∀ x ∈ rangeBytes smallHeap.owned, 0x50000000 ≤ x := by
    intro x hx
    simp only [rangeBytes, smallHeap, heapBoot, List.mem_singleton, exists_eq_left] at hx
    exact hx.1
  have hbase : smallHeap.mm.physBase + smallHeap.mm.totalPages * 4096 ≤ 0x50000000 ∧
      smallHeap.mm.pageBitmap + smallHeap.mm.bitmapBytes ≤ 0x50000000 ∧
      pagesNeeded (alignUp 8160 16) ≤ smallHeap.mm.totalPages := by decide +kernel
  refine promised_of_apart (by decide) (by omega) hbase.2.2 ?_ ?_
  · intro x hx
    have := howned x hx
    omega
  · intro x hx
    have := howned x hx
    omega

/-- The heap grows; a block of the first page is taken and freed, and merges with the
    rest of that page. -/
theorem heapOk_merge_adjacent :
    Always heapStep HeapOk smallHeap [.kmalloc 8160, .kmalloc 100, .kfree 0x50000018] := by
  have hpromised : Meets heapStep Promised smallHeap [.kmalloc 8160, .kmalloc 100, .kfree 0x50000018] := by
    intro h₁ hs₁
    refine ⟨smallHeap_promised, fun h₂ _ => ⟨?_, fun h₃ _ => ⟨trivial, trivial⟩⟩⟩
    have he : h₁ = (heapStep smallHeap (.kmalloc 8160)).getD smallHeap := by rw [hs₁]; rfl
    have hfits : firstFit h₁.mm.mem (alignUp 100 16) (2 ^ 64) h₁.mm.heapStart ≠ some .exhausted := by
      rw [he]
      decide +kernel
    exact ⟨by decide, fun hw => absurd hw hfits⟩
  refine (heapOk_iff _ (by decide) (by decide) (by omega) _ hpromised).mpr ?_
  intro h₁ hs₁
  refine ⟨trivial, fun h₂ hs₂ => ⟨trivial, fun h₃ _ => ⟨?_, trivial⟩⟩⟩
  have he₁ : h₁ = (heapStep smallHeap (.kmalloc 8160)).getD smallHeap := by
    rw [smallHeap, hs₁]
    rfl
  have he₂ : h₂ = (heapStep h₁ (.kmalloc 100)).getD h₁ := by rw [hs₂]; rfl
  rw [he₂, he₁]
  decide +kernel

/-- The heap grows for one allocation, which is then freed: it merges with the first page,
    far away, although the page allocation was fresh. -/
theorem merge_apart_breaks :
    Meets heapStep Promised smallHeap [.kmalloc 8160, .kfree 0x41001018] ∧
      ¬Always heapStep HeapOk smallHeap [.kmalloc 8160, .kfree 0x41001018] := by
  refine ⟨fun h₁ _ => ⟨smallHeap_promised, fun h₂ _ => ⟨trivial, trivial⟩⟩, fun hok => ?_⟩
  have hboot : Tiled smallHeap _ 0 := tiled_heapBoot _ (by decide) (by decide) (by omega)
  obtain ⟨h₁, bs, hs₁, ht⟩ := tiled_kmalloc hboot smallHeap_promised
  have he : h₁ = (heapStep smallHeap (.kmalloc 8160)).getD smallHeap := by
    rw [hs₁]; rfl
  have hlive : 0x41001018 ∈ h₁.live.map Prod.fst := by rw [he]; decide +kernel
  have hbad : ¬MergesAdjacent h₁ (.kfree 0x41001018) := by rw [he]; decide +kernel
  have hs₂ : heapStep h₁ (.kfree 0x41001018) = some _ := if_pos hlive
  exact not_heapOk_heapStep _ _ _ ⟨bs, ht⟩ hbad hs₂ ((hok.2 _ hs₁).2 _ hs₂)

end Crimson.Mm
