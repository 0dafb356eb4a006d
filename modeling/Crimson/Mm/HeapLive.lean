import Crimson.Mm.HeapBlocks
import Crimson.Mm.VmmRefine

/-!
# The live allocations, and the pages behind them

`liveAllocs` reads the live allocations off the heap: the used blocks of its list. A
`kmalloc` that finds a block adds that block's payload (`HeapReady.carve_live`), and a `kfree` of a
used block takes it away (`Chain.kfree`). The second is stated for a list of which only the
headers are known to be apart: a `kfree` that merges blocks that are not neighbours spoils
the sizes, but not the headers, and the allocations that are still live stay so.

A `kmalloc` that finds no block asks the page allocator, and what it gets it never gives
back: whatever the size, and whatever the answer, `free_pages` then differs
(`kmalloc_pages`).
-/

set_option autoImplicit false

namespace Crimson.Mm

open Crimson.Lib

/-- The payloads of the used blocks. -/
def liveAllocs (s : MmState) : Set Nat :=
  {p | ∃ addrs, Linked (nextOf s.mem) (ptr s.heapStart) addrs ∧
    ∃ a ∈ addrs, hdrUsed s.mem a ≠ 0 ∧ p = a + 24}

theorem liveAllocs_of_linked {s : MmState} {addrs : List Nat}
    (hl : Linked (nextOf s.mem) (ptr s.heapStart) addrs) (p : Nat) :
    p ∈ liveAllocs s ↔ ∃ a ∈ addrs, hdrUsed s.mem a ≠ 0 ∧ p = a + 24 := by
  constructor
  · rintro ⟨addrs', hl', a, ha, hrest⟩
    exact ⟨a, Linked.unique hl' hl ▸ ha, hrest⟩
  · intro h
    exact ⟨addrs, hl, h⟩

/-! ## `kfree` -/

/-- Two headers have no byte in common. -/
def HdrApart (a b : Nat) : Prop := a + 24 ≤ b ∨ b + 24 ≤ a

instance : Std.Symm HdrApart := ⟨fun _ _ => Or.symm⟩

/-- A list of intact headers, apart from one another. -/
structure Chain (m : Mem) (h : Nat) (addrs : List Nat) : Prop where
  links : Linked (nextOf m) (ptr h) addrs
  apart : addrs.Pairwise HdrApart
  magic : ∀ a ∈ addrs, hdrMagic m a = heapMagic
  room : ∀ a ∈ addrs, a ≠ 0 ∧ a + 24 < 2 ^ 64

theorem HeapSeg.chain {m : Mem} {h : Nat} {bs : List Block} (hs : HeapSeg m h bs 0) (ha : Arena bs)
    (hroom : ∀ b ∈ bs, b.addr + 24 < 2 ^ 64) : Chain m h (bs.map Block.addr) where
  links := hs.links
  apart := by
    refine List.pairwise_map.mpr (ha.apart.imp ?_)
    intro a b hab
    unfold Block.Apart Block.stop at hab
    unfold HdrApart
    omega
  magic := by
    intro a ha
    obtain ⟨b, hb, rfl⟩ := List.mem_map.mp ha
    exact (hs.hdrs b hb).magic
  room := by
    intro a ha
    obtain ⟨b, hb, rfl⟩ := List.mem_map.mp ha
    exact ⟨(hs.hdrs b hb).addr, hroom b hb⟩

/-- Headers that are not written keep their fields. -/
theorem hdr_congr {m m' : Mem} {a : Nat} (hm : AgreeOn m m' a 24) :
    hdrUsed m' a = hdrUsed m a ∧ hdrMagic m' a = hdrMagic m a ∧ nextOf m' a = nextOf m a :=
  ⟨load32_congr (hm.mono (by omega) (by omega)), load32_congr (hm.mono (by omega) (by omega)),
    nextOf_congr hm⟩

/-- What `kfree` does to the header it is given: not used any more, and linked to the old
    successor or, past a free one, to the successor's. -/
theorem kfree_header {s : MmState} {a : Nat} (htop : a + 24 < 2 ^ 64)
    (hmagic : hdrMagic s.mem a = heapMagic) (hused : hdrUsed s.mem a ≠ 0)
    (hfar : hdrNext s.mem a ≠ 0 → a + 24 ≤ hdrNext s.mem a ∨ hdrNext s.mem a + 24 ≤ a) :
    hdrUsed (kfree s (a + 24)).mem a = 0 ∧ hdrMagic (kfree s (a + 24)).mem a = heapMagic ∧
      hdrNext (kfree s (a + 24)).mem a =
        if hdrNext s.mem a ≠ 0 ∧ hdrUsed s.mem (hdrNext s.mem a) = 0 then hdrNext s.mem (hdrNext s.mem a)
        else hdrNext s.mem a := by
  have hblock : sub64 (a + 24) 24 = a := by unfold sub64; omega
  have hnext : hdrNext (setUsed s.mem a 0) a = hdrNext s.mem a := load64_store32_disjoint (by omega)
  have hlt : hdrNext s.mem (hdrNext s.mem a) < 2 ^ 64 := load64_lt
  have hnull : ¬a + 24 = 0 := by omega
  simp only [kfree, if_neg hnull, hblock, hmagic, ne_eq, not_true, if_false, if_neg hused, hnext]
  by_cases hz : hdrNext s.mem a = 0
  · simp only [hz, not_true, false_and, if_false]
    simp only [hdrUsed, hdrMagic, hdrNext, setUsed] at hmagic hz ⊢
    simp (disch := omega) only [load32_store32_same, load32_store32_disjoint, load64_store32_disjoint, hmagic,
      hz, and_self]
  · have hfar := hfar hz
    have hread : hdrUsed (setUsed s.mem a 0) (hdrNext s.mem a) = hdrUsed s.mem (hdrNext s.mem a) :=
      load32_store32_disjoint (by omega)
    simp only [hz, not_false_eq_true, true_and, hread]
    by_cases hfree : hdrUsed s.mem (hdrNext s.mem a) = 0
    · simp only [if_pos hfree]
      generalize hdrNext s.mem a = d at *
      simp only [hdrUsed, hdrMagic, hdrNext, hdrSize, setUsed, setSize, setNext] at hmagic hlt ⊢
      simp (disch := omega) only [load32_store32_same, load64_store64_same, load32_store32_disjoint,
        load32_store64_disjoint, load64_store64_disjoint, load64_store32_disjoint, hmagic, and_self]
    · simp only [if_neg hfree]
      simp only [hdrUsed, hdrMagic, hdrNext, setUsed] at hmagic ⊢
      simp (disch := omega) only [load32_store32_same, load32_store32_disjoint, load64_store32_disjoint,
        hmagic, and_self]

/-- The headers of the other blocks stay. -/
theorem Chain.kfree_others {s : MmState} {addrs : List Nat} (h : Chain s.mem s.heapStart addrs) {a : Nat}
    (ha : a ∈ addrs) : ∀ x ∈ addrs, x ≠ a → AgreeOn s.mem (kfree s (a + 24)).mem x 24 := by
  obtain ⟨-, htop⟩ := h.room a ha
  intro x hx hxa y hy hylt
  have hapart : x + 24 ≤ a ∨ a + 24 ≤ x := h.apart.forall hx ha hxa
  exact kfree_frame (b := { addr := a, size := 0, used := true }) s htop (by dsimp only; omega)

/-- The next header of a block of the list is apart from its own. -/
theorem Chain.next_apart {m : Mem} {start : Nat} {l₁ l₂ : List Nat} {a : Nat} (h : Chain m start (l₁ ++ a :: l₂))
    (hz : hdrNext m a ≠ 0) : a + 24 ≤ hdrNext m a ∨ hdrNext m a + 24 ≤ a := by
  have hnextof : nextOf m a = l₂.head? := Linked.next_eq h.links
  have hd : some (hdrNext m a) = l₂.head? := (ptr_of_ne hz).symm.trans hnextof
  have hmem : hdrNext m a ∈ l₂ := List.mem_of_mem_head? hd.symm
  exact (List.pairwise_cons.mp (List.pairwise_append.mp h.apart).2.1).1 _ hmem

/-- The list after the call, for any stretch `l` of the old one that the block now leads to. -/
theorem Chain.relink {s : MmState} {l₁ l₂ l : List Nat} {a : Nat} (h : Chain s.mem s.heapStart (l₁ ++ a :: l₂))
    (hmagic : hdrMagic (kfree s (a + 24)).mem a = heapMagic) (hsub : l.Sublist l₂)
    (hlink : Linked (nextOf s.mem) (nextOf (kfree s (a + 24)).mem a) l) :
    Chain (kfree s (a + 24)).mem s.heapStart (l₁ ++ a :: l) := by
  have hothers := h.kfree_others (a := a) (by simp)
  have hnd := Linked.nodup h.links
  have hnd₂ := List.nodup_cons.mp (List.nodup_append.mp hnd).2.1
  have hnd₁ : a ∉ l₁ := fun ha₁ => (List.nodup_append.mp hnd).2.2 a ha₁ a (by simp) rfl
  have hsub' : (l₁ ++ a :: l).Sublist (l₁ ++ a :: l₂) := (List.Sublist.refl l₁).append (hsub.cons_cons a)
  obtain ⟨t, hpre, hrest⟩ := segment_append.mp h.links
  refine ⟨segment_append.mpr ⟨t, ?_, hrest.1, ?_⟩, h.apart.sublist hsub', ?_,
    fun x hx => h.room x (hsub'.subset hx)⟩
  · exact hpre.congr fun x hx =>
      (hdr_congr (hothers x (by simp [hx]) fun hxa => hnd₁ (hxa ▸ hx))).2.2
  · refine hlink.congr fun x hx => ?_
    have hx₂ := hsub.subset hx
    exact (hdr_congr (hothers x (by simp [hx₂]) fun hxa => hnd₂.1 (hxa ▸ hx₂))).2.2
  · intro x hx
    by_cases hxa : x = a
    · rw [hxa]
      exact hmagic
    · rw [(hdr_congr (hothers x (hsub'.subset hx) hxa)).2.1]
      exact h.magic x (hsub'.subset hx)

/-- **`kfree` of a used block**: the list loses at most a free block, and the used blocks
    are those that there were, without this one. -/
theorem Chain.kfree {s : MmState} {addrs : List Nat} (h : Chain s.mem s.heapStart addrs) {a : Nat}
    (ha : a ∈ addrs) (hused : hdrUsed s.mem a ≠ 0) :
    ∃ addrs', Chain (kfree s (a + 24)).mem s.heapStart addrs' ∧
      ∀ x, (x ∈ addrs' ∧ hdrUsed (Mm.kfree s (a + 24)).mem x ≠ 0) ↔
        x ∈ addrs ∧ hdrUsed s.mem x ≠ 0 ∧ x ≠ a := by
  obtain ⟨hne, htop⟩ := h.room a ha
  have hothers := h.kfree_others ha
  have hmagic := h.magic a ha
  obtain ⟨l₁, l₂, rfl⟩ := List.append_of_mem ha
  obtain ⟨hfreed, hmagic', hnext'⟩ := kfree_header htop hmagic hused h.next_apart
  have hnextof : nextOf s.mem a = l₂.head? := Linked.next_eq h.links
  obtain ⟨t, -, hrest⟩ := segment_append.mp h.links
  have hflag : ∀ x ∈ l₁ ++ a :: l₂, hdrUsed (Mm.kfree s (a + 24)).mem x ≠ 0 ↔ hdrUsed s.mem x ≠ 0 ∧ x ≠ a := by
    intro x hx
    by_cases hxa : x = a
    · simp [hxa, hfreed]
    · rw [(hdr_congr (hothers x hx hxa)).1]
      simp [hxa]
  have hnextof' : nextOf (Mm.kfree s (a + 24)).mem a = ptr (hdrNext (Mm.kfree s (a + 24)).mem a) := rfl
  by_cases hmerge : hdrNext s.mem a ≠ 0 ∧ hdrUsed s.mem (hdrNext s.mem a) = 0
  · -- the block behind it is free, and the list loses that one
    rw [if_pos hmerge] at hnext'
    have hd : some (hdrNext s.mem a) = l₂.head? := (ptr_of_ne hmerge.1).symm.trans hnextof
    cases l₂ with
    | nil => exact absurd hd (by simp)
    | cons d l =>
      have hda : hdrNext s.mem a = d := Option.some.inj hd
      rw [hda] at hnext' hmerge
      have hsub : (l₁ ++ a :: l).Sublist (l₁ ++ a :: d :: l) := by simp
      refine ⟨l₁ ++ a :: l, h.relink hmagic' (List.sublist_cons_self d l) ?_, ?_⟩
      · rw [hnextof', hnext']
        exact hrest.2.2
      · intro x
        constructor
        · rintro ⟨hx, hu⟩
          exact ⟨hsub.subset hx, (hflag x (hsub.subset hx)).mp hu⟩
        · rintro ⟨hx, hu, hxa⟩
          refine ⟨?_, (hflag x hx).mpr ⟨hu, hxa⟩⟩
          have hxd : x ≠ d := by
            rintro rfl
            exact hu hmerge.2
          simpa [hxa, hxd] using hx
  · rw [if_neg hmerge] at hnext'
    refine ⟨l₁ ++ a :: l₂, h.relink hmagic' (List.Sublist.refl l₂) ?_, ?_⟩
    · rw [hnextof', hnext']
      exact hrest.2
    · intro x
      constructor
      · rintro ⟨hx, hu⟩
        exact ⟨hx, (hflag x hx).mp hu⟩
      · rintro ⟨hx, hu, hxa⟩
        exact ⟨hx, (hflag x hx).mpr ⟨hu, hxa⟩⟩

theorem kfree_freePages (s : MmState) (p : Nat) : (kfree s p).freePages = s.freePages := by
  rw [kfree_heapStart]

/-- A heap of which only the headers are known to be in order, and away from the page
    bitmap. -/
structure HeapLinked (s : MmState) : Prop where
  chain : ∃ addrs, Chain s.mem s.heapStart addrs
  bitmap : ∀ p ∈ liveAllocs s, p ≤ s.pageBitmap ∨ s.pageBitmap + s.bitmapBytes + 24 ≤ p

/-- **`kfree` of a live allocation**: it is live no more, all others are, and the pages are
    as they were. -/
theorem HeapLinked.kfree {s : MmState} (h : HeapLinked s) {p : Nat} (hp : p ∈ liveAllocs s) :
    HeapLinked (Mm.kfree s p) ∧ (∀ q, q ∈ liveAllocs (Mm.kfree s p) ↔ q ∈ liveAllocs s ∧ q ≠ p) ∧
      ∀ idx, idx < s.totalPages → (Mm.kfree s p).pageBit idx = s.pageBit idx := by
  obtain ⟨addrs, hchain⟩ := h.chain
  obtain ⟨a, ha, hused, rfl⟩ := (liveAllocs_of_linked hchain.links p).mp hp
  obtain ⟨addrs', hchain', hmem⟩ := hchain.kfree ha hused
  have hsame : Mm.kfree s (a + 24) = { s with mem := (Mm.kfree s (a + 24)).mem } := kfree_heapStart s (a + 24)
  have hstart : (Mm.kfree s (a + 24)).heapStart = s.heapStart := by rw [hsame]
  have hlive : ∀ q, q ∈ liveAllocs (Mm.kfree s (a + 24)) ↔ q ∈ liveAllocs s ∧ q ≠ a + 24 := by
    intro q
    rw [liveAllocs_of_linked (by rw [hstart]; exact hchain'.links), liveAllocs_of_linked hchain.links]
    constructor
    · rintro ⟨x, hx, hu, rfl⟩
      obtain ⟨hx, hu, hxa⟩ := (hmem x).mp ⟨hx, hu⟩
      exact ⟨⟨x, hx, hu, rfl⟩, fun he => hxa (Nat.add_right_cancel he)⟩
    · rintro ⟨⟨x, hx, hu, rfl⟩, hne⟩
      obtain ⟨hx, hu⟩ := (hmem x).mpr ⟨hx, hu, fun he => hne (he ▸ rfl)⟩
      exact ⟨x, hx, hu, rfl⟩
  refine ⟨⟨⟨addrs', by rw [hstart]; exact hchain'⟩, ?_⟩, hlive, ?_⟩
  · intro q hq
    have hbitmap := h.bitmap q ((hlive q).mp hq).1
    rw [hsame]
    exact hbitmap
  · intro idx hidx
    have hbitmap := h.bitmap _ hp
    rw [hsame]
    refine MmState.pageBit_congr (fun x hx hxlt => ?_) hidx
    exact kfree_frame (b := { addr := a, size := 0, used := true }) s (hchain.room a ha).2 (by dsimp only; omega)

/-! ## `kmalloc` that finds a block -/

/-- The walk of `kmalloc(size)`. -/
def kmallocSearch (s : MmState) (size : Nat) : Option Search :=
  firstFit s.mem (alignUp size 16) (2 ^ 64) s.heapStart

/-- A heap that is in order: its blocks are apart, away from the page bitmap, and neither at
    the bottom nor at the very top of the address space. -/
structure HeapReady (s : MmState) (bs : List Block) : Prop where
  list : HeapSeg s.mem s.heapStart bs 0
  arena : Arena bs
  low : ∀ b ∈ bs, 4096 ≤ b.addr
  top : ∀ b ∈ bs, b.stop < 2 ^ 64
  bitmap : ∀ b ∈ bs, b.stop ≤ s.pageBitmap ∨ s.pageBitmap + s.bitmapBytes ≤ b.addr

variable {s : MmState} {bs l₁ l₂ : List Block} {b : Block} {size n : Nat}

theorem HeapReady.chain (h : HeapReady s bs) : Chain s.mem s.heapStart (bs.map Block.addr) := by
  refine h.list.chain h.arena ?_
  intro b hb
  have htop := h.top b hb
  unfold Block.stop at htop
  omega

theorem HeapReady.live (h : HeapReady s bs) (p : Nat) :
    p ∈ liveAllocs s ↔ ∃ b ∈ bs, b.used = true ∧ p = b.addr + 24 := by
  have hflag : ∀ b ∈ bs, hdrUsed s.mem b.addr ≠ 0 ↔ b.used = true := by
    intro b hb
    rw [(h.list.hdrs b hb).used]
    cases b.used <;> simp
  rw [liveAllocs_of_linked h.list.links]
  constructor
  · rintro ⟨a, ha, hu, rfl⟩
    obtain ⟨b, hb, rfl⟩ := List.mem_map.mp ha
    exact ⟨b, hb, (hflag b hb).mp hu, rfl⟩
  · rintro ⟨b, hb, hu, rfl⟩
    exact ⟨b.addr, List.mem_map_of_mem hb, (hflag b hb).mpr hu, rfl⟩

theorem HeapReady.linked (h : HeapReady s bs) : HeapLinked s := by
  refine ⟨⟨_, h.chain⟩, ?_⟩
  intro p hp
  obtain ⟨b, hb, -, rfl⟩ := (h.live p).mp hp
  have hbitmap := h.bitmap b hb
  unfold Block.stop at hbitmap
  omega

/-- A free block is not a live allocation. -/
theorem HeapReady.fresh (h : HeapReady s bs) (hb : b ∈ bs) (hfree : b.used = false) :
    b.addr + 24 ∉ liveAllocs s := by
  intro hlive
  obtain ⟨c, hc, hused, haddr⟩ := (h.live _).mp hlive
  have hne : b ≠ c := by
    rintro rfl
    rw [hfree] at hused
    exact Bool.noConfusion hused
  have hapart := h.arena.apart.forall hb hc hne
  unfold Block.Apart Block.stop at hapart
  omega

/-- Bytes that belong to a block's user are not part of the heap. -/
theorem HeapReady.fill (h : HeapReady s bs) (hb : b ∈ bs) (hn : n ≤ b.size) {c : BitVec 8} :
    HeapReady { s with mem := fillBytes s.mem (b.addr + 24) n c } bs ∧
      ∀ idx, idx < s.totalPages →
        MmState.pageBit { s with mem := fillBytes s.mem (b.addr + 24) n c } idx = s.pageBit idx := by
  refine ⟨⟨h.list.congr ?_, h.arena, h.low, h.top, h.bitmap⟩, ?_⟩
  · intro d hd
    refine agreeOn_fillBytes ?_
    by_cases hdb : b = d
    · subst hdb
      exact Or.inl le_rfl
    · have hapart := h.arena.apart.forall hb hd hdb
      unfold Block.Apart Block.stop at hapart
      omega
  · intro idx hidx
    refine MmState.pageBit_congr (agreeOn_fillBytes ?_) hidx
    have hbitmap := h.bitmap b hb
    unfold Block.stop at hbitmap
    omega

/-- The walk stops at a block that fits, or comes to the end when there is none. -/
theorem HeapReady.search (h : HeapReady s bs) (size : Nat) :
    (∃ l₁ b l₂, bs = l₁ ++ b :: l₂ ∧ b.Fits (alignUp size 16) ∧
        kmallocSearch s size = some (.found b.addr)) ∨
      (∀ b ∈ bs, ¬b.Fits (alignUp size 16)) ∧ kmallocSearch s size = some .exhausted := by
  have hlen := h.arena.length_le h.low
  have hfuel : bs.length ≤ 2 ^ 64 := by omega
  rcases @firstFit_heapSeg _ _ _ (alignUp size 16) _ h.list _ hfuel with
    ⟨l₁, b, l₂, hbs, hfit, hwalk⟩ | ⟨hnone, hwalk⟩
  · exact Or.inl ⟨l₁, b, l₂, hbs, hfit, hwalk⟩
  · refine Or.inr ⟨hnone, hwalk.trans ?_⟩
    obtain ⟨fuel, hfuel⟩ := Nat.exists_eq_succ_of_ne_zero (n := 2 ^ 64 - bs.length) (by omega)
    rw [hfuel]
    rfl

/-- A heap whose blocks are exchanged for others within the same bytes. -/
theorem HeapReady.carve (h : HeapReady s (l₁ ++ b :: l₂)) (hfit : b.Fits n) :
    HeapReady { s with mem := carve s.mem b.addr n } (l₁ ++ b.split n ++ l₂) := by
  have hlow := h.low b (by simp)
  have htop := h.top b (by simp)
  have hle := hfit.2
  have hsize : n + 40 < 2 ^ 64 := by
    unfold Block.stop at htop
    omega
  have ha : Arena (l₁ ++ [b] ++ l₂) := by simpa using h.arena
  have hsub : heapBytes (b.split n) ⊆ heapBytes [b] := by simp [Block.split_bytes, heapBytes_cons]
  have hnew := ha.replace Block.split_apart hsub
  have hparts : ∀ c ∈ b.split n, b.addr ≤ c.addr ∧ c.stop ≤ b.stop := by
    intro c hc
    unfold Block.split at hc
    split at hc
    · rcases List.mem_cons.mp hc with rfl | hc
      · unfold Block.stop
        dsimp only
        omega
      · rw [List.mem_singleton.mp hc]
        unfold Block.stop
        dsimp only
        omega
    · rw [List.mem_singleton.mp hc]
      exact ⟨le_rfl, le_rfl⟩
  have hall : ∀ {P : Block → Prop}, (∀ c ∈ l₁ ++ b :: l₂, P c) → (∀ c ∈ b.split n, P c) →
      ∀ c ∈ l₁ ++ b.split n ++ l₂, P c := by
    intro P hold hsplit c hc
    rw [List.mem_append, List.mem_append] at hc
    rcases hc with (hc | hc) | hc
    · exact hold c (by simp [hc])
    · exact hsplit c hc
    · exact hold c (by simp [hc])
  refine ⟨carve_heapSeg h.list h.arena hfit hsize, hnew, hall h.low ?_, hall h.top ?_, hall h.bitmap ?_⟩
  · intro c hc
    exact Nat.le_trans hlow (hparts c hc).1
  · intro c hc
    exact Nat.lt_of_le_of_lt (hparts c hc).2 htop
  · intro c hc
    obtain ⟨hlo, hhi⟩ := hparts c hc
    rcases h.bitmap b (by simp) with hb | hb
    · exact Or.inl (Nat.le_trans hhi hb)
    · exact Or.inr (Nat.le_trans hb hlo)

/-- **What a block found adds to the live allocations**, and what it leaves alone. -/
theorem HeapReady.carve_live (h : HeapReady s (l₁ ++ b :: l₂)) (hfit : b.Fits n) :
    (∀ p, p ∈ liveAllocs { s with mem := Mm.carve s.mem b.addr n } ↔ p ∈ liveAllocs s ∨ p = b.addr + 24) ∧
      ∀ idx, idx < s.totalPages →
        MmState.pageBit { s with mem := Mm.carve s.mem b.addr n } idx = s.pageBit idx := by
  constructor
  · intro p
    rw [(h.carve hfit).live, h.live]
    have hfree := hfit.1
    have hsplit : (∃ c ∈ b.split n, c.used = true ∧ p = c.addr + 24) ↔ p = b.addr + 24 := by
      unfold Block.split
      split <;> simp
    constructor
    · rintro ⟨c, hc, hu, hp⟩
      rw [List.mem_append, List.mem_append] at hc
      rcases hc with (hc | hc) | hc
      · exact Or.inl ⟨c, by simp [hc], hu, hp⟩
      · exact Or.inr (hsplit.mp ⟨c, hc, hu, hp⟩)
      · exact Or.inl ⟨c, by simp [hc], hu, hp⟩
    · rintro (⟨c, hc, hu, hp⟩ | hp)
      · refine ⟨c, ?_, hu, hp⟩
        have hcb : c ≠ b := by
          rintro rfl
          rw [hfree] at hu
          exact Bool.noConfusion hu
        rw [List.mem_append, List.mem_cons] at hc
        rcases hc with hc | rfl | hc
        · simp [hc]
        · exact absurd rfl hcb
        · simp [hc]
      · obtain ⟨c, hc, hrest⟩ := hsplit.mpr hp
        exact ⟨c, by simp [hc], hrest⟩
  · intro idx hidx
    have hlow := h.low b (by simp)
    have htop := h.top b (by simp)
    have hle := hfit.2
    refine MmState.pageBit_congr (fun x hx hxlt => ?_) hidx
    have hbitmap := h.bitmap b (by simp)
    refine carve_frame (h.list.hdrs b (by simp)) (Nat.le_of_lt htop) ?_ (by omega)
    unfold Block.stop at htop
    omega

/-- `s'` is `s` with one more live allocation. -/
structure Granted (s : MmState) (p : Nat) (s' : MmState) : Prop where
  ready : ∃ bs, HeapReady s' bs
  fresh : p ∉ liveAllocs s
  live : ∀ q, q ∈ liveAllocs s' ↔ q ∈ liveAllocs s ∨ q = p
  pages : ∀ idx, idx < s.totalPages → s'.pageBit idx = s.pageBit idx
  total : s'.totalPages = s.totalPages
  count : s'.freePages = s.freePages

/-- What was granted can be taken back. -/
theorem Granted.kfree {s s' : MmState} {p : Nat} (h : Granted s p s') :
    liveAllocs (Mm.kfree s' p) = liveAllocs s ∧
      ∀ idx, idx < s.totalPages → (Mm.kfree s' p).pageBit idx = s.pageBit idx := by
  obtain ⟨bs, hready⟩ := h.ready
  obtain ⟨-, hlive, hpages⟩ := hready.linked.kfree ((h.live p).mpr (Or.inr rfl))
  constructor
  · ext q
    rw [hlive, h.live]
    constructor
    · rintro ⟨hq | hq, hne⟩
      · exact hq
      · exact absurd hq hne
    · intro hq
      exact ⟨Or.inl hq, fun he => h.fresh (he ▸ hq)⟩
  · intro idx hidx
    exact (hpages idx (by rw [h.total]; exact hidx)).trans (h.pages idx hidx)

/-- Two allocations, taken back in the order they were granted. -/
theorem Granted.kfree_kfree {s s' s'' : MmState} {p q : Nat} (h : Granted s p s') (h' : Granted s' q s'') :
    liveAllocs (Mm.kfree (Mm.kfree s'' p) q) = liveAllocs s ∧
      ∀ idx, idx < s.totalPages → (Mm.kfree (Mm.kfree s'' p) q).pageBit idx = s.pageBit idx := by
  obtain ⟨bs, hready⟩ := h'.ready
  have hp : p ∈ liveAllocs s' := (h.live p).mpr (Or.inr rfl)
  have hpq : q ≠ p := by
    rintro rfl
    exact h'.fresh hp
  obtain ⟨hlinked, hlive, hpages⟩ := hready.linked.kfree ((h'.live p).mpr (Or.inl hp))
  obtain ⟨-, hlive', hpages'⟩ := hlinked.kfree ((hlive q).mpr ⟨(h'.live q).mpr (Or.inr rfl), hpq⟩)
  have htotal : (Mm.kfree s'' p).totalPages = s.totalPages := by
    rw [kfree_heapStart]
    exact h'.total.trans h.total
  constructor
  · ext x
    rw [hlive', hlive, h'.live, h.live]
    constructor
    · rintro ⟨⟨(hx | hx) | hx, hxp⟩, hxq⟩
      · exact hx
      · exact absurd hx hxp
      · exact absurd hx hxq
    · intro hx
      refine ⟨⟨Or.inl (Or.inl hx), fun he => h.fresh (he ▸ hx)⟩, fun he => ?_⟩
      exact h'.fresh ((h.live q).mpr (Or.inl (he ▸ hx)))
  · intro idx hidx
    rw [hpages' idx (by rw [htotal]; exact hidx), hpages idx (by rw [h'.total, h.total]; exact hidx),
      h'.pages idx (by rw [h.total]; exact hidx), h.pages idx hidx]

/-- **A block found is an allocation granted.** -/
theorem HeapReady.found (h : HeapReady s bs) {a : Nat} (hw : kmallocSearch s size = some (.found a)) :
    4096 ≤ a ∧ a + 24 < 2 ^ 64 ∧
      Granted s (a + 24) { s with mem := Mm.carve s.mem a (alignUp size 16) } ∧
      ∃ bs' b, HeapReady { s with mem := Mm.carve s.mem a (alignUp size 16) } bs' ∧ b ∈ bs' ∧ b.addr = a ∧
        alignUp size 16 ≤ b.size := by
  rcases h.search size with ⟨l₁, b, l₂, rfl, hfit, hwalk⟩ | ⟨-, hwalk⟩
  · rw [hw] at hwalk
    obtain rfl := Search.found.inj (Option.some.inj hwalk)
    have hlow := h.low b (by simp)
    have htop := h.top b (by simp)
    unfold Block.stop at htop
    have hready := h.carve hfit
    obtain ⟨hlive, hpages⟩ := h.carve_live hfit
    refine ⟨hlow, by omega, ⟨⟨_, hready⟩, h.fresh (by simp) hfit.1, hlive, hpages, rfl, rfl⟩, ?_⟩
    have hpart : ∃ c ∈ b.split (alignUp size 16), c.addr = b.addr ∧ alignUp size 16 ≤ c.size := by
      unfold Block.split
      split
      · exact ⟨_, List.mem_cons_self, rfl, le_rfl⟩
      · exact ⟨_, List.mem_singleton.mpr rfl, rfl, hfit.2⟩
    obtain ⟨c, hc, hrest⟩ := hpart
    exact ⟨_, c, hready, by simp [hc], hrest⟩
  · rw [hw] at hwalk
    exact absurd hwalk (by simp)

/-- Clearing what was granted changes none of this. -/
theorem HeapReady.found_fill (h : HeapReady s bs) {a : Nat} (hw : kmallocSearch s size = some (.found a))
    (hsize : size ≤ alignUp size 16) {c : BitVec 8} :
    Granted s (a + 24)
      { s with mem := fillBytes (Mm.carve s.mem a (alignUp size 16)) (a + 24) size c } := by
  obtain ⟨-, -, hgrant, bs', b, hready, hb, rfl, hle⟩ := h.found hw
  obtain ⟨hfill, hbits⟩ := hready.fill hb (c := c) (Nat.le_trans hsize hle)
  refine ⟨⟨bs', hfill⟩, hgrant.fresh, ?_, ?_, rfl, rfl⟩
  · intro q
    rw [← hgrant.live q, hready.live, hfill.live]
  · intro idx hidx
    exact (hbits idx hidx).trans (hgrant.pages idx hidx)

/-! ## `kmalloc` that finds none -/

/-- `pmm_alloc_n(n)` has nothing to give. -/
def NoPages (s : MmState) (n : Nat) : Prop := (pmmAllocN s n).2.freePages = s.freePages

instance (s : MmState) (n : Nat) : Decidable (NoPages s n) := inferInstanceAs (Decidable (_ = _))

theorem pmmAllocScan_count (s : MmState) (k i : Nat) :
    pmmAllocScan s k i = (0, s) ∨ (pmmAllocScan s k i).2.freePages = sub64 s.freePages 1 := by
  induction k generalizing i with
  | zero => exact Or.inl rfl
  | succ k ih =>
    unfold pmmAllocScan
    split
    · dsimp only
      split
      · exact Or.inl rfl
      · exact Or.inr rfl
    · exact ih (i + 1)

theorem pmmAllocNScan_count (s : MmState) (n k start : Nat) :
    pmmAllocNScan s n k start = (0, s) ∨ (pmmAllocNScan s n k start).2.freePages = sub64 s.freePages n := by
  induction k generalizing start with
  | zero => exact Or.inl rfl
  | succ k ih =>
    unfold pmmAllocNScan
    split
    · exact Or.inr rfl
    · exact ih (start + 1)

/-- Whatever is asked of it, `pmm_alloc_n` changes nothing or counts the pages off. -/
theorem pmmAllocN_count (s : MmState) (n : Nat) :
    pmmAllocN s n = (0, s) ∨
      0 < n ∧ (n = 1 → s.freePages ≠ 0) ∧ (pmmAllocN s n).2.freePages = sub64 s.freePages n := by
  unfold pmmAllocN
  split
  case isTrue h => exact Or.inl rfl
  case isFalse h =>
    split
    case isTrue h₁ =>
      subst h₁
      unfold pmmAlloc
      split
      case isTrue hf => exact Or.inl rfl
      case isFalse hf =>
        rcases pmmAllocScan_count s ((s.totalPages + 63) / 64) 0 with he | he
        · exact Or.inl he
        · exact Or.inr ⟨by omega, fun _ => hf, he⟩
    case isFalse h₁ =>
      rcases pmmAllocNScan_count s n (sub64 s.totalPages n + 1) 0 with he | he
      · exact Or.inl he
      · exact Or.inr ⟨by omega, fun hn => absurd hn h₁, he⟩

theorem NoPages.eq (h : NoPages s n) (hn : n < 2 ^ 64) :
    pmmAllocN s n = (0, s) := by
  rcases pmmAllocN_count s n with he | ⟨hpos, -, he⟩
  · exact he
  · unfold NoPages at h
    rw [h] at he
    unfold sub64 at he
    omega

theorem pagesNeeded_le (x : Nat) : pagesNeeded x ≤ 2 ^ 52 := by
  unfold pagesNeeded alignUp
  omega

/-- Asking for one page at a time only ever takes pages. -/
theorem kmallocRec_le {fuel : Nat} {s s' : MmState} {size r : Nat}
    (hone : pagesNeeded (alignUp size 16) ≤ 1) (h : kmallocRec fuel s size = some (r, s')) :
    s'.freePages ≤ s.freePages := by
  induction fuel generalizing s size with
  | zero => exact absurd h (by simp [kmallocRec])
  | succ fuel ih =>
    unfold kmallocRec at h
    split at h
    · rw [(Prod.mk.inj (Option.some.inj h)).2]
    · dsimp only at h
      split at h
      · exact absurd h (by simp)
      · rw [(Prod.mk.inj (Option.some.inj h)).2]
      · rw [← (Prod.mk.inj (Option.some.inj h)).2]
      · have hcount : (pmmAllocN s (pagesNeeded (alignUp size 16))).2.freePages ≤ s.freePages := by
          rcases pmmAllocN_count s (pagesNeeded (alignUp size 16)) with he | ⟨hpos, hne, he⟩
          · rw [he]
          · have hone' : pagesNeeded (alignUp size 16) = 1 := by omega
            have hne := hne hone'
            rw [he, hone']
            unfold sub64
            omega
        split at h
        · rw [← (Prod.mk.inj (Option.some.inj h)).2]
          exact hcount
        · refine Nat.le_trans (ih ?_ h) hcount
          rwa [alignUp_twice]

/-- The pages are enough for the block: the retry takes it. -/
theorem kmallocRec_grown {fuel : Nat} {s s' : MmState} {size newPages r : Nat} (hne : newPages ≠ 0)
    (hfits : alignUp size 16 + 24 ≤ pagesNeeded (alignUp size 16) * 4096)
    (h : kmallocRec fuel (growHeap s newPages (pagesNeeded (alignUp size 16))) (alignUp size 16) = some (r, s')) :
    s'.freePages = s.freePages := by
  cases fuel with
  | zero => exact absurd h (by simp [kmallocRec])
  | succ fuel =>
    by_cases hzero : alignUp size 16 = 0
    · rw [hzero, kmallocRec, if_pos rfl] at h
      rw [← (Prod.mk.inj (Option.some.inj h)).2]
      rfl
    · have hwalk : firstFit (growHeap s newPages (pagesNeeded (alignUp size 16))).mem
          (alignUp (alignUp size 16) 16) (2 ^ 64)
          (growHeap s newPages (pagesNeeded (alignUp size 16))).heapStart = some (.found newPages) := by
        rw [alignUp_twice]
        exact firstFit_growHeap s hne hfits (pagesNeeded_lt _)
      rw [kmallocRec_found hzero hwalk] at h
      rw [← (Prod.mk.inj (Option.some.inj h)).2]
      rfl

/-- **The outcomes of `kmalloc`**, for any size and any memory: it takes a block of the
    list; or it changes nothing and fails; or it has taken pages for good. -/
theorem kmalloc_pages {s s' : MmState} {size r : Nat} (hsize : size ≠ 0)
    (h : kmalloc s size = some (r, s')) :
    (∃ a, kmallocSearch s size = some (.found a) ∧ r = (a + 24) % 2 ^ 64 ∧
        s' = { s with mem := carve s.mem a (alignUp size 16) }) ∨
      ((∃ a, kmallocSearch s size = some (.corrupt a)) ∨
          kmallocSearch s size = some .exhausted ∧ NoPages s (pagesNeeded (alignUp size 16))) ∧
        r = 0 ∧ s' = s ∨
      (kmallocSearch s size = some .exhausted ∧ ¬NoPages s (pagesNeeded (alignUp size 16)) ∧
        0 < pagesNeeded (alignUp size 16) ∧
        (s'.freePages = sub64 s.freePages (pagesNeeded (alignUp size 16)) ∨
          ¬NoWrap size ∧ s'.freePages < s.freePages)) := by
  rw [kmalloc_eq] at h
  unfold kmallocSearch
  cases hw : firstFit s.mem (alignUp size 16) (2 ^ 64) s.heapStart with
  | none =>
    rw [kmallocRec, if_neg hsize] at h
    simp only [hw, reduceCtorEq] at h
  | some found =>
    cases found with
    | found a =>
      rw [kmallocRec_found hsize hw] at h
      obtain ⟨rfl, rfl⟩ := Prod.mk.inj (Option.some.inj h)
      exact Or.inl ⟨a, rfl, rfl, rfl⟩
    | corrupt a =>
      rw [kmallocRec_corrupt hsize hw] at h
      obtain ⟨rfl, rfl⟩ := Prod.mk.inj (Option.some.inj h)
      exact Or.inr (Or.inl ⟨Or.inl ⟨a, rfl⟩, rfl, rfl⟩)
    | exhausted =>
      have hcount := pmmAllocN_count s (pagesNeeded (alignUp size 16))
      have hpages := pagesNeeded_le (alignUp size 16)
      rcases hp : pmmAllocN s (pagesNeeded (alignUp size 16)) with ⟨newPages, t⟩
      rw [kmallocRec_exhausted hsize hw hp] at h
      unfold NoPages
      rw [hp] at hcount ⊢
      rcases hcount with he | ⟨hpos, hne, he⟩
      · obtain ⟨rfl, rfl⟩ := Prod.mk.inj he
        rw [if_pos rfl] at h
        obtain ⟨rfl, rfl⟩ := Prod.mk.inj (Option.some.inj h)
        exact Or.inr (Or.inl ⟨Or.inr ⟨rfl, rfl⟩, rfl, rfl⟩)
      have he : t.freePages = sub64 s.freePages (pagesNeeded (alignUp size 16)) := he
      have hsome : ¬t.freePages = s.freePages := by
        rw [he]
        unfold sub64
        omega
      refine Or.inr (Or.inr ⟨rfl, hsome, hpos, ?_⟩)
      by_cases hnew : newPages = 0
      · rw [if_pos hnew] at h
        obtain ⟨-, rfl⟩ := Prod.mk.inj (Option.some.inj h)
        exact Or.inl he
      rw [if_neg hnew] at h
      by_cases hfits : alignUp size 16 + 24 ≤ pagesNeeded (alignUp size 16) * 4096
      · rw [kmallocRec_grown hnew hfits h]
        exact Or.inl he
      · -- The rounding has wrapped: one page, which does not hold the block.
        have hwrap : ¬NoWrap size := fun hno => hfits hno.le_pagesNeeded
        have hone : pagesNeeded (alignUp size 16) = 1 := by
          revert hfits hpos
          unfold pagesNeeded
          have hlt : alignUp size 16 < 2 ^ 64 := by
            unfold alignUp
            omega
          generalize alignUp size 16 = x at hlt
          unfold alignUp
          omega
        have hne := hne hone
        have hle : s'.freePages ≤ (growHeap t newPages (pagesNeeded (alignUp size 16))).freePages :=
          kmallocRec_le (by rw [alignUp_twice, hone]) h
        have hle : s'.freePages ≤ t.freePages := hle
        rw [he, hone] at hle
        refine Or.inr ⟨hwrap, ?_⟩
        unfold sub64 at hle
        omega

theorem kmalloc_found {a : Nat} (hsize : size ≠ 0) (hw : kmallocSearch s size = some (.found a)) :
    kmalloc s size = some ((a + 24) % 2 ^ 64, { s with mem := carve s.mem a (alignUp size 16) }) := by
  rw [kmalloc_eq]
  exact kmallocRec_found hsize hw

theorem kmalloc_refused (hsize : size ≠ 0) (hw : kmallocSearch s size = some .exhausted)
    (hno : NoPages s (pagesNeeded (alignUp size 16))) : kmalloc s size = some (0, s) := by
  have hpages := pagesNeeded_le (alignUp size 16)
  rw [kmalloc_eq, kmallocRec_exhausted hsize hw (hno.eq (by omega)), if_pos rfl]

/-- One page, as the file table needs when it finds no block. -/
theorem noPages_one (s : MmState) : NoPages s 1 ∨ s.freePages ≠ 0 ∧ (pmmAlloc s).2.freePages = sub64 s.freePages 1 := by
  have hone : pmmAllocN s 1 = pmmAlloc s := rfl
  rcases pmmAllocN_count s 1 with he | ⟨-, hne, he⟩
  · refine Or.inl ?_
    unfold NoPages
    rw [he]
  · exact Or.inr ⟨hne rfl, hone ▸ he⟩

theorem kcalloc_found {a : Nat} (hsize : size ≠ 0) (hlt : size < 2 ^ 64) (htop : a + 24 < 2 ^ 64)
    (hw : kmallocSearch s size = some (.found a)) :
    kcalloc s 1 size =
      some (a + 24, { s with mem := fillBytes (carve s.mem a (alignUp size 16)) (a + 24) size 0 }) := by
  have htotal : 1 * size % 2 ^ 64 = size := by omega
  have hptr : (a + 24) % 2 ^ 64 = a + 24 := by omega
  have hne : a + 24 ≠ 0 := by omega
  unfold kcalloc
  simp only [htotal, kmalloc_found hsize hw, hptr, if_pos hne]

theorem kcalloc_refused (hsize : size ≠ 0) (hlt : size < 2 ^ 64) (hw : kmallocSearch s size = some .exhausted)
    (hno : NoPages s (pagesNeeded (alignUp size 16))) : kcalloc s 1 size = some (0, s) := by
  have htotal : 1 * size % 2 ^ 64 = size := by omega
  unfold kcalloc
  simp only [htotal, kmalloc_refused hsize hw hno]
  rfl

/-- The outcomes of a small `kcalloc`. -/
theorem kcalloc_pages {s s' : MmState} {r : Nat} (hsize : size ≠ 0) (hsmall : size ≤ 4096 - 24 - 16)
    (h : kcalloc s 1 size = some (r, s')) :
    (∃ a, kmallocSearch s size = some (.found a) ∧ r = (a + 24) % 2 ^ 64 ∧
        s' = if r ≠ 0 then { s with mem := fillBytes (carve s.mem a (alignUp size 16)) r size 0 }
          else { s with mem := carve s.mem a (alignUp size 16) }) ∨
      ((∃ a, kmallocSearch s size = some (.corrupt a)) ∨ kmallocSearch s size = some .exhausted ∧ NoPages s 1) ∧
        r = 0 ∧ s' = s ∨
      kmallocSearch s size = some .exhausted ∧ ¬NoPages s 1 ∧ s.freePages ≠ 0 ∧
        s'.freePages = sub64 s.freePages 1 := by
  have htotal : 1 * size % 2 ^ 64 = size := by omega
  have hone : pagesNeeded (alignUp size 16) = 1 := by
    unfold pagesNeeded alignUp
    omega
  have hno : NoWrap size := by
    unfold NoWrap
    omega
  unfold kcalloc at h
  rw [htotal] at h
  cases hk : kmalloc s size with
  | none => simp [hk] at h
  | some k =>
    simp only [hk, Option.some.injEq, Prod.mk.injEq] at h
    obtain ⟨rfl, hs'⟩ := h
    have hcount : s'.freePages = k.2.freePages := by
      rw [← hs']
      split <;> rfl
    rcases kmalloc_pages hsize hk with ⟨a, hw, hr, hk⟩ | ⟨hw, hr, hk⟩ | ⟨hw, hnot, -, hk⟩
    · refine Or.inl ⟨a, hw, hr, ?_⟩
      rw [← hs', hk]
    · rw [hone] at hw
      refine Or.inr (Or.inl ⟨hw, hr, ?_⟩)
      rw [← hs', hr, hk]
      rfl
    · rw [hone] at hnot hk
      refine Or.inr (Or.inr ⟨hw, hnot, ?_, ?_⟩)
      · rcases noPages_one s with hno | ⟨hne, -⟩
        · exact absurd hno hnot
        · exact hne
      · rcases hk with hk | ⟨hwrap, -⟩
        · rw [hcount, hk]
        · exact absurd hno hwrap

end Crimson.Mm
