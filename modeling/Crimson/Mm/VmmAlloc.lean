import Crimson.Mm.VmmFree

/-!
# Mapping a range (`vmm_alloc_pages`)

A loop of two calls that can fail, `pmm_alloc` and `vmm_map`, with a rollback that unmaps
what has been mapped so far. The rollback frees no page: `vmm_unmap` leaves that to its
caller, and the loop has kept no addresses. So a call that fails at its first page undoes
itself, and one that fails later keeps the pages of the iterations before.

When the call fails is a matter of counting. Page number `i` takes one page and one more for
each table that is not there, and `pmm_alloc` answers as long as both the counter and the
bitmap have a page (`pagesLeft`). `Made` says what a piece of the descent has added and what
it has cost; costs add up along the descent and along the loop.
-/

set_option autoImplicit false

namespace Crimson.Mm

open Crimson.Lib

/-! ## The function -/

/-- `vaddr + i * PAGE_SIZE`. -/
def pageOf (vaddr : BitVec 64) (i : Nat) : BitVec 64 := vaddr + BitVec.ofNat 64 (i * 4096)

/-- The page at `paddr` is a managed page and is free. -/
def FreePage (s : MmState) (paddr : Nat) : Prop :=
  ∃ idx, idx < s.totalPages ∧ paddr = s.physBase + idx * 4096 ∧ s.pageBit idx = true

/-- The `npages` pages from `vaddr` lead to the pages of `taken`, which were free and are
    different ones, and no other translation has changed. -/
structure RangeMapped (s : MmState) (pgd : Nat) (vaddr : BitVec 64) (npages : Nat) (taken : List Nat)
    (s' : MmState) : Prop where
  count : taken.length = npages
  distinct : taken.Nodup
  fresh : ∀ paddr ∈ taken, HeldPage s s' paddr
  mapped : ∀ i, i < npages → frameAt s'.mem pgd (pagePath (pageOf vaddr i)) = taken[i]?
  others : ∀ q, q.length = 4 → (∀ i, i < npages → q ≠ pagePath (pageOf vaddr i)) →
    frameAt s'.mem pgd q = frameAt s.mem pgd q

/-- **All or nothing**: 0 is returned with every translation as it was and every page that
    was taken for mapping free again, and `vaddr` with all pages mapped. -/
structure AllOrNothing (s : MmState) (pgd : Nat) (vaddr : BitVec 64) (npages : Nat)
    (res : BitVec 64 × List Nat × MmState) : Prop where
  nothing : res.1 = 0#64 → (∀ q, q.length = 4 → frameAt res.2.2.mem pgd q = frameAt s.mem pgd q) ∧
    ∀ paddr ∈ res.2.1, FreePage res.2.2 paddr
  all : res.1 = vaddr → RangeMapped s pgd vaddr npages res.2.1 res.2.2

/-! ## What the call takes -/

/-- The paths to the tables below the one at `p` on the way along `is`. -/
def pathsFrom (p : List (Fin 512)) : List (Fin 512) → Finset (List (Fin 512))
  | [] => ∅
  | i :: is => insert (p ++ [i]) (pathsFrom (p ++ [i]) is)

/-- The paths to the tables a page needs beside the directory. -/
def tablePaths (vaddr : BitVec 64) : Finset (List (Fin 512)) := pathsFrom [] (dirPath vaddr)

/-- Those among the paths `P` where there is no table. -/
def missing (m : Mem) (pgd : Nat) (P : Finset (List (Fin 512))) : Finset (List (Fin 512)) :=
  P.filter fun q => frameAt m pgd q = none

/-- The tables for the `k` pages from page `i`. -/
def rangePaths (vaddr : BitVec 64) (i k : Nat) : Finset (List (Fin 512)) :=
  (Finset.range k).biUnion fun j => tablePaths (pageOf vaddr (i + j))

/-- How many more times `pmm_alloc` answers with a page. -/
def MmState.pagesLeft (s : MmState) : Nat := min s.freePages s.freeCount

/-- A page directory as `vmm_init`, `vmm_map` and `vmm_unmap` keep it: its tables do not
    overlap and are pages handed out since `s₀`. -/
structure Managed (s₀ : MmState) (pgd : Nat) (s : MmState) : Prop where
  held : TablesHeld s₀ pgd s
  tables : Tables s.mem pgd
  size : s.freePages < 2 ^ 64

variable {s₀ s s' s'' : MmState} {pgd n n' : Nat} {vaddr : BitVec 64} {flags : BitVec 32}
  {P Q : Finset (List (Fin 512))} {p : List (Fin 512)}

/-! ## Counting -/

theorem SameRange.pageAddr (h : SameRange s₀ s) (hr : PmmReady s₀ pgd) {idx : Nat}
    (hidx : idx < s.totalPages) : (s.physBase + idx * 4096) % 2 ^ 64 = s₀.physBase + idx * 4096 := by
  have htop := hr.top
  have htotal := h.totalPages
  rw [h.physBase]
  exact Nat.mod_eq_of_lt (by omega)

/-- A page free now was free in `s₀`. -/
theorem TablesHeld.wasFree (h : TablesHeld s₀ pgd s) {idx : Nat} (hidx : idx < s₀.totalPages)
    (hbit : s.pageBit idx = true) : s₀.pageBit idx = true := by
  cases hset : s₀.pageBit idx with
  | true => rfl
  | false => exact absurd hbit (by simp [h.reserved idx hidx hset])

theorem Took.pagesLeft {idx : Nat} (h : Took s idx 1 s') (hpos : s.freePages ≠ 0)
    (hsize : s.freePages < 2 ^ 64) : s.pagesLeft = s'.pagesLeft + 1 ∧ s'.freePages < 2 ^ 64 := by
  have hcount := h.freeCount
  have hfree : s'.freePages = s.freePages - 1 := by
    rw [h.count, sub64]
    omega
  rw [MmState.pagesLeft, MmState.pagesLeft]
  omega

/-- `pmm_alloc` fails when there is no page left, and otherwise takes one. -/
theorem pmmAlloc_counted (hr : PmmReady s₀ pgd) (hm : Managed s₀ pgd s) :
    (pmmAlloc s = (0, s) ∧ s.pagesLeft = 0) ∨
    ∃ idx s', pmmAlloc s = (s₀.physBase + idx * 4096, s') ∧ s₀.physBase + idx * 4096 ≠ 0 ∧
      Took s idx 1 s' ∧ s.pagesLeft = s'.pagesLeft + 1 ∧ s'.freePages < 2 ^ 64 := by
  rcases pmmAlloc_cases s with ⟨he, hnone⟩ | ⟨idx, s', he, htook, _⟩
  · refine Or.inl ⟨he, ?_⟩
    rw [MmState.pagesLeft]
    rcases hnone with hcount | hbits
    · rw [hcount, Nat.zero_min]
    · have hzero : s.freeCount = 0 := by
        rw [MmState.freeCount, Finset.card_eq_zero, Finset.filter_eq_empty_iff]
        intro idx hidx
        rw [hbits idx (Finset.mem_range.mp hidx)]
        simp
      rw [hzero, Nat.min_zero]
  · have hbase := hr.base
    have hin := htook.inRange
    rw [hm.held.range.pageAddr hr (by omega)] at he
    have hpos : s.freePages ≠ 0 := by
      intro hzero
      rw [pmmAlloc, if_pos hzero, Prod.mk.injEq] at he
      omega
    exact Or.inr ⟨idx, s', he, by omega, htook, htook.pagesLeft hpos hm.size⟩

/-- What is written off the bitmap leaves the count alone. -/
theorem MmState.pagesLeft_congr {m' : Mem} (hm : AgreeOn s.mem m' s.pageBitmap s.bitmapBytes) :
    MmState.pagesLeft { s with mem := m' } = s.pagesLeft := by
  have hcount : MmState.freeCount { s with mem := m' } = s.freeCount := by
    unfold MmState.freeCount
    refine congrArg Finset.card (Finset.filter_congr ?_)
    intro idx hidx
    rw [MmState.pageBit_congr hm (Finset.mem_range.mp hidx)]
  rw [MmState.pagesLeft, hcount, MmState.pagesLeft]

/-! ## Pieces of the call and what they cost -/

/-- From `s` to `s'`, tables have been made for the paths of `P` that had none, and `n` pages
    have been taken for mapping. -/
structure Made (s₀ : MmState) (pgd n : Nat) (P : Finset (List (Fin 512))) (s s' : MmState) : Prop where
  managed : Managed s₀ pgd s'
  made : ∀ q, q.length < 4 → (frameAt s'.mem pgd q = none ↔ frameAt s.mem pgd q = none ∧ q ∉ P)
  cost : s.pagesLeft = s'.pagesLeft + (n + (missing s.mem pgd P).card)
  taken : ∀ idx, idx < s₀.totalPages → s.pageBit idx = false → s'.pageBit idx = false

theorem Made.refl (hm : Managed s₀ pgd s) : Made s₀ pgd 0 ∅ s s :=
  ⟨hm, by simp, by simp [missing], fun _ _ h => h⟩

theorem Managed.sameFrames (hm : Managed s₀ pgd s) : SameFrames s.mem pgd s.mem :=
  ⟨hm.tables, fun _ _ => rfl⟩

/-- Tables made are tables no longer missing. -/
theorem Made.card_missing (h : Made s₀ pgd n P s s') (hQ : ∀ q ∈ Q, q.length < 4) :
    (missing s.mem pgd (P ∪ Q)).card = (missing s.mem pgd P).card + (missing s'.mem pgd Q).card := by
  have hsplit : missing s.mem pgd (P ∪ Q) = missing s.mem pgd P ∪ missing s'.mem pgd Q := by
    ext q
    simp only [missing, Finset.mem_filter, Finset.mem_union]
    constructor
    · rintro ⟨hq | hq, hnone⟩
      · exact Or.inl ⟨hq, hnone⟩
      · by_cases hP : q ∈ P
        · exact Or.inl ⟨hP, hnone⟩
        · exact Or.inr ⟨hq, (h.made q (hQ q hq)).mpr ⟨hnone, hP⟩⟩
    · rintro (⟨hq, hnone⟩ | ⟨hq, hnone⟩)
      · exact ⟨Or.inl hq, hnone⟩
      · exact ⟨Or.inr hq, ((h.made q (hQ q hq)).mp hnone).1⟩
  rw [hsplit]
  apply Finset.card_union_of_disjoint
  rw [Finset.disjoint_left]
  intro q hq hq'
  simp only [missing, Finset.mem_filter] at hq hq'
  exact ((h.made q (hQ q hq'.1)).mp hq'.2).2 hq.1

theorem Made.trans (h : Made s₀ pgd n P s s') (h' : Made s₀ pgd n' Q s' s'')
    (hQ : ∀ q ∈ Q, q.length < 4) : Made s₀ pgd (n + n') (P ∪ Q) s s'' := by
  refine ⟨h'.managed, ?_, ?_, fun idx hidx hbit => h'.taken idx hidx (h.taken idx hidx hbit)⟩
  · intro q hq
    rw [h'.made q hq, h.made q hq, Finset.mem_union, not_or, and_assoc]
  · have hcost := h.cost
    have hcost' := h'.cost
    rw [h.card_missing hQ]
    omega

/-- Taking a page for mapping. -/
theorem Managed.took (hm : Managed s₀ pgd s) (hr : PmmReady s₀ pgd) {idx : Nat} (htook : Took s idx 1 s')
    (hleft : s.pagesLeft = s'.pagesLeft + 1) (hsize : s'.freePages < 2 ^ 64) :
    Made s₀ pgd 1 ∅ s s' ∧ ∀ q, q.length ≤ 4 → frameAt s'.mem pgd q = frameAt s.mem pgd q := by
  have hsame : ∀ q, q.length ≤ 4 → frameAt s'.mem pgd q = frameAt s.mem pgd q :=
    fun q hq => frameAt_congr (fun q b hq hb => (hm.held.took hr htook hb hq).1) hq
  have hdirs : ∀ q, q.length < 4 → frameAt s'.mem pgd q = frameAt s.mem pgd q :=
    fun q hq => hsame q (by omega)
  refine ⟨⟨⟨hm.held.pmmTook htook hdirs, hm.tables.congr hdirs, hsize⟩, ?_, ?_, ?_⟩, hsame⟩
  · intro q hq
    simp [hdirs q hq]
  · simpa [missing] using hleft
  · intro j _ hj
    rw [htook.bits, hj, Bool.false_and]

/-- Writing entries and pages off the bitmap takes no page. -/
theorem Made.of_write {m' : Mem} (hm : Managed s₀ pgd s)
    (hheld : TablesHeld s₀ pgd { s with mem := m' }) (hT : Tables m' pgd)
    (hmem : AgreeOn s.mem m' s.pageBitmap s.bitmapBytes)
    (hdirs : ∀ q, q.length < 4 → frameAt m' pgd q = frameAt s.mem pgd q) :
    Made s₀ pgd 0 ∅ s { s with mem := m' } := by
  refine ⟨⟨hheld, hT, hm.size⟩, ?_, ?_, ?_⟩
  · intro q hq
    simp [hdirs q hq]
  · rw [MmState.pagesLeft_congr hmem]
    simp [missing]
  · intro idx hidx hbit
    rw [MmState.pageBit_congr hmem (by rw [hm.held.range.totalPages]; exact hidx)]
    exact hbit

/-- A page made a table is written off the bitmap, and so is the entry that leads to it. -/
theorem TablesHeld.agreeOn_newTable (h : TablesHeld s₀ pgd s) (hr : PmmReady s₀ pgd) {a idx : Nat}
    {i : Fin 512} (htook : Took s idx 1 s') (hp : frameAt s.mem pgd p = some a) (hlen : p.length < 4)
    (e : BitVec 64) :
    AgreeOn s'.mem (setEntry (fillBytes s'.mem (s₀.physBase + idx * 4096) 4096 0) a i e) s₀.pageBitmap
      s₀.bitmapBytes := by
  have hin := htook.inRange
  have htotal := h.range.totalPages
  have hoff := hr.bitmap idx (by omega) (h.wasFree (by omega) (htook.wasFree idx le_rfl (by omega)))
  have hfill : AgreeOn s'.mem (fillBytes s'.mem (s₀.physBase + idx * 4096) 4096 0) s₀.pageBitmap
      s₀.bitmapBytes := agreeOn_fillBytes (by omega)
  exact hfill.trans (h.agreeOn_setEntry hr hp hlen _ _)

/-- **One level of the descent**: the table is there, or a page is taken for it, or there is
    none to take. -/
theorem nextTable_made (hr : PmmReady s₀ pgd) (hm : Managed s₀ pgd s) {a : Nat} {i : Fin 512}
    (hp : frameAt s.mem pgd p = some a) (hlen : p.length < 3) :
    (∃ t s', nextTable s a i = (some t, s') ∧ frameAt s'.mem pgd (p ++ [i]) = some t ∧
      Made s₀ pgd 0 {p ++ [i]} s s' ∧ SameFrames s.mem pgd s'.mem) ∨
    (nextTable s a i = (none, s) ∧ s.pagesLeft = 0 ∧ frameAt s.mem pgd (p ++ [i]) = none) := by
  have hheld := tablesHeld_nextTable hr s p a i hm.tables hm.held hp hlen
  have hdesc := nextTable_descends (i := i) hm.tables hp hlen (hm.held.fresh hr a i) rfl
  have hnext : frameAt s.mem pgd (p ++ [i]) = linkOf (entry s.mem a i) := by
    rw [frameAt_snoc, hp, Option.bind_some]
  by_cases hvalid : entry s.mem a i &&& ptValid = 0#64
  · rw [linkOf_eq_none.mpr hvalid] at hnext
    rcases pmmAlloc_counted hr hm with ⟨he, hleft⟩ | ⟨idx, s₁, he, hpos, htook, hleft, hsize⟩
    · refine Or.inr ⟨?_, hleft, hnext⟩
      rw [nextTable, if_pos hvalid, he]
      rfl
    · -- a page is cleared and linked at `p ++ [i]`, and the other paths lead where they did
      left
      obtain ⟨hmade, hsame⟩ := hm.took hr htook hleft hsize
      obtain ⟨_, hlt, halign⟩ := hm.held.fresh hr a i hvalid
      rw [he] at hlt halign
      rw [nextTable, if_pos hvalid, he] at hheld hdesc ⊢
      dsimp only at hlt halign hheld hdesc ⊢
      rw [if_neg hpos] at hheld hdesc ⊢
      have hframe := fun q hq => frameAt_link (q := q) hm.tables hp (by omega : p.length < 4)
        (linkOf_eq_none.mpr hvalid) (fun q b hq hb => hm.held.took hr htook hb hq) hlt halign hq
      have hoff := hm.held.agreeOn_newTable hr htook hp (by omega : p.length < 4) (i := i)
        (BitVec.ofNat 64 (s₀.physBase + idx * 4096) ||| ptTable ||| ptValid)
      have hrange := hm.held.range.trans htook.same.range
      rw [← hrange.pageBitmap, ← hrange.bitmapBytes] at hoff
      refine ⟨_, _, rfl, hdesc.next _ rfl, ⟨⟨hheld, hdesc.tables, hsize⟩, ?_, ?_, ?_⟩, hdesc.sameFrames⟩
      · intro q hq
        rw [hframe q (by omega), Finset.mem_singleton]
        by_cases he : q = p ++ [i]
        · simp [he]
        · simp [he]
      · rw [MmState.pagesLeft_congr hoff, hleft]
        simp [missing, Finset.filter_singleton, hnext]
      · intro j hj hbit
        rw [MmState.pageBit_congr hoff (by rw [hrange.totalPages]; exact hj)]
        exact hmade.taken j hj hbit
  · rw [linkOf, if_neg hvalid] at hnext
    left
    refine ⟨_, s, by rw [nextTable, if_neg hvalid], hnext, ⟨hm, ?_, ?_, fun _ _ h => h⟩, hm.sameFrames⟩
    · intro q _
      rw [Finset.mem_singleton, iff_self_and]
      intro hnone hq
      rw [hq, hnext] at hnone
      simp at hnone
    · have hfull : missing s.mem pgd {p ++ [i]} = ∅ := by
        simp [missing, Finset.filter_singleton, hnext]
      rw [hfull]
      simp

/-! ## The descent -/

/-- The three levels of `vmm_map` one after the other. -/
def descend (s : MmState) (table : Nat) : List (Fin 512) → Option Nat × MmState
  | [] => (some table, s)
  | i :: is =>
    match nextTable s table i with
    | (none, s) => (none, s)
    | (some next, s) => descend s next is

theorem vmmMap_eq_descend (hpgd : pgd ≠ 0) (vaddr paddr : BitVec 64) (flags : BitVec 32) :
    vmmMap s pgd vaddr paddr flags =
      match descend s pgd (dirPath vaddr) with
      | (none, s) => (-1, s)
      | (some pte, s) =>
        (0, { s with
          mem := setEntry s.mem pte (pteIdx vaddr)
            ((paddr &&& ptAddrMask) ||| flags.setWidth 64 ||| ptValid ||| ptAf) }) := by
  rw [vmmMap, if_neg hpgd]
  simp only [dirPath, descend]
  cases nextTable s pgd (pgdIdx vaddr) with
  | mk next s₁ =>
    cases next with
    | none => rfl
    | some pud =>
      dsimp only
      cases nextTable s₁ pud (pudIdx vaddr) with
      | mk next s₂ =>
        cases next with
        | none => rfl
        | some pmd =>
          dsimp only
          cases nextTable s₂ pmd (pmdIdx vaddr) with
          | mk next s₃ => cases next <;> rfl

theorem length_of_mem_pathsFrom {is q : List (Fin 512)} (hq : q ∈ pathsFrom p is) :
    q.length ≤ p.length + is.length := by
  induction is generalizing p with
  | nil => simp [pathsFrom] at hq
  | cons i is ih =>
    rw [pathsFrom, Finset.mem_insert] at hq
    rw [List.length_cons]
    cases hq with
    | inl he => simp [he]
    | inr hq =>
      have hle := ih hq
      rw [List.length_append, List.length_singleton] at hle
      omega

theorem length_of_mem_tablePaths {q : List (Fin 512)} (hq : q ∈ tablePaths vaddr) : q.length < 4 := by
  have hle := length_of_mem_pathsFrom hq
  simp [dirPath] at hle
  omega

/-- A descent makes the tables that are missing, or there are fewer pages left than that. -/
theorem descend_made (hr : PmmReady s₀ pgd) (is : List (Fin 512)) (hm : Managed s₀ pgd s) {a : Nat}
    (hp : frameAt s.mem pgd p = some a) (hlen : p.length + is.length ≤ 3) :
    (∃ t s', descend s a is = (some t, s') ∧ frameAt s'.mem pgd (p ++ is) = some t ∧
      Made s₀ pgd 0 (pathsFrom p is) s s' ∧ SameFrames s.mem pgd s'.mem) ∨
    (∃ P s', descend s a is = (none, s') ∧ (∀ q ∈ P, q.length < 4) ∧ Made s₀ pgd 0 P s s' ∧
      SameFrames s.mem pgd s'.mem ∧ s.pagesLeft < (missing s.mem pgd (pathsFrom p is)).card) := by
  induction is generalizing s p a with
  | nil =>
    left
    exact ⟨a, s, rfl, by rw [List.append_nil]; exact hp, Made.refl hm, hm.sameFrames⟩
  | cons i is ih =>
    rw [List.length_cons] at hlen
    have hpath : p ++ i :: is = p ++ [i] ++ is := by simp
    have hshort : ∀ q ∈ pathsFrom (p ++ [i]) is, q.length < 4 := by
      intro q hq
      have hle := length_of_mem_pathsFrom hq
      rw [List.length_append, List.length_singleton] at hle
      omega
    rw [descend, pathsFrom, Finset.insert_eq, hpath]
    rcases nextTable_made (i := i) hr hm hp (by omega) with ⟨t, s₁, he, hnext, hmade, hsame⟩ | ⟨he, hleft, hnone⟩
    · rw [he]
      dsimp only
      have hcost := hmade.cost
      rw [hmade.card_missing hshort]
      rcases ih hmade.managed hnext (by simp; omega) with
        ⟨t', s', he', hlast, hmade', hsame'⟩ | ⟨P, s', he', hP, hmade', hsame', hleft⟩
      · left
        exact ⟨t', s', he', hlast, hmade.trans hmade' hshort, hsame.trans hsame'⟩
      · right
        refine ⟨_, s', he', ?_, hmade.trans hmade' hP, hsame.trans hsame', by omega⟩
        intro q hq
        rw [Finset.mem_union, Finset.mem_singleton] at hq
        cases hq with
        | inl hq => simp [hq]; omega
        | inr hq => exact hP q hq
    · right
      rw [he]
      refine ⟨∅, s, rfl, by simp, Made.refl hm, hm.sameFrames, ?_⟩
      rw [hleft, Finset.card_pos]
      exact ⟨p ++ [i], by simp [missing, hnone]⟩

/-- **`vmm_map`** makes the tables on the way and maps the page, or there are fewer pages left
    than tables missing. -/
theorem vmmMap_made (hpgd : pgd ≠ 0) (hr : PmmReady s₀ pgd) (hm : Managed s₀ pgd s)
    (vaddr paddr : BitVec 64) (flags : BitVec 32) :
    (∃ s', vmmMap s pgd vaddr paddr flags = (0, s') ∧ Made s₀ pgd 0 (tablePaths vaddr) s s' ∧
      ∀ q, q.length = 4 → frameAt s'.mem pgd q =
        if q = pagePath vaddr then linkOf ((paddr &&& ptAddrMask) ||| flags.setWidth 64 ||| ptValid ||| ptAf)
        else frameAt s.mem pgd q) ∨
    (∃ P s', vmmMap s pgd vaddr paddr flags = (-1, s') ∧ (∀ q ∈ P, q.length < 4) ∧
      Made s₀ pgd 0 P s s' ∧ SameFrames s.mem pgd s'.mem ∧
      s.pagesLeft < (missing s.mem pgd (tablePaths vaddr)).card) := by
  rw [vmmMap_eq_descend hpgd]
  rcases descend_made hr (dirPath vaddr) hm (frameAt_nil s.mem pgd) (by simp [dirPath]) with
    ⟨pte, s', he, hpte, hmade, hsame⟩ | ⟨P, s', he, hP, hmade, hsame, hleft⟩
  · left
    rw [List.nil_append] at hpte
    rw [he]
    generalize (paddr &&& ptAddrMask) ||| flags.setWidth 64 ||| ptValid ||| ptAf = e
    obtain ⟨hT, hleaf⟩ := frameAt_setLeaf (i := ⟨pteIdx vaddr, idx_lt⟩) hsame.tables hpte rfl e
    refine ⟨_, rfl, ?_, ?_⟩
    · have hoff := hmade.managed.held.agreeOn_setEntry (i := ⟨pteIdx vaddr, idx_lt⟩) hr hpte
        (by simp [dirPath]) s'.mem e
      rw [← hmade.managed.held.range.pageBitmap, ← hmade.managed.held.range.bitmapBytes] at hoff
      have hheld := hmade.managed.held.setLeaf (i := ⟨pteIdx vaddr, idx_lt⟩) hr hsame.tables hpte rfl e
      have hwrite := Made.of_write hmade.managed hheld hT hoff
        fun q hq => frameAt_setLeaf_table hsame.tables hpte rfl e hq
      have hall := hmade.trans hwrite (by simp)
      rw [Finset.union_empty] at hall
      exact hall
    · intro q hq
      dsimp only
      rw [hleaf q hq, hsame.same q hq]
      rfl
  · right
    rw [he]
    exact ⟨P, s', rfl, hP, hmade, hsame, hleft⟩

/-! ## The rollback -/

/-- No page taken in `s` has been freed. -/
structure StillTaken (s₀ s s' : MmState) : Prop where
  range : SameRange s₀ s'
  taken : ∀ idx, idx < s₀.totalPages → s.pageBit idx = false → s'.pageBit idx = false

theorem StillTaken.trans (h : StillTaken s₀ s s') (h' : StillTaken s₀ s' s'') : StillTaken s₀ s s'' :=
  ⟨h'.range, fun idx hidx hbit => h'.taken idx hidx (h.taken idx hidx hbit)⟩

theorem Managed.off (hm : Managed s₀ pgd s) (hr : PmmReady s₀ pgd) : OffBitmap s pgd 4 := by
  intro q a hq ha
  rw [hm.held.range.pageBitmap, hm.held.range.bitmapBytes]
  exact hm.held.off hr ha hq

/-- The page `vmm_map` has been given is mapped, if the flags leave its address alone. -/
structure PageMapped (s : MmState) (pgd : Nat) (vaddr : BitVec 64) (paddr : Nat) (s' : MmState) :
    Prop where
  fresh : HeldPage s s' paddr
  mapped : frameAt s'.mem pgd (pagePath vaddr) = some paddr
  others : ∀ q, q.length = 4 → q ≠ pagePath vaddr → frameAt s'.mem pgd q = frameAt s.mem pgd q

theorem rangePaths_succ (vaddr : BitVec 64) (i k : Nat) :
    rangePaths vaddr i (k + 1) = tablePaths (pageOf vaddr i) ∪ rangePaths vaddr (i + 1) k := by
  have hshift : ∀ j, i + 1 + j = i + (j + 1) := fun j => by omega
  simp only [rangePaths, hshift]
  ext q
  simp only [Finset.mem_union, Finset.mem_biUnion, Finset.mem_range]
  constructor
  · rintro ⟨j, hj, hq⟩
    cases j with
    | zero => exact Or.inl hq
    | succ j => exact Or.inr ⟨j, by omega, hq⟩
  · rintro (hq | ⟨j, hj, hq⟩)
    · exact ⟨0, by omega, hq⟩
    · exact ⟨j + 1, by omega, hq⟩

theorem length_of_mem_rangePaths {i k : Nat} {q : List (Fin 512)} (hq : q ∈ rangePaths vaddr i k) :
    q.length < 4 := by
  rw [rangePaths, Finset.mem_biUnion] at hq
  obtain ⟨j, _, hq⟩ := hq
  exact length_of_mem_tablePaths hq

theorem pageOf_pageOf (vaddr : BitVec 64) (i j : Nat) : pageOf (pageOf vaddr i) j = pageOf vaddr (i + j) := by
  rw [pageOf, pageOf, pageOf, BitVec.add_assoc, Nat.add_mul, BitVec.ofNat_add]

/-- Pages of a range that is not the whole address space are different ones. -/
theorem pagePath_pageOf_ne (vaddr : BitVec 64) {j : Nat} (hpos : 0 < j) (hlt : j < 2 ^ 36) :
    pagePath (pageOf vaddr j) ≠ pagePath vaddr := by
  have hto : (pageOf vaddr j).toNat = (vaddr.toNat + j * 4096) % 2 ^ 64 := by
    rw [pageOf, BitVec.toNat_add, BitVec.toNat_ofNat]
    omega
  have hv := vaddr.isLt
  simp only [pagePath, dirPath, List.cons_append, List.nil_append, ne_eq, List.cons.injEq, Fin.mk.injEq,
    and_true, pgdIdx, pudIdx, pmdIdx, pteIdx, idx_eq, hto]
  omega

/-- What one iteration takes is part of what the loop takes. -/
theorem Made.needed {i k : Nat} (h : Made s₀ pgd 1 (tablePaths (pageOf vaddr i)) s s') :
    k + 1 + (missing s.mem pgd (rangePaths vaddr i (k + 1))).card + s'.pagesLeft =
      s.pagesLeft + (k + (missing s'.mem pgd (rangePaths vaddr (i + 1) k)).card) := by
  have hcost := h.cost
  rw [rangePaths_succ, h.card_missing fun q => length_of_mem_rangePaths]
  omega

/-- A page mapped, and then the rest of the range. -/
theorem PageMapped.range {k paddr : Nat} {taken : List Nat} (hpage : PageMapped s pgd vaddr paddr s')
    (hrest : RangeMapped s' pgd (pageOf vaddr 1) k taken s'') (hmade : Made s₀ pgd 1 P s s')
    (hm : Managed s₀ pgd s) (hkept : HeldPage s s'' paddr) (hk : k < 2 ^ 36 - 1) :
    RangeMapped s pgd vaddr (k + 1) (paddr :: taken) s'' := by
  have hrange := hm.held.range
  have hrange' := hmade.managed.held.range
  have hzero : pageOf vaddr 0 = vaddr := by simp [pageOf]
  have hnext : ∀ j, pageOf (pageOf vaddr 1) j = pageOf vaddr (j + 1) := by
    intro j
    rw [pageOf_pageOf, Nat.add_comm]
  -- A page taken later was free while this one was not.
  have hlater : ∀ x ∈ taken, x ≠ paddr ∧ HeldPage s s'' x := by
    intro x hx
    obtain ⟨idx, hidx, hxe, hclear, hset⟩ := hrest.fresh x hx
    rw [hrange'.totalPages] at hidx
    rw [hrange'.physBase] at hxe
    constructor
    · obtain ⟨j, _, hpe, htaken, _⟩ := hpage.fresh
      rw [hrange.physBase] at hpe
      intro he
      have hij : idx = j := by omega
      rw [hij, htaken] at hset
      simp at hset
    · refine ⟨idx, by rw [hrange.totalPages]; exact hidx, by rw [hrange.physBase]; exact hxe, hclear, ?_⟩
      cases hbit : s.pageBit idx with
      | true => rfl
      | false =>
        rw [hmade.taken idx hidx hbit] at hset
        exact absurd hset (by simp)
  constructor
  · simp [hrest.count]
  · rw [List.nodup_cons]
    exact ⟨fun hmem => (hlater paddr hmem).1 rfl, hrest.distinct⟩
  · intro x hx
    cases List.mem_cons.mp hx with
    | inl he => exact he ▸ hkept
    | inr hx => exact (hlater x hx).2
  · intro i hi
    cases i with
    | zero =>
      rw [hzero, hrest.others _ (by simp [pagePath, dirPath]), hpage.mapped]
      · rfl
      · intro j hj
        rw [hnext]
        exact (pagePath_pageOf_ne vaddr (by omega) (by omega)).symm
    | succ i =>
      rw [← hnext, hrest.mapped i (by omega)]
      rfl
  · intro q hq hne
    rw [hrest.others q hq, hpage.others q hq]
    · have hfirst := hne 0 (by omega)
      rwa [hzero] at hfirst
    · intro j hj
      rw [hnext]
      exact hne (j + 1) (by omega)

theorem managed_vmmStep (hpgd : pgd ≠ 0) (hr : PmmReady s₀ pgd) (r : VmmRun) (op : VmmOp) (r' : VmmRun)
    (hm : Managed s₀ pgd r.mm) (hstep : vmmStep pgd r op = some r') : Managed s₀ pgd r'.mm := by
  have hheld := tablesHeld_vmmStep hpgd hr hm.held hm.tables hstep
  cases op with
  | map vaddr paddr flags =>
    simp only [vmmStep] at hstep
    split at hstep
    case isFalse => simp at hstep
    case isTrue =>
      cases hstep
      dsimp only
      rcases vmmMap_made hpgd hr hm vaddr paddr flags with ⟨s', he, hmade, _⟩ | ⟨P, s', he, _, hmade, _⟩
      · rw [he]
        exact hmade.managed
      · rw [he]
        exact hmade.managed
  | unmap vaddr =>
    simp only [vmmStep] at hstep
    split at hstep
    case isFalse => simp at hstep
    case isTrue =>
      cases hstep
      exact ⟨hheld, (vmmUnmap_spec hpgd hm.tables vaddr).1, hm.size⟩

theorem managed_vmmBoot (hpgd : pgd ≠ 0) (hr : PmmReady s pgd) (hsize : s.freePages < 2 ^ 64) :
    Managed s pgd (vmmBoot s pgd).mm :=
  ⟨tablesHeld_vmmBoot hpgd hr, (treeOf_vmmBoot s hpgd).tables, hsize⟩

/-- **Every run of `vmm_map` and `vmm_unmap` from a cleared directory** keeps it managed. -/
theorem managed_run (hpgd : pgd ≠ 0) (hr : PmmReady s pgd) (hsize : s.freePages < 2 ^ 64)
    (ops : List VmmOp) :
    Always (vmmStep pgd) (fun r => Managed s pgd r.mm) (vmmBoot s pgd) ops :=
  always_of_step (managed_vmmStep hpgd hr) (managed_vmmBoot hpgd hr hsize)

end Crimson.Mm
