import Crimson.Mm.PmmExclusive
import Crimson.Mm.VmmMap

/-!
# The refinement, and the page allocator under it

`vmm_refines_map` assumes of `pmm_alloc` that its answers are fresh. For the page allocator
of `mm.c` that is a theorem, `mapFresh_of_ready`: a table is a page it has handed out, so
its bit is clear, and it hands out pages whose bits are set. What has to be right is where
things are at the start: free pages below `2 ^ 48`, apart from the bitmap and from the
directory.
-/

set_option autoImplicit false

namespace Crimson.Mm

open Crimson.Lib

variable {s₀ s : MmState} {m : Mem} {pgd a : Nat} {p : List (Fin 512)} {i : Fin 512}

/-- The page allocator's free pages can be made tables under `pgd`. -/
structure PmmReady (s₀ : MmState) (pgd : Nat) : Prop where
  base : 0 < s₀.physBase
  align : s₀.physBase % 4096 = 0
  top : s₀.physBase + s₀.totalPages * 4096 ≤ 2 ^ 48
  bitmap : ∀ idx, idx < s₀.totalPages → s₀.pageBit idx = true →
    s₀.pageBitmap + s₀.bitmapBytes ≤ s₀.physBase + idx * 4096 ∨
      s₀.physBase + idx * 4096 + 4096 ≤ s₀.pageBitmap
  dir : ∀ idx, idx < s₀.totalPages → s₀.pageBit idx = true → PagesApart (s₀.physBase + idx * 4096) pgd
  dirBitmap : s₀.pageBitmap + s₀.bitmapBytes ≤ pgd ∨ pgd + 4096 ≤ s₀.pageBitmap

/-- `pmm_init` leaves it so, for a directory outside the range it is given. -/
theorem pmmReady_pmmInit (kernelSize : Nat) (s : MmState) {base size : Nat} (hbase : 0 < alignUp base 4096)
    (htop : alignUp base 4096 + size / 4096 * 4096 ≤ 2 ^ 48)
    (hdir : pgd + 4096 ≤ alignUp base 4096 ∨ alignUp base 4096 + size / 4096 * 4096 ≤ pgd) :
    PmmReady (pmmInit kernelSize s base size) pgd := by
  obtain ⟨htotal, hphys, hbitmap, hpages, hclear⟩ := @pmmInit_spec kernelSize s base size (by omega)
  generalize pmmInit kernelSize s base size = t at *
  have halign : alignUp base 4096 % 4096 = 0 := by unfold alignUp; omega
  generalize alignUp base 4096 = start at *
  have hbytes : t.bitmapBytes ≤ t.bitmapPages * 4096 := by
    unfold MmState.bitmapPages alignUp
    have hle : t.bitmapBytes ≤ t.totalPages * 8 + 512 := by unfold MmState.bitmapBytes; omega
    omega
  refine ⟨by omega, by omega, by omega, fun idx hidx hbit => ?_, fun idx hidx _ => ?_, by omega⟩
  · have hlow : ¬idx < t.bitmapPages := by
      intro hlt
      rw [hclear idx hlt] at hbit
      cases hbit
    omega
  · unfold PagesApart
    omega

/-- Every table but the directory is a page that was free in `s₀` and has been handed out. -/
structure TablesHeld (s₀ : MmState) (pgd : Nat) (s : MmState) : Prop where
  range : SameRange s₀ s
  held : ∀ p table, p.length < 4 → frameAt s.mem pgd p = some table →
    table = pgd ∨ HeldPage s₀ s table
  reserved : ∀ idx, idx < s₀.totalPages → s₀.pageBit idx = false → s.pageBit idx = false

/-- Tables are off the bitmap. -/
theorem TablesHeld.off (h : TablesHeld s₀ pgd s) (hr : PmmReady s₀ pgd) (hp : frameAt s.mem pgd p = some a)
    (hlen : p.length < 4) :
    s₀.pageBitmap + s₀.bitmapBytes ≤ a ∨ a + 4096 ≤ s₀.pageBitmap := by
  rcases h.held p a hlen hp with rfl | ⟨idx, hidx, rfl, _, hset⟩
  · exact hr.dirBitmap
  · exact hr.bitmap idx hidx hset

theorem SameRange.bitmapBytes (h : SameRange s₀ s) : s.bitmapBytes = s₀.bitmapBytes := by
  rw [MmState.bitmapBytes, h.totalPages, MmState.bitmapBytes]

/-- A page the allocator takes is apart from the tables, and taking it writes none. -/
theorem TablesHeld.took (h : TablesHeld s₀ pgd s) (hr : PmmReady s₀ pgd) {idx : Nat} {s' : MmState}
    (htook : Took s idx 1 s') (hp : frameAt s.mem pgd p = some a) (hlen : p.length < 4) :
    AgreeOn s.mem s'.mem a 4096 ∧ PagesApart (s₀.physBase + idx * 4096) a := by
  have hin := htook.inRange
  have htotal := h.range.totalPages
  constructor
  · intro x hx hx'
    have hoff := h.off hr hp hlen
    refine htook.same.mem x ?_
    rw [h.range.pageBitmap, h.range.bitmapBytes]
    omega
  · have hfree := htook.wasFree idx le_rfl (by omega)
    have hset : s₀.pageBit idx = true := by
      by_contra hclear
      rw [h.reserved idx (by omega) (by simpa using hclear)] at hfree
      cases hfree
    rcases h.held p a hlen hp with rfl | ⟨j, _, rfl, hclear, _⟩
    · exact hr.dir idx (by omega) hset
    · have hne : idx ≠ j := by
        rintro rfl
        rw [hfree] at hclear
        cases hclear
      unfold PagesApart
      omega

/-- **The page allocator's answers are fresh.** -/
theorem TablesHeld.fresh (h : TablesHeld s₀ pgd s) (hr : PmmReady s₀ pgd) (table idx : Nat) :
    NextFresh pgd s table idx := by
  intro _
  have htop := hr.top
  have halign := hr.align
  have hbase := h.range.physBase
  rcases pmmAlloc_cases s with ⟨he, _⟩ | ⟨idx, s', he, htook, _⟩
  · refine ⟨fun p a hlen hp => ?_, ?_⟩
    · rw [he]
      exact ⟨fun _ _ _ => rfl, fun hne => absurd rfl hne⟩
    · rw [PageAddr, he]
      exact ⟨by dsimp only; omega, rfl⟩
  · have hin := htook.inRange
    have htotal := h.range.totalPages
    have haddr : (s.physBase + idx * 4096) % 2 ^ 64 = s₀.physBase + idx * 4096 := by
      rw [hbase]
      exact Nat.mod_eq_of_lt (by omega)
    rw [haddr] at he
    refine ⟨fun p a hlen hp => ?_, ?_⟩
    · obtain ⟨hsame, hapart⟩ := h.took hr htook hp hlen
      rw [he]
      exact ⟨hsame, fun _ => hapart⟩
    · rw [PageAddr, he]
      exact ⟨by dsimp only; omega, by dsimp only; omega⟩

/-! ## The bitmap is off the tables -/

theorem MmState.pageBit_congr {m' : Mem} (hm : AgreeOn s.mem m' s.pageBitmap s.bitmapBytes) {idx : Nat}
    (hidx : idx < s.totalPages) : MmState.pageBit { s with mem := m' } idx = s.pageBit idx := by
  unfold MmState.pageBit MmState.word
  dsimp only
  rw [load64_congr (hm.mono (by omega) ?_)]
  unfold MmState.bitmapBytes
  omega

/-- Bits are not changed by what is written off the bitmap. -/
theorem TablesHeld.write (h : TablesHeld s₀ pgd s) {m' : Mem}
    (hm : AgreeOn s.mem m' s₀.pageBitmap s₀.bitmapBytes)
    (hheld : ∀ p table, p.length < 4 → frameAt m' pgd p = some table →
      table = pgd ∨ HeldPage s₀ s table) : TablesHeld s₀ pgd { s with mem := m' } := by
  have hbits : ∀ idx, idx < s₀.totalPages →
      MmState.pageBit { s with mem := m' } idx = s.pageBit idx := by
    intro idx hidx
    rw [← h.range.pageBitmap, ← h.range.bitmapBytes] at hm
    exact MmState.pageBit_congr hm (by rw [h.range.totalPages]; exact hidx)
  refine ⟨⟨h.range.pageBitmap, h.range.totalPages, h.range.physBase⟩, ?_, ?_⟩
  · intro p table hlen hp
    rcases hheld p table hlen hp with hdir | ⟨idx, hidx, hpe, hclear, hset⟩
    · exact Or.inl hdir
    · exact Or.inr ⟨idx, hidx, hpe, (hbits idx hidx).trans hclear, hset⟩
  · intro idx hidx hbit
    exact (hbits idx hidx).trans (h.reserved idx hidx hbit)

/-- Writing an entry of a table is writing off the bitmap. -/
theorem TablesHeld.agreeOn_setEntry (h : TablesHeld s₀ pgd s) (hr : PmmReady s₀ pgd)
    (hp : frameAt s.mem pgd p = some a) (hlen : p.length < 4) (m : Mem) (e : BitVec 64) :
    AgreeOn m (setEntry m a i e) s₀.pageBitmap s₀.bitmapBytes := by
  have hi := i.isLt
  have hoff := h.off hr hp hlen
  exact agreeOn_store64 (by omega)

/-- Taking a page changes the bit of a page that is not a table. -/
theorem TablesHeld.pmmTook (h : TablesHeld s₀ pgd s) {idx : Nat} {s' : MmState} (htook : Took s idx 1 s')
    (hsame : ∀ p, p.length < 4 → frameAt s'.mem pgd p = frameAt s.mem pgd p) : TablesHeld s₀ pgd s' := by
  have hclear : ∀ j, s.pageBit j = false → s'.pageBit j = false := by
    intro j hj
    rw [htook.bits, hj, Bool.false_and]
  refine ⟨h.range.trans htook.same.range, ?_, fun j hj hbit => hclear j (h.reserved j hj hbit)⟩
  intro p table hlen hp
  rw [hsame p hlen] at hp
  rcases h.held p table hlen hp with hdir | ⟨j, hj, hpe, hbit, hset⟩
  · exact Or.inl hdir
  · exact Or.inr ⟨j, hj, hpe, hclear j hbit, hset⟩

/-- **Descents keep the tables on handed-out pages.** -/
theorem tablesHeld_nextTable (hr : PmmReady s₀ pgd) : KeptByDescent pgd (TablesHeld s₀ pgd) := by
  intro s p a i hT h hp hlen
  unfold nextTable
  by_cases hvalid : entry s.mem a i &&& ptValid = 0#64
  · rw [if_pos hvalid]
    obtain ⟨_, hlt, halign⟩ := h.fresh hr a i hvalid
    rcases pmmAlloc_cases s with ⟨he, _⟩ | ⟨idx, s', he, htook, _⟩
    · rw [he]
      exact h
    · have hin := htook.inRange
      have htotal := h.range.totalPages
      have htop := hr.top
      have haddr : (s.physBase + idx * 4096) % 2 ^ 64 = s₀.physBase + idx * 4096 := by
        rw [h.range.physBase]
        exact Nat.mod_eq_of_lt (by omega)
      rw [haddr] at he
      rw [he] at hlt halign ⊢
      dsimp only at hlt halign ⊢
      have hbase := hr.base
      rw [if_neg (by omega)]
      have hagree : ∀ q b, q.length < 4 → frameAt s.mem pgd q = some b →
          AgreeOn s.mem s'.mem b 4096 ∧ PagesApart (s₀.physBase + idx * 4096) b :=
        fun q b hq hb => h.took hr htook hb hq
      have hsame : ∀ q, q.length < 4 → frameAt s'.mem pgd q = frameAt s.mem pgd q :=
        fun q hq => frameAt_congr (fun q b hq hb => (hagree q b hq hb).1) (by omega)
      have h' := h.pmmTook htook hsame
      have hset : s₀.pageBit idx = true := by
        by_contra hclear
        have hfree := htook.wasFree idx le_rfl (by omega)
        rw [h.reserved idx (by omega) (by simpa using hclear)] at hfree
        cases hfree
      refine h'.write ?_ fun q table hq htable => ?_
      · have hoff := hr.bitmap idx (by omega) hset
        have hfill : AgreeOn s'.mem (fillBytes s'.mem (s₀.physBase + idx * 4096) 4096 0) s₀.pageBitmap
            s₀.bitmapBytes := agreeOn_fillBytes (by omega)
        exact hfill.trans (h.agreeOn_setEntry hr hp (by omega) _ _)
      · rw [frameAt_link hT hp (by omega) (linkOf_eq_none.mpr hvalid) hagree hlt halign (by omega)] at htable
        split at htable
        · cases htable
          refine Or.inr ⟨idx, by omega, rfl, ?_, hset⟩
          rw [htook.bits, decide_eq_true ⟨le_rfl, Nat.lt_succ_self idx⟩, Bool.not_true, Bool.and_false]
        · rw [← hsame q hq] at htable
          exact h'.held q table hq htable
  · rw [if_neg hvalid]
    exact h

/-- So do writes of last-level entries. -/
theorem TablesHeld.setLeaf (h : TablesHeld s₀ pgd s) (hr : PmmReady s₀ pgd) (hT : Tables s.mem pgd)
    (hp : frameAt s.mem pgd p = some a) (hlen : p.length = 3) (e : BitVec 64) :
    TablesHeld s₀ pgd { s with mem := setEntry s.mem a i e } := by
  refine h.write (h.agreeOn_setEntry hr hp (by omega) s.mem e) fun q table hq htable => ?_
  rw [frameAt_setLeaf_table hT hp hlen e hq] at htable
  exact h.held q table hq htable

/-! ## Runs -/

theorem TablesHeld.mapFresh {r : VmmRun} (h : TablesHeld s₀ pgd r.mm) (hr : PmmReady s₀ pgd)
    (hT : Tables r.mm.mem pgd) (op : VmmOp) : MapFresh pgd r op := by
  cases op with
  | unmap vaddr => trivial
  | map vaddr paddr flags =>
    refine ⟨h.fresh hr _ _, fun pud s₁ h₁ => ?_⟩
    have hd₁ : Descends r.mm pgd [⟨pgdIdx vaddr, idx_lt⟩] (nextTable r.mm pgd (pgdIdx vaddr)) :=
      nextTable_descends (i := ⟨pgdIdx vaddr, idx_lt⟩) hT (frameAt_nil _ _) (by simp) (h.fresh hr _ _) rfl
    have hs₁ : TablesHeld s₀ pgd (nextTable r.mm pgd (pgdIdx vaddr)).2 :=
      tablesHeld_nextTable hr r.mm [] pgd ⟨pgdIdx vaddr, idx_lt⟩ hT h (frameAt_nil _ _) (by simp)
    rw [h₁] at hd₁ hs₁
    refine ⟨hs₁.fresh hr _ _, fun pmd s₂ h₂ => ?_⟩
    have hs₂ : TablesHeld s₀ pgd (nextTable s₁ pud (pudIdx vaddr)).2 :=
      tablesHeld_nextTable hr s₁ _ pud ⟨pudIdx vaddr, idx_lt⟩ hd₁.tables hs₁ (hd₁.next pud rfl) (by simp)
    rw [h₂] at hs₂
    exact hs₂.fresh hr _ _

theorem tablesHeld_vmmStep (hpgd : pgd ≠ 0) (hr : PmmReady s₀ pgd) {r : VmmRun} {op : VmmOp} {r' : VmmRun}
    (h : TablesHeld s₀ pgd r.mm) (hT : Tables r.mm.mem pgd) (hstep : vmmStep pgd r op = some r') :
    TablesHeld s₀ pgd r'.mm := by
  have hfresh := h.mapFresh hr hT op
  cases op with
  | map vaddr paddr flags =>
    simp only [vmmStep] at hstep
    split at hstep
    case isFalse => cases hstep
    case isTrue hargs =>
      cases hstep
      rcases vmmMap_cases hpgd hT hfresh (tablesHeld_nextTable hr) h with
        ⟨s', he, _, h'⟩ | ⟨pte, s₃, hsame, h', hpte, he⟩
      · dsimp only
        rw [he]
        exact h'
      · dsimp only
        rw [he]
        exact h'.setLeaf (i := ⟨pteIdx vaddr, idx_lt⟩) hr hsame.tables hpte rfl _
  | unmap vaddr =>
    simp only [vmmStep] at hstep
    split at hstep
    case isFalse => cases hstep
    case isTrue hva =>
      cases hstep
      dsimp only
      rw [vmmUnmap_eq hpgd]
      cases hpte : frameAt r.mm.mem pgd (dirPath vaddr) with
      | none => exact h
      | some pte => exact h.setLeaf (i := ⟨pteIdx vaddr, idx_lt⟩) hr hT hpte rfl 0#64

theorem tablesHeld_vmmBoot (hpgd : pgd ≠ 0) (hr : PmmReady s pgd) :
    TablesHeld s pgd (vmmBoot s pgd).mm := by
  have hstart : TablesHeld s pgd { s with mem := (vmmBoot s pgd).mm.mem } := by
    have hmem : AgreeOn s.mem (vmmBoot s pgd).mm.mem s.pageBitmap s.bitmapBytes := by
      have hoff := hr.dirBitmap
      simp only [vmmBoot, vmmInit, if_neg hpgd]
      exact agreeOn_fillBytes (by omega)
    refine ⟨⟨rfl, rfl, rfl⟩, ?_, fun idx hidx hbit => (MmState.pageBit_congr hmem hidx).trans hbit⟩
    intro p table _ hp
    cases p with
    | nil => exact Or.inl (Option.some.inj hp).symm
    | cons i p =>
      dsimp only at hp
      rw [frameAt_vmmBoot s hpgd] at hp
      cases hp
  exact hstart

/-- **Over the page allocator, every run's answers are fresh.** -/
theorem mapFresh_of_ready (hpgd : pgd ≠ 0) (hr : PmmReady s pgd) (ops : List VmmOp) :
    Meets (vmmStep pgd) (MapFresh pgd) (vmmBoot s pgd) ops := by
  refine meets_of_invariant (I := fun r => TreeOf pgd r ∧ TablesHeld s pgd r.mm) ?_ ?_
    ⟨treeOf_vmmBoot s hpgd, tablesHeld_vmmBoot hpgd hr⟩
  · intro r op h
    exact h.2.mapFresh hr h.1.tables op
  · intro r op r' h hstep
    have hfresh := h.2.mapFresh hr h.1.tables op
    exact ⟨treeOf_vmmStep hpgd r op r' h.1 hfresh hstep, tablesHeld_vmmStep hpgd hr h.2 h.1.tables hstep⟩

/-- **The page tables refine the map from pages to frames**, on every run of `vmm_map` and
    `vmm_unmap` from a cleared directory on which `pmm_alloc` answers with fresh pages. -/
theorem vmm_refines_map (s : MmState) (hpgd : pgd ≠ 0) (ops : List VmmOp)
    (hfresh : Meets (vmmStep pgd) (MapFresh pgd) (vmmBoot s pgd) ops) :
    Always (vmmStep pgd) (Refines pgd) (vmmBoot s pgd) ops := by
  have hrun : Always (vmmStep pgd) (TreeOf pgd) (vmmBoot s pgd) ops :=
    always_of_meets (treeOf_vmmStep hpgd) (treeOf_vmmBoot s hpgd) hfresh
  refine hrun.mono ?_
  intro r h
  exact h.refines hpgd

/-- A directory beside sixteen managed pages: two pages that share three tables, the first
    of them unmapped again, and a third in another part of the address space. -/
theorem vmm_refines_sixteen_pages :
    Always (vmmStep 0x40000000) (Refines 0x40000000)
      (vmmBoot (pmmInit 0 blank 0x41000000 0x10000) 0x40000000)
      [.map 0x400000#64 0x80000000#64 0x41#32, .map 0x401000#64 0x80001000#64 0x41#32,
        .unmap 0x400000#64, .map 0x7fff00000000#64 0x80002000#64 0x41#32] := by
  have hr : PmmReady (pmmInit 0 blank 0x41000000 0x10000) 0x40000000 :=
    pmmReady_pmmInit 0 blank (by decide) (by decide) (by decide)
  exact vmm_refines_map _ (by decide) _ (mapFresh_of_ready (by decide) hr _)

end Crimson.Mm
