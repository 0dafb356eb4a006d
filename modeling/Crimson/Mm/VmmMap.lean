import Crimson.Lib.Run
import Crimson.Mm.Vmm
import Mathlib.Logic.Function.Basic

/-!
# Page tables refine a map from pages to frames

The last level of the tree is read like the others: an entry of the fourth table points at
a frame as an entry of the first points at a table. So the translation of an address is a
walk of length four, `frameAt`, and what `vmm_map` and `vmm_unmap` do to all translations
at once is what the two changes of `Crimson.Lib.Radix` do to all walks: a descent links
empty tables in, which adds no walk of length four, and the last write reaches the one walk
that ends in the entry written.

The invariant `Tables` is that tables do not overlap. It is kept as long as `pmm_alloc`
answers with pages that are not tables already, and it is all that is needed for a step to
do to the tree what it does to the map: `treeOf_vmmStep`.
-/

set_option autoImplicit false

namespace Crimson.Mm

open Crimson.Lib

/-! ## The run and what it refines -/

/-- A page directory's tree, beside the map it stands for: from page numbers to frames. -/
structure VmmRun where
  mm : MmState
  frames : Nat → Option Nat

inductive VmmOp where
  | map (vaddr paddr : BitVec 64) (flags : BitVec 32)
  | unmap (vaddr : BitVec 64)
deriving DecidableEq, Repr

/-- What `vmm_map` is called with: 48-bit addresses, a page-aligned frame, and flags
    outside the address bits of an entry. -/
def MapArgs (vaddr paddr : BitVec 64) (flags : BitVec 32) : Prop :=
  vaddr.toNat < 2 ^ 48 ∧ paddr.toNat < 2 ^ 48 ∧ paddr.toNat % 4096 = 0 ∧
    flags.setWidth 64 &&& ptAddrMask = 0#64

instance (vaddr paddr : BitVec 64) (flags : BitVec 32) : Decidable (MapArgs vaddr paddr flags) :=
  inferInstanceAs (Decidable (_ ∧ _))

/-- One call on the page directory `pgd`, with its effect on the map: a `vmm_map` that
    returns 0 maps its page, and any other return value maps nothing. -/
def vmmStep (pgd : Nat) (r : VmmRun) : VmmOp → Option VmmRun
  | .map vaddr paddr flags =>
    if MapArgs vaddr paddr flags then
      let res := vmmMap r.mm pgd vaddr paddr flags
      some
        { mm := res.2
          frames :=
            if res.1 = 0 then Function.update r.frames (vaddr.toNat / 4096) (some paddr.toNat)
            else r.frames }
    else none
  | .unmap vaddr =>
    if vaddr.toNat < 2 ^ 48 then
      some
        { mm := { r.mm with mem := vmmUnmap r.mm.mem pgd vaddr }
          frames := Function.update r.frames (vaddr.toNat / 4096) none }
    else none

/-- The run that starts with the directory `vmm_init` clears. -/
def vmmBoot (s : MmState) (pgd : Nat) : VmmRun where
  mm := { s with mem := vmmInit s.mem pgd }
  frames := fun _ => none

/-- **`vmm_get_phys` reads the map.** -/
def Refines (pgd : Nat) (r : VmmRun) : Prop :=
  ∀ vaddr : BitVec 64, vaddr.toNat < 2 ^ 48 →
    (vmmGetPhys r.mm.mem pgd vaddr).toNat =
      match r.frames (vaddr.toNat / 4096) with
      | some frame => frame + vaddr.toNat % 4096
      | none => 0

/-! ## What is asked of the page allocator -/

/-- The 4 KB at `a` and at `b` have no byte in common. -/
def PagesApart (a b : Nat) : Prop := a + 4096 ≤ b ∨ b + 4096 ≤ a

/-- `pmm_alloc`, called now, answers 0 or with a fresh page: no table of the tree lies in
    it. Its own bookkeeping is kept in none of them. -/
def FreshAlloc (pgd : Nat) (s : MmState) : Prop :=
  ∀ p table, p.length < 4 → frameAt s.mem pgd p = some table →
    AgreeOn s.mem (pmmAlloc s).2.mem table 4096 ∧
    ((pmmAlloc s).1 ≠ 0 → PagesApart (pmmAlloc s).1 table)

/-- What `pmm_alloc` returns is the address of a page. -/
def PageAddr (s : MmState) : Prop := (pmmAlloc s).1 < 2 ^ 48 ∧ (pmmAlloc s).1 % 2 ^ 12 = 0

/-- The descent through entry `idx` of `table` gets a fresh page if it needs one. -/
def NextFresh (pgd : Nat) (s : MmState) (table idx : Nat) : Prop :=
  entry s.mem table idx &&& ptValid = 0#64 → FreshAlloc pgd s ∧ PageAddr s

/-- Every `pmm_alloc` that a call of `vmm_map` makes answers with a fresh page. -/
def MapFresh (pgd : Nat) (r : VmmRun) : VmmOp → Prop
  | .map vaddr _ _ =>
    NextFresh pgd r.mm pgd (pgdIdx vaddr) ∧
    ∀ pud s₁, nextTable r.mm pgd (pgdIdx vaddr) = (some pud, s₁) →
      NextFresh pgd s₁ pud (pudIdx vaddr) ∧
      ∀ pmd s₂, nextTable s₁ pud (pudIdx vaddr) = (some pmd, s₂) →
        NextFresh pgd s₂ pmd (pmdIdx vaddr)
  | .unmap _ => True

/-! ## Tables that do not overlap -/

/-- The tables of the tree are pairwise apart. -/
def Tables (m : Mem) (pgd : Nat) : Prop :=
  ∀ p q a b, p.length < 4 → q.length < 4 → frameAt m pgd p = some a → frameAt m pgd q = some b →
    p ≠ q → PagesApart a b

variable {m m' : Mem} {pgd a b : Nat} {p q : List (Fin 512)} {i : Fin 512}

theorem entry_setEntry_same (m : Mem) (table idx : Nat) (e : BitVec 64) :
    entry (setEntry m table idx e) table idx = e := by
  rw [entry, setEntry, load64_store64_same e.isLt, BitVec.ofNat_toNat, BitVec.setWidth_eq]

theorem entry_congr {table : Nat} (h : AgreeOn m m' table 4096) : entry m' table i = entry m table i := by
  have hi := i.isLt
  rw [entry, entry, load64_congr (h.mono (by omega) (by omega))]

/-- Two entries of the tree are the same one, or have no byte in common. -/
theorem Tables.slots (hT : Tables m pgd) (hp : frameAt m pgd p = some a) (hlen : p.length < 4)
    {j : Fin 512} (hq : q.length < 4) (hb : frameAt m pgd q = some b) (hne : ¬(q = p ∧ j = i)) :
    b + 8 * j + 8 ≤ a + 8 * i ∨ a + 8 * i + 8 ≤ b + 8 * j := by
  have hi := i.isLt
  have hj := j.isLt
  by_cases hqp : q = p
  · subst hqp
    have hab : a = b := Option.some.inj (hp.symm.trans hb)
    have hij : (j : Nat) ≠ i := fun h => hne ⟨rfl, Fin.ext h⟩
    omega
  · have hapart := hT p q a b hlen hq hp hb (Ne.symm hqp)
    unfold PagesApart at hapart
    omega

theorem entry_setEntry_disjoint {table idx : Nat} {e : BitVec 64}
    (h : b + 8 * i + 8 ≤ table + 8 * idx ∨ table + 8 * idx + 8 ≤ b + 8 * i) :
    entry (setEntry m table idx e) b i = entry m b i := by
  unfold entry setEntry
  rw [load64_store64_disjoint h]

/-- Memory that has the same tables has the same tree. -/
theorem frameAt_congr (h : ∀ q b, q.length < 4 → frameAt m pgd q = some b → AgreeOn m m' b 4096)
    (hq : q.length ≤ 4) : frameAt m' pgd q = frameAt m pgd q := by
  refine walk_congr fun p i hp b hb => entry_congr (h p b ?_ hb)
  have hle := hp.length_le
  rw [List.length_append, List.length_singleton] at hle
  omega

/-- Tables stay apart when there are no new ones. -/
theorem Tables.congr (hT : Tables m pgd) (h : ∀ q, q.length < 4 → frameAt m' pgd q = frameAt m pgd q) :
    Tables m' pgd := by
  intro p q a b hp hq ha hb
  rw [h p hp] at ha
  rw [h q hq] at hb
  exact hT p q a b hp hq ha hb

/-- **Writing a last-level entry** changes the walks through it and no others. -/
theorem frameAt_setEntry (hT : Tables m pgd) (hp : frameAt m pgd p = some a) (hlen : p.length < 4)
    (e : BitVec 64) (hq : q.length ≤ 4) (hne : ¬p ++ [i] <+: q) :
    frameAt (setEntry m a i e) pgd q = frameAt m pgd q :=
  walk_write (fun _ _ _ hq hb hne => entry_setEntry_disjoint (hT.slots hp hlen hq hb hne)) hq hne

/-- A zeroed page `t`, apart from the tables there are, linked into an empty entry. `m` is
    the memory the tables are in, `m'` may differ from it outside them. -/
theorem frameAt_link {t : Nat} (hT : Tables m pgd) (hp : frameAt m pgd p = some a) (hlen : p.length < 4)
    (hnone : linkOf (entry m a i) = none) (hagree : ∀ q b, q.length < 4 → frameAt m pgd q = some b →
      AgreeOn m m' b 4096 ∧ PagesApart t b)
    (hlt : t < 2 ^ 48) (halign : t % 2 ^ 12 = 0) (hq : q.length ≤ 4) :
    frameAt (setEntry (fillBytes m' t 4096 0) a i (BitVec.ofNat 64 t ||| ptTable ||| ptValid)) pgd q =
      if q = p ++ [i] then some t else frameAt m pgd q := by
  have hi := i.isLt
  refine walk_graft hp hnone ?_ ?_ ?_ hq
  · rw [entry_setEntry_same]
    exact linkOf_newTable hlt halign
  · intro j
    have hj := j.isLt
    have hapart := (hagree p a hlen hp).2
    unfold PagesApart at hapart
    rw [entry_setEntry_disjoint (by omega), entry, load64, loadBytes_fillBytes_zero (by omega) (by omega)]
    exact linkOf_zero
  · intro q b j hq hb hne
    obtain ⟨hsame, hapart⟩ := hagree q b hq hb
    unfold PagesApart at hapart
    rw [entry_setEntry_disjoint (hT.slots hp hlen hq hb hne),
      entry_congr (agreeOn_fillBytes (m := m') (a := t) (n := 4096) (by omega)), entry_congr hsame]

/-- A descent, whatever becomes of it, changes no translation, and if it succeeds it stands
    at the table of the path `p`. -/
structure Descends (s : MmState) (pgd : Nat) (p : List (Fin 512)) (res : Option Nat × MmState) :
    Prop where
  tables : Tables res.2.mem pgd
  same : ∀ q, q.length = 4 → frameAt res.2.mem pgd q = frameAt s.mem pgd q
  next : ∀ b, res.1 = some b → frameAt res.2.mem pgd p = some b

/-- **One level of the descent.** -/
theorem nextTable_descends {s : MmState} (hT : Tables s.mem pgd) (hp : frameAt s.mem pgd p = some a)
    (hlen : p.length < 3) (hfresh : NextFresh pgd s a i) (hq : q = p ++ [i]) :
    Descends s pgd q (nextTable s a i) := by
  subst hq
  unfold nextTable
  by_cases hvalid : entry s.mem a i &&& ptValid = 0#64
  · obtain ⟨hfresh, hlt, halign⟩ := hfresh hvalid
    rw [if_pos hvalid]
    dsimp only
    by_cases hfail : (pmmAlloc s).1 = 0
    · -- The allocator's own writes change no walk.
      have hpmm : ∀ q, q.length ≤ 4 → frameAt (pmmAlloc s).2.mem pgd q = frameAt s.mem pgd q :=
        fun q hq => frameAt_congr (fun q b hq hb => (hfresh q b hq hb).1) hq
      rw [if_pos hfail]
      exact ⟨hT.congr fun q hq => hpmm q (by omega), fun q hq => hpmm q (by omega),
        fun b hb => by cases hb⟩
    · have hagree : ∀ q b, q.length < 4 → frameAt s.mem pgd q = some b →
          AgreeOn s.mem (pmmAlloc s).2.mem b 4096 ∧ PagesApart (pmmAlloc s).1 b :=
        fun q b hq hb => ⟨(hfresh q b hq hb).1, (hfresh q b hq hb).2 hfail⟩
      have hlink := fun q hq => frameAt_link (q := q) hT hp (by omega : p.length < 4)
        (linkOf_eq_none.mpr hvalid) hagree hlt halign hq
      rw [if_neg hfail]
      refine ⟨?_, fun q hq => ?_, fun b hb => ?_⟩
      · -- The new table is apart from the old ones, which are where they were.
        intro q₁ q₂ b₁ b₂ h₁ h₂ hb₁ hb₂ hne
        rw [hlink q₁ (by omega)] at hb₁
        rw [hlink q₂ (by omega)] at hb₂
        split at hb₁ <;> split at hb₂
        · rename_i e₁ e₂
          exact absurd (e₁.trans e₂.symm) hne
        · cases hb₁
          exact (hagree q₂ b₂ h₂ hb₂).2
        · cases hb₂
          exact Or.symm (hagree q₁ b₁ h₁ hb₁).2
        · exact hT q₁ q₂ b₁ b₂ h₁ h₂ hb₁ hb₂ hne
      · have hne : q ≠ p ++ [i] := by
          rintro rfl
          rw [List.length_append, List.length_singleton] at hq
          omega
        rw [hlink q (by omega), if_neg hne]
      · have hlen' : (p ++ [i]).length ≤ 4 := by
          rw [List.length_append, List.length_singleton]
          omega
        rw [hlink _ hlen', if_pos rfl]
        have hentry := linkOf_newTable hlt halign
        rw [← Option.some.inj hb, entry_setEntry_same, (linkOf_eq_some.mp hentry).2]
  · rw [if_neg hvalid]
    refine ⟨hT, fun q _ => rfl, fun b hb => ?_⟩
    rw [frameAt_snoc, hp, Option.bind_some, linkOf, if_neg hvalid]
    exact hb

/-! ## The calls -/

/-- Writing an entry of a last-level table moves no table. -/
theorem frameAt_setLeaf_table (hT : Tables m pgd) (hp : frameAt m pgd p = some a) (hlen : p.length = 3)
    (e : BitVec 64) (hq : q.length < 4) : frameAt (setEntry m a i e) pgd q = frameAt m pgd q := by
  refine frameAt_setEntry hT hp (by omega) e (by omega) fun hpre => ?_
  have hle := hpre.length_le
  rw [List.length_append, List.length_singleton] at hle
  omega

/-- Writing an entry of a last-level table: the tree stays, and one translation is that of
    the entry. -/
theorem frameAt_setLeaf (hT : Tables m pgd) (hp : frameAt m pgd p = some a) (hlen : p.length = 3)
    (e : BitVec 64) :
    Tables (setEntry m a i e) pgd ∧ ∀ q, q.length = 4 →
      frameAt (setEntry m a i e) pgd q = if q = p ++ [i] then linkOf e else frameAt m pgd q := by
  refine ⟨hT.congr fun q hq => frameAt_setLeaf_table hT hp hlen e hq, fun q hq => ?_⟩
  by_cases he : q = p ++ [i]
  · rw [if_pos he, he, frameAt_snoc, frameAt_setLeaf_table hT hp hlen e (by omega), hp, Option.bind_some,
      entry_setEntry_same]
  · rw [if_neg he]
    refine frameAt_setEntry hT hp (by omega) e (by omega) fun hpre => he ?_
    exact (hpre.eq_of_length (by rw [List.length_append, List.length_singleton]; omega)).symm

/-- The tree is still one, with the translations of `m`. -/
structure SameFrames (m : Mem) (pgd : Nat) (m' : Mem) : Prop where
  tables : Tables m' pgd
  same : ∀ q, q.length = 4 → frameAt m' pgd q = frameAt m pgd q

theorem Descends.sameFrames {s : MmState} {res : Option Nat × MmState} (h : Descends s pgd p res) :
    SameFrames s.mem pgd res.2.mem := ⟨h.tables, h.same⟩

theorem SameFrames.trans {m'' : Mem} (h : SameFrames m pgd m') (h' : SameFrames m' pgd m'') :
    SameFrames m pgd m'' := ⟨h'.tables, fun q hq => (h'.same q hq).trans (h.same q hq)⟩

/-- `P` survives every descent from a table of the tree. -/
def KeptByDescent (pgd : Nat) (P : MmState → Prop) : Prop :=
  ∀ s p a i, Tables s.mem pgd → P s → frameAt s.mem pgd p = some a → p.length < 3 →
    P (nextTable s a (i : Fin 512)).2

/-- `vmm_map` fails on the way down, or writes an entry of the last table of the path. What
    every descent keeps is kept up to there. -/
theorem vmmMap_cases {s : MmState} {f : Nat → Option Nat} (hpgd : pgd ≠ 0) (hT : Tables s.mem pgd)
    {vaddr paddr : BitVec 64} {flags : BitVec 32} (hfresh : MapFresh pgd ⟨s, f⟩ (.map vaddr paddr flags))
    {P : MmState → Prop} (hkept : KeptByDescent pgd P) (hP : P s) :
    (∃ s', vmmMap s pgd vaddr paddr flags = (-1, s') ∧ SameFrames s.mem pgd s'.mem ∧ P s') ∨
    ∃ pte, ∃ s₃ : MmState, SameFrames s.mem pgd s₃.mem ∧ P s₃ ∧
      frameAt s₃.mem pgd (dirPath vaddr) = some pte ∧
      vmmMap s pgd vaddr paddr flags =
        (0, { s₃ with
          mem := setEntry s₃.mem pte (pteIdx vaddr)
            ((paddr &&& ptAddrMask) ||| flags.setWidth 64 ||| ptValid ||| ptAf) }) := by
  obtain ⟨hf₁, hfresh⟩ := hfresh
  have hd₁ : Descends s pgd [⟨pgdIdx vaddr, idx_lt⟩] (nextTable s pgd (pgdIdx vaddr)) :=
    nextTable_descends (i := ⟨pgdIdx vaddr, idx_lt⟩) hT (frameAt_nil _ _) (by simp) hf₁ rfl
  have hP₁ : P (nextTable s pgd (pgdIdx vaddr)).2 :=
    hkept s [] pgd ⟨pgdIdx vaddr, idx_lt⟩ hT hP (frameAt_nil _ _) (by simp)
  rw [vmmMap, if_neg hpgd]
  -- three descents, each of which may fail for want of a page
  cases h₁ : nextTable s pgd (pgdIdx vaddr) with
  | mk next s₁ =>
    rw [h₁] at hd₁ hP₁
    cases next with
    | none => exact Or.inl ⟨s₁, rfl, hd₁.sameFrames, hP₁⟩
    | some pud =>
      obtain ⟨hf₂, hfresh⟩ := hfresh pud s₁ h₁
      have hd₂ : Descends s₁ pgd [⟨pgdIdx vaddr, idx_lt⟩, ⟨pudIdx vaddr, idx_lt⟩]
          (nextTable s₁ pud (pudIdx vaddr)) :=
        nextTable_descends (i := ⟨pudIdx vaddr, idx_lt⟩) hd₁.tables (hd₁.next pud rfl) (by simp) hf₂ rfl
      have hP₂ : P (nextTable s₁ pud (pudIdx vaddr)).2 :=
        hkept s₁ _ pud ⟨pudIdx vaddr, idx_lt⟩ hd₁.tables hP₁ (hd₁.next pud rfl) (by simp)
      dsimp only
      cases h₂ : nextTable s₁ pud (pudIdx vaddr) with
      | mk next s₂ =>
        rw [h₂] at hd₂ hP₂
        have hsame₂ := hd₁.sameFrames.trans hd₂.sameFrames
        cases next with
        | none => exact Or.inl ⟨s₂, rfl, hsame₂, hP₂⟩
        | some pmd =>
          have hf₃ := hfresh pmd s₂ h₂
          have hd₃ : Descends s₂ pgd (dirPath vaddr) (nextTable s₂ pmd (pmdIdx vaddr)) :=
            nextTable_descends (i := ⟨pmdIdx vaddr, idx_lt⟩) hd₂.tables (hd₂.next pmd rfl) (by simp) hf₃ rfl
          have hP₃ : P (nextTable s₂ pmd (pmdIdx vaddr)).2 :=
            hkept s₂ _ pmd ⟨pmdIdx vaddr, idx_lt⟩ hd₂.tables hP₂ (hd₂.next pmd rfl) (by simp)
          dsimp only
          cases h₃ : nextTable s₂ pmd (pmdIdx vaddr) with
          | mk next s₃ =>
            rw [h₃] at hd₃ hP₃
            have hsame₃ := hsame₂.trans hd₃.sameFrames
            cases next with
            | none => exact Or.inl ⟨s₃, rfl, hsame₃, hP₃⟩
            | some pte => exact Or.inr ⟨pte, s₃, hsame₃, hP₃, hd₃.next pte rfl, rfl⟩

/-- **`vmm_map`**: the tree stays a tree, and the only translation that changes is that of
    the page, when the call returns 0. -/
theorem vmmMap_spec {s : MmState} {f : Nat → Option Nat} (hpgd : pgd ≠ 0) (hT : Tables s.mem pgd)
    {vaddr paddr : BitVec 64} {flags : BitVec 32} (hargs : MapArgs vaddr paddr flags)
    (hfresh : MapFresh pgd ⟨s, f⟩ (.map vaddr paddr flags)) :
    Tables (vmmMap s pgd vaddr paddr flags).2.mem pgd ∧ ∀ q, q.length = 4 →
      frameAt (vmmMap s pgd vaddr paddr flags).2.mem pgd q =
        if (vmmMap s pgd vaddr paddr flags).1 = 0 ∧ q = pagePath vaddr then some paddr.toNat
        else frameAt s.mem pgd q := by
  obtain ⟨_, hpa, halign, hflags⟩ := hargs
  have hkept : KeptByDescent pgd fun _ => True := fun _ _ _ _ _ _ _ _ => trivial
  rcases vmmMap_cases hpgd hT hfresh hkept trivial with ⟨s', he, hsame, _⟩ | ⟨pte, s₃, hsame, _, hpte, he⟩
  · rw [he]
    refine ⟨hsame.tables, fun q hq => ?_⟩
    rw [if_neg (by simp)]
    exact hsame.same q hq
  · obtain ⟨hT', hleaf⟩ := frameAt_setLeaf (i := ⟨pteIdx vaddr, idx_lt⟩) hsame.tables hpte rfl
      ((paddr &&& ptAddrMask) ||| flags.setWidth 64 ||| ptValid ||| ptAf)
    rw [he]
    refine ⟨hT', fun q hq => ?_⟩
    simp only [true_and]
    rw [hleaf q hq, linkOf_newPage hpa halign hflags, hsame.same q hq]
    rfl

theorem vmmUnmap_eq {m : Mem} (hpgd : pgd ≠ 0) (vaddr : BitVec 64) :
    vmmUnmap m pgd vaddr =
      match frameAt m pgd (dirPath vaddr) with
      | some pte => setEntry m pte (pteIdx vaddr) 0#64
      | none => m := by
  unfold vmmUnmap frameAt dirPath
  simp only [if_neg hpgd, walk, linkOf]
  split
  · rfl
  simp only [Option.bind_some]
  split
  · rfl
  simp only [Option.bind_some]
  split <;> rfl

/-- **`vmm_unmap`**: the only translation that changes is that of the page, which is gone. -/
theorem vmmUnmap_spec {m : Mem} (hpgd : pgd ≠ 0) (hT : Tables m pgd) (vaddr : BitVec 64) :
    Tables (vmmUnmap m pgd vaddr) pgd ∧ ∀ q, q.length = 4 →
      frameAt (vmmUnmap m pgd vaddr) pgd q = if q = pagePath vaddr then none else frameAt m pgd q := by
  rw [vmmUnmap_eq hpgd]
  cases hpte : frameAt m pgd (dirPath vaddr) with
  | none =>
    refine ⟨hT, fun q _ => ?_⟩
    dsimp only
    split
    case isTrue he => rw [he, pagePath, frameAt_snoc, hpte, Option.bind_none]
    case isFalse => rfl
  | some pte =>
    obtain ⟨hT', hleaf⟩ := frameAt_setLeaf (i := ⟨pteIdx vaddr, idx_lt⟩) hT hpte rfl 0#64
    refine ⟨hT', fun q hq => ?_⟩
    have h := hleaf q hq
    rw [linkOf_zero] at h
    exact h

/-! ## Runs -/

/-- The tree translates every page as the map has it. -/
structure TreeOf (pgd : Nat) (r : VmmRun) : Prop where
  tables : Tables r.mm.mem pgd
  frames : ∀ vaddr : BitVec 64, vaddr.toNat < 2 ^ 48 →
    frameAt r.mm.mem pgd (pagePath vaddr) = r.frames (vaddr.toNat / 4096)

theorem TreeOf.refines {r : VmmRun} (hpgd : pgd ≠ 0) (h : TreeOf pgd r) : Refines pgd r := by
  intro vaddr hv
  rewrite [vmmGetPhys_eq hpgd, h.frames vaddr hv]
  rfl

/-- A cleared directory leads nowhere. -/
theorem frameAt_vmmBoot (s : MmState) (hpgd : pgd ≠ 0) (i : Fin 512) (p : List (Fin 512)) :
    frameAt (vmmBoot s pgd).mm.mem pgd (i :: p) = none := by
  have hi := i.isLt
  have hzero : entry (vmmBoot s pgd).mm.mem pgd i = 0#64 := by
    simp only [vmmBoot, vmmInit, if_neg hpgd]
    rw [entry, load64, loadBytes_fillBytes_zero (by omega) (by omega)]
  rw [frameAt, walk, hzero, linkOf_zero, Option.bind_none]

theorem treeOf_vmmBoot (s : MmState) (hpgd : pgd ≠ 0) : TreeOf pgd (vmmBoot s pgd) := by
  refine ⟨?_, fun vaddr _ => frameAt_vmmBoot s hpgd _ _⟩
  intro p q a b _ _ ha hb hne
  cases p with
  | nil =>
    cases q with
    | nil => exact absurd rfl hne
    | cons j q => rw [frameAt_vmmBoot s hpgd] at hb; cases hb
  | cons i p => rw [frameAt_vmmBoot s hpgd] at ha; cases ha

theorem treeOf_vmmStep (hpgd : pgd ≠ 0) (r : VmmRun) (op : VmmOp) (r' : VmmRun) (h : TreeOf pgd r)
    (hfresh : MapFresh pgd r op) (hstep : vmmStep pgd r op = some r') : TreeOf pgd r' := by
  have hpath : ∀ v w : BitVec 64, v.toNat < 2 ^ 48 → w.toNat < 2 ^ 48 →
      (pagePath v = pagePath w ↔ v.toNat / 4096 = w.toNat / 4096) := fun v w => pagePath_eq_iff
  cases op with
  | map vaddr paddr flags =>
    simp only [vmmStep] at hstep
    split at hstep
    case isFalse => cases hstep
    case isTrue hargs =>
      cases hstep
      obtain ⟨hT, hframe⟩ := vmmMap_spec hpgd h.tables hargs hfresh
      refine ⟨hT, fun w hw => ?_⟩
      dsimp only
      rw [hframe _ rfl]
      simp only [hpath w vaddr hw hargs.1, h.frames w hw]
      by_cases hok : (vmmMap r.mm pgd vaddr paddr flags).1 = 0
      · simp only [hok, true_and, if_true, Function.update_apply]
      · simp only [hok, false_and, if_false]
  | unmap vaddr =>
    simp only [vmmStep] at hstep
    split at hstep
    case isFalse => cases hstep
    case isTrue hva =>
      cases hstep
      obtain ⟨hT, hframe⟩ := vmmUnmap_spec hpgd h.tables vaddr
      refine ⟨hT, fun w hw => ?_⟩
      dsimp only
      rw [hframe _ rfl]
      simp only [hpath w vaddr hw hva, h.frames w hw, Function.update_apply]

end Crimson.Mm
