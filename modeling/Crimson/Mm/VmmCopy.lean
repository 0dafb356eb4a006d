import Crimson.Mm.VmmRefine

/-!
# Copying an address space (`vmm_copy_page_tables`)

`fork` copies the tree of tables and every page under it. The copy grows by one page at a
time, a table or a frame, and each is linked into the copy before the next is asked for;
so at every moment the copy is a tree whose pages are the pages taken since the call
began, each of them once, and every one of its paths is a path of the source. That is
`Copying`, and it is the same at the four places at which `pmm_alloc` can fail.

The source is read from the memory the copy is built in. Nothing is asked of its tables
among themselves: two entries may lead to one table.
-/

set_option autoImplicit false

namespace Crimson.Mm

open Crimson.Lib

/-! ## The functions -/

/-- `alloc_table`: a zeroed page, or 0. -/
def allocTable (s : MmState) : Nat × MmState :=
  let (pa, s) := pmmAlloc s
  if pa = 0 then (0, s) else (pa, { s with mem := fillBytes s.mem pa 4096 0 })

/-- `for (i = 0; i < 512; i++)`; a body that answers `false` returns from the function. -/
def forEntries (body : Fin 512 → MmState → Bool × MmState) : List (Fin 512) → MmState → Bool × MmState
  | [], s => (true, s)
  | i :: is, s =>
    match body i s with
    | (true, s) => forEntries body is s
    | (false, s) => (false, s)

/-- The innermost body: entry `l` of a PTE table. -/
def copyPage (srcPte dstPte : Nat) (l : Fin 512) (s : MmState) : Bool × MmState :=
  let pte := entry s.mem srcPte l
  if pte &&& ptValid = 0#64 then (true, s)
  else
    let srcPa := tableOf pte
    let (dstPa, s) := pmmAlloc s
    if dstPa = 0 then (false, s)
    else
      let m := copyBytes s.mem dstPa s.mem srcPa 4096
      (true, { s with mem := setEntry m dstPte l ((pte &&& ~~~ptAddrMask) ||| BitVec.ofNat 64 dstPa) })

/-- The body of the three loops outside: entry `i` of a table of tables. `sub` is the loop
    inside. -/
def copyTable (sub : Nat → Nat → MmState → Bool × MmState) (skip : Fin 512 → Bool) (src dst : Nat)
    (i : Fin 512) (s : MmState) : Bool × MmState :=
  if entry s.mem src i &&& ptValid = 0#64 then (true, s)
  else if skip i then (true, s)
  else
    let srcNext := tableOf (entry s.mem src i)
    let (dstNext, s) := allocTable s
    if dstNext = 0 then (false, s)
    else
      sub srcNext dstNext
        { s with mem := setEntry s.mem dst i (BitVec.ofNat 64 dstNext ||| ptValid ||| ptTable ||| ptAf) }

/-- The loops over a PTE table, over a PMD and over a PUD. -/
def copyLevel : Nat → Nat → Nat → MmState → Bool × MmState
  | 0, src, dst => forEntries (copyPage src dst) (List.finRange 512)
  | n + 1, src, dst => forEntries (copyTable (copyLevel n) (fun _ => false) src dst) (List.finRange 512)

/-- `va_base >= 0xFFFF000000000000`. -/
def kernelHalf (i : Fin 512) : Bool := decide (0xFFFF000000000000 ≤ (i : Nat) <<< 39 % 2 ^ 64)

def vmmCopyPageTables (s : MmState) (dst src : Nat) : Int × MmState :=
  if dst = 0 ∨ src = 0 then (-1, s)
  else
    match forEntries (copyTable (copyLevel 2) kernelHalf src dst) (List.finRange 512) s with
    | (true, s) => (0, s)
    | (false, s) => (-1, s)

/-- The index is shifted into bits 39 to 47, so no entry is ever skipped. -/
theorem kernelHalf_eq_false (i : Fin 512) : kernelHalf i = false := by
  have hi := i.isLt
  unfold kernelHalf
  rw [Nat.shiftLeft_eq]
  exact decide_eq_false (by omega)

/-! ## The copy at every moment -/

/-- The pages of the source are off the bitmap and off the destination, and none is free. -/
structure SrcApart (s₀ : MmState) (dst src : Nat) : Prop where
  free : ∀ q c, q.length ≤ 4 → frameAt s₀.mem src q = some c → ∀ idx, idx < s₀.totalPages →
    s₀.pageBit idx = true → PagesApart (s₀.physBase + idx * 4096) c
  bitmap : ∀ q c, q.length ≤ 4 → frameAt s₀.mem src q = some c →
    s₀.pageBitmap + s₀.bitmapBytes ≤ c ∨ c + 4096 ≤ s₀.pageBitmap
  dst : ∀ q c, q.length ≤ 4 → frameAt s₀.mem src q = some c → PagesApart dst c

/-- Two last-level entries with the same attributes and the same 4096 bytes behind them. -/
def SamePage (m : Mem) (e : BitVec 64) (m' : Mem) (e' : BitVec 64) : Prop :=
  e' &&& ~~~ptAddrMask = e &&& ~~~ptAddrMask ∧ ∀ x, x < 4096 → m' (tableOf e' + x) = m (tableOf e + x)

/-- The tree under `dst` is part of a copy of the tree `src` had in `s₀`, made of the pages
    that have been taken since. -/
structure Copying (s₀ : MmState) (dst src : Nat) (s : MmState) : Prop where
  range : SameRange s₀ s
  reserved : ∀ idx, idx < s₀.totalPages → s₀.pageBit idx = false → s.pageBit idx = false
  kept : ∀ q c, q.length ≤ 4 → frameAt s₀.mem src q = some c → AgreeOn s₀.mem s.mem c 4096
  sound : ∀ q, q.length ≤ 4 → frameAt s.mem dst q ≠ none → frameAt s₀.mem src q ≠ none
  held : ∀ q a, q ≠ [] → q.length ≤ 4 → frameAt s.mem dst q = some a → HeldPage s₀ s a
  once : ∀ q q' a, q.length ≤ 4 → q'.length ≤ 4 → frameAt s.mem dst q = some a →
    frameAt s.mem dst q' = some a → q = q'
  all : ∀ idx, idx < s₀.totalPages → s₀.pageBit idx = true → s.pageBit idx = false →
    ∃ q, q ≠ [] ∧ q.length ≤ 4 ∧ frameAt s.mem dst q = some (s₀.physBase + idx * 4096)
  same : ∀ q (i : Fin 512) t t₀, q.length = 3 → frameAt s.mem dst q = some t →
    frameAt s₀.mem src q = some t₀ → entry s.mem t i &&& ptValid ≠ 0#64 →
      SamePage s₀.mem (entry s₀.mem t₀ i) s.mem (entry s.mem t i)

section Copying

variable {s₀ s s₁ : MmState} {dst src a b c idx : Nat} {p q q' : List (Fin 512)} {i : Fin 512}

/-- A page of the copy is the directory or a page that was free at the start. -/
theorem Copying.page (h : Copying s₀ dst src s) (hq : q.length ≤ 4) (ha : frameAt s.mem dst q = some a) :
    a = dst ∨ HeldPage s₀ s a := by
  cases q with
  | nil => exact Or.inl (Option.some.inj ha).symm
  | cons i q => exact Or.inr (h.held _ a (List.cons_ne_nil _ _) hq ha)

theorem Copying.off (h : Copying s₀ dst src s) (hr : PmmReady s₀ dst) (hq : q.length ≤ 4)
    (ha : frameAt s.mem dst q = some a) :
    s₀.pageBitmap + s₀.bitmapBytes ≤ a ∨ a + 4096 ≤ s₀.pageBitmap := by
  rcases h.page hq ha with rfl | ⟨idx, hidx, rfl, _, hset⟩
  · exact hr.dirBitmap
  · exact hr.bitmap idx hidx hset

/-- Pages of the copy are apart from the pages of the source, -/
theorem Copying.apartSrc (h : Copying s₀ dst src s) (hs : SrcApart s₀ dst src) (hq : q.length ≤ 4)
    (ha : frameAt s.mem dst q = some a) (hq' : q'.length ≤ 4) (hc : frameAt s₀.mem src q' = some c) :
    PagesApart a c := by
  rcases h.page hq ha with rfl | ⟨idx, hidx, rfl, _, hset⟩
  · exact hs.dst q' c hq' hc
  · exact hs.free q' c hq' hc idx hidx hset

/-- and from each other. -/
theorem Copying.apart (h : Copying s₀ dst src s) (hr : PmmReady s₀ dst) (hq : q.length ≤ 4)
    (ha : frameAt s.mem dst q = some a) (hq' : q'.length ≤ 4) (hb : frameAt s.mem dst q' = some b)
    (hne : q ≠ q') : PagesApart a b := by
  have hab : a ≠ b := by
    rintro rfl
    exact hne (h.once q q' a hq hq' ha hb)
  rcases h.page hq ha with rfl | ⟨j, hj, rfl, _, hset⟩
  · rcases h.page hq' hb with rfl | ⟨k, hk, rfl, _, hset⟩
    · exact absurd rfl hab
    · exact Or.symm (hr.dir k hk hset)
  · rcases h.page hq' hb with rfl | ⟨k, hk, rfl, _, _⟩
    · exact hr.dir j hj hset
    · have hjk : j ≠ k := fun hjk => hab (by rw [hjk])
      unfold PagesApart
      omega

/-- What `pmm_alloc` answers with while the copy is being made. -/
structure FreshPage (s₀ : MmState) (dst src : Nat) (s : MmState) (idx : Nat) (s₁ : MmState) : Prop where
  took : Took s idx 1 s₁
  inRange : idx < s₀.totalPages
  wasSet : s₀.pageBit idx = true
  copy : ∀ q a, q.length ≤ 4 → frameAt s.mem dst q = some a →
    PagesApart (s₀.physBase + idx * 4096) a ∧ AgreeOn s.mem s₁.mem a 4096
  source : ∀ q c, q.length ≤ 4 → frameAt s₀.mem src q = some c →
    PagesApart (s₀.physBase + idx * 4096) c ∧ AgreeOn s.mem s₁.mem c 4096

/-- **`pmm_alloc` fails, or answers with a page that is in neither tree.** -/
theorem Copying.alloc (h : Copying s₀ dst src s) (hr : PmmReady s₀ dst) (hs : SrcApart s₀ dst src) :
    pmmAlloc s = (0, s) ∨
      ∃ idx s₁, pmmAlloc s = (s₀.physBase + idx * 4096, s₁) ∧ FreshPage s₀ dst src s idx s₁ := by
  rcases pmmAlloc_cases s with ⟨he, _⟩ | ⟨idx, s₁, he, htook, _⟩
  · exact Or.inl he
  have hin := htook.inRange
  have htotal := h.range.totalPages
  have htop := hr.top
  have haddr : (s.physBase + idx * 4096) % 2 ^ 64 = s₀.physBase + idx * 4096 := by
    rw [h.range.physBase]
    exact Nat.mod_eq_of_lt (by omega)
  rw [haddr] at he
  have hfree := htook.wasFree idx le_rfl (by omega)
  have hset : s₀.pageBit idx = true := by
    by_contra hclear
    rw [h.reserved idx (by omega) (by simpa using hclear)] at hfree
    exact Bool.noConfusion hfree
  -- The allocator writes to its bitmap, and the pages of the two trees are off it.
  have hmem : ∀ a, (s₀.pageBitmap + s₀.bitmapBytes ≤ a ∨ a + 4096 ≤ s₀.pageBitmap) →
      AgreeOn s.mem s₁.mem a 4096 := by
    intro a ha x hx hx'
    refine htook.same.mem x ?_
    rw [h.range.pageBitmap, h.range.bitmapBytes]
    omega
  refine Or.inr ⟨idx, s₁, he, htook, by omega, hset, ?_, ?_⟩
  · intro q a hq ha
    refine ⟨?_, hmem a (h.off hr hq ha)⟩
    rcases h.page hq ha with rfl | ⟨j, hj, rfl, hclear, _⟩
    · exact hr.dir idx (by omega) hset
    · have hne : idx ≠ j := by
        rintro rfl
        rw [hfree] at hclear
        exact Bool.noConfusion hclear
      unfold PagesApart
      omega
  · intro q c hq hc
    exact ⟨hs.free q c hq hc idx (by omega) hset, hmem c (hs.bitmap q c hq hc)⟩

/-- What is written to link the new page into entry `i` of the table at `b`: the page, and the
    entry. -/
structure PageLinked (s₁ : MmState) (page b : Nat) (i : Fin 512) (m : Mem) : Prop where
  others : ∀ x, x < page ∨ page + 4096 ≤ x → x < b + 8 * i ∨ b + 8 * i + 8 ≤ x → m x = s₁.mem x
  link : linkOf (entry m b i) = some page

/-- Off the new page and off the entry nothing is written. -/
theorem PageLinked.agreeOn {m : Mem} (hl : PageLinked s₁ b c i m) {n : Nat} (hpage : a + n ≤ b ∨ b + 4096 ≤ a)
    (hentry : a + n ≤ c + 8 * i ∨ c + 8 * i + 8 ≤ a) : AgreeOn s₁.mem m a n :=
  fun x hx hx' => hl.others x (by omega) (by omega)

/-- The page is written, and then the entry that leads to it. -/
theorem pageLinked_setEntry {m : Mem} {page : Nat} {e : BitVec 64}
    (hm : ∀ x, x < page ∨ page + 4096 ≤ x → m x = s₁.mem x) (hlink : linkOf e = some page) :
    PageLinked s₁ page b i (setEntry m b i e) := by
  refine ⟨fun x hx hx' => ?_, ?_⟩
  · rw [setEntry, store64, storeBytes_of_notMem hx', hm x hx]
  · rw [entry_setEntry_same, hlink]

/-- **One page is added to the copy**: it is linked into an entry of the table at `p` that led
    nowhere, where the source has a page. A new table is empty; a new frame is the source's. -/
structure PageAdded (s₀ : MmState) (dst src : Nat) (s : MmState) (idx : Nat) (s₁ : MmState) (p : List (Fin 512))
    (b : Nat) (i : Fin 512) (m : Mem) : Prop where
  page : FreshPage s₀ dst src s idx s₁
  table : frameAt s.mem dst p = some b
  len : p.length ≤ 3
  unlinked : frameAt s.mem dst (p ++ [i]) = none
  inSource : frameAt s₀.mem src (p ++ [i]) ≠ none
  linked : PageLinked s₁ (s₀.physBase + idx * 4096) b i m
  empty : p.length < 3 → ∀ j : Fin 512, linkOf (entry m (s₀.physBase + idx * 4096) j) = none
  same : p.length = 3 → ∀ t₀, frameAt s₀.mem src p = some t₀ → SamePage s₀.mem (entry s₀.mem t₀ i) m (entry m b i)

section PageAdded

variable {m : Mem} {j : Fin 512} {t t₀ : Nat}

/-- Bytes of the copy's pages are as they were, but for the entry written; -/
theorem PageAdded.bytes (hg : PageAdded s₀ dst src s idx s₁ p b i m) (hq : q.length ≤ 4)
    (ha : frameAt s.mem dst q = some a) {x n : Nat} (hx : a ≤ x) (hxn : x + n ≤ a + 4096)
    (hentry : x + n ≤ b + 8 * i ∨ b + 8 * i + 8 ≤ x) : AgreeOn s.mem m x n := by
  obtain ⟨hapart, hagree⟩ := hg.page.copy q a hq ha
  unfold PagesApart at hapart
  exact (hagree.mono hx hxn).trans (hg.linked.agreeOn (by omega) hentry)

theorem PageAdded.others (hg : PageAdded s₀ dst src s idx s₁ p b i m) (h : Copying s₀ dst src s) (hr : PmmReady s₀ dst)
    (hq : q.length ≤ 4) (ha : frameAt s.mem dst q = some a) (hne : q ≠ p) : AgreeOn s.mem m a 4096 := by
  have hi := i.isLt
  have hlen := hg.len
  have hapart := h.apart hr hq ha (by omega) hg.table hne
  unfold PagesApart at hapart
  exact hg.bytes hq ha le_rfl le_rfl (by omega)

/-- so are the source's pages, -/
theorem PageAdded.source (hg : PageAdded s₀ dst src s idx s₁ p b i m) (h : Copying s₀ dst src s)
    (hs : SrcApart s₀ dst src) (hq : q.length ≤ 4) (hc : frameAt s₀.mem src q = some c) : AgreeOn s.mem m c 4096 := by
  have hi := i.isLt
  have hlen := hg.len
  obtain ⟨hapart, hagree⟩ := hg.page.source q c hq hc
  have hapart' := h.apartSrc hs (by omega) hg.table hq hc
  unfold PagesApart at hapart hapart'
  exact hagree.trans (hg.linked.agreeOn (by omega) (by omega))

/-- and the other entries of the copy's tables. -/
theorem PageAdded.entry_eq (hg : PageAdded s₀ dst src s idx s₁ p b i m) (h : Copying s₀ dst src s)
    (hr : PmmReady s₀ dst) (hq : q.length ≤ 3) (ha : frameAt s.mem dst q = some a) (hne : ¬(q = p ∧ j = i)) :
    entry m a j = entry s.mem a j := by
  have hi := i.isLt
  have hj := j.isLt
  refine congrArg (BitVec.ofNat 64) (load64_congr ?_)
  by_cases hqp : q = p
  · subst hqp
    obtain rfl : a = b := Option.some.inj (ha.symm.trans hg.table)
    have hji : (j : Nat) ≠ i := fun hji => hne ⟨rfl, Fin.ext hji⟩
    exact hg.bytes (by omega) ha (by omega) (by omega) (by omega)
  · exact (hg.others h hr (by omega) ha hqp).mono (by omega) (by omega)

/-- The copy has one more page. -/
theorem PageAdded.frames (hg : PageAdded s₀ dst src s idx s₁ p b i m) (h : Copying s₀ dst src s) (hr : PmmReady s₀ dst)
    (hq : q.length ≤ 4) :
    frameAt m dst q = if q = p ++ [i] then some (s₀.physBase + idx * 4096) else frameAt s.mem dst q := by
  have hunlinked := hg.unlinked
  rw [frameAt_snoc, hg.table, Option.bind_some] at hunlinked
  refine walk_link (n := 4) hg.table hunlinked hg.linked.link (fun hlt => hg.empty (by omega)) ?_ hq
  intro q a j hq ha hne
  exact hg.entry_eq h hr (by omega) ha hne

theorem PageAdded.cases (hg : PageAdded s₀ dst src s idx s₁ p b i m) (h : Copying s₀ dst src s) (hr : PmmReady s₀ dst)
    (hq : q.length ≤ 4) (ha : frameAt m dst q = some a) :
    q = p ++ [i] ∧ a = s₀.physBase + idx * 4096 ∨ q ≠ p ++ [i] ∧ frameAt s.mem dst q = some a := by
  rw [hg.frames h hr hq] at ha
  split_ifs at ha with hqp
  · exact Or.inl ⟨hqp, (Option.some.inj ha).symm⟩
  · exact Or.inr ⟨hqp, ha⟩

/-- The new page is none of the old ones, -/
theorem PageAdded.ne (hg : PageAdded s₀ dst src s idx s₁ p b i m) (hq : q.length ≤ 4) :
    frameAt s.mem dst q ≠ some (s₀.physBase + idx * 4096) := by
  intro ha
  have hapart := (hg.page.copy q _ hq ha).1
  unfold PagesApart at hapart
  omega

/-- and its bit is the one that is cleared. -/
theorem PageAdded.bits (hg : PageAdded s₀ dst src s idx s₁ p b i m) (h : Copying s₀ dst src s) (hr : PmmReady s₀ dst)
    {k : Nat} (hk : k < s₀.totalPages) :
    MmState.pageBit { s₁ with mem := m } k = (s.pageBit k && !decide (k = idx)) := by
  have hi := i.isLt
  have hlen := hg.len
  have hoff := hr.bitmap idx hg.page.inRange hg.page.wasSet
  have hoff' := h.off hr (by omega) hg.table
  have hrange := h.range.trans hg.page.took.same.range
  have hagree : AgreeOn s₁.mem m s₁.pageBitmap s₁.bitmapBytes := by
    rw [hrange.pageBitmap, hrange.bitmapBytes]
    exact hg.linked.agreeOn (by omega) (by omega)
  rw [MmState.pageBit_congr hagree (by rw [hrange.totalPages]; exact hk), hg.page.took.bits]
  congr 2
  exact decide_eq_decide.mpr (by omega)

/-- Every frame of the copy has the source's bytes. -/
theorem PageAdded.samePage (hg : PageAdded s₀ dst src s idx s₁ p b i m) (h : Copying s₀ dst src s)
    (hr : PmmReady s₀ dst) (hq : q.length = 3) (ht : frameAt m dst q = some t) (ht₀ : frameAt s₀.mem src q = some t₀)
    (hvalid : entry m t j &&& ptValid ≠ 0#64) : SamePage s₀.mem (entry s₀.mem t₀ j) m (entry m t j) := by
  rcases hg.cases h hr (by omega) ht with ⟨rfl, rfl⟩ | ⟨-, ht⟩
  · -- The new page is a table, and an empty one.
    rw [List.length_append, List.length_singleton] at hq
    exact absurd (linkOf_eq_none.mp (hg.empty (by omega) j)) hvalid
  · by_cases hpj : q = p ∧ j = i
    · obtain ⟨rfl, rfl⟩ := hpj
      obtain rfl : t = b := Option.some.inj (ht.symm.trans hg.table)
      exact hg.same hq t₀ ht₀
    · rw [hg.entry_eq h hr (by omega) ht hpj] at hvalid ⊢
      obtain ⟨hattr, hbytes⟩ := h.same q j t t₀ hq ht ht₀ hvalid
      refine ⟨hattr, ?_⟩
      intro x hx
      -- The frame behind the entry is a page of the copy, at a path longer than `p`.
      have hleaf : frameAt s.mem dst (q ++ [j]) = some (tableOf (entry s.mem t j)) := by
        rw [frameAt_snoc, ht, Option.bind_some, linkOf, if_neg hvalid]
      have hql : (q ++ [j]).length = 4 := by rw [List.length_append, List.length_singleton, hq]
      have hne : q ++ [j] ≠ p := by
        intro hqp
        have hlen := hg.len
        rw [hqp] at hql
        omega
      exact (hg.others h hr (by omega) hleaf hne _ (by omega) (by omega)).trans (hbytes x hx)

end PageAdded

/-- **The copy grows by one page.** -/
theorem Copying.grow (h : Copying s₀ dst src s) (hr : PmmReady s₀ dst) (hs : SrcApart s₀ dst src) {m : Mem}
    (hg : PageAdded s₀ dst src s idx s₁ p b i m) : Copying s₀ dst src { s₁ with mem := m } where
  range := by
    have hrange := h.range.trans hg.page.took.same.range
    exact ⟨hrange.pageBitmap, hrange.totalPages, hrange.physBase⟩
  reserved := by
    intro k hk hbit
    rw [hg.bits h hr hk, h.reserved k hk hbit, Bool.false_and]
  kept := by
    intro q c hq hc
    exact (h.kept q c hq hc).trans (hg.source h hs hq hc)
  sound := by
    intro q hq hne
    rw [hg.frames h hr hq] at hne
    split_ifs at hne with hqp
    · rw [hqp]
      exact hg.inSource
    · exact h.sound q hq hne
  held := by
    intro q a hne hq ha
    -- the page that was added, or one of those there were
    rcases hg.cases h hr hq ha with ⟨-, rfl⟩ | ⟨-, ha⟩
    · refine ⟨idx, hg.page.inRange, rfl, ?_, hg.page.wasSet⟩
      rw [hg.bits h hr hg.page.inRange]
      simp
    · obtain ⟨k, hk, hka, hbit, hset⟩ := h.held q a hne hq ha
      refine ⟨k, hk, hka, ?_, hset⟩
      rw [hg.bits h hr hk, hbit, Bool.false_and]
  once := by
    intro q q' a hq hq' ha ha'
    rcases hg.cases h hr hq ha with ⟨rfl, rfl⟩ | ⟨-, ha⟩
    · rcases hg.cases h hr hq' ha' with ⟨rfl, -⟩ | ⟨-, ha'⟩
      · rfl
      · exact absurd ha' (hg.ne hq')
    · rcases hg.cases h hr hq' ha' with ⟨-, rfl⟩ | ⟨-, ha'⟩
      · exact absurd ha (hg.ne hq)
      · exact h.once q q' a hq hq' ha ha'
  all := by
    intro k hk hset hbit
    have hlen : (p ++ [i]).length ≤ 4 := by
      rw [List.length_append, List.length_singleton]
      exact Nat.succ_le_succ hg.len
    rw [hg.bits h hr hk] at hbit
    by_cases hki : k = idx
    · refine ⟨p ++ [i], by simp, hlen, ?_⟩
      rw [hg.frames h hr hlen, if_pos rfl, hki]
    · rw [decide_eq_false hki, Bool.not_false, Bool.and_true] at hbit
      obtain ⟨q, hne, hq, ha⟩ := h.all k hk hset hbit
      refine ⟨q, hne, hq, ?_⟩
      rw [hg.frames h hr hq, if_neg, ha]
      rintro rfl
      rw [hg.unlinked] at ha
      exact absurd ha (by simp)
  same := fun _ _ _ _ hq ht ht₀ hvalid => hg.samePage h hr hq ht ht₀ hvalid

/-! ## The loops -/

/-- The loop over the entries `is` of the table at `p` may have copied what is under them. -/
structure Grown (s₀ : MmState) (dst src : Nat) (p : List (Fin 512)) (is : List (Fin 512))
    (s s' : MmState) : Prop where
  copying : Copying s₀ dst src s'
  others : ∀ q, q.length ≤ 4 → (∀ i ∈ is, ¬p ++ [i] <+: q) → frameAt s'.mem dst q = frameAt s.mem dst q

/-- What is under the entries `is` has been copied. -/
def Complete (s₀ : MmState) (dst src : Nat) (p : List (Fin 512)) (is : List (Fin 512)) (s : MmState) : Prop :=
  ∀ i ∈ is, ∀ q, q.length ≤ 4 → p ++ [i] <+: q → frameAt s₀.mem src q ≠ none → frameAt s.mem dst q ≠ none

/-- What a loop, or a body of one, does to the entries `is` of the table at `p`. -/
def Copies (s₀ : MmState) (dst src : Nat) (p is : List (Fin 512)) (s : MmState) (res : Bool × MmState) : Prop :=
  Grown s₀ dst src p is s res.2 ∧ (res.1 = true → Complete s₀ dst src p is res.2)

theorem Grown.refl (h : Copying s₀ dst src s) (is : List (Fin 512)) : Grown s₀ dst src p is s s :=
  ⟨h, fun _ _ _ => rfl⟩

/-- Under an entry that leads nowhere there is nothing. -/
theorem frameAt_none_below {m : Mem} {pgd : Nat} (hnone : frameAt m pgd p = none) (hpre : p <+: q) :
    frameAt m pgd q = none := by
  obtain ⟨l, rfl⟩ := hpre
  rw [frameAt, walk_append]
  rw [frameAt] at hnone
  rw [hnone, Option.bind_none]

theorem not_prefix_self (p : List (Fin 512)) (i : Fin 512) : ¬p ++ [i] <+: p := by
  intro hpre
  have hle := hpre.length_le
  rw [List.length_append, List.length_singleton] at hle
  omega

theorem not_prefix_of_ne {j : Fin 512} (hij : i ≠ j) (hpre : p ++ [j] <+: q) : ¬p ++ [i] <+: q := by
  intro hpre'
  rcases List.prefix_or_prefix_of_prefix hpre hpre' with h | h
  all_goals
    have heq := h.eq_of_length (by simp)
    simp at heq
    exact hij (by rw [heq])

/-- **The loop**: what each body does to its entry, the loop does to all of them. -/
theorem copies_forEntries {body : Fin 512 → MmState → Bool × MmState} {is : List (Fin 512)}
    (hbody : ∀ i s, Copying s₀ dst src s → frameAt s.mem dst p = some b →
      frameAt s.mem dst (p ++ [i]) = none → Copies s₀ dst src p [i] s (body i s))
    (h : Copying s₀ dst src s) (hp : frameAt s.mem dst p = some b) (hlen : p.length ≤ 3) (hnd : is.Nodup)
    (hnone : ∀ i ∈ is, frameAt s.mem dst (p ++ [i]) = none) :
    Copies s₀ dst src p is s (forEntries body is s) := by
  induction is generalizing s with
  | nil => exact ⟨Grown.refl h [], fun _ i hi => absurd hi List.not_mem_nil⟩
  | cons i is ih =>
    obtain ⟨hi, hnd⟩ := List.nodup_cons.mp hnd
    obtain ⟨hgrown, hdone⟩ := hbody i s h hp (hnone i (by simp))
    rw [forEntries]
    cases hb : body i s with
    | mk ok s₁ =>
      rw [hb] at hgrown hdone
      cases ok with
      | false =>
        refine ⟨⟨hgrown.copying, fun q hq hnot => ?_⟩, fun hfalse => Bool.noConfusion hfalse⟩
        exact hgrown.others q hq fun j hj => hnot j (by simp [List.mem_singleton.mp hj])
      | true =>
        have hne : ∀ j ∈ is, i ≠ j := fun j hj hij => hi (hij ▸ hj)
        have hp' : frameAt s₁.mem dst p = some b := by
          rw [← hp]
          exact hgrown.others p (by omega) fun j _ => not_prefix_self p j
        have hnone' : ∀ j ∈ is, frameAt s₁.mem dst (p ++ [j]) = none := by
          intro j hj
          rw [← hnone j (by simp [hj])]
          refine hgrown.others _ (by simp; omega) ?_
          intro k hk
          rw [List.mem_singleton.mp hk]
          exact not_prefix_of_ne (hne j hj) (List.prefix_refl _)
        obtain ⟨hgrown', hdone'⟩ := ih hgrown.copying hp' hnd hnone'
        refine ⟨⟨hgrown'.copying, fun q hq hnot => ?_⟩, fun hok j hj q hq hpre hsrc => ?_⟩
        · rw [hgrown'.others q hq fun j hj => hnot j (by simp [hj])]
          exact hgrown.others q hq fun j hj => hnot j (by simp [List.mem_singleton.mp hj])
        · rcases List.mem_cons.mp hj with rfl | hj
          · -- What the first body has copied, the rest of the loop leaves alone.
            rw [hgrown'.others q hq fun k hk => not_prefix_of_ne (hne k hk).symm hpre]
            exact hdone rfl j (by simp) q hq hpre hsrc
          · exact hdone' hok j hj q hq hpre hsrc

/-- An entry of the source reads as it did at the start. -/
theorem Copying.entry_eq (h : Copying s₀ dst src s) (hq : q.length ≤ 4) (hc : frameAt s₀.mem src q = some c) :
    entry s.mem c i = entry s₀.mem c i := entry_congr (h.kept q c hq hc)

/-- Where the source has nothing there is nothing to copy. -/
theorem copies_skip (h : Copying s₀ dst src s) (ha : frameAt s₀.mem src p = some a)
    (hvalid : entry s₀.mem a i &&& ptValid = 0#64) : Copies s₀ dst src p [i] s (true, s) := by
  refine ⟨Grown.refl h [i], fun _ j hj q _ hpre hsrc => ?_⟩
  rw [List.mem_singleton.mp hj] at hpre
  refine absurd (frameAt_none_below ?_ hpre) hsrc
  rw [frameAt_snoc, ha, Option.bind_some]
  exact linkOf_eq_none.mpr hvalid

theorem copies_fail (h : Copying s₀ dst src s) (is : List (Fin 512)) : Copies s₀ dst src p is s (false, s) :=
  ⟨Grown.refl h is, fun hfalse => Bool.noConfusion hfalse⟩

theorem PmmReady.page_place (hr : PmmReady s₀ dst) (hidx : idx < s₀.totalPages) :
    s₀.physBase + idx * 4096 < 2 ^ 48 ∧ (s₀.physBase + idx * 4096) % 2 ^ 12 = 0 := by
  have htop := hr.top
  have halign := hr.align
  omega

/-- The entry that `vmm_copy_page_tables` makes for a new frame. -/
theorem linkOf_copied {pte : BitVec 64} {page : Nat} (hlt : page < 2 ^ 48) (halign : page % 2 ^ 12 = 0)
    (hvalid : pte &&& ptValid ≠ 0#64) :
    linkOf ((pte &&& ~~~ptAddrMask) ||| BitVec.ofNat 64 page) = some page ∧
      ((pte &&& ~~~ptAddrMask) ||| BitVec.ofNat 64 page) &&& ~~~ptAddrMask = pte &&& ~~~ptAddrMask := by
  have hto := toNat_ofNat_page hlt
  have hmask := and_ptAddrMask (a := BitVec.ofNat 64 page) (by rwa [hto]) (by rwa [hto])
  have hbit : pte &&& ptValid = ptValid := by
    refine BitVec.eq_of_getLsbD_eq fun i hi => ?_
    rw [BitVec.getLsbD_and]
    by_cases h0 : i = 0
    · subst h0
      by_contra hne
      refine hvalid (BitVec.eq_of_getLsbD_eq fun j hj => ?_)
      rw [BitVec.getLsbD_and]
      by_cases hj0 : j = 0
      · subst hj0
        simpa using hne
      · simp [ptValid, BitVec.getLsbD_one, hj0]
    · simp [ptValid, BitVec.getLsbD_one, h0]
  constructor
  · rw [BitVec.or_comm]
    have hattr : pte &&& ~~~ptAddrMask &&& ptValid = ptValid := by
      have hcomm : pte &&& ~~~ptAddrMask &&& ptValid = pte &&& ptValid &&& ~~~ptAddrMask := by ac_rfl
      rw [hcomm, hbit]
      decide
    refine linkOf_page_or hlt halign ?_ hattr
    rw [BitVec.and_assoc]
    simp
  · rw [BitVec.and_or_distrib_right, ← hmask, BitVec.and_assoc, BitVec.and_self, BitVec.and_assoc]
    simp

/-- The entry for a new table. -/
theorem linkOf_copiedTable {page : Nat} (hlt : page < 2 ^ 48) (halign : page % 2 ^ 12 = 0) :
    linkOf (BitVec.ofNat 64 page ||| ptValid ||| ptTable ||| ptAf) = some page := by
  rw [BitVec.or_assoc, BitVec.or_assoc]
  exact linkOf_page_or hlt halign (by decide) (by decide)

/-- **The innermost body**: a page is taken, filled and linked. -/
theorem copies_copyPage (hr : PmmReady s₀ dst) (hs : SrcApart s₀ dst src) (ha : frameAt s₀.mem src p = some a)
    (hlen : p.length = 3) (h : Copying s₀ dst src s) (hp : frameAt s.mem dst p = some b)
    (hnone : frameAt s.mem dst (p ++ [i]) = none) : Copies s₀ dst src p [i] s (copyPage a b i s) := by
  have hi := i.isLt
  have hpi : (p ++ [i]).length = 4 := by rw [List.length_append, List.length_singleton, hlen]
  have hread := h.entry_eq (i := i) (by omega) ha
  unfold copyPage
  by_cases hvalid : entry s.mem a i &&& ptValid = 0#64
  · rw [if_pos hvalid]
    exact copies_skip h ha (hread ▸ hvalid)
  · rw [if_neg hvalid]
    have hleaf : frameAt s₀.mem src (p ++ [i]) = some (tableOf (entry s₀.mem a i)) := by
      rw [frameAt_snoc, ha, Option.bind_some, linkOf, if_neg (hread ▸ hvalid)]
    rcases h.alloc hr hs with he | ⟨idx, s₁, he, hf⟩
    · rw [he]
      exact copies_fail h [i]
    · obtain ⟨hlt, halign⟩ := hr.page_place hf.inRange
      obtain ⟨hlink, hattr⟩ := linkOf_copied hlt halign hvalid
      have hbase := hr.base
      have hb := (hf.copy p b (by omega) hp).1
      unfold PagesApart at hb
      rw [he]
      dsimp only
      rw [if_neg (by omega)]
      have hpage : PageLinked s₁ (s₀.physBase + idx * 4096) b i
          (setEntry (copyBytes s₁.mem (s₀.physBase + idx * 4096) s₁.mem (tableOf (entry s.mem a i)) 4096) b i
            ((entry s.mem a i &&& ~~~ptAddrMask) ||| BitVec.ofNat 64 (s₀.physBase + idx * 4096))) :=
        pageLinked_setEntry (fun x hx => copyBytes_of_notMem hx) hlink
      -- The new frame has the bytes that the source's had at the start.
      have hsame : SamePage s₀.mem (entry s₀.mem a i)
          (setEntry (copyBytes s₁.mem (s₀.physBase + idx * 4096) s₁.mem (tableOf (entry s.mem a i)) 4096) b i
            ((entry s.mem a i &&& ~~~ptAddrMask) ||| BitVec.ofNat 64 (s₀.physBase + idx * 4096)))
          ((entry s.mem a i &&& ~~~ptAddrMask) ||| BitVec.ofNat 64 (s₀.physBase + idx * 4096)) := by
        rw [← hread]
        refine ⟨hattr, fun x hx => ?_⟩
        have hpageOf : tableOf ((entry s.mem a i &&& ~~~ptAddrMask) |||
            BitVec.ofNat 64 (s₀.physBase + idx * 4096)) = s₀.physBase + idx * 4096 := (linkOf_eq_some.mp hlink).2
        rw [hpageOf, setEntry, store64, storeBytes_of_notMem (by omega), copyBytes_of_mem (by omega) (by omega),
          Nat.add_sub_cancel_left]
        rw [hread]
        have hsrc := (hf.source (p ++ [i]) _ (by omega) hleaf).2
        have hkept := h.kept (p ++ [i]) _ (by omega) hleaf
        rw [hsrc _ (by omega) (by omega), hkept _ (by omega) (by omega)]
      have hsource : frameAt s₀.mem src (p ++ [i]) ≠ none := by
        rw [hleaf]
        simp
      have hadded := PageAdded.mk hf hp hlen.le hnone hsource hpage (fun hlt => absurd hlt (by omega)) fun _ t₀ ht₀ => by
        obtain rfl := Option.some.inj (ha.symm.trans ht₀)
        rw [entry_setEntry_same]
        exact hsame
      have hframe := fun q => @PageAdded.frames _ _ _ _ _ _ _ _ q _ _ hadded h hr
      refine ⟨⟨h.grow hr hs hadded, fun q hq hnot => ?_⟩, fun _ j hj q hq hpre _ => ?_⟩
      · dsimp only
        rw [hframe q hq, if_neg]
        rintro rfl
        exact hnot i (by simp) (List.prefix_refl _)
      · rw [List.mem_singleton.mp hj] at hpre
        have hqp : p ++ [i] = q := hpre.eq_of_length_le (by omega)
        dsimp only
        rw [hframe q hq, if_pos hqp.symm]
        simp

/-- **The body of the loops outside**: a table is taken, cleared and linked, and the loop
    inside fills it. -/
theorem copies_copyTable (hr : PmmReady s₀ dst) (hs : SrcApart s₀ dst src) (ha : frameAt s₀.mem src p = some a)
    (hlen : p.length < 3) {sub : Nat → Nat → MmState → Bool × MmState} {skip : Fin 512 → Bool}
    (hskip : ∀ i, skip i = false)
    (hsub : ∀ (i : Fin 512) a' b' s', frameAt s₀.mem src (p ++ [i]) = some a' → Copying s₀ dst src s' →
      frameAt s'.mem dst (p ++ [i]) = some b' → (∀ j, frameAt s'.mem dst (p ++ [i] ++ [j]) = none) →
        Copies s₀ dst src (p ++ [i]) (List.finRange 512) s' (sub a' b' s'))
    (h : Copying s₀ dst src s) (hp : frameAt s.mem dst p = some b)
    (hnone : frameAt s.mem dst (p ++ [i]) = none) :
    Copies s₀ dst src p [i] s (copyTable sub skip a b i s) := by
  have hi := i.isLt
  have hpi : (p ++ [i]).length = p.length + 1 := by rw [List.length_append, List.length_singleton]
  have hread := h.entry_eq (i := i) (by omega) ha
  unfold copyTable
  by_cases hvalid : entry s.mem a i &&& ptValid = 0#64
  · rw [if_pos hvalid]
    exact copies_skip h ha (hread ▸ hvalid)
  · rw [if_neg hvalid, hskip, if_neg Bool.false_ne_true]
    have hnext : frameAt s₀.mem src (p ++ [i]) = some (tableOf (entry s.mem a i)) := by
      rw [frameAt_snoc, ha, Option.bind_some, linkOf, ← hread, if_neg hvalid]
    unfold allocTable
    rcases h.alloc hr hs with he | ⟨idx, s₁, he, hf⟩
    · rw [he]
      exact copies_fail h [i]
    · obtain ⟨hlt, halign⟩ := hr.page_place hf.inRange
      have hbase := hr.base
      have hb := (hf.copy p b (by omega) hp).1
      unfold PagesApart at hb
      have hne : ¬s₀.physBase + idx * 4096 = 0 := by omega
      rw [he]
      dsimp only
      rw [if_neg hne]
      dsimp only
      rw [if_neg hne]
      have hlink := linkOf_copiedTable hlt halign
      have hpage : PageLinked s₁ (s₀.physBase + idx * 4096) b i
          (setEntry (fillBytes s₁.mem (s₀.physBase + idx * 4096) 4096 0) b i
            (BitVec.ofNat 64 (s₀.physBase + idx * 4096) ||| ptValid ||| ptTable ||| ptAf)) :=
        pageLinked_setEntry (fun x hx => fillBytes_of_notMem hx) hlink
      -- A new table has no entries.
      have hnull : ∀ j : Fin 512, linkOf (entry (setEntry (fillBytes s₁.mem (s₀.physBase + idx * 4096) 4096 0) b i
          (BitVec.ofNat 64 (s₀.physBase + idx * 4096) ||| ptValid ||| ptTable ||| ptAf))
            (s₀.physBase + idx * 4096) j) = none := by
        intro j
        have hj := j.isLt
        rw [entry_setEntry_disjoint (by omega), entry, load64, loadBytes_fillBytes_zero (by omega) (by omega)]
        exact linkOf_zero
      have hsource : frameAt s₀.mem src (p ++ [i]) ≠ none := by
        rw [hnext]
        simp
      have hadded := PageAdded.mk hf hp hlen.le hnone hsource hpage (fun _ => hnull) fun hlen' => absurd hlen' (by omega)
      have hframe := fun q => @PageAdded.frames _ _ _ _ _ _ _ _ q _ _ hadded h hr
      have hcopying := h.grow hr hs hadded
      generalize setEntry (fillBytes s₁.mem (s₀.physBase + idx * 4096) 4096 0) b i
        (BitVec.ofNat 64 (s₀.physBase + idx * 4096) ||| ptValid ||| ptTable ||| ptAf) = m at hcopying hframe ⊢
      have hdown : ∀ j, frameAt m dst (p ++ [i] ++ [j]) = none := by
        intro j
        rw [hframe _ (by simp; omega), if_neg (by simp)]
        exact frameAt_none_below hnone (List.prefix_append _ _)
      have hnew : frameAt m dst (p ++ [i]) = some (s₀.physBase + idx * 4096) := by
        rw [hframe _ (by omega), if_pos rfl]
      obtain ⟨hgrown, hdone⟩ := hsub i _ _ _ hnext hcopying hnew hdown
      refine ⟨⟨hgrown.copying, fun q hq hnot => ?_⟩, fun hok j hj q hq hpre hsrc => ?_⟩
      · have hnot' := hnot i (by simp)
        rw [hgrown.others q hq fun j _ hpre => hnot' ((List.prefix_append _ _).trans hpre)]
        dsimp only
        rw [hframe q hq, if_neg]
        rintro rfl
        exact hnot' (List.prefix_refl _)
      · rw [List.mem_singleton.mp hj] at hpre
        obtain ⟨l, rfl⟩ := hpre
        cases l with
        | nil =>
          -- The new table itself.
          rw [List.append_nil] at hq ⊢
          rw [hgrown.others _ hq fun j _ => not_prefix_self _ j]
          dsimp only
          rw [hnew]
          simp
        | cons k l =>
          exact hdone hok k (List.mem_finRange k) _ hq ⟨l, by simp⟩ hsrc

/-- **Every level**: the loops inside copy the tree under their table. -/
theorem copies_copyLevel (hr : PmmReady s₀ dst) (hs : SrcApart s₀ dst src) {n : Nat}
    (hn : p.length + n = 3) (ha : frameAt s₀.mem src p = some a) (h : Copying s₀ dst src s)
    (hp : frameAt s.mem dst p = some b) (hnone : ∀ i, frameAt s.mem dst (p ++ [i]) = none) :
    Copies s₀ dst src p (List.finRange 512) s (copyLevel n a b s) := by
  induction n generalizing p a b s with
  | zero =>
    refine copies_forEntries (fun i s h hp hnone => ?_) h hp (by omega) (List.nodup_finRange 512) fun i _ => hnone i
    exact copies_copyPage hr hs ha (by omega) h hp hnone
  | succ n ih =>
    refine copies_forEntries (fun i s h hp hnone => ?_) h hp (by omega) (List.nodup_finRange 512) fun i _ => hnone i
    refine copies_copyTable hr hs ha (by omega) (fun _ => rfl) ?_ h hp hnone
    intro i a' b' s' ha' h' hp' hnone'
    exact ih (by simp; omega) ha' h' hp' hnone'

/-! ## The call -/

/-- A directory without valid entries leads nowhere. -/
theorem frameAt_cleared {m : Mem} {pgd : Nat} (hclear : ∀ i : Fin 512, entry m pgd i &&& ptValid = 0#64) (i : Fin 512)
    (q : List (Fin 512)) : frameAt m pgd (i :: q) = none := by
  rw [frameAt, walk, linkOf_eq_none.mpr (hclear i), Option.bind_none]

theorem copying_start (hclear : ∀ i : Fin 512, entry s₀.mem dst i &&& ptValid = 0#64) :
    Copying s₀ dst src s₀ := by
  have hnil : ∀ q a, frameAt s₀.mem dst q = some a → q = [] := by
    intro q a ha
    cases q with
    | nil => rfl
    | cons i q =>
      rw [frameAt_cleared hclear] at ha
      exact absurd ha (by simp)
  refine ⟨SameRange.refl s₀, fun _ _ hbit => hbit, fun _ _ _ _ _ _ _ => rfl, ?_, ?_, ?_, ?_, ?_⟩
  · intro q _ hq
    cases q with
    | nil => simp [frameAt_nil]
    | cons i q => exact absurd (frameAt_cleared hclear i q) hq
  · intro q a hne _ ha
    exact absurd (hnil q a ha) hne
  · intro q q' a _ _ ha ha'
    rw [hnil q a ha, hnil q' a ha']
  · intro idx _ hset hbit
    rw [hset] at hbit
    exact Bool.noConfusion hbit
  · intro q i t t₀ hq ht _ _
    rw [hnil q t ht] at hq
    exact absurd hq (by simp)

/-- **`vmm_copy_page_tables`**, however it ends, leaves part of a copy, and all of it when it
    returns 0. -/
theorem copying_vmmCopyPageTables (hr : PmmReady s₀ dst) (hs : SrcApart s₀ dst src)
    (hclear : ∀ i : Fin 512, entry s₀.mem dst i &&& ptValid = 0#64) :
    Copying s₀ dst src (vmmCopyPageTables s₀ dst src).2 ∧
      ((vmmCopyPageTables s₀ dst src).1 = 0 →
        Complete s₀ dst src [] (List.finRange 512) (vmmCopyPageTables s₀ dst src).2) := by
  have hstart : Copying s₀ dst src s₀ := copying_start hclear
  unfold vmmCopyPageTables
  by_cases hnull : dst = 0 ∨ src = 0
  · rw [if_pos hnull]
    exact ⟨hstart, fun h => absurd h (by simp)⟩
  · rw [if_neg hnull]
    have hroot : Copies s₀ dst src [] (List.finRange 512) s₀
        (forEntries (copyTable (copyLevel 2) kernelHalf src dst) (List.finRange 512) s₀) := by
      refine copies_forEntries (fun i s h hp hnone => ?_) hstart (frameAt_nil _ _) (by simp)
        (List.nodup_finRange 512) fun i _ => frameAt_cleared hclear i []
      refine copies_copyTable hr hs (frameAt_nil _ _) (by simp) kernelHalf_eq_false ?_ h hp hnone
      intro i a' b' s' ha' h' hp' hnone'
      exact copies_copyLevel hr hs (by simp) ha' h' hp' hnone'
    obtain ⟨hgrown, hdone⟩ := hroot
    cases hres : forEntries (copyTable (copyLevel 2) kernelHalf src dst) (List.finRange 512) s₀ with
    | mk ok s' =>
      rw [hres] at hgrown hdone
      cases ok with
      | true => exact ⟨hgrown.copying, fun _ => hdone rfl⟩
      | false => exact ⟨hgrown.copying, fun h => absurd h (by simp)⟩

/-- The last-level entry of an address, if it is valid. -/
def pteAt (m : Mem) (pgd : Nat) (vaddr : BitVec 64) : Option (BitVec 64) :=
  (frameAt m pgd (dirPath vaddr)).bind fun pte =>
    if entry m pte (pteIdx vaddr) &&& ptValid = 0#64 then none else some (entry m pte (pteIdx vaddr))

theorem frameAt_pagePath (m : Mem) (pgd : Nat) (vaddr : BitVec 64) :
    frameAt m pgd (pagePath vaddr) = (pteAt m pgd vaddr).map tableOf := by
  rw [pagePath, frameAt_snoc, pteAt]
  cases frameAt m pgd (dirPath vaddr) with
  | none => rfl
  | some t =>
    rw [Option.bind_some, Option.bind_some, linkOf]
    split <;> rfl

/-- Both map the address, with the same attributes and contents, or neither does. -/
def SameMapping (m m' : Mem) : Option (BitVec 64) → Option (BitVec 64) → Prop
  | none, none => True
  | some e, some e' => SamePage m e m' e'
  | _, _ => False

theorem Copying.sameMapping (h : Copying s₀ dst src s) (hdone : Complete s₀ dst src [] (List.finRange 512) s)
    (vaddr : BitVec 64) : SameMapping s₀.mem s.mem (pteAt s₀.mem src vaddr) (pteAt s.mem dst vaddr) := by
  have hlen : (pagePath vaddr).length = 4 := rfl
  have hmapped : frameAt s.mem dst (pagePath vaddr) = none ↔ frameAt s₀.mem src (pagePath vaddr) = none := by
    constructor
    · intro hnone
      by_contra hsrc
      exact hdone ⟨pgdIdx vaddr, idx_lt⟩ (List.mem_finRange _) (pagePath vaddr) (by omega) ⟨_, rfl⟩ hsrc hnone
    · intro hnone
      by_contra hdst
      exact h.sound _ (by omega) hdst hnone
  rw [frameAt_pagePath, frameAt_pagePath, Option.map_eq_none_iff, Option.map_eq_none_iff] at hmapped
  cases hsrc : pteAt s₀.mem src vaddr with
  | none =>
    rw [hmapped.mpr hsrc]
    trivial
  | some e =>
    cases hdst : pteAt s.mem dst vaddr with
    | none =>
      rw [hmapped.mp hdst] at hsrc
      exact absurd hsrc (by simp)
    | some e' =>
      unfold pteAt at hsrc hdst
      obtain ⟨t₀, ht₀, hsrc⟩ := Option.bind_eq_some_iff.mp hsrc
      obtain ⟨t, ht, hdst⟩ := Option.bind_eq_some_iff.mp hdst
      split_ifs at hsrc hdst with hv₀ hv
      obtain rfl := Option.some.inj hsrc
      obtain rfl := Option.some.inj hdst
      exact h.same (dirPath vaddr) ⟨pteIdx vaddr, idx_lt⟩ t t₀ rfl ht ht₀ hv

/-- **`vmm_copy_page_tables` copies the address space.** Over the page allocator, from a
    cleared directory: if it returns 0, the copy maps what the source maps, with the same
    attributes and contents, in frames of its own; and the source is as it was. -/
theorem vmmCopyPageTables_copies {s₀ s' : MmState} {dst src : Nat} (hr : PmmReady s₀ dst)
    (hs : SrcApart s₀ dst src) (hclear : ∀ i : Fin 512, entry s₀.mem dst i &&& ptValid = 0#64)
    (hok : vmmCopyPageTables s₀ dst src = (0, s')) :
    (∀ vaddr, SameMapping s₀.mem s'.mem (pteAt s₀.mem src vaddr) (pteAt s'.mem dst vaddr)) ∧
      (∀ v w a b, frameAt s'.mem dst (pagePath v) = some a → frameAt s'.mem dst (pagePath w) = some b →
        pagePath v ≠ pagePath w → PagesApart a b) ∧
      (∀ v a q c, frameAt s'.mem dst (pagePath v) = some a → q.length ≤ 4 →
        frameAt s₀.mem src q = some c → PagesApart a c) ∧
      ∀ q c, q.length ≤ 4 → frameAt s₀.mem src q = some c → AgreeOn s₀.mem s'.mem c 4096 := by
  obtain ⟨h, hdone⟩ := copying_vmmCopyPageTables hr hs hclear
  rw [hok] at h hdone
  refine ⟨h.sameMapping (hdone rfl), ?_, ?_, h.kept⟩
  · intro v w a b ha hb hne
    exact h.apart hr (by simp [pagePath, dirPath]) ha (by simp [pagePath, dirPath]) hb hne
  · intro v a q c ha hq hc
    exact h.apartSrc hs (by simp [pagePath, dirPath]) ha hq hc

end Copying

/-! ## One page -/

/-- One mapped page: a directory at `0x1000` and three tables after it, in each of which the
    last entry leads on, to the frame at `0x5000` in the end. Eight pages are free from
    `0x10000`, and the bitmap's word is at `0x8FF8`. -/
def oneMapping : MmState where
  mem := fun x =>
    bif Nat.blt (x % 4096) 0xFF8 then 0
    else bif Nat.beq (x % 4096) 0xFF8 then
      bif Nat.blt (x / 4096) 5 then 0x43 else bif Nat.beq (x / 4096) 8 then 0xFF else 0
    else bif Nat.beq (x % 4096) 0xFF9 && Nat.blt (x / 4096) 5 then 0x10 * BitVec.ofNat 8 (x / 4096 + 1)
    else 0
  pageBitmap := 0x8FF8
  totalPages := 8
  freePages := 8
  physBase := 0x10000
  heapStart := 0
  heapSize := 0

theorem oneMapping_ready : PmmReady oneMapping 0x6000 := by
  refine ⟨by decide, by decide, by decide, fun idx _ _ => ?_, fun idx _ _ => ?_, by decide⟩
  · simp only [oneMapping, MmState.bitmapBytes]
    omega
  · simp only [oneMapping, PagesApart]
    omega

/-- In each of its pages all entries but the last are null. -/
theorem oneMapping_entry (t : Nat) {i : Fin 512} (hi : i ≠ 511) : entry oneMapping.mem (0x1000 * t) i = 0#64 := by
  have hlt := i.isLt
  have hlast : (i : Nat) ≠ 511 := fun he => hi (Fin.ext he)
  have hzero : AgreeOn oneMapping.mem (fillBytes oneMapping.mem (0x1000 * t + 8 * i) 8 0) (0x1000 * t + 8 * i) 8 := by
    intro x hx hx'
    have hblt : Nat.blt (x % 4096) 0xFF8 = true := by
      rw [Nat.blt_eq]
      omega
    have hread : oneMapping.mem x = 0 := by simp only [oneMapping, hblt, cond_true]
    rw [hread]
    simp [fillBytes, hx, hx']
  rw [entry, ← load64_congr hzero, load64, loadBytes_fillBytes_zero le_rfl le_rfl]

/-- The last leads to the next page. -/
theorem oneMapping_last (k : Fin 4) :
    linkOf (entry oneMapping.mem (0x1000 * ((k : Nat) + 1)) (511 : Fin 512)) = some (0x1000 * ((k : Nat) + 2)) := by
  revert k
  decide +kernel

/-- Its source is the pages `0x1000` to `0x5000`. -/
theorem oneMapping_frames {q : List (Fin 512)} {c : Nat} (hq : q.length ≤ 4)
    (hc : frameAt oneMapping.mem 0x1000 q = some c) : c = 0x1000 * (q.length + 1) := by
  have hentry : ∀ (k : Fin 4) (i : Fin 512), linkOf (entry oneMapping.mem (0x1000 * ((k : Nat) + 1)) i) = none ∨
      linkOf (entry oneMapping.mem (0x1000 * ((k : Nat) + 1)) i) = some (0x1000 * ((k : Nat) + 2)) := by
    intro k i
    by_cases hi : i = 511
    · rw [hi]
      exact Or.inr (oneMapping_last k)
    · rw [oneMapping_entry _ hi]
      exact Or.inl linkOf_zero
  induction q using List.reverseRecOn generalizing c with
  | nil => exact (Option.some.inj hc).symm
  | append_singleton q i ih =>
    rw [List.length_append, List.length_singleton] at hq ⊢
    rw [frameAt_snoc] at hc
    obtain ⟨t, ht, hc⟩ := Option.bind_eq_some_iff.mp hc
    rw [ih (by omega) ht] at hc
    rcases hentry ⟨q.length, by omega⟩ i with hnone | hnext
    · rw [hnone] at hc
      exact absurd hc (by simp)
    · rw [hnext] at hc
      exact (Option.some.inj hc).symm

theorem oneMapping_srcApart : SrcApart oneMapping 0x6000 0x1000 := by
  refine ⟨fun q c hq hc idx _ _ => ?_, fun q c hq hc => ?_, fun q c hq hc => ?_⟩
  · rw [oneMapping_frames hq hc]
    simp only [oneMapping, PagesApart]
    omega
  · rw [oneMapping_frames hq hc]
    simp only [oneMapping, MmState.bitmapBytes]
    omega
  · rw [oneMapping_frames hq hc, PagesApart]
    omega

theorem oneMapping_cleared (i : Fin 512) : entry oneMapping.mem 0x6000 i &&& ptValid = 0#64 := by
  by_cases hi : i = 511
  · rw [hi]
    decide +kernel
  · rw [show (0x6000 : Nat) = 0x1000 * 6 from rfl, oneMapping_entry _ hi]
    rfl

/-- `k` of its free pages have been taken, and its source is as it was. -/
structure OneMappingTook (k : Nat) (s : MmState) : Prop where
  range : SameRange oneMapping s
  free : s.freePages = 8 - k
  bits : ∀ idx, idx < 8 → s.pageBit idx = decide (k ≤ idx)
  source : AgreeOn oneMapping.mem s.mem 0x1000 0x5000

section OneMapping

variable {k t : Nat} {s s₁ : MmState} {m : Mem} {dst : Nat}

theorem OneMappingTook.start : OneMappingTook 0 oneMapping :=
  ⟨SameRange.refl _, rfl, by decide +kernel, fun _ _ _ => rfl⟩

/-- Writes outside the source and the bitmap. -/
theorem OneMappingTook.write (h : OneMappingTook k s)
    (hm : ∀ x, 0x1000 ≤ x → x < 0x6000 ∨ 0x8000 ≤ x → x < 0x10000 → m x = s.mem x) :
    OneMappingTook k { s with mem := m } := by
  refine ⟨⟨h.range.pageBitmap, h.range.totalPages, h.range.physBase⟩, h.free, fun idx hidx => ?_, fun x hx hx' => ?_⟩
  · have hmap : s.pageBitmap = 0x8FF8 := h.range.pageBitmap
    have htotal : s.totalPages = 8 := h.range.totalPages
    rw [MmState.pageBit_congr ?_ (by omega), h.bits idx hidx]
    intro x hx hx'
    rw [MmState.bitmapBytes] at hx'
    exact hm x (by omega) (by omega) (by omega)
  · exact (hm x hx (by omega) (by omega)).trans (h.source x hx hx')

/-- The next page is taken. -/
theorem OneMappingTook.alloc (h : OneMappingTook k s) (hk : k < 8) :
    ∃ s₁, pmmAlloc s = (0x10000 + k * 4096, s₁) ∧ OneMappingTook (k + 1) s₁ := by
  have hmap : s.pageBitmap = 0x8FF8 := h.range.pageBitmap
  have htotal : s.totalPages = 8 := h.range.totalPages
  have hbase : s.physBase = 0x10000 := h.range.physBase
  have hnext : s.pageBit k = true := by rw [h.bits k hk, decide_eq_true le_rfl]
  obtain ⟨-, hnone | hnone⟩ | ⟨idx, s₁, he, htook, hfirst⟩ := pmmAlloc_cases s
  · rw [h.free] at hnone
    omega
  · rw [hnone k (by omega)] at hnext
    cases hnext
  · have hin := htook.inRange
    have hset := htook.wasFree idx le_rfl (by omega)
    rw [h.bits idx (by omega), decide_eq_true_eq] at hset
    have hidx : idx = k := by
      by_contra hne
      rw [hfirst k (by omega)] at hnext
      cases hnext
    subst hidx
    refine ⟨s₁, ?_, h.range.trans htook.same.range, ?_, fun j hj => ?_, fun x hx hx' => ?_⟩
    · rw [he, hbase, Nat.mod_eq_of_lt (by omega)]
    · rw [htook.count, h.free, sub64]
      omega
    · rw [htook.bits, h.bits j hj, ← decide_not, ← Bool.decide_and]
      exact decide_eq_decide.mpr (by omega)
    · rw [htook.same.mem x (by omega), h.source x hx hx']

/-- A loop whose body passes over all entries but the last is its body there. -/
theorem forEntries_last {body : Fin 512 → MmState → Bool × MmState} (h : ∀ i, i ≠ 511 → body i s = (true, s)) :
    forEntries body (List.finRange 512) s = body 511 s := by
  have hskip : ∀ is : List (Fin 512), 511 ∉ is → forEntries body (is ++ [511]) s = body 511 s := by
    intro is his
    induction is with
    | nil =>
      rw [List.nil_append, forEntries]
      obtain ⟨ok, s'⟩ := body 511 s
      cases ok <;> rfl
    | cons i is ih =>
      obtain ⟨hi, his⟩ := not_or.mp (List.mem_cons.not.mp his)
      rw [List.cons_append, forEntries, h i (Ne.symm hi)]
      exact ih his
  rw [List.finRange_succ_last]
  refine hskip _ fun hmem => ?_
  obtain ⟨i, -, hi⟩ := List.mem_map.mp hmem
  exact absurd hi (Fin.castSucc_lt_last i).ne

theorem OneMappingTook.null (h : OneMappingTook k s) (ht : t < 5) {i : Fin 512} (hi : i ≠ 511) :
    entry s.mem (0x1000 * (t + 1)) i = 0#64 := by
  rw [entry_congr (h.source.mono (by omega) (by omega)), oneMapping_entry _ hi]

theorem OneMappingTook.last (h : OneMappingTook k s) (ht : t < 4) :
    linkOf (entry s.mem (0x1000 * (t + 1)) (511 : Fin 512)) = some (0x1000 * (t + 2)) := by
  rw [entry_congr (h.source.mono (by omega) (by omega))]
  exact oneMapping_last ⟨t, ht⟩

/-- A loop over a table of tables takes a page and goes on inside. -/
theorem OneMappingTook.table (h : OneMappingTook k s) (hk : k < 8) (ht : t < 4)
    (hdst : 0x6000 ≤ dst ∧ dst + 4096 ≤ 0x8000 ∨ 0x10000 ≤ dst) {sub : Nat → Nat → MmState → Bool × MmState}
    {skip : Fin 512 → Bool} (hskip : ∀ i, skip i = false) :
    ∃ s', OneMappingTook (k + 1) s' ∧
      forEntries (copyTable sub skip (0x1000 * (t + 1)) dst) (List.finRange 512) s =
        sub (0x1000 * (t + 2)) (0x10000 + k * 4096) s' := by
  obtain ⟨hvalid, hnext⟩ := linkOf_eq_some.mp (h.last ht)
  obtain ⟨s₁, he, h₁⟩ := h.alloc hk
  rw [forEntries_last fun i hi => by rw [copyTable, h.null (by omega) hi, if_pos (by decide)]]
  refine ⟨_, @OneMappingTook.write _ _ (setEntry (fillBytes s₁.mem (0x10000 + k * 4096) 4096 0) dst (511 : Fin 512)
    (BitVec.ofNat 64 (0x10000 + k * 4096) ||| ptValid ||| ptTable ||| ptAf)) h₁ fun x hx hx' hlt => ?_, ?_⟩
  · rw [setEntry, store64, storeBytes_of_notMem (by omega), fillBytes_of_notMem (by omega)]
  · have hne : ¬0x10000 + k * 4096 = 0 := by omega
    rw [copyTable, if_neg hvalid, hskip, if_neg Bool.false_ne_true, hnext, allocTable, he]
    dsimp only
    rw [if_neg hne]
    dsimp only
    rw [if_neg hne]

/-- The loop over the last table copies the frame. -/
theorem OneMappingTook.page (h : OneMappingTook k s) (hk : k < 8) (ht : t < 4) :
    (forEntries (copyPage (0x1000 * (t + 1)) dst) (List.finRange 512) s).1 = true := by
  obtain ⟨hvalid, -⟩ := linkOf_eq_some.mp (h.last ht)
  obtain ⟨s₁, he, -⟩ := h.alloc hk
  rw [forEntries_last fun i hi => by rw [copyPage, h.null (by omega) hi, if_pos (by decide)]]
  rw [copyPage, if_neg hvalid, he]
  dsimp only
  rw [if_neg (by omega)]

theorem oneMapping_copied : (vmmCopyPageTables oneMapping 0x6000 0x1000).1 = 0 := by
  have hfalse : ∀ i : Fin 512, (fun _ => false) i = false := fun _ => rfl
  obtain ⟨s₁, h₁, he₁⟩ := @OneMappingTook.table 0 0 _ 0x6000 .start (by decide) (by decide) (by decide) (copyLevel 2) _
    kernelHalf_eq_false
  obtain ⟨s₂, h₂, he₂⟩ := @OneMappingTook.table 1 1 _ 0x10000 h₁ (by decide) (by decide) (by decide) (copyLevel 1) _ hfalse
  obtain ⟨s₃, h₃, he₃⟩ := @OneMappingTook.table 2 2 _ 0x11000 h₂ (by decide) (by decide) (by decide) (copyLevel 0) _ hfalse
  have hpage := @OneMappingTook.page 3 3 _ 0x12000 h₃ (by decide) (by decide)
  have hall : (forEntries (copyTable (copyLevel 2) kernelHalf 0x1000 0x6000) (List.finRange 512) oneMapping).1 = true := by
    rw [he₁]
    show (forEntries _ _ s₁).1 = true
    rw [he₂]
    show (forEntries _ _ s₂).1 = true
    rw [he₃]
    exact hpage
  rw [vmmCopyPageTables, if_neg (by decide)]
  split
  · rfl
  case h_2 hfail =>
    rw [hfail] at hall
    cases hall

end OneMapping

/-- The page at the end of the lower half is copied. -/
theorem vmmCopyPageTables_copies_oneMapping :
    ∃ s', vmmCopyPageTables oneMapping 0x6000 0x1000 = (0, s') ∧
      SameMapping oneMapping.mem s'.mem (pteAt oneMapping.mem 0x1000 0x0000FFFFFFFFF000#64)
        (pteAt s'.mem 0x6000 0x0000FFFFFFFFF000#64) ∧
      pteAt oneMapping.mem 0x1000 0x0000FFFFFFFFF000#64 = some 0x5043#64 := by
  have hok := oneMapping_copied
  cases hres : vmmCopyPageTables oneMapping 0x6000 0x1000 with
  | mk r s' =>
    rw [hres] at hok
    obtain rfl : r = 0 := hok
    exact ⟨s', rfl, (vmmCopyPageTables_copies oneMapping_ready oneMapping_srcApart oneMapping_cleared hres).1 _,
      by decide +kernel⟩

end Crimson.Mm
