import Crimson.Lib.Run
import Crimson.Mm.PmmCount

/-!
# The memory system calls (`syscall.c`)

`sys_mmap` hands out physical pages of the page allocator, `sys_brk` takes some, and
`sys_munmap` gives pages back: every managed page its range touches, whoever holds it.
`UserState` adds to the allocator the ledger that the kernel does not keep, which page was
mapped by which caller and not unmapped since, and runs interleave the calls of any
callers with the kernel's own use of the allocator.

`releases_own_iff` says when the calls release nothing but what their caller has mapped.
The arguments are arbitrary 64-bit words; the page count of a length wraps as the source's
does.
-/

set_option autoImplicit false

namespace Crimson.Syscall

open Crimson.Lib Crimson.Mm

/-- `((size_t)len + PAGE_SIZE - 1) / PAGE_SIZE`. -/
def pageCount (len : Nat) : Nat := (len + 4095) % 2 ^ 64 / 4096

/-- A machine word as a `long`. -/
def toLong (x : Nat) : Int := (BitVec.ofNat 64 x).toInt

/-- `sys_mmap`; its other arguments are not looked at. -/
def sysMmap (s : MmState) (len : UInt64) : Int × MmState :=
  let pages := pageCount len.toNat
  let r := pmmAllocN s pages
  if r.1 = 0 then (-2, r.2) -- -STATUS_NOMEM
  else (toLong r.1, { r.2 with mem := fillBytes r.2.mem r.1 (pages * 4096 % 2 ^ 64) 0 })

/-- The `i`-th address `sys_munmap` frees. -/
def unmapAddr (addr : UInt64) (i : Nat) : Nat := (addr.toNat + i * 4096) % 2 ^ 64

/-- The first `k` rounds of the loop of `sys_munmap`. -/
def munmapLoop (s : MmState) (addr : UInt64) (k : Nat) : MmState :=
  (List.range k).foldl (fun s i => pmmFree s (unmapAddr addr i)) s

def sysMunmap (s : MmState) (addr len : UInt64) : Int × MmState :=
  (0, munmapLoop s addr (pageCount len.toNat))

/-- The loop of `sys_brk`, which stops when no page is left. -/
def brkLoop : Nat → MmState → Nat → Nat × MmState
  | 0, s, userHeapEnd => (userHeapEnd, s)
  | k + 1, s, userHeapEnd =>
    let r := pmmAlloc s
    if r.1 = 0 then (userHeapEnd, r.2) else brkLoop k r.2 ((userHeapEnd + 4096) % 2 ^ 64)

/-- `sys_brk`, with `user_heap_end`, and the address of `__heap_end` as an argument. The
    result is `user_heap_end` on every path. -/
def sysBrk (heapEnd : Nat) (s : MmState) (userHeapEnd : Nat) (addr : UInt64) : Nat × MmState :=
  let userHeapEnd := if userHeapEnd = 0 then heapEnd else userHeapEnd
  if addr = 0 then (userHeapEnd, s)
  else if userHeapEnd < addr.toNat then brkLoop (pageCount (addr.toNat - userHeapEnd)) s userHeapEnd
  else (userHeapEnd, s)

/-! ## Runs -/

/-- The allocator, `user_heap_end`, and by page number the caller that has a page mapped. -/
structure UserState where
  mm : MmState
  userHeapEnd : Nat
  mapped : Nat → Option Nat

/-- A system call of some caller, or a use of the allocator by the kernel. -/
inductive MemOp where
  | mmap (caller : Nat) (len : UInt64)
  | munmap (caller : Nat) (addr len : UInt64)
  | brk (caller : Nat) (addr : UInt64)
  | kernelAlloc (n : Nat)
  | kernelFree (paddr : Nat)
  | kernelStore (x : Nat) (v : BitVec 8)
deriving DecidableEq, Repr

/-- The managed page that `pmm_free` acts on. -/
def pageAt (s : MmState) (paddr : Nat) : Option Nat :=
  if paddr < s.physBase then none
  else if s.totalPages ≤ (paddr - s.physBase) / 4096 then none
  else some ((paddr - s.physBase) / 4096)

/-- The managed pages of the first `k` rounds of `sys_munmap`. -/
def unmapPages (s : MmState) (addr : UInt64) (k : Nat) : List Nat :=
  (List.range k).filterMap fun i => pageAt s (unmapAddr addr i)

/-- The pages that were free in `s` and are not in `s'` are now the caller's. -/
def claimPages (s s' : MmState) (caller : Nat) (mapped : Nat → Option Nat) : Nat → Option Nat := fun idx =>
  if idx < s.totalPages ∧ s.pageBit idx = true ∧ s'.pageBit idx = false then some caller else mapped idx

/-- One step. The kernel frees no page that a caller has mapped, and writes the bitmap
    through the allocator only. -/
def memStep (heapEnd : Nat) (s : UserState) : MemOp → Option UserState
  | .mmap caller len =>
    some
      { s with
        mm := (sysMmap s.mm len).2
        mapped := claimPages s.mm (pmmAllocN s.mm (pageCount len.toNat)).2 caller s.mapped }
  | .munmap _ addr len =>
    some
      { s with
        mm := (sysMunmap s.mm addr len).2
        mapped := fun idx => if idx ∈ unmapPages s.mm addr (pageCount len.toNat) then none else s.mapped idx }
  | .brk _ addr =>
    let r := sysBrk heapEnd s.mm s.userHeapEnd addr
    some { s with mm := r.2, userHeapEnd := r.1 }
  | .kernelAlloc n => some { s with mm := (pmmAllocN s.mm n).2 }
  | .kernelFree paddr =>
    match pageAt s.mm paddr with
    | some idx => if s.mapped idx = none then some { s with mm := pmmFree s.mm paddr } else none
    | none => some { s with mm := pmmFree s.mm paddr }
  | .kernelStore x v =>
    if s.mm.pageBitmap ≤ x ∧ x < s.mm.pageBitmap + s.mm.bitmapBytes then none
    else some { s with mm := { s.mm with mem := storeBytes s.mm.mem x 1 v.toNat } }

/-- How many managed pages became free. -/
def newlyFree (s s' : MmState) : Nat := (List.range s.totalPages).countP fun idx => !s.pageBit idx && s'.pageBit idx

/-- A system call frees no page in use but those its caller has mapped, and counts no page
    as freed that was free before. -/
def ReleasesOwn (s : UserState) (op : MemOp) (s' : UserState) : Prop :=
  match op with
  | .munmap caller _ _ =>
    (∀ idx, idx < s.mm.totalPages → s.mm.pageBit idx = false → s'.mm.pageBit idx = true →
      s.mapped idx = some caller) ∧
    s'.mm.freePages % 2 ^ 64 = (s.mm.freePages + newlyFree s.mm s'.mm) % 2 ^ 64
  | .mmap _ _ | .brk _ _ => ∀ idx, s.mm.pageBit idx = false → s'.mm.pageBit idx = false
  | _ => True

/-- Every managed page in the range given to `sys_munmap` is one that the caller has mapped. -/
def UnmapsOwn (s : UserState) : MemOp → Prop
  | .munmap caller addr len =>
    ∀ idx ∈ unmapPages s.mm addr (pageCount len.toNat), s.mapped idx = some caller
  | _ => True

def userStart (mm : MmState) : UserState where
  mm := mm
  userHeapEnd := 0
  mapped := fun _ => none

/-! ## Taking pages -/

/-- Bits are only ever cleared. -/
structure Cleared (s s' : MmState) : Prop where
  range : SameRange s s'
  bits : ∀ idx, s.pageBit idx = false → s'.pageBit idx = false

theorem Cleared.refl (s : MmState) : Cleared s s := ⟨SameRange.refl s, fun _ h => h⟩

theorem Cleared.trans {s s' s'' : MmState} (h : Cleared s s') (h' : Cleared s' s'') : Cleared s s'' :=
  ⟨h.range.trans h'.range, fun idx hidx => h'.bits idx (h.bits idx hidx)⟩

theorem Cleared.of_took {s s' : MmState} {start n : Nat} (h : Took s start n s') : Cleared s s' := by
  refine ⟨h.same.range, fun idx hidx => ?_⟩
  rw [h.bits, hidx]
  rfl

theorem pmmAlloc_cleared (s : MmState) : Cleared s (pmmAlloc s).2 := by
  rcases pmmAlloc_cases s with ⟨he, _⟩ | ⟨idx, s', he, htook, _⟩
  · rw [he]
    exact Cleared.refl s
  · rw [he]
    exact Cleared.of_took htook

theorem takeRun_cleared (s : MmState) (start n : Nat) : Cleared s (takeRun s start n) := by
  induction n with
  | zero => exact Cleared.refl s
  | succ n ih =>
    unfold takeRun at ih ⊢
    rw [List.range_succ, List.foldl_append]
    refine ih.trans ⟨⟨rfl, rfl, rfl⟩, fun idx hidx => ?_⟩
    rw [List.foldl_cons, List.foldl_nil, MmState.pageBit_clearBit, hidx]
    rfl

/-- `pmm_alloc_n` clears bits only, whatever number it is asked for. -/
theorem pmmAllocN_cleared (s : MmState) (n : Nat) : Cleared s (pmmAllocN s n).2 := by
  have hscan : ∀ k start, Cleared s (pmmAllocNScan s n k start).2 := by
    intro k
    induction k with
    | zero => exact fun start => Cleared.refl s
    | succ k ih =>
      intro start
      unfold pmmAllocNScan
      split
      · exact (takeRun_cleared s start n).trans ⟨⟨rfl, rfl, rfl⟩, fun idx hidx => hidx⟩
      · exact ih (start + 1)
  unfold pmmAllocN
  split
  · exact Cleared.refl s
  · split
    · exact pmmAlloc_cleared s
    · exact hscan _ 0

/-- A page bit is a bit of one byte of memory. -/
theorem pageBit_eq (s : MmState) (idx : Nat) :
    s.pageBit idx = (s.mem (s.pageBitmap + 8 * (idx / 64) + idx % 64 / 8)).getLsbD (idx % 64 % 8) := by
  have hlt : idx % 64 / 8 < 8 := by omega
  rw [MmState.pageBit, MmState.word, BitVec.getLsbD_ofNat, load64, testBit_loadBytes]
  simp [hlt, Nat.mod_lt]

/-- Zeroing memory can only clear page bits. -/
theorem fillBytes_cleared (s : MmState) (a n : Nat) : Cleared s { s with mem := fillBytes s.mem a n 0 } := by
  refine ⟨⟨rfl, rfl, rfl⟩, fun idx hidx => ?_⟩
  rw [pageBit_eq] at hidx ⊢
  simp only [fillBytes]
  split
  · simp
  · exact hidx

theorem sysMmap_cleared (s : MmState) (len : UInt64) :
    Cleared (pmmAllocN s (pageCount len.toNat)).2 (sysMmap s len).2 := by
  unfold sysMmap
  simp only
  split
  · exact Cleared.refl _
  · exact fillBytes_cleared _ _ _

theorem brkLoop_cleared (k : Nat) (s : MmState) (userHeapEnd : Nat) : Cleared s (brkLoop k s userHeapEnd).2 := by
  induction k generalizing s userHeapEnd with
  | zero => exact Cleared.refl s
  | succ k ih =>
    have hpage := pmmAlloc_cleared s
    unfold brkLoop
    simp only
    split
    · exact hpage
    · exact hpage.trans (ih _ _)

theorem sysBrk_cleared (heapEnd : Nat) (s : MmState) (userHeapEnd : Nat) (addr : UInt64) :
    Cleared s (sysBrk heapEnd s userHeapEnd addr).2 := by
  unfold sysBrk
  generalize (if userHeapEnd = 0 then heapEnd else userHeapEnd) = userHeapEnd
  simp only
  split
  · exact Cleared.refl s
  · split
    · exact brkLoop_cleared _ _ _
    · exact Cleared.refl s

/-! ## Giving pages back -/

theorem pageAt_lt {s : MmState} {paddr idx : Nat} (h : pageAt s paddr = some idx) :
    s.physBase ≤ paddr ∧ idx = (paddr - s.physBase) / 4096 ∧ idx < s.totalPages := by
  unfold pageAt at h
  split at h
  · cases h
  · split at h
    · cases h
    · have := Option.some.inj h
      omega

theorem pageAt_congr {s s' : MmState} (h : SameRange s s') (paddr : Nat) : pageAt s' paddr = pageAt s paddr := by
  unfold pageAt
  rw [h.physBase, h.totalPages]

/-- `pmm_free` frees the page it acts on, and without one does nothing. -/
theorem pmmFree_pageAt (s : MmState) (paddr : Nat) :
    (pageAt s paddr = none ∧ pmmFree s paddr = s) ∨
      ∃ idx, pageAt s paddr = some idx ∧ Gave s idx (pmmFree s paddr) := by
  unfold pageAt
  rcases pmmFree_cases s paddr with ⟨he, hout⟩ | ⟨hlow, hgave⟩
  · refine Or.inl ⟨?_, he⟩
    split
    · rfl
    · rw [if_pos (by omega)]
  · have hin := hgave.inRange
    exact Or.inr ⟨_, by rw [if_neg (by omega), if_neg (by omega)], hgave⟩

/-- The loop of `sys_munmap` after `k` rounds: the pages it acted on are free, and the
    counter has gone up by one for each. -/
theorem munmapLoop_spec (s : MmState) (addr : UInt64) (k : Nat) :
    SameRange s (munmapLoop s addr k) ∧
      (∀ idx, (munmapLoop s addr k).pageBit idx = (s.pageBit idx || decide (idx ∈ unmapPages s addr k))) ∧
      (munmapLoop s addr k).freePages % 2 ^ 64 = (s.freePages + (unmapPages s addr k).length) % 2 ^ 64 := by
  induction k with
  | zero => exact ⟨SameRange.refl s, fun idx => by simp [munmapLoop, unmapPages], by simp [munmapLoop, unmapPages]⟩
  | succ k ih =>
    obtain ⟨hrange, hbits, hcount⟩ := ih
    have hloop : munmapLoop s addr (k + 1) = pmmFree (munmapLoop s addr k) (unmapAddr addr k) := by
      simp [munmapLoop, List.range_succ]
    have hpages : unmapPages s addr (k + 1) = unmapPages s addr k ++ (pageAt s (unmapAddr addr k)).toList := by
      unfold unmapPages
      rw [List.range_succ, List.filterMap_append]
      cases hat : pageAt s (unmapAddr addr k) <;> simp [hat]
    rw [hloop, hpages]
    rcases pmmFree_pageAt (munmapLoop s addr k) (unmapAddr addr k) with ⟨hat, hsame⟩ | ⟨idx, hat, hgave⟩
    · rw [pageAt_congr hrange] at hat
      rw [hsame, hat]
      simpa using ⟨hrange, hbits, hcount⟩
    · rw [pageAt_congr hrange] at hat
      refine ⟨hrange.trans hgave.same.range, fun j => ?_, ?_⟩
      · rw [hgave.bits, hbits, hat]
        simp [Bool.or_assoc, Bool.decide_or]
      · rw [hgave.count, hat, List.length_append]
        simp only [Option.toList_some, List.length_singleton]
        omega

theorem unmapAddr_inj {s : MmState} {addr : UInt64} {i j idx : Nat} (hi : i < 2 ^ 52) (hj : j < 2 ^ 52)
    (hpi : pageAt s (unmapAddr addr i) = some idx) (hpj : pageAt s (unmapAddr addr j) = some idx) : i = j := by
  obtain ⟨hlow, he, _⟩ := pageAt_lt hpi
  obtain ⟨hlow', he', _⟩ := pageAt_lt hpj
  unfold unmapAddr at *
  omega

/-- The rounds of one call act on different pages: their addresses are a page apart. -/
theorem unmapPages_nodup (s : MmState) (addr : UInt64) {k : Nat} (hk : k ≤ 2 ^ 52) :
    (unmapPages s addr k).Nodup := by
  unfold unmapPages
  refine List.pairwise_filterMap.mpr ?_
  refine List.Pairwise.imp_of_mem ?_ List.nodup_range
  intro i j hi hj hne idx hpi idx' hpj heq
  have hi := List.mem_range.mp hi
  have hj := List.mem_range.mp hj
  exact hne (unmapAddr_inj (by omega) (by omega) hpi (heq ▸ hpj))

theorem unmapPages_lt {s : MmState} {addr : UInt64} {k idx : Nat} (h : idx ∈ unmapPages s addr k) :
    idx < s.totalPages := by
  obtain ⟨i, _, hat⟩ := List.mem_filterMap.mp h
  exact (pageAt_lt hat).2.2

/-- The pages that became free are those acted on that were in use. -/
theorem newlyFree_munmap (s : MmState) (addr : UInt64) {k : Nat} (hk : k ≤ 2 ^ 52) :
    newlyFree s (munmapLoop s addr k) = (unmapPages s addr k).countP fun idx => !s.pageBit idx := by
  unfold newlyFree
  rw [List.countP_eq_length_filter, List.countP_eq_length_filter]
  refine List.Perm.length_eq ((List.perm_ext_iff_of_nodup ?_ ?_).mpr fun idx => ?_)
  · exact List.nodup_range.filter _
  · exact (unmapPages_nodup s addr hk).filter _
  · rw [List.mem_filter, List.mem_filter, List.mem_range, (munmapLoop_spec s addr k).2.1]
    cases hbit : s.pageBit idx with
    | true => simp
    | false =>
      simp only [Bool.not_false, Bool.true_and, Bool.false_or, decide_eq_true_eq, and_true]
      exact ⟨fun h => h.2, fun h => ⟨unmapPages_lt h, h⟩⟩

theorem pageCount_le (len : Nat) : pageCount len ≤ 2 ^ 52 := by
  unfold pageCount
  omega

/-- **What a `sys_munmap` releases**, if every page its caller has mapped is in use: nothing
    but such pages, exactly when it acts on nothing else. -/
theorem munmap_releases_iff {s : MmState} {mapped : Nat → Option Nat} {caller : Nat}
    (hmapped : ∀ idx, mapped idx = some caller → s.pageBit idx = false) (addr : UInt64) {k : Nat} (hk : k ≤ 2 ^ 52) :
    ((∀ idx, idx < s.totalPages → s.pageBit idx = false → (munmapLoop s addr k).pageBit idx = true →
          mapped idx = some caller) ∧
        (munmapLoop s addr k).freePages % 2 ^ 64 =
          (s.freePages + newlyFree s (munmapLoop s addr k)) % 2 ^ 64) ↔
      ∀ idx ∈ unmapPages s addr k, mapped idx = some caller := by
  obtain ⟨_, hbits, hcount⟩ := munmapLoop_spec s addr k
  have hlen : (unmapPages s addr k).length ≤ 2 ^ 52 :=
    (List.length_filterMap_le _ _).trans (by rwa [List.length_range])
  rw [hcount, newlyFree_munmap s addr hk]
  constructor
  · rintro ⟨hfreed, heq⟩ idx hidx
    -- No page was free before, or the counter would have gone up too far.
    have hle : (unmapPages s addr k).countP (fun idx => !s.pageBit idx) ≤ (unmapPages s addr k).length :=
      List.countP_le_length
    have hall : (unmapPages s addr k).countP (fun idx => !s.pageBit idx) = (unmapPages s addr k).length := by
      omega
    have hbit : s.pageBit idx = false := by simpa using List.countP_eq_length.mp hall idx hidx
    exact hfreed idx (unmapPages_lt hidx) hbit (by rw [hbits]; simp [hidx])
  · intro hown
    refine ⟨?_, ?_⟩
    · intro idx _ hbit hbit'
      rw [hbits, hbit] at hbit'
      exact hown idx (by simpa using hbit')
    · have hall : (unmapPages s addr k).countP (fun idx => !s.pageBit idx) = (unmapPages s addr k).length :=
        List.countP_eq_length.mpr fun idx hidx => by simp [hmapped idx (hown idx hidx)]
      rw [hall]

/-! ## The invariant, and the runs -/

/-- What a caller has mapped is a managed page in use. -/
def MappedInUse (s : UserState) : Prop :=
  ∀ idx caller, s.mapped idx = some caller → idx < s.mm.totalPages ∧ s.mm.pageBit idx = false

theorem MappedInUse.cleared {s : UserState} (h : MappedInUse s) {mm : MmState} (hmm : Cleared s.mm mm) (e : Nat) :
    MappedInUse { s with mm := mm, userHeapEnd := e } := by
  intro idx caller hidx
  obtain ⟨hlt, hbit⟩ := h idx caller hidx
  exact ⟨hmm.range.totalPages.symm ▸ hlt, hmm.bits idx hbit⟩

theorem MappedInUse.mmap {s : UserState} (h : MappedInUse s) {t mm : MmState} (ht : Cleared s.mm t)
    (hmm : Cleared t mm) (caller : Nat) :
    MappedInUse { s with mm := mm, mapped := claimPages s.mm t caller s.mapped } := by
  intro idx c hidx
  have htotal : mm.totalPages = s.mm.totalPages := (ht.range.trans hmm.range).totalPages
  simp only [claimPages] at hidx
  split at hidx
  · next hnew => exact ⟨htotal.symm ▸ hnew.1, hmm.bits idx hnew.2.2⟩
  · obtain ⟨hlt, hbit⟩ := h idx c hidx
    exact ⟨htotal.symm ▸ hlt, hmm.bits idx (ht.bits idx hbit)⟩

/-- A store outside the bitmap leaves the bits of the managed pages. -/
theorem pageBit_store {s : MmState} {x : Nat} (hx : ¬(s.pageBitmap ≤ x ∧ x < s.pageBitmap + s.bitmapBytes)) (v : Nat)
    {idx : Nat} (hidx : idx < s.totalPages) :
    MmState.pageBit { s with mem := storeBytes s.mem x 1 v } idx = s.pageBit idx := by
  rw [pageBit_eq, pageBit_eq]
  simp only
  rw [storeBytes_of_notMem]
  unfold MmState.bitmapBytes at hx
  omega

theorem MappedInUse.step {heapEnd : Nat} {s s' : UserState} {op : MemOp} (h : MappedInUse s)
    (hs : memStep heapEnd s op = some s') : MappedInUse s' := by
  cases op with
  | mmap caller len =>
    obtain rfl := Option.some.inj hs
    exact h.mmap (pmmAllocN_cleared s.mm _) (sysMmap_cleared s.mm len) caller
  | munmap caller addr len =>
    obtain rfl := Option.some.inj hs
    obtain ⟨hrange, hbits, _⟩ := munmapLoop_spec s.mm addr (pageCount len.toNat)
    intro idx c hidx
    simp only at hidx
    split at hidx
    · cases hidx
    · next hout =>
      obtain ⟨hlt, hbit⟩ := h idx c hidx
      refine ⟨hrange.totalPages.symm ▸ hlt, (hbits idx).trans ?_⟩
      simp [hbit, hout]
  | brk caller addr =>
    obtain rfl := Option.some.inj hs
    exact h.cleared (sysBrk_cleared heapEnd s.mm s.userHeapEnd addr) _
  | kernelAlloc n =>
    obtain rfl := Option.some.inj hs
    exact h.cleared (pmmAllocN_cleared s.mm n) _
  | kernelFree paddr =>
    unfold memStep at hs
    rcases pmmFree_pageAt s.mm paddr with ⟨hat, hsame⟩ | ⟨idx, hat, hgave⟩
    · simp only [hat, hsame, Option.some.injEq] at hs
      exact hs ▸ h
    · simp only [hat] at hs
      split at hs
      · next hnone =>
        -- the step is only there for a page that nobody has mapped
        obtain rfl := Option.some.inj hs
        intro j c hj
        obtain ⟨hlt, hbit⟩ := h j c hj
        have hne : j ≠ idx := fun he => by simp [he, hnone] at hj
        refine ⟨hgave.same.totalPages.symm ▸ hlt, ?_⟩
        rw [hgave.bits, hbit]
        simp [hne]
      · cases hs
  | kernelStore x v =>
    unfold memStep at hs
    simp only at hs
    split at hs
    · cases hs
    · next hx =>
      obtain rfl := Option.some.inj hs
      intro idx c hidx
      obtain ⟨hlt, hbit⟩ := h idx c hidx
      exact ⟨hlt, (pageBit_store hx _ hlt).trans hbit⟩

theorem MappedInUse.releases_iff {heapEnd : Nat} {s s' : UserState} {op : MemOp} (h : MappedInUse s)
    (hs : memStep heapEnd s op = some s') : ReleasesOwn s op s' ↔ UnmapsOwn s op := by
  cases op with
  | mmap caller len =>
    obtain rfl := Option.some.inj hs
    exact iff_of_true ((pmmAllocN_cleared s.mm _).trans (sysMmap_cleared s.mm len)).bits trivial
  | munmap caller addr len =>
    obtain rfl := Option.some.inj hs
    exact munmap_releases_iff (fun idx hidx => (h idx caller hidx).2) addr (pageCount_le _)
  | brk caller addr =>
    obtain rfl := Option.some.inj hs
    exact iff_of_true (sysBrk_cleared heapEnd s.mm s.userHeapEnd addr).bits trivial
  | kernelAlloc n | kernelFree paddr | kernelStore x v => exact Iff.rfl

theorem mappedInUse_start (mm : MmState) : MappedInUse (userStart mm) := by
  intro idx caller h
  simp [userStart] at h

/-- **The system calls release nothing but what their caller has mapped, throughout a run,
    exactly when every range unmapped holds no other managed page**: from any state of the
    allocator, with the kernel's own calls in between. -/
theorem releases_own_iff (heapEnd : Nat) (mm : MmState) (ops : List MemOp) :
    AlwaysStep (memStep heapEnd) ReleasesOwn (userStart mm) ops ↔
      Meets (memStep heapEnd) UnmapsOwn (userStart mm) ops := by
  apply alwaysStep_iff_meets (I := MappedInUse)
  · intro s op s' h hs
    exact h.step hs
  · intro s op s' h hs
    exact h.releases_iff hs
  · exact mappedInUse_start mm

/-- Four pages, the first of them the bitmap's: a caller that has mapped nothing frees it. -/
theorem releases_bitmap :
    ¬AlwaysStep (memStep 0x50000000) ReleasesOwn (userStart (pmmInit 0 blank 0x41000000 0x4000))
      [.munmap 1 0x41000000 4096] := by
  intro h
  generalize hmm : pmmInit 0 blank 0x41000000 0x4000 = mm at h
  have hs : ∃ s', memStep 0x50000000 (userStart mm) (.munmap 1 0x41000000 4096) = some s' := ⟨_, rfl⟩
  obtain ⟨s', hs⟩ := hs
  have hown := ((mappedInUse_start mm).releases_iff hs).mp (h s' hs).1
  have hmem : 0 ∈ unmapPages mm 0x41000000 (pageCount 4096) := by
    rw [← hmm]
    decide +kernel
  have := hown 0 hmem
  simp [userStart] at this

end Crimson.Syscall
