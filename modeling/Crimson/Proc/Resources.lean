import Crimson.Mm.HeapSafety
import Crimson.Mm.HeapLive
import Crimson.Proc.Family
import Crimson.Proc.Pids

/-!
# What a process holds, and what is given back

`process_create` takes a stack and a file table from the heap and, for a user process, a page
for its page directory; `process_cleanup` gives them back, from addresses of its own. The
memory calls are the kernel's allocators here, with a trace of what each handed out or took
back, and a creation followed by a cleanup is compared with doing nothing (`Conserved`).

What is given back is not what was taken:

* the stack is freed at `ctx.sp - stack_size`, and `ctx.sp` was rounded down to 16 bytes: the
  pointer is `kmalloc`'s only when the stack ends at a multiple of 16;
* the page directory is freed by `vmm_free_all` and then by `process_cleanup` again;
* the pages that `kmalloc` asks for when it finds no block stay with the heap.

`conserved_iff` is the exact condition on the heap and the attributes.
-/

set_option autoImplicit false

namespace Crimson.Proc

open Crimson.Lib Crimson.Mm Crimson.Sched

/-- A call of an allocator, with the address it returned or was given. -/
inductive MemEvent where
  | kmalloc (ptr : Nat)
  | kfree (ptr : Nat)
  | pmmAlloc (page : Nat)
  | pmmFree (page : Nat)
deriving DecidableEq, Repr

/-- The allocators' state, and the calls so far: the last one first. -/
structure KernelMem where
  mm : MmState
  trace : List MemEvent

def KernelMem.free (k : KernelMem) (page : Nat) : KernelMem where
  mm := Mm.pmmFree k.mm page
  trace := .pmmFree page :: k.trace

/-- The loop over the entries of one table, with what is done at each valid one. -/
def freeEntries (below : KernelMem → Nat → KernelMem) (k : KernelMem) (table : Nat) : KernelMem :=
  (List.range 512).foldl
    (fun k i =>
      if entry k.mm.mem table i &&& ptValid = 0#64 then k else below k (tableOf (entry k.mm.mem table i))) k

/-- A table page, after what is below it. -/
def freeTable (below : KernelMem → Nat → KernelMem) (k : KernelMem) (table : Nat) : KernelMem :=
  (freeEntries below k table).free table

/-- `vmm_free_all`: the mapped pages, the tables from the last level up, the page directory. -/
def vmmFreeAll (k : KernelMem) (pgd : Nat) : KernelMem :=
  if pgd = 0 then k else freeTable (freeTable (freeTable (freeTable KernelMem.free))) k pgd

/-- The memory calls of `process.c`, made to the kernel's allocators. -/
def kernelOps : MemOps KernelMem where
  kmalloc k size := (Mm.kmalloc k.mm size).map fun r => (r.1, ⟨r.2, .kmalloc r.1 :: k.trace⟩)
  kcalloc k nmemb size := (Mm.kcalloc k.mm nmemb size).map fun r => (r.1, ⟨r.2, .kmalloc r.1 :: k.trace⟩)
  kfree k ptr := ⟨Mm.kfree k.mm ptr, .kfree ptr :: k.trace⟩
  pmmAlloc k := ((Mm.pmmAlloc k.mm).1, ⟨(Mm.pmmAlloc k.mm).2, .pmmAlloc (Mm.pmmAlloc k.mm).1 :: k.trace⟩)
  pmmFree := KernelMem.free
  vmmInit k pgd := { k with mm := { k.mm with mem := Mm.vmmInit k.mm.mem pgd } }
  vmmFreeAll := vmmFreeAll

/-- **Nothing is kept and nothing is lost**: the live allocations, the allocated pages and
    `pmm_get_free_pages` are as before, and of what was handed out in between each thing was
    taken back once. -/
structure Conserved (k k' : KernelMem) : Prop where
  allocs : liveAllocs k'.mm = liveAllocs k.mm
  pages : ∀ idx, idx < k.mm.totalPages → k'.mm.pageBit idx = k.mm.pageBit idx
  count : pmmGetFreePages k'.mm = pmmGetFreePages k.mm
  once : ∃ t, k'.trace = t ++ k.trace ∧ ∀ p, p ≠ 0 →
    t.count (.kfree p) = t.count (.kmalloc p) ∧ t.count (.pmmFree p) = t.count (.pmmAlloc p)

section

variable {μ : Type}

/-- `process_create`, and `process_cleanup` of the process it has made. -/
def createThenCleanup (ops : MemOps μ) (s : ProcTable μ) (attr : ProcessAttr) : Option (ProcTable μ) :=
  match processCreate ops s (some attr), freeSlot s with
  | some (pid, t), some slot => some (if pid < 0 then t else processCleanup ops t slot)
  | some (_, t), none => some t
  | none, _ => none

/-! ## The round as the allocators see it -/

/-- What `process_cleanup` gives back. -/
def cleanupMem (ops : MemOps μ) (m : μ) (base pgd fdTable : Nat) : μ :=
  let m := if base ≠ 0 then ops.kfree m base else m
  let m := if pgd ≠ 0 then ops.pmmFree (ops.vmmFreeAll m pgd) pgd else m
  if fdTable ≠ 0 then ops.kfree m fdTable else m

/-- The memory calls after the stack and the page directory. -/
def finishMem (ops : MemOps μ) (m : μ) (base pgd : Nat) : Option μ :=
  (ops.kcalloc m 1 fdTableSize).map fun r => cleanupMem ops r.2 base pgd r.1

/-- The memory calls after the stack. -/
def pgdMem (ops : MemOps μ) (m : μ) (attr : ProcessAttr) (base : Nat) : Option μ :=
  if attr.flags &&& procFlagUser ≠ 0#32 then
    if (ops.pmmAlloc m).1 = 0 then some (ops.kfree (ops.pmmAlloc m).2 base)
    else finishMem ops (ops.vmmInit (ops.pmmAlloc m).2 (ops.pmmAlloc m).1) base (ops.pmmAlloc m).1
  else finishMem ops m base 0

/-- The memory calls of a creation and a cleanup. -/
def roundMem (ops : MemOps μ) (m : μ) (attr : ProcessAttr) : Option μ :=
  (ops.kmalloc m attr.stackSize).bind fun r =>
    if (r.1 + attr.stackSize) % 2 ^ 64 = attr.stackSize % 2 ^ 64 then some r.2
    else
      pgdMem ops r.2 attr
        (stackStart ((r.1 + attr.stackSize) % 2 ^ 64 / 16 * 16) attr.stackSize)

theorem processCleanup_cleanupMem (ops : MemOps μ) (s : ProcTable μ) (p : ProcRef) :
    (processCleanup ops s p).mem =
      cleanupMem ops s.mem (s.info p).stackBase (s.info p).pgd (s.info p).fdTable := by
  have hfree : ∀ (t : ProcTable μ) (pid : Int), ((freePid t pid).setState p .unused).mem = t.mem := by
    intro t pid
    obtain ⟨bitmap, hfree⟩ := freePid_same t pid
    rw [hfree]
    rfl
  unfold processCleanup cleanupMem
  rw [hfree]
  by_cases hstack : (s.info p).stackBase = 0 <;> by_cases hpgd : (s.info p).pgd = 0 <;>
    by_cases hfd : (s.info p).fdTable = 0 <;>
    simp only [ne_eq, hstack, hpgd, hfd, not_true_eq_false, not_false_eq_true, if_true, if_false]

/-- A call that gives the slot back at once, having made the calls it made. -/
theorem abandonSlot_mem (s : ProcTable μ) (p : ProcRef) (pid : Int) : (abandonSlot s p pid).mem = s.mem := by
  obtain ⟨bitmap, hfree⟩ := freePid_same s pid
  unfold abandonSlot
  rw [hfree]
  rfl

/-- The end of a creation, and the cleanup: what `process_cleanup` finds in the slot. -/
theorem createFinish_cleanup (ops : MemOps μ) (s : ProcTable μ) (p : ProcRef) (attr : ProcessAttr) :
    ((createFinish ops s p attr).map fun t => (processCleanup ops t p).mem) =
      finishMem ops s.mem (stackStart (s.info p).ctxSp attr.stackSize) (s.info p).pgd := by
  unfold createFinish finishMem
  dsimp only [ProcTable.modInfo]
  cases hfd : ops.kcalloc s.mem 1 fdTableSize with
  | none => rfl
  | some r =>
    simp only [Option.map_some, processCleanup_cleanupMem, Function.update_self]

/-- A creation from the page directory on, and the cleanup. -/
theorem createPgd_cleanup (ops : MemOps μ) (s : ProcTable μ) (p : ProcRef) (attr : ProcessAttr) :
    (match createPgd ops s p attr with
      | (false, t) => some (ops.kfree t.mem (stackStart (t.info p).ctxSp attr.stackSize))
      | (true, t) => (createFinish ops t p attr).map fun u => (processCleanup ops u p).mem) =
      pgdMem ops s.mem attr (stackStart (s.info p).ctxSp attr.stackSize) := by
  unfold createPgd pgdMem
  by_cases huser : attr.flags &&& procFlagUser ≠ 0#32
  · simp only [if_pos huser]
    by_cases hpgd : (ops.pmmAlloc s.mem).1 = 0
    · simp [ProcTable.modInfo, hpgd]
    · simp only [if_neg hpgd, createFinish_cleanup, ProcTable.modInfo, Function.update_self]
  · simp only [if_neg huser, createFinish_cleanup, ProcTable.modInfo, Function.update_self]

/-- Once the slot and the PID are taken, the calls are those of `roundMem`. -/
theorem createThenCleanup_taken {ops : MemOps μ} {s : ProcTable μ} {attr : ProcessAttr} {p : ProcRef}
    (ht : TakesSlot s (some attr) p) :
    (createThenCleanup ops s attr).map ProcTable.mem = roundMem ops s.mem attr := by
  obtain ⟨⟨a, ha, hentry⟩, hslot, hpid⟩ := ht
  obtain rfl := Option.some.inj ha
  have hpid : ¬(allocPid s).1 < 0 := by omega
  have hfail : -statusNomem < 0 := by decide
  have hmem : (initSlot (allocPid s).2 p (allocPid s).1 attr).mem = s.mem := by
    show (allocPid s).2.mem = s.mem
    unfold allocPid
    split <;> rfl
  unfold createThenCleanup processCreate
  simp only [if_neg hentry, hslot, if_neg hpid]
  unfold roundMem
  rw [← hmem]
  generalize initSlot (allocPid s).2 p (allocPid s).1 attr = t
  cases hstack : ops.kmalloc t.mem attr.stackSize with
  | none => rfl
  | some r =>
    simp only [Option.bind_some]
    by_cases hnull : (r.1 + attr.stackSize) % 2 ^ 64 = attr.stackSize % 2 ^ 64
    · simp only [if_pos hnull, if_pos hfail, Option.map_some, abandonSlot_mem]
    · have hround := createPgd_cleanup ops (setStack { t with mem := r.2 } p ((r.1 + attr.stackSize) % 2 ^ 64)) p attr
      have hsp : ((setStack { t with mem := r.2 } p ((r.1 + attr.stackSize) % 2 ^ 64)).info p).ctxSp =
          (r.1 + attr.stackSize) % 2 ^ 64 / 16 * 16 := by
        simp [setStack, ProcTable.modInfo]
      rw [hsp] at hround
      simp only [if_neg hnull]
      refine Eq.trans ?_ hround
      rcases createPgd ops (setStack { t with mem := r.2 } p ((r.1 + attr.stackSize) % 2 ^ 64)) p attr with ⟨_ | _, u⟩
      · simp only [if_pos hfail, Option.map_some, abandonSlot_mem]
      · dsimp only
        cases createFinish ops u p attr with
        | none => rfl
        | some v => simp only [Option.map_some, if_neg hpid]

/-- Without a slot or a PID for it, nothing is called. -/
theorem createThenCleanup_refused {ops : MemOps μ} {s : ProcTable μ} {attr : ProcessAttr}
    (hno : ¬∃ p, TakesSlot s (some attr) p) : createThenCleanup ops s attr = some s := by
  unfold createThenCleanup processCreate
  by_cases hentry : attr.entry = 0
  · have hfail : -statusInval < 0 := by decide
    simp only [if_pos hentry]
    cases freeSlot s with
    | none => rfl
    | some p => simp only [if_pos hfail]
  simp only [if_neg hentry]
  have hfail : -statusNomem < 0 := by decide
  cases hslot : freeSlot s with
  | none => rfl
  | some p =>
    have hpid : (allocPid s).1 < 0 := by
      by_contra hpid
      exact hno ⟨p, ⟨attr, rfl, hentry⟩, hslot, by omega⟩
    simp only [if_pos hpid, if_pos hfail, allocPid_refused hpid]

end

/-! ## When the round conserves -/

/-- After the stack, a user process gets no page, and a kernel process finds a block for its
    file table or gets no page for one. -/
def RestKeeps (s : MmState) (attr : ProcessAttr) : Prop :=
  if attr.flags &&& procFlagUser ≠ 0#32 then NoPages s 1
  else kmallocSearch s fdTableSize ≠ some .exhausted ∨ NoPages s 1

/-- The stack's block is found, and ends at a multiple of 16, and so on; or no block is found
    for the stack, and no pages. -/
def RoundKeeps (s : MmState) (attr : ProcessAttr) : Prop :=
  match kmallocSearch s attr.stackSize with
  | some (.found a) =>
    (a + 24 + attr.stackSize) % 16 = 0 ∧
      RestKeeps { s with mem := carve s.mem a (alignUp attr.stackSize 16) } attr
  | _ => NoPages s (pagesNeeded (alignUp attr.stackSize 16))

/-- `ctx.sp - stack_size`: the pointer `kmalloc` returned, less what the rounding took off. -/
theorem stackStart_eq {q size : Nat} (hlow : 16 ≤ q) (htop : q < 2 ^ 64) :
    stackStart ((q + size) % 2 ^ 64 / 16 * 16) size = q - (q + size) % 16 := by
  unfold stackStart
  omega

/-- What was taken and given back since `k`, in all. -/
theorem Conserved.counts {k k' : KernelMem} (h : Conserved k k') {t : List MemEvent}
    (ht : k'.trace = t ++ k.trace) {p : Nat} (hp : p ≠ 0) :
    t.count (.kfree p) = t.count (.kmalloc p) ∧ t.count (.pmmFree p) = t.count (.pmmAlloc p) := by
  obtain ⟨t', ht', hcounts⟩ := h.once
  obtain rfl : t = t' := List.append_cancel_right (ht.symm.trans ht')
  exact hcounts p hp

/-! ### The page directory is freed twice -/

/-- `k'` has made calls of `pmm_free` that `k` had not, and no others. -/
def OnlyFrees (k k' : KernelMem) : Prop :=
  ∃ t, k'.trace = t ++ k.trace ∧ ∀ e ∈ t, ∃ p, e = .pmmFree p

theorem OnlyFrees.refl (k : KernelMem) : OnlyFrees k k := ⟨[], rfl, fun e he => absurd he (by simp)⟩

theorem OnlyFrees.trans {k₁ k₂ k₃ : KernelMem} (h : OnlyFrees k₁ k₂) (h' : OnlyFrees k₂ k₃) : OnlyFrees k₁ k₃ := by
  obtain ⟨t, ht, hfrees⟩ := h
  obtain ⟨t', ht', hfrees'⟩ := h'
  refine ⟨t' ++ t, by rw [ht', ht, List.append_assoc], ?_⟩
  intro e he
  rcases List.mem_append.mp he with he | he
  · exact hfrees' e he
  · exact hfrees e he

theorem onlyFrees_free (k : KernelMem) (page : Nat) : OnlyFrees k (k.free page) := by
  refine ⟨[.pmmFree page], rfl, ?_⟩
  intro e he
  exact ⟨page, List.mem_singleton.mp he⟩

theorem onlyFrees_freeEntries {below : KernelMem → Nat → KernelMem}
    (hbelow : ∀ k table, OnlyFrees k (below k table)) (k : KernelMem) (table : Nat) :
    OnlyFrees k (freeEntries below k table) := by
  unfold freeEntries
  generalize List.range 512 = is
  induction is generalizing k with
  | nil => exact OnlyFrees.refl k
  | cons i is ih =>
    rw [List.foldl_cons]
    refine OnlyFrees.trans ?_ (ih _)
    split
    · exact OnlyFrees.refl k
    · exact hbelow k _

theorem onlyFrees_freeTable {below : KernelMem → Nat → KernelMem}
    (hbelow : ∀ k table, OnlyFrees k (below k table)) (k : KernelMem) (table : Nat) :
    OnlyFrees k (freeTable below k table) :=
  (onlyFrees_freeEntries hbelow k table).trans (onlyFrees_free _ _)

/-- `vmm_free_all` ends in freeing the page directory. -/
theorem vmmFreeAll_trace (k : KernelMem) {pgd : Nat} (hpgd : pgd ≠ 0) :
    ∃ t, (vmmFreeAll k pgd).trace = .pmmFree pgd :: t ++ k.trace ∧ ∀ e ∈ t, ∃ p, e = .pmmFree p := by
  unfold vmmFreeAll
  rw [if_neg hpgd]
  obtain ⟨t, ht, hfrees⟩ := onlyFrees_freeEntries
    (onlyFrees_freeTable (onlyFrees_freeTable (onlyFrees_freeTable onlyFrees_free))) k pgd
  refine ⟨t, ?_, hfrees⟩
  show MemEvent.pmmFree pgd :: _ = _
  rw [ht]
  rfl

/-- A page directory taken since `k` is given back twice. -/
theorem finishMem_twice {k k₁ k' : KernelMem} {base pgd q : Nat} (hpgd : pgd ≠ 0)
    (htrace : k₁.trace = [.pmmAlloc pgd, .kmalloc q] ++ k.trace) (h : finishMem kernelOps k₁ base pgd = some k') :
    ¬Conserved k k' := by
  obtain ⟨⟨fd, k₂⟩, hfd, rfl⟩ := Option.map_eq_some_iff.mp h
  obtain ⟨⟨fd', mm⟩, -, hr⟩ := Option.map_eq_some_iff.mp hfd
  obtain ⟨rfl, rfl⟩ := Prod.mk.inj hr
  -- The calls, and how often the page directory is among them.
  have hcalls : ∃ t, (cleanupMem kernelOps ⟨mm, .kmalloc fd' :: k₁.trace⟩ base pgd fd').trace = t ++ k.trace ∧
      2 ≤ t.count (.pmmFree pgd) ∧ t.count (.pmmAlloc pgd) = 1 := by
    unfold cleanupMem
    simp only [if_pos hpgd]
    have hstack : ∃ l : List MemEvent, (if base ≠ 0 then kernelOps.kfree ⟨mm, .kmalloc fd' :: k₁.trace⟩ base
          else ⟨mm, .kmalloc fd' :: k₁.trace⟩).trace = l ++ k.trace ∧ l.count (.pmmAlloc pgd) = 1 := by
      split
      · refine ⟨[.kfree base, .kmalloc fd', .pmmAlloc pgd, .kmalloc q], ?_, by simp⟩
        show MemEvent.kfree base :: .kmalloc fd' :: k₁.trace = _
        rw [htrace]
        rfl
      · refine ⟨[.kmalloc fd', .pmmAlloc pgd, .kmalloc q], ?_, by simp⟩
        show MemEvent.kmalloc fd' :: k₁.trace = _
        rw [htrace]
        rfl
    obtain ⟨l, hl, hcount⟩ := hstack
    generalize (if base ≠ 0 then kernelOps.kfree ⟨mm, .kmalloc fd' :: k₁.trace⟩ base
      else ⟨mm, .kmalloc fd' :: k₁.trace⟩) = k₃ at hl
    obtain ⟨t, ht, hfrees⟩ := vmmFreeAll_trace k₃ hpgd
    have halloc : t.count (.pmmAlloc pgd) = 0 := by
      refine List.count_eq_zero.mpr fun hmem => ?_
      obtain ⟨p, hp⟩ := hfrees _ hmem
      exact absurd hp (by simp)
    have hafter : (kernelOps.pmmFree (kernelOps.vmmFreeAll k₃ pgd) pgd).trace =
        (.pmmFree pgd :: .pmmFree pgd :: t ++ l) ++ k.trace := by
      show MemEvent.pmmFree pgd :: (vmmFreeAll k₃ pgd).trace = _
      rw [ht, hl]
      simp
    split
    · refine ⟨.kfree fd' :: (.pmmFree pgd :: .pmmFree pgd :: t ++ l), ?_, ?_, ?_⟩
      · show MemEvent.kfree fd' :: _ = _
        rw [hafter]
        rfl
      · simp
      · simp [halloc, hcount]
    · exact ⟨_, hafter, by simp, by simp [halloc, hcount]⟩
  obtain ⟨t, ht, htwo, hone⟩ := hcalls
  intro hcons
  have hcount := (hcons.counts ht hpgd).2
  omega

/-! ### The stack's pointer, and the pages of the heap -/

/-- The cleanup of a kernel process counts no pages. -/
theorem cleanupMem_freePages (k : KernelMem) (base fd : Nat) :
    (cleanupMem kernelOps k base 0 fd).mm.freePages = k.mm.freePages := by
  have hkfree : ∀ (k : KernelMem) (p : Nat), (kernelOps.kfree k p).mm.freePages = k.mm.freePages :=
    fun k p => kfree_freePages k.mm p
  unfold cleanupMem
  simp only [not_true_eq_false, ne_eq, if_false]
  split <;> split <;> simp only [hkfree]

/-- **A stack freed at another address is not freed.** -/
theorem pgdMem_misaligned {k k₁ k' : KernelMem} {attr : ProcessAttr} {q base : Nat} (hq : q ≠ 0) (hbase : base ≠ q)
    (hbase₀ : base ≠ 0) (htrace : k₁.trace = .kmalloc q :: k.trace) (h : pgdMem kernelOps k₁ attr base = some k') :
    ¬Conserved k k' := by
  intro hcons
  unfold pgdMem at h
  split at h
  case isTrue huser =>
    split at h
    case isTrue hpgd =>
      -- `q` is allocated in the trace and never freed
      have ht : k'.trace = [.kfree base, .pmmAlloc 0, .kmalloc q] ++ k.trace := by
        rw [← Option.some.inj h]
        show MemEvent.kfree base :: .pmmAlloc (kernelOps.pmmAlloc k₁).1 :: k₁.trace = _
        rw [hpgd, htrace]
        rfl
      have hcount := (hcons.counts ht hq).1
      simp [hbase] at hcount
    case isFalse hpgd =>
      refine @finishMem_twice k _ k' base _ q hpgd ?_ h hcons
      show MemEvent.pmmAlloc (kernelOps.pmmAlloc k₁).1 :: k₁.trace = _
      rw [htrace]
      rfl
  case isFalse huser =>
    obtain ⟨⟨fd, k₂⟩, hfd, rfl⟩ := Option.map_eq_some_iff.mp h
    obtain ⟨⟨fd', mm⟩, -, hr⟩ := Option.map_eq_some_iff.mp hfd
    obtain ⟨rfl, rfl⟩ := Prod.mk.inj hr
    by_cases hfd₀ : fd' = 0
    · have ht : (cleanupMem kernelOps ⟨mm, .kmalloc fd' :: k₁.trace⟩ base 0 fd').trace =
          [.kfree base, .kmalloc fd', .kmalloc q] ++ k.trace := by
        unfold cleanupMem
        simp only [ne_eq, hfd₀, not_true_eq_false, if_false, if_pos hbase₀]
        show MemEvent.kfree base :: .kmalloc 0 :: k₁.trace = _
        rw [htrace]
        rfl
      have hcount := (hcons.counts ht hq).1
      have hzero : List.count (MemEvent.kfree q) [.kfree base, .kmalloc fd', .kmalloc q] = 0 := by simp [hbase]
      have hpos : 0 < List.count (MemEvent.kmalloc q) [.kfree base, .kmalloc fd', .kmalloc q] :=
        List.count_pos_iff.mpr (by simp)
      omega
    · have ht : (cleanupMem kernelOps ⟨mm, .kmalloc fd' :: k₁.trace⟩ base 0 fd').trace =
          [.kfree fd', .kfree base, .kmalloc fd', .kmalloc q] ++ k.trace := by
        unfold cleanupMem
        simp only [ne_eq, not_true_eq_false, if_false, if_pos hbase₀, if_pos hfd₀]
        show MemEvent.kfree fd' :: .kfree base :: .kmalloc fd' :: k₁.trace = _
        rw [htrace]
        rfl
      have hcount := (hcons.counts ht hq).1
      simp only [List.count_cons, List.count_nil, beq_iff_eq, reduceCtorEq, MemEvent.kfree.injEq,
        MemEvent.kmalloc.injEq, hbase, if_false, if_true] at hcount
      omega

/-- The pages counted off after the stack, if the page directory was not freed twice. -/
theorem pgdMem_freePages {k k₁ k' : KernelMem} {attr : ProcessAttr} {q base : Nat}
    (htrace : k₁.trace = .kmalloc q :: k.trace) (h : pgdMem kernelOps k₁ attr base = some k')
    (hcons : Conserved k k') :
    RestKeeps k₁.mm attr ∧ k'.mm.freePages = k₁.mm.freePages ∨
      ¬RestKeeps k₁.mm attr ∧ k₁.mm.freePages ≠ 0 ∧ k'.mm.freePages = sub64 k₁.mm.freePages 1 := by
  unfold pgdMem at h
  unfold RestKeeps
  by_cases huser : attr.flags &&& procFlagUser ≠ 0#32
  · rw [if_pos huser] at h ⊢
    by_cases hpgd : (kernelOps.pmmAlloc k₁).1 = 0
    · rw [if_pos hpgd] at h
      have hcount : k'.mm.freePages = (pmmAlloc k₁.mm).2.freePages := by
        rw [← Option.some.inj h]
        exact kfree_freePages _ base
      by_cases hno : NoPages k₁.mm 1
      · exact Or.inl ⟨hno, hcount.trans hno⟩
      · rcases noPages_one k₁.mm with hno' | ⟨hne, he⟩
        · exact absurd hno' hno
        · exact Or.inr ⟨hno, hne, hcount.trans he⟩
    · rw [if_neg hpgd] at h
      refine absurd hcons (@finishMem_twice k _ k' base _ q hpgd ?_ h)
      show MemEvent.pmmAlloc (kernelOps.pmmAlloc k₁).1 :: k₁.trace = _
      rw [htrace]
      rfl
  · rw [if_neg huser] at h ⊢
    obtain ⟨⟨fd, k₂⟩, hfd, rfl⟩ := Option.map_eq_some_iff.mp h
    obtain ⟨⟨fd', mm⟩, hkc, hr⟩ := Option.map_eq_some_iff.mp hfd
    obtain ⟨rfl, rfl⟩ := Prod.mk.inj hr
    rw [cleanupMem_freePages]
    rcases kcalloc_pages (by decide) (by decide) hkc with ⟨a, hw, -, hmm⟩ | ⟨hw, -, hmm⟩ | ⟨hw, hno, hne, hcount⟩
    · refine Or.inl ⟨Or.inl (by rw [hw]; simp), ?_⟩
      dsimp only
      rw [hmm]
      split <;> rfl
    · refine Or.inl ⟨?_, by dsimp only; rw [hmm]⟩
      rcases hw with ⟨a, hw⟩ | ⟨-, hno⟩
      · exact Or.inl (by rw [hw]; simp)
      · exact Or.inr hno
    · refine Or.inr ⟨?_, hne, hcount⟩
      rintro (hor | hor)
      · exact hor hw
      · exact hno hor

/-- **A stack that can be given back**: the round conserves exactly when the rest keeps. -/
theorem pgdMem_conserved {k : KernelMem} {s : MmState} {attr : ProcessAttr} {q : Nat} (hq : q ≠ 0)
    (hgrant : Granted k.mm q s) :
    (∃ k', pgdMem kernelOps ⟨s, .kmalloc q :: k.trace⟩ attr q = some k' ∧ Conserved k k') ↔ RestKeeps s attr := by
  constructor
  · rintro ⟨k', hk', hcons⟩
    rcases pgdMem_freePages rfl hk' hcons with ⟨hrest, -⟩ | ⟨-, hne, hcount⟩
    · exact hrest
    · -- a page was taken, and the count of free pages shows that it is still missing
      have hsame : k'.mm.freePages = s.freePages := hcons.count.trans hgrant.count.symm
      dsimp only at hne hcount
      rw [hsame] at hcount
      unfold sub64 at hcount
      omega
  · intro hrest
    unfold RestKeeps at hrest
    unfold pgdMem
    by_cases huser : attr.flags &&& procFlagUser ≠ 0#32
    · -- a user process, for which there is no page: the stack is freed again
      rw [if_pos huser] at hrest ⊢
      have halloc : pmmAlloc s = (0, s) := hrest.eq (by decide)
      have hcall : kernelOps.pmmAlloc ⟨s, .kmalloc q :: k.trace⟩ = (0, ⟨s, .pmmAlloc 0 :: .kmalloc q :: k.trace⟩) := by
        show ((pmmAlloc s).1, KernelMem.mk (pmmAlloc s).2 _) = _
        rw [halloc]
      rw [hcall, if_pos rfl]
      obtain ⟨hlive, hpages⟩ := hgrant.kfree
      refine ⟨_, rfl, hlive, hpages, (kfree_freePages s q).trans hgrant.count,
        [.kfree q, .pmmAlloc 0, .kmalloc q], rfl, ?_⟩
      intro p hp
      simp [List.count_cons, Ne.symm hp]
    · rw [if_neg huser] at hrest ⊢
      obtain ⟨bs, hready⟩ := hgrant.ready
      have htwo : ∀ {p : Nat}, p ≠ 0 → ∀ fd, fd ≠ 0 →
          ([.kfree fd, .kfree q, .kmalloc fd, .kmalloc q] : List MemEvent).count (.kfree p) =
            ([.kfree fd, .kfree q, .kmalloc fd, .kmalloc q] : List MemEvent).count (.kmalloc p) := by
        intro p hp fd hfd
        simp [List.count_cons]
      rcases hready.search fdTableSize with ⟨l₁, b, l₂, -, -, hw⟩ | ⟨-, hw⟩
      · -- the table of descriptors comes out of a free block, and both are freed
        obtain ⟨-, htop, -⟩ := hready.found hw
        have hfill := hready.found_fill hw (by decide) (c := 0)
        generalize b.addr = f at *
        have hkc := kcalloc_found (by decide) (by decide) htop hw
        generalize { s with mem := fillBytes (carve s.mem f (alignUp fdTableSize 16)) (f + 24) fdTableSize 0 } =
          s' at *
        have hcall : kernelOps.kcalloc ⟨s, .kmalloc q :: k.trace⟩ 1 fdTableSize =
            some (f + 24, ⟨s', .kmalloc (f + 24) :: .kmalloc q :: k.trace⟩) := by
          show (kcalloc s 1 fdTableSize).map _ = _
          rw [hkc]
          rfl
        unfold finishMem cleanupMem
        rw [hcall]
        have hf : f + 24 ≠ 0 := by omega
        simp only [Option.map_some, ne_eq, hq, hf, not_true_eq_false, not_false_eq_true, if_true, if_false]
        obtain ⟨hlive, hpages⟩ := hgrant.kfree_kfree hfill
        refine ⟨_, rfl, hlive, hpages, ?_, [.kfree (f + 24), .kfree q, .kmalloc (f + 24), .kmalloc q], rfl, ?_⟩
        · show (Mm.kfree (Mm.kfree s' q) (f + 24)).freePages = k.mm.freePages
          rw [kfree_freePages, kfree_freePages, hfill.count, hgrant.count]
        · intro p hp
          exact ⟨htwo hp _ hf, by simp⟩
      · -- there is no memory for the table
        have hno : NoPages s 1 := by
          rcases hrest with hrest | hrest
          · exact absurd hw hrest
          · exact hrest
        have hkc : kcalloc s 1 fdTableSize = some (0, s) := kcalloc_refused (by decide) (by decide) hw hno
        have hcall : kernelOps.kcalloc ⟨s, .kmalloc q :: k.trace⟩ 1 fdTableSize =
            some (0, ⟨s, .kmalloc 0 :: .kmalloc q :: k.trace⟩) := by
          show (kcalloc s 1 fdTableSize).map _ = _
          rw [hkc]
          rfl
        unfold finishMem cleanupMem
        rw [hcall]
        simp only [Option.map_some, ne_eq, hq, not_true_eq_false, not_false_eq_true, if_true, if_false]
        obtain ⟨hlive, hpages⟩ := hgrant.kfree
        refine ⟨_, rfl, hlive, hpages, (kfree_freePages s q).trans hgrant.count,
          [.kfree q, .kmalloc 0, .kmalloc q], rfl, ?_⟩
        intro p hp
        simp [List.count_cons, Ne.symm hp]

/-- A stack that took pages of the heap: whatever follows, they are not given back. -/
theorem roundMem_grown {k k' : KernelMem} {attr : ProcessAttr} (hpos : attr.stackSize ≠ 0)
    (hw : kmallocSearch k.mm attr.stackSize = some .exhausted)
    (hpages : ¬NoPages k.mm (pagesNeeded (alignUp attr.stackSize 16)))
    (h : roundMem kernelOps k attr = some k') : ¬Conserved k k' := by
  intro hcons
  have hbound := pagesNeeded_le (alignUp attr.stackSize 16)
  obtain ⟨⟨q, k₁⟩, hk, hrest⟩ := Option.bind_eq_some_iff.mp h
  obtain ⟨⟨q', s⟩, hkm, hr⟩ := Option.map_eq_some_iff.mp hk
  obtain ⟨rfl, rfl⟩ := Prod.mk.inj hr
  have hgrown : 0 < pagesNeeded (alignUp attr.stackSize 16) ∧
      (s.freePages = sub64 k.mm.freePages (pagesNeeded (alignUp attr.stackSize 16)) ∨
        s.freePages < k.mm.freePages) := by
    rcases kmalloc_pages hpos hkm with ⟨a, hw', -⟩ | ⟨⟨a, hw'⟩ | ⟨-, hno⟩, -⟩ | ⟨-, -, hlt, hcount⟩
    · rw [hw] at hw'
      exact absurd hw' (by simp)
    · rw [hw] at hw'
      exact absurd hw' (by simp)
    · exact absurd hno hpages
    · exact ⟨hlt, hcount.imp_right And.right⟩
  have hafter : k'.mm.freePages = s.freePages ∨ s.freePages ≠ 0 ∧ k'.mm.freePages = sub64 s.freePages 1 := by
    dsimp only at hrest
    split at hrest
    · rw [← Option.some.inj hrest]
      exact Or.inl rfl
    · rcases pgdMem_freePages rfl hrest hcons with ⟨-, hcount⟩ | ⟨-, hcount⟩
      · exact Or.inl hcount
      · exact Or.inr hcount
  have hcount : k'.mm.freePages = k.mm.freePages := hcons.count
  obtain ⟨hlt, hgrown⟩ := hgrown
  generalize pagesNeeded (alignUp attr.stackSize 16) = n at *
  unfold sub64 at *
  omega

theorem roundMem_conserved {k : KernelMem} {bs : List Block} {attr : ProcessAttr} (hready : HeapReady k.mm bs)
    (hpos : attr.stackSize ≠ 0) :
    (∃ k', roundMem kernelOps k attr = some k' ∧ Conserved k k') ↔ RoundKeeps k.mm attr := by
  unfold RoundKeeps
  rcases hready.search attr.stackSize with ⟨l₁, b, l₂, hbs, hfit, hw⟩ | ⟨-, hw⟩
  · obtain ⟨hlow, htop, hgrant, -⟩ := hready.found hw
    generalize b.addr = a at *
    simp only [hw]
    have hptr : (a + 24) % 2 ^ 64 = a + 24 := by omega
    have hround : roundMem kernelOps k attr =
        pgdMem kernelOps ⟨{ k.mm with mem := carve k.mm.mem a (alignUp attr.stackSize 16) },
          .kmalloc (a + 24) :: k.trace⟩ attr (a + 24 - (a + 24 + attr.stackSize) % 16) := by
      unfold roundMem
      have hnull : (a + 24 + attr.stackSize) % 2 ^ 64 ≠ attr.stackSize % 2 ^ 64 := by omega
      have hkm : kernelOps.kmalloc k attr.stackSize =
          some (a + 24, ⟨{ k.mm with mem := carve k.mm.mem a (alignUp attr.stackSize 16) },
            .kmalloc (a + 24) :: k.trace⟩) := by
        show (Mm.kmalloc k.mm attr.stackSize).map _ = _
        rw [kmalloc_found hpos hw, hptr]
        rfl
      rw [hkm, Option.bind_some, if_neg hnull, stackStart_eq (by omega) htop]
    rw [hround]
    by_cases halign : (a + 24 + attr.stackSize) % 16 = 0
    · rw [halign, Nat.sub_zero]
      simp only [true_and]
      exact pgdMem_conserved (by omega) hgrant
    · -- the base that is kept for the stack is not what was allocated
      constructor
      · rintro ⟨k', hk', hcons⟩
        exact absurd hcons (pgdMem_misaligned (by omega) (by omega) (by omega) rfl hk')
      · intro h
        exact absurd h.1 halign
  · simp only [hw]
    constructor
    · rintro ⟨k', hk', hcons⟩
      by_contra hno
      exact roundMem_grown hpos hw hno hk' hcons
    · intro hno
      refine ⟨⟨k.mm, .kmalloc 0 :: k.trace⟩, ?_, rfl, fun _ _ => rfl, rfl, [.kmalloc 0], rfl, ?_⟩
      · unfold roundMem
        have hkm : kernelOps.kmalloc k attr.stackSize = some (0, ⟨k.mm, .kmalloc 0 :: k.trace⟩) := by
          show (Mm.kmalloc k.mm attr.stackSize).map _ = _
          rw [kmalloc_refused hpos hw hno]
          rfl
        rw [hkm, Option.bind_some, if_pos (by rw [Nat.zero_add])]
      · intro p hp
        simp [Ne.symm hp]

/-- **A creation and a cleanup conserve the resources** exactly when no process is made, or
    the heap and the attributes are such that the round keeps. -/
theorem conserved_iff {s : ProcTable KernelMem} {bs : List Block} {attr : ProcessAttr}
    (hheap : HeapReady s.mem.mm bs) (hpos : 0 < attr.stackSize) :
    (∃ t, createThenCleanup kernelOps s attr = some t ∧ Conserved s.mem t.mem) ↔
      ((∃ p, TakesSlot s (some attr) p) → RoundKeeps s.mem.mm attr) := by
  by_cases htakes : ∃ p, TakesSlot s (some attr) p
  · obtain ⟨p, hp⟩ := htakes
    have hround := @createThenCleanup_taken _ kernelOps _ _ _ hp
    rw [← roundMem_conserved hheap (Nat.ne_of_gt hpos), ← hround]
    constructor
    · rintro ⟨t, ht, hcons⟩ -
      exact ⟨t.mem, by rw [ht]; rfl, hcons⟩
    · intro h
      obtain ⟨k', hk', hcons⟩ := h ⟨p, hp⟩
      obtain ⟨t, ht, rfl⟩ := Option.map_eq_some_iff.mp hk'
      exact ⟨t, ht, hcons⟩
  · have hsame : createThenCleanup kernelOps s attr = some s := createThenCleanup_refused htakes
    constructor
    · intro _ hp
      exact absurd hp htakes
    · intro _
      exact ⟨s, hsame, rfl, fun _ _ => rfl, rfl, [], rfl, fun _ _ => ⟨rfl, rfl⟩⟩

/-! A table with no process, over a heap of one page. -/

def firstTable : ProcTable KernelMem := processInit (freshSched 1) ⟨smallHeap.mm, []⟩

theorem firstTable_heapReady :
    HeapReady firstTable.mem.mm [{ addr := 0x50000000, size := 0xFE8, used := false }] := by
  have hboot : Tiled smallHeap _ 0 := tiled_heapBoot _ (by decide) (by decide) (by omega)
  refine ⟨hboot.list, hboot.arena, ?_, ?_, ?_⟩
  all_goals
    intro b hb
    rw [List.mem_singleton.mp hb]
    decide +kernel

/-- A kernel process with a stack of the given size. -/
def stackAttr (stackSize : Nat) : ProcessAttr where
  entry := 0x40080000
  priority := prioNormal
  stackSize := stackSize
  flags := 0

theorem conserved_odd_stack :
    ∃ t, createThenCleanup kernelOps firstTable (stackAttr 0x808) = some t ∧ Conserved firstTable.mem t.mem := by
  refine (conserved_iff firstTable_heapReady (by decide)).mpr ?_
  intro _
  have hstack : kmallocSearch firstTable.mem.mm (stackAttr 0x808).stackSize = some (.found 0x50000000) := by
    decide +kernel
  have hfd : kmallocSearch
      { firstTable.mem.mm with mem := carve firstTable.mem.mm.mem 0x50000000 (alignUp 0x808 16) } fdTableSize ≠
        some .exhausted := by decide +kernel
  unfold RoundKeeps
  rw [hstack]
  exact ⟨rfl, Or.inl hfd⟩

/-- The first stack that is ever taken is not given back. -/
theorem first_stack_lost :
    ¬∃ t, createThenCleanup kernelOps firstTable (stackAttr 0x800) = some t ∧
      Conserved firstTable.mem t.mem := by
  rintro ⟨t, ht, hcons⟩
  have htakes : TakesSlot firstTable (some (stackAttr 0x800)) 0 :=
    ⟨⟨_, rfl, by decide⟩, by decide +kernel, by decide +kernel⟩
  have hround : roundMem kernelOps firstTable.mem (stackAttr 0x800) = some t.mem := by
    rw [← createThenCleanup_taken htakes, ht]
    rfl
  have hkeeps := (roundMem_conserved firstTable_heapReady (by decide)).mp ⟨t.mem, hround, hcons⟩
  have hstack : kmallocSearch firstTable.mem.mm (stackAttr 0x800).stackSize = some (.found 0x50000000) := by
    decide +kernel
  unfold RoundKeeps at hkeeps
  rw [hstack] at hkeeps
  exact absurd hkeeps.1 (by decide)

end Crimson.Proc
