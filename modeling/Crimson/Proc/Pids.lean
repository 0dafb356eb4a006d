import Crimson.Lib.Run
import Crimson.Proc.Create
import Crimson.Sched.Steps

/-!
# Slots and process identifiers

`process_create` finds a free slot in one table and a free PID in another, and
`process_get_by_pid` and `process_kill` look a process up at `process_table[pid - 1]`. They
agree because the two searches always move together: slot `i` is in use exactly when bit
`i + 1` of the PID bitmap is set (`PidInv`), so the first free slot is one below the first
free PID, and the last slot is never used at all.

The results hold for any allocator: which of the allocations fail does not matter.
-/

set_option autoImplicit false

namespace Crimson.Proc

open Crimson.Lib Crimson.Sched

variable {μ : Type}

/-- The PID's bit in the bitmap. -/
def ProcTable.pidBit (s : ProcTable μ) (n : Nat) : Bool := (s.pidBitmap (n / 64)).getLsbD (n % 64)

/-! ## The bitmap -/

/-- A bit number is its word and its place in the word. -/
theorem bit_eq_iff (n m : Nat) : m = n ↔ m / 64 = n / 64 ∧ m % 64 = n % 64 := by omega

theorem allocPid_spec (s : ProcTable μ) :
    (allocPid s = (-1, s) ∧ ∀ n, n < maxProcesses → s.pidBit n = true) ∨
      ∃ (n : Nat) (bitmap : Nat → BitVec 64), allocPid s = ((n : Int), { s with pidBitmap := bitmap }) ∧
        n < maxProcesses ∧ s.pidBit n = false ∧ (∀ m, m < n → s.pidBit m = true) ∧
        ∀ m, { s with pidBitmap := bitmap }.pidBit m = (s.pidBit m || decide (m = n)) := by
  unfold allocPid
  cases hfind : (List.range pidBitmapSize).find? fun i => s.pidBitmap i ≠ BitVec.allOnes 64 with
  | none =>
    -- every word is full, and so is every PID taken
    refine Or.inl ⟨rfl, ?_⟩
    intro n hn
    have hword := List.find?_eq_none.mp hfind (n / 64)
      (List.mem_range.mpr (by simp only [pidBitmapSize, maxProcesses] at hn ⊢; omega))
    have hones : s.pidBitmap (n / 64) = BitVec.allOnes 64 := by simpa using hword
    unfold ProcTable.pidBit
    rw [hones, BitVec.getLsbD_allOnes]
    simp [Nat.mod_lt]
  | some i =>
    obtain ⟨hword, hi, hlow⟩ := List.find?_range_eq_some.mp hfind
    have hword : s.pidBitmap i ≠ BitVec.allOnes 64 := by simpa using hword
    have hnz : ~~~s.pidBitmap i ≠ 0 := by
      intro hz
      apply hword
      rw [← @BitVec.not_not 64 (s.pidBitmap i), hz]
      rfl
    obtain ⟨hset, hbelow⟩ := ctz_spec hnz
    have hlt : ctz (~~~s.pidBitmap i) < 64 := by
      by_contra hge
      rw [BitVec.getLsbD_of_ge _ _ (Nat.le_of_not_lt hge)] at hset
      exact Bool.noConfusion hset
    dsimp only
    generalize ctz (~~~s.pidBitmap i) = bit at hset hbelow hlt ⊢
    have hi : i < 16 := by simpa [pidBitmapSize, maxProcesses] using List.mem_range.mp hi
    have hdiv : (i * 64 + bit) / 64 = i := by omega
    have hmod : (i * 64 + bit) % 64 = bit := by omega
    -- the lowest bit that is clear in the first word that is not full
    refine Or.inr ⟨i * 64 + bit, _, rfl, ?_, ?_, ?_, ?_⟩
    · simp only [maxProcesses]
      omega
    · unfold ProcTable.pidBit
      rw [hdiv, hmod]
      rw [BitVec.getLsbD_not] at hset
      simpa [hlt] using hset
    · intro m hm
      unfold ProcTable.pidBit
      by_cases hmi : m / 64 = i
      · have hclear := hbelow (m % 64) (by omega)
        rw [BitVec.getLsbD_not] at hclear
        rw [hmi]
        simpa [Nat.mod_lt] using hclear
      · have hones := hlow (m / 64) (by omega)
        have hones : s.pidBitmap (m / 64) = BitVec.allOnes 64 := by simpa using hones
        rw [hones, BitVec.getLsbD_allOnes]
        simp [Nat.mod_lt]
    · intro m
      unfold ProcTable.pidBit
      by_cases hmi : m / 64 = i
      · rw [hmi]
        simp only [Function.update_self]
        have hiff := bit_eq_iff (i * 64 + bit) m
        rw [hdiv, hmod] at hiff
        have hlt64 : m % 64 < 64 := Nat.mod_lt _ (by decide)
        simp only [getLsbD_or_shift, hiff, hmi, hlt64, true_and, and_true]
      · simp only [Function.update_of_ne hmi]
        have hne : m ≠ i * 64 + bit := fun he => hmi (by rw [he, hdiv])
        simp [hne]

/-- A PID in range gives its bit back. -/
theorem freePid_pidBit (s : ProcTable μ) {n : Nat} (hn : n < maxProcesses) (m : Nat) :
    (freePid s n).pidBit m = (s.pidBit m && !decide (m = n)) := by
  have hin : ¬((n : Int) < 0 ∨ (maxProcesses : Int) ≤ n) := by omega
  unfold freePid
  rw [if_neg hin]
  unfold ProcTable.pidBit
  simp only [Int.toNat_natCast]
  by_cases hmi : m / 64 = n / 64
  · rw [hmi]
    simp only [Function.update_self]
    simp only [getLsbD_clear, bit_eq_iff n m, hmi, true_and]
  · simp only [Function.update_of_ne hmi]
    have hne : m ≠ n := fun he => hmi (by rw [he])
    simp [hne]

theorem freePid_same (s : ProcTable μ) (pid : Int) :
    ∃ bitmap, freePid s pid = { s with pidBitmap := bitmap } := by
  unfold freePid
  split
  · exact ⟨s.pidBitmap, rfl⟩
  · exact ⟨_, rfl⟩

/-! ## The slots -/

theorem freeSlot_spec (s : ProcTable μ) :
    (freeSlot s = none ∧ ∀ p, s.state p ≠ .unused) ∨
      ∃ p, freeSlot s = some p ∧ s.state p = .unused ∧ ∀ q, q < p → s.state q ≠ .unused := by
  unfold freeSlot
  cases hfind : (List.finRange maxProcesses).find? fun i => s.state i = .unused with
  | none =>
    refine Or.inl ⟨rfl, ?_⟩
    intro p
    simpa using List.find?_eq_none.mp hfind p (List.mem_finRange p)
  | some p =>
    refine Or.inr ⟨p, rfl, ?_⟩
    obtain ⟨hp, i, hi, hip, hlow⟩ := List.find?_eq_some_iff_getElem.mp hfind
    refine ⟨by simpa using hp, ?_⟩
    intro q hq
    have hval : i = p.val := by
      rw [← hip]
      simp
    have hq' := hlow q.val (by rw [hval]; exact hq)
    simpa using hq'

/-- **The slots and the bitmap agree.** -/
structure PidInv (s : ProcTable μ) : Prop where
  zero : s.pidBit 0 = true
  bit : ∀ p : ProcRef, p.val + 1 < maxProcesses → (s.state p ≠ .unused ↔ s.pidBit (p.val + 1) = true)
  last : ∀ p : ProcRef, p.val + 1 = maxProcesses → s.state p = .unused
  pid : ∀ p, s.state p ≠ .unused → (s.info p).pid = (p.val + 1 : Nat)

/-- The first free PID is the number of the first free slot. -/
theorem PidInv.first {s : ProcTable μ} (h : PidInv s) {p : ProcRef} {n : Nat}
    (hp : s.state p = .unused) (hbelow : ∀ q, q < p → s.state q ≠ .unused) (hn : n < maxProcesses)
    (hclear : s.pidBit n = false) (hset : ∀ m, m < n → s.pidBit m = true) : n = p.val + 1 := by
  have hpos : n ≠ 0 := by
    rintro rfl
    rw [h.zero] at hclear
    exact Bool.noConfusion hclear
  rcases Nat.lt_trichotomy n (p.val + 1) with hlt | heq | hgt
  · -- The slot below that PID would be in use, and its bit set.
    have hslot : n - 1 < maxProcesses := by omega
    have hused := hbelow ⟨n - 1, hslot⟩ (by rw [Fin.lt_def]; simp only; omega)
    have hbit := (h.bit ⟨n - 1, hslot⟩ (by simp only; omega)).mp hused
    rw [show n - 1 + 1 = n by omega, hclear] at hbit
    exact Bool.noConfusion hbit
  · exact heq
  · have hbit := hset (p.val + 1) hgt
    exact absurd hp ((h.bit p (by omega)).mpr hbit)

/-! ## `process_create` and `process_cleanup` -/

/-- The same slots are in use, under the same PIDs. -/
structure SameSlots (s s' : ProcTable μ) : Prop where
  used : ∀ q, s'.state q = .unused ↔ s.state q = .unused
  pid : ∀ q, s.state q ≠ .unused → (s'.info q).pid = (s.info q).pid
  bit : ∀ m, s'.pidBit m = s.pidBit m

/-- Slot `p` has been taken with PID `n`, and nothing else has changed. -/
structure Taken (s : ProcTable μ) (p : ProcRef) (n : Nat) (t : ProcTable μ) : Prop where
  used : t.state p ≠ .unused
  pid : (t.info p).pid = n
  others : ∀ q, q ≠ p → t.state q = s.state q ∧ t.info q = s.info q
  bit : ∀ m, t.pidBit m = (s.pidBit m || decide (m = n))

theorem Taken.init {s : ProcTable μ} {p : ProcRef} {n : Nat} {bitmap : Nat → BitVec 64}
    (hbit : ∀ m, { s with pidBitmap := bitmap }.pidBit m = (s.pidBit m || decide (m = n)))
    (attr : ProcessAttr) : Taken s p n (initSlot { s with pidBitmap := bitmap } p n attr) := by
  refine ⟨?_, ?_, ?_, hbit⟩
  · simp [ProcTable.state, initSlot]
  · simp [initSlot]
  · intro q hq
    simp [ProcTable.state, initSlot, Function.update_of_ne hq]

theorem Taken.filled {s t u : ProcTable μ} {p : ProcRef} {n : Nat} (h : Taken s p n t) (hf : Filled p t u) :
    Taken s p n u := by
  have hstate : ∀ q, u.state q = t.state q := fun q => by rw [ProcTable.state, hf.sched]; rfl
  refine ⟨?_, hf.pid.trans h.pid, ?_, ?_⟩
  · rw [hstate]
    exact h.used
  · intro q hq
    rw [hstate, hf.others q hq]
    exact h.others q hq
  · intro m
    rw [← h.bit m, ProcTable.pidBit, hf.bitmap]
    rfl

/-- Giving the slot and the PID back. -/
theorem Taken.abandon {s t : ProcTable μ} {p : ProcRef} {n : Nat} (h : Taken s p n t)
    (hunused : s.state p = .unused) (hn : n < maxProcesses) (hclear : s.pidBit n = false) :
    SameSlots s (abandonSlot t p n) := by
  obtain ⟨bitmap, hfree⟩ := freePid_same t (n : Int)
  have hbit : ∀ m, (freePid t n).pidBit m = s.pidBit m := by
    intro m
    rw [freePid_pidBit t hn, h.bit]
    by_cases hm : m = n
    · simp [hm, hclear]
    · simp [hm]
  unfold abandonSlot
  rw [hfree] at hbit ⊢
  refine ⟨?_, ?_, hbit⟩
  · intro q
    by_cases hq : q = p
    · rw [hq, hunused]
      simp [ProcTable.state, ProcTable.setState]
    · rw [← (h.others q hq).1]
      simp [ProcTable.state, ProcTable.setState, Function.update_of_ne hq]
  · intro q hused
    have hq : q ≠ p := fun hq => hused (hq ▸ hunused)
    show (t.info q).pid = (s.info q).pid
    rw [(h.others q hq).2]

/-- Making the new process ready changes no other process's state. -/
theorem schedulerAddProcess_state (s : SchedState) (p r : ProcRef) :
    ((schedulerAddProcess s p).procs r).state = if r = p then .ready else (s.procs r).state := by
  unfold schedulerAddProcess
  rw [(enqueueProcess_edit _ p).state]
  by_cases hr : r = p <;> simp [hr]

theorem Taken.ready {s t : ProcTable μ} {p : ProcRef} {n : Nat} (h : Taken s p n t) (count : UInt32) :
    Taken s p n { t with numProcesses := count, sched := schedulerAddProcess t.sched p } := by
  refine ⟨?_, h.pid, ?_, h.bit⟩
  · show ((schedulerAddProcess _ p).procs p).state ≠ .unused
    rw [schedulerAddProcess_state, if_pos rfl]
    decide
  · intro q hq
    refine ⟨?_, (h.others q hq).2⟩
    show ((schedulerAddProcess _ p).procs q).state = s.state q
    rw [schedulerAddProcess_state, if_neg hq]
    exact (h.others q hq).1

theorem SameSlots.refl (s : ProcTable μ) : SameSlots s s :=
  ⟨fun _ => Iff.rfl, fun _ _ => rfl, fun _ => rfl⟩

/-- What `process_create` can do: fail and leave the slots as they were, or take the first
    slot with the first PID, which is the slot's number. -/
theorem processCreate_cases {ops : MemOps μ} {s s' : ProcTable μ} {attr : Option ProcessAttr} {r : Int}
    (h : PidInv s) (hc : processCreate ops s attr = some (r, s')) :
    (r < 0 ∧ SameSlots s s') ∨
      ∃ p, s.state p = .unused ∧ p.val + 1 < maxProcesses ∧ r = (p.val + 1 : Nat) ∧
        Taken s p (p.val + 1) s' := by
  rcases processCreate_ways hc with ⟨hr, rfl, -⟩ | ⟨a, p, u, -, -, hslot, hpid, hfilled, hend⟩
  · exact Or.inl ⟨hr, SameSlots.refl _⟩
  rcases freeSlot_spec s with ⟨hnone, -⟩ | ⟨q, hq, hunused, hbelow⟩
  · exact absurd (hnone.symm.trans hslot) (by simp)
  obtain rfl : q = p := Option.some.inj (hq.symm.trans hslot)
  rcases allocPid_spec s with ⟨halloc, -⟩ | ⟨n, bitmap, halloc, hn, hclear, hset, hbit⟩
  · rw [halloc] at hpid
    exact absurd hpid (by simp)
  have hnp := h.first hunused hbelow hn hclear hset
  rw [halloc] at hfilled hend
  have htaken := (Taken.init (p := q) hbit a).filled hfilled
  rcases hend with ⟨hr, rfl⟩ | ⟨rfl, rfl⟩
  · exact Or.inl ⟨hr, htaken.abandon hunused hn hclear⟩
  · refine Or.inr ⟨q, hunused, hnp ▸ hn, by rw [hnp], ?_⟩
    rw [← hnp]
    exact htaken.ready _

theorem PidInv.same {s s' : ProcTable μ} (h : PidInv s) (hsame : SameSlots s s') : PidInv s' where
  zero := (hsame.bit 0).trans h.zero
  bit := fun p hp => by
    rw [hsame.bit, ← h.bit p hp]
    exact not_congr (hsame.used p)
  last := fun p hp => (hsame.used p).mpr (h.last p hp)
  pid := fun p hp => by
    have hused := mt (hsame.used p).mpr hp
    rw [hsame.pid p hused]
    exact h.pid p hused

theorem PidInv.taken {s s' : ProcTable μ} (h : PidInv s) {p : ProcRef} (hp : p.val + 1 < maxProcesses)
    (ht : Taken s p (p.val + 1) s') : PidInv s' where
  zero := by
    rw [ht.bit, h.zero, Bool.true_or]
  bit := fun q hq => by
    rw [ht.bit]
    by_cases hqp : q = p
    · subst hqp
      simp [ht.used]
    · have hne : q.val + 1 ≠ p.val + 1 := fun he => hqp (Fin.ext (Nat.succ.inj he))
      rw [(ht.others q hqp).1, h.bit q hq, decide_eq_false hne, Bool.or_false]
  last := fun q hq => by
    have hqp : q ≠ p := fun hqp => absurd (hqp ▸ hq) (Nat.ne_of_lt hp)
    rw [(ht.others q hqp).1]
    exact h.last q hq
  pid := fun q hq => by
    by_cases hqp : q = p
    · subst hqp
      exact ht.pid
    · obtain ⟨hstate, hinfo⟩ := ht.others q hqp
      rw [hinfo]
      exact h.pid q (hstate ▸ hq)

/-- Whatever memory `process_cleanup` gives back, it frees the PID and the slot. -/
theorem processCleanup_mem (ops : MemOps μ) (s : ProcTable μ) (p : ProcRef) :
    ∃ mem, processCleanup ops s p = (freePid { s with mem := mem } (s.info p).pid).setState p .unused := by
  unfold processCleanup
  by_cases hstack : (s.info p).stackBase = 0 <;> by_cases hpgd : (s.info p).pgd = 0 <;>
    by_cases hfd : (s.info p).fdTable = 0 <;>
    simp only [ne_eq, hstack, hpgd, hfd, not_true_eq_false, not_false_eq_true, if_true, if_false] <;>
    exact ⟨_, rfl⟩

/-- What `process_cleanup` leaves: the slot is free, and so is its PID. -/
theorem PidInv.cleanup {s : ProcTable μ} (h : PidInv s) (ops : MemOps μ) {p : ProcRef}
    (hp : s.state p ≠ .unused) : PidInv (processCleanup ops s p) := by
  have hpid := h.pid p hp
  have hlt : p.val + 1 < maxProcesses := by
    rcases Nat.lt_or_eq_of_le (Nat.succ_le_of_lt p.isLt) with hlt | heq
    · exact hlt
    · exact absurd (h.last p heq) hp
  have hmem : ∃ mem, processCleanup ops s p =
      (freePid { s with mem := mem } ((p.val + 1 : Nat) : Int)).setState p .unused := by
    rw [← hpid]
    exact processCleanup_mem ops s p
  obtain ⟨mem, hmem⟩ := hmem
  obtain ⟨bitmap, hfree⟩ := freePid_same { s with mem := mem } ((p.val + 1 : Nat) : Int)
  have hbit := freePid_pidBit { s with mem := mem } hlt
  rw [hmem]
  rw [hfree] at hbit ⊢
  have hbit : ∀ m, ({ s with mem := mem, pidBitmap := bitmap }.setState p .unused).pidBit m =
      (s.pidBit m && !decide (m = p.val + 1)) := hbit
  have hself : ({ s with mem := mem, pidBitmap := bitmap }.setState p .unused).state p = .unused := by
    simp [ProcTable.state, ProcTable.setState]
  have hother : ∀ q, q ≠ p →
      ({ s with mem := mem, pidBitmap := bitmap }.setState p .unused).state q = s.state q := by
    intro q hq
    simp [ProcTable.state, ProcTable.setState, Function.update_of_ne hq]
  refine ⟨?_, ?_, ?_, ?_⟩
  · rw [hbit, h.zero]
    rfl
  · intro q hq
    rw [hbit]
    by_cases hqp : q = p
    · subst hqp
      simp [hself]
    · have hne : q.val + 1 ≠ p.val + 1 := fun he => hqp (Fin.ext (Nat.succ.inj he))
      rw [hother q hqp, h.bit q hq, decide_eq_false hne, Bool.not_false, Bool.and_true]
  · intro q hq
    by_cases hqp : q = p
    · rw [hqp, hself]
    · rw [hother q hqp]
      exact h.last q hq
  · intro q hq
    have hqp : q ≠ p := fun hqp => hq (hqp ▸ hself)
    exact h.pid q (hother q hqp ▸ hq)

/-! ## Looking a process up -/

theorem slotOf_eq_some {pid : Int} {p : ProcRef} (hpos : 0 < pid) :
    slotOf pid = some p ↔ pid = (p.val + 1 : Nat) := by
  unfold slotOf
  by_cases h : (pid - 1).toNat < maxProcesses
  · rw [dif_pos h, Option.some.injEq, Fin.ext_iff]
    simp only
    omega
  · rw [dif_neg h]
    have hp := p.isLt
    constructor
    · intro hno
      exact absurd hno (by simp)
    · intro hpid
      omega

theorem PidInv.lookup {s : ProcTable μ} (h : PidInv s) (pid : Int) (p : ProcRef) :
    processGetByPid s pid = some p ↔ s.state p ≠ .unused ∧ (s.info p).pid = pid := by
  unfold processGetByPid
  by_cases hpid : pid ≤ 0 ∨ (maxProcesses : Int) < pid
  · rw [if_pos hpid]
    refine ⟨fun hno => absurd hno (by simp), fun ⟨hused, heq⟩ => ?_⟩
    have hp := p.isLt
    rw [h.pid p hused] at heq
    omega
  · rw [if_neg hpid]
    have hpos : 0 < pid := by omega
    cases hslot : slotOf pid with
    | none =>
      refine ⟨fun hno => absurd hno (by simp), fun ⟨hused, heq⟩ => ?_⟩
      rw [h.pid p hused] at heq
      rw [(slotOf_eq_some hpos).mpr heq.symm] at hslot
      exact absurd hslot (by simp)
    | some q =>
      have hq := (slotOf_eq_some hpos).mp hslot
      by_cases hunused : s.state q = .unused
      · simp only [if_pos hunused]
        refine ⟨fun hno => absurd hno (by simp), fun ⟨hused, heq⟩ => ?_⟩
        rw [h.pid p hused, hq] at heq
        have hpq : p = q := Fin.ext (by omega)
        exact absurd (hpq ▸ hunused) hused
      · simp only [if_neg hunused, Option.some.injEq]
        constructor
        · rintro rfl
          exact ⟨hunused, (h.pid q hunused).trans hq.symm⟩
        · rintro ⟨hused, heq⟩
          rw [h.pid p hused, hq] at heq
          exact Fin.ext (by omega)

/-- `process_kill` touches the slot it looks up, if that is in use, and no other. -/
theorem processKill_acts {s s' : ProcTable μ} {cpu : Nat} {pid sig r : Int}
    (hk : processKill s cpu pid sig = some (r, s')) :
    s' = s ∨ ∃ p, 0 < pid ∧ slotOf pid = some p ∧ s.state p ≠ .unused ∧
      ∀ q, q ≠ p → s'.info q = s.info q ∧ s'.state q = s.state q := by
  unfold processKill at hk
  by_cases hpid : pid ≤ 0 ∨ (maxProcesses : Int) ≤ pid
  · rw [if_pos hpid, Option.some.injEq, Prod.mk.injEq] at hk
    exact Or.inl hk.2.symm
  rw [if_neg hpid] at hk
  by_cases hsig : sig < 0 ∨ (numSignals : Int) ≤ sig
  · rw [if_pos hsig, Option.some.injEq, Prod.mk.injEq] at hk
    exact Or.inl hk.2.symm
  rw [if_neg hsig] at hk
  cases hslot : slotOf pid with
  | none => simp [hslot] at hk
  | some p =>
    simp only [hslot] at hk
    by_cases hstate : s.state p = .unused ∨ s.state p = .zombie
    · rw [if_pos hstate, Option.some.injEq, Prod.mk.injEq] at hk
      exact Or.inl hk.2.symm
    rw [if_neg hstate] at hk
    cases hcur : (s.sched.runqueues cpu).current with
    | none => simp [hcur] at hk
    | some current =>
      simp only [hcur] at hk
      by_cases hperm : (s.info current).euid ≠ 0 ∧ (s.info current).euid ≠ (s.info p).uid
      · rw [if_pos hperm, Option.some.injEq, Prod.mk.injEq] at hk
        exact Or.inl hk.2.symm
      rw [if_neg hperm] at hk
      refine Or.inr ⟨p, by omega, rfl, fun hu => hstate (Or.inl hu), ?_⟩
      intro q hq
      by_cases hsleep : s.state p = .sleeping
      · have hsleep' : (s.modInfo p fun x =>
            { x with sigPending := x.sigPending ||| (1#64 <<< sig.toNat) }).state p = .sleeping := hsleep
        rw [if_pos hsleep', Option.some.injEq, Prod.mk.injEq] at hk
        rw [← hk.2]
        refine ⟨Function.update_of_ne hq _ _, ?_⟩
        show ((schedulerAddProcess _ p).procs q).state = s.state q
        rw [schedulerAddProcess_state, if_neg hq]
        exact congrArg Process.state (Function.update_of_ne hq _ _)
      · have hsleep' : ¬(s.modInfo p fun x =>
            { x with sigPending := x.sigPending ||| (1#64 <<< sig.toNat) }).state p = .sleeping := hsleep
        rw [if_neg hsleep', Option.some.injEq, Prod.mk.injEq] at hk
        rw [← hk.2]
        exact ⟨Function.update_of_ne hq _ _, rfl⟩

/-! ## Runs -/

/-- Creating, cleaning up a zombie, and whatever else moves a process that is in use from
    one state to another. -/
inductive PidOp where
  | create (attr : Option ProcessAttr)
  | cleanup (proc : ProcRef)
  | become (proc : ProcRef) (state : ProcState)
deriving DecidableEq, Repr

def pidStep (ops : MemOps μ) (s : ProcTable μ) : PidOp → Option (ProcTable μ)
  | .create attr => (processCreate ops s attr).map Prod.snd
  | .cleanup proc => if s.state proc = .zombie then some (processCleanup ops s proc) else none
  | .become proc state =>
    if s.state proc ≠ .unused ∧ state ≠ .unused then some (s.setState proc state) else none

/-- The correspondence of slots and PIDs, as lookups and signals rely on it. -/
structure PidOk (s : ProcTable μ) : Prop where
  slot : ∀ p, s.state p ≠ .unused → (s.info p).pid = (p.val + 1 : Nat)
  distinct : ∀ p q, s.state p ≠ .unused → s.state q ≠ .unused → (s.info p).pid = (s.info q).pid → p = q
  lookup : ∀ pid p, processGetByPid s pid = some p ↔ s.state p ≠ .unused ∧ (s.info p).pid = pid
  target : ∀ pid p, 0 < pid → s.state p ≠ .unused → (slotOf pid = some p ↔ (s.info p).pid = pid)
  kill : ∀ cpu pid sig r s', processKill s cpu pid sig = some (r, s') →
    ∀ q, s'.info q ≠ s.info q ∨ s'.state q ≠ s.state q → s.state q ≠ .unused ∧ (s.info q).pid = pid

/-- A `process_create` that fails changes no slot and no PID. -/
def FailsClean (ops : MemOps μ) (s : ProcTable μ) (op : PidOp) (s' : ProcTable μ) : Prop :=
  ∀ attr r, op = .create attr → processCreate ops s attr = some (r, s') → r < 0 →
    (∀ q, s'.state q = .unused ↔ s.state q = .unused) ∧ ∀ n, s'.pidBit n = s.pidBit n

theorem PidInv.ok {s : ProcTable μ} (h : PidInv s) : PidOk s where
  slot := h.pid
  distinct := fun p q hp hq heq => by
    rw [h.pid p hp, h.pid q hq] at heq
    exact Fin.ext (by omega)
  lookup := h.lookup
  target := fun pid p hpos hp => by
    rw [slotOf_eq_some hpos, h.pid p hp, eq_comm]
  kill := fun cpu pid sig r s' hk q hq => by
    rcases processKill_acts hk with rfl | ⟨p, hpos, hslot, hused, hothers⟩
    · exact absurd hq (by simp)
    · have hqp : q = p := by
        by_contra hne
        obtain ⟨hinfo, hstate⟩ := hothers q hne
        exact hq.elim (fun hi => hi hinfo) fun hs => hs hstate
      rw [hqp]
      exact ⟨hused, (h.pid p hused).trans ((slotOf_eq_some hpos).mp hslot).symm⟩

theorem PidInv.become {s : ProcTable μ} (h : PidInv s) {p : ProcRef} {st : ProcState}
    (hp : s.state p ≠ .unused) (hst : st ≠ .unused) : PidInv (s.setState p st) := by
  refine h.same ⟨?_, fun _ _ => rfl, fun _ => rfl⟩
  intro q
  by_cases hq : q = p
  · subst hq
    simp [ProcTable.setState, ProcTable.state, hst]
    exact hp
  · simp [ProcTable.setState, ProcTable.state, Function.update_of_ne hq]

/-- **Step lemma** for the slots and PIDs. -/
theorem PidInv.step {ops : MemOps μ} {s s' : ProcTable μ} {op : PidOp} (h : PidInv s)
    (hs : pidStep ops s op = some s') : PidInv s' := by
  cases op with
  | create attr =>
    obtain ⟨⟨r, t⟩, hc, rfl⟩ := Option.map_eq_some_iff.mp hs
    rcases processCreate_cases h hc with ⟨_, hsame⟩ | ⟨p, _, hp, _, htaken⟩
    · exact h.same hsame
    · exact h.taken hp htaken
  | cleanup proc =>
    simp only [pidStep, Option.ite_none_right_eq_some, Option.some.injEq] at hs
    obtain ⟨hzombie, rfl⟩ := hs
    exact h.cleanup ops (by rw [hzombie]; decide)
  | become proc state =>
    simp only [pidStep, Option.ite_none_right_eq_some, Option.some.injEq] at hs
    obtain ⟨⟨hused, hst⟩, rfl⟩ := hs
    exact h.become hused hst

/-- `process_init` leaves every slot free and PID 0 taken. -/
theorem PidInv.init (sched : SchedState) (mem : μ) : PidInv (processInit sched mem) := by
  refine ⟨by simp [ProcTable.pidBit, processInit], ?_, fun _ _ => rfl, fun p hp => absurd rfl hp⟩
  intro p hp
  refine ⟨fun hused => absurd rfl hused, fun hbit => ?_⟩
  unfold ProcTable.pidBit processInit at hbit
  by_cases hword : (p.val + 1) / 64 = 0
  · have hmod : (p.val + 1) % 64 ≠ 0 := by omega
    rw [hword] at hbit
    simp only [Function.update_self] at hbit
    have hone : (1 : BitVec 64).getLsbD ((p.val + 1) % 64) =
        (decide (0 < 64) && decide ((p.val + 1) % 64 = 0)) := BitVec.getLsbD_one
    rw [hone, decide_eq_false hmod, Bool.and_false] at hbit
    exact absurd hbit (by decide)
  · simp [Function.update_of_ne hword] at hbit

/-- **Every slot in use has the PID one above its number.** With any allocator, in every
    state of every run of creations (failed ones included) and cleanups of zombies: slot
    `s` in use has PID `s + 1`, live PIDs are distinct, lookups and signals act on the
    process whose PID they are given, and a failed creation takes no slot and no PID. -/
theorem pidOk_of_run (ops : MemOps μ) (sched : SchedState) (mem : μ) (is : List PidOp) :
    Always (pidStep ops) PidOk (processInit sched mem) is ∧
      AlwaysStep (pidStep ops) (FailsClean ops) (processInit sched mem) is := by
  have hinv : Always (pidStep ops) PidInv (processInit sched mem) is :=
    always_of_step (fun _ _ _ h hs => h.step hs) (PidInv.init sched mem)
  refine ⟨hinv.mono fun _ h => h.ok, ?_⟩
  refine alwaysStep_of_always (g := fun _ _ => True) ?_ hinv meets_true
  intro s op s' h _ _ attr r _ hc hr
  rcases processCreate_cases h hc with ⟨_, hsame⟩ | ⟨p, _, _, hpos, _⟩
  · exact ⟨hsame.used, hsame.bit⟩
  · omega

end Crimson.Proc
