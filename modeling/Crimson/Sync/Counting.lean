import Crimson.Sync.Threads

/-!
# The count of a semaphore

Any number of processes wait for, try and signal one semaphore, step by step: the section of
`sem_wait`, its `scheduler_yield`, the return from it, the section of `sem_signal` and the
hand-over of the process woken, and `sem_trywait`, which is one section.

The field `count` is what is left of the initial value and the signals when every `sem_wait`
that has passed its section and every `sem_trywait` is taken off; below zero it counts the wait
list (`SemInv`). Two things can break this: `sem_signal` adds one to a count of `INT32_MAX`,
and a process may be run again before it is signalled, as for a mutex.
-/

set_option autoImplicit false

namespace Crimson.Sync

open Crimson.Lib
open Crimson.Sched

/-- Where a process is in the functions of a semaphore. -/
inductive SemPc where
  | outside
  /-- `sem_wait`: the section, the yield, the return. -/
  | waitSection
  | waitYield
  | waitBack
  /-- `sem_signal`: the section, the hand-over of the process woken. -/
  | signalSection
  | signalAdd (waiter : ProcRef)
  | trySection
deriving DecidableEq, Repr

inductive SemCall where
  | wait
  | signal
  | trywait
deriving DecidableEq, Repr

/-- The semaphore, the processes that `sem_wait` has put to sleep and no `sem_signal` has woken
    since, and the calls so far: of `sem_wait` those that have returned, of `sem_trywait` those
    that were successful, of `sem_signal` those that have passed their section. -/
structure SemUse where
  sem : Semaphore
  blocked : ProcRef → Bool
  returned : Nat
  tried : Nat
  signals : Nat

def semNext (p : ProcRef) (cpu : Nat) : SemPc → SchedState → SemUse → Option (SemPc × SchedState × SemUse)
  | .outside, _, _ => none
  | .waitSection, s, x =>
    match semWaitSection s x.sem p with
    | (true, s, sem) => some (.waitYield, s, { x with sem := sem, blocked := Function.update x.blocked p true })
    | (false, s, sem) => some (.outside, s, { x with sem := sem, returned := x.returned + 1 })
  | .waitYield, s, x => some (.waitBack, schedulerYield s cpu, x)
  | .waitBack, s, x => some (.outside, s, { x with returned := x.returned + 1 })
  | .signalSection, s, x =>
    match semSignalSection s x.sem with
    | (some waiter, s, sem) =>
      some (.signalAdd waiter, s,
        { x with sem := sem, blocked := Function.update x.blocked waiter false, signals := x.signals + 1 })
    | (none, s, sem) => some (.outside, s, { x with sem := sem, signals := x.signals + 1 })
  | .signalAdd waiter, s, x => some (.outside, schedulerAddProcess s waiter, x)
  | .trySection, s, x =>
    match semTrywait x.sem with
    | (true, sem) => some (.outside, s, { x with sem := sem, tried := x.tried + 1 })
    | (false, sem) => some (.outside, s, { x with sem := sem })

def semCode : Code SemUse SemPc SemCall where
  outside := .outside
  entry
    | .wait => .waitSection
    | .signal => .signalSection
    | .trywait => .trySection
  next := semNext

abbrev SemThreads := Threads SemUse SemPc

/-- A semaphore after `sem_init`, on whatever the scheduler is doing. -/
def semStart (s : SchedState) (initial : Int32) : SemThreads where
  sched := s
  obj := ⟨semInit initial, fun _ => false, 0, 0, 0⟩
  pc := fun _ => .outside

/-- What a semaphore of the initial value `initial` promises. -/
structure SemCounts (initial : Int32) (x : SemThreads) : Prop where
  bound : (x.obj.returned + x.obj.tried : Int) ≤ initial.toInt + x.obj.signals
  /-- The wait list ends, holds each blocked process once and no other, and is as long as the
      count is below zero. -/
  waiters : ∃ l, Linked (waitLink x.sched) x.obj.sem.waiters l ∧ l.Nodup ∧ (∀ p, p ∈ l ↔ x.obj.blocked p = true) ∧
    (l.length : Int) = max 0 (-x.obj.sem.count.toInt)

/-- A process that comes back from its `scheduler_yield` has been taken off the wait list, and
    `sem_signal` does not find the largest count. -/
def SemGuard (x : SemThreads) (p : ProcRef) : Prop :=
  (x.pc p = .waitBack → ¬OnWaitList x.sched x.obj.sem.waiters p) ∧
    (x.pc p = .signalSection → x.obj.sem.count ≠ Int32.maxValue)

/-! ## The invariant -/

/-- Asleep for the semaphore, or back from it. -/
def SemPc.Asleep (pc : SemPc) : Prop := pc = .waitYield ∨ pc = .waitBack

/-- `W` is the wait list, and `L` the processes in `sem_wait` behind its section. -/
structure SemInv (initial : Int32) (x : SemThreads) (W L : List ProcRef) : Prop where
  linked : Linked (waitLink x.sched) x.obj.sem.waiters W
  blocked : ∀ p, p ∈ W ↔ x.obj.blocked p = true
  nodup : L.Nodup
  asleep : ∀ p, p ∈ L ↔ (x.pc p).Asleep
  listed : W ⊆ L
  count : x.obj.sem.count.toInt = initial.toInt + x.obj.signals - (x.obj.returned + L.length) - x.obj.tried
  length : (W.length : Int) = max 0 (-x.obj.sem.count.toInt)

theorem SemInv.counts {initial : Int32} {x : SemThreads} {W L : List ProcRef} (h : SemInv initial x W L) :
    SemCounts initial x := by
  refine ⟨?_, W, h.linked, h.linked.nodup, h.blocked, h.length⟩
  have hle : W.length ≤ L.length := (List.subperm_of_subset h.linked.nodup h.listed).length_le
  have hcount := h.count
  have hlength := h.length
  omega

theorem semStart_inv (s : SchedState) {initial : Int32} (hinitial : 0 ≤ initial) :
    SemInv initial (semStart s initial) [] [] where
  linked := rfl
  blocked := by simp [semStart]
  nodup := List.nodup_nil
  asleep := by simp [semStart, SemPc.Asleep]
  listed := List.nil_subset []
  count := by simp [semStart, semInit]
  length := by
    have hnonneg : 0 ≤ initial.toInt := Int32.le_iff_toInt_le.mp hinitial
    simp [semStart, semInit, hnonneg]

/-! ## The count -/

theorem toInt_sub_one {c : Int32} (h : -2 ^ 31 < c.toInt) : (c - 1).toInt = c.toInt - 1 := by
  have hlt := c.toInt_lt
  rw [Int32.toInt_sub, show (1 : Int32).toInt = 1 from rfl]
  exact Int.bmod_eq_of_le (by omega) (by omega)

theorem toInt_add_one {c : Int32} (h : c ≠ Int32.maxValue) : (c + 1).toInt = c.toInt + 1 := by
  have hlt := c.toInt_lt
  have hle := c.le_toInt
  have hne : c.toInt ≠ 2 ^ 31 - 1 := fun heq => h (Int32.toInt_inj.mp (heq.trans Int32.toInt_maxValue.symm))
  rw [Int32.toInt_add, show (1 : Int32).toInt = 1 from rfl]
  exact Int.bmod_eq_of_le (by omega) (by omega)

section

variable {initial : Int32} {x : SemThreads} {W L : List ProcRef} {p : ProcRef} {pc : SemPc}

/-- The count does not go far below zero: there are not that many processes. -/
theorem SemInv.count_gt (h : SemInv initial x W L) : -2 ^ 31 < x.obj.sem.count.toInt := by
  have hlength := h.length
  have hle : W.length ≤ maxProcesses := length_le_maxProcesses h.linked.nodup
  have hmax : maxProcesses = 1024 := rfl
  omega

/-- A step of a process between two places where it is not asleep, which leaves the list alone. -/
theorem SemInv.goes (h : SemInv initial x W L) {s : SchedState} {count : Int32} {returned tried signals : Nat}
    (hs : waitLink s = waitLink x.sched) (hp : ¬(x.pc p).Asleep) (hpc : ¬pc.Asleep)
    (hcount : count.toInt = initial.toInt + signals - (returned + L.length) - tried)
    (hlength : (W.length : Int) = max 0 (-count.toInt)) :
    SemInv initial (x.moves p (pc, s, ⟨⟨count, x.obj.sem.waiters⟩, x.obj.blocked, returned, tried, signals⟩)) W L where
  linked := hs ▸ h.linked
  blocked := h.blocked
  nodup := h.nodup
  asleep := Threads.moves_forall (fun q (pc : SemPc) => q ∈ L ↔ pc.Asleep)
    (iff_of_false (fun hmem => hp ((h.asleep p).mp hmem)) hpc) fun q _ => h.asleep q
  listed := h.listed
  count := hcount
  length := hlength

/-- The process has to wait: it is put on the list. -/
theorem SemInv.sleeps (h : SemInv initial x W L) (hp : ¬(x.pc p).Asleep) (hneg : (x.obj.sem.count - 1).toInt < 0) :
    SemInv initial (x.moves p (.waitYield, linkWaiter x.sched x.obj.sem.waiters p,
      { x.obj with sem := ⟨x.obj.sem.count - 1, some p⟩, blocked := Function.update x.obj.blocked p true }))
      (p :: W) (p :: L) := by
  have hpL : p ∉ L := fun hmem => hp ((h.asleep p).mp hmem)
  have hsub := toInt_sub_one h.count_gt
  have hcount := h.count
  have hlength := h.length
  constructor
  · exact linked_linkWaiter h.linked fun hmem => hpL (h.listed hmem)
  · intro q
    by_cases hq : q = p
    · simp [hq]
    · simp [hq, h.blocked]
  · exact List.nodup_cons.mpr ⟨hpL, h.nodup⟩
  · refine Threads.moves_forall (fun q (pc : SemPc) => q ∈ p :: L ↔ pc.Asleep) ?_ fun q hq => ?_
    · exact iff_of_true List.mem_cons_self (Or.inl rfl)
    · rw [List.mem_cons, or_iff_right hq]
      exact h.asleep q
  · exact List.cons_subset_cons p h.listed
  · show (x.obj.sem.count - 1).toInt = _
    simp only [Threads.moves_obj, List.length_cons]
    omega
  · show _ = max 0 (-(x.obj.sem.count - 1).toInt)
    rw [List.length_cons]
    omega

/-- The process yields, on the list or already off it. -/
theorem SemInv.yields (h : SemInv initial x W L) (hp : x.pc p = .waitYield) {s : SchedState}
    (hs : waitLink s = waitLink x.sched) : SemInv initial (x.moves p (.waitBack, s, x.obj)) W L where
  linked := hs ▸ h.linked
  blocked := h.blocked
  nodup := h.nodup
  asleep := Threads.moves_forall (fun q (pc : SemPc) => q ∈ L ↔ pc.Asleep)
    (iff_of_true ((h.asleep p).mpr (Or.inl hp)) (Or.inr rfl)) fun q _ => h.asleep q
  listed := h.listed
  count := h.count
  length := h.length

/-- The process returns, off the list. -/
theorem SemInv.returns (h : SemInv initial x W L) (hp : x.pc p = .waitBack) (hpW : p ∉ W) :
    SemInv initial (x.moves p (.outside, x.sched, { x.obj with returned := x.obj.returned + 1 })) W (L.erase p) := by
  have hpL : p ∈ L := (h.asleep p).mpr (Or.inr hp)
  refine ⟨h.linked, h.blocked, h.nodup.erase p, ?_, ?_, ?_, h.length⟩
  · refine Threads.moves_forall (fun q (pc : SemPc) => q ∈ L.erase p ↔ pc.Asleep) ?_ fun q hq => ?_
    · exact iff_of_false h.nodup.not_mem_erase (by simp [SemPc.Asleep])
    · rw [List.mem_erase_of_ne hq]
      exact h.asleep q
  · intro q hq
    have hqp : q ≠ p := fun hqp => hpW (hqp ▸ hq)
    exact (List.mem_erase_of_ne hqp).mpr (h.listed hq)
  · have hcount := h.count
    have hpos := List.length_pos_of_mem hpL
    simp only [Threads.moves_obj, List.length_erase_of_mem hpL]
    omega

/-- A process is woken: it is taken off the list. -/
theorem SemInv.wakes {w : ProcRef} (h : SemInv initial x (w :: W) L) (hp : ¬(x.pc p).Asleep)
    (hmax : x.obj.sem.count ≠ Int32.maxValue) :
    SemInv initial (x.moves p (.signalAdd w, releaseWaiter x.sched w,
      { x.obj with
        sem := ⟨x.obj.sem.count + 1, (x.sched.procs w).wqNext⟩
        blocked := Function.update x.obj.blocked w false
        signals := x.obj.signals + 1 })) W L := by
  have hwW : w ∉ W := (List.nodup_cons.mp h.linked.nodup).1
  have hadd := toInt_add_one hmax
  have hcount := h.count
  have hlength := h.length
  refine ⟨linked_releaseWaiter h.linked, ?_, h.nodup, ?_, fun q hq => h.listed (List.mem_cons_of_mem w hq), ?_, ?_⟩
  · intro q
    by_cases hq : q = w
    · simp [hq, hwW]
    · simpa [hq] using h.blocked q
  · exact Threads.moves_forall (fun q (pc : SemPc) => q ∈ L ↔ pc.Asleep)
      (iff_of_false (fun hmem => hp ((h.asleep p).mp hmem)) (by simp [SemPc.Asleep])) fun q _ => h.asleep q
  · show (x.obj.sem.count + 1).toInt = _
    simp only [Threads.moves_obj]
    omega
  · show _ = max 0 (-(x.obj.sem.count + 1).toInt)
    rw [List.length_cons] at hlength
    omega

/-- **One step** of the code keeps the invariant. -/
theorem SemInv.next (h : SemInv initial x W L) (hg : SemGuard x p) {cpu : Nat} {dest : SemPc × SchedState × SemUse}
    (hs : semNext p cpu (x.pc p) x.sched x.obj = some dest) : ∃ W' L', SemInv initial (x.moves p dest) W' L' := by
  have hcount := h.count
  have hlength := h.length
  cases hpc : x.pc p with
  | outside => simp [hpc, semNext] at hs
  | waitSection =>
    have hp : ¬(x.pc p).Asleep := by simp [hpc, SemPc.Asleep]
    have hsub := toInt_sub_one h.count_gt
    by_cases hneg : x.obj.sem.count - 1 < 0
    · simp only [hpc, semNext, semWaitSection, if_pos hneg, Option.some.injEq] at hs
      exact ⟨p :: W, p :: L, hs ▸ h.sleeps hp (Int32.lt_iff_toInt_lt.mp hneg)⟩
    · simp only [hpc, semNext, semWaitSection, if_neg hneg, Option.some.injEq] at hs
      have hnonneg : ¬(x.obj.sem.count - 1).toInt < 0 := fun hlt => hneg (Int32.lt_iff_toInt_lt.mpr hlt)
      refine ⟨W, L, hs ▸ h.goes rfl hp (by simp [SemPc.Asleep]) ?_ ?_⟩ <;> omega
  | waitYield =>
    rw [hpc] at hs
    obtain rfl := Option.some.inj hs
    exact ⟨W, L, h.yields hpc (schedulerYield_waitLink x.sched cpu)⟩
  | waitBack =>
    rw [hpc] at hs
    obtain rfl := Option.some.inj hs
    have hpW : p ∉ W := fun hmem => hg.1 hpc ((onWaitList_iff h.linked p).mpr hmem)
    exact ⟨W, L.erase p, h.returns hpc hpW⟩
  | signalSection =>
    have hp : ¬(x.pc p).Asleep := by simp [hpc, SemPc.Asleep]
    have hmax := hg.2 hpc
    have hadd := toInt_add_one hmax
    have hhead := h.linked.head_eq
    cases W with
    | nil =>
      -- Nobody waits, so the count was not below zero.
      rw [List.length_nil] at hlength
      simp only [hpc, semNext, semSignalSection, hhead, List.head?_nil, Option.some.injEq] at hs
      refine ⟨[], L, ?_⟩
      have hgoes : SemInv initial (x.moves p (.outside, x.sched,
          ⟨⟨x.obj.sem.count + 1, x.obj.sem.waiters⟩, x.obj.blocked, x.obj.returned, x.obj.tried, x.obj.signals + 1⟩))
          [] L := by
        refine h.goes rfl hp (by simp [SemPc.Asleep]) ?_ ?_
        · omega
        · rw [List.length_nil]
          omega
      rw [hhead] at hgoes
      exact hs ▸ hgoes
    | cons w W =>
      -- Somebody waits, so the count was below zero and is not above it now.
      rw [List.length_cons] at hlength
      have hle : x.obj.sem.count + 1 ≤ 0 := by
        rw [Int32.le_iff_toInt_le, hadd]
        show _ ≤ (0 : Int)
        omega
      simp only [hpc, semNext, semSignalSection, hhead, List.head?_cons, if_pos hle, Option.some.injEq] at hs
      exact ⟨W, L, hs ▸ h.wakes hp hmax⟩
  | signalAdd waiter =>
    rw [hpc] at hs
    obtain rfl := Option.some.inj hs
    have hp : ¬(x.pc p).Asleep := by simp [hpc, SemPc.Asleep]
    exact ⟨W, L, h.goes (schedulerAddProcess_waitLink x.sched waiter) hp (by simp [SemPc.Asleep]) hcount hlength⟩
  | trySection =>
    have hp : ¬(x.pc p).Asleep := by simp [hpc, SemPc.Asleep]
    by_cases hpos : 0 < x.obj.sem.count
    · simp only [hpc, semNext, semTrywait, if_pos hpos, Option.some.injEq] at hs
      have hcpos : 0 < x.obj.sem.count.toInt := Int32.lt_iff_toInt_lt.mp hpos
      have hsub := toInt_sub_one h.count_gt
      refine ⟨W, L, hs ▸ h.goes rfl hp (by simp [SemPc.Asleep]) ?_ ?_⟩ <;> omega
    · simp only [hpc, semNext, semTrywait, if_neg hpos, Option.some.injEq] at hs
      exact ⟨W, L, hs ▸ h.goes rfl hp (by simp [SemPc.Asleep]) hcount hlength⟩

end

/-! ## Runs -/

/-- **One step of the machine** keeps the invariant. -/
theorem semStep_keeps (initial : Int32) (x : SemThreads) (op : ThreadOp SemCall) (x' : SemThreads)
    (hI : ∃ W L, SemInv initial x W L) (hg : StepMeets SemGuard x op) (hs : threadStep semCode x op = some x') :
    ∃ W L, SemInv initial x' W L := by
  refine threadStep_keeps (I := fun x => ∃ W L, SemInv initial x W L) ?_ ?_ ?_ x op x' hI hg hs
  · rintro y s hlink ⟨W, L, h⟩
    exact ⟨W, L, hlink ▸ h.linked, h.blocked, h.nodup, h.asleep, h.listed, h.count, h.length⟩
  · rintro y p k ⟨W, L, h⟩ hout
    have hp : ¬(y.pc p).Asleep := by simp [show y.pc p = .outside from hout, SemPc.Asleep]
    exact ⟨W, L, h.goes rfl hp (by cases k <;> simp [semCode, SemPc.Asleep]) h.count h.length⟩
  · rintro y p cpu dest ⟨W, L, h⟩ hguard hnext
    exact h.next hguard hnext

/-- **A semaphore counts** in every run in which no process comes back from its
    `scheduler_yield` in `sem_wait` while it is still on the wait list, and no `sem_signal`
    finds the largest count. -/
theorem sem_counts (s : SchedState) {initial : Int32} (hinitial : 0 ≤ initial) (ops : List (ThreadOp SemCall))
    (hg : Meets (threadStep semCode) (StepMeets SemGuard) (semStart s initial) ops) :
    Always (threadStep semCode) (SemCounts initial) (semStart s initial) ops := by
  have hinit : ∃ W L, SemInv initial (semStart s initial) W L := ⟨[], [], semStart_inv s hinitial⟩
  refine (always_of_meets (P := fun x => ∃ W L, SemInv initial x W L) (semStep_keeps initial) hinit hg).mono ?_
  rintro x ⟨W, L, h⟩
  exact h.counts

/-- A process waits on the first of two CPUs, is signalled from the second, and comes back when
    the process that ran in its place yields. -/
def signalled : List (ThreadOp SemCall) :=
  [.call 0 .wait, .step 0, .step 0, .call 1 .signal, .step 1, .step 1, .yield 0, .step 0]

theorem sem_counts_signalled :
    Always (threadStep semCode) (SemCounts 0) (semStart (startedKernel 2 3) 0) signalled ∧
      ∀ x, run (threadStep semCode) (semStart (startedKernel 2 3) 0) signalled = some x →
        x.obj.returned = 1 ∧ x.obj.signals = 1 := by
  refine ⟨sem_counts (startedKernel 2 3) (by decide) signalled ?_, ?_⟩
  · have hlisted : Meets (threadStep semCode)
        (StepMeets fun x p => x.pc p = .waitBack → ¬OnWaitList x.sched x.obj.sem.waiters p)
        (semStart (startedKernel 2 3) 0) signalled := by
      refine meets_of_check (returnsUnlisted .waitBack fun x => x.sem.waiters) ?_ (by decide +kernel)
      exact fun _ _ h => stepMeets_of_returnsUnlisted h
    have hmax : Meets (threadStep semCode) (fun (x : SemThreads) _ => x.obj.sem.count ≠ Int32.maxValue)
        (semStart (startedKernel 2 3) 0) signalled :=
      meets_of_check (fun (x : SemThreads) _ => decide (x.obj.sem.count ≠ Int32.maxValue)) (fun _ _ => of_decide_eq_true)
        (by decide +kernel)
    refine (hlisted.and hmax).mono ?_
    rintro x op ⟨hback, hcount⟩ cpu p hop hcur
    exact ⟨hback cpu p hop hcur, fun _ => hcount⟩
  · have hcalls : (run (threadStep semCode) (semStart (startedKernel 2 3) 0) signalled).map
        (fun x => (x.obj.returned, x.obj.signals)) = some (1, 1) := by decide +kernel
    intro x hx
    rw [hx] at hcalls
    exact Prod.mk.inj (Option.some.inj hcalls)

/-- On one CPU, the only process waits for a semaphore of value 0 and returns unsignalled. And a
    signal makes the largest count the smallest. -/
theorem sem_miscounts :
    ¬Always (threadStep semCode) (SemCounts 0) (semStart (startedKernel 1 1) 0)
        [.call 0 .wait, .step 0, .step 0, .step 0] ∧
      ¬Always (threadStep semCode) (SemCounts Int32.maxValue) (semStart (startedKernel 1 1) Int32.maxValue)
        [.call 0 .signal, .step 0] := by
  constructor
  · intro halways
    have hrun := eq_some_getD (semStart (startedKernel 1 1) 0)
      (o := run (threadStep semCode) (semStart (startedKernel 1 1) 0) [.call 0 .wait, .step 0, .step 0, .step 0])
      (by decide +kernel)
    have hbound := (halways.last hrun).bound
    revert hbound
    decide +kernel
  · intro halways
    have hrun := eq_some_getD (semStart (startedKernel 1 1) Int32.maxValue)
      (o := run (threadStep semCode) (semStart (startedKernel 1 1) Int32.maxValue) [.call 0 .signal, .step 0])
      (by decide +kernel)
    obtain ⟨l, hlinked, -, -, hlength⟩ := (halways.last hrun).waiters
    generalize hx : (run (threadStep semCode) (semStart (startedKernel 1 1) Int32.maxValue)
      [.call 0 .signal, .step 0]).getD (semStart (startedKernel 1 1) Int32.maxValue) = x at hlinked hlength
    have hnone : x.obj.sem.waiters = none := by
      rw [← hx]
      decide +kernel
    have hcount : x.obj.sem.count = Int32.minValue := by
      rw [← hx]
      decide +kernel
    rw [Linked.eq_nil_iff hlinked |>.mp hnone, hcount] at hlength
    revert hlength
    decide

end Crimson.Sync
