import Crimson.Lib.Run
import Crimson.Proc.Create
import Crimson.Sched.Frame

/-!
# Families

`process_create`, `process_exit`, `process_wait` and `process_reap_zombies` as the steps of
one machine, with the scheduler's calls between them. The section of `process_exit` under
the lock is a step of its own: the `scheduler_yield` that ends the call is a scheduler step
on that CPU, and other CPUs may act before it.

`process_create` leaves the new process without a parent, and no other code ever writes
the three links, so the search of `process_wait` has nothing to look through: it never
returns a child.
-/

set_option autoImplicit false

namespace Crimson.Proc

open Crimson.Lib Crimson.Sched

variable {μ : Type}

inductive FamilyOp where
  | create (attr : Option ProcessAttr)
  | exit (cpu : Nat) (code : Int)
  | wait (cpu : Nat) (pid : Int) (nohang : Bool)
  | reap
  | sched (op : SchedOp)
deriving DecidableEq, Repr

def WaitResult.table : WaitResult μ → ProcTable μ
  | .returns _ _ s => s
  | .retry s => s

/-- The section of `process_exit`, for the process that runs on the CPU. -/
def exitSection (s : ProcTable μ) (cpu : Nat) (code : Int) : Option (ProcTable μ) :=
  (s.sched.runqueues cpu).current.bind fun current => exitMark s current code

def familyStep (ops : MemOps μ) (s : ProcTable μ) : FamilyOp → Option (ProcTable μ)
  | .create attr => (processCreate ops s attr).map Prod.snd
  | .exit cpu code => exitSection s cpu code
  | .wait cpu pid nohang => (processWait ops s cpu pid nohang).map WaitResult.table
  | .reap => processReapZombies s
  | .sched op => (schedStep s.sched op).map fun sched => { s with sched := sched }

/-! ## What each call does to the links -/

/-- `process_create` gets as far as writing slot `p`. -/
def TakesSlot (s : ProcTable μ) (attr : Option ProcessAttr) (p : ProcRef) : Prop :=
  (∃ a, attr = some a ∧ a.entry ≠ 0) ∧ freeSlot s = some p ∧ 0 ≤ (allocPid s).1

/-- Only slot `p` has been written, and it is linked to nobody. -/
structure Unlinked (s : ProcTable μ) (p : ProcRef) (t : ProcTable μ) : Prop where
  children : (t.info p).children = none
  sibling : (t.info p).sibling = none
  info : ∀ q, q ≠ p → t.info q = s.info q
  state : ∀ q, q ≠ p → t.state q = s.state q
  zombies : t.zombieList = s.zombieList

theorem Unlinked.init (s : ProcTable μ) (p : ProcRef) (attr : ProcessAttr) :
    Unlinked s p (initSlot (allocPid s).2 p (allocPid s).1 attr) := by
  obtain ⟨bitmap, hbitmap⟩ := allocPid_bitmap s
  rw [hbitmap]
  refine ⟨?_, ?_, ?_, ?_, rfl⟩
  · simp [initSlot, ProcInfo.zero]
  · simp [initSlot, ProcInfo.zero]
  · intro q hq
    simp [initSlot, Function.update_of_ne hq]
  · intro q hq
    simp [initSlot, ProcTable.state, Function.update_of_ne hq]

theorem Unlinked.filled {s t u : ProcTable μ} {p : ProcRef} (h : Unlinked s p t) (hf : Filled p t u) :
    Unlinked s p u := by
  refine ⟨hf.children.trans h.children, hf.sibling.trans h.sibling, ?_, ?_, hf.zombies.trans h.zombies⟩
  · intro q hq
    exact (hf.others q hq).trans (h.info q hq)
  · intro q hq
    rw [← h.state q hq, ProcTable.state, hf.sched]
    rfl

theorem Unlinked.abandon {s t : ProcTable μ} {p : ProcRef} (h : Unlinked s p t) (pid : Int) :
    Unlinked s p (abandonSlot t p pid) ∧ (abandonSlot t p pid).state p = .unused := by
  unfold abandonSlot freePid
  refine ⟨⟨?_, ?_, ?_, ?_, ?_⟩, by simp [ProcTable.setState, ProcTable.state]⟩
  · split <;> exact h.children
  · split <;> exact h.sibling
  · split <;> exact h.info
  · intro q hq
    rw [← h.state q hq]
    split <;> simp [ProcTable.setState, ProcTable.state, Function.update_of_ne hq]
  · split <;> exact h.zombies

theorem Unlinked.ready {s t : ProcTable μ} {p : ProcRef} (h : Unlinked s p t) (n : UInt32) :
    Unlinked s p { t with numProcesses := n, sched := schedulerAddProcess t.sched p } ∧
      ({ t with numProcesses := n, sched := schedulerAddProcess t.sched p } : ProcTable μ).state p = .ready := by
  refine ⟨⟨h.children, h.sibling, h.info, ?_, h.zombies⟩, ?_⟩
  · intro q hq
    refine Eq.trans ?_ (h.state q hq)
    show ((schedulerAddProcess _ p).procs q).state = _
    unfold schedulerAddProcess
    rw [(enqueueProcess_edit _ p).state]
    exact congrArg Process.state (Function.update_of_ne hq _ _)
  · show ((schedulerAddProcess _ p).procs p).state = .ready
    unfold schedulerAddProcess
    rw [(enqueueProcess_edit _ p).state]
    simp

/-- **The links after `process_create`**: it writes no slot, or one that was free, and the
    process there has neither children nor siblings. -/
theorem processCreate_links {ops : MemOps μ} {s s' : ProcTable μ} {attr : Option ProcessAttr} {r : Int}
    (hc : processCreate ops s attr = some (r, s')) :
    (r < 0 ∧ (∀ p, ¬TakesSlot s attr p) ∧ s' = s) ∨
      ∃ p, TakesSlot s attr p ∧ Unlinked s p s' ∧
        (r < 0 ∧ s'.state p = .unused ∨ 0 ≤ r ∧ s'.state p = .ready) := by
  rcases processCreate_ways hc with ⟨hr, hsame, hno⟩ | ⟨a, p, u, ha, hne, hslot, hpid, hfilled, hend⟩
  · refine Or.inl ⟨hr, ?_, hsame⟩
    rintro p ⟨⟨a, ha, hne⟩, hslot, hpid⟩
    exact absurd (hno a p ha hne hslot) (Int.not_lt.mpr hpid)
  · have hlinks := (Unlinked.init s p a).filled hfilled
    refine Or.inr ⟨p, ⟨⟨a, ha, hne⟩, hslot, hpid⟩, ?_⟩
    rcases hend with ⟨hr, rfl⟩ | ⟨rfl, rfl⟩
    · obtain ⟨hback, hunused⟩ := hlinks.abandon (allocPid s).1
      exact ⟨hback, Or.inl ⟨hr, hunused⟩⟩
    · obtain ⟨hdone, hready⟩ := hlinks.ready (u.numProcesses + 1)
      exact ⟨hdone, Or.inr ⟨hpid, hready⟩⟩

/-- The loop of `process_exit` writes `ppid` and nothing else. -/
theorem reparent_frame {fuel : Nat} {child : Option ProcRef} {s s' : ProcTable μ}
    (h : reparent fuel child s = some s') :
    s'.sched = s.sched ∧ s'.zombieList = s.zombieList ∧
      ∀ q, (s'.info q).children = (s.info q).children ∧ (s'.info q).sibling = (s.info q).sibling := by
  induction fuel generalizing child s with
  | zero =>
    cases child with
    | none =>
      obtain rfl := Option.some.inj h
      exact ⟨rfl, rfl, fun _ => ⟨rfl, rfl⟩⟩
    | some c => exact absurd h (by simp [reparent])
  | succ fuel ih =>
    cases child with
    | none =>
      obtain rfl := Option.some.inj h
      exact ⟨rfl, rfl, fun _ => ⟨rfl, rfl⟩⟩
    | some c =>
      obtain ⟨hsched, hzombies, hinfo⟩ := ih h
      refine ⟨hsched, hzombies, ?_⟩
      intro q
      rw [(hinfo q).1, (hinfo q).2]
      by_cases hq : q = c
      · simp [ProcTable.modInfo, hq]
      · simp [ProcTable.modInfo, Function.update_of_ne hq]

/-- The links after `process_exit`: the process is put in front of the zombie list. -/
theorem exitMark_links {s s' : ProcTable μ} {p : ProcRef} {code : Int} (h : exitMark s p code = some s') :
    s'.zombieList = some p ∧ (∀ q, (s'.info q).children = (s.info q).children) ∧
      (∀ q, (s'.info q).sibling = if q = p then s.zombieList else (s.info q).sibling) ∧
      ∀ q, s'.state q = if q = p then .zombie else s.state q := by
  unfold exitMark at h
  obtain ⟨t, ht, rfl⟩ := Option.map_eq_some_iff.mp h
  obtain ⟨hsched, hzombies, hinfo⟩ := reparent_frame ht
  have hcode : ∀ q, (((s.modInfo p fun x => { x with exitCode := code }).setState p .zombie).info q).children =
      (s.info q).children ∧
      (((s.modInfo p fun x => { x with exitCode := code }).setState p .zombie).info q).sibling =
        (s.info q).sibling := by
    intro q
    by_cases hq : q = p
    · simp [ProcTable.modInfo, ProcTable.setState, hq]
    · simp [ProcTable.modInfo, ProcTable.setState, Function.update_of_ne hq]
  refine ⟨rfl, ?_, ?_, ?_⟩
  · intro q
    rw [← (hcode q).1, ← (hinfo q).1]
    by_cases hq : q = p
    · simp [ProcTable.modInfo, hq]
    · simp [ProcTable.modInfo, Function.update_of_ne hq]
  · intro q
    by_cases hq : q = p
    · rw [if_pos hq, hq]
      simp only [ProcTable.modInfo, Function.update_self]
      exact hzombies
    · rw [if_neg hq, ← (hcode q).2, ← (hinfo q).2]
      simp [ProcTable.modInfo, Function.update_of_ne hq]
  · intro q
    show (t.sched.procs q).state = _
    rw [hsched]
    by_cases hq : q = p
    · simp [ProcTable.modInfo, ProcTable.setState, hq]
    · simp [ProcTable.modInfo, ProcTable.setState, ProcTable.state, hq]

/-- `process_reap_zombies` writes sibling links and the head of the zombie list. -/
theorem reapWalk_frame {fuel : Nat} {proc prev : Option ProcRef} {s s' : ProcTable μ}
    (h : reapWalk fuel proc prev s = some s') :
    s'.sched = s.sched ∧ ∀ q, (s'.info q).children = (s.info q).children := by
  induction fuel generalizing proc prev s with
  | zero =>
    cases proc with
    | none =>
      obtain rfl := Option.some.inj h
      exact ⟨rfl, fun _ => rfl⟩
    | some p => exact absurd h (by simp [reapWalk])
  | succ fuel ih =>
    cases proc with
    | none =>
      obtain rfl := Option.some.inj h
      exact ⟨rfl, fun _ => rfl⟩
    | some p =>
      unfold reapWalk at h
      dsimp only at h
      split at h
      · obtain ⟨hsched, hinfo⟩ := ih h
        cases prev with
        | none => exact ⟨hsched, hinfo⟩
        | some y =>
          refine ⟨hsched, ?_⟩
          intro q
          rw [hinfo q]
          by_cases hq : q = y
          · simp [ProcTable.modInfo, hq]
          · simp [ProcTable.modInfo, Function.update_of_ne hq]
      · exact ih h

/-! ## Nobody has children -/

def Childless (s : ProcTable μ) : Prop := ∀ p, (s.info p).children = none

/-- Without children `process_wait` returns at once, and returns no child. -/
theorem processWait_childless (ops : MemOps μ) {s : ProcTable μ} (h : Childless s) {cpu : Nat} {p : ProcRef}
    (hcur : (s.sched.runqueues cpu).current = some p) (pid : Int) (nohang : Bool) :
    processWait ops s cpu pid nohang =
      some (.returns (if nohang then 0 else -statusNotfound) none s) := by
  unfold processWait
  rw [hcur]
  simp only [h p]
  rw [show findZombie s pid maxProcesses none none = some .exhausted from rfl]
  cases nohang <;> rfl

theorem Childless.create {ops : MemOps μ} {s s' : ProcTable μ} {attr : Option ProcessAttr} {r : Int}
    (h : Childless s) (hc : processCreate ops s attr = some (r, s')) : Childless s' := by
  rcases processCreate_links hc with ⟨-, -, rfl⟩ | ⟨p, -, hlinks, -⟩
  · exact h
  · intro q
    by_cases hq : q = p
    · exact hq ▸ hlinks.children
    · exact (congrArg ProcInfo.children (hlinks.info q hq)).trans (h q)

/-- **Step lemma**: no step gives a process a child. -/
theorem Childless.step {ops : MemOps μ} {s s' : ProcTable μ} {op : FamilyOp} (h : Childless s)
    (hs : familyStep ops s op = some s') : Childless s' := by
  cases op with
  | create attr =>
    obtain ⟨⟨r, t⟩, hc, rfl⟩ := Option.map_eq_some_iff.mp hs
    exact h.create hc
  | exit cpu code =>
    obtain ⟨p, -, hp⟩ := Option.bind_eq_some_iff.mp hs
    intro q
    rw [(exitMark_links hp).2.1 q]
    exact h q
  | wait cpu pid nohang =>
    obtain ⟨r, hr, rfl⟩ := Option.map_eq_some_iff.mp hs
    cases hcur : (s.sched.runqueues cpu).current with
    | none =>
      unfold processWait at hr
      rw [hcur] at hr
      exact absurd hr (by simp)
    | some p =>
      rw [processWait_childless ops h hcur] at hr
      obtain rfl := Option.some.inj hr
      exact h
  | reap =>
    intro q
    rw [(reapWalk_frame hs).2 q]
    exact h q
  | sched op =>
    obtain ⟨t, -, rfl⟩ := Option.map_eq_some_iff.mp hs
    exact h

theorem Childless.init (sched : SchedState) (mem : μ) : Childless (processInit sched mem) := fun _ => rfl

/-! ## The contract of parent and child -/

/-- In a run from `process_init`, the process `P` creates one with PID `C`; the process
    whose PID is `C` exits with code `k`; and after more steps `P` runs on `cpu`, the state
    being `s`. -/
inductive ChildExited (ops : MemOps μ) (sched : SchedState) (mem : μ) (P : ProcRef) (C k : Int) (cpu : Nat)
    (s : ProcTable μ) : Prop where
  | intro {before between after : List FamilyOp} {s₁ s₂ s₃ s₄ : ProcTable μ} {attr : Option ProcessAttr}
      {cpu₁ cpu₂ : Nat} {child : ProcRef}
      (hbefore : run (familyStep ops) (processInit sched mem) before = some s₁)
      (hparent : (s₁.sched.runqueues cpu₁).current = some P)
      (hcreate : processCreate ops s₁ attr = some (C, s₂))
      (hpid : 0 < C)
      (hbetween : run (familyStep ops) s₂ between = some s₃)
      (hchild : (s₃.sched.runqueues cpu₂).current = some child ∧ (s₃.info child).pid = C)
      (hexit : familyStep ops s₃ (.exit cpu₂ k) = some s₄)
      (hafter : run (familyStep ops) s₄ after = some s)
      (hback : (s.sched.runqueues cpu).current = some P)

/-- What the parent is promised: the wait returns the child, and its exit code. -/
def WaitReturns (ops : MemOps μ) (s : ProcTable μ) (cpu : Nat) (C k : Int) (nohang : Bool) : Prop :=
  ∃ s', processWait ops s cpu C nohang = some (.returns C (some k) s')

theorem Childless.run {ops : MemOps μ} {is : List FamilyOp} {s s' : ProcTable μ} (h : Childless s)
    (hr : run (familyStep ops) s is = some s') : Childless s' :=
  (always_of_step (fun _ _ _ hs h => Childless.step hs h) h).last hr

theorem ChildExited.childless {ops : MemOps μ} {sched : SchedState} {mem : μ} {P : ProcRef} {C k : Int}
    {cpu : Nat} {s : ProcTable μ} (h : ChildExited ops sched mem P C k cpu s) : Childless s := by
  obtain ⟨hbefore, -, hcreate, -, hbetween, -, hexit, hafter, -⟩ := h
  have h₁ := (Childless.init sched mem).run hbefore
  have h₂ := h₁.create hcreate
  exact ((h₂.run hbetween).step hexit).run hafter

/-- **The contract never holds**: whoever the parent and the child are, whatever the exit
    code and whatever happens in between, the wait does not return the child. It comes back
    at once with 0 (`WNOHANG`) or "not found", and no status. -/
theorem wait_misses_child (ops : MemOps μ) (sched : SchedState) (mem : μ) (P : ProcRef) (C k : Int)
    (cpu : Nat) (nohang : Bool) (s : ProcTable μ) (h : ChildExited ops sched mem P C k cpu s) :
    ¬WaitReturns ops s cpu C k nohang ∧
      processWait ops s cpu C nohang = some (.returns (if nohang then 0 else -statusNotfound) none s) := by
  have hback : (s.sched.runqueues cpu).current = some P := by
    obtain ⟨-, -, -, -, -, -, -, -, hback⟩ := h
    exact hback
  have hwait := processWait_childless ops h.childless hback C nohang
  refine ⟨?_, hwait⟩
  rintro ⟨s', hs'⟩
  rw [hwait] at hs'
  have hstatus := (WaitResult.returns.inj (Option.some.inj hs')).2.1
  exact absurd hstatus (by simp)

/-- Memory that is handed out upwards and never taken back. -/
def upwardOps : MemOps Nat where
  kmalloc := fun next size => some (next, next + size)
  kcalloc := fun next n size => some (next, next + n * size)
  kfree := fun next _ => next
  pmmAlloc := fun next => (next, next + 4096)
  pmmFree := fun next _ => next
  vmmInit := fun next _ => next
  vmmFreeAll := fun next _ => next

def kernelAttr : ProcessAttr where
  entry := 0x40080000
  priority := prioNormal
  stackSize := 4096
  flags := 0

/-! A shell starts, creates a child and lets it run; the child exits with 7 and yields. -/

def shellBoot : ProcTable Nat := processInit (freshSched 1) 0x50000000

def shellRuns : ProcTable Nat :=
  (run (familyStep upwardOps) shellBoot [.create (some kernelAttr), .sched (.start 0)]).getD shellBoot

def childReady : Int × ProcTable Nat := (processCreate upwardOps shellRuns (some kernelAttr)).getD (0, shellRuns)

def childRuns : ProcTable Nat :=
  (run (familyStep upwardOps) childReady.2 [.sched (.yield 0)]).getD shellBoot

def childExits : ProcTable Nat := (familyStep upwardOps childRuns (.exit 0 7)).getD shellBoot

def shellBack : ProcTable Nat :=
  (run (familyStep upwardOps) childExits [.sched (.yield 0)]).getD shellBoot

theorem shellBack_childExited : ChildExited upwardOps (freshSched 1) 0x50000000 0 2 7 0 shellBack := by
  have hcreate : processCreate upwardOps shellRuns (some kernelAttr) = some (2, childReady.2) := by
    have hready : processCreate upwardOps shellRuns (some kernelAttr) = some childReady :=
      eq_some_getD (0, shellRuns) (by decide +kernel)
    have hpid : childReady.1 = 2 := by decide +kernel
    rw [hready, ← hpid]
  refine @ChildExited.intro _ _ _ _ _ _ _ _ _ _ _ _ shellRuns childReady.2 childRuns childExits _ 0 0 1
    (eq_some_getD shellBoot ?_) ?_ hcreate (by decide) (eq_some_getD shellBoot ?_) ?_
    (eq_some_getD shellBoot ?_) (eq_some_getD shellBoot ?_) ?_
  all_goals decide +kernel

theorem wait_misses_child_two :
    ¬WaitReturns upwardOps shellBack 0 2 7 false ∧
      processWait upwardOps shellBack 0 2 false = some (.returns (-statusNotfound) none shellBack) :=
  wait_misses_child upwardOps (freshSched 1) 0x50000000 0 2 7 0 false shellBack shellBack_childExited

/-- The promise is broken in the plainest of runs. -/
theorem shell_misses_child : ¬∀ (P : ProcRef) (C k : Int) (cpu : Nat) (nohang : Bool) (s : ProcTable Nat),
    ChildExited upwardOps (freshSched 1) 0x50000000 P C k cpu s → WaitReturns upwardOps s cpu C k nohang := by
  intro hall
  obtain ⟨s', hs'⟩ := hall 0 2 7 0 false shellBack shellBack_childExited
  have hcur : (shellBack.sched.runqueues 0).current = some 0 := by decide +kernel
  rw [processWait_childless upwardOps shellBack_childExited.childless hcur] at hs'
  exact absurd (WaitResult.returns.inj (Option.some.inj hs')).2.1 (by simp)

end Crimson.Proc
