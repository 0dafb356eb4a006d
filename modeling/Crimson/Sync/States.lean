import Crimson.Proc.Family
import Crimson.Proc.Pids
import Crimson.Sync.Model

/-!
# Process states and run queues

The state of a process is written in `sched.c`, `process.c` and `sync.c`, the queues in
`sched.c` alone. `StatesAgree` is the law that ties them: who is ready is on one run queue,
who sleeps or has exited is on none, and a CPU runs a process that is running.

Three kinds of call break it. `scheduler_yield` and an expiring `scheduler_tick` leave the
caller ready when it is itself the next to run; the calls that block do the same, since
they end in that yield. And the yield puts a process that has just been linked on a wait
list back on its run queue, so that the call that takes it off the list queues it a second
time. `StatesMeet` excludes the two situations, and under it the law holds over every run
(`states_agree`).
-/

set_option autoImplicit false

namespace Crimson.Sync

open Crimson.Lib Crimson.Sched Crimson.Proc

variable {μ : Type}

/-- The kernel's processes with the objects they block on. -/
structure SyncRun (μ : Type) where
  table : ProcTable μ
  mutex : Nat → Mutex
  sem : Nat → Semaphore
  barrier : Nat → Barrier

def SyncRun.setSched (r : SyncRun μ) (s : SchedState) : SyncRun μ :=
  { r with table := { r.table with sched := s } }

inductive StateOp where
  | start (cpu : Nat)
  | create (attr : Option ProcessAttr)
  | tick (cpu : Nat)
  | yield (cpu : Nat)
  | sleepOn (cpu wq : Nat)
  | wakeup (wq : Nat)
  | wakeupOne (wq : Nat)
  | exit (cpu : Nat) (code : Int)
  | lock (cpu m : Nat)
  | unlock (cpu m : Nat)
  | semWait (cpu i : Nat)
  | semSignal (i : Nat)
  | barrierWait (cpu b : Nat)
deriving DecidableEq, Repr

def stateStep (ops : MemOps μ) (r : SyncRun μ) : StateOp → Option (SyncRun μ)
  | .start cpu => (schedulerStart r.table.sched cpu).map r.setSched
  | .create attr => (processCreate ops r.table attr).map fun x => { r with table := x.2 }
  | .tick cpu => (schedulerTick r.table.sched cpu).map r.setSched
  | .yield cpu => some (r.setSched (schedulerYield r.table.sched cpu))
  | .sleepOn cpu wq => (schedulerSleepOn r.table.sched cpu wq).map r.setSched
  | .wakeup wq => (schedulerWakeup r.table.sched wq).map r.setSched
  | .wakeupOne wq => some (r.setSched (schedulerWakeupOne r.table.sched wq))
  | .exit cpu code => (processExit r.table cpu code).map fun t => { r with table := t }
  | .lock cpu m =>
    (mutexLock r.table.sched (r.mutex m) cpu).map fun x =>
      { r.setSched x.1 with mutex := Function.update r.mutex m x.2 }
  | .unlock cpu m =>
    (mutexUnlock r.table.sched (r.mutex m) cpu).map fun x =>
      { r.setSched x.1 with mutex := Function.update r.mutex m x.2 }
  | .semWait cpu i =>
    (semWait r.table.sched (r.sem i) cpu).map fun x =>
      { r.setSched x.1 with sem := Function.update r.sem i x.2 }
  | .semSignal i =>
    let x := semSignal r.table.sched (r.sem i)
    some { r.setSched x.1 with sem := Function.update r.sem i x.2 }
  | .barrierWait cpu b =>
    (barrierWait r.table.sched (r.barrier b) cpu).map fun x =>
      { r.setSched x.1 with barrier := Function.update r.barrier b x.2 }

/-! ## The law -/

/-- The process is on exactly one run queue. -/
def OnOneQueue (s : SchedState) (p : ProcRef) : Prop :=
  ∃ c q, (∃ l, c < s.numCpus ∧ q < schedQueues ∧ Linked s.link ((s.runqueues c).queues q) l ∧ p ∈ l) ∧
    ∀ c' q' l, c' < s.numCpus → q' < schedQueues → Linked s.link ((s.runqueues c').queues q') l → p ∈ l →
      c' = c ∧ q' = q

structure StatesAgree (s : SchedState) : Prop where
  asleep : ∀ p, (s.procs p).state = .sleeping ∨ (s.procs p).state = .zombie → ¬Queued s p
  ready : ∀ p, (s.procs p).state = .ready → OnOneQueue s p
  running : ∀ c p, (s.runqueues c).current = some p → (s.procs p).state = .running

/-- A CPU takes on only a process that was ready. -/
def SelectsReady (s s' : SchedState) : Prop :=
  ∀ c p, (s'.runqueues c).current = some p → (s.runqueues c).current ≠ some p → (s.procs p).state = .ready

/-! ## The guard -/

/-- When the CPU's current process goes back on its queue, another one is taken. -/
def OtherReady (s : SchedState) (cpu : Nat) : Prop :=
  ∀ p, (s.runqueues cpu).current = some p →
    ∃ q, q ≤ (s.procs p).priority ∧ (s.runqueues cpu).queues q ≠ none

/-- The first process of a wait list is asleep. -/
def HeadAsleep (s : SchedState) (head : Option ProcRef) : Prop :=
  ∀ p, head = some p → (s.procs p).state = .sleeping

/-- All the processes of a wait list are asleep. -/
def ListAsleep (s : SchedState) (head : Option ProcRef) : Prop :=
  ∃ l, Linked (fun p => (s.procs p).wqNext) head l ∧ ∀ p ∈ l, (s.procs p).state = .sleeping

/-- A process that gives its CPU up finds another one ready, and a process that is handed to
    the scheduler is asleep; and the calls' own preconditions. -/
def StatesMeet (r : SyncRun μ) : StateOp → Prop
  | .start cpu => (r.table.sched.runqueues cpu).current = none
  | .create attr => ∀ a, attr = some a → a.priority < schedQueues
  | .tick cpu =>
    (∃ p, (r.table.sched.runqueues cpu).current = some p ∧ Expires r.table.sched p) → OtherReady r.table.sched cpu
  | .yield cpu => OtherReady r.table.sched cpu
  | .sleepOn _ _ | .exit _ _ => True
  | .wakeup wq => ListAsleep r.table.sched (r.table.sched.waitHead wq)
  | .wakeupOne wq => HeadAsleep r.table.sched (r.table.sched.waitHead wq)
  | .lock cpu m =>
    (r.mutex m).locked ≠ 0 → (r.mutex m).owner ≠ (r.table.sched.runqueues cpu).current →
      OtherReady r.table.sched cpu
  | .unlock cpu m =>
    (r.mutex m).owner = (r.table.sched.runqueues cpu).current → HeadAsleep r.table.sched (r.mutex m).waiters
  | .semWait cpu i => (r.sem i).count - 1 < 0 → OtherReady r.table.sched cpu
  | .semSignal i => (r.sem i).count + 1 ≤ 0 → HeadAsleep r.table.sched (r.sem i).waiters
  | .barrierWait cpu b =>
    if (r.barrier b).target ≤ (r.barrier b).current + 1 then ListAsleep r.table.sched (r.barrier b).waiters
    else OtherReady r.table.sched cpu

/-! ## The invariant -/

/-- The queues are `Q`: those who are ready are on them, and those the CPUs run are running. -/
structure StateInv (s : SchedState) (Q : QueueMap) : Prop where
  queues : Queues s Q
  cpus : 0 < s.numCpus
  ready : ∀ p, Q.Has p ↔ (s.procs p).state = .ready
  ranged : ∀ p, Q.Has p → (s.procs p).cpu < s.numCpus
  running : ∀ c p, (s.runqueues c).current = some p →
    (s.procs p).state = .running ∧ (s.procs p).cpu = c ∧ c < s.numCpus
  prio : ∀ p, (s.procs p).priority < schedQueues
  idle : ∀ c, (s.runqueues c).idleTask = none

section

variable {s s' t : SchedState} {Q Q' : QueueMap} {p n : ProcRef} {c : Nat}

theorem StateInv.agree (h : StateInv s Q) : StatesAgree s := by
  have hmem : ∀ {c q l p}, Linked s.link ((s.runqueues c).queues q) l → p ∈ l → p ∈ Q c q := by
    intro c q l p hl hp
    rwa [Linked.unique (h.queues c q).queue.linked hl]
  refine ⟨?_, ?_, fun c p hc => (h.running c p hc).1⟩
  · rintro p hstate ⟨c, q, l, _, _, hl, hp⟩
    rw [(h.ready p).mp ⟨c, q, hmem hl hp⟩] at hstate
    simp at hstate
  · intro p hp
    have hq := (h.ready p).mpr hp
    have hcpu := h.ranged p hq
    obtain ⟨c, q, hin⟩ := hq
    obtain ⟨rfl, rfl⟩ := h.queues.home hin
    refine ⟨_, _, ⟨_, hcpu, h.prio p, (h.queues _ _).queue.linked, hin⟩, ?_⟩
    intro c' q' l _ _ hl hp'
    exact h.queues.home (hmem hl hp')

/-- The current process of a CPU, while a call writes its state before it gives the CPU up. -/
structure Marked (s : SchedState) (p : ProcRef) (t : SchedState) : Prop where
  state : ∀ r, r ≠ p → (t.procs r).state = (s.procs r).state
  link : ∀ r, (t.procs r).schedNext = (s.procs r).schedNext
  priority : ∀ r, (t.procs r).priority = (s.procs r).priority
  cpu : ∀ r, (t.procs r).cpu = (s.procs r).cpu
  runqueues : t.runqueues = s.runqueues
  numCpus : t.numCpus = s.numCpus

theorem Marked.refl (s : SchedState) (p : ProcRef) : Marked s p s :=
  ⟨fun _ _ => rfl, fun _ => rfl, fun _ => rfl, fun _ => rfl, rfl, rfl⟩

theorem Marked.modProc (s : SchedState) (p : ProcRef) {f : Process → Process}
    (hlink : (f (s.procs p)).schedNext = (s.procs p).schedNext)
    (hprio : (f (s.procs p)).priority = (s.procs p).priority) (hcpu : (f (s.procs p)).cpu = (s.procs p).cpu) :
    Marked s p (s.modProc p f) :=
  ⟨fun _ hr => congrArg Process.state (Function.update_of_ne hr _ _),
    fun r => field_update Process.schedNext s.procs p r hlink,
    fun r => field_update Process.priority s.procs p r hprio, fun r => field_update Process.cpu s.procs p r hcpu,
    rfl, rfl⟩

theorem Marked.queues (hm : Marked s p t) (h : Queues s Q) : Queues t Q := by
  refine h.congr ?_ fun r _ => ⟨hm.link r, hm.priority r, hm.cpu r⟩
  intro c
  rw [hm.runqueues]
  exact ⟨rfl, rfl, rfl⟩

theorem StateInv.requeueable (h : StateInv s Q) (hcur : (s.runqueues c).current = some p) (hm : Marked s p t) :
    Requeueable t Q c p := by
  obtain ⟨hstate, hcpu, _⟩ := h.running c p hcur
  refine ⟨by rw [hm.runqueues]; exact hcur, ?_, (hm.cpu p).trans hcpu, by rw [hm.priority]; exact h.prio p⟩
  intro hin
  rw [(h.ready p).mp hin] at hstate
  cases hstate

theorem StateInv.kept (h : StateInv s Q) (hk : Kept s Q s' Q') : StateInv s' Q' := by
  have hedit := hk.edit
  refine ⟨hk.queues, hedit.numCpus ▸ h.cpus, ?_, ?_, ?_, ?_, ?_⟩
  · intro p
    rw [hk.has, hedit.state]
    exact h.ready p
  · intro p hp
    rw [hedit.cpu, hedit.numCpus]
    exact h.ranged p ((hk.has p).mp hp)
  · intro c p hc
    rw [hedit.current] at hc
    rw [hedit.state, hedit.cpu, hedit.numCpus]
    exact h.running c p hc
  · intro p
    rcases hedit.boosted p with he | he
    · rw [he]
      exact h.prio p
    · rw [he]
      decide
  · intro c
    rw [hedit.idleTask]
    exact h.idle c

theorem StateInv.off (h : StateInv s Q) (hready : (s.procs p).state ≠ .ready) : ¬Q.Has p :=
  fun hin => hready ((h.ready p).mp hin)

/-- A process that is neither ready nor running is written. -/
theorem StateInv.write (h : StateInv s Q) {f : Process → Process} (hready : (s.procs p).state ≠ .ready)
    (hrun : (s.procs p).state ≠ .running) (hready' : (f (s.procs p)).state ≠ .ready)
    (hprio : (f (s.procs p)).priority < schedQueues) : StateInv (s.modProc p f) Q := by
  have hoff := h.off hready
  refine ⟨h.queues.modProc_off hoff f, h.cpus, ?_, ?_, ?_, ?_, h.idle⟩
  · intro r
    by_cases hr : r = p
    · subst hr
      simp [hoff, hready']
    · simpa [hr] using h.ready r
  · intro r hin
    have hr : r ≠ p := fun hr => hoff (hr ▸ hin)
    simpa [hr] using h.ranged r hin
  · intro c r hc
    have hr : r ≠ p := fun hr => hrun (hr ▸ (h.running c r hc).1)
    simpa [hr] using h.running c r hc
  · intro r
    by_cases hr : r = p
    · subst hr
      simpa using hprio
    · simpa [hr] using h.prio r

/-- A process that is neither ready nor running is written and given to the scheduler. -/
theorem StateInv.add (h : StateInv s Q) {f : Process → Process} (hready : (s.procs p).state ≠ .ready)
    (hrun : (s.procs p).state ≠ .running) (hprio : (f (s.procs p)).priority < schedQueues) :
    ∃ Q', StateInv (schedulerAddProcess (s.modProc p f) p) Q' := by
  have hoff := h.off hready
  have hwritten : ∀ r, r ≠ p → (s.modProc p f).procs r = s.procs r := fun r hr => Function.update_of_ne hr _ _
  obtain ⟨Q', ha⟩ := schedulerAddProcess_spec (h.queues.modProc_off hoff f) hoff (by simpa using hprio)
  refine ⟨Q', ha.queues, ha.numCpus ▸ h.cpus, ?_, ?_, ?_, ?_, ?_⟩
  · intro r
    rw [ha.has, ha.state]
    by_cases hr : r = p
    · simp [hr]
    · rw [if_neg hr, hwritten r hr]
      simpa [hr] using h.ready r
  · intro r hin
    rw [ha.cpu, ha.numCpus]
    by_cases hr : r = p
    · rw [if_pos hr]
      exact leastLoaded_lt h.cpus
    · rw [if_neg hr, hwritten r hr]
      exact h.ranged r (((ha.has r).mp hin).resolve_right hr)
  · intro c r hc
    rw [ha.current] at hc
    have hr : r ≠ p := fun hr => hrun (hr ▸ (h.running c r hc).1)
    rw [ha.state, ha.cpu, ha.numCpus, if_neg hr, if_neg hr, hwritten r hr]
    exact h.running c r hc
  · intro r
    rw [ha.priority]
    by_cases hr : r = p
    · subst hr
      simpa using hprio
    · rw [hwritten r hr]
      exact h.prio r
  · intro c
    rw [ha.idleTask]
    exact h.idle c

/-- A CPU's process goes back on its queue, and another one is taken. -/
theorem StateInv.switched (h : StateInv s Q) (hcur : (s.runqueues c).current = some p) (hm : Marked s p t)
    (hsw : Switched t Q c p n s' Q') (hne : n ≠ p) : StateInv s' Q' ∧ SelectsReady s s' := by
  obtain ⟨hpstate, hpcpu, hcpus⟩ := h.running c p hcur
  have hn : (s.procs n).state = .ready := (h.ready n).mp (hsw.source.resolve_left hne)
  have hnum : s'.numCpus = s.numCpus := hsw.numCpus.trans hm.numCpus
  have hcpu : ∀ r, (s'.procs r).cpu = (s.procs r).cpu := fun r => (hsw.cpu r).trans (hm.cpu r)
  have hcurrent : ∀ d, (s'.runqueues d).current = if d = c then some n else (s.runqueues d).current := by
    intro d
    rw [hsw.current, hm.runqueues]
  refine ⟨⟨hsw.queues, hnum ▸ h.cpus, ?_, ?_, ?_, ?_, ?_⟩, ?_⟩
  · intro r
    rw [hsw.has, hsw.state]
    by_cases hrn : r = n
    · simp [hrn, hne]
    · by_cases hrp : r = p
      · simp [hrp, hne.symm]
      · simpa [hrn, hrp, hm.state r hrp] using h.ready r
  · intro r hin
    rw [hcpu, hnum]
    rcases ((hsw.has r).mp hin).1 with hr | rfl
    · exact h.ranged r hr
    · exact hpcpu ▸ hcpus
  · intro d r hd
    rw [hcurrent] at hd
    rw [hsw.state, hcpu, hnum]
    by_cases hdc : d = c
    · rw [if_pos hdc] at hd
      obtain rfl := Option.some.inj hd
      exact ⟨by simp [hne], by rw [← hm.cpu, hsw.home, hdc], hdc ▸ hcpus⟩
    · -- another CPU runs neither the old process nor the new one
      rw [if_neg hdc] at hd
      obtain ⟨hstate, hhome, hlt⟩ := h.running d r hd
      have hrn : r ≠ n := by
        rintro rfl
        rw [hn] at hstate
        cases hstate
      have hrp : r ≠ p := by
        rintro rfl
        exact hdc (hhome.symm.trans hpcpu)
      simp only [hrn, hrp, false_and, if_false, hm.state r hrp]
      exact ⟨hstate, hhome, hlt⟩
  · intro r
    rw [hsw.priority, hm.priority]
    exact h.prio r
  · intro d
    rw [hsw.idleTask, hm.runqueues]
    exact h.idle d
  · intro d r hd hold
    rw [hcurrent] at hd
    by_cases hdc : d = c
    · rw [if_pos hdc] at hd
      exact Option.some.inj hd ▸ hn
    · rw [if_neg hdc] at hd
      exact absurd hd hold

/-- A CPU takes a process off its queues; the one it ran before, if any, sleeps. -/
theorem StateInv.dispatched (h : StateInv s Q) (hm : Marked s p t)
    (hleft : (s.runqueues c).current = none ∧ (t.procs p).state = (s.procs p).state ∨
      (s.runqueues c).current = some p ∧ (t.procs p).state = .sleeping)
    (hd : Dispatched t Q c n s' Q') : StateInv s' Q' ∧ SelectsReady s s' := by
  have hnum : s'.numCpus = s.numCpus := hd.numCpus.trans hm.numCpus
  have hcpu : ∀ r, (s'.procs r).cpu = (s.procs r).cpu := fun r => (hd.cpu r).trans (hm.cpu r)
  have hn : (s.procs n).state = .ready := (h.ready n).mp hd.source
  have hhome : (s.procs n).cpu = c := (hm.cpu n).symm.trans hd.home
  have hcurrent : ∀ d, (s'.runqueues d).current = if d = c then some n else (s.runqueues d).current := by
    intro d
    rw [hd.current, hm.runqueues]
  -- What has changed is the state of the process that left.
  have hstate : ∀ r, (t.procs r).state = (s.procs r).state ∨
      (s.runqueues c).current = some r ∧ (t.procs r).state = .sleeping := by
    intro r
    by_cases hr : r = p
    · rw [hr]
      exact hleft.imp And.right id
    · exact Or.inl (hm.state r hr)
  refine ⟨⟨hd.queues, hnum ▸ h.cpus, ?_, ?_, ?_, ?_, ?_⟩, ?_⟩
  · intro r
    rw [hd.has, hd.state]
    by_cases hrn : r = n
    · simp [hrn]
    · rcases hstate r with hsame | ⟨hcur, hsleep⟩
      · simpa [hrn, hsame] using h.ready r
      · have hoff : ¬Q.Has r := h.off (by rw [(h.running c r hcur).1]; decide)
        simp [hrn, hsleep, hoff]
  · intro r hin
    rw [hcpu, hnum]
    exact h.ranged r ((hd.has r).mp hin).1
  · intro d r hd'
    rw [hcurrent] at hd'
    rw [hd.state, hcpu, hnum]
    by_cases hdc : d = c
    · rw [if_pos hdc] at hd'
      obtain rfl := Option.some.inj hd'
      rw [if_pos rfl, hdc]
      exact ⟨rfl, hhome, hhome ▸ h.ranged n hd.source⟩
    · rw [if_neg hdc] at hd'
      obtain ⟨hrun, hat, hlt⟩ := h.running d r hd'
      have hrn : r ≠ n := by
        rintro rfl
        rw [hn] at hrun
        cases hrun
      rw [if_neg hrn]
      rcases hstate r with hsame | ⟨hcur, -⟩
      · rw [hsame]
        exact ⟨hrun, hat, hlt⟩
      · exact absurd (hat.symm.trans (h.running c r hcur).2.1) hdc
  · intro r
    rw [hd.priority, hm.priority]
    exact h.prio r
  · intro d
    rw [hd.idleTask, hm.runqueues]
    exact h.idle d
  · intro d r hd' hold
    rw [hcurrent] at hd'
    by_cases hdc : d = c
    · rw [if_pos hdc] at hd'
      exact Option.some.inj hd' ▸ hn
    · rw [if_neg hdc] at hd'
      exact absurd hd' hold

/-! ## The scheduler's calls -/

theorem selectsReady_of_current (hcur : ∀ c, (s'.runqueues c).current = (s.runqueues c).current) : SelectsReady s s' :=
  fun c _ hnew hold => absurd ((hcur c).symm.trans hnew) hold

theorem StateInv.other (h : StateInv s Q) (ho : OtherReady s c) (hcur : (s.runqueues c).current = some p) :
    ¬∀ q, q ≤ (s.procs p).priority → Q c q = [] := by
  intro hempty
  obtain ⟨q, hq, hhead⟩ := ho p hcur
  exact hhead ((h.queues c q).queue.linked.eq_nil_iff.mpr (hempty q hq))

/-- **`scheduler_yield`**, also by a process that a call has just marked. -/
theorem StateInv.yields (h : StateInv s Q) (hcur : (s.runqueues c).current = some p) (hm : Marked s p t)
    (ho : OtherReady s c) : ∃ Q', StateInv (schedulerYield t c) Q' ∧ SelectsReady s (schedulerYield t c) := by
  obtain ⟨n, Q', hsw⟩ := schedulerYield_spec (hm.queues h.queues) (h.requeueable hcur hm)
  refine ⟨Q', h.switched hcur hm hsw ?_⟩
  intro hn
  have hempty := hsw.stays.mp hn
  rw [hm.priority] at hempty
  exact h.other ho hcur hempty

theorem StateInv.yield (h : StateInv s Q) (ho : OtherReady s c) :
    ∃ Q', StateInv (schedulerYield s c) Q' ∧ SelectsReady s (schedulerYield s c) := by
  cases hcur : (s.runqueues c).current with
  | none =>
    rw [schedulerYield_none hcur]
    exact ⟨Q, h, selectsReady_of_current fun _ => rfl⟩
  | some p => exact h.yields hcur (Marked.refl s p) ho

theorem StateInv.tick (h : StateInv s Q)
    (ho : (∃ p, (s.runqueues c).current = some p ∧ Expires s p) → OtherReady s c)
    (hs : schedulerTick s c = some s') : ∃ Q', StateInv s' Q' ∧ SelectsReady s s' := by
  cases hcur : (s.runqueues c).current with
  | none =>
    rw [schedulerTick_none hcur] at hs
    obtain rfl := Option.some.inj hs
    exact ⟨Q, h, selectsReady_of_current fun _ => rfl⟩
  | some p =>
    obtain ⟨t, Q', ht, hcase⟩ := schedulerTick_spec h.queues (h.requeueable hcur (Marked.refl s p))
    obtain rfl := Option.some.inj (ht.symm.trans hs)
    rcases hcase with ⟨_, hk⟩ | ⟨hexp, n, u, Q'', hsw, hk⟩
    · exact ⟨Q', h.kept hk, selectsReady_of_current hk.edit.current⟩
    · have hne : n ≠ p := fun hn => h.other (ho ⟨p, hcur, hexp⟩) hcur (hsw.stays.mp hn)
      obtain ⟨hu, hsel⟩ := h.switched hcur (Marked.refl s p) hsw hne
      refine ⟨Q', hu.kept hk, ?_⟩
      intro d r hd hold
      exact hsel d r ((hk.edit.current d).symm.trans hd) hold

theorem StateInv.start (h : StateInv s Q) (hcur : (s.runqueues c).current = none)
    (hs : schedulerStart s c = some s') : ∃ Q', StateInv s' Q' ∧ SelectsReady s s' := by
  obtain ⟨n, Q', hd⟩ := schedulerStart_spec h.queues hs
  exact ⟨Q', h.dispatched (Marked.refl s n) (Or.inl ⟨hcur, rfl⟩) hd⟩

theorem StateInv.sleepOn (h : StateInv s Q) {wq : Nat} (hs : schedulerSleepOn s c wq = some s') :
    ∃ Q', StateInv s' Q' ∧ SelectsReady s s' := by
  cases hcur : (s.runqueues c).current with
  | none =>
    rw [schedulerSleepOn_none hcur] at hs
    obtain rfl := Option.some.inj hs
    exact ⟨Q, h, selectsReady_of_current fun _ => rfl⟩
  | some p =>
    obtain ⟨n, Q', hd⟩ := schedulerSleepOn_spec h.queues hcur (h.idle c) hs
    have hm : Marked s p (sleepMark s p wq) :=
      ⟨fun r hr => congrArg Process.state (Function.update_of_ne hr _ _),
        fun r => field_update Process.schedNext s.procs p r rfl,
        fun r => field_update Process.priority s.procs p r rfl, fun r => field_update Process.cpu s.procs p r rfl,
        rfl, rfl⟩
    have hsleep : ((sleepMark s p wq).procs p).state = .sleeping := by simp [sleepMark]
    exact ⟨Q', h.dispatched hm (Or.inr ⟨hcur, hsleep⟩) hd⟩

/-! ## Waking -/

/-- The processes `rest` are still to be woken, and no CPU has switched. -/
def Wakeable (s : SchedState) (t : SchedState) (rest : List ProcRef) : Prop :=
  (∃ Q, StateInv t Q) ∧ (∀ r ∈ rest, (t.procs r).state = .sleeping) ∧
    ∀ c, (t.runqueues c).current = (s.runqueues c).current

theorem Wakeable.add {rest : List ProcRef} (h : Wakeable s t (p :: rest)) (hp : p ∉ rest) {f : Process → Process}
    (hprio : (f (t.procs p)).priority = (t.procs p).priority) :
    Wakeable s (schedulerAddProcess (t.modProc p f) p) rest := by
  obtain ⟨⟨Q, hinv⟩, hasleep, hcur⟩ := h
  have hp' := hasleep p List.mem_cons_self
  refine ⟨?_, ?_, ?_⟩
  · exact hinv.add (by rw [hp']; decide) (by rw [hp']; decide) (hprio ▸ hinv.prio p)
  · intro r hr
    have hrp : r ≠ p := fun hrp => hp (hrp ▸ hr)
    unfold schedulerAddProcess
    rw [(enqueueProcess_edit _ p).state]
    simpa [hrp] using hasleep r (List.mem_cons_of_mem p hr)
  · intro c
    exact (schedulerAddProcess_current _ p c).trans (hcur c)

theorem StateInv.wakeable (h : StateInv s Q) {l : List ProcRef} (hl : ∀ r ∈ l, (s.procs r).state = .sleeping)
    (heads : Nat → Option ProcRef) : Wakeable s { s with waitHead := heads } l :=
  ⟨⟨Q, h.queues.congr (fun _ => ⟨rfl, rfl, rfl⟩) fun _ _ => ⟨rfl, rfl, rfl⟩, h.cpus, h.ready, h.ranged, h.running, h.prio,
    h.idle⟩, hl, fun _ => rfl⟩

theorem Wakeable.done (h : Wakeable s t []) : ∃ Q', StateInv t Q' ∧ SelectsReady s t := by
  obtain ⟨⟨Q, hinv⟩, -, hcur⟩ := h
  exact ⟨Q, hinv, selectsReady_of_current hcur⟩

theorem StateInv.wakeup (h : StateInv s Q) {wq : Nat} (hl : ListAsleep s (s.waitHead wq))
    (hs : schedulerWakeup s wq = some s') : ∃ Q', StateInv s' Q' ∧ SelectsReady s s' := by
  obtain ⟨l, hlinked, hasleep⟩ := hl
  obtain ⟨t, ht, hdone⟩ := wakeWalk_rule (I := Wakeable s) (fun t p rest ht hp => ht.add hp rfl)
    (h.wakeable hasleep (Function.update s.waitHead wq none)) hlinked (length_le_maxProcesses hlinked.nodup)
  obtain rfl := Option.some.inj (ht.symm.trans hs)
  exact hdone.done

theorem StateInv.wakeupOne (h : StateInv s Q) {wq : Nat} (hhead : HeadAsleep s (s.waitHead wq)) :
    ∃ Q', StateInv (schedulerWakeupOne s wq) Q' ∧ SelectsReady s (schedulerWakeupOne s wq) := by
  unfold schedulerWakeupOne
  cases hp : s.waitHead wq with
  | none => exact ⟨Q, h, selectsReady_of_current fun _ => rfl⟩
  | some p =>
    have hasleep : ∀ r ∈ [p], (s.procs r).state = .sleeping := by
      intro r hr
      rw [List.mem_singleton.mp hr]
      exact hhead p hp
    exact ((h.wakeable hasleep _).add List.not_mem_nil rfl).done

/-! ## The blocking calls -/

theorem marked_linkWaiter (s : SchedState) (head : Option ProcRef) (p : ProcRef) : Marked s p (linkWaiter s head p) :=
  Marked.modProc s p rfl rfl rfl

/-- A waiter is released. -/
theorem StateInv.release (h : StateInv s Q) (hp : (s.procs p).state = .sleeping) :
    ∃ Q', StateInv (schedulerAddProcess (releaseWaiter s p) p) Q' ∧
      SelectsReady s (schedulerAddProcess (releaseWaiter s p) p) := by
  obtain ⟨Q', hinv⟩ := h.add (f := fun x => { x with wqNext := none, state := .ready }) (by rw [hp]; decide)
    (by rw [hp]; decide) (h.prio p)
  exact ⟨Q', hinv, selectsReady_of_current (schedulerAddProcess_current _ p)⟩

theorem StateInv.mutexLock (h : StateInv s Q) {m : Mutex} {r : SchedState × Mutex}
    (ho : m.locked ≠ 0 → m.owner ≠ (s.runqueues c).current → OtherReady s c) (hs : mutexLock s m c = some r) :
    ∃ Q', StateInv r.1 Q' ∧ SelectsReady s r.1 := by
  unfold Sync.mutexLock at hs
  dsimp only at hs
  split at hs
  · obtain rfl := Option.some.inj hs
    exact ⟨Q, h, selectsReady_of_current fun _ => rfl⟩
  · next hlocked =>
    cases hcur : (s.runqueues c).current with
    | none => simp [hcur] at hs
    | some p =>
      simp only [hcur] at hs
      split at hs
      · obtain rfl := Option.some.inj hs
        exact ⟨Q, h, selectsReady_of_current fun _ => rfl⟩
      · next howner =>
        obtain rfl := Option.some.inj hs
        exact h.yields hcur (marked_linkWaiter s m.waiters p) (ho hlocked (by rw [hcur]; exact howner))

theorem StateInv.mutexUnlock (h : StateInv s Q) {m : Mutex} {r : SchedState × Mutex}
    (hhead : m.owner = (s.runqueues c).current → HeadAsleep s m.waiters) (hs : mutexUnlock s m c = some r) :
    ∃ Q', StateInv r.1 Q' ∧ SelectsReady s r.1 := by
  have hsame : SelectsReady s s := selectsReady_of_current fun _ => rfl
  unfold Sync.mutexUnlock at hs
  dsimp only at hs
  split at hs
  · split at hs
    · cases hs
    · obtain rfl := Option.some.inj hs
      exact ⟨Q, h, hsame⟩
  · next howner =>
    unfold mutexRelease at hs
    cases hw : m.waiters with
    | none =>
      simp only [hw] at hs
      obtain rfl := Option.some.inj hs
      exact ⟨Q, h, hsame⟩
    | some w =>
      simp only [hw] at hs
      obtain rfl := Option.some.inj hs
      exact h.release (hhead (not_not.mp howner) w hw)

theorem StateInv.semWait (h : StateInv s Q) {sem : Semaphore} {r : SchedState × Semaphore}
    (ho : sem.count - 1 < 0 → OtherReady s c) (hs : semWait s sem c = some r) :
    ∃ Q', StateInv r.1 Q' ∧ SelectsReady s r.1 := by
  have hsame : SelectsReady s s := selectsReady_of_current fun _ => rfl
  unfold Sync.semWait at hs
  cases hcur : (s.runqueues c).current with
  | none =>
    simp only [hcur] at hs
    split at hs
    · cases hs
    · obtain rfl := Option.some.inj hs
      exact ⟨Q, h, hsame⟩
  | some p =>
    simp only [hcur, semWaitSection] at hs
    by_cases hneg : sem.count - 1 < 0
    · simp only [hneg, if_true] at hs
      obtain rfl := Option.some.inj hs
      exact h.yields hcur (marked_linkWaiter s sem.waiters p) (ho hneg)
    · simp only [hneg, if_false] at hs
      obtain rfl := Option.some.inj hs
      exact ⟨Q, h, hsame⟩

theorem StateInv.semSignal (h : StateInv s Q) {sem : Semaphore}
    (hhead : sem.count + 1 ≤ 0 → HeadAsleep s sem.waiters) :
    ∃ Q', StateInv (semSignal s sem).1 Q' ∧ SelectsReady s (semSignal s sem).1 := by
  have hsame : SelectsReady s s := selectsReady_of_current fun _ => rfl
  unfold Sync.semSignal semSignalSection
  dsimp only
  cases hw : sem.waiters with
  | none => exact ⟨Q, h, hsame⟩
  | some w =>
    by_cases hle : sem.count + 1 ≤ 0
    · simp only [hle, if_true]
      exact h.release (hhead hle w hw)
    · simp only [hle, if_false]
      exact ⟨Q, h, hsame⟩

theorem StateInv.barrierWait (h : StateInv s Q) {b : Barrier} {r : SchedState × Barrier}
    (hb : if b.target ≤ b.current + 1 then ListAsleep s b.waiters else OtherReady s c)
    (hs : barrierWait s b c = some r) : ∃ Q', StateInv r.1 Q' ∧ SelectsReady s r.1 := by
  unfold Sync.barrierWait at hs
  cases hcur : (s.runqueues c).current with
  | none => simp [hcur] at hs
  | some p =>
    simp only [hcur, barrierArrive] at hs
    by_cases hlast : b.target ≤ b.current + 1
    · rw [if_pos hlast] at hb
      simp only [hlast, if_true] at hs
      obtain ⟨t, ht, rfl⟩ := Option.map_eq_some_iff.mp hs
      obtain ⟨l, hlinked, hasleep⟩ := hb
      have hnext : ∀ s p r, ((schedulerAddProcess (releaseWaiter s p) p).procs r).wqNext =
          if r = p then none else (s.procs r).wqNext := by
        intro s p r
        rw [(schedulerAddProcess_waits _ p).wqNext]
        by_cases hr : r = p <;> simp [releaseWaiter, hr]
      obtain ⟨u, hu, hdone⟩ := walk_rule barrierWake (I := Wakeable s)
        (fun fuel s => by cases fuel <;> rfl) (fun _ _ _ => rfl) hnext (fun t p rest ht hp => ht.add hp rfl)
        (h.wakeable hasleep s.waitHead) hlinked (length_le_maxProcesses hlinked.nodup)
      obtain rfl := Option.some.inj (hu.symm.trans ht)
      exact hdone.done
    · rw [if_neg hlast] at hb
      simp only [hlast, if_false] at hs
      obtain rfl := Option.some.inj hs
      exact h.yields hcur (marked_linkWaiter s b.waiters p) hb

end

/-! ## Processes -/

section

variable {t t' : ProcTable μ} {Q : QueueMap} {p : ProcRef}

theorem initSlot_sched (t : ProcTable μ) (p : ProcRef) (attr : ProcessAttr) :
    (initSlot (allocPid t).2 p (allocPid t).1 attr).sched =
      t.sched.modProc p fun _ => { Process.zero with state := .ready, priority := attr.priority } := by
  obtain ⟨bitmap, hbitmap⟩ := allocPid_bitmap t
  rw [hbitmap]
  rfl

theorem abandonSlot_sched (t : ProcTable μ) (p : ProcRef) (pid : Int) :
    (abandonSlot t p pid).sched = t.sched.modProc p fun x => { x with state := .unused } := by
  unfold abandonSlot freePid
  split <;> rfl

/-- **What `process_create` does to the scheduler**: nothing, or it writes a free slot and
    either gives it back or adds the process in it. -/
theorem processCreate_sched {ops : MemOps μ} {attr : Option ProcessAttr} {r : Int × ProcTable μ}
    (h : processCreate ops t attr = some r) :
    r.2.sched = t.sched ∨ ∃ a p, attr = some a ∧ t.state p = .unused ∧
      (r.2.sched = t.sched.modProc p (fun _ => { Process.zero with state := .unused, priority := a.priority }) ∨
        r.2.sched = schedulerAddProcess
          (t.sched.modProc p fun _ => { Process.zero with state := .ready, priority := a.priority }) p) := by
  obtain ⟨r, t'⟩ := r
  rcases processCreate_ways h with ⟨-, hsame, -⟩ | ⟨a, p, u, ha, -, hslot, -, hfilled, hend⟩
  · exact Or.inl (congrArg ProcTable.sched hsame)
  rcases freeSlot_spec t with ⟨hnone, -⟩ | ⟨q, hq, hunused, -⟩
  · exact absurd (hnone.symm.trans hslot) (by simp)
  obtain rfl : q = p := Option.some.inj (hq.symm.trans hslot)
  have hsched := hfilled.sched.trans (initSlot_sched t q a)
  refine Or.inr ⟨a, q, ha, hunused, ?_⟩
  rcases hend with ⟨-, rfl⟩ | ⟨-, rfl⟩
  · left
    rw [abandonSlot_sched, hsched]
    simp [SchedState.modProc]
  · right
    rw [← hsched]

theorem StateInv.create (h : StateInv t.sched Q) {ops : MemOps μ} {attr : Option ProcessAttr} {r : Int × ProcTable μ}
    (hprio : ∀ a, attr = some a → a.priority < schedQueues) (hc : processCreate ops t attr = some r) :
    ∃ Q', StateInv r.2.sched Q' ∧ SelectsReady t.sched r.2.sched := by
  rcases processCreate_sched hc with hsame | ⟨a, p, ha, hunused, hfail | hadd⟩
  · rw [hsame]
    exact ⟨Q, h, selectsReady_of_current fun _ => rfl⟩
  · have hunused : (t.sched.procs p).state = .unused := hunused
    rw [hfail]
    refine ⟨Q, h.write (by rw [hunused]; decide) (by rw [hunused]; decide) (by simp) (hprio a ha), ?_⟩
    exact selectsReady_of_current fun _ => rfl
  · have hunused : (t.sched.procs p).state = .unused := hunused
    rw [hadd]
    obtain ⟨Q', hinv⟩ := h.add (f := fun _ => { Process.zero with state := .ready, priority := a.priority })
      (by rw [hunused]; decide) (by rw [hunused]; decide) (hprio a ha)
    exact ⟨Q', hinv, selectsReady_of_current (schedulerAddProcess_current _ p)⟩

theorem exitMark_sched {code : Int} (h : exitMark t p code = some t') :
    t'.sched = t.sched.modProc p fun x => { x with state := .zombie } := by
  unfold exitMark at h
  obtain ⟨u, hu, rfl⟩ := Option.map_eq_some_iff.mp h
  exact (reparent_frame hu).1

/-- A process that exits and does not come back leaves another one running. -/
theorem StateInv.exit (h : StateInv t.sched Q) {c : Nat} {code : Int} (hs : processExit t c code = some t') :
    ∃ Q', StateInv t'.sched Q' ∧ SelectsReady t.sched t'.sched := by
  unfold processExit at hs
  cases hcur : (t.sched.runqueues c).current with
  | none => simp [hcur] at hs
  | some p =>
    simp only [hcur] at hs
    obtain ⟨u, hu, hs⟩ := Option.bind_eq_some_iff.mp hs
    have hm : Marked t.sched p u.sched := by
      rw [exitMark_sched hu]
      exact Marked.modProc t.sched p rfl rfl rfl
    obtain ⟨n, Q', hsw⟩ := schedulerYield_spec (hm.queues h.queues) (h.requeueable hcur hm)
    have hnext : ((schedulerYield u.sched c).runqueues c).current = some n := by
      rw [hsw.current, if_pos rfl]
    rw [hnext] at hs
    by_cases hn : n = p
    · rw [hn, if_pos rfl] at hs
      cases hs
    · rw [if_neg fun heq => hn (Option.some.inj heq)] at hs
      obtain rfl := Option.some.inj hs
      exact ⟨Q', h.switched hcur hm hsw hn⟩

end

/-! ## Runs -/

/-- **One call** that meets the guard keeps the invariant, and selects a ready process. -/
theorem stateStep_spec {ops : MemOps μ} {r r' : SyncRun μ} {op : StateOp} {Q : QueueMap}
    (h : StateInv r.table.sched Q) (hg : StatesMeet r op) (hs : stateStep ops r op = some r') :
    ∃ Q', StateInv r'.table.sched Q' ∧ SelectsReady r.table.sched r'.table.sched := by
  cases op with
  | start cpu =>
    obtain ⟨t, ht, rfl⟩ := Option.map_eq_some_iff.mp hs
    exact h.start hg ht
  | create attr =>
    obtain ⟨x, hx, rfl⟩ := Option.map_eq_some_iff.mp hs
    exact h.create hg hx
  | tick cpu =>
    obtain ⟨t, ht, rfl⟩ := Option.map_eq_some_iff.mp hs
    exact h.tick hg ht
  | yield cpu =>
    obtain rfl := Option.some.inj hs
    exact h.yield hg
  | sleepOn cpu wq =>
    obtain ⟨t, ht, rfl⟩ := Option.map_eq_some_iff.mp hs
    exact h.sleepOn ht
  | wakeup wq =>
    obtain ⟨t, ht, rfl⟩ := Option.map_eq_some_iff.mp hs
    exact h.wakeup hg ht
  | wakeupOne wq =>
    obtain rfl := Option.some.inj hs
    exact h.wakeupOne hg
  | exit cpu code =>
    obtain ⟨t, ht, rfl⟩ := Option.map_eq_some_iff.mp hs
    exact h.exit ht
  | lock cpu m =>
    obtain ⟨x, hx, rfl⟩ := Option.map_eq_some_iff.mp hs
    exact h.mutexLock hg hx
  | unlock cpu m =>
    obtain ⟨x, hx, rfl⟩ := Option.map_eq_some_iff.mp hs
    exact h.mutexUnlock hg hx
  | semWait cpu i =>
    obtain ⟨x, hx, rfl⟩ := Option.map_eq_some_iff.mp hs
    exact h.semWait hg hx
  | semSignal i =>
    obtain rfl := Option.some.inj hs
    exact h.semSignal hg
  | barrierWait cpu b =>
    obtain ⟨x, hx, rfl⟩ := Option.map_eq_some_iff.mp hs
    exact h.barrierWait hg hx

/-- The kernel as `scheduler_init` and `process_init` leave it, with objects on which nobody
    waits: mutexes, semaphores of the values `value` and barriers of the sizes `size`. -/
def kernelStart (numCpus : Nat) (mem : μ) (value : Nat → Int32) (size : Nat → UInt32) : SyncRun μ where
  table := processInit (schedulerInit ⟨fun _ => Process.zero, fun _ => Runqueue.empty, 0, fun _ => none⟩ numCpus) mem
  mutex := fun _ => mutexInit
  sem := fun i => semInit (value i)
  barrier := fun b => barrierInit (size b)

theorem kernelStart_inv {numCpus : Nat} (hcpus : 0 < numCpus) (mem : μ) (value : Nat → Int32) (size : Nat → UInt32) :
    StateInv (kernelStart numCpus mem value size).table.sched fun _ _ => [] := by
  have hnone : ∀ p, ¬QueueMap.Has (fun _ _ => []) p := by
    rintro p ⟨_, _, hp⟩
    exact List.not_mem_nil hp
  refine ⟨?_, hcpus, ?_, fun p hp => absurd hp (hnone p), ?_, fun _ => (by decide : 0 < schedQueues), fun _ => rfl⟩
  · intro c q
    exact ⟨TailQueue.empty, fun hnil => absurd rfl hnil, fun p hp => absurd hp List.not_mem_nil⟩
  · intro p
    exact iff_of_false (hnone p) (by decide : ProcState.unused ≠ .ready)
  · intro c p hp
    exact absurd hp (by simp [kernelStart, processInit, schedulerInit, Runqueue.empty])

/-- **State and queues agree** in every state of a run whose calls meet the guard, and no CPU
    selects a process that was not ready. -/
theorem states_agree (ops : MemOps μ) {numCpus : Nat} (hcpus : 0 < numCpus) (mem : μ) (value : Nat → Int32)
    (size : Nat → UInt32) (calls : List StateOp)
    (hg : Meets (stateStep ops) StatesMeet (kernelStart numCpus mem value size) calls) :
    Always (stateStep ops) (fun r => StatesAgree r.table.sched) (kernelStart numCpus mem value size) calls ∧
      AlwaysStep (stateStep ops) (fun r _ r' => SelectsReady r.table.sched r'.table.sched)
        (kernelStart numCpus mem value size) calls := by
  have hinit : ∃ Q, StateInv (kernelStart numCpus mem value size).table.sched Q :=
    ⟨_, kernelStart_inv hcpus mem value size⟩
  generalize kernelStart numCpus mem value size = r at hinit hg ⊢
  have hinv : Always (stateStep ops) (fun r => ∃ Q, StateInv r.table.sched Q) r calls := by
    refine always_of_meets ?_ hinit hg
    rintro s op s' ⟨Q, h⟩ hop hs
    obtain ⟨Q', h', -⟩ := stateStep_spec h hop hs
    exact ⟨Q', h'⟩
  constructor
  · refine hinv.mono ?_
    rintro s ⟨Q, h⟩
    exact h.agree
  · refine alwaysStep_of_always ?_ hinv hg
    rintro s op s' ⟨Q, h⟩ hop hs
    obtain ⟨Q', -, hsel⟩ := stateStep_spec h hop hs
    exact hsel

/-! ## Three runs on one CPU -/

/-- Semaphores of value 0 and barriers for two. -/
def oneCpu : SyncRun Nat := kernelStart 1 0x50000000 (fun _ => 0) fun _ => 2

/-- Two processes, the first of which runs and takes mutex 0. -/
def lockedCalls : List StateOp := [.create (some kernelAttr), .create (some kernelAttr), .start 0, .lock 0 0]

theorem meets_lockedCalls {rest : List StateOp}
    (hrest : ∀ r, run (stateStep upwardOps) oneCpu lockedCalls = some r → Meets (stateStep upwardOps) StatesMeet r rest) :
    Meets (stateStep upwardOps) StatesMeet oneCpu (lockedCalls ++ rest) := by
  refine meets_append ?_ hrest
  have hattr : ∀ a, some kernelAttr = some a → a.priority < schedQueues := by
    intro a ha
    obtain rfl := Option.some.inj ha
    decide
  intro r₁ h₁
  refine ⟨hattr, fun r₂ h₂ => ⟨hattr, fun r₃ h₃ => ⟨?_, fun r₄ h₄ => ⟨?_, trivial⟩⟩⟩⟩
  · have hr₂ : run (stateStep upwardOps) oneCpu (lockedCalls.take 2) = some r₂ := by
      simp [lockedCalls, run, h₁, h₂]
    have hnone : (run (stateStep upwardOps) oneCpu (lockedCalls.take 2)).map
        (fun r => (r.table.sched.runqueues 0).current) = some none := by decide +kernel
    rw [hr₂] at hnone
    exact Option.some.inj hnone
  · have hr₃ : run (stateStep upwardOps) oneCpu (lockedCalls.take 3) = some r₃ := by
      simp [lockedCalls, run, h₁, h₂, h₃]
    have hfree : (run (stateStep upwardOps) oneCpu (lockedCalls.take 3)).map (fun r => (r.mutex 0).locked) = some 0 := by
      decide +kernel
    rw [hr₃] at hfree
    exact fun hlocked => absurd (Option.some.inj hfree) hlocked

/-- The first process yields, and the second one has to wait for the mutex. -/
theorem states_agree_contended :
    Always (stateStep upwardOps) (fun r => StatesAgree r.table.sched) oneCpu (lockedCalls ++ [.yield 0, .lock 0 0]) := by
  refine (states_agree upwardOps Nat.one_pos _ _ _ _ (meets_lockedCalls fun r hr => ?_)).1
  have hother : ∀ {is : List StateOp} {r' : SyncRun Nat}, run (stateStep upwardOps) oneCpu is = some r' →
      (run (stateStep upwardOps) oneCpu is).map (fun r => ((r.table.sched.runqueues 0).queues prioNormal).isSome &&
        decide (∀ p : ProcRef, p ∈ (r.table.sched.runqueues 0).current → prioNormal ≤ (r.table.sched.procs p).priority)) =
          some true → OtherReady r'.table.sched 0 := by
    intro is r' hr' heval
    rw [hr'] at heval
    obtain ⟨hsome, hprio⟩ := Bool.and_eq_true_iff.mp (Option.some.inj heval)
    intro p hp
    refine ⟨prioNormal, of_decide_eq_true hprio p hp, ?_⟩
    intro hnone
    rw [hnone] at hsome
    cases hsome
  intro r₁ h₁
  refine ⟨hother hr (by decide +kernel), fun r₂ _ => ⟨fun _ _ => ?_, trivial⟩⟩
  refine @hother (lockedCalls ++ [.yield 0]) r₁ ?_ (by decide +kernel)
  rw [run_append, hr]
  simp [run, h₁]

/-- The only process waits for a semaphore: the call returns at once, with the process ready
    and running. And when the mutex is unlocked, the process that waits for it is queued
    behind itself. -/
theorem states_disagree :
    ¬Always (stateStep upwardOps) (fun r => StatesAgree r.table.sched) oneCpu
        [.create (some kernelAttr), .start 0, .semWait 0 0] ∧
      ¬Always (stateStep upwardOps) (fun r => StatesAgree r.table.sched) oneCpu
        (lockedCalls ++ [.yield 0, .lock 0 0, .unlock 0 0]) := by
  constructor
  · intro halways
    have hrun := eq_some_getD oneCpu (o := run (stateStep upwardOps) oneCpu
      [.create (some kernelAttr), .start 0, .semWait 0 0]) (by decide +kernel)
    have hagree := halways.last hrun
    have hstate := hagree.running 0 0 (by decide +kernel)
    revert hstate
    decide +kernel
  · intro halways
    have hrun := eq_some_getD oneCpu (o := run (stateStep upwardOps) oneCpu
      (lockedCalls ++ [.yield 0, .lock 0 0, .unlock 0 0])) (by decide +kernel)
    have hagree := halways.last hrun
    generalize (run (stateStep upwardOps) oneCpu
      (lockedCalls ++ [.yield 0, .lock 0 0, .unlock 0 0])).getD oneCpu = r at hrun hagree
    have heval : (run (stateStep upwardOps) oneCpu (lockedCalls ++ [.yield 0, .lock 0 0, .unlock 0 0])).map
        (fun r => (decide ((r.table.sched.procs 1).state = .ready), r.table.sched.numCpus, r.table.sched.link 1,
          decide (∀ q < schedQueues, (r.table.sched.runqueues 0).queues q = if q = prioNormal then some 1 else none))) =
        some (true, 1, some 1, true) := by decide +kernel
    rw [hrun] at heval
    obtain ⟨hready, hcpus, hlink, hqueues⟩ := by
      simpa only [Option.map_some, Option.some.injEq, Prod.mk.injEq] using heval
    obtain ⟨c, q, ⟨l, hc, hq, hl, hp⟩, -⟩ := hagree.ready 1 (of_decide_eq_true hready)
    obtain rfl : c = 0 := by omega
    rw [of_decide_eq_true hqueues q hq] at hl
    by_cases hnormal : q = prioNormal
    · -- The queue leads from the process back to itself.
      rw [if_pos hnormal] at hl
      have hloop : Segment r.table.sched.link (some 1) [1] (some 1) := ⟨rfl, hlink⟩
      exact hloop.not_linked (List.cons_ne_nil _ _) hl
    · rw [if_neg hnormal] at hl
      rw [Linked.eq_nil_iff hl |>.mp rfl] at hp
      exact List.not_mem_nil hp

end Crimson.Sync
