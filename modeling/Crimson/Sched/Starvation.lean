import Crimson.Sched.Frame

/-!
# Nobody waits on the low queue for long

`scheduler_tick` counts the ticks since the last boost, and boosts when they reach 200; but a tick that
switches to another process returns before the check. The boost is late by one tick at most: whoever is
switched to gets a quantum of at least 4 ticks, so the next tick switches to nobody. This is so on one
CPU whose idle task is set, as long as no realtime process is current at a tick.
-/

set_option autoImplicit false

namespace Crimson.Sched

open Crimson.Lib

/-! ## The counters -/

/-- The time slices and the ticks of the CPUs stay. -/
structure CountersKept (s s' : SchedState) : Prop where
  slice : ∀ r, (s'.procs r).timeSlice = (s.procs r).timeSlice
  ticks : ∀ d, (s'.runqueues d).ticks = (s.runqueues d).ticks

theorem CountersKept.refl (s : SchedState) : CountersKept s s := ⟨fun _ => rfl, fun _ => rfl⟩

theorem CountersKept.trans {s s' s'' : SchedState} (h : CountersKept s s') (h' : CountersKept s' s'') :
    CountersKept s s'' :=
  ⟨fun r => (h'.slice r).trans (h.slice r), fun d => (h'.ticks d).trans (h.ticks d)⟩

theorem CountersKept.modProc (s : SchedState) (p : ProcRef) {f : Process → Process}
    (hf : (f (s.procs p)).timeSlice = (s.procs p).timeSlice) : CountersKept s (s.modProc p f) :=
  ⟨fun r => field_update Process.timeSlice s.procs p r hf, fun _ => rfl⟩

theorem CountersKept.setNext (s : SchedState) (p : ProcRef) (v : Option ProcRef) :
    CountersKept s (s.modProc p fun x => { x with schedNext := v }) := CountersKept.modProc s p rfl

theorem CountersKept.modRq (s : SchedState) (c : Nat) {g : Runqueue → Runqueue}
    (hg : (g (s.runqueues c)).ticks = (s.runqueues c).ticks) : CountersKept s (s.modRq c g) :=
  ⟨fun _ => rfl, fun d => rq_field_update Runqueue.ticks s.runqueues c d hg⟩

theorem enqueueProcess_counters (s : SchedState) (p : ProcRef) : CountersKept s (enqueueProcess s p) := by
  unfold enqueueProcess
  refine CountersKept.trans ?_ (CountersKept.modRq _ _ rfl)
  refine (CountersKept.setNext s p none).trans ?_
  cases (((s.modProc p fun x => { x with schedNext := none }).runqueues (s.procs p).cpu).tails
      (s.procs p).priority) with
  | none => exact CountersKept.modRq _ _ rfl
  | some z => exact CountersKept.setNext _ z (some p)

theorem dequeueLoop_counters {fuel : Nat} {s : SchedState} {c : Nat} : CountersKept s (dequeueLoop fuel s c).2 := by
  induction fuel generalizing s with
  | zero => exact CountersKept.refl s
  | succ fuel ih =>
    unfold dequeueLoop
    by_cases hzero : (s.runqueues c).queueBitmap = 0
    · simp only [hzero, if_true]
      exact CountersKept.refl s
    · simp only [hzero, if_false]
      cases (s.runqueues c).queues (ctz (s.runqueues c).queueBitmap) with
      | none => exact (CountersKept.modRq s c rfl).trans ih
      | some p =>
        refine CountersKept.trans ?_ (CountersKept.setNext _ p none)
        split
        · exact (CountersKept.modRq s c rfl).trans (CountersKept.modRq _ c rfl)
        · exact CountersKept.modRq s c rfl

theorem dequeueHighest_counters (s : SchedState) (c : Nat) : CountersKept s (dequeueHighest s c).2 :=
  dequeueLoop_counters

theorem boostWalk_counters {fuel : Nat} {proc : Option ProcRef} {s s' : SchedState}
    (h : boostWalk fuel proc s = some s') : CountersKept s s' := by
  induction fuel generalizing proc s with
  | zero =>
    cases proc with
    | none => exact Option.some.inj h ▸ CountersKept.refl s
    | some p => exact absurd h (by simp [boostWalk])
  | succ fuel ih =>
    cases proc with
    | none => exact Option.some.inj h ▸ CountersKept.refl s
    | some p =>
      have hcut : CountersKept s (s.modProc p fun x => { x with priority := prioNormal, schedNext := none }) :=
        CountersKept.modProc s p rfl
      exact (hcut.trans (enqueueProcess_counters _ p)).trans (ih h)

/-- A boost of the only CPU: it leaves the low queue empty, and the counters alone. -/
theorem priorityBoost_one {s s' : SchedState} (hcpus : s.numCpus = 1) (h : priorityBoost s = some s') :
    CountersKept s s' ∧ (s'.runqueues 0).queues prioLow = none := by
  rw [priorityBoost, hcpus] at h
  simp only [List.range_one, List.foldlM_cons, List.foldlM_nil] at h
  obtain ⟨t, ht, hs⟩ := Option.bind_eq_some_iff.mp h
  obtain rfl := Option.some.inj hs
  obtain ⟨u, hu, rfl⟩ := Option.map_eq_some_iff.mp ht
  exact ⟨(boostWalk_counters hu).trans (CountersKept.modRq u 0 rfl), by simp⟩

/-- The CPU's current process has just been given its whole quantum. -/
def Fresh (s : SchedState) : Prop :=
  ∃ n, (s.runqueues 0).current = some n ∧ (s.procs n).timeSlice = timeQuantum (s.procs n).priority

theorem dispatch_fresh (s : SchedState) (n : ProcRef) : Fresh (dispatch s 0 n) :=
  ⟨n, by simp [dispatch], by simp [dispatch]⟩

theorem dispatch_ticks (s : SchedState) (n : ProcRef) (d : Nat) :
    ((dispatch s 0 n).runqueues d).ticks = (s.runqueues d).ticks :=
  rq_field_update Runqueue.ticks s.runqueues 0 d rfl

/-- Two fields of the CPU's counters, as a call that is not a tick leaves them. -/
structure SwitchCounted (s s' : SchedState) : Prop where
  ticks : (s'.runqueues 0).ticks = (s.runqueues 0).ticks
  fresh : Fresh s'

theorem schedulerStart_counted {s s' : SchedState} (h : schedulerStart s 0 = some s') : SwitchCounted s s' := by
  unfold schedulerStart at h
  have hcounters := dequeueHighest_counters s 0
  generalize dequeueHighest s 0 = d at h hcounters
  obtain ⟨n, t⟩ := d
  cases n with
  | none => exact absurd h (by simp)
  | some n =>
    obtain rfl := Option.some.inj h
    exact ⟨(dispatch_ticks t n 0).trans (hcounters.ticks 0), dispatch_fresh t n⟩

theorem schedulerYield_counted {s : SchedState} {p : ProcRef} (hcur : (s.runqueues 0).current = some p) :
    SwitchCounted s (schedulerYield s 0) := by
  have hcounters := ((CountersKept.modProc s p (f := fun x => { x with state := .ready }) rfl).trans
    (enqueueProcess_counters _ p)).trans (dequeueHighest_counters _ 0)
  have hedit := (enqueueProcess_edit (s.modProc p fun x => { x with state := .ready }) p).trans
    (dequeueHighest_edit _ 0)
  simp only [schedulerYield, hcur]
  generalize dequeueHighest (enqueueProcess (s.modProc p fun x => { x with state := .ready }) p) 0 = d at hcounters hedit
  obtain ⟨n, t⟩ := d
  have hself : SwitchCounted s (t.modProc p fun x => { x with timeSlice := timeQuantum x.priority }) := by
    refine ⟨hcounters.ticks 0, p, ?_, by simp⟩
    exact (hedit.current 0).trans hcur
  cases n with
  | none => exact hself
  | some n =>
    dsimp only
    by_cases hn : n = p
    · rw [if_pos hn]
      exact hself
    · rw [if_neg hn]
      exact ⟨(dispatch_ticks t n 0).trans (hcounters.ticks 0), dispatch_fresh t n⟩

theorem schedulerSleepOn_counted {s s' : SchedState} {p : ProcRef} {wq : Nat}
    (hcur : (s.runqueues 0).current = some p) (h : schedulerSleepOn s 0 wq = some s') : SwitchCounted s s' := by
  have hcounters := dequeueHighest_counters (sleepMark s p wq) 0
  simp only [schedulerSleepOn, hcur] at h
  generalize dequeueHighest (sleepMark s p wq) 0 = d at h hcounters
  obtain ⟨n, t⟩ := d
  dsimp only at h
  cases hn : n.or (t.runqueues 0).idleTask with
  | none =>
    rw [hn] at h
    exact absurd h (by simp)
  | some n =>
    rw [hn] at h
    obtain rfl := Option.some.inj h
    exact ⟨(dispatch_ticks t n 0).trans (hcounters.ticks 0), dispatch_fresh t n⟩

/-- What a tick does to the counters of the only CPU. -/
inductive TickCounted (s : SchedState) (p : ProcRef) (s' : SchedState) : Prop
  | counted (small : (s.runqueues 0).ticks + 1 < priorityBoostInterval)
      (ticks : (s'.runqueues 0).ticks = (s.runqueues 0).ticks + 1)
  | boosted (ticks : (s'.runqueues 0).ticks = 0) (low : (s'.runqueues 0).queues prioLow = none)
  | switched (expires : (s.procs p).timeSlice ≤ 1)
      (ticks : (s'.runqueues 0).ticks = (s.runqueues 0).ticks + 1) (fresh : Fresh s')

theorem tickBoost_counted {s t s' : SchedState} {p : ProcRef} (hcpus : t.numCpus = 1)
    (hticks : (t.runqueues 0).ticks = (s.runqueues 0).ticks + 1) (h : tickBoost t 0 = some s') :
    TickCounted s p s' := by
  rw [tickBoost, hticks] at h
  by_cases hlate : priorityBoostInterval ≤ (s.runqueues 0).ticks + 1
  · rw [if_pos hlate] at h
    obtain ⟨hkept, hlow⟩ := priorityBoost_one (s := t.modRq 0 fun rq => { rq with ticks := 0 }) hcpus h
    refine .boosted ?_ hlow
    rw [hkept.ticks]
    simp
  · rw [if_neg hlate] at h
    obtain rfl := Option.some.inj h
    exact .counted (UInt32.not_le.mp hlate) hticks

/-- A slice that has expired: the process switches to itself, and the boost check follows, or to another one. -/
theorem tickSwitch_counted {t s' : SchedState} {p : ProcRef} {again : Bool} (h : tickSwitch t 0 p = some (again, s')) :
    (s'.runqueues 0).ticks = (t.runqueues 0).ticks ∧ s'.numCpus = t.numCpus ∧ (again = false → Fresh s') := by
  have hcounters := ((CountersKept.modProc t p (f := fun x => { x with state := .ready }) rfl).trans
    (enqueueProcess_counters _ p)).trans (dequeueHighest_counters _ 0)
  have hedit := (enqueueProcess_edit (t.modProc p fun x => { x with state := .ready }) p).trans
    (dequeueHighest_edit _ 0)
  simp only [tickSwitch] at h
  generalize dequeueHighest (enqueueProcess (t.modProc p fun x => { x with state := .ready }) p) 0 = d at h hcounters hedit
  obtain ⟨n, u⟩ := d
  dsimp only at h
  cases hn : n.or (u.runqueues 0).idleTask with
  | none =>
    rw [hn] at h
    exact absurd h (by simp)
  | some n =>
    rw [hn] at h
    dsimp only at h
    by_cases hnp : n ≠ p
    · rw [if_pos hnp] at h
      obtain ⟨rfl, rfl⟩ := Prod.mk.inj (Option.some.inj h)
      exact ⟨(dispatch_ticks u n 0).trans (hcounters.ticks 0), hedit.numCpus, fun _ => dispatch_fresh u n⟩
    · rw [if_neg hnp] at h
      obtain ⟨rfl, rfl⟩ := Prod.mk.inj (Option.some.inj h)
      exact ⟨hcounters.ticks 0, hedit.numCpus, fun hfalse => absurd hfalse (by decide)⟩

/-- **One tick of the only CPU**: counted, or a boost, or a switch that the boost check is skipped for. -/
theorem schedulerTick_counted {s s' : SchedState} {p : ProcRef} (hcpus : s.numCpus = 1)
    (hcur : (s.runqueues 0).current = some p) (hrt : (s.procs p).priority ≠ prioRealtime)
    (h : schedulerTick s 0 = some s') : TickCounted s p s' := by
  have hedit : QueueEdit s (tickCount s 0 p) :=
    (QueueEdit.counters s p rfl).trans (QueueEdit.setRq _ 0 rfl rfl)
  have hticks : ((tickCount s 0 p).runqueues 0).ticks = (s.runqueues 0).ticks + 1 := by simp [tickCount]
  have hslice : ((tickCount s 0 p).procs p).timeSlice = (s.procs p).timeSlice := by simp [tickCount]
  have hcount : (tickCount s 0 p).numCpus = 1 := hcpus
  simp only [schedulerTick, hcur, hedit.priority, if_neg hrt] at h
  generalize tickCount s 0 p = s₁ at *
  have hzero : ((s₁.modProc p fun x =>
      { x with timeSlice := if 0 < x.timeSlice then x.timeSlice - 1 else x.timeSlice }).procs p).timeSlice = 0 ↔
        (s.procs p).timeSlice ≤ 1 := by
    rw [SchedState.modProc_procs, Function.update_self]
    simp only [hslice]
    exact slice_zero _
  simp only [hzero] at h
  have hticks₂ : ((s₁.modProc p fun x =>
      { x with timeSlice := if 0 < x.timeSlice then x.timeSlice - 1 else x.timeSlice }).runqueues 0).ticks =
        (s.runqueues 0).ticks + 1 := hticks
  have hcount₂ : (s₁.modProc p fun x =>
      { x with timeSlice := if 0 < x.timeSlice then x.timeSlice - 1 else x.timeSlice }).numCpus = 1 := hcount
  generalize (s₁.modProc p fun x =>
      { x with timeSlice := if 0 < x.timeSlice then x.timeSlice - 1 else x.timeSlice }) = s₂ at h hticks₂ hcount₂
  by_cases hexp : (s.procs p).timeSlice ≤ 1
  · rw [if_pos hexp] at h
    cases hsw : tickSwitch s₂ 0 p with
    | none =>
      rw [hsw] at h
      exact absurd h (by simp)
    | some d =>
      obtain ⟨again, t⟩ := d
      rw [hsw] at h
      obtain ⟨htick, hnum, hfresh⟩ := tickSwitch_counted hsw
      cases again with
      | false =>
        obtain rfl := Option.some.inj h
        exact .switched hexp (htick.trans hticks₂) (hfresh rfl)
      | true => exact tickBoost_counted (hnum.trans hcount₂) (htick.trans hticks₂) h
  · rw [if_neg hexp] at h
    exact tickBoost_counted hcount₂ hticks₂ h

/-! ## The runs -/

/-- One CPU whose idle task is set, before anything is scheduled. -/
def bootOneCpu (s : SchedState) (idle : ProcRef) : SchedState := schedulerSetIdle (schedulerInit s 1) 0 idle

/-- The calls of the runs, all on the one CPU: no realtime process is current at a tick, and a process
    that is added is neither queued nor running. -/
def OneCpuPre (s : SchedState) : SchedOp → Prop
  | .tick cpu => cpu = 0 ∧ ∀ p, (s.runqueues 0).current = some p → (s.procs p).priority ≠ prioRealtime
  | .start cpu | .yield cpu | .sleepOn cpu _ => cpu = 0
  | .addProcess proc => (s.procs proc).priority < schedQueues ∧ ¬Queued s proc ∧ ¬Running s proc
  | _ => False

/-- The process is reached from the head of queue `q`. -/
def OnQueue (s : SchedState) (q : Nat) (p : ProcRef) : Prop :=
  ∃ l, Linked s.link ((s.runqueues 0).queues q) l ∧ p ∈ l

/-- Between two calls at most 200 ticks are counted, and 201 inside of a tick. -/
def TicksBounded (s : SchedState) : Prop :=
  (s.runqueues 0).ticks.toNat ≤ 200 ∧
    ∀ p, (s.runqueues 0).current = some p → ((tickCount s 0 p).runqueues 0).ticks.toNat ≤ 201

/-- A call takes the process off the low queue to run it, or is a tick that moves it to the normal queue. -/
def LeavesLow (p : ProcRef) (op : SchedOp) (s' : SchedState) : Prop :=
  (s'.runqueues 0).current = some p ∨
    op = .tick 0 ∧ OnQueue s' prioNormal p ∧ (s'.procs p).priority = prioNormal

/-! ## The invariant -/

/-- The queues are `Q`, and nobody on them runs. -/
structure OneCpu (s : SchedState) (Q : QueueMap) : Prop where
  cpus : s.numCpus = 1
  queues : Queues s Q
  ranged : ∀ p, Q.Has p → (s.procs p).priority < schedQueues ∧ (s.procs p).cpu = 0
  running : ∀ p, (s.runqueues 0).current = some p →
    ¬Q.Has p ∧ (s.procs p).cpu = 0 ∧ (s.procs p).priority < schedQueues
  idle : ∃ i, (s.runqueues 0).idleTask = some i ∧ (s.procs i).priority < schedQueues

/-- When a boost is due, the current process has two ticks left at least. -/
def BoostInTime (s : SchedState) : Prop :=
  (s.runqueues 0).ticks.toNat ≤ 199 ∨
    (s.runqueues 0).ticks.toNat = 200 ∧ ∃ p, (s.runqueues 0).current = some p ∧ 2 ≤ (s.procs p).timeSlice

theorem two_le_timeQuantum {q : Nat} (h : q < schedQueues) : 2 ≤ timeQuantum q := by
  have hall : ∀ q < schedQueues, 2 ≤ timeQuantum q := by decide
  exact hall q h

theorem OneCpu.onQueue_iff {s : SchedState} {Q : QueueMap} (h : OneCpu s Q) (q : Nat) (p : ProcRef) :
    OnQueue s q p ↔ Q.Has p ∧ (s.procs p).priority = q := by
  constructor
  · rintro ⟨l, hl, hp⟩
    rw [← Linked.unique (h.queues 0 q).queue.linked hl] at hp
    exact ⟨⟨0, q, hp⟩, ((h.queues 0 q).home p hp).1⟩
  · rintro ⟨hp, rfl⟩
    have hcpu := (h.ranged p hp).2
    obtain ⟨c, q, hpq⟩ := hp
    obtain ⟨rfl, rfl⟩ := h.queues.home hpq
    rw [hcpu] at hpq
    exact ⟨_, (h.queues 0 _).queue.linked, hpq⟩

theorem OneCpu.queued_iff {s : SchedState} {Q : QueueMap} (h : OneCpu s Q) (p : ProcRef) : Queued s p ↔ Q.Has p := by
  constructor
  · rintro ⟨c, q, l, _, _, hl, hp⟩
    refine ⟨c, q, ?_⟩
    rwa [Linked.unique (h.queues c q).queue.linked hl]
  · intro hp
    obtain ⟨l, hl, hpl⟩ := (h.onQueue_iff _ p).mpr ⟨hp, rfl⟩
    exact ⟨0, _, l, by rw [h.cpus]; decide, (h.ranged p hp).1, hl, hpl⟩

theorem OneCpu.requeueable {s : SchedState} {Q : QueueMap} (h : OneCpu s Q) {p : ProcRef}
    (hcur : (s.runqueues 0).current = some p) : Requeueable s Q 0 p := by
  obtain ⟨hoff, hcpu, hprio⟩ := h.running p hcur
  exact ⟨hcur, hoff, hcpu, hprio⟩

theorem not_has_nil (p : ProcRef) : ¬ QueueMap.Has (fun _ _ => []) p := by
  rintro ⟨_, _, hp⟩
  exact List.not_mem_nil hp

theorem oneCpu_boot {s : SchedState} {idle : ProcRef} (h : (s.procs idle).priority < schedQueues) :
    OneCpu (bootOneCpu s idle) fun _ _ => [] := by
  have hboot : bootOneCpu s idle =
      (schedulerInit s 1).modRq 0 fun rq => { rq with idleTask := some idle } := by
    rw [bootOneCpu, schedulerSetIdle, if_neg (by simp [schedulerInit])]
  have hempty : Queues (schedulerInit s 1) fun _ _ => [] := fun c q =>
    ⟨TailQueue.empty, fun hnil => absurd rfl hnil, fun p hp => absurd hp List.not_mem_nil⟩
  rw [hboot]
  refine ⟨rfl, hempty.modRq_keep rfl rfl rfl, fun p hp => absurd hp (not_has_nil p), ?_, idle, by simp, h⟩
  intro p hp
  simp [schedulerInit, Runqueue.empty] at hp

/-! ## What each call keeps -/

variable {s s' : SchedState} {Q Q' : QueueMap} {p n : ProcRef}

/-- A boost, or nothing but counters. -/
theorem OneCpu.kept (h : OneCpu s Q) (hk : Kept s Q s' Q') : OneCpu s' Q' := by
  have hprio (r : ProcRef) (hr : (s.procs r).priority < schedQueues) : (s'.procs r).priority < schedQueues := by
    obtain he | he := hk.edit.boosted r
    · rwa [he]
    · rw [he]
      decide
  refine ⟨hk.edit.numCpus.trans h.cpus, hk.queues, ?_, ?_, ?_⟩
  · intro r hr
    obtain ⟨h₁, h₂⟩ := h.ranged r ((hk.has r).mp hr)
    exact ⟨hprio r h₁, (hk.edit.cpu r).trans h₂⟩
  · intro r hr
    rw [hk.edit.current] at hr
    obtain ⟨h₁, h₂, h₃⟩ := h.running r hr
    exact ⟨fun hin => h₁ ((hk.has r).mp hin), (hk.edit.cpu r).trans h₂, hprio r h₃⟩
  · obtain ⟨i, hi, hprioi⟩ := h.idle
    exact ⟨i, (hk.edit.idleTask 0).trans hi, hprio i hprioi⟩

theorem OneCpu.added (h : OneCpu s Q) (ha : Added s Q p s' Q') (hrun : ¬Running s p)
    (hprio : (s.procs p).priority < schedQueues) : OneCpu s' Q' := by
  have hleast : leastLoaded s = 0 := by
    have hlt := @leastLoaded_lt s (by rw [h.cpus]; decide)
    rw [h.cpus] at hlt
    omega
  refine ⟨ha.numCpus.trans h.cpus, ha.queues, ?_, ?_, ?_⟩
  · intro r hr
    rw [ha.priority, ha.cpu, hleast]
    by_cases hrp : r = p
    · rw [if_pos hrp, hrp]
      exact ⟨hprio, rfl⟩
    · rw [if_neg hrp]
      exact h.ranged r (((ha.has r).mp hr).resolve_right hrp)
  · intro r hr
    rw [ha.current] at hr
    obtain ⟨h₁, h₂, h₃⟩ := h.running r hr
    have hrp : r ≠ p := fun hrp => hrun ⟨0, hrp ▸ hr⟩
    rw [ha.priority, ha.cpu, if_neg hrp, ha.has]
    exact ⟨fun hin => hin.elim h₁ hrp, h₂, h₃⟩
  · obtain ⟨i, hi, hprioi⟩ := h.idle
    exact ⟨i, (ha.idleTask 0).trans hi, by rwa [ha.priority]⟩

theorem OneCpu.dispatched (h : OneCpu s Q) (hd : Dispatched s Q 0 n s' Q') : OneCpu s' Q' := by
  refine ⟨hd.numCpus.trans h.cpus, hd.queues, ?_, ?_, ?_⟩
  · intro r hr
    rw [hd.priority, hd.cpu]
    exact h.ranged r ((hd.has r).mp hr).1
  · intro r hr
    rw [hd.current, if_pos rfl] at hr
    obtain rfl := Option.some.inj hr
    obtain ⟨h₁, h₂⟩ := h.ranged n hd.source
    rw [hd.has, hd.priority, hd.cpu]
    exact ⟨fun hin => hin.2 rfl, h₂, h₁⟩
  · obtain ⟨i, hi, hprioi⟩ := h.idle
    exact ⟨i, (hd.idleTask 0).trans hi, by rwa [hd.priority]⟩

theorem OneCpu.switched (h : OneCpu s Q) (hcur : (s.runqueues 0).current = some p)
    (hsw : Switched s Q 0 p n s' Q') : OneCpu s' Q' := by
  obtain ⟨hoff, hcpu, hprio⟩ := h.running p hcur
  have hranged (r : ProcRef) (hr : Q.Has r ∨ r = p) : (s.procs r).priority < schedQueues ∧ (s.procs r).cpu = 0 := by
    obtain hr | rfl := hr
    · exact h.ranged r hr
    · exact ⟨hprio, hcpu⟩
  refine ⟨hsw.numCpus.trans h.cpus, hsw.queues, ?_, ?_, ?_⟩
  · intro r hr
    rw [hsw.priority, hsw.cpu]
    exact hranged r ((hsw.has r).mp hr).1
  · intro r hr
    rw [hsw.current, if_pos rfl] at hr
    obtain rfl := Option.some.inj hr
    obtain ⟨h₁, h₂⟩ := hranged n hsw.source.symm
    rw [hsw.has, hsw.priority, hsw.cpu]
    exact ⟨fun hin => hin.2 rfl, h₂, h₁⟩
  · obtain ⟨i, hi, hprioi⟩ := h.idle
    exact ⟨i, (hsw.idleTask 0).trans hi, by rwa [hsw.priority]⟩

theorem OneCpu.sleepMark (h : OneCpu s Q) (p : ProcRef) (wq : Nat) : OneCpu (sleepMark s p wq) Q := by
  have hprio (r : ProcRef) : ((Sched.sleepMark s p wq).procs r).priority = (s.procs r).priority :=
    field_update Process.priority s.procs p r rfl
  have hcpu (r : ProcRef) : ((Sched.sleepMark s p wq).procs r).cpu = (s.procs r).cpu :=
    field_update Process.cpu s.procs p r rfl
  refine ⟨h.cpus, sleepMark_queues h.queues p wq, ?_, ?_, ?_⟩
  · intro r hr
    rw [hprio, hcpu]
    exact h.ranged r hr
  · intro r hr
    rw [hprio, hcpu]
    exact h.running r hr
  · obtain ⟨i, hi, hprioi⟩ := h.idle
    exact ⟨i, hi, by rwa [hprio]⟩

/-- With nobody queued, the idle task is switched to. -/
theorem OneCpu.idles (h : OneCpu s Q) (hnone : DequeuedNone s Q 0 s') {i : ProcRef}
    (hi : (s.runqueues 0).idleTask = some i) (hprioi : (s.procs i).priority < schedQueues) :
    OneCpu (dispatch s' 0 i) Q := by
  have hempty (r : ProcRef) : ¬Q.Has r := by
    intro hr
    have hcpu := (h.ranged r hr).2
    obtain ⟨c, q, hrq⟩ := hr
    obtain ⟨rfl, rfl⟩ := h.queues.home hrq
    rw [hcpu, hnone.empty] at hrq
    exact List.not_mem_nil hrq
  have hprio : ((dispatch s' 0 i).procs i).priority = (s.procs i).priority := by
    simp [dispatch, hnone.edit.priority]
  refine ⟨hnone.edit.numCpus.trans h.cpus, ?_, fun r hr => absurd hr (hempty r), ?_, i, ?_, by rwa [hprio]⟩
  · exact (hnone.queues.modRq_keep rfl rfl rfl).modProc_off (hempty i) _
  · intro r hr
    have hri : i = r := by simpa [dispatch] using hr
    subst hri
    refine ⟨hempty i, by simp [dispatch], by rwa [hprio]⟩
  · rw [← hi, ← hnone.edit.idleTask]
    exact rq_field_update Runqueue.idleTask s'.runqueues 0 0 rfl

/-- A process that sleeps makes room for the first one queued, or for the idle task. -/
theorem schedulerSleepOn_cases (h : Queues s Q) (wq : Nat) (hcur : (s.runqueues 0).current = some p) {i : ProcRef}
    (hi : (s.runqueues 0).idleTask = some i) :
    (∃ t, DequeuedNone (Sched.sleepMark s p wq) Q 0 t ∧ schedulerSleepOn s 0 wq = some (dispatch t 0 i)) ∨
      ∃ n t Q', Dispatched (Sched.sleepMark s p wq) Q 0 n t Q' ∧ schedulerSleepOn s 0 wq = some t := by
  have hmark := sleepMark_queues h p wq
  have hi' : ((Sched.sleepMark s p wq).runqueues 0).idleTask = some i := hi
  obtain ⟨t, ht, hnone⟩ | ⟨n, q, l, t, ht, hsome⟩ := hmark.dequeue 0
  · refine Or.inl ⟨t, hnone, ?_⟩
    simp only [schedulerSleepOn, hcur, ht, Option.none_or, hnone.edit.idleTask, hi']
  · obtain ⟨Q', hd⟩ := dispatch_spec hmark hsome
    refine Or.inr ⟨n, _, Q', hd, ?_⟩
    simp only [schedulerSleepOn, hcur, ht, Option.some_or]

/-- Whoever was queued is run, or is queued as before, or boosted by a tick. -/
def Served (s : SchedState) (Q : QueueMap) (op : SchedOp) (s' : SchedState) (Q' : QueueMap) : Prop :=
  ∀ r, Q.Has r → (s'.runqueues 0).current = some r ∨
    Q'.Has r ∧ ((s'.procs r).priority = (s.procs r).priority ∨ op = .tick 0 ∧ (s'.procs r).priority = prioNormal)

theorem served_refl (s : SchedState) (Q : QueueMap) (op : SchedOp) : Served s Q op s Q :=
  fun _ hr => Or.inr ⟨hr, Or.inl rfl⟩

theorem Dispatched.served (hd : Dispatched s Q 0 n s' Q') (op : SchedOp) : Served s Q op s' Q' := by
  intro r hr
  by_cases hrn : r = n
  · exact Or.inl ((hd.current 0).trans (by rw [if_pos rfl, hrn]))
  · exact Or.inr ⟨(hd.has r).mpr ⟨hr, hrn⟩, Or.inl (hd.priority r)⟩

theorem Switched.served (hsw : Switched s Q 0 p n s' Q') (op : SchedOp) : Served s Q op s' Q' := by
  intro r hr
  by_cases hrn : r = n
  · exact Or.inl ((hsw.current 0).trans (by rw [if_pos rfl, hrn]))
  · exact Or.inr ⟨(hsw.has r).mpr ⟨Or.inl hr, hrn⟩, Or.inl (hsw.priority r)⟩

/-- The end of a tick serves whom the switch before it served. -/
theorem Served.kept {t : SchedState} {Qt : QueueMap} (h : Served s Q (.tick 0) t Qt) (hk : Kept t Qt s' Q') :
    Served s Q (.tick 0) s' Q' := by
  intro r hr
  obtain hcur | ⟨hin, hprio⟩ := h r hr
  · exact Or.inl ((hk.edit.current 0).trans hcur)
  · refine Or.inr ⟨(hk.has r).mpr hin, ?_⟩
    obtain hb | hb := hk.edit.boosted r
    · rw [hb]
      exact hprio
    · exact Or.inr ⟨rfl, hb⟩

theorem OneCpu.tick (h : OneCpu s Q) (hs : schedulerTick s 0 = some s') :
    ∃ Q', OneCpu s' Q' ∧ Served s Q (.tick 0) s' Q' := by
  cases hcur : (s.runqueues 0).current with
  | none =>
    obtain rfl : s = s' := Option.some.inj ((schedulerTick_none hcur).symm.trans hs)
    exact ⟨Q, h, served_refl s Q _⟩
  | some current =>
    obtain ⟨t, Q', ht, hcases⟩ := schedulerTick_spec h.queues (h.requeueable hcur)
    obtain rfl : t = s' := Option.some.inj (ht.symm.trans hs)
    obtain ⟨-, hkept⟩ | ⟨-, n, u, Q'', hsw, hkept⟩ := hcases
    · exact ⟨Q', h.kept hkept, (served_refl s Q _).kept hkept⟩
    · exact ⟨Q', (h.switched hcur hsw).kept hkept, (hsw.served _).kept hkept⟩

theorem OneCpu.sleepOn (h : OneCpu s Q) {wq : Nat} (hs : schedulerSleepOn s 0 wq = some s') :
    ∃ Q', OneCpu s' Q' ∧ Served s Q (.sleepOn 0 wq) s' Q' := by
  cases hcur : (s.runqueues 0).current with
  | none =>
    obtain rfl : s = s' := Option.some.inj ((schedulerSleepOn_none hcur).symm.trans hs)
    exact ⟨Q, h, served_refl s Q _⟩
  | some current =>
    have hmark := h.sleepMark current wq
    have hprio (r : ProcRef) : ((Sched.sleepMark s current wq).procs r).priority = (s.procs r).priority :=
      field_update Process.priority s.procs current r rfl
    obtain ⟨i, hi, hprioi⟩ := h.idle
    obtain ⟨t, hnone, ht⟩ | ⟨n, t, Q', hd, ht⟩ := schedulerSleepOn_cases h.queues wq hcur hi
    · obtain rfl : dispatch t 0 i = s' := Option.some.inj (ht.symm.trans hs)
      refine ⟨Q, hmark.idles hnone hi (by rwa [hprio]), ?_⟩
      intro r hr
      by_cases hri : r = i
      · exact Or.inl (by simp [dispatch, hri])
      · refine Or.inr ⟨hr, Or.inl ?_⟩
        rw [← hprio, ← hnone.edit.priority]
        exact field_update Process.priority t.procs i r rfl
    · obtain rfl : t = s' := Option.some.inj (ht.symm.trans hs)
      refine ⟨Q', hmark.dispatched hd, ?_⟩
      intro r hr
      rw [← hprio r]
      exact hd.served _ r hr

/-- **Every call keeps the queues in order**, and serves whoever was queued. -/
theorem oneCpu_step {op : SchedOp} (h : OneCpu s Q) (hpre : OneCpuPre s op) (hs : schedStep s op = some s') :
    ∃ Q', OneCpu s' Q' ∧ Served s Q op s' Q' := by
  cases op with
  | start cpu =>
    obtain rfl : cpu = 0 := hpre
    obtain ⟨n, Q', hd⟩ := schedulerStart_spec h.queues hs
    exact ⟨Q', h.dispatched hd, hd.served _⟩
  | addProcess proc =>
    obtain ⟨hprio, hoff, hrun⟩ := hpre
    obtain ⟨Q', ha⟩ := schedulerAddProcess_spec h.queues (fun hin => hoff ((h.queued_iff proc).mpr hin)) hprio
    obtain rfl : schedulerAddProcess s proc = s' := Option.some.inj hs
    refine ⟨Q', h.added ha hrun hprio, ?_⟩
    intro r hr
    exact Or.inr ⟨(ha.has r).mpr (Or.inl hr), Or.inl (ha.priority r)⟩
  | tick cpu =>
    obtain ⟨rfl, -⟩ := hpre
    exact h.tick hs
  | yield cpu =>
    obtain rfl : cpu = 0 := hpre
    obtain rfl : schedulerYield s 0 = s' := Option.some.inj hs
    cases hcur : (s.runqueues 0).current with
    | none =>
      rw [schedulerYield_none hcur]
      exact ⟨Q, h, served_refl s Q _⟩
    | some current =>
      obtain ⟨n, Q', hsw⟩ := schedulerYield_spec h.queues (h.requeueable hcur)
      exact ⟨Q', h.switched hcur hsw, hsw.served _⟩
  | sleepOn cpu wq =>
    obtain rfl : cpu = 0 := hpre
    exact h.sleepOn hs
  | wakeup wq => exact absurd hpre id
  | wakeupOne wq => exact absurd hpre id
  | removeProcess proc => exact absurd hpre id
  | priorityBoost => exact absurd hpre id

/-! ## The boost in time -/

theorem Fresh.two_le (hf : Fresh s) (h : OneCpu s Q) :
    ∃ p, (s.runqueues 0).current = some p ∧ 2 ≤ (s.procs p).timeSlice := by
  obtain ⟨n, hn, hslice⟩ := hf
  refine ⟨n, hn, ?_⟩
  rw [hslice]
  exact two_le_timeQuantum (h.running n hn).2.2

theorem SwitchCounted.boostInTime (hc : SwitchCounted s s') (h' : OneCpu s' Q') (hb : BoostInTime s) :
    BoostInTime s' := by
  rw [BoostInTime, hc.ticks]
  obtain hb | ⟨hb, -⟩ := hb
  · exact Or.inl hb
  · exact Or.inr ⟨hb, hc.fresh.two_le h'⟩

theorem toNat_tick {ticks : UInt32} (h : ticks.toNat ≤ 200) : (ticks + 1).toNat = ticks.toNat + 1 := by
  rw [UInt32.toNat_add, UInt32.toNat_one]
  omega

theorem BoostInTime.le (hb : BoostInTime s) : (s.runqueues 0).ticks.toNat ≤ 200 := by
  obtain hb | ⟨hb, -⟩ := hb <;> omega

theorem TickCounted.boostInTime (hcur : (s.runqueues 0).current = some p) (ht : TickCounted s p s') (h' : OneCpu s' Q')
    (hb : BoostInTime s) : BoostInTime s' := by
  have hle := hb.le
  cases ht with
  | counted small ticks =>
    refine Or.inl ?_
    have hlt : (s.runqueues 0).ticks.toNat + 1 < 200 := by
      rw [← toNat_tick hle]
      exact UInt32.lt_iff_toNat_lt.mp small
    rw [ticks, toNat_tick hle]
    omega
  | boosted ticks low =>
    refine Or.inl ?_
    rw [ticks]
    decide
  | switched expires ticks fresh =>
    rw [BoostInTime, ticks, toNat_tick hle]
    obtain hb | ⟨-, q, hq, hslice⟩ := hb
    · by_cases hlast : (s.runqueues 0).ticks.toNat = 199
      · exact Or.inr ⟨by omega, fresh.two_le h'⟩
      · exact Or.inl (by omega)
    · -- Nobody's slice ends at the tick after a late switch.
      obtain rfl : p = q := Option.some.inj (hcur.symm.trans hq)
      exact absurd (UInt64.le_trans hslice expires) (by decide)

theorem schedulerAddProcess_counted (s : SchedState) (p : ProcRef) :
    (∀ d, ((schedulerAddProcess s p).runqueues d).ticks = (s.runqueues d).ticks) ∧
      ∀ r, r ≠ p → ((schedulerAddProcess s p).procs r).timeSlice = (s.procs r).timeSlice := by
  unfold schedulerAddProcess
  have hkept := enqueueProcess_counters
    (s.modProc p fun x =>
      { x with cpu := leastLoaded s, state := .ready, timeSlice := timeQuantum x.priority }) p
  refine ⟨hkept.ticks, ?_⟩
  intro r hr
  rw [hkept.slice]
  simp [hr]

theorem boostInTime_step {op : SchedOp} (h : OneCpu s Q) (hb : BoostInTime s) (hpre : OneCpuPre s op)
    (hs : schedStep s op = some s') : BoostInTime s' := by
  obtain ⟨Q', h', -⟩ := oneCpu_step h hpre hs
  cases op with
  | start cpu =>
    obtain rfl : cpu = 0 := hpre
    exact (schedulerStart_counted hs).boostInTime h' hb
  | addProcess proc =>
    obtain rfl : schedulerAddProcess s proc = s' := Option.some.inj hs
    obtain ⟨hticks, hslice⟩ := schedulerAddProcess_counted s proc
    rw [BoostInTime, hticks, schedulerAddProcess_current]
    obtain hb | ⟨hb, q, hq, htwo⟩ := hb
    · exact Or.inl hb
    · refine Or.inr ⟨hb, q, hq, ?_⟩
      rwa [hslice q fun hqp => hpre.2.2 ⟨0, hqp ▸ hq⟩]
  | tick cpu =>
    obtain ⟨rfl, hrt⟩ := hpre
    cases hcur : (s.runqueues 0).current with
    | none =>
      obtain rfl : s = s' := Option.some.inj ((schedulerTick_none hcur).symm.trans hs)
      exact hb
    | some current => exact (schedulerTick_counted h.cpus hcur (hrt current hcur) hs).boostInTime hcur h' hb
  | yield cpu =>
    obtain rfl : cpu = 0 := hpre
    obtain rfl : schedulerYield s 0 = s' := Option.some.inj hs
    cases hcur : (s.runqueues 0).current with
    | none => rwa [schedulerYield_none hcur]
    | some current => exact (schedulerYield_counted hcur).boostInTime h' hb
  | sleepOn cpu wq =>
    obtain rfl : cpu = 0 := hpre
    cases hcur : (s.runqueues 0).current with
    | none =>
      obtain rfl : s = s' := Option.some.inj ((schedulerSleepOn_none hcur).symm.trans hs)
      exact hb
    | some current => exact (schedulerSleepOn_counted hcur hs).boostInTime h' hb
  | wakeup wq => exact absurd hpre id
  | wakeupOne wq => exact absurd hpre id
  | removeProcess proc => exact absurd hpre id
  | priorityBoost => exact absurd hpre id

/-- A CPU that runs something goes on doing so, and starting makes it run something. -/
theorem current_step {op : SchedOp} (hpre : OneCpuPre s op) (hs : schedStep s op = some s')
    (hcur : op = .start 0 ∨ (s.runqueues 0).current ≠ none) : (s'.runqueues 0).current ≠ none := by
  have hfresh (hf : Fresh s') : (s'.runqueues 0).current ≠ none := by
    obtain ⟨n, hn, -⟩ := hf
    simp [hn]
  cases op with
  | start cpu =>
    obtain rfl : cpu = 0 := hpre
    exact hfresh (schedulerStart_counted hs).fresh
  | addProcess proc =>
    obtain rfl : schedulerAddProcess s proc = s' := Option.some.inj hs
    rw [schedulerAddProcess_current]
    exact hcur.resolve_left (by simp)
  | tick cpu =>
    obtain ⟨rfl, -⟩ := hpre
    exact fun hnone => hcur.resolve_left (by simp) ((schedulerTick_frame hs).idle.mpr hnone)
  | yield cpu =>
    obtain rfl : cpu = 0 := hpre
    obtain rfl : schedulerYield s 0 = s' := Option.some.inj hs
    exact fun hnone => hcur.resolve_left (by simp) ((schedulerYield_frame s 0).idle.mpr hnone)
  | sleepOn cpu wq =>
    obtain rfl : cpu = 0 := hpre
    obtain ⟨p, hp⟩ := Option.ne_none_iff_exists'.mp (hcur.resolve_left (by simp))
    exact hfresh (schedulerSleepOn_counted hp hs).fresh
  | wakeup wq => exact absurd hpre id
  | wakeupOne wq => exact absurd hpre id
  | removeProcess proc => exact absurd hpre id
  | priorityBoost => exact absurd hpre id

/-- The invariant of the runs, before and after the start. -/
def Timely (s : SchedState) : Prop := BoostInTime s ∧ ∃ Q, OneCpu s Q

theorem timely_step {op : SchedOp} (h : Timely s) (hpre : OneCpuPre s op) (hs : schedStep s op = some s') :
    Timely s' := by
  obtain ⟨hb, Q, hQ⟩ := h
  obtain ⟨Q', hQ', -⟩ := oneCpu_step hQ hpre hs
  exact ⟨boostInTime_step hQ hb hpre hs, Q', hQ'⟩

/-- No call but the start can fail: there is always a process to switch to. -/
theorem timely_next {op : SchedOp} (h : Timely s) (hpre : OneCpuPre s op) (hstart : op ≠ .start 0) :
    ∃ s', schedStep s op = some s' := by
  obtain ⟨-, Q, hQ⟩ := h
  cases op with
  | start cpu =>
    obtain rfl : cpu = 0 := hpre
    exact absurd rfl hstart
  | addProcess proc => exact ⟨_, rfl⟩
  | tick cpu =>
    obtain ⟨rfl, -⟩ := hpre
    cases hcur : (s.runqueues 0).current with
    | none => exact ⟨s, schedulerTick_none hcur⟩
    | some current =>
      obtain ⟨s', -, hs', -⟩ := schedulerTick_spec hQ.queues (hQ.requeueable hcur)
      exact ⟨s', hs'⟩
  | yield cpu => exact ⟨_, rfl⟩
  | sleepOn cpu wq =>
    obtain rfl : cpu = 0 := hpre
    cases hcur : (s.runqueues 0).current with
    | none => exact ⟨s, schedulerSleepOn_none hcur⟩
    | some current =>
      obtain ⟨i, hi, -⟩ := hQ.idle
      obtain ⟨t, -, ht⟩ | ⟨n, t, Q', -, ht⟩ := schedulerSleepOn_cases hQ.queues wq hcur hi
      · exact ⟨_, ht⟩
      · exact ⟨t, ht⟩
  | wakeup wq => exact absurd hpre id
  | wakeupOne wq => exact absurd hpre id
  | removeProcess proc => exact absurd hpre id
  | priorityBoost => exact absurd hpre id

theorem Timely.ticksBounded (h : Timely s) : TicksBounded s := by
  refine ⟨h.1.le, ?_⟩
  intro p _
  have hticks : ((tickCount s 0 p).runqueues 0).ticks = (s.runqueues 0).ticks + 1 := by simp [tickCount]
  have hle := h.1.le
  rw [hticks, toNat_tick hle]
  omega

/-- While a process stays on the low queue, every tick is counted and none boosts. -/
theorem low_counted {op : SchedOp} (h : Timely s) (hcur : (s.runqueues 0).current ≠ none) (hpre : OneCpuPre s op)
    (hs : schedStep s op = some s') (hlow : OnQueue s' prioLow p) :
    (s'.runqueues 0).ticks.toNat = (s.runqueues 0).ticks.toNat + [op].countP fun i => i = .tick 0 := by
  have hle := h.1.le
  have hsame {op' : SchedOp} (hop : op' ≠ .tick 0) (hticks : (s'.runqueues 0).ticks = (s.runqueues 0).ticks) :
      (s'.runqueues 0).ticks.toNat = (s.runqueues 0).ticks.toNat + [op'].countP fun i => i = .tick 0 := by
    simp [hticks, hop]
  cases op with
  | start cpu =>
    obtain rfl : cpu = 0 := hpre
    exact hsame (by simp) (schedulerStart_counted hs).ticks
  | addProcess proc =>
    obtain rfl : schedulerAddProcess s proc = s' := Option.some.inj hs
    exact hsame (by simp) ((schedulerAddProcess_counted s proc).1 0)
  | tick cpu =>
    obtain ⟨rfl, hrt⟩ := hpre
    obtain ⟨current, hc⟩ := Option.ne_none_iff_exists'.mp hcur
    have hone : (s'.runqueues 0).ticks = (s.runqueues 0).ticks + 1 := by
      cases schedulerTick_counted h.2.choose_spec.cpus hc (hrt current hc) hs with
      | counted small ticks => exact ticks
      | boosted ticks low =>
        obtain ⟨l, hl, hp⟩ := hlow
        rw [low] at hl
        cases l with
        | nil => exact absurd hp List.not_mem_nil
        | cons r l => exact absurd hl.1 (by simp)
      | switched expires ticks fresh => exact ticks
    rw [hone, toNat_tick hle]
    simp
  | yield cpu =>
    obtain rfl : cpu = 0 := hpre
    obtain rfl : schedulerYield s 0 = s' := Option.some.inj hs
    obtain ⟨current, hc⟩ := Option.ne_none_iff_exists'.mp hcur
    exact hsame (by simp) (schedulerYield_counted hc).ticks
  | sleepOn cpu wq =>
    obtain rfl : cpu = 0 := hpre
    obtain ⟨current, hc⟩ := Option.ne_none_iff_exists'.mp hcur
    exact hsame (by simp) (schedulerSleepOn_counted hc hs).ticks
  | wakeup wq => exact absurd hpre id
  | wakeupOne wq => exact absurd hpre id
  | removeProcess proc => exact absurd hpre id
  | priorityBoost => exact absurd hpre id

/-- The only ways off the low queue. -/
theorem leavesLow_step {op : SchedOp} (h : Timely s) (hpre : OneCpuPre s op) (hs : schedStep s op = some s')
    (hlow : OnQueue s prioLow p) (hgone : ¬ OnQueue s' prioLow p) : LeavesLow p op s' := by
  obtain ⟨-, Q, hQ⟩ := h
  obtain ⟨Q', hQ', hstays⟩ := oneCpu_step hQ hpre hs
  obtain ⟨hp, hprio⟩ := (hQ.onQueue_iff prioLow p).mp hlow
  obtain hrun | ⟨hp', hsame | ⟨hop, hnormal⟩⟩ := hstays p hp
  · exact Or.inl hrun
  · exact absurd ((hQ'.onQueue_iff prioLow p).mpr ⟨hp', hsame.trans hprio⟩) hgone
  · exact Or.inr ⟨hop, (hQ'.onQueue_iff prioNormal p).mpr ⟨hp', hnormal⟩, hnormal⟩

/-! ## Runs -/

theorem timely_boot {idle : ProcRef} (h : (s.procs idle).priority < schedQueues) : Timely (bootOneCpu s idle) := by
  refine ⟨Or.inl ?_, _, oneCpu_boot h⟩
  simp [bootOneCpu, schedulerSetIdle, schedulerInit, Runqueue.empty]

/-- Once started, the CPU runs something. -/
theorem current_run {ops : List SchedOp} (hg : Meets schedStep OneCpuPre s ops) (hr : run schedStep s ops = some s')
    (hcur : .start 0 ∈ ops ∨ (s.runqueues 0).current ≠ none) : (s'.runqueues 0).current ≠ none := by
  induction ops generalizing s with
  | nil =>
    obtain rfl := Option.some.inj hr
    exact hcur.resolve_left List.not_mem_nil
  | cons op ops ih =>
    simp only [run, Option.bind_eq_some_iff] at hr
    obtain ⟨t, ht, hr⟩ := hr
    obtain ⟨hpre, hg⟩ := hg t ht
    refine ih hg hr ?_
    rw [List.mem_cons, or_assoc] at hcur
    obtain hop | hin | hcur := hcur
    · exact Or.inr (current_step hpre ht (Or.inl hop.symm))
    · exact Or.inl hin
    · exact Or.inr (current_step hpre ht (Or.inr hcur))

/-- **The starvation bound**, on one CPU whose idle task is set, in every run of the calls: `rq->ticks` never
    exceeds 201, and behind any state `t` after the start a process on the low queue is dequeued to run, or
    moved to the normal queue by a boost, within 201 ticks. -/
theorem starvation_bound (s : SchedState) (idle : ProcRef) (hidle : (s.procs idle).priority < schedQueues)
    (ops ops' : List SchedOp) (hg : Meets schedStep OneCpuPre (bootOneCpu s idle) (ops ++ ops')) :
    Always schedStep TicksBounded (bootOneCpu s idle) (ops ++ ops') ∧
      ∀ t u p, .start 0 ∈ ops → run schedStep (bootOneCpu s idle) ops = some t → run schedStep t ops' = some u →
        OnQueue t prioLow p → 201 ≤ ops'.countP (fun op => op = .tick 0) →
        ∃ pre op post v v', ops' = pre ++ op :: post ∧ (pre ++ [op]).countP (fun op => op = .tick 0) ≤ 201 ∧
          run schedStep t pre = some v ∧ schedStep v op = some v' ∧ OnQueue v prioLow p ∧ LeavesLow p op v' := by
  have hboot := timely_boot hidle
  have htimely : Always schedStep Timely (bootOneCpu s idle) (ops ++ ops') :=
    always_of_meets (fun _ _ _ h hpre hs => timely_step h hpre hs) hboot hg
  refine ⟨htimely.mono fun _ h => h.ticksBounded, ?_⟩
  intro t u p hstart ht hu hlow hlong
  have hbefore : Always schedStep Timely (bootOneCpu s idle) ops :=
    always_of_meets (fun _ _ _ h hpre hs => timely_step h hpre hs) hboot hg.before
  have hrunning := current_run hg.before ht (Or.inl hstart)
  -- The ticks are the counter: they go up with every tick that leaves `p` where it is.
  obtain ⟨pre, op, post, v, v', hsplit, hle, hv, hop, ⟨hv₁, -⟩, hpre, hin, hout⟩ :=
    exists_leaving_step (I := fun v => Timely v ∧ (v.runqueues 0).current ≠ none)
      (P := fun v => OnQueue v prioLow p) (b := fun op => op = .tick 0) (B := 200)
      (fun v op v' h hpre hs => ⟨timely_step h.1 hpre hs, current_step hpre hs (Or.inr h.2)⟩)
      (fun v h => h.1.1.le)
      (fun v op v' h hpre _ hs hlow => low_counted h.1 h.2 hpre hs hlow)
      ⟨hbefore.last ht, hrunning⟩ hlow (hg.behind ht) hu (by omega)
  exact ⟨pre, op, post, v, v', hsplit, by omega, hv, hop, hin, leavesLow_step hv₁ hpre hop hin hout⟩

/-- Process 1 of low priority and process 2 of normal priority; process 0 is the idle task. -/
def lowAndNormal : SchedState where
  procs := fun p => { Process.zero with priority := if p = 0 then prioIdle else if p = 1 then prioLow else prioNormal }
  runqueues := fun _ => Runqueue.empty
  numCpus := 1
  waitHead := fun _ => none

/-- The check of a tick's guard that a run on fixed inputs evaluates. -/
def notRealtime (s : SchedState) : SchedOp → Bool
  | .start cpu => cpu = 0
  | .tick cpu => cpu = 0 && (s.runqueues 0).current.all fun p => (s.procs p).priority ≠ prioRealtime
  | _ => false

theorem oneCpuPre_of_notRealtime (s : SchedState) (op : SchedOp) (h : notRealtime s op = true) : OneCpuPre s op := by
  cases op with
  | start cpu =>
    simp only [notRealtime, decide_eq_true_eq] at h
    exact h
  | tick cpu =>
    simp only [notRealtime, Bool.and_eq_true, decide_eq_true_eq] at h
    refine ⟨h.1, ?_⟩
    intro p hp
    simpa [hp] using h.2
  | _ => simp [notRealtime] at h

/-- The calls up to the start. -/
def startLow : List SchedOp := [.addProcess 1, .addProcess 2, .start 0]

theorem meets_startLow :
    Meets schedStep OneCpuPre (bootOneCpu lowAndNormal 0) (startLow ++ List.replicate 201 (.tick 0)) := by
  have h₀ : OneCpu (bootOneCpu lowAndNormal 0) fun _ _ => [] := oneCpu_boot (by decide)
  have hrun₀ (p : ProcRef) : ¬Running (bootOneCpu lowAndNormal 0) p := by
    rintro ⟨c, hc⟩
    have hnone : ((bootOneCpu lowAndNormal 0).runqueues c).current = none :=
      rq_field_update Runqueue.current (schedulerInit lowAndNormal 1).runqueues 0 c rfl
    exact absurd (hnone.symm.trans hc) (by simp)
  have hprio₀ : ((bootOneCpu lowAndNormal 0).procs 1).priority < schedQueues := by decide
  obtain ⟨Q₁, ha⟩ := schedulerAddProcess_spec h₀.queues (not_has_nil 1) hprio₀
  have h₁ := h₀.added ha (hrun₀ 1) hprio₀
  refine fun s₁ hs₁ => ⟨⟨hprio₀, fun hin => not_has_nil 1 ((h₀.queued_iff 1).mp hin), hrun₀ 1⟩, ?_⟩
  obtain rfl : schedulerAddProcess (bootOneCpu lowAndNormal 0) 1 = s₁ := Option.some.inj hs₁
  refine fun s₂ hs₂ => ⟨⟨by decide +kernel, ?_, ?_⟩, ?_⟩
  · rw [h₁.queued_iff, ha.has]
    exact fun hin => hin.elim (not_has_nil 2) (by decide)
  · rintro ⟨c, hc⟩
    exact hrun₀ 2 ⟨c, (ha.current c).symm.trans hc⟩
  · obtain rfl : schedulerAddProcess (schedulerAddProcess (bootOneCpu lowAndNormal 0) 1) 2 = s₂ := Option.some.inj hs₂
    exact meets_of_check notRealtime oneCpuPre_of_notRealtime (by decide +kernel)

/-- With a process of normal priority that never yields, the process of low priority leaves its queue
    within 201 ticks. -/
theorem low_leaves_in_201 : ∃ t pre op post v v', run schedStep (bootOneCpu lowAndNormal 0) startLow = some t ∧
    OnQueue t prioLow 1 ∧ List.replicate 201 (.tick 0) = pre ++ op :: post ∧ run schedStep t pre = some v ∧
      schedStep v op = some v' ∧ OnQueue v prioLow 1 ∧ LeavesLow 1 op v' := by
  have hrun : run schedStep (bootOneCpu lowAndNormal 0) startLow =
      some ((run schedStep (bootOneCpu lowAndNormal 0) startLow).getD lowAndNormal) :=
    eq_some_getD _ (by decide +kernel)
  have hlast : ((run schedStep (bootOneCpu lowAndNormal 0) startLow).getD lowAndNormal).link 1 = none := by
    decide +kernel
  have hlow : OnQueue ((run schedStep (bootOneCpu lowAndNormal 0) startLow).getD lowAndNormal) prioLow 1 :=
    ⟨[1], ⟨by decide +kernel, hlast⟩, List.mem_singleton_self 1⟩
  obtain ⟨u, hu⟩ := Option.isSome_iff_exists.mp
    (show (run schedStep ((run schedStep (bootOneCpu lowAndNormal 0) startLow).getD lowAndNormal)
      (List.replicate 201 (.tick 0))).isSome = true by decide +kernel)
  obtain ⟨pre, op, post, v, v', hsplit, -, hleaves⟩ := (starvation_bound lowAndNormal 0 (by decide) startLow
    (List.replicate 201 (.tick 0)) meets_startLow).2 _ u 1 (by decide) hrun hu hlow (by decide +kernel)
  exact ⟨_, pre, op, post, v, v', hrun, hlow, hsplit, hleaves⟩

end Crimson.Sched
