import Crimson.Sched.Queues

/-!
# What one scheduler call does

One lemma a call, over the queues `Q` of the state it starts in. `Added` is the effect
of `scheduler_add_process`, `Switched` of putting the current process back on its queue
and taking the first one (`scheduler_yield`, and an expiring `scheduler_tick`), `Slept`
of `scheduler_sleep_on`. `Kept` is a call that moves nobody on or off the queues. The
runs and the invariants of the later modules rest on these and unfold no call again.
-/

set_option autoImplicit false

namespace Crimson.Sched

open Crimson.Lib

/-- The fields a call may leave alone: all but the queues and the processes' states. -/
structure SameWaits (s s' : SchedState) : Prop where
  wq : ∀ r, (s'.procs r).wq = (s.procs r).wq
  wqNext : ∀ r, (s'.procs r).wqNext = (s.procs r).wqNext
  waitHead : s'.waitHead = s.waitHead

theorem SameWaits.trans {s s' s'' : SchedState} (h : SameWaits s s') (h' : SameWaits s' s'') :
    SameWaits s s'' where
  wq := fun r => (h'.wq r).trans (h.wq r)
  wqNext := fun r => (h'.wqNext r).trans (h.wqNext r)
  waitHead := h'.waitHead.trans h.waitHead

theorem QueueEdit.sameWaits {s s' : SchedState} (h : QueueEdit s s') : SameWaits s s' :=
  ⟨h.wq, h.wqNext, h.waitHead⟩

theorem BoostEdit.sameWaits {s s' : SchedState} {moved : ProcRef → Prop} (h : BoostEdit s moved s') :
    SameWaits s s' := ⟨h.wq, h.wqNext, h.waitHead⟩

/-! ## Nothing moves -/

/-- Nobody gets on or off the queues; queued processes may be boosted. -/
structure Kept (s : SchedState) (Q : QueueMap) (s' : SchedState) (Q' : QueueMap) : Prop where
  queues : Queues s' Q'
  has : ∀ r, Q'.Has r ↔ Q.Has r
  edit : BoostEdit s Q.Has s'

theorem Kept.refl {s : SchedState} {Q : QueueMap} (h : Queues s Q) : Kept s Q s Q :=
  ⟨h, fun _ => Iff.rfl, BoostEdit.refl s _⟩

theorem Kept.trans {s s' s'' : SchedState} {Q Q' Q'' : QueueMap} (h : Kept s Q s' Q')
    (h' : Kept s' Q' s'' Q'') : Kept s Q s'' Q'' where
  queues := h'.queues
  has := fun r => (h'.has r).trans (h.has r)
  edit := h.edit.trans (h'.edit.mono fun p hp => (h.has p).mp hp)

theorem priorityBoost_spec {s : SchedState} {Q : QueueMap} (h : Queues s Q) :
    ∃ s' Q', priorityBoost s = some s' ∧ Kept s Q s' Q' := by
  obtain ⟨s', Q', hs', hqueues, hhas, hedit⟩ := h.boost
  exact ⟨s', Q', hs', hqueues, hhas, hedit⟩

theorem Kept.of_edit {s s' : SchedState} {Q : QueueMap} (h : Queues s' Q) (he : QueueEdit s s') :
    Kept s Q s' Q :=
  ⟨h, fun _ => Iff.rfl, he.boost _⟩

/-- Editing the time slice or the CPU time of a process. -/
theorem QueueEdit.counters (s : SchedState) (p : ProcRef) {f : Process → Process}
    (hf : f (s.procs p) =
      { s.procs p with
        timeSlice := (f (s.procs p)).timeSlice
        cpuTime := (f (s.procs p)).cpuTime }) : QueueEdit s (s.modProc p f) where
  state := fun r => field_update Process.state s.procs p r (by rw [hf])
  priority := fun r => field_update Process.priority s.procs p r (by rw [hf])
  cpu := fun r => field_update Process.cpu s.procs p r (by rw [hf])
  wq := fun r => field_update Process.wq s.procs p r (by rw [hf])
  wqNext := fun r => field_update Process.wqNext s.procs p r (by rw [hf])
  current := fun _ => rfl
  idleTask := fun _ => rfl
  numCpus := rfl
  waitHead := rfl

theorem tickBoost_spec {s : SchedState} {Q : QueueMap} (h : Queues s Q) (c : Nat) :
    ∃ s' Q', tickBoost s c = some s' ∧ Kept s Q s' Q' := by
  unfold tickBoost
  split
  · have hqueues : Queues (s.modRq c fun rq => { rq with ticks := 0 }) Q := h.modRq_keep rfl rfl rfl
    obtain ⟨s', Q', hs', hkept⟩ := priorityBoost_spec hqueues
    exact ⟨s', Q', hs', (Kept.of_edit hqueues (QueueEdit.setRq s c rfl rfl)).trans hkept⟩
  · exact ⟨s, Q, rfl, Kept.refl h⟩

/-! ## `scheduler_add_process` -/

/-- `p` was put at the end of the queue of its priority, on the CPU `c`. -/
structure Added (s : SchedState) (Q : QueueMap) (p : ProcRef) (s' : SchedState) (Q' : QueueMap) :
    Prop where
  queues : Queues s' Q'
  has : ∀ r, Q'.Has r ↔ Q.Has r ∨ r = p
  state : ∀ r, (s'.procs r).state = if r = p then .ready else (s.procs r).state
  priority : ∀ r, (s'.procs r).priority = (s.procs r).priority
  cpu : ∀ r, (s'.procs r).cpu = if r = p then leastLoaded s else (s.procs r).cpu
  current : ∀ d, (s'.runqueues d).current = (s.runqueues d).current
  idleTask : ∀ d, (s'.runqueues d).idleTask = (s.runqueues d).idleTask
  numCpus : s'.numCpus = s.numCpus
  waits : SameWaits s s'

theorem schedulerAddProcess_waits (s : SchedState) (p : ProcRef) :
    SameWaits s (schedulerAddProcess s p) := by
  unfold schedulerAddProcess
  refine SameWaits.trans ?_ (enqueueProcess_edit _ p).sameWaits
  exact ⟨fun r => field_update Process.wq s.procs p r rfl,
    fun r => field_update Process.wqNext s.procs p r rfl, rfl⟩

theorem schedulerAddProcess_spec {s : SchedState} {Q : QueueMap} (h : Queues s Q) {p : ProcRef}
    (hp : ¬Q.Has p) (hprio : (s.procs p).priority < schedQueues) :
    ∃ Q', Added s Q p (schedulerAddProcess s p) Q' := by
  have hwaits := schedulerAddProcess_waits s p
  unfold schedulerAddProcess at hwaits ⊢
  have hoff := h.modProc_off hp fun x =>
    { x with cpu := leastLoaded s, state := .ready, timeSlice := timeQuantum x.priority }
  have hedit := enqueueProcess_edit
    (s.modProc p fun x =>
      { x with cpu := leastLoaded s, state := .ready, timeSlice := timeQuantum x.priority }) p
  refine ⟨_, hoff.enqueue hp (by simpa using hprio), fun r => QueueMap.has_push Q _ _ p r, ?_, ?_, ?_,
    hedit.current, hedit.idleTask, hedit.numCpus, hwaits⟩
  · intro r
    rw [hedit.state]
    by_cases hr : r = p <;> simp [hr]
  · intro r
    rw [hedit.priority]
    exact field_update Process.priority s.procs p r rfl
  · intro r
    rw [hedit.cpu]
    by_cases hr : r = p <;> simp [hr]

/-- The CPU chosen is one of those there are. -/
theorem leastLoaded_lt {s : SchedState} (h : 0 < s.numCpus) : leastLoaded s < s.numCpus := by
  unfold leastLoaded
  have hfold : ∀ (cpus : List Nat) (best : Nat × Nat), best.1 < s.numCpus → (∀ i ∈ cpus, i < s.numCpus) →
      (cpus.foldl (fun (best : Nat × Nat) i =>
        let count := queueLoad (s.runqueues i).queueBitmap
        if count < best.2 then (i, count) else best) best).1 < s.numCpus := by
    intro cpus
    induction cpus with
    | nil => exact fun best hbest _ => hbest
    | cons i cpus ih =>
      intro best hbest hcpus
      rw [List.foldl_cons]
      apply ih
      · simp only
        split
        · exact hcpus i (by simp)
        · exact hbest
      · intro j hj
        exact hcpus j (by simp [hj])
  exact hfold _ _ h fun i hi => List.mem_range.mp hi

/-! ## Switching -/

/-- CPU `c` took `n` off its queues and runs it. -/
structure Dispatched (s : SchedState) (Q : QueueMap) (c : Nat) (n : ProcRef) (s' : SchedState)
    (Q' : QueueMap) : Prop where
  queues : Queues s' Q'
  source : Q.Has n
  has : ∀ r, Q'.Has r ↔ Q.Has r ∧ r ≠ n
  home : (s.procs n).cpu = c
  state : ∀ r, (s'.procs r).state = if r = n then .running else (s.procs r).state
  priority : ∀ r, (s'.procs r).priority = (s.procs r).priority
  cpu : ∀ r, (s'.procs r).cpu = (s.procs r).cpu
  current : ∀ d, (s'.runqueues d).current = if d = c then some n else (s.runqueues d).current
  idleTask : ∀ d, (s'.runqueues d).idleTask = (s.runqueues d).idleTask
  numCpus : s'.numCpus = s.numCpus
  waits : SameWaits s s'

theorem dispatch_spec {s t : SchedState} {Q : QueueMap} (h : Queues s Q) {c : Nat} {n : ProcRef} {q : Nat}
    {l : List ProcRef} (hd : Dequeued s Q c n q l t) : ∃ Q', Dispatched s Q c n (dispatch t c n) Q' := by
  have hn : n ∈ Q c q := by simp [hd.head]
  have hhome : (s.procs n).cpu = c := (h.home hn).1.symm
  have hhas := h.has_pop hd.head
  unfold dispatch
  refine ⟨Q.set c q l, ?_, ⟨c, q, hn⟩, hhas, hhome, ?_, ?_, ?_, ?_, ?_, hd.edit.numCpus, ?_⟩
  · exact (hd.queues.modRq_keep rfl rfl rfl).modProc_off (fun hin => ((hhas n).mp hin).2 rfl) _
  · intro r
    by_cases hr : r = n
    · simp [hr]
    · simp [hr, hd.edit.state]
  · intro r
    rw [← hd.edit.priority]
    exact field_update Process.priority t.procs n r rfl
  · intro r
    rw [← hd.edit.cpu]
    refine field_update Process.cpu t.procs n r ?_
    exact (hd.edit.cpu n ▸ hhome : (t.procs n).cpu = c).symm
  · intro d
    by_cases hd' : d = c
    · simp [hd']
    · simp [hd', hd.edit.current]
  · intro d
    rw [← hd.edit.idleTask]
    exact rq_field_update Runqueue.idleTask t.runqueues c d rfl
  · refine hd.edit.sameWaits.trans ?_
    exact ⟨fun r => field_update Process.wq t.procs n r rfl,
      fun r => field_update Process.wqNext t.procs n r rfl, rfl⟩

/-- CPU `c` put its current process `p` back on a queue and took the first process `n`:
    `p` itself, if no process of its priority or a higher one was waiting there. -/
structure Switched (s : SchedState) (Q : QueueMap) (c : Nat) (p n : ProcRef) (s' : SchedState)
    (Q' : QueueMap) : Prop where
  queues : Queues s' Q'
  source : n = p ∨ Q.Has n
  has : ∀ r, Q'.Has r ↔ (Q.Has r ∨ r = p) ∧ r ≠ n
  stays : n = p ↔ ∀ q, q ≤ (s.procs p).priority → Q c q = []
  home : (s.procs n).cpu = c
  state : ∀ r, (s'.procs r).state =
    if r = n ∧ n ≠ p then .running else if r = p then .ready else (s.procs r).state
  priority : ∀ r, (s'.procs r).priority = (s.procs r).priority
  cpu : ∀ r, (s'.procs r).cpu = (s.procs r).cpu
  current : ∀ d, (s'.runqueues d).current = if d = c then some n else (s.runqueues d).current
  idleTask : ∀ d, (s'.runqueues d).idleTask = (s.runqueues d).idleTask
  numCpus : s'.numCpus = s.numCpus
  waits : SameWaits s s'

/-- What is needed of the current process for it to be put back on a queue. -/
structure Requeueable (s : SchedState) (Q : QueueMap) (c : Nat) (p : ProcRef) : Prop where
  current : (s.runqueues c).current = some p
  off : ¬Q.Has p
  home : (s.procs p).cpu = c
  prio : (s.procs p).priority < schedQueues

/-- The first queue that is not empty once `p` is back. -/
theorem requeue_first {s : SchedState} {Q : QueueMap} {c : Nat} {p n : ProcRef} {q : Nat}
    {l : List ProcRef} (hp : ¬Q.Has p) (hcpu : (s.procs p).cpu = c)
    (hhead : Q.set c (s.procs p).priority (Q c (s.procs p).priority ++ [p]) c q = n :: l)
    (hfirst : ∀ q', q' < q → Q.set c (s.procs p).priority (Q c (s.procs p).priority ++ [p]) c q' = []) :
    n = p ↔ ∀ q', q' ≤ (s.procs p).priority → Q c q' = [] := by
  subst hcpu
  generalize hprio : (s.procs p).priority = prio at *
  have hset : ∀ q', q' ≠ prio →
      Q.set (s.procs p).cpu prio (Q (s.procs p).cpu prio ++ [p]) (s.procs p).cpu q' = Q (s.procs p).cpu q' :=
    fun q' hq' => Q.set_of_ne _ fun hcq => hq' hcq.2
  constructor
  · rintro rfl
    have hq : q = prio := by
      by_contra hq
      rw [hset q hq] at hhead
      exact hp ⟨_, q, by rw [hhead]; simp⟩
    subst hq
    rw [QueueMap.set_self] at hhead
    intro q' hq'
    rcases Nat.lt_or_eq_of_le hq' with hlt | rfl
    · rw [← hset q' (Nat.ne_of_lt hlt)]
      exact hfirst q' hlt
    · cases hQ : Q (s.procs n).cpu q' with
      | nil => rfl
      | cons a l' =>
        rw [hQ, List.cons_append] at hhead
        exact absurd ⟨_, q', by rw [hQ, (List.cons.inj hhead).1]; simp⟩ hp
  · intro hempty
    have hq : q = prio := by
      rcases Nat.lt_trichotomy q prio with hlt | heq | hgt
      · rw [hset q (Nat.ne_of_lt hlt), hempty q (Nat.le_of_lt hlt)] at hhead
        exact absurd hhead (by simp)
      · exact heq
      · have hnil := hfirst prio hgt
        rw [QueueMap.set_self] at hnil
        exact absurd hnil (by simp)
    subst hq
    rw [QueueMap.set_self, hempty q (Nat.le_refl q), List.nil_append] at hhead
    exact (List.cons.inj hhead).1.symm

/-- The common part of `scheduler_yield` and of an expiring `scheduler_tick`: the current
    process `p` goes back on its queue, and the first process `n` of the CPU is taken. -/
theorem requeue_spec {s : SchedState} {Q : QueueMap} (h : Queues s Q) {c : Nat} {p : ProcRef}
    (hp : Requeueable s Q c p) :
    ∃ n t, dequeueHighest (enqueueProcess (s.modProc p fun x => { x with state := .ready }) p) c = (some n, t) ∧
      (∀ d, (t.runqueues d).idleTask = (s.runqueues d).idleTask) ∧
      (n = p → ∃ Q', ∀ v, Switched s Q c p n (t.modProc p fun x => { x with timeSlice := v }) Q') ∧
      (n ≠ p → ∃ Q', Switched s Q c p n (dispatch t c n) Q') := by
  obtain ⟨hcur, hoff, hhome, hprio⟩ := hp
  have h₁ : Queues (s.modProc p fun x => { x with state := .ready }) Q := h.modProc_keep rfl rfl rfl
  have hstate₁ : ∀ r, ((s.modProc p fun x => { x with state := .ready }).procs r).state =
      if r = p then .ready else (s.procs r).state := by
    intro r
    by_cases hr : r = p <;> simp [hr]
  have hpriority₁ : ∀ r, ((s.modProc p fun x => { x with state := .ready }).procs r).priority =
      (s.procs r).priority := fun r => field_update Process.priority s.procs p r rfl
  have hcpu₁ : ∀ r, ((s.modProc p fun x => { x with state := .ready }).procs r).cpu = (s.procs r).cpu :=
    fun r => field_update Process.cpu s.procs p r rfl
  have hwaits₁ : SameWaits s (s.modProc p fun x => { x with state := .ready }) :=
    ⟨fun r => field_update Process.wq s.procs p r rfl,
      fun r => field_update Process.wqNext s.procs p r rfl, rfl⟩
  have hrq₁ : (s.modProc p fun x => { x with state := .ready }).runqueues = s.runqueues := rfl
  have hnum₁ : (s.modProc p fun x => { x with state := .ready }).numCpus = s.numCpus := rfl
  generalize (s.modProc p fun x => { x with state := .ready }) = s₁ at *
  have h₂ := h₁.enqueue hoff (by rw [hpriority₁]; exact hprio)
  rw [hcpu₁, hhome, hpriority₁] at h₂
  have hhas₂ := QueueMap.has_push Q c (s.procs p).priority p
  have hedit₂ := enqueueProcess_edit s₁ p
  generalize enqueueProcess s₁ p = s₂ at h₂ hedit₂
  rcases h₂.dequeue c with ⟨t, _, hnone⟩ | ⟨n, q, l, t, ht, hsome⟩
  · -- `p` itself is queued.
    have hnil := hnone.empty (s.procs p).priority
    rw [QueueMap.set_self] at hnil
    exact absurd hnil (by simp)
  have hedit := hedit₂.trans hsome.edit
  have hstays := requeue_first hoff hhome hsome.head hsome.first
  refine ⟨n, t, ht, ?_, ?_, ?_⟩
  · intro d
    rw [hedit.idleTask, hrq₁]
  · rintro rfl
    refine ⟨(Q.set c (s.procs n).priority (Q c (s.procs n).priority ++ [n])).set c q l, ?_⟩
    intro v
    have hedit' : QueueEdit s₁ (t.modProc n fun x => { x with timeSlice := v }) :=
      hedit.trans (QueueEdit.counters t n rfl)
    refine ⟨hsome.queues.modProc_keep rfl rfl rfl, Or.inl rfl, ?_, hstays, hhome, ?_, ?_, ?_, ?_, ?_, ?_,
      hwaits₁.trans hedit'.sameWaits⟩
    · intro r
      rw [h₂.has_pop hsome.head, hhas₂]
    · intro r
      rw [hedit'.state, hstate₁]
      simp
    · intro r
      rw [hedit'.priority, hpriority₁]
    · intro r
      rw [hedit'.cpu, hcpu₁]
    · intro d
      rw [hedit'.current, hrq₁]
      by_cases hd : d = c
      · simp [hd, hcur]
      · simp [hd]
    · intro d
      rw [hedit'.idleTask, hrq₁]
    · rw [hedit'.numCpus, hnum₁]
  · intro hne
    obtain ⟨Q', hd⟩ := dispatch_spec h₂ hsome
    refine ⟨Q', hd.queues, ?_, ?_, hstays, ?_, ?_, ?_, ?_, ?_, ?_, ?_, ?_⟩
    · exact ((hhas₂ n).mp hd.source).symm
    · intro r
      rw [hd.has, hhas₂]
    · rw [← hd.home, hedit₂.cpu, hcpu₁]
    · intro r
      rw [hd.state, hedit₂.state, hstate₁]
      by_cases hr : r = n <;> simp [hr, hne]
    · intro r
      rw [hd.priority, hedit₂.priority, hpriority₁]
    · intro r
      rw [hd.cpu, hedit₂.cpu, hcpu₁]
    · intro d
      rw [hd.current, hedit₂.current, hrq₁]
    · intro d
      rw [hd.idleTask, hedit₂.idleTask, hrq₁]
    · rw [hd.numCpus, hedit₂.numCpus, hnum₁]
    · exact (hwaits₁.trans hedit₂.sameWaits).trans hd.waits

theorem schedulerYield_none {s : SchedState} {c : Nat} (hcur : (s.runqueues c).current = none) :
    schedulerYield s c = s := by
  simp only [schedulerYield, hcur]

theorem schedulerYield_spec {s : SchedState} {Q : QueueMap} (h : Queues s Q) {c : Nat} {p : ProcRef}
    (hp : Requeueable s Q c p) : ∃ n Q', Switched s Q c p n (schedulerYield s c) Q' := by
  obtain ⟨n, t, ht, _, hself, hother⟩ := requeue_spec h hp
  simp only [schedulerYield, hp.current, ht]
  by_cases hn : n = p
  · obtain ⟨Q', hsw⟩ := hself hn
    rw [if_pos hn]
    exact ⟨n, Q', hsw _⟩
  · obtain ⟨Q', hsw⟩ := hother hn
    rw [if_neg hn]
    exact ⟨n, Q', hsw⟩

/-! ## `scheduler_tick` -/

/-- The tick ends the slice of the CPU's current process. -/
def Expires (s : SchedState) (p : ProcRef) : Prop :=
  (s.procs p).priority ≠ prioRealtime ∧ (s.procs p).timeSlice ≤ 1

instance (s : SchedState) (p : ProcRef) : Decidable (Expires s p) := by
  unfold Expires
  infer_instance

theorem slice_zero (slice : UInt64) : (if 0 < slice then slice - 1 else slice) = 0 ↔ slice ≤ 1 := by
  split <;> grind

theorem schedulerTick_none {s : SchedState} {c : Nat} (hcur : (s.runqueues c).current = none) :
    schedulerTick s c = some s := by
  simp only [schedulerTick, hcur]

/-- A switch seen from before an edit of counters. -/
theorem Switched.of_edit {s s' t : SchedState} {Q Q' : QueueMap} {c : Nat} {p n : ProcRef}
    (he : QueueEdit s s') (h : Switched s' Q c p n t Q') : Switched s Q c p n t Q' where
  queues := h.queues
  source := h.source
  has := h.has
  stays := by
    rw [← he.priority]
    exact h.stays
  home := (he.cpu n).symm.trans h.home
  state := fun r => by rw [h.state, he.state]
  priority := fun r => (h.priority r).trans (he.priority r)
  cpu := fun r => (h.cpu r).trans (he.cpu r)
  current := fun d => by rw [h.current, he.current]
  idleTask := fun d => (h.idleTask d).trans (he.idleTask d)
  numCpus := h.numCpus.trans he.numCpus
  waits := he.sameWaits.trans h.waits

theorem Requeueable.of_edit {s s' : SchedState} {Q : QueueMap} {c : Nat} {p : ProcRef}
    (hp : Requeueable s Q c p) (he : QueueEdit s s') : Requeueable s' Q c p :=
  ⟨(he.current c).trans hp.current, hp.off, (he.cpu p).trans hp.home, by rw [he.priority]; exact hp.prio⟩

theorem tickSwitch_spec {s : SchedState} {Q : QueueMap} (h : Queues s Q) {c : Nat} {p : ProcRef}
    (hp : Requeueable s Q c p) :
    ∃ n t Q', Switched s Q c p n t Q' ∧ tickSwitch s c p = some (decide (n = p), t) := by
  obtain ⟨n, t, ht, _, hself, hother⟩ := requeue_spec h hp
  unfold tickSwitch
  simp only [ht, Option.some_or]
  by_cases hn : n = p
  · obtain ⟨Q', hsw⟩ := hself hn
    refine ⟨n, _, Q', hsw (timeQuantum (t.procs p).priority), ?_⟩
    rw [if_neg (not_not_intro hn), decide_eq_true hn]
    rfl
  · obtain ⟨Q', hsw⟩ := hother hn
    refine ⟨n, _, Q', hsw, ?_⟩
    rw [if_pos hn, decide_eq_false hn]

/-- What a tick does to a CPU that runs `p`: nothing that matters, or a switch when the
    slice is used up. After a switch to `p` itself, or with no switch, there may be a
    boost. -/
theorem schedulerTick_spec {s : SchedState} {Q : QueueMap} (h : Queues s Q) {c : Nat} {p : ProcRef}
    (hp : Requeueable s Q c p) :
    ∃ s' Q', schedulerTick s c = some s' ∧
      ((¬Expires s p ∧ Kept s Q s' Q') ∨
        Expires s p ∧ ∃ n t Q'', Switched s Q c p n t Q'' ∧ Kept t Q'' s' Q') := by
  have hedit₁ : QueueEdit s (tickCount s c p) :=
    (QueueEdit.counters s p rfl).trans (QueueEdit.setRq _ c rfl rfl)
  have h₁ : Queues (tickCount s c p) Q := (h.modProc_keep rfl rfl rfl).modRq_keep rfl rfl rfl
  have hslice₁ : ((tickCount s c p).procs p).timeSlice = (s.procs p).timeSlice := by simp [tickCount]
  unfold schedulerTick
  simp only [hp.current, hedit₁.priority]
  generalize tickCount s c p = s₁ at hedit₁ h₁ hslice₁
  by_cases hrt : (s.procs p).priority = prioRealtime
  · rw [if_pos hrt]
    exact ⟨s₁, Q, rfl, Or.inl ⟨fun he => he.1 hrt, Kept.of_edit h₁ hedit₁⟩⟩
  rw [if_neg hrt]
  have hedit₂ : QueueEdit s (s₁.modProc p fun x =>
      { x with timeSlice := if 0 < x.timeSlice then x.timeSlice - 1 else x.timeSlice }) :=
    hedit₁.trans (QueueEdit.counters s₁ p rfl)
  have h₂ : Queues (s₁.modProc p fun x =>
      { x with timeSlice := if 0 < x.timeSlice then x.timeSlice - 1 else x.timeSlice }) Q :=
    h₁.modProc_keep rfl rfl rfl
  have hzero : ((s₁.modProc p fun x =>
      { x with timeSlice := if 0 < x.timeSlice then x.timeSlice - 1 else x.timeSlice }).procs p).timeSlice = 0 ↔
        (s.procs p).timeSlice ≤ 1 := by
    rw [SchedState.modProc_procs, Function.update_self]
    simp only [hslice₁]
    exact slice_zero _
  simp only [hzero]
  generalize (s₁.modProc p fun x =>
      { x with timeSlice := if 0 < x.timeSlice then x.timeSlice - 1 else x.timeSlice }) = s₂ at hedit₂ h₂
  by_cases hslice : (s.procs p).timeSlice ≤ 1
  · rw [if_pos hslice]
    have hexp : Expires s p := ⟨hrt, hslice⟩
    obtain ⟨n, t, Q', hsw, ht⟩ := tickSwitch_spec h₂ (hp.of_edit hedit₂)
    rw [ht]
    by_cases hn : n = p
    · rw [decide_eq_true hn]
      obtain ⟨s', Q'', hs', hkept⟩ := tickBoost_spec hsw.queues c
      exact ⟨s', Q'', hs', Or.inr ⟨hexp, n, t, Q', hsw.of_edit hedit₂, hkept⟩⟩
    · rw [decide_eq_false hn]
      exact ⟨t, Q', rfl, Or.inr ⟨hexp, n, t, Q', hsw.of_edit hedit₂, Kept.refl hsw.queues⟩⟩
  · rw [if_neg hslice]
    obtain ⟨s', Q', hs', hkept⟩ := tickBoost_spec h₂ c
    exact ⟨s', Q', hs', Or.inl ⟨fun he => hslice he.2, (Kept.of_edit h₂ hedit₂).trans hkept⟩⟩

/-! ## Sleeping, waking, starting -/

theorem schedulerStart_spec {s s' : SchedState} {Q : QueueMap} (h : Queues s Q) {c : Nat}
    (hs : schedulerStart s c = some s') : ∃ n Q', Dispatched s Q c n s' Q' := by
  unfold schedulerStart at hs
  rcases h.dequeue c with ⟨t, ht, _⟩ | ⟨n, q, l, t, ht, hsome⟩
  · rw [ht] at hs
    exact absurd hs (by simp)
  · rw [ht] at hs
    obtain ⟨Q', hd⟩ := dispatch_spec h hsome
    exact ⟨n, Q', Option.some.inj hs ▸ hd⟩

theorem sleepMark_queues {s : SchedState} {Q : QueueMap} (h : Queues s Q) (p : ProcRef) (wq : Nat) :
    Queues (sleepMark s p wq) Q := by
  have hmod : Queues (s.modProc p fun x =>
      { x with state := .sleeping, wq := some wq, wqNext := s.waitHead wq }) Q := h.modProc_keep rfl rfl rfl
  exact hmod.congr (fun _ => ⟨rfl, rfl, rfl⟩) fun _ _ => ⟨rfl, rfl, rfl⟩

theorem schedulerSleepOn_none {s : SchedState} {c wq : Nat} (hcur : (s.runqueues c).current = none) :
    schedulerSleepOn s c wq = some s := by
  simp only [schedulerSleepOn, hcur]

/-- With no idle task, a CPU that goes to sleep runs a process that was queued. -/
theorem schedulerSleepOn_spec {s s' : SchedState} {Q : QueueMap} (h : Queues s Q) {c wq : Nat}
    {p : ProcRef} (hcur : (s.runqueues c).current = some p) (hidle : (s.runqueues c).idleTask = none)
    (hs : schedulerSleepOn s c wq = some s') :
    ∃ n Q', Dispatched (sleepMark s p wq) Q c n s' Q' := by
  have hmark := sleepMark_queues h p wq
  have hidle' : ((sleepMark s p wq).runqueues c).idleTask = none := hidle
  simp only [schedulerSleepOn, hcur] at hs
  rcases hmark.dequeue c with ⟨t, ht, hnone⟩ | ⟨n, q, l, t, ht, hsome⟩
  · simp only [ht, hnone.edit.idleTask, hidle', Option.none_or] at hs
    exact absurd hs (by simp)
  · simp only [ht, Option.some_or, Option.some.injEq] at hs
    obtain ⟨Q', hd⟩ := dispatch_spec hmark hsome
    exact ⟨n, Q', hs ▸ hd⟩

theorem wakeMark_queues {s : SchedState} {Q : QueueMap} (h : Queues s Q) (p : ProcRef) :
    Queues (wakeMark s p) Q := h.modProc_keep rfl rfl rfl

theorem wakeProcess_spec {s : SchedState} {Q : QueueMap} (h : Queues s Q) {p : ProcRef}
    (hp : ¬Q.Has p) (hprio : (s.procs p).priority < schedQueues) :
    ∃ Q', Added (wakeMark s p) Q p (wakeProcess s p) Q' := by
  refine schedulerAddProcess_spec (wakeMark_queues h p) hp ?_
  simpa [wakeMark] using hprio

theorem wakeProcess_wqNext (s : SchedState) (p r : ProcRef) :
    ((wakeProcess s p).procs r).wqNext = if r = p then none else (s.procs r).wqNext := by
  unfold wakeProcess
  rw [(schedulerAddProcess_waits _ p).wqNext]
  by_cases hr : r = p <;> simp [wakeMark, hr]

/-- **The rule for a loop that wakes the processes of a list**, each by `wake`, which clears its
    link: what each wakeup preserves, with the rest of the list as a parameter, holds at the
    end for the empty rest. -/
theorem walk_rule (walk : Nat → Option ProcRef → SchedState → Option SchedState)
    {wake : SchedState → ProcRef → SchedState} (hnone : ∀ fuel s, walk fuel none s = some s)
    (hsome : ∀ fuel p s, walk (fuel + 1) (some p) s = walk fuel (s.procs p).wqNext (wake s p))
    (hnext : ∀ s p r, ((wake s p).procs r).wqNext = if r = p then none else (s.procs r).wqNext)
    {I : SchedState → List ProcRef → Prop} (hstep : ∀ s p rest, I s (p :: rest) → p ∉ rest → I (wake s p) rest)
    {l : List ProcRef} {s : SchedState} {h : Option ProcRef} {fuel : Nat} (hI : I s l)
    (hl : Linked (fun p => (s.procs p).wqNext) h l) (hfuel : l.length ≤ fuel) :
    ∃ s', walk fuel h s = some s' ∧ I s' [] := by
  induction l generalizing s h fuel with
  | nil =>
    have hh : h = none := hl
    exact ⟨s, hh ▸ hnone fuel s, hI⟩
  | cons p l ih =>
    have hp : p ∉ l := (List.nodup_cons.mp hl.nodup).1
    obtain ⟨rfl, hl⟩ := hl
    cases fuel with
    | zero => exact absurd hfuel (by simp)
    | succ fuel =>
      rw [hsome]
      refine ih (hstep s p l hI hp) (hl.congr ?_) (by simpa using hfuel)
      intro r hr
      have hrp : r ≠ p := fun hrp => hp (hrp ▸ hr)
      rw [hnext, if_neg hrp]

/-- The rule for `scheduler_wakeup`. -/
theorem wakeWalk_rule {I : SchedState → List ProcRef → Prop}
    (hstep : ∀ s p rest, I s (p :: rest) → p ∉ rest → I (wakeProcess s p) rest)
    {l : List ProcRef} {s : SchedState} {h : Option ProcRef} {fuel : Nat} (hI : I s l)
    (hl : Linked (fun p => (s.procs p).wqNext) h l) (hfuel : l.length ≤ fuel) :
    ∃ s', wakeWalk fuel h s = some s' ∧ I s' [] :=
  walk_rule _ (fun fuel s => by cases fuel <;> rfl) (fun _ _ _ => rfl) wakeProcess_wqNext hstep hI hl hfuel

end Crimson.Sched
