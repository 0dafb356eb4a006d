import Crimson.Lib.Run
import Crimson.Sched.Steps

/-!
# The run queues over whole runs

`RunqueueOk` is what every scheduler call relies on: each queue is a list that ends, its
tail pointer and its bit agree with it, and its members belong to it alone. A run is any
sequence of scheduler calls that meet their own preconditions, on any CPUs.

The calls keep `RunqueueOk` with one exception. `scheduler_remove_process` clears the
tail pointer when it removes the last process of a queue, and never moves it to the
predecessor: with a queue of two or more the pointer is lost while the queue is not
empty, and the next `enqueue_process` overwrites the head. `runqueueOk_iff` says that
this is the only way to leave `RunqueueOk`.
-/

set_option autoImplicit false

namespace Crimson.Sched

open Crimson.Lib

/-- The run queues of the CPUs there are, as the lists `Q`. -/
structure RunqueueLists (s : SchedState) (Q : QueueMap) : Prop where
  acyclic : ∀ c q, c < s.numCpus → q < schedQueues → Linked s.link ((s.runqueues c).queues q) (Q c q)
  tail : ∀ c q, c < s.numCpus → q < schedQueues → (s.runqueues c).tails q = (Q c q).getLast?
  tailNull : ∀ c q, c < s.numCpus → q < schedQueues → ((s.runqueues c).tails q = none ↔ Q c q = [])
  bitmap : ∀ c q, c < s.numCpus → q < schedQueues → Q c q ≠ [] →
    (s.runqueues c).queueBitmap.getLsbD q = true
  nodup : ∀ c q, c < s.numCpus → q < schedQueues → (Q c q).Nodup
  once : ∀ c q c' q' p, c < s.numCpus → q < schedQueues → c' < s.numCpus → q' < schedQueues →
    p ∈ Q c q → p ∈ Q c' q' → c = c' ∧ q = q'
  home : ∀ c q p, c < s.numCpus → q < schedQueues → p ∈ Q c q →
    (s.procs p).priority = q ∧ (s.procs p).cpu = c

def RunqueueOk (s : SchedState) : Prop := ∃ Q, RunqueueLists s Q

/-- The process is reached from the head of some queue. -/
def Queued (s : SchedState) (p : ProcRef) : Prop :=
  ∃ c q l, c < s.numCpus ∧ q < schedQueues ∧ Linked s.link ((s.runqueues c).queues q) l ∧ p ∈ l

/-- The process is reached from the head of some wait queue. -/
def Waiting (s : SchedState) (p : ProcRef) : Prop :=
  ∃ wq l, Linked (fun p => (s.procs p).wqNext) (s.waitHead wq) l ∧ p ∈ l

def Running (s : SchedState) (p : ProcRef) : Prop := ∃ c, (s.runqueues c).current = some p

inductive SchedOp where
  | start (cpu : Nat)
  | addProcess (proc : ProcRef)
  | tick (cpu : Nat)
  | yield (cpu : Nat)
  | sleepOn (cpu wq : Nat)
  | wakeup (wq : Nat)
  | wakeupOne (wq : Nat)
  | removeProcess (proc : ProcRef)
  | priorityBoost
deriving DecidableEq, Repr

def schedStep (s : SchedState) : SchedOp → Option SchedState
  | .start cpu => schedulerStart s cpu
  | .addProcess proc => some (schedulerAddProcess s proc)
  | .tick cpu => schedulerTick s cpu
  | .yield cpu => some (schedulerYield s cpu)
  | .sleepOn cpu wq => schedulerSleepOn s cpu wq
  | .wakeup wq => schedulerWakeup s wq
  | .wakeupOne wq => some (schedulerWakeupOne s wq)
  | .removeProcess proc => schedulerRemoveProcess s proc
  | .priorityBoost => Sched.priorityBoost s

/-- The calls' own preconditions: a CPU is one there is, and a process added is one that
    is neither queued, nor running, nor waiting to be woken. -/
def SchedPre (s : SchedState) : SchedOp → Prop
  | .start cpu | .tick cpu | .yield cpu | .sleepOn cpu _ => cpu < s.numCpus
  | .addProcess proc =>
    (s.procs proc).priority < schedQueues ∧ ¬Queued s proc ∧ ¬Running s proc ∧ ¬Waiting s proc
  | _ => True

/-- A removal keeps the queues: the last process of a queue goes only when it is the first. -/
def RemoveKeeps (s : SchedState) : SchedOp → Prop
  | .removeProcess proc => TailIsHead s proc
  | _ => True

/-- Nobody leaves the queues but by being removed or taken to run. -/
def NoneLost (s : SchedState) (op : SchedOp) (s' : SchedState) : Prop :=
  ∀ p, Queued s p → Queued s' p ∨ op = .removeProcess p ∨
    ∃ c, (s'.runqueues c).current = some p ∧ (s.runqueues c).current ≠ some p

/-! ## The invariant -/

/-- The queues are `Q`, the wait queues `W`, and the CPUs run the processes `R`; nobody is
    in two of these places. -/
structure Placed (s : SchedState) (Q : QueueMap) (W : Nat → List ProcRef) (R : Nat → Option ProcRef) :
    Prop where
  queues : Queues s Q
  cpus : 0 < s.numCpus
  ranged : ∀ p, Q.Has p → (s.procs p).priority < schedQueues ∧ (s.procs p).cpu < s.numCpus
  running : ∀ c p, R c = some p →
    ¬Q.Has p ∧ (s.procs p).cpu = c ∧ c < s.numCpus ∧ (s.procs p).priority < schedQueues
  waits : ∀ wq, Linked (fun p => (s.procs p).wqNext) (s.waitHead wq) (W wq)
  waitOnce : ∀ wq wq' p, p ∈ W wq → p ∈ W wq' → wq = wq'
  asleep : ∀ wq p, p ∈ W wq → ¬Q.Has p ∧ (∀ c, R c ≠ some p) ∧ (s.procs p).priority < schedQueues
  idle : ∀ c, (s.runqueues c).idleTask = none

def SchedState.currents (s : SchedState) (c : Nat) : Option ProcRef := (s.runqueues c).current

/-- The invariant of the runs. -/
def SchedInv (s : SchedState) (Q : QueueMap) (W : Nat → List ProcRef) : Prop :=
  Placed s Q W s.currents

theorem Placed.lists {s : SchedState} {Q : QueueMap} {W : Nat → List ProcRef} {R : Nat → Option ProcRef}
    (h : Placed s Q W R) : RunqueueLists s Q where
  acyclic := fun c q _ _ => (h.queues c q).queue.linked
  tail := fun c q _ _ => (h.queues c q).queue.tail_eq
  tailNull := fun c q _ _ => by
    rw [(h.queues c q).queue.tail_eq, List.getLast?_eq_none_iff]
  bitmap := fun c q _ _ => (h.queues c q).bit
  nodup := fun c q _ _ => (h.queues c q).queue.nodup
  once := fun _ _ _ _ _ _ _ _ _ hp hp' => h.queues.once hp hp'
  home := fun c q p _ _ hp => (h.queues c q).home p hp

theorem Placed.queued_iff {s : SchedState} {Q : QueueMap} {W : Nat → List ProcRef}
    {R : Nat → Option ProcRef} (h : Placed s Q W R) (p : ProcRef) : Queued s p ↔ Q.Has p := by
  constructor
  · rintro ⟨c, q, l, _, _, hl, hp⟩
    refine ⟨c, q, ?_⟩
    rwa [Linked.unique (h.queues c q).queue.linked hl]
  · intro hp
    obtain ⟨hprio, hcpu⟩ := h.ranged p hp
    obtain ⟨c, q, hpq⟩ := hp
    obtain ⟨rfl, rfl⟩ := h.queues.home hpq
    exact ⟨_, _, _, hcpu, hprio, (h.queues _ _).queue.linked, hpq⟩

theorem Placed.waiting_iff {s : SchedState} {Q : QueueMap} {W : Nat → List ProcRef}
    {R : Nat → Option ProcRef} (h : Placed s Q W R) (p : ProcRef) :
    Waiting s p ↔ ∃ wq, p ∈ W wq := by
  constructor
  · rintro ⟨wq, l, hl, hp⟩
    refine ⟨wq, ?_⟩
    rwa [Linked.unique (h.waits wq) hl]
  · rintro ⟨wq, hp⟩
    exact ⟨wq, W wq, h.waits wq, hp⟩

theorem SchedInv.requeueable {s : SchedState} {Q : QueueMap} {W : Nat → List ProcRef} (h : SchedInv s Q W)
    {c : Nat} {p : ProcRef} (hcur : (s.runqueues c).current = some p) : Requeueable s Q c p := by
  obtain ⟨hoff, hcpu, _, hprio⟩ := h.running c p hcur
  exact ⟨hcur, hoff, hcpu, hprio⟩

theorem SameWaits.linked {s s' : SchedState} (h : SameWaits s s') {wq : Nat} {l : List ProcRef}
    (hl : Linked (fun p => (s.procs p).wqNext) (s.waitHead wq) l) :
    Linked (fun p => (s'.procs p).wqNext) (s'.waitHead wq) l := by
  rw [h.waitHead]
  exact hl.congr fun r _ => h.wqNext r

theorem SchedInv.kept {s s' : SchedState} {Q Q' : QueueMap} {W : Nat → List ProcRef}
    (h : SchedInv s Q W) (hk : Kept s Q s' Q') : SchedInv s' Q' W := by
  have hedit := hk.edit
  have hprio : ∀ p, (s.procs p).priority < schedQueues → (s'.procs p).priority < schedQueues := by
    intro p hp
    rcases hedit.boosted p with he | he
    · rwa [he]
    · rw [he]
      decide
  have hcur : s'.currents = s.currents := funext hedit.current
  refine ⟨hk.queues, ?_, ?_, ?_, fun wq => hedit.sameWaits.linked (h.waits wq), h.waitOnce, ?_, ?_⟩
  · rw [hedit.numCpus]
    exact h.cpus
  · intro p hp
    obtain ⟨h₁, h₂⟩ := h.ranged p ((hk.has p).mp hp)
    rw [hedit.cpu, hedit.numCpus]
    exact ⟨hprio p h₁, h₂⟩
  · intro c p hp
    rw [hcur] at hp
    obtain ⟨h₁, h₂, h₃, h₄⟩ := h.running c p hp
    rw [hk.has, hedit.cpu, hedit.numCpus]
    exact ⟨h₁, h₂, h₃, hprio p h₄⟩
  · intro wq p hp
    obtain ⟨h₁, h₂, h₃⟩ := h.asleep wq p hp
    rw [hk.has, hcur]
    exact ⟨h₁, h₂, hprio p h₃⟩
  · intro c
    rw [hedit.idleTask]
    exact h.idle c

/-- A process that is in none of the places is added. -/
theorem SchedInv.added {s s' : SchedState} {Q Q' : QueueMap} {W : Nat → List ProcRef} {p : ProcRef}
    (h : SchedInv s Q W) (ha : Added s Q p s' Q') (hrun : ¬Running s p) (hwait : ∀ wq, p ∉ W wq)
    (hprio : (s.procs p).priority < schedQueues) : SchedInv s' Q' W := by
  have hcur : s'.currents = s.currents := funext ha.current
  refine ⟨ha.queues, ?_, ?_, ?_, fun wq => ha.waits.linked (h.waits wq), h.waitOnce, ?_, ?_⟩
  · rw [ha.numCpus]
    exact h.cpus
  · intro r hr
    rw [ha.priority, ha.cpu, ha.numCpus]
    by_cases hrp : r = p
    · rw [if_pos hrp, hrp]
      exact ⟨hprio, leastLoaded_lt h.cpus⟩
    · rw [if_neg hrp]
      exact h.ranged r (((ha.has r).mp hr).resolve_right hrp)
  · intro c r hr
    rw [hcur] at hr
    obtain ⟨h₁, h₂, h₃, h₄⟩ := h.running c r hr
    have hrp : r ≠ p := fun hrp => hrun ⟨c, hrp ▸ hr⟩
    rw [ha.priority, ha.cpu, ha.numCpus, if_neg hrp, ha.has]
    exact ⟨fun hin => hin.elim h₁ hrp, h₂, h₃, h₄⟩
  · intro wq r hr
    obtain ⟨h₁, h₂, h₃⟩ := h.asleep wq r hr
    have hrp : r ≠ p := fun hrp => hwait wq (hrp ▸ hr)
    rw [ha.priority, hcur, ha.has]
    exact ⟨fun hin => hin.elim h₁ hrp, h₂, h₃⟩
  · intro c
    rw [ha.idleTask]
    exact h.idle c

/-- A CPU takes a process off its queues and runs it, whatever it ran before. -/
theorem Placed.dispatched {s s' : SchedState} {Q Q' : QueueMap} {W : Nat → List ProcRef}
    {R : Nat → Option ProcRef} {c : Nat} {n : ProcRef} (h : Placed s Q W R)
    (hR : ∀ d, d ≠ c → R d = (s.runqueues d).current) (hd : Dispatched s Q c n s' Q') :
    SchedInv s' Q' W := by
  obtain ⟨hnprio, hncpu⟩ := h.ranged n hd.source
  refine ⟨hd.queues, ?_, ?_, ?_, fun wq => hd.waits.linked (h.waits wq), h.waitOnce, ?_, ?_⟩
  · rw [hd.numCpus]
    exact h.cpus
  · intro r hr
    rw [hd.priority, hd.cpu, hd.numCpus]
    exact h.ranged r ((hd.has r).mp hr).1
  · intro d r hr
    have hr : (s'.runqueues d).current = some r := hr
    rw [hd.current] at hr
    rw [hd.has, hd.priority, hd.cpu, hd.numCpus]
    by_cases hdc : d = c
    · rw [if_pos hdc] at hr
      have hrn : n = r := Option.some.inj hr
      rw [← hrn, hdc]
      exact ⟨fun hin => hin.2 rfl, hd.home, hd.home ▸ hncpu, hnprio⟩
    · rw [if_neg hdc, ← hR d hdc] at hr
      obtain ⟨h₁, h₂, h₃, h₄⟩ := h.running d r hr
      exact ⟨fun hin => h₁ hin.1, h₂, h₃, h₄⟩
  · intro wq r hr
    obtain ⟨h₁, h₂, h₃⟩ := h.asleep wq r hr
    rw [hd.has, hd.priority]
    refine ⟨fun hin => h₁ hin.1, ?_, h₃⟩
    intro d hcur
    have hcur : (s'.runqueues d).current = some r := hcur
    rw [hd.current] at hcur
    by_cases hdc : d = c
    · rw [if_pos hdc] at hcur
      exact h₁ (Option.some.inj hcur ▸ hd.source)
    · rw [if_neg hdc, ← hR d hdc] at hcur
      exact h₂ d hcur
  · intro d
    rw [hd.idleTask]
    exact h.idle d

/-- The current process of a CPU goes back on a queue, and the first one is taken. -/
theorem SchedInv.switched {s s' : SchedState} {Q Q' : QueueMap} {W : Nat → List ProcRef} {c : Nat}
    {p n : ProcRef} (h : SchedInv s Q W) (hcur : (s.runqueues c).current = some p)
    (hsw : Switched s Q c p n s' Q') : SchedInv s' Q' W := by
  obtain ⟨hoff, hcpu, hc, hprio⟩ := h.running c p hcur
  have hsource : (s.procs n).priority < schedQueues ∧ (∀ wq, n ∉ W wq) := by
    rcases hsw.source with rfl | hn
    · exact ⟨hprio, fun wq hin => (h.asleep wq n hin).2.1 c hcur⟩
    · exact ⟨(h.ranged n hn).1, fun wq hin => (h.asleep wq n hin).1 hn⟩
  refine ⟨hsw.queues, ?_, ?_, ?_, fun wq => hsw.waits.linked (h.waits wq), h.waitOnce, ?_, ?_⟩
  · rw [hsw.numCpus]
    exact h.cpus
  · intro r hr
    rw [hsw.priority, hsw.cpu, hsw.numCpus]
    rcases ((hsw.has r).mp hr).1 with hr | rfl
    · exact h.ranged r hr
    · exact ⟨hprio, hcpu ▸ hc⟩
  · intro d r hr
    have hr : (s'.runqueues d).current = some r := hr
    rw [hsw.current] at hr
    rw [hsw.has, hsw.priority, hsw.cpu, hsw.numCpus]
    by_cases hdc : d = c
    · rw [if_pos hdc] at hr
      have hrn : n = r := Option.some.inj hr
      rw [← hrn, hdc]
      exact ⟨fun hin => hin.2 rfl, hsw.home, hc, hsource.1⟩
    · rw [if_neg hdc] at hr
      obtain ⟨h₁, h₂, h₃, h₄⟩ := h.running d r hr
      refine ⟨fun hin => ?_, h₂, h₃, h₄⟩
      rcases hin.1 with hin | rfl
      · exact h₁ hin
      · exact hdc (h₂.symm.trans hcpu)
  · intro wq r hr
    obtain ⟨h₁, h₂, h₃⟩ := h.asleep wq r hr
    rw [hsw.has, hsw.priority]
    refine ⟨fun hin => ?_, ?_, h₃⟩
    · rcases hin.1 with hin | rfl
      · exact h₁ hin
      · exact h₂ c hcur
    · intro d hd
      have hd : (s'.runqueues d).current = some r := hd
      rw [hsw.current] at hd
      by_cases hdc : d = c
      · rw [if_pos hdc] at hd
        exact hsource.2 wq (Option.some.inj hd ▸ hr)
      · rw [if_neg hdc] at hd
        exact h₂ d hd
  · intro d
    rw [hsw.idleTask]
    exact h.idle d

/-! ## The calls keep the invariant -/

/-- What runs on the other CPUs when one is without a process. -/
theorem update_none_eq_some {R : Nat → Option ProcRef} {c d : Nat} {r : ProcRef}
    (h : Function.update R c none d = some r) : d ≠ c ∧ R d = some r := by
  by_cases hdc : d = c
  · rw [hdc, Function.update_self] at h
    exact absurd h (by simp)
  · rw [Function.update_of_ne hdc] at h
    exact ⟨hdc, h⟩

theorem mem_update_cons {W : Nat → List ProcRef} {wq wq' : Nat} {p r : ProcRef}
    (h : r ∈ Function.update W wq (p :: W wq) wq') : r = p ∧ wq' = wq ∨ r ∈ W wq' := by
  by_cases hwq : wq' = wq
  · subst hwq
    rw [Function.update_self] at h
    rcases List.mem_cons.mp h with hr | hr
    · exact Or.inl ⟨hr, rfl⟩
    · exact Or.inr hr
  · rw [Function.update_of_ne hwq] at h
    exact Or.inr h

/-- A process that waited nowhere waits in one place. -/
theorem waitOnce_update {W : Nat → List ProcRef} {wq : Nat} {p : ProcRef} (hnew : ∀ wq', p ∉ W wq')
    (hone : ∀ wq₁ wq₂ r, r ∈ W wq₁ → r ∈ W wq₂ → wq₁ = wq₂) {wq₁ wq₂ : Nat} {r : ProcRef}
    (h₁ : r ∈ Function.update W wq (p :: W wq) wq₁) (h₂ : r ∈ Function.update W wq (p :: W wq) wq₂) :
    wq₁ = wq₂ := by
  rcases mem_update_cons h₁ with ⟨rfl, hwq₁⟩ | hin₁
  · rcases mem_update_cons h₂ with ⟨-, hwq₂⟩ | hin₂
    · exact hwq₁.trans hwq₂.symm
    · exact absurd hin₂ (hnew wq₂)
  · rcases mem_update_cons h₂ with ⟨rfl, -⟩ | hin₂
    · exact absurd hin₁ (hnew wq₁)
    · exact hone wq₁ wq₂ r hin₁ hin₂

/-- Linking the current process of a CPU on a wait queue. The CPU is left without a
    process until it takes the next one. -/
theorem SchedInv.sleepMark {s : SchedState} {Q : QueueMap} {W : Nat → List ProcRef} {c wq : Nat}
    {p : ProcRef} (h : SchedInv s Q W) (hcur : (s.runqueues c).current = some p) :
    Placed (sleepMark s p wq) Q (Function.update W wq (p :: W wq)) (Function.update s.currents c none) := by
  obtain ⟨hoff, hcpu, hc, hprio⟩ := h.running c p hcur
  have hnew : ∀ wq', p ∉ W wq' := fun wq' hin => (h.asleep wq' p hin).2.1 c hcur
  have hpriority : ∀ r, ((Sched.sleepMark s p wq).procs r).priority = (s.procs r).priority :=
    fun r => field_update Process.priority s.procs p r rfl
  have hcpu' : ∀ r, ((Sched.sleepMark s p wq).procs r).cpu = (s.procs r).cpu :=
    fun r => field_update Process.cpu s.procs p r rfl
  have hnext : ∀ r, r ≠ p → ((Sched.sleepMark s p wq).procs r).wqNext = (s.procs r).wqNext := by
    intro r hr
    exact congrArg Process.wqNext (Function.update_of_ne hr _ _)
  have hold : ∀ wq', Linked (fun r => ((Sched.sleepMark s p wq).procs r).wqNext) (s.waitHead wq') (W wq') := by
    intro wq'
    exact (h.waits wq').congr fun r hr => hnext r fun hrp => hnew wq' (hrp ▸ hr)
  refine ⟨sleepMark_queues h.queues p wq, h.cpus, ?_, ?_, ?_, fun wq₁ wq₂ r => waitOnce_update hnew h.waitOnce, ?_,
    h.idle⟩
  · intro r hr
    rw [hpriority, hcpu']
    exact h.ranged r hr
  · intro d r hr
    obtain ⟨-, hr⟩ := update_none_eq_some hr
    rw [hpriority, hcpu']
    exact h.running d r hr
  · intro wq'
    by_cases hwq : wq' = wq
    · subst hwq
      simp only [Sched.sleepMark, Function.update_self]
      refine ⟨rfl, ?_⟩
      have hp : ((Sched.sleepMark s p wq').procs p).wqNext = s.waitHead wq' := by
        simp [Sched.sleepMark]
      have hlink := hold wq'
      rw [← hp] at hlink
      exact hlink
    · have hhead : (Sched.sleepMark s p wq).waitHead wq' = s.waitHead wq' := Function.update_of_ne hwq _ _
      rw [hhead, Function.update_of_ne hwq]
      exact hold wq'
  · intro wq' r hr
    rw [hpriority]
    rcases mem_update_cons hr with ⟨rfl, -⟩ | hrW
    · refine ⟨hoff, fun d hd => ?_, hprio⟩
      obtain ⟨hdc, hd⟩ := update_none_eq_some hd
      exact hdc ((h.running d r hd).2.1.symm.trans hcpu)
    · obtain ⟨h₁, h₂, h₃⟩ := h.asleep wq' r hrW
      refine ⟨h₁, fun d hd => ?_, h₃⟩
      obtain ⟨-, hd⟩ := update_none_eq_some hd
      exact h₂ d hd

/-- Moving the head of a wait queue on along its list. -/
theorem SchedInv.setWaitHead {s : SchedState} {Q : QueueMap} {W : Nat → List ProcRef} {wq : Nat}
    {h' : Option ProcRef} {l' : List ProcRef} (h : SchedInv s Q W) (hW : ∀ r ∈ l', r ∈ W wq)
    (hl' : Linked (fun p => (s.procs p).wqNext) h' l') :
    SchedInv { s with waitHead := Function.update s.waitHead wq h' } Q (Function.update W wq l') := by
  have hsub : ∀ wq' r, r ∈ Function.update W wq l' wq' → r ∈ W wq' := by
    intro wq' r hr
    by_cases hwq : wq' = wq
    · subst hwq
      rw [Function.update_self] at hr
      exact hW r hr
    · rwa [Function.update_of_ne hwq] at hr
  refine ⟨h.queues.congr (fun _ => ⟨rfl, rfl, rfl⟩) fun _ _ => ⟨rfl, rfl, rfl⟩, h.cpus, h.ranged, h.running,
    ?_, ?_, ?_, h.idle⟩
  · intro wq'
    by_cases hwq : wq' = wq
    · subst hwq
      simpa using hl'
    · simpa [Function.update_of_ne hwq] using h.waits wq'
  · intro wq₁ wq₂ r h₁ h₂
    exact h.waitOnce wq₁ wq₂ r (hsub wq₁ r h₁) (hsub wq₂ r h₂)
  · intro wq' r hr
    exact h.asleep wq' r (hsub wq' r hr)

/-- Clearing the wait links of a process that is on no wait queue. -/
theorem SchedInv.wakeMark {s : SchedState} {Q : QueueMap} {W : Nat → List ProcRef} {p : ProcRef}
    (h : SchedInv s Q W) (hwait : ∀ wq, p ∉ W wq) : SchedInv (wakeMark s p) Q W := by
  have hpriority : ∀ r, ((Sched.wakeMark s p).procs r).priority = (s.procs r).priority :=
    fun r => field_update Process.priority s.procs p r rfl
  have hcpu : ∀ r, ((Sched.wakeMark s p).procs r).cpu = (s.procs r).cpu :=
    fun r => field_update Process.cpu s.procs p r rfl
  refine ⟨wakeMark_queues h.queues p, h.cpus, ?_, ?_, ?_, h.waitOnce, ?_, h.idle⟩
  · intro r hr
    rw [hpriority, hcpu]
    exact h.ranged r hr
  · intro c r hr
    rw [hpriority, hcpu]
    exact h.running c r hr
  · intro wq
    refine (h.waits wq).congr ?_
    intro r hr
    exact congrArg Process.wqNext (Function.update_of_ne (fun hrp : r = p => hwait wq (hrp ▸ hr)) _ _)
  · intro wq r hr
    rw [hpriority]
    exact h.asleep wq r hr

/-- Waking a process that is in none of the places. -/
theorem SchedInv.wakeProcess {s : SchedState} {Q : QueueMap} {W : Nat → List ProcRef} {p : ProcRef}
    (h : SchedInv s Q W) (hoff : ¬Q.Has p) (hrun : ¬Running s p) (hwait : ∀ wq, p ∉ W wq)
    (hprio : (s.procs p).priority < schedQueues) :
    ∃ Q', SchedInv (wakeProcess s p) Q' W ∧ Added (Sched.wakeMark s p) Q p (wakeProcess s p) Q' := by
  obtain ⟨Q', ha⟩ := wakeProcess_spec h.queues hoff hprio
  refine ⟨Q', (h.wakeMark hwait).added ha hrun hwait ?_, ha⟩
  rw [Sched.wakeMark, SchedState.modProc_procs, Function.update_self]
  exact hprio

/-- The loop invariant of `scheduler_wakeup`: `rest` is still to be woken, and is in none of
    the places. -/
structure Waking (s : SchedState) (Q : QueueMap) (W : Nat → List ProcRef) (rest : List ProcRef) : Prop where
  placed : SchedInv s Q W
  off : ∀ r ∈ rest, ¬Q.Has r
  idle : ∀ r ∈ rest, ¬Running s r
  unlinked : ∀ r ∈ rest, ∀ wq, r ∉ W wq
  prio : ∀ r ∈ rest, (s.procs r).priority < schedQueues

theorem Waking.step {s : SchedState} {Q : QueueMap} {W : Nat → List ProcRef} {p : ProcRef}
    {rest : List ProcRef} (h : Waking s Q W (p :: rest)) (hp : p ∉ rest) :
    ∃ Q', Waking (Sched.wakeProcess s p) Q' W rest ∧
      Added (Sched.wakeMark s p) Q p (Sched.wakeProcess s p) Q' := by
  have hmem : p ∈ p :: rest := by simp
  obtain ⟨Q', hinv, ha⟩ := h.placed.wakeProcess (h.off p hmem) (h.idle p hmem) (h.unlinked p hmem) (h.prio p hmem)
  refine ⟨Q', ⟨hinv, ?_, ?_, fun r hr => h.unlinked r (by simp [hr]), ?_⟩, ha⟩
  · intro r hr hin
    rcases (ha.has r).mp hin with hin | rfl
    · exact h.off r (by simp [hr]) hin
    · exact hp hr
  · rintro r hr ⟨c, hc⟩
    exact h.idle r (by simp [hr]) ⟨c, (ha.current c).symm.trans hc⟩
  · intro r hr
    have hmark : ((Sched.wakeMark s p).procs r).priority = (s.procs r).priority :=
      field_update Process.priority s.procs p r rfl
    rw [ha.priority, hmark]
    exact h.prio r (by simp [hr])

/-- A wait queue is cut off: its processes are in none of the places. -/
theorem SchedInv.waking {s : SchedState} {Q : QueueMap} {W : Nat → List ProcRef} (h : SchedInv s Q W)
    (wq : Nat) :
    Waking { s with waitHead := Function.update s.waitHead wq none } Q (Function.update W wq []) (W wq) where
  placed := h.setWaitHead (fun r hr => absurd hr List.not_mem_nil) rfl
  off := fun r hr => (h.asleep wq r hr).1
  idle := by
    rintro r hr ⟨c, hc⟩
    exact (h.asleep wq r hr).2.1 c hc
  unlinked := by
    intro r hr wq' hin
    by_cases hwq : wq' = wq
    · rw [hwq, Function.update_self] at hin
      exact List.not_mem_nil hin
    · rw [Function.update_of_ne hwq] at hin
      exact hwq (h.waitOnce wq' wq r hin hr)
  prio := fun r hr => (h.asleep wq r hr).2.2

/-- The first process of a wait queue is unlinked. -/
theorem SchedInv.wakingOne {s : SchedState} {Q : QueueMap} {W : Nat → List ProcRef} (h : SchedInv s Q W)
    {wq : Nat} {p : ProcRef} {rest : List ProcRef} (hW : W wq = p :: rest) :
    Waking { s with waitHead := Function.update s.waitHead wq (s.procs p).wqNext } Q
      (Function.update W wq rest) [p] := by
  have hlinked := h.waits wq
  rw [hW] at hlinked
  have hp : p ∈ W wq := by simp [hW]
  obtain ⟨hoff, hrun, hprio⟩ := h.asleep wq p hp
  have hsub : ∀ r ∈ rest, r ∈ W wq := by
    intro r hr
    rw [hW]
    exact List.mem_cons_of_mem _ hr
  refine ⟨h.setWaitHead hsub hlinked.2, ?_, ?_, ?_, ?_⟩
  · intro r hr
    rwa [List.mem_singleton.mp hr]
  · rintro r hr ⟨c, hc⟩
    rw [List.mem_singleton.mp hr] at hc
    exact hrun c hc
  · intro r hr wq' hin
    rw [List.mem_singleton.mp hr] at hin
    by_cases hwq : wq' = wq
    · rw [hwq, Function.update_self] at hin
      exact (List.nodup_cons.mp hlinked.nodup).1 hin
    · rw [Function.update_of_ne hwq] at hin
      exact hwq (h.waitOnce wq' wq p hin hp)
  · intro r hr
    rwa [List.mem_singleton.mp hr]

theorem schedulerWakeupOne_nil {s : SchedState} {wq : Nat} (h : s.waitHead wq = none) :
    schedulerWakeupOne s wq = s := by
  simp only [schedulerWakeupOne, h]

theorem schedulerWakeupOne_cons {s : SchedState} {wq : Nat} {p : ProcRef} (h : s.waitHead wq = some p) :
    schedulerWakeupOne s wq =
      Sched.wakeProcess { s with waitHead := Function.update s.waitHead wq (s.procs p).wqNext } p := by
  simp only [schedulerWakeupOne, h]

theorem SchedInv.wakeupOne {s : SchedState} {Q : QueueMap} {W : Nat → List ProcRef} (h : SchedInv s Q W)
    (wq : Nat) : ∃ Q' W', SchedInv (schedulerWakeupOne s wq) Q' W' ∧ ∀ p, Q.Has p → Q'.Has p := by
  have hlinked := h.waits wq
  cases hW : W wq with
  | nil =>
    rw [hW] at hlinked
    rw [schedulerWakeupOne_nil hlinked]
    exact ⟨Q, W, h, fun _ hp => hp⟩
  | cons p rest =>
    rw [hW] at hlinked
    rw [schedulerWakeupOne_cons hlinked.1]
    obtain ⟨Q', hwaking, ha⟩ := (h.wakingOne hW).step List.not_mem_nil
    exact ⟨Q', _, hwaking.placed, fun r hr => (ha.has r).mpr (Or.inl hr)⟩

theorem SchedInv.wakeup {s : SchedState} {Q : QueueMap} {W : Nat → List ProcRef} (h : SchedInv s Q W)
    (wq : Nat) :
    ∃ s' Q' W', schedulerWakeup s wq = some s' ∧ SchedInv s' Q' W' ∧ ∀ p, Q.Has p → Q'.Has p := by
  have hlinked := h.waits wq
  obtain ⟨s', hs', Q', hwaking, hmono⟩ := wakeWalk_rule
    (I := fun t rest => ∃ Q', Waking t Q' (Function.update W wq []) rest ∧ ∀ r, Q.Has r → Q'.Has r)
    (by
      rintro t p rest ⟨Q₁, hwaking, hmono⟩ hp
      obtain ⟨Q₂, hwaking₂, ha⟩ := hwaking.step hp
      exact ⟨Q₂, hwaking₂, fun r hr => (ha.has r).mpr (Or.inl (hmono r hr))⟩)
    ⟨Q, h.waking wq, fun _ hr => hr⟩ hlinked (length_le_maxProcesses hlinked.nodup)
  exact ⟨s', Q', _, hs', hwaking.placed, hmono⟩

theorem SchedInv.remove {s : SchedState} {Q : QueueMap} {W : Nat → List ProcRef} (h : SchedInv s Q W)
    {p : ProcRef} (hguard : TailIsHead s p) :
    ∃ s' Q', schedulerRemoveProcess s p = some s' ∧ SchedInv s' Q' W ∧ ∀ r, Q.Has r → Q'.Has r ∨ r = p := by
  obtain ⟨s', Q', hs', hqueues, hhas, t, hedit, rfl⟩ := h.queues.remove hguard
  have hedit' : ∀ {β : Type} (get : Process → β),
      get { t.procs p with schedNext := none, state := .dead } = get (t.procs p) →
        ∀ r, get ((t.modProc p fun x => { x with schedNext := none, state := .dead }).procs r) =
          get (t.procs r) := fun get hget r => field_update get t.procs p r hget
  have hpriority : ∀ r, ((t.modProc p fun x => { x with schedNext := none, state := .dead }).procs r).priority =
      (s.procs r).priority := fun r => (hedit' Process.priority rfl r).trans (hedit.priority r)
  have hcpu : ∀ r, ((t.modProc p fun x => { x with schedNext := none, state := .dead }).procs r).cpu =
      (s.procs r).cpu := fun r => (hedit' Process.cpu rfl r).trans (hedit.cpu r)
  have hcur : (t.modProc p fun x => { x with schedNext := none, state := .dead }).currents = s.currents :=
    funext hedit.current
  refine ⟨_, Q', hs', ⟨hqueues, ?_, ?_, ?_, ?_, h.waitOnce, ?_, fun c => (hedit.idleTask c).trans (h.idle c)⟩, ?_⟩
  · exact hedit.numCpus.symm ▸ h.cpus
  · intro r hr
    rw [hpriority, hcpu]
    exact hedit.numCpus.symm ▸ h.ranged r ((hhas r).mp hr).1
  · intro c r hr
    rw [hcur] at hr
    rw [hpriority, hcpu, hhas]
    obtain ⟨h₁, h₂, h₃, h₄⟩ := h.running c r hr
    exact ⟨fun hin => h₁ hin.1, h₂, hedit.numCpus.symm ▸ h₃, h₄⟩
  · intro wq
    have hlinked := hedit.sameWaits.linked (h.waits wq)
    exact hlinked.congr fun r _ => hedit' Process.wqNext rfl r
  · intro wq r hr
    rw [hpriority, hcur, hhas]
    obtain ⟨h₁, h₂, h₃⟩ := h.asleep wq r hr
    exact ⟨fun hin => h₁ hin.1, h₂, h₃⟩
  · intro r hr
    by_cases hrp : r = p
    · exact Or.inr hrp
    · exact Or.inl ((hhas r).mpr ⟨hr, hrp⟩)

/-- Where only `n` is taken off the queues, and then runs. -/
theorem SchedInv.left_or_runs {s s' : SchedState} {Q Q' : QueueMap} {W : Nat → List ProcRef} {c : Nat} {n : ProcRef}
    (h : SchedInv s Q W) (hcur : (s'.runqueues c).current = some n) (hkept : ∀ p, Q.Has p → p ≠ n → Q'.Has p)
    (op : SchedOp) (p : ProcRef) (hp : Q.Has p) :
    Q'.Has p ∨ op = .removeProcess p ∨
      ∃ c, (s'.runqueues c).current = some p ∧ (s.runqueues c).current ≠ some p := by
  by_cases hpn : p = n
  · subst hpn
    exact Or.inr (Or.inr ⟨c, hcur, fun hold => (h.running c p hold).1 hp⟩)
  · exact Or.inl (hkept p hp hpn)

/-- **Step lemma**: a call that meets its precondition and the guard keeps the invariant,
    and nobody leaves the queues but by being removed or taken to run. -/
theorem schedStep_spec {s s' : SchedState} {Q : QueueMap} {W : Nat → List ProcRef} {op : SchedOp}
    (h : SchedInv s Q W) (hpre : SchedPre s op) (hguard : RemoveKeeps s op)
    (hs : schedStep s op = some s') :
    ∃ Q' W', SchedInv s' Q' W' ∧ ∀ p, Q.Has p → Q'.Has p ∨ op = .removeProcess p ∨
      ∃ c, (s'.runqueues c).current = some p ∧ (s.runqueues c).current ≠ some p := by
  cases op with
  | start cpu =>
    obtain ⟨n, Q', hd⟩ := schedulerStart_spec h.queues hs
    have hcur := (hd.current cpu).trans (if_pos rfl)
    exact ⟨Q', W, h.dispatched (fun d _ => rfl) hd,
      h.left_or_runs hcur (fun p hp hpn => (hd.has p).mpr ⟨hp, hpn⟩) _⟩
  | addProcess proc =>
    obtain ⟨hprio, hoff, hrun, hwait⟩ := hpre
    obtain ⟨Q', ha⟩ := schedulerAddProcess_spec h.queues (fun hin => hoff ((h.queued_iff proc).mpr hin)) hprio
    have hs : schedulerAddProcess s proc = s' := Option.some.inj hs
    rw [hs] at ha
    refine ⟨Q', W, h.added ha hrun (fun wq hin => hwait ((h.waiting_iff proc).mpr ⟨wq, hin⟩)) hprio, ?_⟩
    intro p hp
    exact Or.inl ((ha.has p).mpr (Or.inl hp))
  | tick cpu =>
    cases hcur : (s.runqueues cpu).current with
    | none =>
      have hs : some s = some s' := (schedulerTick_none hcur).symm.trans hs
      exact ⟨Q, W, Option.some.inj hs ▸ h, fun p hp => Or.inl hp⟩
    | some current =>
      obtain ⟨t, Q', ht, hcases⟩ := schedulerTick_spec h.queues (h.requeueable hcur)
      have hts : t = s' := Option.some.inj (ht.symm.trans hs)
      subst hts
      -- the slice goes on, or it is over and the next process is switched to
      rcases hcases with ⟨_, hkept⟩ | ⟨_, n, u, Q'', hsw, hkept⟩
      · exact ⟨Q', W, h.kept hkept, fun p hp => Or.inl ((hkept.has p).mpr hp)⟩
      · have hrun := (hkept.edit.current cpu).trans ((hsw.current cpu).trans (if_pos rfl))
        exact ⟨Q', W, SchedInv.kept (h.switched hcur hsw) hkept,
          h.left_or_runs hrun (fun p hp hpn => (hkept.has p).mpr ((hsw.has p).mpr ⟨Or.inl hp, hpn⟩)) _⟩
  | yield cpu =>
    have hs : schedulerYield s cpu = s' := Option.some.inj hs
    cases hcur : (s.runqueues cpu).current with
    | none =>
      rw [schedulerYield_none hcur] at hs
      exact ⟨Q, W, hs ▸ h, fun p hp => Or.inl hp⟩
    | some current =>
      obtain ⟨n, Q', hsw⟩ := schedulerYield_spec h.queues (h.requeueable hcur)
      rw [hs] at hsw
      have hrun := (hsw.current cpu).trans (if_pos rfl)
      exact ⟨Q', W, h.switched hcur hsw,
        h.left_or_runs hrun (fun p hp hpn => (hsw.has p).mpr ⟨Or.inl hp, hpn⟩) _⟩
  | sleepOn cpu wq =>
    cases hcur : (s.runqueues cpu).current with
    | none =>
      have hs : some s = some s' := (schedulerSleepOn_none hcur).symm.trans hs
      exact ⟨Q, W, Option.some.inj hs ▸ h, fun p hp => Or.inl hp⟩
    | some current =>
      obtain ⟨n, Q', hd⟩ := schedulerSleepOn_spec h.queues hcur (h.idle cpu) hs
      have hrun := (hd.current cpu).trans (if_pos rfl)
      exact ⟨Q', _, (h.sleepMark hcur).dispatched (fun d hdc => Function.update_of_ne hdc _ _) hd,
        h.left_or_runs hrun (fun p hp hpn => (hd.has p).mpr ⟨hp, hpn⟩) _⟩
  | wakeup wq =>
    obtain ⟨t, Q', W', ht, hinv, hmono⟩ := h.wakeup wq
    have hts : t = s' := Option.some.inj (ht.symm.trans hs)
    exact ⟨Q', W', hts ▸ hinv, fun p hp => Or.inl (hmono p hp)⟩
  | wakeupOne wq =>
    obtain ⟨Q', W', hinv, hmono⟩ := h.wakeupOne wq
    have hs : schedulerWakeupOne s wq = s' := Option.some.inj hs
    exact ⟨Q', W', hs ▸ hinv, fun p hp => Or.inl (hmono p hp)⟩
  | removeProcess proc =>
    obtain ⟨t, Q', ht, hinv, hhas⟩ := h.remove hguard
    have hts : t = s' := Option.some.inj (ht.symm.trans hs)
    refine ⟨Q', W, hts ▸ hinv, ?_⟩
    intro p hp
    rcases hhas p hp with hin | hpp
    · exact Or.inl hin
    · exact Or.inr (Or.inl (by rw [hpp]))
  | priorityBoost =>
    obtain ⟨t, Q', ht, hkept⟩ := priorityBoost_spec h.queues
    have hts : t = s' := Option.some.inj (ht.symm.trans hs)
    subst hts
    exact ⟨Q', W, h.kept hkept, fun p hp => Or.inl ((hkept.has p).mpr hp)⟩

/-- A removal outside the guard clears the tail pointer of a queue that is not empty. -/
theorem remove_breaks {s s' : SchedState} {Q : QueueMap} {W : Nat → List ProcRef} {p : ProcRef}
    (h : SchedInv s Q W) (hguard : ¬TailIsHead s p) (hs : schedulerRemoveProcess s p = some s') :
    ¬RunqueueOk s' := by
  unfold TailIsHead at hguard
  rw [Classical.not_imp] at hguard
  obtain ⟨htail, hhead⟩ := hguard
  have hqueue := (h.queues (s.procs p).cpu (s.procs p).priority).queue
  have hp := hqueue.tail_mem htail
  obtain ⟨hprio, hcpu⟩ := h.ranged p ⟨_, _, hp⟩
  obtain ⟨l₁, l₂, hQ, hl₁⟩ := List.eq_append_cons_of_mem hp
  -- `p` has a predecessor `y`, whose link is the one the loop writes.
  obtain ⟨l, y, rfl⟩ : ∃ l y, l₁ = l ++ [y] := by
    rcases List.eq_nil_or_concat l₁ with rfl | ⟨l, y, rfl⟩
    · rw [hqueue.linked.head_eq, hQ] at hhead
      exact absurd rfl hhead
    · exact ⟨l, y, List.concat_eq_append⟩
  have hfound := (@removeWalk_spec s _ _ p _ _ none hqueue.linked
    (length_le_maxProcesses hqueue.nodup)).2 _ l₂ hQ hl₁
  have hlast : (l ++ [y]).getLast?.or none = some y := by simp
  rw [hlast] at hfound
  unfold schedulerRemoveProcess at hs
  rw [hfound, Option.map_some, Option.some.injEq] at hs
  have hunl : unlinkAt s (s.procs p).cpu (s.procs p).priority p (some y) =
      (s.modProc y fun x => { x with schedNext := (s.procs p).schedNext }).modRq (s.procs p).cpu fun rq =>
        { rq with tails := Function.update rq.tails (s.procs p).priority none } := if_pos htail
  rw [hunl] at hs
  rintro ⟨Q', hlists⟩
  have hnull : (s'.runqueues (s.procs p).cpu).tails (s.procs p).priority = none := by
    rw [← hs]
    simp
  have hempty := (hlists.tailNull _ _ (by rw [← hs]; exact hcpu) hprio).mp hnull
  have hlinked := hlists.acyclic _ _ (by rw [← hs]; exact hcpu) hprio
  have hsame : (s'.runqueues (s.procs p).cpu).queues (s.procs p).priority =
      (s.runqueues (s.procs p).cpu).queues (s.procs p).priority := by
    rw [← hs]
    simp
  rw [hempty, hsame] at hlinked
  rw [(hqueue.linked.eq_nil_iff).mp hlinked] at hp
  exact List.not_mem_nil hp

/-! ## Runs -/

/-- What `scheduler_init` leaves, with nobody on a wait queue yet. -/
theorem schedulerInit_inv (procs : ProcRef → Process) {numCpus : Nat} (hcpus : 0 < numCpus)
    (rqs : Nat → Runqueue) (n : Nat) :
    SchedInv (schedulerInit ⟨procs, rqs, n, fun _ => none⟩ numCpus) (fun _ _ => []) fun _ => [] := by
  refine ⟨?_, hcpus, ?_, ?_, fun _ => rfl, ?_, ?_, fun _ => rfl⟩
  · intro c q
    exact ⟨TailQueue.empty, fun hnil => absurd rfl hnil, fun p hp => absurd hp List.not_mem_nil⟩
  · rintro p ⟨_, _, hp⟩
    exact absurd hp List.not_mem_nil
  · intro c p hp
    exact absurd hp (by simp [SchedState.currents, schedulerInit, Runqueue.empty])
  · intro _ _ p hp
    exact absurd hp List.not_mem_nil
  · intro _ p hp
    exact absurd hp List.not_mem_nil

theorem noneLost_of {s s' : SchedState} {Q Q' : QueueMap} {W W' : Nat → List ProcRef} {op : SchedOp}
    (h : SchedInv s Q W) (h' : SchedInv s' Q' W')
    (hlost : ∀ p, Q.Has p → Q'.Has p ∨ op = .removeProcess p ∨
      ∃ c, (s'.runqueues c).current = some p ∧ (s.runqueues c).current ≠ some p) : NoneLost s op s' := by
  intro p hp
  rcases hlost p ((h.queued_iff p).mp hp) with hin | hout
  · exact Or.inl ((h'.queued_iff p).mpr hin)
  · exact Or.inr hout

/-- **The run queues stay well formed exactly as long as no removal takes the last of
    several processes off a queue.** In a run of calls that meet their preconditions,
    from the state `scheduler_init` leaves, `RunqueueOk` holds throughout and nobody is
    lost from the queues if and only if every removal meets `TailIsHead`. -/
theorem runqueueOk_iff (procs : ProcRef → Process) (rqs : Nat → Runqueue) (n : Nat) {numCpus : Nat}
    (hcpus : 0 < numCpus) (ops : List SchedOp)
    (hpre : Meets schedStep SchedPre (schedulerInit ⟨procs, rqs, n, fun _ => none⟩ numCpus) ops) :
    (Always schedStep RunqueueOk (schedulerInit ⟨procs, rqs, n, fun _ => none⟩ numCpus) ops ∧
      AlwaysStep schedStep NoneLost (schedulerInit ⟨procs, rqs, n, fun _ => none⟩ numCpus) ops) ↔
      Meets schedStep RemoveKeeps (schedulerInit ⟨procs, rqs, n, fun _ => none⟩ numCpus) ops := by
  have hinit : ∃ Q W, SchedInv (schedulerInit ⟨procs, rqs, n, fun _ => none⟩ numCpus) Q W :=
    ⟨_, _, schedulerInit_inv procs hcpus rqs n⟩
  generalize schedulerInit ⟨procs, rqs, n, fun _ => none⟩ numCpus = s at *
  have hiff : Always schedStep RunqueueOk s ops ↔ Meets schedStep RemoveKeeps s ops := by
    refine always_iff_meets_assuming (I := fun s => ∃ Q W, SchedInv s Q W) ?_ ?_ ?_ hinit hpre
    · rintro s ⟨Q, W, h⟩
      exact ⟨Q, h.lists⟩
    · rintro s op s' ⟨Q, W, h⟩ hop hguard hs
      obtain ⟨Q', W', h', _⟩ := schedStep_spec h hop hguard hs
      exact ⟨Q', W', h'⟩
    · rintro s op s' ⟨Q, W, h⟩ _ hguard hs
      cases op with
      | removeProcess proc => exact remove_breaks h hguard hs
      | _ => exact absurd trivial hguard
  refine ⟨fun h => hiff.mp h.1, fun hguard => ⟨hiff.mpr hguard, ?_⟩⟩
  have hboth := hpre.and hguard
  have hinv : Always schedStep (fun s => ∃ Q W, SchedInv s Q W) s ops := by
    refine always_of_meets ?_ hinit hboth
    rintro s op s' ⟨Q, W, h⟩ ⟨hop, hg⟩ hs
    obtain ⟨Q', W', h', _⟩ := schedStep_spec h hop hg hs
    exact ⟨Q', W', h'⟩
  refine alwaysStep_of_always ?_ hinv hboth
  rintro s op s' ⟨Q, W, h⟩ ⟨hop, hg⟩ hs
  obtain ⟨Q', W', h', hlost⟩ := schedStep_spec h hop hg hs
  exact noneLost_of h h' hlost

/-- A process table of normal-priority processes. -/
def normalProcs (_ : ProcRef) : Process := { Process.zero with priority := prioNormal }

/-- The scheduler over that table, with the given number of CPUs. -/
def freshSched (numCpus : Nat) : SchedState :=
  schedulerInit ⟨normalProcs, fun _ => Runqueue.empty, 0, fun _ => none⟩ numCpus

/-- Two processes added on one CPU, and then any call without a precondition. -/
theorem two_added {op : SchedOp} (hop : ∀ s, SchedPre s op) :
    Meets schedStep SchedPre (freshSched 1) [.addProcess 0, .addProcess 1, op] ∧
      (∃ Q, SchedInv (schedulerAddProcess (schedulerAddProcess (freshSched 1) 0) 1) Q fun _ => []) ∧
      ∀ p, ((schedulerAddProcess (schedulerAddProcess (freshSched 1) 0) 1).procs p).state ≠ .sleeping := by
  have h₀ : SchedInv (freshSched 1) (fun _ _ => []) fun _ => [] :=
    schedulerInit_inv normalProcs Nat.one_pos (fun _ => Runqueue.empty) 0
  have hrun₀ : ∀ p, ¬Running (freshSched 1) p := by
    rintro p ⟨c, hc⟩
    exact absurd hc (by simp [freshSched, schedulerInit, Runqueue.empty])
  have hoff₀ : ∀ p, ¬QueueMap.Has (fun _ _ => []) p := by
    rintro p ⟨_, _, hp⟩
    exact List.not_mem_nil hp
  have hprio₀ : ∀ p, ((freshSched 1).procs p).priority < schedQueues :=
    fun _ => (by decide : prioNormal < schedQueues)
  obtain ⟨Q₁, ha₁⟩ := schedulerAddProcess_spec h₀.queues (hoff₀ 0) (hprio₀ 0)
  have h₁ := h₀.added ha₁ (hrun₀ 0) (fun _ => List.not_mem_nil) (hprio₀ 0)
  have hrun₁ : ¬Running (schedulerAddProcess (freshSched 1) 0) 1 := by
    rintro ⟨c, hc⟩
    exact hrun₀ 1 ⟨c, (ha₁.current c).symm.trans hc⟩
  have hoff₁ : ¬Q₁.Has 1 := fun hin => ((ha₁.has 1).mp hin).elim (hoff₀ 1) (by decide)
  have hprio₁ : ((schedulerAddProcess (freshSched 1) 0).procs 1).priority < schedQueues := by
    exact (ha₁.priority 1).symm ▸ hprio₀ 1
  obtain ⟨Q₂, ha₂⟩ := schedulerAddProcess_spec h₁.queues hoff₁ hprio₁
  refine ⟨?_, ⟨Q₂, h₁.added ha₂ hrun₁ (fun _ => List.not_mem_nil) hprio₁⟩, ?_⟩
  case refine_2 =>
    intro p
    have hfresh : ((freshSched 1).procs p).state = .unused := rfl
    rw [ha₂.state, ha₁.state, hfresh]
    split
    · simp
    · split <;> simp
  intro s₁ hs₁
  have hs₁ : schedulerAddProcess (freshSched 1) 0 = s₁ := Option.some.inj hs₁
  subst hs₁
  refine ⟨⟨hprio₀ 0, ?_, hrun₀ 0, ?_⟩, ?_⟩
  · rw [h₀.queued_iff]
    exact hoff₀ 0
  · rw [h₀.waiting_iff]
    rintro ⟨_, hin⟩
    exact List.not_mem_nil hin
  · intro s₂ _
    refine ⟨⟨hprio₁, ?_, hrun₁, ?_⟩, fun _ _ => ⟨hop s₂, trivial⟩⟩
    · rw [h₁.queued_iff]
      exact hoff₁
    · rw [h₁.waiting_iff]
      rintro ⟨_, hin⟩
      exact List.not_mem_nil hin

/-- Removing the first of two processes is a run that stays well formed. -/
theorem runqueueOk_remove_first :
    Always schedStep RunqueueOk (freshSched 1) [.addProcess 0, .addProcess 1, .removeProcess 0] ∧
      AlwaysStep schedStep NoneLost (freshSched 1) [.addProcess 0, .addProcess 1, .removeProcess 0] := by
  refine (runqueueOk_iff normalProcs (fun _ => Runqueue.empty) 0 Nat.one_pos _
    (@two_added (.removeProcess 0) fun _ => trivial).1).mpr ?_
  intro s₁ hs₁
  have hs₁ : schedulerAddProcess (freshSched 1) 0 = s₁ := Option.some.inj hs₁
  subst hs₁
  refine ⟨trivial, ?_⟩
  intro s₂ hs₂
  have hs₂ : schedulerAddProcess (schedulerAddProcess (freshSched 1) 0) 1 = s₂ := Option.some.inj hs₂
  subst hs₂
  refine ⟨trivial, fun _ _ => ⟨?_, trivial⟩⟩
  show TailIsHead (schedulerAddProcess (schedulerAddProcess (freshSched 1) 0) 1) 0
  unfold TailIsHead
  decide +kernel

/-- Removing the second of two processes leaves a queue whose tail pointer is null and
    whose head is not. -/
theorem remove_second_breaks :
    Meets schedStep SchedPre (freshSched 1) [.addProcess 0, .addProcess 1, .removeProcess 1] ∧
      ¬Always schedStep RunqueueOk (freshSched 1) [.addProcess 0, .addProcess 1, .removeProcess 1] := by
  obtain ⟨hpre, ⟨Q, h⟩, _⟩ := @two_added (.removeProcess 1) fun _ => trivial
  refine ⟨hpre, fun halways => ?_⟩
  have hlast := (halways.2 _ rfl).2 _ rfl
  have hbad : ¬TailIsHead (schedulerAddProcess (schedulerAddProcess (freshSched 1) 0) 1) 1 := by
    unfold TailIsHead
    decide +kernel
  have hsome : (schedulerRemoveProcess (schedulerAddProcess (schedulerAddProcess (freshSched 1) 0) 1) 1).isSome := by
    decide +kernel
  obtain ⟨s', hs'⟩ := Option.isSome_iff_exists.mp hsome
  exact remove_breaks h hbad hs' (hlast.2 s' hs').head

end Crimson.Sched
