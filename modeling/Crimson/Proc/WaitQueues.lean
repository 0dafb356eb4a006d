import Crimson.Proc.Model
import Crimson.Sched.Runqueue

/-!
# Wait queues and signals

A process sleeps on a wait queue with `scheduler_sleep_on`, and two paths wake it: the
wakeups of the queue, which unlink it, and `process_kill`, which makes a sleeping process
ready and gives it to the scheduler without touching the queue it is linked on.

`WaitQueuesOk` is the agreement between the links and the processes' own state. It holds
in every state of a run exactly when no signal reaches a sleeping process
(`waitQueuesOk_iff`): the first one that does leaves a ready process on a wait queue.
-/

set_option autoImplicit false

namespace Crimson.Proc

open Crimson.Lib Crimson.Sched

variable {μ : Type}

inductive WaitOp where
  | sleepOn (cpu wq : Nat)
  | wakeup (wq : Nat)
  | wakeupOne (wq : Nat)
  | kill (cpu : Nat) (pid sig : Int)
deriving DecidableEq, Repr

def waitStep (s : ProcTable μ) : WaitOp → Option (ProcTable μ)
  | .sleepOn cpu wq => (schedulerSleepOn s.sched cpu wq).map fun sched => { s with sched := sched }
  | .wakeup wq => (schedulerWakeup s.sched wq).map fun sched => { s with sched := sched }
  | .wakeupOne wq => some { s with sched := schedulerWakeupOne s.sched wq }
  | .kill cpu pid sig => (processKill s cpu pid sig).map Prod.snd

/-- The links of the wait queues agree with the processes: a process is linked where it
    sleeps, once, and nowhere else. -/
structure WaitLists (s : SchedState) (W : Nat → List ProcRef) : Prop where
  linked : ∀ wq, Linked (fun p => (s.procs p).wqNext) (s.waitHead wq) (W wq)
  agrees : ∀ wq p, p ∈ W wq ↔ (s.procs p).state = .sleeping ∧ (s.procs p).wq = some wq
  nodup : ∀ wq, (W wq).Nodup
  once : ∀ wq wq' p, p ∈ W wq → p ∈ W wq' → wq = wq'

def WaitQueuesOk (s : ProcTable μ) : Prop := ∃ W, WaitLists s.sched W

/-- A call of `process_kill` passes all its checks and delivers to `proc`. -/
structure SignalReaches (s : ProcTable μ) (cpu : Nat) (pid sig : Int) (proc : ProcRef) : Prop where
  pid_pos : 0 < pid
  pid_lt : pid < maxProcesses
  sig_nonneg : 0 ≤ sig
  sig_lt : sig < numSignals
  slot : slotOf pid = some proc
  used : s.state proc ≠ .unused
  alive : s.state proc ≠ .zombie
  permitted : ∃ current, (s.sched.runqueues cpu).current = some current ∧
    ¬((s.info current).euid ≠ 0 ∧ (s.info current).euid ≠ (s.info proc).uid)

/-- The calls of `scheduler_add_process` that the loop of `scheduler_wakeup` makes, each with
    the state it is made in. -/
def wakeInserts : Nat → Option ProcRef → SchedState → List (SchedState × ProcRef)
  | _, none, _ => []
  | 0, some _, _ => []
  | fuel + 1, some proc, s =>
    (wakeMark s proc, proc) :: wakeInserts fuel (s.procs proc).wqNext (wakeProcess s proc)

/-- The operation inserts `proc` in a run queue, in the state `t`. -/
def Inserts (s : ProcTable μ) : WaitOp → SchedState → ProcRef → Prop
  | .sleepOn _ _, _, _ => False
  | .wakeup wq, t, proc =>
    (t, proc) ∈ wakeInserts maxProcesses (s.sched.waitHead wq)
      { s.sched with waitHead := Function.update s.sched.waitHead wq none }
  | .wakeupOne wq, t, proc =>
    s.sched.waitHead wq = some proc ∧
      t = wakeMark { s.sched with
        waitHead := Function.update s.sched.waitHead wq (s.sched.procs proc).wqNext } proc
  | .kill cpu pid sig, t, proc =>
    SignalReaches s cpu pid sig proc ∧ s.state proc = .sleeping ∧ t = (s.setState proc .ready).sched

/-- Whoever is inserted in a run queue is on no run queue and on no wait queue. -/
def InsertsFree (s : ProcTable μ) (op : WaitOp) (_ : ProcTable μ) : Prop :=
  ∀ t proc, Inserts s op t proc → ¬Queued t proc ∧ ¬Waiting t proc

/-- No signal reaches a sleeping process. -/
def NoSleeperKilled (s : ProcTable μ) : WaitOp → Prop
  | .kill cpu pid sig => ∀ proc, SignalReaches s cpu pid sig proc → s.state proc ≠ .sleeping
  | _ => True

/-- The invariant: everybody is in one place, and the sleepers are those on the wait queues. -/
structure WaitInv (s : SchedState) (Q : QueueMap) (W : Nat → List ProcRef) : Prop where
  placed : SchedInv s Q W
  agrees : ∀ wq p, p ∈ W wq ↔ (s.procs p).state = .sleeping ∧ (s.procs p).wq = some wq
  asleep : ∀ p, (s.procs p).state = .sleeping → ∃ wq, p ∈ W wq

theorem WaitInv.lists {s : SchedState} {Q : QueueMap} {W : Nat → List ProcRef} (h : WaitInv s Q W) :
    WaitLists s W :=
  ⟨h.placed.waits, h.agrees, fun wq => (h.placed.waits wq).nodup, h.placed.waitOnce⟩

/-! ## Sleeping and waking -/

theorem WaitInv.sleepOn {s s' : SchedState} {Q : QueueMap} {W : Nat → List ProcRef} {c wq : Nat}
    (h : WaitInv s Q W) (hs : schedulerSleepOn s c wq = some s') : ∃ Q' W', WaitInv s' Q' W' := by
  cases hcur : (s.runqueues c).current with
  | none =>
    have hs : some s = some s' := (schedulerSleepOn_none hcur).symm.trans hs
    exact ⟨Q, W, Option.some.inj hs ▸ h⟩
  | some p =>
    obtain ⟨n, Q', hd⟩ := schedulerSleepOn_spec h.placed.queues hcur (h.placed.idle c) hs
    have hplaced := @SchedInv.sleepMark s Q W c wq p h.placed hcur
    have hoff := (h.placed.running c p hcur).1
    have hnp : n ≠ p := fun hnp => hoff (hnp ▸ hd.source)
    have hnW : ∀ wq', n ∉ W wq' := fun wq' hin => (h.placed.asleep wq' n hin).1 hd.source
    have hpW : ∀ wq', p ∉ W wq' := fun wq' hin => (h.placed.asleep wq' p hin).2.1 c hcur
    have hstate : ∀ r, (s'.procs r).state =
        if r = n then .running else if r = p then .sleeping else (s.procs r).state := by
      intro r
      rw [hd.state]
      by_cases hrp : r = p <;> simp [sleepMark, hrp]
    have hwq : ∀ r, (s'.procs r).wq = if r = p then some wq else (s.procs r).wq := by
      intro r
      rw [hd.waits.wq]
      by_cases hrp : r = p <;> simp [sleepMark, hrp]
    have hmem : ∀ wq' r, r ∈ Function.update W wq (p :: W wq) wq' ↔ r = p ∧ wq' = wq ∨ r ∈ W wq' := by
      intro wq' r
      by_cases hw : wq' = wq
      · rw [hw, Function.update_self, List.mem_cons]
        simp
      · rw [Function.update_of_ne hw]
        simp [hw]
    refine ⟨Q', _, hplaced.dispatched (fun d hdc => Function.update_of_ne hdc _ _) hd, ?_, ?_⟩
    · -- the one that is taken to run, the one that goes to sleep, and the others
      intro wq' r
      rw [hmem, hstate, hwq]
      by_cases hrn : r = n
      · subst hrn
        simp [hnp, hnW wq']
      · by_cases hrp : r = p
        · subst hrp
          simp [hrn, hpW wq', eq_comm]
        · simp [hrn, hrp, h.agrees]
    · intro r hr
      rw [hstate] at hr
      by_cases hrn : r = n
      · simp [hrn] at hr
      · by_cases hrp : r = p
        · exact ⟨wq, (hmem wq r).mpr (Or.inl ⟨hrp, rfl⟩)⟩
        · rw [if_neg hrn, if_neg hrp] at hr
          obtain ⟨wq', hin⟩ := h.asleep r hr
          exact ⟨wq', (hmem wq' r).mpr (Or.inr hin)⟩

/-- The loop invariant of the wakeups: those still to be woken may sleep unlinked. -/
structure WaitWaking (s : SchedState) (Q : QueueMap) (W : Nat → List ProcRef) (rest : List ProcRef) :
    Prop where
  waking : Waking s Q W rest
  agrees : ∀ wq p, p ∉ rest → (p ∈ W wq ↔ (s.procs p).state = .sleeping ∧ (s.procs p).wq = some wq)
  asleep : ∀ p, p ∉ rest → (s.procs p).state = .sleeping → ∃ wq, p ∈ W wq

theorem WaitWaking.step {s : SchedState} {Q : QueueMap} {W : Nat → List ProcRef} {p : ProcRef}
    {rest : List ProcRef} (h : WaitWaking s Q W (p :: rest)) (hp : p ∉ rest) :
    ∃ Q', WaitWaking (wakeProcess s p) Q' W rest := by
  obtain ⟨Q', hwaking, ha⟩ := h.waking.step hp
  have hstate : ∀ r, ((wakeProcess s p).procs r).state = if r = p then .ready else (s.procs r).state := by
    intro r
    rw [ha.state]
    by_cases hrp : r = p <;> simp [wakeMark, hrp]
  have hwq : ∀ r, r ≠ p → ((wakeProcess s p).procs r).wq = (s.procs r).wq := by
    intro r hrp
    rw [ha.waits.wq]
    simp [wakeMark, hrp]
  refine ⟨Q', hwaking, ?_, ?_⟩
  · intro wq r hr
    by_cases hrp : r = p
    · subst hrp
      have hunlinked := h.waking.unlinked r (by simp) wq
      simp [hstate, hunlinked]
    · rw [hstate, hwq r hrp, if_neg hrp]
      exact h.agrees wq r (by simp [hrp, hr])
  · intro r hr hsleep
    rw [hstate] at hsleep
    by_cases hrp : r = p
    · simp [hrp] at hsleep
    · rw [if_neg hrp] at hsleep
      exact h.asleep r (by simp [hrp, hr]) hsleep

theorem WaitWaking.done {s : SchedState} {Q : QueueMap} {W : Nat → List ProcRef}
    (h : WaitWaking s Q W []) : WaitInv s Q W :=
  ⟨h.waking.placed, fun wq p => h.agrees wq p List.not_mem_nil, fun p => h.asleep p List.not_mem_nil⟩

/-- Everybody in `rest` can be inserted as the loop comes to them. -/
theorem WaitWaking.inserts {rest : List ProcRef} {s : SchedState} {Q : QueueMap} {W : Nat → List ProcRef}
    {head : Option ProcRef} {fuel : Nat} (h : WaitWaking s Q W rest)
    (hl : Linked (fun p => (s.procs p).wqNext) head rest) :
    ∀ t p, (t, p) ∈ wakeInserts fuel head s → ¬Queued t p ∧ ¬Waiting t p := by
  induction rest generalizing s Q head fuel with
  | nil =>
    have hnone : head = none := hl
    intro t p hin
    rw [hnone] at hin
    cases fuel <;> exact absurd hin List.not_mem_nil
  | cons r rest ih =>
    have hr : r ∉ rest := (List.nodup_cons.mp hl.nodup).1
    obtain ⟨rfl, hl⟩ := hl
    cases fuel with
    | zero => exact fun t p hin => absurd hin List.not_mem_nil
    | succ fuel =>
      intro t p hin
      have hmem : r ∈ r :: rest := by simp
      rcases List.mem_cons.mp hin with heq | hin
      · obtain ⟨rfl, rfl⟩ := Prod.mk.inj heq
        have hmark := h.waking.placed.wakeMark (h.waking.unlinked p hmem)
        rw [hmark.queued_iff, hmark.waiting_iff]
        exact ⟨h.waking.off p hmem, fun ⟨wq, hw⟩ => h.waking.unlinked p hmem wq hw⟩
      · obtain ⟨Q', hstep⟩ := h.step hr
        refine ih hstep (hl.congr ?_) t p hin
        intro x hx
        have hxr : x ≠ r := fun hxr => hr (hxr ▸ hx)
        rw [wakeProcess_wqNext, if_neg hxr]

theorem WaitInv.waking {s : SchedState} {Q : QueueMap} {W : Nat → List ProcRef} (h : WaitInv s Q W)
    (wq : Nat) : WaitWaking { s with waitHead := Function.update s.waitHead wq none } Q
      (Function.update W wq []) (W wq) := by
  refine ⟨h.placed.waking wq, ?_, ?_⟩
  · intro wq' p hp
    by_cases hw : wq' = wq
    · rw [hw, Function.update_self]
      refine ⟨fun hin => absurd hin List.not_mem_nil, fun hs => absurd ((h.agrees wq p).mpr hs) hp⟩
    · rw [Function.update_of_ne hw]
      exact h.agrees wq' p
  · intro p hp hs
    obtain ⟨wq', hin⟩ := h.asleep p hs
    have hw : wq' ≠ wq := fun hw => hp (hw ▸ hin)
    exact ⟨wq', by rwa [Function.update_of_ne hw]⟩

theorem WaitInv.wakeup {s s' : SchedState} {Q : QueueMap} {W : Nat → List ProcRef} {wq : Nat}
    (h : WaitInv s Q W) (hs : schedulerWakeup s wq = some s') : ∃ Q' W', WaitInv s' Q' W' := by
  have hlinked := h.placed.waits wq
  obtain ⟨t, ht, Q', hdone⟩ := wakeWalk_rule
    (I := fun t rest => ∃ Q', WaitWaking t Q' (Function.update W wq []) rest)
    (by
      rintro t p rest ⟨Q₁, hw⟩ hp
      exact hw.step hp)
    ⟨Q, h.waking wq⟩ hlinked (length_le_maxProcesses hlinked.nodup)
  have hts : t = s' := Option.some.inj (ht.symm.trans hs)
  exact ⟨Q', _, hts ▸ hdone.done⟩

theorem WaitInv.wakingOne {s : SchedState} {Q : QueueMap} {W : Nat → List ProcRef} {wq : Nat} {p : ProcRef}
    {rest : List ProcRef} (h : WaitInv s Q W) (hW : W wq = p :: rest) :
    WaitWaking { s with waitHead := Function.update s.waitHead wq (s.procs p).wqNext } Q
      (Function.update W wq rest) [p] := by
  have hmem : ∀ wq' r, r ≠ p → (r ∈ Function.update W wq rest wq' ↔ r ∈ W wq') := by
    intro wq' r hr
    by_cases hw : wq' = wq
    · rw [hw, Function.update_self, hW]
      simp [hr]
    · rw [Function.update_of_ne hw]
  refine ⟨h.placed.wakingOne hW, ?_, ?_⟩
  · intro wq' r hr
    rw [hmem wq' r (by simpa using hr)]
    exact h.agrees wq' r
  · intro r hr hs
    obtain ⟨wq', hin⟩ := h.asleep r hs
    exact ⟨wq', (hmem wq' r (by simpa using hr)).mpr hin⟩

theorem WaitInv.wakeupOne {s : SchedState} {Q : QueueMap} {W : Nat → List ProcRef} (h : WaitInv s Q W)
    (wq : Nat) : ∃ Q' W', WaitInv (schedulerWakeupOne s wq) Q' W' := by
  have hlinked := h.placed.waits wq
  cases hW : W wq with
  | nil =>
    rw [hW] at hlinked
    rw [schedulerWakeupOne_nil hlinked]
    exact ⟨Q, W, h⟩
  | cons p rest =>
    rw [hW] at hlinked
    rw [schedulerWakeupOne_cons hlinked.1]
    obtain ⟨Q', hstep⟩ := (h.wakingOne hW).step List.not_mem_nil
    exact ⟨Q', _, hstep.done⟩

/-! ## Signals -/

/-- A call of `process_kill` fails and changes nothing, or it reaches a process. -/
theorem processKill_cases {s s' : ProcTable μ} {cpu : Nat} {pid sig r : Int}
    (h : processKill s cpu pid sig = some (r, s')) :
    (s' = s ∧ ∀ proc, ¬SignalReaches s cpu pid sig proc) ∨
      ∃ proc, SignalReaches s cpu pid sig proc ∧
        ((s.state proc ≠ .sleeping ∧ s'.sched = s.sched) ∨
          s.state proc = .sleeping ∧ s'.sched = schedulerAddProcess (s.setState proc .ready).sched proc) := by
  unfold processKill at h
  -- check by check: where one fails, nothing is changed, and it is one of those that reaching asks for
  by_cases hpid : pid ≤ 0 ∨ (maxProcesses : Int) ≤ pid
  · rw [if_pos hpid, Option.some.injEq, Prod.mk.injEq] at h
    refine Or.inl ⟨h.2.symm, fun proc hr => ?_⟩
    exact hpid.elim (fun hle => absurd hr.pid_pos (Int.not_lt.mpr hle))
      fun hle => absurd hr.pid_lt (Int.not_lt.mpr hle)
  rw [if_neg hpid] at h
  by_cases hsig : sig < 0 ∨ (numSignals : Int) ≤ sig
  · rw [if_pos hsig, Option.some.injEq, Prod.mk.injEq] at h
    refine Or.inl ⟨h.2.symm, fun proc hr => ?_⟩
    exact hsig.elim (fun hlt => absurd hr.sig_nonneg (Int.not_le.mpr hlt))
      fun hle => absurd hr.sig_lt (Int.not_lt.mpr hle)
  rw [if_neg hsig] at h
  rw [not_or, Int.not_le, Int.not_le] at hpid
  rw [not_or, Int.not_lt, Int.not_le] at hsig
  cases hslot : slotOf pid with
  | none => simp [hslot] at h
  | some proc =>
    simp only [hslot] at h
    have hsame : ∀ proc', SignalReaches s cpu pid sig proc' → proc' = proc := by
      intro proc' hr
      exact Option.some.inj (hr.slot.symm.trans hslot)
    by_cases hstate : s.state proc = .unused ∨ s.state proc = .zombie
    · rw [if_pos hstate, Option.some.injEq, Prod.mk.injEq] at h
      refine Or.inl ⟨h.2.symm, fun proc' hr => ?_⟩
      rw [hsame proc' hr] at hr
      exact hstate.elim hr.used hr.alive
    rw [if_neg hstate] at h
    rw [not_or] at hstate
    cases hcur : (s.sched.runqueues cpu).current with
    | none => simp [hcur] at h
    | some current =>
      simp only [hcur] at h
      by_cases hperm : (s.info current).euid ≠ 0 ∧ (s.info current).euid ≠ (s.info proc).uid
      · rw [if_pos hperm, Option.some.injEq, Prod.mk.injEq] at h
        refine Or.inl ⟨h.2.symm, fun proc' hr => ?_⟩
        obtain ⟨current', hcur', hok⟩ := hr.permitted
        rw [hsame proc' hr, Option.some.inj (hcur'.symm.trans hcur)] at hok
        exact hok hperm
      · rw [if_neg hperm] at h
        refine Or.inr ⟨proc, ⟨hpid.1, hpid.2, hsig.1, hsig.2, hslot, hstate.1, hstate.2, current, hcur, hperm⟩,
          ?_⟩
        by_cases hsleep : s.state proc = .sleeping
        · have hsleep' : (s.modInfo proc fun x =>
              { x with sigPending := x.sigPending ||| (1#64 <<< sig.toNat) }).state proc = .sleeping := hsleep
          rw [if_pos hsleep', Option.some.injEq, Prod.mk.injEq] at h
          refine Or.inr ⟨hsleep, ?_⟩
          rw [← h.2]
          rfl
        · have hsleep' : ¬(s.modInfo proc fun x =>
              { x with sigPending := x.sigPending ||| (1#64 <<< sig.toNat) }).state proc = .sleeping := hsleep
          rw [if_neg hsleep', Option.some.injEq, Prod.mk.injEq] at h
          refine Or.inl ⟨hsleep, ?_⟩
          rw [← h.2]
          rfl

/-- A signal to a sleeping process leaves it ready and linked. -/
theorem killed_sleeper_breaks {s s' : ProcTable μ} {Q : QueueMap} {W : Nat → List ProcRef} {proc : ProcRef}
    (h : WaitInv s.sched Q W) (hsleep : s.state proc = .sleeping)
    (hs : s'.sched = schedulerAddProcess (s.setState proc .ready).sched proc) : ¬WaitQueuesOk s' := by
  obtain ⟨wq, hin⟩ := h.asleep proc hsleep
  have hwaits : SameWaits s.sched s'.sched := by
    rw [hs]
    refine SameWaits.trans ?_ (schedulerAddProcess_waits _ proc)
    exact ⟨fun r => field_update Process.wq s.sched.procs proc r rfl,
      fun r => field_update Process.wqNext s.sched.procs proc r rfl, rfl⟩
  rintro ⟨W', hlists⟩
  have hW : W' wq = W wq := Linked.unique (hlists.linked wq) (hwaits.linked (h.placed.waits wq))
  have hstate := ((hlists.agrees wq proc).mp (hW ▸ hin)).1
  rw [hs] at hstate
  have hready : ((schedulerAddProcess (s.setState proc .ready).sched proc).procs proc).state = .ready := by
    unfold schedulerAddProcess
    rw [(enqueueProcess_edit _ proc).state]
    simp
  rw [hready] at hstate
  exact absurd hstate (by decide)

/-! ## Runs -/

/-- **Step lemma**: an operation that meets the guard keeps the invariant, and inserts only
    processes that are free to be inserted. -/
theorem waitStep_spec {s s' : ProcTable μ} {Q : QueueMap} {W : Nat → List ProcRef} {op : WaitOp}
    (h : WaitInv s.sched Q W) (hguard : NoSleeperKilled s op) (hs : waitStep s op = some s') :
    (∃ Q' W', WaitInv s'.sched Q' W') ∧ InsertsFree s op s' := by
  cases op with
  | sleepOn cpu wq =>
    obtain ⟨sched, hsched, rfl⟩ := Option.map_eq_some_iff.mp hs
    exact ⟨h.sleepOn hsched, fun _ _ hin => absurd hin id⟩
  | wakeup wq =>
    obtain ⟨sched, hsched, rfl⟩ := Option.map_eq_some_iff.mp hs
    refine ⟨h.wakeup hsched, ?_⟩
    intro t proc hin
    exact (h.waking wq).inserts (h.placed.waits wq) t proc hin
  | wakeupOne wq =>
    have hs : { s with sched := schedulerWakeupOne s.sched wq } = s' := Option.some.inj hs
    subst hs
    refine ⟨h.wakeupOne wq, ?_⟩
    rintro t proc ⟨hhead, rfl⟩
    have hlinked := h.placed.waits wq
    cases hW : W wq with
    | nil =>
      rw [hW, hhead] at hlinked
      exact absurd hlinked (by simp)
    | cons p rest =>
      rw [hW] at hlinked
      have hp : proc = p := Option.some.inj (hhead.symm.trans hlinked.1)
      subst hp
      have hwaking := (h.wakingOne hW).waking
      have hmark := hwaking.placed.wakeMark (hwaking.unlinked proc (by simp))
      rw [hmark.queued_iff, hmark.waiting_iff]
      exact ⟨hwaking.off proc (by simp), fun ⟨wq', hw⟩ => hwaking.unlinked proc (by simp) wq' hw⟩
  | kill cpu pid sig =>
    obtain ⟨⟨r, t⟩, hkill, rfl⟩ := Option.map_eq_some_iff.mp hs
    refine ⟨?_, fun t' proc hin => absurd hin.2.1 (hguard proc hin.1)⟩
    rcases processKill_cases hkill with ⟨hsame, _⟩ | ⟨proc, hreach, ⟨_, hsame⟩ | ⟨hsleep, _⟩⟩
    · exact ⟨Q, W, hsame ▸ h⟩
    · exact ⟨Q, W, hsame.symm ▸ h⟩
    · exact absurd hsleep (hguard proc hreach)

/-- **The wait queues agree with the sleeping processes exactly as long as no signal
    reaches one of them.** From a state where they agree, in any run of sleeps, wakeups
    and signals, on any CPUs and wait queues: the links agree with the processes in every
    state, and nobody is inserted in a run queue who is on one or on a wait queue, if and
    only if no call of `process_kill` reaches a sleeping process. -/
theorem waitQueuesOk_iff {s : ProcTable μ} {Q : QueueMap} {W : Nat → List ProcRef}
    (hstart : WaitInv s.sched Q W) (ops : List WaitOp) :
    (Always waitStep WaitQueuesOk s ops ∧ AlwaysStep waitStep InsertsFree s ops) ↔
      Meets waitStep NoSleeperKilled s ops := by
  have hinit : ∃ Q W, WaitInv s.sched Q W := ⟨Q, W, hstart⟩
  have hkeep : ∀ (s : ProcTable μ) op s', (∃ Q W, WaitInv s.sched Q W) → NoSleeperKilled s op →
      waitStep s op = some s' → ∃ Q W, WaitInv s'.sched Q W := by
    rintro s op s' ⟨Q, W, h⟩ hguard hs
    exact (waitStep_spec h hguard hs).1
  have hiff : Always waitStep WaitQueuesOk s ops ↔ Meets waitStep NoSleeperKilled s ops := by
    refine always_iff_meets (I := fun s => ∃ Q W, WaitInv s.sched Q W) ?_ hkeep ?_ hinit
    · rintro s ⟨Q, W, h⟩
      exact ⟨W, h.lists⟩
    · rintro s op s' ⟨Q, W, h⟩ hguard hs
      cases op with
      | kill cpu pid sig =>
        obtain ⟨⟨r, t⟩, hkill, rfl⟩ := Option.map_eq_some_iff.mp hs
        rcases processKill_cases hkill with ⟨_, hnone⟩ | ⟨proc, hreach, ⟨hwake, _⟩ | ⟨hsleep, hsched⟩⟩
        · exact absurd (fun proc hr => absurd hr (hnone proc)) hguard
        · refine absurd ?_ hguard
          intro proc' hr
          have hpp : proc' = proc := Option.some.inj (hr.slot.symm.trans hreach.slot)
          rwa [hpp]
        · exact killed_sleeper_breaks h hsleep hsched
      | _ => exact absurd trivial hguard
  refine ⟨fun h => hiff.mp h.1, fun hguard => ⟨hiff.mpr hguard, ?_⟩⟩
  refine alwaysStep_of_always ?_ (always_of_meets hkeep hinit hguard) hguard
  rintro s op s' ⟨Q, W, h⟩ hg hs
  exact (waitStep_spec h hg hs).2

/-- Two processes on one CPU, the first of them running. -/
def twoOnOneCpu : ProcTable Unit where
  sched := (schedulerStart (schedulerAddProcess (schedulerAddProcess (freshSched 1) 0) 1) 0).getD (freshSched 1)
  info := fun _ => ProcInfo.zero
  pidBitmap := fun _ => 0
  numProcesses := 2
  zombieList := none
  mem := ()

theorem twoOnOneCpu_inv : ∃ Q, WaitInv twoOnOneCpu.sched Q fun _ => [] := by
  obtain ⟨_, ⟨Q, h⟩, hawake⟩ := @two_added .priorityBoost fun _ => trivial
  have hsome : (schedulerStart (schedulerAddProcess (schedulerAddProcess (freshSched 1) 0) 1) 0).isSome := by
    decide +kernel
  obtain ⟨t, ht⟩ := Option.isSome_iff_exists.mp hsome
  have htwo : twoOnOneCpu.sched = t := by
    unfold twoOnOneCpu
    rw [ht, Option.getD_some]
  obtain ⟨n, Q', hd⟩ := schedulerStart_spec h.queues ht
  rw [htwo]
  have hawake' : ∀ p, (t.procs p).state ≠ .sleeping := by
    intro p
    rw [hd.state]
    split
    · simp
    · exact hawake p
  refine ⟨Q', h.dispatched (fun _ _ => rfl) hd, ?_, fun p hp => absurd hp (hawake' p)⟩
  intro wq p
  exact ⟨fun hin => absurd hin List.not_mem_nil, fun hp => absurd hp.1 (hawake' p)⟩

/-- A sleep, a signal to a process that is awake, and a wakeup. -/
theorem waitQueuesOk_wakeup :
    Always waitStep WaitQueuesOk twoOnOneCpu [.sleepOn 0 7, .kill 0 2 9, .wakeupOne 7] ∧
      AlwaysStep waitStep InsertsFree twoOnOneCpu [.sleepOn 0 7, .kill 0 2 9, .wakeupOne 7] := by
  obtain ⟨Q, h⟩ := twoOnOneCpu_inv
  refine (waitQueuesOk_iff h _).mpr ?_
  intro s₁ hs₁
  refine ⟨trivial, fun s₂ _ => ⟨?_, fun _ _ => ⟨trivial, trivial⟩⟩⟩
  intro proc hr
  have hproc : proc = 1 := Option.some.inj (hr.slot.symm.trans (by decide +kernel))
  have hstate : (waitStep twoOnOneCpu (.sleepOn 0 7)).map (fun s => s.state 1) = some .running := by
    decide +kernel
  rw [hs₁, Option.map_some, Option.some.injEq] at hstate
  rw [hproc, hstate]
  decide

/-- A process sleeps on a wait queue, and the other one on the CPU sends it a signal: it is
    ready, and still linked. -/
theorem signal_leaves_linked :
    (∃ Q W, WaitInv twoOnOneCpu.sched Q W) ∧
      ¬Always waitStep WaitQueuesOk twoOnOneCpu [.sleepOn 0 7, .kill 0 1 9] := by
  obtain ⟨Q, h⟩ := twoOnOneCpu_inv
  refine ⟨⟨Q, _, h⟩, fun halways => ?_⟩
  have hsome : (waitStep twoOnOneCpu (.sleepOn 0 7)).isSome := by decide +kernel
  obtain ⟨s₁, hs₁⟩ := Option.isSome_iff_exists.mp hsome
  have hfacts : (waitStep twoOnOneCpu (.sleepOn 0 7)).map (fun s =>
      (s.state 0, (s.sched.runqueues 0).current, (waitStep s (.kill 0 1 9)).isSome)) =
        some (.sleeping, some 1, true) := by decide +kernel
  rw [hs₁, Option.map_some, Option.some.injEq, Prod.mk.injEq, Prod.mk.injEq] at hfacts
  obtain ⟨hsleep, hcur, hkill⟩ := hfacts
  obtain ⟨s₂, hs₂⟩ := Option.isSome_iff_exists.mp hkill
  have hs₁' : (schedulerSleepOn twoOnOneCpu.sched 0 7).map (fun sched =>
      { twoOnOneCpu with sched := sched }) = some s₁ := hs₁
  have hs₂' : (processKill s₁ 0 1 9).map Prod.snd = some s₂ := hs₂
  obtain ⟨sched, hsched, rfl⟩ := Option.map_eq_some_iff.mp hs₁'
  obtain ⟨⟨r, t⟩, hk, rfl⟩ := Option.map_eq_some_iff.mp hs₂'
  obtain ⟨Q₁, W₁, h₁⟩ := h.sleepOn hsched
  have hreach : SignalReaches { twoOnOneCpu with sched := sched } 0 1 9 0 :=
    ⟨by decide, by decide, by decide, by decide, by decide +kernel, by rw [hsleep]; decide,
      by rw [hsleep]; decide, 1, hcur, fun he => he.1 rfl⟩
  have hok := ((halways.2 _ hs₁).2 _ hs₂).head
  rcases processKill_cases hk with ⟨_, hnone⟩ | ⟨proc, hr, hcases⟩
  · exact hnone 0 hreach
  · have hproc : proc = 0 := Option.some.inj (hr.slot.symm.trans hreach.slot)
    subst hproc
    rcases hcases with ⟨hwake, _⟩ | ⟨_, hs⟩
    · exact hwake hsleep
    · exact killed_sleeper_breaks h₁ hsleep hs hok

end Crimson.Proc
