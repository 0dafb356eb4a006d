import Crimson.Sched.Runqueue

/-!
# What a scheduler call leaves alone

The steps of `Sched.Steps` describe a call by its effect on well-formed queues. What a call
does *not* do needs no such assumption: however broken the queues are, a switch on one CPU
leaves the other CPUs' current processes and every wait list alone (`SwitchFrame`), and no
call makes a process unused, stopped or a zombie (`StateFrame`).
-/

set_option autoImplicit false

namespace Crimson.Sched

/-! ## The pieces -/

theorem dequeueLoop_edit {fuel : Nat} {s : SchedState} {c : Nat} : QueueEdit s (dequeueLoop fuel s c).2 := by
  induction fuel generalizing s with
  | zero => exact QueueEdit.refl s
  | succ fuel ih =>
    unfold dequeueLoop
    by_cases hzero : (s.runqueues c).queueBitmap = 0
    · simp only [hzero, if_true]
      exact QueueEdit.refl s
    · simp only [hzero, if_false]
      cases (s.runqueues c).queues (ctz (s.runqueues c).queueBitmap) with
      | none =>
        refine QueueEdit.trans ?_ ih
        exact QueueEdit.setRq s c rfl rfl
      | some p =>
        refine QueueEdit.trans ?_ (QueueEdit.setNext _ p none)
        split
        · exact (QueueEdit.setRq s c rfl rfl).trans (QueueEdit.setRq _ c rfl rfl)
        · exact QueueEdit.setRq s c rfl rfl

theorem dequeueHighest_edit (s : SchedState) (c : Nat) : QueueEdit s (dequeueHighest s c).2 :=
  dequeueLoop_edit

theorem boostOne_edit (s : SchedState) (p : ProcRef) : BoostEdit s (fun _ => True) (boostOne s p) := by
  refine BoostEdit.trans ?_ ((enqueueProcess_edit _ p).boost _)
  refine ⟨fun r => field_update Process.state s.procs p r rfl, fun r hr => absurd trivial hr, ?_,
    fun r => field_update Process.cpu s.procs p r rfl, fun r => field_update Process.wq s.procs p r rfl,
    fun r => field_update Process.wqNext s.procs p r rfl, fun _ => rfl, fun _ => rfl, rfl, rfl⟩
  intro r
  by_cases hr : r = p
  · exact Or.inr (by simp [hr])
  · exact Or.inl (by simp [hr])

theorem boostWalk_edit {fuel : Nat} {proc : Option ProcRef} {s s' : SchedState}
    (h : boostWalk fuel proc s = some s') : BoostEdit s (fun _ => True) s' := by
  induction fuel generalizing proc s with
  | zero =>
    cases proc with
    | none => exact Option.some.inj h ▸ BoostEdit.refl s _
    | some p => exact absurd h (by simp [boostWalk])
  | succ fuel ih =>
    cases proc with
    | none => exact Option.some.inj h ▸ BoostEdit.refl s _
    | some p => exact (boostOne_edit s p).trans (ih h)

theorem boostCpu_edit {s s' : SchedState} {c : Nat} (h : boostCpu s c = some s') :
    BoostEdit s (fun _ => True) s' := by
  obtain ⟨t, ht, rfl⟩ := Option.map_eq_some_iff.mp h
  exact (boostWalk_edit ht).trans ((QueueEdit.setRq t c rfl rfl).boost _)

theorem priorityBoost_edit {s s' : SchedState} (h : priorityBoost s = some s') :
    BoostEdit s (fun _ => True) s' := by
  unfold priorityBoost at h
  generalize List.range s.numCpus = cpus at h
  induction cpus generalizing s with
  | nil => exact Option.some.inj h ▸ BoostEdit.refl s _
  | cons c cpus ih =>
    rw [List.foldlM_cons] at h
    obtain ⟨t, ht, hrest⟩ := Option.bind_eq_some_iff.mp h
    exact (boostCpu_edit ht).trans (ih hrest)

theorem removeWalk_edit {s s' : SchedState} {c q : Nat} {p : ProcRef} {fuel : Nat} {pp : Option ProcRef}
    (h : removeWalk s c q p fuel pp = some s') : QueueEdit s s' := by
  induction fuel generalizing pp with
  | zero =>
    unfold removeWalk at h
    split at h
    · exact Option.some.inj h ▸ QueueEdit.refl s
    · exact absurd h (by simp)
  | succ fuel ih =>
    unfold removeWalk at h
    cases hd : s.deref c q pp with
    | none =>
      rw [hd] at h
      exact Option.some.inj h ▸ QueueEdit.refl s
    | some r =>
      rw [hd] at h
      dsimp only at h
      split at h
      · exact Option.some.inj h ▸ unlinkAt_edit s c q p pp
      · exact ih h

/-! ## States -/

/-- The states a scheduler call puts a process in. -/
def ProcState.Scheduled (st : ProcState) : Prop :=
  st = .ready ∨ st = .running ∨ st = .sleeping ∨ st = .dead

/-- Every process is in the state it was in, or in one the scheduler gave it. -/
def StateFrame (s s' : SchedState) : Prop :=
  ∀ r, (s'.procs r).state = (s.procs r).state ∨ (s'.procs r).state.Scheduled

theorem StateFrame.refl (s : SchedState) : StateFrame s s := fun _ => Or.inl rfl

theorem StateFrame.trans {s s' s'' : SchedState} (h : StateFrame s s') (h' : StateFrame s' s'') :
    StateFrame s s'' := by
  intro r
  rcases h' r with hr | hr
  · rw [hr]
    exact h r
  · exact Or.inr hr

theorem QueueEdit.stateFrame {s s' : SchedState} (h : QueueEdit s s') : StateFrame s s' :=
  fun r => Or.inl (h.state r)

theorem BoostEdit.stateFrame {s s' : SchedState} {moved : ProcRef → Prop} (h : BoostEdit s moved s') :
    StateFrame s s' := fun r => Or.inl (h.state r)

theorem StateFrame.modProc (s : SchedState) (p : ProcRef) {f : Process → Process}
    (hf : (f (s.procs p)).state = (s.procs p).state ∨ (f (s.procs p)).state.Scheduled) :
    StateFrame s (s.modProc p f) := by
  intro r
  by_cases hr : r = p
  · subst hr
    simpa using hf
  · exact Or.inl (by simp [hr])

theorem StateFrame.dispatch (s : SchedState) (c : Nat) (n : ProcRef) : StateFrame s (dispatch s c n) :=
  @StateFrame.trans s (s.modRq c fun rq => { rq with current := some n }) _ (fun _ => Or.inl rfl)
    (StateFrame.modProc _ n (Or.inr (Or.inr (Or.inl rfl))))

/-! ## Switches -/

/-- A switch on CPU `c`: a CPU with no current process does nothing, one with a current
    process keeps having one, and the wait lists and the other CPUs are left alone. -/
structure SwitchFrame (c : Nat) (s s' : SchedState) : Prop where
  state : StateFrame s s'
  waits : SameWaits s s'
  others : ∀ d, d ≠ c → (s'.runqueues d).current = (s.runqueues d).current
  idle : (s.runqueues c).current = none ↔ (s'.runqueues c).current = none

theorem SwitchFrame.refl (c : Nat) (s : SchedState) : SwitchFrame c s s :=
  ⟨StateFrame.refl s, ⟨fun _ => rfl, fun _ => rfl, rfl⟩, fun _ _ => rfl, Iff.rfl⟩

theorem SwitchFrame.trans {c : Nat} {s s' s'' : SchedState} (h : SwitchFrame c s s')
    (h' : SwitchFrame c s' s'') : SwitchFrame c s s'' :=
  ⟨h.state.trans h'.state, h.waits.trans h'.waits, fun d hd => (h'.others d hd).trans (h.others d hd),
    h.idle.trans h'.idle⟩

theorem QueueEdit.switchFrame {s s' : SchedState} (h : QueueEdit s s') (c : Nat) : SwitchFrame c s s' :=
  ⟨h.stateFrame, h.sameWaits, fun d _ => h.current d, by rw [h.current]⟩

theorem BoostEdit.switchFrame {s s' : SchedState} {moved : ProcRef → Prop} (h : BoostEdit s moved s')
    (c : Nat) : SwitchFrame c s s' :=
  ⟨h.stateFrame, h.sameWaits, fun d _ => h.current d, by rw [h.current]⟩

/-- Writing a process's state or counters is no switch. -/
theorem SwitchFrame.modProc (c : Nat) (s : SchedState) (p : ProcRef) {f : Process → Process}
    (hf : (f (s.procs p)).state = (s.procs p).state ∨ (f (s.procs p)).state.Scheduled)
    (hwq : (f (s.procs p)).wq = (s.procs p).wq) (hnext : (f (s.procs p)).wqNext = (s.procs p).wqNext) :
    SwitchFrame c s (s.modProc p f) :=
  ⟨StateFrame.modProc s p hf,
    ⟨fun r => field_update Process.wq s.procs p r hwq,
      fun r => field_update Process.wqNext s.procs p r hnext, rfl⟩, fun _ _ => rfl, Iff.rfl⟩

theorem SwitchFrame.dispatch {s : SchedState} {c : Nat} (n : ProcRef)
    (hcur : (s.runqueues c).current ≠ none) : SwitchFrame c s (dispatch s c n) := by
  refine ⟨StateFrame.dispatch s c n, ⟨fun r => field_update Process.wq s.procs n r rfl,
    fun r => field_update Process.wqNext s.procs n r rfl, rfl⟩, ?_, ?_⟩
  · intro d hd
    exact congrArg Runqueue.current (Function.update_of_ne hd _ _)
  · refine ⟨fun hno => absurd hno hcur, fun hno => ?_⟩
    simp [Sched.dispatch] at hno

/-- The common part of a yield and of an expiring tick, up to the choice of what to run. -/
theorem SwitchFrame.requeue (s : SchedState) (c : Nat) (p : ProcRef) :
    SwitchFrame c s (dequeueHighest
      (enqueueProcess (s.modProc p fun x => { x with state := .ready }) p) c).2 :=
  ((SwitchFrame.modProc c s p (Or.inr (Or.inl rfl)) rfl rfl).trans
    ((enqueueProcess_edit _ p).switchFrame c)).trans ((dequeueHighest_edit _ c).switchFrame c)

theorem schedulerYield_frame (s : SchedState) (c : Nat) : SwitchFrame c s (schedulerYield s c) := by
  unfold schedulerYield
  cases hcur : (s.runqueues c).current with
  | none => exact SwitchFrame.refl c s
  | some p =>
    have hrequeue := SwitchFrame.requeue s c p
    dsimp only
    rcases hdeq : dequeueHighest (enqueueProcess (s.modProc p fun x => { x with state := .ready }) p) c
      with ⟨next, t⟩
    rw [hdeq] at hrequeue
    have hslice : SwitchFrame c t (t.modProc p fun x => { x with timeSlice := timeQuantum x.priority }) :=
      SwitchFrame.modProc c t p (Or.inl rfl) rfl rfl
    cases next with
    | none => exact hrequeue.trans hslice
    | some n =>
      dsimp only
      split
      · exact hrequeue.trans hslice
      · refine hrequeue.trans (SwitchFrame.dispatch n ?_)
        exact fun hno => absurd (hrequeue.idle.mpr hno) (by simp [hcur])

theorem tickBoost_frame {s s' : SchedState} {c : Nat} (h : tickBoost s c = some s') (d : Nat) :
    SwitchFrame d s s' := by
  unfold tickBoost at h
  split at h
  · exact ((QueueEdit.setRq s c rfl rfl).switchFrame d).trans ((priorityBoost_edit h).switchFrame d)
  · exact Option.some.inj h ▸ SwitchFrame.refl d s

theorem tickSwitch_frame {s s' : SchedState} {c : Nat} {p : ProcRef} {again : Bool}
    (hcur : (s.runqueues c).current ≠ none) (h : tickSwitch s c p = some (again, s')) :
    SwitchFrame c s s' := by
  unfold tickSwitch at h
  have hrequeue := SwitchFrame.requeue s c p
  dsimp only at h
  generalize dequeueHighest (enqueueProcess (s.modProc p fun x => { x with state := .ready }) p) c = r
    at hrequeue h
  cases hnext : r.1.or (r.2.runqueues c).idleTask with
  | none => simp [hnext] at h
  | some n =>
    rw [hnext] at h
    dsimp only at h
    split at h
    · obtain ⟨-, rfl⟩ := Prod.mk.inj (Option.some.inj h)
      exact hrequeue.trans (SwitchFrame.dispatch n fun hno => hcur (hrequeue.idle.mpr hno))
    · obtain ⟨-, rfl⟩ := Prod.mk.inj (Option.some.inj h)
      exact hrequeue.trans (SwitchFrame.modProc c _ p (Or.inl rfl) rfl rfl)

theorem schedulerTick_frame {s s' : SchedState} {c : Nat} (h : schedulerTick s c = some s') :
    SwitchFrame c s s' := by
  unfold schedulerTick at h
  cases hcur : (s.runqueues c).current with
  | none =>
    rw [hcur] at h
    exact Option.some.inj h ▸ SwitchFrame.refl c s
  | some p =>
    rw [hcur] at h
    dsimp only at h
    have hcount : SwitchFrame c s (tickCount s c p) := by
      unfold tickCount
      exact (SwitchFrame.modProc c s p (Or.inl rfl) rfl rfl).trans
        ((QueueEdit.setRq _ c rfl rfl).switchFrame c)
    generalize tickCount s c p = t at hcount h
    by_cases hrt : (t.procs p).priority = prioRealtime
    · rw [if_pos hrt] at h
      exact Option.some.inj h ▸ hcount
    rw [if_neg hrt] at h
    have hslice : SwitchFrame c t (t.modProc p fun x =>
        { x with timeSlice := if 0 < x.timeSlice then x.timeSlice - 1 else x.timeSlice }) :=
      SwitchFrame.modProc c t p (Or.inl rfl) rfl rfl
    have hcount := hcount.trans hslice
    generalize (t.modProc p fun x =>
      { x with timeSlice := if 0 < x.timeSlice then x.timeSlice - 1 else x.timeSlice }) = u at hcount h
    split at h
    · have hcur' : (u.runqueues c).current ≠ none :=
        fun hno => absurd (hcount.idle.mpr hno) (by simp [hcur])
      rcases hsw : tickSwitch u c p with _ | ⟨_ | _, v⟩
      · simp [hsw] at h
      · simp only [hsw, Option.some.injEq] at h
        exact h ▸ hcount.trans (tickSwitch_frame hcur' hsw)
      · simp only [hsw] at h
        exact (hcount.trans (tickSwitch_frame hcur' hsw)).trans (tickBoost_frame h c)
    · exact hcount.trans (tickBoost_frame h c)

/-! ## All the calls -/

theorem schedulerAddProcess_frame (s : SchedState) (p : ProcRef) : StateFrame s (schedulerAddProcess s p) :=
  (StateFrame.modProc s p (Or.inr (Or.inl rfl))).trans (enqueueProcess_edit _ p).stateFrame

theorem schedulerAddProcess_current (s : SchedState) (p : ProcRef) (c : Nat) :
    ((schedulerAddProcess s p).runqueues c).current = (s.runqueues c).current :=
  (enqueueProcess_edit _ p).current c

theorem wakeProcess_frame (s : SchedState) (p : ProcRef) : StateFrame s (wakeProcess s p) :=
  (StateFrame.modProc s p (Or.inr (Or.inl rfl))).trans (schedulerAddProcess_frame _ p)

theorem wakeWalk_frame {fuel : Nat} {proc : Option ProcRef} {s s' : SchedState}
    (h : wakeWalk fuel proc s = some s') : StateFrame s s' := by
  induction fuel generalizing proc s with
  | zero =>
    cases proc with
    | none => exact Option.some.inj h ▸ StateFrame.refl s
    | some p => exact absurd h (by simp [wakeWalk])
  | succ fuel ih =>
    cases proc with
    | none => exact Option.some.inj h ▸ StateFrame.refl s
    | some p => exact (wakeProcess_frame s p).trans (ih h)

theorem schedulerSleepOn_frame {s s' : SchedState} {c wq : Nat} (h : schedulerSleepOn s c wq = some s') :
    StateFrame s s' := by
  unfold schedulerSleepOn at h
  cases hcur : (s.runqueues c).current with
  | none =>
    rw [hcur] at h
    exact Option.some.inj h ▸ StateFrame.refl s
  | some p =>
    rw [hcur] at h
    dsimp only at h
    have hmark : StateFrame s (sleepMark s p wq) :=
      StateFrame.modProc s p (f := fun x => { x with state := .sleeping, wq := some wq, wqNext := s.waitHead wq })
        (Or.inr (Or.inr (Or.inr (Or.inl rfl))))
    have hdeq := (dequeueHighest_edit (sleepMark s p wq) c).stateFrame
    generalize dequeueHighest (sleepMark s p wq) c = r at hdeq h
    cases hnext : r.1.or (r.2.runqueues c).idleTask with
    | none => simp [hnext] at h
    | some n =>
      simp only [hnext, Option.some.injEq] at h
      exact h ▸ (hmark.trans hdeq).trans (StateFrame.dispatch r.2 c n)

/-- **No scheduler call makes a process unused, stopped or a zombie.** -/
theorem schedStep_frame {s s' : SchedState} {op : SchedOp} (h : schedStep s op = some s') :
    StateFrame s s' := by
  cases op with
  | start cpu =>
    unfold schedStep schedulerStart at h
    have hdeq := (dequeueHighest_edit s cpu).stateFrame
    rcases hr : dequeueHighest s cpu with ⟨_ | n, t⟩
    · simp [hr] at h
    · simp only [hr, Option.some.injEq] at h hdeq
      exact h ▸ hdeq.trans (StateFrame.dispatch t cpu n)
  | addProcess proc => exact Option.some.inj h ▸ schedulerAddProcess_frame s proc
  | tick cpu => exact (schedulerTick_frame h).state
  | yield cpu => exact Option.some.inj h ▸ (schedulerYield_frame s cpu).state
  | sleepOn cpu wq => exact schedulerSleepOn_frame h
  | wakeup wq =>
    exact @StateFrame.trans s { s with waitHead := Function.update s.waitHead wq none } s'
      (fun _ => Or.inl rfl) (wakeWalk_frame h)
  | wakeupOne wq =>
    refine Option.some.inj h ▸ ?_
    unfold schedulerWakeupOne
    cases s.waitHead wq with
    | none => exact StateFrame.refl s
    | some p =>
      exact @StateFrame.trans s { s with waitHead := Function.update s.waitHead wq (s.procs p).wqNext } _
        (fun _ => Or.inl rfl) (wakeProcess_frame _ p)
  | removeProcess proc =>
    obtain ⟨t, ht, rfl⟩ := Option.map_eq_some_iff.mp h
    exact (removeWalk_edit ht).stateFrame.trans
      (StateFrame.modProc t proc (Or.inr (Or.inr (Or.inr (Or.inr rfl)))))
  | priorityBoost => exact (priorityBoost_edit h).stateFrame

end Crimson.Sched
