import Crimson.Lib.Bits
import Crimson.Lib.TailQueue
import Crimson.Sched.Model

/-!
# What the scheduler's queue edits do to the queues

`QueueAt s c q l` says that queue `q` of CPU `c` is the list `l`: the head and tail
pointers delimit it, its bit is set if it has an element, and its elements belong there
by their own `priority` and `cpu` fields. The last clause keeps the queues apart: no
process can belong to two of them.

`Queues s Q` gathers all the queues at once. Each of `enqueue_process`,
`dequeue_highest`, `scheduler_remove_process` and `priority_boost` gets one lemma that
says how it changes `Q`, and `QueueEdit` says what none of them touches.
-/

set_option autoImplicit false

namespace Crimson.Sched

open Crimson.Lib

/-- The link function of the run queues. -/
def SchedState.link (s : SchedState) (p : ProcRef) : Option ProcRef := (s.procs p).schedNext

/-- Queue `q` of CPU `c` is `l`. -/
structure QueueAt (s : SchedState) (c q : Nat) (l : List ProcRef) : Prop where
  queue : TailQueue s.link ((s.runqueues c).queues q) ((s.runqueues c).tails q) l
  bit : l ≠ [] → (s.runqueues c).queueBitmap.getLsbD q = true
  home : ∀ p ∈ l, (s.procs p).priority = q ∧ (s.procs p).cpu = c

/-- All the queues of all the CPUs. -/
abbrev QueueMap := Nat → Nat → List ProcRef

def Queues (s : SchedState) (Q : QueueMap) : Prop := ∀ c q, QueueAt s c q (Q c q)

def QueueMap.set (Q : QueueMap) (c q : Nat) (l : List ProcRef) : QueueMap :=
  fun c' q' => if c' = c ∧ q' = q then l else Q c' q'

/-- The process is on some run queue. -/
def QueueMap.Has (Q : QueueMap) (p : ProcRef) : Prop := ∃ c q, p ∈ Q c q

/-- An edit of links, heads, tails and bitmaps, and of nothing else that matters here. -/
structure QueueEdit (s s' : SchedState) : Prop where
  state : ∀ p, (s'.procs p).state = (s.procs p).state
  priority : ∀ p, (s'.procs p).priority = (s.procs p).priority
  cpu : ∀ p, (s'.procs p).cpu = (s.procs p).cpu
  wq : ∀ p, (s'.procs p).wq = (s.procs p).wq
  wqNext : ∀ p, (s'.procs p).wqNext = (s.procs p).wqNext
  current : ∀ c, (s'.runqueues c).current = (s.runqueues c).current
  idleTask : ∀ c, (s'.runqueues c).idleTask = (s.runqueues c).idleTask
  numCpus : s'.numCpus = s.numCpus
  waitHead : s'.waitHead = s.waitHead

theorem QueueEdit.refl (s : SchedState) : QueueEdit s s :=
  ⟨fun _ => rfl, fun _ => rfl, fun _ => rfl, fun _ => rfl, fun _ => rfl, fun _ => rfl, fun _ => rfl,
    rfl, rfl⟩

theorem QueueEdit.trans {s s' s'' : SchedState} (h : QueueEdit s s') (h' : QueueEdit s' s'') :
    QueueEdit s s'' where
  state := fun p => (h'.state p).trans (h.state p)
  priority := fun p => (h'.priority p).trans (h.priority p)
  cpu := fun p => (h'.cpu p).trans (h.cpu p)
  wq := fun p => (h'.wq p).trans (h.wq p)
  wqNext := fun p => (h'.wqNext p).trans (h.wqNext p)
  current := fun c => (h'.current c).trans (h.current c)
  idleTask := fun c => (h'.idleTask c).trans (h.idleTask c)
  numCpus := h'.numCpus.trans h.numCpus
  waitHead := h'.waitHead.trans h.waitHead

/-! ## The record updates -/

section Fields

variable (s : SchedState) (p r : ProcRef) (c d : Nat) (f : Process → Process)
  (g : Runqueue → Runqueue)

@[simp] theorem SchedState.modProc_procs :
    (s.modProc p f).procs = Function.update s.procs p (f (s.procs p)) := rfl
@[simp] theorem SchedState.modProc_runqueues : (s.modProc p f).runqueues = s.runqueues := rfl
@[simp] theorem SchedState.modProc_numCpus : (s.modProc p f).numCpus = s.numCpus := rfl
@[simp] theorem SchedState.modProc_waitHead : (s.modProc p f).waitHead = s.waitHead := rfl
@[simp] theorem SchedState.modRq_procs : (s.modRq c g).procs = s.procs := rfl
@[simp] theorem SchedState.modRq_runqueues :
    (s.modRq c g).runqueues = Function.update s.runqueues c (g (s.runqueues c)) := rfl
@[simp] theorem SchedState.modRq_numCpus : (s.modRq c g).numCpus = s.numCpus := rfl
@[simp] theorem SchedState.modRq_waitHead : (s.modRq c g).waitHead = s.waitHead := rfl

end Fields

/-- A field that an update of the record keeps is kept for every process. -/
theorem field_update {β : Type*} (get : Process → β) (procs : ProcRef → Process) (p r : ProcRef)
    {v : Process} (hv : get v = get (procs p)) :
    get (Function.update procs p v r) = get (procs r) := by
  by_cases hr : r = p
  · rw [hr, Function.update_self, hv]
  · rw [Function.update_of_ne hr]

/-- The same for a field of the run queues. -/
theorem rq_field_update {β : Type*} (get : Runqueue → β) (runqueues : Nat → Runqueue) (c d : Nat)
    {v : Runqueue} (hv : get v = get (runqueues c)) :
    get (Function.update runqueues c v d) = get (runqueues d) := by
  by_cases hd : d = c
  · rw [hd, Function.update_self, hv]
  · rw [Function.update_of_ne hd]

/-- Writing one link is an edit of the queues. -/
theorem QueueEdit.setNext (s : SchedState) (p : ProcRef) (v : Option ProcRef) :
    QueueEdit s (s.modProc p fun x => { x with schedNext := v }) where
  state := fun r => field_update Process.state s.procs p r rfl
  priority := fun r => field_update Process.priority s.procs p r rfl
  cpu := fun r => field_update Process.cpu s.procs p r rfl
  wq := fun r => field_update Process.wq s.procs p r rfl
  wqNext := fun r => field_update Process.wqNext s.procs p r rfl
  current := fun _ => rfl
  idleTask := fun _ => rfl
  numCpus := rfl
  waitHead := rfl

/-- So is writing heads, tails or the bitmap of one CPU. -/
theorem QueueEdit.setRq (s : SchedState) (c : Nat) {g : Runqueue → Runqueue}
    (hcur : (g (s.runqueues c)).current = (s.runqueues c).current)
    (hidle : (g (s.runqueues c)).idleTask = (s.runqueues c).idleTask) :
    QueueEdit s (s.modRq c g) where
  state := fun _ => rfl
  priority := fun _ => rfl
  cpu := fun _ => rfl
  wq := fun _ => rfl
  wqNext := fun _ => rfl
  current := fun d => rq_field_update Runqueue.current s.runqueues c d hcur
  idleTask := fun d => rq_field_update Runqueue.idleTask s.runqueues c d hidle
  numCpus := rfl
  waitHead := rfl

theorem QueueEdit.ite {s a b : SchedState} {c : Prop} [Decidable c] (ha : QueueEdit s a)
    (hb : QueueEdit s b) : QueueEdit s (if c then a else b) := by
  split
  · exact ha
  · exact hb

/-! ## Facts about the queues as a whole -/

/-- What a queue depends on. -/
theorem QueueAt.congr {s s' : SchedState} {c q : Nat} {l : List ProcRef} (h : QueueAt s c q l)
    (hqueue : (s'.runqueues c).queues q = (s.runqueues c).queues q)
    (htail : (s'.runqueues c).tails q = (s.runqueues c).tails q)
    (hbit : l ≠ [] → (s.runqueues c).queueBitmap.getLsbD q = true →
      (s'.runqueues c).queueBitmap.getLsbD q = true)
    (hlink : ∀ p ∈ l, s'.link p = s.link p)
    (hhome : ∀ p ∈ l, (s'.procs p).priority = (s.procs p).priority ∧
      (s'.procs p).cpu = (s.procs p).cpu) : QueueAt s' c q l where
  queue := by
    rw [hqueue, htail]
    exact h.queue.congr hlink
  bit := fun hl => hbit hl (h.bit hl)
  home := fun p hp => by
    rw [(hhome p hp).1, (hhome p hp).2]
    exact h.home p hp

/-- A process is on no queue but the one its own fields name. -/
theorem Queues.home {s : SchedState} {Q : QueueMap} (h : Queues s Q) {c q : Nat} {p : ProcRef}
    (hp : p ∈ Q c q) : c = (s.procs p).cpu ∧ q = (s.procs p).priority := by
  obtain ⟨hprio, hcpu⟩ := (h c q).home p hp
  exact ⟨hcpu.symm, hprio.symm⟩

theorem Queues.once {s : SchedState} {Q : QueueMap} (h : Queues s Q) {c q c' q' : Nat} {p : ProcRef}
    (hp : p ∈ Q c q) (hp' : p ∈ Q c' q') : c = c' ∧ q = q' := by
  obtain ⟨hc, hq⟩ := h.home hp
  obtain ⟨hc', hq'⟩ := h.home hp'
  exact ⟨hc.trans hc'.symm, hq.trans hq'.symm⟩

@[simp] theorem QueueMap.set_self (Q : QueueMap) (c q : Nat) (l : List ProcRef) :
    Q.set c q l c q = l := if_pos ⟨rfl, rfl⟩

theorem QueueMap.set_of_ne (Q : QueueMap) {c q c' q' : Nat} (l : List ProcRef)
    (h : ¬(c' = c ∧ q' = q)) : Q.set c q l c' q' = Q c' q' := if_neg h

theorem QueueMap.set_set (Q : QueueMap) (c q : Nat) (l l' : List ProcRef) :
    (Q.set c q l).set c q l' = Q.set c q l' := by
  funext c' q'
  unfold QueueMap.set
  split <;> rfl

/-- Who is queued after an element has been added. -/
theorem QueueMap.has_push (Q : QueueMap) (c q : Nat) (p r : ProcRef) :
    (Q.set c q (Q c q ++ [p])).Has r ↔ Q.Has r ∨ r = p := by
  constructor
  · rintro ⟨c', q', hr⟩
    by_cases h : c' = c ∧ q' = q
    · rw [h.1, h.2, QueueMap.set_self] at hr
      rcases List.mem_append.mp hr with hr | hr
      · exact Or.inl ⟨c, q, hr⟩
      · exact Or.inr (List.mem_singleton.mp hr)
    · rw [Q.set_of_ne _ h] at hr
      exact Or.inl ⟨c', q', hr⟩
  · rintro (⟨c', q', hr⟩ | rfl)
    · by_cases h : c' = c ∧ q' = q
      · refine ⟨c, q, ?_⟩
        rw [QueueMap.set_self, ← h.1, ← h.2]
        exact List.mem_append_left _ hr
      · refine ⟨c', q', ?_⟩
        rwa [Q.set_of_ne _ h]
    · exact ⟨c, q, by simp⟩

/-- Who is queued after one element of a queue has been taken out of it. -/
theorem Queues.has_erase {s : SchedState} {Q : QueueMap} (h : Queues s Q) {c q : Nat}
    {l₁ l₂ : List ProcRef} {p : ProcRef} (hl : Q c q = l₁ ++ p :: l₂) (r : ProcRef) :
    (Q.set c q (l₁ ++ l₂)).Has r ↔ Q.Has r ∧ r ≠ p := by
  have hp : p ∈ Q c q := by simp [hl]
  have hnd : (l₁ ++ p :: l₂).Nodup := hl ▸ (h c q).queue.nodup
  constructor
  · rintro ⟨c', q', hr⟩
    by_cases hcq : c' = c ∧ q' = q
    · rw [hcq.1, hcq.2, QueueMap.set_self] at hr
      refine ⟨⟨c, q, ?_⟩, ?_⟩
      · rw [hl]
        simp only [List.mem_append, List.mem_cons] at hr ⊢
        tauto
      · intro hrp
        exact (List.nodup_cons.mp (List.nodup_middle.mp hnd)).1 (hrp ▸ hr)
    · rw [Q.set_of_ne _ hcq] at hr
      exact ⟨⟨c', q', hr⟩, fun hrp => hcq (h.once (hrp ▸ hr) hp)⟩
  · rintro ⟨⟨c', q', hr⟩, hne⟩
    by_cases hcq : c' = c ∧ q' = q
    · refine ⟨c, q, ?_⟩
      rw [hcq.1, hcq.2, hl] at hr
      rw [QueueMap.set_self]
      simp only [List.mem_append, List.mem_cons] at hr ⊢
      tauto
    · refine ⟨c', q', ?_⟩
      rwa [Q.set_of_ne _ hcq]

theorem Queues.has_pop {s : SchedState} {Q : QueueMap} (h : Queues s Q) {c q : Nat} {l : List ProcRef}
    {p : ProcRef} (hl : Q c q = p :: l) (r : ProcRef) : (Q.set c q l).Has r ↔ Q.Has r ∧ r ≠ p :=
  h.has_erase (show Q c q = [] ++ p :: l from hl) r

theorem Queues.not_has {s : SchedState} {Q : QueueMap} (h : Queues s Q) {p : ProcRef}
    (hp : p ∉ Q (s.procs p).cpu (s.procs p).priority) : ¬Q.Has p := by
  rintro ⟨c, q, hpq⟩
  obtain ⟨rfl, rfl⟩ := h.home hpq
  exact hp hpq

/-- What the queues depend on. -/
theorem Queues.congr {s s' : SchedState} {Q : QueueMap} (h : Queues s Q)
    (hrq : ∀ c, (s'.runqueues c).queues = (s.runqueues c).queues ∧
      (s'.runqueues c).tails = (s.runqueues c).tails ∧
      (s'.runqueues c).queueBitmap = (s.runqueues c).queueBitmap)
    (hproc : ∀ p, Q.Has p → s'.link p = s.link p ∧ (s'.procs p).priority = (s.procs p).priority ∧
      (s'.procs p).cpu = (s.procs p).cpu) : Queues s' Q := by
  intro c q
  obtain ⟨hqueues, htails, hbitmap⟩ := hrq c
  refine (h c q).congr (by rw [hqueues]) (by rw [htails]) (by rw [hbitmap]; exact fun _ hb => hb)
    (fun p hp => (hproc p ⟨c, q, hp⟩).1) fun p hp => (hproc p ⟨c, q, hp⟩).2

/-- Editing a process that is on no queue. -/
theorem Queues.modProc_off {s : SchedState} {Q : QueueMap} (h : Queues s Q) {p : ProcRef}
    (hp : ¬Q.Has p) (f : Process → Process) : Queues (s.modProc p f) Q := by
  refine h.congr (fun _ => ⟨rfl, rfl, rfl⟩) ?_
  intro r hr
  have hne : r ≠ p := fun hrp => hp (hrp ▸ hr)
  simp [SchedState.link, Function.update_of_ne hne]

/-- Editing what the queues do not depend on. -/
theorem Queues.modProc_keep {s : SchedState} {Q : QueueMap} (h : Queues s Q) {p : ProcRef}
    {f : Process → Process} (hnext : (f (s.procs p)).schedNext = (s.procs p).schedNext)
    (hprio : (f (s.procs p)).priority = (s.procs p).priority)
    (hcpu : (f (s.procs p)).cpu = (s.procs p).cpu) : Queues (s.modProc p f) Q := by
  refine h.congr (fun _ => ⟨rfl, rfl, rfl⟩) ?_
  intro r _
  exact ⟨field_update Process.schedNext s.procs p r hnext, field_update Process.priority s.procs p r hprio,
    field_update Process.cpu s.procs p r hcpu⟩

theorem Queues.modRq_keep {s : SchedState} {Q : QueueMap} (h : Queues s Q) {c : Nat}
    {g : Runqueue → Runqueue} (hqueues : (g (s.runqueues c)).queues = (s.runqueues c).queues)
    (htails : (g (s.runqueues c)).tails = (s.runqueues c).tails)
    (hbitmap : (g (s.runqueues c)).queueBitmap = (s.runqueues c).queueBitmap) :
    Queues (s.modRq c g) Q := by
  refine h.congr ?_ fun _ _ => ⟨rfl, rfl, rfl⟩
  intro d
  exact ⟨rq_field_update Runqueue.queues s.runqueues c d hqueues,
    rq_field_update Runqueue.tails s.runqueues c d htails,
    rq_field_update Runqueue.queueBitmap s.runqueues c d hbitmap⟩

/-! ## `enqueue_process` -/

/-- The links after an enqueue: the old tail points to the new one. -/
theorem enqueueProcess_link (s : SchedState) (p r : ProcRef) :
    (enqueueProcess s p).link r =
      if (s.runqueues (s.procs p).cpu).tails (s.procs p).priority = some r then some p
      else if r = p then none else s.link r := by
  unfold enqueueProcess SchedState.link
  cases htail : (s.runqueues (s.procs p).cpu).tails (s.procs p).priority with
  | none =>
    simp only [SchedState.modProc_runqueues, htail, SchedState.modRq_procs, SchedState.modProc_procs,
      Function.update_apply, reduceCtorEq, if_false]
    by_cases hr : r = p <;> simp [hr]
  | some z =>
    simp only [SchedState.modProc_runqueues, htail, SchedState.modRq_procs, SchedState.modProc_procs,
      Function.update_apply, Option.some.injEq]
    by_cases hz : r = z
    · simp [hz]
    · have hz' : ¬z = r := fun h => hz h.symm
      rw [if_neg hz, if_neg hz']
      by_cases hr : r = p <;> simp [hr]

/-- The run queues after an enqueue. -/
theorem enqueueProcess_runqueues (s : SchedState) (p : ProcRef) :
    (enqueueProcess s p).runqueues =
      Function.update s.runqueues (s.procs p).cpu
        (let rq := s.runqueues (s.procs p).cpu
         let prio := (s.procs p).priority
         { rq with
           queues := if rq.tails prio = none then Function.update rq.queues prio (some p) else rq.queues
           tails := Function.update rq.tails prio (some p)
           queueBitmap := rq.queueBitmap ||| (1#32 <<< prio) }) := by
  unfold enqueueProcess
  cases htail : (s.runqueues (s.procs p).cpu).tails (s.procs p).priority with
  | none => simp [htail]
  | some z => simp [htail]

theorem enqueueProcess_edit (s : SchedState) (p : ProcRef) : QueueEdit s (enqueueProcess s p) := by
  unfold enqueueProcess
  refine QueueEdit.trans ?_ (QueueEdit.setRq _ _ rfl rfl)
  refine (QueueEdit.setNext s p none).trans ?_
  cases (((s.modProc p fun x => { x with schedNext := none }).runqueues (s.procs p).cpu).tails
      (s.procs p).priority) with
  | none => exact QueueEdit.setRq _ _ rfl rfl
  | some z => exact QueueEdit.setNext _ z (some p)

/-- The queue the process belongs to grows at its end. -/
theorem QueueAt.enqueue_here {s : SchedState} {p : ProcRef} {l : List ProcRef}
    (h : QueueAt s (s.procs p).cpu (s.procs p).priority l) (hp : p ∉ l)
    (hprio : (s.procs p).priority < schedQueues) :
    QueueAt (enqueueProcess s p) (s.procs p).cpu (s.procs p).priority (l ++ [p]) := by
  have hedit := enqueueProcess_edit s p
  refine ⟨?_, ?_, ?_⟩
  · rw [enqueueProcess_runqueues, Function.update_self]
    simp only [Function.update_self]
    refine h.queue.push hp ?_ ?_ ?_ ?_
    · rw [enqueueProcess_link, if_neg, if_pos rfl]
      intro htail
      exact hp (h.queue.tail_mem htail)
    · intro z hz
      rw [enqueueProcess_link, if_pos hz]
    · intro b hb hne
      have hbp : b ≠ p := fun hbp => hp (hbp ▸ hb)
      rw [enqueueProcess_link, if_neg hne, if_neg hbp]
    · by_cases htail : (s.runqueues (s.procs p).cpu).tails (s.procs p).priority = none <;> simp [htail]
  · intro _
    rw [enqueueProcess_runqueues, Function.update_self]
    simp only [getLsbD_or_shift]
    have : (s.procs p).priority < 32 := Nat.lt_trans hprio (by decide)
    simp [this]
  · intro r hr
    rw [hedit.priority, hedit.cpu]
    rcases List.mem_append.mp hr with hr | hr
    · exact h.home r hr
    · rw [List.mem_singleton.mp hr]
      exact ⟨rfl, rfl⟩

/-- Every other queue is left as it was. -/
theorem QueueAt.enqueue_elsewhere {s : SchedState} {p : ProcRef} {c q : Nat} {l l₀ : List ProcRef}
    (h : QueueAt s c q l) (hp : p ∉ l) (h₀ : QueueAt s (s.procs p).cpu (s.procs p).priority l₀)
    (hne : ¬(c = (s.procs p).cpu ∧ q = (s.procs p).priority)) : QueueAt (enqueueProcess s p) c q l := by
  have hedit := enqueueProcess_edit s p
  have hrq := enqueueProcess_runqueues s p
  refine h.congr ?_ ?_ ?_ ?_ fun r _ => ⟨hedit.priority r, hedit.cpu r⟩
  · by_cases hc : c = (s.procs p).cpu
    · subst hc
      have hq : q ≠ (s.procs p).priority := fun hq => hne ⟨rfl, hq⟩
      rw [hrq, Function.update_self]
      by_cases htail : (s.runqueues (s.procs p).cpu).tails (s.procs p).priority = none <;>
        simp [htail, Function.update_of_ne hq]
    · rw [hrq, Function.update_of_ne hc]
  · by_cases hc : c = (s.procs p).cpu
    · subst hc
      have hq : q ≠ (s.procs p).priority := fun hq => hne ⟨rfl, hq⟩
      rw [hrq, Function.update_self]
      exact Function.update_of_ne hq _ _
    · rw [hrq, Function.update_of_ne hc]
  · intro _ hbit
    by_cases hc : c = (s.procs p).cpu
    · subst hc
      rw [hrq, Function.update_self]
      simp only [getLsbD_or_shift, hbit, Bool.true_or]
    · rwa [hrq, Function.update_of_ne hc]
  · intro r hr
    have hrp : r ≠ p := fun hrp => hp (hrp ▸ hr)
    rw [enqueueProcess_link, if_neg, if_neg hrp]
    -- The tail written to belongs to the other queue.
    intro htail
    have hr₀ := h₀.home r (h₀.queue.tail_mem htail)
    have hrl := h.home r hr
    exact hne ⟨hrl.2.symm.trans hr₀.2, hrl.1.symm.trans hr₀.1⟩

/-- **`enqueue_process` appends to one queue.** -/
theorem Queues.enqueue {s : SchedState} {Q : QueueMap} (h : Queues s Q) {p : ProcRef}
    (hp : ¬Q.Has p) (hprio : (s.procs p).priority < schedQueues) :
    Queues (enqueueProcess s p)
      (Q.set (s.procs p).cpu (s.procs p).priority
        (Q (s.procs p).cpu (s.procs p).priority ++ [p])) := by
  intro c q
  have hp' : ∀ c q, p ∉ Q c q := fun c q hpq => hp ⟨c, q, hpq⟩
  by_cases hcq : c = (s.procs p).cpu ∧ q = (s.procs p).priority
  · rw [hcq.1, hcq.2, QueueMap.set_self]
    exact (h _ _).enqueue_here (hp' _ _) hprio
  · rw [Q.set_of_ne _ hcq]
    exact (h c q).enqueue_elsewhere (hp' c q) (h _ _) hcq

/-! ## `dequeue_highest` -/

theorem ctz_spec {width : Nat} {w : BitVec width} (hw : w ≠ 0) :
    w.getLsbD (ctz w) = true ∧ ∀ j, j < ctz w → w.getLsbD j = false := by
  unfold ctz
  cases hfind : (List.range width).find? fun i => w.getLsbD i with
  | none =>
    -- No bit is set, so the word is zero.
    refine absurd (BitVec.eq_of_getLsbD_eq fun i hi => ?_) hw
    have hnone := List.find?_eq_none.mp hfind i (List.mem_range.mpr hi)
    simpa using hnone
  | some i =>
    obtain ⟨hset, _, hlow⟩ := List.find?_range_eq_some.mp hfind
    refine ⟨hset, ?_⟩
    intro j hj
    simpa using hlow j hj

/-- A queue whose bit is clear is empty. -/
theorem QueueAt.eq_nil {s : SchedState} {c q : Nat} {l : List ProcRef} (h : QueueAt s c q l)
    (hbit : (s.runqueues c).queueBitmap.getLsbD q = false) : l = [] := by
  by_contra hl
  rw [h.bit hl] at hbit
  exact Bool.noConfusion hbit

/-- Nothing was queued on the CPU. -/
structure DequeuedNone (s : SchedState) (Q : QueueMap) (c : Nat) (s' : SchedState) : Prop where
  empty : ∀ q, Q c q = []
  queues : Queues s' Q
  edit : QueueEdit s s'

/-- `p` was the head of the CPU's first non-empty queue `q`, and `l` is left of it. -/
structure Dequeued (s : SchedState) (Q : QueueMap) (c : Nat) (p : ProcRef) (q : Nat)
    (l : List ProcRef) (s' : SchedState) : Prop where
  head : Q c q = p :: l
  first : ∀ q', q' < q → Q c q' = []
  queues : Queues s' (Q.set c q l)
  edit : QueueEdit s s'

/-- Clearing the bit of an empty queue changes no queue. -/
theorem Queues.clear_bit {s : SchedState} {Q : QueueMap} (h : Queues s Q) {c q : Nat}
    (hq : Q c q = []) :
    Queues (s.modRq c fun rq => { rq with queueBitmap := rq.queueBitmap &&& ~~~(1#32 <<< q) }) Q := by
  intro c' q'
  refine (h c' q').congr ?_ ?_ ?_ (fun _ _ => rfl) fun _ _ => ⟨rfl, rfl⟩
  · refine congrFun (rq_field_update Runqueue.queues s.runqueues c c' ?_) q'
    rfl
  · refine congrFun (rq_field_update Runqueue.tails s.runqueues c c' ?_) q'
    rfl
  · intro hl hbit
    by_cases hc : c' = c
    · subst hc
      have hne : q' ≠ q := fun hqq => hl (hqq ▸ hq)
      simp only [SchedState.modRq_runqueues, Function.update_self, getLsbD_clear, hbit, Bool.true_and,
        decide_eq_false hne, Bool.not_false]
    · rwa [SchedState.modRq_runqueues, Function.update_of_ne hc]

/-- Taking the head off a queue. The bit may stay set when the queue becomes empty. -/
theorem Queues.pop {s s' : SchedState} {Q : QueueMap} (h : Queues s Q) {c q : Nat} {p : ProcRef}
    {l : List ProcRef} (hQ : Q c q = p :: l) (hlink : ∀ r, r ≠ p → s'.link r = s.link r)
    (hother : ∀ d, d ≠ c → s'.runqueues d = s.runqueues d)
    (hqueues : (s'.runqueues c).queues = Function.update (s.runqueues c).queues q (s.link p))
    (htails : (s'.runqueues c).tails =
      if s.link p = none then Function.update (s.runqueues c).tails q none
      else (s.runqueues c).tails)
    (hbits : ∀ q', q' ≠ q ∨ s.link p ≠ none → (s.runqueues c).queueBitmap.getLsbD q' = true →
      (s'.runqueues c).queueBitmap.getLsbD q' = true)
    (hedit : QueueEdit s s') : Queues s' (Q.set c q l) := by
  have hqueue := (h c q).queue
  rw [hQ] at hqueue
  have hpl : p ∉ l := (List.nodup_cons.mp hqueue.nodup).1
  have hnil : s.link p = none ↔ l = [] := Linked.eq_nil_iff hqueue.linked.2
  intro c' q'
  by_cases hcq : c' = c ∧ q' = q
  · obtain ⟨rfl, rfl⟩ := hcq
    rw [QueueMap.set_self]
    refine ⟨?_, ?_, ?_⟩
    · have hcongr : ∀ b ∈ l, s'.link b = s.link b := fun b hb => hlink b fun hbp => hpl (hbp ▸ hb)
      have hpop := hqueue.pop hcongr
      rw [hqueues, htails, Function.update_self]
      by_cases hn : s.link p = none
      · simpa [hn] using hpop
      · simpa [hn] using hpop
    · intro hl
      exact hbits q' (Or.inr fun hn => hl (hnil.mp hn)) ((h c' q').bit (by simp [hQ]))
    · intro r hr
      rw [hedit.priority, hedit.cpu]
      exact (h c' q').home r (by simp [hQ, hr])
  · rw [Q.set_of_ne _ hcq]
    have hp : p ∉ Q c' q' := fun hp => hcq (h.once hp (by simp [hQ] : p ∈ Q c q))
    have hr : ∀ r ∈ Q c' q', s'.link r = s.link r := fun r hr => hlink r fun hrp => hp (hrp ▸ hr)
    by_cases hc : c' = c
    · subst hc
      have hq : q' ≠ q := fun hq => hcq ⟨rfl, hq⟩
      refine (h c' q').congr ?_ ?_ (fun _ => hbits q' (Or.inl hq)) hr
        fun r _ => ⟨hedit.priority r, hedit.cpu r⟩
      · rw [hqueues, Function.update_of_ne hq]
      · rw [htails]
        split
        · exact Function.update_of_ne hq _ _
        · rfl
    · have hrq := hother c' hc
      exact (h c' q').congr (by rw [hrq]) (by rw [hrq]) (fun _ hb => by rwa [hrq]) hr
        fun r _ => ⟨hedit.priority r, hedit.cpu r⟩

theorem Queues.dequeueLoop {Q : QueueMap} {c : Nat} {fuel : Nat} {s : SchedState} (h : Queues s Q)
    (hlow : ∀ j, j + fuel < 32 → (s.runqueues c).queueBitmap.getLsbD j = false) :
    (∃ s', dequeueLoop fuel s c = (none, s') ∧ DequeuedNone s Q c s') ∨
      ∃ p q l s', dequeueLoop fuel s c = (some p, s') ∧ Dequeued s Q c p q l s' := by
  induction fuel generalizing s with
  | zero =>
    refine Or.inl ⟨s, rfl, ?_, h, QueueEdit.refl s⟩
    intro q
    by_cases hq : q < 32
    · exact (h c q).eq_nil (hlow q (by simpa using hq))
    · exact (h c q).eq_nil (BitVec.getLsbD_of_ge _ _ (Nat.le_of_not_lt hq))
  | succ fuel ih =>
    unfold Sched.dequeueLoop
    by_cases hzero : (s.runqueues c).queueBitmap = 0
    · simp only [hzero, if_true]
      refine Or.inl ⟨s, rfl, ?_, h, QueueEdit.refl s⟩
      intro q
      exact (h c q).eq_nil (by rw [hzero]; simp)
    simp only [hzero, if_false]
    obtain ⟨hset, hbelow⟩ := ctz_spec hzero
    generalize ctz (s.runqueues c).queueBitmap = prio at hset hbelow
    have hprio : 32 ≤ prio + (fuel + 1) := by
      by_contra hlt
      rw [hlow prio (by omega)] at hset
      exact Bool.noConfusion hset
    cases hhead : (s.runqueues c).queues prio with
    | none =>
      -- A stale bit: it is cleared, and the search goes on.
      have hnil : Q c prio = [] := (h c prio).queue.linked.eq_nil_iff.mp hhead
      have hclear := h.clear_bit hnil
      have hlow' : ∀ j, j + fuel < 32 →
          ((s.modRq c fun rq => { rq with
            queueBitmap := rq.queueBitmap &&& ~~~(1#32 <<< prio) }).runqueues c).queueBitmap.getLsbD j =
              false := by
        intro j hj
        rw [SchedState.modRq_runqueues, Function.update_self]
        simp only [getLsbD_clear]
        by_cases hjp : j = prio
        · simp [hjp]
        · rw [hbelow j (by omega), Bool.false_and]
      have hedit := QueueEdit.setRq s c
        (g := fun rq => { rq with queueBitmap := rq.queueBitmap &&& ~~~(1#32 <<< prio) }) rfl rfl
      rcases ih hclear hlow' with ⟨s', hs', hnone⟩ | ⟨p, q, l, s', hs', hsome⟩
      · exact Or.inl ⟨s', hs', hnone.empty, hnone.queues, hedit.trans hnone.edit⟩
      · exact Or.inr ⟨p, q, l, s', hs', hsome.head, hsome.first, hsome.queues, hedit.trans hsome.edit⟩
    | some p =>
      have hQ : ∃ l, Q c prio = p :: l := by
        cases hl : Q c prio with
        | nil =>
          have hnone := (h c prio).queue.linked.eq_nil_iff.mpr hl
          rw [hhead] at hnone
          exact absurd hnone (by simp)
        | cons r l =>
          have hr := (h c prio).queue.linked.head_eq
          rw [hhead, hl] at hr
          exact ⟨l, by rw [Option.some.inj hr]⟩
      obtain ⟨l, hQ⟩ := hQ
      refine Or.inr ⟨p, prio, l, _, rfl, hQ, fun q' hq' => (h c q').eq_nil (hbelow q' hq'),
        h.pop hQ ?_ ?_ ?_ ?_ ?_ ?edit, ?edit⟩
      · intro r hr
        by_cases hn : (s.procs p).schedNext = none <;> simp [SchedState.link, hn, Function.update_of_ne hr]
      · intro d hd
        by_cases hn : (s.procs p).schedNext = none <;> simp [hn, Function.update_of_ne hd]
      · by_cases hn : (s.procs p).schedNext = none <;> simp [SchedState.link, hn]
      · by_cases hn : (s.procs p).schedNext = none <;> simp [SchedState.link, hn]
      · intro q' hq' hbit
        by_cases hn : (s.procs p).schedNext = none
        · have hne : q' ≠ prio := hq'.resolve_right (not_not_intro hn)
          simp only [SchedState.modProc_runqueues, SchedState.modRq_runqueues, hn, if_true,
            Function.update_self, getLsbD_clear, hbit, decide_eq_false hne, Bool.true_and, Bool.not_false]
        · simpa [hn] using hbit
      case edit =>
        refine QueueEdit.trans ?_ (QueueEdit.setNext _ p none)
        split
        · exact (QueueEdit.setRq s c rfl rfl).trans (QueueEdit.setRq _ c rfl rfl)
        · exact QueueEdit.setRq s c rfl rfl

/-- **`dequeue_highest` takes the head of the CPU's first non-empty queue**, or reports
    that every one of them is empty. -/
theorem Queues.dequeue {s : SchedState} {Q : QueueMap} (h : Queues s Q) (c : Nat) :
    (∃ s', dequeueHighest s c = (none, s') ∧ DequeuedNone s Q c s') ∨
      ∃ p q l s', dequeueHighest s c = (some p, s') ∧ Dequeued s Q c p q l s' :=
  h.dequeueLoop fun j hj => absurd hj (by omega)

/-! ## `scheduler_remove_process` -/

/-- The loop stops at the process, if the list has it, with `pp` at its predecessor. -/
theorem removeWalk_spec {s : SchedState} {c q : Nat} {p : ProcRef} {rest : List ProcRef} {fuel : Nat}
    {pp : Option ProcRef} (hl : Linked s.link (s.deref c q pp) rest) (hfuel : rest.length ≤ fuel) :
    (p ∉ rest → removeWalk s c q p fuel pp = some s) ∧
      ∀ l₁ l₂, rest = l₁ ++ p :: l₂ → p ∉ l₁ →
        removeWalk s c q p fuel pp = some (unlinkAt s c q p (l₁.getLast?.or pp)) := by
  induction rest generalizing fuel pp with
  | nil =>
    have hnone : s.deref c q pp = none := hl
    refine ⟨fun _ => ?_, fun l₁ l₂ hnil => absurd hnil (by simp)⟩
    cases fuel with
    | zero => simp [removeWalk, hnone]
    | succ fuel => simp [removeWalk, hnone]
  | cons r rest ih =>
    obtain ⟨hr, hrest⟩ := hl
    cases fuel with
    | zero => exact absurd hfuel (by simp)
    | succ fuel =>
      obtain ⟨habsent, hfound⟩ := @ih fuel (some r) hrest (by simpa using hfuel)
      constructor
      · intro hp
        have hrp : r ≠ p := fun hrp => hp (by simp [hrp])
        simp only [removeWalk, hr, if_neg hrp]
        exact habsent fun hp' => hp (by simp [hp'])
      · intro l₁ l₂ hsplit hp
        cases l₁ with
        | nil =>
          obtain ⟨rfl, rfl⟩ := List.cons.inj hsplit
          simp [removeWalk, hr]
        | cons x l₁ =>
          obtain ⟨rfl, rfl⟩ := List.cons.inj hsplit
          have hrp : r ≠ p := fun hrp => hp (by simp [hrp])
          simp only [removeWalk, hr, if_neg hrp]
          rw [hfound l₁ l₂ rfl fun hp' => hp (by simp [hp'])]
          cases l₁ with
          | nil => simp
          | cons y l₁ => simp [List.getLast?_cons]

/-- A list of processes without repetition is no longer than the process table. -/
theorem length_le_maxProcesses {l : List ProcRef} (hl : l.Nodup) : l.length ≤ maxProcesses := by
  have hcard := List.Nodup.length_le_card hl
  rwa [Fintype.card_fin] at hcard

/-- The tail pointer names the last element. -/
theorem Queues.tail_eq_iff {s : SchedState} {Q : QueueMap} (h : Queues s Q) {c q : Nat} {p : ProcRef}
    {l₁ l₂ : List ProcRef} (hQ : Q c q = l₁ ++ p :: l₂) :
    (s.runqueues c).tails q = some p ↔ l₂ = [] := by
  have hqueue := (h c q).queue
  rw [hQ] at hqueue
  rw [hqueue.tail_eq]
  cases hl : l₂ with
  | nil => simp
  | cons y l =>
    have hnd := hqueue.nodup
    rw [List.getLast?_append_of_ne_nil _ (by simp), ← hl]
    refine ⟨fun hlast => ?_, fun hnil => absurd hnil (by simp [hl])⟩
    have hp : p ∉ l₂ := (List.nodup_cons.mp (List.nodup_append.mp hnd).2.1).1
    rw [hl, List.getLast?_cons_cons, ← hl] at hlast
    exact absurd (List.mem_of_getLast? hlast) hp

theorem unlinkAt_edit (s : SchedState) (c q : Nat) (p : ProcRef) (pp : Option ProcRef) :
    QueueEdit s (unlinkAt s c q p pp) := by
  have hassign : QueueEdit s (s.assign c q pp (s.procs p).schedNext) := by
    cases pp with
    | none =>
      show QueueEdit s (s.modRq c fun rq =>
        { rq with queues := Function.update rq.queues q (s.procs p).schedNext })
      exact QueueEdit.setRq s c rfl rfl
    | some y => exact QueueEdit.setNext s y _
  exact QueueEdit.ite (hassign.trans (QueueEdit.setRq _ c rfl rfl)) hassign

/-- **Unlinking an element** of a queue, unless it is the last one of several. -/
theorem Queues.unlinkAt {s : SchedState} {Q : QueueMap} (h : Queues s Q) {c q : Nat} {p : ProcRef}
    {l₁ l₂ : List ProcRef} (hQ : Q c q = l₁ ++ p :: l₂) (hlast : l₁ = [] ∨ l₂ ≠ []) :
    Queues (unlinkAt s c q p l₁.getLast?) (Q.set c q (l₁ ++ l₂)) := by
  have htail := h.tail_eq_iff hQ
  have hqueue := (h c q).queue
  rw [hQ] at hqueue
  have hnext : s.link p = none ↔ l₂ = [] := by
    rw [Linked.next_eq hqueue.linked, List.head?_eq_none_iff]
  rcases List.eq_nil_or_concat l₁ with rfl | ⟨l, y, rfl⟩
  · -- The head: `queues[q]` moves on, and the tail pointer goes with the only element.
    refine h.pop hQ ?_ ?_ ?_ ?_ ?_ (unlinkAt_edit s c q p none)
    all_goals
      unfold Sched.unlinkAt
      simp only [SchedState.assign, List.getLast?_nil]
      by_cases hn : l₂ = []
      all_goals simp_all [SchedState.link]
  · have hl₂ : l₂ ≠ [] := hlast.resolve_left (by simp)
    rw [List.concat_eq_append] at hQ hqueue ⊢
    rw [List.append_assoc, List.singleton_append] at hQ hqueue ⊢
    -- The predecessor's link is the only thing written.
    have hunl : Sched.unlinkAt s c q p (some y) =
        s.modProc y fun x => { x with schedNext := (s.procs p).schedNext } :=
      if_neg fun ht => hl₂ (htail.mp ht)
    have hlast : (l ++ [y]).getLast? = some y := by simp
    rw [hlast, hunl]
    have hlink : ∀ r, r ≠ y → (s.modProc y fun x => { x with schedNext := (s.procs p).schedNext }).link r =
        s.link r := by
      intro r hr
      simp [SchedState.link, Function.update_of_ne hr]
    have hedit := QueueEdit.setNext s y (s.procs p).schedNext
    intro c' q'
    by_cases hcq : c' = c ∧ q' = q
    · obtain ⟨rfl, rfl⟩ := hcq
      rw [QueueMap.set_self]
      refine ⟨hqueue.unlink hl₂ (by simp [SchedState.link]) ?_, ?_, ?_⟩
      · intro b hb
        apply hlink
        rintro rfl
        have hb' := (List.nodup_cons.mp (List.nodup_middle.mp hqueue.nodup)).1
        exact hb' (by simp only [List.mem_append, List.mem_cons] at hb ⊢; tauto)
      · intro _
        exact (h c' q').bit (by simp [hQ])
      · intro r hr
        rw [hedit.priority, hedit.cpu]
        apply (h c' q').home
        rw [hQ]
        simp only [List.mem_append, List.mem_cons] at hr ⊢
        tauto
    · rw [Q.set_of_ne _ hcq]
      refine (h c' q').congr rfl rfl (fun _ hb => hb) ?_ fun r _ => ⟨hedit.priority r, hedit.cpu r⟩
      intro r hr
      apply hlink
      rintro rfl
      exact hcq (h.once hr (by simp [hQ] : r ∈ Q c q))

/-- The guard under which a removal keeps the queues: the last process of a queue is
    removed only when it is also the first. -/
def TailIsHead (s : SchedState) (p : ProcRef) : Prop :=
  (s.runqueues (s.procs p).cpu).tails (s.procs p).priority = some p →
    (s.runqueues (s.procs p).cpu).queues (s.procs p).priority = some p

/-- **`scheduler_remove_process` takes one process off its queue.** -/
theorem Queues.remove {s : SchedState} {Q : QueueMap} (h : Queues s Q) {p : ProcRef}
    (hguard : TailIsHead s p) :
    ∃ s' Q', schedulerRemoveProcess s p = some s' ∧ Queues s' Q' ∧
      (∀ r, Q'.Has r ↔ Q.Has r ∧ r ≠ p) ∧
      ∃ t, QueueEdit s t ∧ s' = t.modProc p fun x => { x with schedNext := none, state := .dead } := by
  have hlinked := (h (s.procs p).cpu (s.procs p).priority).queue.linked
  have hlen := length_le_maxProcesses hlinked.nodup
  obtain ⟨habsent, hfound⟩ := @removeWalk_spec s _ _ p _ _ none hlinked hlen
  unfold schedulerRemoveProcess
  by_cases hp : p ∈ Q (s.procs p).cpu (s.procs p).priority
  · obtain ⟨l₁, l₂, hQ, hl₁⟩ := List.eq_append_cons_of_mem hp
    have hlast : l₁ = [] ∨ l₂ ≠ [] := by
      by_cases hl₂ : l₂ = []
      · have hhead := hguard ((h.tail_eq_iff hQ).mpr hl₂)
        rw [hlinked.head_eq, hQ] at hhead
        cases l₁ with
        | nil => exact Or.inl rfl
        | cons x l₁ => exact absurd (Option.some.inj hhead) fun hx => hl₁ (by simp [hx])
      · exact Or.inr hl₂
    have hunl := h.unlinkAt hQ hlast
    have hhas := h.has_erase hQ
    rw [hfound l₁ l₂ hQ hl₁, Option.or_none]
    refine ⟨_, _, rfl, hunl.modProc_off ?_ _, hhas, _, unlinkAt_edit s _ _ p _, rfl⟩
    intro hin
    exact ((hhas p).mp hin).2 rfl
  · rw [habsent hp]
    have hoff := h.not_has hp
    refine ⟨_, Q, rfl, h.modProc_off hoff _, ?_, s, QueueEdit.refl s, rfl⟩
    intro r
    refine ⟨fun hr => ⟨hr, fun hrp => hoff (hrp ▸ hr)⟩, fun hr => hr.1⟩

/-! ## `priority_boost` -/

/-- What a boost leaves alone: it is an edit of the queues, and of the priorities of the
    processes that are moved. -/
structure BoostEdit (s : SchedState) (moved : ProcRef → Prop) (s' : SchedState) : Prop where
  state : ∀ p, (s'.procs p).state = (s.procs p).state
  priority : ∀ p, ¬moved p → (s'.procs p).priority = (s.procs p).priority
  boosted : ∀ p, (s'.procs p).priority = (s.procs p).priority ∨ (s'.procs p).priority = prioNormal
  cpu : ∀ p, (s'.procs p).cpu = (s.procs p).cpu
  wq : ∀ p, (s'.procs p).wq = (s.procs p).wq
  wqNext : ∀ p, (s'.procs p).wqNext = (s.procs p).wqNext
  current : ∀ c, (s'.runqueues c).current = (s.runqueues c).current
  idleTask : ∀ c, (s'.runqueues c).idleTask = (s.runqueues c).idleTask
  numCpus : s'.numCpus = s.numCpus
  waitHead : s'.waitHead = s.waitHead

theorem BoostEdit.refl (s : SchedState) (moved : ProcRef → Prop) : BoostEdit s moved s :=
  ⟨fun _ => rfl, fun _ _ => rfl, fun _ => Or.inl rfl, fun _ => rfl, fun _ => rfl, fun _ => rfl,
    fun _ => rfl, fun _ => rfl, rfl, rfl⟩

theorem BoostEdit.trans {s s' s'' : SchedState} {moved : ProcRef → Prop} (h : BoostEdit s moved s')
    (h' : BoostEdit s' moved s'') : BoostEdit s moved s'' where
  state := fun p => (h'.state p).trans (h.state p)
  priority := fun p hp => (h'.priority p hp).trans (h.priority p hp)
  boosted := fun p => by
    rcases h'.boosted p with hp | hp
    · rw [hp]
      exact h.boosted p
    · exact Or.inr hp
  cpu := fun p => (h'.cpu p).trans (h.cpu p)
  wq := fun p => (h'.wq p).trans (h.wq p)
  wqNext := fun p => (h'.wqNext p).trans (h.wqNext p)
  current := fun c => (h'.current c).trans (h.current c)
  idleTask := fun c => (h'.idleTask c).trans (h.idleTask c)
  numCpus := h'.numCpus.trans h.numCpus
  waitHead := h'.waitHead.trans h.waitHead

theorem BoostEdit.mono {s s' : SchedState} {moved moved' : ProcRef → Prop} (h : BoostEdit s moved s')
    (hm : ∀ p, moved p → moved' p) : BoostEdit s moved' s' :=
  { h with priority := fun p hp => h.priority p fun hp' => hp (hm p hp') }

theorem QueueEdit.boost {s s' : SchedState} (h : QueueEdit s s') (moved : ProcRef → Prop) :
    BoostEdit s moved s' :=
  ⟨h.state, fun p _ => h.priority p, fun p => Or.inl (h.priority p), h.cpu, h.wq, h.wqNext, h.current,
    h.idleTask, h.numCpus, h.waitHead⟩

/-- All the queues but the one that is being emptied. -/
def QueuesBut (s : SchedState) (Q : QueueMap) (c q : Nat) : Prop :=
  ∀ c' q', ¬(c' = c ∧ q' = q) → QueueAt s c' q' (Q c' q')

/-- One round of the loop: `p`, cut off the low queue, goes to the normal one. -/
def boostOne (s : SchedState) (p : ProcRef) : SchedState :=
  enqueueProcess (s.modProc p fun x => { x with priority := prioNormal, schedNext := none }) p

theorem boostOne_spec {c : Nat} {p : ProcRef} {s : SchedState} {Q : QueueMap}
    (h : QueuesBut s Q c prioLow) (hprio : (s.procs p).priority = prioLow) (hcpu : (s.procs p).cpu = c) :
    QueuesBut (boostOne s p) (Q.set c prioNormal (Q c prioNormal ++ [p])) c prioLow ∧
      BoostEdit s (· = p) (boostOne s p) ∧
      ∀ r, r ≠ p → (s.procs r).priority = prioLow → (boostOne s p).link r = s.link r := by
  have hother : ∀ c' q', ¬(c' = c ∧ q' = prioLow) → ∀ r ∈ Q c' q', r ≠ p := by
    rintro c' q' hne r hr rfl
    obtain ⟨hr₁, hr₂⟩ := (h c' q' hne).home r hr
    exact hne ⟨hr₂.symm.trans hcpu, hr₁.symm.trans hprio⟩
  have hcut : ∀ r, r ≠ p →
      (s.modProc p fun x => { x with priority := prioNormal, schedNext := none }).procs r = s.procs r :=
    fun r hr => Function.update_of_ne hr _ _
  unfold boostOne
  have hs₁ : (s.modProc p fun x => { x with priority := prioNormal, schedNext := none }).procs p =
      { s.procs p with priority := prioNormal, schedNext := none } := Function.update_self _ _ _
  have hrq : (s.modProc p fun x => { x with priority := prioNormal, schedNext := none }).runqueues =
      s.runqueues := rfl
  have hhead : (s.modProc p fun x => { x with priority := prioNormal, schedNext := none }).waitHead =
      s.waitHead := rfl
  have hnum : (s.modProc p fun x => { x with priority := prioNormal, schedNext := none }).numCpus =
      s.numCpus := rfl
  generalize (s.modProc p fun x => { x with priority := prioNormal, schedNext := none }) = s₁ at *
  have hprio₁ : (s₁.procs p).priority = prioNormal := by rw [hs₁]
  have hcpu₁ : (s₁.procs p).cpu = c := by rw [hs₁]; exact hcpu
  have h₁ : QueuesBut s₁ Q c prioLow := by
    intro c' q' hne
    have hm := hother c' q' hne
    exact (h c' q' hne).congr (by rw [hrq]) (by rw [hrq]) (fun _ hb => by rwa [hrq])
      (fun r hr => by rw [SchedState.link, hcut r (hm r hr), SchedState.link])
      fun r hr => by rw [hcut r (hm r hr)]; exact ⟨rfl, rfl⟩
  have hnormal : QueueAt s₁ (s₁.procs p).cpu (s₁.procs p).priority (Q c prioNormal) := by
    rw [hprio₁, hcpu₁]
    exact h₁ c prioNormal (by simp [prioNormal, prioLow])
  refine ⟨?_, ?_, ?_⟩
  · intro c' q' hne
    by_cases hcq : c' = c ∧ q' = prioNormal
    · obtain ⟨rfl, rfl⟩ := hcq
      rw [QueueMap.set_self]
      have hp : p ∉ Q c' prioNormal := fun hp => hother c' prioNormal hne p hp rfl
      have hpush := hnormal.enqueue_here hp (by rw [hprio₁]; decide)
      rwa [hprio₁, hcpu₁] at hpush
    · rw [Q.set_of_ne _ hcq]
      refine (h₁ c' q' hne).enqueue_elsewhere (fun hp => hother c' q' hne p hp rfl) hnormal ?_
      rwa [hprio₁, hcpu₁]
  · refine @BoostEdit.trans s s₁ _ _ ?_ ((enqueueProcess_edit s₁ p).boost (· = p))
    have hfield : ∀ {β : Type} (get : Process → β),
        get { s.procs p with priority := prioNormal, schedNext := none } = get (s.procs p) →
          ∀ r, get (s₁.procs r) = get (s.procs r) := by
      intro β get hget r
      by_cases hr : r = p
      · rw [hr, hs₁, hget]
      · rw [hcut r hr]
    refine ⟨hfield _ rfl, ?_, ?_, hfield _ rfl, hfield _ rfl, hfield _ rfl, fun _ => by rw [hrq],
      fun _ => by rw [hrq], hnum, hhead⟩
    · intro r hr
      rw [hcut r hr]
    · intro r
      by_cases hr : r = p
      · rw [hr]
        exact Or.inr hprio₁
      · rw [hcut r hr]
        exact Or.inl rfl
  · intro r hr hlow
    rw [enqueueProcess_link, if_neg, if_neg hr, SchedState.link, hcut r hr, SchedState.link]
    -- The old tail is on the normal queue, and `r` is a low process.
    intro htail
    have hr₀ := (hnormal.home r (hnormal.queue.tail_mem htail)).1
    rw [hprio₁, hcut r hr, hlow] at hr₀
    exact absurd hr₀ (by decide)

/-- **The loop of `priority_boost`**: what is left of the low queue moves to the end of
    the normal one, element by element. -/
theorem boostWalk_spec {c : Nat} {rest : List ProcRef} {s : SchedState} {Q : QueueMap} {fuel : Nat}
    {proc : Option ProcRef} (h : QueuesBut s Q c prioLow) (hl : Linked s.link proc rest)
    (hrest : ∀ p ∈ rest, (s.procs p).priority = prioLow ∧ (s.procs p).cpu = c)
    (hfuel : rest.length ≤ fuel) :
    ∃ s', boostWalk fuel proc s = some s' ∧
      QueuesBut s' (Q.set c prioNormal (Q c prioNormal ++ rest)) c prioLow ∧
      BoostEdit s (· ∈ rest) s' := by
  induction rest generalizing s Q fuel proc with
  | nil =>
    have hnone : proc = none := hl
    refine ⟨s, ?_, ?_, BoostEdit.refl s _⟩
    · rw [hnone]
      cases fuel <;> rfl
    · intro c' q' hne
      by_cases hcq : c' = c ∧ q' = prioNormal
      · rw [hcq.1, hcq.2, QueueMap.set_self, List.append_nil]
        exact h c prioNormal (by simp [prioNormal, prioLow])
      · rw [Q.set_of_ne _ hcq]
        exact h c' q' hne
  | cons p rest ih =>
    have hnd := List.nodup_cons.mp hl.nodup
    obtain ⟨rfl, hl⟩ := hl
    obtain ⟨hprio, hcpu⟩ := hrest p (by simp)
    obtain ⟨hqueues, hedit, hlink⟩ := boostOne_spec h hprio hcpu
    have hne : ∀ r ∈ rest, r ≠ p := fun r hr hrp => hnd.1 (hrp ▸ hr)
    cases fuel with
    | zero => exact absurd hfuel (by simp)
    | succ fuel =>
      obtain ⟨s', hs', hqueues', hedit'⟩ := @ih (boostOne s p) _ fuel
        (s.link p) hqueues (hl.congr fun r hr => hlink r (hne r hr) (hrest r (by simp [hr])).1)
        (fun r hr => by
          rw [hedit.priority r (hne r hr), hedit.cpu]
          exact hrest r (by simp [hr]))
        (by simpa using hfuel)
      refine ⟨s', hs', ?_, ?_⟩
      · rwa [QueueMap.set_set, QueueMap.set_self, List.append_assoc, List.singleton_append] at hqueues'
      · exact (hedit.mono fun r hr => by simp [hr]).trans (hedit'.mono fun r hr => by simp [hr])

/-- The queues after a boost of CPU `c`. -/
def QueueMap.boost (Q : QueueMap) (c : Nat) : QueueMap :=
  (Q.set c prioNormal (Q c prioNormal ++ Q c prioLow)).set c prioLow []

theorem QueueMap.has_boost (Q : QueueMap) (c : Nat) (p : ProcRef) : (Q.boost c).Has p ↔ Q.Has p := by
  have hne : prioLow ≠ prioNormal := by decide
  constructor
  · rintro ⟨c', q', hp⟩
    unfold QueueMap.boost QueueMap.set at hp
    split at hp
    · exact absurd hp List.not_mem_nil
    · split at hp
      · rcases List.mem_append.mp hp with hp | hp
        · exact ⟨c, _, hp⟩
        · exact ⟨c, _, hp⟩
      · exact ⟨c', q', hp⟩
  · rintro ⟨c', q', hp⟩
    by_cases hc : c' = c ∧ (q' = prioNormal ∨ q' = prioLow)
    · refine ⟨c, prioNormal, ?_⟩
      unfold QueueMap.boost QueueMap.set
      rw [if_neg fun h => hne h.2.symm, if_pos ⟨rfl, rfl⟩]
      obtain ⟨rfl, rfl | rfl⟩ := hc
      · exact List.mem_append_left _ hp
      · exact List.mem_append_right _ hp
    · refine ⟨c', q', ?_⟩
      unfold QueueMap.boost QueueMap.set
      rwa [if_neg fun h => hc ⟨h.1, Or.inr h.2⟩, if_neg fun h => hc ⟨h.1, Or.inl h.2⟩]

theorem Queues.boostCpu {s : SchedState} {Q : QueueMap} (h : Queues s Q) (c : Nat) :
    ∃ s', boostCpu s c = some s' ∧ Queues s' (Q.boost c) ∧ BoostEdit s Q.Has s' := by
  have hlow := h c prioLow
  obtain ⟨t, ht, hqueues, hedit⟩ := boostWalk_spec (fun c' q' _ => h c' q') hlow.queue.linked hlow.home
    (length_le_maxProcesses hlow.queue.nodup)
  unfold Sched.boostCpu
  rw [ht]
  refine ⟨_, rfl, ?_, ?_⟩
  · intro c' q'
    by_cases hcq : c' = c ∧ q' = prioLow
    · obtain ⟨rfl, rfl⟩ := hcq
      unfold QueueMap.boost
      rw [QueueMap.set_self]
      refine ⟨?_, fun hnil => absurd rfl hnil, fun p hp => absurd hp List.not_mem_nil⟩
      simp only [SchedState.modRq_runqueues, Function.update_self]
      exact TailQueue.empty
    · unfold QueueMap.boost
      rw [QueueMap.set_of_ne _ _ hcq]
      refine (hqueues c' q' hcq).congr ?_ ?_ ?_ (fun _ _ => rfl) fun _ _ => ⟨rfl, rfl⟩
      all_goals
        by_cases hc : c' = c
        · have hq : q' ≠ prioLow := fun hq => hcq ⟨hc, hq⟩
          simp [hc, Function.update_of_ne hq]
        · simp [Function.update_of_ne hc]
  · exact (hedit.mono fun p hp => ⟨c, prioLow, hp⟩).trans ((QueueEdit.setRq t c rfl rfl).boost _)

/-- **`priority_boost` loses nobody.** -/
theorem Queues.boost {s : SchedState} {Q : QueueMap} (h : Queues s Q) :
    ∃ s' Q', priorityBoost s = some s' ∧ Queues s' Q' ∧ (∀ p, Q'.Has p ↔ Q.Has p) ∧
      BoostEdit s Q.Has s' := by
  unfold priorityBoost
  generalize List.range s.numCpus = cpus
  induction cpus generalizing s Q with
  | nil => exact ⟨s, Q, rfl, h, fun _ => Iff.rfl, BoostEdit.refl s _⟩
  | cons c cpus ih =>
    obtain ⟨t, ht, hqueues, hedit⟩ := h.boostCpu c
    obtain ⟨s', Q', hs', hqueues', hhas, hedit'⟩ := ih hqueues
    refine ⟨s', Q', ?_, hqueues', ?_, ?_⟩
    · rw [List.foldlM_cons, ht]
      exact hs'
    · intro p
      rw [hhas, QueueMap.has_boost]
    · exact hedit.trans (hedit'.mono fun p hp => (Q.has_boost c p).mp hp)

end Crimson.Sched
