import Crimson.Sched.Queues

/-!
# A run queue is a priority FIFO

`Queues` asks that a queued process belongs where it is queued by its own `priority` and
`cpu` fields, which every scheduler call keeps but `dequeue_highest` and
`enqueue_process` do not need. Here the queues are taken as they are: `Threaded s K Q`
says that the queues of `K` are the lists `Q`, and what keeps them apart is only that no
process is on two of them. A bit of the bitmap may be set for an empty queue.
-/

set_option autoImplicit false

namespace Crimson.Sched

open Crimson.Lib

/-- The queues of `K` are the lists `Q`, and no process is on two of them. -/
structure Threaded (s : SchedState) (K : Nat → Nat → Prop) (Q : QueueMap) : Prop where
  queue : ∀ {c q}, K c q →
    TailQueue s.link ((s.runqueues c).queues q) ((s.runqueues c).tails q) (Q c q)
  bit : ∀ {c q}, K c q → Q c q ≠ [] → (s.runqueues c).queueBitmap.getLsbD q = true
  apart : ∀ {c q c' q' p}, K c q → K c' q' → p ∈ Q c q → p ∈ Q c' q' → c' = c ∧ q' = q

/-- The run queues of the CPUs `C` are well formed: five lists each, and no bit beyond
    the fifth, since the bitmap's bits index the queues. -/
structure Runqueues (s : SchedState) (C : Nat → Prop) (Q : QueueMap) : Prop where
  threaded : Threaded s (fun c q => C c ∧ q < schedQueues) Q
  bounded : ∀ {c}, C c → ∀ i, schedQueues ≤ i → (s.runqueues c).queueBitmap.getLsbD i = false

section Threaded

variable {s s' : SchedState} {K K' : Nat → Nat → Prop} {Q : QueueMap} {c q : Nat} {p : ProcRef}

theorem Threaded.mono (h : Threaded s K Q) (hK : ∀ c q, K' c q → K c q) : Threaded s K' Q where
  queue := fun hk => h.queue (hK _ _ hk)
  bit := fun hk => h.bit (hK _ _ hk)
  apart := fun hk hk' => h.apart (hK _ _ hk) (hK _ _ hk')

/-- What the queues depend on. -/
theorem Threaded.congr (h : Threaded s K Q)
    (hqueue : ∀ c q, K c q → (s'.runqueues c).queues q = (s.runqueues c).queues q)
    (htail : ∀ c q, K c q → (s'.runqueues c).tails q = (s.runqueues c).tails q)
    (hbit : ∀ c q, K c q → Q c q ≠ [] → (s.runqueues c).queueBitmap.getLsbD q = true →
      (s'.runqueues c).queueBitmap.getLsbD q = true)
    (hlink : ∀ c q, K c q → ∀ p ∈ Q c q, s'.link p = s.link p) : Threaded s' K Q where
  queue := by
    intro c q hk
    rw [hqueue c q hk, htail c q hk]
    exact (h.queue hk).congr (hlink c q hk)
  bit := fun hk hne => hbit _ _ hk hne (h.bit hk hne)
  apart := h.apart

/-- Editing a process that is on no queue of `K`. -/
theorem Threaded.modProc_off (h : Threaded s K Q) (hp : ∀ c q, K c q → p ∉ Q c q)
    (f : Process → Process) : Threaded (s.modProc p f) K Q := by
  refine h.congr (fun _ _ _ => rfl) (fun _ _ _ => rfl) (fun _ _ _ _ hb => hb) ?_
  intro c q hk r hr
  have hrp : r ≠ p := fun hrp => hp c q hk (hrp ▸ hr)
  simp [SchedState.link, Function.update_of_ne hrp]

/-- A queue whose bit is clear is empty. -/
theorem Threaded.eq_nil (h : Threaded s K Q) (hk : K c q)
    (hbit : (s.runqueues c).queueBitmap.getLsbD q = false) : Q c q = [] := by
  by_contra hne
  rw [h.bit hk hne] at hbit
  exact Bool.noConfusion hbit

/-- Replacing one queue by a list of processes that are on no other. -/
theorem Threaded.apart_set (h : Threaded s K Q) (hk : K c q) {l : List ProcRef}
    (hl : ∀ r ∈ l, r ∈ Q c q ∨ ∀ c' q', K c' q' → r ∉ Q c' q') {c₁ q₁ c₂ q₂ : Nat} {r : ProcRef}
    (hk₁ : K c₁ q₁) (hk₂ : K c₂ q₂) (hr₁ : r ∈ Q.set c q l c₁ q₁) (hr₂ : r ∈ Q.set c q l c₂ q₂) :
    c₂ = c₁ ∧ q₂ = q₁ := by
  -- Off the replaced queue nothing is new; on it, `hl` says where an element comes from.
  have hold : ∀ c' q', K c' q' → ¬(c' = c ∧ q' = q) → r ∈ l → r ∉ Q c' q' := by
    intro c' q' hk' hne hrl hr'
    rcases hl r hrl with hr | hr
    · exact hne (h.apart hk hk' hr hr')
    · exact hr c' q' hk' hr'
  by_cases h₁ : c₁ = c ∧ q₁ = q
  · by_cases h₂ : c₂ = c ∧ q₂ = q
    · exact ⟨h₂.1.trans h₁.1.symm, h₂.2.trans h₁.2.symm⟩
    · rw [h₁.1, h₁.2, QueueMap.set_self] at hr₁
      rw [Q.set_of_ne l h₂] at hr₂
      exact absurd hr₂ (hold c₂ q₂ hk₂ h₂ hr₁)
  · rw [Q.set_of_ne l h₁] at hr₁
    by_cases h₂ : c₂ = c ∧ q₂ = q
    · rw [h₂.1, h₂.2, QueueMap.set_self] at hr₂
      exact absurd hr₁ (hold c₁ q₁ hk₁ h₁ hr₂)
    · rw [Q.set_of_ne l h₂] at hr₂
      exact h.apart hk₁ hk₂ hr₁ hr₂

/-- **`enqueue_process` appends to one queue**, and leaves every other one as it was. -/
theorem Threaded.enqueue (h : Threaded s K Q) (hk : K (s.procs p).cpu (s.procs p).priority)
    (hp : ∀ c q, K c q → p ∉ Q c q) (hprio : (s.procs p).priority < 32) :
    Threaded (enqueueProcess s p) K
      (Q.set (s.procs p).cpu (s.procs p).priority (Q (s.procs p).cpu (s.procs p).priority ++ [p])) := by
  have hrq := enqueueProcess_runqueues s p
  have hlink := enqueueProcess_link s p
  have hqueue := h.queue hk
  generalize (s.procs p).cpu = c at *
  generalize (s.procs p).priority = q at *
  have hbits : ∀ c' q', (s.runqueues c').queueBitmap.getLsbD q' = true →
      ((enqueueProcess s p).runqueues c').queueBitmap.getLsbD q' = true := by
    intro c' q' hb
    by_cases hc : c' = c
    · subst hc
      simp only [hrq, Function.update_self, getLsbD_or_shift, hb, Bool.true_or]
    · rwa [hrq, Function.update_of_ne hc]
  refine ⟨?_, ?_, h.apart_set hk ?_⟩
  · intro c' q' hk'
    by_cases hcq : c' = c ∧ q' = q
    · obtain ⟨rfl, rfl⟩ := hcq
      rw [QueueMap.set_self, hrq, Function.update_self]
      simp only [Function.update_self]
      refine hqueue.push (hp c' q' hk) ?_ ?_ ?_ ?_
      · rw [hlink, if_neg fun ht => hp c' q' hk (hqueue.tail_mem ht), if_pos rfl]
      · intro z hz
        rw [hlink, if_pos hz]
      · intro b hb hne
        rw [hlink, if_neg hne, if_neg fun hbp : b = p => hp c' q' hk (hbp ▸ hb)]
      · by_cases ht : (s.runqueues c').tails q' = none <;> simp [ht]
    · rw [Q.set_of_ne _ hcq]
      have hother : ((enqueueProcess s p).runqueues c').queues q' = (s.runqueues c').queues q' ∧
          ((enqueueProcess s p).runqueues c').tails q' = (s.runqueues c').tails q' := by
        by_cases hc : c' = c
        · have hq : q' ≠ q := fun hq => hcq ⟨hc, hq⟩
          subst hc
          rw [hrq, Function.update_self]
          refine ⟨?_, Function.update_of_ne hq _ _⟩
          by_cases ht : (s.runqueues c').tails q = none <;> simp [ht, Function.update_of_ne hq]
        · rw [hrq, Function.update_of_ne hc]
          exact ⟨rfl, rfl⟩
      rw [hother.1, hother.2]
      refine (h.queue hk').congr fun b hb => ?_
      -- The tail written to is on the queue that grows, so it is not `b`.
      have htail : (s.runqueues c).tails q ≠ some b := by
        intro ht
        exact hcq (h.apart hk hk' (hqueue.tail_mem ht) hb)
      rw [hlink, if_neg htail, if_neg fun hbp : b = p => hp c' q' hk' (hbp ▸ hb)]
  · intro c' q' hk' hne
    by_cases hcq : c' = c ∧ q' = q
    · rw [hcq.1, hcq.2, hrq, Function.update_self]
      simp only [getLsbD_or_shift]
      simp [hprio]
    · rw [Q.set_of_ne _ hcq] at hne
      exact hbits c' q' (h.bit hk' hne)
  · intro r hr
    rcases List.mem_append.mp hr with hr | hr
    · exact Or.inl hr
    · rw [List.mem_singleton.mp hr]
      exact Or.inr hp

/-- Clearing the bit of an empty queue. -/
theorem Threaded.clear_bit (h : Threaded s K Q) (hq : Q c q = []) :
    Threaded (s.modRq c fun rq => { rq with queueBitmap := rq.queueBitmap &&& ~~~(1#32 <<< q) }) K Q := by
  refine h.congr ?_ ?_ ?_ fun _ _ _ _ _ => rfl
  · intro c' q' _
    refine congrFun (rq_field_update Runqueue.queues s.runqueues c c' ?_) q'
    rfl
  · intro c' q' _
    refine congrFun (rq_field_update Runqueue.tails s.runqueues c c' ?_) q'
    rfl
  · intro c' q' _ hne hbit
    by_cases hc : c' = c
    · subst hc
      have hqq : q' ≠ q := fun hqq => hne (hqq ▸ hq)
      simp only [SchedState.modRq_runqueues, Function.update_self, getLsbD_clear, hbit, Bool.true_and,
        decide_eq_false hqq, Bool.not_false]
    · rwa [SchedState.modRq_runqueues, Function.update_of_ne hc]

/-- The end of `dequeue_highest`: the head `proc` of queue `prio` is taken out of it. -/
def takeHead (s : SchedState) (cpu prio : Nat) (proc : ProcRef) : SchedState :=
  let next := (s.procs proc).schedNext
  let s := s.modRq cpu fun rq => { rq with queues := Function.update rq.queues prio next }
  let s :=
    if next = none then
      s.modRq cpu fun rq =>
        { rq with
          tails := Function.update rq.tails prio none
          queueBitmap := rq.queueBitmap &&& ~~~(1#32 <<< prio) }
    else s
  s.modProc proc fun p => { p with schedNext := none }

theorem takeHead_procs (s : SchedState) (c q : Nat) (p : ProcRef) :
    (takeHead s c q p).procs = Function.update s.procs p { s.procs p with schedNext := none } := by
  unfold takeHead
  by_cases hn : (s.procs p).schedNext = none <;> simp [hn]

theorem takeHead_runqueues (s : SchedState) (c q : Nat) (p : ProcRef) :
    (takeHead s c q p).runqueues =
      Function.update s.runqueues c
        (let rq := s.runqueues c
         { rq with
           queues := Function.update rq.queues q (s.link p)
           tails := if s.link p = none then Function.update rq.tails q none else rq.tails
           queueBitmap :=
            if s.link p = none then rq.queueBitmap &&& ~~~(1#32 <<< q) else rq.queueBitmap }) := by
  unfold takeHead SchedState.link
  by_cases hn : (s.procs p).schedNext = none <;> simp [hn]

/-- **Taking the head** leaves the rest of its queue, and every other queue. -/
theorem Threaded.takeHead (h : Threaded s K Q) (hk : K c q) {l : List ProcRef} (hQ : Q c q = p :: l) :
    Threaded (takeHead s c q p) K (Q.set c q l) := by
  have hqueue := h.queue hk
  rw [hQ] at hqueue
  have hpl : p ∉ l := (List.nodup_cons.mp hqueue.nodup).1
  have hnil : s.link p = none ↔ l = [] := Linked.eq_nil_iff hqueue.linked.2
  have hrq := takeHead_runqueues s c q p
  have hlink : ∀ r, r ≠ p → (Sched.takeHead s c q p).link r = s.link r := by
    intro r hr
    rw [SchedState.link, takeHead_procs, Function.update_of_ne hr, SchedState.link]
  have hoff : ∀ c' q', K c' q' → ¬(c' = c ∧ q' = q) → ∀ r ∈ Q c' q', r ≠ p := by
    rintro c' q' hk' hne r hr rfl
    exact hne (h.apart hk hk' (by simp [hQ]) hr)
  refine ⟨?_, ?_, h.apart_set hk fun r hr => Or.inl (by simp [hQ, hr])⟩
  · intro c' q' hk'
    by_cases hcq : c' = c ∧ q' = q
    · obtain ⟨rfl, rfl⟩ := hcq
      have hpop := hqueue.pop fun b hb => hlink b fun hbp => hpl (hbp ▸ hb)
      rw [QueueMap.set_self, hrq, Function.update_self]
      by_cases hn : s.link p = none
      · simpa [hn] using hpop
      · simpa [hn] using hpop
    · rw [Q.set_of_ne _ hcq]
      have hother : ((Sched.takeHead s c q p).runqueues c').queues q' = (s.runqueues c').queues q' ∧
          ((Sched.takeHead s c q p).runqueues c').tails q' = (s.runqueues c').tails q' := by
        by_cases hc : c' = c
        · have hq : q' ≠ q := fun hq => hcq ⟨hc, hq⟩
          subst hc
          rw [hrq, Function.update_self]
          refine ⟨Function.update_of_ne hq _ _, ?_⟩
          by_cases hn : s.link p = none <;> simp [hn, Function.update_of_ne hq]
        · rw [hrq, Function.update_of_ne hc]
          exact ⟨rfl, rfl⟩
      rw [hother.1, hother.2]
      exact (h.queue hk').congr fun b hb => hlink b (hoff c' q' hk' hcq b hb)
  · intro c' q' hk' hne
    by_cases hc : c' = c
    · subst hc
      rw [hrq, Function.update_self]
      by_cases hq : q' = q
      · -- What is left is not empty, so the bit is not touched.
        subst hq
        rw [QueueMap.set_self] at hne
        have hn : s.link p ≠ none := fun hn => hne (hnil.mp hn)
        simpa [hn] using h.bit hk (by simp [hQ])
      · rw [Q.set_of_ne _ fun hcq => hq hcq.2] at hne
        have hbit := h.bit hk' hne
        by_cases hn : s.link p = none
        · simp only [hn, if_true, getLsbD_clear, hbit, decide_eq_false hq, Bool.not_false, Bool.and_self]
        · simpa [hn] using hbit
    · rw [Q.set_of_ne _ fun hcq => hc hcq.1] at hne
      rw [hrq, Function.update_of_ne hc]
      exact h.bit hk' hne

end Threaded

/-! ## The recursion of `dequeue_highest` -/

/-- One call of `dequeue_highest`: the state in which it calls itself, or its result. -/
def dequeueCall (s : SchedState) (cpu : Nat) : SchedState ⊕ (Option ProcRef × SchedState) :=
  let rq := s.runqueues cpu
  if rq.queueBitmap = 0 then .inr (none, s)
  else
    let prio := ctz rq.queueBitmap
    match rq.queues prio with
    | none => .inl (s.modRq cpu fun rq => { rq with queueBitmap := rq.queueBitmap &&& ~~~(1#32 <<< prio) })
    | some proc => .inr (some proc, takeHead s cpu prio proc)

/-- At most so many calls; `none` when the last of them calls once more. -/
def dequeueCalls : Nat → SchedState → Nat → Option (Option ProcRef × SchedState)
  | 0, _, _ => none
  | fuel + 1, s, cpu =>
    match dequeueCall s cpu with
    | .inl s => dequeueCalls fuel s cpu
    | .inr r => some r

theorem dequeueLoop_succ (fuel : Nat) (s : SchedState) (c : Nat) :
    dequeueLoop (fuel + 1) s c =
      match dequeueCall s c with
      | .inl s => dequeueLoop fuel s c
      | .inr r => r := by
  rw [dequeueLoop, dequeueCall]
  by_cases hzero : (s.runqueues c).queueBitmap = 0
  · simp only [hzero, if_true]
  · simp only [hzero, if_false]
    cases (s.runqueues c).queues (ctz (s.runqueues c).queueBitmap) with
    | none => rfl
    | some p => rfl

/-- What a dequeue on CPU `c` leaves alone: the other CPUs, and the bits that are clear. -/
structure OnCpu (s : SchedState) (c : Nat) (s' : SchedState) : Prop where
  others : ∀ d, d ≠ c → s'.runqueues d = s.runqueues d
  bits : ∀ i, (s.runqueues c).queueBitmap.getLsbD i = false → (s'.runqueues c).queueBitmap.getLsbD i = false

/-- What `dequeue_highest` returns, and the queues and links it leaves; `W` says of a state
    that its queues are the lists given. -/
inductive TakesFirst (W : SchedState → QueueMap → Prop) (s : SchedState) (Q : QueueMap) (c : Nat) :
    Option ProcRef × SchedState → Prop where
  | nothing {s' : SchedState} (empty : ∀ q, q < schedQueues → Q c q = []) (queues : W s' Q)
      (procs : s'.procs = s.procs) (frame : OnCpu s c s') : TakesFirst W s Q c (none, s')
  | head {p : ProcRef} {q : Nat} {l : List ProcRef} {s' : SchedState} (five : q < schedQueues)
      (first : ∀ q', q' < q → Q c q' = []) (head : Q c q = p :: l) (queues : W s' (Q.set c q l))
      (procs : s'.procs = Function.update s.procs p { s.procs p with schedNext := none })
      (frame : OnCpu s c s') : TakesFirst W s Q c (some p, s')

theorem OnCpu.refl (s : SchedState) (c : Nat) : OnCpu s c s := ⟨fun _ _ => rfl, fun _ hb => hb⟩

theorem OnCpu.clearBit (s : SchedState) (c q : Nat) :
    OnCpu s c (s.modRq c fun rq => { rq with queueBitmap := rq.queueBitmap &&& ~~~(1#32 <<< q) }) where
  others := fun d hd => by rw [SchedState.modRq_runqueues, Function.update_of_ne hd]
  bits := fun i hb => by
    rw [SchedState.modRq_runqueues, Function.update_self]
    simp only [getLsbD_clear, hb, Bool.false_and]

theorem OnCpu.takeHead (s : SchedState) (c q : Nat) (p : ProcRef) : OnCpu s c (takeHead s c q p) where
  others := fun d hd => by rw [takeHead_runqueues, Function.update_of_ne hd]
  bits := fun i hb => by
    rw [takeHead_runqueues, Function.update_self]
    by_cases hn : s.link p = none
    · simp only [hn, if_true, getLsbD_clear, hb, Bool.false_and]
    · simpa [hn] using hb

theorem OnCpu.trans {s s' s'' : SchedState} {c : Nat} (h : OnCpu s c s') (h' : OnCpu s' c s'') :
    OnCpu s c s'' where
  others := fun d hd => (h'.others d hd).trans (h.others d hd)
  bits := fun i hb => h'.bits i (h.bits i hb)

section TakesFirst

variable {W W' : SchedState → QueueMap → Prop} {s t : SchedState} {Q : QueueMap} {c : Nat}
  {r : Option ProcRef × SchedState}

/-- A call that only cleared a stale bit comes before the calls that answer. -/
theorem TakesFirst.after (h : TakesFirst W t Q c r) (hprocs : t.procs = s.procs) (ht : OnCpu s c t) :
    TakesFirst W s Q c r := by
  cases h with
  | nothing empty queues procs frame => exact .nothing empty queues (procs.trans hprocs) (ht.trans frame)
  | head five first head queues procs frame =>
    exact .head five first head queues (by rw [procs, hprocs]) (ht.trans frame)

theorem TakesFirst.imp (h : TakesFirst W s Q c r)
    (hW : ∀ s' Q', OnCpu s c s' → W s' Q' → W' s' Q') : TakesFirst W' s Q c r := by
  cases h with
  | nothing empty queues procs frame => exact .nothing empty (hW _ _ frame queues) procs frame
  | head five first head queues procs frame => exact .head five first head (hW _ _ frame queues) procs frame

theorem TakesFirst.none_iff (h : TakesFirst W s Q c r) :
    r.1 = none ↔ ∀ q, q < schedQueues → Q c q = [] := by
  cases h with
  | nothing empty queues procs frame => exact iff_of_true rfl empty
  | head five first head queues procs frame =>
    refine iff_of_false (by simp) fun hempty => ?_
    rw [hempty _ five] at head
    simp at head

end TakesFirst

/-- **One call**: an empty bitmap, a stale bit, or the head of the first queue that is
    not empty. -/
theorem Threaded.dequeueCall {s : SchedState} {K : Nat → Nat → Prop} {Q : QueueMap} {c : Nat}
    (h : Threaded s K Q) (hK : ∀ q, q < schedQueues → K c q)
    (hhigh : ∀ i, schedQueues ≤ i → (s.runqueues c).queueBitmap.getLsbD i = false) :
    (∃ r, dequeueCall s c = .inr r ∧ TakesFirst (Threaded · K ·) s Q c r ∧
        ((s.runqueues c).queueBitmap = 0 → r = (none, s))) ∨
      ∃ t, dequeueCall s c = .inl t ∧ Threaded t K Q ∧ t.procs = s.procs ∧ OnCpu s c t ∧
        ∃ i, i < schedQueues ∧ (s.runqueues c).queueBitmap.getLsbD i = true ∧
          ∀ j, j ≤ i → (t.runqueues c).queueBitmap.getLsbD j = false := by
  unfold Sched.dequeueCall
  by_cases hzero : (s.runqueues c).queueBitmap = 0
  · simp only [hzero, if_true]
    refine Or.inl ⟨_, rfl, .nothing (fun q hq => h.eq_nil (hK q hq) ?_) h rfl (OnCpu.refl s c), fun _ => rfl⟩
    rw [hzero]
    simp
  simp only [hzero, if_false]
  obtain ⟨hset, hbelow⟩ := ctz_spec hzero
  generalize ctz (s.runqueues c).queueBitmap = prio at hset hbelow
  have hfive : prio < schedQueues := by
    by_contra hge
    rw [hhigh prio (Nat.le_of_not_lt hge)] at hset
    exact Bool.noConfusion hset
  have hk := hK prio hfive
  cases hhead : (s.runqueues c).queues prio with
  | none =>
    have hnil : Q c prio = [] := (h.queue hk).linked.eq_nil_iff.mp hhead
    refine Or.inr ⟨_, rfl, h.clear_bit hnil, rfl, OnCpu.clearBit s c prio, prio, hfive, hset, ?_⟩
    intro j hj
    rw [SchedState.modRq_runqueues, Function.update_self]
    simp only [getLsbD_clear]
    by_cases hjp : j = prio
    · simp [hjp]
    · rw [hbelow j (Nat.lt_of_le_of_ne hj hjp), Bool.false_and]
  | some p =>
    have hcons : ∃ l, Q c prio = p :: l := by
      have hp := (h.queue hk).linked.head_eq
      rw [hhead] at hp
      exact List.head?_eq_some_iff.mp hp.symm
    obtain ⟨l, hQ⟩ := hcons
    refine Or.inl ⟨_, rfl, .head hfive ?_ hQ (h.takeHead hk hQ) (takeHead_procs s c prio p)
      (OnCpu.takeHead s c prio p), fun hz => hz.elim⟩
    intro q' hq'
    exact h.eq_nil (hK q' (hq'.trans hfive)) (hbelow q' hq')

/-- **The recursion ends.** Every call that calls again has cleared the lowest bit, so one
    call more than there are bits left answers. -/
theorem Threaded.dequeueCalls {s : SchedState} {K : Nat → Nat → Prop} {Q : QueueMap} {c : Nat}
    {fuel m : Nat} (h : Threaded s K Q) (hK : ∀ q, q < schedQueues → K c q)
    (hhigh : ∀ i, schedQueues ≤ i → (s.runqueues c).queueBitmap.getLsbD i = false)
    (hlow : ∀ i, i + fuel < schedQueues → (s.runqueues c).queueBitmap.getLsbD i = false) (hm : fuel ≤ m) :
    dequeueCalls (fuel + 1) s c = some (dequeueLoop m s c) ∧
      TakesFirst (Threaded · K ·) s Q c (dequeueLoop m s c) := by
  induction fuel generalizing s m with
  | zero =>
    have hzero : (s.runqueues c).queueBitmap = 0 := by
      refine BitVec.eq_of_getLsbD_eq fun i _ => ?_
      have hz : (0 : BitVec 32).getLsbD i = false := BitVec.getLsbD_zero
      rw [hz]
      by_cases hi : i < schedQueues
      · exact hlow i hi
      · exact hhigh i (Nat.le_of_not_lt hi)
    rcases h.dequeueCall hK hhigh with ⟨r, hr, hfirst, hnone⟩ | ⟨t, _, _, _, _, i, _, hset, _⟩
    · have hloop : dequeueLoop m s c = r := by
        cases m with
        | zero => exact (hnone hzero).symm
        | succ m => rw [dequeueLoop_succ, hr]
      rw [hloop, Sched.dequeueCalls, hr]
      exact ⟨rfl, hfirst⟩
    · rw [hzero] at hset
      simp at hset
  | succ fuel ih =>
    cases m with
    | zero => exact absurd hm (by simp)
    | succ m =>
      rw [dequeueLoop_succ, Sched.dequeueCalls]
      rcases h.dequeueCall hK hhigh with ⟨r, hr, hfirst, _⟩ | ⟨t, ht, hqueues, hprocs, hframe, i, _, hset, hclear⟩
      · rw [hr]
        exact ⟨rfl, hfirst⟩
      · rw [ht]
        have hlow' : ∀ j, j + fuel < schedQueues → (t.runqueues c).queueBitmap.getLsbD j = false := by
          intro j hj
          have hi : ¬i + (fuel + 1) < schedQueues := by
            intro hlt
            rw [hlow i hlt] at hset
            exact Bool.noConfusion hset
          exact hclear j (by omega)
        obtain ⟨hcalls, hfirst⟩ := ih hqueues (fun j hj => hframe.bits j (hhigh j hj)) hlow'
          (Nat.le_of_succ_le_succ hm)
        exact ⟨hcalls, hfirst.after hprocs hframe⟩

/-- Well-formed run queues stay so, when their lists do and no bit is set on one CPU. -/
theorem Runqueues.onCpu {s s' : SchedState} {C : Nat → Prop} {Q Q' : QueueMap} {c : Nat}
    (h : Runqueues s C Q) (hf : OnCpu s c s')
    (hq : Threaded s' (fun c q => C c ∧ q < schedQueues) Q') : Runqueues s' C Q' := by
  refine ⟨hq, ?_⟩
  intro d hd i hi
  by_cases hdc : d = c
  · rw [hdc] at hd ⊢
    exact hf.bits i (h.bounded hd i hi)
  · rw [hf.others d hdc]
    exact h.bounded hd i hi

/-- `dequeue_highest` on a CPU whose run queue is well formed. -/
theorem Runqueues.dequeue {s : SchedState} {C : Nat → Prop} {Q : QueueMap} {c : Nat}
    (h : Runqueues s C Q) (hc : C c) :
    dequeueCalls (schedQueues + 1) s c = some (dequeueHighest s c) ∧
      TakesFirst (Runqueues · C ·) s Q c (dequeueHighest s c) := by
  obtain ⟨hcalls, hfirst⟩ := @Threaded.dequeueCalls s _ Q c schedQueues 32 h.threaded
    (fun q hq => ⟨hc, hq⟩) (h.bounded hc) (fun i hi => absurd hi (by omega)) (by decide)
  exact ⟨hcalls, hfirst.imp fun s' Q' hf hq => h.onCpu hf hq⟩

/-- `enqueue_process` on a CPU whose run queue is well formed. -/
theorem Runqueues.enqueue {s : SchedState} {C : Nat → Prop} {Q : QueueMap} {p : ProcRef}
    (h : Runqueues s C Q) (hc : C (s.procs p).cpu) (hprio : (s.procs p).priority < schedQueues)
    (hp : ∀ c q, C c → q < schedQueues → p ∉ Q c q) :
    Runqueues (enqueueProcess s p) C
      (Q.set (s.procs p).cpu (s.procs p).priority (Q (s.procs p).cpu (s.procs p).priority ++ [p])) := by
  refine ⟨h.threaded.enqueue ⟨hc, hprio⟩ (fun c q hk => hp c q hk.1 hk.2)
    (hprio.trans (by decide)), ?_⟩
  intro d hd i hi
  rw [enqueueProcess_runqueues]
  by_cases hdc : d = (s.procs p).cpu
  · have hne : i ≠ (s.procs p).priority := Nat.ne_of_gt (Nat.lt_of_lt_of_le hprio hi)
    rw [hdc, Function.update_self]
    simp only [getLsbD_or_shift, h.bounded hc i hi]
    simp [hne]
  · rw [Function.update_of_ne hdc]
    exact h.bounded hd i hi

/-- **The run queue is a priority FIFO.** `dequeue_highest` ends, gives null exactly when
    the five queues of its CPU are empty, and otherwise takes the head of the first that is
    not; `enqueue_process` puts a process at the end of the queue its fields name. No other
    queue of the well-formed CPUs changes, and no other run queue is written to. -/
theorem runqueues_priority_fifo {s : SchedState} {C : Nat → Prop} {Q : QueueMap} (h : Runqueues s C Q) :
    (∀ c, C c →
      dequeueCalls (schedQueues + 1) s c = some (dequeueHighest s c) ∧
      ((dequeueHighest s c).1 = none ↔ ∀ q, q < schedQueues → Q c q = []) ∧
      TakesFirst (Runqueues · C ·) s Q c (dequeueHighest s c)) ∧
    ∀ p, C (s.procs p).cpu → (s.procs p).priority < schedQueues →
      (∀ c q, C c → q < schedQueues → p ∉ Q c q) →
      Runqueues (enqueueProcess s p) C
        (Q.set (s.procs p).cpu (s.procs p).priority (Q (s.procs p).cpu (s.procs p).priority ++ [p])) ∧
      ∀ d, d ≠ (s.procs p).cpu → (enqueueProcess s p).runqueues d = s.runqueues d := by
  constructor
  · intro c hc
    obtain ⟨hcalls, hfirst⟩ := h.dequeue hc
    exact ⟨hcalls, hfirst.none_iff, hfirst⟩
  · intro p hc hprio hp
    refine ⟨h.enqueue hc hprio hp, ?_⟩
    intro d hd
    rw [enqueueProcess_runqueues, Function.update_of_ne hd]

/-- Two normal processes, two low ones, and a stale bit for the high queue. -/
def twoQueues : SchedState where
  procs := fun p =>
    { Process.zero with
      priority := if p = 2 ∨ p = 3 then prioLow else prioNormal
      schedNext := if p = 0 then some 1 else if p = 2 then some 3 else none }
  runqueues := fun _ =>
    { Runqueue.empty with
      queues := fun q => if q = prioNormal then some 0 else if q = prioLow then some 2 else none
      tails := fun q => if q = prioNormal then some 1 else if q = prioLow then some 3 else none
      queueBitmap := 14#32 }
  numCpus := 1
  waitHead := fun _ => none

/-- The lists of its one CPU. -/
def twoQueuesLists : QueueMap := fun _ q =>
  if q = prioNormal then [0, 1] else if q = prioLow then [2, 3] else []

theorem twoQueues_runqueues : Runqueues twoQueues (· < 1) twoQueuesLists := by
  refine ⟨⟨?_, ?_, ?_⟩, ?_⟩
  · intro c q _
    by_cases hn : q = prioNormal
    · subst hn
      refine ⟨?_, rfl⟩
      simp [twoQueues, twoQueuesLists, SchedState.link, maxProcesses]
    · by_cases hl : q = prioLow
      · subst hl
        refine ⟨?_, rfl⟩
        simp [twoQueues, twoQueuesLists, SchedState.link, prioLow, prioNormal]
      · simpa [twoQueues, twoQueuesLists, hn, hl] using TailQueue.empty
  · intro c q _ hne
    by_cases hn : q = prioNormal
    · subst hn
      simp [twoQueues, prioNormal]
    · by_cases hl : q = prioLow
      · subst hl
        simp [twoQueues, prioLow]
      · simp [twoQueuesLists, hn, hl] at hne
  · rintro c q c' q' p ⟨hc, _⟩ ⟨hc', _⟩ hp hp'
    refine ⟨by omega, ?_⟩
    unfold twoQueuesLists at hp hp'
    split_ifs at hp hp' with h₁ h₂ h₃ h₄ h₅ h₆ <;> simp_all
    · rcases hp with rfl | rfl <;> simp at hp'
    · rcases hp with rfl | rfl <;> simp at hp'
  · intro c _ i hi
    have hlt : 14 < 2 ^ i := Nat.lt_of_lt_of_le (by decide) (Nat.pow_le_pow_right (by decide) hi)
    simpa [twoQueues, BitVec.getLsbD] using Nat.testBit_lt_two_pow hlt

/-- The stale bit is passed over, and process 4 lines up behind the two normal ones. -/
theorem runqueues_priority_fifo_twoQueues :
    (dequeueHighest twoQueues 0).1 = some 0 ∧
      TakesFirst (Runqueues · (· < 1) ·) twoQueues twoQueuesLists 0 (dequeueHighest twoQueues 0) ∧
      Runqueues (enqueueProcess twoQueues 4) (· < 1) (twoQueuesLists.set 0 2 [0, 1, 4]) := by
  obtain ⟨hdeq, henq⟩ := runqueues_priority_fifo twoQueues_runqueues
  refine ⟨by decide, (hdeq 0 (by decide)).2.2, (henq 4 (by decide) (by decide) ?_).1⟩
  intro c q _ _
  unfold twoQueuesLists
  split_ifs <;> decide

end Crimson.Sched
