import Crimson.Sched.PriorityFifo

/-!
# `priority_boost` appends every low queue to the normal one

The loop takes the low queue apart while it builds the normal one up, out of the same
links. At each round the queues are threaded but for the low queue of the CPU, and what is
left of that is a list of processes that are on no other queue.
-/

set_option autoImplicit false

namespace Crimson.Sched

open Crimson.Lib

/-- What a boost does to the process table: the moved processes become normal ones, and
    links change only among the moved processes and the old ends of the normal queues. -/
structure LowMoved (s : SchedState) (moved joined : ProcRef → Prop) (s' : SchedState) : Prop where
  others : ∀ r, ¬moved r → s'.procs r = { s.procs r with schedNext := s'.link r }
  boosted : ∀ r, moved r →
    s'.procs r = { s.procs r with priority := prioNormal, schedNext := s'.link r }
  link : ∀ r, ¬moved r → ¬joined r → s'.link r = s.link r

section LowMoved

variable {s s' s'' : SchedState} {moved moved' joined joined' : ProcRef → Prop}

theorem LowMoved.refl (s : SchedState) (hm : ∀ r, ¬moved r) : LowMoved s moved joined s :=
  ⟨fun _ _ => rfl, fun r hr => absurd hr (hm r), fun _ _ _ => rfl⟩

theorem LowMoved.cpu (h : LowMoved s moved joined s') (r : ProcRef) :
    (s'.procs r).cpu = (s.procs r).cpu := by
  by_cases hr : moved r
  · rw [h.boosted r hr]
  · rw [h.others r hr]

theorem LowMoved.trans (h : LowMoved s moved joined s') (h' : LowMoved s' moved' joined' s'') :
    LowMoved s (fun r => moved r ∨ moved' r) (fun r => joined r ∨ joined' r) s'' where
  others := by
    intro r hr
    obtain ⟨hm, hm'⟩ := not_or.mp hr
    rw [h'.others r hm', h.others r hm]
  boosted := by
    intro r hr
    by_cases hm : moved r
    · by_cases hm' : moved' r
      · rw [h'.boosted r hm', h.boosted r hm]
      · rw [h'.others r hm', h.boosted r hm]
    · rw [h'.boosted r (hr.resolve_left hm), h.others r hm]
  link := by
    intro r hr hj
    obtain ⟨hm, hm'⟩ := not_or.mp hr
    obtain ⟨hj, hj'⟩ := not_or.mp hj
    exact (h'.link r hm' hj').trans (h.link r hm hj)

theorem LowMoved.imp (h : LowMoved s moved joined s') (hm : ∀ r, moved' r ↔ moved r)
    (hj : ∀ r, joined r → moved' r ∨ joined' r) : LowMoved s moved' joined' s' where
  others := fun r hr => h.others r fun hm' => hr ((hm r).mpr hm')
  boosted := fun r hr => h.boosted r ((hm r).mp hr)
  link := fun r hr hj' => h.link r (fun hm' => hr ((hm r).mpr hm')) fun hjr =>
    (hj r hjr).elim hr hj'

end LowMoved

theorem enqueueProcess_procs (s : SchedState) (p r : ProcRef) :
    (enqueueProcess s p).procs r = { s.procs r with schedNext := (enqueueProcess s p).link r } := by
  rw [enqueueProcess_link]
  unfold enqueueProcess
  cases htail : (s.runqueues (s.procs p).cpu).tails (s.procs p).priority with
  | none =>
    simp only [SchedState.modProc_runqueues, htail, SchedState.modRq_procs, SchedState.modProc_procs,
      Function.update_apply, reduceCtorEq, if_false]
    by_cases hr : r = p
    · simp [hr]
    · simp [hr, SchedState.link]
  | some z =>
    simp only [SchedState.modProc_runqueues, htail, SchedState.modRq_procs, SchedState.modProc_procs,
      Function.update_apply, Option.some.injEq]
    by_cases hz : r = z
    · by_cases hzp : z = p <;> simp [hz, hzp]
    · have hz' : ¬z = r := fun h => hz h.symm
      by_cases hr : r = p
      · subst hr
        simp [hz, hz']
      · simp [hz, hz', hr, SchedState.link]

/-- What a boost of CPU `c` does to the run queues, `l` being moved: the normal queue gets
    a new head and tail, and its bit if there is something to move. -/
structure NormalGrown (s : SchedState) (c : Nat) (l : List ProcRef) (s' : SchedState) : Prop where
  others : ∀ d, d ≠ c → s'.runqueues d = s.runqueues d
  here : ∃ queue tail, s'.runqueues c =
    { s.runqueues c with
      queues := Function.update (s.runqueues c).queues prioNormal queue
      tails := Function.update (s.runqueues c).tails prioNormal tail
      queueBitmap :=
        if l = [] then (s.runqueues c).queueBitmap
        else (s.runqueues c).queueBitmap ||| (1#32 <<< prioNormal) }
  numCpus : s'.numCpus = s.numCpus

theorem NormalGrown.refl (s : SchedState) (c : Nat) : NormalGrown s c [] s :=
  ⟨fun _ _ => rfl, ⟨(s.runqueues c).queues prioNormal, (s.runqueues c).tails prioNormal, by simp⟩, rfl⟩

/-- One round: `p`, which is on no queue any more, joins the normal queue. -/
theorem Threaded.boostOne {s : SchedState} {K : Nat → Nat → Prop} {Q : QueueMap} {c : Nat} {p : ProcRef}
    (h : Threaded s K Q) (hk : K c prioNormal) (hoff : ∀ c' q', K c' q' → p ∉ Q c' q')
    (hcpu : (s.procs p).cpu = c) :
    Threaded (boostOne s p) K (Q.set c prioNormal (Q c prioNormal ++ [p])) ∧
      LowMoved s (· = p) (fun r => (Q c prioNormal).getLast? = some r) (boostOne s p) ∧
      NormalGrown s c [p] (boostOne s p) := by
  have htail := (h.queue hk).tail_eq
  have hcut := h.modProc_off hoff fun x => { x with priority := prioNormal, schedNext := none }
  have hself : (s.modProc p fun x => { x with priority := prioNormal, schedNext := none }).procs p =
      { s.procs p with priority := prioNormal, schedNext := none } := Function.update_self _ _ _
  have hother : ∀ r, r ≠ p →
      (s.modProc p fun x => { x with priority := prioNormal, schedNext := none }).procs r = s.procs r :=
    fun r hr => Function.update_of_ne hr _ _
  have hrq : (s.modProc p fun x => { x with priority := prioNormal, schedNext := none }).runqueues =
      s.runqueues := rfl
  have hnum : (s.modProc p fun x => { x with priority := prioNormal, schedNext := none }).numCpus =
      s.numCpus := rfl
  unfold Sched.boostOne
  generalize (s.modProc p fun x => { x with priority := prioNormal, schedNext := none }) = t at *
  have hprio' : (t.procs p).priority = prioNormal := by rw [hself]
  have hcpu' : (t.procs p).cpu = c := by rw [hself]; exact hcpu
  refine ⟨?_, ⟨?_, ?_, ?_⟩, ⟨?_, ?_, ?_⟩⟩
  · have hgrow := hcut.enqueue (by rwa [hprio', hcpu']) hoff (by rw [hprio']; decide)
    rwa [hprio', hcpu'] at hgrow
  · intro r hr
    rw [enqueueProcess_procs, hother r hr]
  · rintro r rfl
    rw [enqueueProcess_procs, hself]
  · intro r hr hj
    rw [enqueueProcess_link, hprio', hcpu', hrq, htail, if_neg hj, if_neg hr, SchedState.link, hother r hr,
      SchedState.link]
  · intro d hd
    rw [enqueueProcess_runqueues, hcpu', hrq, Function.update_of_ne hd]
  · rw [enqueueProcess_runqueues, hcpu', hprio', hrq, Function.update_self]
    by_cases ht : (s.runqueues c).tails prioNormal = none
    · exact ⟨some p, some p, by simp [ht]⟩
    · exact ⟨(s.runqueues c).queues prioNormal, some p, by simp [ht]⟩
  · rw [(enqueueProcess_edit t p).numCpus, hnum]

/-- **The loop**: what is left of the low queue moves to the end of the normal one. -/
theorem Threaded.boostWalk {s : SchedState} {K : Nat → Nat → Prop} {Q : QueueMap} {c : Nat}
    {rest : List ProcRef} {fuel : Nat} {proc : Option ProcRef} (h : Threaded s K Q) (hk : K c prioNormal)
    (hl : Linked s.link proc rest) (hoff : ∀ r ∈ rest, ∀ c' q', K c' q' → r ∉ Q c' q')
    (hcpu : ∀ r ∈ rest, (s.procs r).cpu = c) (hfuel : rest.length ≤ fuel) :
    ∃ s', boostWalk fuel proc s = some s' ∧
      Threaded s' K (Q.set c prioNormal (Q c prioNormal ++ rest)) ∧
      LowMoved s (· ∈ rest) (fun r => rest ≠ [] ∧ (Q c prioNormal).getLast? = some r) s' ∧
      NormalGrown s c rest s' := by
  induction rest generalizing s Q fuel proc with
  | nil =>
    have hnone : proc = none := hl
    refine ⟨s, ?_, ?_, LowMoved.refl s (by simp), NormalGrown.refl s c⟩
    · rw [hnone]
      cases fuel <;> rfl
    · have hset : Q.set c prioNormal (Q c prioNormal ++ []) = Q := by
        funext c' q'
        unfold QueueMap.set
        split_ifs with hcq
        · rw [hcq.1, hcq.2, List.append_nil]
        · rfl
      rwa [hset]
  | cons p rest ih =>
    have hnd := List.nodup_cons.mp hl.nodup
    obtain ⟨rfl, hl⟩ := hl
    have hne : ∀ r ∈ rest, r ≠ p := fun r hr hrp => hnd.1 (hrp ▸ hr)
    obtain ⟨hqueues, hmoved, hgrown⟩ := h.boostOne hk (hoff p (by simp)) (hcpu p (by simp))
    cases fuel with
    | zero => exact absurd hfuel (by simp)
    | succ fuel =>
      -- The links of the rest are not touched: none of it is the end of the normal queue.
      have hlink : ∀ r ∈ rest, (Sched.boostOne s p).link r = s.link r := by
        intro r hr
        refine hmoved.link r (hne r hr) fun hlast => ?_
        exact hoff r (by simp [hr]) c prioNormal hk (List.mem_of_getLast? hlast)
      have hoff' : ∀ r ∈ rest, ∀ c' q', K c' q' →
          r ∉ Q.set c prioNormal (Q c prioNormal ++ [p]) c' q' := by
        intro r hr c' q' hk' hmem
        by_cases hcq : c' = c ∧ q' = prioNormal
        · rw [hcq.1, hcq.2, QueueMap.set_self] at hmem
          rcases List.mem_append.mp hmem with hmem | hmem
          · exact hoff r (by simp [hr]) c prioNormal hk hmem
          · exact hne r hr (List.mem_singleton.mp hmem)
        · rw [Q.set_of_ne _ hcq] at hmem
          exact hoff r (by simp [hr]) c' q' hk' hmem
      obtain ⟨s', hs', hqueues', hmoved', hgrown'⟩ := @ih (Sched.boostOne s p) _ fuel (s.link p) hqueues
        (hl.congr hlink) hoff' (fun r hr => by rw [hmoved.cpu]; exact hcpu r (by simp [hr]))
        (by simpa using hfuel)
      refine ⟨s', hs', ?_, ?_, ?_, ?_, ?_⟩
      · rwa [QueueMap.set_set, QueueMap.set_self, List.append_assoc, List.singleton_append] at hqueues'
      · refine (hmoved.trans hmoved').imp (fun r => by simp) ?_
        -- From the second round on, the end that is joined is a process just moved.
        rintro r (hlast | ⟨_, hlast⟩)
        · exact Or.inr ⟨by simp, hlast⟩
        · rw [QueueMap.set_self, List.getLast?_append] at hlast
          exact Or.inl (by simp at hlast; simp [hlast])
      · intro d hd
        rw [hgrown'.others d hd, hgrown.others d hd]
      · obtain ⟨queue, tail, hrq⟩ := hgrown.here
        obtain ⟨queue', tail', hrq'⟩ := hgrown'.here
        refine ⟨queue', tail', ?_⟩
        rw [hrq', hrq]
        by_cases hr : rest = []
        · simp [hr]
        · simp [hr, BitVec.or_assoc]
      · rw [hgrown'.numCpus, hgrown.numCpus]

/-! ## All the CPUs -/

/-- The queues after a boost of every CPU. -/
def QueueMap.boosted (Q : QueueMap) : QueueMap := fun c q =>
  if q = prioNormal then Q c prioNormal ++ Q c prioLow else if q = prioLow then [] else Q c q

theorem QueueMap.boost_self (Q : QueueMap) (c : Nat) : Q.boost c c = Q.boosted c := by
  funext q
  unfold QueueMap.boost QueueMap.boosted QueueMap.set
  by_cases hn : q = prioNormal
  · subst hn
    simp [prioNormal, prioLow]
  · by_cases hl : q = prioLow
    · subst hl
      simp [prioNormal, prioLow]
    · simp [hn, hl]

theorem QueueMap.boost_of_ne (Q : QueueMap) {c d : Nat} (hd : d ≠ c) : Q.boost c d = Q d := by
  funext q
  unfold QueueMap.boost QueueMap.set
  simp [hd]

@[simp] theorem SchedState.modRq_link (s : SchedState) (c : Nat) (g : Runqueue → Runqueue) :
    (s.modRq c g).link = s.link := rfl

/-- One CPU. Its low queue is emptied under the walk, so the walk runs over the others. -/
theorem Runqueues.boostCpu {s : SchedState} {C : Nat → Prop} {Q : QueueMap} {c : Nat}
    (h : Runqueues s C Q) (hc : C c) (hcpu : ∀ p ∈ Q c prioLow, (s.procs p).cpu = c) :
    ∃ s', boostCpu s c = some s' ∧ Runqueues s' C (Q.boost c) ∧
      LowMoved s (· ∈ Q c prioLow) (fun r => Q c prioLow ≠ [] ∧ (Q c prioNormal).getLast? = some r) s' ∧
      (∀ d, d ≠ c → s'.runqueues d = s.runqueues d) ∧
      (s'.runqueues c).queueBitmap =
        (if Q c prioLow = [] then (s.runqueues c).queueBitmap
          else (s.runqueues c).queueBitmap ||| (1#32 <<< prioNormal)) ∧
      s'.numCpus = s.numCpus := by
  have hkl : C c ∧ prioLow < schedQueues := ⟨hc, by decide⟩
  have hlow := h.threaded.queue hkl
  have hbut : Threaded s (fun d q => (C d ∧ q < schedQueues) ∧ ¬(d = c ∧ q = prioLow)) Q :=
    h.threaded.mono fun d q hk => hk.1
  have hnormal : (C c ∧ prioNormal < schedQueues) ∧ ¬(c = c ∧ prioNormal = prioLow) :=
    ⟨⟨hc, by decide⟩, by simp [prioNormal, prioLow]⟩
  have hoff : ∀ r ∈ Q c prioLow, ∀ d q, (C d ∧ q < schedQueues) ∧ ¬(d = c ∧ q = prioLow) → r ∉ Q d q := by
    intro r hr d q hk hr'
    exact hk.2 (h.threaded.apart hkl hk.1 hr hr')
  obtain ⟨t, ht, hqueues, hmoved, hgrown⟩ := hbut.boostWalk hnormal hlow.linked hoff hcpu
    (length_le_maxProcesses hlow.nodup)
  obtain ⟨queue, tail, hrq⟩ := hgrown.here
  unfold Sched.boostCpu
  rw [ht]
  refine ⟨_, rfl, ⟨⟨?_, ?_, ?_⟩, ?_⟩, ⟨hmoved.others, hmoved.boosted, hmoved.link⟩, ?_, ?_, hgrown.numCpus⟩
  · -- the low queue is empty now, and the walk has threaded the others
    intro d q hk
    by_cases hdq : d = c ∧ q = prioLow
    · obtain ⟨rfl, rfl⟩ := hdq
      unfold QueueMap.boost
      simp only [QueueMap.set_self, SchedState.modRq_runqueues, Function.update_self]
      exact TailQueue.empty
    · unfold QueueMap.boost
      rw [QueueMap.set_of_ne _ _ hdq]
      have hqueue := hqueues.queue ⟨hk, hdq⟩
      by_cases hd : d = c
      · have hq : q ≠ prioLow := fun hq => hdq ⟨hd, hq⟩
        simpa [hd, Function.update_of_ne hq] using hqueue
      · simpa [Function.update_of_ne hd] using hqueue
  · intro d q hk hne
    by_cases hdq : d = c ∧ q = prioLow
    · rw [hdq.1, hdq.2] at hne
      simp [QueueMap.boost] at hne
    · unfold QueueMap.boost at hne
      rw [QueueMap.set_of_ne _ _ hdq] at hne
      have hbit := hqueues.bit ⟨hk, hdq⟩ hne
      by_cases hd : d = c
      · subst hd
        simpa using hbit
      · simpa [Function.update_of_ne hd] using hbit
  · -- nobody is on two queues: what was boosted is on the normal one instead of the low one
    intro d q d' q' p hk hk' hp hp'
    have hmem : ∀ d q, p ∈ Q.boost c d q →
        ¬(d = c ∧ q = prioLow) ∧ p ∈ Q.set c prioNormal (Q c prioNormal ++ Q c prioLow) d q := by
      intro d q hpd
      unfold QueueMap.boost at hpd
      by_cases hdq : d = c ∧ q = prioLow
      · rw [hdq.1, hdq.2, QueueMap.set_self] at hpd
        exact absurd hpd List.not_mem_nil
      · rw [QueueMap.set_of_ne _ _ hdq] at hpd
        exact ⟨hdq, hpd⟩
    exact hqueues.apart ⟨hk, (hmem d q hp).1⟩ ⟨hk', (hmem d' q' hp').1⟩ (hmem d q hp).2 (hmem d' q' hp').2
  · intro d hd i hi
    by_cases hdc : d = c
    · have hin : i ≠ prioNormal := Nat.ne_of_gt (Nat.lt_of_lt_of_le (by decide) hi)
      have hbit := h.bounded hc i hi
      rw [hdc, SchedState.modRq_runqueues, Function.update_self, hrq]
      by_cases hl : Q c prioLow = []
      · simpa [hl] using hbit
      · simp only [hl, if_false, getLsbD_or_shift, hbit]
        simp [hin]
    · rw [SchedState.modRq_runqueues, Function.update_of_ne hdc, hgrown.others d hdc]
      exact h.bounded hd i hi
  · intro d hd
    rw [SchedState.modRq_runqueues, Function.update_of_ne hd, hgrown.others d hd]
  · rw [SchedState.modRq_runqueues, Function.update_self, hrq]

/-- The processes that a boost of the CPUs `C` moves, and the ends they are appended to. -/
def OnLow (Q : QueueMap) (C : Nat → Prop) (r : ProcRef) : Prop := ∃ c, C c ∧ r ∈ Q c prioLow

def EndsNormal (Q : QueueMap) (C : Nat → Prop) (r : ProcRef) : Prop :=
  ∃ c, C c ∧ Q c prioLow ≠ [] ∧ (Q c prioNormal).getLast? = some r

/-- **The loop over the CPUs**, each of which is visited once. -/
theorem Runqueues.boostCpus {s : SchedState} {C : Nat → Prop} {Q : QueueMap} {cpus : List Nat}
    (h : Runqueues s C Q) (hnd : cpus.Nodup) (hC : ∀ c ∈ cpus, C c)
    (hcpu : ∀ c ∈ cpus, ∀ p ∈ Q c prioLow, (s.procs p).cpu = c) :
    ∃ s', cpus.foldlM Sched.boostCpu s = some s' ∧
      Runqueues s' C (fun c => if c ∈ cpus then Q.boosted c else Q c) ∧
      LowMoved s (OnLow Q (· ∈ cpus)) (EndsNormal Q (· ∈ cpus)) s' ∧
      (∀ d, d ∉ cpus → s'.runqueues d = s.runqueues d) ∧
      (∀ c ∈ cpus, (s'.runqueues c).queueBitmap =
        if Q c prioLow = [] then (s.runqueues c).queueBitmap
        else (s.runqueues c).queueBitmap ||| (1#32 <<< prioNormal)) ∧
      s'.numCpus = s.numCpus := by
  induction cpus generalizing s Q with
  | nil =>
    exact ⟨s, rfl, by simpa using h, LowMoved.refl s (by simp [OnLow]), fun _ _ => rfl, by simp, rfl⟩
  | cons c cpus ih =>
    obtain ⟨hc, hnd⟩ := List.nodup_cons.mp hnd
    obtain ⟨t, ht, hqueues, hmoved, hother, hbits, hnum⟩ := h.boostCpu (hC c (by simp)) (hcpu c (by simp))
    have hne : ∀ d ∈ cpus, d ≠ c := fun d hd hdc => hc (hdc ▸ hd)
    -- The queues of the CPUs still to come are the old ones.
    have hQ : ∀ d ∈ cpus, Q.boost c d = Q d := fun d hd => Q.boost_of_ne (hne d hd)
    obtain ⟨s', hs', hqueues', hmoved', hother', hbits', hnum'⟩ := ih hqueues hnd
      (fun d hd => hC d (by simp [hd])) (fun d hd p hp => by
        rw [hQ d hd] at hp
        rw [hmoved.cpu]
        exact hcpu d (by simp [hd]) p hp)
    refine ⟨s', ?_, ?_, ?_, ?_, ?_, hnum'.trans hnum⟩
    · rw [List.foldlM_cons, ht]
      exact hs'
    · have hmap : (fun d => if d ∈ cpus then (Q.boost c).boosted d else Q.boost c d) =
          fun d => if d ∈ c :: cpus then Q.boosted d else Q d := by
        funext d
        by_cases hd : d ∈ cpus
        · rw [if_pos hd, if_pos (by simp [hd])]
          funext q
          unfold QueueMap.boosted
          rw [hQ d hd]
        · by_cases hdc : d = c
          · rw [if_neg hd, if_pos (by simp [hdc]), hdc, QueueMap.boost_self]
          · rw [if_neg hd, if_neg (by simp [hd, hdc]), Q.boost_of_ne hdc]
      rwa [hmap] at hqueues'
    · refine (hmoved.trans hmoved').imp ?_ ?_
      · intro r
        constructor
        · rintro ⟨d, hd, hr⟩
          rcases List.mem_cons.mp hd with rfl | hd
          · exact Or.inl hr
          · exact Or.inr ⟨d, hd, by rwa [hQ d hd]⟩
        · rintro (hr | ⟨d, hd, hr⟩)
          · exact ⟨c, by simp, hr⟩
          · exact ⟨d, by simp [hd], by rwa [hQ d hd] at hr⟩
      · rintro r (⟨hl, hlast⟩ | ⟨d, hd, hl, hlast⟩)
        · exact Or.inr ⟨c, by simp, hl, hlast⟩
        · rw [hQ d hd] at hl hlast
          exact Or.inr ⟨d, by simp [hd], hl, hlast⟩
    · intro d hd
      rw [List.mem_cons, not_or] at hd
      rw [hother' d hd.2, hother d hd.1]
    · intro d hd
      rcases List.mem_cons.mp hd with rfl | hd
      · rw [hother' d hc, hbits]
      · rw [hbits' d hd, hQ d hd, hother d (hne d hd)]

/-- The bit of the queue is set exactly when it has an element. -/
def ExactBit (s : SchedState) (Q : QueueMap) (c q : Nat) : Prop :=
  (s.runqueues c).queueBitmap.getLsbD q = true ↔ Q c q ≠ []

/-- **`priority_boost` appends every low queue to the normal one**, in order. Everything
    that moves becomes a normal process; the other queues, and the links of all processes
    but the moved ones and the old ends of the normal queues, are as before. The queues
    are well formed again, and no bit but that of the low queue becomes stale. -/
theorem priorityBoost_appends {s : SchedState} {Q : QueueMap} (h : Runqueues s (· < s.numCpus) Q)
    (hcpu : ∀ c, c < s.numCpus → ∀ p ∈ Q c prioLow, (s.procs p).cpu = c) :
    ∃ s', priorityBoost s = some s' ∧ Runqueues s' (· < s.numCpus) Q.boosted ∧
      LowMoved s (OnLow Q (· < s.numCpus)) (EndsNormal Q (· < s.numCpus)) s' ∧
      (∀ c q, c < s.numCpus → q ≠ prioLow → ExactBit s Q c q → ExactBit s' Q.boosted c q) ∧
      ∀ d, s.numCpus ≤ d → s'.runqueues d = s.runqueues d := by
  obtain ⟨s', hs', hqueues, hmoved, hother, hbits, hnum⟩ := h.boostCpus (List.nodup_range (n := s.numCpus))
    (fun c hc => List.mem_range.mp hc) fun c hc => hcpu c (List.mem_range.mp hc)
  simp only [List.mem_range] at hqueues hmoved hother hbits
  refine ⟨s', hs', ⟨⟨?_, ?_, ?_⟩, hqueues.bounded⟩, hmoved, ?_, fun d hd => hother d (Nat.not_lt.mpr hd)⟩
  · intro c q hk
    simpa [hk.1] using hqueues.threaded.queue hk
  · intro c q hk
    simpa [hk.1] using hqueues.threaded.bit hk
  · intro c q c' q' p hk hk' hp hp'
    exact hqueues.threaded.apart hk hk' (by simpa [hk.1] using hp) (by simpa [hk'.1] using hp')
  · intro c q hc hq hexact
    unfold ExactBit at hexact ⊢
    rw [hbits c hc]
    by_cases hl : Q c prioLow = []
    · rw [if_pos hl, hexact]
      unfold QueueMap.boosted
      by_cases hn : q = prioNormal <;> simp [hn, hq, hl]
    · rw [if_neg hl]
      simp only [getLsbD_or_shift, Bool.or_eq_true, hexact]
      unfold QueueMap.boosted
      by_cases hn : q = prioNormal
      · simp [hn, hl, prioNormal]
      · simp [hn, hq]

/-- Processes 2 and 3 line up behind 0 and 1. -/
theorem priorityBoost_appends_twoQueues :
    ∃ s', priorityBoost twoQueues = some s' ∧ Runqueues s' (· < 1) twoQueuesLists.boosted ∧
      twoQueuesLists.boosted 0 prioNormal = [0, 1, 2, 3] := by
  obtain ⟨s', hs', hqueues, _⟩ := priorityBoost_appends twoQueues_runqueues (fun c hc p _ => by
    have h1 : c < 1 := hc
    exact (Nat.lt_one_iff.mp h1).symm)
  exact ⟨s', hs', hqueues, rfl⟩

end Crimson.Sched
