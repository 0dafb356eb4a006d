import Mathlib.Logic.Equiv.Basic
import Crimson.Sync.Threads

/-!
# The cycles of a barrier

Any number of processes call `barrier_wait` on one barrier, step by step: the section, the
`scheduler_yield` of a process that is not the last to arrive, the return from it, and the
loop of the last arrival, which takes the processes off the list it has found and gives
them to the scheduler one by one. The next cycle starts while that loop is still going on,
so several last arrivals can be in their loops at once, each with a list of its own.

A cycle has a number here, counted without the wrap-around of the field `cycle`. A process
that has slept in a cycle is either still ahead of somebody who will wake it, or has been
woken, once (`BarrierCycles`). A process that is run again before it is woken breaks this:
it leaves the barrier early, and can arrive once more while it is still on a list.
-/

set_option autoImplicit false

namespace Crimson.Sync

open Crimson.Lib
open Crimson.Sched

/-- Where a process is in `barrier_wait`. Behind the section it knows the number of its cycle. -/
inductive BarrierPc where
  | outside
  | arrive
  /-- Not the last arrival: the yield, the return. -/
  | sleepYield (k : Nat)
  | sleepBack (k : Nat)
  /-- The last arrival, with the rest of its list: the loop, and the hand-over of `p`. -/
  | wakeLoop (k : Nat) (list : Option ProcRef)
  | wakeAdd (k : Nat) (p : ProcRef) (list : Option ProcRef)
deriving DecidableEq, Repr

/-- The barrier; the number of the current cycle; for every cycle the calls that have arrived
    in it; which processes have slept in which cycle, and which have been given to
    `scheduler_add_process` for which; and the cycles of the calls that have returned. -/
structure BarrierUse where
  barrier : Barrier
  round : Nat
  arrived : Nat → Nat
  slept : List (ProcRef × Nat)
  woken : List (ProcRef × Nat)
  returned : List Nat

def BarrierUse.countArrival (x : BarrierUse) : BarrierUse :=
  { x with arrived := Function.update x.arrived x.round (x.arrived x.round + 1) }

def barrierNext (p : ProcRef) (cpu : Nat) :
    BarrierPc → SchedState → BarrierUse → Option (BarrierPc × SchedState × BarrierUse)
  | .outside, _, _ => none
  | .arrive, s, x =>
    match barrierArrive s x.barrier p with
    | (.last waiters, s, b) =>
      some (.wakeLoop x.round waiters, s, { x.countArrival with barrier := b, round := x.round + 1 })
    | (.sleep, s, b) =>
      some (.sleepYield x.round, s, { x.countArrival with barrier := b, slept := (p, x.round) :: x.slept })
  | .sleepYield k, s, x => some (.sleepBack k, schedulerYield s cpu, x)
  | .sleepBack k, s, x => some (.outside, s, { x with returned := k :: x.returned })
  | .wakeLoop k none, s, x => some (.outside, s, { x with returned := k :: x.returned })
  | .wakeLoop k (some w), s, x => some (.wakeAdd k w (s.procs w).wqNext, releaseWaiter s w, x)
  | .wakeAdd k w next, s, x => some (.wakeLoop k next, schedulerAddProcess s w, { x with woken := (w, k) :: x.woken })

/-- The only call is `barrier_wait`. -/
def barrierCode : Code BarrierUse BarrierPc Unit where
  outside := .outside
  entry := fun _ => .arrive
  next := barrierNext

abbrev BarrierThreads := Threads BarrierUse BarrierPc

/-- A barrier after `barrier_init`, on whatever the scheduler is doing. -/
def barrierStart (s : SchedState) (count : UInt32) : BarrierThreads where
  sched := s
  obj := ⟨barrierInit count, 0, fun _ => 0, [], [], []⟩
  pc := fun _ => .outside

/-! ## What is still to be woken -/

/-- Processes of one cycle that are still to be woken: one in hand, and a list. -/
structure WakeList where
  cycle : Nat
  inHand : Option ProcRef
  list : Option ProcRef

/-- The process is the last arrival of cycle `k`, in its loop. -/
def BarrierPc.Wakes (pc : BarrierPc) (k : Nat) : Prop :=
  (∃ list, pc = .wakeLoop k list) ∨ ∃ p list, pc = .wakeAdd k p list

def BarrierPc.wakeList : BarrierPc → WakeList
  | .wakeLoop k list => ⟨k, none, list⟩
  | .wakeAdd k p list => ⟨k, some p, list⟩
  | _ => ⟨0, none, none⟩

/-- What the barrier itself (`none`) or a process has still to wake. -/
def wakeList (x : BarrierThreads) : Option ProcRef → WakeList
  | none => ⟨x.obj.round, none, x.obj.barrier.waiters⟩
  | some p => (x.pc p).wakeList

def WakeList.Is (w : WakeList) (s : SchedState) (l : List ProcRef) : Prop :=
  ∃ t, Linked (waitLink s) w.list t ∧ l = w.inHand.toList ++ t

/-- The process sleeps in cycle `k` and nobody has woken it yet: it is on the barrier's list, or
    ahead of the last arrival of its cycle. -/
def Ahead (x : BarrierThreads) (k : Nat) (p : ProcRef) : Prop :=
  ∃ i l, (wakeList x i).Is x.sched l ∧ (wakeList x i).cycle = k ∧ p ∈ l

/-- What a barrier for `n` processes promises. -/
structure BarrierCycles (n : Nat) (x : BarrierThreads) : Prop where
  cycle : x.obj.barrier.cycle = UInt32.ofNat x.obj.round
  returned : ∀ k ∈ x.obj.returned, n ≤ x.obj.arrived k
  once : ∀ p k, (p, k) ∈ x.obj.slept →
    (Ahead x k p ∧ x.obj.woken.count (p, k) = 0) ∨ (¬Ahead x k p ∧ x.obj.woken.count (p, k) = 1)
  /-- The cycle is over and its last arrival has left the loop. -/
  all : ∀ p k, (p, k) ∈ x.obj.slept → k ≠ x.obj.round → (∀ q, ¬(x.pc q).Wakes k) → x.obj.woken.count (p, k) = 1
  only : ∀ e ∈ x.obj.woken, e ∈ x.obj.slept
  /-- Every loop of a last arrival ends. -/
  ends : ∀ i, ∃ l, (wakeList x i).Is x.sched l

/-- A process that comes back from its `scheduler_yield` has been woken. -/
def BarrierGuard (x : BarrierThreads) (p : ProcRef) : Prop :=
  ∀ k, x.pc p = .sleepBack k → ¬Ahead x k p

/-! ## The invariant -/

/-- Asleep in cycle `k`, or back from it. -/
def BarrierPc.Asleep (pc : BarrierPc) (k : Nat) : Prop := pc = .sleepYield k ∨ pc = .sleepBack k

/-- The process is on one of the lists `C`, for cycle `k`. -/
def Pending (x : BarrierThreads) (C : Option ProcRef → List ProcRef) (k : Nat) (p : ProcRef) : Prop :=
  ∃ i, (wakeList x i).cycle = k ∧ p ∈ C i

/-- `C` are the lists of what is still to be woken. -/
structure BarrierInv (n : UInt32) (x : BarrierThreads) (C : Option ProcRef → List ProcRef) : Prop where
  lists : ∀ i, (wakeList x i).Is x.sched (C i)
  nodup : ∀ i, (C i).Nodup
  apart : ∀ i j p, p ∈ C i → p ∈ C j → i = j
  member : ∀ i p, p ∈ C i → (x.pc p).Asleep (wakeList x i).cycle
  asleep : ∀ p k, (x.pc p).Asleep k → (p, k) ∈ x.obj.slept
  once : ∀ p k, (p, k) ∈ x.obj.slept →
    (Pending x C k p ∧ x.obj.woken.count (p, k) = 0) ∨
      (¬Pending x C k p ∧ k < x.obj.round ∧ x.obj.woken.count (p, k) = 1)
  only : ∀ e ∈ x.obj.woken, e ∈ x.obj.slept
  wakes : ∀ p k, (x.pc p).Wakes k → k < x.obj.round
  target : x.obj.barrier.target = n
  current : (C none).length = x.obj.barrier.current.toNat ∧ x.obj.arrived x.obj.round = x.obj.barrier.current.toNat
  notFull : x.obj.barrier.current.toNat < n.toNat
  past : ∀ k, k < x.obj.round → n.toNat ≤ x.obj.arrived k
  future : ∀ k, x.obj.round < k → x.obj.arrived k = 0
  returned : ∀ k ∈ x.obj.returned, k < x.obj.round
  cycle : x.obj.barrier.cycle = UInt32.ofNat x.obj.round

section

variable {n : UInt32} {x : BarrierThreads} {C : Option ProcRef → List ProcRef} {p : ProcRef} {k : Nat}

theorem WakeList.Is.unique {w : WakeList} {s : SchedState} {l l' : List ProcRef} (h : w.Is s l) (h' : w.Is s l') :
    l = l' := by
  obtain ⟨t, ht, rfl⟩ := h
  obtain ⟨t', ht', rfl⟩ := h'
  rw [Linked.unique ht ht']

theorem BarrierInv.ahead_iff (h : BarrierInv n x C) : Ahead x k p ↔ Pending x C k p := by
  constructor
  · rintro ⟨i, l, hl, hk, hp⟩
    exact ⟨i, hk, hl.unique (h.lists i) ▸ hp⟩
  · rintro ⟨i, hk, hp⟩
    exact ⟨i, C i, h.lists i, hk, hp⟩

theorem BarrierInv.cycles (h : BarrierInv n x C) : BarrierCycles n.toNat x where
  cycle := h.cycle
  returned := fun k hk => h.past k (h.returned k hk)
  once := by
    intro p k hslept
    rw [h.ahead_iff]
    exact (h.once p k hslept).imp_right fun hdone => ⟨hdone.1, hdone.2.2⟩
  all := by
    intro p k hslept hround hwakes
    refine ((h.once p k hslept).resolve_left ?_).2.2
    rintro ⟨⟨i, hi, hp⟩, -⟩
    cases i with
    | none => exact hround hi.symm
    | some q =>
      obtain ⟨t, ht, hC⟩ := h.lists (some q)
      have hnot := hwakes q
      cases hpc : x.pc q with
      | wakeLoop k' list =>
        rw [wakeList, hpc] at hi
        exact hnot (Or.inl ⟨list, hpc.trans (congrArg (BarrierPc.wakeLoop · list) hi)⟩)
      | wakeAdd k' w list =>
        rw [wakeList, hpc] at hi
        exact hnot (Or.inr ⟨w, list, hpc.trans (congrArg (BarrierPc.wakeAdd · w list) hi)⟩)
      | _ =>
        rw [wakeList, hpc] at ht
        rw [hC, wakeList, hpc, Linked.eq_nil_iff ht |>.mp rfl] at hp
        exact List.not_mem_nil hp
  only := h.only
  ends := fun i => ⟨C i, h.lists i⟩

theorem barrierStart_inv (s : SchedState) (hn : n ≠ 0) : BarrierInv n (barrierStart s n) fun _ => [] where
  lists := by
    intro i
    cases i with
    | none => exact ⟨[], rfl, rfl⟩
    | some p => exact ⟨[], rfl, rfl⟩
  nodup := fun _ => List.nodup_nil
  apart := by simp
  member := by simp
  asleep := by simp [barrierStart, BarrierPc.Asleep]
  once := by simp [barrierStart]
  only := by simp [barrierStart]
  wakes := by simp [barrierStart, BarrierPc.Wakes]
  target := rfl
  current := ⟨rfl, rfl⟩
  notFull := Nat.pos_of_ne_zero fun hzero => hn (UInt32.toNat_inj.mp hzero)
  past := fun k hk => absurd hk (Nat.not_lt_zero k)
  future := fun _ _ => rfl
  returned := by simp [barrierStart]
  cycle := rfl

theorem wakeList_moves_self (dest : BarrierPc × SchedState × BarrierUse) :
    wakeList (x.moves p dest) (some p) = dest.1.wakeList :=
  congrArg BarrierPc.wakeList (x.moves_pc p dest)

theorem wakeList_moves_ne {q : ProcRef} (hq : q ≠ p) (dest : BarrierPc × SchedState × BarrierUse) :
    wakeList (x.moves p dest) (some q) = wakeList x (some q) :=
  congrArg BarrierPc.wakeList (x.moves_pc_ne hq dest)

/-- A step that leaves the barrier alone changes at most the list of the process itself. -/
theorem wakeList_moves {dest : BarrierPc × SchedState × BarrierUse} (hround : dest.2.2.round = x.obj.round)
    (hwaiters : dest.2.2.barrier.waiters = x.obj.barrier.waiters) {i : Option ProcRef} (hi : i ≠ some p) :
    wakeList (x.moves p dest) i = wakeList x i := by
  cases i with
  | none => simp [wakeList, hround, hwaiters]
  | some q => exact wakeList_moves_ne (fun hq => hi (congrArg some hq)) dest

/-- The lists do not depend on the links of other processes. -/
theorem WakeList.Is.congr {w : WakeList} {s s' : SchedState} {l : List ProcRef} (h : w.Is s l)
    (hs : ∀ q ∈ l, waitLink s' q = waitLink s q) : w.Is s' l := by
  obtain ⟨t, ht, rfl⟩ := h
  refine ⟨t, ht.congr fun q hq => ?_, rfl⟩
  exact hs q (List.mem_append_right _ hq)

theorem BarrierInv.notMem (h : BarrierInv n x C) (hp : ∀ k, ¬(x.pc p).Asleep k) (i : Option ProcRef) : p ∉ C i :=
  fun hmem => hp _ (h.member i p hmem)

/-- A process that is in no loop has nobody to wake. -/
theorem BarrierInv.idle (h : BarrierInv n x C) (hpc : (x.pc p).wakeList.list = none ∧ (x.pc p).wakeList.inHand = none) :
    C (some p) = [] := by
  obtain ⟨t, ht, hC⟩ := h.lists (some p)
  rw [wakeList, hpc.1] at ht
  rw [hC, wakeList, hpc.2, Linked.eq_nil_iff ht |>.mp rfl]
  rfl

/-- A step of a process that has nobody to wake, before and after it, and does not touch the
    barrier. -/
theorem BarrierInv.goes (h : BarrierInv n x C) {pc : BarrierPc} {s : SchedState} {returned : List Nat}
    (hs : waitLink s = waitLink x.sched) (hlist : C (some p) = []) (hpc : pc.wakeList = ⟨0, none, none⟩)
    (hwakes : ∀ k, ¬pc.Wakes k) (hold : ∀ k, pc.Asleep k → (x.pc p).Asleep k)
    (hkeep : ∀ i, p ∈ C i → pc.Asleep (wakeList x i).cycle) (hreturned : ∀ k ∈ returned, k < x.obj.round) :
    BarrierInv n (x.moves p (pc, s, { x.obj with returned := returned })) C := by
  have hsame : ∀ i, i ≠ some p → wakeList (x.moves p (pc, s, { x.obj with returned := returned })) i = wakeList x i :=
    fun i hi => wakeList_moves rfl rfl hi
  have hne : ∀ {i q}, q ∈ C i → i ≠ some p := by
    rintro i q hq rfl
    rw [hlist] at hq
    exact List.not_mem_nil hq
  have hpending : ∀ k q, Pending (x.moves p (pc, s, { x.obj with returned := returned })) C k q ↔ Pending x C k q := by
    intro k q
    refine exists_congr fun i => ?_
    constructor
    · rintro ⟨hi, hq⟩
      exact ⟨hsame i (hne hq) ▸ hi, hq⟩
    · rintro ⟨hi, hq⟩
      exact ⟨(hsame i (hne hq)).symm ▸ hi, hq⟩
  refine { h with
    lists := ?_
    member := ?_
    asleep := ?_
    once := ?_
    wakes := ?_
    returned := hreturned }
  · intro i
    by_cases hi : i = some p
    · rw [hi, hlist, wakeList_moves_self, hpc]
      exact ⟨[], rfl, rfl⟩
    · rw [hsame i hi]
      exact (h.lists i).congr fun q _ => congrFun hs q
  · intro i q hq
    rw [hsame i (hne hq)]
    exact Threads.moves_forall (fun q (pc : BarrierPc) => q ∈ C i → pc.Asleep (wakeList x i).cycle) (hkeep i)
      (fun q _ => h.member i q) q hq
  · exact Threads.moves_forall (fun q (pc : BarrierPc) => ∀ k, pc.Asleep k → (q, k) ∈ x.obj.slept)
      (fun k hk => h.asleep p k (hold k hk)) fun q _ => h.asleep q
  · intro q k hslept
    rw [hpending k q]
    exact h.once q k hslept
  · exact Threads.moves_forall (fun _ (pc : BarrierPc) => ∀ k, pc.Wakes k → k < x.obj.round)
      (fun k hk => absurd hk (hwakes k)) fun q _ => h.wakes q

/-! ### What a step of one process leaves of the others -/

variable {dest : BarrierPc × SchedState × BarrierUse} {C' : Option ProcRef → List ProcRef}

/-- Whoever is on a list after a step was on one of the same cycle before it, or is `p`. -/
theorem BarrierInv.member_moves (h : BarrierInv n x C)
    (hself : ∀ i, p ∈ C' i → dest.1.Asleep (wakeList (x.moves p dest) i).cycle)
    (hfrom : ∀ i q, q ≠ p → q ∈ C' i → ∃ j, q ∈ C j ∧ (wakeList x j).cycle = (wakeList (x.moves p dest) i).cycle)
    (i : Option ProcRef) (q : ProcRef) (hq : q ∈ C' i) :
    ((x.moves p dest).pc q).Asleep (wakeList (x.moves p dest) i).cycle := by
  by_cases hqp : q = p
  · subst hqp
    rw [Threads.moves_pc]
    exact hself i hq
  · obtain ⟨j, hj, hcycle⟩ := hfrom i q hqp hq
    rw [x.moves_pc_ne hqp, ← hcycle]
    exact h.member j q hj

theorem BarrierInv.asleep_moves (h : BarrierInv n x C) (hself : ∀ k, dest.1.Asleep k → (p, k) ∈ dest.2.2.slept)
    (hslept : ∀ e ∈ x.obj.slept, e ∈ dest.2.2.slept) :
    ∀ q k, ((x.moves p dest).pc q).Asleep k → (q, k) ∈ (x.moves p dest).obj.slept :=
  Threads.moves_forall (fun q (pc : BarrierPc) => ∀ k, pc.Asleep k → (q, k) ∈ dest.2.2.slept) hself
    fun q _ k hk => hslept _ (h.asleep q k hk)

theorem BarrierInv.wakes_moves (h : BarrierInv n x C) (hself : ∀ k, dest.1.Wakes k → k < dest.2.2.round)
    (hround : x.obj.round ≤ dest.2.2.round) :
    ∀ q k, ((x.moves p dest).pc q).Wakes k → k < (x.moves p dest).obj.round :=
  Threads.moves_forall (fun _ (pc : BarrierPc) => ∀ k, pc.Wakes k → k < dest.2.2.round) hself
    fun q _ k hk => Nat.lt_of_lt_of_le (h.wakes q k hk) hround

theorem arrived_countArrival (y : BarrierUse) (k : Nat) :
    y.countArrival.arrived k = if k = y.round then y.arrived y.round + 1 else y.arrived k := by
  simp only [BarrierUse.countArrival, Function.update_apply]

@[simp] theorem round_countArrival (y : BarrierUse) : y.countArrival.round = y.round := rfl

/-! ### A process that is not the last to arrive queues itself -/

/-- Where the step leads. -/
def arrivesAsleep (x : BarrierThreads) (p : ProcRef) : BarrierPc × SchedState × BarrierUse :=
  (.sleepYield x.obj.round, linkWaiter x.sched x.obj.barrier.waiters p,
    { x.obj.countArrival with
      barrier := { x.obj.barrier with current := x.obj.barrier.current + 1, waiters := some p }
      slept := (p, x.obj.round) :: x.obj.slept })

theorem wakeList_asleep_some (hp : x.pc p = .arrive) (q : ProcRef) :
    wakeList (x.moves p (arrivesAsleep x p)) (some q) = wakeList x (some q) := by
  by_cases hq : q = p
  · rw [hq, wakeList_moves_self, wakeList, hp]
    rfl
  · exact wakeList_moves_ne hq _

theorem wakeList_asleep_cycle (hp : x.pc p = .arrive) (i : Option ProcRef) :
    (wakeList (x.moves p (arrivesAsleep x p)) i).cycle = (wakeList x i).cycle := by
  cases i with
  | none => rfl
  | some q => rw [wakeList_asleep_some hp]

theorem mem_update_none {i : Option ProcRef} {q : ProcRef} :
    q ∈ Function.update C none (p :: C none) i ↔ (i = none ∧ q = p) ∨ q ∈ C i := by
  cases i with
  | none => simp
  | some r => simp

theorem pending_asleep (hp : x.pc p = .arrive) {q : ProcRef} :
    Pending (x.moves p (arrivesAsleep x p)) (Function.update C none (p :: C none)) k q ↔
      (q, k) = (p, x.obj.round) ∨ Pending x C k q := by
  unfold Pending
  simp only [wakeList_asleep_cycle hp, mem_update_none]
  constructor
  · rintro ⟨i, rfl, ⟨rfl, rfl⟩ | hq⟩
    · exact Or.inl rfl
    · exact Or.inr ⟨i, rfl, hq⟩
  · rintro (heq | ⟨i, hi, hq⟩)
    · obtain ⟨rfl, rfl⟩ := Prod.mk.inj heq
      exact ⟨none, rfl, Or.inl ⟨rfl, rfl⟩⟩
    · exact ⟨i, hi, Or.inr hq⟩

theorem BarrierInv.sleeps_lists (h : BarrierInv n x C) (hp : x.pc p = .arrive) (i : Option ProcRef) :
    (wakeList (x.moves p (arrivesAsleep x p)) i).Is (x.moves p (arrivesAsleep x p)).sched
      (Function.update C none (p :: C none) i) := by
  have hpC := h.notMem (p := p) (by simp [hp, BarrierPc.Asleep])
  cases i with
  | none =>
    obtain ⟨t, ht, hC⟩ := h.lists none
    have hC : C none = t := hC
    rw [Function.update_self, hC]
    exact ⟨p :: t, linked_linkWaiter ht (hC ▸ hpC none), rfl⟩
  | some q =>
    rw [Function.update_of_ne (Option.some_ne_none q), wakeList_asleep_some hp]
    refine (h.lists (some q)).congr fun r hr => ?_
    have hrp : r ≠ p := fun heq => hpC (some q) (heq ▸ hr)
    rw [Threads.moves_sched, arrivesAsleep, linkWaiter_waitLink, Function.update_of_ne hrp]

theorem BarrierInv.sleeps_once (h : BarrierInv n x C) (hp : x.pc p = .arrive) {q : ProcRef}
    (hslept : (q, k) ∈ (p, x.obj.round) :: x.obj.slept) :
    (Pending (x.moves p (arrivesAsleep x p)) (Function.update C none (p :: C none)) k q ∧
        x.obj.woken.count (q, k) = 0) ∨
      (¬Pending (x.moves p (arrivesAsleep x p)) (Function.update C none (p :: C none)) k q ∧ k < x.obj.round ∧
        x.obj.woken.count (q, k) = 1) := by
  have hpC := h.notMem (p := p) (by simp [hp, BarrierPc.Asleep])
  rw [pending_asleep hp]
  by_cases hnew : (q, k) = (p, x.obj.round)
  · -- The process has not slept in this cycle before, so nobody has woken it for it.
    have hfresh : (q, k) ∉ x.obj.slept := by
      obtain ⟨rfl, rfl⟩ := Prod.mk.inj hnew
      intro hold
      rcases h.once q x.obj.round hold with ⟨⟨i, -, hi⟩, -⟩ | ⟨-, hlt, -⟩
      · exact hpC i hi
      · exact Nat.lt_irrefl _ hlt
    exact Or.inl ⟨Or.inl hnew, List.count_eq_zero.mpr fun hmem => hfresh (h.only _ hmem)⟩
  · rw [or_iff_right hnew]
    exact h.once q k (List.mem_of_ne_of_mem hnew hslept)

theorem BarrierInv.sleeps (h : BarrierInv n x C) (hp : x.pc p = .arrive)
    (hmore : (x.obj.barrier.current + 1).toNat < n.toNat)
    (hsucc : (x.obj.barrier.current + 1).toNat = x.obj.barrier.current.toNat + 1) :
    BarrierInv n (x.moves p (arrivesAsleep x p)) (Function.update C none (p :: C none)) := by
  have hpC := h.notMem (p := p) (by simp [hp, BarrierPc.Asleep])
  obtain ⟨hlength, harrived⟩ := h.current
  refine { h with
    lists := h.sleeps_lists hp
    nodup := ?_
    apart := ?_
    member := h.member_moves ?_ ?_
    asleep := h.asleep_moves ?_ fun e he => List.mem_cons_of_mem _ he
    once := fun q k hslept => h.sleeps_once hp hslept
    only := fun e he => List.mem_cons_of_mem _ (h.only e he)
    wakes := h.wakes_moves (fun k hk => by simp [arrivesAsleep, BarrierPc.Wakes] at hk) (Nat.le_refl _)
    current := ⟨?_, ?_⟩
    notFull := hmore
    past := ?_
    future := ?_ }
  · intro i
    cases i with
    | none => simpa using ⟨hpC none, h.nodup none⟩
    | some q => simpa using h.nodup (some q)
  · intro i j q hi hj
    rw [mem_update_none] at hi hj
    by_cases hq : q = p
    · subst hq
      rw [(hi.resolve_right (hpC i)).1, (hj.resolve_right (hpC j)).1]
    · exact h.apart i j q (hi.resolve_left fun hi => hq hi.2) (hj.resolve_left fun hj => hq hj.2)
  · intro i hi
    obtain ⟨rfl, -⟩ := (mem_update_none.mp hi).resolve_right (hpC i)
    exact Or.inl rfl
  · intro i q hqp hq
    have hq := (mem_update_none.mp hq).resolve_left fun heq => hqp heq.2
    exact ⟨i, hq, (wakeList_asleep_cycle hp i).symm⟩
  · intro k hk
    obtain rfl : x.obj.round = k := by simpa [arrivesAsleep, BarrierPc.Asleep] using hk
    exact List.mem_cons_self
  · simp [arrivesAsleep, hsucc, hlength]
  · simp [arrivesAsleep, arrived_countArrival, hsucc, harrived]
  · intro k hk
    have hne : k ≠ x.obj.round := Nat.ne_of_lt hk
    simpa [arrivesAsleep, arrived_countArrival, hne] using h.past k hk
  · intro k hk
    have hne : k ≠ x.obj.round := Nat.ne_of_gt hk
    simpa [arrivesAsleep, arrived_countArrival, hne] using h.future k hk

/-! ### The last arrival takes the list, and the next cycle begins -/

/-- Where the step leads. -/
def arrivesLast (x : BarrierThreads) : BarrierPc × SchedState × BarrierUse :=
  (.wakeLoop x.obj.round x.obj.barrier.waiters, x.sched,
    { x.obj.countArrival with
      barrier := { x.obj.barrier with current := 0, cycle := x.obj.barrier.cycle + 1, waiters := none }
      round := x.obj.round + 1 })

/-- The lists behind the step: the barrier's is now that of the last arrival. -/
def listsLast (C : Option ProcRef → List ProcRef) (p : ProcRef) (i : Option ProcRef) : List ProcRef :=
  C (Equiv.swap none (some p) i)

theorem listsLast_none (hlist : C (some p) = []) : listsLast C p none = [] := by
  rw [listsLast, Equiv.swap_apply_left, hlist]

theorem wakeList_last {i : Option ProcRef} (hi : i ≠ none) :
    wakeList (x.moves p (arrivesLast x)) i = wakeList x (Equiv.swap none (some p) i) := by
  obtain ⟨q, rfl⟩ := Option.ne_none_iff_exists'.mp hi
  by_cases hq : q = p
  · subst hq
    rw [Equiv.swap_apply_right, wakeList_moves_self]
    rfl
  · rw [Equiv.swap_apply_of_ne_of_ne hi fun heq => hq (Option.some.inj heq)]
    exact wakeList_moves_ne hq _

theorem pending_last (hlist : C (some p) = []) {q : ProcRef} :
    Pending (x.moves p (arrivesLast x)) (listsLast C p) k q ↔ Pending x C k q := by
  constructor
  · rintro ⟨i, hi, hq⟩
    have hsome : i ≠ none := by
      rintro rfl
      rw [listsLast_none hlist] at hq
      exact List.not_mem_nil hq
    exact ⟨_, wakeList_last hsome ▸ hi, hq⟩
  · rintro ⟨j, hj, hq⟩
    have hsome : Equiv.swap none (some p) j ≠ none := by
      intro heq
      rw [Equiv.swap_apply_eq_iff, Equiv.swap_apply_left] at heq
      rw [heq, hlist] at hq
      exact List.not_mem_nil hq
    refine ⟨Equiv.swap none (some p) j, ?_, ?_⟩
    · rw [wakeList_last hsome, Equiv.swap_apply_self]
      exact hj
    · rw [listsLast, Equiv.swap_apply_self]
      exact hq

theorem BarrierInv.completes (h : BarrierInv n x C) (hp : x.pc p = .arrive)
    (hfull : n.toNat ≤ x.obj.barrier.current.toNat + 1) :
    BarrierInv n (x.moves p (arrivesLast x)) (listsLast C p) := by
  have hpC := h.notMem (p := p) (by simp [hp, BarrierPc.Asleep])
  have hlist : C (some p) = [] := h.idle (by simp [hp, BarrierPc.wakeList])
  -- the list of the barrier becomes the list that the last one wakes
  refine { h with
    lists := ?_
    nodup := fun i => h.nodup _
    apart := fun i j q hi hj => (Equiv.swap none (some p)).injective (h.apart _ _ q hi hj)
    member := h.member_moves (fun i hi => absurd hi (hpC _)) ?_
    asleep := h.asleep_moves (fun k hk => by simp [arrivesLast, BarrierPc.Asleep] at hk) fun e he => he
    once := ?_
    wakes := h.wakes_moves ?_ (Nat.le_succ _)
    current := ⟨by rw [listsLast_none hlist]; rfl, ?_⟩
    notFull := Nat.lt_of_le_of_lt (Nat.zero_le _) h.notFull
    past := ?_
    future := ?_
    returned := fun k hk => Nat.lt_succ_of_lt (h.returned k hk)
    cycle := ?_ }
  · intro i
    cases i with
    | none =>
      rw [listsLast_none hlist]
      exact ⟨[], rfl, rfl⟩
    | some q =>
      rw [wakeList_last (Option.some_ne_none q)]
      exact h.lists _
  · intro i q _ hq
    refine ⟨_, hq, ?_⟩
    cases i with
    | none =>
      rw [listsLast_none hlist] at hq
      exact absurd hq List.not_mem_nil
    | some r => rw [wakeList_last (Option.some_ne_none r)]
  · intro q k hmem
    rw [pending_last hlist]
    refine (h.once q k hmem).imp_right ?_
    rintro ⟨hnot, hlt, hone⟩
    exact ⟨hnot, Nat.lt_succ_of_lt hlt, hone⟩
  · intro k hk
    obtain rfl : x.obj.round = k := by simpa [arrivesLast, BarrierPc.Wakes] using hk
    exact Nat.lt_succ_self _
  · have hzero := h.future (x.obj.round + 1) (Nat.lt_succ_self _)
    simpa [arrivesLast, arrived_countArrival] using hzero
  · intro k hk
    by_cases hlast : k = x.obj.round
    · subst hlast
      simpa [arrivesLast, arrived_countArrival, h.current.2] using hfull
    · have hlt : k < x.obj.round := Nat.lt_of_le_of_ne (Nat.le_of_lt_succ hk) hlast
      simpa [arrivesLast, arrived_countArrival, hlast] using h.past k hlt
  · intro k hk
    have hlt : x.obj.round < k := Nat.lt_of_succ_lt hk
    simpa [arrivesLast, arrived_countArrival, Nat.ne_of_gt hlt] using h.future k hlt
  · rw [Threads.moves_obj, arrivesLast, UInt32.ofNat_add, ← h.cycle]
    rfl

/-! ### The loop of the last arrival -/

/-- The last arrival takes the next process off its list and has it in hand. -/
theorem BarrierInv.takes (h : BarrierInv n x C) {w : ProcRef} (hp : x.pc p = .wakeLoop k (some w)) :
    BarrierInv n (x.moves p (.wakeAdd k w (x.sched.procs w).wqNext, releaseWaiter x.sched w, x.obj)) C := by
  have hpC := h.notMem (p := p) (by simp [hp, BarrierPc.Asleep])
  obtain ⟨t, hlinked, hC⟩ : ∃ t, Linked (waitLink x.sched) (some w) (w :: t) ∧ C (some p) = w :: t := by
    obtain ⟨l, hl, hC⟩ := h.lists (some p)
    rw [wakeList, hp] at hl hC
    cases l with
    | nil => exact absurd hl (by simp [BarrierPc.wakeList])
    | cons a t =>
      obtain rfl := Option.some.inj hl.1
      exact ⟨t, hl, hC⟩
  have hcycle : ∀ i, (wakeList (x.moves p (.wakeAdd k w (x.sched.procs w).wqNext, releaseWaiter x.sched w, x.obj))
      i).cycle = (wakeList x i).cycle := by
    intro i
    by_cases hi : i = some p
    · rw [hi, wakeList_moves_self, wakeList, hp]
      rfl
    · rw [wakeList_moves rfl rfl hi]
  refine { h with
    lists := ?_
    member := h.member_moves (fun i hi => absurd hi (hpC i)) fun i q _ hq => ⟨i, hq, (hcycle i).symm⟩
    asleep := h.asleep_moves (fun k hk => by simp [BarrierPc.Asleep] at hk) fun e he => he
    once := ?_
    wakes := h.wakes_moves ?_ (Nat.le_refl _) }
  · intro i
    by_cases hi : i = some p
    · rw [hi, hC, wakeList_moves_self]
      exact ⟨t, linked_releaseWaiter hlinked, rfl⟩
    · rw [wakeList_moves rfl rfl hi]
      refine (h.lists i).congr fun q hq => ?_
      have hqw : q ≠ w := by
        rintro rfl
        exact hi (h.apart i (some p) q hq (hC ▸ List.mem_cons_self))
      rw [Threads.moves_sched, releaseWaiter_waitLink, Function.update_of_ne hqw]
  · intro q k' hslept
    unfold Pending
    simp only [hcycle]
    exact h.once q k' hslept
  · intro k' hk'
    obtain rfl : k = k' := by simpa [BarrierPc.Wakes] using hk'
    exact h.wakes p k (Or.inl ⟨some w, hp⟩)

/-- Where the hand-over of `w` leads. -/
def handsOver (x : BarrierThreads) (k : Nat) (w : ProcRef) (list : Option ProcRef) :
    BarrierPc × SchedState × BarrierUse :=
  (.wakeLoop k list, schedulerAddProcess x.sched w, { x.obj with woken := (w, k) :: x.obj.woken })

/-- The process in hand and those behind it. -/
theorem BarrierInv.inHand (h : BarrierInv n x C) {w : ProcRef} {list : Option ProcRef} (hp : x.pc p = .wakeAdd k w list) :
    ∃ t, Linked (waitLink x.sched) list t ∧ C (some p) = w :: t := by
  obtain ⟨t, ht, hC⟩ := h.lists (some p)
  rw [wakeList, hp] at ht hC
  exact ⟨t, ht, hC⟩

theorem wakeList_given_cycle {w : ProcRef} {list : Option ProcRef} (hp : x.pc p = .wakeAdd k w list)
    (i : Option ProcRef) : (wakeList (x.moves p (handsOver x k w list)) i).cycle = (wakeList x i).cycle := by
  by_cases hi : i = some p
  · rw [hi, wakeList_moves_self, wakeList, hp]
    rfl
  · rw [wakeList_moves rfl rfl hi]

/-- The process in hand is on this list only, and once. -/
theorem BarrierInv.mem_given (h : BarrierInv n x C) {w : ProcRef} {t : List ProcRef} (hC : C (some p) = w :: t)
    {i : Option ProcRef} {q : ProcRef} : q ∈ Function.update C (some p) t i ↔ q ∈ C i ∧ q ≠ w := by
  by_cases hi : i = some p
  · have hwt : w ∉ t := (List.nodup_cons.mp (hC ▸ h.nodup (some p))).1
    subst hi
    rw [Function.update_self, hC, List.mem_cons]
    constructor
    · exact fun hq => ⟨Or.inr hq, fun hqw => hwt (hqw ▸ hq)⟩
    · exact fun hq => hq.1.resolve_left hq.2
  · rw [Function.update_of_ne hi, iff_self_and]
    rintro hq rfl
    exact hi (h.apart i (some p) q hq (hC ▸ List.mem_cons_self))

theorem BarrierInv.pending_given (h : BarrierInv n x C) {w : ProcRef} {list : Option ProcRef} {t : List ProcRef}
    (hp : x.pc p = .wakeAdd k w list) (hC : C (some p) = w :: t) {k' : Nat} {q : ProcRef} :
    Pending (x.moves p (handsOver x k w list)) (Function.update C (some p) t) k' q ↔
      Pending x C k' q ∧ (q, k') ≠ (w, k) := by
  have hown : wakeList x (some p) = ⟨k, some w, list⟩ := congrArg BarrierPc.wakeList hp
  unfold Pending
  simp only [wakeList_given_cycle hp, h.mem_given hC]
  constructor
  · rintro ⟨i, hi, hq, hqw⟩
    exact ⟨⟨i, hi, hq⟩, fun heq => hqw (Prod.mk.inj heq).1⟩
  · rintro ⟨⟨i, hi, hq⟩, hne⟩
    refine ⟨i, hi, hq, ?_⟩
    rintro rfl
    rw [h.apart i (some p) q hq (hC ▸ List.mem_cons_self), hown] at hi
    exact hne (congrArg (Prod.mk q) hi.symm)

theorem BarrierInv.gives_once (h : BarrierInv n x C) {w : ProcRef} {list : Option ProcRef} {t : List ProcRef}
    (hp : x.pc p = .wakeAdd k w list) (hC : C (some p) = w :: t) {k' : Nat} {q : ProcRef}
    (hslept : (q, k') ∈ x.obj.slept) :
    (Pending (x.moves p (handsOver x k w list)) (Function.update C (some p) t) k' q ∧
        ((w, k) :: x.obj.woken).count (q, k') = 0) ∨
      (¬Pending (x.moves p (handsOver x k w list)) (Function.update C (some p) t) k' q ∧ k' < x.obj.round ∧
        ((w, k) :: x.obj.woken).count (q, k') = 1) := by
  have hown : wakeList x (some p) = ⟨k, some w, list⟩ := congrArg BarrierPc.wakeList hp
  rw [h.pending_given hp hC]
  by_cases hwk : (w, k) = (q, k')
  · obtain ⟨rfl, rfl⟩ := Prod.mk.inj hwk
    have hpend : Pending x C k w := ⟨some p, by rw [hown], hC ▸ List.mem_cons_self⟩
    have hzero := ((h.once w k hslept).resolve_right fun hdone => hdone.1 hpend).2
    refine Or.inr ⟨fun hp => hp.2 rfl, h.wakes p k (Or.inr ⟨w, list, hp⟩), ?_⟩
    rw [List.count_cons_self, hzero]
  · rw [List.count_cons_of_ne hwk, and_iff_left fun heq => hwk heq.symm]
    exact h.once q k' hslept

/-- The last arrival gives the process in its hand to the scheduler. -/
theorem BarrierInv.gives (h : BarrierInv n x C) {w : ProcRef} {list : Option ProcRef} (hp : x.pc p = .wakeAdd k w list) :
    BarrierInv n (x.moves p (handsOver x k w list)) (Function.update C (some p) (C (some p)).tail) := by
  have hpC := h.notMem (p := p) (by simp [hp, BarrierPc.Asleep])
  obtain ⟨t, hlinked, hC⟩ := h.inHand hp
  have hwslept : (w, k) ∈ x.obj.slept := by
    have hasleep := h.member (some p) w (hC ▸ List.mem_cons_self)
    rw [wakeList, hp] at hasleep
    exact h.asleep w k hasleep
  have hsched : waitLink (x.moves p (handsOver x k w list)).sched = waitLink x.sched :=
    schedulerAddProcess_waitLink x.sched w
  rw [hC, List.tail_cons]
  refine { h with
    lists := ?_
    nodup := ?_
    apart := fun i j q hi hj => h.apart i j q ((h.mem_given hC).mp hi).1 ((h.mem_given hC).mp hj).1
    member := h.member_moves (fun i hi => absurd ((h.mem_given hC).mp hi).1 (hpC i)) ?_
    asleep := h.asleep_moves (fun k hk => by simp [handsOver, BarrierPc.Asleep] at hk) fun e he => he
    once := fun q k' hslept => h.gives_once hp hC hslept
    only := ?_
    wakes := h.wakes_moves ?_ (Nat.le_refl _)
    current := ?_ }
  · intro i
    by_cases hi : i = some p
    · rw [hi, Function.update_self, wakeList_moves_self]
      exact ⟨t, hsched ▸ hlinked, rfl⟩
    · rw [Function.update_of_ne hi, wakeList_moves rfl rfl hi]
      exact (h.lists i).congr fun q _ => congrFun hsched q
  · intro i
    by_cases hi : i = some p
    · rw [hi, Function.update_self]
      exact (List.nodup_cons.mp (hC ▸ h.nodup (some p))).2
    · rw [Function.update_of_ne hi]
      exact h.nodup i
  · intro i q _ hq
    exact ⟨i, ((h.mem_given hC).mp hq).1, (wakeList_given_cycle hp i).symm⟩
  · intro e he
    rcases List.mem_cons.mp he with rfl | he
    · exact hwslept
    · exact h.only e he
  · intro k' hk'
    obtain rfl : k = k' := by simpa [handsOver, BarrierPc.Wakes] using hk'
    exact h.wakes p k (Or.inr ⟨w, list, hp⟩)
  · rw [Function.update_of_ne (Option.some_ne_none p).symm]
    exact h.current

/-- The count of arrivals does not wrap around: it stays below the size of the barrier. -/
theorem BarrierInv.current_succ (h : BarrierInv n x C) :
    (x.obj.barrier.current + 1).toNat = x.obj.barrier.current.toNat + 1 := by
  have hlt := h.notFull
  have hn := n.toNat_lt
  rw [UInt32.toNat_add]
  exact Nat.mod_eq_of_lt (Nat.lt_of_le_of_lt hlt hn)

/-- **One step** of the code keeps the invariant. -/
theorem BarrierInv.next (h : BarrierInv n x C) (hg : BarrierGuard x p) {cpu : Nat}
    {dest : BarrierPc × SchedState × BarrierUse} (hs : barrierNext p cpu (x.pc p) x.sched x.obj = some dest) :
    ∃ C', BarrierInv n (x.moves p dest) C' := by
  cases hpc : x.pc p with
  | outside => simp [hpc, barrierNext] at hs
  | arrive =>
    have hsucc := h.current_succ
    by_cases hfull : x.obj.barrier.target ≤ x.obj.barrier.current + 1
    · simp only [hpc, barrierNext, barrierArrive, if_pos hfull, Option.some.injEq] at hs
      have hle : n.toNat ≤ x.obj.barrier.current.toNat + 1 := by
        rw [← hsucc, ← h.target]
        exact UInt32.le_iff_toNat_le.mp hfull
      obtain rfl : arrivesLast x = dest := hs
      exact ⟨_, h.completes hpc hle⟩
    · simp only [hpc, barrierNext, barrierArrive, if_neg hfull, Option.some.injEq] at hs
      have hlt : (x.obj.barrier.current + 1).toNat < n.toNat := by
        rw [← h.target]
        exact Nat.lt_of_not_le fun hle => hfull (UInt32.le_iff_toNat_le.mpr hle)
      obtain rfl : arrivesAsleep x p = dest := hs
      exact ⟨_, h.sleeps hpc hlt hsucc⟩
  | sleepYield k =>
    rw [hpc] at hs
    obtain rfl := Option.some.inj hs
    refine ⟨C, h.goes (schedulerYield_waitLink x.sched cpu) (h.idle (by simp [hpc, BarrierPc.wakeList])) rfl
      (by simp [BarrierPc.Wakes]) ?_ ?_ h.returned⟩
    · intro k' hk'
      obtain rfl : k = k' := by simpa [BarrierPc.Asleep] using hk'
      exact Or.inl hpc
    · intro i hmem
      have hasleep := h.member i p hmem
      rw [hpc] at hasleep
      have hk : k = (wakeList x i).cycle := by simpa [BarrierPc.Asleep] using hasleep
      exact Or.inr (congrArg BarrierPc.sleepBack hk)
  | sleepBack k =>
    -- by the guard it is on no list of its cycle any more, so the cycle is complete
    have hnot : ¬Pending x C k p := fun hpend => hg k hpc (h.ahead_iff.mpr hpend)
    have hdone := (h.once p k (h.asleep p k (Or.inr hpc))).resolve_left fun hpend => hnot hpend.1
    rw [hpc] at hs
    obtain rfl := Option.some.inj hs
    refine ⟨C, h.goes rfl (h.idle (by simp [hpc, BarrierPc.wakeList])) rfl (by simp [BarrierPc.Wakes])
      (by simp [BarrierPc.Asleep]) ?_ ?_⟩
    · intro i hmem
      have hasleep := h.member i p hmem
      rw [hpc] at hasleep
      have hk : k = (wakeList x i).cycle := by simpa [BarrierPc.Asleep] using hasleep
      exact absurd ⟨i, hk.symm, hmem⟩ hnot
    · intro k' hk'
      rcases List.mem_cons.mp hk' with rfl | hk'
      · exact hdone.2.1
      · exact h.returned k' hk'
  | wakeLoop k list =>
    cases list with
    | none =>
      rw [hpc] at hs
      obtain rfl := Option.some.inj hs
      have hpC := h.notMem (p := p) (by simp [hpc, BarrierPc.Asleep])
      refine ⟨C, h.goes rfl (h.idle (by simp [hpc, BarrierPc.wakeList])) rfl (by simp [BarrierPc.Wakes])
        (by simp [BarrierPc.Asleep]) (fun i hmem => absurd hmem (hpC i)) ?_⟩
      intro k' hk'
      rcases List.mem_cons.mp hk' with rfl | hk'
      · exact h.wakes p k' (Or.inl ⟨none, hpc⟩)
      · exact h.returned k' hk'
    | some w =>
      rw [hpc] at hs
      obtain rfl := Option.some.inj hs
      exact ⟨C, h.takes hpc⟩
  | wakeAdd k w list =>
    rw [hpc] at hs
    obtain rfl : handsOver x k w list = dest := Option.some.inj hs
    exact ⟨_, h.gives hpc⟩

end

/-! ## Runs -/

/-- **One step of the machine** keeps the invariant. -/
theorem barrierStep_keeps (n : UInt32) (x : BarrierThreads) (op : ThreadOp Unit) (x' : BarrierThreads)
    (hI : ∃ C, BarrierInv n x C) (hg : StepMeets BarrierGuard x op) (hs : threadStep barrierCode x op = some x') :
    ∃ C, BarrierInv n x' C := by
  refine threadStep_keeps (I := fun x => ∃ C, BarrierInv n x C) ?_ ?_ ?_ x op x' hI hg hs
  · rintro y s hlink ⟨C, h⟩
    refine ⟨C, { h with lists := ?_ }⟩
    intro i
    have hsame : wakeList { y with sched := s } i = wakeList y i := by cases i <;> rfl
    rw [hsame]
    exact (h.lists i).congr fun q _ => congrFun hlink q
  · rintro y p - ⟨C, h⟩ hout
    have hpc : y.pc p = .outside := hout
    have hpC := h.notMem (p := p) (by simp [hpc, BarrierPc.Asleep])
    exact ⟨C, h.goes rfl (h.idle (by simp [hpc, BarrierPc.wakeList])) rfl (by simp [barrierCode, BarrierPc.Wakes])
      (by simp [barrierCode, BarrierPc.Asleep]) (fun i hmem => absurd hmem (hpC i)) h.returned⟩
  · rintro y p cpu dest ⟨C, h⟩ hguard hnext
    exact h.next hguard hnext

/-- **A barrier holds its cycles apart** in every run in which no process comes back from its
    `scheduler_yield` in `barrier_wait` before it is woken. -/
theorem barrier_cycles (s : SchedState) {n : UInt32} (hn : n ≠ 0) (ops : List (ThreadOp Unit))
    (hg : Meets (threadStep barrierCode) (StepMeets BarrierGuard) (barrierStart s n) ops) :
    Always (threadStep barrierCode) (BarrierCycles n.toNat) (barrierStart s n) ops := by
  have hinit : ∃ C, BarrierInv n (barrierStart s n) C := ⟨fun _ => [], barrierStart_inv s hn⟩
  refine (always_of_meets (P := fun x => ∃ C, BarrierInv n x C) (barrierStep_keeps n) hinit hg).mono ?_
  rintro x ⟨C, h⟩
  exact h.cycles

/-- Nobody is on the barrier's list, and nobody is in the loop of a last arrival with a process
    still ahead. -/
def NobodyWaits (x : BarrierThreads) : Prop :=
  x.obj.barrier.waiters = none ∧ ∀ q, (x.pc q).wakeList.inHand = none ∧ (x.pc q).wakeList.list = none

instance (x : BarrierThreads) : Decidable (NobodyWaits x) := inferInstanceAs (Decidable (_ ∧ _))

theorem NobodyWaits.not_ahead {x : BarrierThreads} (h : NobodyWaits x) (k : Nat) (p : ProcRef) : ¬Ahead x k p := by
  rintro ⟨i, l, ⟨t, ht, rfl⟩, -, hp⟩
  have hempty : (wakeList x i).inHand = none ∧ (wakeList x i).list = none := by
    cases i with
    | none => exact ⟨rfl, h.1⟩
    | some q => exact h.2 q
  rw [hempty.1, Linked.eq_nil_iff ht |>.mp hempty.2] at hp
  exact List.not_mem_nil hp

/-- The step is not a return from a yield, or is taken when nobody waits. -/
def returnsAlone (x : BarrierThreads) : ThreadOp Unit → Bool
  | .step cpu =>
    match (x.sched.runqueues cpu).current.map x.pc with
    | some (.sleepBack _) => decide (NobodyWaits x)
    | _ => true
  | _ => true

theorem barrierGuard_of_returnsAlone {x : BarrierThreads} {op : ThreadOp Unit} (h : returnsAlone x op = true) :
    StepMeets BarrierGuard x op := by
  rintro cpu p rfl hcur k hpc
  simp only [returnsAlone, hcur, Option.map_some, hpc, decide_eq_true_eq] at h
  exact h.not_ahead k p

/-- A barrier for two: a process sleeps on the first of two CPUs, another one arrives on the
    second and wakes it, and it comes back when the process that ran in its place yields. -/
def met : List (ThreadOp Unit) :=
  [.call 0 (), .step 0, .step 0, .call 1 (), .step 1, .step 1, .step 1, .step 1, .yield 0, .step 0]

theorem barrier_cycles_met :
    Always (threadStep barrierCode) (BarrierCycles 2) (barrierStart (startedKernel 2 3) 2) met ∧
      ∀ x, run (threadStep barrierCode) (barrierStart (startedKernel 2 3) 2) met = some x →
        x.obj.returned = [0, 0] ∧ x.obj.woken = [(0, 0)] := by
  refine ⟨barrier_cycles (startedKernel 2 3) (n := 2) (by decide) met ?_, ?_⟩
  · exact meets_of_check returnsAlone (fun _ _ => barrierGuard_of_returnsAlone) (by decide +kernel)
  · have hcalls : (run (threadStep barrierCode) (barrierStart (startedKernel 2 3) 2) met).map
        (fun x => (x.obj.returned, x.obj.woken)) = some ([0, 0], [(0, 0)]) := by decide +kernel
    intro x hx
    rw [hx] at hcalls
    exact Prod.mk.inj (Option.some.inj hcalls)

/-- On one CPU, the only process arrives at a barrier for two, and returns. -/
theorem barrier_leaves_early :
    ¬Always (threadStep barrierCode) (BarrierCycles 2) (barrierStart (startedKernel 1 1) 2)
      [.call 0 (), .step 0, .step 0, .step 0] := by
  intro halways
  have hrun := eq_some_getD (barrierStart (startedKernel 1 1) 2)
    (o := run (threadStep barrierCode) (barrierStart (startedKernel 1 1) 2) [.call 0 (), .step 0, .step 0, .step 0])
    (by decide +kernel)
  have hmany := (halways.last hrun).returned 0 (by decide +kernel)
  revert hmany
  decide +kernel

end Crimson.Sync
