import Crimson.Lib.Linked
import Crimson.Lib.Run
import Crimson.Sched.Frame
import Crimson.Sync.Model

/-!
# Processes in the blocking primitives

The functions of `sync.c` are not atomic: between two of their critical sections a process
can be switched away from, and other processes run. `Threads` is the kernel at that grain,
with one object of `sync.c` in it: the scheduler, the object, and for every process the
place in the object's code it has reached. The CPUs take steps in any order. A step of a
CPU is the next step of its current process, a timer tick, or a `scheduler_yield` of a
process that is in none of the object's functions.

`Code` is what differs between the objects: where a call starts, and what a process does at
each place. It is given the scheduler and the object as they are, so a process that comes
back from `scheduler_yield` goes on whoever else may have run, and on whichever CPU.
-/

set_option autoImplicit false

namespace Crimson.Sync

open Crimson.Lib
open Crimson.Sched

/-- The scheduler, an object with what is counted about its calls, and where every process is. -/
structure Threads (ω π : Type) where
  sched : SchedState
  obj : ω
  pc : ProcRef → π

/-- The code of an object's functions, step by step. -/
structure Code (ω π κ : Type) where
  /-- The place of a process that is in none of the functions. -/
  outside : π
  entry : κ → π
  /-- What process `p` does on CPU `cpu` at a place, and where it goes. -/
  next : ProcRef → Nat → π → SchedState → ω → Option (π × SchedState × ω)

inductive ThreadOp (κ : Type) where
  /-- The current process calls a function. -/
  | call (cpu : Nat) (k : κ)
  | step (cpu : Nat)
  | yield (cpu : Nat)
  | tick (cpu : Nat)

variable {ω π κ : Type}

/-- A process moves on, and leaves the scheduler and the object as given. -/
def Threads.moves (x : Threads ω π) (p : ProcRef) (dest : π × SchedState × ω) : Threads ω π where
  sched := dest.2.1
  obj := dest.2.2
  pc := Function.update x.pc p dest.1

@[simp] theorem Threads.moves_sched (x : Threads ω π) (p : ProcRef) (dest : π × SchedState × ω) :
    (x.moves p dest).sched = dest.2.1 := rfl

@[simp] theorem Threads.moves_obj (x : Threads ω π) (p : ProcRef) (dest : π × SchedState × ω) :
    (x.moves p dest).obj = dest.2.2 := rfl

@[simp] theorem Threads.moves_pc (x : Threads ω π) (p : ProcRef) (dest : π × SchedState × ω) :
    (x.moves p dest).pc p = dest.1 := Function.update_self _ _ _

theorem Threads.moves_pc_ne (x : Threads ω π) {p q : ProcRef} (h : q ≠ p) (dest : π × SchedState × ω) :
    (x.moves p dest).pc q = x.pc q := Function.update_of_ne h _ _

/-- What a step says of the places of the processes holds if it holds of the place the process
    goes to, and of the places where the others are. -/
theorem Threads.moves_forall {x : Threads ω π} {p : ProcRef} {dest : π × SchedState × ω} (P : ProcRef → π → Prop)
    (hp : P p dest.1) (hne : ∀ q, q ≠ p → P q (x.pc q)) (q : ProcRef) : P q ((x.moves p dest).pc q) := by
  by_cases hq : q = p
  · subst hq
    rw [Threads.moves_pc]
    exact hp
  · rw [Threads.moves_pc_ne x hq]
    exact hne q hq

def threadStep [DecidableEq π] (code : Code ω π κ) (x : Threads ω π) : ThreadOp κ → Option (Threads ω π)
  | .call cpu k =>
    (x.sched.runqueues cpu).current.bind fun p =>
      if x.pc p = code.outside then some (x.moves p (code.entry k, x.sched, x.obj)) else none
  | .step cpu =>
    (x.sched.runqueues cpu).current.bind fun p =>
      (code.next p cpu (x.pc p) x.sched x.obj).map (x.moves p)
  | .yield cpu =>
    (x.sched.runqueues cpu).current.bind fun p =>
      if x.pc p = code.outside then some { x with sched := schedulerYield x.sched cpu } else none
  | .tick cpu => (schedulerTick x.sched cpu).map fun s => { x with sched := s }

/-- The links of the wait lists. -/
def waitLink (s : SchedState) (p : ProcRef) : Option ProcRef := (s.procs p).wqNext

/-- Process `p` is on the wait list that starts at `head`. -/
def OnWaitList (s : SchedState) (head : Option ProcRef) (p : ProcRef) : Prop :=
  ∃ l, Linked (waitLink s) head l ∧ p ∈ l

theorem onWaitList_iff {s : SchedState} {head : Option ProcRef} {l : List ProcRef} (h : Linked (waitLink s) head l)
    (p : ProcRef) : OnWaitList s head p ↔ p ∈ l := by
  constructor
  · rintro ⟨l', hl', hp⟩
    exact Linked.unique hl' h ▸ hp
  · exact fun hp => ⟨l, h, hp⟩

@[simp] theorem not_onWaitList_none (s : SchedState) (p : ProcRef) : ¬OnWaitList s none p :=
  fun h => List.not_mem_nil ((onWaitList_iff (l := []) rfl p).mp h)

/-! ## What the steps write to the links -/

theorem schedulerYield_waitLink (s : SchedState) (cpu : Nat) : waitLink (schedulerYield s cpu) = waitLink s :=
  funext (schedulerYield_frame s cpu).waits.wqNext

theorem schedulerTick_waitLink {s s' : SchedState} {cpu : Nat} (h : schedulerTick s cpu = some s') :
    waitLink s' = waitLink s :=
  funext (schedulerTick_frame h).waits.wqNext

theorem schedulerAddProcess_waitLink (s : SchedState) (p : ProcRef) : waitLink (schedulerAddProcess s p) = waitLink s :=
  funext (schedulerAddProcess_waits s p).wqNext

theorem linkWaiter_waitLink (s : SchedState) (head : Option ProcRef) (p : ProcRef) :
    waitLink (linkWaiter s head p) = Function.update (waitLink s) p head := by
  funext r
  by_cases hr : r = p <;> simp [waitLink, linkWaiter, hr]

theorem releaseWaiter_waitLink (s : SchedState) (p : ProcRef) :
    waitLink (releaseWaiter s p) = Function.update (waitLink s) p none := by
  funext r
  by_cases hr : r = p <;> simp [waitLink, releaseWaiter, hr]

/-- A process that was on no list is put in front of this one. -/
theorem linked_linkWaiter {s : SchedState} {head : Option ProcRef} {p : ProcRef} {l : List ProcRef}
    (h : Linked (waitLink s) head l) (hp : p ∉ l) : Linked (waitLink (linkWaiter s head p)) (some p) (p :: l) := by
  refine ⟨rfl, ?_⟩
  rw [linkWaiter_waitLink, Function.update_self]
  exact h.update_of_notMem hp

/-- The first process is taken off. -/
theorem linked_releaseWaiter {s : SchedState} {head : Option ProcRef} {p : ProcRef} {l : List ProcRef}
    (h : Linked (waitLink s) head (p :: l)) : Linked (waitLink (releaseWaiter s p)) (s.procs p).wqNext l := by
  rw [releaseWaiter_waitLink]
  exact h.2.update_of_notMem (List.nodup_cons.mp h.nodup).1

/-! ## The invariant rule -/

/-- The process whose step it is has `g` in the state before it. -/
def StepMeets (g : Threads ω π → ProcRef → Prop) (x : Threads ω π) (op : ThreadOp κ) : Prop :=
  ∀ cpu p, op = .step cpu → (x.sched.runqueues cpu).current = some p → g x p

/-- **One step, by who takes it**: what no switch of the scheduler touches, a call only enters,
    and every step of the code keeps, every step of the machine keeps. -/
theorem threadStep_keeps [DecidableEq π] {code : Code ω π κ} {I : Threads ω π → Prop}
    {g : Threads ω π → ProcRef → Prop}
    (hsched : ∀ x s, waitLink s = waitLink x.sched → I x → I { x with sched := s })
    (hcall : ∀ x p k, I x → x.pc p = code.outside → I (x.moves p (code.entry k, x.sched, x.obj)))
    (hnext : ∀ x p cpu dest, I x → g x p → code.next p cpu (x.pc p) x.sched x.obj = some dest → I (x.moves p dest))
    (x : Threads ω π) (op : ThreadOp κ) (x' : Threads ω π) (hI : I x) (hg : StepMeets g x op)
    (hs : threadStep code x op = some x') : I x' := by
  cases op with
  | call cpu k =>
    obtain ⟨p, -, hs⟩ := Option.bind_eq_some_iff.mp hs
    obtain ⟨hout, hx'⟩ := Option.ite_none_right_eq_some.mp hs
    obtain rfl := Option.some.inj hx'
    exact hcall x p k hI hout
  | step cpu =>
    obtain ⟨p, hcur, hs⟩ := Option.bind_eq_some_iff.mp hs
    obtain ⟨dest, hdest, rfl⟩ := Option.map_eq_some_iff.mp hs
    exact hnext x p cpu dest hI (hg cpu p rfl hcur) hdest
  | yield cpu =>
    obtain ⟨p, -, hs⟩ := Option.bind_eq_some_iff.mp hs
    obtain ⟨-, hx'⟩ := Option.ite_none_right_eq_some.mp hs
    obtain rfl := Option.some.inj hx'
    exact hsched x _ (schedulerYield_waitLink x.sched cpu) hI
  | tick cpu =>
    obtain ⟨s, ht, rfl⟩ := Option.map_eq_some_iff.mp hs
    exact hsched x s (schedulerTick_waitLink ht) hI

/-! ## A kernel to run on -/

/-- CPUs that run nothing, and unused processes of normal priority. -/
def bareKernel (numCpus : Nat) : SchedState :=
  schedulerInit
    ⟨fun _ => { Process.zero with priority := prioNormal }, fun _ => Runqueue.empty, 0, fun _ => none⟩ numCpus

/-- The first `n` processes are added in order, and the CPUs are started. -/
def startedKernel (numCpus n : Nat) : SchedState :=
  let s := (List.range n).foldl (fun s i => schedulerAddProcess s (Fin.ofNat maxProcesses i)) (bareKernel numCpus)
  ((List.range numCpus).foldlM schedulerStart s).getD s

/-- The step is not a return from a yield, or is taken when nobody is on the wait list. -/
def returnsUnlisted [DecidableEq π] (back : π) (head : ω → Option ProcRef) (x : Threads ω π) : ThreadOp κ → Bool
  | .step cpu =>
    match (x.sched.runqueues cpu).current with
    | none => true
    | some p => decide (x.pc p ≠ back) || (head x.obj).isNone
  | _ => true

theorem stepMeets_of_returnsUnlisted [DecidableEq π] {back : π} {head : ω → Option ProcRef} {x : Threads ω π}
    {op : ThreadOp κ} (h : returnsUnlisted back head x op = true) :
    StepMeets (fun x p => x.pc p = back → ¬OnWaitList x.sched (head x.obj) p) x op := by
  rintro cpu p rfl hcur hpc
  simp only [returnsUnlisted, hcur, hpc, ne_eq, not_true_eq_false, decide_false, Bool.false_or,
    Option.isNone_iff_eq_none] at h
  rw [h]
  exact not_onWaitList_none x.sched p

end Crimson.Sync
