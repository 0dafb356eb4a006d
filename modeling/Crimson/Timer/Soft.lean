import Crimson.Lib.Run
import Mathlib.Logic.Function.Basic

/-!
# Software timers (`timer.c`)

Sixteen slots, and an update that goes through them and calls the callbacks of those that have
expired. A callback may call any of the functions here, so the steps of the system are the calls
and, one by one, the slots an update comes to; between two of these anything may be called.

`timer_create` clears the interval of a slot and not its expiry. `callbacks_fresh` is about the
runs in which that does no harm: no slot is taken over with an expiry left in it.
-/

set_option autoImplicit false

namespace Crimson.Timer

open Crimson.Lib

def maxSoftTimers : Nat := 16

/-- `soft_timer_t`; `callback` may be NULL. -/
structure SoftTimer where
  active : Bool
  expiry : UInt64
  interval : UInt32
  callback : Option Nat
  arg : Nat
deriving DecidableEq, Repr

/-- What happens to a slot. -/
inductive TimerEvent where
  | created (slot : Nat)
  | armed (slot : Nat)
  | cancelled (slot : Nat)
  | destroyed (slot : Nat)
  | called (slot callback arg : Nat) (now : UInt64)
deriving DecidableEq, Repr

/-- The slots, and of an update that is under way its `now` and the slot it comes to next. `log`
    is what has happened; no code reads it. -/
structure TimerState where
  softTimers : Nat → SoftTimer
  scan : Option (UInt64 × Nat)
  log : List TimerEvent

def timerInit : TimerState where
  softTimers := fun _ => { active := false, expiry := 0, interval := 0, callback := none, arg := 0 }
  scan := none
  log := []

/-- A slot is changed by an event. -/
def TimerState.put (s : TimerState) (i : Nat) (t : SoftTimer) (e : TimerEvent) : TimerState :=
  { s with softTimers := Function.update s.softTimers i t, log := s.log ++ [e] }

/-- The first slot that is free. -/
def freeSlot (s : TimerState) : Option Nat := (List.range maxSoftTimers).find? fun i => !(s.softTimers i).active

/-- `timer_create`: the handle, and the state. -/
def timerCreate (s : TimerState) (callback : Option Nat) (arg : Nat) : Int × TimerState :=
  match freeSlot s with
  | some i =>
    (i, s.put i { s.softTimers i with active := true, callback := callback, arg := arg, interval := 0 } (.created i))
  | none => (-1, s)

/-- The check of the handle that the other functions begin with. -/
def withHandle (s : TimerState) (handle : Int) (f : Nat → TimerState) : TimerState :=
  if handle < 0 ∨ (maxSoftTimers : Int) ≤ handle then s else f handle.toNat

/-- `timer_set_oneshot` and `timer_set_periodic`; `now` is what `timer_get_uptime_ms` returns. -/
def timerSet (s : TimerState) (handle : Int) (ms interval : UInt32) (now : UInt64) : TimerState :=
  withHandle s handle fun i =>
    if (s.softTimers i).active then
      s.put i { s.softTimers i with expiry := now + ms.toUInt64, interval := interval } (.armed i)
    else s

def timerSetOneshot (s : TimerState) (handle : Int) (ms : UInt32) (now : UInt64) : TimerState :=
  timerSet s handle ms 0 now

def timerSetPeriodic (s : TimerState) (handle : Int) (ms : UInt32) (now : UInt64) : TimerState :=
  timerSet s handle ms ms now

def timerCancel (s : TimerState) (handle : Int) : TimerState :=
  withHandle s handle fun i => s.put i { s.softTimers i with interval := 0, expiry := 0 } (.cancelled i)

def timerDestroy (s : TimerState) (handle : Int) : TimerState :=
  withHandle s handle fun i => s.put i { s.softTimers i with active := false } (.destroyed i)

/-- A timer that has expired: its next expiry, and its callback. -/
def timerExpire (s : TimerState) (i : Nat) (now : UInt64) : TimerState :=
  let t := s.softTimers i
  let t := { t with expiry := if 0 < t.interval then now + t.interval.toUInt64 else 0 }
  match t.callback with
  | some callback => s.put i t (.called i callback t.arg now)
  | none => { s with softTimers := Function.update s.softTimers i t }

/-- The body of the loop of `timer_update_soft_timers`. -/
def timerVisit (s : TimerState) (i : Nat) (now : UInt64) : TimerState :=
  if !(s.softTimers i).active then s
  else if (s.softTimers i).expiry = 0 then s
  else if (s.softTimers i).expiry ≤ now then timerExpire s i now
  else s

/-- The calls, the start of an update and the next slot it comes to. -/
inductive TimerOp where
  | create (callback : Option Nat) (arg : Nat)
  | setOneshot (handle : Int) (ms : UInt32) (now : UInt64)
  | setPeriodic (handle : Int) (ms : UInt32) (now : UInt64)
  | cancel (handle : Int)
  | destroy (handle : Int)
  | update (now : UInt64)
  | visit
deriving DecidableEq, Repr

def timerStep (s : TimerState) : TimerOp → Option TimerState
  | .create callback arg => some (timerCreate s callback arg).2
  | .setOneshot handle ms now => some (timerSetOneshot s handle ms now)
  | .setPeriodic handle ms now => some (timerSetPeriodic s handle ms now)
  | .cancel handle => some (timerCancel s handle)
  | .destroy handle => some (timerDestroy s handle)
  | .update now => if s.scan = none then some { s with scan := some (now, 0) } else none
  | .visit =>
    match s.scan with
    | some (now, i) =>
      some (timerVisit { s with scan := if i + 1 < maxSoftTimers then some (now, i + 1) else none } i now)
    | none => none

/-! ## What fresh means -/

/-- Is the timer in the slot armed behind the event? -/
def armedAfter (i : Nat) (was : Bool) : TimerEvent → Bool
  | .created j | .cancelled j | .destroyed j => if j = i then false else was
  | .armed j => if j = i then true else was
  | .called .. => was

/-- It has been armed since it was created, and neither cancelled nor destroyed since. -/
def armedBy (log : List TimerEvent) (i : Nat) : Bool := log.foldl (armedAfter i) false

/-- Every callback called is that of a timer armed by then. -/
def Fresh (log : List TimerEvent) : Prop :=
  ∀ before i callback arg now behind, log = before ++ .called i callback arg now :: behind → armedBy before i = true

/-- A slot that is created anew holds no expiry. -/
def SlotClear (s : TimerState) : TimerOp → Prop
  | .create _ _ => ∀ i, freeSlot s = some i → (s.softTimers i).expiry = 0
  | _ => True

/-! ## Events -/

section

variable {s s' : TimerState} {t : SoftTimer} {e : TimerEvent} {log : List TimerEvent} {i j : Nat} {op : TimerOp}

/-- The slot an event is about. -/
def TimerEvent.slot : TimerEvent → Nat
  | .created i | .armed i | .cancelled i | .destroyed i | .called i _ _ _ => i

theorem armedBy_concat : armedBy (log ++ [e]) i = armedAfter i (armedBy log i) e := List.foldl_concat ..

theorem armedAfter_other (h : e.slot ≠ i) (was : Bool) : armedAfter i was e = was := by
  cases e <;> simp_all [armedAfter, TimerEvent.slot]

theorem Fresh.concat (h : Fresh log) (he : ∀ i callback arg now, e = .called i callback arg now → armedBy log i = true) :
    Fresh (log ++ [e]) := by
  intro before i callback arg now behind heq
  -- the call is the last event, or one of those before
  rcases List.eq_nil_or_concat behind with rfl | ⟨behind, last, rfl⟩
  · obtain ⟨rfl, hlast⟩ := List.append_inj' heq rfl
    exact he i callback arg now (List.cons.inj hlast).1
  · have hsplit : log ++ [e] = (before ++ .called i callback arg now :: behind) ++ [last] := by simp [heq]
    exact h before i callback arg now behind (List.append_inj' hsplit rfl).1

/-! ## The invariant -/

/-- A slot with an expiry that can be reached is armed. -/
structure TimersOk (s : TimerState) : Prop where
  armed : ∀ i, (s.softTimers i).active = true → (s.softTimers i).expiry ≠ 0 → armedBy s.log i = true
  fresh : Fresh s.log

/-- The rule for a change of one slot. -/
theorem TimersOk.put (h : TimersOk s) (hslot : e.slot = i)
    (harmed : t.active = true → t.expiry ≠ 0 → armedAfter i (armedBy s.log i) e = true)
    (hcall : ∀ j callback arg now, e = .called j callback arg now → armedBy s.log j = true) :
    TimersOk (s.put i t e) := by
  refine ⟨fun j hactive hexpiry => ?_, h.fresh.concat hcall⟩
  rw [TimerState.put, armedBy_concat]
  by_cases hj : j = i
  · subst hj
    simp only [TimerState.put, Function.update_self] at hactive hexpiry
    exact harmed hactive hexpiry
  · simp only [TimerState.put, Function.update_of_ne hj] at hactive hexpiry
    rw [armedAfter_other (by rw [hslot]; exact Ne.symm hj)]
    exact h.armed j hactive hexpiry

theorem TimersOk.create (h : TimersOk s) {callback : Option Nat} {arg : Nat} (hclear : SlotClear s (.create callback arg)) :
    TimersOk (timerCreate s callback arg).2 := by
  unfold timerCreate
  split
  · rename_i i hfree
    refine h.put rfl (fun _ hexpiry => absurd (hclear i hfree) hexpiry) ?_
    intro j callback arg now heq
    cases heq
  · exact h

theorem TimersOk.withHandle (h : TimersOk s) {handle : Int} {f : Nat → TimerState} (hf : ∀ i, TimersOk (f i)) :
    TimersOk (withHandle s handle f) := by
  unfold Timer.withHandle
  split
  · exact h
  · exact hf _

theorem TimersOk.set (h : TimersOk s) (handle : Int) (ms interval : UInt32) (now : UInt64) :
    TimersOk (timerSet s handle ms interval now) := by
  refine h.withHandle fun i => ?_
  split
  · refine h.put rfl (fun _ _ => by simp [armedAfter]) ?_
    intro j callback arg now heq
    cases heq
  · exact h

theorem TimersOk.cancel (h : TimersOk s) (handle : Int) : TimersOk (timerCancel s handle) := by
  refine h.withHandle fun i => h.put rfl (fun _ hexpiry => absurd rfl hexpiry) ?_
  intro j callback arg now heq
  cases heq

theorem TimersOk.destroy (h : TimersOk s) (handle : Int) : TimersOk (timerDestroy s handle) := by
  refine h.withHandle fun i => h.put rfl (fun hactive => absurd hactive (by simp)) ?_
  intro j callback arg now heq
  cases heq

/-- Where the update is does not matter. -/
theorem TimersOk.scan (h : TimersOk s) (scan : Option (UInt64 × Nat)) : TimersOk { s with scan := scan } :=
  ⟨h.armed, h.fresh⟩

theorem TimersOk.visit (h : TimersOk s) (i : Nat) (now : UInt64) : TimersOk (timerVisit s i now) := by
  unfold timerVisit
  split
  · exact h
  · rename_i hactive
    split
    · exact h
    · rename_i hexpiry
      have harmed : armedBy s.log i = true := h.armed i (by simpa using hactive) hexpiry
      split
      · unfold timerExpire
        dsimp only
        split
        · refine h.put rfl (fun _ _ => harmed) ?_
          rintro j callback arg now ⟨⟩
          exact harmed
        · -- no callback, so nothing happens but the change of the expiry
          refine ⟨fun j hactive hexpiry => ?_, h.fresh⟩
          by_cases hj : j = i
          · exact hj ▸ harmed
          · simp only [Function.update_of_ne hj] at hactive hexpiry
            exact h.armed j hactive hexpiry
      · exact h

theorem TimersOk.step (h : TimersOk s) (hclear : SlotClear s op) (hs : timerStep s op = some s') : TimersOk s' := by
  cases op with
  | create callback arg =>
    obtain rfl := Option.some.inj hs
    exact h.create hclear
  | setOneshot handle ms now =>
    obtain rfl := Option.some.inj hs
    exact h.set handle ms 0 now
  | setPeriodic handle ms now =>
    obtain rfl := Option.some.inj hs
    exact h.set handle ms ms now
  | cancel handle =>
    obtain rfl := Option.some.inj hs
    exact h.cancel handle
  | destroy handle =>
    obtain rfl := Option.some.inj hs
    exact h.destroy handle
  | update now =>
    simp only [timerStep] at hs
    split at hs
    · obtain rfl := Option.some.inj hs
      exact h.scan _
    · cases hs
  | visit =>
    simp only [timerStep] at hs
    split at hs
    · obtain rfl := Option.some.inj hs
      exact (h.scan _).visit _ _
    · cases hs

/-- `SlotClear`, as a run on fixed inputs evaluates it. -/
def slotClear (s : TimerState) : TimerOp → Bool
  | .create _ _ => (freeSlot s).all fun i => (s.softTimers i).expiry == 0
  | _ => true

theorem slotClear_of_check (h : slotClear s op = true) : SlotClear s op := by
  cases op with
  | create callback arg =>
    intro i hfree
    simpa [slotClear, hfree] using h
  | _ => trivial

theorem timersOk_init : TimersOk timerInit := by
  refine ⟨fun i hactive => absurd hactive (by simp [timerInit]), ?_⟩
  intro before i callback arg now behind heq
  simp [timerInit] at heq

end

/-- **No callback of a timer that is not armed**, in every run in which no slot is taken over with
    an expiry left in it. -/
theorem callbacks_fresh {ops : List TimerOp} (hclear : Meets timerStep SlotClear timerInit ops) :
    Always timerStep (fun s => Fresh s.log) timerInit ops :=
  (always_of_meets (fun _ _ _ h hg hs => TimersOk.step h hg hs) timersOk_init hclear).mono fun _ h => h.fresh

/-- A timer is armed, fires, and is destroyed; its slot is taken over. -/
theorem callbacks_fresh_taken_over :
    Always timerStep (fun s => Fresh s.log) timerInit
      [.create (some 7) 1, .setOneshot 0 5 0, .update 10, .visit, .destroy 0, .create (some 8) 2, .visit] :=
  callbacks_fresh (meets_of_check slotClear (fun _ _ => slotClear_of_check) (by decide))

/-- It is destroyed before it fires: the callback of the next owner is called, who has armed nothing. -/
theorem stale_expiry_fires :
    ¬ Always timerStep (fun s => Fresh s.log) timerInit
        [.create (some 7) 1, .setOneshot 0 5 0, .destroy 0, .create (some 8) 2, .update 10, .visit] := by
  intro h
  have hfresh := h.last (eq_some_getD timerInit (by decide))
  have harmed := hfresh [.created 0, .armed 0, .destroyed 0, .created 0] 0 8 2 10 [] (by decide)
  exact absurd harmed (by decide)

end Crimson.Timer
