import Crimson.Timer.Soft
import Mathlib.Algebra.Group.Nat.Defs
import Mathlib.Data.List.Basic

/-!
# When software timers fire (`timer.c`)

A timer that is armed and then left alone: the times at which its callback is called are a
function of the times of the updates, and of those only. The other slots may be created, armed,
cancelled and destroyed between any two steps of an update, as their callbacks do.

`fireTimes` is what the code computes on the times it sees the slot at; `oneshotTimes` and
`periodicTimes` are when a timer should fire.
-/

set_option autoImplicit false

namespace Crimson.Timer

open Crimson.Lib

/-! ## When a timer should fire -/

/-- At the first time that is `due` or later. -/
def oneshotTimes (due : Nat) (seen : List UInt64) : List UInt64 := (seen.find? fun now => due ≤ now.toNat).toList

/-- At the first time that is `due` or later, and then at each first time at least `ms` after the last call. -/
def periodicTimes (ms : Nat) : Nat → List UInt64 → List UInt64
  | _, [] => []
  | due, now :: seen =>
    if due ≤ now.toNat then now :: periodicTimes ms (now.toNat + ms) seen else periodicTimes ms due seen

/-! ## What is seen of a run -/

/-- Nothing is done with the timer itself. -/
def leavesAlone (i : Nat) : TimerOp → Bool
  | .setOneshot handle _ _ | .setPeriodic handle _ _ | .cancel handle | .destroy handle => handle != i
  | .create .. | .update _ | .visit => true

/-- The times of the updates. -/
def updateTimes (ops : List TimerOp) : List UInt64 :=
  ops.filterMap fun
    | .update now => some now
    | _ => none

/-- The time of the update that is under way, if it has still to come to the slot. -/
def pendingVisit (s : TimerState) (i : Nat) : List UInt64 :=
  match s.scan with
  | some (now, j) => if j ≤ i then [now] else []
  | none => []

/-- The calls of the slot's callback: which, with what, and when. -/
def callsOf (i : Nat) (log : List TimerEvent) : List (Nat × Nat × UInt64) :=
  log.filterMap fun
    | .called j callback arg now => if j = i then some (callback, arg, now) else none
    | _ => none

/-! ## The slot, update by update -/

/-- Is a timer with this expiry called? -/
def fires (expiry now : UInt64) : Bool := expiry != 0 && expiry ≤ now

/-- The expiry once an update has come by. -/
def nextExpiry (interval : UInt32) (expiry now : UInt64) : UInt64 :=
  if fires expiry now then if 0 < interval then now + interval.toUInt64 else 0 else expiry

/-- The updates, of those that come by, at which it is called. -/
def fireTimes (interval : UInt32) : UInt64 → List UInt64 → List UInt64
  | _, [] => []
  | expiry, now :: seen =>
    (if fires expiry now then [now] else []) ++ fireTimes interval (nextExpiry interval expiry now) seen

section

variable {s s' : TimerState} {t : SoftTimer} {i j : Nat} {op : TimerOp} {ops : List TimerOp} {callback arg : Nat}
  {expiry : UInt64} {seen : List UInt64}

/-- The slot is as it was, and so are the calls of its callback. -/
structure Untouched (i : Nat) (s s' : TimerState) : Prop where
  slot : s'.softTimers i = s.softTimers i
  calls : callsOf i s'.log = callsOf i s.log
  scan : s'.scan = s.scan

@[simp] theorem callsOf_append (log log' : List TimerEvent) : callsOf i (log ++ log') = callsOf i log ++ callsOf i log' :=
  List.filterMap_append

theorem callsOf_other {e : TimerEvent} (h : e.slot ≠ i) : callsOf i [e] = [] := by
  cases e <;> simp_all [callsOf, TimerEvent.slot]

theorem Untouched.refl (i : Nat) (s : TimerState) : Untouched i s s := ⟨rfl, rfl, rfl⟩

theorem Untouched.put {e : TimerEvent} (hslot : e.slot = j) (h : j ≠ i) : Untouched i s (s.put j t e) := by
  refine ⟨Function.update_of_ne (Ne.symm h) .., ?_, rfl⟩
  rw [TimerState.put, callsOf_append, callsOf_other (by rw [hslot]; exact h), List.append_nil]

/-- The functions with a handle touch the slot of no other timer. -/
theorem Untouched.withHandle {handle : Int} {f : Nat → TimerState} (h : (handle != i) = true)
    (hf : ∀ j, j ≠ i → Untouched i s (f j)) : Untouched i s (withHandle s handle f) := by
  unfold Timer.withHandle
  split
  · exact Untouched.refl i s
  · rename_i hhandle
    refine hf _ fun heq => ?_
    have hne : handle ≠ i := by simpa using h
    omega

theorem Untouched.set {handle : Int} (ms interval : UInt32) (now : UInt64) (h : (handle != i) = true) :
    Untouched i s (timerSet s handle ms interval now) := by
  refine Untouched.withHandle h fun j hj => ?_
  split
  · exact Untouched.put rfl hj
  · exact Untouched.refl i s

/-- A free slot is not the slot of an active timer. -/
theorem Untouched.create (hactive : (s.softTimers i).active = true) (callback : Option Nat) (arg : Nat) :
    Untouched i s (timerCreate s callback arg).2 := by
  unfold timerCreate
  split
  · rename_i j hfree
    refine Untouched.put rfl ?_
    rintro rfl
    have hinactive := List.find?_some hfree
    simp [hactive] at hinactive
  · exact Untouched.refl i s

theorem Untouched.visit (h : j ≠ i) (now : UInt64) : Untouched i s (timerVisit s j now) := by
  unfold timerVisit
  split
  · exact Untouched.refl i s
  · split
    · exact Untouched.refl i s
    · split
      · unfold timerExpire
        dsimp only
        split
        · exact Untouched.put rfl h
        · exact ⟨Function.update_of_ne (Ne.symm h) .., rfl, rfl⟩
      · exact Untouched.refl i s

/-! ## Step by step -/

/-- A timer that has a callback. -/
structure Armed (s : TimerState) (i callback arg : Nat) (interval : UInt32) (expiry : UInt64) : Prop where
  active : (s.softTimers i).active = true
  callback : (s.softTimers i).callback = some callback
  arg : (s.softTimers i).arg = arg
  interval : (s.softTimers i).interval = interval
  expiry : (s.softTimers i).expiry = expiry

variable {interval : UInt32}

theorem Armed.untouched (h : Armed s i callback arg interval expiry) (hs : Untouched i s s') :
    Armed s' i callback arg interval expiry := by
  obtain ⟨hslot, -, -⟩ := hs
  exact ⟨hslot ▸ h.active, hslot ▸ h.callback, hslot ▸ h.arg, hslot ▸ h.interval, hslot ▸ h.expiry⟩

/-- Its own visit: the expiry moves on, and the callback is called if the timer has expired. -/
theorem Armed.visit (h : Armed s i callback arg interval expiry) (now : UInt64) :
    Armed (timerVisit s i now) i callback arg interval (nextExpiry interval expiry now) ∧
      callsOf i (timerVisit s i now).log = callsOf i s.log ++ (if fires expiry now then [(callback, arg, now)] else []) := by
  obtain ⟨hactive, hcallback, rfl, rfl, rfl⟩ := h
  unfold timerVisit
  rw [if_neg (by simp [hactive])]
  have quiet (hfires : fires (s.softTimers i).expiry now = false) :
      Armed s i callback (s.softTimers i).arg (s.softTimers i).interval
          (nextExpiry (s.softTimers i).interval (s.softTimers i).expiry now) ∧
        callsOf i s.log = callsOf i s.log ++
          (if fires (s.softTimers i).expiry now then [(callback, (s.softTimers i).arg, now)] else []) := by
    refine ⟨⟨hactive, hcallback, rfl, rfl, ?_⟩, ?_⟩
    · simp [nextExpiry, hfires]
    · simp [hfires]
  split
  · rename_i hzero
    exact quiet (by simp [fires, hzero])
  · rename_i hzero
    split
    · rename_i hle
      have hfires : fires (s.softTimers i).expiry now = true := by simp [fires, hzero, hle]
      simp only [timerExpire, hcallback, nextExpiry, hfires, if_true]
      refine ⟨?_, ?_⟩
      · constructor <;> simp [TimerState.put, hactive]
      · rw [TimerState.put, callsOf_append]
        simp [callsOf]
    · rename_i hle
      exact quiet (by simp [fires, hle])

theorem timerVisit_scan (now : UInt64) : (timerVisit s j now).scan = s.scan := by
  unfold timerVisit
  split
  · rfl
  · split
    · rfl
    · split
      · unfold timerExpire
        dsimp only
        split <;> rfl
      · rfl

theorem pendingVisit_of_scan (h : s'.scan = s.scan) : pendingVisit s' i = pendingVisit s i := by
  rw [pendingVisit, pendingVisit, h]

/-- An update that comes to slot `j` has it to come to, or the next one. -/
theorem pendingVisit_next (hi : i < maxSoftTimers) {now : UInt64} (hscan : s.scan = some (now, j)) :
    pendingVisit s i = (if j = i then [now] else []) ++
      pendingVisit { s with scan := if j + 1 < maxSoftTimers then some (now, j + 1) else none } i := by
  simp only [pendingVisit, hscan]
  by_cases hnext : j + 1 < maxSoftTimers
  · rw [if_pos hnext]
    rcases Nat.lt_trichotomy j i with hlt | rfl | hlt
    · simp [show j ≤ i by omega, show j ≠ i by omega, show j + 1 ≤ i by omega]
    · simp
    · simp [show ¬ j ≤ i by omega, show j ≠ i by omega, show ¬ j + 1 ≤ i by omega]
  · -- the last slot, and `i` is not behind it
    rw [if_neg hnext]
    rcases Nat.lt_trichotomy j i with hlt | rfl | hlt
    · omega
    · simp
    · simp [show ¬ j ≤ i by omega, show j ≠ i by omega]

/-- The times `seen` come by, and the timer is called at those of `fireTimes`. -/
structure Fired (i callback arg : Nat) (interval : UInt32) (expiry : UInt64) (s : TimerState) (ops : List TimerOp)
    (s' : TimerState) (seen : List UInt64) : Prop where
  pending : pendingVisit s i ++ updateTimes ops = seen ++ pendingVisit s' i
  calls : callsOf i s'.log = callsOf i s.log ++ (fireTimes interval expiry seen).map fun now => (callback, arg, now)

/-- The expiry behind the updates that have come by. -/
def expiryBehind (interval : UInt32) (expiry : UInt64) (seen : List UInt64) : UInt64 :=
  seen.foldl (nextExpiry interval) expiry

theorem fireTimes_append (interval : UInt32) (expiry : UInt64) (seen seen' : List UInt64) :
    fireTimes interval expiry (seen ++ seen') =
      fireTimes interval expiry seen ++ fireTimes interval (expiryBehind interval expiry seen) seen' := by
  induction seen generalizing expiry with
  | nil => rfl
  | cons now seen ih => simp [fireTimes, expiryBehind, ih]

theorem Fired.refl (s : TimerState) : Fired i callback arg interval expiry s [] s [] := by
  refine ⟨?_, ?_⟩
  · simp [updateTimes]
  · simp [fireTimes]

theorem Fired.trans {s₁ : TimerState} {ops' : List TimerOp} {seen' : List UInt64}
    (h : Fired i callback arg interval expiry s ops s₁ seen)
    (h' : Fired i callback arg interval (expiryBehind interval expiry seen) s₁ ops' s' seen') :
    Fired i callback arg interval expiry s (ops ++ ops') s' (seen ++ seen') := by
  refine ⟨?_, ?_⟩
  · have happend : updateTimes (ops ++ ops') = updateTimes ops ++ updateTimes ops' := List.filterMap_append
    rw [happend, ← List.append_assoc, h.pending, List.append_assoc, h'.pending, List.append_assoc]
  · rw [h'.calls, h.calls, fireTimes_append, List.map_append, List.append_assoc]

theorem Fired.untouched (h : Untouched i s s') (hop : updateTimes [op] = []) :
    Fired i callback arg interval expiry s [op] s' [] := by
  refine ⟨?_, ?_⟩
  · rw [hop, List.append_nil, List.nil_append, pendingVisit, pendingVisit, h.scan]
  · rw [h.calls, fireTimes, List.map_nil, List.append_nil]

/-- A step, with the times of the updates that come by in it: one, if it is the timer's own visit. -/
theorem Armed.step (hi : i < maxSoftTimers) (h : Armed s i callback arg interval expiry)
    (halone : leavesAlone i op = true) (hs : timerStep s op = some s') :
    ∃ seen, Armed s' i callback arg interval (expiryBehind interval expiry seen) ∧
      Fired i callback arg interval expiry s [op] s' seen := by
  have quiet (hu : Untouched i s s') (hop : updateTimes [op] = []) :
      ∃ seen, Armed s' i callback arg interval (expiryBehind interval expiry seen) ∧
        Fired i callback arg interval expiry s [op] s' seen :=
    ⟨[], h.untouched hu, Fired.untouched hu hop⟩
  cases op with
  | create callback arg =>
    obtain rfl := Option.some.inj hs
    exact quiet (Untouched.create h.active callback arg) rfl
  | setOneshot handle ms now =>
    obtain rfl := Option.some.inj hs
    exact quiet (Untouched.set ms 0 now halone) rfl
  | setPeriodic handle ms now =>
    obtain rfl := Option.some.inj hs
    exact quiet (Untouched.set ms ms now halone) rfl
  | cancel handle =>
    obtain rfl := Option.some.inj hs
    exact quiet (Untouched.withHandle halone fun j hj => Untouched.put rfl hj) rfl
  | destroy handle =>
    obtain rfl := Option.some.inj hs
    exact quiet (Untouched.withHandle halone fun j hj => Untouched.put rfl hj) rfl
  | update now =>
    simp only [timerStep] at hs
    split at hs
    · -- its time is pending now, and no slot has been come to
      rename_i hscan
      obtain rfl := Option.some.inj hs
      refine ⟨[], ⟨h.active, h.callback, h.arg, h.interval, h.expiry⟩, ?_, ?_⟩
      · simp [pendingVisit, hscan, updateTimes]
      · simp [fireTimes]
    · cases hs
  | visit =>
    simp only [timerStep] at hs
    split at hs
    · rename_i now j hscan
      obtain rfl := Option.some.inj hs
      by_cases hj : j = i
      · -- its turn: the visit of the slot itself
        subst hj
        have hscanned : Armed { s with scan := if j + 1 < maxSoftTimers then some (now, j + 1) else none }
          j callback arg interval expiry := ⟨h.active, h.callback, h.arg, h.interval, h.expiry⟩
        obtain ⟨harmed, hcalls⟩ := hscanned.visit now
        refine ⟨[now], harmed, ?_, ?_⟩
        · rw [pendingVisit_next hi hscan, if_pos rfl, pendingVisit_of_scan (timerVisit_scan now)]
          simp [updateTimes]
        · rw [hcalls, fireTimes, fireTimes, List.append_nil]
          by_cases hfires : fires expiry now <;> simp [hfires]
      · -- another slot's: what is pending stays so
        have hu : Untouched i { s with scan := if j + 1 < maxSoftTimers then some (now, j + 1) else none } _ :=
          Untouched.visit hj now
        have hscanned : Armed { s with scan := if j + 1 < maxSoftTimers then some (now, j + 1) else none }
          i callback arg interval expiry := ⟨h.active, h.callback, h.arg, h.interval, h.expiry⟩
        refine ⟨[], hscanned.untouched hu, ?_, ?_⟩
        · rw [pendingVisit_next hi hscan, if_neg hj, pendingVisit_of_scan hu.scan]
          simp [updateTimes]
        · rw [hu.calls, fireTimes, List.map_nil, List.append_nil]
    · cases hs

/-- **Over a run**: what is called depends on the times of the updates only. -/
theorem Armed.run (hi : i < maxSoftTimers) (h : Armed s i callback arg interval expiry)
    (halone : ∀ op ∈ ops, leavesAlone i op = true) (hr : run timerStep s ops = some s') :
    ∃ seen, Fired i callback arg interval expiry s ops s' seen := by
  induction ops generalizing s expiry with
  | nil =>
    obtain rfl := Option.some.inj hr
    exact ⟨[], Fired.refl s⟩
  | cons op ops ih =>
    simp only [Lib.run, Option.bind_eq_some_iff] at hr
    obtain ⟨s₁, hs, hr⟩ := hr
    obtain ⟨seen, harmed, hfired⟩ := h.step hi (halone op (by simp)) hs
    obtain ⟨seen', hfired'⟩ := ih harmed (fun op hop => halone op (by simp [hop])) hr
    exact ⟨seen ++ seen', hfired.trans hfired'⟩

/-! ## The times -/

/-- With no expiry, never. -/
theorem fireTimes_zero (interval : UInt32) (seen : List UInt64) : fireTimes interval 0 seen = [] := by
  induction seen with
  | nil => rfl
  | cons now seen ih =>
    have hfires : fires 0 now = false := by simp [fires]
    simp [fireTimes, nextExpiry, hfires, ih]

theorem fires_iff {now : UInt64} (hexpiry : expiry ≠ 0) : fires expiry now = decide (expiry.toNat ≤ now.toNat) := by
  simp [fires, hexpiry, UInt64.le_iff_toNat_le]

theorem fireTimes_oneshot (hexpiry : expiry ≠ 0) (seen : List UInt64) :
    fireTimes 0 expiry seen = oneshotTimes expiry.toNat seen := by
  induction seen with
  | nil => rfl
  | cons now seen ih =>
    by_cases hdue : expiry.toNat ≤ now.toNat
    · have hnext : nextExpiry 0 expiry now = 0 := by simp [nextExpiry, fires_iff hexpiry, hdue]
      simp [fireTimes, oneshotTimes, hnext, fireTimes_zero, fires_iff hexpiry, hdue]
    · have hnext : nextExpiry 0 expiry now = expiry := by simp [nextExpiry, fires_iff hexpiry, hdue]
      simp [fireTimes, oneshotTimes, hnext, ih, fires_iff hexpiry, hdue]

theorem toNat_add_ms {now : UInt64} {ms : UInt32} (h : now.toNat + ms.toNat < 2 ^ 64) :
    (now + ms.toUInt64).toNat = now.toNat + ms.toNat := by
  rw [UInt64.toNat_add, UInt32.toNat_toUInt64, Nat.mod_eq_of_lt h]

theorem add_ms_ne_zero {now : UInt64} {ms : UInt32} (h : now.toNat + ms.toNat < 2 ^ 64) (hpos : 0 < now.toNat + ms.toNat) :
    now + ms.toUInt64 ≠ 0 := by
  intro hzero
  rw [← toNat_add_ms h, hzero] at hpos
  exact absurd hpos (by decide)

/-- The next expiry of a periodic timer counts from the call, not from the expiry before it. -/
theorem fireTimes_periodic {ms : UInt32} (hms : 0 < ms.toNat) (hexpiry : expiry ≠ 0)
    (hfits : ∀ now ∈ seen, now.toNat + ms.toNat < 2 ^ 64) :
    fireTimes ms expiry seen = periodicTimes ms.toNat expiry.toNat seen := by
  induction seen generalizing expiry with
  | nil => rfl
  | cons now seen ih =>
    have hnow := hfits now (by simp)
    have hrest : ∀ now ∈ seen, now.toNat + ms.toNat < 2 ^ 64 := fun now hmem => hfits now (by simp [hmem])
    have hpos : 0 < ms := hms
    by_cases hdue : expiry.toNat ≤ now.toNat
    · have hnext : nextExpiry ms expiry now = now + ms.toUInt64 := by simp [nextExpiry, fires_iff hexpiry, hdue, hpos]
      -- the new expiry must not be 0, which would stop the timer
      have hcall := ih (add_ms_ne_zero hnow (by omega)) hrest
      rw [toNat_add_ms hnow] at hcall
      simp [fireTimes, periodicTimes, hnext, hcall, fires_iff hexpiry, hdue]
    · have hnext : nextExpiry ms expiry now = expiry := by simp [nextExpiry, fires_iff hexpiry, hdue]
      simp [fireTimes, periodicTimes, hnext, ih hexpiry hrest, fires_iff hexpiry, hdue]

/-- A set call on an active timer. -/
theorem Armed.of_set (ms interval : UInt32) (t₀ : UInt64) (hi : i < maxSoftTimers)
    (hactive : (s.softTimers i).active = true) (hcallback : (s.softTimers i).callback = some callback) :
    Armed (timerSet s i ms interval t₀) i callback (s.softTimers i).arg interval (t₀ + ms.toUInt64) ∧
      callsOf i (timerSet s i ms interval t₀).log = callsOf i s.log ∧
      pendingVisit (timerSet s i ms interval t₀) i = pendingVisit s i := by
  have hhandle : ¬ ((i : Int) < 0 ∨ (maxSoftTimers : Int) ≤ i) := by omega
  simp only [timerSet, withHandle, if_neg hhandle, Int.toNat_natCast, if_pos hactive]
  refine ⟨?_, ?_, rfl⟩
  · constructor <;> simp [TimerState.put, hactive, hcallback]
  · rw [TimerState.put, callsOf_append]
    simp [callsOf]

end

/-- **When a timer fires.** An active timer is armed at `t₀` with a delay of `ms` and then left alone; its
    callback is called at those of the update times that come by it which `oneshotTimes` and
    `periodicTimes` name. Every update comes by, but for one that has still to come to the timer. -/
theorem timer_schedule {s : TimerState} {i callback : Nat} (hi : i < maxSoftTimers)
    (hactive : (s.softTimers i).active = true) (hcallback : (s.softTimers i).callback = some callback)
    (t₀ : UInt64) (ms : UInt32) (hpos : 0 < t₀.toNat + ms.toNat) (hfits : t₀.toNat + ms.toNat < 2 ^ 64)
    {ops : List TimerOp} (halone : ∀ op ∈ ops, leavesAlone i op = true) :
    (∀ s', run timerStep (timerSetOneshot s i ms t₀) ops = some s' →
      ∃ seen, pendingVisit s i ++ updateTimes ops = seen ++ pendingVisit s' i ∧
        callsOf i s'.log = callsOf i s.log ++ (oneshotTimes (t₀.toNat + ms.toNat) seen).map
          fun now => (callback, (s.softTimers i).arg, now)) ∧
    (0 < ms.toNat → (∀ now ∈ pendingVisit s i ++ updateTimes ops, now.toNat + ms.toNat < 2 ^ 64) →
      ∀ s', run timerStep (timerSetPeriodic s i ms t₀) ops = some s' →
        ∃ seen, pendingVisit s i ++ updateTimes ops = seen ++ pendingVisit s' i ∧
          callsOf i s'.log = callsOf i s.log ++ (periodicTimes ms.toNat (t₀.toNat + ms.toNat) seen).map
            fun now => (callback, (s.softTimers i).arg, now)) := by
  have hexpiry := add_ms_ne_zero hfits hpos
  refine ⟨fun s' hr => ?_, fun hms htimes s' hr => ?_⟩
  · obtain ⟨harmed, hcalls, hpending⟩ := Armed.of_set ms 0 t₀ hi hactive hcallback
    obtain ⟨seen, hfired⟩ := harmed.run hi halone hr
    refine ⟨seen, hpending ▸ hfired.pending, ?_⟩
    rw [hfired.calls, hcalls, fireTimes_oneshot hexpiry, toNat_add_ms hfits]
  · obtain ⟨harmed, hcalls, hpending⟩ := Armed.of_set ms ms t₀ hi hactive hcallback
    obtain ⟨seen, hfired⟩ := harmed.run hi halone hr
    have hseen := hpending ▸ hfired.pending
    have hfit : ∀ now ∈ seen, now.toNat + ms.toNat < 2 ^ 64 := fun now hmem => htimes now (by rw [hseen]; simp [hmem])
    refine ⟨seen, hseen, ?_⟩
    rw [hfired.calls, hcalls, fireTimes_periodic hms hexpiry hfit, toNat_add_ms hfits]

/-- An update in which no callback calls any of the functions. -/
def wholeUpdate (now : UInt64) : List TimerOp := .update now :: List.replicate maxSoftTimers .visit

/-- Two timers at the time 5; the second is armed in the first update. -/
theorem timer_schedule_two :
    let s := (timerCreate (timerCreate timerInit (some 7) 1).2 (some 8) 2).2
    let ops := [.update 9, .visit, .setOneshot 1 3 9] ++ List.replicate 15 .visit ++ wholeUpdate 11 ++ wholeUpdate 14
    (∃ s' seen, run timerStep (timerSetOneshot s 0 5 5) ops = some s' ∧ [9, 11, 14] = seen ++ pendingVisit s' 0 ∧
      callsOf 0 s'.log = (oneshotTimes 10 seen).map fun now => (7, 1, now)) ∧
    (∃ s' seen, run timerStep (timerSetPeriodic s 0 5 5) ops = some s' ∧ [9, 11, 14] = seen ++ pendingVisit s' 0 ∧
      callsOf 0 s'.log = (periodicTimes 5 10 seen).map fun now => (7, 1, now)) := by
  intro s ops
  have halone : ∀ op ∈ ops, leavesAlone 0 op = true := List.all_eq_true.mp (by decide)
  have h := timer_schedule (s := s) (i := 0) (by decide) (by decide) rfl 5 5 (by decide) (by decide) halone
  have hone := eq_some_getD timerInit (o := run timerStep (timerSetOneshot s 0 5 5) ops) (by decide)
  have hperiodic := eq_some_getD timerInit (o := run timerStep (timerSetPeriodic s 0 5 5) ops) (by decide)
  have htimes : pendingVisit s 0 ++ updateTimes ops = [9, 11, 14] := by decide
  have hnone : callsOf 0 s.log = [] := by decide
  have harg : (s.softTimers 0).arg = 1 := by decide
  have hdue : (5 : UInt64).toNat + (5 : UInt32).toNat = 10 := by decide
  have hms : (5 : UInt32).toNat = 5 := by decide
  have hfits : ∀ now ∈ [9, 11, 14], UInt64.toNat now + (5 : UInt32).toNat < 2 ^ 64 := by simp
  rw [htimes, hnone, harg, hdue] at h
  obtain ⟨seen, hseen, hcalls⟩ := h.1 _ hone
  obtain ⟨seen', hseen', hcalls'⟩ := h.2 (by decide) hfits _ hperiodic
  rw [hms] at hcalls'
  exact ⟨⟨_, seen, hone, hseen, hcalls⟩, ⟨_, seen', hperiodic, hseen', hcalls'⟩⟩

/-- With a period of 0 a timer fires once, and so it is not called at the second update; and where the
    sum does not fit into 64 bits, a timer fires long before its time. -/
theorem schedule_broken :
    (∃ s', run timerStep (timerSetPeriodic (timerCreate timerInit (some 7) 1).2 0 0 5)
        (wholeUpdate 6 ++ wholeUpdate 7) = some s' ∧
      callsOf 0 s'.log = [(7, 1, 6)] ∧ periodicTimes 0 5 [6, 7] = [6, 7]) ∧
    (∃ s', run timerStep (timerSetOneshot (timerCreate timerInit (some 7) 1).2 0 2 18446744073709551615)
        (wholeUpdate 18446744073709551615) = some s' ∧
      callsOf 0 s'.log = [(7, 1, 18446744073709551615)] ∧
      oneshotTimes (18446744073709551615 + 2) [18446744073709551615] = []) := by
  refine ⟨⟨_, eq_some_getD timerInit (by decide), ?_, ?_⟩, ⟨_, eq_some_getD timerInit (by decide), ?_, ?_⟩⟩ <;> decide

end Crimson.Timer
