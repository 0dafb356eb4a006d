import Crimson.Power.Thermal
import Mathlib.Algebra.Group.Nat.Defs
import Mathlib.Data.List.Basic

/-!
# The frequency governor (`power.c`)

Everything that sets the frequency of the processor goes through `pm_set_cpu_freq`, which takes a
point of the table that is at most what is asked for, and at most `max_freq`, but only where the
processor is throttled. That this keeps the frequency at `max_freq` or below is an invariant of
the runs (`governor_freq`): a processor that is not throttled has the top point for its limit.
-/

set_option autoImplicit false

namespace Crimson.Power

open Crimson.Lib

/-- `gov_type`: `GOV_PERFORMANCE` and the others. -/
inductive Governor where
  | performance
  | powersave
  | ondemand
  | conservative
  | interactive
deriving DecidableEq, Repr

/-- `interactive_defaults`; the other tunables are not read. -/
def hispeedFreq : UInt32 := 1500000
def goHispeedLoad : UInt32 := 85
def targetLoads : UInt32 := 80

/-- `min_freq`, which `pm_init` sets and nothing else does. -/
def minFreq : UInt32 := lowOpp

/-- What of `g_pm` the governor, the display and suspending are about. -/
structure GovernorState where
  pm : PmState
  targetFreq : UInt32
  govType : Governor
  boost : Bool
  displayOn : UInt32
  suspendInProgress : Bool
deriving DecidableEq, Repr

/-- `pm_init`: the frequency it sets is the one there is. -/
def governorInit : GovernorState where
  pm := pmSetCpuFreq pmInit pmInit.curFreq
  targetFreq := pmInit.curFreq
  govType := .interactive
  boost := false
  displayOn := 1
  suspendInProgress := false

/-- `pm_set_cpu_freq`, on the whole state. -/
def GovernorState.setCpuFreq (s : GovernorState) (freq : UInt32) : GovernorState :=
  { s with pm := pmSetCpuFreq s.pm freq }

/-- The case of `GOV_ONDEMAND` in `pm_gov_timer`: to the next point above, or the next one below. -/
def ondemandGovernor (s : GovernorState) (load : UInt32) : GovernorState :=
  if 80 < load ∧ s.pm.curFreq < s.pm.maxFreq then
    match cpuOpps.find? fun opp => s.pm.curFreq < opp with
    | some opp => s.setCpuFreq opp
    | none => s
  else if load < 20 ∧ minFreq < s.pm.curFreq then
    match cpuOpps.reverse.find? fun opp => opp < s.pm.curFreq with
    | some opp => s.setCpuFreq opp
    | none => s
  else s

/-- `pm_interactive_governor`. The product is formed in 32 bits. -/
def pmInteractiveGovernor (s : GovernorState) (load : UInt32) : GovernorState :=
  if s.boost then { s with boost := false }.setCpuFreq hispeedFreq
  else if goHispeedLoad ≤ load then
    if s.pm.curFreq < hispeedFreq then s.setCpuFreq hispeedFreq
    else
      let freq := s.pm.curFreq * load / targetLoads
      s.setCpuFreq (if s.pm.maxFreq < freq then s.pm.maxFreq else freq)
  else if minFreq < s.pm.curFreq then
    let freq := s.pm.curFreq * load / targetLoads
    s.setCpuFreq (if freq < minFreq then minFreq else freq)
  else s

/-- `pm_gov_timer`, with what the scheduler and the zones answer; reading the battery sets nothing here. -/
def pmGovTimer (s : GovernorState) (load : UInt32) (thermals : List (Option ThermalZone)) : GovernorState :=
  let s :=
    match s.govType with
    | .ondemand => ondemandGovernor s load
    | .interactive => pmInteractiveGovernor s load
    | .performance | .powersave | .conservative => s
  { s with pm := pmThermalCheck s.pm thermals }

/-- `pm_set_governor`; another number than those of the governors is ignored. -/
def pmSetGovernor (s : GovernorState) (gov : UInt32) : GovernorState :=
  match gov with
  | 0 => { s with govType := .performance }.setCpuFreq s.pm.maxFreq
  | 1 => { s with govType := .powersave }.setCpuFreq minFreq
  | 2 => { s with govType := .ondemand }
  | 3 => { s with govType := .conservative }
  | 4 => { s with govType := .interactive }
  | _ => s

def pmBoostpulse (s : GovernorState) : GovernorState :=
  if s.govType = .interactive then
    { s with boost := true, targetFreq := hispeedFreq }.setCpuFreq hispeedFreq
  else s

def pmSetDisplayState (s : GovernorState) (on : UInt32) : GovernorState :=
  if on = s.displayOn then s
  else
    let s := { s with displayOn := on }
    if on ≠ 0 then { s with boost := true }
    else if s.govType = .interactive then s.setCpuFreq minFreq
    else s

/-- `pm_request_suspend`. `system_state` is never `POWER_STATE_SUSPEND`, so `pm_enter_suspend` waits for nothing. -/
def pmRequestSuspend (s : GovernorState) : GovernorState :=
  if s.suspendInProgress then s
  else { s with suspendInProgress := true, displayOn := 0 }.setCpuFreq minFreq

def pmRequestResume (s : GovernorState) : GovernorState :=
  { s with suspendInProgress := false, displayOn := 1 }.setCpuFreq s.targetFreq

inductive GovernorOp where
  | tick (load : UInt32) (thermals : List (Option ThermalZone))
  | setGovernor (gov : UInt32)
  | boostpulse
  | setDisplayState (on : UInt32)
  | requestSuspend
  | requestResume
deriving DecidableEq, Repr

def governorStep (s : GovernorState) : GovernorOp → Option GovernorState
  | .tick load thermals => some (pmGovTimer s load thermals)
  | .setGovernor gov => some (pmSetGovernor s gov)
  | .boostpulse => some (pmBoostpulse s)
  | .setDisplayState on => some (pmSetDisplayState s on)
  | .requestSuspend => some (pmRequestSuspend s)
  | .requestResume => some (pmRequestResume s)

/-! ## The points of the table -/

section

variable {s s' : PmState} {freq opp bound : UInt32}

theorem le_topOpp (h : opp ∈ cpuOpps) : opp ≤ topOpp := by
  have hall : (cpuOpps.all fun opp => decide (opp ≤ topOpp)) = true := by decide
  exact of_decide_eq_true (List.all_eq_true.mp hall opp h)

/-- The loop keeps what holds of the first point and of those it takes. -/
theorem nearestOpp_rule {P : UInt32 → Prop} (hlow : P lowOpp) (hopp : ∀ opp ∈ cpuOpps, opp ≤ freq → P opp) :
    P (nearestOpp freq) := by
  suffices h : ∀ opps : List UInt32, (∀ opp ∈ opps, opp ≤ freq → P opp) → ∀ best, P best →
      P (opps.foldl (fun best opp => if opp ≤ freq then opp else best) best) from h cpuOpps hopp lowOpp hlow
  intro opps
  induction opps with
  | nil =>
    intro _ best hbest
    exact hbest
  | cons opp opps ih =>
    intro hopps best hbest
    refine ih (fun opp' hmem => hopps opp' (by simp [hmem])) _ ?_
    dsimp only
    split
    · rename_i hle
      exact hopps opp (by simp) hle
    · exact hbest

theorem nearestOpp_mem (freq : UInt32) : nearestOpp freq ∈ cpuOpps :=
  nearestOpp_rule (by decide) fun _ hmem _ => hmem

theorem nearestOpp_le (hlow : lowOpp ≤ bound) (hfreq : freq ≤ bound) : nearestOpp freq ≤ bound :=
  nearestOpp_rule hlow fun _ _ hle => UInt32.le_trans hle hfreq

/-! ## The invariant -/

/-- The frequency is one of the points, within the limit; and the limit is that of a processor that is
    throttled, or there is none. -/
structure FreqOk (s : PmState) : Prop where
  point : s.curFreq ∈ cpuOpps
  within : s.curFreq ≤ s.maxFreq
  limits : PmOk s

theorem PmOk.lowOpp_le (h : PmOk s) : lowOpp ≤ s.maxFreq := by
  rcases h.limit with hmax | hmax | hmax <;> rw [hmax] <;> decide

/-- What is asked for is cut off at the limit, if there is one. -/
theorem setCpuFreq_curFreq (s : PmState) (freq : UInt32) : (pmSetCpuFreq s freq).curFreq =
    nearestOpp (if s.thermalThrottled ∧ s.maxFreq < freq then s.maxFreq else freq) := by
  dsimp only [pmSetCpuFreq]
  generalize (if s.thermalThrottled ∧ s.maxFreq < freq then s.maxFreq else freq) = freq
  split
  · rename_i hsame
    exact hsame.symm
  · rfl

/-- Whatever frequency is asked for. -/
theorem FreqOk.setCpuFreq (h : FreqOk s) (freq : UInt32) : FreqOk (pmSetCpuFreq s freq) := by
  refine ⟨?_, ?_, h.limits.setCpuFreq freq⟩
  · rw [setCpuFreq_curFreq]
    exact nearestOpp_mem _
  · rw [setCpuFreq_curFreq, (setCpuFreq_limit s freq).2]
    cases hthrottled : s.thermalThrottled with
    | true =>
      refine nearestOpp_le h.limits.lowOpp_le ?_
      split
      · exact UInt32.le_refl _
      · rename_i hle
        exact UInt32.not_lt.mp fun hlt => hle ⟨rfl, hlt⟩
    | false =>
      -- nothing is cut off, and the limit is the top point
      rw [h.limits.free hthrottled]
      exact le_topOpp (nearestOpp_mem _)

/-- A reading, in the range it lies in. -/
theorem FreqOk.act (h : FreqOk s) (r : Range) : FreqOk (act s r) := by
  have hok := h.limits.act r
  cases r with
  | cool =>
    simp only [Power.act] at hok ⊢
    split
    · rename_i hthrottled
      rw [if_pos hthrottled] at hok
      exact ⟨h.point, le_topOpp h.point, hok⟩
    · exact h
  | critical =>
    refine ⟨?_, ?_, hok⟩
    · simp only [Power.act]
      split
      · decide
      · exact h.point
    · simp only [Power.act]
      split
      · exact UInt32.le_refl _
      · rename_i hle
        exact UInt32.not_lt.mp hle
  | hot =>
    refine ⟨?_, ?_, hok⟩
    · simp only [Power.act]
      decide
    · exact UInt32.le_refl _
  | warm | emergency => exact h

theorem FreqOk.check (h : FreqOk s) (thermals : List (Option ThermalZone)) : FreqOk (pmThermalCheck s thermals) := by
  rw [check_eq]
  induction ranges thermals generalizing s with
  | nil => exact h
  | cons r rs ih => exact ih (h.act r)

end

section

variable {s s' : GovernorState} {op : GovernorOp}

theorem FreqOk.ondemand (h : FreqOk s.pm) (load : UInt32) : FreqOk (ondemandGovernor s load).pm := by
  unfold ondemandGovernor
  split
  · split
    · exact h.setCpuFreq _
    · exact h
  · split
    · split
      · exact h.setCpuFreq _
      · exact h
    · exact h

theorem FreqOk.interactive (h : FreqOk s.pm) (load : UInt32) : FreqOk (pmInteractiveGovernor s load).pm := by
  unfold pmInteractiveGovernor
  split
  · exact h.setCpuFreq _
  · split
    · split
      · exact h.setCpuFreq _
      · exact h.setCpuFreq _
    · split
      · exact h.setCpuFreq _
      · exact h

/-- Every call and every tick. -/
theorem FreqOk.step (h : FreqOk s.pm) (hs : governorStep s op = some s') : FreqOk s'.pm := by
  cases op with
  | tick load thermals =>
    obtain rfl := Option.some.inj hs
    refine FreqOk.check ?_ thermals
    -- which governor it is
    split
    · exact h.ondemand load
    · exact h.interactive load
    · exact h
    · exact h
    · exact h
  | setGovernor gov =>
    obtain rfl := Option.some.inj hs
    unfold pmSetGovernor
    split
    · exact h.setCpuFreq _
    · exact h.setCpuFreq _
    · exact h
    · exact h
    · exact h
    · exact h
  | boostpulse =>
    obtain rfl := Option.some.inj hs
    unfold pmBoostpulse
    split
    · exact h.setCpuFreq _
    · exact h
  | setDisplayState on =>
    obtain rfl := Option.some.inj hs
    unfold pmSetDisplayState
    dsimp only
    split
    · exact h
    · split
      · exact h
      · split
        · exact h.setCpuFreq _
        · exact h
  | requestSuspend =>
    obtain rfl := Option.some.inj hs
    unfold pmRequestSuspend
    split
    · exact h
    · exact h.setCpuFreq _
  | requestResume =>
    obtain rfl := Option.some.inj hs
    exact h.setCpuFreq _

theorem freqOk_init : FreqOk governorInit.pm := by
  refine ⟨by decide, by decide, ⟨fun _ => rfl, ?_⟩⟩
  exact Or.inr (Or.inr rfl)

/-- A load in parts of a thousand leaves the product of the interactive governor within 32 bits. -/
theorem FreqOk.product_lt (h : FreqOk s.pm) {load : UInt32} (hload : load ≤ 1000) :
    s.pm.curFreq.toNat * load.toNat < 2 ^ 32 := by
  have hcur : s.pm.curFreq.toNat ≤ 2100000 := UInt32.le_iff_toNat_le.mp (le_topOpp h.point)
  have hl : load.toNat ≤ 1000 := UInt32.le_iff_toNat_le.mp hload
  calc s.pm.curFreq.toNat * load.toNat
      ≤ 2100000 * 1000 := Nat.mul_le_mul hcur hl
    _ < 2 ^ 32 := by decide

end

/-- **The frequency, in every run**: a point of the table, and within `max_freq`; and the interactive
    governor, which multiplies it by the load, does so within 32 bits. -/
theorem governor_freq (ops : List GovernorOp) :
    Always governorStep
      (fun s => s.pm.curFreq ∈ cpuOpps ∧ s.pm.curFreq ≤ s.pm.maxFreq ∧
        ∀ load : UInt32, load ≤ 1000 → s.pm.curFreq.toNat * load.toNat < 2 ^ 32) governorInit ops :=
  (always_of_step (fun _ _ _ h hs => FreqOk.step h hs) freqOk_init).mono
    fun _ h => ⟨h.point, h.within, fun _ hload => h.product_lt hload⟩

end Crimson.Power
