import Mathlib.Data.List.Basic
import Mathlib.Data.List.Induction
import Mathlib.Order.Basic
import Crimson.Lib.Run

/-!
# Thermal throttling (`power.c`)

`pm_thermal_check` reads the thermal zones one after the other, and each reading acts on the
same three variables: `thermal_throttled`, `max_freq` and `cur_freq`. A pass is therefore the
fold of its readings (`check_eq`), and only the last reading that acts decides whether the
processor is throttled and how far: a cool zone ends what a hot zone before it has begun. A
reading in the emergency range acts on nothing.

`thermal_iff` says for which zones, in which order, a pass throttles as its readings ask for,
and which rise of one reading does not raise the limit.
-/

set_option autoImplicit false

namespace Crimson.Power

open Crimson.Lib

/-- The frequencies of `cpu_opps`, in kHz; the voltage of a point is looked up and not used. -/
def cpuOpps : List UInt32 := [600000, 800000, 1000000, 1200000, 1500000, 1800000, 2100000]

/-- `cpu_opps[0]`, `cpu_opps[2]` and `cpu_opps[NUM_CPU_OPPS - 1]`. -/
def lowOpp : UInt32 := 600000
def midOpp : UInt32 := 1000000
def topOpp : UInt32 := 2100000

example : [cpuOpps[0], cpuOpps[2], cpuOpps[cpuOpps.length - 1]] = [lowOpp, midOpp, topOpp] := rfl

/-- The fields of `thermal_zone_t` that a pass reads. `getTemp` is what the function of that
    name answers, in millidegrees, if there is one. -/
structure ThermalZone where
  passive : Int
  critical : Int
  hot : Int
  emergency : Int
  getTemp : Option Int
deriving DecidableEq, Repr

/-- The fields of `g_pm` that throttling is about. -/
structure PmState where
  curFreq : UInt32
  maxFreq : UInt32
  thermalThrottled : Bool
deriving DecidableEq, Repr

def pmInit : PmState where
  curFreq := midOpp
  maxFreq := topOpp
  thermalThrottled := false

/-- The loop of `pm_set_cpu_freq`: the last point that is not above `freq`. -/
def nearestOpp (freq : UInt32) : UInt32 := cpuOpps.foldl (fun best opp => if opp ≤ freq then opp else best) lowOpp

def pmSetCpuFreq (s : PmState) (freq : UInt32) : PmState :=
  let freq := if s.thermalThrottled ∧ s.maxFreq < freq then s.maxFreq else freq
  if nearestOpp freq = s.curFreq then s else { s with curFreq := nearestOpp freq }

/-- The body of the loop of `pm_thermal_check` for a reading. -/
def zoneCheck (s : PmState) (tz : ThermalZone) (temp : Int) : PmState :=
  if tz.emergency ≤ temp then s -- only announced
  else if tz.hot ≤ temp then
    pmSetCpuFreq { s with thermalThrottled := true, maxFreq := lowOpp } lowOpp
  else if tz.critical ≤ temp then
    let s := { s with thermalThrottled := true, maxFreq := midOpp }
    if midOpp < s.curFreq then pmSetCpuFreq s midOpp else s
  else if temp < tz.passive then
    if s.thermalThrottled then { s with thermalThrottled := false, maxFreq := topOpp } else s
  else s

/-- `pm_thermal_check`; a zone may be missing, or have no `get_temp`. -/
def pmThermalCheck (s : PmState) (thermals : List (Option ThermalZone)) : PmState :=
  thermals.foldl
    (fun s tz =>
      match tz with
      | none => s
      | some tz =>
        match tz.getTemp with
        | none => s
        | some temp => zoneCheck s tz temp) s

/-- What the rest of the file does to these variables between two passes. -/
inductive PmOp where
  | setFreq (freq : UInt32)
  | check (thermals : List (Option ThermalZone))
deriving DecidableEq, Repr

def pmStep (s : PmState) : PmOp → Option PmState
  | .setFreq freq => some (pmSetCpuFreq s freq)
  | .check thermals => some (pmThermalCheck s thermals)

/-! ## Ranges -/

/-- The range of a zone's trip points in which a reading lies. -/
inductive Range where
  | cool
  | warm
  | critical
  | hot
  | emergency
deriving DecidableEq, Repr

def ThermalZone.range (tz : ThermalZone) (temp : Int) : Range :=
  if tz.emergency ≤ temp then .emergency
  else if tz.hot ≤ temp then .hot
  else if tz.critical ≤ temp then .critical
  else if temp < tz.passive then .cool
  else .warm

/-- The ranges of the zones that are read, in order. -/
def ranges (thermals : List (Option ThermalZone)) : List Range :=
  thermals.filterMap fun tz => tz.bind fun tz => tz.getTemp.map tz.range

/-- A reading in one of these ranges acts on the processor. -/
def Range.acts : Range → Bool
  | .cool | .critical | .hot => true
  | .warm | .emergency => false

/-- The last reading that acts. -/
def lastActing (rs : List Range) : Option Range := (rs.filter Range.acts).getLast?

/-- The frequency limit of a range, as the comments at `pm_thermal_check` have it. -/
def Range.limit : Range → UInt32
  | .hot | .emergency => lowOpp
  | .critical => midOpp
  | .cool | .warm => topOpp

/-- The limit in force behind these readings: that of the last one that acts, or the old one. -/
def standing (s : PmState) (rs : List Range) : UInt32 :=
  match lastActing rs with
  | some r => r.limit
  | none => s.maxFreq

/-! ## What throttling is for -/

/-- The trip points of a zone go up. -/
structure ThermalZone.Increasing (tz : ThermalZone) : Prop where
  critical : tz.passive ≤ tz.critical
  hot : tz.critical ≤ tz.hot
  emergency : tz.hot ≤ tz.emergency

/-- Some zone is read at or above this trip point. -/
def SomeAbove (trip : ThermalZone → Int) (thermals : List (Option ThermalZone)) : Prop :=
  ∃ tz temp, some tz ∈ thermals ∧ tz.getTemp = some temp ∧ trip tz ≤ temp

/-- After a pass with a zone at or above `trip_points[1]`, the processor is throttled and runs
    at most at the limit of the hottest range. -/
def Throttles (s : PmState) (thermals : List (Option ThermalZone)) : Prop :=
  SomeAbove ThermalZone.critical thermals →
    (pmThermalCheck s thermals).thermalThrottled = true ∧ (pmThermalCheck s thermals).curFreq ≤ midOpp ∧
      (SomeAbove ThermalZone.hot thermals → (pmThermalCheck s thermals).curFreq ≤ lowOpp)

/-- The last reading that acts is no cool one (or none acts on a processor that is throttled
    already), and an emergency comes with a hot zone or a processor at its lowest frequency. -/
def ThrottleGuard (s : PmState) (rs : List Range) : Prop :=
  (lastActing rs ≠ some .cool ∧ (lastActing rs = none → s.thermalThrottled = true)) ∧
    (.emergency ∈ rs → .hot ∈ rs ∨ s.curFreq ≤ lowOpp)

/-- A zone that rises from the range `r` to `r'` behind the readings `rs` and before `rs'`: a
    reading behind it acts, or the rise neither replaces a lower limit by the critical one nor
    leaves a limit for the emergency range, which sets none. -/
def RaiseGuard (s : PmState) (rs : List Range) (r r' : Range) (rs' : List Range) : Prop :=
  lastActing rs' ≠ none ∨
    (¬(r = .warm ∧ r' = .critical ∧ standing s rs = lowOpp) ∧
      ¬(r = .critical ∧ r' = .emergency ∧ standing s rs = topOpp) ∧
      ¬(r = .hot ∧ r' = .emergency ∧ standing s rs ≠ lowOpp))

/-! ## A pass is the fold of its ranges -/

/-- What a reading in a range does. -/
def act (s : PmState) : Range → PmState
  | .cool => if s.thermalThrottled then { s with thermalThrottled := false, maxFreq := topOpp } else s
  | .critical =>
    { curFreq := if midOpp < s.curFreq then midOpp else s.curFreq, maxFreq := midOpp, thermalThrottled := true }
  | .hot => { curFreq := lowOpp, maxFreq := lowOpp, thermalThrottled := true }
  | .warm | .emergency => s

/-- A frequency of the table that is the limit itself is set. -/
theorem setCpuFreq_opp {s : PmState} {freq : UInt32} (hmax : s.maxFreq = freq) (hopp : nearestOpp freq = freq) :
    pmSetCpuFreq s freq = { s with curFreq := freq } := by
  obtain ⟨cur, max, throttled⟩ := s
  obtain rfl : max = freq := hmax
  simp only [pmSetCpuFreq, ite_self, hopp]
  split
  · rename_i h
    rw [h]
  · rfl

theorem zoneCheck_eq (s : PmState) (tz : ThermalZone) (temp : Int) : zoneCheck s tz temp = act s (tz.range temp) := by
  have hlow : nearestOpp lowOpp = lowOpp := by decide
  have hmid : nearestOpp midOpp = midOpp := by decide
  unfold zoneCheck ThermalZone.range
  split
  · rfl
  split
  · have hset := setCpuFreq_opp (s := { s with thermalThrottled := true, maxFreq := lowOpp }) rfl hlow
    exact hset
  split
  · simp only [act]
    have hset := setCpuFreq_opp (s := { s with thermalThrottled := true, maxFreq := midOpp }) rfl hmid
    split
    · exact hset
    · rfl
  split
  · rfl
  · rfl

theorem check_eq (s : PmState) (thermals : List (Option ThermalZone)) :
    pmThermalCheck s thermals = (ranges thermals).foldl act s := by
  induction thermals generalizing s with
  | nil => rfl
  | cons tz thermals ih =>
    rw [pmThermalCheck, List.foldl_cons]
    cases tz with
    | none => exact ih s
    | some tz =>
      cases htemp : tz.getTemp with
      | none =>
        simp only [ranges, List.filterMap_cons, Option.bind_some, htemp, Option.map_none]
        exact ih s
      | some temp =>
        simp only [ranges, List.filterMap_cons, Option.bind_some, htemp, Option.map_some, List.foldl_cons,
          ← zoneCheck_eq]
        exact ih _

/-! ## What a pass leaves -/

theorem lastActing_concat (rs : List Range) (r : Range) :
    lastActing (rs ++ [r]) = if r.acts then some r else lastActing rs := by
  unfold lastActing
  rw [List.filter_append]
  split
  · rename_i h
    simp [h]
  · rename_i h
    simp [h]

theorem lastActing_append (rs rs' : List Range) :
    lastActing (rs ++ rs') = (lastActing rs').or (lastActing rs) := by
  rw [lastActing, List.filter_append, List.getLast?_append]
  rfl

theorem lastActing_cons (r : Range) (rs : List Range) :
    lastActing (r :: rs) = (lastActing rs).or (if r.acts then some r else none) := by
  have hcons : r :: rs = [] ++ [r] ++ rs := rfl
  rw [hcons, lastActing_append, lastActing_concat]
  rfl

/-- A processor that is not throttled has no limit, and a limit is one of three. -/
structure PmOk (s : PmState) : Prop where
  free : s.thermalThrottled = false → s.maxFreq = topOpp
  limit : s.maxFreq = lowOpp ∨ s.maxFreq = midOpp ∨ s.maxFreq = topOpp

theorem throttled_fold (s : PmState) (rs : List Range) :
    (rs.foldl act s).thermalThrottled = true ↔
      lastActing rs ≠ some .cool ∧ (lastActing rs = none → s.thermalThrottled = true) := by
  induction rs using List.reverseRecOn with
  | nil => simp [lastActing]
  | append_singleton rs r ih =>
    rw [List.foldl_append, List.foldl_cons, List.foldl_nil, lastActing_concat]
    cases r with
    | cool =>
      simp only [act, Range.acts, if_true, ne_eq, not_true_eq_false, false_and, iff_false]
      split <;> simp_all
    | critical | hot => simp [act, Range.acts]
    | warm | emergency => simpa [act, Range.acts] using ih

theorem PmOk.act {s : PmState} (hs : PmOk s) (r : Range) : PmOk (act s r) := by
  cases r with
  | cool =>
    simp only [Power.act]
    split
    · exact ⟨fun _ => rfl, Or.inr (Or.inr rfl)⟩
    · exact hs
  | critical => exact ⟨fun h => absurd h (by simp [Power.act]), Or.inr (Or.inl rfl)⟩
  | hot => exact ⟨fun h => absurd h (by simp [Power.act]), Or.inl rfl⟩
  | warm | emergency => exact hs

theorem PmOk.fold {s : PmState} (hs : PmOk s) (rs : List Range) : PmOk (rs.foldl Power.act s) := by
  induction rs generalizing s with
  | nil => exact hs
  | cons r rs ih => exact ih (hs.act r)

theorem maxFreq_fold {s : PmState} (hs : PmOk s) (rs : List Range) : (rs.foldl act s).maxFreq = standing s rs := by
  induction rs using List.reverseRecOn with
  | nil => rfl
  | append_singleton rs r ih =>
    rw [List.foldl_append, List.foldl_cons, List.foldl_nil, standing, lastActing_concat]
    cases r with
    | cool =>
      -- a processor that is not throttled at this point has no limit already
      simp only [act, Range.acts, if_true, Range.limit]
      split
      · rfl
      · rename_i h
        exact (hs.fold rs).free (by simpa using h)
    | critical | hot => rfl
    | warm | emergency => exact ih

/-- A bound on the frequency holds behind a pass when a reading brings it about, or when it
    held before and no reading can break it. -/
theorem curFreq_le_fold {bound : UInt32} {hits : Range → Prop}
    (hact : ∀ s r, (act s r).curFreq ≤ bound ↔ hits r ∨ s.curFreq ≤ bound) (s : PmState) (rs : List Range) :
    (rs.foldl act s).curFreq ≤ bound ↔ (∃ r ∈ rs, hits r) ∨ s.curFreq ≤ bound := by
  induction rs generalizing s with
  | nil => simp
  | cons r rs ih =>
    rw [List.foldl_cons, ih, hact]
    simp only [List.mem_cons, exists_eq_or_imp]
    exact or_left_comm.trans or_assoc.symm

theorem act_le_low (s : PmState) (r : Range) : (act s r).curFreq ≤ lowOpp ↔ r = .hot ∨ s.curFreq ≤ lowOpp := by
  have hlow : lowOpp.toNat = 600000 := rfl
  have hmid : midOpp.toNat = 1000000 := rfl
  cases r with
  | cool =>
    simp only [act]
    split <;> simp
  | critical =>
    simp only [act, UInt32.le_iff_toNat_le, UInt32.lt_iff_toNat_lt, hlow]
    split
    · simp
      omega
    · simp
  | hot => simp [act]
  | warm | emergency => simp [act]

theorem act_le_mid (s : PmState) (r : Range) :
    (act s r).curFreq ≤ midOpp ↔ (r = .hot ∨ r = .critical) ∨ s.curFreq ≤ midOpp := by
  have hlow : lowOpp.toNat = 600000 := rfl
  have hmid : midOpp.toNat = 1000000 := rfl
  cases r with
  | cool =>
    simp only [act]
    split <;> simp
  | critical =>
    simp only [act, UInt32.le_iff_toNat_le, UInt32.lt_iff_toNat_lt]
    split
    · simp
    · simp
      omega
  | hot => simp [act, UInt32.le_iff_toNat_le, hlow, hmid]
  | warm | emergency => simp [act]

/-! ## Readings and ranges -/

theorem mem_ranges {thermals : List (Option ThermalZone)} {r : Range} :
    r ∈ ranges thermals ↔ ∃ tz temp, some tz ∈ thermals ∧ tz.getTemp = some temp ∧ tz.range temp = r := by
  simp only [ranges, List.mem_filterMap]
  constructor
  · rintro ⟨_ | tz, hmem, hr⟩
    · exact absurd hr (by simp)
    · simp only [Option.bind_some, Option.map_eq_some_iff] at hr
      obtain ⟨temp, htemp, hr⟩ := hr
      exact ⟨tz, temp, hmem, htemp, hr⟩
  · rintro ⟨tz, temp, hmem, htemp, hr⟩
    exact ⟨some tz, hmem, by simp [htemp, hr]⟩

/-- The ranges from the coolest on. -/
def Range.rank : Range → Nat
  | .cool => 0
  | .warm => 1
  | .critical => 2
  | .hot => 3
  | .emergency => 4

/-- A reading has passed as many trip points as its range says. -/
theorem rank_range {tz : ThermalZone} (h : tz.Increasing) (temp : Int) :
    (tz.range temp).rank =
      (if tz.passive ≤ temp then 1 else 0) + (if tz.critical ≤ temp then 1 else 0) +
        (if tz.hot ≤ temp then 1 else 0) + (if tz.emergency ≤ temp then 1 else 0) := by
  obtain ⟨h1, h2, h3⟩ := h
  unfold ThermalZone.range
  split_ifs <;> first | rfl | omega

/-- A trip point that is passed is passed by a higher reading. -/
theorem passed_mono (trip : Int) {temp temp' : Int} (hle : temp ≤ temp') :
    (if trip ≤ temp then 1 else 0) ≤ (if trip ≤ temp' then 1 else 0) := by
  split
  · rename_i h
    simp [Int.le_trans h hle]
  · exact Nat.zero_le _

theorem rank_range_mono {tz : ThermalZone} (h : tz.Increasing) {temp temp' : Int} (hle : temp ≤ temp') :
    (tz.range temp).rank ≤ (tz.range temp').rank := by
  rw [rank_range h, rank_range h]
  have hwarm := passed_mono tz.passive hle
  have hcritical := passed_mono tz.critical hle
  have hhot := passed_mono tz.hot hle
  have hemergency := passed_mono tz.emergency hle
  exact Nat.add_le_add (Nat.add_le_add (Nat.add_le_add hwarm hcritical) hhot) hemergency

theorem critical_le_iff {tz : ThermalZone} (h : tz.Increasing) {temp : Int} :
    tz.critical ≤ temp ↔ 2 ≤ (tz.range temp).rank := by
  obtain ⟨h1, h2, h3⟩ := h
  rw [rank_range ⟨h1, h2, h3⟩]
  split_ifs <;> omega

theorem hot_le_iff {tz : ThermalZone} (h : tz.Increasing) {temp : Int} : tz.hot ≤ temp ↔ 3 ≤ (tz.range temp).rank := by
  obtain ⟨h1, h2, h3⟩ := h
  rw [rank_range ⟨h1, h2, h3⟩]
  split_ifs <;> omega

/-- Some zone is above a trip point, by the ranges. -/
theorem someAbove_iff (trip : ThermalZone → Int) {k : Nat} (thermals : List (Option ThermalZone))
    (htrip : ∀ tz temp, some tz ∈ thermals → (trip tz ≤ temp ↔ k ≤ (tz.range temp).rank)) :
    SomeAbove trip thermals ↔ ∃ r ∈ ranges thermals, k ≤ r.rank := by
  constructor
  · rintro ⟨tz, temp, hmem, htemp, hle⟩
    exact ⟨tz.range temp, mem_ranges.mpr ⟨tz, temp, hmem, htemp, rfl⟩, (htrip tz temp hmem).mp hle⟩
  · rintro ⟨r, hr, hk⟩
    obtain ⟨tz, temp, hmem, htemp, rfl⟩ := mem_ranges.mp hr
    exact ⟨tz, temp, hmem, htemp, (htrip tz temp hmem).mpr hk⟩

/-! ## The two laws -/

theorem low_le_mid : lowOpp ≤ midOpp := by decide

/-- The law of the frequency, on ranges. -/
theorem throttles_ranges (s : PmState) {rs : List Range} (hcrit : ∃ r ∈ rs, 2 ≤ r.rank) :
    ((rs.foldl act s).thermalThrottled = true ∧ (rs.foldl act s).curFreq ≤ midOpp ∧
        ((∃ r ∈ rs, 3 ≤ r.rank) → (rs.foldl act s).curFreq ≤ lowOpp)) ↔ ThrottleGuard s rs := by
  rw [throttled_fold, curFreq_le_fold act_le_mid, curFreq_le_fold act_le_low, ThrottleGuard]
  refine and_congr_right fun _ => ?_
  constructor
  · rintro ⟨-, hlow⟩ hem
    rcases hlow ⟨_, hem, by decide⟩ with ⟨r, hr, rfl⟩ | hlow
    · exact Or.inl hr
    · exact Or.inr hlow
  · intro hg
    obtain ⟨r, hr, hk⟩ := hcrit
    refine ⟨?_, ?_⟩
    · cases r with
      | cool | warm => exact absurd hk (by decide)
      | critical => exact Or.inl ⟨_, hr, Or.inr rfl⟩
      | hot => exact Or.inl ⟨_, hr, Or.inl rfl⟩
      | emergency =>
        rcases hg hr with hhot | hlow
        · exact Or.inl ⟨_, hhot, Or.inl rfl⟩
        · exact Or.inr (UInt32.le_trans hlow low_le_mid)
    · rintro ⟨r, hr, hk⟩
      cases r with
      | cool | warm | critical => exact absurd hk (by decide)
      | hot => exact Or.inl ⟨_, hr, rfl⟩
      | emergency => exact (hg hr).imp_left fun hhot => ⟨_, hhot, rfl⟩

theorem standing_cons (s : PmState) (rs rs' : List Range) (r : Range) :
    standing s (rs ++ r :: rs') =
      if lastActing rs' = none then (if r.acts then r.limit else standing s rs) else standing s rs' := by
  unfold standing
  rw [lastActing_append, lastActing_cons]
  cases lastActing rs' with
  | none => cases r <;> simp [Range.acts]
  | some r' => simp

/-- A limit in force is one of three. -/
theorem standing_cases {s : PmState} (hs : PmOk s) (rs : List Range) :
    standing s rs = lowOpp ∨ standing s rs = midOpp ∨ standing s rs = topOpp := by
  rw [← maxFreq_fold hs]
  exact (hs.fold rs).limit

/-- The law of a rise, on ranges. -/
theorem raise_ranges {s : PmState} (hs : PmOk s) (rs rs' : List Range) {r r' : Range} (hle : r.rank ≤ r'.rank) :
    standing s (rs ++ r' :: rs') ≤ standing s (rs ++ r :: rs') ↔ RaiseGuard s rs r r' rs' := by
  rw [standing_cons, standing_cons, RaiseGuard]
  by_cases hlast : lastActing rs' = none
  · simp only [hlast, if_true, ne_eq, not_true_eq_false, false_or]
    rcases standing_cases hs rs with h | h | h <;> rw [h] <;>
      cases r <;> cases r' <;> first | exact absurd hle (by decide) | decide
  · simp [hlast]

/-! ## Runs -/

/-- Setting the frequency leaves the limit as it is. -/
theorem setCpuFreq_limit (s : PmState) (freq : UInt32) :
    (pmSetCpuFreq s freq).thermalThrottled = s.thermalThrottled ∧ (pmSetCpuFreq s freq).maxFreq = s.maxFreq := by
  simp only [pmSetCpuFreq]
  split <;> split <;> exact ⟨rfl, rfl⟩

theorem PmOk.setCpuFreq {s : PmState} (hs : PmOk s) (freq : UInt32) : PmOk (pmSetCpuFreq s freq) := by
  obtain ⟨hthrottled, hmax⟩ := setCpuFreq_limit s freq
  refine ⟨?_, ?_⟩
  · rw [hthrottled, hmax]
    exact hs.free
  · rw [hmax]
    exact hs.limit

theorem PmOk.step {s s' : PmState} {op : PmOp} (hs : PmOk s) (h : pmStep s op = some s') : PmOk s' := by
  cases op with
  | setFreq freq =>
    obtain rfl := Option.some.inj h
    exact hs.setCpuFreq freq
  | check thermals =>
    obtain rfl := Option.some.inj h
    rw [check_eq]
    exact hs.fold _

theorem pmOk_run {ops : List PmOp} {s : PmState} (hr : run pmStep pmInit ops = some s) : PmOk s :=
  run_mem (fun _ _ _ hs h => PmOk.step hs h) ⟨fun _ => rfl, Or.inr (Or.inr rfl)⟩ hr

/-- The zones with one of them at the reading `temp`. -/
def zonesWith (before : List (Option ThermalZone)) (tz : ThermalZone) (temp : Int)
    (after : List (Option ThermalZone)) : List (Option ThermalZone) :=
  before ++ some { tz with getTemp := some temp } :: after

theorem ranges_zonesWith (before : List (Option ThermalZone)) (tz : ThermalZone) (temp : Int)
    (after : List (Option ThermalZone)) :
    ranges (zonesWith before tz temp after) = ranges before ++ tz.range temp :: ranges after := by
  simp only [ranges, zonesWith, List.filterMap_append, List.filterMap_cons, Option.bind_some, Option.map_some]
  rfl

/-- Throttling, exactly, in any state that can be reached: which passes throttle as far as their
    readings ask for, and which rise of one reading does not raise the limit. -/
theorem thermal_iff {ops : List PmOp} {s : PmState} (hr : run pmStep pmInit ops = some s)
    {thermals : List (Option ThermalZone)} (hinc : ∀ tz, some tz ∈ thermals → tz.Increasing) :
    (Throttles s thermals ↔ (SomeAbove ThermalZone.critical thermals → ThrottleGuard s (ranges thermals))) ∧
      ∀ before tz temp temp' after, thermals = zonesWith before tz temp after → temp ≤ temp' →
        ((pmThermalCheck s (zonesWith before tz temp' after)).maxFreq ≤ (pmThermalCheck s thermals).maxFreq ↔
          RaiseGuard s (ranges before) (tz.range temp) (tz.range temp') (ranges after)) := by
  have hs := pmOk_run hr
  have hcrit := someAbove_iff ThermalZone.critical thermals fun tz _ hmem => critical_le_iff (hinc tz hmem)
  have hhot := someAbove_iff ThermalZone.hot thermals fun tz _ hmem => hot_le_iff (hinc tz hmem)
  constructor
  · unfold Throttles
    rw [hcrit, hhot, check_eq]
    exact forall_congr' fun h => throttles_ranges s h
  · intro before tz temp temp' after hzones hle
    have hz : ThermalZone.Increasing { tz with getTemp := some temp } := by
      refine hinc _ ?_
      rw [hzones]
      simp [zonesWith]
    have hrank : (tz.range temp).rank ≤ (tz.range temp').rank := rank_range_mono hz hle
    rw [hzones, check_eq, check_eq, maxFreq_fold hs, maxFreq_fold hs, ranges_zonesWith, ranges_zonesWith]
    exact raise_ranges hs _ _ hrank

/-- Zones with the trip points of `pm_init`. -/
def cpuZone (temp : Int) : ThermalZone := ⟨70000, 85000, 95000, 105000, some temp⟩
def batteryZone (temp : Int) : ThermalZone := ⟨40000, 45000, 50000, 60000, some temp⟩

theorem increasing_cpu (temp : Int) : (cpuZone temp).Increasing := by
  constructor <;> simp [cpuZone]

theorem increasing_battery (temp : Int) : (batteryZone temp).Increasing := by
  constructor <;> simp [batteryZone]

/-- A cool battery read before a hot CPU: the pass throttles, and more when the CPU gets hotter. -/
theorem thermal_cool_then_hot :
    Throttles pmInit [some (batteryZone 30000), some (cpuZone 86000)] ∧
      (pmThermalCheck pmInit [some (batteryZone 30000), some (cpuZone 96000)]).maxFreq ≤
        (pmThermalCheck pmInit [some (batteryZone 30000), some (cpuZone 86000)]).maxFreq := by
  have hinc : ∀ tz, some tz ∈ [some (batteryZone 30000), some (cpuZone 86000)] → tz.Increasing := by
    intro tz hmem
    simp only [List.mem_cons, Option.some.injEq, List.not_mem_nil, or_false] at hmem
    rcases hmem with rfl | rfl
    · exact increasing_battery 30000
    · exact increasing_cpu 86000
  have hstart : run pmStep pmInit [] = some pmInit := rfl
  have h := thermal_iff hstart hinc
  refine ⟨h.1.mpr fun _ => ⟨⟨by decide, by decide⟩, by decide⟩, ?_⟩
  refine (h.2 [some (batteryZone 30000)] (cpuZone 86000) 86000 96000 [] rfl (by decide)).mpr (Or.inr ?_)
  exact ⟨by decide, by decide, by decide⟩

/-- A hot CPU read before a cool battery: the pass ends with no throttling. And when the CPU
    rises from the hot to the emergency range, the limit goes up. -/
theorem hot_then_cool_unthrottled :
    ¬Throttles pmInit [some (cpuZone 96000), some (batteryZone 30000)] ∧
      ¬(pmThermalCheck pmInit [some (cpuZone 106000)]).maxFreq ≤ (pmThermalCheck pmInit [some (cpuZone 96000)]).maxFreq := by
  constructor
  · intro h
    have hthrottled := (h ⟨cpuZone 96000, 96000, by simp, rfl, by decide⟩).1
    exact absurd hthrottled (by decide)
  · decide

end Crimson.Power
