import Mathlib.Data.UInt
import Mathlib.Algebra.Ring.Nat

/-!
# Times from the counter (`timer.c`)

The functions multiply the counter by the units in a second and divide by its frequency. The
product has 64 bits, so once it has run over the times begin again at 0 (`followsCounter_iff`):
with a counter of 24 MHz, after 24 years in milliseconds, 9 days in microseconds and 13 minutes in
nanoseconds.
-/

set_option autoImplicit false

namespace Crimson.Timer

/-! `cntvct` is what the counter reads. -/

def timerGetUptimeMs (timerFrequency : UInt32) (cntvct : UInt64) : UInt64 := cntvct * 1000 / timerFrequency.toUInt64

def timerGetUptimeUs (timerFrequency : UInt32) (cntvct : UInt64) : UInt64 := cntvct * 1000000 / timerFrequency.toUInt64

def timerCyclesToNs (timerFrequency : UInt32) (cycles : UInt64) : UInt64 :=
  cycles * 1000000000 / timerFrequency.toUInt64

def timerCyclesToUs (timerFrequency : UInt32) (cycles : UInt64) : UInt64 := cycles * 1000000 / timerFrequency.toUInt64

def timerCyclesToMs (timerFrequency : UInt32) (cycles : UInt64) : UInt64 := cycles * 1000 / timerFrequency.toUInt64

/-- The time in units of which a second has `k`: right if it fits, and never back behind a time
    before it. -/
def FollowsCounter (time : UInt64 → UInt64) (k : Nat) (freq : UInt32) (count : UInt64) : Prop :=
  (count.toNat * k / freq.toNat < 2 ^ 64 → (time count).toNat = count.toNat * k / freq.toNat) ∧
    ∀ c c', c ≤ c' → c' ≤ count → time c ≤ time c'

variable {freq : UInt32} {count k : UInt64}

theorem toNat_time (c : UInt64) :
    (c * k / freq.toUInt64).toNat = c.toNat * k.toNat % 2 ^ 64 / freq.toNat := by
  rw [UInt64.toNat_div, UInt64.toNat_mul, UInt32.toNat_toUInt64]

/-- While the product fits. -/
theorem followsCounter_of_lt (h : count.toNat * k.toNat < 2 ^ 64) :
    FollowsCounter (fun c => c * k / freq.toUInt64) k.toNat freq count := by
  constructor
  · intro _
    rw [toNat_time, Nat.mod_eq_of_lt h]
  · intro c c' hle hcount
    have hprod : c.toNat * k.toNat ≤ c'.toNat * k.toNat := Nat.mul_le_mul_right _ (UInt64.le_iff_toNat_le.mp hle)
    have hprod' : c'.toNat * k.toNat ≤ count.toNat * k.toNat :=
      Nat.mul_le_mul_right _ (UInt64.le_iff_toNat_le.mp hcount)
    rw [UInt64.le_iff_toNat_le, toNat_time, toNat_time, Nat.mod_eq_of_lt (by omega), Nat.mod_eq_of_lt (by omega)]
    exact Nat.div_le_div_right hprod

/-- The last time before the product runs over and the first one behind it. -/
theorem time_falls (hf : 0 < freq) (hpos : 0 < k.toNat) (hk : k.toNat ≤ 1000000000)
    (h : 2 ^ 64 ≤ count.toNat * k.toNat) :
    ∃ c c', c ≤ c' ∧ c' ≤ count ∧ c' * k / freq.toUInt64 < c * k / freq.toUInt64 := by
  have hfpos : 0 < freq.toNat := UInt32.lt_iff_toNat_lt.mp hf
  have hfreq := freq.toNat_lt
  have hcount := count.toNat_lt
  obtain ⟨last, hlast⟩ : ∃ last, last = (2 ^ 64 - 1) / k.toNat := ⟨_, rfl⟩
  have hbelow : last * k.toNat ≤ 2 ^ 64 - 1 := hlast ▸ Nat.div_mul_le_self _ _
  have habove : 2 ^ 64 - 1 < (last + 1) * k.toNat := by
    rw [hlast, Nat.mul_comm]
    exact Nat.lt_mul_div_succ _ hpos
  have hnext : last + 1 ≤ count.toNat := by
    by_contra hlt
    have hmul : count.toNat * k.toNat ≤ last * k.toNat := Nat.mul_le_mul_right _ (by omega)
    omega
  have hsucc : (last + 1) * k.toNat = last * k.toNat + k.toNat := Nat.succ_mul ..
  have hc : (UInt64.ofNat last).toNat = last := UInt64.toNat_ofNat_of_lt' (show last < 2 ^ 64 by omega)
  have hc' : (UInt64.ofNat (last + 1)).toNat = last + 1 := UInt64.toNat_ofNat_of_lt' (show last + 1 < 2 ^ 64 by omega)
  refine ⟨UInt64.ofNat last, UInt64.ofNat (last + 1), ?_, ?_, ?_⟩
  · rw [UInt64.le_iff_toNat_le, hc, hc']
    exact Nat.le_succ last
  · rw [UInt64.le_iff_toNat_le, hc']
    exact hnext
  · rw [UInt64.lt_iff_toNat_lt, toNat_time, toNat_time, hc, hc', Nat.mod_eq_of_lt (show last * k.toNat < 2 ^ 64 by omega)]
    have hwrap : (last + 1) * k.toNat % 2 ^ 64 = (last + 1) * k.toNat - 2 ^ 64 := by
      rw [Nat.mod_eq_sub_mod (by omega), Nat.mod_eq_of_lt (by omega)]
    rw [hwrap]
    -- the remainder is below `k`, and so far below the product before it
    calc ((last + 1) * k.toNat - 2 ^ 64) / freq.toNat
        < ((last + 1) * k.toNat - 2 ^ 64) / freq.toNat + 1 := Nat.lt_succ_self _
      _ = ((last + 1) * k.toNat - 2 ^ 64 + freq.toNat) / freq.toNat := (Nat.add_div_right _ hfpos).symm
      _ ≤ last * k.toNat / freq.toNat := Nat.div_le_div_right (by omega)

theorem followsCounter_iff (hf : 0 < freq) (hpos : 0 < k.toNat) (hk : k.toNat ≤ 1000000000) :
    FollowsCounter (fun c => c * k / freq.toUInt64) k.toNat freq count ↔ count.toNat * k.toNat < 2 ^ 64 := by
  constructor
  · intro h
    by_contra hover
    obtain ⟨c, c', hle, hcount, hlt⟩ := time_falls hf hpos hk (Nat.le_of_not_lt hover)
    exact absurd (h.2 c c' hle hcount) (UInt64.not_le.mpr hlt)
  · exact followsCounter_of_lt

/-- **The times are right and never go back exactly while the product has 64 bits.** -/
theorem conversions_iff (timerFrequency : UInt32) (hf : 0 < timerFrequency) (count : UInt64) :
    (FollowsCounter (timerGetUptimeMs timerFrequency) 1000 timerFrequency count ↔ count.toNat * 1000 < 2 ^ 64) ∧
    (FollowsCounter (timerGetUptimeUs timerFrequency) 1000000 timerFrequency count ↔ count.toNat * 1000000 < 2 ^ 64) ∧
    (FollowsCounter (timerCyclesToNs timerFrequency) 1000000000 timerFrequency count ↔
      count.toNat * 1000000000 < 2 ^ 64) ∧
    (FollowsCounter (timerCyclesToUs timerFrequency) 1000000 timerFrequency count ↔ count.toNat * 1000000 < 2 ^ 64) ∧
    (FollowsCounter (timerCyclesToMs timerFrequency) 1000 timerFrequency count ↔ count.toNat * 1000 < 2 ^ 64) := by
  have hiff (k : UInt64) (hpos : 0 < k.toNat) (hk : k.toNat ≤ 1000000000) :
      FollowsCounter (fun c => c * k / timerFrequency.toUInt64) k.toNat timerFrequency count ↔
        count.toNat * k.toNat < 2 ^ 64 :=
    followsCounter_iff hf hpos hk
  have hms := hiff 1000 (by decide) (by decide)
  have hus := hiff 1000000 (by decide) (by decide)
  have hns := hiff 1000000000 (by decide) (by decide)
  exact ⟨hms, hus, hns, hus, hms⟩

theorem conversions_24MHz :
    FollowsCounter (timerGetUptimeMs 24000000) 1000 24000000 48000000 ↔ (48000000 : UInt64).toNat * 1000 < 2 ^ 64 :=
  (conversions_iff 24000000 (by decide) 48000000).1

/-- The ninth day of a counter of 24 MHz. -/
theorem uptime_us_begins_again : ¬FollowsCounter (timerGetUptimeUs 24000000) 1000000 24000000 18446744073710 := by
  intro h
  exact absurd (h.1 (by decide)) (by decide)

end Crimson.Timer
