import Crimson.Lib.CarryFold
import Crimson.Net.Receive

/-!
# The Internet checksum (`net.c`)

`ip_checksum` with the 32-bit accumulator it has. The words of a header of up to 65536
bytes do not overflow it, two rounds of the loop that folds the carries are enough, and
a header whose checksum field is filled in sums to zero. The fold is one's-complement
arithmetic in base 2^16 (`Crimson.Lib.carryFold`).
-/

set_option autoImplicit false

namespace Crimson.Net

open Crimson.Lib

/-- The loop over the words; an odd byte is added by itself. -/
def sumLoop (m : Mem) : Nat → Nat → UInt32 → UInt32
  | _, 0, sum => sum
  | a, 1, sum => sum + UInt32.ofNat (m a).toNat
  | a, n + 2, sum => sumLoop m (a + 2) n (sum + UInt32.ofNat (loadBytes m a 2))

/-- `(sum & 0xFFFF) + (sum >> 16)` -/
def foldRound (sum : UInt32) : UInt32 := (sum &&& (0xFFFF : UInt32)) + (sum >>> 16)

theorem toNat_shift (sum : UInt32) : (sum >>> 16).toNat = sum.toNat / 2 ^ 16 := by
  simp [UInt32.toNat_shiftRight, Nat.shiftRight_eq_div_pow]

theorem toNat_foldRound (sum : UInt32) : (foldRound sum).toNat = carryRound (2 ^ 16) sum.toNat := by
  have hlow : (sum &&& (0xFFFF : UInt32)).toNat = sum.toNat % 2 ^ 16 := by
    rw [UInt32.toNat_and]
    exact Nat.and_two_pow_sub_one_eq_mod sum.toNat 16
  have hlt : sum.toNat < 2 ^ 32 := sum.toNat_lt
  rw [foldRound, UInt32.toNat_add, hlow, toNat_shift, carryRound, Nat.mod_eq_of_lt]
  omega

/-- `sum >> 16` is the condition of the loop: there is something to carry. -/
theorem shift_eq_zero_iff (sum : UInt32) : sum >>> 16 = 0 ↔ sum.toNat < 2 ^ 16 := by
  have hquot : sum >>> 16 = 0 ↔ sum.toNat / 2 ^ 16 = 0 := by
    rw [← UInt32.toNat_inj, toNat_shift]
    rfl
  rw [hquot, Nat.div_eq_zero_iff]
  omega

/-- `while (sum >> 16)` -/
def foldLoop (sum : UInt32) : UInt32 :=
  if _h : sum >>> 16 = 0 then sum else foldLoop (foldRound sum)
termination_by sum.toNat
decreasing_by
  rw [toNat_foldRound]
  exact carryRound_lt (by decide) (Nat.le_of_not_lt fun hlt => _h ((shift_eq_zero_iff sum).mpr hlt))

theorem foldLoop_of_zero {sum : UInt32} (h : sum >>> 16 = 0) : foldLoop sum = sum := by
  rw [foldLoop, dif_pos h]

theorem foldLoop_of_carry {sum : UInt32} (h : sum >>> 16 ≠ 0) : foldLoop sum = foldLoop (foldRound sum) := by
  rw [foldLoop, dif_neg h]

/-- `ip_checksum`, as the 16-bit value it returns. -/
def ipChecksum16 (m : Mem) (a n : Nat) : UInt16 := (~~~ foldLoop (sumLoop m a n 0)).toUInt16

/-! ## The fold -/

theorem toNat_foldLoop (sum : UInt32) : (foldLoop sum).toNat = carryFold (2 ^ 16) sum.toNat := by
  induction sum using foldLoop.induct with
  | case1 sum h => rw [foldLoop_of_zero h, carryFold_of_lt ((shift_eq_zero_iff sum).mp h)]
  | case2 sum h ih => rw [foldLoop_of_carry h, ih, toNat_foldRound, carryFold_round (by decide)]

/-- The condition of the loop is false after two rounds, whatever the sum. -/
theorem foldRound_foldRound_shift (sum : UInt32) : foldRound (foldRound sum) >>> 16 = 0 := by
  rw [shift_eq_zero_iff, toNat_foldRound, toNat_foldRound]
  exact carryRound_carryRound_lt (by decide) sum.toNat_lt

theorem toNat_ipChecksum16 (m : Mem) (a n : Nat) :
    (ipChecksum16 m a n).toNat = 2 ^ 16 - 1 - carryFold (2 ^ 16) (sumLoop m a n 0).toNat := by
  have hlt : carryFold (2 ^ 16) (sumLoop m a n 0).toNat < 2 ^ 16 := carryFold_lt (by decide) _
  have hsize : UInt32.size = 2 ^ 32 := rfl
  rw [ipChecksum16, UInt32.toNat_toUInt16, UInt32.toNat_not, toNat_foldLoop, hsize]
  omega

/-! ## The sum -/

theorem sumLoop_snoc (m : Mem) (a i : Nat) (sum : UInt32) :
    sumLoop m a (2 * (i + 1)) sum = sumLoop m a (2 * i) sum + UInt32.ofNat (loadBytes m (a + 2 * i) 2) := by
  induction i generalizing a sum with
  | zero => rfl
  | succ i ih =>
    have haddr : a + 2 + 2 * i = a + 2 * (i + 1) := by omega
    have hstep : sumLoop m a (2 * (i + 1 + 1)) sum =
        sumLoop m (a + 2) (2 * (i + 1)) (sum + UInt32.ofNat (loadBytes m a 2)) := rfl
    rw [hstep, ih, haddr]
    rfl

theorem sumWords_le (m : Mem) (a i : Nat) : sumWords m a (2 * i) ≤ 65535 * i := by
  induction i generalizing a with
  | zero => simp [sumWords]
  | succ i ih =>
    have hword : loadBytes m a 2 < 256 ^ 2 := loadBytes_lt
    have hrest := ih (a + 2)
    have hstep : sumWords m a (2 * (i + 1)) = loadBytes m a 2 + sumWords m (a + 2) (2 * i) := rfl
    omega

theorem sumWords_snoc (m : Mem) (a i : Nat) :
    sumWords m a (2 * (i + 1)) = sumWords m a (2 * i) + loadBytes m (a + 2 * i) 2 := by
  induction i generalizing a with
  | zero => simp [sumWords]
  | succ i ih =>
    have haddr : a + 2 + 2 * i = a + 2 * (i + 1) := by omega
    have hlong : sumWords m a (2 * (i + 1 + 1)) = loadBytes m a 2 + sumWords m (a + 2) (2 * (i + 1)) := rfl
    have hshort : sumWords m a (2 * (i + 1)) = loadBytes m a 2 + sumWords m (a + 2) (2 * i) := rfl
    rw [hlong, ih, hshort, haddr, Nat.add_assoc]

/-- The accumulator is the sum of the words, as long as there are at most 32768 of them. -/
theorem toNat_sumLoop (m : Mem) (a : Nat) {i : Nat} (h : i ≤ 32768) :
    (sumLoop m a (2 * i) 0).toNat = sumWords m a (2 * i) := by
  induction i with
  | zero => rfl
  | succ i ih =>
    have hword : loadBytes m (a + 2 * i) 2 < 256 ^ 2 := loadBytes_lt
    have hbound := sumWords_le m a (i + 1)
    rw [sumWords_snoc] at hbound ⊢
    rw [sumLoop_snoc, UInt32.toNat_add, ih (by omega), UInt32.toNat_ofNat']
    omega

/-- No addition of the loop leaves 32 bits. -/
def NoOverflow (m : Mem) (a words : Nat) : Prop :=
  ∀ i < words, (sumLoop m a (2 * i) 0).toNat + loadBytes m (a + 2 * i) 2 < 2 ^ 32

theorem noOverflow (m : Mem) (a : Nat) {words : Nat} (h : words ≤ 32768) : NoOverflow m a words := by
  intro i hi
  have hbound := sumWords_le m a (i + 1)
  rw [sumWords_snoc] at hbound
  rw [toNat_sumLoop m a (by omega)]
  omega

/-- The checksum of a short header, with the sum and the fold on natural numbers. -/
theorem toNat_ipChecksum16_eq (m : Mem) (a : Nat) {words : Nat} (h : words ≤ 32768) :
    (ipChecksum16 m a (2 * words)).toNat = 2 ^ 16 - 1 - carryFold (2 ^ 16) (sumWords m a (2 * words)) := by
  rw [toNat_ipChecksum16, toNat_sumLoop m a h]

theorem foldSum_of_lt {s : Nat} (h : s < 2 ^ 16) (rounds : Nat) : foldSum rounds s = s := by
  cases rounds with
  | zero => rfl
  | succ rounds => rw [foldSum, if_pos (Nat.div_eq_of_lt h)]

theorem foldSum_succ (rounds s : Nat) : foldSum (rounds + 1) s = foldSum rounds (carryRound (2 ^ 16) s) := by
  by_cases h : s < 2 ^ 16
  · rw [carryRound_of_lt h, foldSum_of_lt h, foldSum_of_lt h]
  · have hcarry : s / 2 ^ 16 ≠ 0 := by omega
    rw [foldSum, if_neg hcarry]
    rfl

/-- Two rounds fold a sum of 32 bits. -/
theorem foldSum_two {sum : Nat} (h : sum < 2 ^ 32) : foldSum 2 sum = carryFold (2 ^ 16) sum := by
  have hlt : carryRound (2 ^ 16) (carryRound (2 ^ 16) sum) < 2 ^ 16 := carryRound_carryRound_lt (by decide) h
  rw [foldSum_succ, foldSum_succ, foldSum, ← carryFold_of_lt hlt, carryFold_round (by decide), carryFold_round (by decide)]

/-- `ipChecksum` is `ip_checksum` wherever the sum fits. -/
theorem ipChecksum_eq (m : Mem) (a : Nat) {words : Nat} (h : words ≤ 32768) :
    ipChecksum m a (2 * words) = (ipChecksum16 m a (2 * words)).toNat := by
  have hbound := sumWords_le m a words
  have hsum : sumWords m a (2 * words) < 2 ^ 16 * 2 ^ 16 := by omega
  rw [toNat_ipChecksum16_eq m a h, ← foldSum_two (by omega), ipChecksum]
  have hlt : foldSum 2 (sumWords m a (2 * words)) < 2 ^ 16 := by
    rw [foldSum_two (by omega)]
    exact carryFold_lt (by decide) _
  rw [Nat.mod_eq_of_lt hlt]

/-! ## The field -/

theorem sumWords_congr {m m' : Mem} {a i : Nat} (h : AgreeOn m m' a (2 * i)) :
    sumWords m' a (2 * i) = sumWords m a (2 * i) := by
  induction i with
  | zero => rfl
  | succ i ih =>
    rw [sumWords_snoc, sumWords_snoc, ih (h.mono (by omega) (by omega)),
      loadBytes_congr (h.mono (by omega) (by omega))]

/-- Storing one word of a header changes the sum by that word. -/
theorem sumWords_storeBytes (m : Mem) (a v : Nat) {words field : Nat} (h : field < words) (hv : v < 2 ^ 16) :
    sumWords (storeBytes m (a + 2 * field) 2 v) a (2 * words) + loadBytes m (a + 2 * field) 2 =
      sumWords m a (2 * words) + v := by
  induction words with
  | zero => omega
  | succ words ih =>
    rw [sumWords_snoc, sumWords_snoc]
    rcases Nat.lt_or_eq_of_le (Nat.le_of_lt_succ h) with hlt | rfl
    · have hlast : loadBytes (storeBytes m (a + 2 * field) 2 v) (a + 2 * words) 2 = loadBytes m (a + 2 * words) 2 :=
        loadBytes_congr (agreeOn_storeBytes (by omega))
      have hrest := ih hlt
      omega
    · have hbefore : sumWords (storeBytes m (a + 2 * field) 2 v) a (2 * field) = sumWords m a (2 * field) :=
        sumWords_congr (agreeOn_storeBytes (by omega))
      have hsame : loadBytes (storeBytes m (a + 2 * field) 2 v) (a + 2 * field) 2 = v := by
        rw [loadBytes_storeBytes_same]
        exact Nat.mod_eq_of_lt hv
      omega

/-- The checksum of a header stored in its field, as `udp_send_raw` does it. -/
def storeChecksum (m : Mem) (a words field : Nat) : Mem :=
  storeBytes m (a + 2 * field) 2 (ipChecksum16 m a (2 * words)).toNat

/-- A header whose field was zero makes 0 with its checksum stored. -/
theorem ipChecksum16_storeChecksum {m : Mem} {a words field : Nat} (hwords : words ≤ 32768)
    (hfield : field < words) (hzero : loadBytes m (a + 2 * field) 2 = 0) :
    ipChecksum16 (storeChecksum m a words field) a (2 * words) = 0 := by
  have hsum := sumWords_storeBytes m a (ipChecksum16 m a (2 * words)).toNat hfield (UInt16.toNat_lt _)
  rw [hzero, Nat.add_zero] at hsum
  rw [← UInt16.toNat_inj, toNat_ipChecksum16_eq _ a hwords, storeChecksum, hsum,
    toNat_ipChecksum16_eq m a hwords, carryFold_complement (by decide)]
  rfl

/-- **A header with its checksum stored checks.** The words of a header of at most 65536
    bytes do not overflow the accumulator, the fold ends after at most two rounds, and
    the checksum of a header whose field was zero, stored there, makes it 0. -/
theorem ipChecksum16_stored (m : Mem) (a words field : Nat) (hlen : 2 * words ≤ 65536) (hfield : field < words)
    (hzero : loadBytes m (a + 2 * field) 2 = 0) :
    NoOverflow m a words ∧ NoOverflow (storeChecksum m a words field) a words ∧
      (∀ sum : UInt32, foldRound (foldRound sum) >>> 16 = 0) ∧
      ipChecksum16 (storeChecksum m a words field) a (2 * words) = 0 := by
  have hwords : words ≤ 32768 := by omega
  exact ⟨noOverflow m a hwords, noOverflow _ a hwords, foldRound_foldRound_shift,
    ipChecksum16_storeChecksum hwords hfield hzero⟩

/-- The IP header of a packet the stack sends, before its checksum is stored. -/
def sentHeader : Mem :=
  packetOf [0x45, 0, 0, 40, 0, 0, 0, 0, 64, 6, 0, 0, 10, 0, 0, 1, 10, 0, 0, 2]

theorem ipChecksum16_stored_header :
    loadBytes sentHeader (0 + 2 * 5) 2 = 0 ∧ ipChecksum16 (storeChecksum sentHeader 0 10 5) 0 (2 * 10) = 0 :=
  ⟨by decide, (ipChecksum16_stored sentHeader 0 10 5 (by decide) (by decide) (by decide)).2.2.2⟩

/-- The word at `24` of an IP header, zeroed before the addresses and the checksum are stored. -/
theorem ipChecksum_header {m : Mem} (h : loadBytes m (14 + 2 * 5) 2 = 0) :
    ipChecksum (storeBytes m 24 2 (ipChecksum m 14 IP_HDR_LEN)) 14 IP_HDR_LEN = 0 := by
  have hlen : IP_HDR_LEN = 2 * 10 := rfl
  rw [hlen, ipChecksum_eq m 14 (by decide), ipChecksum_eq _ 14 (by decide)]
  exact congrArg UInt16.toNat (ipChecksum16_storeChecksum (by decide) (by decide) h)

/-- Every header `tcp_send_segment` and `icmp_rx` build passes the check of `ip_rx`. -/
theorem putIp_checks (m : Mem) (totalLen protocol src dst : Nat) :
    ipChecksum (putIp m totalLen protocol src dst) 14 IP_HDR_LEN = 0 := by
  apply ipChecksum_header
  rw [loadBytes_congr (agreeOn_storeBytes (by omega)), loadBytes_congr (agreeOn_storeBytes (by omega))]
  exact loadBytes_storeBytes_same

end Crimson.Net
