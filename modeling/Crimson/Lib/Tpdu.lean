import Mathlib.Data.Nat.Bitwise
import Mathlib.Data.List.Basic

/-!
# Reading an SMS-SUBMIT

What the network makes of the octets of a short message that is submitted: the fields in their
order, the address in semi-octets, the low half of each octet first, and the user data in
septets, which lie one behind the other in the bits of the octets, low bit first. Octets
behind the user data are not looked at.
-/

set_option autoImplicit false

namespace Crimson.Lib

/-! ## Septets -/

/-- Bit `k` of a string of octets, the low bit of each octet first. -/
def bitAt (octets : List UInt8) (k : Nat) : Bool := (octets.getD (k / 8) 0).toNat.testBit (k % 8)

/-- The seven bits of septet `i`. -/
def septet (octets : List UInt8) (i : Nat) : UInt8 :=
  UInt8.ofNat (Nat.ofBits fun m : Fin 7 => bitAt octets (7 * i + m))

def septets (n : Nat) (octets : List UInt8) : List UInt8 := (List.range n).map (septet octets)

theorem septet_toNat (octets : List UInt8) (i : Nat) :
    (septet octets i).toNat = Nat.ofBits fun m : Fin 7 => bitAt octets (7 * i + m) := by
  have hlt := Nat.ofBits_lt_two_pow fun m : Fin 7 => bitAt octets (7 * i + m)
  exact UInt8.toNat_ofNat_of_lt' (Nat.lt_trans hlt (by decide))

/-- A septet is a number if the bits are. -/
theorem septet_eq_iff {octets : List UInt8} {i : Nat} {c : UInt8} (hc : c < 128) :
    septet octets i = c ↔ ∀ m < 7, bitAt octets (7 * i + m) = c.toNat.testBit m := by
  have hlt : c.toNat < 2 ^ 7 := UInt8.lt_iff_toNat_lt.mp hc
  rw [← UInt8.toNat_inj, septet_toNat]
  constructor
  · intro h m hm
    rw [← h, Nat.testBit_ofBits_lt _ _ hm]
  · intro h
    apply Nat.eq_of_testBit_eq
    intro m
    by_cases hm : m < 7
    · rw [Nat.testBit_ofBits_lt _ _ hm]
      exact h m hm
    · have hle : 2 ^ 7 ≤ 2 ^ m := Nat.pow_le_pow_right (by decide) (Nat.le_of_not_lt hm)
      rw [Nat.testBit_ofBits_ge _ _ (Nat.le_of_not_lt hm), Nat.testBit_lt_two_pow (Nat.lt_of_lt_of_le hlt hle)]

/-- Setting bits of one octet. -/
theorem bitAt_modify_or {octets : List UInt8} {j : Nat} (hj : j < octets.length) (x : UInt8) (k : Nat) :
    bitAt (octets.modify j (· ||| x)) k = (bitAt octets k || (decide (k / 8 = j) && x.toNat.testBit (k % 8))) := by
  unfold bitAt
  by_cases hk : k / 8 = j
  · have hget : (octets.modify j (· ||| x)).getD (k / 8) 0 = octets.getD (k / 8) 0 ||| x := by
      simp [List.getD_eq_getElem?_getD, hk, hj]
    rw [hget, UInt8.toNat_or, Nat.testBit_or]
    simp [hk]
  · have hget : (octets.modify j (· ||| x)).getD (k / 8) 0 = octets.getD (k / 8) 0 := by
      simp [List.getD_eq_getElem?_getD, Ne.symm hk]
    rw [hget]
    simp [hk]

theorem bitAt_replicate_zero (n k : Nat) : bitAt (List.replicate n 0) k = false := by
  unfold bitAt
  have hget : (List.replicate n (0 : UInt8)).getD (k / 8) 0 = 0 := by
    rw [List.getD_eq_getElem?_getD, List.getElem?_replicate]
    split <;> rfl
  rw [hget]
  exact Nat.zero_testBit _

/-- Characters of seven bits, each in an octet of its own, are read as septets only if there is
    at most one: the second one is read a bit too high, and no character but 0 stays the same. -/
theorem septets_unpacked {text : List UInt8} (htext : ∀ c ∈ text, 0 < c ∧ c < 128) :
    septets text.length text = text ↔ text.length ≤ 1 := by
  have hclear : ∀ c : UInt8, c < 128 → ∀ m, 7 ≤ m → c.toNat.testBit m = false := by
    intro c hc m hm
    have hlt : c.toNat < 2 ^ 7 := UInt8.lt_iff_toNat_lt.mp hc
    exact Nat.testBit_lt_two_pow (Nat.lt_of_lt_of_le hlt (Nat.pow_le_pow_right (by decide) hm))
  match text with
  | [] => simp [septets]
  | [c] =>
    have hc := (htext c (by simp)).2
    have hone : septet [c] 0 = c := by
      refine (septet_eq_iff hc).mpr fun m hm => ?_
      rw [bitAt, Nat.mul_zero, Nat.zero_add, Nat.div_eq_of_lt (by omega), Nat.mod_eq_of_lt (by omega)]
      rfl
    simp [septets, hone]
  | c :: d :: text =>
    refine iff_of_false ?_ (by simp)
    intro heq
    have hc := (htext c (by simp)).2
    obtain ⟨hpos, hd⟩ := htext d (by simp)
    have hget : septet (c :: d :: text) 1 = d := by
      have hsecond := congrArg (fun l => l[1]?) heq
      simpa [septets] using hsecond
    have hbits := (septet_eq_iff hd).mp hget
    have hzero : d.toNat.testBit 0 = false := by
      rw [← hbits 0 (by omega)]
      exact hclear c hc 7 (by omega)
    have hsucc : ∀ m < 6, d.toNat.testBit (m + 1) = d.toNat.testBit m := by
      intro m hm
      rw [← hbits (m + 1) (by omega), bitAt]
      have hdiv : (7 * 1 + (m + 1)) / 8 = 1 := by omega
      have hmod : (7 * 1 + (m + 1)) % 8 = m := by omega
      rw [hdiv, hmod]
      rfl
    -- so every bit is the lowest one, which is clear
    have hnone : ∀ m, d.toNat.testBit m = false := by
      intro m
      induction m with
      | zero => exact hzero
      | succ m ih =>
        by_cases hm : m < 6
        · rw [hsucc m hm, ih]
        · exact hclear d hd (m + 1) (by omega)
    have hd0 : d.toNat = 0 := Nat.eq_of_testBit_eq fun m => by rw [hnone m, Nat.zero_testBit]
    have hposNat : 0 < d.toNat := UInt8.lt_iff_toNat_lt.mp hpos
    omega

/-! ## Semi-octets -/

/-- The two halves of each octet, the low one first. -/
def semiOctets (octets : List UInt8) : List Nat := octets.flatMap fun o => [o.toNat % 16, o.toNat / 16]

/-- The character a semi-octet of an address stands for; 15 only fills up. -/
def dialled (v : Nat) : Option UInt8 :=
  if v < 10 then some (UInt8.ofNat (48 + v)) else ([42, 35, 97, 98, 99] : List UInt8)[v - 10]?

/-- An address of `n` characters. -/
def addressDigits (n : Nat) (octets : List UInt8) : Option (List UInt8) := ((semiOctets octets).take n).mapM dialled

/-- An octet is two characters. -/
theorem addressDigits_cons (n : Nat) (o : UInt8) (octets : List UInt8) :
    addressDigits (n + 2) (o :: octets) =
      (dialled (o.toNat % 16)).bind fun a => (dialled (o.toNat / 16)).bind fun b =>
        (addressDigits n octets).map fun digits => a :: b :: digits := by
  have hhalves : semiOctets (o :: octets) = o.toNat % 16 :: o.toNat / 16 :: semiOctets octets := rfl
  rw [addressDigits, hhalves, List.take_succ_cons, List.take_succ_cons, List.mapM_cons]
  cases dialled (o.toNat % 16) with
  | none => rfl
  | some a =>
    rw [List.mapM_cons]
    cases dialled (o.toNat / 16) with
    | none => rfl
    | some b =>
      rw [addressDigits]
      cases ((semiOctets octets).take n).mapM dialled <;> rfl

/-- The last octet may be a character and a filler. -/
theorem addressDigits_one (o : UInt8) (octets : List UInt8) :
    addressDigits 1 (o :: octets) = (dialled (o.toNat % 16)).map fun a => [a] := by
  have hhalves : semiOctets (o :: octets) = o.toNat % 16 :: o.toNat / 16 :: semiOctets octets := rfl
  rw [addressDigits, hhalves, List.take_succ_cons, List.take_zero, List.mapM_cons]
  cases dialled (o.toNat % 16) <;> rfl

/-! ## The message -/

structure SmsSubmit where
  destination : List UInt8
  text : List UInt8
deriving DecidableEq, Repr

/-- The octets of TP-VP, from the first octet. -/
def validityLength (first : UInt8) : Nat :=
  if (first >>> 3) &&& 3 = 0 then 0 else if (first >>> 3) &&& 3 = 2 then 1 else 7

/-- The fields behind TP-DA. -/
def decodeUserData (first : UInt8) (destination : List UInt8) : List UInt8 → Option SmsSubmit
  | _pid :: dcs :: rest =>
    match rest.drop (validityLength first) with
    | udl :: ud =>
      -- the default alphabet, no header, and all the septets there
      if dcs = 0 ∧ first &&& 0x40 = 0 ∧ 7 * udl.toNat ≤ 8 * ud.length then some ⟨destination, septets udl.toNat ud⟩
      else none
    | [] => none
  | _ => none

/-- What comes behind the address of the service centre. -/
def decodeTpdu : List UInt8 → Option SmsSubmit
  | first :: _mr :: len :: _toa :: rest =>
    if first &&& 3 = 1 then
      (addressDigits len.toNat (rest.take ((len.toNat + 1) / 2))).bind fun destination =>
        decodeUserData first destination (rest.drop ((len.toNat + 1) / 2))
    else none
  | _ => none

def decodeSmsSubmit : List UInt8 → Option SmsSubmit
  | smsc :: rest => decodeTpdu (rest.drop smsc.toNat)
  | [] => none

end Crimson.Lib
