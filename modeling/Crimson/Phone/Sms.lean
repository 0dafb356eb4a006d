import Crimson.Lib.Tpdu

/-!
# Sending a short message (`cellular.c`, `modem_eg25g.c`)

`cellular_send_sms` writes the octets of an SMS-SUBMIT one behind the other. Of two digits it
puts the first one in the high half of the octet, where the second is read, and the text goes in
one octet a character although the length counts septets. The driver of the modem has
`gsm7_pack`, which packs a text as it should be; nothing calls it.
-/

set_option autoImplicit false

namespace Crimson.Phone

open Crimson.Lib

/-- The size of `pdu`. -/
def smsPduSize : Nat := 256

/-- The loop that encodes the number, `dest` from digit `i` on. -/
def bcdEncode : List UInt8 → List UInt8
  | [] => []
  | [low] => [(low - 48) <<< 4 ||| 0x0F]
  | low :: high :: dest => ((low - 48) <<< 4 ||| (high - 48)) :: bcdEncode dest

/-- The octets `cellular_send_sms` writes to `pdu`; `pdu_len` is how many. -/
def smsPdu (dest text : List UInt8) : List UInt8 :=
  [0x00, 0x11, 0x00, UInt8.ofNat dest.length, 0x91] ++ bcdEncode dest ++
    [0x00, 0x00, 0xA7, UInt8.ofNat text.length] ++ text

/-- What `cellular_send_sms` uses of a modem driver. -/
structure CellDriver where
  sendSmsPdu : Option (List UInt8 → Int)

/-- `cellular_send_sms`: the result, and the octets handed to `send_sms_pdu`. -/
def cellularSendSms (driver : Option CellDriver) (dest text : List UInt8) : Int × Option (List UInt8) :=
  match driver with
  | none => (-1, none)
  | some driver =>
    match driver.sendSmsPdu with
    | some send => (send (smsPdu dest text), some (smsPdu dest text))
    | none => (-1, none)

/-- What is handed over fits in `pdu` and is read as this text to this number. -/
def Submits (pdu : Option (List UInt8)) (dest text : List UInt8) : Prop :=
  ∃ octets, pdu = some octets ∧ octets.length ≤ smsPduSize ∧ decodeSmsSubmit octets = some ⟨dest, text⟩

/-- A number of equal digits, two and two. -/
def Paired : List UInt8 → Prop
  | [] => True
  | [_] => False
  | low :: high :: dest => low = high ∧ Paired dest

/-! ## The number -/

section

variable {dest text : List UInt8}

theorem length_bcdEncode (dest : List UInt8) : (bcdEncode dest).length = (dest.length + 1) / 2 := by
  fun_induction bcdEncode dest with
  | case1 => rfl
  | case2 => simp
  | case3 low high dest ih =>
    simp only [List.length_cons, ih]
    omega

/-- A digit is the value of its semi-octet. -/
theorem digit_eq {d : UInt8} (hd : 48 ≤ d ∧ d ≤ 57) : ∃ i : Fin 10, d = 48 + UInt8.ofNat i := by
  have hlo : 48 ≤ d.toNat := UInt8.le_iff_toNat_le.mp hd.1
  have hhi : d.toNat ≤ 57 := UInt8.le_iff_toNat_le.mp hd.2
  refine ⟨⟨d.toNat - 48, by omega⟩, UInt8.toNat_inj.mp ?_⟩
  rw [UInt8.toNat_add, UInt8.toNat_ofNat_of_lt' (show d.toNat - 48 < 256 by omega)]
  show d.toNat = (48 + (d.toNat - 48)) % 256
  omega

/-- The halves of an octet of two digits: the first one is the high one. -/
theorem dialled_halves {low high : UInt8} (hlow : 48 ≤ low ∧ low ≤ 57) (hhigh : 48 ≤ high ∧ high ≤ 57) :
    dialled (((low - 48) <<< 4 ||| (high - 48)).toNat % 16) = some high ∧
      dialled (((low - 48) <<< 4 ||| (high - 48)).toNat / 16) = some low := by
  obtain ⟨i, rfl⟩ := digit_eq hlow
  obtain ⟨j, rfl⟩ := digit_eq hhigh
  revert i j
  decide

/-- The low half of the last octet of a number with an odd digit is the filler. -/
theorem dialled_filler {low : UInt8} (hlow : 48 ≤ low ∧ low ≤ 57) :
    dialled (((low - 48) <<< 4 ||| 0x0F).toNat % 16) = none := by
  obtain ⟨i, rfl⟩ := digit_eq hlow
  revert i
  decide

/-- **The number is read as it was written exactly if its digits are paired.** -/
theorem addressDigits_bcdEncode (hdest : ∀ d ∈ dest, 48 ≤ d ∧ d ≤ 57) :
    addressDigits dest.length (bcdEncode dest) = some dest ↔ Paired dest := by
  fun_induction bcdEncode dest with
  | case1 => simp [addressDigits, semiOctets, Paired]
  | case2 low =>
    rw [List.length_singleton, addressDigits_one, dialled_filler (hdest low (by simp))]
    simp [Paired]
  | case3 low high dest ih =>
    obtain ⟨hsecond, hfirst⟩ := dialled_halves (hdest low (by simp)) (hdest high (by simp))
    have ih := ih fun d hd => hdest d (by simp [hd])
    have hdigits : addressDigits (low :: high :: dest).length
        (((low - 48) <<< 4 ||| (high - 48)) :: bcdEncode dest) =
        (addressDigits dest.length (bcdEncode dest)).map fun digits => high :: low :: digits := by
      rw [List.length_cons, List.length_cons, addressDigits_cons, hsecond, hfirst]
      rfl
    rw [hdigits, Paired, ← ih, Option.map_eq_some_iff]
    constructor
    · rintro ⟨digits, hrest, heq⟩
      simp only [List.cons.injEq] at heq
      obtain ⟨rfl, -, rfl⟩ := heq
      exact ⟨rfl, hrest⟩
    · rintro ⟨rfl, hrest⟩
      exact ⟨dest, hrest, rfl⟩

/-! ## The message -/

/-- The octets fit, whatever is sent. -/
theorem length_smsPdu (hdest : dest.length ≤ 20) (htext : text.length ≤ 160) :
    (smsPdu dest text).length ≤ smsPduSize := by
  simp only [smsPdu, List.length_append, List.length_cons, List.length_nil, length_bcdEncode, smsPduSize]
  omega

/-- The fields come where they are looked for. -/
theorem decode_smsPdu (hdest : dest.length ≤ 20) (htext : text.length ≤ 160) :
    decodeSmsSubmit (smsPdu dest text) =
      (addressDigits dest.length (bcdEncode dest)).map fun destination => ⟨destination, septets text.length text⟩ := by
  have hlen : (UInt8.ofNat dest.length).toNat = dest.length := UInt8.toNat_ofNat_of_lt' (Nat.lt_of_le_of_lt hdest (by decide))
  have hudl : (UInt8.ofNat text.length).toNat = text.length := UInt8.toNat_ofNat_of_lt' (Nat.lt_of_le_of_lt htext (by decide))
  have hpdu : decodeSmsSubmit (smsPdu dest text) =
      decodeTpdu (0x11 :: 0x00 :: UInt8.ofNat dest.length :: 0x91 ::
        (bcdEncode dest ++ (0x00 :: 0x00 :: 0xA7 :: UInt8.ofNat text.length :: text))) := by
    simp [smsPdu, decodeSmsSubmit]
  have hdata : ∀ destination,
      decodeUserData 0x11 destination (0x00 :: 0x00 :: 0xA7 :: UInt8.ofNat text.length :: text) =
        some ⟨destination, septets text.length text⟩ := by
    intro destination
    have hvp : validityLength 0x11 = 1 := by decide
    simp only [decodeUserData, hvp, List.drop_succ_cons, List.drop_zero, hudl]
    rw [if_pos ⟨trivial, by decide, by omega⟩]
  rw [hpdu, decodeTpdu, hlen, ← length_bcdEncode, List.take_left, List.drop_left, if_pos (by decide)]
  simp only [hdata]
  cases addressDigits dest.length (bcdEncode dest) <;> rfl

/-- **The message submitted is the one meant exactly if the digits are paired and the text has
    at most one character.** -/
theorem send_sms_iff (send : List UInt8 → Int) (hdest : 1 ≤ dest.length ∧ dest.length ≤ 20)
    (hdigits : ∀ d ∈ dest, 48 ≤ d ∧ d ≤ 57) (htext : text.length ≤ 160) (hchars : ∀ c ∈ text, 0 < c ∧ c < 128) :
    Submits (cellularSendSms (some ⟨some send⟩) dest text).2 dest text ↔ Paired dest ∧ text.length ≤ 1 := by
  rw [← addressDigits_bcdEncode hdigits, ← septets_unpacked hchars]
  have hdecode : decodeSmsSubmit (smsPdu dest text) = _ := decode_smsPdu hdest.2 htext
  constructor
  · rintro ⟨octets, heq, -, hread⟩
    obtain rfl := Option.some.inj heq
    rw [hdecode] at hread
    obtain ⟨destination, hdestination, hmessage⟩ := Option.map_eq_some_iff.mp hread
    obtain ⟨rfl, hseptets⟩ := SmsSubmit.mk.injEq .. ▸ hmessage
    exact ⟨hdestination, hseptets⟩
  · rintro ⟨hdestination, hseptets⟩
    refine ⟨smsPdu dest text, rfl, length_smsPdu hdest.2 htext, ?_⟩
    rw [hdecode, hdestination, Option.map_some, hseptets]

end

/-- A call to 22 with one character gets through. -/
theorem send_sms_paired :
    Submits (cellularSendSms (some ⟨some fun _ => 0⟩) [50, 50] [65]).2 [50, 50] [65] :=
  (send_sms_iff (fun _ => 0) (by decide) (by simp) (by decide) (by simp)).mpr
    ⟨⟨rfl, trivial⟩, by decide⟩

/-- The number 12 is read as 21. -/
theorem send_sms_swaps : ¬Submits (cellularSendSms (some ⟨some fun _ => 0⟩) [49, 50] [72, 105]).2 [49, 50] [72, 105] := by
  rintro ⟨octets, heq, -, hread⟩
  obtain rfl := Option.some.inj heq
  exact absurd hread (by decide +kernel)

/-! ## Packing a text -/

/-- The body of the loop of `gsm7_pack`. -/
def gsm7Step (text : List UInt8) (outLen : Nat) (out : List UInt8) (i : Nat) : List UInt8 :=
  let c := text.getD i 0 &&& 0x7F
  let bitPos := i * 7 % 2 ^ 32
  let byteOff := bitPos / 8
  let bitOff := bitPos % 8
  let out := out.modify byteOff (· ||| c <<< UInt8.ofNat bitOff)
  if 1 < bitOff ∧ byteOff + 1 < outLen then out.modify (byteOff + 1) (· ||| c >>> UInt8.ofNat (8 - bitOff)) else out

/-- `gsm7_pack`: what it returns, and `out`. -/
def gsm7Pack (text : List UInt8) : Nat × List UInt8 :=
  let len := text.length % 2 ^ 32
  let outLen := (len * 7 + 7) % 2 ^ 32 / 8
  (len, (List.range len).foldl (gsm7Step text outLen) (List.replicate outLen 0))

/-- The bits of a character shifted to where they start in an octet. -/
theorem testBit_shiftLeft_octet (c : UInt8) {s k : Nat} (hs : s < 8) (hk : k < 8) :
    (c <<< UInt8.ofNat s).toNat.testBit k = (decide (s ≤ k) && c.toNat.testBit (k - s)) := by
  have hnat : (UInt8.ofNat s).toNat % 8 = s := by
    rw [UInt8.toNat_ofNat_of_lt' (Nat.lt_trans hs (by decide)), Nat.mod_eq_of_lt hs]
  rw [UInt8.toNat_shiftLeft, hnat]
  show ((c.toNat <<< s) % 2 ^ 8).testBit k = _
  rw [Nat.testBit_mod_two_pow, Nat.testBit_shiftLeft]
  simp [hk]

/-- And the bits that are left for the next octet. -/
theorem testBit_shiftRight_octet (c : UInt8) {s : Nat} (hs : s < 8) (k : Nat) :
    (c >>> UInt8.ofNat s).toNat.testBit k = c.toNat.testBit (s + k) := by
  have hnat : (UInt8.ofNat s).toNat % 8 = s := by
    rw [UInt8.toNat_ofNat_of_lt' (Nat.lt_trans hs (by decide)), Nat.mod_eq_of_lt hs]
  rw [UInt8.toNat_shiftRight, hnat, Nat.testBit_shiftRight]

theorem and_lt_seven (c : UInt8) : c &&& 0x7F < 128 := by
  rw [UInt8.lt_iff_toNat_lt, UInt8.toNat_and]
  exact Nat.and_lt_two_pow _ (n := 7) (by decide)

theorem testBit_seven {c : UInt8} {m : Nat} (hm : 7 ≤ m) : (c &&& 0x7F).toNat.testBit m = false := by
  rw [UInt8.toNat_and]
  refine Nat.testBit_lt_two_pow (Nat.lt_of_lt_of_le ?_ (Nat.pow_le_pow_right (by decide) hm))
  exact Nat.and_lt_two_pow _ (n := 7) (by decide)

/-- Bit `k` of the octets is bit `k - 7 i` of character `i`, if it is there. -/
theorem septet_bits {c : UInt8} {i k m : Nat} (hc : ∀ m, 7 ≤ m → c.toNat.testBit m = false) (hk : i * 7 + m = k) :
    c.toNat.testBit m = (decide (k / 7 = i) && c.toNat.testBit (k % 7)) := by
  by_cases hm : m < 7
  · have hdiv : k / 7 = i := by omega
    have hmod : k % 7 = m := by omega
    simp [hdiv, hmod]
  · have hdiv : k / 7 ≠ i := by omega
    simp [hdiv, hc m (Nat.le_of_not_lt hm)]

/-- One character: its seven bits are set where septet `i` lies, and no others. -/
theorem gsm7Step_bits {text out : List UInt8} {i : Nat} (hi : i < text.length) (hsmall : text.length * 7 + 7 < 2 ^ 32)
    (hout : out.length = (text.length * 7 + 7) / 8) :
    (gsm7Step text out.length out i).length = out.length ∧
      ∀ k < 8 * out.length, bitAt (gsm7Step text out.length out i) k =
        (bitAt out k || (decide (k / 7 = i) && (text.getD i 0 &&& 0x7F).toNat.testBit (k % 7))) := by
  have hpos : i * 7 % 2 ^ 32 = i * 7 := Nat.mod_eq_of_lt (by omega)
  have hbyte : i * 7 / 8 < out.length := by omega
  unfold gsm7Step
  simp only [hpos]
  generalize hc : text.getD i 0 &&& 0x7F = c
  have hseven : ∀ m, 7 ≤ m → c.toNat.testBit m = false := fun m hm => hc ▸ testBit_seven hm
  -- the octet the septet begins in
  have hfirst : ∀ k, k / 8 = i * 7 / 8 →
      (decide (i * 7 % 8 ≤ k % 8) && c.toNat.testBit (k % 8 - i * 7 % 8)) =
        (decide (k / 7 = i) && c.toNat.testBit (k % 7)) := by
    intro k hk
    by_cases hle : i * 7 % 8 ≤ k % 8
    · rw [← septet_bits hseven (show i * 7 + (k % 8 - i * 7 % 8) = k by omega)]
      simp [hle]
    · have hdiv : k / 7 ≠ i := by omega
      simp [hle, hdiv]
  by_cases hcarry : 1 < i * 7 % 8 ∧ i * 7 / 8 + 1 < out.length
  · -- it runs over into the next one
    rw [if_pos hcarry]
    refine ⟨by simp, fun k _ => ?_⟩
    rw [bitAt_modify_or (by simpa using hcarry.2), bitAt_modify_or hbyte,
      testBit_shiftLeft_octet c (Nat.mod_lt _ (by decide)) (Nat.mod_lt _ (by decide)),
      testBit_shiftRight_octet c (by omega), Bool.or_assoc]
    refine congrArg (bitAt out k || ·) ?_
    by_cases hk : k / 8 = i * 7 / 8
    · have hnext : k / 8 ≠ i * 7 / 8 + 1 := by omega
      rw [hfirst k hk]
      simp [hk]
    · by_cases hnext : k / 8 = i * 7 / 8 + 1
      · rw [← septet_bits hseven (show i * 7 + (8 - i * 7 % 8 + k % 8) = k by omega)]
        simp [hnext]
      · have hdiv : k / 7 ≠ i := by omega
        simp [hk, hnext, hdiv]
  · -- the octets end with this character's, or it ends with this octet
    rw [if_neg hcarry]
    refine ⟨by simp, fun k hlt => ?_⟩
    rw [bitAt_modify_or hbyte, testBit_shiftLeft_octet c (Nat.mod_lt _ (by decide)) (Nat.mod_lt _ (by decide))]
    refine congrArg (bitAt out k || ·) ?_
    by_cases hk : k / 8 = i * 7 / 8
    · rw [hfirst k hk]
      simp [hk]
    · have hdiv : k / 7 ≠ i := by omega
      simp [hk, hdiv]

theorem gsm7_loop {text : List UInt8} (hsmall : text.length * 7 + 7 < 2 ^ 32) {n : Nat} (hn : n ≤ text.length) :
    let outLen := (text.length * 7 + 7) / 8
    let out := (List.range n).foldl (gsm7Step text outLen) (List.replicate outLen 0)
    out.length = outLen ∧ ∀ k < 8 * outLen,
      bitAt out k = (decide (k / 7 < n) && (text.getD (k / 7) 0 &&& 0x7F).toNat.testBit (k % 7)) := by
  intro outLen
  induction n with
  | zero => exact ⟨by simp, fun k _ => by simp [bitAt_replicate_zero]⟩
  | succ n ih =>
    obtain ⟨hlen, hbits⟩ := ih (by omega)
    rw [List.range_succ, List.foldl_concat]
    generalize (List.range n).foldl (gsm7Step text outLen) (List.replicate outLen 0) = out at hlen hbits
    obtain ⟨hlen', hstep⟩ := gsm7Step_bits (i := n) (by omega) hsmall hlen
    rw [hlen] at hlen' hstep
    refine ⟨hlen', fun k hk => ?_⟩
    rw [hstep k hk, hbits k hk]
    rcases Nat.lt_trichotomy (k / 7) n with hlt | heq | hgt
    · simp [hlt, Nat.lt_succ_of_lt hlt, Nat.ne_of_lt hlt]
    · simp [heq]
    · have hle : ¬k / 7 < n := by omega
      have hle' : ¬k / 7 < n + 1 := by omega
      simp [hle, hle', Nat.ne_of_gt hgt]

/-- **What `gsm7_pack` packs is the text when it is unpacked**, seven bits a character. -/
theorem septets_gsm7Pack {text : List UInt8} (hsmall : text.length * 7 + 7 < 2 ^ 32) :
    (gsm7Pack text).1 = text.length ∧ septets text.length (gsm7Pack text).2 = text.map fun c => c &&& 0x7F := by
  have hlen : text.length % 2 ^ 32 = text.length := Nat.mod_eq_of_lt (by omega)
  have hout : (text.length * 7 + 7) % 2 ^ 32 / 8 = (text.length * 7 + 7) / 8 := by
    rw [Nat.mod_eq_of_lt (by omega)]
  obtain ⟨-, hbits⟩ := gsm7_loop hsmall (n := text.length) le_rfl
  simp only [gsm7Pack, hlen, hout]
  refine ⟨trivial, ?_⟩
  refine List.ext_getElem (by simp [septets]) fun i hi _ => ?_
  have hi : i < text.length := by simpa [septets] using hi
  simp only [septets, List.getElem_map, List.getElem_range]
  refine (septet_eq_iff (and_lt_seven _)).mpr fun m hm => ?_
  have hdiv : (7 * i + m) / 7 = i := by omega
  have hmod : (7 * i + m) % 7 = m := by omega
  rw [hbits _ (by omega), hdiv, hmod]
  simp [hi]

end Crimson.Phone
