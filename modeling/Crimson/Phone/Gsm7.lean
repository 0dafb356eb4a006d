import Crimson.Phone.Sms

/-!
# Packing into a buffer (`gsm7_pack` in `modem_eg25g.c`)

`gsm7PackInto` is `gsm7_pack` on a buffer with contents of its own, and it fails where a byte
outside the buffer would be written. The length of the text, the length of the output and the
position of a septet are 32-bit words, so the buffer is filled rightly exactly as long as seven
times the length of the text fits in one.
-/

set_option autoImplicit false

namespace Crimson.Phone

open Crimson.Lib

/-- `out_len`. -/
def gsm7OutLen (text : List UInt8) : Nat := (text.length % 2 ^ 32 * 7 + 7) % 2 ^ 32 / 8

/-- The body of the loop, inside the buffer. -/
def gsm7Write (text : List UInt8) (outLen : Nat) (out : List UInt8) (i : Nat) : Option (List UInt8) :=
  let bitPos := i * 7 % 2 ^ 32
  if bitPos / 8 < out.length ∧ (1 < bitPos % 8 ∧ bitPos / 8 + 1 < outLen → bitPos / 8 + 1 < out.length) then
    some (gsm7Step text outLen out i)
  else none

/-- `gsm7_pack`, with `out` pointing to `buf`: `memset` and the loop. -/
def gsm7PackInto (text buf : List UInt8) : Option (List UInt8) :=
  let outLen := gsm7OutLen text
  if outLen ≤ buf.length then
    (List.range (text.length % 2 ^ 32)).foldlM (gsm7Write text outLen) (List.replicate outLen 0 ++ buf.drop outLen)
  else none

/-- The bits of the characters one behind the other, and then zeros. -/
structure Packed (text out : List UInt8) : Prop where
  septet : ∀ i, i < text.length → Lib.septet out i = text.getD i 0 &&& 0x7F
  rest : ∀ k, 7 * text.length ≤ k → k < 8 * out.length → bitAt out k = false

/-- The text is packed into any buffer of this size, and no byte outside it is written. -/
def PacksAnywhere (text : List UInt8) : Prop :=
  ∀ buf : List UInt8, buf.length = (7 * text.length + 7) / 8 →
    ∃ out, gsm7PackInto text buf = some out ∧ out.length = buf.length ∧ Packed text out

variable {text buf out out' : List UInt8} {i j k n outLen : Nat}

theorem length_gsm7Step : (gsm7Step text outLen out i).length = out.length := by
  unfold gsm7Step
  dsimp only
  split
  · simp
  · simp

theorem gsm7Write_eq_some (h : gsm7Write text outLen out i = some out') : out' = gsm7Step text outLen out i := by
  unfold gsm7Write at h
  dsimp only at h
  split at h
  · exact (Option.some.inj h).symm
  · cases h

/-! ## What the bits are -/

/-- The characters settle every bit. -/
theorem Packed.bit_eq (h : Packed text out) (h' : Packed text out') (hlen : out.length = out'.length)
    (hk : k < 8 * out.length) : bitAt out k = bitAt out' k := by
  by_cases hin : k < 7 * text.length
  · have hplace : 7 * (k / 7) + k % 7 = k := Nat.div_add_mod k 7
    have hbits := (septet_eq_iff (and_lt_seven _)).mp (h.septet (k / 7) (by omega)) (k % 7) (Nat.mod_lt _ (by decide))
    have hbits' := (septet_eq_iff (and_lt_seven _)).mp (h'.septet (k / 7) (by omega)) (k % 7) (Nat.mod_lt _ (by decide))
    rw [hplace] at hbits hbits'
    rw [hbits, hbits']
  · rw [h.rest k (by omega) hk, h'.rest k (by omega) (by omega)]

theorem bitAt_modify_of_set (x : UInt8) (hset : bitAt out k = true) : bitAt (out.modify j (· ||| x)) k = true := by
  by_cases hj : j < out.length
  · rw [bitAt_modify_or hj, hset, Bool.true_or]
  · rwa [List.modify_eq_self (by omega)]

/-- The loop only adds bits. -/
theorem bitAt_gsm7Step_of_set (hset : bitAt out k = true) : bitAt (gsm7Step text outLen out i) k = true := by
  unfold gsm7Step
  dsimp only
  split
  · exact bitAt_modify_of_set _ (bitAt_modify_of_set _ hset)
  · exact bitAt_modify_of_set _ hset

/-- And to none of the bytes that a 32-bit position of a bit does not come to. -/
theorem bitAt_gsm7Step_of_far (hlen : outLen ≤ 2 ^ 29) (hk : 2 ^ 29 ≤ k / 8) :
    bitAt (gsm7Step text outLen out i) k = bitAt out k := by
  have hother (l : List UInt8) (x : UInt8) (m : Nat) (hm : m < 2 ^ 29) :
      bitAt (l.modify m (· ||| x)) k = bitAt l k := by
    by_cases hin : m < l.length
    · rw [bitAt_modify_or hin, decide_eq_false (show k / 8 ≠ m by omega), Bool.false_and, Bool.or_false]
    · rw [List.modify_eq_self (by omega)]
  have hpos : i * 7 % 2 ^ 32 < 2 ^ 32 := Nat.mod_lt _ (by decide)
  unfold gsm7Step
  dsimp only
  split
  · rename_i hcarry
    rw [hother _ _ _ (by omega), hother _ _ _ (by omega)]
  · rw [hother _ _ _ (by omega)]

/-- What a step keeps, the loop keeps. -/
theorem gsm7_keeps {P : List UInt8 → Prop} (hstep : ∀ out i, P out → P (gsm7Step text outLen out i)) {l : List Nat}
    (hP : P out) (h : l.foldlM (gsm7Write text outLen) out = some out') : P out' := by
  induction l generalizing out with
  | nil =>
    obtain rfl := Option.some.inj h
    exact hP
  | cons i l ih =>
    rw [List.foldlM_cons, Option.bind_eq_bind, Option.bind_eq_some_iff] at h
    obtain ⟨next, hnext, hrest⟩ := h
    obtain rfl := gsm7Write_eq_some hnext
    exact ih (hstep out i hP) hrest

theorem gsm7PackInto_keeps {P : List UInt8 → Prop} (hstep : ∀ out i, P out → P (gsm7Step text (gsm7OutLen text) out i))
    (hP : P (List.replicate (gsm7OutLen text) 0 ++ buf.drop (gsm7OutLen text))) (h : gsm7PackInto text buf = some out) :
    P out := by
  unfold gsm7PackInto at h
  dsimp only at h
  split at h
  · exact gsm7_keeps hstep hP h
  · cases h

/-- Behind the bytes that are cleared stands what the buffer held. -/
theorem bitAt_cleared (hn : n ≤ k / 8) : bitAt (List.replicate n 0 ++ buf.drop n) k = bitAt buf k := by
  unfold bitAt
  rw [List.getD_append_right _ _ _ _ (by rwa [List.length_replicate]), List.length_replicate,
    List.getD_eq_getElem?_getD, List.getElem?_drop, Nat.add_sub_cancel' hn, ← List.getD_eq_getElem?_getD]

/-! ## When it fits -/

theorem gsm7_foldlM_inside {l : List Nat} (hl : ∀ i ∈ l, i * 7 < 2 ^ 32 ∧ i * 7 / 8 < outLen)
    (hout : out.length = outLen) :
    l.foldlM (gsm7Write text outLen) out = some (l.foldl (gsm7Step text outLen) out) := by
  induction l generalizing out with
  | nil => rfl
  | cons i l ih =>
    obtain ⟨⟨hpos, hbyte⟩, hrest⟩ := List.forall_mem_cons.mp hl
    have hwrite : gsm7Write text outLen out i = some (gsm7Step text outLen out i) := by
      unfold gsm7Write
      rw [Nat.mod_eq_of_lt hpos, hout]
      exact if_pos ⟨hbyte, fun h => h.2⟩
    rw [List.foldlM_cons, hwrite, List.foldl_cons]
    exact ih hrest (length_gsm7Step.trans hout)

theorem packsAnywhere_of_lt (hsmall : text.length * 7 + 7 < 2 ^ 32) : PacksAnywhere text := by
  intro buf hbuf
  have hlen : text.length % 2 ^ 32 = text.length := Nat.mod_eq_of_lt (by omega)
  have hout : gsm7OutLen text = (text.length * 7 + 7) / 8 := by rw [gsm7OutLen, hlen, Nat.mod_eq_of_lt hsmall]
  have hall : gsm7OutLen text = buf.length := by omega
  obtain ⟨hlength, hbits⟩ := gsm7_loop hsmall (n := text.length) le_rfl
  rw [← hout] at hlength hbits
  refine ⟨_, ?_, hlength.trans hall, ?_⟩
  · unfold gsm7PackInto
    dsimp only
    rw [if_pos (Nat.le_of_eq hall), hlen, List.drop_eq_nil_of_le (Nat.le_of_eq hall.symm), List.append_nil]
    refine gsm7_foldlM_inside (fun i hi => ?_) (List.length_replicate ..)
    have hi := List.mem_range.mp hi
    omega
  · constructor
    · intro i hi
      refine (septet_eq_iff (and_lt_seven _)).mpr fun m hm => ?_
      have hdiv : (7 * i + m) / 7 = i := by omega
      have hmod : (7 * i + m) % 7 = m := by omega
      rw [hbits _ (by omega), hdiv, hmod, decide_eq_true hi, Bool.true_and]
    · intro k hk hlt
      rw [hbits k (by omega), decide_eq_false (by omega), Bool.false_and]

/-! ## When it does not -/

theorem bitAt_replicate (b : UInt8) (h : k < 8 * n) : bitAt (List.replicate n b) k = b.toNat.testBit (k % 8) := by
  rw [bitAt, List.getD_replicate _ (by omega)]

/-- The last bit of the buffer, which comes out 0 or 1 as the buffer held it. -/
theorem not_packsAnywhere (hlarge : 2 ^ 32 ≤ text.length * 7 + 7) : ¬PacksAnywhere text := by
  intro h
  obtain ⟨size, hsize⟩ : ∃ size, size = (7 * text.length + 7) / 8 := ⟨_, rfl⟩
  have hbyte : (8 * size - 1) / 8 = size - 1 := by omega
  have hmod : (8 * size - 1) % 8 = 7 := by omega
  have hout : gsm7OutLen text < 2 ^ 29 := by
    have hlt : (text.length % 2 ^ 32 * 7 + 7) % 2 ^ 32 < 2 ^ 32 := Nat.mod_lt _ (by decide)
    unfold gsm7OutLen
    omega
  obtain ⟨ones, hones, hlen1, hpacked1⟩ := h (List.replicate size 0xFF) (by rw [List.length_replicate, hsize])
  obtain ⟨zeros, hzeros, hlen0, hpacked0⟩ := h (List.replicate size 0) (by rw [List.length_replicate, hsize])
  rw [List.length_replicate] at hlen1 hlen0
  -- a buffer of ones keeps it, and in a buffer of zeros nothing comes to it
  have hset : bitAt ones (8 * size - 1) = true := by
    refine gsm7PackInto_keeps (P := fun out => bitAt out (8 * size - 1) = true) (fun out i hP => ?_) ?_ hones
    · exact bitAt_gsm7Step_of_set hP
    · rw [bitAt_cleared (by omega), bitAt_replicate _ (by omega), hmod]
      decide
  by_cases hfar : 2 ^ 29 ≤ size - 1
  · have hclear : bitAt zeros (8 * size - 1) = false := by
      refine gsm7PackInto_keeps (P := fun out => bitAt out (8 * size - 1) = false) (fun out i hP => ?_) ?_ hzeros
      · rw [bitAt_gsm7Step_of_far hout.le (by omega), hP]
      · rw [bitAt_cleared (by omega), bitAt_replicate _ (by omega)]
        exact Nat.zero_testBit _
    have hsame := hpacked1.bit_eq hpacked0 (by omega) (show 8 * size - 1 < 8 * ones.length by omega)
    rw [hset, hclear] at hsame
    cases hsame
  · -- one length only, whose last four bits are unused
    have hunused := hpacked1.rest (8 * size - 1) (by omega) (by omega)
    rw [hset] at hunused
    cases hunused

/-- **The texts that are packed rightly into every buffer of their size.** -/
theorem gsm7_pack_iff (text : List UInt8) : PacksAnywhere text ↔ text.length * 7 + 7 < 2 ^ 32 := by
  constructor
  · intro h
    by_contra hlarge
    exact not_packsAnywhere (Nat.le_of_not_lt hlarge) h
  · exact packsAnywhere_of_lt

/-- The shortest text that is not. -/
theorem gsm7_pack_runs_over : ¬PacksAnywhere (List.replicate 613566756 65) :=
  not_packsAnywhere (by rw [List.length_replicate]; decide)

end Crimson.Phone
