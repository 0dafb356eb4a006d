import Crimson.Lib.Sha1
import Crimson.Wifi.Sha1

/-!
# What `sha1_final` yields (`wifi_rtl8723cs.c`)

The functions of the driver against the standard. `sha1_process_block` is the compression
function, and `sha1_update` takes in the message in any pieces (`Absorbed`), with its length in
two words. `sha1_final` leaves as many bytes between the padding and the length as the buffer
holds, so what stands where the length belongs are bytes of the stack, unless the message ends
with a block.
-/

set_option autoImplicit false

namespace Crimson.Wifi

open Crimson.Lib.Sha1

variable {c : Sha1Ctx} {data : List UInt8}

/-! ## The block function -/

theorem blockWord_eq (blk : List UInt8) (i : Nat) : blockWord blk i = messageWord blk i := by
  have hshift (b : UInt8) : (b.toUInt32 <<< 24).toBitVec = b.toBitVec.setWidth 32 <<< 24 ∧
      (b.toUInt32 <<< 16).toBitVec = b.toBitVec.setWidth 32 <<< 16 ∧
      (b.toUInt32 <<< 8).toBitVec = b.toBitVec.setWidth 32 <<< 8 := ⟨rfl, rfl, rfl⟩
  apply UInt32.toBitVec_inj.mp
  apply BitVec.eq_of_getLsbD_eq
  intro k hk
  simp only [blockWord, messageWord, Nat.mul_comm i 4, Nat.add_zero, BitVec.getLsbD_append, UInt32.toBitVec_or,
    hshift, UInt8.toBitVec_toUInt32, BitVec.getLsbD_or, BitVec.getLsbD_shiftLeft, BitVec.getLsbD_setWidth, hk,
    decide_true, Bool.true_and]
  generalize blk.getD (4 * i) 0 = b0
  generalize blk.getD (4 * i + 1) 0 = b1
  generalize blk.getD (4 * i + 2) 0 = b2
  generalize blk.getD (4 * i + 3) 0 = b3
  have hhigh (b : UInt8) (j : Nat) (hj : 8 ≤ j) : b.toBitVec.getLsbD j = false := BitVec.getLsbD_of_ge _ _ hj
  -- which of the four bytes bit `k` is in
  by_cases h8 : k < 8
  · simp [h8, show k < 16 by omega, show k < 24 by omega]
  · by_cases h16 : k < 16
    · simp [h8, h16, show k < 24 by omega, show k - 8 < 8 by omega, show k - 8 < 32 by omega, hhigh b3 k (by omega)]
    · by_cases h24 : k < 24
      · simp [h8, h16, h24, show ¬ k - 8 < 8 by omega, show k - 16 < 8 by omega, show k - 16 < 32 by omega,
          show k - 8 - 8 = k - 16 by omega, hhigh b3 k (by omega), hhigh b2 (k - 8) (by omega)]
      · simp [h8, h16, h24, show ¬ k - 8 < 8 by omega, show ¬ k - 16 < 8 by omega, show k - 24 < 32 by omega,
          show k - 8 - 8 = k - 16 by omega, show k - 16 - 8 = k - 24 by omega, hhigh b3 k (by omega),
          hhigh b2 (k - 8) (by omega), hhigh b1 (k - 16) (by omega)]

theorem scheduleWords_sixteen (m : Nat → UInt32) (n : Nat) (h : n ≤ 16) :
    scheduleWords m n = (List.range n).map m := by
  induction n with
  | zero => rfl
  | succ n ih =>
    rw [scheduleWords, ih (by omega), if_pos (by omega), List.range_succ, List.map_append, List.map_cons, List.map_nil]

/-- The array of words as it grows is the message schedule. -/
theorem sha1Words_grows (blk : List UInt8) (n : Nat) :
    ((List.range n).foldl
      (fun (w : Array UInt32) j =>
        let i := j + 16
        w.push (sha1Rotl (w.getD (i - 3) 0 ^^^ w.getD (i - 8) 0 ^^^ w.getD (i - 14) 0 ^^^ w.getD (i - 16) 0) 1))
      ((List.range 16).map (blockWord blk)).toArray) = (scheduleWords (messageWord blk) (16 + n)).toArray := by
  have hword : blockWord blk = messageWord blk := funext (blockWord_eq blk)
  induction n with
  | zero => rw [scheduleWords_sixteen _ _ (Nat.le_refl 16), hword, List.range_zero, List.foldl_nil]
  | succ n ih =>
    rw [List.range_succ (n := n), List.foldl_append, ih, List.foldl_cons, List.foldl_nil, ← Nat.add_assoc, scheduleWords,
      if_neg (by omega), Nat.add_comm n 16]
    simp only [List.push_toArray, Array.getD_eq_getD_getElem?, List.getElem?_toArray, List.getD_eq_getElem?_getD]
    rfl

theorem sha1Words_eq (blk : List UInt8) : sha1Words blk = (scheduleWords (messageWord blk) 80).toArray :=
  sha1Words_grows blk 64

theorem ch_eq (x y z : UInt32) : (x &&& y) ||| (~~~x &&& z) = ch x y z := by
  apply UInt32.toBitVec_inj.mp
  apply BitVec.eq_of_getLsbD_eq
  intro k hk
  simp only [ch, UInt32.toBitVec_or, UInt32.toBitVec_xor, UInt32.toBitVec_and, UInt32.toBitVec_not, BitVec.getLsbD_or,
    BitVec.getLsbD_xor, BitVec.getLsbD_and, BitVec.getLsbD_not, hk, decide_true, Bool.true_and]
  cases x.toBitVec.getLsbD k <;> simp

theorem maj_eq (x y z : UInt32) : (x &&& y) ||| (x &&& z) ||| (y &&& z) = maj x y z := by
  apply UInt32.toBitVec_inj.mp
  apply BitVec.eq_of_getLsbD_eq
  intro k hk
  simp only [maj, UInt32.toBitVec_or, UInt32.toBitVec_xor, UInt32.toBitVec_and, BitVec.getLsbD_or,
    BitVec.getLsbD_xor, BitVec.getLsbD_and]
  cases x.toBitVec.getLsbD k <;> cases y.toBitVec.getLsbD k <;> simp

theorem sha1Round_eq (t : Nat) (x y z : UInt32) : sha1Round t x y z = (roundFun t x y z, roundConst t) := by
  unfold sha1Round roundFun roundConst
  split
  · rw [ch_eq]
  · split
    · rfl
    · split
      · rw [maj_eq]
      · rfl

/-- The state as the array `h`. -/
def words (s : State) : Vector UInt32 5 := #v[s.a, s.b, s.c, s.d, s.e]

/-- A round on the array of words. -/
theorem sha1Round_step (blk : List UInt8) (s : State) (t : Nat) :
    (let f := sha1Round t s.b s.c s.d
      let T := sha1Rotl s.a 5 + f.1 + s.e + f.2 + (sha1Words blk).getD t 0
      words ⟨T, s.a, sha1Rotl s.b 30, s.c, s.d⟩) =
        words (round (fun t => (scheduleWords (messageWord blk) 80).getD t 0) s t) := by
  rw [sha1Words_eq]
  generalize scheduleWords (messageWord blk) 80 = w
  have hget : w.toArray.getD t 0 = w.getD t 0 := by
    rw [Array.getD_eq_getD_getElem?, List.getElem?_toArray, ← List.getD_eq_getElem?_getD]
  simp only [sha1Round_eq, hget]
  rfl

/-- **`sha1_process_block` is the compression function.** -/
theorem sha1ProcessBlock_eq (h : State) (blk : List UInt8) :
    sha1ProcessBlock (words h) blk = words (compress h blk) := by
  have hrounds : (List.range 80).foldl
      (fun (s : Vector UInt32 5) i =>
        let f := sha1Round i s[1] s[2] s[3]
        let t := sha1Rotl s[0] 5 + f.1 + s[4] + f.2 + (sha1Words blk).getD i 0
        #v[t, s[0], sha1Rotl s[1] 30, s[2], s[3]]) (words h) =
      words ((List.range 80).foldl (round fun t => (scheduleWords (messageWord blk) 80).getD t 0) h) :=
    List.foldl_hom words (sha1Round_step blk)
  have hsum (v : Vector UInt32 5) (s : State) (hv : v = words s) :
      #v[(words h)[0] + v[0], (words h)[1] + v[1], (words h)[2] + v[2], (words h)[3] + v[3], (words h)[4] + v[4]] =
        words ⟨h.a + s.a, h.b + s.b, h.c + s.c, h.d + s.d, h.e + s.e⟩ := by
    rw [hv]
    rfl
  exact hsum _ _ hrounds

/-! ## Pieces of a message -/

/-- The context that has taken in the bytes `data`. -/
structure Absorbed (c : Sha1Ctx) (data : List UInt8) : Prop where
  state : c.h = words (hashBlocks data)
  buf : c.buf = rest data
  lenLo : c.lenLo.toNat = 8 * data.length % 2 ^ 32
  lenHi : c.lenHi.toNat = 8 * data.length / 2 ^ 32 % 2 ^ 32

theorem absorbed_init : Absorbed sha1Init [] where
  state := rfl
  buf := rfl
  lenLo := rfl
  lenHi := rfl

theorem carry_of_zero {n : Nat} (h : 8 * (n + 1) % 2 ^ 32 = 0) :
    (8 * n / 2 ^ 32 % 2 ^ 32 + 1) % 2 ^ 32 = 8 * (n + 1) / 2 ^ 32 % 2 ^ 32 := by
  simp only [Nat.reducePow] at h ⊢
  omega

theorem no_carry {n : Nat} (h : 8 * (n + 1) % 2 ^ 32 ≠ 0) : 8 * n / 2 ^ 32 % 2 ^ 32 = 8 * (n + 1) / 2 ^ 32 % 2 ^ 32 := by
  simp only [Nat.reducePow] at h ⊢
  omega

theorem Absorbed.byte {b : UInt8} (hc : Absorbed c data) : Absorbed (sha1Byte c b) (data ++ [b]) := by
  have hlo := hc.lenLo
  have hhi := hc.lenHi
  have hlength : (data ++ [b]).length = data.length + 1 := by simp
  have hbuf : (c.buf ++ [b]).length = data.length % 64 + 1 := by
    rw [hc.buf, List.length_append, length_rest, List.length_singleton]
  have hlo' : (c.lenLo + 8).toNat = 8 * (data ++ [b]).length % 2 ^ 32 := by
    rw [UInt32.toNat_add, hlo, hlength]
    simp
    omega
  -- the lower word is a multiple of 8, so it is 0 exactly when it has run over
  have hhi' : (if c.lenLo + 8 = 0 then c.lenHi + 1 else c.lenHi).toNat =
      8 * (data ++ [b]).length / 2 ^ 32 % 2 ^ 32 := by
    have hzero : c.lenLo + 8 = 0 ↔ 8 * (data.length + 1) % 2 ^ 32 = 0 := by
      rw [← hlength, ← hlo', ← UInt32.toNat_inj]
      rfl
    by_cases hover : c.lenLo + 8 = 0
    · rw [if_pos hover, UInt32.toNat_add, hhi, hlength]
      exact carry_of_zero (hzero.mp hover)
    · rw [if_neg hover, hhi, hlength]
      exact no_carry fun h => hover (hzero.mpr h)
  by_cases hfull : (c.buf ++ [b]).length = 64
  · have hdvd : (data.length + 1) % 64 = 0 := by omega
    have hstate : hashBlocks (data ++ [b]) = compress (hashBlocks data) (rest data ++ [b]) :=
      hashBlocks_last (by simpa using hdvd) (by simp) (by simp)
    have hrest : rest (data ++ [b]) = [] := rest_of_dvd (by rw [hlength, hdvd])
    simp only [sha1Byte, hfull, if_true]
    exact ⟨by rw [hc.state, hc.buf, sha1ProcessBlock_eq, hstate], hrest.symm, hlo', hhi'⟩
  · have hndvd : (data.length + 1) % 64 ≠ 0 := by omega
    have hstate : hashBlocks (data ++ [b]) = hashBlocks data := hashBlocks_append (by simp; omega)
    simp only [sha1Byte, hfull, if_false]
    exact ⟨by rw [hstate, hc.state], by rw [rest_concat hndvd, hc.buf], hlo', hhi'⟩

theorem Absorbed.update (hc : Absorbed c data) (piece : List UInt8) :
    Absorbed (sha1Update c piece) (data ++ piece) := by
  induction piece generalizing c data with
  | nil => simpa [sha1Update] using hc
  | cons b piece ih =>
    have hnext := ih (hc.byte (b := b))
    rwa [List.append_assoc] at hnext

/-- **Any pieces of a message are the message.** -/
theorem absorbed_pieces (chunks : List (List UInt8)) :
    Absorbed (chunks.foldl sha1Update sha1Init) chunks.flatten := by
  have hfrom (c : Sha1Ctx) (data : List UInt8) (hc : Absorbed c data) :
      Absorbed (chunks.foldl sha1Update c) (data ++ chunks.flatten) := by
    induction chunks generalizing c data with
    | nil => simpa using hc
    | cons piece chunks ih =>
      rw [List.flatten_cons, ← List.append_assoc]
      exact ih _ _ (hc.update piece)
  exact hfrom _ [] absorbed_init

/-! ## The padding -/

/-- The bytes of the stack that `sha1_final` leaves between the padding and the length. -/
def leftOver (stack : Stack) (n : Nat) : List UInt8 := (List.range (n % 64)).map fun i => stack (1 + paddingZeros n + i)

/-- The eight bytes that stand where the length belongs. -/
def lengthFound (stack : Stack) (msg : List UInt8) : List UInt8 := (leftOver stack msg.length ++ lengthBytes msg).take 8

theorem wordBytes_eq (x : UInt32) : wordBytes x = bigEndian 4 x.toNat := by
  simp [wordBytes, bigEndian, List.range_succ, ← UInt8.toNat_inj, Nat.shiftRight_eq_div_pow]

/-- The two words are the length, as long as it fits. -/
theorem lengthBytes_eq {msg : List UInt8} (hc : Absorbed c msg) (hlen : msg.length < 2 ^ 61) :
    wordBytes c.lenHi ++ wordBytes c.lenLo = lengthBytes msg := by
  rw [wordBytes_eq, wordBytes_eq, hc.lenLo, hc.lenHi, lengthBytes]
  simp only [bigEndian, List.range_succ, List.range_zero, List.nil_append, List.cons_append, List.map_cons,
    List.map_nil, List.cons.injEq, and_true, ← UInt8.toNat_inj, UInt8.toNat_ofNat', Nat.reduceSub, Nat.reducePow]
    at hlen ⊢
  omega

/-- **What is hashed**: the message, its padding, the bytes left over and the length. -/
theorem sha1Pad_eq {msg : List UInt8} {stack : Stack} (hc : Absorbed c msg) (hlen : msg.length < 2 ^ 61) :
    msg ++ sha1Pad c stack = padFront msg ++ (leftOver stack msg.length ++ lengthBytes msg) := by
  have hbuf : c.buf.length = msg.length % 64 := by rw [hc.buf, length_rest]
  have hpad : (if c.buf.length < 56 then 55 - c.buf.length else 119 - c.buf.length) = paddingZeros msg.length := by
    rw [hbuf, paddingZeros]
    split <;> omega
  have hzeros (z : Nat) (f : Nat → UInt8) (hf : ∀ i, f i = if i = 0 then 0x80 else if i ≤ z then 0 else stack i) :
      (List.range (1 + z)).map f = 0x80 :: List.replicate z 0 := by
    apply List.ext_getElem
    · simp [Nat.add_comm]
    · intro i hi _
      cases i with
      | zero => simp [hf]
      | succ i =>
        have hlt : i + 1 < 1 + z := by simpa using hi
        simp [hf, show i + 1 ≤ z by omega]
  have htotal : msg.length % 64 + 1 + paddingZeros msg.length = (1 + paddingZeros msg.length) + msg.length % 64 := by
    omega
  have hleft : ((List.range (msg.length % 64)).map fun i => 1 + paddingZeros msg.length + i).map
      (fun i => if i = 0 then 0x80 else if i ≤ paddingZeros msg.length then 0 else stack i) =
        leftOver stack msg.length := by
    simp only [leftOver, List.map_map]
    refine List.map_congr_left fun i _ => ?_
    simp only [Function.comp_apply]
    rw [if_neg (by omega), if_neg (by omega)]
  rw [sha1Pad, hpad, hbuf, htotal, List.range_add, List.map_append, hzeros _ _ fun _ => rfl, hleft, lengthBytes_eq hc hlen,
    padFront]
  simp only [List.append_assoc, List.cons_append]

/-! ## The digest -/

theorem length_leftOver (stack : Stack) (n : Nat) : (leftOver stack n).length = n % 64 := by
  simp [leftOver]

theorem length_lengthFound (stack : Stack) (msg : List UInt8) : (lengthFound stack msg).length = 8 := by
  simp [lengthFound, length_lengthBytes]

/-- The bytes behind those that stand for the length fill no block. -/
theorem hashBlocks_found (stack : Stack) (msg : List UInt8) :
    hashBlocks (padFront msg ++ (leftOver stack msg.length ++ lengthBytes msg)) =
      hashBlocks (padFront msg ++ lengthFound stack msg) := by
  have htail : padFront msg ++ (leftOver stack msg.length ++ lengthBytes msg) =
      (padFront msg ++ lengthFound stack msg) ++ (leftOver stack msg.length ++ lengthBytes msg).drop 8 := by
    rw [List.append_assoc, lengthFound, List.take_append_drop]
  have hfront := length_padFront msg
  have hlt := Nat.mod_lt msg.length (show 0 < 64 by decide)
  rw [htail, hashBlocks_append]
  simp only [List.length_append, List.length_drop, length_leftOver, length_lengthFound, length_lengthBytes]
  omega

/-- The state behind the last block, with any eight bytes in place of the length. -/
theorem hashBlocks_eight (msg : List UInt8) {tail : List UInt8} (h : tail.length = 8) :
    hashBlocks (padFront msg ++ tail) = compress (hashBlocks (padFront msg)) (rest (padFront msg) ++ tail) := by
  have hfront := length_padFront msg
  exact hashBlocks_last (by omega) (by omega) (by omega)

theorem sha1Final_eq {msg : List UInt8} (stack : Stack) (hc : Absorbed c msg) (hlen : msg.length < 2 ^ 61) :
    sha1Final c stack = digest (hashBlocks (padFront msg ++ lengthFound stack msg)) := by
  have hbytes : wordBytes = fun x => bigEndian 4 x.toNat := funext wordBytes_eq
  rw [sha1Final, (hc.update (sha1Pad c stack)).state, sha1Pad_eq hc hlen, hashBlocks_found, digest, hbytes]
  rfl

/-- A message that ends with a block leaves no bytes over. -/
theorem lengthFound_of_dvd {stack : Stack} {msg : List UInt8} (h : msg.length % 64 = 0) :
    lengthFound stack msg = lengthBytes msg := by
  rw [lengthFound, leftOver, h, List.range_zero, List.map_nil, List.nil_append]
  exact List.take_of_length_le (Nat.le_of_eq (length_lengthBytes msg))

/-- **When the digest is that of the standard**: when the eight bytes that stand where the length
    belongs are its bytes, as behind whole blocks, or make a block that collides with the right one. -/
theorem sha1_final_iff (chunks : List (List UInt8)) (stack : Stack) (hlen : chunks.flatten.length < 2 ^ 61) :
    (sha1Final (chunks.foldl sha1Update sha1Init) stack = sha1 chunks.flatten ↔
      lengthFound stack chunks.flatten = lengthBytes chunks.flatten ∨
      Collision (hashBlocks (padFront chunks.flatten))
        (rest (padFront chunks.flatten) ++ lengthFound stack chunks.flatten)
        (rest (padFront chunks.flatten) ++ lengthBytes chunks.flatten)) ∧
    (chunks.flatten.length % 64 = 0 → lengthFound stack chunks.flatten = lengthBytes chunks.flatten) := by
  rw [sha1Final_eq stack (absorbed_pieces chunks) hlen, sha1, pad]
  generalize chunks.flatten = msg
  have hfound := hashBlocks_eight msg (length_lengthFound stack msg)
  have hlength := hashBlocks_eight msg (length_lengthBytes msg)
  refine ⟨?_, lengthFound_of_dvd⟩
  constructor
  · intro h
    by_cases hsame : lengthFound stack msg = lengthBytes msg
    · exact .inl hsame
    · refine .inr ⟨fun h => hsame (List.append_cancel_left h), ?_⟩
      rw [← hfound, ← hlength]
      exact digest_injective h
  · rintro (hsame | hcollision)
    · rw [hsame]
    · rw [hfound, hlength, hcollision.2]

theorem sha1_final_two_pieces :
    [[0x61], [0x62, 0x63]].flatten.length < 2 ^ 61 ∧
      (sha1Final ([[0x61], [0x62, 0x63]].foldl sha1Update sha1Init) (fun _ => 0) = sha1 [0x61, 0x62, 0x63] ↔
        lengthFound (fun _ => 0) [0x61, 0x62, 0x63] = lengthBytes [0x61, 0x62, 0x63] ∨
        Collision (hashBlocks (padFront [0x61, 0x62, 0x63]))
          (rest (padFront [0x61, 0x62, 0x63]) ++ lengthFound (fun _ => 0) [0x61, 0x62, 0x63])
          (rest (padFront [0x61, 0x62, 0x63]) ++ lengthBytes [0x61, 0x62, 0x63])) :=
  have hlen : [[0x61], [0x62, 0x63]].flatten.length < 2 ^ 61 := by decide
  ⟨hlen, (sha1_final_iff [[0x61], [0x62, 0x63]] (fun _ => 0) hlen).1⟩

/-- A message of one byte, over a stack of zeros. -/
theorem sha1_final_misses : sha1Final ([[0x61]].foldl sha1Update sha1Init) (fun _ => 0) ≠ sha1 [0x61] := by
  decide +kernel

end Crimson.Wifi
