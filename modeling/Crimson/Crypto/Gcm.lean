import Crimson.Lib.Gcm

/-!
# AES-256-GCM (`crypto_stub.c`)

`aes_gcm_encrypt` and `aes_gcm_decrypt` over a key expansion, a block cipher and a
multiplication of blocks that are left open. The buffers of a call are different ones: what is
written to one is not read from another.

Both functions compute GCM (`Lib.Gcm`), each with its own copy of the steps: `ghash` walks over
whole blocks and pads the rest, `gcm_inc32` counts in the last four bytes, and the loop of the
counter mode goes on while there are bytes left.
-/

set_option autoImplicit false

namespace Crimson.Crypto

open Crimson.Lib

/-- A buffer, from its start on. -/
abbrev Buffer := Nat → UInt8

/-- The first `n` bytes of a buffer. -/
def bytes (buf : Buffer) (n : Nat) : List UInt8 := (List.range n).map buf

/-- The key expansion, the block cipher with an expanded key, and `gcm_gmul`. -/
structure Primitives (RoundKeys : Type) where
  keyExpand : Vector UInt8 32 → RoundKeys
  encryptBlock : RoundKeys → Block128 → Block128
  gmul : Block128 → Block128 → Block128

variable {RoundKeys : Type} (prims : Primitives RoundKeys)

/-- The cipher under a key. -/
def Primitives.cipher (key : Vector UInt8 32) : Block128 → Block128 := prims.encryptBlock (prims.keyExpand key)

/-! ## Helpers -/

/-- `ghash`: the whole blocks, and the rest with zeros behind it. -/
def ghash (h : Block128) (data : Buffer) (len : Nat) (x : Block128) : Block128 :=
  let blocks := len / 16
  let rem := len % 16
  let x := (List.range blocks).foldl (fun x i => prims.gmul (Vector.ofFn fun j => x[j] ^^^ data (i * 16 + j)) h) x
  if rem ≠ 0 then
    let block : Block128 := Vector.ofFn fun j => if j < rem then data (blocks * 16 + j) else 0
    prims.gmul (Vector.ofFn fun j => block[j] ^^^ x[j]) h
  else x

/-- `gcm_inc32` -/
def gcmInc32 (ctr : Block128) : Block128 :=
  let c := ctr[12].toUInt32 <<< 24 ||| ctr[13].toUInt32 <<< 16 ||| ctr[14].toUInt32 <<< 8 ||| ctr[15].toUInt32
  let c := c + 1
  (((ctr.set 12 (c >>> 24 &&& 255).toUInt8).set 13 (c >>> 16 &&& 255).toUInt8).set 14
    (c >>> 8 &&& 255).toUInt8).set 15 (c &&& 255).toUInt8

/-- `J0`. -/
def j0 (iv : Vector UInt8 12) : Block128 := (iv ++ (#v[0, 0, 0, 1] : Vector UInt8 4))

/-- The inner loop of the counter mode: `n` bytes from `done` on. -/
def xorBytes (out input : Buffer) (keystream : Block128) (done n : Nat) : Buffer :=
  (List.range n).foldl
    (fun out i => Function.update out (done + i) (input (done + i) ^^^ blockByte keystream i)) out

/-- The loop of the counter mode, from `done` on. -/
def ctrLoop (ciph : Block128 → Block128) (input : Buffer) (len : Nat) (done : Nat) (ctr : Block128) (out : Buffer) : Buffer :=
  if done < len then
    let n := min (len - done) 16
    ctrLoop ciph input len (done + n) (gcmInc32 ctr) (xorBytes out input (ciph ctr) done n)
  else out
termination_by len - done
decreasing_by omega

/-- `len_block` -/
def lenBlock (aadLen textLen : Nat) : Block128 :=
  let aadBits : UInt64 := UInt64.ofNat aadLen * 8
  let ctBits : UInt64 := UInt64.ofNat textLen * 8
  #v[(aadBits >>> 56 &&& 255).toUInt8, (aadBits >>> 48 &&& 255).toUInt8, (aadBits >>> 40 &&& 255).toUInt8,
    (aadBits >>> 32 &&& 255).toUInt8, (aadBits >>> 24 &&& 255).toUInt8, (aadBits >>> 16 &&& 255).toUInt8,
    (aadBits >>> 8 &&& 255).toUInt8, (aadBits &&& 255).toUInt8,
    (ctBits >>> 56 &&& 255).toUInt8, (ctBits >>> 48 &&& 255).toUInt8, (ctBits >>> 40 &&& 255).toUInt8,
    (ctBits >>> 32 &&& 255).toUInt8, (ctBits >>> 24 &&& 255).toUInt8, (ctBits >>> 16 &&& 255).toUInt8,
    (ctBits >>> 8 &&& 255).toUInt8, (ctBits &&& 255).toUInt8]

/-- A block as the buffer it is in. -/
def blockBuffer (x : Block128) : Buffer := blockByte x

/-! ## The two functions -/

/-- `aes_gcm_encrypt`: the result, the ciphertext buffer and the tag. -/
def aesGcmEncrypt (plaintext : Buffer) (ptLen : Nat) (aad : Buffer) (aadLen : Nat) (key : Vector UInt8 32)
    (iv : Vector UInt8 12) (ciphertext : Buffer) : Int × Buffer × Block128 :=
  let ciph := prims.cipher key
  let h := ciph zeroBlock
  let state := if aadLen ≠ 0 then ghash prims h aad aadLen zeroBlock else zeroBlock
  let ciphertext := ctrLoop ciph plaintext ptLen 0 (gcmInc32 (j0 iv)) ciphertext
  let state := ghash prims h ciphertext ptLen state
  let state := ghash prims h (blockBuffer (lenBlock aadLen ptLen)) 16 state
  let keystream := ciph (j0 iv)
  (0, ciphertext, Vector.ofFn fun i => state[i] ^^^ keystream[i])

/-- The comparison of the tags. -/
def tagDiff (expTag tag : Block128) : UInt8 :=
  (List.finRange 16).foldl (fun diff i => diff ||| (expTag[i] ^^^ tag[i])) 0

/-- `aes_gcm_decrypt`: the result and the plaintext buffer. -/
def aesGcmDecrypt (ciphertext : Buffer) (ctLen : Nat) (aad : Buffer) (aadLen : Nat) (key : Vector UInt8 32)
    (iv : Vector UInt8 12) (tag : Block128) (plaintext : Buffer) : Int × Buffer :=
  let ciph := prims.cipher key
  let h := ciph zeroBlock
  let state := if aadLen ≠ 0 then ghash prims h aad aadLen zeroBlock else zeroBlock
  let state := ghash prims h ciphertext ctLen state
  let state := ghash prims h (blockBuffer (lenBlock aadLen ctLen)) 16 state
  let ks := ciph (j0 iv)
  let expTag : Block128 := Vector.ofFn fun i => state[i] ^^^ ks[i]
  if tagDiff expTag tag ≠ 0 then (-1, plaintext)
  else (0, ctrLoop ciph ciphertext ctLen 0 (gcmInc32 (j0 iv)) plaintext)

/-! ## Words and bytes -/

/-- A byte of a number is the same in its lower bits. -/
theorem mod_pow_byte (n : Nat) {w j : Nat} (h : 8 * j + 8 ≤ w) : n % 2 ^ w / 2 ^ (8 * j) % 256 = n / 256 ^ j % 256 := by
  have hsplit : 2 ^ w = 2 ^ (8 * j) * 2 ^ (w - 8 * j) := by
    rw [← Nat.pow_add]
    congr 1
    omega
  have hbase : 2 ^ (8 * j) = 256 ^ j := Nat.pow_mul 2 8 j
  rw [hsplit, Nat.mod_mul_right_div_self, hbase]
  exact Nat.mod_mod_of_dvd _ (Nat.pow_dvd_pow 2 (by omega : 8 ≤ w - 8 * j))

theorem byte32 {c : UInt32} {n : Nat} (h : c.toNat = n % 2 ^ 32) {k : UInt32} {j : Nat} (hk : k.toNat = 8 * j) (hj : j < 4) :
    (c >>> k &&& 255).toUInt8 = (n / 256 ^ j).toUInt8 := by
  have hand : ∀ m : Nat, m &&& 255 = m % 256 := fun m => Nat.and_two_pow_sub_one_eq_mod m 8
  have hmod : 8 * j % 32 = 8 * j := Nat.mod_eq_of_lt (by omega)
  apply UInt8.toNat_inj.mp
  rw [UInt32.toNat_toUInt8, UInt32.toNat_and, UInt32.toNat_shiftRight, hk, hmod, Nat.shiftRight_eq_div_pow, h]
  show (_ &&& 255) % 256 = _
  rw [hand, Nat.mod_mod, mod_pow_byte n (by omega)]
  simp

theorem byte64 {c : UInt64} {n : Nat} (h : c.toNat = n % 2 ^ 64) {k : UInt64} {j : Nat} (hk : k.toNat = 8 * j) (hj : j < 8) :
    (c >>> k &&& 255).toUInt8 = (n / 256 ^ j).toUInt8 := by
  have hand : ∀ m : Nat, m &&& 255 = m % 256 := fun m => Nat.and_two_pow_sub_one_eq_mod m 8
  have hmod : 8 * j % 64 = 8 * j := Nat.mod_eq_of_lt (by omega)
  apply UInt8.toNat_inj.mp
  rw [UInt64.toNat_toUInt8, UInt64.toNat_and, UInt64.toNat_shiftRight, hk, hmod, Nat.shiftRight_eq_div_pow, h]
  show (_ &&& 255) % 256 = _
  rw [hand, Nat.mod_mod, mod_pow_byte n (by omega)]
  simp

/-- Four bytes put together are their number. -/
theorem or_bytes (a b c d : UInt8) :
    (a.toUInt32 <<< 24 ||| b.toUInt32 <<< 16 ||| c.toUInt32 <<< 8 ||| d.toUInt32).toNat =
      a.toNat * 2 ^ 24 + b.toNat * 2 ^ 16 + c.toNat * 2 ^ 8 + d.toNat := by
  have hbyte : ∀ e : UInt8, e.toUInt32.toNat = e.toNat := fun e => UInt8.toNat_toUInt32 e
  have hshift : ∀ (e : UInt8) (k : UInt32), k.toNat ≤ 24 → (e.toUInt32 <<< k).toNat = e.toNat * 2 ^ k.toNat := by
    intro e k hk
    have he := e.toNat_lt
    have hpow : 2 ^ k.toNat ≤ 2 ^ 24 := Nat.pow_le_pow_right (by decide) hk
    have hmod : k.toNat % 32 = k.toNat := Nat.mod_eq_of_lt (by omega)
    rw [UInt32.toNat_shiftLeft, hbyte, hmod, Nat.shiftLeft_eq]
    refine Nat.mod_eq_of_lt ?_
    calc e.toNat * 2 ^ k.toNat ≤ e.toNat * 2 ^ 24 := Nat.mul_le_mul_left _ hpow
      _ < 2 ^ 32 := by omega
  have hor : ∀ x y i : Nat, y < 2 ^ i → x * 2 ^ i ||| y = x * 2 ^ i + y := by
    intro x y i hy
    rw [← Nat.shiftLeft_eq, Nat.shiftLeft_add_eq_or_of_lt hy]
  have hb := b.toNat_lt
  have hc := c.toNat_lt
  have hd := d.toNat_lt
  -- from the left on, each byte is below the ones that are there
  have h1 : a.toNat * 2 ^ 24 ||| b.toNat * 2 ^ 16 = (a.toNat * 2 ^ 8 + b.toNat) * 2 ^ 16 := by
    rw [hor _ _ 24 (by omega)]
    omega
  have h2 : (a.toNat * 2 ^ 8 + b.toNat) * 2 ^ 16 ||| c.toNat * 2 ^ 8 =
      (a.toNat * 2 ^ 16 + b.toNat * 2 ^ 8 + c.toNat) * 2 ^ 8 := by
    rw [hor _ _ 16 (by omega)]
    omega
  have h3 := hor (a.toNat * 2 ^ 16 + b.toNat * 2 ^ 8 + c.toNat) d.toNat 8 hd
  rw [UInt32.toNat_or, UInt32.toNat_or, UInt32.toNat_or, hshift a 24 (by decide), hshift b 16 (by decide),
    hshift c 8 (by decide), hbyte]
  show a.toNat * 2 ^ 24 ||| b.toNat * 2 ^ 16 ||| c.toNat * 2 ^ 8 ||| d.toNat = _
  rw [h1, h2, h3]
  omega

theorem gcmInc32_eq (ctr : Block128) : gcmInc32 ctr = inc32 ctr := by
  have hc := or_bytes ctr[12] ctr[13] ctr[14] ctr[15]
  simp only [gcmInc32]
  generalize ctr[12].toUInt32 <<< 24 ||| ctr[13].toUInt32 <<< 16 ||| ctr[14].toUInt32 <<< 8 ||| ctr[15].toUInt32 = c at hc ⊢
  have hsum : (c + 1).toNat = (counterOf ctr + 1) % 2 ^ 32 := by
    rw [UInt32.toNat_add, hc]
    rfl
  have h12 := byte32 hsum (k := 24) (j := 3) rfl (by decide)
  have h13 := byte32 hsum (k := 16) (j := 2) rfl (by decide)
  have h14 := byte32 hsum (k := 8) (j := 1) rfl (by decide)
  have h15 : ((c + 1) &&& 255).toUInt8 = ((counterOf ctr + 1) / 256 ^ 0).toUInt8 := by
    have h0 := byte32 hsum (k := 0) (j := 0) rfl (by decide)
    rwa [UInt32.shiftRight_zero] at h0
  rw [h12, h13, h14, h15]
  ext i hi
  simp only [inc32, Vector.getElem_set, Vector.getElem_ofFn]
  rcases (by omega : i < 12 ∨ i = 12 ∨ i = 13 ∨ i = 14 ∨ i = 15) with h | rfl | rfl | rfl | rfl
  · have hlt : (⟨i, hi⟩ : Fin 16) < 12 := h
    rw [if_neg (by omega), if_neg (by omega), if_neg (by omega), if_neg (by omega), if_pos hlt]
    rfl
  · simp
  · simp
  · simp
  · simp

theorem j0_eq (iv : Vector UInt8 12) : j0 iv = preCounter iv := by
  ext i hi
  simp only [j0, preCounter, Vector.getElem_ofFn]
  rw [Vector.getElem_append]
  split
  · rfl
  · rcases (by omega : i = 12 ∨ i = 13 ∨ i = 14 ∨ i = 15) with rfl | rfl | rfl | rfl <;> rfl

theorem lenBlock_eq (n m : Nat) : lenBlock n m = lengthBlock n m := by
  have hbits : ∀ l : Nat, (UInt64.ofNat l * 8).toNat = 8 * l % 2 ^ 64 := by
    intro l
    rw [UInt64.toNat_mul, UInt64.toNat_ofNat', Nat.mul_comm 8 l]
    simp
  have hlast : ∀ l : Nat, (UInt64.ofNat l * 8 &&& 255).toUInt8 = (8 * l / 256 ^ 0).toUInt8 := by
    intro l
    have h0 := byte64 (hbits l) (k := 0) (j := 0) rfl (by decide)
    rwa [UInt64.shiftRight_zero] at h0
  have hbyte : ∀ (l : Nat) (k : UInt64) (j : Nat), k.toNat = 8 * j → j < 8 →
      ((UInt64.ofNat l * 8) >>> k &&& 255).toUInt8 = (8 * l / 256 ^ j).toUInt8 :=
    fun l k j hk hj => byte64 (hbits l) hk hj
  simp only [lenBlock, hlast, hbyte _ 56 7 rfl (by decide), hbyte _ 48 6 rfl (by decide),
    hbyte _ 40 5 rfl (by decide), hbyte _ 32 4 rfl (by decide), hbyte _ 24 3 rfl (by decide),
    hbyte _ 16 2 rfl (by decide), hbyte _ 8 1 rfl (by decide)]
  apply Vector.toList_inj.mp
  simp [lengthBlock, List.ofFn_succ, Vector.toList_ofFn]

/-! ## GHASH -/

/-- A block of a buffer, with zeros behind its end. -/
def blockAt (data : Buffer) (len i : Nat) : Block128 := Vector.ofFn fun j => if 16 * i + j < len then data (16 * i + j) else 0

/-- A buffer as blocks. -/
theorem blocksOf_bytes (data : Buffer) (len : Nat) :
    blocksOf (bytes data len) = (List.range ((len + 15) / 16)).map (blockAt data len) := by
  have hlen : (bytes data len).length = len := by simp [bytes]
  rw [blocksOf, hlen]
  refine List.map_congr_left fun i _ => ?_
  congr 1
  funext j
  rw [List.getD_eq_getElem?_getD, bytes, List.getElem?_map]
  split
  · rename_i hj
    rw [List.getElem?_range hj]
    rfl
  · rename_i hj
    rw [List.getElem?_eq_none (by simpa using hj)]
    rfl

theorem xorBlock_whole (x : Block128) (data : Buffer) {len i : Nat} (hi : i < len / 16) :
    (Vector.ofFn fun j => x[j] ^^^ data (i * 16 + j)) = xorBlock x (blockAt data len i) := by
  apply Vector.ext
  intro j hj
  have hin : 16 * i + j < len := by omega
  simp only [getElem_xorBlock, blockAt, Vector.getElem_ofFn, Fin.getElem_fin, if_pos hin, Nat.mul_comm i 16]

theorem xorBlock_rest (x : Block128) (data : Buffer) (len : Nat) :
    (Vector.ofFn fun j =>
        (Vector.ofFn fun j : Fin 16 => if j < len % 16 then data (len / 16 * 16 + j) else 0)[j] ^^^ x[j]) =
      xorBlock x (blockAt data len (len / 16)) := by
  apply Vector.ext
  intro j hj
  have hin : (j < len % 16) = (16 * (len / 16) + j < len) := propext (by omega)
  simp only [getElem_xorBlock, blockAt, Vector.getElem_ofFn, Fin.getElem_fin, hin, Nat.mul_comm (len / 16) 16, UInt8.xor_comm]

/-- `ghash` is GHASH over the blocks of the data. -/
theorem ghash_eq (h : Block128) (data : Buffer) (len : Nat) (x : Block128) :
    ghash prims h data len x = ghashFrom prims.gmul h x (blocksOf (bytes data len)) := by
  have hwhole : (List.range (len / 16)).foldl
      (fun x i => prims.gmul (Vector.ofFn fun j => x[j] ^^^ data (i * 16 + j)) h) x =
        ghashFrom prims.gmul h x ((List.range (len / 16)).map (blockAt data len)) := by
    rw [ghashFrom, List.foldl_map]
    refine List.foldl_ext _ _ _ fun y i hi => ?_
    rw [xorBlock_whole y data (List.mem_range.mp hi)]
  rw [blocksOf_bytes]
  simp only [ghash]
  rw [hwhole]
  by_cases hrem : len % 16 = 0
  · have hn : (len + 15) / 16 = len / 16 := by omega
    rw [if_neg (by simpa using hrem), hn]
  · have hn : (len + 15) / 16 = len / 16 + 1 := by omega
    rw [if_pos hrem, hn, List.range_succ, List.map_append, ghashFrom_append, xorBlock_rest]
    rfl

/-! ## Counter mode -/

theorem xorBytes_apply (out input : Buffer) (keystream : Block128) (done n i : Nat) :
    xorBytes out input keystream done n i =
      if done ≤ i ∧ i < done + n then input i ^^^ blockByte keystream (i - done) else out i := by
  induction n with
  | zero =>
    rw [if_neg (by omega)]
    rfl
  | succ n ih =>
    have hstep : xorBytes out input keystream done (n + 1) =
        Function.update (xorBytes out input keystream done n) (done + n)
          (input (done + n) ^^^ blockByte keystream n) := by
      rw [xorBytes, List.range_succ, List.foldl_append]
      rfl
    rw [hstep]
    by_cases hi : i = done + n
    · subst hi
      rw [Function.update_self, if_pos (by omega), Nat.add_sub_cancel_left]
    · rw [Function.update_of_ne hi, ih]
      exact if_congr (by omega) rfl rfl

theorem ctrLoop_done (ciph : Block128 → Block128) (input : Buffer) {len done : Nat} (h : len ≤ done)
    (ctr : Block128) (out : Buffer) : ctrLoop ciph input len done ctr out = out := by
  rw [ctrLoop, if_neg (by omega)]

/-- **The loop of the counter mode**: from the block `k` on, every byte that is left is XORed
    with its byte of the key stream. -/
theorem ctrLoop_apply (ciph : Block128 → Block128) (input : Buffer) (len : Nat) (icb : Block128) (out : Buffer) (m k i : Nat)
    (hm : len ≤ 16 * (k + m)) :
    ctrLoop ciph input len (16 * k) (inc32^[k] icb) out i =
      if 16 * k ≤ i ∧ i < len then input i ^^^ blockByte (ciph (inc32^[i / 16] icb)) i else out i := by
  induction m generalizing k out with
  | zero => rw [ctrLoop_done ciph input (by omega), if_neg (by omega)]
  | succ m ih =>
    by_cases hdone : 16 * k < len
    · rw [ctrLoop, if_pos hdone]
      simp only [gcmInc32_eq, ← Function.iterate_succ_apply' inc32]
      -- the bytes of this block
      have hblock : ∀ n ≤ 16, xorBytes out input (ciph (inc32^[k] icb)) (16 * k) n i =
          if 16 * k ≤ i ∧ i < 16 * k + n then input i ^^^ blockByte (ciph (inc32^[i / 16] icb)) i else out i := by
        intro n hn
        rw [xorBytes_apply]
        split
        · have hdiv : i / 16 = k := by omega
          rw [hdiv, blockByte_sub _ (by omega)]
        · rfl
      by_cases hlast : len - 16 * k ≤ 16
      · rw [Nat.min_eq_left hlast, ctrLoop_done ciph input (by omega), hblock _ hlast]
        exact if_congr (by omega) rfl rfl
      · rw [Nat.min_eq_right (by omega), ← Nat.mul_succ, ih _ (k + 1) (by omega), hblock 16 (Nat.le_refl _)]
        split
        · rw [if_pos (by omega)]
        · split
          · rw [if_pos (by omega)]
          · rw [if_neg (by omega)]
    · rw [ctrLoop_done ciph input (by omega), if_neg (by omega)]

/-- What the loop leaves in the buffer: counter mode of the input, and nothing behind it. -/
theorem bytes_ctrLoop (ciph : Block128 → Block128) (input : Buffer) (len : Nat) (icb : Block128) (out : Buffer) :
    bytes (ctrLoop ciph input len 0 icb out) len = gctr ciph icb (bytes input len) ∧
      ∀ i, len ≤ i → ctrLoop ciph input len 0 icb out i = out i := by
  have happly := fun i => ctrLoop_apply ciph input len icb out len 0 i (by omega)
  constructor
  · apply List.ext_getElem
    · simp [bytes]
    · intro i h _
      have hi : i < len := by simpa [bytes] using h
      rw [getElem_gctr (by simpa [bytes] using hi)]
      simp only [bytes, List.getElem_map, List.getElem_range]
      exact (happly i).trans (if_pos ⟨Nat.zero_le i, hi⟩)
  · intro i hi
    exact (happly i).trans (if_neg (by omega))

/-! ## The functions -/

theorem blocksOf_block (x : Block128) : blocksOf (bytes (blockBuffer x) 16) = [x] := by
  have hone : blockAt (blockBuffer x) 16 0 = x := by
    apply Vector.ext
    intro j hj
    simp [blockAt, blockBuffer, blockByte_of_lt x hj]
  rw [blocksOf_bytes]
  simp [hone]

/-- The hash over the associated data, which may be left out. -/
theorem ghash_aad (h : Block128) (aad : Buffer) (aadLen : Nat) :
    (if aadLen ≠ 0 then ghash prims h aad aadLen zeroBlock else zeroBlock) =
      ghashFrom prims.gmul h zeroBlock (blocksOf (bytes aad aadLen)) := by
  split
  · exact ghash_eq prims h aad aadLen zeroBlock
  · rename_i hlen
    have hzero : aadLen = 0 := by simpa using hlen
    simp [hzero, bytes, blocksOf, ghashFrom]

/-- The steps of both functions up to the tag. -/
theorem mac_eq (ciph : Block128 → Block128) (iv : Vector UInt8 12) (aad : Buffer) (aadLen : Nat) (text : Buffer) (len : Nat) :
    (xorBlock
        (ghash prims (ciph zeroBlock) (blockBuffer (lenBlock aadLen len)) 16
          (ghash prims (ciph zeroBlock) text len
            (if aadLen ≠ 0 then ghash prims (ciph zeroBlock) aad aadLen zeroBlock else zeroBlock)))
        (ciph (j0 iv))).toList =
      gcmTag ciph prims.gmul iv (bytes aad aadLen) (bytes text len) := by
  have hlen : ∀ (buf : Buffer) (n : Nat), (bytes buf n).length = n := fun buf n => by simp [bytes]
  rw [gcmTag, gctr_block, ghash_aad, ghash_eq, ghash_eq, blocksOf_block, lenBlock_eq, j0_eq, ghashFrom_append,
    ghashFrom_append, hlen, hlen]

theorem tagDiff_eq_zero (expTag tag : Block128) : tagDiff expTag tag = 0 ↔ expTag = tag := by
  have hfold : ∀ (l : List (Fin 16)) (diff : UInt8),
      l.foldl (fun diff i => diff ||| (expTag[i] ^^^ tag[i])) diff = 0 ↔ diff = 0 ∧ ∀ i ∈ l, expTag[i] = tag[i] := by
    intro l
    induction l with
    | nil => simp
    | cons i l ih =>
      intro diff
      rw [List.foldl_cons, ih, UInt8.or_eq_zero_iff, UInt8.xor_eq_zero_iff]
      simp [and_assoc]
  rw [tagDiff, hfold]
  constructor
  · rintro ⟨-, h⟩
    apply Vector.ext
    intro i hi
    exact h ⟨i, hi⟩ (List.mem_finRange _)
  · rintro rfl
    exact ⟨rfl, fun _ _ => rfl⟩

/-- `aes_gcm_encrypt` is GCM encryption. -/
theorem encrypt_eq (plaintext : Buffer) (ptLen : Nat) (aad : Buffer) (aadLen : Nat) (key : Vector UInt8 32)
    (iv : Vector UInt8 12) (ciphertext : Buffer) :
    let out := aesGcmEncrypt prims plaintext ptLen aad aadLen key iv ciphertext
    out.1 = 0 ∧ bytes out.2.1 ptLen = gcmText (prims.cipher key) iv (bytes plaintext ptLen) ∧
      (∀ i, ptLen ≤ i → out.2.1 i = ciphertext i) ∧
      out.2.2.toList = gcmTag (prims.cipher key) prims.gmul iv (bytes aad aadLen) (bytes out.2.1 ptLen) := by
  have hctr := bytes_ctrLoop (prims.cipher key) plaintext ptLen (inc32 (preCounter iv)) ciphertext
  simp only [aesGcmEncrypt, gcmInc32_eq]
  refine ⟨trivial, ?_, ?_, ?_⟩
  · rw [j0_eq]
    exact hctr.1
  · rw [j0_eq]
    exact hctr.2
  · exact mac_eq prims (prims.cipher key) iv aad aadLen _ ptLen

/-- `aes_gcm_decrypt` compares the tag with GCM's, and only writes when it is the same. -/
theorem decrypt_eq (ciphertext : Buffer) (ctLen : Nat) (aad : Buffer) (aadLen : Nat) (key : Vector UInt8 32)
    (iv : Vector UInt8 12) (tag : Block128) (plaintext : Buffer) :
    aesGcmDecrypt prims ciphertext ctLen aad aadLen key iv tag plaintext =
      if tag.toList = gcmTag (prims.cipher key) prims.gmul iv (bytes aad aadLen) (bytes ciphertext ctLen) then
        (0, ctrLoop (prims.cipher key) ciphertext ctLen 0 (inc32 (preCounter iv)) plaintext)
      else (-1, plaintext) := by
  have hsame : tag.toList = gcmTag (prims.cipher key) prims.gmul iv (bytes aad aadLen) (bytes ciphertext ctLen) ↔
      tag = xorBlock
        (ghash prims (prims.cipher key zeroBlock) (blockBuffer (lenBlock aadLen ctLen)) 16
          (ghash prims (prims.cipher key zeroBlock) ciphertext ctLen
            (if aadLen ≠ 0 then ghash prims (prims.cipher key zeroBlock) aad aadLen zeroBlock else zeroBlock)))
        (prims.cipher key (j0 iv)) := by
    rw [← mac_eq, Vector.toList_inj]
  by_cases htag : tag.toList = gcmTag (prims.cipher key) prims.gmul iv (bytes aad aadLen) (bytes ciphertext ctLen)
  · rw [if_pos htag, ← j0_eq, ← gcmInc32_eq]
    exact if_neg (not_not.mpr ((tagDiff_eq_zero _ _).mpr (hsame.mp htag).symm))
  · rw [if_neg htag]
    exact if_pos fun hdiff => htag (hsame.mpr ((tagDiff_eq_zero _ _).mp hdiff).symm)

/-- The two functions are GCM, for every cipher, key, vector, associated data and text of any
    length: encryption gives the ciphertext and the tag, decryption gives the text back, and with
    any other tag it fails and writes nothing. -/
theorem aes_gcm_correct (plaintext : Buffer) (ptLen : Nat) (aad : Buffer) (aadLen : Nat) (key : Vector UInt8 32)
    (iv : Vector UInt8 12) (ciphertext : Buffer) :
    let ciph := prims.cipher key
    let out := aesGcmEncrypt prims plaintext ptLen aad aadLen key iv ciphertext
    (out.1 = 0 ∧ bytes out.2.1 ptLen = gcmText ciph iv (bytes plaintext ptLen) ∧
        (∀ i, ptLen ≤ i → out.2.1 i = ciphertext i) ∧
        out.2.2.toList = gcmTag ciph prims.gmul iv (bytes aad aadLen) (gcmText ciph iv (bytes plaintext ptLen))) ∧
      (∀ buf, (aesGcmDecrypt prims out.2.1 ptLen aad aadLen key iv out.2.2 buf).1 = 0 ∧
        bytes (aesGcmDecrypt prims out.2.1 ptLen aad aadLen key iv out.2.2 buf).2 ptLen = bytes plaintext ptLen) ∧
      ∀ text len tag buf, tag.toList ≠ gcmTag ciph prims.gmul iv (bytes aad aadLen) (bytes text len) →
        aesGcmDecrypt prims text len aad aadLen key iv tag buf = (-1, buf) := by
  intro ciph out
  obtain ⟨hres, htext, hrest, htag⟩ := encrypt_eq prims plaintext ptLen aad aadLen key iv ciphertext
  refine ⟨⟨hres, htext, hrest, ?_⟩, ?_, ?_⟩
  · rw [← htext]
    exact htag
  · intro buf
    rw [decrypt_eq, if_pos htag]
    refine ⟨rfl, ?_⟩
    rw [(bytes_ctrLoop ciph out.2.1 ptLen (inc32 (preCounter iv)) buf).1, htext, gcmText, gctr_gctr]
  · intro text len tag buf hne
    rw [decrypt_eq, if_neg hne]

/-- A cipher that changes nothing, for the shape of a call. -/
def plainPrimitives : Primitives Unit where
  keyExpand _ := ()
  encryptBlock _ x := x
  gmul x _ := x

/-- One byte under a tag of zeros is refused. -/
theorem aes_gcm_zero_tag :
    aesGcmDecrypt plainPrimitives (fun _ => 7) 1 (fun _ => 0) 0 (Vector.replicate 32 0) (Vector.replicate 12 0) zeroBlock
      (fun _ => 9) = (-1, fun _ => 9) :=
  (aes_gcm_correct plainPrimitives (fun _ => 7) 1 (fun _ => 0) 0 (Vector.replicate 32 0) (Vector.replicate 12 0)
    (fun _ => 9)).2.2 (fun _ => 7) 1 zeroBlock (fun _ => 9) (by decide +kernel)

end Crimson.Crypto
