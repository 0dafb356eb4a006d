import Crimson.Lib.Armv8

/-!
# AES-256 (`crypto_stub.c`)

The key schedule goes byte by byte with a table for the S-box; the rounds are those of the
cryptographic extension, with `aese` on a zero key and the round keys added apart.
`aes256_encrypts` says that the two compute the encryption of FIPS 197.

`key` are the bytes at the pointer, of which 32 are read.
-/

set_option autoImplicit false

namespace Crimson.Crypto

open Crimson.Lib.Aes Crimson.Lib.Armv8

def aesSbox : List Byte :=
  [0x63, 0x7c, 0x77, 0x7b, 0xf2, 0x6b, 0x6f, 0xc5, 0x30, 0x01, 0x67, 0x2b, 0xfe, 0xd7, 0xab, 0x76,
    0xca, 0x82, 0xc9, 0x7d, 0xfa, 0x59, 0x47, 0xf0, 0xad, 0xd4, 0xa2, 0xaf, 0x9c, 0xa4, 0x72, 0xc0,
    0xb7, 0xfd, 0x93, 0x26, 0x36, 0x3f, 0xf7, 0xcc, 0x34, 0xa5, 0xe5, 0xf1, 0x71, 0xd8, 0x31, 0x15,
    0x04, 0xc7, 0x23, 0xc3, 0x18, 0x96, 0x05, 0x9a, 0x07, 0x12, 0x80, 0xe2, 0xeb, 0x27, 0xb2, 0x75,
    0x09, 0x83, 0x2c, 0x1a, 0x1b, 0x6e, 0x5a, 0xa0, 0x52, 0x3b, 0xd6, 0xb3, 0x29, 0xe3, 0x2f, 0x84,
    0x53, 0xd1, 0x00, 0xed, 0x20, 0xfc, 0xb1, 0x5b, 0x6a, 0xcb, 0xbe, 0x39, 0x4a, 0x4c, 0x58, 0xcf,
    0xd0, 0xef, 0xaa, 0xfb, 0x43, 0x4d, 0x33, 0x85, 0x45, 0xf9, 0x02, 0x7f, 0x50, 0x3c, 0x9f, 0xa8,
    0x51, 0xa3, 0x40, 0x8f, 0x92, 0x9d, 0x38, 0xf5, 0xbc, 0xb6, 0xda, 0x21, 0x10, 0xff, 0xf3, 0xd2,
    0xcd, 0x0c, 0x13, 0xec, 0x5f, 0x97, 0x44, 0x17, 0xc4, 0xa7, 0x7e, 0x3d, 0x64, 0x5d, 0x19, 0x73,
    0x60, 0x81, 0x4f, 0xdc, 0x22, 0x2a, 0x90, 0x88, 0x46, 0xee, 0xb8, 0x14, 0xde, 0x5e, 0x0b, 0xdb,
    0xe0, 0x32, 0x3a, 0x0a, 0x49, 0x06, 0x24, 0x5c, 0xc2, 0xd3, 0xac, 0x62, 0x91, 0x95, 0xe4, 0x79,
    0xe7, 0xc8, 0x37, 0x6d, 0x8d, 0xd5, 0x4e, 0xa9, 0x6c, 0x56, 0xf4, 0xea, 0x65, 0x7a, 0xae, 0x08,
    0xba, 0x78, 0x25, 0x2e, 0x1c, 0xa6, 0xb4, 0xc6, 0xe8, 0xdd, 0x74, 0x1f, 0x4b, 0xbd, 0x8b, 0x8a,
    0x70, 0x3e, 0xb5, 0x66, 0x48, 0x03, 0xf6, 0x0e, 0x61, 0x35, 0x57, 0xb9, 0x86, 0xc1, 0x1d, 0x9e,
    0xe1, 0xf8, 0x98, 0x11, 0x69, 0xd9, 0x8e, 0x94, 0x9b, 0x1e, 0x87, 0xe9, 0xce, 0x55, 0x28, 0xdf,
    0x8c, 0xa1, 0x89, 0x0d, 0xbf, 0xe6, 0x42, 0x68, 0x41, 0x99, 0x2d, 0x0f, 0xb0, 0x54, 0xbb, 0x16]

def aesRcon : List Byte := [0x01, 0x02, 0x04, 0x08, 0x10, 0x20, 0x40]

/-- `aes_sbox[b]`. -/
def sboxAt (b : Byte) : Byte := aesSbox.getD b.toNat 0

/-- The four substitutions. -/
def sboxWord (t : Word) : Word := #v[sboxAt t[0], sboxAt t[1], sboxAt t[2], sboxAt t[3]]

/-- One round of the loop over the words. -/
def keyStep (w : Nat → Word) (i : Nat) : Nat → Word :=
  let t := w (i - 1)
  let t :=
    if i % 8 = 0 then
      let t := sboxWord #v[t[1], t[2], t[3], t[0]]
      #v[t[0] ^^^ aesRcon.getD (i / 8 - 1) 0, t[1], t[2], t[3]]
    else if i % 8 = 4 then sboxWord t
    else t
  let p := w (i - 8)
  Function.update w i #v[p[0] ^^^ t[0], p[1] ^^^ t[1], p[2] ^^^ t[2], p[3] ^^^ t[3]]

/-- The loop over the words of the key. -/
def keyLoad (key : Nat → Byte) (w : Nat → Word) (i : Nat) : Nat → Word :=
  Function.update w i #v[key (i * 4 + 0), key (i * 4 + 1), key (i * 4 + 2), key (i * 4 + 3)]

/-- The round keys; `stack` is what the array `w` holds before. -/
def aes256KeyExpand (key : Nat → Byte) (stack : Nat → Word) : Nat → Block :=
  let w := (List.range' 0 8).foldl (keyLoad key) stack
  let w := (List.range' 8 52).foldl keyStep w
  fun i => Vector.ofFn fun j => (w (i * 4 + j.val / 4)).get ⟨j.val % 4, row_lt j⟩

/-- `aese`, `aesmc` and `eor` with the key of a round. -/
def aesRound (v2 v0 : Reg) (rk : Block) : Reg :=
  let v3 := ld1 rk
  let v0 := aese v0 v2
  let v0 := aesmc v0
  v0 ^^^ v3

def aes256EncryptBlock (rk : Nat → Block) (pt : Block) : Block :=
  let v0 := ld1 pt
  let v1 := ld1 (rk 0)
  let v0 := v0 ^^^ v1
  let v2 : Reg := 0
  let v0 := (List.range' 1 13).foldl (fun v0 k => aesRound v2 v0 (rk k)) v0
  let v3 := ld1 (rk 14)
  let v0 := aese v0 v2
  let v0 := v0 ^^^ v3
  st1 v0

variable {key : Nat → Byte} {stack w : Nat → Word} {s b : Block}

/-! ## The S-box -/

theorem aesSbox_eq : ∀ b : Byte, sboxAt b = sbox b := by
  decide +kernel

theorem word_ext {t t' : Word} (h0 : t[0] = t'[0]) (h1 : t[1] = t'[1]) (h2 : t[2] = t'[2]) (h3 : t[3] = t'[3]) :
    t = t' := by
  apply Vector.ext
  intro i hi
  match i, hi with
  | 0, _ => exact h0
  | 1, _ => exact h1
  | 2, _ => exact h2
  | 3, _ => exact h3

theorem sboxWord_eq (t : Word) : sboxWord t = subWord t := by
  simp only [sboxWord, aesSbox_eq]
  apply word_ext <;> simp [subWord]

/-! ## The key schedule -/

theorem xorWord_eq (p t : Word) : xorWord p t = #v[p[0] ^^^ t[0], p[1] ^^^ t[1], p[2] ^^^ t[2], p[3] ^^^ t[3]] := by
  apply word_ext <;> simp [xorWord]

theorem rotWord_eq (t : Word) : rotWord t = #v[t[1], t[2], t[3], t[0]] := by
  apply word_ext <;> rfl

/-- The constants of the seven rounds that have one. -/
theorem aesRcon_eq : ∀ i < 8, rcon i = if i = 0 then #v[1, 0, 0, 0] else #v[aesRcon.getD (i - 1) 0, 0, 0, 0] := by
  decide

/-- One word, from the words before it. -/
theorem keyStep_eq {i : Nat} (hlo : 8 ≤ i) (hhi : i < 60) :
    keyStep w i = Function.update w i (xorWord (w (i - 8)) (keyTemp 8 i (w (i - 1)))) := by
  have hrcon : rcon (i / 8) = #v[aesRcon.getD (i / 8 - 1) 0, 0, 0, 0] := by
    rw [aesRcon_eq (i / 8) (by omega), if_neg (by omega)]
  have hseven : (8 > 6 ∧ i % 8 = 4) ↔ i % 8 = 4 := by simp
  unfold keyStep keyTemp
  simp only [hrcon, hseven, xorWord_eq, sboxWord_eq, rotWord_eq]
  split
  · simp
  · rfl

/-- The words of the key, and then those of the schedule, as far as the loops have come. -/
def Scheduled (key : Nat → Byte) (n : Nat) (w : Nat → Word) : Prop := ∀ i < n, w i = keyWord 8 (wordsOf key) i

theorem Scheduled.next {n : Nat} {v : Word} (h : Scheduled key n w) (hv : v = keyWord 8 (wordsOf key) n) :
    Scheduled key (n + 1) (Function.update w n v) := by
  intro i hi
  by_cases hn : i = n
  · rw [hn, Function.update_self, hv]
  · rw [Function.update_of_ne hn, h i (by omega)]

theorem scheduled_keyLoad {n : Nat} (hn : n ≤ 8) : Scheduled key n ((List.range' 0 n).foldl (keyLoad key) stack) := by
  induction n with
  | zero => exact fun i hi => absurd hi (Nat.not_lt_zero i)
  | succ n ih =>
    rw [List.range'_1_concat, List.foldl_append, Nat.zero_add]
    refine (ih (by omega)).next ?_
    rw [keyWord_of_lt (by omega), wordsOf, Nat.mul_comm n 4]
    rfl

theorem scheduled_keyStep {n : Nat} (h : Scheduled key 8 w) (hn : n ≤ 52) :
    Scheduled key (8 + n) ((List.range' 8 n).foldl keyStep w) := by
  induction n with
  | zero => exact h
  | succ n ih =>
    have hwords := ih (by omega)
    rw [List.range'_1_concat, List.foldl_append, List.foldl_cons, List.foldl_nil, keyStep_eq (by omega) (by omega)]
    refine hwords.next ?_
    rw [hwords _ (by omega), hwords _ (by omega)]
    exact (keyWord_of_le (by decide) (by omega)).symm

/-- **The round keys are those of the schedule**, whatever the array holds before. -/
theorem aes256KeyExpand_eq {k : Nat} (hk : k < 15) : aes256KeyExpand key stack k = roundKey 8 (wordsOf key) k := by
  have hload : Scheduled key 8 ((List.range' 0 8).foldl (keyLoad key) stack) := scheduled_keyLoad le_rfl
  have hwords := scheduled_keyStep hload le_rfl
  apply Vector.ext
  intro j hj
  have hword := hwords (k * 4 + j / 4) (by omega)
  rw [Nat.mul_comm k 4] at hword
  simp only [aes256KeyExpand, roundKey, Vector.getElem_ofFn, getElem_ofEntries, Nat.mul_comm k 4, hword]
  rfl

/-! ## The rounds -/

theorem get_mk (s : Block) {i : Nat} (hi : i < 16) : s.get ⟨i, hi⟩ = s[i] := rfl

theorem ld1_xor : ld1 s ^^^ ld1 b = ld1 (addRoundKey s b) := by
  apply reg_ext
  intro ⟨i, hi⟩
  simp [addRoundKey, entry, get_mk, Nat.mod_add_div]

/-- Where the rows are shifted from. -/
theorem shiftRowsLane_eq : ∀ i : Fin 16, (shiftRowsLane i).val =
    i.val % 4 + 4 * ((⟨i.val / 4, col_lt i⟩ : Fin 4) + ⟨i.val % 4, row_lt i⟩ : Fin 4).val := by
  decide

/-- `aese` with a zero key. -/
theorem aese_zero : aese (ld1 s) 0 = ld1 (shiftRows (subBytes s)) := by
  apply reg_ext
  intro i
  have hlane : s.get (shiftRowsLane i) = s[(shiftRowsLane i).val] := rfl
  have hzero : ld1 s ^^^ 0 = ld1 s := BitVec.xor_zero
  simp only [aese, lane_ofLanes, hzero, lane_ld1, shiftRows, get_ofEntries, subBytes, entry_ofEntries]
  simp only [entry, hlane, shiftRowsLane_eq]

/-- The four sums of `AESMixColumns` are one, from each row on. -/
theorem mixColumn_eq (f : Fin 4 → Byte) (r : Fin 4) :
    mixColumn (f 0) (f 1) (f 2) (f 3) r = mul 2 (f r) ^^^ mul 3 (f (r + 1)) ^^^ f (r + 2) ^^^ f (r + 3) := by
  match r with
  | 0 => rfl
  | 1 =>
    show f 0 ^^^ mul 2 (f 1) ^^^ mul 3 (f 2) ^^^ f 3 = mul 2 (f 1) ^^^ mul 3 (f 2) ^^^ f 3 ^^^ f 0
    ac_rfl
  | 2 =>
    show f 0 ^^^ f 1 ^^^ mul 2 (f 2) ^^^ mul 3 (f 3) = mul 2 (f 2) ^^^ mul 3 (f 3) ^^^ f 0 ^^^ f 1
    ac_rfl
  | 3 =>
    show mul 3 (f 0) ^^^ f 1 ^^^ f 2 ^^^ mul 2 (f 3) = mul 2 (f 3) ^^^ mul 3 (f 0) ^^^ f 1 ^^^ f 2
    ac_rfl

theorem aesmc_eq : aesmc (ld1 s) = ld1 (mixColumns s) := by
  apply reg_ext
  intro i
  have hcolumn := mixColumn_eq (fun r => entry s r ⟨i.val / 4, by omega⟩) ⟨i.val % 4, by omega⟩
  simp only [aesmc, lane_ofLanes, lane_ld1, mixColumns, get_ofEntries, ← hcolumn]
  simp only [entry, get_mk, Nat.add_comm _ (4 * (i.val / 4))]
  rfl

theorem aesRound_eq : aesRound 0 (ld1 s) b = ld1 (addRoundKey (mixColumns (shiftRows (subBytes s))) b) := by
  unfold aesRound
  dsimp only
  rw [aese_zero, aesmc_eq, ld1_xor]

theorem aesRounds_eq {rk : Nat → Block} (n : Nat) :
    (List.range' 1 n).foldl (fun v0 k => aesRound 0 v0 (rk k)) (ld1 (addRoundKey s (rk 0))) = ld1 (rounds rk s n) := by
  induction n with
  | zero => rfl
  | succ n ih =>
    rw [List.range'_1_concat, List.foldl_append, ih, List.foldl_cons, List.foldl_nil, aesRound_eq, Nat.add_comm 1]
    rfl

theorem aes256EncryptBlock_eq (rk : Nat → Block) (pt : Block) : aes256EncryptBlock rk pt = cipher 14 rk pt := by
  unfold aes256EncryptBlock
  dsimp only
  rw [ld1_xor, aesRounds_eq, aese_zero, ld1_xor, st1_ld1]
  rfl

/-- **The key schedule and the rounds together are AES-256.** -/
theorem aes256_encrypts (key : Nat → Byte) (stack : Nat → Word) (pt : Block) :
    aes256EncryptBlock (aes256KeyExpand key stack) pt = encrypt 8 key pt := by
  rw [aes256EncryptBlock_eq]
  exact cipher_congr fun k hk => aes256KeyExpand_eq (by omega)

end Crimson.Crypto
