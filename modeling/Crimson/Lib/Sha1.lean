import Mathlib.Algebra.Group.Nat.Defs
import Mathlib.Data.List.Basic

/-!
# SHA-1 (FIPS 180-4)

The hash of a message of bytes: it is padded to whole blocks of 64 bytes, with its length in
bits at the end, and the compression function takes the state from block to block. A word is a
`UInt32`, with the additions modulo 2^32 of the standard.

`hashBlocks` is the state behind the whole blocks of any list of bytes and `rest` what is left
over, so that both can be followed byte by byte (`rest_concat`, `hashBlocks_last`).
-/

set_option autoImplicit false

namespace Crimson.Lib.Sha1

/-- Five words: a hash value, or the working variables. -/
@[ext] structure State where
  a : UInt32
  b : UInt32
  c : UInt32
  d : UInt32
  e : UInt32
deriving DecidableEq, Repr

/-! ## Functions and constants -/

def rotl (n x : UInt32) : UInt32 := x <<< n ||| x >>> (32 - n)

def ch (x y z : UInt32) : UInt32 := (x &&& y) ^^^ (~~~x &&& z)

def parity (x y z : UInt32) : UInt32 := x ^^^ y ^^^ z

def maj (x y z : UInt32) : UInt32 := (x &&& y) ^^^ (x &&& z) ^^^ (y &&& z)

/-- The function of round `t`. -/
def roundFun (t : Nat) : UInt32 → UInt32 → UInt32 → UInt32 :=
  if t < 20 then ch else if t < 40 then parity else if t < 60 then maj else parity

/-- The constant of round `t`. -/
def roundConst (t : Nat) : UInt32 :=
  if t < 20 then 0x5a827999 else if t < 40 then 0x6ed9eba1 else if t < 60 then 0x8f1bbcdc else 0xca62c1d6

def initial : State := ⟨0x67452301, 0xefcdab89, 0x98badcfe, 0x10325476, 0xc3d2e1f0⟩

/-! ## The compression function -/

/-- Word `i` of a block: four bytes in a row, the first of them the highest. -/
def messageWord (block : List UInt8) (i : Nat) : UInt32 :=
  let byte := fun j => (block.getD (4 * i + j) 0).toBitVec
  ⟨byte 0 ++ byte 1 ++ byte 2 ++ byte 3⟩

/-- The first `n` words of the message schedule. -/
def scheduleWords (m : Nat → UInt32) : Nat → List UInt32
  | 0 => []
  | t + 1 =>
    let w := scheduleWords m t
    w ++ [if t < 16 then m t
      else rotl 1 (w.getD (t - 3) 0 ^^^ w.getD (t - 8) 0 ^^^ w.getD (t - 14) 0 ^^^ w.getD (t - 16) 0)]

/-- One round, on the five working variables. -/
def round (w : Nat → UInt32) (s : State) (t : Nat) : State :=
  let T := rotl 5 s.a + roundFun t s.b s.c s.d + s.e + roundConst t + w t
  ⟨T, s.a, rotl 30 s.b, s.c, s.d⟩

def compress (h : State) (block : List UInt8) : State :=
  let w := scheduleWords (messageWord block) 80
  let s := (List.range 80).foldl (round fun t => w.getD t 0) h
  ⟨h.a + s.a, h.b + s.b, h.c + s.c, h.d + s.d, h.e + s.e⟩

/-- Two blocks that lead from a state to the same one. -/
def Collision (h : State) (b b' : List UInt8) : Prop := b ≠ b' ∧ compress h b = compress h b'

/-! ## Messages -/

/-- A number as `n` bytes, the highest first. -/
def bigEndian (n x : Nat) : List UInt8 := (List.range n).map fun i => UInt8.ofNat (x / 256 ^ (n - 1 - i))

/-- How many zero bytes a message of `n` bytes is padded with. -/
def paddingZeros (n : Nat) : Nat := (119 - n % 64) % 64

/-- The message and its padding up to the length. -/
def padFront (msg : List UInt8) : List UInt8 := msg ++ 0x80 :: List.replicate (paddingZeros msg.length) 0

def lengthBytes (msg : List UInt8) : List UInt8 := bigEndian 8 (8 * msg.length)

def pad (msg : List UInt8) : List UInt8 := padFront msg ++ lengthBytes msg

def block (data : List UInt8) (i : Nat) : List UInt8 := (data.drop (64 * i)).take 64

/-- The state behind the first `n` blocks. -/
def hashFirst (data : List UInt8) (n : Nat) : State :=
  (List.range n).foldl (fun h i => compress h (block data i)) initial

/-- The state behind all whole blocks. -/
def hashBlocks (data : List UInt8) : State := hashFirst data (data.length / 64)

def digest (h : State) : List UInt8 := [h.a, h.b, h.c, h.d, h.e].flatMap fun x => bigEndian 4 x.toNat

def sha1 (msg : List UInt8) : List UInt8 := digest (hashBlocks (pad msg))

variable {data msg tail : List UInt8} {n i : Nat} {b : UInt8}

/-! ## Blocks -/

theorem block_append (h : 64 * (i + 1) ≤ data.length) : block (data ++ tail) i = block data i := by
  rw [block, block, List.drop_append_of_le_length (by omega), List.take_append_of_le_length (by simp; omega)]

theorem hashFirst_succ : hashFirst data (n + 1) = compress (hashFirst data n) (block data n) := by
  rw [hashFirst, List.range_succ, List.foldl_append, List.foldl_cons, List.foldl_nil, hashFirst]

/-- What comes behind the first blocks does not change their state. -/
theorem hashFirst_append (h : 64 * n ≤ data.length) : hashFirst (data ++ tail) n = hashFirst data n := by
  induction n with
  | zero => simp only [hashFirst, List.range_zero, List.foldl_nil]
  | succ n ih => rw [hashFirst_succ, hashFirst_succ, block_append h, ih (by omega)]

/-- Less than a block behind whole blocks. -/
theorem hashBlocks_append (h : (data.length + tail.length) / 64 = data.length / 64) :
    hashBlocks (data ++ tail) = hashBlocks data := by
  rw [hashBlocks, List.length_append, h, hashFirst_append (Nat.mul_div_le ..), hashBlocks]

/-- What is left over behind the whole blocks. -/
def rest (data : List UInt8) : List UInt8 := data.drop (64 * (data.length / 64))

theorem length_rest (data : List UInt8) : (rest data).length = data.length % 64 := by
  rw [rest, List.length_drop]
  omega

/-- A byte that completes no block. -/
theorem rest_concat (h : (data.length + 1) % 64 ≠ 0) : rest (data ++ [b]) = rest data ++ [b] := by
  have hdiv : (data.length + 1) / 64 = data.length / 64 := by omega
  rw [rest, rest, List.length_append, List.length_singleton, hdiv, List.drop_append_of_le_length (Nat.mul_div_le ..)]

theorem rest_of_dvd (h : data.length % 64 = 0) : rest data = [] := by
  rw [← List.length_eq_zero_iff, length_rest, h]

/-! ## Padding -/

theorem length_bigEndian (n x : Nat) : (bigEndian n x).length = n := by
  simp [bigEndian]

theorem length_lengthBytes (msg : List UInt8) : (lengthBytes msg).length = 8 := length_bigEndian ..

/-- The length fills the last block. -/
theorem length_padFront (msg : List UInt8) : (padFront msg).length % 64 = 56 := by
  simp only [padFront, List.length_append, List.length_cons, List.length_replicate, paddingZeros]
  omega

/-- Bytes that complete one more block. -/
theorem hashBlocks_last (h : (data.length + tail.length) % 64 = 0) (hpos : 0 < tail.length) (hlt : tail.length < 64) :
    hashBlocks (data ++ tail) = compress (hashBlocks data) (rest data ++ tail) := by
  have hdiv : (data.length + tail.length) / 64 = data.length / 64 + 1 := by omega
  have hblock : block (data ++ tail) (data.length / 64) = rest data ++ tail := by
    rw [block, List.drop_append_of_le_length (Nat.mul_div_le ..), rest, List.take_of_length_le]
    rw [List.length_append, List.length_drop]
    omega
  rw [hashBlocks, List.length_append, hdiv, hashFirst_succ, hblock, hashFirst_append (Nat.mul_div_le ..), hashBlocks]

/-! ## The digest determines the state -/

theorem bigEndian_injective {x y : UInt32} (h : bigEndian 4 x.toNat = bigEndian 4 y.toNat) : x = y := by
  simp only [bigEndian, List.range_succ, List.range_zero, List.nil_append, List.cons_append, List.map_cons,
    List.map_nil, List.cons.injEq, and_true, ← UInt8.toNat_inj, UInt8.toNat_ofNat'] at h
  apply UInt32.toNat_inj.mp
  have hx := x.toNat_lt
  have hy := y.toNat_lt
  simp only [Nat.reduceSub, Nat.reducePow] at h
  omega

/-- Words that have the same bytes. -/
theorem flatMap_bigEndian_injective {l l' : List UInt32} (hlen : l.length = l'.length)
    (hbytes : (l.flatMap fun x => bigEndian 4 x.toNat) = l'.flatMap fun x => bigEndian 4 x.toNat) : l = l' := by
  induction l generalizing l' with
  | nil => exact (List.length_eq_zero_iff.mp hlen.symm).symm
  | cons x l ih =>
    cases l' with
    | nil => simp at hlen
    | cons y l' =>
      rw [List.flatMap_cons, List.flatMap_cons] at hbytes
      have hsplit := List.append_inj hbytes (by rw [length_bigEndian, length_bigEndian])
      rw [bigEndian_injective hsplit.1, ih (by simpa using hlen) hsplit.2]

theorem digest_injective {h h' : State} (heq : digest h = digest h') : h = h' := by
  have hwords : [h.a, h.b, h.c, h.d, h.e] = [h'.a, h'.b, h'.c, h'.d, h'.e] :=
    flatMap_bigEndian_injective (by rfl) heq
  simp only [List.cons.injEq] at hwords
  obtain ⟨ha, hb, hc, hd, he, -⟩ := hwords
  exact State.ext ha hb hc hd he

end Crimson.Lib.Sha1
