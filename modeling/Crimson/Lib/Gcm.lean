import Mathlib.Algebra.Ring.Nat
import Mathlib.Data.List.Basic
import Mathlib.Data.Nat.Bitwise
import Mathlib.Logic.Function.Iterate

/-!
# Galois/counter mode

GCM as NIST SP 800-38D prescribes it, for 96-bit initialization vectors and 128-bit tags, over
any block cipher `ciph` (with its key) and any multiplication `mul` of blocks. Texts are lists
of bytes, blocks vectors of sixteen.

Counter mode is an involution (`gctr_gctr`), so decryption gives the text back; the tag is a
function of the associated data and the ciphertext.
-/

set_option autoImplicit false

namespace Crimson.Lib

abbrev Block128 := Vector UInt8 16

def zeroBlock : Block128 := Vector.replicate 16 0

/-- Byte `i` of a stream of copies of a block. -/
def blockByte (x : Block128) (i : Nat) : UInt8 := x[Fin.ofNat 16 i]

def xorBlock (x y : Block128) : Block128 := Vector.ofFn fun i => x.get i ^^^ y.get i

/-- The number in the last four bytes. -/
def counterOf (x : Block128) : Nat :=
  (x.get 12).toNat * 2 ^ 24 + (x.get 13).toNat * 2 ^ 16 + (x.get 14).toNat * 2 ^ 8 + (x.get 15).toNat

/-- `inc32`: the last four bytes as a number, plus one, modulo 2^32. -/
def inc32 (x : Block128) : Block128 :=
  Vector.ofFn fun i => if i < (12 : Fin 16) then x.get i else ((counterOf x + 1) / 256 ^ (15 - i.val)).toUInt8

/-- A text cut into blocks, the last one filled up with zeros. -/
def blocksOf (text : List UInt8) : List Block128 :=
  (List.range ((text.length + 15) / 16)).map fun i => Vector.ofFn fun j => text.getD (16 * i + j) 0

/-- The lengths of two texts in bits, 64 bits each. -/
def lengthBlock (n m : Nat) : Block128 :=
  Vector.ofFn fun i => if i < (8 : Fin 16) then (8 * n / 256 ^ (7 - i.val)).toUInt8 else (8 * m / 256 ^ (15 - i.val)).toUInt8

/-- `J0` for a vector of 96 bits. -/
def preCounter (iv : Vector UInt8 12) : Block128 :=
  Vector.ofFn fun i => if h : i.val < 12 then iv[i.val] else if i.val = 15 then 1 else 0

section

variable (ciph : Block128 → Block128) (mul : Block128 → Block128 → Block128)

/-- GHASH from a state on. -/
def ghashFrom (h : Block128) (y : Block128) (blocks : List Block128) : Block128 :=
  blocks.foldl (fun y x => mul (xorBlock y x) h) y

/-- GCTR: byte `i` of the text with byte `i` of the blocks of the counter. -/
def gctr (icb : Block128) (text : List UInt8) : List UInt8 :=
  text.mapIdx fun i b => b ^^^ blockByte (ciph (inc32^[i / 16] icb)) i

/-- The ciphertext of GCM. -/
def gcmText (iv : Vector UInt8 12) (plain : List UInt8) : List UInt8 := gctr ciph (inc32 (preCounter iv)) plain

/-- The tag of GCM. -/
def gcmTag (iv : Vector UInt8 12) (aad text : List UInt8) : List UInt8 :=
  gctr ciph (preCounter iv)
    (ghashFrom mul (ciph zeroBlock) zeroBlock
      (blocksOf aad ++ blocksOf text ++ [lengthBlock aad.length text.length])).toList

theorem blockByte_of_lt (x : Block128) {i : Nat} (h : i < 16) : blockByte x i = x[i] := by
  simp [blockByte, Nat.mod_eq_of_lt h]

theorem blockByte_sub (x : Block128) {i k : Nat} (h : 16 * k ≤ i) : blockByte x (i - 16 * k) = blockByte x i := by
  have hmod : Fin.ofNat 16 (i - 16 * k) = Fin.ofNat 16 i := by
    apply Fin.ext
    simp only [Fin.val_ofNat]
    omega
  simp only [blockByte, hmod]

@[simp] theorem getElem_xorBlock (x y : Block128) {i : Nat} (h : i < 16) : (xorBlock x y)[i] = x[i] ^^^ y[i] := by
  rw [xorBlock, Vector.getElem_ofFn]
  rfl

/-! ## Counter mode -/

variable {ciph}

@[simp] theorem length_gctr (icb : Block128) (text : List UInt8) : (gctr ciph icb text).length = text.length := by
  simp [gctr]

theorem getElem_gctr {icb : Block128} {text : List UInt8} {i : Nat} (h : i < text.length)
    (h' : i < (gctr ciph icb text).length) :
    (gctr ciph icb text)[i] = text[i] ^^^ blockByte (ciph (inc32^[i / 16] icb)) i := by
  simp [gctr]

/-- **Counter mode undoes itself.** -/
theorem gctr_gctr (icb : Block128) (text : List UInt8) : gctr ciph icb (gctr ciph icb text) = text := by
  apply List.ext_getElem
  · simp
  · intro i _ h
    rw [getElem_gctr (by simpa using h), getElem_gctr h, UInt8.xor_assoc, UInt8.xor_self, UInt8.xor_zero]

/-- Counter mode on one block. -/
theorem gctr_block (icb x : Block128) : gctr ciph icb x.toList = (xorBlock x (ciph icb)).toList := by
  apply List.ext_getElem
  · simp
  · intro i h _
    have hi : i < 16 := by simpa using h
    rw [getElem_gctr (by simpa using hi), Nat.div_eq_of_lt hi, blockByte_of_lt _ hi]
    simp

/-! ## Blocks -/

variable {mul}

theorem ghashFrom_append (h y : Block128) (bs cs : List Block128) :
    ghashFrom mul h y (bs ++ cs) = ghashFrom mul h (ghashFrom mul h y bs) cs := List.foldl_append

end

end Crimson.Lib
