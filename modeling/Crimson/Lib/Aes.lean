import Mathlib.Data.Fin.Basic

/-!
# AES (FIPS 197)

The cipher and its key schedule for keys of any number of words. A byte is an element of
GF(2^8), with the modulus x^8 + x^4 + x^3 + x + 1. Byte `s[r, c]` of the state is byte
`r + 4c` of a block. The S-box is the inverse in the field followed by an affine map.
-/

set_option autoImplicit false

namespace Crimson.Lib.Aes

abbrev Byte := BitVec 8
abbrev Word := Vector Byte 4
abbrev Block := Vector Byte 16

/-! ## The field -/

/-- Multiplication by x, of a byte as a number. -/
def xtime (a : Nat) : Nat := (2 * a) ^^^ (0x11b * (a / 128))

/-- The sum of the products with the lowest `n` bits. -/
def mulBits : Nat → Nat → Nat → Nat
  | 0, _, _ => 0
  | n + 1, a, b => (b % 2 * a) ^^^ mulBits n (xtime a) (b / 2)

def mul (a b : Byte) : Byte := BitVec.ofNat 8 (mulBits 8 a.toNat b.toNat)

/-- The inverse, and 0 for 0: the power 254, which is the product of the powers 2, 4, ..., 128. -/
def inv (b : Byte) : Byte :=
  let p2 := mulBits 8 b.toNat b.toNat
  let p4 := mulBits 8 p2 p2
  let p8 := mulBits 8 p4 p4
  let p16 := mulBits 8 p8 p8
  let p32 := mulBits 8 p16 p16
  let p64 := mulBits 8 p32 p32
  let p128 := mulBits 8 p64 p64
  BitVec.ofNat 8
    (mulBits 8 p2 (mulBits 8 p4 (mulBits 8 p8 (mulBits 8 p16 (mulBits 8 p32 (mulBits 8 p64 p128))))))

/-- Bit `i` is the sum of the bits `i`, `i + 4`, `i + 5`, `i + 6`, `i + 7`, and of bit `i` of
    0x63. -/
def affine (b : Byte) : Byte :=
  b ^^^ b.rotateRight 4 ^^^ b.rotateRight 5 ^^^ b.rotateRight 6 ^^^ b.rotateRight 7 ^^^ 0x63

def sbox (b : Byte) : Byte := affine (inv b)

/-! ## The state -/

/-- `s[r, c]`. -/
def entry (s : Block) (r c : Fin 4) : Byte := s[r.val + 4 * c.val]

theorem row_lt (i : Fin 16) : i.val % 4 < 4 := Nat.mod_lt _ (by decide)
theorem col_lt (i : Fin 16) : i.val / 4 < 4 := Nat.div_lt_of_lt_mul i.isLt

def ofEntries (f : Fin 4 → Fin 4 → Byte) : Block :=
  Vector.ofFn fun i => f ⟨i.val % 4, row_lt i⟩ ⟨i.val / 4, col_lt i⟩

def subBytes (s : Block) : Block := ofEntries fun r c => sbox (entry s r c)

def shiftRows (s : Block) : Block := ofEntries fun r c => entry s r (c + r)

def mixColumns (s : Block) : Block :=
  ofEntries fun r c => mul 2 (entry s r c) ^^^ mul 3 (entry s (r + 1) c) ^^^ entry s (r + 2) c ^^^ entry s (r + 3) c

def addRoundKey (s k : Block) : Block := ofEntries fun r c => entry s r c ^^^ entry k r c

@[simp] theorem getElem_ofEntries (f : Fin 4 → Fin 4 → Byte) (i : Nat) (hi : i < 16) :
    (ofEntries f)[i] = f ⟨i % 4, by omega⟩ ⟨i / 4, by omega⟩ := by
  simp [ofEntries]

@[simp] theorem get_ofEntries (f : Fin 4 → Fin 4 → Byte) (i : Fin 16) :
    (ofEntries f).get i = f ⟨i.val % 4, row_lt i⟩ ⟨i.val / 4, col_lt i⟩ := getElem_ofEntries ..

@[simp] theorem entry_ofEntries (f : Fin 4 → Fin 4 → Byte) (r c : Fin 4) : entry (ofEntries f) r c = f r c := by
  have hr : (r.val + 4 * c.val) % 4 = r.val := by omega
  have hc : (r.val + 4 * c.val) / 4 = c.val := by omega
  simp only [entry, getElem_ofEntries, hr, hc]

/-! ## The key schedule -/

def xorWord (a b : Word) : Word := Vector.zipWith (· ^^^ ·) a b

def rotWord (w : Word) : Word := Vector.ofFn fun i => w.get (i + 1)

def subWord (w : Word) : Word := w.map sbox

/-- `Rcon[i]`: x to the power `i - 1`, and three zeros. -/
def rcon (i : Nat) : Word := #v[BitVec.ofNat 8 (xtime^[i - 1] 1), 0, 0, 0]

/-- What is added to word `i - nk`, from word `i - 1`. -/
def keyTemp (nk i : Nat) (temp : Word) : Word :=
  if i % nk = 0 then xorWord (subWord (rotWord temp)) (rcon (i / nk))
  else if nk > 6 ∧ i % nk = 4 then subWord temp
  else temp

/-- The first words of the schedule, of a key of `nk` words. -/
def keyWords (nk : Nat) (key : Nat → Word) : Nat → List Word
  | 0 => []
  | i + 1 =>
    let w := keyWords nk key i
    w ++ [if i < nk then key i else xorWord (w.getD (i - nk) (key 0)) (keyTemp nk i (w.getD (i - 1) (key 0)))]

/-- Word `i` of the schedule. -/
def keyWord (nk : Nat) (key : Nat → Word) (i : Nat) : Word := (keyWords nk key (i + 1)).getD i (key 0)

/-- The words of a key that is given by its bytes. -/
def wordsOf (key : Nat → Byte) (i : Nat) : Word := #v[key (4 * i), key (4 * i + 1), key (4 * i + 2), key (4 * i + 3)]

/-- The key of round `k`: four words, one for each column. -/
def roundKey (nk : Nat) (key : Nat → Word) (k : Nat) : Block :=
  ofEntries fun r c => (keyWord nk key (4 * k + c.val))[r.val]

theorem length_keyWords (nk : Nat) (key : Nat → Word) (n : Nat) : (keyWords nk key n).length = n := by
  induction n with
  | zero => rfl
  | succ n ih => rw [keyWords, List.length_append, ih, List.length_singleton]

/-- Words that are there stay as they are. -/
theorem keyWords_getD {nk : Nat} {key : Nat → Word} {i n : Nat} (h : i < n) :
    (keyWords nk key n).getD i (key 0) = keyWord nk key i := by
  induction n with
  | zero => exact absurd h (Nat.not_lt_zero i)
  | succ n ih =>
    by_cases hi : i = n
    · rw [hi, keyWord]
    · have hlt : i < (keyWords nk key n).length := by
        rw [length_keyWords]
        omega
      rw [keyWords, List.getD_eq_getElem?_getD, List.getElem?_append_left hlt, ← List.getD_eq_getElem?_getD]
      exact ih (by omega)

theorem keyWord_step (nk : Nat) (key : Nat → Word) (i : Nat) : keyWord nk key i =
    if i < nk then key i
    else xorWord ((keyWords nk key i).getD (i - nk) (key 0)) (keyTemp nk i ((keyWords nk key i).getD (i - 1) (key 0))) := by
  have hlast : (keyWords nk key i).length ≤ i := (length_keyWords nk key i).le
  rw [keyWord, keyWords, List.getD_eq_getElem?_getD, List.getElem?_append_right hlast, length_keyWords, Nat.sub_self]
  rfl

theorem keyWord_of_lt {nk : Nat} {key : Nat → Word} {i : Nat} (h : i < nk) : keyWord nk key i = key i := by
  rw [keyWord_step, if_pos h]

/-- **The recursion of the key schedule.** -/
theorem keyWord_of_le {nk : Nat} {key : Nat → Word} {i : Nat} (hnk : 0 < nk) (h : nk ≤ i) :
    keyWord nk key i = xorWord (keyWord nk key (i - nk)) (keyTemp nk i (keyWord nk key (i - 1))) := by
  rw [keyWord_step, if_neg (by omega), keyWords_getD (by omega), keyWords_getD (by omega)]

/-! ## The cipher -/

/-- The state after the first key and `n` rounds. -/
def rounds (rk : Nat → Block) (s : Block) : Nat → Block
  | 0 => addRoundKey s (rk 0)
  | n + 1 => addRoundKey (mixColumns (shiftRows (subBytes (rounds rk s n)))) (rk (n + 1))

/-- `Cipher`, with `nr` rounds. -/
def cipher (nr : Nat) (rk : Nat → Block) (s : Block) : Block :=
  addRoundKey (shiftRows (subBytes (rounds rk s (nr - 1)))) (rk nr)

theorem rounds_congr {rk rk' : Nat → Block} {s : Block} {n : Nat} (h : ∀ k ≤ n, rk k = rk' k) :
    rounds rk s n = rounds rk' s n := by
  induction n with
  | zero => rw [rounds, rounds, h 0 le_rfl]
  | succ n ih => rw [rounds, rounds, h (n + 1) le_rfl, ih fun k hk => h k (by omega)]

theorem cipher_congr {nr : Nat} {rk rk' : Nat → Block} {s : Block} (h : ∀ k ≤ nr, rk k = rk' k) :
    cipher nr rk s = cipher nr rk' s := by
  rw [cipher, cipher, h nr le_rfl, rounds_congr fun k hk => h k (by omega)]

/-- The encryption of a block: a key of `nk` words goes with `nk + 6` rounds. -/
def encrypt (nk : Nat) (key : Nat → Byte) (s : Block) : Block := cipher (nk + 6) (roundKey nk (wordsOf key)) s

end Crimson.Lib.Aes
