import Mathlib.Data.Nat.Basic
import Mathlib.Tactic.Ring

/-!
# Byte-addressed memory

A memory is a total map from addresses to bytes. Multi-byte values are little-endian:
`loadBytes m a n` is the number stored in the `n` bytes from `a`, and `storeBytes`
writes the low `n` bytes of a number there. The 32- and 64-bit accessors the rest of
the development uses are these at `n = 4` and `n = 8`.

Everything a proof needs is in two facts: a load sees the last store to the same place
(`loadBytes_storeBytes_same`), and depends on nothing outside its own bytes
(`loadBytes_congr`), so in particular not on a store elsewhere.
-/

set_option autoImplicit false

namespace Crimson.Lib

/-- The contents of memory. -/
abbrev Mem := Nat → BitVec 8

/-- The little-endian number in the `n` bytes from `a`. -/
def loadBytes (m : Mem) : Nat → Nat → Nat
  | _, 0 => 0
  | a, n + 1 => (m a).toNat + 256 * loadBytes m (a + 1) n

/-- The low `n` bytes of `v` stored from `a`. -/
def storeBytes (m : Mem) (a n v : Nat) : Mem := fun x =>
  if a ≤ x ∧ x < a + n then BitVec.ofNat 8 (v / 256 ^ (x - a)) else m x

/-- `c` in each of the `n` bytes from `a`. -/
def fillBytes (m : Mem) (a n : Nat) (c : BitVec 8) : Mem := fun x =>
  if a ≤ x ∧ x < a + n then c else m x

/-- The `n` bytes from `b` of `src` copied to `a`. -/
def copyBytes (m : Mem) (a : Nat) (src : Mem) (b n : Nat) : Mem := fun x =>
  if a ≤ x ∧ x < a + n then src (b + (x - a)) else m x

/-- The two memories agree on the `n` bytes from `a`. -/
def AgreeOn (m m' : Mem) (a n : Nat) : Prop := ∀ x, a ≤ x → x < a + n → m' x = m x

variable {m m' : Mem} {a b n k v : Nat}

theorem loadBytes_congr (h : AgreeOn m m' a n) : loadBytes m' a n = loadBytes m a n := by
  induction n generalizing a with
  | zero => rfl
  | succ n ih =>
    have hrest : AgreeOn m m' (a + 1) n := fun x h₁ h₂ => h x (by omega) (by omega)
    rw [loadBytes, loadBytes, h a (by omega) (by omega), ih hrest]

/-- The same bytes at another place. -/
theorem loadBytes_eq (h : ∀ i, i < n → m' (b + i) = m (a + i)) : loadBytes m' b n = loadBytes m a n := by
  induction n generalizing a b with
  | zero => rfl
  | succ n ih =>
    have hrest : ∀ i, i < n → m' (b + 1 + i) = m (a + 1 + i) := by
      intro i hi
      have hbyte := h (i + 1) (by omega)
      rwa [Nat.add_comm i, ← Nat.add_assoc, ← Nat.add_assoc] at hbyte
    have hfirst : m' b = m a := h 0 (Nat.succ_pos n)
    rw [loadBytes, loadBytes, hfirst, ih hrest]

theorem AgreeOn.mono (h : AgreeOn m m' a n) (hab : a ≤ b) (hbn : b + k ≤ a + n) :
    AgreeOn m m' b k := fun x h₁ h₂ => h x (by omega) (by omega)

theorem storeBytes_of_notMem {x : Nat} (h : x < a ∨ a + n ≤ x) : storeBytes m a n v x = m x :=
  if_neg (by omega)

theorem fillBytes_of_notMem {x : Nat} {c : BitVec 8} (h : x < a ∨ a + n ≤ x) :
    fillBytes m a n c x = m x :=
  if_neg (by omega)

theorem copyBytes_of_notMem {src : Mem} {x : Nat} (h : x < a ∨ a + n ≤ x) :
    copyBytes m a src b n x = m x :=
  if_neg (by omega)

theorem copyBytes_of_mem {src : Mem} {x : Nat} (h₁ : a ≤ x) (h₂ : x < a + n) :
    copyBytes m a src b n x = src (b + (x - a)) :=
  if_pos ⟨h₁, h₂⟩

/-- A store leaves every range it is disjoint from as it was. -/
theorem agreeOn_storeBytes (h : b + k ≤ a ∨ a + n ≤ b) : AgreeOn m (storeBytes m a n v) b k :=
  fun _ _ _ => storeBytes_of_notMem (by omega)

theorem agreeOn_fillBytes {c : BitVec 8} (h : b + k ≤ a ∨ a + n ≤ b) :
    AgreeOn m (fillBytes m a n c) b k :=
  fun _ _ _ => fillBytes_of_notMem (by omega)

theorem agreeOn_copyBytes {src : Mem} {c : Nat} (h : b + k ≤ a ∨ a + n ≤ b) :
    AgreeOn m (copyBytes m a src c n) b k :=
  fun _ _ _ => copyBytes_of_notMem (by omega)

/-- A load from a copy, at the offset the source has there. -/
theorem loadBytes_copyBytes {src : Mem} {j : Nat} (h : j + k ≤ n) :
    loadBytes (copyBytes m a src b n) (a + j) k = loadBytes src (b + j) k := by
  induction k generalizing j with
  | zero => rfl
  | succ k ih =>
    have hrest := ih (j := j + 1) (by omega)
    rw [loadBytes, loadBytes, copyBytes_of_mem (by omega) (by omega), Nat.add_assoc a j 1, hrest,
      Nat.add_sub_cancel_left, Nat.add_assoc b j 1]

theorem loadBytes_lt : loadBytes m a n < 256 ^ n := by
  induction n generalizing a with
  | zero => simp [loadBytes]
  | succ n ih =>
    have hbyte := (m a).isLt
    have hrest : loadBytes m (a + 1) n < 256 ^ n := ih
    rw [loadBytes, Nat.pow_succ]
    omega

/-- Reading back `k` of the bytes a store wrote, from its `j`-th byte on. -/
theorem loadBytes_storeBytes_part {j : Nat} (h : j + k ≤ n) :
    loadBytes (storeBytes m a n v) (a + j) k = v / 256 ^ j % 256 ^ k := by
  induction k generalizing j with
  | zero => simp [loadBytes, Nat.mod_one]
  | succ k ih =>
    have hbyte : (storeBytes m a n v (a + j)).toNat = v / 256 ^ j % 256 := by
      have hin : a ≤ a + j ∧ a + j < a + n := by omega
      simp only [storeBytes, if_pos hin, BitVec.toNat_ofNat, Nat.add_sub_cancel_left]
    have hrest := ih (j := j + 1) (by omega)
    rw [loadBytes, hbyte, Nat.add_assoc, hrest, Nat.pow_succ 256 j, ← Nat.div_div_eq_div_mul,
      Nat.pow_succ 256 k, Nat.mul_comm (256 ^ k) 256, Nat.mod_mul]

/-- **A load sees the last store to the same place.** -/
theorem loadBytes_storeBytes_same : loadBytes (storeBytes m a n v) a n = v % 256 ^ n := by
  simpa using loadBytes_storeBytes_part (m := m) (a := a) (v := v) (j := 0) (k := n) (n := n)
    (by omega)

theorem loadBytes_fillBytes_zero (h₁ : a ≤ b) (h₂ : b + k ≤ a + n) :
    loadBytes (fillBytes m a n 0) b k = 0 := by
  induction k generalizing b with
  | zero => rfl
  | succ k ih =>
    have hin : a ≤ b ∧ b < a + n := by omega
    rw [loadBytes, ih (by omega) (by omega)]
    simp [fillBytes, hin]

theorem loadBytes_add : loadBytes m a (n + k) = loadBytes m a n + 256 ^ n * loadBytes m (a + n) k := by
  induction n generalizing a with
  | zero => simp [loadBytes]
  | succ n ih =>
    have hrest := ih (a := a + 1)
    rw [Nat.add_right_comm, loadBytes, loadBytes, hrest, Nat.pow_succ, Nat.add_assoc a 1 n,
      Nat.add_comm 1 n]
    ring

/-- A bit of a stored number is a bit of one of its bytes. -/
theorem testBit_loadBytes {i : Nat} : (loadBytes m a n).testBit i = (decide (i / 8 < n) && (m (a + i / 8)).getLsbD (i % 8)) := by
  induction n generalizing a i with
  | zero => simp [loadBytes]
  | succ n ih =>
    have hbyte : (m a).toNat < 2 ^ 8 := (m a).isLt
    rw [loadBytes, Nat.add_comm, show 256 = 2 ^ 8 from rfl, Nat.testBit_two_pow_mul_add _ hbyte]
    by_cases hi : i < 8
    · have hdiv : i / 8 = 0 := Nat.div_eq_of_lt hi
      rw [if_pos hi, hdiv, Nat.mod_eq_of_lt hi]
      simp [BitVec.testBit_toNat]
    · rw [if_neg hi, ih]
      have hdiv : i / 8 = (i - 8) / 8 + 1 := by omega
      have hmod : (i - 8) % 8 = i % 8 := by omega
      rw [hdiv, hmod, Nat.add_assoc, Nat.add_comm 1]
      simp

/-! ## 64- and 32-bit words -/

def load64 (m : Mem) (a : Nat) : Nat := loadBytes m a 8
def store64 (m : Mem) (a v : Nat) : Mem := storeBytes m a 8 v
def load32 (m : Mem) (a : Nat) : Nat := loadBytes m a 4
def store32 (m : Mem) (a v : Nat) : Mem := storeBytes m a 4 v

theorem load64_lt : load64 m a < 2 ^ 64 := loadBytes_lt

theorem load32_lt : load32 m a < 2 ^ 32 := loadBytes_lt

/-- A 64-bit word is its two halves. -/
theorem load64_eq : load64 m a = load32 m a + 2 ^ 32 * load32 m (a + 4) :=
  loadBytes_add (n := 4) (k := 4)

theorem load64_store64_same (h : v < 2 ^ 64) : load64 (store64 m a v) a = v := by
  rw [load64, store64, loadBytes_storeBytes_same]
  exact Nat.mod_eq_of_lt h

theorem load32_store32_same (h : v < 2 ^ 32) : load32 (store32 m a v) a = v := by
  rw [load32, store32, loadBytes_storeBytes_same]
  exact Nat.mod_eq_of_lt h

theorem load64_congr (h : AgreeOn m m' a 8) : load64 m' a = load64 m a := loadBytes_congr h

theorem load32_congr (h : AgreeOn m m' a 4) : load32 m' a = load32 m a := loadBytes_congr h

theorem agreeOn_store64 (h : b + k ≤ a ∨ a + 8 ≤ b) : AgreeOn m (store64 m a v) b k :=
  agreeOn_storeBytes h

theorem agreeOn_store32 (h : b + k ≤ a ∨ a + 4 ≤ b) : AgreeOn m (store32 m a v) b k :=
  agreeOn_storeBytes h

theorem load64_copyBytes {src : Mem} {j : Nat} (h : j + 8 ≤ n) :
    load64 (copyBytes m a src b n) (a + j) = load64 src (b + j) := loadBytes_copyBytes h

/-! Loads past a store elsewhere, in the form a rewriting discharger can use. -/

theorem load64_store64_disjoint (h : b + 8 ≤ a ∨ a + 8 ≤ b) :
    load64 (store64 m a v) b = load64 m b := load64_congr (agreeOn_store64 h)

theorem load64_store32_disjoint (h : b + 8 ≤ a ∨ a + 4 ≤ b) :
    load64 (store32 m a v) b = load64 m b := load64_congr (agreeOn_store32 h)

theorem load32_store64_disjoint (h : b + 4 ≤ a ∨ a + 8 ≤ b) :
    load32 (store64 m a v) b = load32 m b := load32_congr (agreeOn_store64 h)

theorem load32_store32_disjoint (h : b + 4 ≤ a ∨ a + 4 ≤ b) :
    load32 (store32 m a v) b = load32 m b := load32_congr (agreeOn_store32 h)

theorem load64_copyBytes_disjoint {src : Mem} {c : Nat} (h : b + 8 ≤ a ∨ a + n ≤ b) :
    load64 (copyBytes m a src c n) b = load64 m b := load64_congr (agreeOn_copyBytes h)

theorem AgreeOn.trans {m'' : Mem} (h₁ : AgreeOn m m' a n) (h₂ : AgreeOn m' m'' a n) :
    AgreeOn m m'' a n := fun x hx hx' => (h₂ x hx hx').trans (h₁ x hx hx')

end Crimson.Lib
