import Mathlib.Data.Prod.Lex
import Crimson.Lib.Words
import Crimson.Str.Model

/-!
# Packages: headers, entries, versions (`pkg.c`, `pkg.h`)

A package header is kept as the bytes it is: the source copies it whole between a file, its
stack and the database, and its strings need not end inside their fields. `Header.str` is
the C string at an offset, given the bytes that follow the header in memory.

The list of installed packages is a Lean list, first entry first.
-/

set_option autoImplicit false

namespace Crimson.Pkg

open Crimson.Lib Crimson.Str

/-- `sizeof(pkg_header_t)`. -/
def headerSize : Nat := 2024

/-- A `pkg_header_t`. -/
structure Header where
  bytes : List UInt8
  size : bytes.length = headerSize
deriving DecidableEq

namespace Header

variable (h : Header)

def magic : Nat := wordAt h.bytes 0 4
def formatVersion : Nat := wordAt h.bytes 4 4
def compression : Nat := wordAt h.bytes 1860 4
def fileCount : Nat := wordAt h.bytes 1864 4
def depCount : Nat := wordAt h.bytes 1868 4
def sigType : Nat := wordAt h.bytes 1976 4

/-- The string at an offset of the header, when `above` follows it in memory. -/
def str (above : List UInt8) (off : Nat) : List UInt8 := cstr (h.bytes.drop off ++ above)

def name (above : List UInt8) : List UInt8 := h.str above 20
def version (above : List UInt8) : List UInt8 := h.str above 148

end Header

/-- `CRIMSON_PKG_MAGIC`. -/
def crimsonPkgMagic : Nat := 0x43524D53

/-- `PKG_STATE_INSTALLED`. -/
def pkgStateInstalled : UInt32 := 1

/-- A `char[256]`. -/
structure PathBuf where
  bytes : List UInt8
  size : bytes.length = 256
deriving DecidableEq

/-- An array of zeros. -/
def PathBuf.zeros : PathBuf := ⟨List.replicate 256 0, List.length_replicate⟩

/-- `strcpy` into the array, of a string that fits; the bytes behind it stay. -/
def PathBuf.strcpy (buf : PathBuf) (s : List UInt8) (hs : s.length < 256) : PathBuf where
  bytes := s ++ 0 :: buf.bytes.drop (s.length + 1)
  size := by
    have := buf.size
    simp
    omega

/-- A `pkg_entry_t`. -/
structure PkgEntry where
  header : Header
  state : UInt32
  repoId : UInt32
  installPath : PathBuf
  installTime : UInt64
  autoUpdate : UInt32
deriving DecidableEq

namespace PkgEntry

variable (e : PkgEntry)

/-- The bytes that follow the header in an entry. -/
def above : List UInt8 := leBytes 4 e.state.toNat ++ leBytes 4 e.repoId.toNat ++ e.installPath.bytes

def name : List UInt8 := e.header.name e.above
def version : List UInt8 := e.header.version e.above

end PkgEntry

/-- The fields of `g_pkg_state` the database uses. -/
structure PkgState where
  installed : List PkgEntry
  totalInstalled : UInt32
  installRoot : List UInt8
  autoUpdate : UInt32

/-! ## The database -/

def pkgDbFind (s : PkgState) (name : List UInt8) : Option PkgEntry := s.installed.find? fun e => e.name = name

def pkgDbFindInstalled (s : PkgState) (name : List UInt8) : Option PkgEntry :=
  (pkgDbFind s name).filter fun e => e.state = pkgStateInstalled

def pkgDbAdd (s : PkgState) (entry : PkgEntry) : PkgState :=
  { s with installed := entry :: s.installed, totalInstalled := s.totalInstalled + 1 }

def pkgDbRemove (s : PkgState) (name : List UInt8) : PkgState :=
  match pkgDbFind s name with
  | none => s
  | some _ =>
    { s with
      installed := s.installed.eraseP fun e => e.name = name
      totalInstalled := s.totalInstalled - 1 }

/-! ## Versions -/

structure Version where
  major : UInt32
  minor : UInt32
  patch : UInt32
deriving DecidableEq, Repr

/-- What follows the first dot. -/
def afterDot (s : List UInt8) : Option (List UInt8) :=
  match s.dropWhile fun c => c ≠ 46 with
  | [] => none
  | _ :: rest => some rest

def pkgParseVersion (ver : List UInt8) : Version :=
  match afterDot ver with
  | none => ⟨(atoi ver).toUInt32, 0, 0⟩
  | some p =>
    match afterDot p with
    | none => ⟨(atoi ver).toUInt32, (atoi p).toUInt32, 0⟩
    | some q => ⟨(atoi ver).toUInt32, (atoi p).toUInt32, (atoi q).toUInt32⟩

def pkgVersionCompare (a b : List UInt8) : Int :=
  let a := pkgParseVersion a
  let b := pkgParseVersion b
  if a.major ≠ b.major then if b.major < a.major then 1 else -1
  else if a.minor ≠ b.minor then if b.minor < a.minor then 1 else -1
  else if a.patch ≠ b.patch then if b.patch < a.patch then 1 else -1
  else 0

/-- A version as an element of a linear order. -/
def Version.key (v : Version) : Nat ×ₗ Nat ×ₗ Nat := toLex (v.major.toNat, toLex (v.minor.toNat, v.patch.toNat))

/-- **The comparison is the lexicographic order of the triples**, on any strings. -/
theorem pkgVersionCompare_nonneg (a b : List UInt8) :
    0 ≤ pkgVersionCompare a b ↔ (pkgParseVersion b).key ≤ (pkgParseVersion a).key := by
  unfold pkgVersionCompare Version.key
  generalize pkgParseVersion a = v
  generalize pkgParseVersion b = w
  have hne : ∀ x y : UInt32, x ≠ y ↔ x.toNat ≠ y.toNat := fun x y => not_congr UInt32.toNat_inj.symm
  simp only [Prod.Lex.toLex_le_toLex, hne, UInt32.lt_iff_toNat_lt]
  split_ifs <;> omega

/-! ## Strings that end inside the header -/

/-- A header whose signature type is one of the two the source knows has a zero byte behind
    its strings. -/
theorem Header.str_eq {h : Header} (hsig : h.sigType < 2) {off : Nat} (hoff : off ≤ 1976) (above : List UInt8) :
    h.str above off = cstr (h.bytes.drop off) := by
  refine cstr_append ?_ above
  have hword : (0 : UInt8) ∈ (h.bytes.drop 1976).take 4 := by
    refine leNat_zero_mem (n := 3) ?_ (Nat.lt_of_lt_of_le hsig (by decide))
    simp [h.size, headerSize]
  have hmem : (0 : UInt8) ∈ (h.bytes.drop off).drop (1976 - off) := by
    rw [List.drop_drop, Nat.add_sub_cancel' hoff]
    exact List.mem_of_mem_take hword
  exact List.mem_of_mem_drop hmem

end Crimson.Pkg
