import Crimson.Pkg.Extract

/-!
# The buffers of an extraction (`pkg_extract`)

Two buffers are filled and emptied by lengths that the archive gives: the array of the
dependencies by `dep_count`, and the data of a file by `compressed_size` and `size`. The data
has `compressed_size` bytes, and except for a compressed file it is written out with `size`.
`buffers_respected_iff` says for which archives that stays inside.
-/

set_option autoImplicit false

namespace Crimson.Pkg

open Crimson.Lib

/-- A transfer from or to a buffer: how many of its bytes it covers, and how many there are. -/
structure Transfer where
  covered : Nat
  size : Nat
deriving DecidableEq, Repr

def Transfer.Inside (t : Transfer) : Prop := t.covered ≤ t.size

instance (t : Transfer) : Decidable t.Inside := inferInstanceAs (Decidable (_ ≤ _))

/-- The read of the dependency table. -/
def depsTransfer (file : List UInt8) (hdr : Header) : Transfer := ⟨(depsRead file hdr).length, pkgMaxDeps * dependencySize⟩

/-- The `fs_read` and the `fs_write` of one file's data; `outOpens` is whether there is a file
    to write to. -/
def dataTransfers (hdr : Header) (outOpens : Bool) (fe : List UInt8) : List Transfer :=
  let size := feCompressedSize fe
  let count := if hdr.compression = pkgCompLz4 ∧ feCompressedSize fe < feSize fe then feCompressedSize fe else feSize fe
  ⟨size, size⟩ :: if outOpens then [⟨count, size⟩] else []

/-- The transfers of a call, up to an overrun of the dependencies, behind which nothing is
    determined. -/
def pkgExtractTransfers (env : ExtractEnv) (outOpens : Nat → Bool) (hdr : Header) : List Transfer :=
  if env.opens = false then []
  else
    let deps := depsTransfer (env.file 0) hdr
    let rounds := bufferedEntries env hdr (extractRounds hdr) 0 (firstPos env hdr)
    deps :: if deps.Inside then rounds.flatMap fun e => dataTransfers hdr (outOpens e.1) e.2 else []

/-- The array takes the dependencies: there are not too many, or the package ends early. -/
def DepsFit (file : List UInt8) (hdr : Header) : Prop :=
  hdr.depCount ≤ pkgMaxDeps ∨ file.length ≤ headerSize + pkgMaxDeps * dependencySize

/-- The data is written out with the length it has in the archive. -/
def DataFits (hdr : Header) (fe : List UInt8) : Prop :=
  hdr.compression = pkgCompLz4 ∨ feSize fe ≤ feCompressedSize fe

variable {env : ExtractEnv} {outOpens : Nat → Bool} {hdr : Header} {file fe : List UInt8}

theorem depsTransfer_inside_iff : (depsTransfer file hdr).Inside ↔ DepsFit file hdr := by
  have hcount : hdr.depCount * dependencySize ≤ pkgMaxDeps * dependencySize ↔ hdr.depCount ≤ pkgMaxDeps :=
    Nat.mul_le_mul_right_iff (by decide)
  unfold Transfer.Inside depsTransfer depsRead DepsFit
  rw [List.length_take, List.length_drop, ← hcount]
  dsimp only
  omega

/-- A read of the dependencies that is inside the array overruns it by nothing. -/
theorem depsOverrun_eq_nil_iff : depsOverrun file hdr = [] ↔ (depsTransfer file hdr).Inside := List.drop_eq_nil_iff

theorem dataTransfers_inside_iff {opens : Bool} :
    (∀ t ∈ dataTransfers hdr opens fe, t.Inside) ↔ (opens = true → DataFits hdr fe) := by
  unfold dataTransfers DataFits Transfer.Inside
  cases opens with
  | false => simp
  | true =>
    by_cases hlz4 : hdr.compression = pkgCompLz4
    · simp only [hlz4, true_and, if_true, List.mem_cons, List.not_mem_nil, or_false, forall_eq_or_imp, forall_eq]
      split
      · simp
      · simp
        omega
    · simp [hlz4]

/-- **The transfers of a call stay inside their buffers exactly if the dependencies fit, and the
    data of each file that is written.** -/
theorem buffers_respected_iff (env : ExtractEnv) (outOpens : Nat → Bool) (hdr : Header) :
    (∀ t ∈ pkgExtractTransfers env outOpens hdr, t.Inside) ↔
      (env.opens = true → DepsFit (env.file 0) hdr ∧
        ∀ i < extractRounds hdr, ∀ fe, entryAt env hdr i = some fe → env.allocOk i = true → outOpens i = true →
          DataFits hdr fe) := by
  unfold pkgExtractTransfers
  cases hopens : env.opens with
  | false => simp
  | true =>
    rw [if_neg (by decide), List.forall_mem_cons, ← depsTransfer_inside_iff]
    simp only [forall_const]
    refine and_congr_right fun hdeps => ?_
    rw [if_pos hdeps]
    constructor
    · intro h i hi fe hfe halloc
      have hround : (i, fe) ∈ bufferedEntries env hdr (extractRounds hdr) 0 (firstPos env hdr) :=
        (mem_bufferedEntries _ rfl).mpr ⟨i, hi, (Nat.zero_add i).symm, by simpa using hfe, by simpa using halloc⟩
      exact dataTransfers_inside_iff.mp fun t ht => h t (List.mem_flatMap.mpr ⟨_, hround, ht⟩)
    · intro h t ht
      obtain ⟨⟨i, fe⟩, hround, ht⟩ := List.mem_flatMap.mp ht
      obtain ⟨j, hj, hi, hfe, halloc⟩ := (mem_bufferedEntries _ rfl).mp hround
      rw [Nat.zero_add] at hi hfe halloc
      obtain rfl : i = j := hi
      exact dataTransfers_inside_iff.mpr (h i hj fe hfe halloc) t ht

/-- One file of two bytes, of which the archive has one. -/
def shortDataEnv : ExtractEnv where
  opens := true
  file := fun _ => oneFileHeader.bytes ++ (List.replicate 260 0 ++ leBytes 4 2 ++ leBytes 4 1 ++ List.replicate 44 0) ++ [7]
  above := fun _ => []
  allocOk := fun _ => true

/-- Two bytes are written from the buffer of one. -/
theorem writes_past_data : ¬∀ t ∈ pkgExtractTransfers shortDataEnv (fun _ => true) oneFileHeader, t.Inside := by
  decide +kernel

end Crimson.Pkg
