import Crimson.Crfs.DirScan
import Crimson.Lib.CStrings

/-!
# `crfs_readdir` (`crfs.c`)

The results are records of eight bytes, one after another, and the name of a record is written
behind its eight bytes: where the next result goes. So a result keeps its inode number and its
type, and its name only as far as the next result spells the same (`DirRecord.SpelledBy`).

The block number is a `uint32_t` and comes back to zero; a scan that has not filled the results
by then goes over the blocks again.
-/

set_option autoImplicit false

namespace Crimson.Crfs

open Crimson.Lib Crimson.Mm

def sizeofDirent : Nat := 8

def direntType (block : Mem) (off : Nat) : Nat := loadBytes block (off + 7) 1

/-- The name at `a` in a block, as `strncpy` reads it. -/
def readName (block : Mem) : Nat → Nat → Option (List (BitVec 8))
  | _, 0 => some []
  | a, n + 1 =>
    if blockSize ≤ a then none
    else if block a = 0 then some []
    else (readName block (a + 1) n).map fun name => block a :: name

/-- The record at `off` in a block copied to result `count`, and its name behind it. The zero
    that `strncpy` puts behind a padded name is where the terminator goes. -/
def putResult (entries : Mem) (count : Nat) (block : Mem) (off : Nat) (name : List (BitVec 8)) : Mem :=
  let entries := copyBytes entries (sizeofDirent * count) block off sizeofDirent
  let entries := copyString entries (sizeofDirent * count + 8) name (direntNameLen block off)
  Function.update entries (sizeofDirent * count + 8 + direntNameLen block off) 0

/-- The records of a block from `off` on. -/
def readdirScan (block : Mem) (maxEntries : Int) : Nat → Nat → Nat → Mem → Option (Nat × Mem)
  | 0, _, _, _ => none
  | fuel + 1, off, count, entries =>
    if blockSize ≤ off then some (count, entries)
    else if blockSize < off + 4 then none
    else if direntInodeNo block off = 0 then some (count, entries)
    else if blockSize < off + 6 then none
    else if direntRecLen block off = 0 then some (count, entries)
    else if blockSize < off + sizeofDirent then none
    else
      match readName block (off + 8) (direntNameLen block off) with
      | none => none
      | some name =>
        let entries := putResult entries count block off name
        if maxEntries ≤ (count : Int) + 1 then some (count + 1, entries)
        else readdirScan block maxEntries fuel (off + direntRecLen block off) (count + 1) entries

/-- The blocks of a directory from block `b` on. -/
def readdirBlocks (fs : Fs) (r : InodeRef) (maxEntries : Int) : Nat → Nat → Nat → Mem → Option (Nat × Mem)
  | 0, _, _, _ => none
  | fuel + 1, b, count, entries =>
    if b < diskBlocks (fs.disk r) ∧ (count : Int) < maxEntries then
      let addr := inodeGetBlock fs r b
      if addr = 0 then readdirBlocks fs r maxEntries fuel ((b + 1) % 2 ^ 32) count entries
      else
        match readdirScan (readBlock fs addr zeroBuf) maxEntries (blockSize + 1) 0 count entries with
        | none => none
        | some (count, entries) => readdirBlocks fs r maxEntries fuel ((b + 1) % 2 ^ 32) count entries
    else some (count, entries)

/-- The inode of an open directory. -/
def openDir (fs : Fs) (fd : Int) : Option InodeRef :=
  if fd < 0 ∨ (maxOpen : Int) ≤ fd then none
  else
    match (fs.files fd.toNat).inUse, (fs.files fd.toNat).inode with
    | true, some r => if diskType (fs.disk r) ≠ typeDir then none else some r
    | _, _ => none

/-- `crfs_readdir`, for so many blocks: what it returns, and the results. -/
def crfsReaddir (fs : Fs) (fd : Int) (entries : Mem) (maxEntries : Int) (fuel : Nat) : Option (Int × Mem) :=
  match openDir fs fd with
  | none => some (-1, entries)
  | some r => (readdirBlocks fs r maxEntries fuel 0 0 entries).map fun v => (v.1, v.2)

/-! ## The records of a directory -/

/-- A record of a directory: the block, and where it starts there. -/
structure DirRecord where
  block : Mem
  off : Nat

namespace DirRecord

def inodeNo (d : DirRecord) : Nat := direntInodeNo d.block d.off
def type (d : DirRecord) : Nat := direntType d.block d.off
def nameLen (d : DirRecord) : Nat := direntNameLen d.block d.off
def name (d : DirRecord) : List (BitVec 8) := stringAt d.block (d.off + 8) d.nameLen

/-- The bytes before the name. -/
def header (d : DirRecord) : List (BitVec 8) := (List.range sizeofDirent).map fun i => d.block (d.off + i)

/-- The bytes of the second record, read as a string, are the name of the first. -/
def SpelledBy (d e : DirRecord) : Prop := untilZero (e.header ++ e.name) = d.name

instance (d e : DirRecord) : Decidable (d.SpelledBy e) :=
  inferInstanceAs (Decidable (untilZero (e.header ++ e.name) = d.name))

end DirRecord

/-- Result `k` holds what it has to hold of a record. -/
structure HoldsRecord (entries : Mem) (k : Nat) (d : DirRecord) : Prop where
  inodeNo : direntInodeNo entries (sizeofDirent * k) = d.inodeNo
  type : direntType entries (sizeofDirent * k) = d.type
  name : Spells entries (sizeofDirent * k + 8) d.name

/-- The records of a block from `off` on, up to one that ends the scan. -/
def recordsFrom (block : Mem) : Nat → Nat → List DirRecord
  | 0, _ => []
  | fuel + 1, off =>
    if blockSize ≤ off ∨ direntInodeNo block off = 0 ∨ direntRecLen block off = 0 then []
    else ⟨block, off⟩ :: recordsFrom block fuel (off + direntRecLen block off)

/-- The records of block `b` of a directory. -/
def blockRecords (fs : Fs) (r : InodeRef) (b : Nat) : List DirRecord :=
  if inodeGetBlock fs r b = 0 then [] else recordsFrom (dirContents fs r b) (blockSize + 1) 0

/-- The records a scan of a directory comes to in its first `turns` turns. -/
def dirRecords (fs : Fs) (r : InodeRef) (turns : Nat) : List DirRecord :=
  (List.range turns).flatMap fun i => blockRecords fs r (i % 2 ^ 32)

/-- The scan takes so many turns, if it is not stopped by the number of results. -/
def HasTurns (fs : Fs) (r : InodeRef) (turns : Nat) : Prop :=
  turns ≤ diskBlocks (fs.disk r) ∨ 2 ^ 32 ≤ diskBlocks (fs.disk r)

/-- Record `k` of a directory. -/
def Listed (fs : Fs) (r : InodeRef) (k : Nat) (d : DirRecord) : Prop :=
  ∃ turns, HasTurns fs r turns ∧ (dirRecords fs r turns)[k]? = some d

variable {block entries : Mem} {name : List (BitVec 8)} {a n off fuel count b i k : Nat} {maxEntries : Int} {fs : Fs}
  {r : InodeRef} {d e : DirRecord} {ds : List DirRecord}

/-! ## The results -/

/-- The results after these records are written, from result `count` on. -/
def putResults (entries : Mem) : Nat → List DirRecord → Mem
  | _, [] => entries
  | count, d :: ds => putResults (putResult entries count d.block d.off d.name) (count + 1) ds

theorem putResults_append {es : List DirRecord} :
    putResults entries count (ds ++ es) = putResults (putResults entries count ds) (count + ds.length) es := by
  induction ds generalizing entries count with
  | nil => rfl
  | cons d ds ih =>
    rw [List.cons_append, putResults, ih, putResults, List.length_cons, Nat.add_assoc, Nat.add_comm 1]

theorem putResult_below {x : Nat} (hx : x < sizeofDirent * count) :
    putResult entries count block off name x = entries x := by
  unfold putResult copyString
  rw [Function.update_of_ne (by omega), copyBytes_of_notMem (by omega), copyBytes_of_notMem (by omega)]

theorem putResult_header (hi : i < sizeofDirent) :
    putResult entries count block off name (sizeofDirent * count + i) = block (off + i) := by
  have hi' : i < 8 := hi
  unfold putResult copyString
  rw [Function.update_of_ne (by omega), copyBytes_of_notMem (by omega), copyBytes_of_mem (by omega) (by omega),
    Nat.add_sub_cancel_left]

theorem putResult_name (hlen : name.length ≤ direntNameLen block off) :
    Spells (putResult entries count block off name) (sizeofDirent * count + 8) name := by
  unfold putResult copyString
  constructor
  · intro j hj
    rw [Function.update_of_ne (by omega), copyBytes_of_mem (by omega) (by omega), Nat.add_sub_cancel_left]
    simp [hj]
  · by_cases hshort : name.length = direntNameLen block off
    · rw [hshort, Function.update_self]
    · rw [Function.update_of_ne (by omega), copyBytes_of_mem (by omega) (by omega), Nat.add_sub_cancel_left]
      simp

theorem putResults_below {x : Nat} (hx : x < sizeofDirent * count) : putResults entries count ds x = entries x := by
  induction ds generalizing entries count with
  | nil => rfl
  | cons d ds ih =>
    have hnext : sizeofDirent * (count + 1) = sizeofDirent * count + 8 := Nat.mul_succ _ _
    rw [putResults, ih (by omega), putResult_below hx]

/-- The bytes before the name are kept in every result. -/
theorem putResults_header (hd : ds[k]? = some d) (hi : i < sizeofDirent) :
    putResults entries count ds (sizeofDirent * (count + k) + i) = d.block (d.off + i) := by
  induction ds generalizing entries count k with
  | nil => simp at hd
  | cons c ds ih =>
    rw [putResults]
    cases k with
    | zero =>
      obtain rfl : c = d := by simpa using hd
      have hnext : sizeofDirent * (count + 1) = sizeofDirent * count + 8 := Nat.mul_succ _ _
      have hi' : i < 8 := hi
      show putResults _ _ ds (sizeofDirent * count + i) = _
      rw [putResults_below (by omega), putResult_header hi]
    | succ k =>
      have hmore := @ih (putResult entries count c.block c.off c.name) (count + 1) k (by simpa using hd)
      rwa [Nat.add_assoc, Nat.add_comm 1] at hmore

theorem name_length_le : d.name.length ≤ direntNameLen d.block d.off := length_stringAt_le

/-- The last name is kept. -/
theorem putResults_last : Spells (putResults entries count (ds ++ [d])) (sizeofDirent * (count + ds.length) + 8) d.name := by
  rw [putResults_append]
  exact putResult_name name_length_le

/-- A record that is kept, with the name behind it, spells one string. -/
theorem spells_header (hheader : ∀ i, i < sizeofDirent → entries (a + i) = e.block (e.off + i))
    (hname : Spells entries (a + 8) e.name) : Spells entries a (untilZero (e.header ++ e.name)) := by
  have hlen : e.header.length = sizeofDirent := by simp [DirRecord.header]
  refine Spells.untilZero (Spells.append (by rwa [hlen]) ?_)
  intro i hi
  rw [hheader i (by omega)]
  simp [DirRecord.header]

/-- **Which names are kept**: each is what the next result spells. -/
theorem putResults_spells_iff :
    (∀ k d, ds[k]? = some d → Spells (putResults entries count ds) (sizeofDirent * (count + k) + 8) d.name) ↔
      ∀ k d e, ds[k]? = some d → ds[k + 1]? = some e → d.SpelledBy e := by
  have hplace (k : Nat) : sizeofDirent * (count + k) + 8 = sizeofDirent * (count + (k + 1)) := by
    rw [← Nat.add_assoc, Nat.mul_succ]
    rfl
  constructor
  · intro h k d e hd he
    have hnext := @spells_header _ (sizeofDirent * (count + (k + 1))) _ (fun i hi => putResults_header he hi) (h (k + 1) e he)
    have hkept := h k d hd
    rw [hplace] at hkept
    exact hnext.unique hkept (zero_notMem_untilZero _) zero_notMem_stringAt
  · intro h
    -- from the last result down
    suffices hdown : ∀ left k d, k + left + 1 = ds.length → ds[k]? = some d →
        Spells (putResults entries count ds) (sizeofDirent * (count + k) + 8) d.name by
      intro k d hd
      have hk : k < ds.length := (List.getElem?_eq_some_iff.mp hd).1
      exact hdown (ds.length - k - 1) k d (by omega) hd
    intro left
    induction left with
    | zero =>
      intro k d hk hd
      have hsplit : ds = ds.take k ++ [d] := by
        obtain ⟨hlt, rfl⟩ := List.getElem?_eq_some_iff.mp hd
        rw [List.take_append_getElem, List.take_of_length_le (by omega)]
      have hlast := @putResults_last entries count d (ds.take k)
      rwa [← hsplit, List.length_take_of_le (by omega)] at hlast
    | succ left ih =>
      intro k d hk hd
      have he : ds[k + 1]? = some ds[k + 1] := List.getElem?_eq_getElem (by omega)
      have hnext := @spells_header _ (sizeofDirent * (count + (k + 1))) _ (fun i hi => putResults_header he hi)
        (ih (k + 1) _ (by omega) he)
      rwa [h k d _ hd he, ← hplace] at hnext

/-! ## The scan of a block -/

/-- The bytes of a name that `strncpy` reads are inside the block. -/
def NameRead (block : Mem) (a n : Nat) : Prop := ∀ i, i < n → i ≤ (stringAt block a n).length → a + i < blockSize

theorem readName_yields : Yields (readName block a n) (NameRead block a n) fun s => s = stringAt block a n := by
  unfold NameRead
  induction n generalizing a with
  | zero => exact .done (fun i hi => absurd hi (Nat.not_lt_zero i)) rfl
  | succ n ih =>
    rw [readName, stringAt]
    refine .guard (fun hin h => Nat.not_lt.mpr hin (h 0 (Nat.succ_pos n) (Nat.zero_le _))) fun hin => ?_
    refine .branch (fun hzero => ?_) fun hzero => ?_
    · rw [if_pos hzero]
      refine .done (fun i _ hi => ?_) rfl
      rw [List.length_nil] at hi
      omega
    rw [if_neg hzero]
    cases hrest : readName block (a + 1) n with
    | none =>
      refine .fault fun h => ih.not_inside hrest fun i hi hlen => ?_
      have hread := h (i + 1) (by omega) (by rw [List.length_cons]; omega)
      omega
    | some s =>
      refine .done (fun i hi hlen => ?_) (congrArg (block a :: ·) (ih.result s hrest))
      cases i with
      | zero => omega
      | succ i =>
        have hread := ih.inside hrest i (by omega) (by rw [List.length_cons] at hlen; omega)
        omega

/-- From one record to the next one, with one result less left. -/
def ReadNext (block : Mem) (x next : Nat × Nat) : Prop :=
  x.1 < blockSize ∧ direntInodeNo block x.1 ≠ 0 ∧ direntRecLen block x.1 ≠ 0 ∧ 1 < x.2 ∧
    next = (x.1 + direntRecLen block x.1, x.2 - 1)

/-- What is read of a record, as far as it is read, is inside the block. -/
structure ReadInside (block : Mem) (off : Nat) : Prop where
  inodeNo : off + 4 ≤ blockSize
  recLen : direntInodeNo block off ≠ 0 → off + 6 ≤ blockSize
  header : direntInodeNo block off ≠ 0 → direntRecLen block off ≠ 0 → off + sizeofDirent ≤ blockSize
  name : direntInodeNo block off ≠ 0 → direntRecLen block off ≠ 0 → NameRead block (off + 8) (direntNameLen block off)

def ReadCleanFrom (block : Mem) : Nat × Nat → Prop :=
  Throughout (ReadNext block) fun x => x.1 < blockSize → ReadInside block x.1

/-- Every record that a scan for so many results comes to is read inside the block. -/
def ReadClean (block : Mem) (left : Nat) : Prop := ReadCleanFrom block (0, left)

/-- The result count and the results after these records. -/
def withResults (entries : Mem) (count : Nat) (ds : List DirRecord) : Nat × Mem :=
  (count + ds.length, putResults entries count ds)

theorem withResults_cons :
    withResults entries count (d :: ds) = withResults (putResult entries count d.block d.off d.name) (count + 1) ds := by
  unfold withResults
  rw [putResults, List.length_cons, Nat.add_assoc, Nat.add_comm 1]

theorem readdirScan_yields {left : Nat} (hfuel : blockSize < fuel + min off blockSize) (hpos : 0 < left)
    (hleft : (count : Int) + left = maxEntries) :
    Yields (readdirScan block maxEntries fuel off count entries) (ReadCleanFrom block (off, left)) fun v =>
      v = withResults entries count ((recordsFrom block fuel off).take left) := by
  unfold ReadCleanFrom
  induction fuel generalizing off left count entries with
  | zero => omega
  | succ fuel ih =>
    rw [readdirScan]
    refine .branch (fun hoff => ?_) fun hoff => ?_
    · have hstop : ∀ next, ¬ReadNext block (off, left) next := fun next h => Nat.not_lt.mpr hoff h.1
      rw [throughout_stop hstop, recordsFrom, if_pos (Or.inl hoff), List.take_nil]
      exact .done (fun h => absurd hoff (Nat.not_le.mpr h)) rfl
    have hlt : off < blockSize := Nat.lt_of_not_le hoff
    refine .guard (fun hino h => Nat.not_le.mpr hino (h.head hlt).inodeNo) fun hino => ?_
    refine .branch (fun hzero => ?_) fun hzero => ?_
    · have hstop : ∀ next, ¬ReadNext block (off, left) next := fun next h => h.2.1 hzero
      have hinside : ReadInside block off :=
        ⟨Nat.le_of_not_lt hino, fun h => absurd hzero h, fun h => absurd hzero h, fun h => absurd hzero h⟩
      rw [throughout_stop hstop, recordsFrom, if_pos (Or.inr (Or.inl hzero)), List.take_nil]
      exact .done (fun _ => hinside) rfl
    refine .guard (fun hrec h => Nat.not_le.mpr hrec ((h.head hlt).recLen hzero)) fun hrec => ?_
    refine .branch (fun hlen => ?_) fun hlen => ?_
    · have hstop : ∀ next, ¬ReadNext block (off, left) next := fun next h => h.2.2.1 hlen
      have hinside : ReadInside block off :=
        ⟨Nat.le_of_not_lt hino, fun _ => Nat.le_of_not_lt hrec, fun _ h => absurd hlen h, fun _ h => absurd hlen h⟩
      rw [throughout_stop hstop, recordsFrom, if_pos (Or.inr (Or.inr hlen)), List.take_nil]
      exact .done (fun _ => hinside) rfl
    refine .guard (fun hheader h => Nat.not_le.mpr hheader ((h.head hlt).header hzero hlen)) fun hheader => ?_
    cases hname : readName block (off + 8) (direntNameLen block off) with
    | none => exact .fault fun h => readName_yields.not_inside hname ((h.head hlt).name hzero hlen)
    | some s =>
      obtain rfl := readName_yields.result s hname
      have hinside : ReadInside block off :=
        ⟨Nat.le_of_not_lt hino, fun _ => Nat.le_of_not_lt hrec, fun _ _ => Nat.le_of_not_lt hheader,
          fun _ _ => readName_yields.inside hname⟩
      rw [recordsFrom, if_neg (by simp [hoff, hzero, hlen])]
      refine .branch (fun hfull => ?_) fun hfull => ?_
      · have hone : left = 1 := by omega
        have hstop : ∀ next, ¬ReadNext block (off, left) next := fun next h => absurd h.2.2.2.1 (by omega)
        rw [throughout_stop hstop, hone]
        exact .done (fun _ => hinside) rfl
      have hnext : ReadNext block (off, left) (off + direntRecLen block off, left - 1) :=
        ⟨hlt, hzero, hlen, by omega, rfl⟩
      obtain ⟨left, rfl⟩ : ∃ l, left = l + 1 := ⟨left - 1, by omega⟩
      have hrest := @ih (putResult entries count block off (stringAt block (off + 8) (direntNameLen block off)))
        (off + direntRecLen block off) (count + 1) left (by omega) (by omega) (by omega)
      rw [throughout_next hnext fun c h => h.2.2.2.2, List.take_succ_cons, withResults_cons]
      exact ⟨hrest.isSome_iff.trans (and_iff_right fun _ => hinside).symm, hrest.result⟩

/-! ## The scan of a directory -/

variable {turns j m : Nat}

theorem dirRecords_succ : dirRecords fs r (turns + 1) = dirRecords fs r turns ++ blockRecords fs r (turns % 2 ^ 32) := by
  simp [dirRecords, List.range_succ]

theorem dirRecords_grows (h : i ≤ j) : dirRecords fs r i <+: dirRecords fs r j := by
  induction j, h using Nat.le_induction with
  | base => exact List.prefix_rfl
  | succ j _ ih =>
    rw [dirRecords_succ]
    exact ih.trans (List.prefix_append _ _)

theorem length_dirRecords_le (h : i ≤ j) : (dirRecords fs r i).length ≤ (dirRecords fs r j).length :=
  (dirRecords_grows h).length_le

theorem getElem?_dirRecords (h : i ≤ j) (hd : (dirRecords fs r i)[k]? = some d) : (dirRecords fs r j)[k]? = some d := by
  obtain ⟨rest, hrest⟩ : dirRecords fs r i <+: dirRecords fs r j := dirRecords_grows h
  rw [← hrest, List.getElem?_append_left (List.getElem?_eq_some_iff.mp hd).1]
  exact hd

theorem Listed.unique (hd : Listed fs r k d) (he : Listed fs r k e) : d = e := by
  obtain ⟨i, -, hi⟩ := hd
  obtain ⟨j, -, hj⟩ := he
  have hi' := getElem?_dirRecords (Nat.le_max_left i j) hi
  have hj' := getElem?_dirRecords (Nat.le_max_right i j) hj
  exact Option.some.inj (hi'.symm.trans hj')

/-- The scan for `m` results is at its end after so many turns. -/
def Stops (fs : Fs) (r : InodeRef) (m turns : Nat) : Prop :=
  diskBlocks (fs.disk r) ≤ turns % 2 ^ 32 ∨ m ≤ (dirRecords fs r turns).length

/-- The block of a turn, if there is one, is read inside, for as many results as are left. -/
def TurnClean (fs : Fs) (r : InodeRef) (m turns : Nat) : Prop :=
  inodeGetBlock fs r (turns % 2 ^ 32) ≠ 0 →
    ReadClean (dirContents fs r (turns % 2 ^ 32)) (m - (dirRecords fs r turns).length)

theorem hasTurns_iff : HasTurns fs r turns ↔ ∀ i, i < turns → i % 2 ^ 32 < diskBlocks (fs.disk r) := by
  unfold HasTurns
  constructor
  · intro h i hi
    omega
  · intro h
    by_contra hfew
    have hback := h (diskBlocks (fs.disk r)) (by omega)
    omega

/-- What is listed is among the results, up to their number. -/
theorem Listed.getElem? (hstop : Stops fs r m turns) (hturns : HasTurns fs r turns) (hd : Listed fs r k d) (hk : k < m) :
    (dirRecords fs r turns)[k]? = some d := by
  obtain ⟨i, hi, hd⟩ := hd
  obtain hend | hfull := hstop
  · refine getElem?_dirRecords ?_ hd
    unfold HasTurns at hi hturns
    omega
  · have hsome : (dirRecords fs r turns)[k]? = some (dirRecords fs r turns)[k] := List.getElem?_eq_getElem (by omega)
    rw [hsome, Listed.unique ⟨turns, hturns, hsome⟩ ⟨i, hi, hd⟩]

/-- The result count and the results after so many turns. -/
def turnResults (fs : Fs) (r : InodeRef) (m : Nat) (entries : Mem) (turns : Nat) : Nat × Mem :=
  withResults entries 0 ((dirRecords fs r turns).take m)

/-- What is left of a scan after so many turns. -/
def readdirFrom (fs : Fs) (r : InodeRef) (maxEntries : Int) (entries : Mem) (fuel turns : Nat) : Option (Nat × Mem) :=
  readdirBlocks fs r maxEntries fuel (turns % 2 ^ 32) (turnResults fs r maxEntries.toNat entries turns).1
    (turnResults fs r maxEntries.toNat entries turns).2

theorem fst_turnResults : (turnResults fs r m entries turns).1 = min m (dirRecords fs r turns).length := by
  simp [turnResults, withResults]

theorem readdirFrom_stop (hstop : Stops fs r maxEntries.toNat turns) :
    readdirFrom fs r maxEntries entries (fuel + 1) turns = some (turnResults fs r maxEntries.toNat entries turns) := by
  unfold Stops at hstop
  rw [readdirFrom, readdirBlocks, fst_turnResults, if_neg (by omega), ← fst_turnResults]

/-- The results after one turn more. -/
theorem turnResults_succ (hroom : (dirRecords fs r turns).length < m) :
    turnResults fs r m entries (turns + 1) =
      withResults (turnResults fs r m entries turns).2 (turnResults fs r m entries turns).1
        ((blockRecords fs r (turns % 2 ^ 32)).take (m - (dirRecords fs r turns).length)) := by
  unfold turnResults withResults
  rw [dirRecords_succ, List.take_append, List.take_of_length_le (Nat.le_of_lt hroom), putResults_append, List.length_append]
  simp

/-- The scan of the block of a turn. -/
theorem turnScan_yields (hroom : (dirRecords fs r turns).length < maxEntries.toNat) :
    Yields (readdirScan (dirContents fs r (turns % 2 ^ 32)) maxEntries (blockSize + 1) 0
        (turnResults fs r maxEntries.toNat entries turns).1 (turnResults fs r maxEntries.toNat entries turns).2)
      (ReadClean (dirContents fs r (turns % 2 ^ 32)) (maxEntries.toNat - (dirRecords fs r turns).length)) fun v =>
        v = withResults (turnResults fs r maxEntries.toNat entries turns).2 (turnResults fs r maxEntries.toNat entries turns).1
          ((recordsFrom (dirContents fs r (turns % 2 ^ 32)) (blockSize + 1) 0).take
            (maxEntries.toNat - (dirRecords fs r turns).length)) :=
  readdirScan_yields (by omega) (by omega) (by rw [fst_turnResults]; omega)

/-- One turn of the scan. -/
theorem readdirFrom_turn (hgo : ¬Stops fs r maxEntries.toNat turns) (hclean : TurnClean fs r maxEntries.toNat turns) :
    readdirFrom fs r maxEntries entries (fuel + 1) turns = readdirFrom fs r maxEntries entries fuel (turns + 1) := by
  obtain ⟨hblock, hroom⟩ := not_or.mp hgo
  have hroom := Nat.lt_of_not_le hroom
  have hsucc := @turnResults_succ entries fs r turns _ hroom
  have hwrap : (turns % 2 ^ 32 + 1) % 2 ^ 32 = (turns + 1) % 2 ^ 32 := by omega
  rw [readdirFrom, readdirBlocks, if_pos (by rw [fst_turnResults]; omega), readdirFrom, hwrap, hsucc]
  dsimp only
  by_cases haddr : inodeGetBlock fs r (turns % 2 ^ 32) = 0
  · rw [if_pos haddr, blockRecords, if_pos haddr, List.take_nil]
    rfl
  · rw [if_neg haddr, blockRecords, if_neg haddr]
    have hscan := @turnScan_yields entries maxEntries fs r turns hroom
    obtain ⟨v, hv⟩ := Option.isSome_iff_exists.mp (hscan.isSome_iff.mpr (hclean haddr))
    rw [← hscan.result v hv]
    rw [dirContents] at hv
    rw [hv]

theorem readdirFrom_fault (hgo : ¬Stops fs r maxEntries.toNat turns) (hclean : ¬TurnClean fs r maxEntries.toNat turns) :
    readdirFrom fs r maxEntries entries (fuel + 1) turns = none := by
  obtain ⟨hblock, hroom⟩ := not_or.mp hgo
  have hroom := Nat.lt_of_not_le hroom
  obtain ⟨haddr, hunclean⟩ := Classical.not_imp.mp hclean
  have hscan := @turnScan_yields entries maxEntries fs r turns hroom
  have hfault := Option.not_isSome_iff_eq_none.mp (mt hscan.isSome_iff.mp hunclean)
  rw [dirContents] at hfault
  rw [readdirFrom, readdirBlocks, if_pos (by rw [fst_turnResults]; omega)]
  dsimp only
  rw [if_neg haddr, hfault]

/-- **A scan ends after the first turns that stop it**, if every turn before is clean. -/
theorem readdirFrom_eq_some {v : Nat × Mem} : (∃ fuel, readdirFrom fs r maxEntries entries fuel i = some v) ↔
    ∃ j, i ≤ j ∧ Stops fs r maxEntries.toNat j ∧
      (∀ t, i ≤ t → t < j → ¬Stops fs r maxEntries.toNat t ∧ TurnClean fs r maxEntries.toNat t) ∧
      v = turnResults fs r maxEntries.toNat entries j := by
  constructor
  · rintro ⟨fuel, hv⟩
    induction fuel generalizing i with
    | zero => simp [readdirFrom, readdirBlocks] at hv
    | succ fuel ih =>
      by_cases hstop : Stops fs r maxEntries.toNat i
      · rw [readdirFrom_stop hstop] at hv
        exact ⟨i, le_rfl, hstop, fun t h h' => absurd h (Nat.not_le.mpr h'), (Option.some.inj hv).symm⟩
      · by_cases hclean : TurnClean fs r maxEntries.toNat i
        · rw [readdirFrom_turn hstop hclean] at hv
          obtain ⟨j, hj, hend, hbefore, hres⟩ := ih hv
          refine ⟨j, by omega, hend, ?_, hres⟩
          intro t ht htj
          obtain rfl | hlt := Nat.eq_or_lt_of_le ht
          · exact ⟨hstop, hclean⟩
          · exact hbefore t hlt htj
        · rw [readdirFrom_fault hstop hclean] at hv
          cases hv
  · rintro ⟨j, hj, hend, hbefore, rfl⟩
    refine ⟨j - i + 1, ?_⟩
    induction hleft : j - i generalizing i with
    | zero =>
      obtain rfl : i = j := by omega
      exact readdirFrom_stop hend
    | succ left ih =>
      obtain ⟨hstop, hclean⟩ := hbefore i le_rfl (by omega)
      rw [readdirFrom_turn hstop hclean]
      exact ih (by omega) (fun t ht htj => hbefore t (by omega) htj) (by omega)

/-! ## Where the scan ends -/

/-- The blocks are fewer than the block number can count, or no results are asked for, or there
    is a record to fill them with. -/
def Ends (fs : Fs) (r : InodeRef) (m : Nat) : Prop :=
  diskBlocks (fs.disk r) < 2 ^ 32 ∨ m = 0 ∨ ∃ b, b < 2 ^ 32 ∧ blockRecords fs r b ≠ []

theorem length_dirRecords_round (hb : b < 2 ^ 32) (hne : blockRecords fs r b ≠ []) :
    (dirRecords fs r i).length < (dirRecords fs r (i + 2 ^ 32)).length := by
  -- the turn within the round that comes to block `b`
  obtain ⟨t, hi, hlt, hmod⟩ : ∃ t, i ≤ t ∧ t + 1 ≤ i + 2 ^ 32 ∧ t % 2 ^ 32 = b :=
    ⟨i + (b + 2 ^ 32 - i % 2 ^ 32) % 2 ^ 32, by omega, by omega, by omega⟩
  have hmore : (dirRecords fs r (t + 1)).length = (dirRecords fs r t).length + (blockRecords fs r b).length := by
    rw [dirRecords_succ, hmod, List.length_append]
  have hpos := List.length_pos_iff.mpr hne
  have hbefore : (dirRecords fs r i).length ≤ (dirRecords fs r t).length := length_dirRecords_le hi
  have hafter : (dirRecords fs r (t + 1)).length ≤ (dirRecords fs r (i + 2 ^ 32)).length := length_dirRecords_le hlt
  omega

theorem exists_stops_iff : (∃ i, Stops fs r m i) ↔ Ends fs r m := by
  unfold Ends
  constructor
  · rintro ⟨i, hend | hfull⟩
    · left
      omega
    · by_contra hnone
      push Not at hnone
      obtain ⟨-, hm, hempty⟩ := hnone
      have hnil : dirRecords fs r i = [] :=
        List.flatMap_eq_nil_iff.mpr fun t _ => hempty (t % 2 ^ 32) (Nat.mod_lt t (by decide))
      rw [hnil, List.length_nil] at hfull
      omega
  · rintro (hfew | rfl | ⟨b, hb, hne⟩)
    · exact ⟨diskBlocks (fs.disk r), Or.inl (by rw [Nat.mod_eq_of_lt hfew])⟩
    · exact ⟨0, Or.inr (Nat.zero_le _)⟩
    · refine ⟨m * 2 ^ 32, Or.inr ?_⟩
      induction m with
      | zero => exact Nat.zero_le _
      | succ m ih =>
        have hround := length_dirRecords_round (i := m * 2 ^ 32) hb hne
        rw [Nat.succ_mul]
        omega

/-! ## What the call does -/

/-- At most so many results are written, and each holds the record it stands for. -/
structure KeepsRecords (fs : Fs) (fd maxEntries : Int) (out : Int × Mem) : Prop where
  count : out.1 ≤ maxEntries.toNat
  kept : ∀ k : Nat, (k : Int) < out.1 →
    ∃ r d, openDir fs fd = some r ∧ Listed fs r k d ∧ HoldsRecord out.2 k d

/-- Every block the scan comes to is read inside, the scan ends, and a record that is followed by
    another one has the name that the other one spells. -/
structure ReaddirClean (fs : Fs) (r : InodeRef) (m : Nat) : Prop where
  ends : Ends fs r m
  inside : ∀ turns, HasTurns fs r (turns + 1) → (dirRecords fs r turns).length < m → TurnClean fs r m turns
  spelled : ∀ k d e, k + 1 < m → Listed fs r k d → Listed fs r (k + 1) e → d.SpelledBy e

/-- A result holds its record exactly where it holds the name. -/
theorem holdsRecord_iff (hd : ds[k]? = some d) :
    HoldsRecord (putResults entries 0 ds) k d ↔ Spells (putResults entries 0 ds) (sizeofDirent * k + 8) d.name := by
  have hheader (i : Nat) (hi : i < sizeofDirent) : putResults entries 0 ds (sizeofDirent * k + i) = d.block (d.off + i) := by
    have h := @putResults_header entries 0 i k d ds hd hi
    rwa [Nat.zero_add] at h
  constructor
  · intro h
    exact h.name
  · intro h
    refine ⟨loadBytes_eq fun i hi => ?_, loadBytes_eq fun i hi => ?_, h⟩
    · exact hheader i (Nat.lt_trans hi (by decide))
    · rw [Nat.add_assoc, Nat.add_assoc]
      exact hheader (7 + i) (Nat.add_lt_add_left hi 7)

theorem listed_iff (hstop : Stops fs r m turns) (hturns : HasTurns fs r turns) :
    ((dirRecords fs r turns).take m)[k]? = some d ↔ k < m ∧ Listed fs r k d := by
  rw [List.getElem?_take]
  constructor
  · intro h
    by_cases hk : k < m
    · rw [if_pos hk] at h
      exact ⟨hk, turns, hturns, h⟩
    · rw [if_neg hk] at h
      cases h
  · rintro ⟨hk, hl⟩
    rw [if_pos hk]
    exact hl.getElem? hstop hturns hk

/-- The results of a scan hold their records exactly where the names are spelled. -/
theorem keeps_iff (hstop : Stops fs r maxEntries.toNat turns) (hturns : HasTurns fs r turns) {fd : Int}
    (hdir : openDir fs fd = some r) :
    KeepsRecords fs fd maxEntries
        (((turnResults fs r maxEntries.toNat entries turns).1 : Int), (turnResults fs r maxEntries.toNat entries turns).2) ↔
      ∀ k d e, k + 1 < maxEntries.toNat → Listed fs r k d → Listed fs r (k + 1) e → d.SpelledBy e := by
  have hkept : KeepsRecords fs fd maxEntries
        (((turnResults fs r maxEntries.toNat entries turns).1 : Int), (turnResults fs r maxEntries.toNat entries turns).2) ↔
      ∀ k d, ((dirRecords fs r turns).take maxEntries.toNat)[k]? = some d →
        HoldsRecord (turnResults fs r maxEntries.toNat entries turns).2 k d := by
    constructor
    · intro h k d hd
      have hk := (List.getElem?_eq_some_iff.mp hd).1
      obtain ⟨r', d', hdir', hl, hholds⟩ := h.kept k (by dsimp only [turnResults, withResults]; omega)
      obtain rfl := Option.some.inj (hdir.symm.trans hdir')
      rwa [((listed_iff hstop hturns).mp hd).2.unique hl]
    · intro h
      constructor
      · dsimp only [turnResults, withResults]
        have hle := List.length_take_le maxEntries.toNat (dirRecords fs r turns)
        omega
      · intro k hk
        dsimp only [turnResults, withResults] at hk
        have hd := List.getElem?_eq_getElem (l := (dirRecords fs r turns).take maxEntries.toNat) (i := k) (by omega)
        exact ⟨r, _, hdir, ((listed_iff hstop hturns).mp hd).2, h k _ hd⟩
  have hspelled := @putResults_spells_iff entries 0 ((dirRecords fs r turns).take maxEntries.toNat)
  simp only [Nat.zero_add] at hspelled
  have hholds : (∀ k d, ((dirRecords fs r turns).take maxEntries.toNat)[k]? = some d →
      HoldsRecord (turnResults fs r maxEntries.toNat entries turns).2 k d) ↔ _ :=
    forall₃_congr fun k d hd => holdsRecord_iff hd
  rw [hkept, hholds, hspelled]
  simp only [listed_iff hstop hturns]
  constructor
  · intro h k d e hk hd he
    exact h k d e ⟨by omega, hd⟩ ⟨hk, he⟩
  · rintro h k d e ⟨-, hd⟩ ⟨hk, he⟩
    exact h k d e hk hd he

/-- **What `crfs_readdir` does right**: it returns with every result as it was written exactly
    where the directory is clean for it. -/
theorem crfsReaddir_keeps {fd : Int} :
    (∃ fuel out, crfsReaddir fs fd entries maxEntries fuel = some out ∧ KeepsRecords fs fd maxEntries out) ↔
      ∀ r, openDir fs fd = some r → ReaddirClean fs r maxEntries.toNat := by
  cases hdir : openDir fs fd with
  | none =>
    refine iff_of_true ⟨0, (-1, entries), by rw [crfsReaddir, hdir], ?_, ?_⟩ (by simp)
    · dsimp only
      omega
    · intro k hk
      dsimp only at hk
      omega
  | some r =>
    have hstart (fuel : Nat) : readdirBlocks fs r maxEntries fuel 0 0 entries = readdirFrom fs r maxEntries entries fuel 0 := by
      unfold readdirFrom turnResults
      rw [show dirRecords fs r 0 = [] from rfl, List.take_nil]
      rfl
    simp only [crfsReaddir, hdir, hstart, Option.map_eq_some_iff]
    constructor
    · rintro ⟨fuel, out, ⟨v, hv, rfl⟩, hkeeps⟩ r' hr'
      obtain rfl := Option.some.inj hr'
      obtain ⟨j, -, hstop, hbefore, rfl⟩ := readdirFrom_eq_some.mp ⟨fuel, hv⟩
      have hturns : HasTurns fs r j := hasTurns_iff.mpr fun t ht => by
        have hgo := (hbefore t (Nat.zero_le t) ht).1
        exact Nat.lt_of_not_le fun h => hgo (Or.inl h)
      refine ⟨exists_stops_iff.mp ⟨j, hstop⟩, ?_, (keeps_iff hstop hturns hdir).mp hkeeps⟩
      intro t ht hroom
      refine (hbefore t (Nat.zero_le t) ?_).2
      by_contra hlate
      obtain hend | hfull := hstop
      · unfold HasTurns at ht
        omega
      · have hle : (dirRecords fs r j).length ≤ (dirRecords fs r t).length :=
          length_dirRecords_le (Nat.le_of_not_lt hlate)
        omega
    · intro hclean
      obtain ⟨hends, hinside, hspelled⟩ := hclean r rfl
      -- the first turn at which it stops
      have hex := exists_stops_iff.mpr hends
      classical
      have hstop := Nat.find_spec hex
      have hgo (t : Nat) (ht : t < Nat.find hex) := Nat.find_min hex ht
      have hturns : HasTurns fs r (Nat.find hex) := hasTurns_iff.mpr fun t ht =>
        Nat.lt_of_not_le fun h => hgo t ht (Or.inl h)
      have hbefore : ∀ t, 0 ≤ t → t < Nat.find hex →
          ¬Stops fs r maxEntries.toNat t ∧ TurnClean fs r maxEntries.toNat t := by
        intro t _ ht
        have hroom := Nat.lt_of_not_le fun h => hgo t ht (Or.inr h)
        exact ⟨hgo t ht, hinside t (by unfold HasTurns at hturns ⊢; omega) hroom⟩
      obtain ⟨fuel, hv⟩ : ∃ fuel, readdirFrom fs r maxEntries entries fuel 0 =
          some (turnResults fs r maxEntries.toNat entries (Nat.find hex)) :=
        readdirFrom_eq_some.mpr ⟨Nat.find hex, Nat.zero_le _, hstop, hbefore, rfl⟩
      exact ⟨fuel, _, ⟨_, hv, rfl⟩, (keeps_iff hstop hturns hdir).mpr hspelled⟩

/-- **The three scans of a directory**: each ends, stays inside the block buffer and, where it has
    results, keeps them, exactly where the blocks it comes to are clean for it. -/
theorem dirScans_iff (fs : Fs) (r : InodeRef) (name : List (BitVec 8)) (inodeNo type : Nat) (fd : Int) (entries : Mem)
    (maxEntries : Int) :
    ((crfsDirLookup fs r name).isSome ↔ LookupClean fs r name) ∧
    ((crfsDirAdd fs r name inodeNo type).isSome ↔ AddClean fs r name.length) ∧
    ((∃ fuel out, crfsReaddir fs fd entries maxEntries fuel = some out ∧ KeepsRecords fs fd maxEntries out) ↔
      ∀ r, openDir fs fd = some r → ReaddirClean fs r maxEntries.toNat) :=
  ⟨crfsDirLookup_isSome, crfsDirAdd_isSome, crfsReaddir_keeps⟩

/-- A block with the names "a" and "b", and a third record whose length leads to the last three bytes. -/
def tornBlock : Mem :=
  let block := putDirent zeroBuf 0 5 16 1 typeReg [0x61]
  let block := putDirent block 16 6 16 1 typeReg [0x62]
  putDirent block 32 7 4061 1 typeReg [0x63]

/-- A directory of that block, open as file 0. -/
def tornFs : Fs :=
  let disk := store32 zeroBuf 4 typeDir
  let disk := setDiskBlocks disk 1
  let disk := setDiskDirect disk 0 blockSize
  { bdev :=
      { size := 2 * blockSize
        bytes := copyBytes zeroBuf blockSize tornBlock 0 blockSize
        writes := 0
        writeFails := fun _ => false }
    sb := zeroBuf
    segBitmap := zeroBuf
    nextSeg := 5
    blockInSeg := 0
    currentSeg := 0
    inodes := fun _ => { inodeNo := rootIno, refCount := 1, dirty := false, disk := disk }
    inodeCount := 1
    inodeCache := fun _ => []
    files := fun _ => { inUse := true, flags := 0, offset := 0, inode := some 0 }
    kmallocs := 0
    oom := fun _ => false
    unset := 0 }

/-- Looking "x" up there and adding it read past the end of the block, and of the two results of
    `crfs_readdir` the first has not kept its name. -/
theorem tornFs_scans : ¬(crfsDirLookup tornFs 0 [0x78]).isSome ∧ ¬(crfsDirAdd tornFs 0 [0x78] 9 typeReg).isSome ∧
    ¬∃ fuel out, crfsReaddir tornFs 0 zeroBuf 2 fuel = some out ∧ KeepsRecords tornFs 0 2 out := by
  refine ⟨by decide +kernel, by decide +kernel, ?_⟩
  intro h
  have hclean := crfsReaddir_keeps.mp h 0 rfl
  have hturns : HasTurns tornFs 0 1 := Or.inl (by decide +kernel)
  have hspelled := hclean.spelled 0 ⟨dirContents tornFs 0 0, 0⟩ ⟨dirContents tornFs 0 0, 16⟩ (by decide)
    ⟨1, hturns, rfl⟩ ⟨1, hturns, rfl⟩
  exact absurd hspelled (by decide +kernel)

end Crimson.Crfs
