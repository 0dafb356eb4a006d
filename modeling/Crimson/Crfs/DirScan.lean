import Crimson.Crfs.Volume
import Crimson.Lib.Walk

/-!
# Directory blocks: what a scan needs of them

The scans of `crfs_dir_lookup` and `crfs_dir_add` go from record to record by the length each
record gives, and test none of it. Here each loop has its walk, stated apart from it: where it
comes to (`SearchNext`, `SlotNext`, `LookupNext`, `AddNext`), and what has to be inside the
block there (`SearchInside`, `SlotInside`). A call has a result exactly when the whole walk is
inside and the walk ends (`isSome_crfsDirLookup`, `isSome_crfsDirAdd`).
-/

set_option autoImplicit false

namespace Crimson.Crfs

open Crimson.Lib Crimson.Mm

variable {block : Mem} {name : List (BitVec 8)} {a n i off fuel len b : Nat} {fs : Fs} {r : InodeRef}

/-! ## Names -/

/-- `strncmp` goes on from one character of the name at `a` to the next. -/
def NameNext (block : Mem) (a n : Nat) (name : List (BitVec 8)) (i j : Nat) : Prop :=
  i < n ∧ block (a + i) = name.getD i 0 ∧ block (a + i) ≠ 0 ∧ j = i + 1

def NameInsideFrom (block : Mem) (a n : Nat) (name : List (BitVec 8)) : Nat → Prop :=
  Throughout (NameNext block a n name) fun i => i < n → a + i < blockSize

def SameNameFrom (block : Mem) (a n : Nat) (name : List (BitVec 8)) : Nat → Prop :=
  Throughout (NameNext block a n name) fun i => i < n → block (a + i) = name.getD i 0

theorem nameMatches_yields : Yields (nameMatches block a name n i) (NameInsideFrom block a (i + n) name i) fun v =>
    v = true ↔ SameNameFrom block a (i + n) name i := by
  unfold NameInsideFrom SameNameFrom
  induction n generalizing i with
  | zero =>
    have hstop : ∀ j, ¬NameNext block a (i + 0) name i j := fun j h => Nat.lt_irrefl i h.1
    rw [nameMatches, throughout_stop hstop, throughout_stop hstop]
    exact .done (fun h => absurd h (Nat.lt_irrefl i)) (by simp)
  | succ n ih =>
    have hlt : i < i + (n + 1) := by omega
    rw [nameMatches]
    refine .guard (fun hin h => Nat.not_lt.mpr hin (h.head hlt)) fun hin => ?_
    have hin' : a + i < blockSize := Nat.lt_of_not_le hin
    refine .branch (fun hdiff => ?_) fun hsame => ?_
    · have hstop : ∀ j, ¬NameNext block a (i + (n + 1)) name i j := fun j h => hdiff h.2.1
      rw [throughout_stop hstop, throughout_stop hstop]
      exact .done (fun _ => hin') (iff_of_false (by simp) fun h => hdiff (h hlt))
    have heq : block (a + i) = name.getD i 0 := not_not.mp hsame
    refine .branch (fun hzero => ?_) fun hzero => ?_
    · have hstop : ∀ j, ¬NameNext block a (i + (n + 1)) name i j := fun j h => h.2.2.1 hzero
      rw [throughout_stop hstop, throughout_stop hstop]
      exact .done (fun _ => hin') (iff_of_true rfl fun _ => heq)
    have hnext : NameNext block a (i + (n + 1)) name i (i + 1) := ⟨hlt, heq, hzero, rfl⟩
    have hsum : i + (n + 1) = i + 1 + n := by omega
    rw [throughout_next hnext fun j h => h.2.2.2, throughout_next hnext fun j h => h.2.2.2, hsum]
    simpa [hin', heq] using @ih (i + 1)

/-! ## Looking a name up in a block -/

/-- The bytes of the name of a record that `strncmp` compares are inside the block. -/
def NameInside (block : Mem) (name : List (BitVec 8)) (off : Nat) : Prop :=
  NameInsideFrom block (off + 8) (direntNameLen block off) name 0

/-- `strncmp` takes the name of a record for `name`. -/
def SameName (block : Mem) (name : List (BitVec 8)) (off : Nat) : Prop :=
  SameNameFrom block (off + 8) (direntNameLen block off) name 0

/-- From one record to the next one. -/
def SearchNext (block : Mem) (name : List (BitVec 8)) (off next : Nat) : Prop :=
  off < blockSize ∧ direntInodeNo block off ≠ 0 ∧ direntRecLen block off ≠ 0 ∧ ¬SameName block name off ∧
    next = off + direntRecLen block off

/-- What is read of a record, as far as it is read, is inside the block. -/
structure SearchInside (block : Mem) (name : List (BitVec 8)) (off : Nat) : Prop where
  inodeNo : off + 4 ≤ blockSize
  recLen : direntInodeNo block off ≠ 0 → off + 6 ≤ blockSize
  nameLen : direntInodeNo block off ≠ 0 → direntRecLen block off ≠ 0 → off + 7 ≤ blockSize
  name : direntInodeNo block off ≠ 0 → direntRecLen block off ≠ 0 → NameInside block name off

def SearchCleanFrom (block : Mem) (name : List (BitVec 8)) : Nat → Prop :=
  Throughout (SearchNext block name) fun off => off < blockSize → SearchInside block name off

def NotListedFrom (block : Mem) (name : List (BitVec 8)) : Nat → Prop :=
  Throughout (SearchNext block name) fun off =>
    off < blockSize → direntInodeNo block off ≠ 0 → direntRecLen block off ≠ 0 → ¬SameName block name off

/-- Every record the search comes to is read inside the block. -/
def SearchClean (block : Mem) (name : List (BitVec 8)) : Prop := SearchCleanFrom block name 0

/-- No record the search comes to has the name. -/
def NotListed (block : Mem) (name : List (BitVec 8)) : Prop := NotListedFrom block name 0

theorem compare_yields :
    Yields (nameMatches block (off + 8) name (direntNameLen block off) 0) (NameInside block name off) fun v =>
      v = true ↔ SameName block name off := by
  have h := @nameMatches_yields block name (off + 8) (direntNameLen block off) 0
  rwa [Nat.zero_add] at h

theorem dirScan_yields (hfuel : blockSize < fuel + min off blockSize) :
    Yields (dirScan block name fuel off) (SearchCleanFrom block name off) fun v =>
      v = none ↔ NotListedFrom block name off := by
  unfold SearchCleanFrom NotListedFrom
  induction fuel generalizing off with
  | zero => omega
  | succ fuel ih =>
    rw [dirScan]
    -- a branch ends the search, and a guard is a read that must lie inside the block
    refine .branch (fun hoff => ?_) fun hoff => ?_
    · have hstop : ∀ next, ¬SearchNext block name off next := fun next h => Nat.not_lt.mpr hoff h.1
      rw [throughout_stop hstop, throughout_stop hstop]
      exact .done (fun h => absurd hoff (Nat.not_le.mpr h)) (iff_of_true rfl fun h => absurd hoff (Nat.not_le.mpr h))
    have hlt : off < blockSize := Nat.lt_of_not_le hoff
    refine .guard (fun hino h => Nat.not_le.mpr hino (h.head hlt).inodeNo) fun hino => ?_
    refine .branch (fun hzero => ?_) fun hzero => ?_
    · have hstop : ∀ next, ¬SearchNext block name off next := fun next h => h.2.1 hzero
      have hinside : SearchInside block name off :=
        ⟨Nat.le_of_not_lt hino, fun h => absurd hzero h, fun h => absurd hzero h, fun h => absurd hzero h⟩
      rw [throughout_stop hstop, throughout_stop hstop]
      exact .done (fun _ => hinside) (iff_of_true rfl fun _ h => absurd hzero h)
    refine .guard (fun hrec h => Nat.not_le.mpr hrec ((h.head hlt).recLen hzero)) fun hrec => ?_
    refine .branch (fun hlen => ?_) fun hlen => ?_
    · have hstop : ∀ next, ¬SearchNext block name off next := fun next h => h.2.2.1 hlen
      have hinside : SearchInside block name off :=
        ⟨Nat.le_of_not_lt hino, fun _ => Nat.le_of_not_lt hrec, fun _ h => absurd hlen h, fun _ h => absurd hlen h⟩
      rw [throughout_stop hstop, throughout_stop hstop]
      exact .done (fun _ => hinside) (iff_of_true rfl fun _ _ h => absurd hlen h)
    refine .guard (fun hname h => Nat.not_le.mpr hname ((h.head hlt).nameLen hzero hlen)) fun hname => ?_
    have hbefore : NameInside block name off → SearchInside block name off := fun h =>
      ⟨Nat.le_of_not_lt hino, fun _ => Nat.le_of_not_lt hrec, fun _ _ => Nat.le_of_not_lt hname, fun _ _ => h⟩
    cases hmatch : nameMatches block (off + 8) name (direntNameLen block off) 0 with
    | none =>
      exact .fault fun h => compare_yields.not_inside hmatch ((h.head hlt).name hzero hlen)
    | some same =>
      have hinside := hbefore (compare_yields.inside hmatch)
      have hsame := compare_yields.result same hmatch
      cases same with
      | true =>
        have hstop : ∀ next, ¬SearchNext block name off next := fun next h => h.2.2.2.1 (hsame.mp rfl)
        rw [throughout_stop hstop, throughout_stop hstop]
        exact .done (fun _ => hinside) (iff_of_false (by simp) fun h => h hlt hzero hlen (hsame.mp rfl))
      | false =>
        have hother : ¬SameName block name off := fun h => by cases hsame.mpr h
        have hnext : SearchNext block name off (off + direntRecLen block off) := ⟨hlt, hzero, hlen, hother, rfl⟩
        have hrest := @ih (off + direntRecLen block off) (by omega)
        rw [throughout_next hnext fun c h => h.2.2.2.2, throughout_next hnext fun c h => h.2.2.2.2]
        simpa [hinside, hother] using hrest

/-! ## Looking a name up in a directory -/

/-- Block `b` of a directory, as a scan reads it. -/
def dirContents (fs : Fs) (r : InodeRef) (b : Nat) : Mem := readBlock fs (inodeGetBlock fs r b) zeroBuf

/-- From one block to the next one. -/
def LookupNext (fs : Fs) (r : InodeRef) (name : List (BitVec 8)) (b next : Nat) : Prop :=
  b < diskBlocks (fs.disk r) ∧ (inodeGetBlock fs r b ≠ 0 → NotListed (dirContents fs r b) name) ∧ next = b + 1

/-- The block number, a `uint32_t`, does not come back to zero, and the block is clean. -/
def LookupInside (fs : Fs) (r : InodeRef) (name : List (BitVec 8)) (b : Nat) : Prop :=
  b < 2 ^ 32 ∧ (b < diskBlocks (fs.disk r) → inodeGetBlock fs r b ≠ 0 → SearchClean (dirContents fs r b) name)

/-- Every block that a lookup comes to is clean, and it comes to an end. -/
def LookupClean (fs : Fs) (r : InodeRef) (name : List (BitVec 8)) : Prop :=
  Throughout (LookupNext fs r name) (LookupInside fs r name) 0

theorem lookupBlocks_isSome (hfuel : b + fuel = 2 ^ 32) :
    (lookupBlocks fs r name fuel b).isSome ↔ Throughout (LookupNext fs r name) (LookupInside fs r name) b := by
  induction fuel generalizing b with
  | zero =>
    refine ⟨fun h => absurd h (by simp [lookupBlocks]), fun h => ?_⟩
    have hb := h.head.1
    omega
  | succ fuel ih =>
    have hb : b < 2 ^ 32 := by omega
    have hrest := @ih (b + 1) (by omega)
    rw [lookupBlocks]
    by_cases hlast : b < diskBlocks (fs.disk r)
    · rw [if_pos hlast]
      dsimp only
      by_cases haddr : inodeGetBlock fs r b = 0
      · have hnext : LookupNext fs r name b (b + 1) := ⟨hlast, fun h => absurd haddr h, rfl⟩
        have hinside : LookupInside fs r name b := ⟨hb, fun _ h => absurd haddr h⟩
        rw [if_pos haddr, throughout_next hnext fun c h => h.2.2, hrest]
        exact (and_iff_right hinside).symm
      · have hscan : Yields (dirScan (dirContents fs r b) name (blockSize + 1) 0) (SearchClean (dirContents fs r b) name)
            fun v => v = none ↔ NotListed (dirContents fs r b) name :=
          dirScan_yields (by omega)
        rw [if_neg haddr]
        have hcontents : readBlock fs (inodeGetBlock fs r b) zeroBuf = dirContents fs r b := rfl
        rw [hcontents]
        cases hfound : dirScan (dirContents fs r b) name (blockSize + 1) 0 with
        | none =>
          exact iff_of_false (by simp) fun h => hscan.not_inside hfound (h.head.2 hlast haddr)
        | some v =>
          have hinside : LookupInside fs r name b :=
            ⟨hb, fun _ _ => hscan.inside hfound⟩
          have hlisted := hscan.result v hfound
          cases v with
          | none =>
            have hnext : LookupNext fs r name b (b + 1) := ⟨hlast, fun _ => hlisted.mp rfl, rfl⟩
            rw [throughout_next hnext fun c h => h.2.2, ← hrest]
            exact (and_iff_right hinside).symm
          | some ino =>
            have hstop : ∀ c, ¬LookupNext fs r name b c := fun c h => by cases hlisted.mpr (h.2.1 haddr)
            rw [throughout_stop hstop]
            exact iff_of_true rfl hinside
    · have hstop : ∀ c, ¬LookupNext fs r name b c := fun c h => hlast h.1
      rw [if_neg hlast, throughout_stop hstop]
      exact iff_of_true rfl ⟨hb, fun h => absurd h hlast⟩

/-- **A lookup has a result exactly where every block it comes to is clean.** -/
theorem crfsDirLookup_isSome : (crfsDirLookup fs r name).isSome ↔ LookupClean fs r name :=
  lookupBlocks_isSome (Nat.zero_add _)

/-! ## Looking for room in a block -/

/-- From one record to the next one; there is no test of its length. -/
def SlotNext (block : Mem) (off next : Nat) : Prop :=
  off < blockSize ∧ direntInodeNo block off ≠ 0 ∧ next = off + direntRecLen block off

/-- What is read of a record is inside the block, and so is a record with a name of `len` bytes
    that is put in its place; the scan moves on from a record that is in use. -/
structure SlotInside (block : Mem) (len off : Nat) : Prop where
  inodeNo : off + 4 ≤ blockSize
  recLen : direntInodeNo block off ≠ 0 → off + 6 ≤ blockSize
  moves : direntInodeNo block off ≠ 0 → direntRecLen block off ≠ 0
  fits : direntInodeNo block off = 0 → off + 8 + len + 1 ≤ blockSize

def SlotCleanFrom (block : Mem) (len : Nat) : Nat → Prop :=
  Throughout (SlotNext block) fun off => off < blockSize → SlotInside block len off

def FullFrom (block : Mem) : Nat → Prop :=
  Throughout (SlotNext block) fun off => off < blockSize → direntInodeNo block off ≠ 0

/-- Every record the scan comes to is read inside the block, and an empty one holds the new record. -/
def SlotClean (block : Mem) (len : Nat) : Prop := SlotCleanFrom block len 0

/-- The scan comes to no empty record. -/
def Full (block : Mem) : Prop := FullFrom block 0

/-- The scan of `crfs_dir_add`, with its test that the record fits. -/
def emptyDirentFor (block : Mem) (len fuel off : Nat) : Option (Option Nat) :=
  (emptyDirent block fuel off).filter fun v => v.all fun o => o + 8 + len + 1 ≤ blockSize

theorem filter_fits : (some (some off)).filter (fun v => v.all fun o => o + 8 + len + 1 ≤ blockSize) =
    if blockSize < off + 8 + len + 1 then none else some (some off) := by
  by_cases hfit : blockSize < off + 8 + len + 1
  · rw [if_pos hfit]
    simpa using hfit
  · rw [if_neg hfit]
    simpa using hfit

theorem emptyDirentFor_succ : emptyDirentFor block len (fuel + 1) off =
    if blockSize ≤ off then some none
    else if blockSize < off + 4 then none
    else if direntInodeNo block off = 0 then
      if blockSize < off + 8 + len + 1 then none else some (some off)
    else if blockSize < off + 6 then none
    else if direntRecLen block off = 0 then none
    else emptyDirentFor block len fuel (off + direntRecLen block off) := by
  unfold emptyDirentFor
  rw [emptyDirent, apply_ite (Option.filter _), apply_ite (Option.filter _), apply_ite (Option.filter _), filter_fits,
    apply_ite (Option.filter _), apply_ite (Option.filter _)]
  rfl

theorem emptyDirentFor_yields (hfuel : blockSize < fuel + min off blockSize) :
    Yields (emptyDirentFor block len fuel off) (SlotCleanFrom block len off) fun v => v = none ↔ FullFrom block off := by
  unfold SlotCleanFrom FullFrom
  induction fuel generalizing off with
  | zero => omega
  | succ fuel ih =>
    rw [emptyDirentFor_succ]
    refine .branch (fun hoff => ?_) fun hoff => ?_
    · have hstop : ∀ next, ¬SlotNext block off next := fun next h => Nat.not_lt.mpr hoff h.1
      rw [throughout_stop hstop, throughout_stop hstop]
      exact .done (fun h => absurd hoff (Nat.not_le.mpr h)) (iff_of_true rfl fun h => absurd hoff (Nat.not_le.mpr h))
    have hlt : off < blockSize := Nat.lt_of_not_le hoff
    refine .guard (fun hino h => Nat.not_le.mpr hino (h.head hlt).inodeNo) fun hino => ?_
    refine .branch (fun hzero => ?_) fun hzero => ?_
    · have hstop : ∀ next, ¬SlotNext block off next := fun next h => h.2.1 hzero
      rw [throughout_stop hstop, throughout_stop hstop]
      refine .guard (fun hlong h => Nat.not_le.mpr hlong ((h hlt).fits hzero)) fun hfit => ?_
      have hinside : SlotInside block len off :=
        ⟨Nat.le_of_not_lt hino, fun h => absurd hzero h, fun h => absurd hzero h, fun _ => Nat.le_of_not_lt hfit⟩
      exact .done (fun _ => hinside) (iff_of_false (by simp) fun h => h hlt hzero)
    refine .guard (fun hrec h => Nat.not_le.mpr hrec ((h.head hlt).recLen hzero)) fun hrec => ?_
    refine .guard (fun hlen h => (h.head hlt).moves hzero hlen) fun hlen => ?_
    have hnext : SlotNext block off (off + direntRecLen block off) := ⟨hlt, hzero, rfl⟩
    have hinside : SlotInside block len off :=
      ⟨Nat.le_of_not_lt hino, fun _ => Nat.le_of_not_lt hrec, fun _ => hlen, fun h => absurd h hzero⟩
    have hrest := @ih (off + direntRecLen block off) (by omega)
    rw [throughout_next hnext fun c h => h.2.2, throughout_next hnext fun c h => h.2.2]
    simpa [hinside, hzero] using hrest

/-! ## Adding a record to a directory -/

/-- Block `b` of a directory, allocated if there is none, as the scan reads it. -/
def roomContents (fs : Fs) (r : InodeRef) (b : Nat) : Mem :=
  readBlock (dirBlock fs r b).2 (dirBlock fs r b).1 zeroBuf

/-- The loop of `crfs_dir_add` goes on. -/
def AddTurn (r : InodeRef) (x : Nat × Fs) : Prop := x.1 < diskBlocks (x.2.disk r) ∨ x.1 = 0

/-- From one block to the next one. -/
def AddNext (r : InodeRef) (x next : Nat × Fs) : Prop :=
  AddTurn r x ∧ Full (roomContents x.2 r x.1) ∧ next = (x.1 + 1, (dirBlock x.2 r x.1).2)

/-- The block number does not come back to zero, and the block is clean. -/
def AddInside (r : InodeRef) (len : Nat) (x : Nat × Fs) : Prop :=
  x.1 < 2 ^ 32 ∧ (AddTurn r x → SlotClean (roomContents x.2 r x.1) len)

/-- Every block that `crfs_dir_add` comes to is clean, and it comes to an end. -/
def AddClean (fs : Fs) (r : InodeRef) (len : Nat) : Prop := Throughout (AddNext r) (AddInside r len) (0, fs)

/-- One turn of the loop, in terms of the scan for a record that fits. -/
theorem addToBlocks_succ {inodeNo type : Nat} (hturn : AddTurn r (b, fs)) :
    addToBlocks r name inodeNo type (fuel + 1) b fs =
      match emptyDirentFor (roomContents fs r b) name.length (blockSize + 1) 0 with
      | none => none
      | some none => addToBlocks r name inodeNo type fuel (b + 1) (dirBlock fs r b).2
      | some (some off) =>
        some (true, (writeBlock (dirBlock fs r b).2 (dirBlock fs r b).1
          (putDirent (roomContents fs r b) off inodeNo (blockSize - off) name.length type name)).setDirty r) := by
  have hgo : b < diskBlocks (fs.disk r) ∨ b = 0 := hturn
  rw [addToBlocks, if_pos hgo, emptyDirentFor]
  show (match emptyDirent (roomContents fs r b) (blockSize + 1) 0 with
    | none => none
    | some none => addToBlocks r name inodeNo type fuel (b + 1) (dirBlock fs r b).2
    | some (some off) =>
      if blockSize < off + 8 + name.length + 1 then none
      else some (true, (writeBlock (dirBlock fs r b).2 (dirBlock fs r b).1
        (putDirent (roomContents fs r b) off inodeNo (blockSize - off) name.length type name)).setDirty r)) = _
  cases hfound : emptyDirent (roomContents fs r b) (blockSize + 1) 0 with
  | none => rfl
  | some slot =>
    cases slot with
    | none => rfl
    | some off =>
      dsimp only
      rw [filter_fits]
      by_cases hlong : blockSize < off + 8 + name.length + 1
      · rw [if_pos hlong, if_pos hlong]
      · rw [if_neg hlong, if_neg hlong]

theorem addToBlocks_isSome {inodeNo type : Nat} (hfuel : b + fuel = 2 ^ 32) :
    (addToBlocks r name inodeNo type fuel b fs).isSome ↔ Throughout (AddNext r) (AddInside r name.length) (b, fs) := by
  induction fuel generalizing b fs with
  | zero =>
    refine ⟨fun h => absurd h (by simp [addToBlocks]), fun h => ?_⟩
    have hb := h.head.1
    dsimp only at hb
    omega
  | succ fuel ih =>
    have hb : b < 2 ^ 32 := by omega
    have hrest := @ih (b + 1) (dirBlock fs r b).2 (by omega)
    by_cases hturn : AddTurn r (b, fs)
    · have hscan : Yields (emptyDirentFor (roomContents fs r b) name.length (blockSize + 1) 0)
          (SlotClean (roomContents fs r b) name.length) fun v => v = none ↔ Full (roomContents fs r b) :=
        emptyDirentFor_yields (by omega)
      rw [addToBlocks_succ hturn]
      cases hfound : emptyDirentFor (roomContents fs r b) name.length (blockSize + 1) 0 with
      | none => exact iff_of_false (by simp) fun h => hscan.not_inside hfound (h.head.2 hturn)
      | some slot =>
        have hinside : AddInside r name.length (b, fs) := ⟨hb, fun _ => hscan.inside hfound⟩
        have hfull := hscan.result slot hfound
        cases slot with
        | none =>
          have hnext : AddNext r (b, fs) (b + 1, (dirBlock fs r b).2) := ⟨hturn, hfull.mp rfl, rfl⟩
          rw [throughout_next hnext fun c h => h.2.2, ← hrest]
          exact (and_iff_right hinside).symm
        | some off =>
          have hstop : ∀ c, ¬AddNext r (b, fs) c := fun c h => by cases hfull.mpr h.2.1
          rw [throughout_stop hstop]
          exact iff_of_true rfl hinside
    · have hstop : ∀ c, ¬AddNext r (b, fs) c := fun c h => hturn h.1
      have hend : ¬(b < diskBlocks (fs.disk r) ∨ b = 0) := hturn
      rw [addToBlocks, if_neg hend, throughout_stop hstop]
      exact iff_of_true rfl ⟨hb, fun h => absurd h hturn⟩

theorem crfsDirAdd_isSome {inodeNo type : Nat} :
    (crfsDirAdd fs r name inodeNo type).isSome ↔ AddClean fs r name.length :=
  addToBlocks_isSome (Nat.zero_add _)

end Crimson.Crfs
