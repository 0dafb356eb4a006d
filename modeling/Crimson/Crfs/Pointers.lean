import Crimson.Crfs.Cells
import Crimson.Crfs.Landing
import Crimson.Crfs.ReadAfterWrite

/-!
# Setting a block, whatever the map points at and whatever fails

`crfs_inode_set_block` takes any address, and its tables are right as long as the blocks that
`crfs_alloc_block` hands out to become tables are apart from those that are there (`FreshAllocs`).
The device may fail at any of its writes, and nobody is told. Only the clearing of a new table
has to take effect (`Clears`): then the block is set, where all it takes succeeds, or its pointer is
what it was, and no other pointer is touched (`SetTried`).

Where the device does not fail this is all that there is to say of the call (`SetsBlock`).
-/

set_option autoImplicit false

namespace Crimson.Crfs

open Crimson.Lib Crimson.Mm

/-! ## What the call may do -/

/-- Clearing the block takes effect, whether the write fails or not. -/
def Clears (fs : Fs) (x : Nat) : Prop :=
  ∀ w, fs.bdev.writeFails w = true → ∀ y, y < blockSize → fs.bdev.bytes (x + y) = 0

/-- Tables may have been made of the blocks `new`, and what is in those may be anything else; the
    pointers to blocks of the file are what they were. -/
structure MapTried (fs : Fs) (r : InodeRef) (new : List Nat) (g : Fs) : Prop where
  pointers : ∀ c, (∀ j, c ≠ .entry .dindirect j) → pointer g.bdev.bytes (g.disk r) c = pointer fs.bdev.bytes (fs.disk r) c
  tables : ∀ t, tableAt g.bdev.bytes (g.disk r) t = tableAt fs.bdev.bytes (fs.disk r) t ∨
    (tableAt fs.bdev.bytes (fs.disk r) t = 0 ∧ tableAt g.bdev.bytes (g.disk r) t ∈ new)
  apart : TablesApart g.bdev.bytes (g.disk r)
  bytes : ∀ y, (∀ t, tableAt fs.bdev.bytes (fs.disk r) t ≠ 0 → ¬InBlock (tableAt fs.bdev.bytes (fs.disk r) t) y) →
    (∀ x ∈ new, ¬InBlock x y) → g.bdev.bytes y = fs.bdev.bytes y
  fails : g.bdev.writeFails = fs.bdev.writeFails
  unset : g.unset = fs.unset

/-- **What the call does**: the block is set, and then it succeeded with all it wrote, which is
    `landing`; or it is not, and then the call failed or the device did. -/
structure SetTried (fs : Fs) (r : InodeRef) (b a : Nat) (new : List Nat) (landing : Prop) (res : Bool × Fs) : Prop where
  others : ∀ b', b' ≠ b → inodeGetBlock res.2 r b' = inodeGetBlock fs r b'
  outcome : (res.1 = true ∧ landing ∧ inodeGetBlock res.2 r b = a) ∨
    (inodeGetBlock res.2 r b = inodeGetBlock fs r b ∧ (res.1 = true → ¬fs.Reliable))
  tables : ∀ t, tableAt res.2.bdev.bytes (res.2.disk r) t = tableAt fs.bdev.bytes (fs.disk r) t ∨
    (tableAt fs.bdev.bytes (fs.disk r) t = 0 ∧ tableAt res.2.bdev.bytes (res.2.disk r) t ∈ new)
  apart : TablesApart res.2.bdev.bytes (res.2.disk r)
  bytes : ∀ y, (∀ t, tableAt fs.bdev.bytes (fs.disk r) t ≠ 0 → ¬InBlock (tableAt fs.bdev.bytes (fs.disk r) t) y) →
    (∀ x ∈ new, ¬InBlock x y) → res.2.bdev.bytes y = fs.bdev.bytes y
  unset : res.2.unset = fs.unset

/-- The blocks of the call, and when it returns -1. -/
def SetTries (fs : Fs) (r : InodeRef) (b a : Nat) (res : Bool × Fs) : Prop :=
  ∃ k new fs₁, k ≤ 2 ∧ allocs k fs = some (new, fs₁) ∧ res.2 = res.2.withAlloc fs₁ ∧
    SetTried fs r b a new (SetLands fs r b a) res ∧
    (res.1 = false ↔ mapBlocks ≤ b ∨ allocs (missingTables fs.bdev.bytes (fs.disk r) b) fs = none)

/-- What the call is to do. -/
structure SetsBlock (fs : Fs) (r : InodeRef) (b a : Nat) (res : Bool × Fs) : Prop where
  set : res.1 = true → ∀ b', inodeGetBlock res.2 r b' = if b' = b then a else inodeGetBlock fs r b'
  kept : res.1 = false → ∀ b', inodeGetBlock res.2 r b' = inodeGetBlock fs r b'
  fails : res.1 = false ↔ mapBlocks ≤ b ∨ allocs (missingTables fs.bdev.bytes (fs.disk r) b) fs = none

section

variable {fs fs₁ f g q : Fs} {r : InodeRef} {t : TableId} {c : Cell} {a b v x : Nat} {new : List Nat} {landing : Prop}

theorem allocBlock_bdev (h : allocBlock fs = some (x, f)) :
    f.bdev = fs.bdev ∧ f.disk r = fs.disk r ∧ f.unset = fs.unset := by
  rw [allocBlock_self h]
  exact ⟨rfl, rfl, rfl⟩

theorem Clears.lands (h : Clears fs x) (halloc : allocBlock fs = some (v, f)) : Lands f.bdev x zeroBuf := by
  rw [(allocBlock_bdev (r := 0) halloc).1]
  exact fun hfails => h _ hfails

theorem clears_of_reliable (h : fs.Reliable) (x : Nat) : Clears fs x := by
  intro w hw
  rw [h] at hw
  cases hw

theorem writeBlock_off (fs : Fs) (addr : Nat) (buf : Mem) {y : Nat} (hy : ¬InBlock addr y) :
    (writeBlock fs addr buf).bdev.bytes y = fs.bdev.bytes y := by
  rcases lands_or_same fs addr buf with hland | hsame
  · rw [hland.bytes]
    unfold InBlock at hy
    exact copyBytes_of_notMem (by omega)
  · rw [hsame]

/-! ## The parts of the call -/

theorem MapTried.refl (hapart : TablesApart fs.bdev.bytes (fs.disk r)) : MapTried fs r [] fs :=
  ⟨fun _ _ => rfl, fun _ => Or.inl rfl, hapart, fun _ _ _ => rfl, rfl, rfl⟩

theorem MapTried.get (h : MapTried fs r new g) (b : Nat) : inodeGetBlock g r b = inodeGetBlock fs r b := by
  rw [inodeGetBlock_eq_pointer, inodeGetBlock_eq_pointer]
  cases hc : cellOf b with
  | none => rw [Option.map_none, Option.map_none]
  | some c =>
    refine h.pointers c ?_
    intro j hj
    rw [hj] at hc
    exact cellOf_ne_dindirect hc

/-- What is off the tables and the new blocks is off the tables after it. -/
theorem MapTried.offTables (h : MapTried fs r new g) {y : Nat}
    (hy : ∀ t, tableAt fs.bdev.bytes (fs.disk r) t ≠ 0 → ¬InBlock (tableAt fs.bdev.bytes (fs.disk r) t) y)
    (hnew : ∀ x ∈ new, ¬InBlock x y) (t : TableId) (ht : tableAt g.bdev.bytes (g.disk r) t ≠ 0) :
    ¬InBlock (tableAt g.bdev.bytes (g.disk r) t) y := by
  rcases h.tables t with hsame | ⟨-, hin⟩
  · rw [hsame] at ht ⊢
    exact hy t ht
  · exact hnew _ hin

/-- Another table is made. -/
theorem MapTried.made {m d : Mem} (h : MapTried fs r new g) (hmade : TableMade g.bdev.bytes (g.disk r) t x m d)
    (hx : OffMap g.bdev.bytes (g.disk r) x) (hm : q.bdev.bytes = m) (hd : q.disk r = d)
    (hbytes : ∀ y, (∀ t, tableAt g.bdev.bytes (g.disk r) t ≠ 0 → ¬InBlock (tableAt g.bdev.bytes (g.disk r) t) y) →
      ¬InBlock x y → m y = g.bdev.bytes y)
    (hfails : q.bdev.writeFails = g.bdev.writeFails) (hunset : q.unset = g.unset) : MapTried fs r (new ++ [x]) q := by
  subst hm hd
  refine ⟨fun c hc => (hmade.pointer_eq hc).trans (h.pointers c hc), ?_, hmade.apart h.apart hx, ?_, hfails.trans h.fails,
    hunset.trans h.unset⟩
  · intro t'
    rw [hmade.tables]
    by_cases htt : t' = t
    · right
      rw [if_pos htt, htt]
      refine ⟨?_, by simp⟩
      rcases h.tables t with hsame | ⟨hz, -⟩
      · rw [← hsame, hmade.missing]
      · exact hz
    · rw [if_neg htt]
      rcases h.tables t' with hsame | ⟨hz, hin⟩
      · exact Or.inl hsame
      · exact Or.inr ⟨hz, List.mem_append_left _ hin⟩
  · intro y hy hnew
    have hrest : ∀ z ∈ new, ¬InBlock z y := fun z hz => hnew z (List.mem_append_left _ hz)
    rw [hbytes y (h.offTables hy hrest) (hnew x (by simp)), h.bytes y hy hrest]

/-- A block off the tables is written. -/
theorem MapTried.scratch (h : MapTried fs r new g) (hx : OffMap g.bdev.bytes (g.disk r) x)
    (hoff : ∀ y, ¬InBlock x y → q.bdev.bytes y = g.bdev.bytes y) (hd : q.disk r = g.disk r)
    (hfails : q.bdev.writeFails = g.bdev.writeFails) (hunset : q.unset = g.unset) : MapTried fs r (new ++ [x]) q := by
  have htables := tableAt_scratch hx.apart hoff
  refine ⟨?_, ?_, ?_, ?_, hfails.trans h.fails, hunset.trans h.unset⟩
  · intro c hc
    rw [hd, pointer_scratch hx.apart hoff]
    exact h.pointers c hc
  · intro t
    rw [hd, htables]
    rcases h.tables t with hsame | ⟨hz, hin⟩
    · exact Or.inl hsame
    · exact Or.inr ⟨hz, List.mem_append_left _ hin⟩
  · rw [hd]
    exact h.apart.congr htables
  · intro y hy hnew
    rw [hoff y (hnew x (by simp)), h.bytes y hy fun z hz => hnew z (List.mem_append_left _ hz)]

/-- The block is not set. -/
theorem MapTried.setTried (h : MapTried fs r new g) {res : Bool × Fs} (hres : res.2 = g)
    (hok : res.1 = true → ¬fs.Reliable) : SetTried fs r b a new landing res := by
  subst hres
  exact ⟨fun b' _ => h.get b', Or.inr ⟨h.get b, hok⟩, h.tables, h.apart, h.bytes, h.unset⟩

/-- A cell is overwritten. -/
theorem MapTried.set (h : MapTried fs r new g) (hcell : cellOf b = some c)
    (hpointer : ∀ c', pointer q.bdev.bytes (q.disk r) c' = if c' = c then a else pointer g.bdev.bytes (g.disk r) c')
    (b' : Nat) : inodeGetBlock q r b' = if b' = b then a else inodeGetBlock fs r b' := by
  rw [← h.get, inodeGetBlock_eq_pointer, inodeGetBlock_eq_pointer]
  by_cases hb : b' = b
  · rw [hb, if_pos rfl, hcell, Option.map_some, hpointer, if_pos rfl]
    rfl
  · rw [if_neg hb]
    cases hc : cellOf b' with
    | none => rw [Option.map_none, Option.map_none]
    | some c' =>
      have hne : c' ≠ c := by
        intro he
        rw [he] at hc
        exact hb (cellOf_inj hcell hc)
      rw [Option.map_some, Option.map_some, hpointer, if_neg hne]

/-- **The last write of the call**, which may fail. -/
theorem MapTried.writePtr (h : MapTried fs r new g) {j : Fin ptrsPerBlock} (hcell : cellOf b = some (.entry t j))
    (ht : tableAt g.bdev.bytes (g.disk r) t ≠ 0) (ha : a < 2 ^ 64) :
    SetTried fs r b a new (PtrLands g (tableAt g.bdev.bytes (g.disk r) t) j a)
      (true, (Crfs.writePtr g (tableAt g.bdev.bytes (g.disk r) t) j a).setDirty r) := by
  have hleaf : t ≠ .dindirect := by
    intro he
    rw [he] at hcell
    exact cellOf_ne_dindirect hcell
  have hdisk : ((Crfs.writePtr g (tableAt g.bdev.bytes (g.disk r) t) j a).setDirty r).disk r = g.disk r :=
    Fs.disk_setDirty _ r
  by_cases hland : PtrLands g (tableAt g.bdev.bytes (g.disk r) t) j a
  · have hset := h.set (q := (Crfs.writePtr g (tableAt g.bdev.bytes (g.disk r) t) j a).setDirty r) (a := a) hcell
      fun c' => by
      rw [hdisk]
      show pointer (Crfs.writePtr g (tableAt g.bdev.bytes (g.disk r) t) j a).bdev.bytes (g.disk r) c' = _
      rw [hland.bytes j.isLt]
      exact pointer_store h.apart ht ha j hleaf c'
    have htables : ∀ t', tableAt (Crfs.writePtr g (tableAt g.bdev.bytes (g.disk r) t) j a).bdev.bytes (g.disk r) t' =
        tableAt g.bdev.bytes (g.disk r) t' := by
      intro t'
      rw [hland.bytes j.isLt]
      exact tableAt_store h.apart ht ha j hleaf t'
    refine ⟨fun b' hb' => ?_, Or.inl ⟨rfl, hland, ?_⟩, ?_, ?_, ?_, h.unset⟩
    · exact (hset b').trans (if_neg hb')
    · exact (hset b).trans (if_pos rfl)
    · intro t'
      rw [hdisk]
      show tableAt (Crfs.writePtr g (tableAt g.bdev.bytes (g.disk r) t) j a).bdev.bytes (g.disk r) t' = _ ∨ _ ∧
        tableAt (Crfs.writePtr g (tableAt g.bdev.bytes (g.disk r) t) j a).bdev.bytes (g.disk r) t' ∈ new
      rw [htables]
      exact h.tables t'
    · rw [hdisk]
      exact h.apart.congr htables
    · intro y hy hnew
      exact (writeBlock_off _ _ _ (h.offTables hy hnew t ht)).trans (h.bytes y hy hnew)
  · -- The write fails, and nothing is written.
    have hsame := (lands_or_same g _ _).resolve_left hland
    have hbytes : ((Crfs.writePtr g (tableAt g.bdev.bytes (g.disk r) t) j a).setDirty r).bdev.bytes = g.bdev.bytes := hsame
    have hkept : MapTried fs r new ((Crfs.writePtr g (tableAt g.bdev.bytes (g.disk r) t) j a).setDirty r) := by
      refine ⟨?_, ?_, ?_, ?_, h.fails, h.unset⟩
      all_goals rw [hbytes]
      · rw [hdisk]
        exact h.pointers
      · rw [hdisk]
        exact h.tables
      · rw [hdisk]
        exact h.apart
      · exact h.bytes
    refine hkept.setTried rfl fun _ hreliable => hland (lands_of_reliable ?_ _ _)
    intro w
    rw [h.fails]
    exact hreliable w

theorem SetTried.mono {landing' : Prop} {res : Bool × Fs} (h : SetTried fs r b a new landing res)
    (himp : landing → landing') : SetTried fs r b a new landing' res :=
  ⟨h.others, h.outcome.imp_left fun ho => ⟨ho.1, himp ho.2.1, ho.2.2⟩, h.tables, h.apart, h.bytes, h.unset⟩

/-! ## The tables -/

/-- The fields of an inode that hold tables. -/
def RootField (t : TableId) (get : Mem → Nat) (set : Mem → Nat → Mem) : Prop :=
  (t = .indirect ∧ get = diskIndirect ∧ set = setDiskIndirect) ∨
    (t = .dindirect ∧ get = diskDoubleIndirect ∧ set = setDiskDoubleIndirect)

theorem RootField.tableAt {get : Mem → Nat} {set : Mem → Nat → Mem} (h : RootField t get set) (m d : Mem) :
    Crfs.tableAt m d t = get d := by
  rcases h with ⟨rfl, rfl, -⟩ | ⟨rfl, rfl, -⟩
  · rfl
  · rfl

/-- **The table of a field** is there, or is made of the next block, or there is none. -/
theorem root_made {get : Mem → Nat} {set : Mem → Nat → Mem} (ht : RootField t get set)
    (hapart : TablesApart fs.bdev.bytes (fs.disk r)) (hfresh : FreshAllocs fs r)
    (hclear : ∀ x f, allocBlock fs = some (x, f) → Clears fs x) :
    (get (fs.disk r) ≠ 0 ∧
      (if get (fs.disk r) = 0 then (allocPtrs fs).map fun x => x.2.modDisk r fun d => set d x.1 else some fs) = some fs) ∨
    (get (fs.disk r) = 0 ∧ allocBlock fs = none ∧
      (if get (fs.disk r) = 0 then (allocPtrs fs).map fun x => x.2.modDisk r fun d => set d x.1 else some fs) = none) ∨
    ∃ x fs₁, get (fs.disk r) = 0 ∧ allocBlock fs = some (x, fs₁) ∧
      (if get (fs.disk r) = 0 then (allocPtrs fs).map fun x => x.2.modDisk r fun d => set d x.1 else some fs) =
        some ((writeBlock fs₁ x zeroBuf).modDisk r fun d => set d x) ∧
      MapTried fs r [x] ((writeBlock fs₁ x zeroBuf).modDisk r fun d => set d x) ∧
      TableMade fs.bdev.bytes (fs.disk r) t x (writeBlock fs₁ x zeroBuf).bdev.bytes (set (fs.disk r) x) ∧
      ((writeBlock fs₁ x zeroBuf).modDisk r fun d => set d x).disk r = set (fs.disk r) x ∧
      OffMap fs.bdev.bytes (fs.disk r) x ∧ Lands fs₁.bdev x zeroBuf := by
  by_cases hz : get (fs.disk r) = 0
  · right
    rw [if_pos hz]
    cases halloc : allocBlock fs with
    | none =>
      left
      simp [allocPtrs, halloc, hz]
    | some y =>
      right
      obtain ⟨x, fs₁⟩ := y
      have hnew := hfresh 1 [x] fs₁ (by decide) (by simp [allocs, halloc])
      have hx := hnew.2 x (by simp)
      obtain ⟨hlt, -⟩ := allocBlock_place halloc
      obtain ⟨hbdev, hdisk, hunset⟩ := @allocBlock_bdev fs fs₁ r x halloc
      have hland := (hclear x fs₁ halloc).lands halloc
      have hmade : TableMade fs.bdev.bytes (fs.disk r) t x (writeBlock fs₁ x zeroBuf).bdev.bytes (set (fs.disk r) x) := by
        rw [hland.bytes, hbdev]
        apply tableMade_inode hx hlt
        · rw [ht.tableAt]
          exact hz
        · rcases ht with ⟨rfl, -, rfl⟩ | ⟨rfl, -, rfl⟩
          · exact Or.inl ⟨rfl, rfl⟩
          · exact Or.inr ⟨rfl, rfl⟩
      have hdisk' : ((writeBlock fs₁ x zeroBuf).modDisk r fun d => set d x).disk r = set (fs.disk r) x := by
        rw [Fs.disk_modDisk, ← hdisk]
        rfl
      rw [allocPtrs_some halloc]
      refine ⟨x, fs₁, hz, rfl, rfl, ?_, hmade, hdisk', hx, hland⟩
      refine (MapTried.refl hapart).made hmade hx rfl hdisk' (fun y _ hy => ?_) ?_ hunset
      · rw [writeBlock_off _ _ _ hy, hbdev]
      · show fs₁.bdev.writeFails = _
        rw [hbdev]
  · left
    rw [if_neg hz]
    exact ⟨hz, rfl⟩

/-- **The table in the table of tables**, in the same way; it is made if its entry is written. -/
theorem second_made {i : Fin ptrsPerBlock} (hapart : TablesApart g.bdev.bytes (g.disk r))
    (hroot : diskDoubleIndirect (g.disk r) ≠ 0)
    (hfresh : ∀ x f, allocBlock g = some (x, f) → OffMap g.bdev.bytes (g.disk r) x)
    (hclear : ∀ x f, allocBlock g = some (x, f) → Clears g x) :
    let l1 := diskDoubleIndirect (g.disk r)
    let next? := if ptrAt (readBlock g l1 zeroBuf) i = 0 then (allocPtrs g).map fun z => (z.1, Crfs.writePtr z.2 l1 i z.1)
      else some (ptrAt (readBlock g l1 zeroBuf) i, g)
    ptrAt (readBlock g l1 zeroBuf) i = tableAt g.bdev.bytes (g.disk r) (.second i) ∧
    ((tableAt g.bdev.bytes (g.disk r) (.second i) ≠ 0 ∧
      next? = some (tableAt g.bdev.bytes (g.disk r) (.second i), g)) ∨
    (tableAt g.bdev.bytes (g.disk r) (.second i) = 0 ∧ allocBlock g = none ∧ next? = none) ∨
    ∃ x f, tableAt g.bdev.bytes (g.disk r) (.second i) = 0 ∧ allocBlock g = some (x, f) ∧
      next? = some (x, Crfs.writePtr (writeBlock f x zeroBuf) l1 i x) ∧ OffMap g.bdev.bytes (g.disk r) x ∧
      Lands f.bdev x zeroBuf ∧
      (PtrLands (writeBlock f x zeroBuf) l1 i x → TableMade g.bdev.bytes (g.disk r) (.second i) x
        (Crfs.writePtr (writeBlock f x zeroBuf) l1 i x).bdev.bytes (g.disk r))) := by
  have hentry : ptrAt (readBlock g (diskDoubleIndirect (g.disk r)) zeroBuf) i =
      tableAt g.bdev.bytes (g.disk r) (.second i) := by
    rw [ptrAt_readBlock g _ i.isLt, tableAt, entryOf, if_neg hroot]
  dsimp only
  rw [hentry]
  refine ⟨rfl, ?_⟩
  by_cases hz : tableAt g.bdev.bytes (g.disk r) (.second i) = 0
  · right
    rw [if_pos hz]
    cases halloc : allocBlock g with
    | none =>
      left
      simp [allocPtrs, halloc, hz]
    | some y =>
      right
      obtain ⟨x, f⟩ := y
      have hx := hfresh x f halloc
      obtain ⟨hlt, -⟩ := allocBlock_place halloc
      have hland := (hclear x f halloc).lands halloc
      rw [allocPtrs_some halloc]
      refine ⟨x, f, hz, rfl, rfl, hx, hland, fun hlinked => ?_⟩
      rw [hlinked.bytes i.isLt, hland.bytes, (allocBlock_bdev (r := r) halloc).1]
      exact tableMade_second hapart hx hlt hroot hz
  · left
    rw [if_neg hz]
    exact ⟨hz, rfl⟩

theorem allocs_one_eq_none_iff : allocs 1 fs = none ↔ allocBlock fs = none := by
  rw [allocs]
  cases allocBlock fs with
  | none => simp
  | some y => simp [allocs]

theorem setTries_direct (hb : b < indirectBase) (hapart : TablesApart fs.bdev.bytes (fs.disk r)) (ha : a < 2 ^ 64) :
    SetTries fs r b a (inodeSetBlock fs r b a) := by
  have hcell : cellOf b = some (.direct ⟨b, hb⟩) := by simp [cellOf, hb]
  rw [inodeSetBlock, if_pos hb]
  have hdisk : ((fs.modDisk r fun d => setDiskDirect d b a).setDirty r).disk r = setDiskDirect (fs.disk r) b a := by
    rw [Fs.disk_setDirty, Fs.disk_modDisk]
  have hset := (MapTried.refl hapart).set (q := (fs.modDisk r fun d => setDiskDirect d b a).setDirty r) (a := a) hcell
    fun c' => by
      rw [hdisk]
      exact pointer_setDiskDirect _ _ ⟨b, hb⟩ ha c'
  have htables : ∀ t, tableAt fs.bdev.bytes (setDiskDirect (fs.disk r) b a) t = tableAt fs.bdev.bytes (fs.disk r) t :=
    tableAt_setDiskDirect fs.bdev.bytes (fs.disk r) ⟨b, hb⟩ a
  refine ⟨0, [], fs, by decide, rfl, rfl, ⟨fun b' hb' => ?_, Or.inl ⟨rfl, ?_, ?_⟩, ?_, ?_, fun _ _ _ => rfl, rfl⟩, ?_⟩
  · exact (hset b').trans (if_neg hb')
  · unfold SetLands
    rw [if_pos hb]
    trivial
  · exact (hset b).trans (if_pos rfl)
  · intro t
    left
    dsimp only
    rw [hdisk]
    exact htables t
  · dsimp only
    rw [hdisk]
    exact hapart.congr htables
  · unfold mapBlocks dindirectBase missingTables
    rw [if_pos hb]
    simp [allocs]
    omega

theorem setTries_indirect (hb : ¬b < indirectBase) (hb' : b - indirectBase < ptrsPerBlock)
    (hapart : TablesApart fs.bdev.bytes (fs.disk r)) (hfresh : FreshAllocs fs r)
    (hclear : ∀ x f, allocBlock fs = some (x, f) → Clears fs x) (ha : a < 2 ^ 64) :
    SetTries fs r b a (inodeSetBlock fs r b a) := by
  have hcell : cellOf b = some (.entry .indirect ⟨b - indirectBase, hb'⟩) := by simp [cellOf, hb, hb']
  have hroot : RootField .indirect diskIndirect setDiskIndirect := Or.inl ⟨rfl, rfl, rfl⟩
  have hsmall : ¬mapBlocks ≤ b := by
    unfold mapBlocks dindirectBase ptrsPerBlock indirectBase at *
    omega
  have hmissing : missingTables fs.bdev.bytes (fs.disk r) b = if diskIndirect (fs.disk r) = 0 then 1 else 0 := by
    rw [missingTables, if_neg hb, if_pos hb']
  have hlands : TableLands fs (diskIndirect (fs.disk r)) (fun _ _ => True)
      (fun x fs => fs.modDisk r fun d => setDiskIndirect d x)
      (fun t fs => PtrLands fs t (b - indirectBase) a) → SetLands fs r b a := by
    intro h
    unfold SetLands
    rw [if_neg hb, if_pos hb']
    exact h
  rw [inodeSetBlock, if_neg hb, if_pos hb']
  -- the table is there, or no block can be had for it, or it is made
  rcases root_made (r := r) hroot hapart hfresh hclear with
    ⟨hne, he⟩ | ⟨hz, hnone, he⟩ | ⟨x, fs₁, hz, halloc, he, htried, hmade, hdisk, hx, hland⟩
  · dsimp only
    rw [he]
    refine ⟨0, [], fs, by decide, rfl, rfl, ((MapTried.refl hapart).writePtr hcell hne ha).mono fun hl => ?_, ?_⟩
    · exact hlands (Or.inl ⟨hne, hl⟩)
    · rw [hmissing, if_neg hne]
      simp [hsmall, allocs]
  · dsimp only
    rw [he]
    refine ⟨0, [], fs, by decide, rfl, rfl, (MapTried.refl hapart).setTried rfl (by simp), ?_⟩
    rw [hmissing, if_pos hz, allocs_one_eq_none_iff]
    simp [hnone]
  · dsimp only
    rw [he]
    generalize hg : ((writeBlock fs₁ x zeroBuf).modDisk r fun d => setDiskIndirect d x) = g at htried hdisk
    have hbytes : g.bdev.bytes = (writeBlock fs₁ x zeroBuf).bdev.bytes := by
      rw [← hg]
      rfl
    have htable : tableAt g.bdev.bytes (g.disk r) .indirect = x := by
      rw [hbytes, hdisk, hmade.tables, if_pos rfl]
    have hdone := htried.writePtr hcell (by rw [htable]; exact hx.ne) ha
    have hat : diskIndirect (g.disk r) = x := htable
    rw [htable] at hdone
    dsimp only
    rw [hat]
    refine ⟨1, [x], fs₁, by decide, by simp [allocs, halloc], ?_, hdone.mono fun hl => ?_, ?_⟩
    · rw [← hg]
      rfl
    · exact hlands (Or.inr ⟨hz, x, fs₁, halloc, hland, trivial, by dsimp only; rw [hg]; exact hl⟩)
    · rw [hmissing, if_pos hz, allocs_one_eq_none_iff, halloc]
      simp [hsmall]

/-- Below a table of tables that is there. -/
theorem MapTried.second (h : MapTried fs r new g) {i j : Fin ptrsPerBlock} (hcell : cellOf b = some (.entry (.second i) j))
    (hroot : diskDoubleIndirect (g.disk r) ≠ 0)
    (hfresh : ∀ x f, allocBlock g = some (x, f) → OffMap g.bdev.bytes (g.disk r) x)
    (hclear : ∀ x f, allocBlock g = some (x, f) → Clears g x) (ha : a < 2 ^ 64) :
    let l1 := diskDoubleIndirect (g.disk r)
    let next? := if ptrAt (readBlock g l1 zeroBuf) i = 0 then (allocPtrs g).map fun z => (z.1, Crfs.writePtr z.2 l1 i z.1)
      else some (ptrAt (readBlock g l1 zeroBuf) i, g)
    (next? = none ∧ tableAt g.bdev.bytes (g.disk r) (.second i) = 0 ∧ allocBlock g = none) ∨
    ∃ y g', next? = some (y, g') ∧
      ((tableAt g.bdev.bytes (g.disk r) (.second i) ≠ 0 ∧ g' = g ∧
          SetTried fs r b a new (SecondLands i j a l1 g) (true, (Crfs.writePtr g' y j a).setDirty r)) ∨
        ∃ f, tableAt g.bdev.bytes (g.disk r) (.second i) = 0 ∧ allocBlock g = some (y, f) ∧ g' = g'.withAlloc f ∧
          SetTried fs r b a (new ++ [y]) (SecondLands i j a l1 g) (true, (Crfs.writePtr g' y j a).setDirty r)) := by
  have hcases := second_made (i := i) h.apart hroot hfresh hclear
  dsimp only at hcases ⊢
  obtain ⟨hentry, hcases⟩ := hcases
  rcases hcases with ⟨hne, he⟩ | ⟨hz, hnone, he⟩ | ⟨x, f, hz, halloc, he, hx, hland, hmade⟩
  · right
    refine ⟨_, g, he, Or.inl ⟨hne, rfl, (h.writePtr hcell hne ha).mono fun hl => ?_⟩⟩
    unfold SecondLands
    rw [hentry]
    exact Or.inl ⟨hne, hl⟩
  · left
    exact ⟨he, hz, hnone⟩
  · right
    obtain ⟨hbdev, hdisk, hunset⟩ := @allocBlock_bdev g f r x halloc
    have hfails : f.bdev.writeFails = g.bdev.writeFails := by rw [hbdev]
    refine ⟨x, _, he, Or.inr ⟨f, hz, halloc, rfl, ?_⟩⟩
    by_cases hlinked : PtrLands (writeBlock f x zeroBuf) (diskDoubleIndirect (g.disk r)) i x
    · have hmade := hmade hlinked
      have htried := h.made (q := Crfs.writePtr (writeBlock f x zeroBuf) (diskDoubleIndirect (g.disk r)) i x)
        hmade hx rfl hdisk (fun y hy hxy => by
          have hl1 : ¬InBlock (diskDoubleIndirect (g.disk r)) y := hy .dindirect hroot
          rw [← hbdev, ← writeBlock_off f x zeroBuf hxy]
          exact writeBlock_off _ _ _ hl1) hfails hunset
      have htable : tableAt (Crfs.writePtr (writeBlock f x zeroBuf) (diskDoubleIndirect (g.disk r)) i x).bdev.bytes
          ((Crfs.writePtr (writeBlock f x zeroBuf) (diskDoubleIndirect (g.disk r)) i x).disk r) (.second i) = x := by
        have hd : (Crfs.writePtr (writeBlock f x zeroBuf) (diskDoubleIndirect (g.disk r)) i x).disk r = g.disk r := hdisk
        rw [hd, hmade.tables, if_pos rfl]
      have hdone := htried.writePtr hcell (by rw [htable]; exact hx.ne) ha
      rw [htable] at hdone
      refine hdone.mono fun hl => ?_
      unfold SecondLands
      rw [hentry]
      exact Or.inr ⟨hz, x, f, halloc, hland, hlinked, hl⟩
    · -- The table is not entered, and the pointer is written to a block that is in no map.
      have hsame := (lands_or_same (writeBlock f x zeroBuf) _ _).resolve_left hlinked
      refine (h.scratch (q := (Crfs.writePtr (Crfs.writePtr (writeBlock f x zeroBuf) (diskDoubleIndirect (g.disk r)) i x)
        x j a).setDirty r) hx (fun y hy => ?_) ?_ hfails hunset).setTried rfl fun _ hreliable =>
          hlinked (lands_of_reliable ?_ _ _)
      · refine (writeBlock_off _ x _ hy).trans ((congrFun hsame y).trans ?_)
        rw [writeBlock_off f x zeroBuf hy, hbdev]
      · rw [Fs.disk_setDirty]
        exact hdisk
      · intro w
        show f.bdev.writeFails w = false
        rw [hfails, h.fails]
        exact hreliable w

theorem allocBlock_after (hself : g = g.withAlloc fs₁) :
    allocBlock g = (allocBlock fs₁).map fun y => (y.1, g.withAlloc y.2) := by
  rw [hself]
  exact allocBlock_withAlloc _ _

/-- **The block after the one that a table is made of.** -/
theorem root_next {y : Nat} {f : Fs} {t : TableId} (halloc : allocBlock fs = some (x, fs₁)) (hself : g = g.withAlloc fs₁)
    (hmade : TableMade fs.bdev.bytes (fs.disk r) t x g.bdev.bytes (g.disk r))
    (hoff : ∀ y, ¬InBlock x y → g.bdev.bytes y = fs.bdev.bytes y) (hfails : g.bdev.writeFails = fs.bdev.writeFails)
    (hfresh : FreshAllocs fs r) (hclear : ∀ k new f, k ≤ 2 → allocs k fs = some (new, f) → ∀ x ∈ new, Clears fs x)
    (hy : allocBlock g = some (y, f)) :
    (∃ f', f = g.withAlloc f' ∧ allocs 2 fs = some ([x, y], f')) ∧ OffMap g.bdev.bytes (g.disk r) y ∧ Clears g y := by
  rw [allocBlock_after hself] at hy
  obtain ⟨⟨y, f'⟩, hy', he⟩ := Option.map_eq_some_iff.mp hy
  cases he
  have hall : allocs 2 fs = some ([x, y], f') := by simp [allocs, halloc, hy']
  obtain ⟨hpair, hnew⟩ := hfresh 2 [x, y] f' le_rfl hall
  have hxy : BlocksApart x y := by simpa using hpair
  refine ⟨⟨f', rfl, hall⟩, hmade.offMap (hnew y (by simp)) hxy, fun w hw k hk => ?_⟩
  have hout : ¬InBlock x (y + k) := by
    unfold BlocksApart at hxy
    unfold InBlock
    omega
  rw [hfails] at hw
  rw [hoff _ hout]
  exact hclear 2 [x, y] f' le_rfl hall y (by simp) w hw k hk

theorem setTries_dindirect (hb : ¬b < indirectBase) (hb' : ¬b - indirectBase < ptrsPerBlock)
    (hb'' : b - dindirectBase < ptrsPerBlock * ptrsPerBlock) (hapart : TablesApart fs.bdev.bytes (fs.disk r))
    (hfresh : FreshAllocs fs r) (hclear : ∀ k new f, k ≤ 2 → allocs k fs = some (new, f) → ∀ x ∈ new, Clears fs x)
    (ha : a < 2 ^ 64) : SetTries fs r b a (inodeSetBlock fs r b a) := by
  obtain ⟨i, hi⟩ : ∃ i : Fin ptrsPerBlock, (i : Nat) = (b - dindirectBase) / ptrsPerBlock :=
    ⟨⟨_, Nat.div_lt_of_lt_mul hb''⟩, rfl⟩
  obtain ⟨j, hj⟩ : ∃ j : Fin ptrsPerBlock, (j : Nat) = (b - dindirectBase) % ptrsPerBlock :=
    ⟨⟨_, Nat.mod_lt _ (by decide)⟩, rfl⟩
  have hcell : cellOf b = some (.entry (.second i) j) := by
    simp only [cellOf, hb, hb', hb'', dif_pos, dif_neg, not_false_eq_true, ← hi, ← hj]
  have hroot : RootField .dindirect diskDoubleIndirect setDiskDoubleIndirect := Or.inr ⟨rfl, rfl, rfl⟩
  have hsmall : ¬mapBlocks ≤ b := by
    unfold mapBlocks dindirectBase ptrsPerBlock indirectBase at *
    omega
  have hmissing : missingTables fs.bdev.bytes (fs.disk r) b =
      (if diskDoubleIndirect (fs.disk r) = 0 then 1 else 0) +
        if tableAt fs.bdev.bytes (fs.disk r) (.second i) = 0 then 1 else 0 := by
    rw [missingTables, if_neg hb, if_neg hb', tableAt, entryOf, hi]
    by_cases hz : diskDoubleIndirect (fs.disk r) = 0
    · simp [hz]
    · simp [hz]
  have hlands : TableLands fs (diskDoubleIndirect (fs.disk r)) (fun _ _ => True)
      (fun x fs => fs.modDisk r fun d => setDiskDoubleIndirect d x) (SecondLands i j a) → SetLands fs r b a := by
    intro h
    unfold SetLands
    rw [if_neg hb, if_neg hb', if_pos hb'', ← hi, ← hj]
    exact h
  have hone : ∀ x f, allocBlock fs = some (x, f) → allocs 1 fs = some ([x], f) := fun x f h => by simp [allocs, h]
  rw [inodeSetBlock, if_neg hb, if_neg hb']
  dsimp only
  rw [if_pos hb'', ← hi, ← hj]
  rcases root_made (r := r) hroot hapart hfresh (fun x f h => hclear 1 [x] f (by decide) (hone x f h) x (by simp)) with
    ⟨hne, he⟩ | ⟨hz, hnone, he⟩ | ⟨x, fs₁, hz, halloc, he, htried, hmade, hdisk, hx, hland⟩
  · rw [he]
    have hnext : ∀ x f, allocBlock fs = some (x, f) → OffMap fs.bdev.bytes (fs.disk r) x := fun x f halloc =>
      (hfresh 1 [x] f (by decide) (hone x f halloc)).2 x (by simp)
    have hclears : ∀ x f, allocBlock fs = some (x, f) → Clears fs x := fun x f halloc =>
      hclear 1 [x] f (by decide) (hone x f halloc) x (by simp)
    dsimp only
    rcases (MapTried.refl hapart).second hcell hne hnext hclears ha with
      ⟨he', hz, hnone⟩ | ⟨y, g', he', ⟨hnz, rfl, hdone⟩ | ⟨f, hz, halloc, hself, hdone⟩⟩
    · rw [he']
      refine ⟨0, [], fs, by decide, rfl, rfl, (MapTried.refl hapart).setTried rfl (by simp), ?_⟩
      rw [hmissing, if_neg hne, if_pos hz, Nat.zero_add, allocs_one_eq_none_iff]
      simp [hnone]
    · rw [he']
      refine ⟨0, [], g', by decide, rfl, rfl, hdone.mono fun hl => hlands (Or.inl ⟨hne, hl⟩), ?_⟩
      rw [hmissing, if_neg hne, if_neg hnz]
      simp [hsmall, allocs]
    · rw [he']
      refine ⟨1, [y], f, by decide, hone y f halloc, ?_, hdone.mono fun hl => hlands (Or.inl ⟨hne, hl⟩), ?_⟩
      · exact congrArg (fun g : Fs => (Crfs.writePtr g y j a).setDirty r) hself
      · rw [hmissing, if_neg hne, if_pos hz, Nat.zero_add, allocs_one_eq_none_iff, halloc]
        simp [hsmall]
  · rw [he]
    refine ⟨0, [], fs, by decide, rfl, rfl, (MapTried.refl hapart).setTried rfl (by simp), ?_⟩
    rw [hmissing, if_pos hz, allocs_add, allocs_one_eq_none_iff.mpr hnone]
    simp
  · rw [he]
    -- The entry of a table of tables that has just been made is null, and the next block is
    -- the one after it.
    generalize hg : ((writeBlock fs₁ x zeroBuf).modDisk r fun d => setDiskDoubleIndirect d x) = g at htried hdisk
    have hbytes : g.bdev.bytes = (writeBlock fs₁ x zeroBuf).bdev.bytes := by
      rw [← hg]
      rfl
    have hself : g = g.withAlloc fs₁ := by
      rw [← hg]
      rfl
    rw [← hbytes, ← hdisk] at hmade
    have hnull : tableAt fs.bdev.bytes (fs.disk r) (.second i) = 0 := by simp [tableAt, hz, entryOf]
    have hnull' : tableAt g.bdev.bytes (g.disk r) (.second i) = 0 := by
      rw [hmade.tables, if_neg (by simp), hnull]
    have hne : diskDoubleIndirect (g.disk r) ≠ 0 := by
      have hroot' := hmade.tables .dindirect
      rw [if_pos rfl, tableAt] at hroot'
      rw [hroot']
      exact hx.ne
    have hoff : ∀ y, ¬InBlock x y → g.bdev.bytes y = fs.bdev.bytes y := by
      intro y hy
      rw [hbytes, writeBlock_off _ _ _ hy, (allocBlock_bdev (r := r) halloc).1]
    have hnext := fun y f => @root_next fs fs₁ g r x y f .dindirect halloc hself hmade hoff htried.fails hfresh hclear
    have hgone : allocs (missingTables fs.bdev.bytes (fs.disk r) b) fs = none ↔ allocBlock g = none := by
      rw [hmissing, if_pos hz, if_pos hnull, allocs_add, hone x fs₁ halloc, allocBlock_after hself, Option.bind_some,
        Option.map_eq_none_iff, Option.map_eq_none_iff, allocs_one_eq_none_iff]
    have hland' : SecondLands i j a (diskDoubleIndirect (g.disk r)) g → SetLands fs r b a := by
      intro hl
      refine hlands (Or.inr ⟨hz, x, fs₁, halloc, hland, trivial, ?_⟩)
      have hat : diskDoubleIndirect (g.disk r) = x := by
        have hroot' := hmade.tables .dindirect
        rw [if_pos rfl] at hroot'
        exact hroot'
      rw [hat] at hl
      dsimp only
      rw [hg]
      exact hl
    dsimp only
    rcases htried.second hcell hne (fun y f h => (hnext y f h).2.1) (fun y f h => (hnext y f h).2.2) ha with
      ⟨he', -, hnone⟩ | ⟨y, g', he', ⟨hnz, -, -⟩ | ⟨f, -, halloc', hself', hdone⟩⟩
    · rw [he']
      exact ⟨1, [x], fs₁, by decide, hone x fs₁ halloc, hself, htried.setTried rfl (by simp), by simp [hgone, hnone]⟩
    · exact absurd hnull' hnz
    · rw [he']
      obtain ⟨f', rfl, hall⟩ := (hnext y f halloc').1
      refine ⟨2, [x, y], f', le_rfl, hall, ?_, hdone.mono hland', ?_⟩
      · exact congrArg (fun g : Fs => (Crfs.writePtr g y j a).setDirty r) hself'
      · rw [hgone, halloc']
        simp [hsmall]

/-- **`crfs_inode_set_block`**, whatever fails. -/
theorem setTries (hapart : TablesApart fs.bdev.bytes (fs.disk r)) (hfresh : FreshAllocs fs r)
    (hclear : ∀ k new f, k ≤ 2 → allocs k fs = some (new, f) → ∀ x ∈ new, Clears fs x) (ha : a < 2 ^ 64) :
    SetTries fs r b a (inodeSetBlock fs r b a) := by
  by_cases hb : b < indirectBase
  · exact setTries_direct hb hapart ha
  by_cases hb' : b - indirectBase < ptrsPerBlock
  · refine setTries_indirect hb hb' hapart hfresh (fun x f h => ?_) ha
    exact hclear 1 [x] f (by decide) (by simp [allocs, h]) x (by simp)
  by_cases hb'' : b - dindirectBase < ptrsPerBlock * ptrsPerBlock
  · exact setTries_dindirect hb hb' hb'' hapart hfresh hclear ha
  · have hend : mapBlocks ≤ b := by
      unfold mapBlocks
      unfold dindirectBase at *
      omega
    rw [inodeSetBlock, if_neg hb, if_neg hb']
    dsimp only
    rw [if_neg hb'']
    exact ⟨0, [], fs, by decide, rfl, rfl, (MapTried.refl hapart).setTried rfl (by simp), by simp [hend]⟩

/-- On a device that does not fail. -/
theorem SetTries.setsBlock {res : Bool × Fs} (h : SetTries fs r b a res) (hdev : fs.Reliable) : SetsBlock fs r b a res := by
  obtain ⟨k, new, fs₁, -, -, -, htried, hfails⟩ := h
  refine ⟨fun hok b' => ?_, fun hok b' => ?_, hfails⟩
  · by_cases hb : b' = b
    · rcases htried.outcome with ⟨-, -, hset⟩ | ⟨-, hno⟩
      · rw [hb, if_pos rfl, hset]
      · exact absurd hdev (hno hok)
    · rw [if_neg hb, htried.others b' hb]
  · by_cases hb : b' = b
    · rcases htried.outcome with ⟨hyes, -⟩ | ⟨hkept, -⟩
      · rw [hok] at hyes
        cases hyes
      · rw [hb, hkept]
    · exact htried.others b' hb

/-- **`crfs_inode_set_block`** sets the block it is asked to set and no other, or, where the map
    ends or a table cannot be had, none at all. -/
theorem inodeSetBlock_setsBlock (hdev : fs.Reliable) (hapart : TablesApart fs.bdev.bytes (fs.disk r))
    (hfresh : FreshAllocs fs r) (b : Nat) (a : BitVec 64) :
    SetsBlock fs r b a.toNat (inodeSetBlock fs r b a.toNat) :=
  (setTries hapart hfresh (fun _ _ _ _ _ x _ => clears_of_reliable hdev x) a.isLt).setsBlock hdev

/-! ## On a live volume -/

/-- **The allocator's blocks are used by nothing else** in a live volume. -/
theorem LiveOk.freshAllocs (h : LiveOk fs) (r : InodeRef) : FreshAllocs fs r := by
  refine freshAllocs_of_behind h.cursor fun t ht => ?_
  obtain ⟨l, hw⟩ := blockWalk_tablePath fs.bdev.bytes (fs.disk r) ht
  exact ⟨(h.maps r).aligned _ _ _ hw, h.behind _ ⟨r, _, _, hw⟩⟩

end

/-! ## A file of its own -/

theorem emptyFile_cursor : CursorOk emptyFile where
  fits := by decide +kernel
  next := by decide +kernel
  cursor := fun h => absurd (by decide +kernel : emptyFile.currentSeg = 0) h

theorem emptyFile_freshAllocs : FreshAllocs emptyFile 0 := by
  refine freshAllocs_of_behind emptyFile_cursor fun t ht => ?_
  obtain ⟨l, hw⟩ := blockWalk_tablePath emptyFile.bdev.bytes (emptyFile.disk 0) ht
  exact absurd hw (blockWalk_empty_ne _ _ _ _)

/-- Block 524 is the first to take two tables. -/
theorem inodeSetBlock_setsBlock_first : SetsBlock emptyFile 0 524 7 (inodeSetBlock emptyFile 0 524 7) :=
  inodeSetBlock_setsBlock emptyFile_reliable (mapOk_empty _).tablesApart emptyFile_freshAllocs 524 7#64

end Crimson.Crfs
