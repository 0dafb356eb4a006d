import Crimson.Crfs.Live

/-!
# The cells of a block map

What the map of an inode points at need not be blocks of its own. Its pointers are cells of their
own all the same (`pointer`) as long as its tables are apart (`TablesApart`), and a block that
becomes a table is off them (`OffMap`). A table that is made changes no pointer to a block
(`TableMade.pointer_eq`), since its cells are cleared and read as null before; an entry that is
stored changes one (`pointer_store`); and what is written off the tables changes none
(`pointer_scratch`).
-/

set_option autoImplicit false

namespace Crimson.Crfs

open Crimson.Lib Crimson.Mm

/-! ## Where pointers are kept -/

/-- The tables of an inode: the block of pointers, the block of tables, and the tables in it. -/
inductive TableId where
  | indirect
  | dindirect
  | second (i : Fin ptrsPerBlock)
deriving DecidableEq, Repr

/-- A cell with the pointer to a block of the file: in the inode or in a table. -/
inductive Cell where
  | direct (i : Fin indirectBase)
  | entry (t : TableId) (j : Fin ptrsPerBlock)
deriving DecidableEq, Repr

/-- Entry `j` of the table at `a`; there are null pointers where there is no table. -/
def entryOf (m : Mem) (a : Nat) (j : Fin ptrsPerBlock) : Nat := if a = 0 then 0 else load64 m (a + 8 * j)

/-- The address of a table, or 0. -/
def tableAt (m d : Mem) : TableId → Nat
  | .indirect => diskIndirect d
  | .dindirect => diskDoubleIndirect d
  | .second i => entryOf m (diskDoubleIndirect d) i

def pointer (m d : Mem) : Cell → Nat
  | .direct i => diskDirect d i
  | .entry t j => entryOf m (tableAt m d t) j

/-- The cell of block `b`, if there is one. -/
def cellOf (b : Nat) : Option Cell :=
  if h : b < indirectBase then some (.direct ⟨b, h⟩)
  else if h : b - indirectBase < ptrsPerBlock then some (.entry .indirect ⟨b - indirectBase, h⟩)
  else if h : b - dindirectBase < ptrsPerBlock * ptrsPerBlock then
    some (.entry (.second ⟨(b - dindirectBase) / ptrsPerBlock, Nat.div_lt_of_lt_mul h⟩)
      ⟨(b - dindirectBase) % ptrsPerBlock, Nat.mod_lt _ (by decide)⟩)
  else none

/-- Tables do not overlap. -/
def TablesApart (m d : Mem) : Prop :=
  ∀ t t', t ≠ t' → tableAt m d t ≠ 0 → tableAt m d t' ≠ 0 → BlocksApart (tableAt m d t) (tableAt m d t')

/-- A block that overlaps no table. -/
structure OffMap (m d : Mem) (a : Nat) : Prop where
  ne : a ≠ 0
  apart : ∀ t, tableAt m d t ≠ 0 → BlocksApart a (tableAt m d t)

/-- **`crfs_alloc_block` returns blocks used by nothing else**: the next two, as far as it
    returns them, are off the tables and apart. -/
def FreshAllocs (fs : Fs) (r : InodeRef) : Prop :=
  ∀ n new fs₁, n ≤ 2 → allocs n fs = some (new, fs₁) →
    new.Pairwise BlocksApart ∧ ∀ x ∈ new, OffMap fs.bdev.bytes (fs.disk r) x

section

variable {r : InodeRef} {m m' d d' : Mem} {t : TableId} {c : Cell} {a b v x : Nat}

/-- **`crfs_inode_get_block`** reads the block's cell. -/
theorem inodeGetBlock_eq_pointer (fs : Fs) (r : InodeRef) (b : Nat) :
    inodeGetBlock fs r b = ((cellOf b).map (pointer fs.bdev.bytes (fs.disk r))).getD 0 := by
  unfold inodeGetBlock cellOf
  by_cases h₁ : b < indirectBase
  · simp [h₁, pointer]
  by_cases h₂ : b - indirectBase < ptrsPerBlock
  · simp only [h₁, h₂, if_true, if_false, dif_pos, dif_neg, not_false_eq_true, Option.map_some, Option.getD_some,
      pointer, tableAt, entryOf, ptrAt_readBlock fs _ h₂]
    rfl
  by_cases h₃ : b - dindirectBase < ptrsPerBlock * ptrsPerBlock
  · have hdiv : (b - dindirectBase) / ptrsPerBlock < ptrsPerBlock := Nat.div_lt_of_lt_mul h₃
    have hmod : (b - dindirectBase) % ptrsPerBlock < ptrsPerBlock := Nat.mod_lt _ (by decide)
    simp only [h₁, h₂, h₃, if_true, if_false, dif_pos, dif_neg, not_false_eq_true, Option.map_some, Option.getD_some,
      pointer, tableAt, entryOf, ptrAt_readBlock fs _ hdiv, ptrAt_readBlock fs _ hmod]
    by_cases hz : diskDoubleIndirect (fs.disk r) = 0
    · simp [hz]
    · simp [hz]
  · simp [h₁, h₂, h₃]

/-- Cells of blocks are not in the table of tables. -/
theorem cellOf_ne_dindirect {j : Fin ptrsPerBlock} : cellOf b ≠ some (.entry .dindirect j) := by
  unfold cellOf
  split
  · simp
  split
  · simp
  split
  · simp
  · simp

/-- Blocks with the same cell are the same. -/
theorem cellOf_inj {b' : Nat} (h : cellOf b = some c) (h' : cellOf b' = some c) : b' = b := by
  unfold cellOf dindirectBase indirectBase at h h'
  split at h
  · cases h
    split at h'
    · cases h'
      rfl
    split at h'
    · cases h'
    split at h'
    · cases h'
    · cases h'
  split at h
  · cases h
    split at h'
    · cases h'
    split at h'
    · have hj := congrArg Fin.val (Cell.entry.inj (Option.some.inj h')).2
      dsimp only at hj
      omega
    split at h'
    · cases h'
    · cases h'
  split at h
  · cases h
    split at h'
    · cases h'
    split at h'
    · cases h'
    split at h'
    · obtain ⟨ht, hj⟩ := Cell.entry.inj (Option.some.inj h')
      have hi := congrArg Fin.val (TableId.second.inj ht)
      have hj := congrArg Fin.val hj
      dsimp only at hi hj
      have hb := Nat.div_add_mod (b - (12 + ptrsPerBlock)) ptrsPerBlock
      have hb' := Nat.div_add_mod (b' - (12 + ptrsPerBlock)) ptrsPerBlock
      rw [hi, hj, hb] at hb'
      unfold ptrsPerBlock at *
      omega
    · cases h'
  · cases h

theorem TablesApart.congr (h : TablesApart m d) (htables : ∀ t, tableAt m' d' t = tableAt m d t) : TablesApart m' d' := by
  intro t t' hne
  rw [htables, htables]
  exact h t t' hne

/-! ## Writing an entry -/

/-- An entry stored in a table is read there, and no other entry of any table is changed. -/
theorem entryOf_store (hapart : TablesApart m d) (ht : tableAt m d t ≠ 0) (hv : v < 2 ^ 64) (j : Fin ptrsPerBlock)
    (t' : TableId) (j' : Fin ptrsPerBlock) :
    entryOf (store64 m (tableAt m d t + 8 * j) v) (tableAt m d t') j' =
      if t' = t ∧ j' = j then v else entryOf m (tableAt m d t') j' := by
  have hj := j.isLt
  have hj' := j'.isLt
  unfold ptrsPerBlock at hj hj'
  by_cases ht' : tableAt m d t' = 0
  · have hne : ¬(t' = t ∧ j' = j) := fun h => ht (h.1 ▸ ht')
    rw [if_neg hne, entryOf, entryOf, if_pos ht', if_pos ht']
  rw [entryOf, entryOf, if_neg ht', if_neg ht']
  by_cases htt : t' = t
  · subst htt
    by_cases hjj : j' = j
    · rw [hjj, load64_store64_same hv]
      simp
    · have hval : (j' : Nat) ≠ j := fun h => hjj (Fin.ext h)
      rw [load64_store64_disjoint (by omega)]
      simp [hjj]
  · have hoff := hapart t' t htt ht' ht
    unfold BlocksApart blockSize at hoff
    rw [load64_store64_disjoint (by omega)]
    simp [htt]

/-- Entries of blocks' tables are no tables. -/
theorem tableAt_store (hapart : TablesApart m d) (ht : tableAt m d t ≠ 0) (hv : v < 2 ^ 64) (j : Fin ptrsPerBlock)
    (hleaf : t ≠ .dindirect) (t' : TableId) :
    tableAt (store64 m (tableAt m d t + 8 * j) v) d t' = tableAt m d t' := by
  cases t' with
  | indirect => rfl
  | dindirect => rfl
  | second i =>
    have hentry := entryOf_store hapart ht hv j .dindirect i
    have hne : ¬(TableId.dindirect = t ∧ i = j) := fun h => hleaf h.1.symm
    rw [if_neg hne] at hentry
    exact hentry

/-- **The last write changes one pointer.** -/
theorem pointer_store (hapart : TablesApart m d) (ht : tableAt m d t ≠ 0) (hv : v < 2 ^ 64) (j : Fin ptrsPerBlock)
    (hleaf : t ≠ .dindirect) (c : Cell) :
    pointer (store64 m (tableAt m d t + 8 * j) v) d c = if c = .entry t j then v else pointer m d c := by
  cases c with
  | direct i => simp [pointer]
  | entry t' j' =>
    rw [pointer, tableAt_store hapart ht hv j hleaf, entryOf_store hapart ht hv j, pointer]
    simp

theorem tableAt_setDiskDirect (m d : Mem) (i : Fin indirectBase) (v : Nat) (t : TableId) :
    tableAt m (setDiskDirect d i v) t = tableAt m d t := by
  have hi := i.isLt
  unfold indirectBase at hi
  have h₁ : diskIndirect (setDiskDirect d i v) = diskIndirect d := load64_store64_disjoint (by omega)
  have h₂ : diskDoubleIndirect (setDiskDirect d i v) = diskDoubleIndirect d := load64_store64_disjoint (by omega)
  cases t with
  | indirect => exact h₁
  | dindirect => exact h₂
  | second k => rw [tableAt, tableAt, h₂]

/-- So does the write of a direct pointer. -/
theorem pointer_setDiskDirect (m d : Mem) (i : Fin indirectBase) (hv : v < 2 ^ 64) (c : Cell) :
    pointer m (setDiskDirect d i v) c = if c = .direct i then v else pointer m d c := by
  cases c with
  | direct k =>
    rw [pointer, pointer, diskDirect, setDiskDirect]
    by_cases hki : k = i
    · rw [hki, load64_store64_same hv]
      simp
    · have hval : (k : Nat) ≠ i := fun h => hki (Fin.ext h)
      rw [load64_store64_disjoint (by omega)]
      simp [hki, diskDirect]
  | entry t j => simp [pointer, tableAt_setDiskDirect]

/-! ## Making a table -/

/-- The table `t`, which was not there, is made at `x`; its entries are null. -/
structure TableMade (m d : Mem) (t : TableId) (x : Nat) (m' d' : Mem) : Prop where
  missing : tableAt m d t = 0
  tables : ∀ t', tableAt m' d' t' = if t' = t then x else tableAt m d t'
  entries : ∀ t' j, t' ≠ .dindirect → entryOf m' (tableAt m' d' t') j = entryOf m (tableAt m d t') j
  direct : ∀ i : Fin indirectBase, diskDirect d' i = diskDirect d i

theorem TableMade.pointer_eq (h : TableMade m d t x m' d') (hc : ∀ j, c ≠ .entry .dindirect j) :
    pointer m' d' c = pointer m d c := by
  cases c with
  | direct i => exact h.direct i
  | entry t' j =>
    refine h.entries t' j ?_
    intro ht
    exact hc j (by rw [ht])

theorem TableMade.apart (h : TableMade m d t x m' d') (hapart : TablesApart m d) (hx : OffMap m d x) :
    TablesApart m' d' := by
  intro t₁ t₂ hne h₁ h₂
  rw [h.tables t₁] at h₁ ⊢
  rw [h.tables t₂] at h₂ ⊢
  by_cases ht₁ : t₁ = t
  · have ht₂ : t₂ ≠ t := fun ht₂ => hne (ht₁.trans ht₂.symm)
    rw [if_neg ht₂] at h₂ ⊢
    rw [if_pos ht₁]
    exact hx.apart t₂ h₂
  · rw [if_neg ht₁] at h₁ ⊢
    by_cases ht₂ : t₂ = t
    · rw [if_pos ht₂]
      exact Or.symm (hx.apart t₁ h₁)
    · rw [if_neg ht₂] at h₂ ⊢
      exact hapart t₁ t₂ hne h₁ h₂

/-- Another block off the map stays off it. -/
theorem TableMade.offMap {y : Nat} (h : TableMade m d t x m' d') (hy : OffMap m d y) (hxy : BlocksApart x y) :
    OffMap m' d' y := by
  refine ⟨hy.ne, ?_⟩
  intro t' ht'
  rw [h.tables t'] at ht' ⊢
  by_cases htt : t' = t
  · rw [if_pos htt]
    exact Or.symm hxy
  · rw [if_neg htt] at ht' ⊢
    exact hy.apart t' ht'

theorem entryOf_congr (hoff : a ≠ 0 → AgreeOn m m' a blockSize) (j : Fin ptrsPerBlock) :
    entryOf m' a j = entryOf m a j := by
  have hj := j.isLt
  unfold ptrsPerBlock at hj
  rw [entryOf, entryOf]
  by_cases ha : a = 0
  · rw [if_pos ha, if_pos ha]
  · have hin : a + 8 * j + 8 ≤ a + blockSize := by
      unfold blockSize
      omega
    rw [if_neg ha, if_neg ha, load64_congr ((hoff ha).mono (by omega) hin)]

/-- Clearing a block off the map is not seen in a table. -/
theorem OffMap.cleared (hx : OffMap m d x) (t : TableId) (j : Fin ptrsPerBlock) :
    entryOf (copyBytes m x zeroBuf 0 blockSize) (tableAt m d t) j = entryOf m (tableAt m d t) j :=
  entryOf_congr (fun ht => agreeOn_copyBytes (Or.symm (hx.apart t ht))) j

theorem entryOf_cleared (m : Mem) (x : Nat) (j : Fin ptrsPerBlock) :
    entryOf (copyBytes m x zeroBuf 0 blockSize) x j = 0 := by
  rw [entryOf]
  split
  · rfl
  · exact load64_cleared j.isLt fun _ _ _ => rfl

/-- A table of the inode is made. -/
theorem tableMade_inode (hx : OffMap m d x) (hlt : x < 2 ^ 64) (hmissing : tableAt m d t = 0)
    (hd : (t = .indirect ∧ d' = setDiskIndirect d x) ∨ (t = .dindirect ∧ d' = setDiskDoubleIndirect d x)) :
    TableMade m d t x (copyBytes m x zeroBuf 0 blockSize) d' := by
  rcases hd with ⟨rfl, rfl⟩ | ⟨rfl, rfl⟩
  · have h₁ : diskIndirect (setDiskIndirect d x) = x := load64_store64_same hlt
    have h₂ : diskDoubleIndirect (setDiskIndirect d x) = diskDoubleIndirect d := load64_store64_disjoint (by omega)
    have htables : ∀ t', tableAt (copyBytes m x zeroBuf 0 blockSize) (setDiskIndirect d x) t' =
        if t' = .indirect then x else tableAt m d t' := by
      intro t'
      cases t' with
      | indirect => exact h₁
      | dindirect => exact h₂
      | second i =>
        rw [tableAt, h₂, if_neg (by simp)]
        exact hx.cleared .dindirect i
    refine ⟨hmissing, htables, ?_, ?_⟩
    · intro t' j _
      rw [htables]
      by_cases ht : t' = .indirect
      · rw [if_pos ht, ht, hmissing, entryOf_cleared]
        simp [entryOf]
      · rw [if_neg ht, hx.cleared]
    · intro i
      have hi := i.isLt
      unfold indirectBase at hi
      exact load64_store64_disjoint (by omega)
  · have h₁ : diskIndirect (setDiskDoubleIndirect d x) = diskIndirect d := load64_store64_disjoint (by omega)
    have h₂ : diskDoubleIndirect (setDiskDoubleIndirect d x) = x := load64_store64_same hlt
    have htables : ∀ t', tableAt (copyBytes m x zeroBuf 0 blockSize) (setDiskDoubleIndirect d x) t' =
        if t' = .dindirect then x else tableAt m d t' := by
      intro t'
      cases t' with
      | indirect => exact h₁
      | dindirect => exact h₂
      | second i =>
        have hnull : diskDoubleIndirect d = 0 := hmissing
        rw [tableAt, h₂, if_neg (by simp), entryOf_cleared, tableAt, hnull]
        simp [entryOf]
    refine ⟨hmissing, htables, ?_, ?_⟩
    · intro t' j ht
      rw [htables, if_neg ht, hx.cleared]
    · intro i
      have hi := i.isLt
      unfold indirectBase at hi
      exact load64_store64_disjoint (by omega)

/-- A table in the table of tables is made. -/
theorem tableMade_second {i : Fin ptrsPerBlock} (hapart : TablesApart m d) (hx : OffMap m d x) (hlt : x < 2 ^ 64)
    (hroot : diskDoubleIndirect d ≠ 0) (hmissing : tableAt m d (.second i) = 0) :
    TableMade m d (.second i) x (store64 (copyBytes m x zeroBuf 0 blockSize) (diskDoubleIndirect d + 8 * i) x) d := by
  have hclear : ∀ t, tableAt (copyBytes m x zeroBuf 0 blockSize) d t = tableAt m d t := by
    intro t
    cases t with
    | indirect => rfl
    | dindirect => rfl
    | second k => exact hx.cleared .dindirect k
  have hapart' : TablesApart (copyBytes m x zeroBuf 0 blockSize) d := hapart.congr hclear
  have hentry := entryOf_store (t := .dindirect) hapart' hroot hlt i
  have htables : ∀ t', tableAt (store64 (copyBytes m x zeroBuf 0 blockSize) (diskDoubleIndirect d + 8 * i) x) d t' =
      if t' = .second i then x else tableAt m d t' := by
    intro t'
    cases t' with
    | indirect => simp [tableAt]
    | dindirect => simp [tableAt]
    | second k =>
      have hk := hentry .dindirect k
      have hold := hx.cleared .dindirect k
      rw [tableAt] at hk hold
      rw [tableAt, hk, hold]
      simp [tableAt]
  refine ⟨hmissing, htables, ?_, fun _ => rfl⟩
  intro t' j ht
  rw [htables]
  by_cases hti : t' = .second i
  · -- The new table is off the one it is entered in.
    have hoff : AgreeOn (copyBytes m x zeroBuf 0 blockSize)
        (store64 (copyBytes m x zeroBuf 0 blockSize) (diskDoubleIndirect d + 8 * i) x) x blockSize := by
      have hi := i.isLt
      have hxd := hx.apart .dindirect hroot
      unfold ptrsPerBlock at hi
      unfold BlocksApart blockSize at hxd
      rw [tableAt] at hxd
      exact agreeOn_store64 (by unfold blockSize; omega)
    rw [if_pos hti, entryOf_congr (fun _ => hoff), entryOf_cleared, hti, hmissing]
    simp [entryOf]
  · have hj := hentry t' j
    have hne : ¬(t' = .dindirect ∧ j = i) := fun h => ht h.1
    rw [if_neg hne, hclear t', hx.cleared] at hj
    rw [if_neg hti]
    exact hj

/-! ## Writing off the tables -/

theorem entryOf_scratch (hx : ∀ t, tableAt m d t ≠ 0 → BlocksApart x (tableAt m d t))
    (hoff : ∀ y, ¬InBlock x y → m' y = m y) (t : TableId) (j : Fin ptrsPerBlock) :
    entryOf m' (tableAt m d t) j = entryOf m (tableAt m d t) j := by
  refine entryOf_congr (fun ht y hlow hhigh => hoff y fun hin => ?_) j
  have hapart := hx t ht
  unfold BlocksApart at hapart
  unfold InBlock at hin
  omega

theorem tableAt_scratch (hx : ∀ t, tableAt m d t ≠ 0 → BlocksApart x (tableAt m d t))
    (hoff : ∀ y, ¬InBlock x y → m' y = m y) (t : TableId) : tableAt m' d t = tableAt m d t := by
  cases t with
  | indirect => rfl
  | dindirect => rfl
  | second i => exact entryOf_scratch hx hoff .dindirect i

theorem pointer_scratch (hx : ∀ t, tableAt m d t ≠ 0 → BlocksApart x (tableAt m d t))
    (hoff : ∀ y, ¬InBlock x y → m' y = m y) (c : Cell) : pointer m' d c = pointer m d c := by
  cases c with
  | direct i => rfl
  | entry t j =>
    rw [pointer, tableAt_scratch hx hoff]
    exact entryOf_scratch hx hoff t j

/-! ## Paths to tables -/

/-- The path to a table in the tree of the inode. -/
def tablePath : TableId → List Nat
  | .indirect => [12]
  | .dindirect => [13]
  | .second i => [13, i]

theorem tablePath_inj {t t' : TableId} (h : tablePath t = tablePath t') : t = t' := by
  cases t with
  | indirect => cases t' <;> simp_all [tablePath]
  | dindirect => cases t' <;> simp_all [tablePath]
  | second i =>
    cases t' with
    | indirect => simp [tablePath] at h
    | dindirect => simp [tablePath] at h
    | second k =>
      have hval : (i : Nat) = k := by simpa [tablePath] using h
      rw [Fin.ext hval]

theorem blockWalk_tablePath (m d : Mem) (ht : tableAt m d t ≠ 0) :
    ∃ l, blockWalk m d (tablePath t) = some (.block (l + 1) (tableAt m d t)) := by
  have hone : ∀ i, blockWalk m d [i] = mapChild (mapEntry m d .inode i) := fun i => blockWalk_snoc m d [] i
  cases t with
  | indirect => exact ⟨0, (hone 12).trans (if_neg ht)⟩
  | dindirect => exact ⟨1, (hone 13).trans (if_neg ht)⟩
  | second i =>
    have hroot : diskDoubleIndirect d ≠ 0 := by
      intro hz
      exact ht (by simp [tableAt, hz, entryOf])
    have hentry : load64 m (diskDoubleIndirect d + 8 * i) = tableAt m d (.second i) := by
      rw [tableAt, entryOf, if_neg hroot]
    have hsplit : tablePath (.second i) = [13] ++ [(i : Nat)] := rfl
    refine ⟨0, ?_⟩
    rw [hsplit, blockWalk_snoc, hone, mapEntry_dindirect, bind_mapChild _ _ _ _ i.isLt, if_neg hroot, hentry, mapChild,
      if_neg ht]

theorem addrOf_tablePath (m d : Mem) (t : TableId) : addrOf (blockWalk m d (tablePath t)) = tableAt m d t := by
  have hone : ∀ i, blockWalk m d [i] = mapChild (mapEntry m d .inode i) := fun i => blockWalk_snoc m d [] i
  cases t with
  | indirect => exact (congrArg addrOf (hone 12)).trans (addrOf_mapChild _)
  | dindirect => exact (congrArg addrOf (hone 13)).trans (addrOf_mapChild _)
  | second i =>
    have hsplit : tablePath (.second i) = [13] ++ [(i : Nat)] := rfl
    rw [hsplit, blockWalk_snoc, hone, mapEntry_dindirect, bind_mapChild _ _ _ _ i.isLt, tableAt, entryOf]
    split
    · rfl
    · exact addrOf_mapChild _

/-- How far above the blocks of the file a table is. -/
def TableId.level : TableId → Nat
  | .indirect => 1
  | .dindirect => 2
  | .second _ => 1

/-- A path that leads to a block is that of a block of the file or of a table. -/
theorem blockWalk_path {p : List Nat} {l : Nat} (h : blockWalk m d p = some (.block l x)) :
    (l = 0 ∧ ∃ b, b < mapBlocks ∧ p = blockPath b) ∨ ∃ t : TableId, p = tablePath t ∧ l = t.level := by
  induction p using List.reverseRecOn generalizing l x with
  | nil => cases h
  | append_singleton q i ih =>
    rw [blockWalk_snoc] at h
    obtain ⟨u, hu, hchild⟩ := Option.bind_eq_some_iff.mp h
    obtain ⟨hne, hblock⟩ := mapChild_eq_some hchild
    have hl := (MapTable.block.inj hblock).1
    clear h hchild hblock
    -- the last step goes from the inode, or from a table that `ih` knows
    cases u with
    | inode =>
      rw [blockWalk_inode hu]
      rw [mapEntry] at hne hl
      by_cases hi : i < indirectBase
      · rw [if_pos hi] at hl
        refine Or.inl ⟨hl, i, ?_, ?_⟩
        · unfold mapBlocks dindirectBase
          omega
        · unfold blockPath
          rw [if_pos hi]
          rfl
      · rw [if_neg hi] at hl hne
        by_cases h12 : i = 12
        · rw [if_pos h12] at hl
          exact Or.inr ⟨.indirect, by rw [h12]; rfl, hl⟩
        · rw [if_neg h12] at hl hne
          by_cases h13 : i = 13
          · rw [if_pos h13] at hl
            exact Or.inr ⟨.dindirect, by rw [h13]; rfl, hl⟩
          · rw [if_neg h13] at hne
            exact absurd rfl hne
    | block l' x' =>
      cases l' with
      | zero => exact absurd rfl hne
      | succ l' =>
        have hi : i < ptrsPerBlock := by
          by_contra hi
          rw [mapEntry, if_neg hi] at hne
          exact hne rfl
        have hl : l = l' := hl
        rcases ih hu with ⟨hzero, -⟩ | ⟨t, rfl, hlevel⟩
        · cases hzero
        · cases t with
          | indirect =>
            refine Or.inl ⟨hl.trans (Nat.succ.inj hlevel), indirectBase + i, ?_, ?_⟩
            · unfold mapBlocks dindirectBase
              unfold ptrsPerBlock at *
              unfold indirectBase
              omega
            · unfold blockPath
              rw [if_neg (by omega), if_pos (by omega), Nat.add_sub_cancel_left]
              rfl
          | dindirect => exact Or.inr ⟨.second ⟨i, hi⟩, rfl, hl.trans (Nat.succ.inj hlevel)⟩
          | second k =>
            have hk := k.isLt
            have hsum : (ptrsPerBlock * k + i) / ptrsPerBlock = k ∧ (ptrsPerBlock * k + i) % ptrsPerBlock = i := by
              unfold ptrsPerBlock at *
              omega
            refine Or.inl ⟨hl.trans (Nat.succ.inj hlevel), dindirectBase + (ptrsPerBlock * k + i), ?_, ?_⟩
            · unfold mapBlocks
              unfold ptrsPerBlock at *
              omega
            · unfold blockPath
              rw [if_neg (by unfold dindirectBase; omega), if_neg (by unfold dindirectBase; omega),
                Nat.add_sub_cancel_left, if_pos (by unfold ptrsPerBlock at *; omega), hsum.1, hsum.2]
              rfl

theorem MapOk.tablesApart (h : MapOk m d) : TablesApart m d := by
  intro t t' hne ht ht'
  obtain ⟨l, hw⟩ := blockWalk_tablePath m d ht
  obtain ⟨l', hw'⟩ := blockWalk_tablePath m d ht'
  have hpath : tablePath t ≠ tablePath t' := fun hp => hne (tablePath_inj hp)
  exact blocks_apart (h.aligned _ _ _ hw) (h.aligned _ _ _ hw') (h.apart _ _ _ _ _ _ hw hw' hpath)

/-! ## Blocks for tables -/

/-- Where the tables were handed out before, those that come next are apart from them. -/
theorem freshAllocs_of_behind {fs : Fs} (hcursor : CursorOk fs)
    (htables : ∀ t, tableAt fs.bdev.bytes (fs.disk r) t ≠ 0 →
      tableAt fs.bdev.bytes (fs.disk r) t % blockSize = 0 ∧ Behind fs (tableAt fs.bdev.bytes (fs.disk r) t)) :
    FreshAllocs fs r := by
  intro n new fs₁ hn hnew
  have hmoved := allocs_cursor hcursor hnew
  have haligned := hmoved.aligned hnew
  have hnodup := allocs_nodup hnew (fun x hx => (haligned x hx).1) (by unfold blocksPerSeg; omega)
  constructor
  · refine hnodup.imp_of_mem ?_
    intro x y hx hy hne
    exact blocks_apart (haligned x hx).2.2 (haligned y hy).2.2 hne
  · intro x hx
    refine ⟨(haligned x hx).1, ?_⟩
    intro t ht
    obtain ⟨hat, hbehind⟩ := htables t ht
    refine blocks_apart (haligned x hx).2.2 hat ?_
    intro hxt
    exact hmoved.ahead x hx (hxt ▸ hbehind)

end

end Crimson.Crfs
