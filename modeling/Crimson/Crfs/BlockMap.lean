import Crimson.Lib.Radix
import Crimson.Crfs.Segments

/-!
# The block map of an inode

The pointers of an inode are a tree of tables: entries 0 to 11 of the inode lead to blocks of
the file, entry 12 to a block of pointers to them, and entry 13 to a block of pointers to such
blocks. `blockWalk` follows a path in it, and `crfs_inode_get_block` is the walk along the
block's path (`inodeGetBlock_eq`).

`MapOk` says that the blocks of pointers are apart from one another and from the file's
blocks. Then an entry can be overwritten where it is: `crfs_inode_set_block` changes the
block it is asked to change and no other (`inodeSetBlock_spec`), provided the blocks of
pointers that it allocates are not in use.
-/

set_option autoImplicit false

namespace Crimson.Crfs

open Crimson.Lib Crimson.Mm

/-! ## The tree -/

/-- The inode, or a block with so many levels of pointers below it. -/
inductive MapTable where
  | inode
  | block (level addr : Nat)
deriving DecidableEq, Repr

/-- An entry of a table: how many levels of pointers lie below it, and the pointer. -/
def mapEntry (m d : Mem) : MapTable → Nat → Nat × Nat
  | .inode, i =>
    if i < indirectBase then (0, diskDirect d i)
    else if i = 12 then (1, diskIndirect d)
    else if i = 13 then (2, diskDoubleIndirect d)
    else (0, 0)
  | .block 0 _, _ => (0, 0)
  | .block (l + 1) a, i => (l, if i < ptrsPerBlock then load64 m (a + 8 * i) else 0)

def mapChild (e : Nat × Nat) : Option MapTable := if e.2 = 0 then none else some (.block e.1 e.2)

/-- What a path leads to, in the tree of the inode `d` over the disk `m`. -/
def blockWalk (m d : Mem) (p : List Nat) : Option MapTable := walk mapChild (mapEntry m d) .inode p

/-- The number of blocks the map has room for. -/
def mapBlocks : Nat := dindirectBase + ptrsPerBlock * ptrsPerBlock

def blockPath (b : Nat) : List Nat :=
  if b < indirectBase then [b]
  else if b - indirectBase < ptrsPerBlock then [12, b - indirectBase]
  else if b - dindirectBase < ptrsPerBlock * ptrsPerBlock then
    [13, (b - dindirectBase) / ptrsPerBlock, (b - dindirectBase) % ptrsPerBlock]
  else [14]

def addrOf : Option MapTable → Nat
  | some (.block _ a) => a
  | _ => 0

/-- The disk address of a block of the file, or zero. -/
def mapAt (m d : Mem) (b : Nat) : Nat := addrOf (blockWalk m d (blockPath b))

theorem ptrAt_readBlock (fs : Fs) (a : Nat) {i : Nat} (hi : i < ptrsPerBlock) :
    ptrAt (readBlock fs a zeroBuf) i = load64 fs.bdev.bytes (a + 8 * i) := by
  have hin : 8 * i + 8 ≤ blockSize := by
    unfold ptrsPerBlock at hi
    unfold blockSize
    omega
  have hload := @load64_copyBytes zeroBuf 0 a blockSize fs.bdev.bytes (8 * i) hin
  rw [Nat.zero_add] at hload
  exact hload

theorem addrOf_mapChild (e : Nat × Nat) : addrOf (mapChild e) = e.2 := by
  unfold mapChild
  split
  case isTrue h => exact h.symm
  case isFalse h => rfl

theorem blockWalk_snoc (m d : Mem) (p : List Nat) (i : Nat) :
    blockWalk m d (p ++ [i]) = (blockWalk m d p).bind fun t => mapChild (mapEntry m d t i) := walk_snoc

/-- One level down, from a pointer to a block of pointers. -/
theorem bind_mapChild (m d : Mem) (l a : Nat) {i : Nat} (hi : i < ptrsPerBlock) :
    ((mapChild (l + 1, a)).bind fun t => mapChild (mapEntry m d t i)) =
      if a = 0 then none else mapChild (l, load64 m (a + 8 * i)) := by
  by_cases ha : a = 0
  · simp [mapChild, ha]
  · simp [mapChild, ha, mapEntry, hi]

theorem mapEntry_indirect (m d : Mem) : mapEntry m d .inode 12 = (1, diskIndirect d) := rfl

theorem mapEntry_dindirect (m d : Mem) : mapEntry m d .inode 13 = (2, diskDoubleIndirect d) := rfl

/-- **`crfs_inode_get_block`** is the walk to the block. -/
theorem inodeGetBlock_eq (fs : Fs) (r : InodeRef) (b : Nat) :
    inodeGetBlock fs r b = mapAt fs.bdev.bytes (fs.disk r) b := by
  have hone : ∀ i, blockWalk fs.bdev.bytes (fs.disk r) [i] =
      mapChild (mapEntry fs.bdev.bytes (fs.disk r) .inode i) := fun i => blockWalk_snoc _ _ [] i
  unfold inodeGetBlock mapAt blockPath
  by_cases h₁ : b < indirectBase
  · rw [if_pos h₁, if_pos h₁, hone, addrOf_mapChild, mapEntry, if_pos h₁]
  by_cases h₂ : b - indirectBase < ptrsPerBlock
  · have hsplit : [12, b - indirectBase] = [12] ++ [b - indirectBase] := rfl
    rw [if_neg h₁, if_pos h₂, if_neg h₁, if_pos h₂, hsplit, blockWalk_snoc, hone, mapEntry_indirect,
      bind_mapChild _ _ _ _ h₂, ptrAt_readBlock fs _ h₂]
    split
    · rfl
    · exact (addrOf_mapChild (0, _)).symm
  by_cases h₃ : b - dindirectBase < ptrsPerBlock * ptrsPerBlock
  · have hdiv : (b - dindirectBase) / ptrsPerBlock < ptrsPerBlock := Nat.div_lt_of_lt_mul h₃
    have hmod : (b - dindirectBase) % ptrsPerBlock < ptrsPerBlock := Nat.mod_lt _ (by decide)
    have hsplit : [13, (b - dindirectBase) / ptrsPerBlock, (b - dindirectBase) % ptrsPerBlock] =
        ([13] ++ [(b - dindirectBase) / ptrsPerBlock]) ++ [(b - dindirectBase) % ptrsPerBlock] := rfl
    simp only [if_neg h₁, if_neg h₂, if_pos h₃]
    rw [hsplit, blockWalk_snoc, blockWalk_snoc, hone, mapEntry_dindirect, bind_mapChild _ _ _ _ hdiv,
      ptrAt_readBlock fs _ hdiv, ptrAt_readBlock fs _ hmod]
    by_cases hz : diskDoubleIndirect (fs.disk r) = 0
    · rw [if_pos hz, if_pos hz]
      rfl
    · rw [if_neg hz, if_neg hz, bind_mapChild _ _ _ _ hmod]
      split
      · rfl
      · exact (addrOf_mapChild (0, _)).symm
  · simp only [if_neg h₁, if_neg h₂, if_neg h₃]
    rw [hone, addrOf_mapChild]
    rfl

/-! ## Maps in order -/

/-- Blocks of pointers are apart from all other blocks of the tree, and blocks begin where
    blocks do. -/
structure MapOk (m d : Mem) : Prop where
  aligned : ∀ p l a, blockWalk m d p = some (.block l a) → a % blockSize = 0
  apart : ∀ p q l l' a a', blockWalk m d p = some (.block (l + 1) a) →
    blockWalk m d q = some (.block l' a') → p ≠ q → a ≠ a'

/-- A block that the tree does not refer to. -/
structure FreshBlock (m d : Mem) (a : Nat) : Prop where
  ne : a ≠ 0
  aligned : a % blockSize = 0
  lt : a < 2 ^ 64
  unused : ∀ p l, blockWalk m d p ≠ some (.block l a)

variable {m m' d d' : Mem} {p q : List Nat} {i a l : Nat} {t : MapTable} {e : Nat × Nat}

/-- A walk depends on the inode and on the blocks of pointers. -/
theorem blockWalk_congr (hdisk : ∀ i, mapEntry m' d' .inode i = mapEntry m d .inode i)
    (hblocks : ∀ p l a, blockWalk m d p = some (.block (l + 1) a) → AgreeOn m m' a blockSize) :
    blockWalk m' d' q = blockWalk m d q := by
  refine walk_congr fun p j _ t ht => ?_
  cases t with
  | inode => exact hdisk j
  | block l a =>
    cases l with
    | zero => rfl
    | succ l =>
      by_cases hj : j < ptrsPerBlock
      · have hin : a + 8 * j + 8 ≤ a + blockSize := by
          unfold ptrsPerBlock at hj
          unfold blockSize
          omega
        have hload := load64_congr ((hblocks p l a ht).mono (b := a + 8 * j) (k := 8) (by omega) hin)
        rw [mapEntry, mapEntry, if_pos hj, if_pos hj, hload]
      · rw [mapEntry, mapEntry, if_neg hj, if_neg hj]

theorem MapOk.congr (h : MapOk m d) (hw : ∀ q, blockWalk m' d' q = blockWalk m d q) : MapOk m' d' where
  aligned := fun p l a hp => h.aligned p l a (by rw [← hw]; exact hp)
  apart := fun p q l l' a a' hp hq =>
    h.apart p q l l' a a' (by rw [← hw]; exact hp) (by rw [← hw]; exact hq)

/-! ## Writing an entry -/

/-- Entry `i` of the table at `p` reads `e`, and the others read as before. -/
structure EntryWritten (m d : Mem) (p : List Nat) (t : MapTable) (i : Nat) (e : Nat × Nat) (m' d' : Mem) : Prop where
  table : blockWalk m d p = some t
  entry : mapEntry m' d' t i = e
  other : ∀ q b j, blockWalk m d q = some b → ¬(q = p ∧ j = i) → mapEntry m' d' b j = mapEntry m d b j

theorem EntryWritten.walk_other (h : EntryWritten m d p t i e m' d') (hq : ¬p ++ [i] <+: q) :
    blockWalk m' d' q = blockWalk m d q :=
  walk_write (fun q b j _ hb hne => h.other q b j hb hne) le_rfl hq

/-- The way to the table itself does not pass through its entry. -/
theorem EntryWritten.walk_table (h : EntryWritten m d p t i e m' d') : blockWalk m' d' p = some t := by
  rw [h.walk_other fun hpre => ?_, h.table]
  have hle := hpre.length_le
  rw [List.length_append, List.length_singleton] at hle
  omega

/-- **A pointer to a block of the file** is overwritten: that walk changes, and no other. -/
theorem EntryWritten.leaf (h : EntryWritten m d p t i (0, a) m' d') (hold : (mapEntry m d t i).1 = 0) (ha : a ≠ 0) :
    blockWalk m' d' q = if q = p ++ [i] then some (.block 0 a) else blockWalk m d q := by
  by_cases hpre : p ++ [i] <+: q
  · obtain ⟨q, rfl⟩ := hpre
    have hnew : blockWalk m' d' (p ++ [i]) = some (.block 0 a) := by
      rw [blockWalk_snoc, h.walk_table, Option.bind_some, h.entry, mapChild, if_neg ha]
    cases q with
    | nil => rw [List.append_nil, if_pos rfl, hnew]
    | cons j q =>
      have hne : p ++ [i] ++ j :: q ≠ p ++ [i] := by simp
      have hleaf : blockWalk m d (p ++ [i] ++ j :: q) = none := by
        refine walk_append.trans ?_
        have hstep : blockWalk m d (p ++ [i]) = mapChild (mapEntry m d t i) := by
          rw [blockWalk_snoc, h.table, Option.bind_some]
        unfold blockWalk at hstep
        rw [hstep]
        unfold mapChild
        split
        · rfl
        · rw [hold]
          rfl
      rw [if_neg hne, hleaf]
      unfold blockWalk at hnew ⊢
      rw [walk_append, hnew]
      rfl
  · have hne : q ≠ p ++ [i] := fun he => hpre (he ▸ List.prefix_refl _)
    rw [if_neg hne]
    exact h.walk_other hpre

/-- **A block of null pointers** is linked into a null entry: one walk is added. -/
theorem EntryWritten.graft (h : EntryWritten m d p t i (l + 1, a) m' d') (hold : (mapEntry m d t i).2 = 0)
    (ha : a ≠ 0) (hnull : ∀ j, j < ptrsPerBlock → load64 m' (a + 8 * j) = 0) :
    blockWalk m' d' q = if q = p ++ [i] then some (.block (l + 1) a) else blockWalk m d q := by
  refine walk_graft (n := q.length) h.table ?_ ?_ ?_ (fun q b j _ hb hne => h.other q b j hb hne) le_rfl
  · unfold mapChild
    rw [if_pos hold]
  · rw [h.entry]
    unfold mapChild
    rw [if_neg ha]
  · intro j
    rw [mapEntry]
    by_cases hj : j < ptrsPerBlock
    · rw [if_pos hj, hnull j hj]
      rfl
    · rw [if_neg hj]
      rfl

/-- Blocks that begin at different places do not overlap. -/
theorem blocks_apart {x y : Nat} (hx : x % blockSize = 0) (hy : y % blockSize = 0) (hne : x ≠ y) :
    x + blockSize ≤ y ∨ y + blockSize ≤ x := by
  unfold blockSize at *
  omega

/-- An entry of the inode is written, and no block of pointers with it. -/
theorem entryWritten_inode (hentry : ∀ j, mapEntry m' d' .inode j = if j = i then e else mapEntry m d .inode j)
    (hblocks : ∀ q l x, blockWalk m d q = some (.block (l + 1) x) → AgreeOn m m' x blockSize)
    (hroot : ∀ q, blockWalk m d q = some .inode → q = []) : EntryWritten m d [] .inode i e m' d' where
  table := rfl
  entry := by rw [hentry, if_pos rfl]
  other := by
    intro q b j hb hne
    cases b with
    | inode =>
      have hj : j ≠ i := fun hj => hne ⟨hroot q hb, hj⟩
      rw [hentry, if_neg hj]
    | block l x =>
      cases l with
      | zero => rfl
      | succ l =>
        by_cases hj : j < ptrsPerBlock
        · have hin : x + 8 * j + 8 ≤ x + blockSize := by
            unfold ptrsPerBlock at hj
            unfold blockSize
            omega
          have hload := load64_congr ((hblocks q l x hb).mono (b := x + 8 * j) (k := 8) (by omega) hin)
          rw [mapEntry, mapEntry, if_pos hj, if_pos hj, hload]
        · rw [mapEntry, mapEntry, if_neg hj, if_neg hj]

/-- Only the empty path leads to the inode. -/
theorem blockWalk_inode (h : blockWalk m d q = some .inode) : q = [] := by
  induction q using List.reverseRecOn with
  | nil => rfl
  | append_singleton q j _ =>
    rw [blockWalk_snoc] at h
    obtain ⟨t, -, ht⟩ := Option.bind_eq_some_iff.mp h
    unfold mapChild at ht
    split at ht
    case isTrue hz => exact absurd ht (by simp)
    case isFalse hz => exact absurd (Option.some.inj ht) (by simp)

/-- An entry of a block of pointers is written, and nothing else in any of them. -/
theorem entryWritten_block {x v : Nat} (hok : MapOk m d) (ht : blockWalk m d p = some (.block (l + 1) x))
    (hi : i < ptrsPerBlock) (hentry : load64 m' (x + 8 * i) = v)
    (hrest : ∀ q l' x' y, blockWalk m d q = some (.block (l' + 1) x') → x' ≤ y → y < x' + blockSize →
      y < x + 8 * i ∨ x + 8 * i + 8 ≤ y → m' y = m y) :
    EntryWritten m d p (.block (l + 1) x) i (l, v) m' d where
  table := ht
  entry := by rw [mapEntry, if_pos hi, hentry]
  other := by
    intro q b j hb hne
    cases b with
    | inode => rfl
    | block l' x' =>
      cases l' with
      | zero => rfl
      | succ l' =>
        by_cases hj : j < ptrsPerBlock
        · rw [mapEntry, mapEntry, if_pos hj, if_pos hj]
          have hcell : x' + 8 * j + 8 ≤ x + 8 * i ∨ x + 8 * i + 8 ≤ x' + 8 * j := by
            by_cases hx : x' = x
            · have hq : q = p := by
                by_contra hqp
                exact hok.apart q p l' (l + 1) x' x hb ht hqp hx
              have hji : j ≠ i := fun hji => hne ⟨hq, hji⟩
              omega
            · have hapart := blocks_apart (hok.aligned q _ _ hb) (hok.aligned p _ _ ht) hx
              unfold ptrsPerBlock at hi hj
              unfold blockSize at hapart
              omega
          have hin : x' + 8 * j + 8 ≤ x' + blockSize := by
            unfold ptrsPerBlock at hj
            unfold blockSize
            omega
          rw [load64_congr fun y h₁ h₂ => hrest q l' x' y hb (by omega) (by omega) (by omega)]
        · rw [mapEntry, mapEntry, if_neg hj, if_neg hj]

/-! ## Linking a block -/

/-- No block of pointers in the tree has the byte in it. -/
def OffTables (m d : Mem) (y : Nat) : Prop :=
  ∀ q l x, blockWalk m d q = some (.block (l + 1) x) → y < x ∨ x + blockSize ≤ y

/-- **The path `p` now leads to the block `a`**, and every other path to where it led before;
    nothing is written but blocks of pointers. -/
structure Links (m d : Mem) (p : List Nat) (l a : Nat) (m' d' : Mem) : Prop where
  walk : ∀ q, blockWalk m' d' q = if q = p then some (.block l a) else blockWalk m d q
  leaf : ∀ l' x, blockWalk m d p ≠ some (.block (l' + 1) x)
  bytes : ∀ y, OffTables m' d' y → m' y = m y

theorem Links.mapOk (h : Links m d p l a m' d') (hok : MapOk m d) (ha : FreshBlock m d a) : MapOk m' d' where
  aligned := by
    intro q l' x hq
    rw [h.walk] at hq
    split at hq
    · rw [← (MapTable.block.inj (Option.some.inj hq)).2]
      exact ha.aligned
    · exact hok.aligned q l' x hq
  apart := by
    intro q q' l₁ l₂ x x' hq hq' hne
    rw [h.walk] at hq hq'
    by_cases hqp : q = p
    · have hqp' : q' ≠ p := fun hqp' => hne (hqp.trans hqp'.symm)
      rw [if_pos hqp] at hq
      rw [if_neg hqp'] at hq'
      rw [← (MapTable.block.inj (Option.some.inj hq)).2]
      rintro rfl
      exact ha.unused q' l₂ hq'
    · rw [if_neg hqp] at hq
      by_cases hqp' : q' = p
      · rw [if_pos hqp'] at hq'
        rw [← (MapTable.block.inj (Option.some.inj hq')).2]
        rintro rfl
        exact ha.unused q _ hq
      · rw [if_neg hqp'] at hq'
        exact hok.apart q q' l₁ l₂ x x' hq hq' hne

/-- Another fresh block is still fresh. -/
theorem Links.fresh {b : Nat} (h : Links m d p l a m' d') (hb : FreshBlock m d b) (hne : b ≠ a) :
    FreshBlock m' d' b where
  ne := hb.ne
  aligned := hb.aligned
  lt := hb.lt
  unused := by
    intro q l' hq
    rw [h.walk] at hq
    split at hq
    · exact hne (MapTable.block.inj (Option.some.inj hq)).2.symm
    · exact hb.unused q l' hq

theorem Links.refs {x l' : Nat} (h : Links m d p l a m' d') (hq : blockWalk m' d' q = some (.block l' x)) :
    x = a ∨ (q ≠ p ∧ blockWalk m d q = some (.block l' x)) := by
  rw [h.walk] at hq
  split at hq
  case isTrue _ => exact Or.inl (MapTable.block.inj (Option.some.inj hq)).2.symm
  case isFalse hqp => exact Or.inr ⟨hqp, hq⟩

/-- Tables stay where they are. -/
theorem Links.table {x l' : Nat} (h : Links m d p l a m' d') (hq : blockWalk m d q = some (.block (l' + 1) x)) :
    blockWalk m' d' q = some (.block (l' + 1) x) := by
  have hne : q ≠ p := by
    rintro rfl
    exact h.leaf l' x hq
  rw [h.walk, if_neg hne, hq]

theorem Links.offTables {y : Nat} (h : Links m d p l a m' d') (hy : OffTables m' d' y) : OffTables m d y :=
  fun q l' x hq => hy q l' x (h.table hq)

/-! The four ways in which `crfs_inode_set_block` links a block. -/

theorem links_direct (hi : i < indirectBase) (ha : FreshBlock m d a) : Links m d [i] 0 a m (setDiskDirect d i a) := by
  have hentry : ∀ j, mapEntry m (setDiskDirect d i a) .inode j = if j = i then (0, a) else mapEntry m d .inode j := by
    intro j
    unfold indirectBase at hi
    by_cases hj : j < indirectBase
    · rw [mapEntry, mapEntry, if_pos hj, if_pos hj]
      split
      case isTrue hji =>
        rw [hji, diskDirect, setDiskDirect, load64_store64_same ha.lt]
      case isFalse hji =>
        rw [diskDirect, setDiskDirect, load64_store64_disjoint (by omega)]
        rfl
    · have hji : j ≠ i := by
        unfold indirectBase at hj
        omega
      have h₁ : diskIndirect (setDiskDirect d i a) = diskIndirect d := load64_store64_disjoint (by omega)
      have h₂ : diskDoubleIndirect (setDiskDirect d i a) = diskDoubleIndirect d := load64_store64_disjoint (by omega)
      rw [mapEntry, mapEntry, if_neg hj, if_neg hj, if_neg hji, h₁, h₂]
  have hold : (mapEntry m d .inode i).1 = 0 := by rw [mapEntry, if_pos hi]
  have hwritten := entryWritten_inode hentry (fun _ _ _ _ _ _ _ => rfl) fun q hq => blockWalk_inode hq
  refine ⟨fun q => hwritten.leaf hold ha.ne, fun l' x hx => ?_, fun y _ => rfl⟩
  have hstep : blockWalk m d [i] = mapChild (mapEntry m d .inode i) := blockWalk_snoc m d [] i
  rw [hstep, mapEntry, if_pos hi] at hx
  unfold mapChild at hx
  split at hx
  · exact absurd hx (by simp)
  · exact absurd (Option.some.inj hx) (by simp)

/-- A block that is not in the tree overlaps no table of it. -/
theorem FreshBlock.apart {x : Nat} (ha : FreshBlock m d a) (hok : MapOk m d) (hq : blockWalk m d q = some (.block l x)) :
    a + blockSize ≤ x ∨ x + blockSize ≤ a := by
  refine blocks_apart ha.aligned (hok.aligned q _ x hq) ?_
  rintro rfl
  exact ha.unused q l hq

/-- Clearing a block that is not in the tree is not seen in it. -/
theorem clear_fresh {x : Nat} (ha : FreshBlock m d a) (hok : MapOk m d) (hq : blockWalk m d q = some (.block l x)) :
    AgreeOn m (copyBytes m a zeroBuf 0 blockSize) x blockSize :=
  agreeOn_copyBytes (ha.apart hok hq).symm

theorem loadBytes_zeroBuf {n : Nat} : loadBytes zeroBuf a n = 0 := by
  induction n generalizing a with
  | zero => rfl
  | succ n ih =>
    rw [loadBytes, ih]
    rfl

theorem load64_cleared {src : Mem} {j : Nat} (hj : j < ptrsPerBlock)
    (hsrc : AgreeOn (copyBytes m a zeroBuf 0 blockSize) src a blockSize) : load64 src (a + 8 * j) = 0 := by
  have hin : 8 * j + 8 ≤ blockSize := by
    unfold ptrsPerBlock at hj
    unfold blockSize
    omega
  have hinside : a + 8 * j + 8 ≤ a + blockSize := by omega
  rw [load64_congr (hsrc.mono (by omega) hinside), load64_copyBytes hin]
  exact loadBytes_zeroBuf

theorem links_graft_inode (hi : i = 12 ∧ l = 0 ∧ d' = setDiskIndirect d a ∨ i = 13 ∧ l = 1 ∧ d' = setDiskDoubleIndirect d a)
    (hold : (mapEntry m d .inode i).2 = 0) (hok : MapOk m d) (ha : FreshBlock m d a) :
    Links m d [i] (l + 1) a (copyBytes m a zeroBuf 0 blockSize) d' := by
  have hentry : ∀ j, mapEntry (copyBytes m a zeroBuf 0 blockSize) d' .inode j =
      if j = i then (l + 1, a) else mapEntry m d .inode j := by
    intro j
    by_cases hj : j < indirectBase
    · have hji : j ≠ i := by
        unfold indirectBase at hj
        omega
      have hdirect : diskDirect d' j = diskDirect d j := by
        unfold indirectBase at hj
        rcases hi with ⟨-, -, rfl⟩ | ⟨-, -, rfl⟩
        · exact load64_store64_disjoint (by omega)
        · exact load64_store64_disjoint (by omega)
      rw [mapEntry, mapEntry, if_pos hj, if_pos hj, if_neg hji, hdirect]
    · rw [mapEntry, mapEntry, if_neg hj, if_neg hj]
      rcases hi with ⟨rfl, rfl, rfl⟩ | ⟨rfl, rfl, rfl⟩
      · have h₁ : diskIndirect (setDiskIndirect d a) = a := load64_store64_same ha.lt
        have h₂ : diskDoubleIndirect (setDiskIndirect d a) = diskDoubleIndirect d := load64_store64_disjoint (by decide)
        rw [h₁, h₂]
        split <;> rfl
      · have h₁ : diskIndirect (setDiskDoubleIndirect d a) = diskIndirect d := load64_store64_disjoint (by decide)
        have h₂ : diskDoubleIndirect (setDiskDoubleIndirect d a) = a := load64_store64_same ha.lt
        rw [h₁, h₂]
        by_cases h12 : j = 12
        · rw [h12]
          rfl
        · rw [if_neg h12, if_neg h12]
          split <;> rfl
  have hwritten := entryWritten_inode hentry (fun q l' x hq => clear_fresh ha hok hq) fun q hq => blockWalk_inode hq
  have hwalk : ∀ q, _ := fun q => @EntryWritten.graft _ _ _ _ [] q i a l _ hwritten hold ha.ne fun j hj =>
    load64_cleared hj fun _ _ _ => rfl
  have hnone : blockWalk m d [i] = none := by
    have hstep : blockWalk m d [i] = mapChild (mapEntry m d .inode i) := blockWalk_snoc m d [] i
    rw [hstep, mapChild, if_pos hold]
  refine ⟨hwalk, fun l' x hx => by rw [hnone] at hx; exact absurd hx (by simp), fun y hy => ?_⟩
  exact copyBytes_of_notMem (hy [i] l a (by rw [hwalk, List.nil_append, if_pos rfl]))

theorem links_leaf_block {x : Nat} (hok : MapOk m d) (ht : blockWalk m d p = some (.block 1 x)) (hi : i < ptrsPerBlock)
    (ha : FreshBlock m d a) : Links m d (p ++ [i]) 0 a (store64 m (x + 8 * i) a) d := by
  have hwritten := entryWritten_block hok ht hi (load64_store64_same ha.lt) fun q l' x' y _ _ _ hout =>
    storeBytes_of_notMem hout
  have hold : (mapEntry m d (.block 1 x) i).1 = 0 := rfl
  have hwalk : ∀ q, _ := fun q => @EntryWritten.leaf _ _ _ _ p q i a _ hwritten hold ha.ne
  have hstep : blockWalk m d (p ++ [i]) = mapChild (mapEntry m d (.block 1 x) i) := by
    rw [blockWalk_snoc, ht, Option.bind_some]
  have hleaf : ∀ l' x', blockWalk m d (p ++ [i]) ≠ some (.block (l' + 1) x') := by
    intro l' x' hx
    rw [hstep] at hx
    unfold mapChild at hx
    split at hx
    · exact absurd hx (by simp)
    · exact absurd (MapTable.block.inj (Option.some.inj hx)).1 (by simp [mapEntry])
  refine ⟨hwalk, hleaf, fun y hy => ?_⟩
  have htable : blockWalk (store64 m (x + 8 * i) a) d p = some (.block (0 + 1) x) := by
    rw [hwalk, if_neg (by simp), ht]
  have hout := hy p 0 x htable
  unfold ptrsPerBlock at hi
  unfold blockSize at hout
  exact storeBytes_of_notMem (by omega)

theorem links_graft_block {x : Nat} (hok : MapOk m d) (ht : blockWalk m d p = some (.block (l + 2) x))
    (hi : i < ptrsPerBlock) (hold : load64 m (x + 8 * i) = 0) (ha : FreshBlock m d a) :
    Links m d (p ++ [i]) (l + 1) a (store64 (copyBytes m a zeroBuf 0 blockSize) (x + 8 * i) a) d := by
  have hxa := ha.apart hok ht
  have hwritten := @entryWritten_block m _ d p i (l + 1) x a hok ht hi (load64_store64_same ha.lt)
    fun q l' x' y hq h₁ h₂ hout => (storeBytes_of_notMem hout).trans (clear_fresh ha hok hq y h₁ h₂)
  have hnull : (mapEntry m d (.block (l + 2) x) i).2 = 0 := by rw [mapEntry, if_pos hi, hold]
  have hkept : AgreeOn (copyBytes m a zeroBuf 0 blockSize)
      (store64 (copyBytes m a zeroBuf 0 blockSize) (x + 8 * i) a) a blockSize := by
    unfold ptrsPerBlock at hi
    unfold blockSize at hxa
    exact agreeOn_store64 (by unfold blockSize; omega)
  have hwalk : ∀ q, _ := fun q => @EntryWritten.graft _ _ _ _ p q i a l _ hwritten hnull ha.ne fun j hj =>
    load64_cleared hj hkept
  have hnone : blockWalk m d (p ++ [i]) = none := by
    rw [blockWalk_snoc, ht, Option.bind_some, mapChild, if_pos hnull]
  refine ⟨hwalk, fun l' x' hx => by rw [hnone] at hx; exact absurd hx (by simp), fun y hy => ?_⟩
  have hself := hy (p ++ [i]) l a (by rw [hwalk, if_pos rfl])
  have htable := hy p (l + 1) x (by rw [hwalk, if_neg (by simp), ht])
  have hcell : y < x + 8 * i ∨ x + 8 * i + 8 ≤ y := by
    unfold ptrsPerBlock at hi
    unfold blockSize at htable
    omega
  exact (storeBytes_of_notMem hcell).trans (copyBytes_of_notMem hself)

/-! ## Paths of blocks -/

theorem blockPath_cases {b : Nat} (hb : b < mapBlocks) :
    (b < 12 ∧ blockPath b = [b]) ∨ (∃ i, i < ptrsPerBlock ∧ b = 12 + i ∧ blockPath b = [12, i]) ∨
      ∃ i j, i < ptrsPerBlock ∧ j < ptrsPerBlock ∧ b = 524 + ptrsPerBlock * i + j ∧ blockPath b = [13, i, j] := by
  unfold blockPath
  by_cases h₁ : b < indirectBase
  · exact Or.inl ⟨h₁, if_pos h₁⟩
  by_cases h₂ : b - indirectBase < ptrsPerBlock
  · refine Or.inr (Or.inl ⟨b - indirectBase, h₂, ?_, by rw [if_neg h₁, if_pos h₂]⟩)
    unfold indirectBase at *
    omega
  · have h₃ : b - dindirectBase < ptrsPerBlock * ptrsPerBlock := by
      unfold mapBlocks at hb
      unfold dindirectBase at *
      omega
    refine Or.inr (Or.inr ⟨_, _, Nat.div_lt_of_lt_mul h₃, Nat.mod_lt _ (by decide), ?_, by rw [if_neg h₁, if_neg h₂, if_pos h₃]⟩)
    have hsum := Nat.div_add_mod (b - dindirectBase) ptrsPerBlock
    unfold dindirectBase indirectBase ptrsPerBlock at *
    omega

/-- The block a path is for. -/
def pathBlock : List Nat → Nat
  | [b] => b
  | [_, i] => 12 + i
  | [_, i, j] => 524 + ptrsPerBlock * i + j
  | _ => 0

theorem pathBlock_blockPath {b : Nat} (hb : b < mapBlocks) : pathBlock (blockPath b) = b := by
  obtain ⟨-, hp⟩ | ⟨i, -, hbi, hp⟩ | ⟨i, j, -, -, hbi, hp⟩ := blockPath_cases hb
  all_goals rw [hp]
  · rfl
  · exact hbi.symm
  · exact hbi.symm

theorem blockPath_inj {b b' : Nat} (hb : b < mapBlocks) (hb' : b' < mapBlocks) (h : blockPath b = blockPath b') :
    b = b' := by
  rw [← pathBlock_blockPath hb, h, pathBlock_blockPath hb']

/-- The paths of tables: those of length one from 12 on, and those of length two through 13. -/
theorem blockPath_ne_table {b : Nat} (hb : b < mapBlocks) :
    blockPath b ≠ [12] ∧ blockPath b ≠ [13] ∧ ∀ i, blockPath b ≠ [13, i] := by
  obtain ⟨hlt, hp⟩ | ⟨i, -, -, hp⟩ | ⟨i, j, -, -, -, hp⟩ := blockPath_cases hb
  all_goals rw [hp]
  · refine ⟨fun h => ?_, fun h => ?_, fun i h => by simp at h⟩
    · exact hlt.ne (List.cons.inj h).1
    · have hb13 := (List.cons.inj h).1
      omega
  · refine ⟨by simp, by simp, fun j h => ?_⟩
    exact absurd (List.cons.inj h).1 (by decide)
  · exact ⟨by simp, by simp, by simp⟩

theorem Links.mapAt_leaf {b b' : Nat} (h : Links m d (blockPath b) 0 a m' d') (hb : b < mapBlocks) (hb' : b' < mapBlocks) :
    mapAt m' d' b' = if b' = b then a else mapAt m d b' := by
  unfold mapAt
  rw [h.walk]
  by_cases hbb : b' = b
  · rw [if_pos hbb, if_pos (by rw [hbb])]
    rfl
  · rw [if_neg hbb, if_neg fun hp => hbb (blockPath_inj hb' hb hp)]

theorem Links.mapAt_table {b : Nat} (h : Links m d p l a m' d') (hp : blockPath b ≠ p) : mapAt m' d' b = mapAt m d b := by
  unfold mapAt
  rw [h.walk, if_neg hp]

/-! ## The allocator on its own -/

/-- `g` with the allocator of `fs`. -/
def Fs.withAlloc (g fs : Fs) : Fs :=
  { g with
    sb := fs.sb
    segBitmap := fs.segBitmap
    nextSeg := fs.nextSeg
    blockInSeg := fs.blockInSeg
    currentSeg := fs.currentSeg }

theorem allocSegment_withAlloc (g fs : Fs) :
    allocSegment (g.withAlloc fs) = (allocSegment fs).map fun x => (x.1, g.withAlloc x.2) := by
  unfold allocSegment
  dsimp only [Fs.withAlloc]
  cases (List.range' fs.nextSeg (sbTotalSegs fs.sb - fs.nextSeg)).find? fun i => !segBit fs.segBitmap i with
  | none => rfl
  | some i => rfl

/-- **Allocation** reads and writes the allocator, and nothing else. -/
theorem allocBlock_withAlloc (g fs : Fs) :
    allocBlock (g.withAlloc fs) = (allocBlock fs).map fun x => (x.1, g.withAlloc x.2) := by
  unfold allocBlock
  rw [allocSegment_withAlloc]
  dsimp only
  by_cases hnew : fs.currentSeg = 0 ∨ blocksPerSeg ≤ fs.blockInSeg
  · have hnew' : (g.withAlloc fs).currentSeg = 0 ∨ blocksPerSeg ≤ (g.withAlloc fs).blockInSeg := hnew
    rw [if_pos hnew, if_pos hnew']
    cases allocSegment fs with
    | none => rfl
    | some x => rfl
  · have hold' : ¬((g.withAlloc fs).currentSeg = 0 ∨ blocksPerSeg ≤ (g.withAlloc fs).blockInSeg) := hnew
    rw [if_neg hnew, if_neg hold']
    rfl

theorem allocBlock_self {fs fs' : Fs} (h : allocBlock fs = some (a, fs')) : fs' = fs.withAlloc fs' := by
  have hself : allocBlock fs = (allocBlock fs).map fun x => (x.1, fs.withAlloc x.2) := allocBlock_withAlloc fs fs
  rw [h] at hself
  exact (Prod.mk.inj (Option.some.inj hself)).2

/-- The next blocks that `crfs_alloc_block` returns, and the state after them. -/
def allocs : Nat → Fs → Option (List Nat × Fs)
  | 0, fs => some ([], fs)
  | n + 1, fs => (allocBlock fs).bind fun x => (allocs n x.2).map fun y => (x.1 :: y.1, y.2)

theorem allocs_withAlloc (n : Nat) (g fs : Fs) :
    allocs n (g.withAlloc fs) = (allocs n fs).map fun x => (x.1, g.withAlloc x.2) := by
  induction n generalizing fs with
  | zero => rfl
  | succ n ih =>
    rw [allocs, allocs, allocBlock_withAlloc]
    cases allocBlock fs with
    | none => rfl
    | some x =>
      show (allocs n (g.withAlloc x.2)).map _ = ((allocs n x.2).map _).map _
      rw [ih, Option.map_map, Option.map_map]
      rfl

theorem allocs_add (n k : Nat) (fs : Fs) :
    allocs (n + k) fs = (allocs n fs).bind fun x => (allocs k x.2).map fun y => (x.1 ++ y.1, y.2) := by
  induction n generalizing fs with
  | zero =>
    rw [Nat.zero_add]
    show allocs k fs = (allocs k fs).map fun y => ([] ++ y.1, y.2)
    cases allocs k fs with
    | none => rfl
    | some y => rfl
  | succ n ih =>
    rw [Nat.add_right_comm, allocs, allocs]
    cases allocBlock fs with
    | none => rfl
    | some x =>
      show (allocs (n + k) x.2).map _ = ((allocs n x.2).map _).bind _
      rw [ih]
      cases allocs n x.2 with
      | none => rfl
      | some y =>
        show ((allocs k y.2).map _).map _ = (allocs k y.2).map _
        rw [Option.map_map]
        rfl

/-- The place in its segment of the block that is handed out next. -/
def nextPlace (fs : Fs) : Nat := if fs.currentSeg = 0 ∨ blocksPerSeg ≤ fs.blockInSeg then 0 else fs.blockInSeg

theorem blockAddr_place (seg : Nat) {b : Nat} (hb : b < blocksPerSeg) :
    (seg * segSize + b * blockSize) % 2 ^ 64 % blockSize = 0 ∧
      (seg * segSize + b * blockSize) % 2 ^ 64 / blockSize % blocksPerSeg = b := by
  unfold blocksPerSeg at hb
  unfold segSize blocksPerSeg blockSize
  omega

/-- Blocks are handed out where blocks begin, one place after another. -/
theorem allocBlock_place {fs fs' : Fs} (h : allocBlock fs = some (a, fs')) :
    a < 2 ^ 64 ∧ a % blockSize = 0 ∧ a / blockSize % blocksPerSeg = nextPlace fs ∧
      (a ≠ 0 → nextPlace fs' = (nextPlace fs + 1) % blocksPerSeg) := by
  rcases allocBlock_cases h with ⟨hcur, hlt, rfl, rfl⟩ | ⟨seg, fs₁, hnew, -, rfl, rfl⟩
  · have hplace : nextPlace fs = fs.blockInSeg := if_neg (not_or.mpr ⟨hcur, Nat.not_le.mpr hlt⟩)
    obtain ⟨haligned, hat⟩ := blockAddr_place fs.currentSeg hlt
    refine ⟨Nat.mod_lt _ (by decide), haligned, hat.trans hplace.symm, fun _ => ?_⟩
    rw [hplace]
    by_cases hlast : fs.blockInSeg + 1 < blocksPerSeg
    · rw [Nat.mod_eq_of_lt hlast]
      exact if_neg (not_or.mpr ⟨hcur, Nat.not_le.mpr hlast⟩)
    · have hfull : fs.blockInSeg + 1 = blocksPerSeg := by omega
      have hzero : (fs.blockInSeg + 1) % blocksPerSeg = 0 := by rw [hfull, Nat.mod_self]
      rw [hzero]
      exact if_pos (Or.inr hfull.ge)
  · have hplace : nextPlace fs = 0 := if_pos hnew
    have hstart := blockAddr_place seg (b := 0) (by decide)
    rw [Nat.zero_mul, Nat.add_zero] at hstart
    refine ⟨Nat.mod_lt _ (by decide), hstart.1, hstart.2.trans hplace.symm, fun hne => ?_⟩
    have hseg : seg ≠ 0 := by
      rintro rfl
      exact hne (by simp)
    have hone : ¬blocksPerSeg ≤ 1 := by decide
    rw [hplace]
    exact if_neg (not_or.mpr ⟨hseg, hone⟩)

theorem allocs_places {n : Nat} {fs fs' : Fs} {new : List Nat} (h : allocs n fs = some (new, fs'))
    (hne : ∀ x ∈ new, x ≠ 0) :
    (∀ x ∈ new, x < 2 ^ 64 ∧ x % blockSize = 0) ∧
      new.map (fun x => x / blockSize % blocksPerSeg) = (List.range' (nextPlace fs) n).map (· % blocksPerSeg) := by
  induction n generalizing fs new with
  | zero =>
    obtain ⟨rfl, -⟩ := Prod.mk.inj (Option.some.inj h)
    exact ⟨by simp, rfl⟩
  | succ n ih =>
    obtain ⟨⟨a, f₁⟩, ha, h⟩ := Option.bind_eq_some_iff.mp h
    obtain ⟨⟨rest, f₂⟩, hrest, h⟩ := Option.map_eq_some_iff.mp h
    obtain ⟨rfl, rfl⟩ := Prod.mk.inj h
    obtain ⟨hlt, haligned, hplace, hnext⟩ := allocBlock_place ha
    obtain ⟨hall, hplaces⟩ := ih hrest fun x hx => hne x (List.mem_cons_of_mem _ hx)
    have hbelow : nextPlace fs < blocksPerSeg := by
      rw [← hplace]
      exact Nat.mod_lt _ (by decide)
    refine ⟨fun x hx => ?_, ?_⟩
    · rcases List.mem_cons.mp hx with rfl | hx
      · exact ⟨hlt, haligned⟩
      · exact hall x hx
    · rw [List.map_cons, hplaces, hplace, hnext (hne a (List.mem_cons_self)), List.range'_succ, List.map_cons,
        Nat.mod_eq_of_lt hbelow]
      refine congrArg _ (List.ext_getElem (by simp) fun k hk hk' => ?_)
      simp only [List.getElem_map, List.getElem_range', Nat.one_mul]
      exact Nat.mod_add_mod _ _ _

/-- **No block is handed out twice** within as many calls as a segment has blocks. -/
theorem allocs_nodup {n : Nat} {fs fs' : Fs} {new : List Nat} (h : allocs n fs = some (new, fs'))
    (hne : ∀ x ∈ new, x ≠ 0) (hn : n ≤ blocksPerSeg) : new.Nodup := by
  refine List.Nodup.of_map (fun x => x / blockSize % blocksPerSeg) ?_
  rw [(allocs_places h hne).2]
  refine List.Nodup.map_on (fun x hx y hy hxy => ?_) List.nodup_range'
  rw [List.mem_range'_1] at hx hy
  have hxy : x % blocksPerSeg = y % blocksPerSeg := hxy
  unfold blocksPerSeg at hn hxy
  omega

end Crimson.Crfs
