import Crimson.Crfs.Live

/-!
# What creating a file does to the maps

A new file takes a block for its inode, which no map refers to, and an entry in a block of the
directory, which is allocated and put into the directory's map if it is not there. Where these
allocations succeed live blocks stay as they should be (`LiveOk.createFile`).
-/

set_option autoImplicit false

namespace Crimson.Crfs

open Crimson.Lib Crimson.Mm

/-- Where a block of the directory has to be allocated, it can be. -/
def DirBlockGuard (r : InodeRef) (fs : Fs) (b : Nat) : Prop := inodeGetBlock fs r b = 0 → allocBlock fs ≠ none

/-- Every step of the loop of `crfs_dir_add` meets `P`, which is told the state before the step and
    the block it looks at. -/
def EachDirBlock (P : Fs → Nat → Prop) (r : InodeRef) : Nat → Nat → Fs → Prop
  | 0, _, _ => True
  | fuel + 1, b, fs => b < diskBlocks (fs.disk r) ∨ b = 0 →
    P fs b ∧
      (emptyDirent (readBlock (dirBlock fs r b).2 (dirBlock fs r b).1 zeroBuf) (blockSize + 1) 0 = some none →
        EachDirBlock P r fuel (b + 1) (dirBlock fs r b).2)

/-- The file's inode is given a block, and the directory those that are missing. -/
def CreateGuard (r : InodeRef) (flags : BitVec 32) (mode uptimeUs uptimeMs : Nat) (fs : Fs) : Prop :=
  ∃ a f₀, allocBlock fs = some (a, f₀) ∧
    EachDirBlock (DirBlockGuard r) r (2 ^ 32) 0 (writeBlock f₀ a (newInode (newInodeNo uptimeUs) flags mode uptimeMs))

section

variable {fs fs' : Fs} {r : InodeRef} {b : Nat}

/-- **A block of a directory** is no table, and the maps are in order. -/
theorem LiveOk.dirBlock (h : LiveOk fs) (hg : DirBlockGuard r fs b) :
    LiveOk (dirBlock fs r b).2 ∧ (Crfs.dirBlock fs r b).1 % blockSize = 0 ∧
      ∀ q p l, blockWalk (Crfs.dirBlock fs r b).2.bdev.bytes ((Crfs.dirBlock fs r b).2.disk q) p ≠
        some (.block (l + 1) (Crfs.dirBlock fs r b).1) := by
  unfold Crfs.dirBlock
  dsimp only
  by_cases hz : inodeGetBlock fs r b = 0
  · obtain ⟨⟨a, f₀⟩, ha⟩ := Option.ne_none_iff_exists'.mp (hg hz)
    obtain ⟨hok, hspare⟩ := h.alloc ha
    rw [if_neg (not_not.mpr hz), ha, Option.getD_some]
    dsimp only
    obtain ⟨hset, hleaf⟩ := @LiveOk.setBlock f₀ r a b hok hspare
    generalize (inodeSetBlock f₀ r b a).2 = g at hset hleaf ⊢
    -- The block is cleared after it is linked; that changes no table.
    refine ⟨hset.writeBlock hspare.aligned hleaf zeroBuf, hspare.aligned, fun q p l hp => ?_⟩
    rw [hset.walk_writeBlock hspare.aligned hleaf] at hp
    exact hleaf q p l hp
  · rw [if_pos hz]
    rw [inodeGetBlock_eq] at hz ⊢
    have hleaf := blockWalk_mapAt (mapAt_bound hz) hz
    exact ⟨h, (h.maps r).aligned _ _ _ hleaf, h.leaf hleaf⟩

/-- **The loop of `crfs_dir_add`.** -/
theorem LiveOk.addToBlocks {name : List (BitVec 8)} {inodeNo type fuel : Nat} {x : Bool × Fs} (h : LiveOk fs)
    (hg : EachDirBlock (DirBlockGuard r) r fuel b fs) (hadd : addToBlocks r name inodeNo type fuel b fs = some x) :
    LiveOk x.2 := by
  induction fuel generalizing b fs with
  | zero => cases hadd
  | succ fuel ih =>
    unfold Crfs.addToBlocks at hadd
    split at hadd
    · rename_i hin
      obtain ⟨hblock, hrest⟩ := hg hin
      obtain ⟨hok, haligned, hleaf⟩ := h.dirBlock hblock
      generalize Crfs.dirBlock fs r b = y at hadd hrest hok haligned hleaf
      dsimp only at hadd
      split at hadd
      · cases hadd
      · rename_i hfull
        exact ih hok (hrest hfull) hadd
      · split at hadd
        · cases hadd
        · cases hadd
          have hwritten := hok.writeBlock haligned hleaf
          have hdirty := fun fs : Fs => @stored_setDirty fs (fun _ => False) r
          exact (hwritten _).stored (hdirty _) fun _ _ _ _ _ _ _ => id
    · cases hadd
      exact h

/-- **Creating a file.** -/
theorem LiveOk.createFile {name : List (BitVec 8)} {flags : BitVec 32} {mode uptimeUs uptimeMs : Nat} (h : LiveOk fs)
    (hg : CreateGuard r flags mode uptimeUs uptimeMs fs)
    (hcreate : createFile fs r name flags mode uptimeUs uptimeMs = some fs') : LiveOk fs' := by
  obtain ⟨a, f₀, ha, hblocks⟩ := hg
  obtain ⟨hok, hspare⟩ := h.alloc ha
  unfold Crfs.createFile at hcreate
  rw [ha] at hcreate
  obtain ⟨x, hadd, rfl⟩ := Option.map_eq_some_iff.mp hcreate
  exact (hok.writeSpare hspare _).1.addToBlocks hblocks hadd

end

end Crimson.Crfs
