import Crimson.Crfs.DirFrame
import Crimson.Crfs.Separate

/-!
# Where inodes are written and where they are read

`crfs_iget` reads an inode where its number says. `crfs_format` writes the root inode where
number 0 would be, and `crfs_open` writes the inode of a new file to a block that
`crfs_alloc_block` has handed out. So `crfs_iget` yields what they wrote only where the device
happened to hold the same already, or the two places are one (`crfs_placement`), and never on a
device of zeros (`crfs_misplaced`).
-/

set_option autoImplicit false

namespace Crimson.Crfs

open Crimson.Lib Crimson.Mm

/-! ## The property -/

/-- The inode `d` is at `addr`, as far as a block reaches; behind that is inline data and the
    checksum, which nothing reads. -/
def HoldsInode (m : Mem) (addr : Nat) (d : Mem) : Prop := ∀ x, x < blockSize → m (addr + x) = d x

/-- `crfs_iget` yields the inode `d` for the number. -/
def Yields (fs : Fs) (n : Nat) (d : Mem) : Prop := ∃ r fs', crfsIget fs n = (some r, fs') ∧ HoldsInode (fs'.disk r) 0 d

/-- `crfs_iget` yields the root directory that `crfs_format` wrote, and `.` and `..` are in it. -/
def RootYielded (fs : Fs) (rootMs : Nat) : Prop :=
  ∃ r fs', crfsIget fs rootIno = (some r, fs') ∧ HoldsInode (fs'.disk r) 0 (formatRootInode rootMs) ∧
    crfsDirLookup fs' r [dot] = some (some rootIno) ∧ crfsDirLookup fs' r [dot, dot] = some (some rootIno)

/-- A call of `crfs_open` that creates a file: the directory, with the state it is written in, and
    the state in which `crfs_iget` is called for the new inode. -/
structure Created (fs : Fs) (path : List (BitVec 8)) (flags : BitVec 32) (mode us ms : Nat) (dir : InodeRef)
    (fs₂ fs₁ : Fs) : Prop where
  creates : creates fs path flags = true
  dir : lastDir fs path = some (dir, fs₂)
  resolved : resolveWith crfsDirLookup fs path flags mode us ms = some (some (newInodeNo us), fs₁)

/-- **`crfs_iget` yields the inode that `crfs_open` built**, when `crfs_open` calls it and after. -/
def CreateYields (s : CreateRun) : CreateOp → Prop
  | .open path flags mode us ms => ∀ dir fs₂ fs₁ n fs', Created s.fs path flags mode us ms dir fs₂ fs₁ →
    crfsOpen s.fs path flags mode us ms = some (n, fs') →
      Yields fs₁ (newInodeNo us) (newInode (newInodeNo us) flags mode ms) ∧
        Yields fs' (newInodeNo us) (newInode (newInodeNo us) flags mode ms)
  | _ => True

/-! ## The conditions -/

/-- The inode is in memory; or there is memory for it, and the block at `a` that it is written to
    is the one that is read, or that one holds the same anyway. -/
def CreatePlaced (fs : Fs) (n : Nat) (d : Mem) (a : Nat) : Prop :=
  match (fs.inodeCache (n % 256)).find? fun r => (fs.inodes r).inodeNo = n with
  | some r => HoldsInode (fs.disk r) 0 d
  | none => fs.oom fs.kmallocs = false ∧
    (inodeAddr fs n = a ∨ (BlocksApart (inodeAddr fs n) a ∧ HoldsInode fs.bdev.bytes (inodeAddr fs n) d))

def PlaceGuard (s : CreateRun) : CreateOp → Prop
  | .open path flags mode us ms => ∀ dir fs₂ fs₁ n fs', Created s.fs path flags mode us ms dir fs₂ fs₁ →
    crfsOpen s.fs path flags mode us ms = some (n, fs') →
      ∀ a f₀, allocBlock fs₂ = some (a, f₀) →
        CreatePlaced fs₂ (newInodeNo us) (newInode (newInodeNo us) flags mode ms) a
  | _ => True

/-- A block is allocated for the inode, and what is written for the directory is apart from the
    place that is read. -/
structure CreateApart (fs : Fs) (dir : InodeRef) (flags : BitVec 32) (mode us ms : Nat) : Prop where
  number : (fs.inodes dir).inodeNo ≠ newInodeNo us
  place : BlocksApart (inodeAddr fs (newInodeNo us)) (inodeAddr fs (fs.inodes dir).inodeNo)
  alloc : allocBlock fs ≠ none
  entry : ∀ a f₀, allocBlock fs = some (a, f₀) →
    EachDirBlock (DirApart (inodeAddr fs (newInodeNo us)) dir) dir (2 ^ 32) 0
      (writeBlock f₀ a (newInode (newInodeNo us) flags mode ms))

def ApartGuard (s : CreateRun) : CreateOp → Prop
  | .open path flags mode us ms => ∀ dir fs₂ fs₁, Created s.fs path flags mode us ms dir fs₂ fs₁ →
    CreateApart fs₂ dir flags mode us ms
  | _ => True

/-! ## What `crfs_iget` yields -/

section

variable {fs fs' fs₁ fs₂ f₀ : Fs} {n a : Nat} {d : Mem} {r : InodeRef} {flags : BitVec 32} {mode us ms : Nat}

theorem holdsInode_read (fs : Fs) (a : Nat) : HoldsInode (readBlock fs a zeroBuf) 0 d ↔ HoldsInode fs.bdev.bytes a d := by
  have hread : ∀ x, x < blockSize → readBlock fs a zeroBuf (0 + x) = fs.bdev.bytes (a + x) := by
    intro x hx
    have hcopy := @copyBytes_of_mem zeroBuf 0 a blockSize fs.bdev.bytes (0 + x) (Nat.zero_le _) (by omega)
    rw [Nat.zero_add, Nat.sub_zero] at hcopy
    rw [Nat.zero_add]
    exact hcopy
  constructor
  · intro h x hx
    rw [← hread x hx]
    exact h x hx
  · intro h x hx
    rw [hread x hx]
    exact h x hx

theorem holds_copied (m : Mem) (a : Nat) (d : Mem) : HoldsInode (copyBytes m a d 0 blockSize) a d := by
  intro x hx
  rw [copyBytes_of_mem (Nat.le_add_right _ _) (Nat.add_lt_add_left hx _), Nat.zero_add, Nat.add_sub_cancel_left]

theorem holds_copied_apart {m d' : Mem} {t : Nat} (hapart : BlocksApart t a) (h : HoldsInode m t d) :
    HoldsInode (copyBytes m a d' 0 blockSize) t d := by
  intro x hx
  unfold BlocksApart at hapart
  rw [copyBytes_of_notMem (by omega)]
  exact h x hx

theorem disk_modInode_self (fs : Fs) (r : InodeRef) (f : Inode → Inode) : (fs.modInode r f).disk r = (f (fs.inodes r)).disk := by
  show (Function.update fs.inodes r _ r).disk = _
  rw [Function.update_self]

/-- **`crfs_iget`**, from the cache and from the device. -/
theorem yields_iff : Yields fs n d ↔
    match (fs.inodeCache (n % 256)).find? fun r => (fs.inodes r).inodeNo = n with
    | some r => HoldsInode (fs.disk r) 0 d
    | none => fs.oom fs.kmallocs = false ∧ HoldsInode fs.bdev.bytes (inodeAddr fs n) d := by
  unfold Yields crfsIget
  dsimp only
  cases (fs.inodeCache (n % 256)).find? fun r => (fs.inodes r).inodeNo = n with
  | some r =>
    constructor
    · rintro ⟨q, fs', heq, hold⟩
      cases heq
      rw [disk_modInode_self] at hold
      exact hold
    · intro hold
      refine ⟨r, _, rfl, ?_⟩
      rw [disk_modInode_self]
      exact hold
  | none =>
    dsimp only
    cases hoom : fs.oom fs.kmallocs with
    | true =>
      constructor
      · rintro ⟨q, fs', heq, -⟩
        cases heq
      · rintro ⟨hno, -⟩
        cases hno
    | false =>
      rw [← holdsInode_read]
      constructor
      · rintro ⟨q, fs', heq, hold⟩
        cases heq
        refine ⟨rfl, ?_⟩
        unfold Fs.disk at hold
        dsimp only at hold
        rw [Function.update_self] at hold
        exact hold
      · rintro ⟨-, hold⟩
        refine ⟨_, _, rfl, ?_⟩
        unfold Fs.disk
        dsimp only
        rw [Function.update_self]
        exact hold

theorem find_congr (hcache : fs'.inodeCache = fs.inodeCache) (hnos : ∀ q, (fs'.inodes q).inodeNo = (fs.inodes q).inodeNo) :
    ((fs'.inodeCache (n % 256)).find? fun q => (fs'.inodes q).inodeNo = n) =
      (fs.inodeCache (n % 256)).find? fun q => (fs.inodes q).inodeNo = n := by
  rw [hcache]
  simp only [hnos]

theorem DirFrame.find {t : Nat} (h : DirFrame t r fs fs') :
    ((fs'.inodeCache (n % 256)).find? fun q => (fs'.inodes q).inodeNo = n) =
      (fs.inodeCache (n % 256)).find? fun q => (fs.inodes q).inodeNo = n := by
  refine find_congr h.inodeCache fun q => ?_
  by_cases hq : q = r
  · rw [hq]
    exact h.inodeNo
  · rw [h.others q hq]

/-- What is written for the directory does not change what `crfs_iget` yields. -/
theorem DirFrame.yields_iff {t : Nat} (h : DirFrame t r fs fs') (ht : t = inodeAddr fs n) (hr : (fs.inodes r).inodeNo ≠ n) :
    Yields fs' n d ↔ Yields fs n d := by
  have haddr : inodeAddr fs' n = inodeAddr fs n := by
    unfold inodeAddr
    rw [h.tableStart]
  rw [Crfs.yields_iff, Crfs.yields_iff, h.find, h.oom, h.kmallocs, haddr, ← ht]
  cases hfind : (fs.inodeCache (n % 256)).find? fun q => (fs.inodes q).inodeNo = n with
  | some q =>
    have hno : (fs.inodes q).inodeNo = n := by simpa using List.find?_some hfind
    have hq : q ≠ r := by
      rintro rfl
      exact hr hno
    have hdisk : fs'.disk q = fs.disk q := congrArg Inode.disk (h.others q hq)
    dsimp only
    rw [hdisk]
  | none =>
    dsimp only
    refine and_congr_right fun _ => forall₂_congr fun x hx => ?_
    rw [h.block (t + x) ⟨Nat.le_add_right _ _, Nat.add_lt_add_left hx _⟩]

/-! ## The inode that `crfs_open` builds -/

theorem load32_newInode (hn : n < 2 ^ 32) : load32 (newInode n flags mode ms) 0 = n := by
  unfold newInode setDiskChecksum setDiskAtime setDiskMtime
  simp (disch := omega) only [load32_store32_disjoint, load32_store64_disjoint]
  exact load32_store32_same hn

theorem load64_newInode_nlink : load64 (newInode n flags mode ms) 60 = 1 := by
  unfold newInode setDiskChecksum setDiskAtime setDiskMtime
  simp (disch := omega) only [load64_store32_disjoint]
  exact load64_store64_same (by decide)

/-- Where nothing is set the inode is zero. -/
theorem load32_newInode_zero {x : Nat} (hx : x = 12 ∨ x = 16 ∨ x = 32 ∨ (72 ≤ x ∧ x + 4 ≤ blockSize)) :
    load32 (newInode n flags mode ms) x = 0 := by
  unfold blockSize at hx
  unfold newInode setDiskChecksum setDiskAtime setDiskMtime
  simp (disch := omega) only [load32_store32_disjoint, load32_store64_disjoint]
  exact loadBytes_zeroBuf

/-- The inode is not its own shift: it begins with its number, which is found at no other place that
    inodes and blocks can be apart. -/
theorem newInode_shift {k : Nat} (hn : n < 2 ^ 32) (hne : n ≠ 0) (h16 : k % 16 = 0) (hk : 0 < k) (hlt : k < blockSize) :
    ∃ x, x + k < blockSize ∧ newInode n flags mode ms (x + k) ≠ newInode n flags mode ms x := by
  by_contra hall
  generalize hd : newInode n flags mode ms = d at hall
  have hbyte : ∀ x, x + k < blockSize → d (x + k) = d x := by
    intro x hx
    by_contra hx'
    exact hall ⟨x, hx, hx'⟩
  have hsame : ∀ x, x + 4 + k ≤ blockSize → load32 d (x + k) = load32 d x := by
    intro x hx
    have h₀ := hbyte x (by omega)
    have h₁ := hbyte (x + 1) (by omega)
    have h₂ := hbyte (x + 1 + 1) (by omega)
    have h₃ := hbyte (x + 1 + 1 + 1) (by omega)
    simp only [load32, loadBytes, Nat.add_right_comm _ k, h₀, h₁, h₂, h₃]
  have hfirst := hsame 0 (by unfold blockSize at hlt ⊢; omega)
  rw [Nat.zero_add, ← hd, load32_newInode hn] at hfirst
  have hsplit : load64 (newInode n flags mode ms) 60 =
      load32 (newInode n flags mode ms) 60 + 2 ^ 32 * load32 (newInode n flags mode ms) 64 := load64_eq
  rw [load64_newInode_nlink] at hsplit
  by_cases h48 : k = 48
  · -- The number of links is where nothing should be.
    have hlinks : load32 d 60 = load32 d 12 := by
      have hshift := hsame 12 (by unfold blockSize; omega)
      rw [h48] at hshift
      exact hshift
    rw [← hd, load32_newInode_zero (Or.inl rfl)] at hlinks
    rw [hlinks] at hsplit
    omega
  by_cases h64 : k = 64
  · rw [h64] at hfirst
    omega
  · rw [load32_newInode_zero (by unfold blockSize at hlt ⊢; omega)] at hfirst
    exact hne hfirst.symm

/-- **The inode once it is written** is found at a place apart in sixteens only if that is where it is
    written, or it was there already. -/
theorem holdsInode_written {m : Mem} {t : Nat} (hn : n < 2 ^ 32) (hne : n ≠ 0) (ht : t % 16 = 0) (ha : a % 16 = 0) :
    HoldsInode (copyBytes m a (newInode n flags mode ms) 0 blockSize) t (newInode n flags mode ms) ↔
      t = a ∨ (BlocksApart t a ∧ HoldsInode m t (newInode n flags mode ms)) := by
  generalize hd : newInode n flags mode ms = d
  have hin : ∀ x, a ≤ t + x → t + x < a + blockSize → copyBytes m a d 0 blockSize (t + x) = d (t + x - a) := by
    intro x h₁ h₂
    rw [copyBytes_of_mem h₁ h₂, Nat.zero_add]
  constructor
  · intro h
    by_cases hta : t = a
    · exact Or.inl hta
    have hapart : BlocksApart t a := by
      by_contra hover
      unfold BlocksApart at hover
      rcases Nat.lt_or_gt_of_ne hta with hlt | hgt
      · -- The end of the place holds the beginning of the inode.
        obtain ⟨x, hx, hdiff⟩ := @newInode_shift n flags mode ms (a - t) hn hne (by omega) (by omega) (by omega)
        have hplace := hin (x + (a - t)) (by omega) (by omega)
        have hheld := h (x + (a - t)) hx
        have hoff : t + (x + (a - t)) - a = x := by omega
        rw [hplace, hoff] at hheld
        rw [hd] at hdiff
        exact hdiff hheld.symm
      · obtain ⟨x, hx, hdiff⟩ := @newInode_shift n flags mode ms (t - a) hn hne (by omega) (by omega) (by omega)
        have hplace := hin x (by omega) (by omega)
        have hheld := h x (by omega)
        have hoff : t + x - a = x + (t - a) := by omega
        rw [hplace, hoff] at hheld
        rw [hd] at hdiff
        exact hdiff hheld
    refine Or.inr ⟨hapart, fun x hx => ?_⟩
    have hheld := h x hx
    unfold BlocksApart at hapart
    rw [copyBytes_of_notMem (by omega)] at hheld
    exact hheld
  · rintro (rfl | ⟨hapart, h⟩)
    · exact holds_copied m t d
    · exact holds_copied_apart hapart h

/-! ## Creating a file -/

theorem inodeAddr_mod (fs : Fs) (n : Nat) : inodeAddr fs n % 16 = 0 := by
  unfold inodeAddr segSize sizeofInodeDisk
  omega

theorem allocBlock_mod (h : allocBlock fs = some (a, fs')) : a % 16 = 0 := by
  rcases allocBlock_cases h with ⟨-, -, -, rfl⟩ | ⟨seg, fs₁, -, -, -, rfl⟩
  · unfold segSize blockSize
    omega
  · unfold segSize
    omega

theorem newInodeNo_bounds (us : Nat) : 2 ≤ newInodeNo us ∧ newInodeNo us < 2 ^ 32 := by
  unfold newInodeNo
  split
  · exact ⟨le_rfl, by decide⟩
  · omega

/-- The inode is written to a new block. -/
theorem yields_written (hdev : fs.Reliable) (ha : allocBlock fs = some (a, f₀)) (hn : n < 2 ^ 32) (hne : n ≠ 0) :
    Yields (writeBlock f₀ a (newInode n flags mode ms)) n (newInode n flags mode ms) ↔
      CreatePlaced fs n (newInode n flags mode ms) a := by
  have hframe := @frame_allocBlock fs f₀ 0 a 0 ha
  have hself := allocBlock_self ha
  have hdev₀ : f₀.Reliable := hframe.reliable hdev
  have hbytes := writeBlock_bytes hdev₀ a (newInode n flags mode ms)
  have hbdev : f₀.bdev = fs.bdev := by rw [hself]; rfl
  have hinodes : f₀.inodes = fs.inodes := by rw [hself]; rfl
  have haddr : inodeAddr (writeBlock f₀ a (newInode n flags mode ms)) n = inodeAddr fs n := by
    show inodeAddr f₀ n = _
    unfold inodeAddr
    rw [hframe.tableStart]
  rw [yields_iff, haddr, hbytes, hbdev]
  show (match (f₀.inodeCache (n % 256)).find? fun r => (f₀.inodes r).inodeNo = n with
    | some r => HoldsInode (f₀.disk r) 0 _
    | none => f₀.oom f₀.kmallocs = false ∧ _) ↔ _
  unfold CreatePlaced Fs.disk
  rw [hframe.inodeCache, hframe.oom, hframe.kmallocs, hinodes]
  cases (fs.inodeCache (n % 256)).find? fun r => (fs.inodes r).inodeNo = n with
  | some r => exact Iff.rfl
  | none => exact and_congr_right fun _ => holdsInode_written hn hne (inodeAddr_mod fs n) (allocBlock_mod ha)

/-- The part of `crfs_open` that creates the file. -/
theorem Created.file {path : List (BitVec 8)} (h : Created fs path flags mode us ms r fs₂ fs₁) :
    ∃ fs₃, createFile fs₂ r ((pathTokens path).getLastD []) flags mode us ms = some fs₃ ∧ fs₁ = crfsIput fs₃ r := by
  have hcreates := h.creates
  have hdir := h.dir
  have hres := h.resolved
  unfold Crfs.creates at hcreates
  rw [hdir] at hcreates
  obtain ⟨htoken, hlook, hflag⟩ := of_decide_eq_true hcreates
  unfold lastDir at hdir
  rw [resolveWith_eq] at hres
  generalize crfsIget fs rootIno = got at hdir hres
  generalize pathTokens path = tokens at hdir hres htoken hlook ⊢
  obtain ⟨root, g⟩ := got
  cases root with
  | none => cases hdir
  | some root =>
    dsimp only at hdir hres
    cases hwalk : walkPath g root tokens.dropLast with
    | none =>
      rw [hwalk] at hdir
      cases hdir
    | some x =>
      obtain ⟨found, g'⟩ := x
      rw [hwalk] at hdir hres
      cases found with
      | none => cases hdir
      | some q =>
        cases hdir
        dsimp only at hres
        rw [if_neg htoken, hlook] at hres
        dsimp only at hres
        rw [if_pos hflag] at hres
        cases hfile : createFile fs₂ r (tokens.getLastD []) flags mode us ms with
        | none =>
          rw [hfile] at hres
          cases hres
        | some fs₃ =>
          rw [hfile] at hres
          cases hres
          exact ⟨fs₃, rfl, rfl⟩

/-- **What `crfs_iget` yields when `crfs_open` calls it for a new file.** -/
theorem created_yields_iff {path : List (BitVec 8)} (hdev : fs₂.Reliable) (h : Created fs path flags mode us ms r fs₂ fs₁)
    (hapart : CreateApart fs₂ r flags mode us ms) (ha : allocBlock fs₂ = some (a, f₀)) :
    Yields fs₁ (newInodeNo us) (newInode (newInodeNo us) flags mode ms) ↔
      CreatePlaced fs₂ (newInodeNo us) (newInode (newInodeNo us) flags mode ms) a := by
  obtain ⟨hlow, hlt⟩ := newInodeNo_bounds us
  obtain ⟨fs₃, hfile, rfl⟩ := h.file
  have hentry := hapart.entry a f₀ ha
  have hnumber := hapart.number
  have hplace := hapart.place
  unfold createFile at hfile
  rw [ha] at hfile
  obtain ⟨x, hadd, rfl⟩ := Option.map_eq_some_iff.mp hfile
  rw [← yields_written hdev ha hlt (by omega)]
  generalize newInodeNo us = n at hentry hnumber hplace hadd hlt ⊢
  generalize newInode n flags mode ms = d at hentry hadd ⊢
  -- Between the write of the inode and the call, only the directory is written.
  have hframe := @frame_allocBlock fs₂ f₀ (inodeAddr fs₂ n) a r ha
  have hself := allocBlock_self ha
  have hdev₀ : (writeBlock f₀ a d).Reliable := hframe.reliable hdev
  have hadded := frame_addToBlocks hdev₀ hentry hadd
  have hput := @frame_crfsIput x.2 (inodeAddr fs₂ n) r (by
    unfold inodeAddr at hplace ⊢
    rw [hadded.inodeNo, hadded.tableStart]
    show BlocksApart _ ((sbInodeTableStart f₀.sb * segSize + (f₀.inodes r).inodeNo * sizeofInodeDisk) % 2 ^ 64)
    rw [hframe.tableStart, hframe.inodeNo]
    exact hplace)
  refine (hadded.trans hput).yields_iff ?_ ?_
  · show _ = (sbInodeTableStart f₀.sb * segSize + n * sizeofInodeDisk) % 2 ^ 64
    rw [hframe.tableStart]
    rfl
  · show (f₀.inodes r).inodeNo ≠ n
    rw [hframe.inodeNo]
    exact hnumber

/-! ## After the call -/

/-- What `crfs_iget` returned it finds again. -/
theorem crfsIget_found (h : crfsIget fs n = (some r, fs')) :
    ((fs'.inodeCache (n % 256)).find? fun q => (fs'.inodes q).inodeNo = n) = some r := by
  unfold crfsIget at h
  dsimp only at h
  cases hfind : (fs.inodeCache (n % 256)).find? fun q => (fs.inodes q).inodeNo = n with
  | some q =>
    rw [hfind] at h
    cases h
    have hnos := (@frame_modInode fs 0 r (fun i => { i with refCount := (i.refCount + 1) % 2 ^ 32 }) fun _ => rfl)
    rw [hnos.find, hfind]
  | none =>
    rw [hfind] at h
    dsimp only at h
    split at h
    · cases h
    · cases h
      dsimp only
      rw [Function.update_self, List.find?_cons_of_pos]
      refine decide_eq_true ?_
      rw [Function.update_self]

theorem holds_crfsIput (h : HoldsInode (fs.disk r) 0 d) : HoldsInode ((crfsIput fs r).disk r) 0 d := by
  unfold crfsIput
  dsimp only
  have hcount := disk_modInode_self fs r fun i => { i with refCount := (i.refCount + (2 ^ 32 - 1)) % 2 ^ 32 }
  generalize fs.modInode r (fun i => { i with refCount := (i.refCount + (2 ^ 32 - 1)) % 2 ^ 32 }) = g at hcount ⊢
  have hg : HoldsInode (g.disk r) 0 d := by
    rw [hcount]
    exact h
  split
  · -- The checksum lies behind the first block.
    intro x hx
    have hdisk : (writeInode g r).disk r = setDiskChecksum (g.disk r) (crc32c (g.disk r) (sizeofInodeDisk - 4)).toNat :=
      g.disk_modDisk r fun d => setDiskChecksum d (crc32c d (sizeofInodeDisk - 4)).toNat
    rw [hdisk, setDiskChecksum, store32, storeBytes_of_notMem (by unfold blockSize at hx; omega)]
    exact hg x hx
  · exact hg

/-- A file of size zero is not changed when it is cut to size zero. -/
theorem holds_openTail (hcut : HoldsInode (setDiskBlocks (setDiskSize d 0) 0) 0 d) (h : HoldsInode (fs.disk r) 0 d) :
    HoldsInode ((openTail fs r flags).2.disk r) 0 d := by
  unfold openTail
  dsimp only
  have hfirst : HoldsInode ((if flags &&& oTrunc ≠ 0#32 ∧ diskType (fs.disk r) = typeReg then
      (fs.modDisk r fun d => setDiskBlocks (setDiskSize d 0) 0).setDirty r else fs).disk r) 0 d := by
    split
    · rw [Fs.disk_setDirty, Fs.disk_modDisk]
      intro x hx
      rw [← hcut x hx]
      unfold setDiskBlocks setDiskSize store64 storeBytes
      split
      · rfl
      · split
        · rfl
        · rw [h x hx, Nat.zero_add]
    · exact h
  generalize (if flags &&& oTrunc ≠ 0#32 ∧ diskType (fs.disk r) = typeReg then
    (fs.modDisk r fun d => setDiskBlocks (setDiskSize d 0) 0).setDirty r else fs) = g at hfirst ⊢
  split
  · exact hfirst
  · exact holds_crfsIput hfirst

theorem crfsIput_cache : (crfsIput fs r).inodeCache = fs.inodeCache := by
  unfold crfsIput
  dsimp only
  split
  · rfl
  · rfl

theorem openTail_cache : (openTail fs r flags).2.inodeCache = fs.inodeCache := by
  unfold openTail
  dsimp only
  have hfirst : (if flags &&& oTrunc ≠ 0#32 ∧ diskType (fs.disk r) = typeReg then
      (fs.modDisk r fun d => setDiskBlocks (setDiskSize d 0) 0).setDirty r else fs).inodeCache = fs.inodeCache := by
    split
    · rfl
    · rfl
  generalize (if flags &&& oTrunc ≠ 0#32 ∧ diskType (fs.disk r) = typeReg then
    (fs.modDisk r fun d => setDiskBlocks (setDiskSize d 0) 0).setDirty r else fs) = g at hfirst ⊢
  split
  · exact hfirst
  · exact crfsIput_cache.trans hfirst

/-- **The rest of `crfs_open`** keeps what `crfs_iget` has yielded. -/
theorem Yields.openInode (h : Yields fs n d) (hcut : HoldsInode (setDiskBlocks (setDiskSize d 0) 0) 0 d) :
    Yields (openInode fs n flags).2 n d := by
  obtain ⟨r, g, hget, hold⟩ := h
  have hfound := crfsIget_found hget
  have htail := @stored_openTail g r flags
  rw [openInode_eq, hget]
  dsimp only
  rw [yields_iff, find_congr openTail_cache htail.inodeNos, hfound]
  exact holds_openTail hcut hold

theorem newInode_cut : HoldsInode (setDiskBlocks (setDiskSize (newInode n flags mode ms) 0) 0) 0 (newInode n flags mode ms) := by
  intro x hx
  unfold setDiskBlocks setDiskSize store64
  by_cases hin : 20 ≤ x ∧ x < 36
  · have hzero : newInode n flags mode ms x = 0 := by
      unfold newInode setDiskChecksum setDiskAtime setDiskMtime store32 store64
      rw [storeBytes_of_notMem (by omega), storeBytes_of_notMem (by omega), storeBytes_of_notMem (by omega),
        storeBytes_of_notMem (by omega), storeBytes_of_notMem (by omega), storeBytes_of_notMem (by omega),
        storeBytes_of_notMem (by omega), storeBytes_of_notMem (by omega), storeBytes_of_notMem (by omega)]
      rfl
    rw [hzero]
    unfold storeBytes
    split
    · rw [Nat.zero_div]
      rfl
    · rw [if_pos (by omega), Nat.zero_div]
      rfl
  · rw [storeBytes_of_notMem (by omega), storeBytes_of_notMem (by omega), Nat.zero_add]

end

/-! ## The device -/

section

variable {fs fs' : Fs} {r : InodeRef} {n : Nat}

theorem reliable_writes : WriteRel fun fs fs' => fs.Reliable → fs'.Reliable where
  refl := fun _ h => h
  trans := fun h h' hdev => h' (h hdev)
  writeBlock := fun _ _ _ h => h
  withAlloc := fun _ _ h => h
  modDisk := fun _ _ _ h => h
  setDirty := fun _ _ h => h

theorem Stored.reliable {area : Nat → Prop} (h : Stored fs area fs') (hdev : fs.Reliable) : fs'.Reliable := by
  intro k
  rw [h.writeFails]
  exact hdev k

theorem crfsIget_bdev (fs : Fs) (n : Nat) : (crfsIget fs n).2.bdev = fs.bdev := by
  rcases crfsIget_cases fs n with ⟨-, r, -, -, hget⟩ | ⟨-, hget⟩ | ⟨-, fs', hget, hl⟩
  · rw [hget]
    rfl
  · rw [hget]
  · rw [hget]
    exact hl.bdev

theorem reliable_crfsIget (hdev : fs.Reliable) (n : Nat) : (crfsIget fs n).2.Reliable := by
  intro k
  rw [crfsIget_bdev]
  exact hdev k

theorem reliable_crfsIput (hdev : fs.Reliable) (r : InodeRef) : (crfsIput fs r).Reliable := stored_crfsIput.reliable hdev

theorem reliable_walkPath {tokens : List (List (BitVec 8))} {inode : InodeRef} {found : Option InodeRef} (hdev : fs.Reliable)
    (hwalk : walkPath fs inode tokens = some (found, fs')) : fs'.Reliable := by
  induction tokens generalizing fs inode with
  | nil =>
    cases hwalk
    exact hdev
  | cons token rest ih =>
    unfold walkPath at hwalk
    split at hwalk
    · exact ih hdev hwalk
    · split at hwalk
      · cases hwalk
      · cases hwalk
        exact reliable_crfsIput hdev inode
      · rename_i childIno hlook
        have hget := reliable_crfsIget hdev childIno
        generalize crfsIget fs childIno = got at hget hwalk
        obtain ⟨child, fs₁⟩ := got
        cases child with
        | none =>
          cases hwalk
          exact reliable_crfsIput hget inode
        | some child =>
          have hput := reliable_crfsIput hget inode
          dsimp only at hwalk
          split at hwalk
          · cases hwalk
            exact reliable_crfsIput hput child
          · exact ih hput hwalk

theorem reliable_lastDir {path : List (BitVec 8)} (hdev : fs.Reliable) (h : lastDir fs path = some (r, fs')) : fs'.Reliable := by
  unfold lastDir at h
  have hget := reliable_crfsIget hdev rootIno
  generalize crfsIget fs rootIno = got at h hget
  obtain ⟨root, g⟩ := got
  cases root with
  | none => cases h
  | some root =>
    dsimp only at h
    split at h
    · rename_i hwalk
      cases h
      exact reliable_walkPath hget hwalk
    · cases h

theorem reliable_resolve {path : List (BitVec 8)} {flags : BitVec 32} {mode us ms : Nat} {found : Option Nat} (hdev : fs.Reliable)
    (hres : resolveWith crfsDirLookup fs path flags mode us ms = some (found, fs')) : fs'.Reliable := by
  rw [resolveWith_eq] at hres
  have hget := reliable_crfsIget hdev rootIno
  generalize crfsIget fs rootIno = got at hget hres
  generalize pathTokens path = tokens at hres
  obtain ⟨root, g⟩ := got
  cases root with
  | none =>
    cases hres
    exact hget
  | some root =>
    dsimp only at hres
    cases hwalk : walkPath g root tokens.dropLast with
    | none =>
      rw [hwalk] at hres
      cases hres
    | some x =>
      have hend : x.2.Reliable := reliable_walkPath hget hwalk
      rw [hwalk] at hres
      obtain ⟨last, g'⟩ := x
      cases last with
      | none =>
        cases hres
        exact hend
      | some inode =>
        have hput := reliable_crfsIput hend inode
        dsimp only at hres hend
        split at hres
        · cases hres
          exact hput
        · split at hres
          · cases hres
          · cases hres
            exact hput
          · split at hres
            · split at hres
              · cases hres
              · rename_i g'' hfile
                cases hres
                exact reliable_crfsIput (reliable_writes.createFile hfile hend) inode
            · cases hres
              exact hput

theorem reliable_createStep {s s' : CreateRun} {op : CreateOp} (hdev : s.fs.Reliable) (hs : createStep s op = some s') :
    s'.fs.Reliable := by
  cases op with
  | «open» path flags mode us ms =>
    obtain ⟨⟨k, g⟩, hopen, rfl⟩ := Option.map_eq_some_iff.mp hs
    rw [← crfsOpenWith_lookup, crfsOpenWith_eq] at hopen
    obtain ⟨⟨found, g₁⟩, hres, hend⟩ := Option.map_eq_some_iff.mp hopen
    have hdev₁ := reliable_resolve hdev hres
    cases found with
    | none =>
      cases hend
      exact hdev₁
    | some ino =>
      dsimp only at hend
      rw [openInode_eq] at hend
      have hget := reliable_crfsIget hdev₁ ino
      generalize crfsIget g₁ ino = got at hget hend
      obtain ⟨root, g₂⟩ := got
      cases root with
      | none =>
        cases hend
        exact hget
      | some r =>
        have htail := (@stored_openTail g₂ r flags).reliable hget
        dsimp only at hend
        rw [hend] at htail
        exact htail
  | write fd buf count ms =>
    cases hs
    dsimp only
    rw [crfsWrite_eq]
    cases writeTarget s.fs fd with
    | none => exact hdev
    | some r =>
      have hloop := reliable_writes.writeLoop (r := r) buf (s.fs.files fd.toNat).offset count count 0 s.fs hdev
      exact (@stored_writeFinish _ (fun _ => False) r fd.toNat count ms).reliable hloop
  | close fd =>
    cases hs
    dsimp only
    cases hr : (s.fs.files fd.toNat).inode with
    | none => exact (@crfsClose_none s.fs (fun _ => False) fd hr).reliable hdev
    | some r => exact (stored_crfsClose hr).reliable hdev

/-- **One call**: what it creates is yielded where the condition holds. -/
theorem createYields_iff {s : CreateRun} {op : CreateOp} (hdev : s.fs.Reliable) (hapart : ApartGuard s op) :
    CreateYields s op ↔ PlaceGuard s op := by
  cases op with
  | «open» path flags mode us ms =>
    refine forall_congr' fun dir => forall_congr' fun fs₂ => forall_congr' fun fs₁ => ?_
    refine forall_congr' fun k => forall_congr' fun fs' => forall_congr' fun hcreated => forall_congr' fun hopen => ?_
    have hapart := hapart dir fs₂ fs₁ hcreated
    have hdev₂ := reliable_lastDir hdev hcreated.dir
    obtain ⟨⟨a, f₀⟩, ha⟩ := Option.ne_none_iff_exists'.mp hapart.alloc
    have hiff := created_yields_iff hdev₂ hcreated hapart ha
    rw [← crfsOpenWith_lookup, crfsOpenWith_eq, hcreated.resolved] at hopen
    have hend : (openInode fs₁ (newInodeNo us) flags).2 = fs' := congrArg Prod.snd (Option.some.inj hopen)
    constructor
    · rintro ⟨hfirst, -⟩ a' f' ha'
      cases ha.symm.trans ha'
      exact hiff.mp hfirst
    · intro hplaced
      have hfirst := hiff.mpr (hplaced a f₀ ha)
      refine ⟨hfirst, ?_⟩
      rw [← hend]
      exact hfirst.openInode newInode_cut
  | write fd buf count ms => exact Iff.rfl
  | close fd => exact Iff.rfl

end

/-! ## The root directory -/

section

variable {bdev d : Device} {env : Surroundings} {name : List (BitVec 8)} {uuid : Mem} {uptimeMs rootMs mountMs : Nat} {fs fs' : Fs}
  {r : InodeRef}

theorem diskBlocks_root : diskBlocks (formatRootInode rootMs) = 1 := by
  unfold formatRootInode diskBlocks setDiskChecksum setDiskDirect setDiskSize setDiskBlocks setDiskAtime setDiskMtime
  simp (disch := omega) only [load64_store32_disjoint, load64_store64_disjoint]
  exact load64_store64_same (by decide)

theorem diskDirect_root : diskDirect (formatRootInode rootMs) 0 = 4 * segSize := by
  unfold formatRootInode diskDirect setDiskChecksum setDiskDirect
  simp (disch := omega) only [load64_store32_disjoint]
  exact load64_store64_same (by decide)

theorem putDirent_end {block : Mem} {off recLen nameLen : Nat} {name : List (BitVec 8)} {x : Nat}
    (hx : off + 8 + (name.length + 1) ≤ x) : putDirent block off rootIno recLen nameLen typeDir name x = block x := by
  unfold putDirent copyString store32
  rw [copyBytes_of_notMem (Or.inr hx), storeBytes_of_notMem (by omega), storeBytes_of_notMem (by omega),
    storeBytes_of_notMem (by omega), storeBytes_of_notMem (by omega)]

theorem readBlock_root (h : ∀ x, x < blockSize → fs.bdev.bytes (4 * segSize + x) = formatRootBlock x) :
    readBlock fs (4 * segSize) zeroBuf = formatRootBlock := by
  funext x
  by_cases hx : x < blockSize
  · have hcopy := @copyBytes_of_mem zeroBuf 0 (4 * segSize) blockSize fs.bdev.bytes x (Nat.zero_le _) (by omega)
    rw [Nat.sub_zero] at hcopy
    exact hcopy.trans (h x hx)
  · have hcopy := @copyBytes_of_notMem zeroBuf 0 (4 * segSize) blockSize fs.bdev.bytes x (by omega)
    unfold blockSize at hx
    unfold formatRootBlock
    rw [putDirent_end (show 12 + 8 + (2 + 1) ≤ x by omega), putDirent_end (show 0 + 8 + (1 + 1) ≤ x by omega)]
    exact hcopy

/-- The directory has one block, and that is what `crfs_format` writes for the root. -/
structure RootDir (fs : Fs) (r : InodeRef) : Prop where
  blocks : diskBlocks (fs.disk r) = 1
  there : inodeGetBlock fs r 0 ≠ 0
  block : readBlock fs (inodeGetBlock fs r 0) zeroBuf = formatRootBlock

/-- **The root directory's block** is found through its inode. -/
theorem rootDir_of_holds (hold : HoldsInode (fs.disk r) 0 (formatRootInode rootMs))
    (hblock : ∀ x, x < blockSize → fs.bdev.bytes (4 * segSize + x) = formatRootBlock x) : RootDir fs r := by
  have hbytes : ∀ x, x < blockSize → fs.disk r x = formatRootInode rootMs x := by
    intro x hx
    have hx' := hold x hx
    rw [Nat.zero_add] at hx'
    exact hx'
  have hdirect : diskDirect (fs.disk r) 0 = 4 * segSize :=
    (load64_congr fun x _ hx => hbytes x (by unfold blockSize; omega)).trans (@diskDirect_root rootMs)
  have hget : inodeGetBlock fs r 0 = 4 * segSize := by
    unfold inodeGetBlock
    rw [if_pos (by decide)]
    exact hdirect
  constructor
  · exact (load64_congr fun x _ hx => hbytes x (by unfold blockSize; omega)).trans (@diskBlocks_root rootMs)
  · rw [hget]
    decide
  · rw [hget]
    exact readBlock_root hblock

theorem nameMatches_first {block : Mem} {a n : Nat} (ha : a < blockSize) (hne : block a ≠ name.getD 0 0) :
    nameMatches block a name (n + 1) 0 = some false := by
  unfold nameMatches
  rw [Nat.add_zero, if_neg (Nat.not_le.mpr ha), if_pos hne]

/-- The names that `crfs_dir_lookup` finds in the root directory's block are those that begin with a
    dot: the first record's name is one byte long, and no more is compared. -/
theorem dirScan_root (name : List (BitVec 8)) :
    dirScan formatRootBlock name (blockSize + 1) 0 = some (if name.getD 0 0 = dot then some rootIno else none) := by
  have hfirst : formatRootBlock 8 = dot := by decide +kernel
  have hlen : direntNameLen formatRootBlock 0 = 0 + 1 := by decide +kernel
  obtain ⟨fuel, hfuel⟩ : ∃ fuel, blockSize + 1 = fuel + 1 + 1 + 1 := ⟨4094, rfl⟩
  rw [hfuel, dirScan, if_neg (by decide), if_neg (by decide), if_neg (by decide +kernel), if_neg (by decide),
    if_neg (by decide +kernel), if_neg (by decide), hlen]
  by_cases hname : name.getD 0 0 = dot
  · have hmatch : nameMatches formatRootBlock (0 + 8) name (0 + 1) 0 = some true := by
      unfold nameMatches
      rw [Nat.add_zero, Nat.zero_add, if_neg (by decide), if_neg (by rw [hfirst, hname]; exact not_not.mpr rfl),
        if_neg (by rw [hfirst]; decide)]
      rfl
    have hino : direntInodeNo formatRootBlock 0 = rootIno := by decide +kernel
    rw [hmatch, if_pos hname, hino]
  · have hnext : 0 + direntRecLen formatRootBlock 0 = 12 := by decide +kernel
    have hlast : 12 + direntRecLen formatRootBlock 12 = blockSize := by decide +kernel
    have hlen' : direntNameLen formatRootBlock 12 = 1 + 1 := by decide +kernel
    have hsecond : formatRootBlock 20 = dot := by decide +kernel
    rw [nameMatches_first (by decide) (by rw [Nat.zero_add, hfirst]; exact Ne.symm hname), if_neg hname, hnext]
    dsimp only
    rw [dirScan, if_neg (by decide), if_neg (by decide), if_neg (by decide +kernel), if_neg (by decide),
      if_neg (by decide +kernel), if_neg (by decide), hlen',
      nameMatches_first (by decide) (by rw [hsecond]; exact Ne.symm hname), hlast]
    dsimp only
    rw [dirScan, if_pos le_rfl]

/-- **`crfs_dir_lookup` in the root directory.** -/
theorem RootDir.lookup (h : RootDir fs r) (name : List (BitVec 8)) :
    crfsDirLookup fs r name = some (if name.getD 0 0 = dot then some rootIno else none) := by
  obtain ⟨k, hk⟩ : ∃ k, 2 ^ 32 = k + 1 + 1 := ⟨2 ^ 32 - 2, by decide⟩
  unfold crfsDirLookup
  rw [hk, lookupBlocks, h.blocks, if_pos Nat.zero_lt_one]
  dsimp only
  rw [if_neg h.there, h.block, dirScan_root]
  by_cases hname : name.getD 0 0 = dot
  · rw [if_pos hname]
  · -- It was the only block.
    rw [if_neg hname]
    dsimp only
    rw [lookupBlocks, h.blocks, if_neg (by decide)]

/-- **When the root directory is found**: where the device held its inode already, at the place of
    number 1. -/
theorem rootYielded_iff (hdev : bdev.Reliable) (hsize : 16 ≤ bdev.size / segSize) (hlt : bdev.size < 2 ^ 64)
    (hformat : crfsFormat bdev name uuid uptimeMs rootMs = some d) (hmount : crfsMount d env 0 0 mountMs = some fs) :
    RootYielded fs rootMs ↔
      env.oom 0 = false ∧ HoldsInode bdev.bytes (3 * segSize + sizeofInodeDisk) (formatRootInode rootMs) := by
  obtain ⟨d', fs', hformat', hmount', hd, hm, -, htable⟩ := @format_mount bdev env name uuid uptimeMs rootMs 0 0 mountMs
    hdev hsize hlt
  obtain rfl := Option.some.inj (hformat'.symm.trans hformat)
  obtain rfl := Option.some.inj (hmount'.symm.trans hmount)
  have hoom : fs'.oom fs'.kmallocs = env.oom 0 := by
    unfold crfsMount at hmount
    dsimp only at hmount
    split at hmount
    · cases hmount
    · cases hmount
      rfl
  have haddr : inodeAddr fs' rootIno = 3 * segSize + sizeofInodeDisk := by
    unfold inodeAddr
    rw [htable]
    decide
  have hplace : HoldsInode fs'.bdev.bytes (3 * segSize + sizeofInodeDisk) (formatRootInode rootMs) ↔
      HoldsInode bdev.bytes (3 * segSize + sizeofInodeDisk) (formatRootInode rootMs) := by
    refine forall₂_congr fun x hx => ?_
    rw [hm.bdev, hd.table _ (Nat.le_add_right _ _)]
    unfold blockSize at hx
    unfold segSize sizeofInodeDisk
    omega
  have hyields : Yields fs' rootIno (formatRootInode rootMs) ↔
      env.oom 0 = false ∧ HoldsInode bdev.bytes (3 * segSize + sizeofInodeDisk) (formatRootInode rootMs) := by
    rw [yields_iff, hm.inodeCache, ← hplace, ← hoom, ← haddr]
    rfl
  rw [← hyields]
  constructor
  · rintro ⟨r, g, hget, hold, -⟩
    exact ⟨r, g, hget, hold⟩
  · rintro ⟨r, g, hget, hold⟩
    have hbdev : g.bdev = d' := by
      have hkeep := crfsIget_bdev fs' rootIno
      rw [hget] at hkeep
      exact hkeep.trans hm.bdev
    have hblock : ∀ x, x < blockSize → g.bdev.bytes (4 * segSize + x) = formatRootBlock x := by
      rw [hbdev]
      exact hd.rootBlock
    have hroot := rootDir_of_holds hold hblock
    exact ⟨r, g, hget, hold, hroot.lookup [dot], hroot.lookup [dot, dot]⟩

end

/-- **Where the inodes are found that were written**: the root directory's, where the device held it
    already; a new one, where its block is the one that is read, or the device held it already. -/
theorem crfs_placement {bdev d : Device} {env : Surroundings} {name : List (BitVec 8)} {uuid : Mem}
    {uptimeMs rootMs mountMs : Nat} {fs : Fs} (hdev : bdev.Reliable) (hsize : 16 ≤ bdev.size / segSize)
    (hlt : bdev.size < 2 ^ 64) (hformat : crfsFormat bdev name uuid uptimeMs rootMs = some d)
    (hmount : crfsMount d env 0 0 mountMs = some fs) :
    (RootYielded fs rootMs ↔
        env.oom 0 = false ∧ HoldsInode bdev.bytes (3 * segSize + sizeofInodeDisk) (formatRootInode rootMs)) ∧
      ∀ ops, Meets createStep ApartGuard ⟨fs, []⟩ ops →
        (Meets createStep CreateYields ⟨fs, []⟩ ops ↔ Meets createStep PlaceGuard ⟨fs, []⟩ ops) := by
  refine ⟨rootYielded_iff hdev hsize hlt hformat hmount, fun ops hapart => ?_⟩
  have hreliable : fs.Reliable := by
    obtain ⟨d', fs', hformat', hmount', hd, hm, -⟩ := @format_mount bdev env name uuid uptimeMs rootMs 0 0 mountMs
      hdev hsize hlt
    obtain rfl := Option.some.inj (hformat'.symm.trans hformat)
    obtain rfl := Option.some.inj (hmount'.symm.trans hmount)
    intro k
    rw [hm.bdev]
    exact hd.reliable k
  exact @meets_iff_assuming _ _ createStep CreateYields (fun s => s.fs.Reliable) ApartGuard PlaceGuard
    (fun s op s' h hs => reliable_createStep h hs) (fun s op s' h ha _ => createYields_iff h ha) ops ⟨fs, []⟩ hreliable hapart

/-! A device that holds what will be written, where it will be read. -/

def knownDevice : Device where
  size := 16 * segSize
  bytes := copyBytes
    (copyBytes (fun _ => 0) (3 * segSize + sizeofInodeDisk) (formatRootInode 0) 0 blockSize)
    (3 * segSize + 5 * sizeofInodeDisk) (newInode 5 (oCreat ||| oRdwr) 0o644 0) 0 blockSize
  writes := 0
  writeFails := fun _ => false

def knownFormatted : Device := (crfsFormat knownDevice [] zeroBuf 0 0).getD knownDevice

def knownRun : CreateRun := ⟨(mounted knownFormatted).getD noFs, []⟩

/-- What is done with it, up to the allocation for a file `a`. -/
theorem known_steps : crfsFormat knownDevice [] zeroBuf 0 0 = some knownFormatted ∧
    crfsMount knownFormatted quiet 0 0 0 = some knownRun.fs ∧
      lastDir knownRun.fs [0x61#8] = some ((lastDir knownRun.fs [0x61#8]).getD (0, noFs)) ∧
        allocBlock ((lastDir knownRun.fs [0x61#8]).getD (0, noFs)).2 =
          some ((allocBlock ((lastDir knownRun.fs [0x61#8]).getD (0, noFs)).2).getD (0, noFs)) :=
  ⟨eq_some_getD knownDevice (by decide +kernel), eq_some_getD noFs (by decide +kernel),
    eq_some_getD (0, noFs) (by decide +kernel), eq_some_getD (0, noFs) (by decide +kernel)⟩

/-- Where the walk has nothing to do, the device is as it was. -/
theorem lastDir_bdev {fs fs' : Fs} {r : InodeRef} {path : List (BitVec 8)} (htokens : (pathTokens path).dropLast = [])
    (h : lastDir fs path = some (r, fs')) : fs'.bdev = fs.bdev := by
  have hkeep := crfsIget_bdev fs rootIno
  unfold lastDir at h
  rw [htokens] at h
  generalize crfsIget fs rootIno = got at h hkeep
  obtain ⟨root, g⟩ := got
  cases root with
  | none => cases h
  | some root =>
    cases h
    exact hkeep

theorem known_apart : ApartGuard knownRun (createAt 0x61#8 5) := by
  intro dir fs₂ fs₁ hcreated
  have hpair := Option.some.inj (hcreated.dir.symm.trans known_steps.2.2.1)
  obtain rfl : dir = _ := congrArg Prod.fst hpair
  obtain rfl : fs₂ = _ := congrArg Prod.snd hpair
  refine ⟨by decide +kernel, by unfold BlocksApart; decide +kernel, ?_, ?_⟩
  · exact Option.isSome_iff_ne_none.mp (by decide +kernel)
  · intro a f₀ ha
    have hpair := Option.some.inj (ha.symm.trans known_steps.2.2.2)
    obtain rfl : a = _ := congrArg Prod.fst hpair
    obtain rfl : f₀ = _ := congrArg Prod.snd hpair
    -- The block of the directory is full; there is no other.
    refine fun _ => ⟨⟨by unfold BlocksApart; decide +kernel, ?_, ?_⟩, fun _ hmore => ?_⟩
    · intro hzero
      exact absurd hzero (by decide +kernel)
    · intro hzero
      exact absurd hzero (by decide +kernel)
    · exact absurd hmore (by decide +kernel)

theorem known_placed : PlaceGuard knownRun (createAt 0x61#8 5) := by
  intro dir fs₂ fs₁ k fs' hcreated _ a f₀ ha
  have htokens : (pathTokens [0x61#8]).dropLast = [] := by decide +kernel
  have hbdev := lastDir_bdev htokens hcreated.dir
  have hpair := Option.some.inj (hcreated.dir.symm.trans known_steps.2.2.1)
  obtain rfl : fs₂ = _ := congrArg Prod.snd hpair
  obtain rfl : a = _ := congrArg Prod.fst (Option.some.inj (ha.symm.trans known_steps.2.2.2))
  have hfind : ((((lastDir knownRun.fs [0x61#8]).getD (0, noFs)).2.inodeCache (newInodeNo 5 % 256)).find? fun r =>
      (((lastDir knownRun.fs [0x61#8]).getD (0, noFs)).2.inodes r).inodeNo = newInodeNo 5) = none := by decide +kernel
  obtain ⟨d, hformat', hd⟩ := @crfsFormat_spec knownDevice [] zeroBuf 0 0 (fun _ => rfl) (by decide)
  obtain rfl := Option.some.inj (hformat'.symm.trans known_steps.1)
  have hmounted : knownRun.fs.bdev = knownFormatted := (crfsMount_spec known_steps.2.1).bdev
  have haddr : inodeAddr ((lastDir knownRun.fs [0x61#8]).getD (0, noFs)).2 (newInodeNo 5) = 3 * segSize + 5 * sizeofInodeDisk := by
    decide +kernel
  unfold CreatePlaced
  rw [hfind]
  refine ⟨by decide +kernel, Or.inr ⟨by unfold BlocksApart; decide +kernel, fun x hx => ?_⟩⟩
  rw [haddr, hbdev, hmounted]
  unfold blockSize at hx
  rw [hd.table _ (by unfold segSize sizeofInodeDisk; omega) (by unfold segSize sizeofInodeDisk; omega)]
  exact holds_copied _ _ _ x hx

/-- On the device that knows them, both are found. -/
theorem crfs_placement_known : RootYielded knownRun.fs 0 ∧ Meets createStep CreateYields knownRun [createAt 0x61#8 5] := by
  have hplaced := crfs_placement (fun _ => rfl) (by decide) (by decide) known_steps.1 known_steps.2.1
  refine ⟨hplaced.1.mpr ⟨rfl, ?_⟩, ?_⟩
  · exact holds_copied_apart (by unfold BlocksApart; decide) (holds_copied _ _ _)
  · exact (hplaced.2 [createAt 0x61#8 5] fun s' _ => ⟨known_apart, trivial⟩).mpr fun s' _ => ⟨known_placed, trivial⟩

/-- **On a device of zeros** the root directory is not found, nor is a file that is created. -/
theorem crfs_misplaced : ¬RootYielded freshRun.fs 0 ∧ ¬Meets createStep CreateYields freshRun [createAt 0x61#8 5] := by
  constructor
  · rintro ⟨r, g, hget, hold, -⟩
    have hr : (crfsIget freshRun.fs rootIno).1 = some 0 := by decide +kernel
    have hbyte : (crfsIget freshRun.fs rootIno).2.disk 0 (0 + 0) = 0#8 := by decide +kernel
    rw [hget] at hr hbyte
    obtain rfl := Option.some.inj hr
    have hfirst := (hold 0 (by decide)).symm.trans hbyte
    exact absurd hfirst (by decide +kernel)
  · intro h
    have hstep := eq_some_getD freshRun (o := createStep freshRun (createAt 0x61#8 5)) (by decide +kernel)
    obtain ⟨⟨dir, fs₂⟩, hdir⟩ := Option.isSome_iff_exists.mp (show (lastDir freshRun.fs [0x61#8]).isSome = true by decide +kernel)
    have hres := eq_some_getD (none, noFs)
      (o := resolveWith crfsDirLookup freshRun.fs [0x61#8] (oCreat ||| oRdwr) 0o644 5 0) (by decide +kernel)
    obtain ⟨⟨k, fs'⟩, hopen⟩ := Option.isSome_iff_exists.mp
      (show (crfsOpen freshRun.fs [0x61#8] (oCreat ||| oRdwr) 0o644 5 0).isSome = true by decide +kernel)
    have hino : ((resolveWith crfsDirLookup freshRun.fs [0x61#8] (oCreat ||| oRdwr) 0o644 5 0).getD (none, noFs)).1 =
        some (newInodeNo 5) := by decide +kernel
    have hr : (crfsIget ((resolveWith crfsDirLookup freshRun.fs [0x61#8] (oCreat ||| oRdwr) 0o644 5 0).getD (none, noFs)).2
        (newInodeNo 5)).1 = some 1 := by decide +kernel
    have hbyte : (crfsIget ((resolveWith crfsDirLookup freshRun.fs [0x61#8] (oCreat ||| oRdwr) 0o644 5 0).getD
        (none, noFs)).2 (newInodeNo 5)).2.disk 1 (0 + 0) = 0#8 := by decide +kernel
    generalize (resolveWith crfsDirLookup freshRun.fs [0x61#8] (oCreat ||| oRdwr) 0o644 5 0).getD (none, noFs) = x
      at hres hino hr hbyte
    obtain ⟨found, fs₁⟩ := x
    obtain rfl : found = some (newInodeNo 5) := hino
    obtain ⟨r, g, hget, hold⟩ := ((h _ hstep).1 dir fs₂ fs₁ k fs' ⟨by decide +kernel, hdir, hres⟩ hopen).1
    rw [hget] at hr hbyte
    obtain rfl := Option.some.inj hr
    have hfirst := (hold 0 (by decide)).symm.trans hbyte
    exact absurd hfirst (by decide +kernel)

end Crimson.Crfs
