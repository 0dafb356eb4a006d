import Crimson.Lib.Run
import Crimson.Crfs.Directory
import Crimson.Crfs.Tables

/-!
# Inodes and blocks kept apart

`crfs_write_inode` writes an inode where its number says, and the number of a new file is the
clock. `Separated` is what should hold between calls: every inode lies in the segment of the
inode table, apart from the other inodes and from all live blocks, and files that were created
have numbers of their own.

It holds while the clock says 486 or less when a file is created, and never the same for two
paths, where the allocations succeed and what is read from the inode table is in order
(`crfs_separation`). With a greater number the inode is written behind the table
(`crfs_not_separated`).
-/

set_option autoImplicit false

namespace Crimson.Crfs

open Crimson.Lib Crimson.Mm

/-! ## The history -/

/-- The file system, and the files that were created: path and number. -/
structure CreateRun where
  fs : Fs
  created : List (List (BitVec 8) × Nat)

inductive CreateOp where
  | open (path : List (BitVec 8)) (flags : BitVec 32) (mode uptimeUs uptimeMs : Nat)
  | write (fd : Int) (buf : Mem) (count uptimeMs : Nat)
  | close (fd : Int)

/-- The components of a path, as `crfs_open` cuts it. -/
def pathTokens (path : List (BitVec 8)) : List (List (BitVec 8)) := (path.take (maxPath - 1)).splitOn slash

/-- The directory that the walk of `crfs_open` ends in, and the state there. -/
def lastDir (fs : Fs) (path : List (BitVec 8)) : Option (InodeRef × Fs) :=
  match crfsIget fs rootIno with
  | (none, _) => none
  | (some dir, fs) =>
    match walkPath fs dir (pathTokens path).dropLast with
    | some (some inode, fs) => some (inode, fs)
    | _ => none

/-- `crfs_open` comes to the part that creates a file. -/
def creates (fs : Fs) (path : List (BitVec 8)) (flags : BitVec 32) : Bool :=
  match lastDir fs path with
  | none => false
  | some (dir, fs) =>
    decide ((pathTokens path).getLastD [] ≠ [] ∧ crfsDirLookup fs dir ((pathTokens path).getLastD []) = some none ∧
      flags &&& oCreat ≠ 0#32)

def createStep (s : CreateRun) : CreateOp → Option CreateRun
  | .open path flags mode us ms =>
    (crfsOpen s.fs path flags mode us ms).map fun x =>
      { fs := x.2, created := if creates s.fs path flags then (path, newInodeNo us) :: s.created else s.created }
  | .write fd buf count ms => some { s with fs := (crfsWrite s.fs fd buf count ms).2 }
  | .close fd => some { s with fs := crfsClose s.fs fd }

/-! ## The property -/

/-- The number of a file that was created, or of an inode in memory. -/
def CreateRun.Number (s : CreateRun) (n : Nat) : Prop :=
  n ∈ s.created.map Prod.snd ∨ ∃ r, r < s.fs.inodeCount ∧ (s.fs.inodes r).inodeNo = n

/-- **Inodes lie in the inode table**, apart from one another and from live blocks. -/
structure Separated (s : CreateRun) : Prop where
  inside : ∀ n, s.Number n → sbInodeTableStart s.fs.sb * segSize ≤ inodeAddr s.fs n ∧
    inodeAddr s.fs n + blockSize ≤ (sbInodeTableStart s.fs.sb + 1) * segSize
  inodes : ∀ n n', s.Number n → s.Number n' → n ≠ n' → BlocksApart (inodeAddr s.fs n) (inodeAddr s.fs n')
  blocks : ∀ n x, s.Number n → Live s.fs x → BlocksApart (inodeAddr s.fs n) x
  distinct : ∀ path n path' n', (path, n) ∈ s.created → (path', n') ∈ s.created → path ≠ path' → n ≠ n'

/-! ## The guard -/

/-- What `crfs_iget` would read for a number: an inode whose blocks are behind the cursor and in no
    other map. An empty map is one. -/
def LoadApart (fs : Fs) (n : Nat) : Prop :=
  MapOk fs.bdev.bytes (readBlock fs (inodeAddr fs n) zeroBuf) ∧
    ∀ p l x, blockWalk fs.bdev.bytes (readBlock fs (inodeAddr fs n) zeroBuf) p = some (.block l x) →
      Behind fs x ∧ 4 ≤ segOf x ∧ ∀ r p' l', blockWalk fs.bdev.bytes (fs.disk r) p' ≠ some (.block l' x)

/-- The number is one of the inode table's, and so is what is read for it. -/
def GetGuard (fs : Fs) (n : Nat) : Prop := n ≤ lastIno ∧ (loads fs n = true → LoadApart fs n)

/-- Every call of `crfs_iget` in the walk meets the guard. -/
def EachGet (fs : Fs) (inode : InodeRef) : List (List (BitVec 8)) → Prop
  | [] => True
  | token :: rest =>
    if token = [] then EachGet fs inode rest
    else ∀ childIno, crfsDirLookup fs inode token = some (some childIno) → GetGuard fs childIno ∧
      ∀ child fs', crfsIget fs childIno = (some child, fs') → EachGet (crfsIput fs' inode) child rest

structure OpenGuard (s : CreateRun) (path : List (BitVec 8)) (flags : BitVec 32) (mode us ms : Nat) : Prop where
  root : GetGuard s.fs rootIno
  walk : ∀ dir fs, crfsIget s.fs rootIno = (some dir, fs) → EachGet fs dir (pathTokens path).dropLast
  create : creates s.fs path flags = true → ∀ dir fs, lastDir s.fs path = some (dir, fs) → CreateGuard dir flags mode us ms fs
  fresh : creates s.fs path flags = true → ∀ p, (p, newInodeNo us) ∈ s.created → p = path
  file : ∀ ino fs, resolveWith crfsDirLookup s.fs path flags mode us ms = some (some ino, fs) → GetGuard fs ino

/-- **The guard**: numbers up to 486, a new one for every path; allocations that succeed. -/
def SeparateGuard (s : CreateRun) : CreateOp → Prop
  | .open path flags mode us ms => OpenGuard s path flags mode us ms
  | .write fd buf count _ => ∀ r, writeTarget s.fs fd = some r →
    EachChunk (fun fs _ => allocBlock fs ≠ none) r buf (s.fs.files fd.toNat).offset count count 0 s.fs
  | .close _ => True

/-! ## Opening -/

section

variable {fs fs' : Fs} {r : InodeRef} {n : Nat} {flags : BitVec 32} {path : List (BitVec 8)} {mode us ms : Nat}

/-- Nothing is in an empty map. -/
theorem loadApart_empty (h : AgreeOn zeroBuf (readBlock fs (inodeAddr fs n) zeroBuf) 88 112) : LoadApart fs n := by
  have hwalk := blockWalk_disk_congr (m := fs.bdev.bytes) h
  refine ⟨(mapOk_empty _).congr hwalk, fun p l x hp => ?_⟩
  rw [hwalk] at hp
  exact absurd hp (blockWalk_empty_ne _ p l x)

theorem LiveOk.load (h : LiveOk fs) (hn : n ≤ lastIno) (hg : LoadApart fs n) (hl : Loaded fs n fs') : LiveOk fs' := by
  have halloc := hl.alloc
  have hbdev := hl.bdev
  -- A live block is in the map that was read, or was live before.
  have hlive : ∀ q p l x, blockWalk fs'.bdev.bytes (fs'.disk q) p = some (.block l x) →
      (q = fs.inodeCount ∧
          blockWalk fs.bdev.bytes (readBlock fs (Crfs.inodeAddr fs n) zeroBuf) p = some (.block l x)) ∨
        (q ≠ fs.inodeCount ∧ blockWalk fs.bdev.bytes (fs.disk q) p = some (.block l x)) := by
    intro q p l x hp
    rw [hbdev] at hp
    by_cases hq : q = fs.inodeCount
    · rw [hq, hl.disk_new] at hp
      exact Or.inl ⟨hq, hp⟩
    · rw [hl.disk_old hq] at hp
      exact Or.inr ⟨hq, hp⟩
  have hbehind : ∀ x, Behind fs x → Behind fs' x := by
    intro x hx
    rw [halloc]
    exact hx
  refine ⟨?_, ?_, ?_, ?_, ?_, ?_, ?_, ?_⟩
  · intro k
    rw [hbdev]
    exact h.device k
  · rw [halloc]
    exact h.table
  · intro q
    by_cases hq : q = fs.inodeCount
    · rw [hl.inodes, hq, Function.update_self]
      exact hn
    · rw [hl.inodes, Function.update_of_ne hq]
      exact h.numbers q
  · rw [halloc]
    exact ⟨h.cursor.fits, h.cursor.next, h.cursor.cursor⟩
  · intro q
    rw [hbdev]
    by_cases hq : q = fs.inodeCount
    · rw [hq, hl.disk_new]
      exact hg.1
    · rw [hl.disk_old hq]
      exact h.maps q
  · rintro x ⟨q, p, l, hp⟩
    rcases hlive q p l x hp with ⟨-, hp⟩ | ⟨-, hp⟩
    · exact hbehind x (hg.2 p l x hp).1
    · exact hbehind x (h.behind x ⟨q, p, l, hp⟩)
  · rintro x ⟨q, p, l, hp⟩
    rcases hlive q p l x hp with ⟨-, hp⟩ | ⟨-, hp⟩
    · exact (hg.2 p l x hp).2.1
    · exact h.data x ⟨q, p, l, hp⟩
  · intro q p l q' p' l' x hp hp'
    rcases hlive q p l x hp with ⟨hq, hp⟩ | ⟨-, hp⟩
    · rcases hlive q' p' l' x hp' with ⟨hq', -⟩ | ⟨-, hp'⟩
      · exact hq.trans hq'.symm
      · exact absurd hp' ((hg.2 p l x hp).2.2 q' p' l')
    · rcases hlive q' p' l' x hp' with ⟨-, hp'⟩ | ⟨-, hp'⟩
      · exact absurd hp ((hg.2 p' l' x hp').2.2 q p l)
      · exact h.apart q p l q' p' l' x hp hp'

theorem LiveOk.crfsIget (h : LiveOk fs) (hg : GetGuard fs n) : LiveOk (crfsIget fs n).2 := by
  rcases crfsIget_cases fs n with ⟨-, r, -, -, hget⟩ | ⟨-, hget⟩ | ⟨hloads, fs', hget, hl⟩
  · rw [hget]
    have href := @stored_modInode fs (fun _ => False) r (fun i => { i with refCount := (i.refCount + 1) % 2 ^ 32 })
      (fun _ _ _ _ => rfl) fun _ => rfl
    exact h.stored href fun _ _ _ _ _ _ _ => id
  · rw [hget]
    have hsame : Stored fs (fun _ => False) { fs with kmallocs := fs.kmallocs + 1 } :=
      ⟨rfl, rfl, fun _ _ => rfl, fun _ _ _ _ => rfl, fun _ => rfl⟩
    exact h.stored hsame fun _ _ _ _ _ _ _ => id
  · rw [hget]
    exact h.load hg.1 (hg.2 hloads) hl

theorem LiveOk.crfsIput (h : LiveOk fs) (r : InodeRef) : LiveOk (crfsIput fs r) :=
  h.storedInode (h.numbers r) stored_crfsIput

/-- **The walk of `crfs_open`.** -/
theorem LiveOk.walkPath {tokens : List (List (BitVec 8))} {inode : InodeRef} {found : Option InodeRef} (h : LiveOk fs)
    (hg : EachGet fs inode tokens) (hwalk : walkPath fs inode tokens = some (found, fs')) : LiveOk fs' := by
  induction tokens generalizing fs inode with
  | nil =>
    cases hwalk
    exact h
  | cons token rest ih =>
    unfold Crfs.walkPath at hwalk
    unfold EachGet at hg
    split at hwalk
    · rename_i hempty
      rw [if_pos hempty] at hg
      exact ih h hg hwalk
    · rename_i htoken
      rw [if_neg htoken] at hg
      split at hwalk
      · cases hwalk
      · cases hwalk
        exact h.crfsIput inode
      · rename_i childIno hlook
        obtain ⟨hget, hrest⟩ := hg childIno hlook
        have hok := h.crfsIget hget
        generalize Crfs.crfsIget fs childIno = got at hok hrest hwalk
        cases got with
        | mk child fs₁ =>
          cases child with
          | none =>
            cases hwalk
            exact hok.crfsIput inode
          | some child =>
            have hput := LiveOk.crfsIput hok inode
            dsimp only at hwalk
            split at hwalk
            · cases hwalk
              exact hput.crfsIput child
            · exact ih hput (hrest child fs₁ rfl) hwalk

theorem LiveOk.openInode (h : LiveOk fs) (hg : GetGuard fs n) : LiveOk (openInode fs n flags).2 := by
  rw [openInode_eq]
  have hok := h.crfsIget hg
  generalize Crfs.crfsIget fs n = got at hok ⊢
  cases got with
  | mk found fs₁ =>
    cases found with
    | none => exact hok
    | some r => exact LiveOk.storedInode hok (LiveOk.numbers hok r) stored_openTail

theorem resolveWith_eq (fs : Fs) :
    resolveWith crfsDirLookup fs path flags mode us ms =
      match crfsIget fs rootIno with
      | (none, fs) => some (none, fs)
      | (some dir, fs) =>
        match Crfs.walkPath fs dir (pathTokens path).dropLast with
        | none => none
        | some (none, fs) => some (none, fs)
        | some (some inode, fs) =>
          if (pathTokens path).getLastD [] = [] then some (none, crfsIput fs inode)
          else
            match crfsDirLookup fs inode ((pathTokens path).getLastD []) with
            | none => none
            | some (some fileIno) => some (some fileIno, crfsIput fs inode)
            | some none =>
              if flags &&& oCreat ≠ 0#32 then
                match createFile fs inode ((pathTokens path).getLastD []) flags mode us ms with
                | none => none
                | some fs => some (some (newInodeNo us), crfsIput fs inode)
              else some (none, crfsIput fs inode) := by
  have hlook : walkPathWith crfsDirLookup = Crfs.walkPath := by
    funext fs inode tokens
    exact walkPathWith_lookup fs inode tokens
  generalize hres : resolveWith crfsDirLookup fs path flags mode us ms = out
  unfold resolveWith at hres
  unfold pathTokens
  rw [hlook] at hres
  generalize (path.take (maxPath - 1)).splitOn slash = tokens at hres ⊢
  generalize Crfs.crfsIget fs rootIno = got at hres ⊢
  cases got with
  | mk dir fs =>
    cases dir with
    | none => exact hres.symm
    | some dir =>
      dsimp only at hres ⊢
      generalize Crfs.walkPath fs dir tokens.dropLast = walked at hres ⊢
      rcases walked with _ | ⟨_ | inode, fs⟩
      · exact hres.symm
      · exact hres.symm
      · dsimp only at hres ⊢
        generalize crfsDirLookup fs inode (tokens.getLastD []) = looked at hres ⊢
        rcases looked with _ | _ | fileIno
        · exact hres.symm
        · dsimp only at hres ⊢
          generalize createFile fs inode (tokens.getLastD []) flags mode us ms = created at hres ⊢
          cases created with
          | none => exact hres.symm
          | some fs => exact hres.symm
        · exact hres.symm

/-- **What `crfs_open` does before it gets the inode.** -/
theorem LiveOk.resolve {s : CreateRun} {found : Option Nat} (h : LiveOk s.fs) (hg : OpenGuard s path flags mode us ms)
    (hres : resolveWith crfsDirLookup s.fs path flags mode us ms = some (found, fs')) :
    LiveOk fs' ∧ (creates s.fs path flags = true → found = some (newInodeNo us)) := by
  have hok := h.crfsIget hg.root
  have hwalk := hg.walk
  have hcreate := hg.create
  -- the same matches in `hres` and in what `creates` asks for, so they are gone through together
  rw [resolveWith_eq] at hres
  unfold creates lastDir at hcreate ⊢
  generalize Crfs.crfsIget s.fs rootIno = got at hok hwalk hcreate hres ⊢
  generalize pathTokens path = tokens at hwalk hcreate hres ⊢
  cases got with
  | mk dir fs₁ =>
    cases dir with
    | none =>
      cases hres
      exact ⟨hok, fun hc => by cases hc⟩
    | some dir =>
      have heach := hwalk dir fs₁ rfl
      dsimp only at hok hcreate hres ⊢
      cases hend : Crfs.walkPath fs₁ dir tokens.dropLast with
      | none =>
        rw [hend] at hres
        cases hres
      | some x =>
        have hok' : LiveOk x.2 := LiveOk.walkPath hok heach hend
        rw [hend] at hres hcreate
        cases x with
        | mk found' fs₂ =>
          cases found' with
          | none =>
            cases hres
            exact ⟨hok', fun hc => by cases hc⟩
          | some inode =>
            dsimp only at hok' hcreate hres ⊢
            have hput := LiveOk.crfsIput hok' inode
            split at hres
            · rename_i hempty
              cases hres
              exact ⟨hput, fun hc => absurd hempty (of_decide_eq_true hc).1⟩
            · rename_i htoken
              split at hres
              · cases hres
              · rename_i hfound
                cases hres
                refine ⟨hput, fun hc => ?_⟩
                have hnone := (of_decide_eq_true hc).2.1
                rw [hfound] at hnone
                cases hnone
              · rename_i hnone
                split at hres
                · rename_i hcreat
                  split at hres
                  · cases hres
                  · rename_i fs₃ hfile
                    cases hres
                    have hguard := hcreate (decide_eq_true ⟨htoken, hnone, hcreat⟩) inode fs₂ rfl
                    exact ⟨(LiveOk.createFile hok' hguard hfile).crfsIput inode, fun _ => rfl⟩
                · rename_i hcreat
                  cases hres
                  exact ⟨hput, fun hc => absurd (of_decide_eq_true hc).2.2 hcreat⟩

/-- **`crfs_open`**, and the number of the file it creates. -/
theorem LiveOk.crfsOpen {s : CreateRun} {n : Int} (h : LiveOk s.fs) (hg : OpenGuard s path flags mode us ms)
    (hopen : crfsOpen s.fs path flags mode us ms = some (n, fs')) :
    LiveOk fs' ∧ (creates s.fs path flags = true → newInodeNo us ≤ lastIno) := by
  rw [← crfsOpenWith_lookup, crfsOpenWith_eq] at hopen
  obtain ⟨⟨found, fs₁⟩, hres, hend⟩ := Option.map_eq_some_iff.mp hopen
  obtain ⟨hok, hnew⟩ := h.resolve hg hres
  cases found with
  | none =>
    cases hend
    refine ⟨hok, fun hc => ?_⟩
    cases hnew hc
  | some ino =>
    have hget := hg.file ino fs₁ hres
    dsimp only at hend
    have hfinal := @LiveOk.openInode _ _ flags hok hget
    rw [hend] at hfinal
    refine ⟨hfinal, fun hc => ?_⟩
    cases hnew hc
    exact hget.1

end

/-! ## The invariant -/

structure SeparateOk (s : CreateRun) : Prop where
  live : LiveOk s.fs
  created : ∀ path n, (path, n) ∈ s.created → n ≤ lastIno
  distinct : ∀ path n path' n', (path, n) ∈ s.created → (path', n') ∈ s.created → path ≠ path' → n ≠ n'

section

variable {s s' : CreateRun} {fs fs' : Fs}

theorem SeparateOk.number (h : SeparateOk s) {n : Nat} (hn : s.Number n) : n ≤ lastIno := by
  rcases hn with hmem | ⟨r, -, rfl⟩
  · obtain ⟨file, hfile, rfl⟩ := List.mem_map.mp hmem
    exact h.created file.1 file.2 hfile
  · exact h.live.numbers r

theorem SeparateOk.separated (h : SeparateOk s) : Separated s where
  inside := by
    intro n hn
    obtain ⟨haddr, hend⟩ := h.live.inodeAddr (h.number hn)
    rw [h.live.table]
    refine ⟨?_, hend⟩
    rw [haddr]
    exact Nat.le_add_right _ _
  inodes := by
    intro n n' hn hn' hne
    rw [BlocksApart, (h.live.inodeAddr (h.number hn)).1, (h.live.inodeAddr (h.number hn')).1]
    unfold sizeofInodeDisk blockSize
    omega
  blocks := fun n x hn hx => Or.inl (h.live.storeApart (h.number hn) hx)
  distinct := h.distinct

theorem LiveOk.crfsWrite (h : LiveOk fs) {fd : Int} {buf : Mem} {count uptimeMs : Nat}
    (hg : ∀ r, writeTarget fs fd = some r →
      EachChunk (fun fs _ => allocBlock fs ≠ none) r buf (fs.files fd.toNat).offset count count 0 fs) :
    LiveOk (crfsWrite fs fd buf count uptimeMs).2 := by
  rw [crfsWrite_eq]
  cases ht : writeTarget fs fd with
  | none => exact h
  | some r =>
    have hloop := h.loop (hg r ht)
    exact hloop.stored (@stored_writeFinish _ (fun _ => False) r fd.toNat count uptimeMs) fun _ _ _ _ _ _ _ => id

theorem LiveOk.crfsClose (h : LiveOk fs) (fd : Int) : LiveOk (crfsClose fs fd) := by
  cases hr : (fs.files fd.toNat).inode with
  | none => exact h.stored (@crfsClose_none fs (fun _ => False) fd hr) fun _ _ _ _ _ _ _ => id
  | some r => exact h.storedInode (h.numbers r) (stored_crfsClose hr)

/-- **One call.** -/
theorem SeparateOk.step {op : CreateOp} (h : SeparateOk s) (hg : SeparateGuard s op) (hs : createStep s op = some s') :
    SeparateOk s' := by
  cases op with
  | «open» path flags mode us ms =>
    obtain ⟨⟨n, fs'⟩, hopen, rfl⟩ := Option.map_eq_some_iff.mp hs
    obtain ⟨hok, hnew⟩ := h.live.crfsOpen hg hopen
    refine ⟨hok, ?_, ?_⟩
    · intro p k hk
      dsimp only at hk
      split at hk
      · rename_i hc
        rcases List.mem_cons.mp hk with heq | hk
        · cases heq
          exact hnew hc
        · exact h.created p k hk
      · exact h.created p k hk
    · intro p k p' k' hk hk' hne
      dsimp only at hk hk'
      split at hk
      · rename_i hc
        rw [if_pos hc] at hk'
        rcases List.mem_cons.mp hk with heq | hk
        · cases heq
          rcases List.mem_cons.mp hk' with heq' | hk'
          · cases heq'
            exact absurd rfl hne
          · rintro rfl
            exact hne (hg.fresh hc p' hk').symm
        · rcases List.mem_cons.mp hk' with heq' | hk'
          · cases heq'
            rintro rfl
            exact hne (hg.fresh hc p hk)
          · exact h.distinct p k p' k' hk hk' hne
      · rename_i hc
        rw [if_neg hc] at hk'
        exact h.distinct p k p' k' hk hk' hne
  | write fd buf count ms =>
    cases hs
    exact ⟨h.live.crfsWrite hg, h.created, h.distinct⟩
  | close fd =>
    cases hs
    exact ⟨h.live.crfsClose fd, h.created, h.distinct⟩

/-- After the first mount no inode is in memory. -/
theorem liveOk_mounted {bdev d : Device} {env : Surroundings} {name : List (BitVec 8)} {uuid : Mem}
    {uptimeMs rootMs mountMs : Nat} (hdev : bdev.Reliable) (hsize : 16 ≤ bdev.size / segSize) (hlt : bdev.size < 2 ^ 64)
    (hformat : crfsFormat bdev name uuid uptimeMs rootMs = some d) (hmount : crfsMount d env 0 0 mountMs = some fs) :
    LiveOk fs := by
  obtain ⟨d', fs', hformat', hmount', hd, hm, htotal, htable⟩ := @format_mount bdev env name uuid uptimeMs rootMs 0 0 mountMs
    hdev hsize hlt
  obtain rfl := Option.some.inj (hformat'.symm.trans hformat)
  obtain rfl := Option.some.inj (hmount'.symm.trans hmount)
  have hdisk : ∀ r, fs'.disk r = zeroBuf := by
    intro r
    unfold Fs.disk
    rw [hm.inodes]
    rfl
  have hnone : ∀ r p l x, blockWalk fs'.bdev.bytes (fs'.disk r) p ≠ some (.block l x) := by
    intro r p l x
    rw [hdisk]
    exact blockWalk_empty_ne _ p l x
  refine ⟨?_, htable, ?_, ⟨?_, ?_, ?_⟩, ?_, ?_, ?_, fun r p l r' p' l' x hp => absurd hp (hnone r p l x)⟩
  · intro k
    rw [hm.bdev]
    exact hd.reliable k
  · intro r
    rw [hm.inodes]
    exact Nat.zero_le _
  · rw [htotal]
    exact (Nat.div_mul_le_self _ _).trans hlt.le
  · rw [hm.nextSeg]
  · intro hne
    exact absurd hm.currentSeg hne
  · intro r
    rw [hdisk]
    exact mapOk_empty _
  · rintro x ⟨r, p, l, hp⟩
    exact absurd hp (hnone r p l x)
  · rintro x ⟨r, p, l, hp⟩
    exact absurd hp (hnone r p l x)

end

/-- **Inodes and blocks are kept apart** on a device that was formatted and mounted, through every
    history whose calls meet the guard. -/
theorem crfs_separation {bdev d : Device} {env : Surroundings} {name : List (BitVec 8)} {uuid : Mem}
    {uptimeMs rootMs mountMs : Nat} {fs : Fs} (hdev : bdev.Reliable) (hsize : 16 ≤ bdev.size / segSize)
    (hlt : bdev.size < 2 ^ 64) (hformat : crfsFormat bdev name uuid uptimeMs rootMs = some d)
    (hmount : crfsMount d env 0 0 mountMs = some fs) (ops : List CreateOp)
    (hg : Meets createStep SeparateGuard ⟨fs, []⟩ ops) : Always createStep Separated ⟨fs, []⟩ ops := by
  have hinit : SeparateOk ⟨fs, []⟩ := by
    refine ⟨liveOk_mounted hdev hsize hlt hformat hmount, ?_, ?_⟩
    · intro path n hn
      cases hn
    · intro path n path' n' hn
      cases hn
  exact (always_of_meets (fun s op s' h hg hs => h.step hg hs) hinit hg).mono fun s h => h.separated

/-! A blank device, formatted and mounted; and a file that is created on it when the clock says 5. -/

def freshRun : CreateRun := ⟨(mounted formattedDevice).getD noFs, []⟩

def createAt (name : BitVec 8) (uptimeUs : Nat) : CreateOp := .open [name] (oCreat ||| oRdwr) 0o644 uptimeUs 0

theorem createAt_guard : OpenGuard freshRun [0x61#8] (oCreat ||| oRdwr) 0o644 5 0 := by
  have hempty : ∀ (fs : Fs) (n : Nat), n ≤ lastIno → (∀ x, x < 112 → readBlock fs (inodeAddr fs n) zeroBuf (88 + x) = 0#8) →
      GetGuard fs n := by
    intro fs n hn hzero
    refine ⟨hn, fun _ => loadApart_empty fun x h₁ h₂ => ?_⟩
    have hx := hzero (x - 88) (by omega)
    rw [Nat.add_sub_cancel' h₁] at hx
    exact hx
  have hdir := eq_some_getD (0, freshRun.fs) (o := lastDir freshRun.fs [0x61#8]) (by decide +kernel)
  have hfile := eq_some_getD (none, freshRun.fs)
    (o := resolveWith crfsDirLookup freshRun.fs [0x61#8] (oCreat ||| oRdwr) 0o644 5 0) (by decide +kernel)
  refine ⟨hempty _ _ (by decide) (by decide +kernel), ?_, ?_, ?_, ?_⟩
  · intro dir fs _
    have htokens : (pathTokens [0x61#8]).dropLast = [] := by decide +kernel
    rw [htokens]
    trivial
  · intro _ dir fs hlast
    rw [hdir] at hlast
    have hpair := Option.some.inj hlast
    obtain rfl : _ = dir := congrArg Prod.fst hpair
    obtain rfl : _ = fs := congrArg Prod.snd hpair
    have halloc := eq_some_getD (0, freshRun.fs)
      (o := allocBlock ((lastDir freshRun.fs [0x61#8]).getD (0, freshRun.fs)).2) (by decide +kernel)
    refine ⟨_, _, halloc, fun _ => ⟨fun _ => ?_, fun hfull => ?_⟩⟩
    · refine Option.isSome_iff_ne_none.mp ?_
      decide +kernel
    · exact absurd hfull (by decide +kernel)
  · intro _ p hp
    cases hp
  · intro ino fs hres
    rw [hfile] at hres
    have hpair := Option.some.inj hres
    have hino : ((resolveWith crfsDirLookup freshRun.fs [0x61#8] (oCreat ||| oRdwr) 0o644 5 0).getD
      (none, freshRun.fs)).1 = some 5 := by decide +kernel
    rw [hpair] at hino
    obtain rfl : ino = 5 := Option.some.inj hino
    obtain rfl : _ = fs := congrArg Prod.snd hpair
    exact hempty _ _ (by decide) (by decide +kernel)

/-- A file is created when the clock says 5, and closed. -/
theorem crfs_separation_blank : Always createStep Separated freshRun [createAt 0x61#8 5, .close 0] := by
  refine crfs_separation (fun _ => rfl) (by decide) (by decide) blank_mounted.1 blank_mounted.2 _ ?_
  exact fun s₁ _ => ⟨createAt_guard, fun s₂ _ => ⟨trivial, trivial⟩⟩

/-- **It is not so** for a file that is created after one millisecond: its inode is written behind the
    table; nor for two files that are created at the same time. -/
theorem crfs_not_separated :
    ¬Always createStep Separated freshRun [createAt 0x61#8 1000] ∧
      ¬Always createStep Separated freshRun [createAt 0x61#8 5, createAt 0x62#8 5] := by
  constructor
  · intro h
    have hrun := eq_some_getD freshRun (o := run createStep freshRun [createAt 0x61#8 1000]) (by decide +kernel)
    have hlast := (h.last hrun).inside 1000 (Or.inl (by decide +kernel))
    exact absurd hlast.2 (by decide +kernel)
  · intro h
    have hrun := eq_some_getD freshRun (o := run createStep freshRun [createAt 0x61#8 5, createAt 0x62#8 5])
      (by decide +kernel)
    exact (h.last hrun).distinct [0x61#8] 5 [0x62#8] 5 (by decide +kernel) (by decide +kernel) (by decide) rfl

end Crimson.Crfs
