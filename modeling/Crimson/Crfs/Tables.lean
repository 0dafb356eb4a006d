import Crimson.Crfs.Writes

/-!
# The tables in memory: open files, cached inodes, reference counts

What counts here is which slots of the file table are in use, for which inodes, and what
`ref_count` says about them. Reading and writing blocks, allocating them, and changing what
an inode holds leave all of this alone (`TablesKept`); `crfs_iget` and `crfs_iput` move one
reference each. The path walk of `crfs_open` holds one reference at a time, and gives it back
on every way out: `RefsOk` counts the slots and the references held.

Directory lookups may return anything: the walk is stated for any function in the place of
`crfs_dir_lookup` (`walkPathWith`, `crfsOpenWith`).
-/

set_option autoImplicit false

namespace Crimson.Crfs

open Crimson.Lib Crimson.Mm

/-! ## Opening with any lookup -/

abbrev Lookup := Fs → InodeRef → List (BitVec 8) → Option (Option Nat)

/-- The walk of `crfs_open`, with any lookup. -/
def walkPathWith (look : Lookup) (fs : Fs) (inode : InodeRef) : List (List (BitVec 8)) → Option (Option InodeRef × Fs)
  | [] => some (some inode, fs)
  | token :: rest =>
    if token = [] then walkPathWith look fs inode rest
    else
      match look fs inode token with
      | none => none
      | some none => some (none, crfsIput fs inode)
      | some (some childIno) =>
        match crfsIget fs childIno with
        | (none, fs) => some (none, crfsIput fs inode)
        | (some child, fs) =>
          let fs := crfsIput fs inode
          if diskType (fs.disk child) ≠ typeDir then some (none, crfsIput fs child)
          else walkPathWith look fs child rest

/-- `crfs_open`, with any lookup. -/
def crfsOpenWith (look : Lookup) (fs : Fs) (path : List (BitVec 8)) (flags : BitVec 32) (mode uptimeUs uptimeMs : Nat) :
    Option (Int × Fs) :=
  match crfsIget fs rootIno with
  | (none, fs) => some (-1, fs)
  | (some dir, fs) =>
    let tokens := (path.take (maxPath - 1)).splitOn slash
    match walkPathWith look fs dir tokens.dropLast with
    | none => none
    | some (none, fs) => some (-1, fs)
    | some (some inode, fs) =>
      let token := tokens.getLastD []
      if token = [] then some (-1, crfsIput fs inode)
      else
        match look fs inode token with
        | none => none
        | some (some fileIno) => some (openInode (crfsIput fs inode) fileIno flags)
        | some none =>
          if flags &&& oCreat ≠ 0#32 then
            match createFile fs inode token flags mode uptimeUs uptimeMs with
            | none => none
            | some fs => some (openInode (crfsIput fs inode) (newInodeNo uptimeUs) flags)
          else some (-1, crfsIput fs inode)

theorem walkPathWith_lookup (fs : Fs) (inode : InodeRef) (tokens : List (List (BitVec 8))) :
    walkPathWith crfsDirLookup fs inode tokens = walkPath fs inode tokens := by
  induction tokens generalizing fs inode with
  | nil => rfl
  | cons token rest ih =>
    unfold walkPathWith walkPath
    split
    · exact ih fs inode
    · cases crfsDirLookup fs inode token with
      | none => rfl
      | some found =>
        cases found with
        | none => rfl
        | some childIno =>
          dsimp only
          cases crfsIget fs childIno with
          | mk child fs =>
            cases child with
            | none => rfl
            | some child =>
              dsimp only
              rw [ih]

/-- `crfs_open` is the walk with `crfs_dir_lookup`. -/
theorem crfsOpenWith_lookup (fs : Fs) (path : List (BitVec 8)) (flags : BitVec 32) (mode uptimeUs uptimeMs : Nat) :
    crfsOpenWith crfsDirLookup fs path flags mode uptimeUs uptimeMs = crfsOpen fs path flags mode uptimeUs uptimeMs := by
  have hlook : walkPathWith crfsDirLookup = walkPath := by
    funext fs inode tokens
    exact walkPathWith_lookup fs inode tokens
  generalize hopen : crfsOpenWith crfsDirLookup fs path flags mode uptimeUs uptimeMs = out
  unfold crfsOpenWith at hopen
  unfold crfsOpen
  rw [hlook] at hopen
  generalize crfsIget fs rootIno = got at hopen ⊢
  cases got with
  | mk dir fs =>
    cases dir with
    | none => exact hopen.symm
    | some dir =>
      dsimp only at hopen ⊢
      generalize (path.take (maxPath - 1)).splitOn slash = tokens at hopen ⊢
      generalize walkPath fs dir tokens.dropLast = walked at hopen ⊢
      rcases walked with _ | ⟨_ | inode, fs⟩
      · exact hopen.symm
      · exact hopen.symm
      · dsimp only at hopen ⊢
        generalize crfsDirLookup fs inode (tokens.getLastD []) = looked at hopen ⊢
        rcases looked with _ | _ | fileIno
        · exact hopen.symm
        · dsimp only at hopen ⊢
          generalize createFile fs inode (tokens.getLastD []) flags mode uptimeUs uptimeMs = created at hopen ⊢
          cases created with
          | none => exact hopen.symm
          | some fs => exact hopen.symm
        · exact hopen.symm

/-! ## What leaves the tables alone -/

structure TablesKept (fs fs' : Fs) : Prop where
  files : fs'.files = fs.files
  inodeCount : fs'.inodeCount = fs.inodeCount
  inodeCache : fs'.inodeCache = fs.inodeCache
  refCount : ∀ r, (fs'.inodes r).refCount = (fs.inodes r).refCount

section

variable {fs fs' fs'' : Fs} {r : InodeRef} {addr : Nat}

theorem TablesKept.refl (fs : Fs) : TablesKept fs fs := ⟨rfl, rfl, rfl, fun _ => rfl⟩

theorem TablesKept.trans (h : TablesKept fs fs') (h' : TablesKept fs' fs'') : TablesKept fs fs'' where
  files := h'.files.trans h.files
  inodeCount := h'.inodeCount.trans h.inodeCount
  inodeCache := h'.inodeCache.trans h.inodeCache
  refCount := fun r => (h'.refCount r).trans (h.refCount r)

theorem kept_writeBlock (fs : Fs) (addr : Nat) (buf : Mem) : TablesKept fs (writeBlock fs addr buf) :=
  ⟨rfl, rfl, rfl, fun _ => rfl⟩

theorem kept_withAlloc (fs g : Fs) : TablesKept fs (fs.withAlloc g) := ⟨rfl, rfl, rfl, fun _ => rfl⟩

theorem kept_modInode {f : Inode → Inode} (hf : ∀ i, (f i).refCount = i.refCount) : TablesKept fs (fs.modInode r f) := by
  refine ⟨rfl, rfl, rfl, ?_⟩
  intro q
  show (Function.update fs.inodes r _ q).refCount = _
  by_cases hq : q = r
  · rw [hq, Function.update_self]
    exact hf _
  · rw [Function.update_of_ne hq]

theorem kept_modDisk (f : Mem → Mem) : TablesKept fs (fs.modDisk r f) := kept_modInode fun _ => rfl

theorem kept_setDirty : TablesKept fs (fs.setDirty r) := kept_modInode fun _ => rfl

theorem kept_writeInode : TablesKept fs (writeInode fs r) := (kept_modDisk _).trans (kept_writeBlock _ _ _)

theorem tablesKept_writes : WriteRel TablesKept where
  refl := TablesKept.refl
  trans := TablesKept.trans
  writeBlock := kept_writeBlock
  withAlloc := kept_withAlloc
  modDisk := fun _ _ => kept_modDisk
  setDirty := fun _ _ => kept_setDirty

end

/-! ## Counting references -/

/-- The slots of the file table that are in use for an inode. -/
def slotsOf (files : Nat → File) (r : InodeRef) : Nat :=
  (List.range maxOpen).countP fun i => (files i).inUse && decide ((files i).inode = some r)

/-- One element of a list without repetitions is counted differently. -/
theorem countP_changed {α : Type*} {l : List α} {p q : α → Bool} {a : α} (hnd : l.Nodup) (ha : a ∈ l)
    (hq : ∀ x, x ≠ a → q x = p x) : l.countP q + (p a).toNat = l.countP p + (q a).toNat := by
  induction l with
  | nil => cases ha
  | cons x l ih =>
    obtain ⟨hx, hnd⟩ := List.nodup_cons.mp hnd
    rw [List.countP_cons, List.countP_cons]
    rcases List.mem_cons.mp ha with rfl | ha
    · have hsame : l.countP q = l.countP p := List.countP_congr fun y hy => by
        rw [hq y fun h => hx (h ▸ hy)]
      rw [hsame]
      cases p a <;> cases q a <;> simp +arith
    · have hne : x ≠ a := fun h => hx (h ▸ ha)
      rw [hq x hne]
      have := ih hnd ha
      omega

/-- A slot that is set to `f`. -/
theorem slotsOf_update (files : Nat → File) {i : Nat} (hi : i < maxOpen) (f : File) (r : InodeRef) :
    slotsOf (Function.update files i f) r + ((files i).inUse && decide ((files i).inode = some r)).toNat =
      slotsOf files r + (f.inUse && decide (f.inode = some r)).toNat := by
  have hchanged := @countP_changed _ (List.range maxOpen) (fun i => (files i).inUse && decide ((files i).inode = some r))
    (fun j => (Function.update files i f j).inUse && decide ((Function.update files i f j).inode = some r)) i
    List.nodup_range (List.mem_range.mpr hi) (fun j hj => by rw [Function.update_of_ne hj])
  rw [Function.update_self] at hchanged
  exact hchanged

theorem slotsOf_le (files : Nat → File) (r : InodeRef) : slotsOf files r ≤ maxOpen :=
  List.countP_le_length.trans (List.length_range).le

/-- **The references are counted**: of each inode, one for every slot in use and one for every
    time it is held. -/
structure RefsOk (fs : Fs) (held : List InodeRef) : Prop where
  refs : ∀ r, r < fs.inodeCount → (fs.inodes r).refCount = slotsOf fs.files r + held.count r
  cached : ∀ h r, r ∈ fs.inodeCache h → r < fs.inodeCount
  slots : ∀ i, (fs.files i).inUse = true → i < maxOpen ∧ ∃ r, (fs.files i).inode = some r ∧ r < fs.inodeCount
  known : ∀ r ∈ held, r < fs.inodeCount

/-- A step that leaves the file table alone, after which `held` is held. -/
structure RefsStep (fs fs' : Fs) (held : List InodeRef) : Prop where
  refs : RefsOk fs' held
  files : fs'.files = fs.files
  grows : fs.inodeCount ≤ fs'.inodeCount

section

variable {fs fs' fs'' : Fs} {held held' : List InodeRef} {r : InodeRef}

theorem RefsStep.trans (h : RefsStep fs fs' held) (h' : RefsStep fs' fs'' held') : RefsStep fs fs'' held' :=
  ⟨h'.refs, h'.files.trans h.files, h.grows.trans h'.grows⟩

theorem RefsOk.kept (h : RefsOk fs held) (hk : TablesKept fs fs') : RefsStep fs fs' held := by
  refine ⟨⟨?_, ?_, ?_, ?_⟩, hk.files, hk.inodeCount.ge⟩
  · intro r hr
    rw [hk.inodeCount] at hr
    rw [hk.refCount, hk.files]
    exact h.refs r hr
  · intro hash r hr
    rw [hk.inodeCache] at hr
    rw [hk.inodeCount]
    exact h.cached hash r hr
  · intro i hi
    rw [hk.files] at hi ⊢
    rw [hk.inodeCount]
    exact h.slots i hi
  · intro r hr
    rw [hk.inodeCount]
    exact h.known r hr

/-- The count of one inode is set to what it should be. -/
theorem RefsOk.recount (h : RefsOk fs held) {f : Inode → Inode}
    (hf : (f (fs.inodes r)).refCount = slotsOf fs.files r + held'.count r)
    (hother : ∀ q, q ≠ r → held'.count q = held.count q) (hknown : ∀ q ∈ held', q < fs.inodeCount) :
    RefsStep fs (fs.modInode r f) held' := by
  refine ⟨⟨?_, h.cached, h.slots, hknown⟩, rfl, le_rfl⟩
  intro q hq
  show (Function.update fs.inodes r (f (fs.inodes r)) q).refCount = slotsOf fs.files q + _
  by_cases hqr : q = r
  · rw [hqr, Function.update_self]
    exact hf
  · rw [Function.update_of_ne hqr, hother q hqr]
    exact h.refs q hq

/-- No slot is in use for an inode that is not there yet. -/
theorem RefsOk.slotsOf_new (h : RefsOk fs held) (hr : fs.inodeCount ≤ r) : slotsOf fs.files r = 0 := by
  refine List.countP_eq_zero.mpr fun i _ hi => ?_
  simp only [Bool.and_eq_true, decide_eq_true_eq] at hi
  obtain ⟨-, r', hr', hlt⟩ := h.slots i hi.1
  rw [hi.2] at hr'
  cases hr'
  exact absurd hlt (Nat.not_lt.mpr hr)

theorem RefsOk.count_new (h : RefsOk fs held) (hr : fs.inodeCount ≤ r) : held.count r = 0 :=
  List.count_eq_zero.mpr fun hmem => absurd (h.known r hmem) (Nat.not_lt.mpr hr)

/-- **`crfs_iget`** takes one reference, or none. -/
theorem refs_crfsIget (h : RefsOk fs held) (hlen : held.length ≤ maxOpen) (inodeNo : Nat) :
    RefsStep fs (crfsIget fs inodeNo).2 ((crfsIget fs inodeNo).1.toList ++ held) := by
  rcases crfsIget_cases fs inodeNo with ⟨-, r, hmem, -, hget⟩ | ⟨-, hget⟩ | ⟨-, fs', hget, hload⟩
  · rw [hget]
    have hr := h.cached _ r hmem
    dsimp only [Option.toList_some, List.singleton_append]
    refine h.recount ?_ ?_ ?_
    · have hslots := slotsOf_le fs.files r
      have hcount := @List.count_le_length _ _ r held
      dsimp only
      rw [List.count_cons_self, h.refs r hr]
      unfold maxOpen at *
      omega
    · intro q hq
      exact List.count_cons_of_ne (Ne.symm hq)
    · intro q hq
      rcases List.mem_cons.mp hq with rfl | hq
      · exact hr
      · exact h.known q hq
  · rw [hget]
    exact ⟨⟨h.refs, h.cached, h.slots, h.known⟩, rfl, le_rfl⟩
  · -- a new inode, with a number that no file and no chain has
    rw [hget]
    dsimp only [Option.toList_some, List.singleton_append]
    have hgrows : fs.inodeCount ≤ fs'.inodeCount := hload.inodeCount ▸ Nat.le_succ _
    refine ⟨⟨?_, ?_, ?_, ?_⟩, hload.files, hgrows⟩
    · intro q hq
      rw [hload.inodes, hload.files]
      by_cases hnew : q = fs.inodeCount
      · rw [hnew, Function.update_self, List.count_cons_self, h.slotsOf_new le_rfl, h.count_new le_rfl]
      · rw [Function.update_of_ne hnew, List.count_cons_of_ne (Ne.symm hnew)]
        rw [hload.inodeCount] at hq
        exact h.refs q (by omega)
    · intro hash q hq
      rw [hload.inodeCache] at hq
      have hcase : q = fs.inodeCount ∨ ∃ hash', q ∈ fs.inodeCache hash' := by
        by_cases hhash : hash = inodeNo % 256
        · rw [hhash, Function.update_self] at hq
          rcases List.mem_cons.mp hq with rfl | hq
          · exact Or.inl rfl
          · exact Or.inr ⟨_, hq⟩
        · rw [Function.update_of_ne hhash] at hq
          exact Or.inr ⟨_, hq⟩
      rw [hload.inodeCount]
      rcases hcase with rfl | ⟨hash', hq⟩
      · exact Nat.lt_succ_self _
      · exact Nat.lt_succ_of_lt (h.cached hash' q hq)
    · intro i hi
      rw [hload.files] at hi ⊢
      obtain ⟨hmax, q, hq, hlt⟩ := h.slots i hi
      exact ⟨hmax, q, hq, hlt.trans_le hgrows⟩
    · intro q hq
      rcases List.mem_cons.mp hq with rfl | hq
      · rw [hload.inodeCount]
        exact Nat.lt_succ_self _
      · exact (h.known q hq).trans_le hgrows

/-- **`crfs_iput`** gives one back. -/
theorem refs_crfsIput (h : RefsOk fs (r :: held)) (hlen : held.length ≤ maxOpen) : RefsStep fs (crfsIput fs r) held := by
  have hcount := h.refs r (h.known r List.mem_cons_self)
  rw [List.count_cons_self] at hcount
  have hstep : RefsStep fs (fs.modInode r fun i => { i with refCount := (i.refCount + (2 ^ 32 - 1)) % 2 ^ 32 }) held := by
    refine h.recount ?_ ?_ ?_
    · have hslots := slotsOf_le fs.files r
      have hheld := @List.count_le_length _ _ r held
      dsimp only
      rw [hcount]
      unfold maxOpen at *
      omega
    · intro q hq
      rw [List.count_cons_of_ne (Ne.symm hq)]
    · intro q hq
      exact h.known q (List.mem_cons_of_mem _ hq)
  unfold crfsIput
  dsimp only
  split
  · exact hstep.trans (hstep.refs.kept kept_writeInode)
  · exact hstep

/-- Both, one after the other. -/
theorem RefsStep.crfsIput (h : RefsStep fs fs' (r :: held)) (hlen : held.length ≤ maxOpen) :
    RefsStep fs (crfsIput fs' r) held := h.trans (refs_crfsIput h.refs hlen)

/-- The other one of two references is given back. -/
theorem RefsOk.swap {q : InodeRef} (h : RefsOk fs (r :: q :: held)) : RefsOk fs (q :: r :: held) := by
  refine ⟨?_, h.cached, h.slots, ?_⟩
  · intro p hp
    rw [h.refs p hp, (List.Perm.swap q r held).count_eq]
  · intro p hp
    exact h.known p ((List.Perm.swap r q held).mem_iff.mp hp)

/-- **The walk** holds one reference, and gives it back where it fails. -/
theorem refs_walkPathWith {look : Lookup} {tokens : List (List (BitVec 8))} {inode : InodeRef} {found : Option InodeRef}
    (h : RefsOk fs [inode]) (hwalk : walkPathWith look fs inode tokens = some (found, fs')) :
    RefsStep fs fs' found.toList := by
  have hzero : ([] : List InodeRef).length ≤ maxOpen := Nat.zero_le _
  have hone : ∀ q : InodeRef, [q].length ≤ maxOpen := fun q => show 1 ≤ maxOpen by decide
  induction tokens generalizing fs inode with
  | nil =>
    cases hwalk
    exact ⟨h, rfl, le_rfl⟩
  | cons token rest ih =>
    unfold walkPathWith at hwalk
    split at hwalk
    · exact ih h hwalk
    · split at hwalk
      · cases hwalk
      · cases hwalk
        exact refs_crfsIput h hzero
      · rename_i childIno _
        have hget := refs_crfsIget h (hone inode) childIno
        generalize crfsIget fs childIno = got at hget hwalk
        cases got with
        | mk child fs₁ =>
          cases child with
          | none =>
            cases hwalk
            exact hget.crfsIput hzero
          | some child =>
            have hput : RefsStep fs (crfsIput fs₁ inode) [child] :=
              RefsStep.crfsIput ⟨hget.refs.swap, hget.files, hget.grows⟩ (hone child)
            dsimp only at hwalk
            split at hwalk
            · cases hwalk
              exact hput.crfsIput hzero
            · exact hput.trans (ih hput.refs hwalk)

end

/-! ## The inode a path stands for -/

/-- What `crfs_open` does before it gets the inode: the number, if there is one. -/
def resolveWith (look : Lookup) (fs : Fs) (path : List (BitVec 8)) (flags : BitVec 32) (mode uptimeUs uptimeMs : Nat) :
    Option (Option Nat × Fs) :=
  match crfsIget fs rootIno with
  | (none, fs) => some (none, fs)
  | (some dir, fs) =>
    let tokens := (path.take (maxPath - 1)).splitOn slash
    match walkPathWith look fs dir tokens.dropLast with
    | none => none
    | some (none, fs) => some (none, fs)
    | some (some inode, fs) =>
      let token := tokens.getLastD []
      if token = [] then some (none, crfsIput fs inode)
      else
        match look fs inode token with
        | none => none
        | some (some fileIno) => some (some fileIno, crfsIput fs inode)
        | some none =>
          if flags &&& oCreat ≠ 0#32 then
            match createFile fs inode token flags mode uptimeUs uptimeMs with
            | none => none
            | some fs => some (some (newInodeNo uptimeUs), crfsIput fs inode)
          else some (none, crfsIput fs inode)

theorem crfsOpenWith_eq (look : Lookup) (fs : Fs) (path : List (BitVec 8)) (flags : BitVec 32)
    (mode uptimeUs uptimeMs : Nat) :
    crfsOpenWith look fs path flags mode uptimeUs uptimeMs =
      (resolveWith look fs path flags mode uptimeUs uptimeMs).map fun x =>
        match x.1 with
        | none => (-1, x.2)
        | some fileIno => openInode x.2 fileIno flags := by
  unfold crfsOpenWith resolveWith
  generalize (path.take (maxPath - 1)).splitOn slash = tokens
  cases crfsIget fs rootIno with
  | mk dir fs =>
    cases dir with
    | none => rfl
    | some dir =>
      dsimp only
      cases walkPathWith look fs dir tokens.dropLast with
      | none => rfl
      | some x =>
        cases x with
        | mk found fs =>
          cases found with
          | none => rfl
          | some inode =>
            dsimp only
            split
            · rfl
            · cases look fs inode (tokens.getLastD []) with
              | none => rfl
              | some fileIno =>
                cases fileIno with
                | some fileIno => rfl
                | none =>
                  dsimp only
                  split
                  · cases createFile fs inode (tokens.getLastD []) flags mode uptimeUs uptimeMs with
                    | none => rfl
                    | some fs => rfl
                  · rfl

/-- The walk and what comes after it hold nothing in the end. -/
theorem refs_resolveWith {look : Lookup} {fs fs' : Fs} {path : List (BitVec 8)} {flags : BitVec 32}
    {mode uptimeUs uptimeMs : Nat} {found : Option Nat} (h : RefsOk fs [])
    (hresolve : resolveWith look fs path flags mode uptimeUs uptimeMs = some (found, fs')) : RefsStep fs fs' [] := by
  unfold resolveWith at hresolve
  have hget := refs_crfsIget h (Nat.zero_le _) rootIno
  generalize crfsIget fs rootIno = got at hget hresolve
  cases got with
  | mk dir fs₁ =>
    cases dir with
    | none =>
      cases hresolve
      exact hget
    | some dir =>
      dsimp only at hresolve
      generalize (path.take (maxPath - 1)).splitOn slash = tokens at hresolve
      split at hresolve
      · cases hresolve
      · rename_i hwalk
        cases hresolve
        exact hget.trans (refs_walkPathWith hget.refs hwalk)
      · rename_i inode fs₂ hwalk
        have hwalked := hget.trans (refs_walkPathWith hget.refs hwalk)
        have hput := hwalked.crfsIput (Nat.zero_le _)
        split at hresolve
        · cases hresolve
          exact hput
        · split at hresolve
          · cases hresolve
          · cases hresolve
            exact hput
          · split at hresolve
            · split at hresolve
              · cases hresolve
              · rename_i fs₃ hcreate
                cases hresolve
                exact (hwalked.trans (hwalked.refs.kept (tablesKept_writes.createFile hcreate))).crfsIput (Nat.zero_le _)
            · cases hresolve
              exact hput

/-! ## Opening and closing -/

/-- A slot that was free is in use, for an inode that is no longer held. -/
structure SlotTaken (fs : Fs) (flags : BitVec 32) (i : Nat) (fs' : Fs) : Prop where
  bound : i < maxOpen
  free : (fs.files i).inUse = false
  taken : ∃ r, fs'.files = Function.update fs.files i
    { inUse := true
      flags := flags
      offset := if flags &&& oAppend ≠ 0#32 then diskSize (fs'.disk r) else 0
      inode := some r }
  refs : RefsOk fs' []
  grows : fs.inodeCount ≤ fs'.inodeCount

/-- What a call of `crfs_open` may return: -1, or the slot it has taken. -/
def Opened (fs : Fs) (flags : BitVec 32) (n : Int) (fs' : Fs) : Prop :=
  (n = -1 ∧ RefsStep fs fs' []) ∨ ∃ i : Nat, n = i ∧ SlotTaken fs flags i fs'

section

variable {fs fs' fs'' : Fs} {flags : BitVec 32} {r : InodeRef} {n : Int}

theorem Opened.after (h : Opened fs' flags n fs'') {held : List InodeRef} (hstep : RefsStep fs fs' held) :
    Opened fs flags n fs'' := by
  rcases h with ⟨hn, hend⟩ | ⟨i, hn, hslot⟩
  · exact Or.inl ⟨hn, hstep.trans hend⟩
  · refine Or.inr ⟨i, hn, hslot.bound, ?_, ?_, hslot.refs, hstep.grows.trans hslot.grows⟩
    · rw [← hstep.files]
      exact hslot.free
    · rw [← hstep.files]
      exact hslot.taken

/-- The reference that was held is the slot's. -/
theorem RefsOk.slot {i : Nat} {f : File} (h : RefsOk fs [r]) (hi : i < maxOpen) (hfree : (fs.files i).inUse = false)
    (huse : f.inUse = true) (hinode : f.inode = some r) : RefsOk (fs.modFile i fun _ => f) [] := by
  have hr := h.known r List.mem_cons_self
  refine ⟨?_, h.cached, ?_, fun q hq => by cases hq⟩
  · intro q hq
    show (fs.inodes q).refCount = slotsOf (Function.update fs.files i f) q + 0
    have hcount := slotsOf_update fs.files hi f q
    rw [hfree, huse, hinode, Bool.false_and, Bool.true_and] at hcount
    rw [h.refs q hq, List.count_singleton]
    by_cases hqr : q = r
    · subst hqr
      simpa using hcount.symm
    · have hne : ¬ (some r = some q) := fun h => hqr (Option.some.inj h).symm
      simpa [hne, Ne.symm hqr] using hcount.symm
  · intro j hj
    show j < maxOpen ∧ ∃ q, (Function.update fs.files i f j).inode = some q ∧ _
    change (Function.update fs.files i f j).inUse = true at hj
    by_cases hji : j = i
    · rw [hji, Function.update_self]
      exact ⟨hi, r, hinode, hr⟩
    · rw [Function.update_of_ne hji] at hj ⊢
      exact h.slots j hj

theorem opened_openTail (h : RefsOk fs [r]) : Opened fs flags (openTail fs r flags).1 (openTail fs r flags).2 := by
  unfold openTail
  dsimp only
  have hfirst : RefsStep fs (if flags &&& oTrunc ≠ 0#32 ∧ diskType (fs.disk r) = typeReg then
      (fs.modDisk r fun d => setDiskBlocks (setDiskSize d 0) 0).setDirty r else fs) [r] := by
    split
    · exact h.kept ((kept_modDisk _).trans kept_setDirty)
    · exact ⟨h, rfl, le_rfl⟩
  generalize (if flags &&& oTrunc ≠ 0#32 ∧ diskType (fs.disk r) = typeReg then
    (fs.modDisk r fun d => setDiskBlocks (setDiskSize d 0) 0).setDirty r else fs) = fs' at hfirst ⊢
  refine Opened.after ?_ hfirst
  split
  · rename_i i hfind
    have hi := List.mem_range.mp (List.mem_of_find?_eq_some hfind)
    have hfree := List.find?_some hfind
    rw [Bool.not_eq_true'] at hfree
    exact Or.inr ⟨i, rfl, hi, hfree, ⟨r, rfl⟩, hfirst.refs.slot hi hfree rfl rfl, le_rfl⟩
  · exact Or.inl ⟨rfl, refs_crfsIput hfirst.refs (Nat.zero_le _)⟩

theorem opened_openInode (h : RefsOk fs []) (inodeNo : Nat) :
    Opened fs flags (openInode fs inodeNo flags).1 (openInode fs inodeNo flags).2 := by
  rw [openInode_eq]
  have hget := refs_crfsIget h (Nat.zero_le _) inodeNo
  generalize crfsIget fs inodeNo = got at hget ⊢
  cases got with
  | mk found fs₁ =>
    cases found with
    | none => exact Or.inl ⟨rfl, hget⟩
    | some r => exact (opened_openTail hget.refs).after hget

/-- **`crfs_open`**, whatever the lookups return. -/
theorem opened_crfsOpenWith {look : Lookup} {path : List (BitVec 8)} {mode uptimeUs uptimeMs : Nat} (h : RefsOk fs [])
    (hopen : crfsOpenWith look fs path flags mode uptimeUs uptimeMs = some (n, fs')) : Opened fs flags n fs' := by
  rw [crfsOpenWith_eq] at hopen
  obtain ⟨⟨found, fs₁⟩, hresolve, hopen⟩ := Option.map_eq_some_iff.mp hopen
  have hstep := refs_resolveWith h hresolve
  cases found with
  | none =>
    cases hopen
    exact Or.inl ⟨rfl, hstep⟩
  | some fileIno =>
    have hend := (@opened_openInode _ flags hstep.refs fileIno).after hstep
    dsimp only at hopen
    rw [hopen] at hend
    exact hend

theorem writeInode_modFile (fs : Fs) (r : InodeRef) (i : Nat) (f : File → File) :
    writeInode (fs.modFile i f) r = (writeInode fs r).modFile i f := by
  unfold writeInode
  generalize (fun d => setDiskChecksum d (crc32c d (sizeofInodeDisk - 4)).toNat) = sum
  rfl

theorem crfsIput_modFile (fs : Fs) (r : InodeRef) (i : Nat) (f : File → File) :
    crfsIput (fs.modFile i f) r = (crfsIput fs r).modFile i f := by
  unfold crfsIput
  generalize (fun i : Inode => { i with refCount := (i.refCount + (2 ^ 32 - 1)) % 2 ^ 32 }) = put
  dsimp only
  have hcomm : (fs.modFile i f).modInode r put = (fs.modInode r put).modFile i f := rfl
  rw [hcomm, writeInode_modFile]
  generalize fs.modInode r put = fs'
  have hsame : ((fs'.modFile i f).inodes r) = fs'.inodes r := rfl
  rw [hsame]
  split
  · rfl
  · rfl

/-- A slot's reference is held when the slot is given up. -/
theorem RefsOk.unslot {i : Nat} {f : File → File} (h : RefsOk fs []) (huse : (fs.files i).inUse = true)
    (hinode : (fs.files i).inode = some r) (hr : r < fs.inodeCount) (hf : (f (fs.files i)).inUse = false) :
    RefsOk (fs.modFile i f) [r] := by
  obtain ⟨hi, -⟩ := h.slots i huse
  refine ⟨?_, h.cached, ?_, fun q hq => by rwa [List.mem_singleton.mp hq]⟩
  · intro q hq
    show (fs.inodes q).refCount = slotsOf (Function.update fs.files i (f (fs.files i))) q + _
    have hcount := slotsOf_update fs.files hi (f (fs.files i)) q
    rw [huse, hinode, hf, Bool.false_and, Bool.true_and] at hcount
    rw [h.refs q hq, List.count_nil, List.count_singleton]
    by_cases hqr : q = r
    · subst hqr
      simpa using hcount.symm
    · have hne : ¬ (some r = some q) := fun h => hqr (Option.some.inj h).symm
      simpa [hne, Ne.symm hqr] using hcount.symm
  · intro j hj
    show j < maxOpen ∧ ∃ q, (Function.update fs.files i (f (fs.files i)) j).inode = some q ∧ _
    change (Function.update fs.files i (f (fs.files i)) j).inUse = true at hj
    by_cases hji : j = i
    · rw [hji, Function.update_self, hf] at hj
      cases hj
    · rw [Function.update_of_ne hji] at hj ⊢
      exact h.slots j hj

/-- **`crfs_close`** frees the slot, and gives back the reference it had. -/
theorem refs_crfsClose {i : Nat} (h : RefsOk fs []) (huse : (fs.files i).inUse = true) :
    (crfsClose fs i).files = Function.update fs.files i { fs.files i with inUse := false, inode := none } ∧
      RefsOk (crfsClose fs i) [] := by
  obtain ⟨hi, r, hinode, hr⟩ := h.slots i huse
  have hbound : ¬((i : Int) < 0 ∨ (maxOpen : Int) ≤ i) := by omega
  unfold crfsClose
  rw [if_neg hbound]
  dsimp only
  rw [Int.toNat_natCast, if_pos huse, hinode]
  dsimp only
  have hwrite : TablesKept fs (if (fs.inodes r).dirty = true then writeInode fs r else fs) := by
    split
    · exact kept_writeInode
    · exact TablesKept.refl fs
  generalize (if (fs.inodes r).dirty = true then writeInode fs r else fs) = fs' at hwrite ⊢
  have hkept := h.kept hwrite
  rw [← hkept.files] at huse hinode ⊢
  rw [← crfsIput_modFile]
  have hunslot := @RefsOk.unslot fs' r i (fun f => { f with inUse := false, inode := none }) hkept.refs huse hinode
    (hr.trans_le hkept.grows) rfl
  have hput := refs_crfsIput hunslot (Nat.zero_le _)
  exact ⟨hput.files, hput.refs⟩

end

/-! ## The offset of a slot that is opened -/

/-- The size of a file that is opened. -/
def openedSize (fs : Fs) (r : InodeRef) (flags : BitVec 32) : Nat :=
  if flags &&& oTrunc ≠ 0#32 ∧ diskType (fs.disk r) = typeReg then 0 else diskSize (fs.disk r)

section

variable {fs fs' fs₁ fs₂ : Fs} {flags : BitVec 32} {r : InodeRef} {i : Nat}

/-- The slot that `crfs_open` takes, if there is one. -/
theorem openTail_slot (hfree : (List.range maxOpen).find? (fun i => !(fs.files i).inUse) = some i) :
    (openTail fs r flags).1 = i ∧ ((openTail fs r flags).2.files i).offset =
      if flags &&& oAppend ≠ 0#32 then openedSize fs r flags else 0 := by
  unfold openTail openedSize
  dsimp only
  by_cases htrunc : flags &&& oTrunc ≠ 0#32 ∧ diskType (fs.disk r) = typeReg
  · rw [if_pos htrunc, if_pos htrunc]
    have hfiles : ((fs.modDisk r fun d => setDiskBlocks (setDiskSize d 0) 0).setDirty r).files = fs.files := rfl
    have hsize : diskSize (((fs.modDisk r fun d => setDiskBlocks (setDiskSize d 0) 0).setDirty r).disk r) = 0 := by
      rw [Fs.disk_setDirty, Fs.disk_modDisk]
      unfold diskSize setDiskBlocks setDiskSize
      rw [load64_store64_disjoint (by decide), load64_store64_same (by decide)]
    rw [hfiles, hfree, hsize]
    refine ⟨rfl, ?_⟩
    unfold Fs.modFile
    dsimp only
    rw [Function.update_self]
  · rw [if_neg htrunc, if_neg htrunc, hfree]
    refine ⟨rfl, ?_⟩
    unfold Fs.modFile
    dsimp only
    rw [Function.update_self]

theorem openTail_full (hfull : (List.range maxOpen).find? (fun i => !(fs.files i).inUse) = none) :
    (openTail fs r flags).1 = -1 := by
  unfold openTail
  dsimp only
  by_cases htrunc : flags &&& oTrunc ≠ 0#32 ∧ diskType (fs.disk r) = typeReg
  · rw [if_pos htrunc]
    have hfiles : ((fs.modDisk r fun d => setDiskBlocks (setDiskSize d 0) 0).setDirty r).files = fs.files := rfl
    rw [hfiles, hfull]
  · rw [if_neg htrunc, hfull]

/-- The end of `crfs_open`, where there is an inode to open. -/
theorem crfsOpenWith_inode {look : Lookup} {path : List (BitVec 8)} {mode uptimeUs uptimeMs ino : Nat}
    (hresolve : resolveWith look fs path flags mode uptimeUs uptimeMs = some (some ino, fs₁))
    (hget : crfsIget fs₁ ino = (some r, fs₂)) :
    crfsOpenWith look fs path flags mode uptimeUs uptimeMs = some (openTail fs₂ r flags) := by
  rw [crfsOpenWith_eq, hresolve]
  show some (openInode fs₁ ino flags) = _
  rw [openInode_eq, hget]

/-- **What a call of `crfs_open` that succeeds has opened**, and at which offset. -/
theorem crfsOpenWith_opened {look : Lookup} {path : List (BitVec 8)} {mode uptimeUs uptimeMs : Nat}
    (hopen : crfsOpenWith look fs path flags mode uptimeUs uptimeMs = some ((i : Int), fs')) :
    ∃ ino fs₁ r fs₂, resolveWith look fs path flags mode uptimeUs uptimeMs = some (some ino, fs₁) ∧
      crfsIget fs₁ ino = (some r, fs₂) ∧
      (fs'.files i).offset = if flags &&& oAppend ≠ 0#32 then openedSize fs₂ r flags else 0 := by
  have heq := hopen
  rw [crfsOpenWith_eq] at heq
  obtain ⟨⟨found, fs₁⟩, hresolve, hend⟩ := Option.map_eq_some_iff.mp heq
  cases found with
  | none => cases (Prod.mk.inj hend).1
  | some ino =>
    dsimp only at hend
    rw [openInode_eq] at hend
    cases hget : crfsIget fs₁ ino with
    | mk got fs₂ =>
      rw [hget] at hend
      cases got with
      | none => cases (Prod.mk.inj hend).1
      | some r =>
        dsimp only at hend
        refine ⟨ino, fs₁, r, fs₂, hresolve, hget, ?_⟩
        cases hfree : (List.range maxOpen).find? fun i => !(fs₂.files i).inUse with
        | none =>
          have hfull := @openTail_full fs₂ flags r hfree
          rw [hend] at hfull
          have hneg : (i : Int) = -1 := hfull
          exact absurd hneg (by omega)
        | some j =>
          obtain ⟨hj, hoff⟩ := @openTail_slot fs₂ flags r j hfree
          simp only [hend] at hj hoff
          obtain rfl := Int.ofNat.inj hj
          exact hoff

end

/-! ## Reading and writing -/

/-- The bytes that `crfs_read` reads, from a slot that is in use for `r`. -/
def readLen (fs : Fs) (r : InodeRef) (i count : Nat) : Nat :=
  let offset := (fs.files i).offset
  let size := diskSize (fs.disk r)
  if size ≤ offset then 0 else if size < (offset + count) % 2 ^ 64 then size - offset else count

/-- The offset of one slot is moved; the tables are left alone otherwise. -/
structure OffsetMoved (fs : Fs) (i n : Nat) (fs' : Fs) : Prop where
  files : fs'.files =
    Function.update fs.files i { fs.files i with offset := ((fs.files i).offset + n) % 2 ^ 64 }
  inodeCount : fs'.inodeCount = fs.inodeCount
  inodeCache : fs'.inodeCache = fs.inodeCache
  refCount : ∀ r, (fs'.inodes r).refCount = (fs.inodes r).refCount

section

variable {fs fs' : Fs} {i n count uptimeMs : Nat} {r : InodeRef} {buf : Mem}

theorem readLen_lt (h : count < 2 ^ 64) : readLen fs r i count < 2 ^ 64 := by
  have hsize : diskSize (fs.disk r) < 2 ^ 64 := load64_lt
  unfold readLen
  dsimp only
  split
  · decide
  · split
    · omega
    · exact h

theorem OffsetMoved.zero (h : (fs.files i).offset < 2 ^ 64) : OffsetMoved fs i 0 fs := by
  refine ⟨?_, rfl, rfl, fun _ => rfl⟩
  rw [Nat.add_zero, Nat.mod_eq_of_lt h]
  exact (Function.update_eq_self i fs.files).symm

/-- After steps that leave the tables alone. -/
theorem OffsetMoved.kept {fs'' : Fs} (hk : TablesKept fs fs') (h : OffsetMoved fs' i n fs'') : OffsetMoved fs i n fs'' := by
  refine ⟨?_, h.inodeCount.trans hk.inodeCount, h.inodeCache.trans hk.inodeCache,
    fun r => (h.refCount r).trans (hk.refCount r)⟩
  rw [h.files, hk.files]

theorem OffsetMoved.then {fs'' : Fs} (h : OffsetMoved fs i n fs') (hk : TablesKept fs' fs'') : OffsetMoved fs i n fs'' :=
  ⟨hk.files.trans h.files, hk.inodeCount.trans h.inodeCount, hk.inodeCache.trans h.inodeCache,
    fun r => (hk.refCount r).trans (h.refCount r)⟩

theorem OffsetMoved.inUse (h : OffsetMoved fs i n fs') (j : Nat) : (fs'.files j).inUse = (fs.files j).inUse := by
  rw [h.files]
  by_cases hj : j = i
  · rw [hj, Function.update_self]
  · rw [Function.update_of_ne hj]

theorem OffsetMoved.inode (h : OffsetMoved fs i n fs') (j : Nat) : (fs'.files j).inode = (fs.files j).inode := by
  rw [h.files]
  by_cases hj : j = i
  · rw [hj, Function.update_self]
  · rw [Function.update_of_ne hj]

theorem OffsetMoved.offset (h : OffsetMoved fs i n fs') (j : Nat) :
    (fs'.files j).offset = if j = i then ((fs.files i).offset + n) % 2 ^ 64 else (fs.files j).offset := by
  rw [h.files]
  by_cases hj : j = i
  · rw [hj, Function.update_self, if_pos rfl]
  · rw [Function.update_of_ne hj, if_neg hj]

theorem OffsetMoved.refsOk {held : List InodeRef} (h : OffsetMoved fs i n fs') (hok : RefsOk fs held) : RefsOk fs' held := by
  refine ⟨?_, ?_, ?_, ?_⟩
  · intro q hq
    rw [h.inodeCount] at hq
    rw [h.refCount, hok.refs q hq]
    refine congrArg (· + held.count q) (List.countP_congr fun j _ => ?_)
    rw [h.inUse, h.inode]
  · intro hash q hq
    rw [h.inodeCache] at hq
    rw [h.inodeCount]
    exact hok.cached hash q hq
  · intro j hj
    rw [h.inUse] at hj
    rw [h.inode, h.inodeCount]
    exact hok.slots j hj
  · intro q hq
    rw [h.inodeCount]
    exact hok.known q hq

/-- **`crfs_read`**, from a slot in use. -/
theorem moved_crfsRead (hi : i < maxOpen) (huse : (fs.files i).inUse = true) (hinode : (fs.files i).inode = some r)
    (hoff : (fs.files i).offset < 2 ^ 64) :
    (crfsRead fs i buf count uptimeMs).1 = asInt64 (readLen fs r i count) ∧
      OffsetMoved fs i (readLen fs r i count) (crfsRead fs i buf count uptimeMs).2.2 := by
  have hbound : ¬((i : Int) < 0 ∨ (maxOpen : Int) ≤ i) := by omega
  unfold crfsRead readLen
  rw [if_neg hbound]
  dsimp only
  rw [Int.toNat_natCast, huse, hinode]
  dsimp only
  split
  · exact ⟨rfl, OffsetMoved.zero hoff⟩
  · generalize (if diskSize (fs.disk r) < ((fs.files i).offset + count) % 2 ^ 64 then diskSize (fs.disk r) - (fs.files i).offset
      else count) = n
    have hmod : OffsetMoved fs i n (fs.modFile i fun f => { f with offset := (f.offset + n) % 2 ^ 64 }) :=
      ⟨rfl, rfl, rfl, fun _ => rfl⟩
    dsimp only
    exact ⟨rfl, hmod.then (kept_modDisk _)⟩

/-- **`crfs_write`**, to a slot in use. -/
theorem moved_crfsWrite (hi : i < maxOpen) (huse : (fs.files i).inUse = true) (hinode : (fs.files i).inode = some r) :
    if (fs.files i).flags &&& (oWronly ||| oRdwr) = 0#32 then crfsWrite fs i buf count uptimeMs = (-1, fs)
    else (crfsWrite fs i buf count uptimeMs).1 = asInt64 count ∧
      OffsetMoved fs i count (crfsWrite fs i buf count uptimeMs).2 := by
  have hbound : ¬((i : Int) < 0 ∨ (maxOpen : Int) ≤ i) := by omega
  unfold crfsWrite
  rw [if_neg hbound]
  dsimp only
  rw [Int.toNat_natCast, huse, hinode]
  dsimp only
  split
  · rfl
  · have hloop := @WriteRel.writeLoop TablesKept r tablesKept_writes buf (fs.files i).offset count count 0 fs
    generalize writeLoop r buf (fs.files i).offset count count 0 fs = fs₁ at hloop ⊢
    dsimp only
    refine ⟨rfl, OffsetMoved.kept hloop ?_⟩
    unfold writeFinish
    dsimp only
    have hsize : TablesKept fs₁ (if diskSize (fs₁.disk r) < ((fs₁.files i).offset + count) % 2 ^ 64 then
        fs₁.modDisk r fun d =>
          setDiskBlocks (setDiskSize d (((fs₁.files i).offset + count) % 2 ^ 64))
            ((diskSize (setDiskSize d (((fs₁.files i).offset + count) % 2 ^ 64)) + blockSize - 1) % 2 ^ 64 / blockSize % 2 ^ 32)
        else fs₁) := by
      split
      · exact kept_modDisk _
      · exact TablesKept.refl fs₁
    refine OffsetMoved.kept hsize ?_
    generalize (if diskSize (fs₁.disk r) < ((fs₁.files i).offset + count) % 2 ^ 64 then
        fs₁.modDisk r fun d =>
          setDiskBlocks (setDiskSize d (((fs₁.files i).offset + count) % 2 ^ 64))
            ((diskSize (setDiskSize d (((fs₁.files i).offset + count) % 2 ^ 64)) + blockSize - 1) % 2 ^ 64 / blockSize % 2 ^ 32)
        else fs₁) = fs₂
    have hmod : OffsetMoved fs₂ i count (fs₂.modFile i fun f => { f with offset := (f.offset + count) % 2 ^ 64 }) :=
      ⟨rfl, rfl, rfl, fun _ => rfl⟩
    exact hmod.then ((kept_modDisk _).trans kept_setDirty)

end

end Crimson.Crfs
