import Crimson.Vfs.Descriptors

/-!
# Two offsets for one file

A descriptor has an offset, and so has its slot; reading and writing use the slot's. They are
the same (`Coherent`) until a call moves one without the other: seeking moves the descriptor's
alone, opening for appending sets the slot's alone, and a count that does not fit an `ssize_t`
leaves the descriptor's behind. Those are all the ways (`vfs_offsets_iff`).
-/

set_option autoImplicit false

namespace Crimson.Vfs

open Crimson.Lib Crimson.Mm Crimson.Crfs

/-- The offset of every descriptor is the one its slot has. -/
def Coherent (st : Vfs) : Prop :=
  ∀ fd, (st.fdTable fd).valid = true → (st.fdTable fd).offset = (st.fs.files (st.fdTable fd).node).offset

/-- Seeking goes where the descriptor is. -/
def SeeksInPlace (cur : Nat) (offset whence : Int) : Prop :=
  (whence = FS_SEEK_SET → (offset % 2 ^ 64).toNat = cur) ∧ (whence = FS_SEEK_CUR → offset % 2 ^ 64 = 0) ∧
    (whence = FS_SEEK_END → ((if 0 < offset then offset else 0) % 2 ^ 64).toNat = cur)

/-- The size of the file that a path stands for, if it can be opened: there is a descriptor for it,
    the path resolves to an inode, and the inode is loaded. -/
def OpensSize (st : Vfs) (look : Lookup) (path : Option (List (BitVec 8))) (flags : BitVec 32)
    (uptimeUs uptimeMs size : Nat) : Prop :=
  st.initialized = true ∧ (∃ fd, 3 ≤ fd ∧ fd < FS_MAX_OPEN ∧ (st.fdTable fd).valid = false) ∧
    ∃ p ino fs₁ r fs₂, path = some p ∧
      resolveWith look st.fs p (crfsFlags flags) 0o644 uptimeUs uptimeMs = some (some ino, fs₁) ∧
      crfsIget fs₁ ino = (some r, fs₂) ∧ size = openedSize fs₂ r (crfsFlags flags)

/-- **When a call moves the two offsets together.** -/
def MovesBoth (st : Vfs) : VfsOp → Prop
  | .fsOpen look path flags us ms =>
    flags &&& FS_O_APPEND ≠ 0#32 → ∀ size, OpensSize st look path flags us ms size → size = 0
  | .fsClose _ => True
  | .fsRead fd buf count _ => buf.isSome = true → fdValid st fd →
    ∀ r, (st.fs.files (st.fdTable fd.toNat).node).inode = some r →
      readLen st.fs r (st.fdTable fd.toNat).node count.toNat < 2 ^ 63
  | .fsWrite fd buf count _ => buf.isSome = true → fdValid st fd →
    (st.fs.files (st.fdTable fd.toNat).node).flags &&& (oWronly ||| oRdwr) ≠ 0#32 → count.toNat < 2 ^ 63
  | .fsLseek fd offset whence => fdValid st fd → SeeksInPlace (st.fdTable fd.toNat).offset offset whence

/-- What the offsets are for: after seeking to `offset` the file is read and written there, and
    after opening for appending the offset is the size. -/
def ActsAtOffset (st : Vfs) (op : VfsOp) (st' : Vfs) : Prop :=
  match op with
  | .fsOpen look path flags us ms => flags &&& FS_O_APPEND ≠ 0#32 → ∀ n, 0 ≤ n →
      fsOpenWith look st path flags us ms = some (n, st') →
        ∀ r, (st'.fs.files (st'.fdTable n.toNat).node).inode = some r →
          (fsLseek st' n 0 FS_SEEK_CUR).1 = asInt64 (diskSize (st'.fs.disk r))
  | .fsLseek fd offset whence => fdValid st fd → whence = FS_SEEK_SET →
      (st'.fs.files (st'.fdTable fd.toNat).node).offset = (offset % 2 ^ 64).toNat
  | _ => True

section

variable {st st' : Vfs} {fd i offset n : Nat} {flags : BitVec 32}

/-! ## The flags and the numbers -/

theorem crfsFlags_append (flags : BitVec 32) : crfsFlags flags &&& oAppend ≠ 0#32 ↔ flags &&& FS_O_APPEND ≠ 0#32 := by
  have hput : ∀ (c : Prop) [Decidable c] (a b : BitVec 32), (if c then a ||| b else a) &&& oAppend =
      if c then (a &&& oAppend) ||| (b &&& oAppend) else a &&& oAppend := by
    intro c _ a b
    split
    · exact BitVec.and_or_distrib_right
    · rfl
  unfold crfsFlags
  simp only [hput]
  by_cases happend : flags &&& FS_O_APPEND = 0#32
  · simp [happend, oAppend, oWronly, oRdwr, oCreat, oTrunc]
  · simp [happend, oAppend, oWronly, oRdwr, oCreat, oTrunc]

theorem seekOffset_eq_iff {cur : Nat} (hcur : cur < 2 ^ 64) (offset whence : Int) :
    seekOffset cur offset whence = cur ↔ SeeksInPlace cur offset whence := by
  unfold seekOffset SeeksInPlace FS_SEEK_SET FS_SEEK_CUR FS_SEEK_END
  split
  · rename_i h
    subst h
    exact ⟨fun h => ⟨fun _ => h, fun h => absurd h (by decide), fun h => absurd h (by decide)⟩, fun h => h.1 rfl⟩
  · split
    · rename_i h
      subst h
      refine Iff.trans ?_ ⟨fun h => ⟨fun h => absurd h (by decide), fun _ => h, fun h => absurd h (by decide)⟩,
        fun h => h.2.1 rfl⟩
      omega
    · split
      · rename_i h
        subst h
        exact ⟨fun h => ⟨fun h => absurd h (by decide), fun h => absurd h (by decide), fun _ => h⟩, fun h => h.2.2 rfl⟩
      · rename_i hset hcur hend
        exact ⟨fun _ => ⟨fun h => absurd h hset, fun h => absurd h hcur, fun h => absurd h hend⟩, fun _ => rfl⟩

/-- A count that fits an `ssize_t` moves the descriptor as far as the slot, any other does not. -/
theorem advanced_eq_iff (hn : n < 2 ^ 64) (hoff : offset < 2 ^ 64) :
    advanced offset (asInt64 n) = (offset + n) % 2 ^ 64 ↔ n < 2 ^ 63 := by
  have hcount : asInt64 n = if n < 2 ^ 63 then (n : Int) else n - 2 ^ 64 := by
    unfold asInt64
    rw [Int.bmod_def]
    split <;> split <;> omega
  unfold advanced
  rw [hcount]
  split
  · split <;> omega
  · split <;> omega

/-! ## One call -/

theorem coherent_nothing (hc : Coherent st) (hn : NothingOpened st st') : Coherent st' := by
  intro fd hfd
  rw [hn.fdTable] at hfd ⊢
  rw [hn.step.files]
  exact hc fd hfd

theorem coherent_taken_iff (h : DescriptorsOk st) (hc : Coherent st) (ht : FdTaken st flags fd i st') :
    Coherent st' ↔ (st'.fs.files i).offset = 0 := by
  have hself : st'.fdTable fd = { valid := true, flags := flags, offset := 0, node := i } := by
    rw [ht.fdTable, Function.update_self]
  constructor
  · intro hc'
    have hfd := hc' fd (by rw [hself])
    rw [hself] at hfd
    exact hfd.symm
  · intro hzero j hj
    by_cases hjfd : j = fd
    · rw [hjfd, hself]
      exact hzero.symm
    · rw [ht.fdTable, Function.update_of_ne hjfd] at hj ⊢
      obtain ⟨r, hfiles⟩ := ht.slot.taken
      have hnode : (st.fdTable j).node ≠ i := by
        intro hji
        have huse := h.inUse j hj
        rw [hji, ht.slot.free] at huse
        cases huse
      rw [hfiles, Function.update_of_ne hnode]
      exact hc j hj

theorem coherent_freed (h : DescriptorsOk st) (hc : Coherent st) (hf : FdFreed st fd st') : Coherent st' := by
  intro j hj
  have hjfd : j ≠ fd := by
    rintro rfl
    rw [hf.fdTable, Function.update_self] at hj
    cases hj
  rw [hf.fdTable, Function.update_of_ne hjfd] at hj ⊢
  rw [hf.files, Function.update_of_ne fun hnode => hjfd (h.injective j fd hj hf.valid hnode)]
  exact hc j hj

theorem coherent_moved_iff (h : DescriptorsOk st) (hc : Coherent st) (hm : FdMoved st fd offset n st') :
    Coherent st' ↔ offset = ((st.fdTable fd).offset + n) % 2 ^ 64 := by
  have hself : st'.fdTable fd = { st.fdTable fd with offset := offset } := by
    rw [hm.fdTable, Function.update_self]
  have hslot : (st'.fs.files (st.fdTable fd).node).offset = ((st.fdTable fd).offset + n) % 2 ^ 64 := by
    rw [hm.moved.offset, if_pos rfl, hc fd hm.valid]
  constructor
  · intro hc'
    have hfd := hc' fd (by rw [hself]; exact hm.valid)
    rw [hself] at hfd
    exact hfd.trans hslot
  · intro hoff j hj
    by_cases hjfd : j = fd
    · rw [hjfd, hself]
      exact hoff.trans hslot.symm
    · rw [hm.fdTable, Function.update_of_ne hjfd] at hj ⊢
      rw [hm.moved.offset, if_neg fun hnode => hjfd (h.injective j fd hj hm.valid hnode)]
      exact hc j hj

/-- A slot is free while a descriptor is: there are more of them. -/
theorem slot_free (h : DescriptorsOk st) : ∃ i, i < maxOpen ∧ (st.fs.files i).inUse = false := by
  by_contra hfull
  have huse : ∀ i, i < maxOpen → (st.fs.files i).inUse = true := by
    intro i hi
    by_contra hfree
    exact hfull ⟨i, hi, by simpa using hfree⟩
  have hsub : List.range maxOpen ⊆ (List.range FS_MAX_OPEN).map fun fd => (st.fdTable fd).node := by
    intro i hi
    obtain ⟨fd, hfd, hnode⟩ := h.owned i (huse i (List.mem_range.mp hi))
    exact List.mem_map.mpr ⟨fd, List.mem_range.mpr (h.range fd hfd).2, hnode⟩
  have hlen := (List.nodup_range.subperm hsub).length_le
  rw [List.length_range, List.length_map, List.length_range] at hlen
  exact absurd hlen (by decide)

/-- A descriptor is found while one is free. -/
theorem allocFd_free {fd : Nat} (hrange : 3 ≤ fd ∧ fd < FS_MAX_OPEN) (hfree : (st.fdTable fd).valid = false) :
    ∃ x, allocFd st = some x := by
  unfold allocFd
  cases hfind : (List.range' 3 (FS_MAX_OPEN - 3)).find? fun i => !(st.fdTable i).valid with
  | some i => exact ⟨_, rfl⟩
  | none =>
    have hnone := List.find?_eq_none.mp hfind fd (by
      rw [List.mem_range'_1]
      unfold FS_MAX_OPEN at *
      omega)
    rw [hfree] at hnone
    exact absurd rfl hnone

variable {look : Lookup} {path : Option (List (BitVec 8))} {us ms : Nat}

/-- What is opened where `fs_open` takes a descriptor: the slot's offset is the size of the file if
    it is opened for appending. -/
theorem fsOpen_offset {p : List (BitVec 8)} (ht : FdTaken st flags fd i st') (hinit : st.initialized = true)
    (hcrfs : crfsOpenWith look st.fs p (crfsFlags flags) 0o644 us ms = some ((i : Int), st'.fs)) :
    ∃ size, OpensSize st look (some p) flags us ms size ∧
      (st'.fs.files i).offset = if flags &&& FS_O_APPEND ≠ 0#32 then size else 0 := by
  obtain ⟨ino, fs₁, r, fs₂, hresolve, hget, hoff⟩ := crfsOpenWith_opened hcrfs
  refine ⟨_, ⟨hinit, ⟨fd, ht.range.1, ht.range.2, ht.free⟩, p, ino, fs₁, r, fs₂, rfl, hresolve, hget, rfl⟩, ?_⟩
  rw [hoff]
  by_cases happend : flags &&& FS_O_APPEND ≠ 0#32
  · rw [if_pos happend, if_pos ((crfsFlags_append flags).mpr happend)]
  · rw [if_neg happend, if_neg fun h => happend ((crfsFlags_append flags).mp h)]

theorem OpensSize.unique {size size' : Nat} (h : OpensSize st look path flags us ms size)
    (h' : OpensSize st look path flags us ms size') : size = size' := by
  obtain ⟨-, -, p, ino, fs₁, r, fs₂, rfl, hresolve, hget, rfl⟩ := h
  obtain ⟨-, -, p', ino', fs₁', r', fs₂', hp, hresolve', hget', rfl⟩ := h'
  cases hp
  rw [hresolve] at hresolve'
  cases hresolve'
  rw [hget] at hget'
  cases hget'
  rfl

/-- A file that can be opened is. -/
theorem OpensSize.opens {size : Nat} {n : Int} (hsize : OpensSize st look path flags us ms size) (h : DescriptorsOk st)
    (hopen : fsOpenWith look st path flags us ms = some (n, st')) : 0 ≤ n := by
  obtain ⟨hinit, ⟨fd, hfd, hmax, hfree⟩, p, ino, fs₁, r, fs₂, rfl, hresolve, hget, -⟩ := hsize
  obtain ⟨x, halloc⟩ := allocFd_free ⟨hfd, hmax⟩ hfree
  obtain ⟨-, -, hx⟩ := allocFd_some halloc
  -- The file table is as it was before the walk, so a slot is free.
  have hfiles : fs₂.files = st.fs.files := by
    have hstep := refs_resolveWith h.refs hresolve
    have hstep' := refs_crfsIget hstep.refs (Nat.zero_le _) ino
    rw [hget] at hstep'
    exact hstep'.files.trans hstep.files
  obtain ⟨j, hj, hslot⟩ := slot_free h
  cases hfind : (List.range maxOpen).find? fun i => !(fs₂.files i).inUse with
  | none =>
    have hnone := List.find?_eq_none.mp hfind j (List.mem_range.mpr hj)
    rw [hfiles, hslot] at hnone
    exact absurd rfl hnone
  | some k =>
    obtain ⟨hk, -⟩ := @openTail_slot fs₂ (crfsFlags flags) r k hfind
    have hfs : x.2.fs = st.fs := by
      rw [hx]
      rfl
    have hpos : ¬(openTail fs₂ r (crfsFlags flags)).1 < 0 := by
      rw [hk]
      omega
    unfold fsOpenWith at hopen
    rw [hinit] at hopen
    dsimp only at hopen
    rw [halloc] at hopen
    dsimp only at hopen
    rw [hfs, crfsOpenWith_inode hresolve hget] at hopen
    dsimp only at hopen
    rw [if_neg hpos] at hopen
    have hn : (x.1 : Int) = n := congrArg Prod.fst (Option.some.inj hopen)
    omega

/-- The offset of a descriptor is that of its file, which has 64 bits. -/
theorem Coherent.offset_lt (hc : Coherent st) (h : DescriptorsOk st) {fd : Nat} (hvalid : (st.fdTable fd).valid = true) :
    (st.fdTable fd).offset < 2 ^ 64 := by
  rw [hc fd hvalid]
  exact h.offsets _

/-- A call that moves both offsets keeps them the same. -/
theorem coherent_step {op : VfsOp} (h : DescriptorsOk st) (hc : Coherent st) (hg : MovesBoth st op)
    (hstep : vfsStep st op = some st') : Coherent st' := by
  cases op with
  | fsOpen look path flags us ms =>
    obtain ⟨⟨n, st₁⟩, hopen, rfl⟩ := Option.map_eq_some_iff.mp hstep
    rcases fsOpenWith_cases h hopen with ⟨-, hnothing⟩ | ⟨fd, i, -, htaken, hinit, p, rfl, hcrfs⟩
    · exact coherent_nothing hc hnothing
    · obtain ⟨size, hsize, hoff⟩ := fsOpen_offset htaken hinit hcrfs
      refine (coherent_taken_iff h hc htaken).mpr ?_
      rw [hoff]
      split
      · rename_i happend
        exact hg happend size hsize
      · rfl
  | fsClose fd =>
    cases hstep
    rcases fsClose_cases h fd with hsame | hfreed
    · rw [hsame]
      exact hc
    · exact coherent_freed h hc hfreed
  | fsRead fd buf count ms =>
    cases hstep
    rcases fsRead_cases h fd buf count ms with hsame | ⟨r, hbuf, hvalid, hinode, hmoved⟩
    · rw [hsame]
      exact hc
    · refine (coherent_moved_iff h hc hmoved).mpr ?_
      have hlt := hg hbuf hvalid r hinode
      exact (advanced_eq_iff (by omega) (hc.offset_lt h hvalid.2.2.2)).mpr hlt
  | fsWrite fd buf count ms =>
    cases hstep
    rcases fsWrite_cases h fd buf count ms with hsame | ⟨hbuf, hvalid, hflags, hmoved⟩
    · rw [hsame]
      exact hc
    · refine (coherent_moved_iff h hc hmoved).mpr ?_
      have hlt := hg hbuf hvalid hflags
      exact (advanced_eq_iff (by omega) (hc.offset_lt h hvalid.2.2.2)).mpr hlt
  | fsLseek fd offset whence =>
    cases hstep
    rcases fsLseek_cases h fd offset whence with hsame | ⟨hvalid, hmoved⟩
    · rw [hsame]
      exact hc
    · refine (coherent_moved_iff h hc hmoved).mpr ?_
      have hoff := hc.offset_lt h hvalid.2.2.2
      rw [(seekOffset_eq_iff hoff offset whence).mpr (hg hvalid), Nat.add_zero, Nat.mod_eq_of_lt hoff]

/-- A call that does not breaks it. -/
theorem not_coherent_step {op : VfsOp} (h : DescriptorsOk st) (hc : Coherent st) (hg : ¬MovesBoth st op)
    (hstep : vfsStep st op = some st') : ¬Coherent st' := by
  intro hc'
  refine hg ?_
  have hoff : ∀ fd, (st.fdTable fd).valid = true → (st.fdTable fd).offset < 2 ^ 64 := by
    intro fd hvalid
    rw [hc fd hvalid]
    exact h.offsets _
  cases op with
  | fsOpen look path flags us ms =>
    intro happend size hsize
    obtain ⟨⟨n, st₁⟩, hopen, rfl⟩ := Option.map_eq_some_iff.mp hstep
    have hpos := hsize.opens h hopen
    rcases fsOpenWith_cases h hopen with ⟨rfl, -⟩ | ⟨fd, i, -, htaken, hinit, p, rfl, hcrfs⟩
    · exact absurd hpos (by decide)
    · obtain ⟨size', hsize', hoff'⟩ := fsOpen_offset htaken hinit hcrfs
      rw [if_pos happend, (coherent_taken_iff h hc htaken).mp hc'] at hoff'
      rw [hsize.unique hsize', ← hoff']
  | fsClose fd => trivial
  | fsRead fd buf count ms =>
    intro hbuf hvalid r hinode
    cases hstep
    obtain ⟨buf, rfl⟩ := Option.isSome_iff_exists.mp hbuf
    have hmoved := moved_fsRead h hvalid hinode buf count ms
    have hlen : readLen st.fs r (st.fdTable fd.toNat).node count.toNat < 2 ^ 64 := readLen_lt count.toNat_lt
    exact (advanced_eq_iff hlen (hoff _ hvalid.2.2.2)).mp ((coherent_moved_iff h hc hmoved).mp hc')
  | fsWrite fd buf count ms =>
    intro hbuf hvalid hflags
    cases hstep
    obtain ⟨buf, rfl⟩ := Option.isSome_iff_exists.mp hbuf
    have hmoved := moved_fsWrite h hvalid hflags buf count ms
    exact (advanced_eq_iff count.toNat_lt (hoff _ hvalid.2.2.2)).mp ((coherent_moved_iff h hc hmoved).mp hc')
  | fsLseek fd offset whence =>
    intro hvalid
    cases hstep
    have hsame := (coherent_moved_iff h hc (moved_fsLseek h hvalid offset whence)).mp hc'
    rw [Nat.add_zero, Nat.mod_eq_of_lt (hoff _ hvalid.2.2.2)] at hsame
    exact (seekOffset_eq_iff (hoff _ hvalid.2.2.2) offset whence).mp hsame

/-- **The calls act at the offset**, where they leave the two the same. -/
theorem actsAtOffset_step {op : VfsOp} (h : DescriptorsOk st) (hc' : Coherent st') (hstep : vfsStep st op = some st') :
    ActsAtOffset st op st' := by
  cases op with
  | fsOpen look path flags us ms =>
    intro happend n hpos hopen r hinode
    rcases fsOpenWith_cases h hopen with ⟨rfl, -⟩ | ⟨fd, i, rfl, htaken, hinit, -⟩
    · exact absurd hpos (by decide)
    · rw [Int.toNat_natCast] at hinode
      have hself : st'.fdTable fd = { valid := true, flags := flags, offset := 0, node := i } := by
        rw [htaken.fdTable, Function.update_self]
      have hvalid : fdValid st' fd := by
        refine ⟨htaken.initialized.trans hinit, by omega, ?_, ?_⟩
        · exact Int.ofNat_lt.mpr htaken.range.2
        · rw [Int.toNat_natCast, hself]
      have hoff := hc' fd (by rw [hself])
      rw [hself] at hinode hoff
      obtain ⟨q, hfiles⟩ := htaken.slot.taken
      rw [hfiles, Function.update_self] at hinode hoff
      dsimp only at hinode hoff
      cases hinode
      rw [if_pos ((crfsFlags_append flags).mpr happend)] at hoff
      have hreport : (fsLseek st' fd 0 FS_SEEK_CUR).1 = asInt64 (seekOffset (st'.fdTable fd).offset 0 FS_SEEK_CUR) := by
        unfold fsLseek Vfs.modFd
        rw [if_pos hvalid]
        dsimp only
        rw [Function.update_self, Int.toNat_natCast]
      rw [hreport, hself, ← hoff]
      rfl
  | fsLseek fd offset whence =>
    intro hvalid hset
    cases hstep
    have hmoved := moved_fsLseek h hvalid offset whence
    have hself : (fsLseek st fd offset whence).2.fdTable fd.toNat =
        { st.fdTable fd.toNat with offset := seekOffset (st.fdTable fd.toNat).offset offset whence } := by
      rw [hmoved.fdTable, Function.update_self]
    have hoff := hc' fd.toNat (by rw [hself]; exact hmoved.valid)
    rw [← hoff, hself]
    show seekOffset _ offset whence = _
    unfold seekOffset
    rw [if_pos hset]
  | fsClose | fsRead | fsWrite => trivial

end

/-- **Where the two offsets stay the same**, through a whole history: where every call moves both. -/
theorem vfs_offsets_iff {d : Device} {env : Surroundings} {blockInSeg currentSeg uptimeMs : Nat} {fs : Fs}
    (hmount : crfsMount d env blockInSeg currentSeg uptimeMs = some fs) (ops : List VfsOp) :
    (Always vfsStep Coherent (fsInit fs) ops ∧ AlwaysStep vfsStep ActsAtOffset (fsInit fs) ops) ↔
      Meets vfsStep MovesBoth (fsInit fs) ops := by
  have hinit : DescriptorsOk (fsInit fs) ∧ Coherent (fsInit fs) := by
    refine ⟨descriptorsOk_init hmount, fun fd hfd => ?_⟩
    cases hfd
  have hstep : ∀ st op st', DescriptorsOk st ∧ Coherent st → MovesBoth st op → vfsStep st op = some st' →
      DescriptorsOk st' ∧ Coherent st' := fun st op st' h hg hs =>
    ⟨h.1.step hs, coherent_step h.1 h.2 hg hs⟩
  have hiff : Always vfsStep Coherent (fsInit fs) ops ↔ Meets vfsStep MovesBoth (fsInit fs) ops :=
    always_iff_meets (fun st h => h.2) hstep (fun st op st' h hg hs => not_coherent_step h.1 h.2 hg hs) hinit
  constructor
  · intro h
    exact hiff.mp h.1
  · intro hmeets
    refine ⟨hiff.mpr hmeets, ?_⟩
    refine alwaysStep_of_always (fun st op st' h hg hs => ?_) (always_of_meets hstep hinit hmeets) hmeets
    exact actsAtOffset_step h.1 (coherent_step h.1 h.2 hg hs) hs

/-! On a fresh volume a file is created, and its descriptor moved to byte 5. -/

def freshVfs : Vfs := fsInit ((mounted formattedDevice).getD noFs)

def createOp : VfsOp := .fsOpen crfsDirLookup (some [0x61#8]) (FS_O_CREAT ||| FS_O_RDWR) 5 0

/-- Opening, and seeking to the beginning, is a history in which all calls move both. -/
theorem vfs_offsets_mounted :
    (Always vfsStep Coherent freshVfs [createOp, .fsLseek 3 0 FS_SEEK_SET] ∧
      AlwaysStep vfsStep ActsAtOffset freshVfs [createOp, .fsLseek 3 0 FS_SEEK_SET]) ↔
      Meets vfsStep MovesBoth freshVfs [createOp, .fsLseek 3 0 FS_SEEK_SET] := by
  have hmount : crfsMount formattedDevice quiet 0 0 0 = some ((mounted formattedDevice).getD noFs) :=
    eq_some_getD noFs (by decide +kernel)
  exact vfs_offsets_iff hmount _

/-- After seeking the descriptor is at byte 5, the slot at 0. -/
theorem seek_not_coherent : ¬Always vfsStep Coherent freshVfs [createOp, .fsLseek 3 5 FS_SEEK_SET] := by
  intro h
  have hrun := eq_some_getD freshVfs (o := run vfsStep freshVfs [createOp, .fsLseek 3 5 FS_SEEK_SET]) (by decide +kernel)
  have hlast := h.last hrun 3 (by decide +kernel)
  exact absurd hlast (by decide +kernel)

end Crimson.Vfs
