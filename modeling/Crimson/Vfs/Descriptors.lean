import Crimson.Lib.Run
import Crimson.Vfs.Model

/-!
# Descriptors and slots

Every descriptor that is valid stands for a slot of its own, every slot in use belongs to a
descriptor, and the references of an inode are its slots (`DescriptorsOk`). Opening and closing
keep this, reading, writing and seeking move offsets only, and an `fs_open` that fails puts
everything back (`descriptors_ok`).
-/

set_option autoImplicit false

namespace Crimson.Vfs

open Crimson.Lib Crimson.Mm Crimson.Crfs

/-! ## What a call does to the descriptors -/

structure DescriptorsOk (st : Vfs) : Prop where
  range : ∀ fd, (st.fdTable fd).valid = true → 3 ≤ fd ∧ fd < FS_MAX_OPEN
  cleared : ∀ fd, (st.fdTable fd).valid = false → (st.fdTable fd).offset = 0 ∧ (st.fdTable fd).node = 0
  inUse : ∀ fd, (st.fdTable fd).valid = true → (st.fs.files (st.fdTable fd).node).inUse = true
  injective : ∀ fd fd', (st.fdTable fd).valid = true → (st.fdTable fd').valid = true →
    (st.fdTable fd).node = (st.fdTable fd').node → fd = fd'
  owned : ∀ i, (st.fs.files i).inUse = true → ∃ fd, (st.fdTable fd).valid = true ∧ (st.fdTable fd).node = i
  refs : RefsOk st.fs []
  offsets : ∀ i, (st.fs.files i).offset < 2 ^ 64

/-- A descriptor that was free stands for a slot that was free. -/
structure FdTaken (st : Vfs) (flags : BitVec 32) (fd i : Nat) (st' : Vfs) : Prop where
  initialized : st'.initialized = st.initialized
  range : 3 ≤ fd ∧ fd < FS_MAX_OPEN
  free : (st.fdTable fd).valid = false
  slot : SlotTaken st.fs (crfsFlags flags) i st'.fs
  fdTable : st'.fdTable = Function.update st.fdTable fd { valid := true, flags := flags, offset := 0, node := i }

/-- What `fs_open` leaves behind where it fails: inodes in the cache, without references. -/
structure NothingOpened (st st' : Vfs) : Prop where
  initialized : st'.initialized = st.initialized
  fdTable : st'.fdTable = st.fdTable
  step : RefsStep st.fs st'.fs []

section

variable {st st' : Vfs} {fd : Nat} {flags : BitVec 32}

theorem allocFd_some {x : Nat × Vfs} (h : allocFd st = some x) :
    (3 ≤ x.1 ∧ x.1 < FS_MAX_OPEN) ∧ (st.fdTable x.1).valid = false ∧
      x.2 = st.modFd x.1 fun f => { f with valid := true, offset := 0 } := by
  obtain ⟨fd, hfind, rfl⟩ := Option.map_eq_some_iff.mp h
  have hmem := List.mem_of_find?_eq_some hfind
  have hfree := List.find?_some hfind
  rw [List.mem_range'_1] at hmem
  rw [Bool.not_eq_true'] at hfree
  unfold FS_MAX_OPEN at *
  exact ⟨⟨hmem.1, by omega⟩, hfree, rfl⟩

/-- A descriptor that was free is freed again. -/
theorem freeFd_allocFd (h : DescriptorsOk st) (hfree : (st.fdTable fd).valid = false) (fs : Fs) :
    (freeFd { st.modFd fd (fun f => { f with valid := true, offset := 0 }) with fs := fs } fd).fdTable = st.fdTable := by
  obtain ⟨hoff, hnode⟩ := h.cleared fd hfree
  funext j
  unfold freeFd Vfs.modFd
  dsimp only
  rw [Function.update_idem, Function.update_self]
  by_cases hj : j = fd
  · rw [hj, Function.update_self]
    generalize st.fdTable fd = f at hoff hnode hfree ⊢
    cases f with
    | mk valid flags offset node =>
      dsimp only at hoff hnode hfree ⊢
      rw [hoff, hnode, hfree]
  · rw [Function.update_of_ne hj]

/-- **`fs_open`**: a descriptor and a slot are taken, or nothing is. -/
theorem fsOpenWith_cases {look : Lookup} {path : Option (List (BitVec 8))} {uptimeUs uptimeMs : Nat} {n : Int}
    (h : DescriptorsOk st) (hopen : fsOpenWith look st path flags uptimeUs uptimeMs = some (n, st')) :
    (n = -1 ∧ NothingOpened st st') ∨ ∃ fd i : Nat, n = fd ∧ FdTaken st flags fd i st' ∧
      st.initialized = true ∧ ∃ p, path = some p ∧
        crfsOpenWith look st.fs p (crfsFlags flags) 0o644 uptimeUs uptimeMs = some ((i : Int), st'.fs) := by
  have hsame : NothingOpened st st := ⟨rfl, rfl, h.refs, rfl, le_rfl⟩
  unfold fsOpenWith at hopen
  split at hopen
  · rename_i path hinit
    split at hopen
    · cases hopen
      exact Or.inl ⟨rfl, hsame⟩
    · rename_i fd st₁ halloc
      obtain ⟨hrange, hfree, hst₁⟩ := allocFd_some halloc
      dsimp only at hrange hfree hst₁
      subst hst₁
      split at hopen
      · cases hopen
      · rename_i crfsFd fs hcrfs
        have hopened := opened_crfsOpenWith h.refs hcrfs
        dsimp only at hopen
        rcases hopened with ⟨rfl, hstep⟩ | ⟨i, rfl, hslot⟩
        · rw [if_pos (by decide)] at hopen
          cases hopen
          exact Or.inl ⟨rfl, rfl, freeFd_allocFd h hfree fs, hstep⟩
        · rw [if_neg (by omega)] at hopen
          cases hopen
          refine Or.inr ⟨fd, i, rfl, ⟨rfl, hrange, hfree, hslot, ?_⟩, hinit, path, rfl, hcrfs⟩
          unfold Vfs.modFd
          dsimp only
          rw [Function.update_idem, Function.update_self, Int.toNat_natCast]
  · cases hopen
    exact Or.inl ⟨rfl, hsame⟩

/-- **`fs_close`**: the descriptor and its slot are free. -/
structure FdFreed (st : Vfs) (fd : Nat) (st' : Vfs) : Prop where
  initialized : st'.initialized = st.initialized
  valid : (st.fdTable fd).valid = true
  fdTable : st'.fdTable =
    Function.update st.fdTable fd { st.fdTable fd with valid := false, offset := 0, node := 0 }
  files : st'.fs.files =
    Function.update st.fs.files (st.fdTable fd).node
      { st.fs.files (st.fdTable fd).node with inUse := false, inode := none }
  refs : RefsOk st'.fs []

theorem fsClose_cases (h : DescriptorsOk st) (fd : Int) :
    fsClose st fd = st ∨ FdFreed st fd.toNat (fsClose st fd) := by
  unfold fsClose
  split
  · rename_i hvalid
    obtain ⟨hfiles, hrefs⟩ := refs_crfsClose h.refs (h.inUse _ hvalid.2.2.2)
    exact Or.inr ⟨rfl, hvalid.2.2.2, rfl, hfiles, hrefs⟩
  · exact Or.inl rfl

/-- Reading, writing and seeking: one descriptor's offset, and the offset of its slot. -/
structure FdMoved (st : Vfs) (fd offset n : Nat) (st' : Vfs) : Prop where
  initialized : st'.initialized = st.initialized
  valid : (st.fdTable fd).valid = true
  fdTable : st'.fdTable = Function.update st.fdTable fd { st.fdTable fd with offset := offset }
  moved : OffsetMoved st.fs (st.fdTable fd).node n st'.fs

/-- The offset a descriptor has after `n` bytes. -/
def advanced (offset : Nat) (n : Int) : Nat := if 0 < n then (offset + n.toNat) % 2 ^ 64 else offset

theorem fdMoved_advance {fs : Fs} {n : Nat} (hvalid : (st.fdTable fd).valid = true)
    (hmoved : OffsetMoved st.fs (st.fdTable fd).node n fs) (m : Int) :
    FdMoved st fd (advanced (st.fdTable fd).offset m) n (advance { st with fs := fs } fd m) := by
  unfold advance advanced
  split
  · exact ⟨rfl, hvalid, rfl, hmoved⟩
  · exact ⟨rfl, hvalid, (Function.update_eq_self fd st.fdTable).symm, hmoved⟩

/-- **`fs_read`** moves both offsets by what was read. -/
theorem moved_fsRead (h : DescriptorsOk st) {fd : Int} (hvalid : fdValid st fd) {r : InodeRef}
    (hinode : (st.fs.files (st.fdTable fd.toNat).node).inode = some r) (buf : Mem) (count : UInt64) (uptimeMs : Nat) :
    FdMoved st fd.toNat
      (advanced (st.fdTable fd.toNat).offset (asInt64 (readLen st.fs r (st.fdTable fd.toNat).node count.toNat)))
      (readLen st.fs r (st.fdTable fd.toNat).node count.toNat) (fsRead st fd (some buf) count uptimeMs).2.2 := by
  have huse := h.inUse _ hvalid.2.2.2
  obtain ⟨hn, hmoved⟩ := @moved_crfsRead _ _ count.toNat uptimeMs r buf (h.refs.slots _ huse).1 huse hinode (h.offsets _)
  unfold fsRead
  dsimp only
  rw [if_pos hvalid]
  dsimp only
  rw [hn]
  exact fdMoved_advance hvalid.2.2.2 hmoved _

/-- **`fs_write`**, to a descriptor that may be written to. -/
theorem moved_fsWrite (h : DescriptorsOk st) {fd : Int} (hvalid : fdValid st fd)
    (hflags : (st.fs.files (st.fdTable fd.toNat).node).flags &&& (oWronly ||| oRdwr) ≠ 0#32) (buf : Mem) (count : UInt64)
    (uptimeMs : Nat) :
    FdMoved st fd.toNat (advanced (st.fdTable fd.toNat).offset (asInt64 count.toNat)) count.toNat
      (fsWrite st fd (some buf) count uptimeMs).2 := by
  have huse := h.inUse _ hvalid.2.2.2
  obtain ⟨hmax, r, hinode, -⟩ := h.refs.slots _ huse
  have hwrite := @moved_crfsWrite _ _ count.toNat uptimeMs r buf hmax huse hinode
  rw [if_neg hflags] at hwrite
  unfold fsWrite
  dsimp only
  rw [if_pos hvalid]
  dsimp only
  rw [hwrite.1]
  exact fdMoved_advance hvalid.2.2.2 hwrite.2 _

/-- **`fs_lseek`** sets the descriptor's offset; the slot's stays. -/
theorem moved_fsLseek (h : DescriptorsOk st) {fd : Int} (hvalid : fdValid st fd) (offset whence : Int) :
    FdMoved st fd.toNat (seekOffset (st.fdTable fd.toNat).offset offset whence) 0 (fsLseek st fd offset whence).2 := by
  unfold fsLseek
  rw [if_pos hvalid]
  exact ⟨rfl, hvalid.2.2.2, rfl, OffsetMoved.zero (h.offsets _)⟩

/-! Each of these calls either moves or changes nothing. -/

theorem fsRead_cases (h : DescriptorsOk st) (fd : Int) (buf : Option Mem) (count : UInt64) (uptimeMs : Nat) :
    (fsRead st fd buf count uptimeMs).2.2 = st ∨ ∃ r, buf.isSome = true ∧ fdValid st fd ∧
      (st.fs.files (st.fdTable fd.toNat).node).inode = some r ∧
      FdMoved st fd.toNat
        (advanced (st.fdTable fd.toNat).offset (asInt64 (readLen st.fs r (st.fdTable fd.toNat).node count.toNat)))
        (readLen st.fs r (st.fdTable fd.toNat).node count.toNat) (fsRead st fd buf count uptimeMs).2.2 := by
  cases buf with
  | none => exact Or.inl rfl
  | some buf =>
    by_cases hvalid : fdValid st fd
    · obtain ⟨-, r, hinode, -⟩ := h.refs.slots _ (h.inUse _ hvalid.2.2.2)
      exact Or.inr ⟨r, rfl, hvalid, hinode, moved_fsRead h hvalid hinode buf count uptimeMs⟩
    · unfold fsRead
      dsimp only
      rw [if_neg hvalid]
      exact Or.inl rfl

theorem fsWrite_cases (h : DescriptorsOk st) (fd : Int) (buf : Option Mem) (count : UInt64) (uptimeMs : Nat) :
    (fsWrite st fd buf count uptimeMs).2 = st ∨ buf.isSome = true ∧ fdValid st fd ∧
      (st.fs.files (st.fdTable fd.toNat).node).flags &&& (oWronly ||| oRdwr) ≠ 0#32 ∧
      FdMoved st fd.toNat (advanced (st.fdTable fd.toNat).offset (asInt64 count.toNat)) count.toNat
        (fsWrite st fd buf count uptimeMs).2 := by
  cases buf with
  | none => exact Or.inl rfl
  | some buf =>
    by_cases hvalid : fdValid st fd
    · by_cases hflags : (st.fs.files (st.fdTable fd.toNat).node).flags &&& (oWronly ||| oRdwr) = 0#32
      · have huse := h.inUse _ hvalid.2.2.2
        obtain ⟨hmax, r, hinode, -⟩ := h.refs.slots _ huse
        have hwrite := @moved_crfsWrite _ _ count.toNat uptimeMs r buf hmax huse hinode
        rw [if_pos hflags] at hwrite
        unfold fsWrite
        dsimp only
        rw [if_pos hvalid, hwrite]
        exact Or.inl rfl
      · exact Or.inr ⟨rfl, hvalid, hflags, moved_fsWrite h hvalid hflags buf count uptimeMs⟩
    · unfold fsWrite
      dsimp only
      rw [if_neg hvalid]
      exact Or.inl rfl

theorem fsLseek_cases (h : DescriptorsOk st) (fd offset whence : Int) :
    (fsLseek st fd offset whence).2 = st ∨ fdValid st fd ∧
      FdMoved st fd.toNat (seekOffset (st.fdTable fd.toNat).offset offset whence) 0 (fsLseek st fd offset whence).2 := by
  by_cases hvalid : fdValid st fd
  · exact Or.inr ⟨hvalid, moved_fsLseek h hvalid offset whence⟩
  · unfold fsLseek
    rw [if_neg hvalid]
    exact Or.inl rfl

/-! ## Every call keeps the tables in order -/

theorem DescriptorsOk.nothing (h : DescriptorsOk st) (hn : NothingOpened st st') : DescriptorsOk st' := by
  obtain ⟨-, hfd, hrefs, hfiles, -⟩ := hn
  refine ⟨?_, ?_, ?_, ?_, ?_, hrefs, ?_⟩
  · rw [hfd]
    exact h.range
  · rw [hfd]
    exact h.cleared
  · rw [hfd, hfiles]
    exact h.inUse
  · rw [hfd]
    exact h.injective
  · rw [hfd, hfiles]
    exact h.owned
  · rw [hfiles]
    exact h.offsets

theorem DescriptorsOk.taken (h : DescriptorsOk st) {i : Nat} (ht : FdTaken st flags fd i st') : DescriptorsOk st' := by
  obtain ⟨-, hrange, hfree, ⟨hi, hslot, ⟨r, hfiles⟩, hrefs, -⟩, hfd⟩ := ht
  -- No descriptor stood for the slot before.
  have hnode : ∀ j, (st.fdTable j).valid = true → (st.fdTable j).node ≠ i := by
    intro j hj hji
    have huse := h.inUse j hj
    rw [hji, hslot] at huse
    cases huse
  refine ⟨?_, ?_, ?_, ?_, ?_, hrefs, ?_⟩
  · intro j hj
    by_cases hjfd : j = fd
    · rw [hjfd]
      exact hrange
    · rw [hfd, Function.update_of_ne hjfd] at hj
      exact h.range j hj
  · intro j hj
    by_cases hjfd : j = fd
    · rw [hfd, hjfd, Function.update_self] at hj
      cases hj
    · rw [hfd, Function.update_of_ne hjfd] at hj ⊢
      exact h.cleared j hj
  · intro j hj
    by_cases hjfd : j = fd
    · rw [hfd, hjfd, Function.update_self, hfiles]
      dsimp only
      rw [Function.update_self]
    · rw [hfd, Function.update_of_ne hjfd] at hj ⊢
      rw [hfiles, Function.update_of_ne (hnode j hj)]
      exact h.inUse j hj
  · intro j j' hj hj' hsame
    rw [hfd] at hj hj' hsame
    by_cases hjfd : j = fd
    · by_cases hjfd' : j' = fd
      · rw [hjfd, hjfd']
      · rw [Function.update_of_ne hjfd'] at hj' hsame
        rw [hjfd, Function.update_self] at hsame
        exact absurd hsame.symm (hnode j' hj')
    · rw [Function.update_of_ne hjfd] at hj hsame
      by_cases hjfd' : j' = fd
      · rw [hjfd', Function.update_self] at hsame
        exact absurd hsame (hnode j hj)
      · rw [Function.update_of_ne hjfd'] at hj' hsame
        exact h.injective j j' hj hj' hsame
  · intro k hk
    rw [hfd]
    by_cases hki : k = i
    · exact ⟨fd, by rw [Function.update_self], by rw [Function.update_self, hki]⟩
    · rw [hfiles, Function.update_of_ne hki] at hk
      obtain ⟨j, hj, hjk⟩ := h.owned k hk
      have hjfd : j ≠ fd := by
        rintro rfl
        rw [hfree] at hj
        cases hj
      exact ⟨j, by rw [Function.update_of_ne hjfd]; exact hj, by rw [Function.update_of_ne hjfd]; exact hjk⟩
  · intro k
    rw [hfiles]
    by_cases hki : k = i
    · rw [hki, Function.update_self]
      dsimp only
      split
      · exact load64_lt
      · decide
    · rw [Function.update_of_ne hki]
      exact h.offsets k

theorem DescriptorsOk.freed (h : DescriptorsOk st) (hf : FdFreed st fd st') : DescriptorsOk st' := by
  obtain ⟨-, hvalid, hfd, hfiles, hrefs⟩ := hf
  have hother : ∀ j, (st'.fdTable j).valid = true → j ≠ fd ∧ st'.fdTable j = st.fdTable j := by
    intro j hj
    by_cases hjfd : j = fd
    · rw [hfd, hjfd, Function.update_self] at hj
      cases hj
    · exact ⟨hjfd, by rw [hfd, Function.update_of_ne hjfd]⟩
  refine ⟨?_, ?_, ?_, ?_, ?_, hrefs, ?_⟩
  · intro j hj
    obtain ⟨-, hsame⟩ := hother j hj
    rw [hsame] at hj
    exact h.range j hj
  · intro j hj
    by_cases hjfd : j = fd
    · rw [hfd, hjfd, Function.update_self]
      exact ⟨rfl, rfl⟩
    · rw [hfd, Function.update_of_ne hjfd] at hj ⊢
      exact h.cleared j hj
  · intro j hj
    obtain ⟨hjfd, hsame⟩ := hother j hj
    rw [hsame] at hj ⊢
    rw [hfiles, Function.update_of_ne fun hnode => hjfd (h.injective j fd hj hvalid hnode)]
    exact h.inUse j hj
  · intro j j' hj hj' hnode
    obtain ⟨-, hsame⟩ := hother j hj
    obtain ⟨-, hsame'⟩ := hother j' hj'
    rw [hsame] at hj hnode
    rw [hsame'] at hj' hnode
    exact h.injective j j' hj hj' hnode
  · intro k hk
    by_cases hki : k = (st.fdTable fd).node
    · rw [hfiles, hki, Function.update_self] at hk
      cases hk
    · rw [hfiles, Function.update_of_ne hki] at hk
      obtain ⟨j, hj, hjk⟩ := h.owned k hk
      have hjfd : j ≠ fd := fun hjfd => hki (hjfd ▸ hjk.symm)
      exact ⟨j, by rw [hfd, Function.update_of_ne hjfd]; exact hj, by rw [hfd, Function.update_of_ne hjfd]; exact hjk⟩
  · intro k
    rw [hfiles]
    by_cases hki : k = (st.fdTable fd).node
    · rw [hki, Function.update_self]
      exact h.offsets _
    · rw [Function.update_of_ne hki]
      exact h.offsets k

theorem DescriptorsOk.moved (h : DescriptorsOk st) {offset n : Nat} (hm : FdMoved st fd offset n st') : DescriptorsOk st' := by
  obtain ⟨-, hvalid, hfd, hmoved⟩ := hm
  have hvalids : ∀ j, (st'.fdTable j).valid = (st.fdTable j).valid := by
    intro j
    rw [hfd]
    by_cases hj : j = fd
    · rw [hj, Function.update_self]
    · rw [Function.update_of_ne hj]
  have hnodes : ∀ j, (st'.fdTable j).node = (st.fdTable j).node := by
    intro j
    rw [hfd]
    by_cases hj : j = fd
    · rw [hj, Function.update_self]
    · rw [Function.update_of_ne hj]
  refine ⟨?_, ?_, ?_, ?_, ?_, hmoved.refsOk h.refs, ?_⟩
  · intro j hj
    rw [hvalids] at hj
    exact h.range j hj
  · intro j hj
    rw [hvalids] at hj
    have hjfd : j ≠ fd := by
      rintro rfl
      rw [hvalid] at hj
      cases hj
    rw [hfd, Function.update_of_ne hjfd]
    exact h.cleared j hj
  · intro j hj
    rw [hvalids] at hj
    rw [hnodes, hmoved.inUse]
    exact h.inUse j hj
  · intro j j' hj hj' hsame
    rw [hvalids] at hj hj'
    rw [hnodes, hnodes] at hsame
    exact h.injective j j' hj hj' hsame
  · intro k hk
    rw [hmoved.inUse] at hk
    obtain ⟨j, hj, hjk⟩ := h.owned k hk
    exact ⟨j, (hvalids j).trans hj, (hnodes j).trans hjk⟩
  · intro k
    rw [hmoved.offset]
    split
    · exact Nat.mod_lt _ (by decide)
    · exact h.offsets k

theorem DescriptorsOk.step {op : VfsOp} (h : DescriptorsOk st) (hstep : vfsStep st op = some st') : DescriptorsOk st' := by
  cases op with
  | fsOpen look path flags us ms =>
    obtain ⟨⟨n, st₁⟩, hopen, rfl⟩ := Option.map_eq_some_iff.mp hstep
    rcases fsOpenWith_cases h hopen with ⟨-, hnothing⟩ | ⟨fd, i, -, htaken, -⟩
    · exact h.nothing hnothing
    · exact h.taken htaken
  | fsClose fd =>
    cases hstep
    rcases fsClose_cases h fd with hsame | hfreed
    · rw [hsame]
      exact h
    · exact h.freed hfreed
  | fsRead fd buf count ms =>
    cases hstep
    rcases fsRead_cases h fd buf count ms with hsame | ⟨r, -, -, -, hmoved⟩
    · rw [hsame]
      exact h
    · exact h.moved hmoved
  | fsWrite fd buf count ms =>
    cases hstep
    rcases fsWrite_cases h fd buf count ms with hsame | ⟨-, -, -, hmoved⟩
    · rw [hsame]
      exact h
    · exact h.moved hmoved
  | fsLseek fd offset whence =>
    cases hstep
    rcases fsLseek_cases h fd offset whence with hsame | ⟨-, hmoved⟩
    · rw [hsame]
      exact h
    · exact h.moved hmoved

end

/-! ## Histories -/

/-- The tables are in order: descriptors, slots and references. -/
structure TablesOk (st : Vfs) : Prop where
  range : ∀ fd, (st.fdTable fd).valid = true → 3 ≤ fd ∧ fd < FS_MAX_OPEN
  slot : ∀ fd, (st.fdTable fd).valid = true →
    (st.fdTable fd).node < maxOpen ∧ (st.fs.files (st.fdTable fd).node).inUse = true
  injective : ∀ fd fd', (st.fdTable fd).valid = true → (st.fdTable fd').valid = true →
    (st.fdTable fd).node = (st.fdTable fd').node → fd = fd'
  owned : ∀ i, (st.fs.files i).inUse = true → ∃! fd, (st.fdTable fd).valid = true ∧ (st.fdTable fd).node = i
  cached : ∀ hash r, r ∈ st.fs.inodeCache hash → r < st.fs.inodeCount
  counted : ∀ r, r < st.fs.inodeCount → (st.fs.inodes r).refCount = slotsOf st.fs.files r

/-- A call of `fs_open` that fails leaves the tables as they were; the inodes it has loaded have no
    references. -/
def FailedOpenUndone (st : Vfs) (op : VfsOp) (st' : Vfs) : Prop :=
  match op with
  | .fsOpen look path flags us ms => ∀ n, fsOpenWith look st path flags us ms = some (n, st') → n < 0 →
      st'.fdTable = st.fdTable ∧ st'.fs.files = st.fs.files ∧
        (∀ r, r < st.fs.inodeCount → (st'.fs.inodes r).refCount = (st.fs.inodes r).refCount) ∧
        ∀ r, st.fs.inodeCount ≤ r → r < st'.fs.inodeCount → (st'.fs.inodes r).refCount = 0
  | _ => True

section

variable {st st' : Vfs}

theorem DescriptorsOk.tablesOk (h : DescriptorsOk st) : TablesOk st where
  range := h.range
  slot := fun fd hfd => ⟨(h.refs.slots _ (h.inUse fd hfd)).1, h.inUse fd hfd⟩
  injective := h.injective
  owned := by
    intro i hi
    obtain ⟨fd, hfd, hnode⟩ := h.owned i hi
    exact ⟨fd, ⟨hfd, hnode⟩, fun fd' hfd' => h.injective fd' fd hfd'.1 hfd (hfd'.2.trans hnode.symm)⟩
  cached := h.refs.cached
  counted := by
    intro r hr
    rw [h.refs.refs r hr, List.count_nil, Nat.add_zero]

theorem DescriptorsOk.failedOpen (h : DescriptorsOk st) (op : VfsOp) : FailedOpenUndone st op st' := by
  cases op with
  | fsOpen look path flags us ms =>
    intro n hopen hneg
    rcases fsOpenWith_cases h hopen with ⟨-, hnothing⟩ | ⟨fd, i, rfl, -⟩
    · have hstep := hnothing.step
      refine ⟨hnothing.fdTable, hstep.files, ?_, ?_⟩
      · intro r hr
        have hafter := hstep.refs.refs r (hr.trans_le hstep.grows)
        rw [hstep.files] at hafter
        exact hafter.trans (h.refs.refs r hr).symm
      · intro r hr hr'
        have hafter := hstep.refs.refs r hr'
        rw [hstep.files, h.refs.slotsOf_new hr, List.count_nil] at hafter
        exact hafter
    · exact absurd hneg (by omega)
  | fsClose | fsRead | fsWrite | fsLseek => trivial

/-- No descriptor is valid after `fs_init`, and no slot is in use after `crfs_mount`. -/
theorem descriptorsOk_init {d : Device} {env : Surroundings} {blockInSeg currentSeg uptimeMs : Nat} {fs : Fs}
    (hmount : crfsMount d env blockInSeg currentSeg uptimeMs = some fs) : DescriptorsOk (fsInit fs) := by
  have hm := crfsMount_spec hmount
  have hfree : ∀ i, (fs.files i).inUse = false := fun i => by
    rw [hm.files]
    rfl
  refine ⟨?_, fun fd _ => ⟨rfl, rfl⟩, ?_, ?_, ?_, ?_, ?_⟩
  · intro fd hfd
    cases hfd
  · intro fd hfd
    cases hfd
  · intro fd fd' hfd
    cases hfd
  · intro i hi
    rw [show (fsInit fs).fs = fs from rfl, hfree] at hi
    cases hi
  · refine ⟨?_, ?_, ?_, fun r hr => by cases hr⟩
    · intro r hr
      rw [show (fsInit fs).fs = fs from rfl, hm.inodeCount] at hr
      exact absurd hr (Nat.not_lt_zero r)
    · intro hash r hr
      rw [show (fsInit fs).fs = fs from rfl, hm.inodeCache] at hr
      cases hr
    · intro i hi
      rw [show (fsInit fs).fs = fs from rfl, hfree] at hi
      cases hi
  · intro i
    show (fs.files i).offset < 2 ^ 64
    rw [hm.files]
    exact Nat.two_pow_pos 64

end

/-- **The descriptor tables are in order** after every history of calls, whatever directory lookups
    and `kmalloc` return, and an `fs_open` that fails puts everything back. -/
theorem descriptor_tables {d : Device} {env : Surroundings} {blockInSeg currentSeg uptimeMs : Nat} {fs : Fs}
    (hmount : crfsMount d env blockInSeg currentSeg uptimeMs = some fs) (ops : List VfsOp) :
    Always vfsStep TablesOk (fsInit fs) ops ∧ AlwaysStep vfsStep FailedOpenUndone (fsInit fs) ops := by
  have halways : Always vfsStep DescriptorsOk (fsInit fs) ops :=
    always_of_step (fun st op st' h hstep => h.step hstep) (descriptorsOk_init hmount)
  refine ⟨halways.mono fun st h => h.tablesOk, ?_⟩
  exact alwaysStep_of_always (fun st op st' h _ _ => h.failedOpen op) halways meets_true

/-- A volume with nothing in it, where every lookup finds inode 7. -/
theorem descriptor_tables_mounted :
    Always vfsStep TablesOk (fsInit ((mounted formattedDevice).getD noFs))
        [.fsOpen (fun _ _ _ => some (some 7)) (some [0x61#8]) 0 0 0, .fsClose 3] ∧
      AlwaysStep vfsStep FailedOpenUndone (fsInit ((mounted formattedDevice).getD noFs))
        [.fsOpen (fun _ _ _ => some (some 7)) (some [0x61#8]) 0 0 0, .fsClose 3] := by
  have hmount : crfsMount formattedDevice quiet 0 0 0 = some ((mounted formattedDevice).getD noFs) :=
    eq_some_getD noFs (by decide +kernel)
  exact descriptor_tables hmount _

end Crimson.Vfs
