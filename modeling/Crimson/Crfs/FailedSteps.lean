import Crimson.Crfs.WriteFailure

/-!
# What a failed step leaves

A step of the loop of `crfs_write` that does not succeed may write anywhere: to the address that
was on the stack, or below a table that was never cleared. Where that address is null and what is
handed out next holds zeros (`CleanAhead`) it can do no harm beyond its own block: the map stays in
order (`CellsOk`), the other blocks are what they were, and its own bytes are what they were or are
zero (`ChunkTried`). Later steps do not touch them (`writeLoop_tried`). So the data is missing,
unless it is zero or was there before.
-/

set_option autoImplicit false

namespace Crimson.Crfs

open Crimson.Lib Crimson.Mm

/-- **The map and the blocks in it were handed out before**, and the blocks are off the tables. -/
structure CellsOk (fs : Fs) (r : InodeRef) : Prop where
  cursor : CursorOk fs
  apart : TablesApart fs.bdev.bytes (fs.disk r)
  tables : ∀ t, tableAt fs.bdev.bytes (fs.disk r) t ≠ 0 →
    tableAt fs.bdev.bytes (fs.disk r) t % blockSize = 0 ∧ Behind fs (tableAt fs.bdev.bytes (fs.disk r) t)
  blocks : ∀ b, inodeGetBlock fs r b ≠ 0 → inodeGetBlock fs r b % blockSize = 0 ∧ Behind fs (inodeGetBlock fs r b) ∧
    ∀ t, tableAt fs.bdev.bytes (fs.disk r) t ≠ inodeGetBlock fs r b

/-- Blocks that are not handed out hold zeros, and the address on the stack is null. -/
structure CleanAhead (fs : Fs) : Prop where
  zeros : ∀ x, x % blockSize = 0 → 5 ≤ segOf x → ¬Behind fs x → ∀ y, y < blockSize → fs.bdev.bytes (x + y) = 0
  unset : fs.unset = 0

/-- **What a step does**, whether it succeeds or not. -/
structure ChunkTried (fs : Fs) (r : InodeRef) (c : Chunk) (buf : Mem) (total : Nat) (g : Fs) : Prop where
  ok : CellsOk g r
  clean : CleanAhead g
  others : ∀ i, i / blockSize ≠ c.blockNo → fileByte g.bdev.bytes (g.disk r) i = fileByte fs.bdev.bytes (fs.disk r) i
  lands : ChunkLands fs r c buf total ∨ ∀ i, i / blockSize = c.blockNo →
    fileByte g.bdev.bytes (g.disk r) i = 0 ∨ fileByte g.bdev.bytes (g.disk r) i = fileByte fs.bdev.bytes (fs.disk r) i

/-- The block for the data: a new one, or the address on the stack. It is written. -/
structure DataTried (fs : Fs) (r : InodeRef) (a : Nat) (fs₁ g : Fs) : Prop where
  ok : CellsOk g r
  clean : CleanAhead g
  block : a % blockSize = 0 ∧ a < 2 ^ 64 ∧ (a ≠ 0 → Behind g a ∧ ∀ t, tableAt g.bdev.bytes (g.disk r) t ≠ a)
  get : ∀ b, inodeGetBlock g r b = inodeGetBlock fs r b
  bytes : ∀ y, ¬InBlock a y → g.bdev.bytes y = fs.bdev.bytes y
  off : ∀ b, inodeGetBlock fs r b ≠ 0 → inodeGetBlock fs r b ≠ a
  new : a ≠ 0 → allocBlock fs = some (a, fs₁) ∧ 5 ≤ segOf a ∧ ¬Behind fs a

section

variable {fs fs₁ g : Fs} {r : InodeRef} {c : Chunk} {buf block : Mem} {offset n total a b x y : Nat}

/-- The blocks of a file whose map is a tree. -/
theorem FileOk.cells (h : FileOk fs r) : CellsOk fs r where
  cursor := h.cursor
  apart := h.map.tablesApart
  tables := by
    intro t ht
    obtain ⟨l, hw⟩ := blockWalk_tablePath fs.bdev.bytes (fs.disk r) ht
    exact ⟨h.map.aligned _ _ _ hw, h.behind _ ⟨_, _, hw⟩⟩
  blocks := by
    intro b hb
    rw [inodeGetBlock_eq] at hb ⊢
    have hw := blockWalk_mapAt (mapAt_bound hb) hb
    refine ⟨h.map.aligned _ _ _ hw, h.behind _ ⟨_, _, hw⟩, fun t ht => ?_⟩
    obtain ⟨l, hw'⟩ := blockWalk_tablePath fs.bdev.bytes (fs.disk r) (ht ▸ hb)
    have hpath : tablePath t ≠ blockPath b := by
      intro hp
      rw [hp, hw] at hw'
      cases hw'
    exact h.map.apart _ _ _ _ _ _ hw' hw hpath ht

theorem CellsOk.freshAllocs (h : CellsOk fs r) : FreshAllocs fs r := freshAllocs_of_behind h.cursor h.tables

/-- Two places that blocks begin at share no byte. -/
theorem not_inBlock (hx : x % blockSize = 0) (ha : a % blockSize = 0) (hne : x ≠ a) (hy : y < blockSize) :
    ¬InBlock a (x + y) := by
  have := blocks_apart hx ha hne
  unfold InBlock
  omega

/-- The contents of a block are read where its pointer leads. -/
theorem fileByte_get (fs : Fs) (r : InodeRef) (i : Nat) : fileByte fs.bdev.bytes (fs.disk r) i =
    if inodeGetBlock fs r (i / blockSize) = 0 then 0
    else fs.bdev.bytes (inodeGetBlock fs r (i / blockSize) + i % blockSize) := by
  rw [inodeGetBlock_eq]
  rfl

theorem fileByte_same {i : Nat} (hget : inodeGetBlock g r (i / blockSize) = inodeGetBlock fs r (i / blockSize))
    (hbytes : inodeGetBlock fs r (i / blockSize) ≠ 0 →
      ∀ y, y < blockSize → g.bdev.bytes (inodeGetBlock fs r (i / blockSize) + y) =
        fs.bdev.bytes (inodeGetBlock fs r (i / blockSize) + y)) :
    fileByte g.bdev.bytes (g.disk r) i = fileByte fs.bdev.bytes (fs.disk r) i := by
  rw [fileByte_get, fileByte_get, hget]
  split
  · rfl
  · rename_i hne
    exact hbytes hne _ (Nat.mod_lt _ (by decide))

theorem inodeGetBlock_scratch (hdisk : g.disk r = fs.disk r)
    (hx : ∀ t, tableAt fs.bdev.bytes (fs.disk r) t ≠ 0 → BlocksApart x (tableAt fs.bdev.bytes (fs.disk r) t))
    (hoff : ∀ y, ¬InBlock x y → g.bdev.bytes y = fs.bdev.bytes y) (b : Nat) :
    inodeGetBlock g r b = inodeGetBlock fs r b := by
  have hpointer := pointer_scratch hx hoff
  rw [inodeGetBlock_eq_pointer, inodeGetBlock_eq_pointer, hdisk]
  cases hc : cellOf b with
  | none => rw [Option.map_none, Option.map_none]
  | some c => rw [Option.map_some, Option.map_some, hpointer]

/-- The block for the data is written, whether it was handed out or not. -/
theorem CellsOk.wrote (h : CellsOk fs r) (hclean : CleanAhead fs)
    (hget : (allocBlock fs).getD (fs.unset, fs) = (a, fs₁)) (block : Mem) : DataTried fs r a fs₁ (writeBlock fs₁ a block) := by
  have hsame : fs₁.bdev = fs.bdev ∧ fs₁.disk r = fs.disk r ∧ fs₁.unset = fs.unset := by
    cases halloc : allocBlock fs with
    | none =>
      rw [halloc] at hget
      cases hget
      exact ⟨rfl, rfl, rfl⟩
    | some z =>
      rw [halloc] at hget
      exact allocBlock_bdev (halloc.trans (congrArg some hget))
  obtain ⟨hbdev, hdisk, hunset⟩ := hsame
  have hmoved : CursorOk fs₁ ∧ (∀ x, Behind fs x → Behind fs₁ x) ∧ a % blockSize = 0 ∧ a < 2 ^ 64 ∧
      (a ≠ 0 → ¬Behind fs a ∧ Behind fs₁ a) ∧ (a ≠ 0 → allocBlock fs = some (a, fs₁) ∧ 5 ≤ segOf a) := by
    cases halloc : allocBlock fs with
    | none =>
      rw [halloc, hclean.unset] at hget
      cases hget
      exact ⟨h.cursor, fun _ hx => hx, rfl, by decide, fun hne => absurd rfl hne, fun hne => absurd rfl hne⟩
    | some z =>
      rw [halloc] at hget
      cases hget
      have hone : allocs 1 fs = some ([a], fs₁) := by simp [allocs, halloc]
      have hm := allocs_cursor h.cursor hone
      obtain ⟨-, hlt, haligned⟩ := hm.aligned hone a (by simp)
      exact ⟨hm.ok, hm.keeps, haligned, hlt, fun _ => ⟨hm.ahead a (by simp), hm.behind a (by simp)⟩,
        fun _ => ⟨rfl, hm.data a (by simp)⟩⟩
  obtain ⟨hcursor, hkeeps, haligned, hlt, hnew, halloc⟩ := hmoved
  -- whatever the file has lies behind the cursor, and the block that is written does not
  have hne : ∀ x, x ≠ 0 → Behind fs x → x ≠ a := by
    rintro x hx hbehind rfl
    exact (hnew hx).1 hbehind
  have hoff : ∀ y, ¬InBlock a y → (writeBlock fs₁ a block).bdev.bytes y = fs.bdev.bytes y := by
    intro y hy
    rw [writeBlock_off _ _ _ hy, hbdev]
  have hapart : ∀ t, tableAt fs.bdev.bytes (fs.disk r) t ≠ 0 → BlocksApart a (tableAt fs.bdev.bytes (fs.disk r) t) :=
    fun t ht => blocks_apart haligned (h.tables t ht).1 (hne _ ht (h.tables t ht).2).symm
  have hdisk' : (writeBlock fs₁ a block).disk r = fs.disk r := hdisk
  have htables := tableAt_scratch hapart hoff
  have hgets := inodeGetBlock_scratch hdisk' hapart hoff
  refine ⟨⟨⟨hcursor.fits, hcursor.next, hcursor.cursor⟩, ?_, ?_, ?_⟩, ⟨?_, hunset.trans hclean.unset⟩,
    ⟨haligned, hlt, fun ha => ⟨(hnew ha).2, ?_⟩⟩, hgets, hoff, ?_, fun ha => ⟨(halloc ha).1, (halloc ha).2, (hnew ha).1⟩⟩
  · rw [hdisk']
    exact h.apart.congr htables
  · intro t ht
    rw [hdisk', htables] at ht ⊢
    exact ⟨(h.tables t ht).1, hkeeps _ (h.tables t ht).2⟩
  · intro b hb
    rw [hgets] at hb ⊢
    obtain ⟨hal, hbehind, hts⟩ := h.blocks b hb
    refine ⟨hal, hkeeps _ hbehind, fun t => ?_⟩
    rw [hdisk', htables]
    exact hts t
  · intro x hx hseg hahead y hy
    have hxa : x ≠ a := by
      rintro rfl
      refine hahead (hnew ?_).2
      rintro rfl
      exact absurd hseg (by decide)
    rw [hoff _ (not_inBlock hx haligned hxa hy)]
    exact hclean.zeros x hx hseg (fun hb => hahead (hkeeps x hb)) y hy
  · intro t ht
    rw [hdisk', htables] at ht
    exact hne a ha (ht ▸ (h.tables t (ht.symm ▸ ha)).2) rfl
  · intro b hb
    exact hne _ hb (h.blocks b hb).2.1

/-- The block is set, or is not; what was handed out before is not written, except for tables. -/
theorem DataTried.set {f : Fs} {k : Nat} {new : List Nat} {landing : Prop} {res : Bool × Fs} (h : DataTried fs r a fs₁ g)
    (hall : allocs k g = some (new, f)) (hself : res.2 = res.2.withAlloc f) (htried : SetTried g r b a new landing res) :
    CellsOk res.2 r ∧ CleanAhead res.2 ∧
      ∀ x, x % blockSize = 0 → Behind g x →
        (∀ t, tableAt g.bdev.bytes (g.disk r) t ≠ 0 → tableAt g.bdev.bytes (g.disk r) t ≠ x) →
          ∀ y, y < blockSize → res.2.bdev.bytes (x + y) = g.bdev.bytes (x + y) := by
  have hmoved := allocs_cursor h.ok.cursor hall
  have haligned := hmoved.aligned hall
  have hbehind : ∀ x, Behind f x ↔ Behind res.2 x := by
    intro x
    rw [hself]
    exact Iff.rfl
  have hbytes : ∀ x, x % blockSize = 0 →
      (∀ t, tableAt g.bdev.bytes (g.disk r) t ≠ 0 → tableAt g.bdev.bytes (g.disk r) t ≠ x) → x ∉ new →
        ∀ y, y < blockSize → res.2.bdev.bytes (x + y) = g.bdev.bytes (x + y) := by
    intro x hx htables hnew y hy
    refine htried.bytes _ (fun t ht => ?_) fun z hz => ?_
    · exact not_inBlock hx (h.ok.tables t ht).1 (htables t ht).symm hy
    · exact not_inBlock hx (haligned z hz).2.2 (fun hxz => hnew (hxz ▸ hz)) hy
  have hat : ∀ t, tableAt res.2.bdev.bytes (res.2.disk r) t ≠ 0 →
      tableAt res.2.bdev.bytes (res.2.disk r) t = tableAt g.bdev.bytes (g.disk r) t ∨
        tableAt res.2.bdev.bytes (res.2.disk r) t ∈ new :=
    fun t _ => (htried.tables t).imp_right And.right
  have hblock : ∀ b', inodeGetBlock res.2 r b' ≠ 0 →
      inodeGetBlock res.2 r b' % blockSize = 0 ∧ Behind g (inodeGetBlock res.2 r b') ∧
      ∀ t, tableAt g.bdev.bytes (g.disk r) t ≠ inodeGetBlock res.2 r b' := by
    intro b' hb'
    by_cases hset : inodeGetBlock res.2 r b' = inodeGetBlock g r b'
    · rw [hset] at hb' ⊢
      exact h.ok.blocks b' hb'
    · -- only the block that was set can have changed
      have hbb : b' = b := by
        by_contra hne
        exact hset (htried.others b' hne)
      subst hbb
      rcases htried.outcome with ⟨-, -, hset'⟩ | ⟨hkept, -⟩
      · rw [hset'] at hb' ⊢
        exact ⟨h.block.1, h.block.2.2 hb'⟩
      · exact absurd hkept hset
  refine ⟨⟨?_, htried.apart, fun t ht => ?_, fun b' hb' => ?_⟩,
    ⟨fun x hx hseg hahead y hy => ?_, htried.unset.trans h.clean.unset⟩, ?_⟩
  · rw [hself]
    exact ⟨hmoved.ok.fits, hmoved.ok.next, hmoved.ok.cursor⟩
  · rcases hat t ht with hsame | hin
    · rw [hsame] at ht ⊢
      exact ⟨(h.ok.tables t ht).1, (hbehind _).mp (hmoved.keeps _ (h.ok.tables t ht).2)⟩
    · exact ⟨(haligned _ hin).2.2, (hbehind _).mp (hmoved.behind _ hin)⟩
  · obtain ⟨hal, hb, htables⟩ := hblock b' hb'
    refine ⟨hal, (hbehind _).mp (hmoved.keeps _ hb), fun t ht => ?_⟩
    rcases hat t (ht ▸ hb') with hsame | hin
    · exact htables t (hsame ▸ ht)
    · exact hmoved.ahead _ hin (ht ▸ hb)
  · have hg : ¬Behind g x := fun hb => hahead ((hbehind x).mp (hmoved.keeps x hb))
    have hnew : x ∉ new := fun hin => hahead ((hbehind x).mp (hmoved.behind x hin))
    rw [hbytes x hx (fun t ht hxt => hg (hxt ▸ (h.ok.tables t ht).2)) hnew y hy]
    exact h.clean.zeros x hx hseg hg y hy
  · intro x hx hb htables
    exact hbytes x hx htables fun hin => hmoved.ahead x hin hb

/-- What was replaced is freed: the map is left alone. -/
theorem CellsOk.freed (h : CellsOk g r) (hclean : CleanAhead g) (old : Nat) :
    CellsOk (freeOld g old) r ∧ CleanAhead (freeOld g old) := by
  obtain ⟨hbdev, hinodes, -⟩ := freeOld_alloc g old
  obtain ⟨hnext, hcur, hin, htotal, -⟩ := @freeOld_cursor g old
  have hunset : (freeOld g old).unset = g.unset := by
    unfold freeOld
    split <;> rfl
  generalize freeOld g old = g' at hbdev hinodes hnext hcur hin htotal hunset ⊢
  have hdisk : g'.disk r = g.disk r := by
    unfold Fs.disk
    rw [hinodes]
  have hbehind : ∀ x, Behind g' x ↔ Behind g x := by
    intro x
    unfold Behind
    rw [hnext, hcur, hin]
  have hget : ∀ b, inodeGetBlock g' r b = inodeGetBlock g r b := by
    intro b
    rw [inodeGetBlock_eq, inodeGetBlock_eq, hbdev, hdisk]
  refine ⟨⟨⟨?_, ?_, ?_⟩, ?_, ?_, ?_⟩, ⟨?_, hunset.trans hclean.unset⟩⟩
  · rw [htotal]
    exact h.cursor.fits
  · rw [hnext]
    exact h.cursor.next
  · rw [hnext, hcur, htotal]
    exact h.cursor.cursor
  · rw [hbdev, hdisk]
    exact h.apart
  · intro t
    rw [hbdev, hdisk, hbehind]
    exact h.tables t
  · intro b
    rw [hbdev, hdisk, hbehind, hget]
    exact h.blocks b
  · intro x
    rw [hbdev, hbehind]
    exact hclean.zeros x

/-- **One step of the loop of `crfs_write`**, whatever fails. -/
theorem CellsOk.chunk (h : CellsOk fs r) (hclean : CleanAhead fs) (c : Chunk) (buf : Mem) (total : Nat) :
    ChunkTried fs r c buf total (writeChunk fs r c buf total) := by
  obtain ⟨a, fs₁, hnew⟩ : ∃ a fs₁, (allocBlock fs).getD (fs.unset, fs) = (a, fs₁) := ⟨_, _, rfl⟩
  have hdata := h.wrote hclean hnew (chunkBuf fs r c buf total)
  have hresult : writeChunk fs r c buf total =
      freeOld (inodeSetBlock (writeBlock fs₁ a (chunkBuf fs r c buf total)) r c.blockNo a).2
        (inodeGetBlock fs r c.blockNo) := by
    unfold writeChunk
    rw [hnew]
    rfl
  have hland : a ≠ 0 → Lands fs₁.bdev a (chunkBuf fs r c buf total) ∨
      ∀ y, y < blockSize → (writeBlock fs₁ a (chunkBuf fs r c buf total)).bdev.bytes (a + y) = 0 := by
    intro ha
    obtain ⟨halloc, hseg, hahead⟩ := hdata.new ha
    refine (lands_or_same fs₁ a _).imp_right fun hsame y hy => ?_
    rw [hsame, (allocBlock_bdev (r := r) halloc).1]
    exact hclean.zeros a hdata.block.1 hseg hahead y hy
  have hlands : a ≠ 0 → Lands fs₁.bdev a (chunkBuf fs r c buf total) →
      SetLands (writeBlock fs₁ a (chunkBuf fs r c buf total)) r c.blockNo a → ChunkLands fs r c buf total :=
    fun ha hl hs => ⟨a, fs₁, (hdata.new ha).1, hl, hs⟩
  generalize writeBlock fs₁ a (chunkBuf fs r c buf total) = g at hdata hresult hland hlands
  obtain ⟨k, new, f, -, hall, hself, htried, -⟩ := @setTries g r a c.blockNo hdata.ok.apart hdata.ok.freshAllocs
    (fun k new f _ hall x hx w _ y hy => by
      have hmoved := allocs_cursor hdata.ok.cursor hall
      exact hdata.clean.zeros x (hmoved.aligned hall x hx).2.2 (hmoved.data x hx) (hmoved.ahead x hx) y hy) hdata.block.2.1
  obtain ⟨hok, hclean', hbytes⟩ := hdata.set hall hself htried
  generalize (inodeSetBlock g r c.blockNo a) = res at hresult htried hok hclean' hbytes
  obtain ⟨hbdev, hinodes, -⟩ := freeOld_alloc res.2 (inodeGetBlock fs r c.blockNo)
  obtain ⟨hok', hclean''⟩ := hok.freed hclean' (inodeGetBlock fs r c.blockNo)
  rw [← hresult] at hbdev hinodes hok' hclean''
  generalize writeChunk fs r c buf total = fs' at hbdev hinodes hok' hclean''
  have hdisk : fs'.disk r = res.2.disk r := by
    unfold Fs.disk
    rw [hinodes]
  -- The blocks that the map had are what they were.
  have hkept : ∀ i, inodeGetBlock res.2 r (i / blockSize) = inodeGetBlock g r (i / blockSize) →
      fileByte fs'.bdev.bytes (fs'.disk r) i = fileByte fs.bdev.bytes (fs.disk r) i := by
    intro i hi
    rw [hbdev, hdisk]
    refine fileByte_same (hi.trans (hdata.get _)) fun hne y hy => ?_
    have hin := hdata.ok.blocks (i / blockSize)
    rw [hdata.get] at hin
    obtain ⟨hal, hbehind, htables⟩ := hin hne
    rw [hbytes _ hal hbehind (fun t _ => htables t) y hy]
    exact hdata.bytes _ (not_inBlock hal hdata.block.1 (hdata.off _ hne) hy)
  refine ⟨hok', hclean'', fun i hi => hkept i (htried.others _ hi), ?_⟩
  rcases htried.outcome with ⟨-, hset, hget⟩ | ⟨hget, -⟩
  · by_cases ha : a = 0
    · refine Or.inr fun i hi => Or.inl ?_
      rw [hbdev, hdisk, fileByte_get, hi, hget, if_pos ha]
    · rcases hland ha with hl | hzero
      · exact Or.inl (hlands ha hl hset)
      · refine Or.inr fun i hi => Or.inl ?_
        have hlt : i % blockSize < blockSize := Nat.mod_lt _ (by decide)
        obtain ⟨hbehind, htables⟩ := hdata.block.2.2 ha
        rw [hbdev, hdisk, fileByte_get, hi, hget, if_neg ha, hbytes a hdata.block.1 hbehind (fun t _ => htables t) _ hlt]
        exact hzero _ hlt
  · refine Or.inr fun i hi => Or.inr (hkept i ?_)
    rw [hi]
    exact hget

/-- Blocks of the file that are not written are what they were. -/
theorem CellsOk.loop (hfit : offset + n ≤ mapBlocks * blockSize) {fuel : Nat} (h : CellsOk fs r)
    (hclean : CleanAhead fs) {i : Nat} (hi : ∀ k, total ≤ k → k < n → i / blockSize ≠ (offset + k) / blockSize) :
    fileByte (writeLoop r buf offset n fuel total fs).bdev.bytes ((writeLoop r buf offset n fuel total fs).disk r) i =
      fileByte fs.bdev.bytes (fs.disk r) i := by
  induction fuel generalizing fs total with
  | zero => rfl
  | succ fuel ih =>
    rw [writeLoop]
    by_cases ht : total < n
    · have hchunk := h.chunk hclean (chunkAt offset n total) buf total
      obtain ⟨-, hlen⟩ := chunkAt_lt hfit ht
      have hblock := (chunkAt_block hfit ht le_rfl ht).mpr (Nat.lt_add_of_pos_right hlen)
      rw [if_pos ht]
      refine (ih hchunk.ok hchunk.clean fun k hk => hi k (by omega)).trans (hchunk.others i ?_)
      rw [← hblock]
      exact hi total le_rfl ht
    · rw [if_neg ht]

/-- **The loop of `crfs_write`**, whatever fails: every step succeeds, or there is a byte of the
    data that is zero in the file or what it was. -/
theorem writeLoop_tried (hfit : offset + n ≤ mapBlocks * blockSize) {fuel : Nat} (hfuel : n ≤ total + fuel)
    (h : CellsOk fs r) (hclean : CleanAhead fs) : WriteLands r buf offset n fuel total fs ∨ ∃ k, total ≤ k ∧ k < n ∧
      (fileByte (writeLoop r buf offset n fuel total fs).bdev.bytes
          ((writeLoop r buf offset n fuel total fs).disk r) (offset + k) = 0 ∨
        fileByte (writeLoop r buf offset n fuel total fs).bdev.bytes
          ((writeLoop r buf offset n fuel total fs).disk r) (offset + k) = fileByte fs.bdev.bytes (fs.disk r) (offset + k)) := by
  induction fuel generalizing fs total with
  | zero => exact Or.inl trivial
  | succ fuel ih =>
    by_cases ht : total < n
    · have hchunk := h.chunk hclean (chunkAt offset n total) buf total
      obtain ⟨-, hlen⟩ := chunkAt_lt hfit ht
      have hblock := fun k => @chunkAt_block offset n total hfit ht k
      have hfirst := (hblock total le_rfl ht).mpr (Nat.lt_add_of_pos_right hlen)
      rw [writeLoop, if_pos ht]
      dsimp only
      rcases hchunk.lands with hland | hlost
      · have hfuel' : n ≤ total + (chunkAt offset n total).len + fuel := by omega
        rcases ih hfuel' hchunk.ok hchunk.clean with hrest | ⟨k, hk, hkn, hbyte⟩
        · exact Or.inl fun _ => ⟨hland, hrest⟩
        · refine Or.inr ⟨k, by omega, hkn, hbyte.imp_right fun hsame => hsame.trans (hchunk.others _ fun heq => ?_)⟩
          have := (hblock k (by omega) hkn).mp heq
          omega
      · -- The rest of the loop leaves this block alone.
        refine Or.inr ⟨total, le_rfl, ht, ?_⟩
        rw [CellsOk.loop hfit hchunk.ok hchunk.clean fun k hk hkn heq => ?_]
        · exact hlost _ hfirst
        · rw [hfirst] at heq
          have := (hblock k (by omega) hkn).mp heq.symm
          omega
    · exact Or.inl fun h => absurd h ht

end

end Crimson.Crfs
