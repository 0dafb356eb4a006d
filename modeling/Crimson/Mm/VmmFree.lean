import Crimson.Mm.VmmCopy

/-!
# Freeing an address space (`vmm_free_all`)

The walk frees what is under a table before the table itself, and reads a table's next
entry after it has freed what was under the last one. That is sound because `pmm_free`
writes to the bitmap only: the walk's calls of `pmm_free` are the pages of the tree it
started on, one call a path, in the order of `pathsBelow`.

Each function returns the addresses it calls `pmm_free` with beside the state.
-/

set_option autoImplicit false

namespace Crimson.Mm

open Crimson.Lib

/-! ## The functions -/

/-- The loop over a table, at any level: `sub` frees what is under an entry, and then the
    entry's page is freed. -/
def freeEntries (sub : Nat → MmState → List Nat × MmState) (table : Nat) :
    List (Fin 512) → MmState → List Nat × MmState
  | [], s => ([], s)
  | i :: is, s =>
    if entry s.mem table i &&& ptValid = 0#64 then freeEntries sub table is s
    else
      let next := tableOf (entry s.mem table i)
      let (under, s) := sub next s
      let (rest, s) := freeEntries sub table is (pmmFree s next)
      (under ++ next :: rest, s)

/-- The nested loops: four under the directory, one under a PTE table, whose pages are freed
    with nothing under them. -/
def freeLevel : Nat → Nat → MmState → List Nat × MmState
  | 0, _, s => ([], s)
  | n + 1, table, s => freeEntries (freeLevel n) table (List.finRange 512) s

def vmmFreeAll (s : MmState) (pgd : Nat) : List Nat × MmState :=
  if pgd = 0 then ([], s)
  else
    let (freed, s) := freeLevel 4 pgd s
    (freed ++ [pgd], pmmFree s pgd)

/-! ## What is freed -/

/-- The paths of at most `n` indices, what is under an entry before the entry. -/
def pathsBelow : Nat → List (List (Fin 512))
  | 0 => []
  | n + 1 => (List.finRange 512).flatMap fun i => (pathsBelow n).map (i :: ·) ++ [[i]]

theorem mem_pathsBelow {n : Nat} {p : List (Fin 512)} : p ∈ pathsBelow n ↔ p ≠ [] ∧ p.length ≤ n := by
  induction n generalizing p with
  | zero => simp [pathsBelow]
  | succ n ih =>
    simp only [pathsBelow, List.mem_flatMap, List.mem_append, List.mem_map, List.mem_singleton,
      List.mem_finRange, true_and, ih]
    constructor
    · rintro ⟨i, ⟨q, ⟨-, hq⟩, rfl⟩ | rfl⟩
      · exact ⟨by simp, by simpa using hq⟩
      · exact ⟨by simp, by simp⟩
    · rintro ⟨hne, hlen⟩
      cases p with
      | nil => exact absurd rfl hne
      | cons i q =>
        refine ⟨i, ?_⟩
        by_cases hq : q = []
        · exact Or.inr (by rw [hq])
        · exact Or.inl ⟨q, ⟨hq, by simpa using hlen⟩, rfl⟩

theorem nodup_pathsBelow (n : Nat) : (pathsBelow n).Nodup := by
  induction n with
  | zero => exact List.nodup_nil
  | succ n ih =>
    rw [pathsBelow, List.nodup_flatMap]
    constructor
    · intro i _
      refine List.nodup_append.mpr ⟨ih.map fun _ _ h => (List.cons.inj h).2, List.nodup_singleton _, ?_⟩
      intro p hp q hq hpq
      obtain ⟨r, hr, rfl⟩ := List.mem_map.mp hp
      rw [List.mem_singleton.mp hq] at hpq
      exact (mem_pathsBelow.mp hr).1 (List.cons.inj hpq).2
    · -- Paths under different entries begin differently.
      refine (List.nodup_finRange 512).imp ?_
      intro i j hij p hp hp'
      have hhead : ∀ k, p ∈ (pathsBelow n).map (k :: ·) ++ [[k]] → p.head? = some k := by
        intro k hk
        rcases List.mem_append.mp hk with hk | hk
        · obtain ⟨r, -, rfl⟩ := List.mem_map.mp hk
          rfl
        · rw [List.mem_singleton.mp hk]
          rfl
      have hi := hhead i hp
      rw [hhead j hp'] at hi
      exact hij (Option.some.inj hi).symm

section Free

variable {s s' : MmState} {table n : Nat}

/-- The tables within `n` steps of a table are off the bitmap. -/
def OffBitmap (s : MmState) (table n : Nat) : Prop :=
  ∀ q a, q.length < n → frameAt s.mem table q = some a →
    s.pageBitmap + s.bitmapBytes ≤ a ∨ a + 4096 ≤ s.pageBitmap

/-- Writing to the bitmap changes no walk. -/
theorem OffBitmap.frameAt_eq (h : OffBitmap s table n) (hs : SameButBitmap s s') {q : List (Fin 512)}
    (hq : q.length ≤ n) : frameAt s'.mem table q = frameAt s.mem table q := by
  refine walk_congr fun p i hp a ha => entry_congr ?_
  have hle := hp.length_le
  rw [List.length_append, List.length_singleton] at hle
  have hoff := h p a (by omega) ha
  exact fun x hx hx' => hs.mem x (by omega)

theorem OffBitmap.same (h : OffBitmap s table n) (hs : SameButBitmap s s') : OffBitmap s' table n := by
  intro q a hq ha
  rw [h.frameAt_eq hs (by omega)] at ha
  rw [hs.pageBitmap, hs.bitmapBytes]
  exact h q a hq ha

theorem OffBitmap.under (h : OffBitmap s table (n + 1)) {i : Fin 512} {a : Nat}
    (hi : linkOf (entry s.mem table i) = some a) : OffBitmap s a n := by
  intro q b hq hb
  refine h (i :: q) b (by simpa using hq) ?_
  rw [frameAt, walk, hi, Option.bind_some]
  exact hb

theorem sameButBitmap_pmmFree (s : MmState) (a : Nat) : SameButBitmap s (pmmFree s a) := by
  rcases pmmFree_cases s a with ⟨he, _⟩ | ⟨_, hgave⟩
  · rw [he]
    exact SameButBitmap.refl s
  · exact hgave.same

/-- What a loop or a nest of loops over the tree in `s` frees: the pages at the paths `ps`. -/
structure Frees (s : MmState) (table : Nat) (ps : List (List (Fin 512))) (res : List Nat × MmState) :
    Prop where
  freed : res.1 = ps.filterMap (frameAt s.mem table)
  same : SameButBitmap s res.2

/-- **The loop over one table.** -/
theorem frees_freeEntries {sub : Nat → MmState → List Nat × MmState} {is : List (Fin 512)}
    {ps : List (List (Fin 512))} (hps : ∀ p ∈ ps, p.length ≤ n)
    (hsub : ∀ a s', OffBitmap s' a n → Frees s' a ps (sub a s')) (h : OffBitmap s table (n + 1)) :
    Frees s table (is.flatMap fun i => ps.map (i :: ·) ++ [[i]]) (freeEntries sub table is s) := by
  induction is generalizing s with
  | nil => exact ⟨rfl, SameButBitmap.refl s⟩
  | cons i is ih =>
    have hunder : ∀ q, frameAt s.mem table (i :: q) =
        (linkOf (entry s.mem table i)).bind fun a => frameAt s.mem a q := fun _ => rfl
    unfold freeEntries
    by_cases hvalid : entry s.mem table i &&& ptValid = 0#64
    · rw [if_pos hvalid]
      obtain ⟨hfreed, hsame⟩ := ih h
      refine ⟨?_, hsame⟩
      have hnone : (ps.map (i :: ·) ++ [[i]]).filterMap (frameAt s.mem table) = [] := by
        refine List.filterMap_eq_nil_iff.mpr fun q hq => ?_
        rcases List.mem_append.mp hq with hq | hq
        · obtain ⟨r, -, rfl⟩ := List.mem_map.mp hq
          rw [hunder, linkOf_eq_none.mpr hvalid, Option.bind_none]
        · rw [List.mem_singleton.mp hq, hunder, linkOf_eq_none.mpr hvalid, Option.bind_none]
      rw [hfreed, List.flatMap_cons, List.filterMap_append, hnone, List.nil_append]
    · have hlink : linkOf (entry s.mem table i) = some (tableOf (entry s.mem table i)) := by
        rw [linkOf, if_neg hvalid]
      rw [if_neg hvalid]
      generalize tableOf (entry s.mem table i) = next at hlink
      obtain ⟨hfreed₁, hsame₁⟩ := hsub next s (h.under hlink)
      have hsame₂ := hsame₁.trans (sameButBitmap_pmmFree (sub next s).2 next)
      obtain ⟨hfreed₂, hsame₃⟩ := ih (h.same hsame₂)
      refine ⟨?_, hsame₂.trans hsame₃⟩
      -- The rest of the loop reads the tree as it was.
      have hrest : (is.flatMap fun i => ps.map (i :: ·) ++ [[i]]).filterMap
            (frameAt (pmmFree (sub next s).2 next).mem table) =
          (is.flatMap fun i => ps.map (i :: ·) ++ [[i]]).filterMap (frameAt s.mem table) := by
        refine List.filterMap_congr fun q hq => h.frameAt_eq hsame₂ ?_
        obtain ⟨j, -, hq⟩ := List.mem_flatMap.mp hq
        rcases List.mem_append.mp hq with hq | hq
        · obtain ⟨r, hr, rfl⟩ := List.mem_map.mp hq
          simpa using hps r hr
        · rw [List.mem_singleton.mp hq]
          simp
      have hhead : (ps.map (i :: ·) ++ [[i]]).filterMap (frameAt s.mem table) =
          ps.filterMap (frameAt s.mem next) ++ [next] := by
        have hone : frameAt s.mem table [i] = some next := by rw [hunder, hlink, Option.bind_some, frameAt_nil]
        have hunder' : ∀ q ∈ ps, (frameAt s.mem table ∘ (i :: ·)) q = frameAt s.mem next q := by
          intro q _
          rw [Function.comp_apply, hunder, hlink, Option.bind_some]
        rw [List.filterMap_append, List.filterMap_map, List.filterMap_congr hunder']
        simp only [List.filterMap_cons, hone, List.filterMap_nil]
      dsimp only
      rw [List.flatMap_cons, List.filterMap_append, hhead, ← hrest, ← hfreed₂, hfreed₁, List.append_assoc,
        List.singleton_append]

/-- **Every level** frees the pages under its table. -/
theorem frees_freeLevel (h : OffBitmap s table n) : Frees s table (pathsBelow n) (freeLevel n table s) := by
  induction n generalizing table s with
  | zero => exact ⟨rfl, SameButBitmap.refl s⟩
  | succ n ih => exact frees_freeEntries (fun p hp => (mem_pathsBelow.mp hp).2) (fun _ _ h' => ih h') h

theorem vmmFreeAll_freed (hpgd : table ≠ 0) (h : OffBitmap s table 4) :
    (vmmFreeAll s table).1 = (pathsBelow 4).filterMap (frameAt s.mem table) ++ [table] := by
  unfold vmmFreeAll
  rw [if_neg hpgd]
  dsimp only
  rw [(frees_freeLevel h).freed]

/-! ## Cleaning up after `fork` -/

/-- The list of a partial copy's pages: each page taken since `s₀` once. -/
theorem Copying.nodup_pages {s₀ : MmState} {dst src : Nat} (h : Copying s₀ dst src s) :
    ((pathsBelow 4).filterMap (frameAt s.mem dst)).Nodup := by
  rw [List.Nodup, List.pairwise_filterMap]
  refine (nodup_pathsBelow 4).imp_of_mem ?_
  intro p q hp hq hne a ha b hb hab
  subst hab
  exact hne (h.once p q a (mem_pathsBelow.mp hp).2 (mem_pathsBelow.mp hq).2 ha hb)

theorem Copying.mem_pages {s₀ : MmState} {dst src a : Nat} (h : Copying s₀ dst src s) :
    a ∈ (pathsBelow 4).filterMap (frameAt s.mem dst) ↔ HeldPage s₀ s a := by
  rw [List.mem_filterMap]
  constructor
  · rintro ⟨q, hq, ha⟩
    obtain ⟨hne, hlen⟩ := mem_pathsBelow.mp hq
    exact h.held q a hne hlen ha
  · rintro ⟨idx, hidx, rfl, hclear, hset⟩
    obtain ⟨q, hne, hlen, ha⟩ := h.all idx hidx hset hclear
    exact ⟨q, mem_pathsBelow.mpr ⟨hne, hlen⟩, ha⟩

/-- **Cleaning up after `fork` frees every page of the copy once**, wherever the copy
    stopped. A page that `vmm_copy_page_tables` allocated is one that was free before the call
    and is not after it. -/
theorem vmmFreeAll_copied {s₀ : MmState} {dst src : Nat} (hr : PmmReady s₀ dst) (hs : SrcApart s₀ dst src)
    (hclear : ∀ i : Fin 512, entry s₀.mem dst i &&& ptValid = 0#64) (hdst : dst ≠ 0) :
    (∀ a, a = dst ∨ HeldPage s₀ (vmmCopyPageTables s₀ dst src).2 a →
        (vmmFreeAll (vmmCopyPageTables s₀ dst src).2 dst).1.count a = 1) ∧
      (∀ a ∈ (vmmFreeAll (vmmCopyPageTables s₀ dst src).2 dst).1,
        a = dst ∨ HeldPage s₀ (vmmCopyPageTables s₀ dst src).2 a) ∧
      ∀ q c, q.length ≤ 4 → frameAt s₀.mem src q = some c →
        c ∉ (vmmFreeAll (vmmCopyPageTables s₀ dst src).2 dst).1 := by
  obtain ⟨h, -⟩ := copying_vmmCopyPageTables hr hs hclear
  generalize (vmmCopyPageTables s₀ dst src).2 = t at h ⊢
  have hoff : OffBitmap t dst 4 := by
    intro q a hq ha
    rw [h.range.pageBitmap, h.range.bitmapBytes]
    exact h.off hr (by omega) ha
  rw [vmmFreeAll_freed hdst hoff]
  have hmem : ∀ a, a ∈ (pathsBelow 4).filterMap (frameAt t.mem dst) ++ [dst] ↔ a = dst ∨ HeldPage s₀ t a := by
    intro a
    rw [List.mem_append, h.mem_pages, List.mem_singleton, or_comm]
  have hnodup : ((pathsBelow 4).filterMap (frameAt t.mem dst) ++ [dst]).Nodup := by
    refine List.nodup_append.mpr ⟨h.nodup_pages, List.nodup_singleton _, ?_⟩
    intro a ha b hb hab
    -- The directory was not a free page.
    obtain ⟨idx, hidx, hpage, -, hset⟩ := h.mem_pages.mp ha
    have hapart := hr.dir idx hidx hset
    rw [List.mem_singleton.mp hb] at hab
    unfold PagesApart at hapart
    omega
  refine ⟨fun a ha => ?_, fun a ha => (hmem a).mp ha, fun q c hq hc hfreed => ?_⟩
  · exact List.count_eq_one_of_mem hnodup ((hmem a).mpr ha)
  · rcases (hmem c).mp hfreed with rfl | ⟨idx, hidx, rfl, -, hset⟩
    · have hapart := hs.dst q c hq hc
      unfold PagesApart at hapart
      omega
    · have hapart := hs.free q _ hq hc idx hidx hset
      unfold PagesApart at hapart
      omega

theorem vmmFreeAll_copied_oneMapping :
    (vmmFreeAll (vmmCopyPageTables oneMapping 0x6000 0x1000).2 0x6000).1.count 0x6000 = 1 ∧
      0x5000 ∉ (vmmFreeAll (vmmCopyPageTables oneMapping 0x6000 0x1000).2 0x6000).1 := by
  obtain ⟨hcount, -, hsrc⟩ := vmmFreeAll_copied oneMapping_ready oneMapping_srcApart oneMapping_cleared (by decide)
  exact ⟨hcount _ (Or.inl rfl), hsrc [511, 511, 511, 511] _ (by decide) (by decide +kernel)⟩

end Free

end Crimson.Mm
