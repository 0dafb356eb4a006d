import Crimson.Lib.Radix
import Crimson.Mm.Pmm

/-!
# Page tables (`mm.c`, `vmm_stub.c`)

Four levels of tables of 512 eight-byte entries, 4 KB pages, in identity-mapped memory: an
entry's address bits are the address of the next table. `vmm_map` makes the tables that
are missing on its way, each from a page of `pmm_alloc`, and returns -1 when there is none
to be had; `vmm_unmap` (the strong definition, `vmm_stub.c`'s) clears the last entry and
frees nothing. TLB maintenance has no effect on memory and is not modelled.
-/

set_option autoImplicit false

namespace Crimson.Mm

open Crimson.Lib

abbrev ptValid : BitVec 64 := 1#64
abbrev ptTable : BitVec 64 := 2#64
abbrev ptAf : BitVec 64 := 1024#64
abbrev ptAddrMask : BitVec 64 := 0x0000FFFFFFFFF000#64

/-! ## The functions -/

/-- `table[idx]`. -/
def entry (m : Mem) (table idx : Nat) : BitVec 64 := BitVec.ofNat 64 (load64 m (table + 8 * idx))

def setEntry (m : Mem) (table idx : Nat) (e : BitVec 64) : Mem := store64 m (table + 8 * idx) e.toNat

def pgdIdx (vaddr : BitVec 64) : Nat := (vaddr >>> 39 &&& 0x1FF#64).toNat
def pudIdx (vaddr : BitVec 64) : Nat := (vaddr >>> 30 &&& 0x1FF#64).toNat
def pmdIdx (vaddr : BitVec 64) : Nat := (vaddr >>> 21 &&& 0x1FF#64).toNat
def pteIdx (vaddr : BitVec 64) : Nat := (vaddr >>> 12 &&& 0x1FF#64).toNat

/-- The table an entry points at. -/
def tableOf (e : BitVec 64) : Nat := (e &&& ptAddrMask).toNat

def vmmInit (m : Mem) (pgd : Nat) : Mem := if pgd = 0 then m else fillBytes m pgd 4096 0

/-- One level of the descent of `vmm_map`: the table under an entry, made if there is none. -/
def nextTable (s : MmState) (table idx : Nat) : Option Nat × MmState :=
  if entry s.mem table idx &&& ptValid = 0#64 then
    let (newTable, s) := pmmAlloc s
    if newTable = 0 then (none, s)
    else
      let m := fillBytes s.mem newTable 4096 0
      let m := setEntry m table idx (BitVec.ofNat 64 newTable ||| ptTable ||| ptValid)
      (some (tableOf (entry m table idx)), { s with mem := m })
  else (some (tableOf (entry s.mem table idx)), s)

def vmmMap (s : MmState) (pgd : Nat) (vaddr paddr : BitVec 64) (flags : BitVec 32) : Int × MmState :=
  if pgd = 0 then (-1, s)
  else
    match nextTable s pgd (pgdIdx vaddr) with
    | (none, s) => (-1, s)
    | (some pud, s) =>
      match nextTable s pud (pudIdx vaddr) with
      | (none, s) => (-1, s)
      | (some pmd, s) =>
        match nextTable s pmd (pmdIdx vaddr) with
        | (none, s) => (-1, s)
        | (some pte, s) =>
          let e := (paddr &&& ptAddrMask) ||| flags.setWidth 64 ||| ptValid ||| ptAf
          (0, { s with mem := setEntry s.mem pte (pteIdx vaddr) e })

def vmmUnmap (m : Mem) (pgd : Nat) (vaddr : BitVec 64) : Mem :=
  if pgd = 0 then m
  else
    let pgdE := entry m pgd (pgdIdx vaddr)
    if pgdE &&& ptValid = 0#64 then m
    else
      let pudE := entry m (tableOf pgdE) (pudIdx vaddr)
      if pudE &&& ptValid = 0#64 then m
      else
        let pmdE := entry m (tableOf pudE) (pmdIdx vaddr)
        if pmdE &&& ptValid = 0#64 then m
        else setEntry m (tableOf pmdE) (pteIdx vaddr) 0#64

def vmmGetPhys (m : Mem) (pgd : Nat) (vaddr : BitVec 64) : BitVec 64 :=
  if pgd = 0 then 0#64
  else
    let pgdE := entry m pgd (pgdIdx vaddr)
    if pgdE &&& ptValid = 0#64 then 0#64
    else
      let pudE := entry m (tableOf pgdE) (pudIdx vaddr)
      if pudE &&& ptValid = 0#64 then 0#64
      else
        let pmdE := entry m (tableOf pudE) (pmdIdx vaddr)
        if pmdE &&& ptValid = 0#64 then 0#64
        else
          let pteE := entry m (tableOf pmdE) (pteIdx vaddr)
          if pteE &&& ptValid = 0#64 then 0#64
          else (pteE &&& ptAddrMask) ||| (vaddr &&& 0xFFF#64)

/-! ## The bits of an entry -/

/-- An entry as a link: nowhere, or to its address bits. -/
def linkOf (e : BitVec 64) : Option Nat := if e &&& ptValid = 0#64 then none else some (tableOf e)

theorem linkOf_zero : linkOf 0#64 = none := by decide

theorem linkOf_eq_none {e : BitVec 64} : linkOf e = none ↔ e &&& ptValid = 0#64 := by
  unfold linkOf
  split <;> simp_all

theorem linkOf_eq_some {e : BitVec 64} {a : Nat} : linkOf e = some a ↔ e &&& ptValid ≠ 0#64 ∧ tableOf e = a := by
  unfold linkOf
  split <;> simp_all

theorem getLsbD_ptAddrMask {i : Nat} (hi : i < 64) :
    ptAddrMask.getLsbD i = decide (12 ≤ i ∧ i < 48) := by
  revert i
  decide

theorem tableOf_lt {e : BitVec 64} : tableOf e < 2 ^ 48 := by
  rw [tableOf, BitVec.toNat_and]
  exact Nat.lt_of_le_of_lt Nat.and_le_right (by decide)

/-- The mask keeps an aligned 48-bit address. -/
theorem and_ptAddrMask {a : BitVec 64} (hlt : a.toNat < 2 ^ 48) (halign : a.toNat % 2 ^ 12 = 0) :
    a &&& ptAddrMask = a := by
  refine BitVec.eq_of_getLsbD_eq fun i hi => ?_
  rw [BitVec.getLsbD_and, getLsbD_ptAddrMask hi]
  by_cases hin : 12 ≤ i ∧ i < 48
  · rw [decide_eq_true hin, Bool.and_true]
  · rw [decide_eq_false hin, Bool.and_false, BitVec.getLsbD]
    by_cases hlow : i < 12
    · have hmod : (a.toNat % 2 ^ 12).testBit i = a.toNat.testBit i := by
        rw [Nat.testBit_mod_two_pow, decide_eq_true hlow, Bool.true_and]
      rw [← hmod, halign, Nat.zero_testBit]
    · have hpow : a.toNat < 2 ^ i := lt_of_lt_of_le hlt (Nat.pow_le_pow_right (by omega) (by omega))
      exact (Nat.testBit_lt_two_pow hpow).symm

/-- An address with attribute bits, the valid bit among them, is a link to the address. -/
theorem linkOf_or {a x : BitVec 64} (hlt : a.toNat < 2 ^ 48) (halign : a.toNat % 2 ^ 12 = 0)
    (hattr : x &&& ptAddrMask = 0#64) (hvalid : x &&& ptValid = ptValid) :
    linkOf (a ||| x) = some a.toNat := by
  have haddr : tableOf (a ||| x) = a.toNat := by
    rw [tableOf, BitVec.and_or_distrib_right, hattr, BitVec.or_zero, and_ptAddrMask hlt halign]
  have hset : (a ||| x) &&& ptValid ≠ 0#64 := by
    rw [BitVec.and_or_distrib_right, hvalid]
    intro h
    have hbit := congrArg (BitVec.getLsbD · 0) h
    simp at hbit
  rw [linkOf, if_neg hset, haddr]

theorem toNat_ofNat_page {page : Nat} (hlt : page < 2 ^ 48) : (BitVec.ofNat 64 page).toNat = page := by
  rw [BitVec.toNat_ofNat]
  exact Nat.mod_eq_of_lt (hlt.trans (by decide))

/-- A page with attributes. -/
theorem linkOf_page_or {page : Nat} {x : BitVec 64} (hlt : page < 2 ^ 48) (halign : page % 2 ^ 12 = 0)
    (hattr : x &&& ptAddrMask = 0#64) (hvalid : x &&& ptValid = ptValid) :
    linkOf (BitVec.ofNat 64 page ||| x) = some page := by
  have hto := toNat_ofNat_page hlt
  have hlink := linkOf_or (a := BitVec.ofNat 64 page) (by rwa [hto]) (by rwa [hto]) hattr hvalid
  rwa [hto] at hlink

/-- The entry `vmm_map` makes for a new table. -/
theorem linkOf_newTable {table : Nat} (hlt : table < 2 ^ 48) (halign : table % 2 ^ 12 = 0) :
    linkOf (BitVec.ofNat 64 table ||| ptTable ||| ptValid) = some table := by
  rw [BitVec.or_assoc]
  exact linkOf_page_or hlt halign (by decide) (by decide)

/-- The entry `vmm_map` makes for a page. -/
theorem linkOf_newPage {paddr : BitVec 64} {flags : BitVec 32} (hlt : paddr.toNat < 2 ^ 48)
    (halign : paddr.toNat % 2 ^ 12 = 0) (hflags : flags.setWidth 64 &&& ptAddrMask = 0#64) :
    linkOf ((paddr &&& ptAddrMask) ||| flags.setWidth 64 ||| ptValid ||| ptAf) = some paddr.toNat := by
  have hattr : (flags.setWidth 64 ||| ptValid ||| ptAf) &&& ptAddrMask = 0#64 := by
    rw [BitVec.and_or_distrib_right, BitVec.and_or_distrib_right, hflags]
    decide
  have hvalid : (flags.setWidth 64 ||| ptValid ||| ptAf) &&& ptValid = ptValid := by
    have hconst : ptAf &&& ptValid = 0#64 := by decide
    rw [BitVec.and_or_distrib_right, BitVec.and_or_distrib_right, hconst, BitVec.or_zero,
      BitVec.and_self]
    refine BitVec.eq_of_getLsbD_eq fun i hi => ?_
    rw [BitVec.getLsbD_or, BitVec.getLsbD_and]
    cases ptValid.getLsbD i <;> simp
  have hassoc : paddr ||| flags.setWidth 64 ||| ptValid ||| ptAf =
      paddr ||| (flags.setWidth 64 ||| ptValid ||| ptAf) := by ac_rfl
  rw [and_ptAddrMask hlt halign, hassoc]
  exact linkOf_or hlt halign hattr hvalid

/-- The physical address put together from a frame and an offset. -/
theorem toNat_frame_or_offset (e vaddr : BitVec 64) :
    ((e &&& ptAddrMask) ||| (vaddr &&& 0xFFF#64)).toNat = tableOf e + vaddr.toNat % 4096 := by
  have hdisj : (e &&& ptAddrMask) &&& (vaddr &&& 0xFFF#64) = 0#64 := by
    have hmasks : ptAddrMask &&& 0xFFF#64 = 0#64 := by decide
    calc (e &&& ptAddrMask) &&& (vaddr &&& 0xFFF#64)
        = (e &&& vaddr) &&& (ptAddrMask &&& 0xFFF#64) := by ac_rfl
      _ = 0#64 := by rw [hmasks, BitVec.and_zero]
  have hoff : (vaddr &&& 0xFFF#64).toNat = vaddr.toNat % 4096 := by
    rw [BitVec.toNat_and]
    exact Nat.and_two_pow_sub_one_eq_mod _ 12
  have hlt : tableOf e < 2 ^ 48 := tableOf_lt
  rw [← BitVec.add_eq_or_of_and_eq_zero _ _ hdisj, BitVec.toNat_add, hoff, ← tableOf]
  omega

/-! ## Indices -/

theorem idx_eq (vaddr : BitVec 64) (k : Nat) :
    (vaddr >>> k &&& 0x1FF#64).toNat = vaddr.toNat / 2 ^ k % 512 := by
  rw [BitVec.toNat_and, BitVec.toNat_ushiftRight, Nat.shiftRight_eq_div_pow]
  exact Nat.and_two_pow_sub_one_eq_mod _ 9

theorem idx_lt {vaddr : BitVec 64} {k : Nat} : (vaddr >>> k &&& 0x1FF#64).toNat < 512 := by
  rw [idx_eq]
  exact Nat.mod_lt _ (by omega)

/-- The indices of the three tables above the last. -/
def dirPath (vaddr : BitVec 64) : List (Fin 512) :=
  [⟨pgdIdx vaddr, idx_lt⟩, ⟨pudIdx vaddr, idx_lt⟩, ⟨pmdIdx vaddr, idx_lt⟩]

/-- All four indices. -/
def pagePath (vaddr : BitVec 64) : List (Fin 512) := dirPath vaddr ++ [⟨pteIdx vaddr, idx_lt⟩]

/-- The indices are the page number. -/
theorem pagePath_eq_iff {v w : BitVec 64} (hv : v.toNat < 2 ^ 48) (hw : w.toNat < 2 ^ 48) :
    pagePath v = pagePath w ↔ v.toNat / 4096 = w.toNat / 4096 := by
  simp only [pagePath, dirPath, List.cons_append, List.nil_append, List.cons.injEq, Fin.mk.injEq,
    and_true, pgdIdx, pudIdx, pmdIdx, pteIdx, idx_eq]
  omega

/-! ## Walks -/

/-- Where the indices lead from the directory: to a table, or after four of them to a
    frame. -/
def frameAt (m : Mem) (pgd : Nat) (p : List (Fin 512)) : Option Nat :=
  walk linkOf (fun table (i : Fin 512) => entry m table i) pgd p

theorem frameAt_nil (m : Mem) (pgd : Nat) : frameAt m pgd [] = some pgd := rfl

theorem frameAt_snoc (m : Mem) (pgd : Nat) (p : List (Fin 512)) (i : Fin 512) :
    frameAt m pgd (p ++ [i]) = (frameAt m pgd p).bind fun table => linkOf (entry m table i) :=
  walk_snoc

/-- **`vmm_get_phys` is the walk of length four.** -/
theorem vmmGetPhys_eq {m : Mem} {pgd : Nat} (hpgd : pgd ≠ 0) (vaddr : BitVec 64) :
    (vmmGetPhys m pgd vaddr).toNat =
      match frameAt m pgd (pagePath vaddr) with
      | some frame => frame + vaddr.toNat % 4096
      | none => 0 := by
  unfold vmmGetPhys frameAt pagePath dirPath
  simp only [if_neg hpgd, List.cons_append, List.nil_append, walk, linkOf]
  split
  · rfl
  simp only [Option.bind_some]
  split
  · rfl
  simp only [Option.bind_some]
  split
  · rfl
  simp only [Option.bind_some]
  split
  · rfl
  exact toNat_frame_or_offset _ _

end Crimson.Mm
