import Crimson.Mm.Pmm
import Crimson.Str.Memcpy

/-!
# The kernel heap (`mm.c`)

`kmalloc` keeps its blocks on a singly linked list threaded through the memory it hands
out: every block starts with a 24-byte `heap_block_t` (`size` at offset 0, `used` at 8,
`magic` at 12, `next` at 16), and `heap_start` points at the first. An allocation takes
the first free block that is large enough, splitting it when the rest can hold a block of
its own; when there is none the heap asks the page allocator for more, puts the new pages
at the *front* of the list, and tries again. `kfree` merges the freed block with its list
successor when that is free.

A walk of the list that does not end has no result: the loops carry a fuel of `2 ^ 64`
steps, more than there are addresses, so running out means that the list is cyclic, and
the functions then return `none`.
-/

set_option autoImplicit false

namespace Crimson.Mm

open Crimson.Lib

def heapMagic : Nat := 0xCE150007

/-! ## The header of the block at an address -/

def hdrSize (m : Mem) (block : Nat) : Nat := load64 m block
def hdrUsed (m : Mem) (block : Nat) : Nat := load32 m (block + 8)
def hdrMagic (m : Mem) (block : Nat) : Nat := load32 m (block + 12)
def hdrNext (m : Mem) (block : Nat) : Nat := load64 m (block + 16)

def setSize (m : Mem) (block v : Nat) : Mem := store64 m block v
def setUsed (m : Mem) (block v : Nat) : Mem := store32 m (block + 8) v
def setMagic (m : Mem) (block v : Nat) : Mem := store32 m (block + 12) v
def setNext (m : Mem) (block v : Nat) : Mem := store64 m (block + 16) v

/-! ## The functions -/

def kmallocInit (s : MmState) (heapStart heapEnd : Nat) : MmState :=
  let heapSize := sub64 heapEnd heapStart
  let m := setSize s.mem heapStart (sub64 heapSize 24)
  let m := setUsed m heapStart 0
  let m := setNext m heapStart 0
  let m := setMagic m heapStart heapMagic
  { s with mem := m, heapStart := heapStart, heapSize := heapSize }

/-- How the list walk of `kmalloc` ends. -/
inductive Search where
  | found (block : Nat)
  | corrupt (block : Nat)
  | exhausted
deriving DecidableEq, Repr

/-- The walk for a free block of at least `size` bytes. -/
def firstFit (m : Mem) (size : Nat) : Nat → Nat → Option Search
  | 0, _ => none
  | fuel + 1, current =>
    if current = 0 then some .exhausted
    else if hdrMagic m current ≠ heapMagic then some (.corrupt current)
    else if hdrUsed m current = 0 ∧ size ≤ hdrSize m current then some (.found current)
    else firstFit m size fuel (hdrNext m current)

/-- Take the block found, splitting it if it is large enough. -/
def carve (m : Mem) (current size : Nat) : Mem :=
  let m :=
    if (size + 24 + 16) % 2 ^ 64 ≤ hdrSize m current then
      let newBlock := (current + 24 + size) % 2 ^ 64
      let m := setSize m newBlock (sub64 (sub64 (hdrSize m current) size) 24)
      let m := setUsed m newBlock 0
      let m := setNext m newBlock (hdrNext m current)
      let m := setMagic m newBlock heapMagic
      let m := setSize m current size
      setNext m current newBlock
    else m
  setUsed m current 1

/-- `ALIGN_UP(size + sizeof(heap_block_t), PAGE_SIZE) / PAGE_SIZE`. -/
def pagesNeeded (size : Nat) : Nat := alignUp ((size + 24) % 2 ^ 64) 4096 / 4096

/-- Add new pages to the front of the heap. -/
def growHeap (s : MmState) (newPages pages : Nat) : MmState :=
  let m := setSize s.mem newPages (sub64 (pages * 4096 % 2 ^ 64) 24)
  let m := setUsed m newPages 0
  let m := setMagic m newPages heapMagic
  let m := setNext m newPages s.heapStart
  { s with mem := m, heapStart := newPages }

/-- `kmalloc`, at most `fuel` calls deep. -/
def kmallocRec : Nat → MmState → Nat → Option (Nat × MmState)
  | 0, _, _ => none
  | fuel + 1, s, size =>
    if size = 0 then some (0, s)
    else
      let size := alignUp size 16
      match firstFit s.mem size (2 ^ 64) s.heapStart with
      | none => none
      | some (.corrupt _) => some (0, s)
      | some (.found current) =>
        some ((current + 24) % 2 ^ 64, { s with mem := carve s.mem current size })
      | some .exhausted =>
        let pages := pagesNeeded size
        let (newPages, s) := pmmAllocN s pages
        if newPages = 0 then some (0, s)
        else kmallocRec fuel (growHeap s newPages pages) size

def kmalloc (s : MmState) (size : Nat) : Option (Nat × MmState) := kmallocRec (2 ^ 64) s size

def kfree (s : MmState) (ptr : Nat) : MmState :=
  if ptr = 0 then s
  else
    let block := sub64 ptr 24
    if hdrMagic s.mem block ≠ heapMagic then s
    else if hdrUsed s.mem block = 0 then s
    else
      let m := setUsed s.mem block 0
      if hdrNext m block ≠ 0 ∧ hdrUsed m (hdrNext m block) = 0 then
        let next := hdrNext m block
        let m := setSize m block ((hdrSize m block + (24 + hdrSize m next)) % 2 ^ 64)
        { s with mem := setNext m block (hdrNext m next) }
      else { s with mem := m }

def kcalloc (s : MmState) (nmemb size : Nat) : Option (Nat × MmState) :=
  let total := nmemb * size % 2 ^ 64
  match kmalloc s total with
  | none => none
  | some (p, s) => some (p, if p ≠ 0 then { s with mem := fillBytes s.mem p total 0 } else s)

def krealloc (s : MmState) (ptr newSize : Nat) : Option (Nat × MmState) :=
  if ptr = 0 then kmalloc s newSize
  else if newSize = 0 then some (0, kfree s ptr)
  else
    let block := sub64 ptr 24
    if newSize ≤ hdrSize s.mem block then some (ptr, s)
    else
      match kmalloc s newSize with
      | none => none
      | some (newPtr, s) =>
        if newPtr ≠ 0 then
          let s := { s with mem := (Str.memcpy s.mem newPtr ptr (hdrSize s.mem block)).2 }
          some (newPtr, kfree s ptr)
        else some (newPtr, s)

end Crimson.Mm
