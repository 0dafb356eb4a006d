import Crimson.Lib.Memory

/-!
# The ELF loader (`pkg_exec.c`)

`elf_load_segments` goes through the program headers of a file in memory, and for each
`PT_LOAD` maps pages, copies the part that is in the file and clears the rest. Every offset is
a 64-bit sum, and the product of two 16-bit fields an `int`; both may wrap.

`image` is the memory from `file_data` on, by the offset: the file, and what stands behind it.
Nothing that is written is taken to lie in it. `pmmAllocPage k` is what the `k`-th call of
`pmm_alloc_page` returns, and `vmm_map_page` is taken to map the page that contains the
address.
-/

set_option autoImplicit false

namespace Crimson.Pkg

open Crimson.Lib

def elfMagic : BitVec 32 := 0x464C457F
def etExec : BitVec 16 := 2
def etDyn : BitVec 16 := 3
def emAarch64 : BitVec 16 := 183
def ptLoad : BitVec 32 := 1
def pfX : BitVec 32 := 1
def pfW : BitVec 32 := 2

def vmmFlagUser : BitVec 64 := 1 <<< 0
def vmmFlagWrite : BitVec 64 := 1 <<< 1
def vmmFlagNx : BitVec 64 := 1 <<< 2

abbrev Image := BitVec 64 → BitVec 8

/-- The field of `n` bytes at an offset. -/
def Image.field (image : Image) (off : BitVec 64) (n : Nat) : BitVec (8 * n) :=
  BitVec.ofNat (8 * n) (loadBytes (fun i => image (off + BitVec.ofNat 64 i)) 0 n)

/-- `elf64_header_t`, the fields that are used. -/
structure Elf64Header where
  eMagic : BitVec 32
  eClass : BitVec 8
  eData : BitVec 8
  eType : BitVec 16
  eMachine : BitVec 16
  eEntry : BitVec 64
  ePhoff : BitVec 64
  ePhentsize : BitVec 16
  ePhnum : BitVec 16
deriving DecidableEq

def elfHeader (image : Image) : Elf64Header where
  eMagic := image.field 0 4
  eClass := image.field 4 1
  eData := image.field 5 1
  eType := image.field 16 2
  eMachine := image.field 18 2
  eEntry := image.field 24 8
  ePhoff := image.field 32 8
  ePhentsize := image.field 54 2
  ePhnum := image.field 56 2

/-- `elf64_phdr_t`, the fields that are used. -/
structure Elf64Phdr where
  pType : BitVec 32
  pFlags : BitVec 32
  pOffset : BitVec 64
  pVaddr : BitVec 64
  pFilesz : BitVec 64
  pMemsz : BitVec 64
deriving DecidableEq

/-- `sizeof(elf64_phdr_t)`. -/
def phdrSize : Nat := 56

def phdrAt (image : Image) (off : BitVec 64) : Elf64Phdr where
  pType := image.field off 4
  pFlags := image.field (off + 4) 4
  pOffset := image.field (off + 8) 8
  pVaddr := image.field (off + 16) 8
  pFilesz := image.field (off + 32) 8
  pMemsz := image.field (off + 40) 8

/-- The product of two `uint16_t`, an `int`, in a 64-bit sum. -/
def intProduct (a b : BitVec 16) : BitVec 64 := (a.setWidth 32 * b.setWidth 32).signExtend 64

/-- True is 0, false is -1. -/
def elfValidate (hdr : Elf64Header) (fileSize : BitVec 64) : Bool :=
  hdr.eMagic = elfMagic ∧ hdr.eClass = 2 ∧ hdr.eData = 1 ∧ hdr.eMachine = emAarch64 ∧
    (hdr.eType = etExec ∨ hdr.eType = etDyn) ∧ hdr.ePhoff + intProduct hdr.ePhnum hdr.ePhentsize ≤ fileSize

/-- What the loader does to the address space. -/
inductive LoadEvent where
  | map (vaddr page flags : BitVec 64)
  | copy (dest src n : BitVec 64)
  | zero (dest n : BitVec 64)
deriving DecidableEq

def pageFlags (ph : Elf64Phdr) : BitVec 64 :=
  let flags := vmmFlagUser
  let flags := if ph.pFlags &&& pfW ≠ 0 then flags ||| vmmFlagWrite else flags
  if ph.pFlags &&& pfX = 0 then flags ||| vmmFlagNx else flags

def numPages (ph : Elf64Phdr) : BitVec 64 := (ph.pMemsz + 4095) / 4096

/-- The loop over the pages, with `n` of them to go from the `pg`-th on: whether there was memory
    for them, and what was mapped. `k` pages have been allocated before. -/
def mapPages (pmmAllocPage : Nat → BitVec 64) (ph : Elf64Phdr) : Nat → Nat → Nat → Bool × List LoadEvent
  | 0, _, _ => (true, [])
  | n + 1, pg, k =>
    let page := pmmAllocPage k
    if page = 0 then (false, [])
    else
      let rest := mapPages pmmAllocPage ph n (pg + 1) (k + 1)
      (rest.1, .map (ph.pVaddr + BitVec.ofNat 64 pg * 4096) page (pageFlags ph) :: rest.2)

/-- The copy and the clearing. -/
def fillSegment (ph : Elf64Phdr) : List LoadEvent :=
  (if 0 < ph.pFilesz then [.copy ph.pVaddr ph.pOffset ph.pFilesz] else []) ++
    if ph.pFilesz < ph.pMemsz then [.zero (ph.pVaddr + ph.pFilesz) (ph.pMemsz - ph.pFilesz)] else []

/-- What was done for one header. -/
structure SegmentLoad where
  ph : Elf64Phdr
  events : List LoadEvent
deriving DecidableEq

/-- One `PT_LOAD`. -/
def loadSegment (pmmAllocPage : Nat → BitVec 64) (fileSize : BitVec 64) (ph : Elf64Phdr) (k : Nat) :
    Bool × List LoadEvent :=
  if fileSize < ph.pOffset + ph.pFilesz then (false, [])
  else
    let mapped := mapPages pmmAllocPage ph (numPages ph).toNat 0 k
    if mapped.1 then (true, mapped.2 ++ fillSegment ph) else mapped

/-- The offset of the `i`-th program header, as the loader computes it. -/
def phdrOffset (hdr : Elf64Header) (i : BitVec 16) : BitVec 64 := hdr.ePhoff + intProduct i hdr.ePhentsize

/-- The loop over the program headers, with `n` of them to go. -/
def loadLoop (image : Image) (fileSize : BitVec 64) (pmmAllocPage : Nat → BitVec 64) (hdr : Elf64Header) :
    Nat → Nat → Nat → Bool × List SegmentLoad
  | 0, _, _ => (true, [])
  | n + 1, i, k =>
    let ph := phdrAt image (phdrOffset hdr (BitVec.ofNat 16 i))
    if ph.pType ≠ ptLoad then loadLoop image fileSize pmmAllocPage hdr n (i + 1) k
    else
      let r := loadSegment pmmAllocPage fileSize ph k
      if r.1 then
        let rest := loadLoop image fileSize pmmAllocPage hdr n (i + 1) (k + (numPages ph).toNat)
        (rest.1, ⟨ph, r.2⟩ :: rest.2)
      else (false, [⟨ph, r.2⟩])

/-- True is 0, false is -1; the entry point if it is set; and what was done. -/
def elfLoadSegments (image : Image) (fileSize : BitVec 64) (pmmAllocPage : Nat → BitVec 64) :
    Bool × Option (BitVec 64) × List SegmentLoad :=
  let hdr := elfHeader image
  if elfValidate hdr fileSize then
    let r := loadLoop image fileSize pmmAllocPage hdr hdr.ePhnum.toNat 0 0
    (r.1, some hdr.eEntry, r.2)
  else (false, none, [])

end Crimson.Pkg
