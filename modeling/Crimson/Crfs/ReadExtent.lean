import Crimson.Crfs.Live
import Crimson.Crfs.ReadAfterWrite

/-!
# How much `crfs_read` reads, and from where

Without any bound on the file, the offset or the count. The loop fills the buffer with what
the map holds at the positions modulo `2 ^ 44`, since the number of the block is cut to 32 bits
(`readLoop_seen`), and it fills `count` bytes of it (`readLoop_rest`). The count is cut to what is
left of the file unless the sum `offset + count` wraps around to a number within the file.

**`crfsRead_exact_iff`** says when that is what the caller expects.
-/

set_option autoImplicit false

namespace Crimson.Crfs

open Crimson.Lib Crimson.Mm

/-- The descriptor is open on the file. -/
structure OpenOn (fs : Fs) (fd : Int) (r : InodeRef) : Prop where
  slot : 0 ≤ fd ∧ fd < maxOpen
  inUse : (fs.files fd.toNat).inUse = true
  inode : (fs.files fd.toNat).inode = some r

/-- The bytes that are to be read. -/
def bytesLeft (size offset count : Nat) : Nat := min count (size - offset)

/-- **An exact read**: so many bytes are returned and put into the buffer, those of the file, and
    the offset is moved by as many. -/
structure ReadExact (fs : Fs) (fd : Int) (r : InodeRef) (buf : Mem) (count : Nat) (res : Int × Mem × Fs) : Prop where
  returned : res.1 = bytesLeft (diskSize (fs.disk r)) (fs.files fd.toNat).offset count
  read : ∀ i, i < bytesLeft (diskSize (fs.disk r)) (fs.files fd.toNat).offset count →
    res.2.1 i = fileByte fs.bdev.bytes (fs.disk r) ((fs.files fd.toNat).offset + i)
  rest : ∀ i, bytesLeft (diskSize (fs.disk r)) (fs.files fd.toNat).offset count ≤ i → res.2.1 i = buf i
  moved : (res.2.2.files fd.toNat).offset =
    (fs.files fd.toNat).offset + bytesLeft (diskSize (fs.disk r)) (fs.files fd.toNat).offset count

/-- The sum of offset and count does not wrap around into the file. -/
def NoWrap (size offset count : Nat) : Prop := offset + count < 2 ^ 64 ∨ size < offset + count - 2 ^ 64

instance (size offset count : Nat) : Decidable (NoWrap size offset count) := inferInstanceAs (Decidable (_ ∨ _))

/-- Where a read is exact: there is nothing to read; or the sum does not wrap around, the number
    of bytes is an `int64_t`, and where a position is out of reach of 32-bit block numbers the
    map holds nothing at the position that is read instead. -/
def ReadFits (m d : Mem) (size offset count : Nat) : Prop :=
  size ≤ offset ∨
    (NoWrap size offset count ∧ bytesLeft size offset count < 2 ^ 63 ∧
      ∀ p, offset ≤ p → p < offset + bytesLeft size offset count → 2 ^ 44 ≤ p → fileByte m d (p % 2 ^ 44) = 0)

section

variable {fs : Fs} {fd : Int} {r : InodeRef} {m d buf : Mem} {size offset count fuel total : Nat}

/-! ## The loop -/

/-- The position modulo `2 ^ 44` has the block number that is left of it, and the same place in
    the block. -/
theorem seen_block (p : Nat) : p % 2 ^ 44 / blockSize = p % 2 ^ 64 / blockSize % 2 ^ 32 := by
  unfold blockSize
  omega

theorem seen_place (p : Nat) : p % 2 ^ 44 % blockSize = p % 2 ^ 64 % blockSize := by
  unfold blockSize
  omega

/-- The step of the loop stays in its block. -/
theorem chunkAt_len (ht : total < count) :
    0 < (chunkAt offset count total).len ∧
      (offset + total) % 2 ^ 64 % blockSize + (chunkAt offset count total).len ≤ blockSize ∧
      total + (chunkAt offset count total).len ≤ count := by
  have hoff : (offset + total) % 2 ^ 64 % blockSize < blockSize := Nat.mod_lt _ (by decide)
  unfold chunkAt
  dsimp only
  omega

/-- What the step reads at `k` is what the map holds at the position modulo `2 ^ 44`. -/
theorem chunkAt_seen {k : Nat} (ht : total < count) (hk : total ≤ k)
    (hk' : k < total + (chunkAt offset count total).len) :
    (offset + k) % 2 ^ 44 / blockSize = (chunkAt offset count total).blockNo ∧
      (offset + k) % 2 ^ 44 % blockSize = (chunkAt offset count total).blockOff + (k - total) := by
  obtain ⟨-, hin, -⟩ := @chunkAt_len offset count total ht
  have hno : (chunkAt offset count total).blockNo = (offset + total) % 2 ^ 64 / blockSize % 2 ^ 32 := rfl
  have hoff : (chunkAt offset count total).blockOff = (offset + total) % 2 ^ 64 % blockSize := rfl
  rw [hno, hoff, seen_block, seen_place]
  generalize (chunkAt offset count total).len = len at hin hk'
  unfold blockSize at *
  constructor
  · omega
  · omega

/-- **The loop of `crfs_read`** fills the buffer with what the map holds modulo `2 ^ 44`. -/
theorem readLoop_seen (hfuel : count ≤ total + fuel)
    (hdone : ∀ k, k < total → k < count → buf k = fileByte fs.bdev.bytes (fs.disk r) ((offset + k) % 2 ^ 44)) :
    ∀ k, k < count →
      readLoop fs r offset count fuel total buf k = fileByte fs.bdev.bytes (fs.disk r) ((offset + k) % 2 ^ 44) := by
  induction fuel generalizing total buf with
  | zero =>
    intro k hk
    exact hdone k (by omega) hk
  | succ fuel ih =>
    rw [readLoop]
    by_cases ht : total < count
    · rw [if_pos ht]
      obtain ⟨hpos, hin, -⟩ := @chunkAt_len offset count total ht
      refine ih (by omega) ?_
      intro k hk hkc
      rw [inodeGetBlock_eq]
      by_cases hkt : k < total
      · rw [← hdone k hkt hkc]
        split
        · exact fillBytes_of_notMem (Or.inl hkt)
        · exact copyBytes_of_notMem (Or.inl hkt)
      · -- The byte is in the block of this step.
        obtain ⟨hblock, hplace⟩ := chunkAt_seen ht (Nat.le_of_not_lt hkt) hk
        rw [fileByte, hblock, hplace]
        split
        · exact if_pos ⟨Nat.le_of_not_lt hkt, hk⟩
        · rw [copyBytes_of_mem (Nat.le_of_not_lt hkt) hk]
          refine (copyBytes_of_mem (Nat.zero_le _) ?_).trans rfl
          have hoff : (chunkAt offset count total).blockOff = (offset + total) % 2 ^ 64 % blockSize := rfl
          omega
    · rw [if_neg ht]
      intro k hk
      exact hdone k (by omega) hk

/-- From the start, for as many steps as there are bytes. -/
theorem readLoop_all (fs : Fs) (r : InodeRef) (offset : Nat) {count k : Nat} (buf : Mem) (hk : k < count) :
    readLoop fs r offset count count 0 buf k = fileByte fs.bdev.bytes (fs.disk r) ((offset + k) % 2 ^ 44) := by
  apply readLoop_seen
  · rw [Nat.zero_add]
  · intro j hj
    exact absurd hj (Nat.not_lt_zero j)
  · exact hk

/-- And nothing else of the buffer. -/
theorem readLoop_rest {k : Nat} (hk : count ≤ k) : readLoop fs r offset count fuel total buf k = buf k := by
  induction fuel generalizing total buf with
  | zero => rfl
  | succ fuel ih =>
    rw [readLoop]
    by_cases ht : total < count
    · rw [if_pos ht]
      obtain ⟨-, -, hin⟩ := @chunkAt_len offset count total ht
      rw [ih]
      split
      · exact fillBytes_of_notMem (Or.inr (by omega))
      · exact copyBytes_of_notMem (Or.inr (by omega))
    · rw [if_neg ht]

/-- The map holds nothing beyond its end. -/
theorem fileByte_beyond {p : Nat} (hp : 2 ^ 44 ≤ p) : fileByte m d p = 0 := by
  have hend : ¬p / blockSize < mapBlocks := by
    have hsmall : mapBlocks * blockSize ≤ 2 ^ 44 := by decide
    intro hlt
    have hle : p / blockSize * blockSize + blockSize ≤ mapBlocks * blockSize := by
      rw [← Nat.succ_mul]
      exact Nat.mul_le_mul_right _ hlt
    have hmod : p % blockSize < blockSize := Nat.mod_lt _ (by decide)
    have hsum := Nat.div_add_mod' p blockSize
    omega
  have hnull : mapAt m d (p / blockSize) = 0 := by
    by_contra hne
    exact hend (mapAt_bound hne)
  rw [fileByte, if_pos hnull]

theorem fileByte_seen_iff (p : Nat) :
    fileByte m d (p % 2 ^ 44) = fileByte m d p ↔ (2 ^ 44 ≤ p → fileByte m d (p % 2 ^ 44) = 0) := by
  by_cases hp : 2 ^ 44 ≤ p
  · rw [fileByte_beyond hp]
    exact ⟨fun h _ => h, fun h => h hp⟩
  · rw [Nat.mod_eq_of_lt (Nat.lt_of_not_le hp)]
    exact ⟨fun _ h => absurd h hp, fun _ => rfl⟩

/-! ## The count -/

/-- The count after `crfs_read` has compared the sum with the size. -/
def clipped (size offset count : Nat) : Nat := if size < (offset + count) % 2 ^ 64 then size - offset else count

theorem clipped_eq_iff (hsize : size < 2 ^ 64) (hoff : offset < size) (hcount : count < 2 ^ 64) :
    clipped size offset count = bytesLeft size offset count ↔ NoWrap size offset count := by
  unfold clipped bytesLeft NoWrap
  by_cases hwrap : offset + count < 2 ^ 64
  · rw [Nat.mod_eq_of_lt hwrap]
    split
    · omega
    · omega
  · have hmod : (offset + count) % 2 ^ 64 = offset + count - 2 ^ 64 := by omega
    rw [hmod]
    split
    · omega
    · omega

theorem clipped_lt (hsize : size < 2 ^ 64) (hcount : count < 2 ^ 64) : clipped size offset count < 2 ^ 64 := by
  unfold clipped
  split
  · omega
  · exact hcount

theorem asInt64_eq_iff {n k : Nat} (hn : n < 2 ^ 64) : asInt64 n = k ↔ n = k ∧ n < 2 ^ 63 := by
  unfold asInt64
  constructor
  · intro h
    rw [Int.bmod_def] at h
    split at h
    · omega
    · omega
  · rintro ⟨rfl, hlt⟩
    exact asInt64_of_lt hlt

/-! ## The call -/

theorem OpenOn.read_none (h : OpenOn fs fd r) (hend : diskSize (fs.disk r) ≤ (fs.files fd.toNat).offset)
    (buf : Mem) (count uptimeMs : Nat) : crfsRead fs fd buf count uptimeMs = (0, buf, fs) := by
  have hslot := h.slot
  rw [crfsRead, if_neg (by omega)]
  dsimp only
  rw [h.inUse, h.inode]
  dsimp only
  rw [if_pos hend]

theorem OpenOn.read_some (h : OpenOn fs fd r) (hsome : ¬diskSize (fs.disk r) ≤ (fs.files fd.toNat).offset)
    (buf : Mem) (count uptimeMs : Nat) :
    let offset := (fs.files fd.toNat).offset
    let n := clipped (diskSize (fs.disk r)) offset count
    ∃ fs', crfsRead fs fd buf count uptimeMs = (asInt64 n, readLoop fs r offset n n 0 buf, fs') ∧
      (fs'.files fd.toNat).offset = (offset + n) % 2 ^ 64 := by
  have hslot := h.slot
  rw [crfsRead, if_neg (by omega)]
  dsimp only
  rw [h.inUse, h.inode]
  dsimp only
  rw [if_neg hsome]
  refine ⟨_, rfl, ?_⟩
  show (Function.update fs.files fd.toNat _ fd.toNat).offset = _
  rw [Function.update_self]
  rfl

theorem readExact_of_readFits (h : OpenOn fs fd r) (buf : Mem) (count : BitVec 64) (uptimeMs : Nat)
    (hfits : ReadFits fs.bdev.bytes (fs.disk r) (diskSize (fs.disk r)) (fs.files fd.toNat).offset count.toNat) :
    ReadExact fs fd r buf count.toNat (crfsRead fs fd buf count.toNat uptimeMs) := by
  have hcount := count.isLt
  have hsize : diskSize (fs.disk r) < 2 ^ 64 := load64_lt
  by_cases hend : diskSize (fs.disk r) ≤ (fs.files fd.toNat).offset
  · have hzero : bytesLeft (diskSize (fs.disk r)) (fs.files fd.toNat).offset count.toNat = 0 := by
      unfold bytesLeft
      omega
    rw [h.read_none hend]
    refine ⟨by rw [hzero]; rfl, ?_, fun _ _ => rfl, by rw [hzero]; rfl⟩
    intro i hi
    rw [hzero] at hi
    exact absurd hi (Nat.not_lt_zero i)
  · obtain ⟨hwrap, hsmall, hmap⟩ := hfits.resolve_left hend
    have hclip := (clipped_eq_iff hsize (Nat.lt_of_not_le hend) hcount).mpr hwrap
    obtain ⟨fs', he, hmoved⟩ := h.read_some hend buf count.toNat uptimeMs
    rw [hclip] at he hmoved
    have hleft : (fs.files fd.toNat).offset + bytesLeft (diskSize (fs.disk r)) (fs.files fd.toNat).offset count.toNat ≤
        diskSize (fs.disk r) := by
      unfold bytesLeft
      omega
    rw [he]
    refine ⟨?_, ?_, fun i hi => readLoop_rest hi, ?_⟩
    · dsimp only
      rw [asInt64_of_lt hsmall]
    · intro i hi
      refine (readLoop_all fs r _ buf hi).trans ?_
      exact (fileByte_seen_iff _).mpr (hmap _ (by omega) (by omega))
    · rw [hmoved, Nat.mod_eq_of_lt (by omega)]

theorem readFits_of_readExact (h : OpenOn fs fd r) (buf : Mem) (count : BitVec 64) (uptimeMs : Nat)
    (hexact : ReadExact fs fd r buf count.toNat (crfsRead fs fd buf count.toNat uptimeMs)) :
    ReadFits fs.bdev.bytes (fs.disk r) (diskSize (fs.disk r)) (fs.files fd.toNat).offset count.toNat := by
  have hcount := count.isLt
  have hsize : diskSize (fs.disk r) < 2 ^ 64 := load64_lt
  by_cases hend : diskSize (fs.disk r) ≤ (fs.files fd.toNat).offset
  · exact Or.inl hend
  · right
    obtain ⟨fs', he, -⟩ := h.read_some hend buf count.toNat uptimeMs
    rw [he] at hexact
    have hret := hexact.returned
    dsimp only at hret
    rw [asInt64_eq_iff (clipped_lt hsize hcount)] at hret
    obtain ⟨hclip, hsmall⟩ := hret
    rw [hclip] at hsmall
    refine ⟨(clipped_eq_iff hsize (Nat.lt_of_not_le hend) hcount).mp hclip, hsmall, ?_⟩
    intro p hp hp'
    have hin : p - (fs.files fd.toNat).offset < bytesLeft (diskSize (fs.disk r)) (fs.files fd.toNat).offset count.toNat := by
      omega
    have hpos : (fs.files fd.toNat).offset + (p - (fs.files fd.toNat).offset) = p := by omega
    have hbyte := hexact.read _ hin
    dsimp only at hbyte
    rw [hclip, readLoop_all fs r _ buf hin, hpos] at hbyte
    exact (fileByte_seen_iff p).mp hbyte

/-- **`crfs_read`** returns what the file holds below its size, as far as 32-bit block numbers
    reach. -/
theorem readsAs_iff_of_le (hsize : diskSize (fs.disk r) ≤ 2 ^ 44) (byte : Nat → BitVec 8) :
    ReadsAs fs r (diskSize (fs.disk r)) byte ↔
      ∀ i, i < diskSize (fs.disk r) → fileByte fs.bdev.bytes (fs.disk r) i = byte i := by
  have hread : ∀ (slot : Nat) (f : File) (buf : Mem) (count uptimeMs : Nat), slot < maxOpen → f.inUse = true →
      f.inode = some r → f.offset + count < 2 ^ 64 →
        (crfsRead (fs.modFile slot fun _ => f) slot buf count uptimeMs).1 =
            (min count (diskSize (fs.disk r) - f.offset) : Nat) ∧
          ∀ k, k < min count (diskSize (fs.disk r) - f.offset) →
            (crfsRead (fs.modFile slot fun _ => f) slot buf count uptimeMs).2.1 k =
              fileByte fs.bdev.bytes (fs.disk r) (f.offset + k) := by
    intro slot f buf count uptimeMs hslot huse hinode hsum
    have hfile : (fs.modFile slot fun _ => f).files (slot : Int).toNat = f := Function.update_self _ _ _
    have hopen : OpenOn (fs.modFile slot fun _ => f) slot r :=
      ⟨⟨by omega, by exact_mod_cast hslot⟩, by rw [hfile, huse], by rw [hfile, hinode]⟩
    have hdisk : (fs.modFile slot fun _ => f).disk r = fs.disk r := rfl
    have hbdev : (fs.modFile slot fun _ => f).bdev = fs.bdev := rfl
    obtain ⟨c, hc⟩ : ∃ c : BitVec 64, c.toNat = count := ⟨BitVec.ofNat 64 count, by rw [BitVec.toNat_ofNat]; omega⟩
    have hexact := readExact_of_readFits hopen buf c uptimeMs
    rw [hfile, hdisk, hbdev, hc] at hexact
    unfold ReadFits bytesLeft at hexact
    have hdone := hexact (Or.inr ⟨Or.inl hsum, by omega, fun p hp hp' hbig => by omega⟩)
    have hreturned := hdone.returned
    have hbytes := hdone.read
    rw [hfile, hdisk] at hreturned hbytes
    rw [hbdev] at hbytes
    exact ⟨hreturned, hbytes⟩
  constructor
  · intro h i hi
    obtain ⟨slot, hslot⟩ : ∃ slot : Nat, slot < maxOpen := ⟨0, by decide⟩
    obtain ⟨f, huse, hinode, hoff⟩ : ∃ f : File, f.inUse = true ∧ f.inode = some r ∧ f.offset = i :=
      ⟨⟨true, 0, i, some r⟩, rfl, rfl, rfl⟩
    obtain ⟨-, hbyte⟩ := h slot f zeroBuf 1 0 hslot huse hinode (by omega)
    obtain ⟨-, hfile⟩ := hread slot f zeroBuf 1 0 hslot huse hinode (by omega)
    have hone : 0 < min 1 (diskSize (fs.disk r) - f.offset) := by omega
    rw [← hoff]
    exact (hfile 0 hone).symm.trans (hbyte 0 hone)
  · intro h slot f buf count uptimeMs hslot huse hinode hsum
    obtain ⟨hret, hbytes⟩ := hread slot f buf count uptimeMs hslot huse hinode hsum
    exact ⟨hret, fun k hk => (hbytes k hk).trans (h _ (by omega))⟩

/-- **`crfs_read` is exact** where `ReadFits` says, and nowhere else. -/
theorem crfsRead_exact_iff (h : OpenOn fs fd r) (buf : Mem) (count : BitVec 64) (uptimeMs : Nat) :
    ReadExact fs fd r buf count.toNat (crfsRead fs fd buf count.toNat uptimeMs) ↔
      ReadFits fs.bdev.bytes (fs.disk r) (diskSize (fs.disk r)) (fs.files fd.toNat).offset count.toNat :=
  ⟨readFits_of_readExact h buf count uptimeMs, readExact_of_readFits h buf count uptimeMs⟩

end

/-! ## Two bytes -/

theorem shortFile_open : OpenOn shortFile 1 0 := ⟨by decide, shortFile_holds.1, shortFile_holds.2.1⟩

/-- Five bytes are asked for of a file of two. -/
theorem crfsRead_exact_two : ReadExact shortFile 1 0 nines 5 (crfsRead shortFile 1 nines 5 0) := by
  obtain ⟨-, -, -, hoff, hsize, -⟩ := shortFile_holds
  refine (crfsRead_exact_iff shortFile_open nines 5#64 0).mpr (Or.inr ⟨?_, ?_, ?_⟩)
  · rw [hsize, show (1 : Int).toNat = 1 from rfl, hoff]
    decide
  · rw [hsize, show (1 : Int).toNat = 1 from rfl, hoff]
    decide
  · intro p _ hp hbig
    rw [hsize] at hp
    have hp' : p < (shortFile.files 1).offset + bytesLeft 2 (shortFile.files 1).offset 5 := hp
    rw [hoff] at hp'
    unfold bytesLeft at hp'
    omega

/-- From the second byte on, `2 ^ 64 - 1` bytes are asked for: the sum is 0, and all of them are
    read. -/
theorem crfsRead_not_exact :
    ¬ReadExact (shortFile.modFile 1 fun f => { f with offset := 1 }) 1 0 nines (2 ^ 64 - 1)
      (crfsRead (shortFile.modFile 1 fun f => { f with offset := 1 }) 1 nines (2 ^ 64 - 1) 0) := by
  intro hexact
  have hopen : OpenOn (shortFile.modFile 1 fun f => { f with offset := 1 }) 1 0 :=
    ⟨by decide, shortFile_open.inUse, shortFile_open.inode⟩
  have hfits := readFits_of_readExact hopen nines (BitVec.allOnes 64) 0 hexact
  have hsize : diskSize ((shortFile.modFile 1 fun f => { f with offset := 1 }).disk 0) = 2 := shortFile_holds.2.2.2.2.1
  have hoff : ((shortFile.modFile 1 fun f => { f with offset := 1 }).files (1 : Int).toNat).offset = 1 := rfl
  rw [hsize, hoff] at hfits
  rcases hfits with hend | ⟨hwrap, -, -⟩
  · omega
  · exact absurd hwrap (by decide)

end Crimson.Crfs
