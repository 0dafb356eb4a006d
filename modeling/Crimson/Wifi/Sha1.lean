import Mathlib.Data.List.Basic

/-!
# The hash functions of the Wi-Fi driver (`wifi_rtl8723cs.c`)

SHA-1 over a context, HMAC-SHA1, PBKDF2-SHA1 and the WPA2 pseudo-random function, as the driver
computes them. `sha1_final` puts its padding together in a local array and hands all of it to
`sha1_update`, with the length at the end of the array and not behind the padding; what it reads
of the array without having written it is whatever the stack holds. A `Stack` is these bytes,
from the start of the array on and past its end, and every function that hashes takes the stacks
its hashes will find.
-/

set_option autoImplicit false

namespace Crimson.Wifi

/-- What the stack holds from the start of a local array on. -/
abbrev Stack := Nat → UInt8

/-- The stacks that the hashes of a call find, by number. -/
abbrev Stacks := Nat → Stack

/-! ## SHA-1 -/

/-- `sha1_ctx_t`; `buf` holds the first `buflen` bytes of the buffer. -/
structure Sha1Ctx where
  h : Vector UInt32 5
  buf : List UInt8
  lenLo : UInt32
  lenHi : UInt32
deriving DecidableEq, Repr

def sha1Rotl (v n : UInt32) : UInt32 := v <<< n ||| v >>> (32 - n)

def sha1Init : Sha1Ctx where
  h := #v[0x67452301, 0xEFCDAB89, 0x98BADCFE, 0x10325476, 0xC3D2E1F0]
  buf := []
  lenLo := 0
  lenHi := 0

/-- Word `i` of a block, big-endian. -/
def blockWord (blk : List UInt8) (i : Nat) : UInt32 :=
  (blk.getD (i * 4) 0).toUInt32 <<< 24 ||| (blk.getD (i * 4 + 1) 0).toUInt32 <<< 16 |||
    (blk.getD (i * 4 + 2) 0).toUInt32 <<< 8 ||| (blk.getD (i * 4 + 3) 0).toUInt32

/-- The words `w[0..79]`: those of the block, and each further one of four before it. -/
def sha1Words (blk : List UInt8) : Array UInt32 :=
  (List.range 64).foldl
    (fun w j =>
      let i := j + 16
      w.push (sha1Rotl (w.getD (i - 3) 0 ^^^ w.getD (i - 8) 0 ^^^ w.getD (i - 14) 0 ^^^ w.getD (i - 16) 0) 1))
    ((List.range 16).map (blockWord blk)).toArray

/-- The function and the constant of round `i`. -/
def sha1Round (i : Nat) (b cc d : UInt32) : UInt32 × UInt32 :=
  if i < 20 then ((b &&& cc) ||| (~~~b &&& d), 0x5A827999)
  else if i < 40 then (b ^^^ cc ^^^ d, 0x6ED9EBA1)
  else if i < 60 then ((b &&& cc) ||| (b &&& d) ||| (cc &&& d), 0x8F1BBCDC)
  else (b ^^^ cc ^^^ d, 0xCA62C1D6)

/-- `sha1_process_block`, on the state `h`. -/
def sha1ProcessBlock (h : Vector UInt32 5) (blk : List UInt8) : Vector UInt32 5 :=
  let w := sha1Words blk
  let s := (List.range 80).foldl
    (fun (s : Vector UInt32 5) i =>
      let f := sha1Round i s[1] s[2] s[3]
      let t := sha1Rotl s[0] 5 + f.1 + s[4] + f.2 + w.getD i 0
      #v[t, s[0], sha1Rotl s[1] 30, s[2], s[3]]) h
  #v[h[0] + s[0], h[1] + s[1], h[2] + s[2], h[3] + s[3], h[4] + s[4]]

/-- A byte of `sha1_update`. -/
def sha1Byte (c : Sha1Ctx) (b : UInt8) : Sha1Ctx :=
  let buf := c.buf ++ [b]
  let lenLo := c.lenLo + 8
  let lenHi := if lenLo = 0 then c.lenHi + 1 else c.lenHi
  if buf.length = 64 then { h := sha1ProcessBlock c.h buf, buf := [], lenLo := lenLo, lenHi := lenHi }
  else { c with buf := buf, lenLo := lenLo, lenHi := lenHi }

def sha1Update (c : Sha1Ctx) (data : List UInt8) : Sha1Ctx := data.foldl sha1Byte c

def wordBytes (x : UInt32) : List UInt8 :=
  [(x >>> 24).toUInt8, (x >>> 16).toUInt8, (x >>> 8).toUInt8, x.toUInt8]

/-- The array `pad`, as far as it is given to `sha1_update`. -/
def sha1Pad (c : Sha1Ctx) (stack : Stack) : List UInt8 :=
  let padbytes := if c.buf.length < 56 then 55 - c.buf.length else 119 - c.buf.length
  let total := c.buf.length + 1 + padbytes
  (List.range total).map (fun i => if i = 0 then 0x80 else if i ≤ padbytes then 0 else stack i) ++
    (wordBytes c.lenHi ++ wordBytes c.lenLo)

/-- `sha1_final`: the digest. -/
def sha1Final (c : Sha1Ctx) (stack : Stack) : List UInt8 :=
  (sha1Update c (sha1Pad c stack)).h.toList.flatMap wordBytes

/-! ## HMAC and what is derived with it -/

/-- `hmac_sha1`: the stack 0 is that of a key that is too long, 1 and 2 those of the two hashes. -/
def hmacSha1 (stale : Stacks) (key msg : List UInt8) : List UInt8 :=
  let key := if 64 < key.length then sha1Final (sha1Update sha1Init key) (stale 0) else key
  let ipad := (List.range 64).map fun i => if i < key.length then 0x36 ^^^ key.getD i 0 else 0x36
  let opad := (List.range 64).map fun i => if i < key.length then 0x5C ^^^ key.getD i 0 else 0x5C
  let out := sha1Final (sha1Update (sha1Update sha1Init ipad) msg) (stale 1)
  sha1Final (sha1Update (sha1Update sha1Init opad) out) (stale 2)

/-- The stacks of the `n`-th call of `hmac_sha1` inside another function. -/
def Stacks.call (stale : Stacks) (n : Nat) : Stacks := fun i => stale (3 * n + i)

def xorBytes (xs ys : List UInt8) : List UInt8 := List.zipWith (fun x y => x ^^^ y) xs ys

/-- The iterations behind the first one, for one block of `pbkdf2_sha1`: `u` and `t`. -/
def pbkdf2Iterate (stale : Stacks) (pwd : List UInt8) : Nat → List UInt8 → List UInt8 → List UInt8
  | 0, _, t => t
  | n + 1, u, t =>
    let u := hmacSha1 (stale.call n) pwd u
    pbkdf2Iterate stale pwd n u (xorBytes t u)

/-- A block of `pbkdf2_sha1`. -/
def pbkdf2Block (stale : Stacks) (pwd salt : List UInt8) (iterations blockNum : Nat) : List UInt8 :=
  let u := hmacSha1 (stale.call (iterations - 1)) pwd (salt ++ wordBytes (UInt32.ofNat blockNum))
  pbkdf2Iterate stale pwd (iterations - 1) u u

/-- `pbkdf2_sha1`: blocks of 20 bytes, as many as are needed, cut off at `dklen`. -/
def pbkdf2Sha1 (stale : Nat → Stacks) (pwd salt : List UInt8) (iterations dklen : Nat) : List UInt8 :=
  ((List.range ((dklen + 19) / 20)).flatMap fun i => pbkdf2Block (stale i) pwd salt iterations (i + 1)).take dklen

/-- `prf_sha1`. -/
def prfSha1 (stale : Stacks) (key label data : List UInt8) (outlen : Nat) : List UInt8 :=
  ((List.range ((outlen + 19) / 20)).flatMap fun i =>
    hmacSha1 (stale.call i) key (label ++ 0 :: data ++ [UInt8.ofNat i])).take outlen

/-! ## Lengths -/

theorem length_sha1Final (c : Sha1Ctx) (stack : Stack) : (sha1Final c stack).length = 20 := by
  simp [sha1Final, wordBytes]

@[simp] theorem length_hmacSha1 (stale : Stacks) (key msg : List UInt8) : (hmacSha1 stale key msg).length = 20 :=
  length_sha1Final _ _

end Crimson.Wifi
