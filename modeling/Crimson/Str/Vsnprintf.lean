import Crimson.Str.Format

/-!
# `vsnprintf` (`printk.c`)

A buffer is filled character by character, with a zero behind each, and what does not fit is dropped.
A store outside of the buffer and a read behind the end of the format are no result, so that a
result says there was neither.

`vsnprintf_iff` says when the result is the truncated expansion of the format: when the format does
not end inside a conversion, and the length fits into the `int` that is returned.
-/

set_option autoImplicit false

namespace Crimson.Str

/-! ## The code -/

/-- `fmt_buf_t`. -/
structure FmtBuf where
  buf : List UInt8
  size : Nat
  pos : Nat
deriving DecidableEq, Repr

/-- `buf[i] = c`, inside of the buffer. -/
def store (buf : List UInt8) (i : Nat) (c : UInt8) : Option (List UInt8) :=
  if i < buf.length then some (buf.set i c) else none

def snprintfPutc (fb : FmtBuf) (c : UInt8) : Option FmtBuf :=
  if fb.pos < fb.size - 1 then
    (store fb.buf fb.pos c).bind fun buf =>
    (store buf (fb.pos + 1) 0).bind fun buf => some { fb with buf := buf, pos := fb.pos + 1 }
  else some fb

def snprintfPuts (fb : FmtBuf) : List UInt8 → Option FmtBuf
  | [] => some fb
  | c :: s => (snprintfPutc fb c).bind fun fb => snprintfPuts fb s

/-- The loops that put the padding. -/
def snprintfPad (fb : FmtBuf) (pad : UInt8) : Nat → Option FmtBuf
  | 0 => some fb
  | n + 1 => (snprintfPutc fb pad).bind fun fb => snprintfPad fb pad n

/-- The loop of `snprintf_uint`, which stores the digits, lowest first, into an array with this much room. -/
def uintDigits (upper : Bool) (base : Nat) : Nat → Nat → Option (List UInt8)
  | room, num =>
    if num = 0 then some []
    else
      match room with
      | 0 => none
      | room + 1 => (uintDigits upper base room (num / base)).map (digitChar upper (num % base) :: ·)

def snprintfUint (fb : FmtBuf) (num : UInt64) (base : Nat) (width : Int32) (pad : UInt8) (upper : Bool) : Option FmtBuf :=
  if num = 0 then
    (snprintfPad fb pad (width.toInt - 1).toNat).bind fun fb => snprintfPutc fb 48
  else
    (uintDigits upper base 32 num.toNat).bind fun buf =>
    (snprintfPad fb pad (width.toInt - buf.length).toNat).bind fun fb => snprintfPuts fb buf.reverse

def snprintfInt (fb : FmtBuf) (num : Int64) (width : Int32) (pad : UInt8) : Option FmtBuf :=
  if num < 0 then
    (snprintfPutc fb 45).bind fun fb =>
    snprintfUint fb (-num).toUInt64 10 (if 0 < width then width - 1 else width) pad false
  else snprintfUint fb num.toUInt64 10 width pad false

def snprintfPtr (fb : FmtBuf) (p : UInt64) : Option FmtBuf :=
  (snprintfPuts fb (ofString "0x")).bind fun fb => snprintfUint fb p 16 16 48 false

/-! `va_arg`, for an argument of the type it is asked for. -/

def vaInt : List Arg → Option (Int32 × List Arg)
  | .int v :: args => some (v, args)
  | _ => none

def vaString : List Arg → Option (Option (List UInt8) × List Arg)
  | .string s :: args => some (s, args)
  | _ => none

def vaPointer : List Arg → Option (UInt64 × List Arg)
  | .pointer p :: args => some (p, args)
  | _ => none

/-- `is_long ? va_arg(args, long) : va_arg(args, int)`. -/
def vaSigned : Bool → List Arg → Option (Int64 × List Arg)
  | true, .long v :: args => some (v, args)
  | false, .int v :: args => some (v.toInt64, args)
  | _, _ => none

def vaUnsigned : Bool → List Arg → Option (UInt64 × List Arg)
  | true, .ulong v :: args => some (v, args)
  | false, .uint v :: args => some (v.toUInt64, args)
  | _, _ => none

/-- The `switch` on the character `c`. -/
def snprintfConv (fb : FmtBuf) (fl : Flags) (c : UInt8) (args : List Arg) : Option (FmtBuf × List Arg) :=
  match convOf c with
  | .char => (vaInt args).bind fun (v, args) => (snprintfPutc fb v.toUInt32.toUInt8).map (·, args)
  | .string => (vaString args).bind fun (s, args) => (snprintfPuts fb (s.getD (ofString "(null)"))).map (·, args)
  | .signed =>
    (vaSigned fl.isLong args).bind fun (num, args) => (snprintfInt fb num fl.width fl.padChar).map (·, args)
  | .unsigned =>
    (vaUnsigned fl.isLong args).bind fun (num, args) =>
    (snprintfUint fb num 10 fl.width fl.padChar false).map (·, args)
  | .hex upper =>
    (vaUnsigned fl.isLong args).bind fun (num, args) =>
    (snprintfPuts fb (ofString "0x")).bind fun fb => (snprintfUint fb num 16 fl.width fl.padChar upper).map (·, args)
  | .pointer => (vaPointer args).bind fun (p, args) => (snprintfPtr fb p).map (·, args)
  | .percent => (snprintfPutc fb 37).map (·, args)
  | .unknown => (snprintfPutc fb 37).bind fun fb => (snprintfPutc fb c).map (·, args)

/-- The loop of `vsnprintf`, at `p`. -/
def vsnprintfLoop (fb : FmtBuf) (p : List UInt8) (args : List Arg) : Option FmtBuf :=
  match p with
  | [] => some fb
  | c :: p =>
    if c = 37 ∧ p ≠ [] then
      match _hrest : parseFlags p with
      | (_, []) => none -- the zero is taken for a conversion, and `p++` steps over it: the next read is outside
      | (fl, conv :: rest) => (snprintfConv fb fl conv args).bind fun (fb, args) => vsnprintfLoop fb rest args
    else (snprintfPutc fb c).bind fun fb => vsnprintfLoop fb p args
termination_by p.length
decreasing_by
  · exact length_rest_lt _hrest
  · exact Nat.lt_succ_self _

/-- `vsnprintf`, with the `size` bytes that `str` points to, if it is not NULL: what is returned, and the bytes. -/
def vsnprintf (str : Option (List UInt8)) (fmt : List UInt8) (args : List Arg) : Option (Int32 × List UInt8) :=
  match str with
  | none => some (0, [])
  | some str =>
    if str.length = 0 then some (0, str)
    else
      (store str 0 0).bind fun buf =>
      (vsnprintfLoop { buf := buf, size := str.length, pos := 0 } fmt args).bind fun fb =>
      (store fb.buf (if fb.pos < fb.size then fb.pos else fb.size - 1) 0).bind fun buf => some (Int32.ofNat fb.pos, buf)

/-- The result is `out`, cut off where the buffer ends, with a zero behind it at the index that is returned. -/
def Formatted (str out : List UInt8) (res : Option (Int32 × List UInt8)) : Prop :=
  ∃ r buf, res = some (r, buf) ∧ buf.length = str.length ∧ 0 ≤ r.toInt ∧ r.toInt < str.length ∧
    buf.getD r.toInt.toNat 1 = 0 ∧ buf.take r.toInt.toNat = out.take (str.length - 1)

/-! ## What is put -/

section

variable {fb fb' : FmtBuf} {out s t : List UInt8} {c : UInt8} {size : Nat} {p : List UInt8} {args : List Arg}

/-- The buffer has so much of the output as fits. -/
structure BufHolds (size : Nat) (fb : FmtBuf) (out : List UInt8) : Prop where
  length : fb.buf.length = size
  limit : fb.size = size
  pos : fb.pos = min (size - 1) out.length
  text : fb.buf.take fb.pos = out.take (size - 1)

theorem BufHolds.putc (h : BufHolds size fb out) (c : UInt8) :
    ∃ fb', snprintfPutc fb c = some fb' ∧ BufHolds size fb' (out ++ [c]) := by
  obtain ⟨buf, _, pos⟩ := fb
  obtain ⟨hlen, rfl, hpos, htext⟩ := h
  dsimp only at hlen hpos htext
  unfold snprintfPutc
  dsimp only
  split
  · rename_i hroom
    have hout : out.length = pos := by omega
    have hstore : store buf pos c = some (buf.set pos c) := if_pos (by omega)
    have hzero : store (buf.set pos c) (pos + 1) 0 = some ((buf.set pos c).set (pos + 1) 0) :=
      if_pos (by rw [List.length_set]; omega)
    rw [hstore, Option.bind_some, hzero, Option.bind_some]
    refine ⟨_, rfl, ?_, rfl, ?_, ?_⟩
    · simp [hlen]
    · simp only [List.length_append, List.length_singleton]
      omega
    · dsimp only
      have hget : (buf.set pos c)[pos]? = some c := List.getElem?_set_self (by omega)
      rw [List.take_set_of_le (by omega), List.take_add_one, List.take_set_of_le (by omega), htext, hget,
        List.take_of_length_le (by omega), List.take_of_length_le (by simp; omega)]
      rfl
  · -- the buffer is full, and the character is behind what it has of the output
    rename_i hfull
    refine ⟨_, rfl, hlen, rfl, ?_, ?_⟩
    · simp only [List.length_append, List.length_singleton]
      omega
    · rw [List.take_append_of_le_length (by omega)]
      exact htext

theorem BufHolds.puts (h : BufHolds size fb out) (s : List UInt8) :
    ∃ fb', snprintfPuts fb s = some fb' ∧ BufHolds size fb' (out ++ s) := by
  induction s generalizing fb out with
  | nil => exact ⟨fb, rfl, by rwa [List.append_nil]⟩
  | cons c s ih =>
    obtain ⟨fb₁, hc, h₁⟩ := h.putc c
    obtain ⟨fb₂, hs, h₂⟩ := ih h₁
    refine ⟨fb₂, ?_, ?_⟩
    · rw [snprintfPuts, hc]
      exact hs
    · rwa [List.append_assoc] at h₂

theorem snprintfPuts_append (fb : FmtBuf) (s t : List UInt8) :
    snprintfPuts fb (s ++ t) = (snprintfPuts fb s).bind fun fb => snprintfPuts fb t := by
  induction s generalizing fb with
  | nil => rfl
  | cons c s ih =>
    rw [List.cons_append, snprintfPuts, snprintfPuts, Option.bind_assoc]
    congr
    funext fb
    exact ih fb

theorem snprintfPuts_singleton (fb : FmtBuf) (c : UInt8) : snprintfPuts fb [c] = snprintfPutc fb c := by
  rw [snprintfPuts]
  cases snprintfPutc fb c <;> rfl

theorem snprintfPad_eq (fb : FmtBuf) (pad : UInt8) (n : Nat) :
    snprintfPad fb pad n = snprintfPuts fb (List.replicate n pad) := by
  induction n generalizing fb with
  | zero => rfl
  | succ n ih =>
    rw [snprintfPad, List.replicate_succ, snprintfPuts]
    congr
    funext fb
    exact ih fb

/-! ## Numbers -/

/-- The array of 32 characters is large enough. -/
theorem uintDigits_eq (upper : Bool) {base : Nat} (hbase : 1 < base) {room num : Nat} (h : num < base ^ room) :
    uintDigits upper base room num = some ((Nat.digits base num).map (digitChar upper)) := by
  induction room generalizing num with
  | zero =>
    obtain rfl : num = 0 := by
      rw [Nat.pow_zero] at h
      omega
    simp [uintDigits]
  | succ room ih =>
    rw [uintDigits]
    split
    · rename_i hzero
      simp [hzero]
    · rename_i hzero
      have hdiv : num / base < base ^ room := Nat.div_lt_of_lt_mul (by rwa [Nat.pow_succ, Nat.mul_comm] at h)
      rw [Nat.digits_def' hbase (Nat.pos_of_ne_zero hzero), List.map_cons, ih hdiv]
      rfl

theorem toNat_lt_pow (num : UInt64) {base : Nat} (hbase : 10 ≤ base) : num.toNat < base ^ 32 :=
  calc num.toNat
      < 2 ^ 64 := num.toNat_lt
    _ ≤ 10 ^ 32 := by decide
    _ ≤ base ^ 32 := Nat.pow_le_pow_left hbase 32

/-- **`snprintf_uint` puts the numeral, padded.** -/
theorem snprintfUint_eq (fb : FmtBuf) (num : UInt64) {base : Nat} (hbase : 10 ≤ base) (width : Int32) (pad : UInt8)
    (upper : Bool) :
    snprintfUint fb num base width pad upper =
      snprintfPuts fb (padded pad width.toInt.toNat (numeral upper base num.toNat)) := by
  unfold snprintfUint
  split
  · -- the 0 has no digits in the loop, and is put by itself behind its padding
    rename_i hzero
    have hnum : numeral upper base num.toNat = [48] := by
      rw [hzero]
      rfl
    have hcount : (width.toInt - 1).toNat = width.toInt.toNat - 1 := by omega
    rw [hnum, padded, snprintfPuts_append, snprintfPad_eq, hcount]
    congr
    funext fb
    exact (snprintfPuts_singleton fb 48).symm
  · rename_i hzero
    have hpos : num.toNat ≠ 0 := fun h => hzero (UInt64.toNat_inj.mp h)
    rw [uintDigits_eq upper (by omega) (toNat_lt_pow num hbase), Option.bind_some, numeral, if_neg hpos, padded,
      snprintfPuts_append, snprintfPad_eq, List.length_reverse]
    congr 3
    omega

theorem toInt_eq_toUInt64 (num : Int64) : num.toInt =
    if 2 * num.toUInt64.toNat < 2 ^ 64 then (num.toUInt64.toNat : Int) else num.toUInt64.toNat - 2 ^ 64 :=
  BitVec.toInt_eq_toNat_cond num.toBitVec

/-- The smallest number has itself for its negative, which as an unsigned number is right. -/
theorem toNat_neg_toUInt64 {num : Int64} (h : num.toInt < 0) : (-num).toUInt64.toNat = num.toInt.natAbs := by
  have hval := toInt_eq_toUInt64 num
  have hlt := num.toUInt64.toNat_lt
  have hsize : UInt64.size = 2 ^ 64 := rfl
  rw [Int64.toUInt64_neg, UInt64.toNat_neg, hsize]
  split at hval
  · omega
  · omega

theorem toNat_toUInt64 {num : Int64} (h : ¬num.toInt < 0) : num.toUInt64.toNat = num.toInt.natAbs := by
  have hval := toInt_eq_toUInt64 num
  have hlt := num.toUInt64.toNat_lt
  split at hval
  · omega
  · omega

/-- The width behind a minus sign. -/
theorem toNat_width_pred (width : Int32) : (if 0 < width then width - 1 else width).toInt.toNat = width.toInt.toNat - 1 := by
  have hle := width.toInt_lt
  have hge := width.le_toInt
  split
  · rename_i hpos
    have hpos' : 0 < width.toInt := Int32.lt_iff_toInt_lt.mp hpos
    have hone : (1 : Int32).toInt = 1 := rfl
    rw [Int32.toInt_sub, hone, Int.bmod_eq_of_le (by omega) (by omega)]
    omega
  · rename_i hpos
    have hpos' : ¬0 < width.toInt := fun h => hpos (Int32.lt_iff_toInt_lt.mpr h)
    omega

theorem snprintfInt_eq (fb : FmtBuf) (num : Int64) (fl : Flags) :
    snprintfInt fb num fl.width fl.padChar = snprintfPuts fb (fl.signedText num.toInt) := by
  have hsign : num < 0 ↔ num.toInt < 0 := Int64.lt_iff_toInt_lt
  unfold snprintfInt Flags.signedText
  rw [if_congr hsign rfl rfl]
  split
  · rename_i hneg
    rw [snprintfPuts]
    congr
    funext fb
    rw [snprintfUint_eq _ _ (by decide), toNat_neg_toUInt64 hneg, toNat_width_pred]
    rfl
  · rename_i hneg
    rw [snprintfUint_eq _ _ (by decide), toNat_toUInt64 hneg]
    rfl

theorem snprintfPtr_eq (fb : FmtBuf) (p : UInt64) :
    snprintfPtr fb p = snprintfPuts fb (ofString "0x" ++ padded 48 16 (numeral false 16 p.toNat)) := by
  rw [snprintfPtr, snprintfPuts_append]
  congr
  funext fb
  exact snprintfUint_eq fb p (by decide) 16 48 false

/-! ## Conversions -/

theorem snprintfHex_eq (fb : FmtBuf) (num : UInt64) (fl : Flags) (upper : Bool) :
    ((snprintfPuts fb (ofString "0x")).bind fun fb => snprintfUint fb num 16 fl.width fl.padChar upper) =
      snprintfPuts fb (fl.hexText upper num.toNat) := by
  rw [Flags.hexText, snprintfPuts_append]
  congr
  funext fb
  exact snprintfUint_eq fb num (by decide) fl.width fl.padChar upper

/-- What is asked for by a conversion and the `l` before it is what the argument is. -/
theorem vaSigned_eq {isLong : Bool} {a : Arg} (args : List Arg) (h : a.fits isLong .signed = true) (fl : Flags) :
    ∃ num, vaSigned isLong (a :: args) = some (num, args) ∧ argText fl .signed a = fl.signedText num.toInt := by
  cases a with
  | int v =>
    obtain rfl : isLong = false := by simpa [Arg.fits] using h
    exact ⟨v.toInt64, rfl, by rw [Int32.toInt_toInt64]; rfl⟩
  | long v =>
    obtain rfl : isLong = true := h
    exact ⟨v, rfl, rfl⟩
  | _ => cases h

theorem vaUnsigned_eq {isLong : Bool} {a : Arg} (args : List Arg) (h : a.fits isLong .unsigned = true) :
    ∃ num, vaUnsigned isLong (a :: args) = some (num, args) ∧
      (∀ fl, argText fl .unsigned a = padded fl.padChar fl.minWidth (numeral false 10 num.toNat)) ∧
      ∀ fl upper, argText fl (.hex upper) a = fl.hexText upper num.toNat := by
  cases a with
  | uint v =>
    obtain rfl : isLong = false := by simpa [Arg.fits] using h
    refine ⟨v.toUInt64, rfl, fun fl => ?_, fun fl upper => ?_⟩
    · rw [UInt32.toNat_toUInt64]
      rfl
    · rw [UInt32.toNat_toUInt64]
      rfl
  | ulong v =>
    obtain rfl : isLong = true := h
    exact ⟨v, rfl, fun _ => rfl, fun _ _ => rfl⟩
  | _ => cases h

theorem fits_hex {isLong upper : Bool} {a : Arg} : a.fits isLong (.hex upper) = a.fits isLong .unsigned := by
  cases a <;> rfl

/-- A conversion of an argument of its type puts the text of the argument. -/
theorem snprintfConv_arg (fb : FmtBuf) (fl : Flags) (c : UInt8) {a : Arg} (args : List Arg)
    (h : a.fits fl.isLong (convOf c) = true) :
    snprintfConv fb fl c (a :: args) = (snprintfPuts fb (argText fl (convOf c) a)).map fun fb => (fb, args) := by
  unfold snprintfConv
  cases hconv : convOf c with
  | char =>
    rw [hconv] at h
    cases a with
    | int v =>
      rw [argText, snprintfPuts_singleton]
      rfl
    | _ => cases h
  | string =>
    rw [hconv] at h
    cases a with
    | string s => rfl
    | _ => cases h
  | signed =>
    rw [hconv] at h
    obtain ⟨num, hva, htext⟩ := vaSigned_eq args h fl
    rw [htext, ← snprintfInt_eq]
    dsimp only
    rw [hva]
    rfl
  | unsigned =>
    rw [hconv] at h
    obtain ⟨num, hva, htext, -⟩ := vaUnsigned_eq args h
    dsimp only
    rw [htext, hva, Option.bind_some]
    dsimp only
    rw [snprintfUint_eq fb num (by decide)]
    rfl
  | hex upper =>
    rw [hconv] at h
    obtain ⟨num, hva, -, htext⟩ := vaUnsigned_eq args (fits_hex.symm.trans h)
    rw [htext, ← snprintfHex_eq, Option.map_bind]
    dsimp only
    rw [hva]
    rfl
  | pointer =>
    rw [hconv] at h
    cases a with
    | pointer p =>
      rw [argText, ← snprintfPtr_eq]
      rfl
    | _ => cases h
  | percent | unknown =>
    rw [hconv] at h
    cases a <;> cases h

theorem snprintfConv_plain (fb : FmtBuf) (fl : Flags) {c : UInt8} (args : List Arg) (h : (convOf c).takesArg = false) :
    snprintfConv fb fl c args = (snprintfPuts fb (plainText c)).map fun fb => (fb, args) := by
  unfold snprintfConv plainText
  cases hconv : convOf c with
  | percent => rw [if_pos rfl, snprintfPuts_singleton]
  | unknown =>
    rw [if_neg (by decide), snprintfPuts, Option.map_bind]
    dsimp only
    congr
    funext fb
    rw [Function.comp_apply, snprintfPuts_singleton]
  | _ =>
    rw [hconv] at h
    cases h

/-! ## The loop -/

/-- The loop at a conversion that is whole. -/
theorem vsnprintfLoop_conv {c conv : UInt8} {rest : List UInt8} {fl : Flags} (hconv : c = 37 ∧ p ≠ [])
    (hflags : parseFlags p = (fl, conv :: rest)) (fb : FmtBuf) (args : List Arg) :
    vsnprintfLoop fb (c :: p) args =
      (snprintfConv fb fl conv args).bind fun (fb, args) => vsnprintfLoop fb rest args := by
  rw [vsnprintfLoop, if_pos hconv]
  split
  · rename_i heq
    rw [hflags] at heq
    cases heq
  · rename_i heq
    rw [hflags] at heq
    cases heq
    rfl

/-- A format that ends inside a conversion is read beyond its end. -/
theorem vsnprintfLoop_cut (fb : FmtBuf) (args : List Arg) (h : parseFormat p = none) : vsnprintfLoop fb p args = none := by
  fun_induction parseFormat p generalizing fb args with
  | case1 => cases h
  | case2 c p hconv fl hflags =>
    rw [vsnprintfLoop, if_pos hconv]
    split
    · rfl
    · rename_i heq
      rw [hflags] at heq
      cases heq
  | case3 c p hconv fl conv rest hflags ih =>
    -- the cut is further on, and the loop comes to it unless it has stopped before
    rw [vsnprintfLoop_conv hconv hflags]
    have hrest := Option.map_eq_none_iff.mp h
    cases snprintfConv fb fl conv args with
    | none => rfl
    | some next => exact ih next.1 next.2 hrest
  | case4 c p hconv ih =>
    rw [vsnprintfLoop, if_neg hconv]
    have hrest := Option.map_eq_none_iff.mp h
    cases snprintfPutc fb c with
    | none => rfl
    | some fb' => exact ih fb' args hrest

/-- **A whole format, with arguments that fit, has its expansion put.** -/
theorem vsnprintfLoop_whole (fb : FmtBuf) {args : List Arg} {ps : List Piece} (h : parseFormat p = some ps)
    (hfit : ArgsFit ps args) :
    vsnprintfLoop fb p args = snprintfPuts fb (expand ps args) := by
  fun_induction parseFormat p generalizing fb args ps with
  | case1 =>
    obtain rfl := Option.some.inj h
    rw [vsnprintfLoop, expand]
    rfl
  | case2 c p hconv fl hflags => cases h
  | case3 c p hconv fl conv rest hflags ih =>
    obtain ⟨ps, hrest, rfl⟩ := Option.map_eq_some_iff.mp h
    rw [vsnprintfLoop_conv hconv hflags]
    simp only [ArgsFit] at hfit
    simp only [expand]
    split
    · rename_i htakes
      rw [if_pos htakes] at hfit
      cases args with
      | nil => exact hfit.elim
      | cons a args =>
        obtain ⟨hfits, hfit⟩ := hfit
        rw [snprintfConv_arg fb fl conv args hfits, snprintfPuts_append, Option.bind_map]
        congr
        funext fb
        exact ih fb hrest hfit
    · rename_i htakes
      rw [if_neg htakes] at hfit
      rw [snprintfConv_plain fb fl args (by simpa using htakes), snprintfPuts_append, Option.bind_map]
      congr
      funext fb
      exact ih fb hrest hfit
  | case4 c p hconv ih =>
    obtain ⟨ps, hrest, rfl⟩ := Option.map_eq_some_iff.mp h
    rw [vsnprintfLoop, if_neg hconv, expand, snprintfPuts]
    congr
    funext fb
    exact ih fb hrest hfit

/-! ## The result -/

/-- What a whole format returns. -/
theorem vsnprintf_whole {str : List UInt8} (hsize : 1 ≤ str.length) {fmt : List UInt8} {ps : List Piece}
    (h : parseFormat fmt = some ps) (hfit : ArgsFit ps args) :
    ∃ pos buf, vsnprintf (some str) fmt args = some (Int32.ofNat pos, buf) ∧
      pos = min (str.length - 1) (expansion fmt args).length ∧ buf.length = str.length ∧ buf.getD pos 1 = 0 ∧
      buf.take pos = (expansion fmt args).take (str.length - 1) := by
  have hexp : expansion fmt args = expand ps args := by rw [expansion, h, Option.getD_some]
  have hstart : BufHolds str.length { buf := str.set 0 0, size := str.length, pos := 0 } [] :=
    ⟨List.length_set, rfl, by simp, by simp⟩
  obtain ⟨fb, hputs, hfb⟩ := hstart.puts (expand ps args)
  rw [List.nil_append] at hfb
  have hpos : fb.pos < fb.buf.length := by
    rw [hfb.length, hfb.pos]
    omega
  have hlimit : fb.pos < fb.size := by rwa [hfb.limit, ← hfb.length]
  refine ⟨fb.pos, fb.buf.set fb.pos 0, ?_, ?_, ?_, ?_, ?_⟩
  · rw [vsnprintf, if_neg (by omega), store, if_pos (by omega), Option.bind_some, vsnprintfLoop_whole _ h hfit, hputs,
      Option.bind_some, if_pos hlimit, store, if_pos hpos]
    rfl
  · rw [hfb.pos, hexp]
  · rw [List.length_set, hfb.length]
  · rw [List.getD_eq_getElem?_getD, List.getElem?_set_self hpos]
    rfl
  · rw [List.take_set_of_le (Nat.le_refl _), hfb.text, hexp]

end

/-- **`vsnprintf`, exactly**: for a buffer of any size and arguments of the types that are asked for. -/
theorem vsnprintf_iff {str : List UInt8} (hsize : 1 ≤ str.length) {fmt : List UInt8} {args : List Arg}
    (hargs : ∀ ps, parseFormat fmt = some ps → ArgsFit ps args) :
    Formatted str (expansion fmt args) (vsnprintf (some str) fmt args) ↔
      (parseFormat fmt).isSome = true ∧ min (str.length - 1) (expansion fmt args).length < 2 ^ 31 := by
  cases hparse : parseFormat fmt with
  | none =>
    have hcut : vsnprintf (some str) fmt args = none := by
      rw [vsnprintf, if_neg (by omega), store, if_pos (by omega), Option.bind_some, vsnprintfLoop_cut _ _ hparse]
      rfl
    refine iff_of_false ?_ (by simp)
    rintro ⟨r, buf, hres, -⟩
    rw [hcut] at hres
    cases hres
  | some ps =>
    obtain ⟨pos, buf, hres, hpos, hlen, hzero, htext⟩ := vsnprintf_whole hsize hparse (hargs ps hparse)
    rw [← hpos]
    constructor
    · rintro ⟨r, buf', hres', -, hnonneg, hlt, -, htext'⟩
      refine ⟨rfl, ?_⟩
      rw [hres] at hres'
      obtain ⟨rfl, rfl⟩ := Prod.mk.inj (Option.some.inj hres')
      -- the text is as long as the index that is returned, which is below 2 ^ 31
      have hlength := congrArg List.length (htext.trans htext'.symm)
      rw [List.length_take, List.length_take] at hlength
      have hbound := (Int32.ofNat pos).toInt_lt
      omega
    · rintro ⟨-, hfits⟩
      have hr : (Int32.ofNat pos).toInt = pos := Int32.toInt_ofNat_of_lt hfits
      refine ⟨Int32.ofNat pos, buf, hres, hlen, ?_, ?_, ?_, ?_⟩
      · omega
      · omega
      · rwa [hr, Int.toNat_natCast]
      · rwa [hr, Int.toNat_natCast]

/-- A string, and a number with the zero before its width; the `%` at the end stands for itself. -/
theorem vsnprintf_string_number :
    Formatted (List.replicate 8 255) (expansion (ofString "%s=%03d%") [.string (some [120]), .int (-7)])
      (vsnprintf (some (List.replicate 8 255)) (ofString "%s=%03d%") [.string (some [120]), .int (-7)]) := by
  have hparse : parseFormat (ofString "%s=%03d%") =
      some [.conv ⟨32, 0, false⟩ 115, .lit 61, .conv ⟨48, 3, false⟩ 100, .lit 37] := by decide +kernel
  refine (vsnprintf_iff (by decide) fun ps hps => ?_).mpr ⟨by rw [hparse]; rfl, ?_⟩
  · obtain rfl := Option.some.inj (hparse.symm.trans hps)
    exact ⟨rfl, rfl, trivial⟩
  · exact Nat.lt_of_le_of_lt (Nat.min_le_left _ _) (by decide)

/-- The format `%5` is read beyond its end. -/
theorem vsnprintf_cut_off :
    ¬Formatted (List.replicate 8 255) (expansion (ofString "%5") []) (vsnprintf (some (List.replicate 8 255)) (ofString "%5") []) := by
  have hcut : vsnprintf (some (List.replicate 8 255)) (ofString "%5") [] = none := by decide +kernel
  rintro ⟨r, buf, hres, -⟩
  rw [hcut] at hres
  cases hres

end Crimson.Str
