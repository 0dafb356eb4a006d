import Crimson.Str.Model
import Mathlib.Data.Nat.Digits.Defs

/-!
# Formats (`vsnprintf` of `printk.c`)

A format as pieces: characters, and conversions with their flags. What a format asks for as
arguments (`ArgsFit`) and what it expands to (`expansion`), with no limit on the length, are read off
its pieces. A format that ends inside a conversion has none.

The texts are this formatter's own: a hexadecimal number has its `0x` always, outside its width,
a minus sign stands before the padding, and `-` is read and has no effect. A width is an
`int`, and wraps.
-/

set_option autoImplicit false

namespace Crimson.Str

/-- What is read between the `%` and the character of the conversion. -/
structure Flags where
  padChar : UInt8
  width : Int32
  isLong : Bool
deriving DecidableEq, Repr

/-- One character, if it is the next one. -/
def skipChar (c : UInt8) (p : List UInt8) : Bool × List UInt8 :=
  match p with
  | d :: q => if d = c then (true, q) else (false, p)
  | [] => (false, [])

/-- The flags, and where the format goes on: `-`, `0`, digits and `l`, each of which may be missing. -/
def parseFlags (p : List UInt8) : Flags × List UInt8 :=
  let (_leftAlign, p) := skipChar 45 p
  let (zero, p) := skipChar 48 p
  let width := (p.takeWhile isDigit).foldl (fun width c => width * 10 + Int32.ofNat (c.toNat - 48)) 0
  let (isLong, p) := skipChar 108 (p.dropWhile isDigit)
  ({ padChar := if zero then 48 else 32, width := width, isLong := isLong }, p)

/-- The cases of the `switch`. -/
inductive Conv where
  | char
  | string
  | signed
  | unsigned
  | hex (upper : Bool)
  | pointer
  | percent
  | unknown
deriving DecidableEq, Repr

def convOf (c : UInt8) : Conv :=
  match Char.ofNat c.toNat with
  | 'c' => .char
  | 's' => .string
  | 'd' | 'i' => .signed
  | 'u' => .unsigned
  | 'x' => .hex false
  | 'X' => .hex true
  | 'p' => .pointer
  | '%' => .percent
  | _ => .unknown

/-! ## Pieces -/

inductive Piece where
  | lit (c : UInt8)
  | conv (fl : Flags) (c : UInt8)
deriving DecidableEq, Repr

theorem length_skipChar (c : UInt8) (p : List UInt8) : (skipChar c p).2.length ≤ p.length := by
  unfold skipChar
  split
  · split
    · exact Nat.le_succ _
    · exact Nat.le_refl _
  · exact Nat.le_refl _

theorem length_parseFlags (p : List UInt8) : (parseFlags p).2.length ≤ p.length := by
  simp only [parseFlags]
  refine Nat.le_trans (length_skipChar _ _) ?_
  refine Nat.le_trans (List.dropWhile_sublist _).length_le ?_
  exact Nat.le_trans (length_skipChar _ _) (length_skipChar _ _)

/-- Behind a conversion there is less of the format left. -/
theorem length_rest_lt {c conv : UInt8} {p rest : List UInt8} {fl : Flags} (h : parseFlags p = (fl, conv :: rest)) :
    rest.length < (c :: p).length := by
  have hle := length_parseFlags p
  rw [h] at hle
  simp only [List.length_cons] at hle ⊢
  omega

/-- The pieces of a format, if no conversion is cut off by its end. A `%` that is its last character
    stands for itself. -/
def parseFormat (p : List UInt8) : Option (List Piece) :=
  match p with
  | [] => some []
  | c :: p =>
    if c = 37 ∧ p ≠ [] then
      match _hrest : parseFlags p with
      | (_, []) => none
      | (fl, conv :: rest) => (parseFormat rest).map (.conv fl conv :: ·)
    else (parseFormat p).map (.lit c :: ·)
termination_by p.length
decreasing_by
  · exact length_rest_lt _hrest
  · exact Nat.lt_succ_self _

/-! ## Arguments -/

/-- An argument of one of the types that are asked for; a string may be NULL. -/
inductive Arg where
  | int (v : Int32)
  | long (v : Int64)
  | uint (v : UInt32)
  | ulong (v : UInt64)
  | string (s : Option (List UInt8))
  | pointer (p : UInt64)
deriving DecidableEq, Repr

/-- Is it of the type that the conversion asks for? -/
def Arg.fits (isLong : Bool) : Conv → Arg → Bool
  | .char, .int _ | .string, .string _ | .pointer, .pointer _ => true
  | .signed, .int _ | .unsigned, .uint _ | .hex _, .uint _ => !isLong
  | .signed, .long _ | .unsigned, .ulong _ | .hex _, .ulong _ => isLong
  | _, _ => false

/-- `%%` and what is no conversion ask for nothing. -/
def Conv.takesArg : Conv → Bool
  | .percent | .unknown => false
  | .char | .string | .signed | .unsigned | .hex _ | .pointer => true

/-- The arguments are those that the pieces ask for, and there may be more. -/
def ArgsFit : List Piece → List Arg → Prop
  | [], _ => True
  | .lit _ :: ps, args => ArgsFit ps args
  | .conv fl c :: ps, args =>
    if (convOf c).takesArg then
      match args with
      | [] => False
      | a :: args => a.fits fl.isLong (convOf c) = true ∧ ArgsFit ps args
    else ArgsFit ps args

/-! ## The expansion -/

/-- A digit, of at most 16. -/
def digitChar (upper : Bool) (d : Nat) : UInt8 :=
  (ofString (if upper then "0123456789ABCDEF" else "0123456789abcdef")).getD d 0

/-- A number, most significant digit first. -/
def numeral (upper : Bool) (base n : Nat) : List UInt8 :=
  if n = 0 then [48] else ((Nat.digits base n).map (digitChar upper)).reverse

def padded (pad : UInt8) (width : Nat) (s : List UInt8) : List UInt8 := List.replicate (width - s.length) pad ++ s

/-- A width that is negative is none. -/
def Flags.minWidth (fl : Flags) : Nat := fl.width.toInt.toNat

def Flags.signedText (fl : Flags) (v : Int) : List UInt8 :=
  if v < 0 then 45 :: padded fl.padChar (fl.minWidth - 1) (numeral false 10 v.natAbs)
  else padded fl.padChar fl.minWidth (numeral false 10 v.natAbs)

def Flags.hexText (fl : Flags) (upper : Bool) (v : Nat) : List UInt8 :=
  ofString "0x" ++ padded fl.padChar fl.minWidth (numeral upper 16 v)

/-- What an argument is expanded to. -/
def argText (fl : Flags) : Conv → Arg → List UInt8
  | .char, .int v => [v.toUInt32.toUInt8]
  | .string, .string s => s.getD (ofString "(null)")
  | .signed, .int v => fl.signedText v.toInt
  | .signed, .long v => fl.signedText v.toInt
  | .unsigned, .uint v => padded fl.padChar fl.minWidth (numeral false 10 v.toNat)
  | .unsigned, .ulong v => padded fl.padChar fl.minWidth (numeral false 10 v.toNat)
  | .hex upper, .uint v => fl.hexText upper v.toNat
  | .hex upper, .ulong v => fl.hexText upper v.toNat
  | .pointer, .pointer p => ofString "0x" ++ padded 48 16 (numeral false 16 p.toNat)
  | _, _ => []

/-- And what a conversion is that takes none. -/
def plainText (c : UInt8) : List UInt8 := if convOf c = .percent then [37] else [37, c]

def expand : List Piece → List Arg → List UInt8
  | [], _ => []
  | .lit c :: ps, args => c :: expand ps args
  | .conv fl c :: ps, args =>
    if (convOf c).takesArg then
      match args with
      | [] => []
      | a :: args => argText fl (convOf c) a ++ expand ps args
    else plainText c ++ expand ps args

/-- The unlimited expansion of a format. -/
def expansion (fmt : List UInt8) (args : List Arg) : List UInt8 := expand ((parseFormat fmt).getD []) args

end Crimson.Str
