import Crimson.Str.Compare
import Crimson.Str.Decimal
import Crimson.Str.Strncpy

/-!
# The browser's URLs (`bloodmoon.c`)

`bm_parse_url` splits a URL without a grammar: it looks for the first colon and the first slash
behind the scheme, each for itself, and takes a colon for the port's only if it stands before
the slash. `bm_parse_url_spec` says that this gives back the parts the URL was put together
from.

The addresses that are written are reported.
-/

set_option autoImplicit false

namespace Crimson.Web

open Crimson.Lib Crimson.Str

/-- `strcpy(d, "/")`. -/
def putSlash (m : Mem) (d : Nat) : Traced Nat Mem := do
  let m ← putChar m d 47
  putChar m (d + 1) 0

/-- The host, of which there are `hostLen` characters at `p`. -/
def copyHost (m : Mem) (host hostSize p hostLen : Nat) : Traced Nat Mem := do
  let hostLen := if hostLen ≥ hostSize then hostSize - 1 else hostLen
  let r ← strncpy m host p hostLen
  putChar r.2 (host + hostLen) 0

/-- Behind the scheme, and the port of the scheme. -/
def skipScheme (m : Mem) (url : Nat) (port : Int32) : Nat × Int32 :=
  if strncmp (charsAt m url) (charAt (ofString "http://")) 7 = 0 then (url + 7, port)
  else if strncmp (charsAt m url) (charAt (ofString "https://")) 8 = 0 then (url + 8, 443)
  else (url, port)

/-- `colon && (!slash || colon < slash)`: the colon is that of a port. -/
def portColon : Option Nat → Option Nat → Option Nat
  | some colon, none => some colon
  | some colon, some slash => if colon < slash then some colon else none
  | none, _ => none

/-- The host, and the port if there is one: the memory and `*port`. -/
def parseHost (m : Mem) (p : Nat) (colon slash : Option Nat) (host hostSize : Nat) (port : Int32) :
    Traced Nat (Mem × Int32) :=
  match portColon colon slash, slash with
  | some c, _ => do
    let m' ← copyHost m host hostSize p (c - p)
    return (m', atoiAt m' (c + 1))
  | none, some s => do
    let m' ← copyHost m host hostSize p (s - p)
    return (m', port)
  | none, none => do
    let r ← strncpy m host p (hostSize - 1)
    let m' ← putChar r.2 (host + (hostSize - 1)) 0
    return (m', port)

def parsePath (m : Mem) (slash path : Option Nat) (pathSize : Nat) : Traced Nat Mem :=
  match path, slash with
  | some path, some s => do
    let r ← strncpy m path s (pathSize - 1)
    return r.2
  | some path, none => putSlash m path
  | none, _ => return m

/-- The memory and `*port`. -/
def bmParseUrl (m : Mem) (url host hostSize : Nat) (port : Int32) (path : Option Nat) (pathSize : Nat) :
    Traced Nat (Mem × Int32) := do
  let s := skipScheme m url port
  let colon := strchr m s.1 58
  let slash := strchr m s.1 47
  let r ← parseHost m s.1 colon slash host hostSize s.2
  let m' ← parsePath r.1 slash path pathSize
  return (m', r.2)

/-! ## URLs -/

inductive Scheme where
  | none
  | http
  | https
deriving DecidableEq, Repr

def Scheme.text : Scheme → List UInt8
  | .none => []
  | .http => ofString "http://"
  | .https => ofString "https://"

/-- The port of a URL that gives none. -/
def Scheme.port : Scheme → Nat
  | .https => 443
  | _ => 80

/-- A URL by its parts: a host of up to 254 characters, the digits of a port, and the path
    behind its slash. -/
structure Url where
  scheme : Scheme
  host : List UInt8
  digits : Option (List UInt8)
  path : Option (List UInt8)
  host_ne : host ≠ []
  host_length : host.length ≤ 254
  host_chars : ∀ c ∈ host, c ≠ 0 ∧ c ≠ 58 ∧ c ≠ 47
  port_ne : digits ≠ some []
  port_digits : ∀ ds ∈ digits, ∀ c ∈ ds, isDigit c = true
  port_value : ∀ ds ∈ digits, decimalValue ds ≤ 65535
  path_length : ∀ s ∈ path, s.length + 1 ≤ 510
  path_chars : ∀ s ∈ path, (0 : UInt8) ∉ s

namespace Url

variable (u : Url)

def portText : List UInt8 :=
  match u.digits with
  | none => []
  | some ds => 58 :: ds

def pathText : List UInt8 :=
  match u.path with
  | none => []
  | some s => 47 :: s

/-- What follows the scheme. -/
def rest : List UInt8 := u.host ++ (u.portText ++ u.pathText)

/-- The whole URL. -/
def text : List UInt8 := u.scheme.text ++ u.rest

def port : Nat :=
  match u.digits with
  | none => u.scheme.port
  | some ds => decimalValue ds

/-- The path that is asked for. -/
def target : List UInt8 :=
  match u.path with
  | none => [47]
  | some s => 47 :: s

end Url

/-- What a buffer is left with: a string in it, and nothing written outside it. -/
structure Fills (m : Mem) (a n : Nat) (s : List UInt8) (m' : Mem) (trace : List Nat) : Prop where
  holds : Holds m' a s
  inside : ∀ x ∈ trace, a ≤ x ∧ x < a + n
  unchanged : ∀ x, x < a ∨ a + n ≤ x → m' x = m x

variable {m : Mem} {a n p url : Nat} {s t : List UInt8}

/-! ## The buffers -/

theorem isString_of_holds (h : Holds m a s) (hs : (0 : UInt8) ∉ s) : IsString m a s.length := by
  constructor
  · intro i hi hzero
    have hchar := h.charsAt_eq (i := i) (by omega)
    rw [charsAt, hzero] at hchar
    have hmem := charAt_mem hi
    rw [← hchar] at hmem
    exact hs hmem
  · simpa using h.terminator

/-- A string that is shorter than the count fills a buffer of one byte more. -/
theorem strncpy_fills (h : Holds m p s) (hs : (0 : UInt8) ∉ s) (hlen : s.length < n)
    (happart : p + s.length < a ∨ a + n ≤ p) :
    Fills m a (n + 1) s (strncpy m a p n).val.2 (strncpy m a p n).trace := by
  rw [strncpy_short (isString_of_holds h hs) (by omega) hlen]
  constructor
  · refine Spells.moved h fun i hi => ?_
    rw [List.length_map] at hi
    dsimp only
    rw [fillBytes_of_notMem (by omega), copyBytes_of_mem (by omega) (by omega), Nat.add_sub_cancel_left]
  · intro x hx
    have hrange := List.mem_range'_1.mp hx
    omega
  · intro x hx
    dsimp only
    rw [fillBytes_of_notMem (by omega), copyBytes_of_notMem (by omega)]

/-- The front of a longer string, with a zero behind it. -/
theorem copyHost_fills (h : Holds m p (s ++ t)) (hs : (0 : UInt8) ∉ s ++ t) (hlen : s.length < n)
    (happart : p + (s ++ t).length < a ∨ a + n ≤ p) :
    Fills m a n s (copyHost m a n p s.length).val (copyHost m a n p s.length).trace := by
  have hcopy : strncpy m a p s.length = ⟨(a, copyBytes m a m p s.length), List.range' a s.length⟩ :=
    strncpy_long (isString_of_holds h hs) (by omega) (by simp)
  have hrun : copyHost m a n p s.length =
      ⟨Function.update (copyBytes m a m p s.length) (a + s.length) 0, List.range' a s.length ++ [a + s.length]⟩ := by
    unfold copyHost
    dsimp only
    rw [if_neg (by omega), hcopy]
    rfl
  rw [hrun]
  constructor
  · constructor
    · intro i hi
      rw [List.length_map] at hi
      dsimp only
      rw [Function.update_of_ne (by omega), copyBytes_of_mem (by omega) (by omega), Nat.add_sub_cancel_left]
      have hchar := h.chars i (by simp; omega)
      rw [hchar, List.getElem_map, List.getElem_map, List.getElem_append_left hi]
    · rw [List.length_map]
      exact Function.update_self ..
  · intro x hx
    rcases List.mem_append.mp hx with hx | hx
    · have hrange := List.mem_range'_1.mp hx
      omega
    · obtain rfl := List.mem_singleton.mp hx
      omega
  · intro x hx
    dsimp only
    rw [Function.update_of_ne (by omega), copyBytes_of_notMem (by omega)]

theorem putSlash_fills (hn : 2 ≤ n) : Fills m a n [47] (putSlash m a).val (putSlash m a).trace := by
  constructor
  · refine spells_cons.mpr ⟨?_, spells_nil.mpr ?_⟩
    · show Function.update (Function.update m a 47) (a + 1) 0 a = 47
      rw [Function.update_of_ne (by omega), Function.update_self]
    · exact Function.update_self ..
  · intro x hx
    have htrace : (putSlash m a).trace = [a, a + 1] := rfl
    rw [htrace, List.mem_pair] at hx
    omega
  · intro x hx
    show Function.update (Function.update m a 47) (a + 1) 0 x = m x
    rw [Function.update_of_ne (by omega), Function.update_of_ne (by omega)]

/-! ## The parts of a URL -/

section Parts

variable {u : Url}

/-- Behind the host stands its end, a colon or a slash. -/
theorem rest_delimiter : charAt u.rest u.host.length = 0 ∨ charAt u.rest u.host.length = 58 ∨
    charAt u.rest u.host.length = 47 := by
  have hbehind : charAt u.rest u.host.length = charAt (u.portText ++ u.pathText) 0 :=
    charAt_append_right u.host _ 0
  rw [hbehind]
  unfold Url.portText Url.pathText
  cases u.digits with
  | some ds => exact .inr (.inl rfl)
  | none =>
    cases u.path with
    | some s => exact .inr (.inr rfl)
    | none => exact .inl rfl

/-- No slash stands behind the colon of a port. -/
theorem rest_colon (h : charAt u.rest u.host.length = 58) : charAt u.rest (u.host.length + 1) ≠ 47 := by
  have hbehind (i : Nat) : charAt u.rest (u.host.length + i) = charAt (u.portText ++ u.pathText) i :=
    charAt_append_right u.host _ i
  have hcolon := hbehind 0
  rw [Nat.add_zero, h] at hcolon
  rw [hbehind]
  unfold Url.portText at hcolon ⊢
  cases hdigits : u.digits with
  | some ds =>
    cases ds with
    | nil => exact absurd hdigits u.port_ne
    | cons d ds =>
      have hdigit := u.port_digits _ (by rw [hdigits]; rfl) d List.mem_cons_self
      show d ≠ 47
      rintro rfl
      cases hdigit
  | none =>
    rw [hdigits] at hcolon
    unfold Url.pathText at hcolon
    cases hpath : u.path with
    | some s =>
      rw [hpath] at hcolon
      exact absurd hcolon (show (58 : UInt8) ≠ 47 by decide)
    | none =>
      rw [hpath] at hcolon
      exact absurd hcolon (show (58 : UInt8) ≠ 0 by decide)

/-- What follows the scheme does not begin with one. -/
theorem rest_noScheme (word : List UInt8) (hword : ∀ c ∈ word, c ≠ 0 ∧ c ≠ 58 ∧ c ≠ 47) (h : Holds m p u.rest) :
    strncmp (charsAt m p) (charAt (word ++ [58, 47, 47])) (word.length + 3) ≠ 0 := by
  have hlong : u.host.length ≤ u.rest.length := by simp [Url.rest]
  have hchars : ∀ j, j < word.length + 3 → charAt (word ++ [58, 47, 47]) j ≠ 0 := by
    intro j hj
    by_cases hin : j < word.length
    · rw [charAt_append_left hin]
      exact (hword _ (charAt_mem hin)).1
    · obtain ⟨i, rfl⟩ := Nat.exists_eq_add_of_le (Nat.not_lt.mp hin)
      rw [charAt_append_right]
      have hi : i = 0 ∨ i = 1 ∨ i = 2 := by omega
      rcases hi with rfl | rfl | rfl <;> decide
  rw [Ne, strncmp_eq_zero_iff hchars]
  intro hall
  rcases Nat.lt_trichotomy u.host.length word.length with hlt | heq | hgt
  · -- the host ends inside the word
    have hchar := hall u.host.length (by omega)
    rw [h.charsAt_eq hlong, charAt_append_left hlt] at hchar
    have hplain := hword _ (charAt_mem hlt)
    rw [← hchar] at hplain
    rcases rest_delimiter (u := u) with hd | hd | hd
    · exact hplain.1 hd
    · exact hplain.2.1 hd
    · exact hplain.2.2 hd
  · -- the host is the word, and the colon that of a port
    have hcolon := hall (word.length + 0) (by omega)
    have hslash := hall (word.length + 1) (by omega)
    rw [charAt_append_right, ← heq, Nat.add_zero, h.charsAt_eq hlong] at hcolon
    have hcolon : charAt u.rest u.host.length = 58 := hcolon
    have hin : u.host.length < u.rest.length := lt_of_charAt_ne (by rw [hcolon]; decide)
    rw [charAt_append_right, ← heq, h.charsAt_eq hin] at hslash
    exact rest_colon hcolon hslash
  · -- the colon of the scheme is in the host
    have hchar := hall (word.length + 0) (by omega)
    rw [charAt_append_right, Nat.add_zero, h.charsAt_eq (by omega)] at hchar
    have hhost : charAt u.rest word.length = charAt u.host word.length := charAt_append_left hgt
    rw [hhost] at hchar
    exact (u.host_chars _ (charAt_mem hgt)).2.1 hchar

/-- What stands in front of a string. -/
theorem strncmp_front {lit : List UInt8} (h : Holds m url (lit ++ t)) (hlit : (0 : UInt8) ∉ lit) :
    strncmp (charsAt m url) (charAt lit) lit.length = 0 := by
  have hchars : ∀ j, j < lit.length → charAt lit j ≠ 0 := by
    intro j hj hzero
    have hmem := charAt_mem hj
    rw [hzero] at hmem
    exact hlit hmem
  apply (strncmp_eq_zero_iff hchars).mpr
  intro j hj
  rw [h.charsAt_eq (by simp; omega), charAt_append_left hj]

theorem skipScheme_eq (h : Holds m url u.text) :
    skipScheme m url 80 = (url + u.scheme.text.length, Int32.ofNat u.scheme.port) := by
  unfold skipScheme
  cases hscheme : u.scheme with
  | none =>
    have hrest : Holds m url u.rest := by
      rwa [Url.text, hscheme] at h
    have hhttp : strncmp (charsAt m url) (charAt (ofString "http://")) 7 ≠ 0 :=
      rest_noScheme (ofString "http") (by simp [ofString]) hrest
    have hhttps : strncmp (charsAt m url) (charAt (ofString "https://")) 8 ≠ 0 :=
      rest_noScheme (ofString "https") (by simp [ofString]) hrest
    rw [if_neg hhttp, if_neg hhttps]
    rfl
  | http =>
    rw [Url.text, hscheme] at h
    have hhttp : strncmp (charsAt m url) (charAt (ofString "http://")) 7 = 0 := strncmp_front h (by decide)
    rw [if_pos hhttp]
    rfl
  | https =>
    rw [Url.text, hscheme] at h
    have hhttps : strncmp (charsAt m url) (charAt (ofString "https://")) 8 = 0 := strncmp_front h (by decide)
    have hhttp : strncmp (charsAt m url) (charAt (ofString "http://")) 7 ≠ 0 := by
      intro hzero
      have hall := (strncmp_eq_zero_iff (by decide)).mp hzero 4 (by decide)
      rw [h.charsAt_eq (by simp [Scheme.text, ofString]), charAt_append_left (by decide)] at hall
      exact absurd hall (by decide)
    rw [if_neg hhttp, if_pos hhttps]
    rfl

/-! ## Colon and slash -/

theorem digit_chars {c : UInt8} (h : isDigit c = true) : c ≠ 0 ∧ c ≠ 58 ∧ c ≠ 47 := by
  refine ⟨?_, ?_, ?_⟩
  · rintro rfl
    cases h
  · rintro rfl
    cases h
  · rintro rfl
    cases h

theorem slash_notMem_portText : (47 : UInt8) ∉ u.portText := by
  unfold Url.portText
  cases hdigits : u.digits with
  | none => simp
  | some ds =>
    have hds : (47 : UInt8) ∉ ds := fun h => (digit_chars (u.port_digits ds hdigits _ h)).2.2 rfl
    simpa using hds

theorem zero_notMem_portText : (0 : UInt8) ∉ u.portText := by
  unfold Url.portText
  cases hdigits : u.digits with
  | none => simp
  | some ds =>
    have hds : (0 : UInt8) ∉ ds := fun h => (digit_chars (u.port_digits ds hdigits _ h)).1 rfl
    simpa using hds

theorem zero_notMem_pathText : (0 : UInt8) ∉ u.pathText := by
  unfold Url.pathText
  cases hpath : u.path with
  | none => simp
  | some s => simpa using u.path_chars s hpath

theorem zero_notMem_host : (0 : UInt8) ∉ u.host := fun h => (u.host_chars _ h).1 rfl

theorem colon_notMem_host : (58 : UInt8) ∉ u.host := fun h => (u.host_chars _ h).2.1 rfl

theorem slash_notMem_host : (47 : UInt8) ∉ u.host := fun h => (u.host_chars _ h).2.2 rfl

theorem zero_notMem_rest : (0 : UInt8) ∉ u.rest := by
  simp [Url.rest, zero_notMem_host, zero_notMem_portText, zero_notMem_pathText]

/-- The first slash behind the scheme is that of the path. -/
theorem slash_eq (h : Holds m p u.rest) (hlen : u.rest.length < 2 ^ 64) :
    strchr m p 47 = u.path.map fun _ => p + (u.host.length + u.portText.length) := by
  rw [strchr_eq h zero_notMem_rest (by decide) hlen]
  cases hpath : u.path with
  | none =>
    have hnone : (47 : UInt8) ∉ u.rest := by
      simp [Url.rest, Url.pathText, hpath, slash_notMem_host, slash_notMem_portText]
    exact if_neg hnone
  | some s =>
    have hmem : (47 : UInt8) ∈ u.rest := by simp [Url.rest, Url.pathText, hpath]
    have hidx : u.rest.idxOf 47 = u.host.length + u.portText.length := by
      rw [Url.rest, List.idxOf_append_of_notMem slash_notMem_host, List.idxOf_append_of_notMem slash_notMem_portText,
        Url.pathText, hpath, List.idxOf_cons_self, Nat.add_zero]
    rw [if_pos hmem, hidx]
    rfl

/-- **A colon counts exactly if it is that of the port.** -/
theorem portColon_eq (h : Holds m p u.rest) (hlen : u.rest.length < 2 ^ 64) :
    portColon (strchr m p 58) (strchr m p 47) = u.digits.map fun _ => p + u.host.length := by
  rw [slash_eq h hlen, strchr_eq h zero_notMem_rest (by decide) hlen]
  cases hdigits : u.digits with
  | some ds =>
    have hmem : (58 : UInt8) ∈ u.rest := by simp [Url.rest, Url.portText, hdigits]
    have hidx : u.rest.idxOf 58 = u.host.length := by
      rw [Url.rest, List.idxOf_append_of_notMem colon_notMem_host, Url.portText, hdigits, List.cons_append,
        List.idxOf_cons_self, Nat.add_zero]
    rw [if_pos hmem, hidx]
    cases u.path with
    | none => rfl
    | some s => exact if_pos (by simp [Url.portText, hdigits])
  | none =>
    cases hpath : u.path with
    | none =>
      have hnone : (58 : UInt8) ∉ u.rest := by
        simp [Url.rest, Url.portText, Url.pathText, hdigits, hpath, colon_notMem_host]
      rw [if_neg hnone]
      rfl
    | some s =>
      -- a colon here is one in the path, behind the slash
      have hidx : u.host.length < u.rest.idxOf 58 := by
        rw [Url.rest, List.idxOf_append_of_notMem colon_notMem_host, Url.portText, hdigits, List.nil_append,
          Url.pathText, hpath, List.idxOf_cons_ne _ (by decide)]
        omega
      split
      · exact if_neg (by simp [Url.portText, hdigits]; omega)
      · rfl

end Parts

/-! ## The parts back -/

/-- The buffers, each apart from the other and from the URL. -/
structure Apart (url len host path : Nat) : Prop where
  urlHost : url + len < host ∨ host + 256 ≤ url
  urlPath : url + len < path ∨ path + 512 ≤ url
  buffers : host + 256 ≤ path ∨ path + 512 ≤ host

/-- A string outside the buffer is still there. -/
theorem Fills.keeps {m' : Mem} {trace : List Nat} (hf : Fills m a n s m' trace) (h : Holds m p t)
    (happart : p + t.length < a ∨ a + n ≤ p) : Holds m' p t :=
  h.congr fun x hx hx' => hf.unchanged x (by omega)

/-- A zero at the end of the buffer, behind the string. -/
theorem Fills.putLast {m' : Mem} {trace : List Nat} (hf : Fills m a (n + 1) s m' trace) (hlen : s.length < n) :
    Fills m a (n + 1) s (putChar m' (a + n) 0).val (trace ++ [a + n]) := by
  constructor
  · refine hf.holds.congr fun x hx hx' => Function.update_of_ne ?_ ..
    omega
  · intro x hx
    rcases List.mem_append.mp hx with hx | hx
    · exact hf.inside x hx
    · obtain rfl := List.mem_singleton.mp hx
      omega
  · intro x hx
    have hne : x ≠ a + n := by omega
    exact (Function.update_of_ne hne ..).trans (hf.unchanged x hx)

/-- `atoi` behind the colon of a port. -/
theorem atoiAt_port {ds : List UInt8} {m' : Mem} (h : Holds m' p (58 :: ds ++ t)) (hzero : (0 : UInt8) ∉ ds ++ t)
    (hds : ∀ c ∈ ds, isDigit c = true) (hne : ds ≠ []) (ht : ∀ c ∈ t.head?, isDigit c = false)
    (hlen : (ds ++ t).length < 2 ^ 64) : atoiAt m' (p + 1) = Int32.ofNat (decimalValue ds) := by
  have hbehind : Holds m' (p + 1) (ds ++ t) := (spells_cons.mp h).2
  rw [atoiAt, hbehind.stringAt_eq hzero hlen, atoi_digits hds hne ht]

/-- The host goes to its buffer, and the port is the one given or that of the scheme. -/
theorem parseHost_spec {u : Url} (host : Nat) (h : Holds m p u.rest) (hlen : p + u.rest.length < 2 ^ 64)
    (happart : p + u.rest.length < host ∨ host + 256 ≤ p) :
    Fills m host 256 u.host
        (parseHost m p (strchr m p 58) (strchr m p 47) host 256 (Int32.ofNat u.scheme.port)).val.1
        (parseHost m p (strchr m p 58) (strchr m p 47) host 256 (Int32.ofNat u.scheme.port)).trace ∧
      (parseHost m p (strchr m p 58) (strchr m p 47) host 256 (Int32.ofNat u.scheme.port)).val.2 =
        Int32.ofNat u.port := by
  have hhost := u.host_length
  have hcopy : Fills m host 256 u.host (copyHost m host 256 p u.host.length).val
      (copyHost m host 256 p u.host.length).trace :=
    copyHost_fills h zero_notMem_rest (by omega) happart
  unfold parseHost
  rw [portColon_eq h (by omega), slash_eq h (by omega)]
  unfold Url.port
  cases hdigits : u.digits with
  | some ds =>
    have htext : u.rest = u.host ++ (58 :: ds ++ u.pathText) := by
      rw [Url.rest, Url.portText, hdigits]
    -- the port is read when the host has been copied, which leaves the text alone
    have hport : atoiAt (copyHost m host 256 p u.host.length).val (p + u.host.length + 1) =
        Int32.ofNat (decimalValue ds) := by
      have hkept := (hcopy.keeps h happart)
      have hzero := zero_notMem_rest (u := u)
      rw [htext] at hkept hzero
      have hlong : u.rest.length = u.host.length + (1 + (ds ++ u.pathText).length) := by
        rw [htext]
        simp
        omega
      refine atoiAt_port hkept.append (by simp at hzero ⊢; tauto) (u.port_digits ds hdigits)
        (fun hnil => u.port_ne (by rw [hdigits, hnil])) ?_ (by omega)
      intro c hc
      unfold Url.pathText at hc
      cases hpath : u.path with
      | none =>
        rw [hpath] at hc
        cases hc
      | some s =>
        rw [hpath] at hc
        cases hc
        decide
    simp only [Option.map_some, Nat.add_sub_cancel_left, Traced.val_bind, Traced.trace_bind, Traced.val_pure,
      Traced.trace_pure, List.append_nil]
    exact ⟨hcopy, hport⟩
  | none =>
    have hportText : u.portText = [] := by rw [Url.portText, hdigits]
    cases hpath : u.path with
    | some s =>
      simp only [Option.map_some, Option.map_none, hportText, List.length_nil, Nat.add_zero, Nat.add_sub_cancel_left,
        Traced.val_bind, Traced.trace_bind, Traced.val_pure, Traced.trace_pure, List.append_nil]
      exact ⟨hcopy, trivial⟩
    | none =>
      have htext : u.rest = u.host := by
        rw [Url.rest, hportText, Url.pathText, hpath, List.nil_append, List.append_nil]
      rw [htext] at h happart
      have hfills := (strncpy_fills (a := host) (n := 255) h zero_notMem_host (by omega) (by omega)).putLast (by omega)
      simp only [Option.map_none, Traced.val_bind, Traced.trace_bind, Traced.val_pure, Traced.trace_pure, List.append_nil]
      exact ⟨hfills, trivial⟩

/-- The path goes to its buffer, or "/" does. -/
theorem parsePath_spec {u : Url} (path : Nat) (h : Holds m (p + (u.host.length + u.portText.length)) u.pathText)
    (happart : p + u.rest.length < path ∨ path + 512 ≤ p) :
    Fills m path 512 u.target
      (parsePath m (u.path.map fun _ => p + (u.host.length + u.portText.length)) (some path) 512).val
      (parsePath m (u.path.map fun _ => p + (u.host.length + u.portText.length)) (some path) 512).trace := by
  have hlong : u.rest.length = u.host.length + u.portText.length + u.pathText.length := by
    simp [Url.rest]
    omega
  unfold Url.target
  cases hpath : u.path with
  | none => exact putSlash_fills (by omega)
  | some s =>
    have htext : u.pathText = 47 :: s := by rw [Url.pathText, hpath]
    have hzero := zero_notMem_pathText (u := u)
    have hlen : u.pathText.length < 511 := by
      have hs := u.path_length s hpath
      rw [htext, List.length_cons]
      omega
    have hfills := strncpy_fills (a := path) (n := 511) h hzero hlen (by omega)
    simp only [Option.map_some, parsePath, Traced.val_bind, Traced.trace_bind, Traced.val_pure, Traced.trace_pure,
      List.append_nil]
    rwa [htext] at hfills

/-- **A URL is parsed into the parts it was put together from**, within the buffers. -/
theorem bm_parse_url_spec (u : Url) (m : Mem) (url host path : Nat) (h : Holds m url u.text)
    (hfits : url + u.text.length < 2 ^ 64) (happart : Apart url u.text.length host path) :
    let r := bmParseUrl m url host 256 80 (some path) 512
    Holds r.val.1 host u.host ∧ Holds r.val.1 path u.target ∧ r.val.2.toInt = u.port ∧
      (∀ x ∈ r.trace, (host ≤ x ∧ x < host + 256) ∨ (path ≤ x ∧ x < path + 512)) ∧
      ∀ x, (x < host ∨ host + 256 ≤ x) → (x < path ∨ path + 512 ≤ x) → r.val.1 x = m x := by
  have hlong : u.text.length = u.scheme.text.length + u.rest.length := by simp [Url.text]
  obtain ⟨hurlHost, hurlPath, hbuffers⟩ := happart
  have hrest : Holds m (url + u.scheme.text.length) u.rest := Holds.append h
  obtain ⟨hhost, hport⟩ := parseHost_spec host hrest (by omega) (by omega)
  have hslash := slash_eq hrest (by omega)
  rw [hslash] at hhost hport
  unfold bmParseUrl
  rw [skipScheme_eq h]
  simp only [hslash, Traced.val_bind, Traced.trace_bind, Traced.val_pure, Traced.trace_pure, List.append_nil]
  generalize parseHost m (url + u.scheme.text.length) (strchr m (url + u.scheme.text.length) 58) _ host 256
    (Int32.ofNat u.scheme.port) = r at hhost hport ⊢
  have hkept : Holds r.val.1 (url + u.scheme.text.length + (u.host.length + u.portText.length)) u.pathText := by
    have hall := hhost.keeps hrest (by omega)
    rw [Url.rest, ← List.append_assoc] at hall
    have hpathText := hall.append
    rwa [List.length_append] at hpathText
  have hpath := parsePath_spec path hkept (by omega)
  have hhostLen := u.host_length
  refine ⟨hpath.keeps hhost.holds (by omega), hpath.holds, ?_, ?_, ?_⟩
  · rw [hport]
    have hvalue : u.port ≤ 65535 := by
      unfold Url.port
      cases hdigits : u.digits with
      | none => cases u.scheme <;> decide
      | some ds => exact u.port_value ds hdigits
    exact Int32.toInt_ofNat_of_lt (by omega)
  · intro x hx
    rcases List.mem_append.mp hx with hx | hx
    · exact .inl (hhost.inside x hx)
    · exact .inr (hpath.inside x hx)
  · intro x hxhost hxpath
    rw [hpath.unchanged x hxpath, hhost.unchanged x hxhost]

/-- `https://a.b:8080/x:y`. -/
def portUrl : Url where
  scheme := .https
  host := ofString "a.b"
  digits := some (ofString "8080")
  path := some (ofString "x:y")
  host_ne := by decide
  host_length := by decide
  host_chars := by simp [ofString]
  port_ne := by decide
  port_digits := by simp [ofString, isDigit]
  port_value := by decide
  path_length := by decide
  path_chars := by decide

theorem bm_parse_url_port :
    let m : Mem := fun x => (charAt portUrl.text (x - 1000)).toBitVec
    Holds (bmParseUrl m 1000 2000 256 80 (some 3000) 512).val.1 2000 (ofString "a.b") ∧
      Holds (bmParseUrl m 1000 2000 256 80 (some 3000) 512).val.1 3000 (ofString "/x:y") ∧
      (bmParseUrl m 1000 2000 256 80 (some 3000) 512).val.2.toInt = 8080 := by
  intro m
  have hurl : Holds m 1000 portUrl.text := by
    constructor
    · intro i hi
      rw [List.length_map] at hi
      show (charAt portUrl.text (1000 + i - 1000)).toBitVec = _
      rw [Nat.add_sub_cancel_left, charAt_of_lt hi, List.getElem_map]
    · rw [List.length_map]
      rfl
  have hspec := bm_parse_url_spec portUrl m 1000 2000 3000 hurl (by decide)
    ⟨by decide, by decide, by decide⟩
  exact ⟨hspec.1, hspec.2.1, hspec.2.2.1⟩

end Crimson.Web
