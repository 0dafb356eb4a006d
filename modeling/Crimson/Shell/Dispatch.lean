import Mathlib.Data.List.TakeWhile
import Crimson.Str.Model

/-!
# The shell's command line (`shell.c`)

`shell_execute` cuts the line in `shell_buffer` into words, in place: `shell_parse_args` writes
a zero behind each word and keeps pointers to the words' first characters. The handlers
`cmd_pkg` and `cmd_sec` do not use these pointers; they look for their arguments in
`shell_buffer` once more. There the line is over at the first of the zeros, right behind the
word `pkg` or `sec`, so what follows on the line never reaches `pkg_shell_dispatch` or
`security_shell_dispatch`; and where the line starts with a space it is the word `pkg` itself
that is taken for the subcommand.

Pointers into `shell_buffer` are offsets.
-/

set_option autoImplicit false

namespace Crimson.Shell

open Crimson.Str

def shellMaxLine : Nat := 256
def shellMaxArgs : Nat := 16
def shellHistory : Nat := 16

/-- The handlers of the command table. -/
inductive Command where
  | help | ps | kill | mem | dmesg | uptime | version | reboot | gpio | cpu | debug | clear | echo | sysctl
  | ls | cat | top | hexdump | uname | whoami | date | mount | benchmark | net | crypto | pen | pkg | sec
deriving DecidableEq, Repr

/-- `commands`: the names and their handlers. -/
def commands : List (List UInt8 × Command) :=
  [("help", .help), ("?", .help), ("ps", .ps), ("kill", .kill), ("mem", .mem), ("dmesg", .dmesg),
    ("uptime", .uptime), ("version", .version), ("reboot", .reboot), ("gpio", .gpio), ("cpu", .cpu),
    ("debug", .debug), ("clear", .clear), ("echo", .echo), ("sysctl", .sysctl), ("ls", .ls), ("cat", .cat),
    ("top", .top), ("hexdump", .hexdump), ("uname", .uname), ("whoami", .whoami), ("date", .date),
    ("mount", .mount), ("benchmark", .benchmark), ("net", .net), ("crypto", .crypto), ("pen", .pen),
    ("pkg", .pkg), ("sec", .sec)].map fun (name, cmd) => (ofString name, cmd)

/-- The static variables of the shell; `argv` are offsets. -/
structure ShellState where
  buffer : List UInt8
  argv : List Nat
  history : Nat → List UInt8
  historyCount : Nat
  historyIdx : Nat

/-- What `cmd_pkg` and `cmd_sec` end in: the help, or the dispatcher with a command and its
    arguments. -/
inductive SubCall where
  | help
  | dispatch (cmd : List UInt8) (args : List (List UInt8))
deriving DecidableEq, Repr

/-- What a line comes to; of the other handlers only the name is kept. -/
inductive ShellAction where
  | nothing
  | notFound (name : List UInt8)
  | command (cmd : Command)
  | pkg (call : SubCall)
  | sec (call : SubCall)
deriving DecidableEq, Repr

/-! ## Walking in the buffer -/

def space : UInt8 := 32
def tab : UInt8 := 9

/-- `*p` -/
def byteAt (buf : List UInt8) (p : Nat) : UInt8 := buf.getD p 0

/-- `while (test(*p)) p++` -/
def skip (test : UInt8 → Bool) (buf : List UInt8) (p : Nat) : Nat := p + ((buf.drop p).takeWhile test).length

def isBlank (c : UInt8) : Bool := c = space ∨ c = tab

/-- A character of a word, for `shell_parse_args` and for the two handlers. -/
def inWord (c : UInt8) : Bool := c ≠ 0 ∧ c ≠ space ∧ c ≠ tab
def inArg (c : UInt8) : Bool := c ≠ 0 ∧ c ≠ space
def isSpace (c : UInt8) : Bool := c = space

/-- The string at an offset. -/
def stringAt (buf : List UInt8) (p : Nat) : List UInt8 := cstr (buf.drop p)

/-- The loop of `shell_parse_args` with room for `room` more words: their offsets, and the
    buffer. -/
def parseLoop : Nat → List UInt8 → Nat → List Nat × List UInt8
  | 0, buf, _ => ([], buf)
  | room + 1, buf, p =>
    if byteAt buf p = 0 then ([], buf)
    else
      let start := skip isBlank buf p
      if byteAt buf start = 0 then ([], buf)
      else
        let stop := skip inWord buf start
        let rest := if byteAt buf stop ≠ 0 then parseLoop room (buf.set stop 0) (stop + 1) else parseLoop room buf stop
        (start :: rest.1, rest.2)

def shellParseArgs (s : ShellState) : ShellState :=
  let parsed := parseLoop shellMaxArgs s.buffer 0
  { s with argv := parsed.1, buffer := parsed.2 }

/-- The loop of `cmd_pkg` and of `cmd_sec`. -/
def argLoop : Nat → List UInt8 → Nat → List Nat × List UInt8
  | 0, buf, _ => ([], buf)
  | room + 1, buf, p =>
    if byteAt buf p = 0 then ([], buf)
    else
      let stop := skip inArg buf p
      let rest :=
        if byteAt buf stop ≠ 0 then
          argLoop room (buf.set stop 0) (skip isSpace (buf.set stop 0) (stop + 1))
        else argLoop room buf (skip isSpace buf stop)
      (p :: rest.1, rest.2)

/-- The common body of `cmd_pkg` and `cmd_sec`. -/
def subcommand (s : ShellState) : SubCall × ShellState :=
  let p := skip isSpace s.buffer (skip inArg s.buffer 0)
  let parsed := argLoop shellMaxArgs s.buffer p
  match parsed.1 with
  | [] => (.help, { s with buffer := parsed.2 })
  | cmd :: args =>
    (.dispatch (stringAt parsed.2 cmd) (args.map (stringAt parsed.2)), { s with buffer := parsed.2 })

def cmdPkg (s : ShellState) : ShellAction × ShellState := ((subcommand s).1 |> ShellAction.pkg, (subcommand s).2)
def cmdSec (s : ShellState) : ShellAction × ShellState := ((subcommand s).1 |> ShellAction.sec, (subcommand s).2)

/-- `cmd->handler()` -/
def handler (s : ShellState) : Command → ShellAction × ShellState
  | .pkg => cmdPkg s
  | .sec => cmdSec s
  | cmd => (.command cmd, s)

/-- The line goes into the history. -/
def storeHistory (s : ShellState) : ShellState :=
  { s with
    history := Function.update s.history s.historyIdx ((cstr s.buffer).take (shellMaxLine - 1))
    historyIdx := (s.historyIdx + 1) % shellHistory
    historyCount := if s.historyCount < shellHistory then s.historyCount + 1 else s.historyCount }

def shellExecute (s : ShellState) : ShellAction × ShellState :=
  let s := shellParseArgs (storeHistory s)
  match s.argv with
  | [] => (.nothing, s)
  | arg :: _ =>
    match commands.find? fun cmd => stringAt s.buffer arg = cmd.1 with
    | some cmd => handler s cmd.2
    | none => (.notFound (stringAt s.buffer arg), s)

/-! ## What the shell is for -/

/-- The words of a line. -/
def words (line : List UInt8) : List (List UInt8) := (line.splitOnP isBlank).filter fun w => w ≠ []

/-- A line of two words, each of them the name of the command, with a space before the first
    one and no tab behind that space. -/
def OnlyItself (line name cmd : List UInt8) (args : List (List UInt8)) : Prop :=
  args = [] ∧ cmd = name ∧
    ∃ n, (line.takeWhile isBlank).dropWhile (fun c => c ≠ space) = List.replicate (n + 1) space

/-! ## The first word of a line -/

theorem words_blank {b : UInt8} (hb : isBlank b = true) (line : List UInt8) : words (b :: line) = words line := by
  rw [words, List.splitOnP_cons_eq_if_modifyHead, if_pos hb]
  simp [words]

theorem words_lead {lead : List UInt8} (hlead : ∀ c ∈ lead, isBlank c = true) (line : List UInt8) :
    words (lead ++ line) = words line := by
  induction lead with
  | nil => rfl
  | cons c lead ih =>
    rw [List.cons_append, words_blank (hlead c List.mem_cons_self)]
    exact ih fun d hd => hlead d (List.mem_cons_of_mem c hd)

theorem words_word {w : List UInt8} (hw : ∀ c ∈ w, isBlank c = false) (hne : w ≠ []) {b : UInt8}
    (hb : isBlank b = true) (line : List UInt8) : words (w ++ b :: line) = w :: words line := by
  rw [words, List.splitOnP_append_cons_of_forall_mem hw b hb, List.filter_cons]
  simp [words, hne]

theorem words_single {w : List UInt8} (hw : ∀ c ∈ w, isBlank c = false) : words w = if w = [] then [] else [w] := by
  rw [words, List.splitOnP_eq_singleton hw]
  by_cases h : w = [] <;> simp [h]

theorem words_notBlank {line w : List UInt8} (h : w ∈ words line) : ∀ c ∈ w, isBlank c = false := by
  have hsplit : ∀ v ∈ line.splitOnP isBlank, ∀ c ∈ v, isBlank c = false := by
    clear h
    induction line with
    | nil => simp
    | cons d line ih =>
      obtain ⟨v, vs, hv⟩ := List.exists_cons_of_ne_nil (List.splitOnP_ne_nil isBlank line)
      rw [hv] at ih
      rw [List.splitOnP_cons_eq_if_modifyHead, hv]
      split
      · intro u hu
        rcases List.mem_cons.mp hu with rfl | hu
        · simp
        · exact ih u hu
      · rename_i hd
        intro u hu
        rcases List.mem_cons.mp hu with rfl | hu
        · intro c hc
          rcases List.mem_cons.mp hc with rfl | hc
          · simpa using hd
          · exact ih v List.mem_cons_self c hc
        · exact ih u (List.mem_cons_of_mem v hu)
  exact hsplit w (List.mem_filter.mp h).1

/-- A line with two words or more starts with blanks, the first word and a blank. -/
theorem line_of_words {line name cmd : List UInt8} {args : List (List UInt8)}
    (h : words line = name :: cmd :: args) :
    ∃ b tail, line = line.takeWhile isBlank ++ (name ++ b :: tail) ∧ isBlank b = true ∧
      (∀ c ∈ name, isBlank c = false) ∧ name ≠ [] ∧ words tail = cmd :: args := by
  have hlead : ∀ c ∈ line.takeWhile isBlank, isBlank c = true := fun c hc => List.mem_takeWhile_imp hc
  have hsplit : line.takeWhile isBlank ++ line.dropWhile isBlank = line := List.takeWhile_append_dropWhile
  have hbody : words (line.dropWhile isBlank) = name :: cmd :: args := by
    rw [← words_lead hlead, hsplit, h]
  set body := line.dropWhile isBlank with hdef
  have hsplit' : body.takeWhile (fun c => !isBlank c) ++ body.dropWhile (fun c => !isBlank c) = body :=
    List.takeWhile_append_dropWhile
  have hword : ∀ c ∈ body.takeWhile (fun c => !isBlank c), isBlank c = false := by
    intro c hc
    simpa using List.mem_takeWhile_imp hc
  cases hrest : body.dropWhile (fun c => !isBlank c) with
  | nil =>
    -- a body without a blank is one word
    rw [hrest, List.append_nil] at hsplit'
    rw [hsplit'] at hword
    rw [words_single hword] at hbody
    split at hbody <;> simp at hbody
  | cons b tail =>
    have hb : isBlank b = true := by
      have hne : body.dropWhile (fun c => !isBlank c) ≠ [] := by simp [hrest]
      have hhead := List.head_dropWhile_not (fun c => !isBlank c) hne
      simpa [hrest] using hhead
    rw [hrest] at hsplit'
    have hfirst : body.takeWhile (fun c => !isBlank c) ≠ [] := by
      intro hnil
      rw [hnil, List.nil_append] at hsplit'
      have hne : line.dropWhile isBlank ≠ [] := by simp [← hdef, ← hsplit']
      have hhead := List.head_dropWhile_not isBlank hne
      simp only [← hdef, ← hsplit', List.head_cons, hb] at hhead
      exact absurd hhead (by decide)
    rw [← hsplit', words_word hword hfirst hb] at hbody
    simp only [List.cons.injEq] at hbody
    obtain ⟨hname, htail⟩ := hbody
    refine ⟨b, tail, ?_, hb, ?_, ?_, htail⟩
    · rw [← hname, hsplit', hsplit]
    · rw [← hname]
      exact hword
    · rw [← hname]
      exact hfirst

/-! ## The first pass over the buffer -/

theorem skip_append {test : UInt8 → Bool} (pre : List UInt8) {w : List UInt8} {c : UInt8} {rest : List UInt8}
    (hw : ∀ d ∈ w, test d = true) (hc : test c = false) :
    skip test (pre ++ (w ++ c :: rest)) pre.length = (pre ++ w).length := by
  rw [skip, List.drop_left, List.takeWhile_append_of_pos hw, List.takeWhile_cons]
  simp [hc]

theorem byteAt_append (pre : List UInt8) (c : UInt8) (rest : List UInt8) : byteAt (pre ++ c :: rest) pre.length = c := by
  simp [byteAt]

theorem le_skip (test : UInt8 → Bool) (buf : List UInt8) (p : Nat) : p ≤ skip test buf p := Nat.le_add_right _ _

/-- The parser leaves what it has passed as it is. -/
theorem take_parseLoop (room : Nat) (buf : List UInt8) (p : Nat) {k : Nat} (hk : k ≤ p) :
    (parseLoop room buf p).2.take k = buf.take k := by
  induction room generalizing buf p with
  | zero => rfl
  | succ room ih =>
    rw [parseLoop]
    split
    · rfl
    · simp only
      split
      · rfl
      · have hstop : k ≤ skip inWord buf (skip isBlank buf p) :=
          hk.trans ((le_skip isBlank buf p).trans (le_skip inWord buf _))
        split
        · simp only
          rw [ih _ _ (Nat.le_succ_of_le hstop), List.take_set_of_le hstop]
        · exact ih _ _ hstop

theorem inWord_ne {c : UInt8} (h : inWord c = true) : c ≠ 0 ∧ isBlank c = false ∧ inArg c = true := by
  simp only [inWord, isBlank, inArg, decide_eq_true_eq, decide_eq_false_iff_not, not_or] at h ⊢
  exact ⟨h.1, h.2, h.1, h.2.1⟩

theorem isBlank_ne {c : UInt8} (h : isBlank c = true) : c ≠ 0 ∧ inWord c = false := by
  simp only [isBlank, decide_eq_true_eq] at h
  rcases h with rfl | rfl <;> decide

/-- The first word of a line: a pointer to it, with a zero behind it. -/
theorem parseLoop_first {room : Nat} {lead name : List UInt8} {b : UInt8} {rest : List UInt8}
    (hlead : ∀ c ∈ lead, isBlank c = true) (hname : ∀ c ∈ name, inWord c = true) (hne : name ≠ [])
    (hb : isBlank b = true) :
    ∃ starts rest', parseLoop (room + 1) (lead ++ (name ++ b :: rest)) 0 =
      (lead.length :: starts, lead ++ (name ++ 0 :: rest')) := by
  obtain ⟨c, cs, rfl⟩ := List.exists_cons_of_ne_nil hne
  have hc := inWord_ne (hname c List.mem_cons_self)
  have hfirst : byteAt (lead ++ (c :: cs ++ b :: rest)) 0 ≠ 0 := by
    cases lead with
    | nil => exact hc.1
    | cons d lead => exact (isBlank_ne (hlead d List.mem_cons_self)).1
  have hstart : skip isBlank (lead ++ (c :: cs ++ b :: rest)) 0 = lead.length := skip_append [] hlead hc.2.1
  have hchar : byteAt (lead ++ (c :: cs ++ b :: rest)) lead.length ≠ 0 := by
    rw [List.cons_append, byteAt_append]
    exact hc.1
  have hstop : skip inWord (lead ++ (c :: cs ++ b :: rest)) lead.length = (lead ++ c :: cs).length :=
    skip_append lead hname (isBlank_ne hb).2
  have hblank : byteAt (lead ++ (c :: cs ++ b :: rest)) (lead ++ c :: cs).length ≠ 0 := by
    rw [← List.append_assoc, byteAt_append]
    exact (isBlank_ne hb).1
  have hset : (lead ++ (c :: cs ++ b :: rest)).set (lead ++ c :: cs).length 0 = (lead ++ c :: cs) ++ 0 :: rest := by
    rw [← List.append_assoc, List.set_append_right _ _ (Nat.le_refl _)]
    simp
  rw [parseLoop, if_neg hfirst]
  simp only [hstart, if_neg hchar, hstop, if_pos hblank, hset]
  -- the rest of the pass keeps everything up to the zero
  have hkeep := take_parseLoop room ((lead ++ c :: cs) ++ 0 :: rest) ((lead ++ c :: cs).length + 1) (Nat.le_refl _)
  rw [List.take_append, List.take_of_length_le (Nat.le_succ _)] at hkeep
  simp only [Nat.add_sub_cancel_left, List.take_succ_cons, List.take_zero] at hkeep
  generalize parseLoop room ((lead ++ c :: cs) ++ 0 :: rest) ((lead ++ c :: cs).length + 1) = r at hkeep ⊢
  refine ⟨r.1, r.2.drop ((lead ++ c :: cs).length + 1), Prod.ext rfl ?_⟩
  calc r.2 = r.2.take ((lead ++ c :: cs).length + 1) ++ r.2.drop ((lead ++ c :: cs).length + 1) :=
        (List.take_append_drop _ _).symm
    _ = lead ++ (c :: cs ++ 0 :: r.2.drop ((lead ++ c :: cs).length + 1)) := by
        rw [hkeep]
        simp

/-! ## The second pass over the buffer -/

theorem take_argLoop (room : Nat) (buf : List UInt8) (p : Nat) {k : Nat} (hk : k ≤ p) :
    (argLoop room buf p).2.take k = buf.take k := by
  induction room generalizing buf p with
  | zero => rfl
  | succ room ih =>
    rw [argLoop]
    split
    · rfl
    · have hstop : k ≤ skip inArg buf p := hk.trans (le_skip inArg buf p)
      simp only
      split
      · have hnext : k ≤ skip isSpace (buf.set (skip inArg buf p) 0) (skip inArg buf p + 1) :=
          (Nat.le_succ_of_le hstop).trans (le_skip isSpace _ _)
        rw [ih _ _ hnext, List.take_set_of_le hstop]
      · exact ih _ _ (hstop.trans (le_skip isSpace _ _))

/-- The second pass behind the blanks it skips: nothing at a zero. -/
theorem argLoop_zero {room : Nat} {pre rest : List UInt8} : argLoop (room + 1) (pre ++ 0 :: rest) pre.length =
    ([], pre ++ 0 :: rest) := by
  rw [argLoop, if_pos (byteAt_append pre 0 rest)]

theorem skip_none {test : UInt8 → Bool} {pre : List UInt8} {c : UInt8} {rest : List UInt8} (hc : test c = false) :
    skip test (pre ++ c :: rest) pre.length = pre.length := by
  have h : skip test (pre ++ ([] ++ c :: rest)) pre.length = (pre ++ []).length :=
    skip_append pre (fun _ h => absurd h (by simp)) hc
  simpa using h

/-- One word before a zero. -/
theorem argLoop_word {room : Nat} {pre name rest : List UInt8} (hname : ∀ c ∈ name, inWord c = true) (hne : name ≠ []) :
    argLoop (room + 2) (pre ++ (name ++ 0 :: rest)) pre.length = ([pre.length], pre ++ (name ++ 0 :: rest)) := by
  obtain ⟨c, cs, rfl⟩ := List.exists_cons_of_ne_nil hne
  have hchar : byteAt (pre ++ (c :: cs ++ 0 :: rest)) pre.length ≠ 0 := by
    rw [List.cons_append, byteAt_append]
    exact (inWord_ne (hname c List.mem_cons_self)).1
  have hstop : skip inArg (pre ++ (c :: cs ++ 0 :: rest)) pre.length = (pre ++ c :: cs).length :=
    skip_append pre (fun d hd => (inWord_ne (hname d hd)).2.2) (by decide)
  have hzero : byteAt (pre ++ (c :: cs ++ 0 :: rest)) (pre ++ c :: cs).length = 0 := by
    rw [← List.append_assoc, byteAt_append]
  have hnext : skip isSpace (pre ++ (c :: cs ++ 0 :: rest)) (pre ++ c :: cs).length = (pre ++ c :: cs).length := by
    rw [← List.append_assoc]
    exact skip_none (by decide)
  rw [argLoop, if_neg hchar]
  simp only [hstop, hzero, ne_eq, not_true_eq_false, if_false, hnext]
  rw [← List.append_assoc, argLoop_zero]

/-- A word of the second pass: its pointer, and what is in front of its end stays as it is. -/
theorem argLoop_cons {room : Nat} {buf : List UInt8} {p k : Nat} (hchar : byteAt buf p ≠ 0) (hk : k ≤ skip inArg buf p) :
    ∃ starts buf', argLoop (room + 1) buf p = (p :: starts, buf') ∧ buf'.take k = buf.take k := by
  rw [argLoop, if_neg hchar]
  simp only
  split
  · refine ⟨_, _, rfl, ?_⟩
    rw [take_argLoop _ _ _ ((Nat.le_succ_of_le hk).trans (le_skip isSpace _ _)), List.take_set_of_le hk]
  · exact ⟨_, _, rfl, take_argLoop _ _ _ (hk.trans (le_skip isSpace _ _))⟩

/-- What starts with a tab is taken for a word that starts with a tab. -/
theorem argLoop_tab (room : Nat) (pre rest : List UInt8) :
    ∃ starts rest', argLoop (room + 1) (pre ++ tab :: rest) pre.length = (pre.length :: starts, pre ++ tab :: rest') := by
  have hchar : byteAt (pre ++ tab :: rest) pre.length ≠ 0 := by
    rw [byteAt_append]
    decide
  have hstop : pre.length + 1 ≤ skip inArg (pre ++ tab :: rest) pre.length := by
    have htab : inArg tab = true := by decide
    rw [skip, List.drop_left, List.takeWhile_cons, if_pos htab, List.length_cons]
    omega
  obtain ⟨starts, buf, hres, hkeep⟩ := argLoop_cons hchar hstop
  refine ⟨starts, buf.drop (pre.length + 1), ?_⟩
  have hpre : buf.take (pre.length + 1) = pre ++ [tab] := by
    rw [hkeep, List.take_append, List.take_of_length_le (Nat.le_succ _)]
    simp
  have hbuf : buf = pre ++ tab :: buf.drop (pre.length + 1) :=
    calc buf = buf.take (pre.length + 1) ++ buf.drop (pre.length + 1) := (List.take_append_drop _ _).symm
      _ = pre ++ tab :: buf.drop (pre.length + 1) := by
          rw [hpre]
          simp
  rw [hres, ← hbuf]

/-! ## The handlers on a line that has been parsed -/

theorem stringAt_word {pre name : List UInt8} {rest : List UInt8} (h : (0 : UInt8) ∉ name) :
    stringAt (pre ++ (name ++ 0 :: rest)) pre.length = name := by
  rw [stringAt, List.drop_left]
  exact cstr_zero h rest

/-- The result by the place where the second pass starts and the words it finds. -/
theorem subcommand_eq {s : ShellState} {p : Nat} {starts : List Nat} {buf : List UInt8}
    (hp : skip isSpace s.buffer (skip inArg s.buffer 0) = p) (hargs : argLoop shellMaxArgs s.buffer p = (starts, buf)) :
    (subcommand s).1 =
      match starts with
      | [] => .help
      | cmd :: args => .dispatch (stringAt buf cmd) (args.map (stringAt buf)) := by
  simp only [subcommand, hp, hargs]
  cases starts <;> rfl

/-- The second pass starts behind what is in front of the first space, and behind the spaces. -/
theorem skip_to_arg {tabs : List UInt8} (htabs : ∀ c ∈ tabs, inArg c = true) (n : Nat) {c : UInt8}
    (hc : isSpace c = false) (rest : List UInt8) {buf : List UInt8}
    (hbuf : buf = tabs ++ (List.replicate (n + 1) space ++ c :: rest)) :
    skip isSpace buf (skip inArg buf 0) = (tabs ++ List.replicate (n + 1) space).length := by
  have hstart : skip inArg buf 0 = tabs.length := by
    rw [hbuf]
    exact skip_append [] htabs (by decide)
  have hspaces : ∀ d ∈ List.replicate (n + 1) space, isSpace d = true := by
    intro d hd
    rw [List.eq_of_mem_replicate hd]
    decide
  rw [hstart, hbuf]
  exact skip_append tabs hspaces hc

section

variable {s : ShellState}

/-- Without a space in front the first word is skipped, up to its zero. -/
theorem subcommand_noSpace {front rest : List UInt8} (hbuf : s.buffer = front ++ 0 :: rest)
    (hfront : ∀ c ∈ front, inArg c = true) : (subcommand s).1 = .help := by
  have hstart : skip inArg s.buffer 0 = front.length := by
    rw [hbuf]
    exact skip_append [] hfront (by decide)
  have hp : skip isSpace s.buffer (skip inArg s.buffer 0) = front.length := by
    rw [hstart, hbuf]
    exact skip_none (by decide)
  have hargs : argLoop shellMaxArgs s.buffer front.length = ([], s.buffer) := by
    rw [hbuf]
    exact argLoop_zero
  exact subcommand_eq hp hargs

/-- Behind nothing but spaces the word itself is the command. -/
theorem subcommand_word {tabs name rest : List UInt8} {n : Nat}
    (hbuf : s.buffer = tabs ++ (List.replicate (n + 1) space ++ (name ++ 0 :: rest)))
    (htabs : ∀ c ∈ tabs, inArg c = true) (hname : ∀ c ∈ name, inWord c = true) (hne : name ≠ []) :
    (subcommand s).1 = .dispatch name [] := by
  have hzero : (0 : UInt8) ∉ name := fun h => (inWord_ne (hname 0 h)).1 rfl
  have hp : skip isSpace s.buffer (skip inArg s.buffer 0) = (tabs ++ List.replicate (n + 1) space).length := by
    obtain ⟨c, cs, rfl⟩ := List.exists_cons_of_ne_nil hne
    have hc := (inWord_ne (hname c List.mem_cons_self)).2.1
    simp only [isBlank, decide_eq_false_iff_not, not_or] at hc
    exact skip_to_arg htabs n (by simpa [isSpace] using hc.1) (cs ++ 0 :: rest) hbuf
  rw [← List.append_assoc] at hbuf
  have hargs : argLoop shellMaxArgs s.buffer (tabs ++ List.replicate (n + 1) space).length =
      ([(tabs ++ List.replicate (n + 1) space).length], s.buffer) := by
    rw [hbuf]
    exact argLoop_word hname hne
  have hword : stringAt s.buffer (tabs ++ List.replicate (n + 1) space).length = name := by
    rw [hbuf]
    exact stringAt_word hzero
  rw [subcommand_eq hp hargs]
  simp only [List.map_nil, hword]

/-- With a tab behind the spaces the command starts with it. -/
theorem subcommand_tab {tabs rest : List UInt8} {n : Nat}
    (hbuf : s.buffer = tabs ++ (List.replicate (n + 1) space ++ tab :: rest)) (htabs : ∀ c ∈ tabs, inArg c = true) :
    ∃ w args, (subcommand s).1 = .dispatch (tab :: w) args := by
  have hp := skip_to_arg htabs n (by decide) rest hbuf
  obtain ⟨starts, rest', hargs⟩ := argLoop_tab 15 (tabs ++ List.replicate (n + 1) space) rest
  rw [List.append_assoc, ← hbuf] at hargs
  have hword : stringAt ((tabs ++ List.replicate (n + 1) space) ++ tab :: rest')
      (tabs ++ List.replicate (n + 1) space).length = tab :: cstr rest' := by
    rw [stringAt, List.drop_left]
    rfl
  rw [subcommand_eq hp hargs]
  exact ⟨cstr rest', _, by simp only [hword]; rfl⟩

/-- Blanks with a space in them: tabs, spaces, and nothing or a tab. -/
theorem blanks_cases {lead : List UInt8} (hlead : ∀ c ∈ lead, isBlank c = true) (hspace : space ∈ lead) :
    ∃ tabs n more, lead = tabs ++ (List.replicate (n + 1) space ++ more) ∧
      (∀ c ∈ tabs, inArg c = true ∧ c ≠ space) ∧ (more = [] ∨ ∃ l, more = tab :: l) := by
  obtain ⟨tabs, spaces, rfl, htabs⟩ := List.eq_append_cons_of_mem hspace
  have hsplit : spaces.takeWhile isSpace ++ spaces.dropWhile isSpace = spaces := List.takeWhile_append_dropWhile
  have hrep : spaces.takeWhile isSpace = List.replicate (spaces.takeWhile isSpace).length space := by
    rw [List.eq_replicate_iff]
    exact ⟨rfl, fun c hc => by simpa [isSpace] using List.mem_takeWhile_imp hc⟩
  refine ⟨tabs, (spaces.takeWhile isSpace).length, spaces.dropWhile isSpace, ?_, ?_, ?_⟩
  · rw [List.replicate_succ, ← hrep, List.cons_append, hsplit]
  · intro c hc
    have hb := isBlank_ne (hlead c (by simp [hc]))
    have hs : c ≠ space := fun h => htabs (h ▸ hc)
    exact ⟨by simp [inArg, hb.1, hs], hs⟩
  · cases hmore : spaces.dropWhile isSpace with
    | nil => exact Or.inl rfl
    | cons c l =>
      have hmem : c ∈ spaces := List.dropWhile_subset isSpace (by rw [hmore]; exact List.mem_cons_self)
      have hb := hlead c (by simp [hmem])
      have hns := List.head_dropWhile_not isSpace (by simp [hmore] : spaces.dropWhile isSpace ≠ [])
      simp only [hmore, List.head_cons, isSpace, decide_eq_false_iff_not] at hns
      simp only [isBlank, decide_eq_true_eq] at hb
      exact Or.inr ⟨l, by rw [hb.resolve_left hns]⟩

/-- The result of `cmd_pkg` and `cmd_sec`, where the line is the blanks before the word and the
    word. -/
theorem subcommand_iff {lead name rest : List UInt8} (hbuf : s.buffer = lead ++ (name ++ 0 :: rest))
    (hlead : ∀ c ∈ lead, isBlank c = true) (hname : ∀ c ∈ name, inWord c = true) (hne : name ≠ [])
    {cmd : List UInt8} (hcmd : ∀ c ∈ cmd, isBlank c = false) (args : List (List UInt8)) :
    (subcommand s).1 = .dispatch cmd args ↔
      args = [] ∧ cmd = name ∧ ∃ n, lead.dropWhile (fun c => c ≠ space) = List.replicate (n + 1) space := by
  by_cases hspace : space ∈ lead
  · obtain ⟨tabs, n, more, rfl, htabs, hmore⟩ := blanks_cases hlead hspace
    have hdrop : (tabs ++ (List.replicate (n + 1) space ++ more)).dropWhile (fun c => c ≠ space) =
        List.replicate (n + 1) space ++ more := by
      rw [List.dropWhile_append_of_pos fun c hc => by simpa using (htabs c hc).2]
      simp [List.replicate_succ]
    rw [hdrop]
    rw [List.append_assoc, List.append_assoc] at hbuf
    obtain rfl | ⟨l, rfl⟩ := hmore
    · rw [subcommand_word hbuf (fun c hc => (htabs c hc).1) hname hne, SubCall.dispatch.injEq]
      constructor
      · rintro ⟨rfl, rfl⟩
        exact ⟨rfl, rfl, n, List.append_nil _⟩
      · rintro ⟨rfl, rfl, -⟩
        exact ⟨rfl, rfl⟩
    · obtain ⟨w, args', hres⟩ := subcommand_tab hbuf fun c hc => (htabs c hc).1
      rw [hres, SubCall.dispatch.injEq]
      constructor
      · rintro ⟨rfl, -⟩
        exact absurd (hcmd tab List.mem_cons_self) (by decide)
      · rintro ⟨-, -, k, hk⟩
        have hmem : tab ∈ List.replicate (k + 1) space := by
          rw [← hk]
          simp
        exact absurd (List.eq_of_mem_replicate hmem) (by decide)
  · -- without a space in front the word is skipped, as if it were the name of the command
    have hfront : ∀ c ∈ lead ++ name, inArg c = true := by
      intro c hc
      rcases List.mem_append.mp hc with hc | hc
      · have hs : c ≠ space := fun h => hspace (h ▸ hc)
        simp [inArg, (isBlank_ne (hlead c hc)).1, hs]
      · exact (inWord_ne (hname c hc)).2.2
    have hnone : lead.dropWhile (fun c => c ≠ space) = [] := by
      rw [List.dropWhile_eq_nil_iff]
      intro c hc
      have hs : c ≠ space := fun h => hspace (h ▸ hc)
      simpa using hs
    rw [← List.append_assoc] at hbuf
    rw [subcommand_noSpace hbuf hfront, hnone]
    constructor
    · intro h
      cases h
    · rintro ⟨-, -, n, hn⟩
      exact absurd hn (by simp [List.replicate_succ])

end

/-! ## The shell on a line -/

theorem find_pkg : commands.find? (fun cmd => ofString "pkg" = cmd.1) = some (ofString "pkg", .pkg) := by decide
theorem find_sec : commands.find? (fun cmd => ofString "sec" = cmd.1) = some (ofString "sec", .sec) := by decide

/-- A line that starts with the name of a command gets to its handler, with the line cut off
    behind the name. -/
theorem execute_first {s : ShellState} {line rest name cmd : List UInt8} {args : List (List UInt8)} {h : Command}
    (hbuf : s.buffer = line ++ 0 :: rest) (hnul : (0 : UInt8) ∉ line) (hwords : words line = name :: cmd :: args)
    (hfind : commands.find? (fun cmd => name = cmd.1) = some (name, h)) :
    ∃ s' rest', shellExecute s = handler s' h ∧ s'.buffer = line.takeWhile isBlank ++ (name ++ 0 :: rest') := by
  obtain ⟨b, tail, hline, hb, hblank, hne, -⟩ := line_of_words hwords
  have hlead : ∀ c ∈ line.takeWhile isBlank, isBlank c = true := fun c hc => List.mem_takeWhile_imp hc
  have hname : ∀ c ∈ name, inWord c = true := by
    intro c hc
    have hc0 : c ≠ 0 := by
      rintro rfl
      refine hnul ?_
      rw [hline]
      simp [hc]
    have hcb := hblank c hc
    simp only [isBlank, decide_eq_false_iff_not, not_or] at hcb
    simp [inWord, hc0, hcb]
  have hnul' : (0 : UInt8) ∉ name := fun h0 => (inWord_ne (hname 0 h0)).1 rfl
  have hparse : ∃ starts rest', parseLoop shellMaxArgs s.buffer 0 =
      ((line.takeWhile isBlank).length :: starts, line.takeWhile isBlank ++ (name ++ 0 :: rest')) := by
    have hbuf' : s.buffer = line.takeWhile isBlank ++ (name ++ b :: (tail ++ 0 :: rest)) := by
      have hline' : line ++ 0 :: rest = line.takeWhile isBlank ++ (name ++ b :: tail) ++ 0 :: rest :=
        congrArg (fun l => l ++ 0 :: rest) hline
      rw [hbuf, hline']
      simp
    rw [hbuf']
    exact parseLoop_first hlead hname hne hb
  obtain ⟨starts, rest', hparse⟩ := hparse
  have hargs : shellParseArgs (storeHistory s) =
      { storeHistory s with
        argv := (line.takeWhile isBlank).length :: starts
        buffer := line.takeWhile isBlank ++ (name ++ 0 :: rest') } := by
    have hparse' : parseLoop shellMaxArgs (storeHistory s).buffer 0 = _ := hparse
    rw [shellParseArgs, hparse']
  refine ⟨shellParseArgs (storeHistory s), rest', ?_, by rw [hargs]⟩
  have hword : stringAt (line.takeWhile isBlank ++ (name ++ 0 :: rest')) (line.takeWhile isBlank).length = name :=
    stringAt_word hnul'
  simp only [shellExecute, hargs, hword, hfind]

/-- The line of a command, exactly: its words reach the dispatcher only where the one word behind
    the command is the command once more, and a space is in front. -/
theorem shell_dispatch_iff {s : ShellState} {line rest : List UInt8} (hbuf : s.buffer = line ++ 0 :: rest)
    (hnul : (0 : UInt8) ∉ line) (cmd : List UInt8) (args : List (List UInt8)) :
    (words line = ofString "pkg" :: cmd :: args →
        ((shellExecute s).1 = .pkg (.dispatch cmd args) ↔ OnlyItself line (ofString "pkg") cmd args)) ∧
      (words line = ofString "sec" :: cmd :: args →
        ((shellExecute s).1 = .sec (.dispatch cmd args) ↔ OnlyItself line (ofString "sec") cmd args)) := by
  have hlead : ∀ c ∈ line.takeWhile isBlank, isBlank c = true := fun c hc => List.mem_takeWhile_imp hc
  constructor
  · intro hwords
    obtain ⟨s', rest', hexec, hbuf'⟩ := execute_first hbuf hnul hwords find_pkg
    have hcmd : ∀ c ∈ cmd, isBlank c = false := words_notBlank (by rw [hwords]; simp)
    have hname : (ofString "pkg").all inWord = true := by decide
    have hsub := subcommand_iff hbuf' hlead (List.all_eq_true.mp hname) (by decide) hcmd args
    rw [hexec]
    show ShellAction.pkg (subcommand s').1 = _ ↔ _
    rw [ShellAction.pkg.injEq]
    exact hsub
  · intro hwords
    obtain ⟨s', rest', hexec, hbuf'⟩ := execute_first hbuf hnul hwords find_sec
    have hcmd : ∀ c ∈ cmd, isBlank c = false := words_notBlank (by rw [hwords]; simp)
    have hname : (ofString "sec").all inWord = true := by decide
    have hsub := subcommand_iff hbuf' hlead (List.all_eq_true.mp hname) (by decide) hcmd args
    rw [hexec]
    show ShellAction.sec (subcommand s').1 = _ ↔ _
    rw [ShellAction.sec.injEq]
    exact hsub

/-- A shell with a line in its buffer. -/
def shellWith (line : List UInt8) : ShellState where
  buffer := line ++ List.replicate (shellMaxLine - line.length) 0
  argv := []
  history := fun _ => []
  historyCount := 0
  historyIdx := 0

/-- " pkg pkg" comes out as it should. -/
theorem shell_dispatch_pkg_pkg : (shellExecute (shellWith (ofString " pkg pkg"))).1 = .pkg (.dispatch (ofString "pkg") []) := by
  have hbuf : (shellWith (ofString " pkg pkg")).buffer = ofString " pkg pkg" ++ 0 :: List.replicate 247 0 := by
    decide +kernel
  refine ((shell_dispatch_iff hbuf (by decide) (ofString "pkg") []).1 (by decide +kernel)).mpr ?_
  exact ⟨rfl, rfl, 0, by decide⟩

/-- "pkg install nmap" comes out as the help, and " sec status" as the subcommand sec. -/
theorem shell_pkg_install_helps :
    (shellExecute (shellWith (ofString "pkg install nmap"))).1 = .pkg .help ∧
      (shellExecute (shellWith (ofString " sec status"))).1 = .sec (.dispatch (ofString "sec") []) := by
  decide +kernel

end Crimson.Shell
