import Crimson.Shell.Dispatch

/-!
# Lines from the UART (`shell.c`)

`shell_read_line` keeps what is typed in `shell_buffer` and edits it there; a zero is put behind
it only by Enter and Ctrl-C. Ctrl-D on an empty line ends the shell, but `shell_run` looks at the
buffer once more: what is in it, of the lines before or of characters taken back, is executed.

`input` are the bytes that come from the UART, and `back k` is whether the handler of the line
executed `k`th comes back: that of `reboot` does not. The echo is left out.
-/

set_option autoImplicit false

namespace Crimson.Shell

open Crimson.Str

/-- What `shell_read_line` leaves: the buffer, `shell_running`, and the bytes that are still to come. -/
structure LineRead where
  buffer : List UInt8
  running : Bool
  rest : List UInt8
deriving DecidableEq, Repr

/-- The loop of `shell_read_line`, with no result where it waits for ever. -/
def readLoop (buf : List UInt8) (pos : Nat) : List UInt8 → Option LineRead
  | [] => none
  | c :: input =>
    if c = 13 ∨ c = 10 then some ⟨buf.set pos 0, true, input⟩
    else if c = 8 ∨ c = 0x7f then readLoop buf (if 0 < pos then pos - 1 else pos) input
    else if c = 3 then some ⟨buf.set 0 0, true, input⟩
    else if c = 4 then
      if pos = 0 then some ⟨buf, false, input⟩ else readLoop buf pos input
    else if 32 ≤ c ∧ pos < shellMaxLine - 1 then readLoop (buf.set pos c) (pos + 1) input
    else readLoop buf pos input

def shellReadLine (s : ShellState) (input : List UInt8) : Option LineRead := readLoop s.buffer 0 input

/-- The loop of `shell_run`, a round for each line: the lines that are executed, and what each comes to. -/
def shellRun (back : Nat → Bool) : Nat → Nat → ShellState → List UInt8 → List (List UInt8 × ShellAction)
  | 0, _, _, _ => []
  | fuel + 1, k, s, input =>
    match shellReadLine s input with
    | none => []
    | some line =>
      let s := { s with buffer := line.buffer }
      if byteAt s.buffer 0 ≠ 0 then
        let done := shellExecute s
        (cstr s.buffer, done.1) :: if back k ∧ line.running then shellRun back fuel (k + 1) done.2 line.rest else []
      else if line.running then shellRun back fuel k s line.rest
      else []

/-! ## What is typed -/

/-- The line after a character that does not end it. -/
def edit (text : List UInt8) (c : UInt8) : List UInt8 :=
  if c = 8 ∨ c = 0x7f then text.dropLast
  else if c ≠ 4 ∧ 32 ≤ c ∧ text.length < shellMaxLine - 1 then text ++ [c]
  else text

/-- The lines that are typed, without the empty ones, up to the end of the shell. -/
def typedLines (text : List UInt8) : List UInt8 → List (List UInt8)
  | [] => []
  | c :: input =>
    if c = 13 ∨ c = 10 then (if text = [] then [] else [text]) ++ typedLines [] input
    else if c = 3 then typedLines [] input
    else if c = 4 ∧ text = [] then []
    else typedLines (edit text c) input

/-- Whether the shell is ended. -/
def typesEnd (text : List UInt8) : List UInt8 → Bool
  | [] => false
  | c :: input =>
    if c = 13 ∨ c = 10 ∨ c = 3 then typesEnd [] input
    else if c = 4 ∧ text = [] then true
    else typesEnd (edit text c) input

/-- Of lines that are executed from the `k`th on, those up to the first whose handler does not come back. -/
def upTo (back : Nat → Bool) : Nat → List (List UInt8) → List (List UInt8)
  | _, [] => []
  | k, line :: lines => line :: if back k then upTo back (k + 1) lines else []

/-- The buffer while a line is typed. -/
structure Holds (buf text : List UInt8) : Prop where
  length : buf.length = shellMaxLine
  room : text.length < shellMaxLine
  typed : buf.take text.length = text
  plain : (0 : UInt8) ∉ text

variable {buf text : List UInt8}

theorem holds_nil (h : buf.length = shellMaxLine) : Holds buf [] :=
  ⟨h, (by decide : 0 < shellMaxLine), rfl, List.not_mem_nil⟩

theorem Holds.dropLast (h : Holds buf text) : Holds buf text.dropLast := by
  refine ⟨h.length, ?_, ?_, fun hmem => h.plain (List.dropLast_subset text hmem)⟩
  · have hroom := h.room
    rw [List.length_dropLast]
    omega
  · rw [List.dropLast_eq_take, List.length_take, Nat.min_eq_left (Nat.sub_le _ _)]
    have htake := congrArg (List.take (text.length - 1)) h.typed
    rwa [List.take_take, Nat.min_eq_left (Nat.sub_le _ _)] at htake

theorem Holds.snoc (h : Holds buf text) {c : UInt8} (hc : 32 ≤ c) (hroom : text.length < shellMaxLine - 1) :
    Holds (buf.set text.length c) (text ++ [c]) := by
  have hlen := h.length
  have hpos : text.length < buf.length := by omega
  refine ⟨by rw [List.length_set, hlen], by simp; omega, ?_, ?_⟩
  · have hget : (buf.set text.length c)[text.length]? = some c := List.getElem?_set_self hpos
    rw [List.length_append, List.length_singleton, List.take_add_one, List.take_set_of_le (Nat.le_refl _), h.typed, hget]
    rfl
  · have hne : (0 : UInt8) ≠ c := by
      rintro rfl
      exact absurd hc (by decide)
    simp [h.plain, hne]

/-- A character that does not end the line: the buffer and its position go with the text. -/
theorem Holds.edit (h : Holds buf text) (input : List UInt8) {c : UInt8} (hends : ¬(c = 13 ∨ c = 10)) (hbreak : c ≠ 3)
    (hend : ¬(c = 4 ∧ text = [])) :
    ∃ buf', Holds buf' (edit text c) ∧ readLoop buf text.length (c :: input) = readLoop buf' (edit text c).length input := by
  have hpos : text.length = 0 ↔ text = [] := List.length_eq_zero_iff
  unfold Shell.edit
  rw [readLoop, if_neg hends]
  by_cases hback : c = 8 ∨ c = 0x7f
  · rw [if_pos hback, if_pos hback, List.length_dropLast]
    refine ⟨buf, h.dropLast, ?_⟩
    congr 1
    split <;> omega
  · rw [if_neg hback, if_neg hback, if_neg hbreak]
    by_cases hfour : c = 4
    · rw [if_pos hfour, if_neg fun hzero => hend ⟨hfour, hpos.mp hzero⟩, if_neg fun hp => hp.1 hfour]
      exact ⟨buf, h, rfl⟩
    · rw [if_neg hfour]
      by_cases hprint : 32 ≤ c ∧ text.length < shellMaxLine - 1
      · rw [if_pos hprint, if_pos ⟨hfour, hprint⟩, List.length_append]
        exact ⟨_, h.snoc hprint.1 hprint.2, rfl⟩
      · rw [if_neg hprint, if_neg fun hp => hprint hp.2]
        exact ⟨buf, h, rfl⟩

/-- **A call of `shell_read_line`**: the line it leaves is the one that was typed. -/
theorem Holds.readLoop (h : Holds buf text) (input : List UInt8) :
    (readLoop buf text.length input = none ∧ typedLines text input = [] ∧ typesEnd text input = false) ∨
      ∃ line, Shell.readLoop buf text.length input = some line ∧ line.buffer.length = shellMaxLine ∧
        line.rest.length < input.length ∧
        if line.running = true then
          typedLines text input = (if cstr line.buffer = [] then [] else [cstr line.buffer]) ++ typedLines [] line.rest ∧
            typesEnd text input = typesEnd [] line.rest
        else typedLines text input = [] ∧ typesEnd text input = true := by
  induction input generalizing buf text with
  | nil => exact Or.inl ⟨rfl, rfl, rfl⟩
  | cons c input ih =>
    by_cases hends : c = 13 ∨ c = 10
    · refine Or.inr ⟨⟨buf.set text.length 0, true, input⟩, if_pos hends, ?_, Nat.lt_succ_self _, ?_⟩
      · rw [List.length_set, h.length]
      · have hline : cstr (buf.set text.length 0) = text := by
          have hlt : text.length < buf.length := by
            rw [h.length]
            exact h.room
          rw [List.set_eq_take_append_cons_drop, if_pos hlt, h.typed]
          exact cstr_zero h.plain _
        have hall : c = 13 ∨ c = 10 ∨ c = 3 := or_assoc.mp (Or.inl hends)
        simp only [hline, typedLines, typesEnd, if_pos hends, if_pos hall, if_true, and_self]
    · by_cases hbreak : c = 3
      · refine Or.inr ⟨⟨buf.set 0 0, true, input⟩, ?_, ?_, Nat.lt_succ_self _, ?_⟩
        · subst hbreak
          simp [Shell.readLoop]
        · rw [List.length_set, h.length]
        · have hempty : cstr (buf.set 0 0) = [] := by
            cases buf with
            | nil => rfl
            | cons b buf => rfl
          subst hbreak
          simp [hempty, typedLines, typesEnd]
      · by_cases hend : c = 4 ∧ text = []
        · obtain ⟨rfl, rfl⟩ := hend
          refine Or.inr ⟨⟨buf, false, input⟩, by simp [Shell.readLoop], h.length, Nat.lt_succ_self _, ?_⟩
          simp [typedLines, typesEnd]
        · obtain ⟨buf', hbuf', hloop⟩ := h.edit input hends hbreak hend
          have hall : ¬(c = 13 ∨ c = 10 ∨ c = 3) := fun hc => (or_assoc.mpr hc).elim hends hbreak
          rw [hloop]
          simp only [typedLines, typesEnd, if_neg hends, if_neg hbreak, if_neg hend, if_neg hall]
          rcases ih hbuf' with hnone | ⟨line, hline, hlen, hrest, hrun⟩
          · exact Or.inl hnone
          · exact Or.inr ⟨line, hline, hlen, Nat.lt_succ_of_lt hrest, hrun⟩

/-! ## What is executed -/

theorem length_parseLoop (room : Nat) (buf : List UInt8) (p : Nat) : (parseLoop room buf p).2.length = buf.length := by
  fun_induction parseLoop room buf p with
  | case1 | case2 | case3 => rfl
  | case4 room buf p _ start _ stop rest ih ih' =>
    dsimp only [rest]
    split
    · rw [ih, List.length_set]
    · exact ih'

theorem length_argLoop (room : Nat) (buf : List UInt8) (p : Nat) : (argLoop room buf p).2.length = buf.length := by
  fun_induction argLoop room buf p with
  | case1 | case2 => rfl
  | case3 room buf p _ stop rest ih ih' =>
    dsimp only [rest]
    split
    · rw [ih, List.length_set]
    · exact ih'

theorem length_shellExecute (s : ShellState) : (shellExecute s).2.buffer.length = s.buffer.length := by
  have hparse : (shellParseArgs (storeHistory s)).buffer.length = s.buffer.length := length_parseLoop shellMaxArgs s.buffer 0
  have hsub (t : ShellState) : (subcommand t).2.buffer.length = t.buffer.length := by
    unfold subcommand
    dsimp only
    split <;> exact length_argLoop ..
  unfold shellExecute
  dsimp only
  split
  · exact hparse
  · split
    · rename_i cmd _
      cases hcmd : cmd.2 with
      | pkg | sec => exact (hsub _).trans hparse
      | _ => exact hparse
    · exact hparse

theorem byteAt_zero_iff (buf : List UInt8) : byteAt buf 0 ≠ 0 ↔ cstr buf ≠ [] := by
  cases buf with
  | nil => simp [byteAt, cstr]
  | cons b buf => simp [byteAt, cstr, List.takeWhile_cons]

theorem shellRun_lines {back : Nat → Bool} {fuel k : Nat} {s : ShellState} {input : List UInt8}
    (hs : s.buffer.length = shellMaxLine) (hfuel : input.length < fuel) :
    ∃ extra, (shellRun back fuel k s input).map Prod.fst = upTo back k (typedLines [] input ++ extra) ∧ extra.length ≤ 1 ∧
      (typesEnd [] input = false → extra = []) := by
  induction fuel generalizing k s input with
  | zero => exact absurd hfuel (Nat.not_lt_zero _)
  | succ fuel ih =>
    rcases (holds_nil hs).readLoop input with ⟨hnone, hlines, -⟩ | ⟨line, hline, hlen, hrest, hrun⟩
    · refine ⟨[], ?_, Nat.zero_le 1, fun _ => rfl⟩
      simp only [shellRun, shellReadLine]
      rw [show readLoop s.buffer 0 input = none from hnone, hlines]
      rfl
    · have hread : shellReadLine s input = some line := hline
      by_cases hfirst : byteAt line.buffer 0 ≠ 0
      · -- a line is executed
        have hne := (byteAt_zero_iff line.buffer).mp hfirst
        have hnext : (shellExecute { s with buffer := line.buffer }).2.buffer.length = shellMaxLine :=
          (length_shellExecute _).trans hlen
        simp only [shellRun, hread, if_pos hfirst, List.map_cons]
        cases hrunning : line.running with
        | false =>
          rw [hrunning, if_neg Bool.false_ne_true] at hrun
          refine ⟨[cstr line.buffer], ?_, Nat.le_refl 1, fun hend => absurd (hrun.2.symm.trans hend) (by decide)⟩
          rw [hrun.1]
          simp [upTo]
        | true =>
          rw [hrunning, if_pos rfl, if_neg hne] at hrun
          obtain ⟨extra, hlines, hone, hnil⟩ := ih (k := k + 1) hnext (show line.rest.length < fuel by omega)
          refine ⟨extra, ?_, hone, fun hend => hnil (hrun.2 ▸ hend)⟩
          rw [hrun.1, List.append_assoc, List.singleton_append, upTo, ← hlines]
          cases back k <;> simp
      · have hnil : cstr line.buffer = [] := not_not.mp fun hne => hfirst ((byteAt_zero_iff line.buffer).mpr hne)
        simp only [shellRun, hread, if_neg hfirst]
        cases hrunning : line.running with
        | false =>
          rw [hrunning, if_neg Bool.false_ne_true] at hrun
          refine ⟨[], ?_, Nat.zero_le 1, fun _ => rfl⟩
          rw [hrun.1]
          rfl
        | true =>
          rw [hrunning, if_pos rfl, if_pos hnil] at hrun
          obtain ⟨extra, hlines, hone, hextra⟩ := ih (k := k) (s := { s with buffer := line.buffer }) hlen (show line.rest.length < fuel by omega)
          refine ⟨extra, ?_, hone, fun hend => hextra (hrun.2 ▸ hend)⟩
          rw [hrun.1, if_pos rfl, hlines]
          rfl

/-- **The shell executes the lines that are typed**, one after the other, as they are after editing and without the
    empty ones, up to a command that does not come back; and at most one line more, when it is ended. -/
theorem shell_executes_typed (back : Nat → Bool) (input : List UInt8) :
    ∃ extra, (shellRun back (input.length + 1) 0 (shellWith []) input).map Prod.fst = upTo back 0 (typedLines [] input ++ extra) ∧
      extra.length ≤ 1 ∧ (typesEnd [] input = false → extra = []) :=
  shellRun_lines (by simp [shellWith]) (Nat.lt_succ_self _)

/-! Ctrl-D: the last command is executed once more. -/

set_option maxRecDepth 4000 in
example : (shellRun (fun _ => true) 9 0 (shellWith []) (ofString "ps \r\x04")).map Prod.fst = [ofString "ps ", ofString "ps"] := by
  decide +kernel

end Crimson.Shell
