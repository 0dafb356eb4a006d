import Crimson.Str.Vsnprintf
import Crimson.Lib.Run
import Mathlib.Data.List.Forall2

/-!
# The audit log (`security.c`)

A ring of entries: a call of `audit_log` overwrites the oldest one when the ring is full, and
`audit_print_recent` goes through it from the newest one back. The calls are taken one after the
other, and what `printk` makes of a row is left out.
-/

set_option autoImplicit false

namespace Crimson.Security

open Crimson.Lib Crimson.Str

def AUDIT_MAX_ENTRIES : UInt32 := 4096
def AUDIT_MSG_LEN : Nat := 256

/-- `audit_entry_t`. -/
structure AuditEntry where
  timestamp : UInt64
  type : UInt32
  pid : Int32
  uid : UInt32
  result : UInt32
  message : List UInt8
deriving DecidableEq, Repr

/-- The fields of `g_security` about the log. -/
structure AuditLog where
  entries : Nat → AuditEntry
  head : UInt32
  count : UInt32
  enabled : UInt32

def auditZero : AuditEntry where
  timestamp := 0
  type := 0
  pid := 0
  uid := 0
  result := 0
  message := List.replicate AUDIT_MSG_LEN 0

def auditInit : AuditLog where
  entries := fun _ => auditZero
  head := 0
  count := 0
  enabled := 1

/-- `audit_log`, at an uptime; its text is cut off to the size of the field. -/
def auditLog (s : AuditLog) (uptime : UInt64) (type : UInt32) (pid : Int32) (uid result : UInt32) (fmt : List UInt8)
    (args : List Arg) : Option AuditLog :=
  if s.enabled = 0 then some s
  else
    (vsnprintf (some (s.entries s.head.toNat).message) fmt args).map fun r =>
      { s with
        entries := Function.update s.entries s.head.toNat
          { timestamp := uptime, type := type, pid := pid, uid := uid, result := result, message := r.2 }
        head := (s.head + 1) % AUDIT_MAX_ENTRIES
        count := if s.count < AUDIT_MAX_ENTRIES then s.count + 1 else s.count }

def auditEnable (s : AuditLog) (enable : UInt32) : AuditLog := { s with enabled := enable }

def auditClear (s : AuditLog) : AuditLog := { s with entries := fun _ => auditZero, head := 0, count := 0 }

/-- The entries of the rows that `audit_print_recent` prints. -/
def auditRecent (s : AuditLog) (count : UInt32) : List AuditEntry :=
  let count := if count = 0 ∨ s.count < count then s.count else count
  (List.range count.toNat).map fun i =>
    s.entries ((s.head - 1 - UInt32.ofNat i + AUDIT_MAX_ENTRIES) % AUDIT_MAX_ENTRIES).toNat

/-! ## Steps -/

inductive AuditOp where
  | log (uptime : UInt64) (type : UInt32) (pid : Int32) (uid result : UInt32) (fmt : List UInt8) (args : List Arg)
  | enable (enable : UInt32)
  | clear
deriving DecidableEq, Repr

/-- What has been logged with one call. -/
structure AuditRecord where
  timestamp : UInt64
  type : UInt32
  pid : Int32
  uid : UInt32
  result : UInt32
  text : List UInt8

/-- The log, and all that was logged since it was cleared, the oldest record first. -/
structure Audited where
  log : AuditLog
  records : List AuditRecord

def auditStart : Audited := { log := auditInit, records := [] }

def auditStep (a : Audited) : AuditOp → Option Audited
  | .log uptime type pid uid result fmt args =>
    let record : AuditRecord :=
      { timestamp := uptime, type := type, pid := pid, uid := uid, result := result, text := expansion fmt args }
    (auditLog a.log uptime type pid uid result fmt args).map fun log =>
      { log := log, records := if a.log.enabled = 0 then a.records else a.records ++ [record] }
  | .enable enable => some { a with log := auditEnable a.log enable }
  | .clear => some { log := auditClear a.log, records := [] }

/-- The format is whole, and the arguments are those it asks for. -/
def AuditOp.Whole : AuditOp → Prop
  | .log _ _ _ _ _ fmt args => ∃ ps, parseFormat fmt = some ps ∧ ArgsFit ps args
  | _ => True

/-- An entry is that of a record: its text is a string, cut off where the field ends. -/
structure Shows (e : AuditEntry) (r : AuditRecord) : Prop where
  fields : (e.timestamp, e.type, e.pid, e.uid, e.result) = (r.timestamp, r.type, r.pid, r.uid, r.result)
  text : e.message.take (min (AUDIT_MSG_LEN - 1) r.text.length) = r.text.take (AUDIT_MSG_LEN - 1)
  zero : e.message.getD (min (AUDIT_MSG_LEN - 1) r.text.length) 1 = 0

/-- The newest records are in the ring, each in the cell of its number. -/
structure AuditOk (a : Audited) : Prop where
  head : a.log.head.toNat = a.records.length % 4096
  count : a.log.count.toNat = min a.records.length 4096
  messages : ∀ i, (a.log.entries i).message.length = AUDIT_MSG_LEN
  rows : ∀ j (h : j < a.records.length), a.records.length ≤ j + 4096 → Shows (a.log.entries (j % 4096)) a.records[j]

variable {a : Audited}

theorem auditOk_empty {log : AuditLog} (hentries : log.entries = fun _ => auditZero) (hhead : log.head = 0)
    (hcount : log.count = 0) : AuditOk ⟨log, []⟩ where
  head := by
    rw [hhead]
    rfl
  count := by
    rw [hcount]
    rfl
  messages := by
    rw [hentries]
    exact fun _ => List.length_replicate
  rows := fun j h => absurd h (Nat.not_lt_zero j)

/-- The number of entries when one more is made. -/
theorem toNat_count_succ {count : UInt32} {n : Nat} (h : count.toNat = min n 4096) :
    (if count < AUDIT_MAX_ENTRIES then count + 1 else count).toNat = min (n + 1) 4096 := by
  have hmax : AUDIT_MAX_ENTRIES.toNat = 4096 := rfl
  have hone : (1 : UInt32).toNat = 1 := rfl
  simp only [UInt32.lt_iff_toNat_lt, hmax]
  split
  · rw [UInt32.toNat_add, hone]
    omega
  · omega

/-- **A call of `audit_log`** puts the record into the ring in place of the oldest one. -/
theorem AuditOk.log (h : AuditOk a) {fmt : List UInt8} {args : List Arg} (hwhole : ∃ ps, parseFormat fmt = some ps ∧ ArgsFit ps args)
    (uptime : UInt64) (type : UInt32) (pid : Int32) (uid result : UInt32) :
    ∃ a', auditStep a (.log uptime type pid uid result fmt args) = some a' ∧ AuditOk a' := by
  by_cases hoff : a.log.enabled = 0
  · refine ⟨a, ?_, h⟩
    simp [auditStep, auditLog, hoff]
  · obtain ⟨ps, hparse, hfit⟩ := hwhole
    have hlen := h.messages a.log.head.toNat
    obtain ⟨pos, buf, hres, hpos, hbuf, hzero, htext⟩ := vsnprintf_whole (by rw [hlen]; decide) hparse hfit
    rw [hlen] at hpos hbuf htext
    have hhead := h.head
    have hcount := h.count
    have hmax : AUDIT_MAX_ENTRIES.toNat = 4096 := rfl
    have hone : (1 : UInt32).toNat = 1 := rfl
    refine ⟨_, by simp only [auditStep, auditLog, if_neg hoff, hres]; rfl, ?_, ?_, ?_, ?_⟩
    · simp only [List.length_append, List.length_singleton, UInt32.toNat_mod, UInt32.toNat_add, hhead, hmax, hone]
      omega
    · simp only [List.length_append, List.length_singleton]
      exact toNat_count_succ hcount
    · intro i
      by_cases hi : i = a.log.head.toNat
      · subst hi
        simpa using hbuf
      · simpa [Function.update_of_ne hi] using h.messages i
    · intro j hj hnew
      simp only [List.length_append, List.length_singleton] at hj hnew
      dsimp only
      by_cases hlast : j = a.records.length
      · subst hlast
        rw [← hhead, Function.update_self, List.getElem_concat_length rfl]
        exact ⟨rfl, hpos ▸ htext, hpos ▸ hzero⟩
      · have hold : j < a.records.length := by omega
        have hcell : j % 4096 ≠ a.log.head.toNat := by omega
        rw [Function.update_of_ne hcell, List.getElem_append_left hold]
        exact h.rows j hold (by omega)

theorem AuditOk.step (h : AuditOk a) {op : AuditOp} (hop : op.Whole) : ∃ a', auditStep a op = some a' ∧ AuditOk a' := by
  cases op with
  | log uptime type pid uid result fmt args => exact h.log hop uptime type pid uid result
  | enable enable => exact ⟨_, rfl, h.head, h.count, h.messages, h.rows⟩
  | clear => exact ⟨_, rfl, auditOk_empty rfl rfl rfl⟩

/-- The rows go from the newest entry back, round the end of the ring. -/
theorem AuditOk.recent (h : AuditOk a) (count : UInt32) :
    List.Forall₂ Shows (auditRecent a.log count)
      (a.records.reverse.take (if count = 0 then 4096 else min count.toNat 4096)) := by
  have hhead := h.head
  have hcount := h.count
  have hmax : AUDIT_MAX_ENTRIES.toNat = 4096 := rfl
  -- so many rows are printed
  have hrows : (if count = 0 ∨ a.log.count < count then a.log.count else count).toNat =
      min a.records.length (if count = 0 then 4096 else min count.toNat 4096) := by
    by_cases hzero : count = 0
    · rw [if_pos (Or.inl hzero), if_pos hzero, hcount]
    · rw [if_neg hzero]
      simp only [hzero, false_or, UInt32.lt_iff_toNat_lt]
      split <;> omega
  refine List.forall₂_iff_get.mpr ⟨?_, fun i hi hi' => ?_⟩
  · simp only [auditRecent, List.length_map, List.length_range, List.length_take, List.length_reverse, hrows]
    exact Nat.min_comm _ _
  · have hbound : i < min a.records.length 4096 := by
      simp only [auditRecent, List.length_map, List.length_range, hrows] at hi
      split at hi <;> omega
    have hcell : ((a.log.head - 1 - UInt32.ofNat i + AUDIT_MAX_ENTRIES) % AUDIT_MAX_ENTRIES).toNat =
        (a.records.length - 1 - i) % 4096 := by
      have hone : (1 : UInt32).toNat = 1 := rfl
      have hsize : UInt32.size = 2 ^ 32 := rfl
      rw [UInt32.toNat_mod, UInt32.toNat_add, UInt32.toNat_sub, UInt32.toNat_sub, UInt32.toNat_ofNat_of_lt' (by omega),
        hhead, hmax, hone]
      omega
    simp only [auditRecent, List.get_eq_getElem, List.getElem_map, List.getElem_range, List.getElem_take,
      List.getElem_reverse, hcell]
    exact h.rows (a.records.length - 1 - i) (by omega) (by omega)

/-- **What the log shows.** After any calls the rows are the newest records since the log was cleared, the newest one
    first, as many as are asked for or as there are, at most 4096; a record that was made while logging was
    off is not among them. The number of entries that `g_security` has does not go beyond 4096. -/
theorem audit_recent_rows {ops : List AuditOp} (hops : ∀ op ∈ ops, op.Whole) :
    ∃ a, run auditStep auditStart ops = some a ∧ a.log.count.toNat = min a.records.length 4096 ∧
      ∀ count : UInt32, List.Forall₂ Shows (auditRecent a.log count)
        (a.records.reverse.take (if count = 0 then 4096 else min count.toNat 4096)) := by
  have hrun : ∀ (ops : List AuditOp) (a : Audited), AuditOk a → (∀ op ∈ ops, op.Whole) →
      ∃ a', run auditStep a ops = some a' ∧ AuditOk a' := by
    intro ops
    induction ops with
    | nil => exact fun a h _ => ⟨a, rfl, h⟩
    | cons op ops ih =>
      intro a h hops
      obtain ⟨b, hb, hok⟩ := h.step (hops op List.mem_cons_self)
      obtain ⟨a', ha', hok'⟩ := ih b hok fun op' hop' => hops op' (List.mem_cons_of_mem op hop')
      refine ⟨a', ?_, hok'⟩
      rw [run, hb]
      exact ha'
  obtain ⟨a, ha, hok⟩ := hrun ops auditStart (auditOk_empty rfl rfl rfl) hops
  exact ⟨a, ha, hok.count, hok.recent⟩

/-- Two records, and one in between while logging is off. -/
def auditCalls : List AuditOp :=
  [.log 5 7 0 0 0 (ofString "level=%d") [.int 4], .enable 0, .log 6 1 12 0 1 (ofString "lost") [], .enable 1,
    .log 9 2 (-1) 0 1 (ofString "denied") []]

theorem audit_recent_rows_two :
    ∃ a, run auditStep auditStart auditCalls = some a ∧ a.log.count.toNat = min a.records.length 4096 ∧
      ∀ count : UInt32, List.Forall₂ Shows (auditRecent a.log count)
        (a.records.reverse.take (if count = 0 then 4096 else min count.toNat 4096)) := by
  have hlevel : parseFormat (ofString "level=%d") =
      some [.lit 108, .lit 101, .lit 118, .lit 101, .lit 108, .lit 61, .conv ⟨32, 0, false⟩ 100] := by decide +kernel
  have hlost : parseFormat (ofString "lost") = some [.lit 108, .lit 111, .lit 115, .lit 116] := by decide +kernel
  have hdenied : parseFormat (ofString "denied") =
      some [.lit 100, .lit 101, .lit 110, .lit 105, .lit 101, .lit 100] := by decide +kernel
  refine audit_recent_rows ?_
  simp only [auditCalls, List.forall_mem_cons, List.not_mem_nil, false_implies, implies_true, and_true]
  exact ⟨⟨_, hlevel, rfl, trivial⟩, trivial, ⟨_, hlost, trivial⟩, trivial, _, hdenied, trivial⟩

end Crimson.Security
