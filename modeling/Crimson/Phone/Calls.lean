import Mathlib.Data.Vector.Basic
import Crimson.Lib.Run
import Crimson.Str.Model

/-!
# The call table (`phone.c`, `audio.c`)

Eight slots for calls and a counter. `phone_dial` puts its call in the slot the counter names;
`phone_hangup` ends the first call it finds, wherever that is, and turns the audio off;
`phone_answer` takes the first call that rings and turns the audio on. An incoming call is put
in a free slot and rings, without call audio.

The counter and the slots agree as long as `phone_dial` finds the slot it uses free, and the
audio is on exactly during a call as long as no call is hung up beside another one
(`callTable_iff`).
-/

set_option autoImplicit false

namespace Crimson.Phone

open Crimson.Lib
open Crimson.Str

def phoneMaxCallHistory : Nat := 500
def phoneNumberMax : Nat := 32
def phoneNameMax : Nat := 64

/-- `CALL_STATE_*`. -/
inductive CallState where
  | idle
  | dialing
  | ringing
  | active
  | holding
  | ended
deriving DecidableEq, Repr

/-- `CALL_TYPE_*`. -/
inductive CallType where
  | incoming
  | outgoing
  | missed
deriving DecidableEq, Repr

/-- `CALL_AUDIO_*` of the phone, by value. -/
def callAudioHandset : UInt32 := 0
def callAudioSpeaker : UInt32 := 1
def callAudioHeadset : UInt32 := 2

/-- `phone_call_t`; the flags for muting, recording and conferences are never set. -/
structure PhoneCall where
  id : UInt32
  state : CallState
  type : CallType
  number : List UInt8
  name : List UInt8
  startTime : UInt64
  durationSec : UInt64
  audioRoute : UInt32
  encrypted : UInt32
deriving DecidableEq, Repr

structure PhoneContact where
  name : List UInt8
  number : List UInt8
deriving DecidableEq, Repr

/-- `g_phone`, as far as calls use it, and the call state of `g_audio`. -/
structure PhoneState where
  calls : Vector PhoneCall 8
  numActiveCalls : UInt32
  nextCallId : UInt32
  contacts : List PhoneContact
  history : List PhoneCall
  defaultAudioRoute : UInt32
  inCall : Bool
  callRoute : UInt32
  mediaVolume : UInt32
deriving DecidableEq, Repr

/-- A slot of the zeroed table. -/
def zeroCall : PhoneCall where
  id := 0
  state := .idle
  type := .incoming
  number := []
  name := []
  startTime := 0
  durationSec := 0
  audioRoute := 0
  encrypted := 0

/-- `phone_init`, with these contacts added and the audio as `audio_init` leaves it. -/
def phoneInit (contacts : List PhoneContact) : PhoneState where
  calls := Vector.replicate 8 zeroCall
  numActiveCalls := 0
  nextCallId := 0
  contacts := contacts
  history := []
  defaultAudioRoute := callAudioHandset
  inCall := false
  callRoute := 0
  mediaVolume := 255

/-! ## Audio -/

def audioSetCallRoute (p : PhoneState) (route : UInt32) : PhoneState := { p with callRoute := route }

def audioStartCall (p : PhoneState) : PhoneState := { p with inCall := true, mediaVolume := 64 }

def audioEndCall (p : PhoneState) : PhoneState := { p with inCall := false, mediaVolume := 255 }

/-! ## Calls -/

/-- DIALING, RINGING or ACTIVE: what `phone_hangup` ends. -/
def onCall (c : PhoneCall) : Bool := c.state = .active ∨ c.state = .dialing ∨ c.state = .ringing

def ringing (c : PhoneCall) : Bool := c.state = .ringing

/-- DIALING or ACTIVE: a call with audio. -/
def talking (c : PhoneCall) : Bool := c.state = .dialing ∨ c.state = .active

/-- The first slot from the front, as the loops look for it. -/
def firstCall (test : PhoneCall → Bool) (p : PhoneState) : Option (Fin 8) :=
  (List.finRange 8).find? fun i => test p.calls[i]

/-- The name of a contact with this number, or the number. -/
def contactName (p : PhoneState) (number : List UInt8) : List UInt8 :=
  match p.contacts.find? fun c => c.number = number with
  | some c => c.name
  | none => number

/-- The slot of an outgoing call; it keeps its last duration. -/
def PhoneCall.dialled (c : PhoneCall) (p : PhoneState) (number : List UInt8) (encrypted : UInt32) (now : UInt64) :
    PhoneCall :=
  { c with
    id := p.nextCallId
    state := .dialing
    type := .outgoing
    number := number.take (phoneNumberMax - 1)
    name := (contactName p number).take (phoneNameMax - 1)
    startTime := now
    audioRoute := p.defaultAudioRoute
    encrypted := encrypted }

def PhoneCall.answered (c : PhoneCall) (now : UInt64) : PhoneCall := { c with state := .active, startTime := now }

def PhoneCall.hungUp (c : PhoneCall) (now : UInt64) : PhoneCall :=
  { c with durationSec := (now - c.startTime) / 1000, state := .ended }

/-- `phone_dial` at the time `now`. -/
def phoneDial (p : PhoneState) (number : List UInt8) (encrypted : UInt32) (now : UInt64) : Int × PhoneState :=
  if h : p.numActiveCalls.toNat < 8 then
    let call := p.calls[p.numActiveCalls.toNat].dialled p number encrypted now
    let p := { p with
      calls := p.calls.set p.numActiveCalls.toNat call
      nextCallId := p.nextCallId + 1
      numActiveCalls := p.numActiveCalls + 1 }
    (call.id.toNat, audioSetCallRoute (audioStartCall p)
      (if call.audioRoute = callAudioSpeaker then 1 else if call.audioRoute = callAudioHeadset then 2 else 0))
  else (-1, p)

def phoneAnswer (p : PhoneState) (now : UInt64) : PhoneState :=
  match firstCall ringing p with
  | some i =>
    let p := { p with calls := p.calls.set i (p.calls[i].answered now) }
    audioSetCallRoute (audioStartCall p) p.defaultAudioRoute
  | none => p

def phoneHangup (p : PhoneState) (now : UInt64) : PhoneState :=
  match firstCall onCall p with
  | some i =>
    let call := p.calls[i].hungUp now
    let p := { p with
      calls := p.calls.set i call
      history := if p.history.length < phoneMaxCallHistory then p.history ++ [call] else p.history
      numActiveCalls := p.numActiveCalls - 1 }
    audioEndCall p
  | none => p

/-- An incoming call in the slot `i`. -/
def incomingCall (p : PhoneState) (i : Fin 8) (call : PhoneCall) : PhoneState :=
  { p with calls := p.calls.set i { call with state := .ringing }, numActiveCalls := p.numActiveCalls + 1 }

inductive PhoneOp where
  | dial (number : List UInt8) (encrypted : UInt32) (now : UInt64)
  | answer (now : UInt64)
  | hangup (now : UInt64)
  | incoming (i : Fin 8) (call : PhoneCall)
deriving DecidableEq, Repr

/-- An incoming call needs a slot that is not in use. -/
def phoneStep (p : PhoneState) : PhoneOp → Option PhoneState
  | .dial number encrypted now => some (phoneDial p number encrypted now).2
  | .answer now => some (phoneAnswer p now)
  | .hangup now => some (phoneHangup p now)
  | .incoming i call => if onCall p.calls[i] then none else some (incomingCall p i call)

/-! ## What the table promises -/

/-- The counter counts the calls, and the audio is on exactly while one of them has audio. -/
structure CallTable (p : PhoneState) : Prop where
  counted : p.numActiveCalls.toNat = p.calls.countP onCall
  audio : p.inCall = true ↔ ∃ i : Fin 8, talking p.calls[i] = true

/-- A dial leaves the calls that are there alone. -/
def NoOverwrite (p : PhoneState) (op : PhoneOp) (p' : PhoneState) : Prop :=
  ∀ number encrypted now, op = .dial number encrypted now →
    ∀ i : Fin 8, onCall p.calls[i] = true → p'.calls[i] = p.calls[i]

/-- The slot that the counter names is free for a dial, and no other call has audio when one is
    hung up. -/
def CallGuard (p : PhoneState) : PhoneOp → Prop
  | .dial _ _ _ => ∀ h : p.numActiveCalls.toNat < 8, onCall p.calls[p.numActiveCalls.toNat] = false
  | .hangup _ => ∀ i, firstCall onCall p = some i → ∀ j, j ≠ i → talking p.calls[j] = false
  | .answer _ => True
  | .incoming _ _ => True

/-! ## One slot changes -/

theorem firstCall_some {test : PhoneCall → Bool} {p : PhoneState} {i : Fin 8} (h : firstCall test p = some i) :
    test p.calls[i] = true := by
  have hfound := List.find?_some h
  exact hfound

theorem ringing_onCall {c : PhoneCall} (h : ringing c = true) : onCall c = true := by
  simp only [ringing, onCall, decide_eq_true_eq] at h ⊢
  exact Or.inr (Or.inr h)

theorem talking_onCall {c : PhoneCall} (h : talking c = true) : onCall c = true := by
  simp only [talking, onCall, decide_eq_true_eq] at h ⊢
  rcases h with h | h <;> simp [h]

/-- The count when a free slot is given to a call. -/
theorem count_set_free (calls : Vector PhoneCall 8) {i : Nat} (hi : i < 8) {c : PhoneCall}
    (hfree : onCall calls[i] = false) (hc : onCall c = true) :
    (calls.set i c).countP onCall = calls.countP onCall + 1 := by
  rw [Vector.countP_set hi, if_pos hc, hfree]
  rfl

/-- The count when a call takes the place of another one. -/
theorem count_set_taken (calls : Vector PhoneCall 8) {i : Nat} (hi : i < 8) {c : PhoneCall}
    (hon : onCall calls[i] = true) (hc : onCall c = true) : (calls.set i c).countP onCall = calls.countP onCall := by
  have hle : (if onCall calls[i] then 1 else 0) ≤ calls.countP onCall := Vector.boole_getElem_le_countP hi
  rw [if_pos hon] at hle
  rw [Vector.countP_set hi, if_pos hc, if_pos hon]
  omega

/-- The count when the call in the slot `i` is over. -/
theorem count_end (calls : Vector PhoneCall 8) {i : Nat} (hi : i < 8) {c : PhoneCall} (hon : onCall calls[i] = true)
    (hc : onCall c = false) : (calls.set i c).countP onCall + 1 = calls.countP onCall := by
  have hle : (if onCall calls[i] then 1 else 0) ≤ calls.countP onCall := Vector.boole_getElem_le_countP hi
  rw [if_pos hon] at hle
  rw [Vector.countP_set hi, if_pos hon, hc]
  simp only [Bool.false_eq_true, if_false]
  omega

/-- Who talks when the slot `i` changes. -/
theorem talking_set {calls : Vector PhoneCall 8} {i : Fin 8} {c : PhoneCall} :
    (∃ j : Fin 8, talking (calls.set i c)[j] = true) ↔
      talking c = true ∨ ∃ j, j ≠ i ∧ talking calls[j] = true := by
  constructor
  · rintro ⟨j, hj⟩
    by_cases hji : j = i
    · subst hji
      exact Or.inl (by simpa using hj)
    · have hne : (i : Nat) ≠ j := fun h => hji (Fin.ext h.symm)
      refine Or.inr ⟨j, hji, ?_⟩
      simpa [Vector.getElem_set_ne _ _ hne] using hj
  · rintro (hc | ⟨j, hji, hj⟩)
    · exact ⟨i, by simpa using hc⟩
    · have hne : (i : Nat) ≠ j := fun h => hji (Fin.ext h.symm)
      exact ⟨j, by simpa [Vector.getElem_set_ne _ _ hne] using hj⟩

theorem toNat_succ {n : UInt32} (h : n.toNat < 8) : (n + 1).toNat = n.toNat + 1 := by
  rw [UInt32.toNat_add]
  exact Nat.mod_eq_of_lt (by simp only [UInt32.toNat_one]; omega)

theorem toNat_pred {n : UInt32} (h : 0 < n.toNat) : (n - 1).toNat = n.toNat - 1 := by
  have hle : (1 : UInt32) ≤ n := by
    rw [UInt32.le_iff_toNat_le]
    exact h
  rw [UInt32.toNat_sub_of_le _ _ hle]
  rfl

/-! ## Steps -/

/-- Where the table is right, a dial keeps it right and overwrites no call exactly when its
    slot is free. -/
theorem dial_iff {p : PhoneState} (hp : CallTable p) (number : List UInt8) (encrypted : UInt32) (now : UInt64) :
    (CallTable (phoneDial p number encrypted now).2 ∧
        NoOverwrite p (.dial number encrypted now) (phoneDial p number encrypted now).2) ↔
      CallGuard p (.dial number encrypted now) := by
  by_cases h : p.numActiveCalls.toNat < 8
  · simp only [phoneDial, dif_pos h]
    constructor
    · rintro ⟨⟨hcounted, -⟩, -⟩ h'
      by_contra hused
      -- over a call the counter goes up and the count does not
      have hcount := count_set_taken p.calls h (c := p.calls[p.numActiveCalls.toNat].dialled p number encrypted now)
        (by simpa using hused) rfl
      have hnext : (p.numActiveCalls + 1).toNat = p.calls.countP onCall := hcounted.trans hcount
      rw [toNat_succ h, hp.counted] at hnext
      omega
    · intro hfree
      have hfree := hfree h
      have hcount := count_set_free p.calls h (c := p.calls[p.numActiveCalls.toNat].dialled p number encrypted now)
        hfree rfl
      refine ⟨⟨?_, ?_⟩, ?_⟩
      · have hnum : (p.numActiveCalls + 1).toNat = p.calls.countP onCall + 1 := by rw [toNat_succ h, hp.counted]
        exact hnum.trans hcount.symm
      · refine ⟨fun _ => ?_, fun _ => rfl⟩
        exact talking_set (i := ⟨_, h⟩).mpr (Or.inl rfl)
      · intro number' encrypted' now' _ i hi
        refine Vector.getElem_set_ne h i.isLt ?_
        intro heq
        simp only [heq] at hfree
        exact absurd hi (by simp [hfree])
  · simp only [phoneDial, dif_neg h]
    exact ⟨fun _ h' => absurd h' h, fun _ => ⟨hp, fun _ _ _ _ _ _ => rfl⟩⟩

theorem answer_table {p : PhoneState} (hp : CallTable p) (now : UInt64) : CallTable (phoneAnswer p now) := by
  unfold phoneAnswer
  split
  · rename_i i hi
    have hon : onCall p.calls[i] = true := ringing_onCall (firstCall_some hi)
    have hcount := count_set_taken p.calls i.isLt (c := p.calls[i].answered now) hon rfl
    refine ⟨hp.counted.trans hcount.symm, fun _ => ?_, fun _ => rfl⟩
    exact talking_set.mpr (Or.inl rfl)
  · exact hp

/-- Where the table is right, a hangup keeps it right exactly when no other call has audio. -/
theorem hangup_iff {p : PhoneState} (hp : CallTable p) (now : UInt64) :
    CallTable (phoneHangup p now) ↔ ∀ i, firstCall onCall p = some i → ∀ j, j ≠ i → talking p.calls[j] = false := by
  unfold phoneHangup
  split
  · rename_i i hi
    have hon : onCall p.calls[i] = true := firstCall_some hi
    have hcount := count_end p.calls i.isLt (c := p.calls[i].hungUp now) hon rfl
    have hpos : 0 < p.numActiveCalls.toNat := by
      rw [hp.counted]
      omega
    constructor
    · rintro ⟨-, haudio⟩ i' hi' j hj
      obtain rfl : i = i' := Option.some.inj (hi.symm.trans hi')
      by_contra htalks
      -- the audio is off while the call in slot `j` goes on
      have hoff := haudio.mpr (talking_set.mpr (Or.inr ⟨j, hj, by simpa using htalks⟩))
      exact absurd hoff Bool.false_ne_true
    · intro hothers
      refine ⟨?_, ?_⟩
      · show (p.numActiveCalls - 1).toNat = _
        rw [toNat_pred hpos, hp.counted, ← hcount]
        rfl
      · refine ⟨fun h => absurd h Bool.false_ne_true, ?_⟩
        intro htalks
        rcases talking_set.mp htalks with htalks | ⟨j, hj, htalks⟩
        · exact absurd htalks Bool.false_ne_true
        · rw [hothers i hi j hj] at htalks
          exact absurd htalks Bool.false_ne_true
  · rename_i hnone
    refine ⟨?_, fun _ => hp⟩
    intro _ i hi
    rw [hnone] at hi
    exact absurd hi (by simp)

theorem incoming_table {p : PhoneState} (hp : CallTable p) {i : Fin 8} (hfree : onCall p.calls[i] = false)
    (call : PhoneCall) : CallTable (incomingCall p i call) := by
  have hcount := count_set_free p.calls i.isLt (c := { call with state := .ringing }) hfree rfl
  have hlt : p.numActiveCalls.toNat < 8 := by
    have hle : (p.calls.set i { call with state := .ringing }).countP onCall ≤ 8 := Vector.countP_le_size
    rw [hp.counted]
    omega
  refine ⟨?_, ?_⟩
  · have hnum : (p.numActiveCalls + 1).toNat = p.calls.countP onCall + 1 := by rw [toNat_succ hlt, hp.counted]
    exact hnum.trans hcount.symm
  · rw [incomingCall, talking_set]
    show p.inCall = true ↔ _
    rw [hp.audio]
    constructor
    · rintro ⟨j, hj⟩
      refine Or.inr ⟨j, ?_, hj⟩
      rintro rfl
      exact absurd ((talking_onCall hj).symm.trans hfree) (by decide)
    · rintro (hc | ⟨j, -, hj⟩)
      · exact absurd hc Bool.false_ne_true
      · exact ⟨j, hj⟩

theorem callTable_init (contacts : List PhoneContact) : CallTable (phoneInit contacts) := by
  refine ⟨rfl, ?_⟩
  simp [phoneInit, talking, zeroCall]

/-- One step keeps the table right and overwrites no call exactly when it meets the guard. -/
theorem phoneStep_iff {p p' : PhoneState} {op : PhoneOp} (hp : CallTable p) (hs : phoneStep p op = some p') :
    (CallTable p' ∧ NoOverwrite p op p') ↔ CallGuard p op := by
  cases op with
  | dial number encrypted now =>
    obtain rfl := Option.some.inj hs
    exact dial_iff hp number encrypted now
  | answer now =>
    obtain rfl := Option.some.inj hs
    exact ⟨fun _ => trivial, fun _ => ⟨answer_table hp now, fun _ _ _ h => by cases h⟩⟩
  | hangup now =>
    obtain rfl := Option.some.inj hs
    refine ⟨fun h => (hangup_iff hp now).mp h.1, ?_⟩
    intro hg
    exact ⟨(hangup_iff hp now).mpr hg, fun _ _ _ h => by cases h⟩
  | incoming i call =>
    simp only [phoneStep] at hs
    split at hs
    · cases hs
    · rename_i hfree
      obtain rfl := Option.some.inj hs
      exact ⟨fun _ => trivial, fun _ => ⟨incoming_table hp (by simpa using hfree) call, fun _ _ _ h => by cases h⟩⟩

/-- The call table, exactly: the counter, the calls and the audio agree throughout a run, and no
    dial overwrites a call, when every dial finds its slot free and every hangup leaves no other
    call with audio. -/
theorem callTable_iff (contacts : List PhoneContact) (ops : List PhoneOp) :
    (Always phoneStep CallTable (phoneInit contacts) ops ∧ AlwaysStep phoneStep NoOverwrite (phoneInit contacts) ops) ↔
      Meets phoneStep CallGuard (phoneInit contacts) ops := by
  have hrule : (Always phoneStep CallTable (phoneInit contacts) ops ∧
      AlwaysStep phoneStep NoOverwrite (phoneInit contacts) ops) ↔
        (CallTable (phoneInit contacts) ∧ Meets phoneStep CallGuard (phoneInit contacts) ops) :=
    always_step_iff (I := fun _ => True) (fun _ _ _ _ _ => trivial)
      (fun _ _ _ _ hp hg hs => (phoneStep_iff hp hs).mpr hg)
      (fun _ _ _ _ hp hs hp' hR => (phoneStep_iff hp hs).mp ⟨hp', hR⟩) trivial
  exact hrule.trans ⟨fun h => h.2, fun h => ⟨callTable_init contacts, h⟩⟩

/-- A call that comes in rings with the audio off. -/
theorem incoming_rings_silent :
    ∃ p, run phoneStep (phoneInit []) [.incoming 0 zeroCall] = some p ∧ 0 < p.numActiveCalls ∧ p.inCall = false :=
  ⟨_, rfl, by decide, rfl⟩

end Crimson.Phone
