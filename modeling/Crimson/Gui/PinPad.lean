import Crimson.Gui.Model
import Crimson.Str.Decimal
import Mathlib.Algebra.Group.Nat.Defs
import Mathlib.Data.List.Induction

/-!
# The PIN pad (`compositor.c`)

The keys are drawn from one table and touches are looked up in another. What a pad with the drawn
keys does is `PadEntry.touch`; `pin_pad_iff` says for which sequences of touches the entry of
`handle_pin_touch` is that of the drawn pad: the areas agree on every key, but two keys have no
meaning of their own in `handle_pin_touch`. The blank one types a colon, the 0 nothing.
-/

set_option autoImplicit false

namespace Crimson.Gui

open Crimson.Lib Crimson.Str

/-- The display that `gui_init` asks for its size has this one. -/
def dispWidth : UInt32 := 1080
def dispHeight : UInt32 := 1920

/-! ## The pad as it is drawn -/

/-- `keys` of `gui_draw_pin_pad`. -/
def pinKeys : List (List UInt8) := ["1", "2", "3", "4", "5", "6", "7", "8", "9", "", "0", "DEL"].map ofString

def pinKey (i : Nat) : List UInt8 := pinKeys.getD i []

/-- The touch is in the rectangle of key `i`. -/
def inKeyArea (i : Nat) (ev : TouchEvent) : Prop :=
  let cx : Int := dispWidth.toNat / 2
  let startX : Int := cx - (3 * 90 + 2 * 16) / 2
  let kx : Int := startX + (i % 3 : Nat) * (90 + 16)
  let ky : Int := 700 + (i / 3 : Nat) * (72 + 16)
  kx ≤ ev.x.toNat ∧ ev.x.toNat < kx + 90 ∧ ky ≤ ev.y.toNat ∧ ev.y.toNat < ky + 72

instance (i : Nat) (ev : TouchEvent) : Decidable (inKeyArea i ev) := by
  unfold inKeyArea
  infer_instance

/-- The key that is drawn where the touch is: an empty one is not. -/
def drawnKeyAt (ev : TouchEvent) : Option (List UInt8) :=
  ((List.range 12).find? fun i => pinKey i ≠ [] ∧ inKeyArea i ev).map pinKey

/-- An entry, and whether the screen is unlocked. -/
structure PadEntry where
  entered : List UInt8
  unlocked : Bool
deriving DecidableEq, Repr

def padStart : PadEntry where
  entered := []
  unlocked := false

/-- A key is pressed: the last digit goes, or one more comes. Four digits are the PIN, or the entry is cleared. -/
def PadEntry.press (target : UInt32) (p : PadEntry) (key : List UInt8) : PadEntry :=
  if key = ofString "DEL" then { p with entered := p.entered.dropLast }
  else if (p.entered ++ key).length = 4 then
    { entered := [], unlocked := decimalValue (p.entered ++ key) = target.toNat }
  else { p with entered := p.entered ++ key }

def PadEntry.touch (target : UInt32) (p : PadEntry) (ev : TouchEvent) : PadEntry :=
  match drawnKeyAt ev with
  | some key => p.press target key
  | none => p

/-! ## The two side by side -/

/-- A touch of the lock screen. -/
def padStep (s : GuiState × PadEntry) (ev : TouchEvent) : Option (GuiState × PadEntry) :=
  if s.1.currentView = .lock ∧ ev.event = .down then some (guiHandleTouch s.1 ev, s.2.touch s.1.pinTarget ev) else none

/-- The buffer holds the digits of the drawn keys, and the screen is unlocked when the drawn pad unlocks it. -/
def Agrees (s : GuiState × PadEntry) : Prop := s.1.pinBuffer = s.2.entered ∧ (s.1.lockScreen = 0 ↔ s.2.unlocked = true)

/-- The lock screen, with nothing entered, as `gui_init` and `gui_lock` leave it. -/
structure LockShown (g : GuiState) : Prop where
  width : g.fbWidth = dispWidth
  locked : g.lockScreen = 1
  view : g.currentView = .lock
  empty : g.pinBuffer = []

/-- The touch is neither in the area that is left blank nor on the 0. -/
def AvoidsZero (ev : TouchEvent) : Prop := ¬inKeyArea 9 ev ∧ ¬inKeyArea 10 ev

instance (ev : TouchEvent) : Decidable (AvoidsZero ev) := by
  unfold AvoidsZero
  infer_instance

section

variable {g : GuiState} {p : PadEntry} {ev : TouchEvent} {i j : Nat} {s s' : GuiState × PadEntry}

/-! ## The areas -/

/-- The corner of key `i`, as the hit test computes it. -/
theorem pinKey_corner (hi : i < 12) :
    (dispWidth / 2 - (3 * 90 + 2 * 16) / 2 + UInt32.ofNat (i % 3) * (90 + 16)).toNat = 389 + i % 3 * 106 ∧
      (700 + UInt32.ofNat (i / 3) * (72 + 16) : UInt32).toNat = 700 + i / 3 * 88 := by
  revert i
  decide

theorem inKeyArea_iff : inKeyArea i ev ↔
    389 + i % 3 * 106 ≤ ev.x.toNat ∧ ev.x.toNat < 389 + i % 3 * 106 + 90 ∧
      700 + i / 3 * 88 ≤ ev.y.toNat ∧ ev.y.toNat < 700 + i / 3 * 88 + 72 := by
  have hw : dispWidth.toNat = 1080 := rfl
  simp only [inKeyArea, hw]
  omega

/-- **The hit test has the areas that are drawn.** -/
theorem inPinKey_iff (hw : g.fbWidth = dispWidth) (hi : i < 12) : inPinKey g ev i = true ↔ inKeyArea i ev := by
  obtain ⟨hx, hy⟩ := pinKey_corner hi
  rw [inKeyArea_iff]
  simp only [inPinKey, hw, decide_eq_true_eq, UInt32.le_iff_toNat_le, UInt32.lt_iff_toNat_lt, UInt32.toNat_add _ 90,
    UInt32.toNat_add _ 72, hx, hy]
  have h90 : (389 + i % 3 * 106 + (90 : UInt32).toNat) % 2 ^ 32 = 389 + i % 3 * 106 + 90 := by
    rw [show (90 : UInt32).toNat = 90 from rfl]
    omega
  have h72 : (700 + i / 3 * 88 + (72 : UInt32).toNat) % 2 ^ 32 = 700 + i / 3 * 88 + 72 := by
    rw [show (72 : UInt32).toNat = 72 from rfl]
    omega
  rw [h90, h72]

/-- No two areas overlap. -/
theorem inKeyArea_unique (h : inKeyArea i ev) (h' : inKeyArea j ev) : i = j := by
  rw [inKeyArea_iff] at h h'
  omega

/-- The only one that a search can find. -/
theorem find_range_eq {n : Nat} {f : Nat → Bool} (hi : i < n) (hf : f i = true)
    (hunique : ∀ j < n, f j = true → j = i) : (List.range n).find? f = some i := by
  cases hfind : (List.range n).find? f with
  | none => exact absurd hf (List.find?_eq_none.mp hfind i (List.mem_range.mpr hi))
  | some j => rw [hunique j (List.mem_range.mp (List.mem_of_find?_eq_some hfind)) (List.find?_some hfind)]

theorem pinKeyAt_eq (hw : g.fbWidth = dispWidth) (hi : i < 12) (h : inKeyArea i ev) : pinKeyAt g ev = some i :=
  find_range_eq hi ((inPinKey_iff hw hi).mpr h) fun _ hj hkey => inKeyArea_unique ((inPinKey_iff hw hj).mp hkey) h

theorem pinKeyAt_none (hw : g.fbWidth = dispWidth) (h : ∀ i < 12, ¬inKeyArea i ev) : pinKeyAt g ev = none := by
  refine List.find?_eq_none.mpr fun i hmem hkey => ?_
  have hi : i < 12 := List.mem_range.mp hmem
  exact h i hi ((inPinKey_iff hw hi).mp hkey)

theorem drawnKeyAt_eq (hi : i < 12) (h : inKeyArea i ev) (hkey : pinKey i ≠ []) : drawnKeyAt ev = some (pinKey i) := by
  rw [drawnKeyAt, find_range_eq hi (decide_eq_true ⟨hkey, h⟩) fun _ _ hj => inKeyArea_unique (of_decide_eq_true hj).2 h]
  rfl

theorem drawnKeyAt_blank (h : inKeyArea i ev) (hkey : pinKey i = []) : drawnKeyAt ev = none := by
  rw [drawnKeyAt, Option.map_eq_none_iff]
  refine List.find?_eq_none.mpr fun j _ hj => ?_
  obtain ⟨hne, harea⟩ := of_decide_eq_true hj
  exact hne (inKeyArea_unique harea h ▸ hkey)

theorem drawnKeyAt_none (h : ∀ i < 12, ¬inKeyArea i ev) : drawnKeyAt ev = none := by
  rw [drawnKeyAt, Option.map_eq_none_iff]
  refine List.find?_eq_none.mpr fun i hmem hkey => ?_
  exact h i (List.mem_range.mp hmem) (of_decide_eq_true hkey).2

/-! ## The entry -/

theorem decimalValue_lt {digits : List UInt8} (h : ∀ c ∈ digits, isDigit c = true) :
    decimalValue digits < 10 ^ digits.length := by
  induction digits using List.reverseRecOn with
  | nil => decide
  | append_singleton digits c ih =>
    have hc : 48 ≤ c ∧ c ≤ 57 := by simpa [isDigit] using h c (by simp)
    have hle : c.toNat ≤ 57 := UInt8.le_iff_toNat_le.mp hc.2
    have hrest := ih fun c hmem => h c (by simp [hmem])
    rw [decimalValue, List.foldl_concat, ← decimalValue, List.length_append, List.length_singleton, Nat.pow_succ]
    omega

/-- Four digits are the PIN when their value is. -/
theorem atoi_eq_iff {digits : List UInt8} (h : ∀ c ∈ digits, isDigit c = true) (hlen : digits.length = 4)
    (target : UInt32) :
    (atoi digits).toUInt32 = target ↔ decimalValue digits = target.toNat := by
  have hne : digits ≠ [] := by
    rintro rfl
    cases hlen
  have hvalue : atoi (digits ++ []) = Int32.ofNat (decimalValue digits) := atoi_digits h hne (by simp)
  rw [List.append_nil] at hvalue
  have hlt := decimalValue_lt h
  rw [hlen] at hlt
  rw [hvalue, ← UInt32.toNat_inj]
  have htoNat : (Int32.ofNat (decimalValue digits)).toUInt32.toNat = decimalValue digits := by
    rw [Int32.toUInt32_ofNat']
    exact Nat.mod_eq_of_lt (by omega)
  rw [htoNat]

/-! ## The check -/

theorem pinCheck_buffer (g : GuiState) :
    (pinCheck g).pinBuffer = if g.pinBuffer.length = 4 then [] else g.pinBuffer := by
  unfold pinCheck
  split
  · split <;> rfl
  · rfl

theorem pinCheck_short (h : g.pinBuffer.length ≠ 4) : pinCheck g = g := if_neg h

/-- What holds of the lock screen and the drawn pad while they agree. -/
structure PadOk (s : GuiState × PadEntry) : Prop where
  width : s.1.fbWidth = dispWidth
  entered : s.1.pinBuffer = s.2.entered
  digits : ∀ c ∈ s.1.pinBuffer, isDigit c = true
  short : s.1.pinBuffer.length < 4
  unlocked : s.1.lockScreen = 0 ↔ s.2.unlocked = true
  locked : s.1.currentView = .lock → s.1.lockScreen = 1

/-- A digit that the two type both. -/
theorem PadOk.digit (h : PadOk (g, p)) (hview : g.currentView = .lock) {c : UInt8} (hc : isDigit c = true) :
    PadOk (pinCheck { g with pinBuffer := g.pinBuffer ++ [c] }, p.press g.pinTarget [c]) := by
  have hlen : (ofString "DEL").length = 3 := by decide
  have hdel : [c] ≠ ofString "DEL" := by
    intro heq
    rw [← heq] at hlen
    cases hlen
  have hlocked : g.lockScreen = 1 := h.locked hview
  have hdigits : ∀ d ∈ g.pinBuffer ++ [c], isDigit d = true := by
    intro d hd
    rcases List.mem_append.mp hd with hd | hd
    · exact h.digits d hd
    · exact List.mem_singleton.mp hd ▸ hc
  have hentered : p.entered = g.pinBuffer := h.entered.symm
  rw [PadEntry.press, if_neg hdel, hentered]
  by_cases hfour : (g.pinBuffer ++ [c]).length = 4
  · -- both are checked now, the one by `atoi` and the other by its value
    rw [pinCheck, if_pos hfour, if_pos hfour, if_congr (atoi_eq_iff hdigits hfour g.pinTarget) rfl rfl]
    split
    · rename_i hvalue
      exact ⟨h.width, rfl, by simp, by simp, by simp [hvalue], by simp⟩
    · rename_i hvalue
      exact ⟨h.width, rfl, by simp, by simp, by simp [hvalue, hlocked], fun _ => hlocked⟩
  · rw [pinCheck_short hfour, if_neg hfour]
    have hshort : g.pinBuffer.length < 4 := h.short
    refine ⟨h.width, rfl, hdigits, ?_, h.unlocked, h.locked⟩
    simp only [List.length_append, List.length_singleton] at hfour ⊢
    omega

theorem PadOk.delete (h : PadOk (g, p)) :
    PadOk (pinCheck { g with pinBuffer := g.pinBuffer.dropLast, pinFailed := 0 }, p.press g.pinTarget (ofString "DEL")) := by
  have hshort : g.pinBuffer.dropLast.length < 4 := by
    have hlt : g.pinBuffer.length < 4 := h.short
    rw [List.length_dropLast]
    omega
  rw [pinCheck_short (Nat.ne_of_lt hshort), PadEntry.press, if_pos rfl]
  refine ⟨h.width, ?_, fun c hc => h.digits c ((List.dropLast_sublist _).subset hc), hshort, h.unlocked, h.locked⟩
  exact congrArg List.dropLast h.entered

/-- A key with a meaning, in both tables. -/
theorem PadOk.key (h : PadOk (g, p)) (hview : g.currentView = .lock) (hi : i < 12) (h9 : i ≠ 9) (h10 : i ≠ 10) :
    PadOk (pinCheck (pinType g i), p.press g.pinTarget (pinKey i)) := by
  by_cases h11 : i = 11
  · subst h11
    exact h.delete
  · have hdigit : pinKey i = [UInt8.ofNat (48 + (i + 1))] ∧ isDigit (UInt8.ofNat (48 + (i + 1))) = true := by
      have hlt : i < 9 := by omega
      clear h9 h10 h11 hi
      revert i
      decide
    have htype : pinType g i = { g with pinBuffer := g.pinBuffer ++ [UInt8.ofNat (48 + (i + 1))] } := by
      rw [pinType, if_neg h11, if_pos (by omega), if_neg h10]
      exact if_pos h.short
    rw [htype, hdigit.1]
    exact h.digit hview hdigit.2

theorem guiHandleTouch_lock (hview : g.currentView = .lock) (hdown : ev.event = .down) :
    guiHandleTouch g ev =
      match pinKeyAt g ev with
      | some i => pinCheck (pinType g i)
      | none => g := by
  rw [guiHandleTouch, if_pos hview, handlePinTouch, if_neg (not_not_intro hdown)]
  cases pinKeyAt g ev <;> rfl

/-- **A touch that avoids the two keys.** -/
theorem PadOk.step (h : PadOk s) (havoids : AvoidsZero ev) (hs : padStep s ev = some s') : PadOk s' := by
  obtain ⟨g, p⟩ := s
  unfold padStep at hs
  split at hs
  · rename_i hlock
    obtain rfl := Option.some.inj hs
    obtain ⟨hview, hdown⟩ := hlock
    rw [guiHandleTouch_lock hview hdown]
    by_cases hkey : ∃ i < 12, inKeyArea i ev
    · obtain ⟨i, hi, harea⟩ := hkey
      have h9 : i ≠ 9 := fun heq => havoids.1 (heq ▸ harea)
      have h10 : i ≠ 10 := fun heq => havoids.2 (heq ▸ harea)
      have hlabel : pinKey i ≠ [] := by
        clear harea
        revert i
        decide
      rw [pinKeyAt_eq h.width hi harea, PadEntry.touch, drawnKeyAt_eq hi harea hlabel]
      exact h.key hview hi h9 h10
    · have hnone : ∀ i < 12, ¬inKeyArea i ev := fun i hi harea => hkey ⟨i, hi, harea⟩
      rw [pinKeyAt_none h.width hnone, PadEntry.touch, drawnKeyAt_none hnone]
      exact h
  · cases hs

/-- A touch of one of the two keys tells the buffers apart: the blank one types a colon, the 0 nothing. -/
theorem PadOk.breaks (h : PadOk s) (havoids : ¬AvoidsZero ev) (hs : padStep s ev = some s') : ¬Agrees s' := by
  obtain ⟨g, p⟩ := s
  unfold padStep at hs
  split at hs
  · rename_i hlock
    obtain rfl := Option.some.inj hs
    obtain ⟨hview, hdown⟩ := hlock
    rw [guiHandleTouch_lock hview hdown]
    have hentered : p.entered = g.pinBuffer := h.entered.symm
    have hshort : g.pinBuffer.length < 4 := h.short
    rintro ⟨hbuffer, -⟩
    by_cases h9 : inKeyArea 9 ev
    · have htype : pinType g 9 = { g with pinBuffer := g.pinBuffer ++ [58] } := if_pos hshort
      simp only [pinKeyAt_eq h.width (by decide : 9 < 12) h9, PadEntry.touch, drawnKeyAt_blank h9 rfl, htype,
        pinCheck_buffer, hentered] at hbuffer
      split at hbuffer
      · -- four characters were checked and cleared, and three digits are there
        rename_i hfour
        rw [← hbuffer] at hfour
        cases hfour
      · exact absurd (congrArg List.length hbuffer) (by simp)
    · have h10 : inKeyArea 10 ev := by_contra fun h10 => havoids ⟨h9, h10⟩
      have hzero : pinKey 10 = [48] := by decide
      have hdel : [48] ≠ ofString "DEL" := by decide
      have htype : pinType g 10 = g := rfl
      simp only [pinKeyAt_eq h.width (by decide : 10 < 12) h10, PadEntry.touch,
        drawnKeyAt_eq (by decide : 10 < 12) h10 (by decide), hzero, htype, PadEntry.press, if_neg hdel,
        pinCheck_short (Nat.ne_of_lt hshort), hentered] at hbuffer
      split at hbuffer
      · rename_i hfour
        rw [hbuffer] at hfour
        cases hfour
      · exact absurd (congrArg List.length hbuffer) (by simp)
  · cases hs

end

/-- **The PIN pad, exactly**: the entry is that of the drawn pad throughout when no touch is on the blank
    key or the 0, and not for any other sequence of touches. -/
theorem pin_pad_iff {g : GuiState} (h : LockShown g) (evs : List TouchEvent) :
    Always padStep Agrees (g, padStart) evs ↔ Meets padStep (fun _ ev => AvoidsZero ev) (g, padStart) evs := by
  have hstart : PadOk (g, padStart) := by
    refine ⟨h.width, h.empty, ?_, ?_, ?_, fun _ => h.locked⟩
    · simp [h.empty]
    · simp [h.empty]
    · simp [h.locked, padStart]
  exact always_iff_meets (fun _ h => ⟨h.entered, h.unlocked⟩) (fun _ _ _ h hg hs => h.step hg hs)
    (fun _ _ _ h hg hs => h.breaks hg hs) hstart

theorem lockShown_init : LockShown (guiInit dispWidth dispHeight) := by
  constructor <;> decide

/-- 1, 2, 3, DEL, 3 and 4, which is the PIN of `gui_init`. -/
theorem pin_pad_right_pin :
    Always padStep Agrees (guiInit dispWidth dispHeight, padStart)
      [⟨434, 736, .down⟩, ⟨540, 736, .down⟩, ⟨646, 736, .down⟩, ⟨646, 1000, .down⟩, ⟨646, 736, .down⟩, ⟨434, 824, .down⟩] :=
  (pin_pad_iff lockShown_init _).mpr (meets_of_forall fun _ => by decide)

/-- The 0 is touched, and nothing is entered. -/
theorem pin_pad_zero_missing : ¬Always padStep Agrees (guiInit dispWidth dispHeight, padStart) [⟨540, 1000, .down⟩] := by
  intro h
  have hagrees := h.last (eq_some_getD (guiInit dispWidth dispHeight, padStart) (by decide))
  exact absurd hagrees.1 (by decide)

end Crimson.Gui
