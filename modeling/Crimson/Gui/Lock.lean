import Crimson.Gui.Model

/-!
# The lock screen (`compositor.c`)

While the lock is set, only the lock screen may be current, or a view that leads nowhere
but to it. The lock screen takes touches for itself, so a locked screen stays there, with
one exception: `gui_show_power_menu` does not look at the lock. The power menu is a view
like any other: its status bar opens the notifications, its cancel button the home screen.

`lock_screen_iff` says that this call, made while the screen is locked, is the only way
past the lock screen, and that the lock itself is taken off by the PIN or by `gui_unlock`
alone.
-/

set_option autoImplicit false

namespace Crimson.Gui

open Crimson.Lib

def Locked (g : GuiState) : Prop := g.lockScreen = 1

instance (g : GuiState) : Decidable (Locked g) := by
  unfold Locked
  infer_instance

/-- The views of the unlocked system. -/
def View.OfUnlocked (v : View) : Prop := v = .home ∨ v = .launcher ∨ v = .recent ∨ v = .notifications

/-- Whatever happens, a screen that is locked shows the view it shows now, or the lock screen. -/
def OnlyLock (g : GuiState) : Prop :=
  ∀ ops, Always guiStep (fun t => Locked t → t.currentView = g.currentView ∨ t.currentView = .lock) g ops

/-- A locked screen shows the lock screen, or a view from which nothing else is reached,
    and no view of the unlocked system. -/
structure LockSafe (g : GuiState) : Prop where
  confined : Locked g → g.currentView = .lock ∨ OnlyLock g
  hidden : Locked g → ¬g.currentView.OfUnlocked

/-- The touch is the last key of the right PIN. -/
def PinCompleted (g : GuiState) (ev : TouchEvent) : Prop :=
  ev.event = .down ∧ ∃ i, pinKeyAt g ev = some i ∧ PinRight (pinType g i)

/-- A screen that was locked still is, unless the PIN was completed or `gui_unlock` called. -/
def UnlockEarned (g : GuiState) (op : GuiOp) (g' : GuiState) : Prop :=
  Locked g → Locked g' ∨ (∃ pin, op = .unlock pin) ∨ ∃ ev, op = .touch ev ∧ PinCompleted g ev

/-- The power menu is asked for only while the screen is not locked. -/
def MenuUnlocked (g : GuiState) (op : GuiOp) : Prop := op = .showPowerMenu → ¬Locked g

/-! ## What a step does to the lock -/

/-- Neither the lock nor the view changes. -/
structure SameLock (g g' : GuiState) : Prop where
  lockScreen : g'.lockScreen = g.lockScreen
  currentView : g'.currentView = g.currentView

theorem SameLock.refl (g : GuiState) : SameLock g g := ⟨rfl, rfl⟩

theorem SameLock.locked {g g' : GuiState} (h : SameLock g g') : Locked g' ↔ Locked g := by
  unfold Locked
  rw [h.lockScreen]

theorem guiRegisterApp_sameLock (g : GuiState) (package : List UInt8) :
    SameLock g (guiRegisterApp g package).2 := by
  unfold guiRegisterApp
  split <;> exact ⟨rfl, rfl⟩

theorem guiCreateSurface_sameLock (g : GuiState) : SameLock g (guiCreateSurface g).2 := by
  unfold guiCreateSurface
  split <;> exact ⟨rfl, rfl⟩

theorem guiLaunchApp_sameLock {g g' : GuiState} {package : List UInt8} {fb : Bool}
    (h : guiLaunchApp g package fb = some g') : SameLock g g' := by
  have hsurface := guiCreateSurface_sameLock g
  unfold guiLaunchApp at h
  generalize guiCreateSurface g = r at h hsurface
  obtain ⟨made, t⟩ := r
  split at h
  · cases made with
    | true =>
      simp only at h
      split at h
      · exact Option.some.inj h ▸ hsurface
      · cases h
    | false => exact Option.some.inj h ▸ hsurface
  · exact Option.some.inj h ▸ SameLock.refl g

theorem guiNotify_sameLock (g : GuiState) : SameLock g (guiNotify g) := by
  unfold guiNotify
  split <;> exact ⟨rfl, rfl⟩

theorem guiAddNotification_sameLock (g : GuiState) : SameLock g (guiAddNotification g) := by
  unfold guiAddNotification
  split <;> exact ⟨rfl, rfl⟩

/-- The calls that touch the lock or the view are the four named ones. -/
theorem guiStep_cases {g g' : GuiState} {op : GuiOp} (h : guiStep g op = some g') :
    (∃ ev, op = .touch ev ∧ g' = guiHandleTouch g ev) ∨ (op = .showPowerMenu ∧ g' = guiShowPowerMenu g) ∨
      (op = .lock ∧ g' = guiLock g) ∨ (∃ pin, op = .unlock pin ∧ g' = guiUnlock g pin) ∨ SameLock g g' := by
  cases op with
  | touch ev => exact Or.inl ⟨ev, rfl, (Option.some.inj h).symm⟩
  | showPowerMenu => exact Or.inr (Or.inl ⟨rfl, (Option.some.inj h).symm⟩)
  | lock => exact Or.inr (Or.inr (Or.inl ⟨rfl, (Option.some.inj h).symm⟩))
  | unlock pin => exact Or.inr (Or.inr (Or.inr (Or.inl ⟨pin, rfl, (Option.some.inj h).symm⟩)))
  | launchApp package fb => exact Or.inr (Or.inr (Or.inr (Or.inr (guiLaunchApp_sameLock h))))
  | setPin pin | notifyClear id | notifyClearAll | killApp pid =>
    obtain rfl := Option.some.inj h
    exact Or.inr (Or.inr (Or.inr (Or.inr ⟨rfl, rfl⟩)))
  | notify => exact Or.inr (Or.inr (Or.inr (Or.inr (Option.some.inj h ▸ guiNotify_sameLock g))))
  | addNotification => exact Or.inr (Or.inr (Or.inr (Or.inr (Option.some.inj h ▸ guiAddNotification_sameLock g))))
  | registerApp package =>
    exact Or.inr (Or.inr (Or.inr (Or.inr (Option.some.inj h ▸ guiRegisterApp_sameLock g package))))
  | createSurface => exact Or.inr (Or.inr (Or.inr (Or.inr (Option.some.inj h ▸ guiCreateSurface_sameLock g))))

theorem pinType_sameLock (g : GuiState) (i : Nat) : SameLock g (pinType g i) := by
  unfold pinType
  split
  · exact ⟨rfl, rfl⟩
  · split
    · simp only
      split <;> exact ⟨rfl, rfl⟩
    · exact SameLock.refl g

/-- The check opens the screen for the right PIN, and otherwise leaves lock and view. -/
theorem pinCheck_cases (g : GuiState) :
    (PinRight g ∧ (pinCheck g).lockScreen = 0) ∨ (¬PinRight g ∧ SameLock g (pinCheck g)) := by
  unfold pinCheck PinRight
  by_cases hlen : g.pinBuffer.length = 4
  · by_cases hpin : (Str.atoi g.pinBuffer).toUInt32 = g.pinTarget
    · exact Or.inl ⟨⟨hlen, hpin⟩, by rw [if_pos hlen, if_pos hpin]⟩
    · rw [if_pos hlen, if_neg hpin]
      exact Or.inr ⟨fun h => hpin h.2, rfl, rfl⟩
  · rw [if_neg hlen]
    exact Or.inr ⟨fun h => hlen h.1, rfl, rfl⟩

theorem handlePinTouch_cases (g : GuiState) (ev : TouchEvent) :
    (PinCompleted g ev ∧ (handlePinTouch g ev).2.lockScreen = 0) ∨ SameLock g (handlePinTouch g ev).2 := by
  unfold handlePinTouch
  by_cases hdown : ev.event = .down
  · rw [if_neg (not_not_intro hdown)]
    cases hkey : pinKeyAt g ev with
    | none => exact Or.inr (SameLock.refl g)
    | some i =>
      have htype := pinType_sameLock g i
      rcases pinCheck_cases (pinType g i) with ⟨hright, hzero⟩ | ⟨_, hsame⟩
      · exact Or.inl ⟨⟨hdown, i, hkey, hright⟩, hzero⟩
      · exact Or.inr ⟨hsame.lockScreen.trans htype.lockScreen, hsame.currentView.trans htype.currentView⟩
  · rw [if_pos hdown]
    exact Or.inr (SameLock.refl g)

/-- The handlers of the other views do not know of the lock. -/
theorem viewTouch_lockScreen (g : GuiState) (ev : TouchEvent) : (viewTouch g ev).lockScreen = g.lockScreen := by
  unfold viewTouch handleHomeTouch handleLauncherTouch handleNotificationTouch handlePowerTouch guiNotifyClearAll
  split <;> grind

theorem guiHandleTouch_lockScreen (g : GuiState) (ev : TouchEvent) (hview : g.currentView ≠ .lock) :
    (guiHandleTouch g ev).lockScreen = g.lockScreen := by
  have hother := viewTouch_lockScreen g ev
  unfold guiHandleTouch navTouch
  rw [if_neg hview]
  grind

/-- On a screen that is not on the lock view, a touch of the status bar opens the
    notifications, whether the lock is set or not. -/
theorem guiHandleTouch_statusBar {g : GuiState} (hview : g.currentView ≠ .lock) :
    guiHandleTouch g { x := 0, y := 0, event := .down } = { g with currentView := .notifications } := by
  unfold guiHandleTouch
  rw [if_neg hview, if_pos ⟨rfl, by decide⟩]

/-- **A locked screen is safe on the lock view and nowhere else.** -/
theorem lockSafe_iff (g : GuiState) : LockSafe g ↔ (Locked g → g.currentView = .lock) := by
  constructor
  · intro h hlocked
    by_contra hview
    rcases h.confined hlocked with hlock | honly
    · exact hview hlock
    · have hnext := (honly [.touch { x := 0, y := 0, event := .down }]).2 _ rfl
      rw [guiHandleTouch_statusBar hview] at hnext
      rcases hnext hlocked with hsame | hlock
      · exact h.hidden hlocked (Or.inr (Or.inr (Or.inr hsame.symm)))
      · cases hlock
  · intro h
    refine ⟨fun hlocked => Or.inl (h hlocked), ?_⟩
    intro hlocked
    rw [h hlocked]
    simp [View.OfUnlocked]

theorem LockSafe.step {g g' : GuiState} {op : GuiOp} (h : LockSafe g) (hmenu : MenuUnlocked g op)
    (hs : guiStep g op = some g') : LockSafe g' ∧ UnlockEarned g op g' := by
  rw [lockSafe_iff] at h ⊢
  rcases guiStep_cases hs with ⟨ev, rfl, rfl⟩ | ⟨rfl, rfl⟩ | ⟨rfl, rfl⟩ | ⟨pin, rfl, rfl⟩ | hsame
  · by_cases hview : g.currentView = .lock
    · have htouch : guiHandleTouch g ev = (handlePinTouch g ev).2 := if_pos hview
      rw [htouch]
      rcases handlePinTouch_cases g ev with ⟨hpin, hzero⟩ | hsame
      · refine ⟨?_, fun _ => Or.inr (Or.inr ⟨ev, rfl, hpin⟩)⟩
        intro hlocked
        exact absurd (hzero.symm.trans hlocked) (by decide)
      · refine ⟨fun _ => hsame.currentView.trans hview, fun hlocked => Or.inl (hsame.locked.mpr hlocked)⟩
    · have hopen : ¬Locked g := fun hlocked => hview (h hlocked)
      refine ⟨?_, fun hlocked => absurd hlocked hopen⟩
      intro hlocked
      exact absurd ((guiHandleTouch_lockScreen g ev hview).symm.trans hlocked) hopen
  · exact ⟨fun hlocked => absurd hlocked (hmenu rfl), fun hlocked => Or.inl hlocked⟩
  · exact ⟨fun _ => rfl, fun _ => Or.inl rfl⟩
  · refine ⟨?_, fun _ => Or.inr (Or.inl ⟨pin, rfl⟩)⟩
    unfold guiUnlock
    split
    · intro hlocked
      exact absurd hlocked (by simp [Locked])
    · exact h
  · refine ⟨?_, fun hlocked => Or.inl (hsame.locked.mpr hlocked)⟩
    intro hlocked
    exact hsame.currentView.trans (h (hsame.locked.mp hlocked))

/-- The menu of a locked screen is no longer safe. -/
theorem LockSafe.menu {g g' : GuiState} {op : GuiOp} (hs : guiStep g op = some g') (h : LockSafe g') :
    MenuUnlocked g op := by
  rintro rfl hlocked
  obtain rfl := Option.some.inj hs
  exact absurd ((lockSafe_iff _).mp h hlocked) (by simp [guiShowPowerMenu])

theorem guiInit_view (fbWidth fbHeight : UInt32) : (guiInit fbWidth fbHeight).currentView = .lock := by
  unfold guiInit
  have hfold : ∀ (packages : List (List UInt8)) (g : GuiState),
      (packages.foldl (fun g package => (guiRegisterApp g package).2) g).currentView = g.currentView := by
    intro packages
    induction packages with
    | nil => exact fun g => rfl
    | cons package packages ih =>
      intro g
      rw [List.foldl_cons, ih]
      exact (guiRegisterApp_sameLock g package).currentView
  exact hfold _ _

/-- **The lock screen holds in a run exactly when the power menu is never asked for while
    the screen is locked.** -/
theorem lock_screen_iff (fbWidth fbHeight : UInt32) (ops : List GuiOp) :
    (Always guiStep LockSafe (guiInit fbWidth fbHeight) ops ∧
        AlwaysStep guiStep UnlockEarned (guiInit fbWidth fbHeight) ops) ↔
      Meets guiStep MenuUnlocked (guiInit fbWidth fbHeight) ops := by
  have hinit : LockSafe (guiInit fbWidth fbHeight) :=
    (lockSafe_iff _).mpr fun _ => guiInit_view fbWidth fbHeight
  refine Iff.trans ?_ (and_iff_right hinit)
  exact always_step_iff (I := fun _ => True) (fun _ _ _ _ _ => trivial)
    (fun _ _ _ _ h hg hs => h.step hg hs) (fun _ _ _ _ _ hs h _ => h.menu hs) trivial

/-- On the display of this device: the power menu and its cancel button lead home, with the
    lock still set. -/
theorem lock_screen_bypassed :
    ¬Always guiStep LockSafe (guiInit 1080 1920) [.showPowerMenu, .touch { x := 540, y := 1000, event := .down }] ∧
      (run guiStep (guiInit 1080 1920)
          [.showPowerMenu, .touch { x := 540, y := 1000, event := .down }]).map
        (fun g => (g.currentView, g.lockScreen)) = some (.home, 1) := by
  refine ⟨?_, by decide +kernel⟩
  intro h
  exact absurd ((lockSafe_iff _).mp (h.2 _ rfl).1 (by decide +kernel)) (by decide +kernel)

end Crimson.Gui
