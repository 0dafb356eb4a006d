import Crimson.Lib.Run
import Crimson.Str.Model

/-!
# The compositor (`compositor.c`)

The part of the compositor that decides what is on the screen: the current and the
remembered view, the lock with its PIN entry, and the calls that move between them.
Drawing is left out, and so is what is only drawn or printed. Coordinates are 32-bit
words, as `touch_event_t` has them; the handlers' signed intermediate values wrap to
the same words.
-/

set_option autoImplicit false

namespace Crimson.Gui

open Crimson.Str

/-- The internal views. -/
inductive View where
  | home
  | launcher
  | lock
  | notifications
  | recent
  | power
deriving DecidableEq, Repr

/-- `EVENT_DOWN` and the other values of `event`. -/
inductive TouchKind where
  | down
  | up
  | contact
deriving DecidableEq, Repr

/-- The fields of `touch_event_t` that the handlers read. -/
structure TouchEvent where
  x : UInt32
  y : UInt32
  event : TouchKind
deriving DecidableEq, Repr

/-- The fields of `gui_notification_t` that a call reads. -/
structure Notification where
  id : UInt32
deriving DecidableEq, Repr

/-- The fields of `gui_app_entry_t` that a call reads. -/
structure AppEntry where
  package : List UInt8
  pid : Int
deriving DecidableEq, Repr

/-- `g_gui` and the file's static variables. `pinBuffer` holds the first `pin_len` bytes of
    the buffer. -/
structure GuiState where
  fbWidth : UInt32
  fbHeight : UInt32
  lockScreen : UInt32
  pinEnabled : UInt32
  currentView : View
  prevView : View
  pinBuffer : List UInt8
  pinTarget : UInt32
  pinFailed : UInt32
  notifications : List Notification
  notifNextId : UInt32
  apps : List AppEntry
  surfaceCount : Nat
deriving DecidableEq, Repr

/-! Limits and layout. -/

def guiMaxSurfaces : Nat := 32
def guiMaxApps : Nat := 64
def guiNotificationMax : Nat := 16
def sbHeight : UInt32 := 48
def nbHeight : UInt32 := 56

/-- The packages of the built-in apps. -/
def appPackages : List (List UInt8) :=
  ["com.crimson.phone", "com.crimson.messages", "com.crimson.browser", "com.crimson.camera",
    "com.crimson.gallery", "com.crimson.files", "com.crimson.settings", "com.crimson.store",
    "com.crimson.terminal", "com.crimson.clock", "com.crimson.music", "com.crimson.mail",
    "com.crimson.maps", "com.crimson.weather", "com.crimson.calendar", "com.crimson.pentest"].map ofString

/-! ## Apps, surfaces and notifications -/

/-- `gui_register_app`; the result is 0, or -1 for a full table. -/
def guiRegisterApp (g : GuiState) (package : List UInt8) : Int × GuiState :=
  if guiMaxApps ≤ g.apps.length then (-1, g)
  else (0, { g with apps := g.apps ++ [{ package := package.take 127, pid := -1 }] })

/-- `gui_init`, on a display of this size. -/
def guiInit (fbWidth fbHeight : UInt32) : GuiState :=
  appPackages.foldl (fun g package => (guiRegisterApp g package).2)
    { fbWidth := fbWidth
      fbHeight := fbHeight
      lockScreen := 1
      pinEnabled := 1
      currentView := .lock
      prevView := .home
      pinBuffer := []
      pinTarget := 1234
      pinFailed := 0
      notifications := []
      notifNextId := 1
      apps := []
      surfaceCount := 0 }

/-- `gui_create_surface`: the flag says whether there was a slot. -/
def guiCreateSurface (g : GuiState) : Bool × GuiState :=
  if guiMaxSurfaces ≤ g.surfaceCount then (false, g)
  else (true, { g with surfaceCount := g.surfaceCount + 1 })

/-- `gui_launch_app`; `fb` says whether there is memory for the surface, which is filled
    without a check. -/
def guiLaunchApp (g : GuiState) (package : List UInt8) (fb : Bool) : Option GuiState :=
  if g.apps.any fun app => app.package = package then
    match guiCreateSurface g with
    | (true, g) => if fb then some g else none -- NULL dereference
    | (false, g) => some g
  else some g

/-- The loop of `gui_kill_app`. -/
def killWalk (pid : Int) : List AppEntry → List AppEntry
  | [] => []
  | app :: apps => if app.pid = pid then { app with pid := -1 } :: apps else app :: killWalk pid apps

def guiKillApp (g : GuiState) (pid : Int) : GuiState := { g with apps := killWalk pid g.apps }

/-- A notification at the end of the buffer, under the next number. -/
def pushNotification (g : GuiState) : GuiState :=
  { g with
    notifications := g.notifications ++ [{ id := g.notifNextId }]
    notifNextId := g.notifNextId + 1 }

/-- `gui_notify`: a full buffer loses its oldest entry. -/
def guiNotify (g : GuiState) : GuiState :=
  if guiNotificationMax ≤ g.notifications.length then
    pushNotification { g with notifications := g.notifications.tail }
  else pushNotification g

/-- `gui_add_notification`: a full buffer takes no more. -/
def guiAddNotification (g : GuiState) : GuiState :=
  if guiNotificationMax ≤ g.notifications.length then g else pushNotification g

def guiNotifyClear (g : GuiState) (id : UInt32) : GuiState :=
  { g with notifications := g.notifications.eraseP fun n => n.id = id }

def guiNotifyClearAll (g : GuiState) : GuiState := { g with notifications := [] }

/-! ## The lock -/

def guiLock (g : GuiState) : GuiState :=
  { g with lockScreen := 1, pinBuffer := [], pinFailed := 0, currentView := .lock }

def guiUnlock (g : GuiState) (pin : UInt32) : GuiState :=
  if g.pinEnabled = 0 ∨ pin = g.pinTarget then
    { g with lockScreen := 0, pinBuffer := [], currentView := .home }
  else g

def guiSetPin (g : GuiState) (pin : UInt32) : GuiState := { g with pinTarget := pin, pinEnabled := 1 }

def guiShowPowerMenu (g : GuiState) : GuiState := { g with prevView := g.currentView, currentView := .power }

/-- The area of key `i` of the PIN pad. -/
def inPinKey (g : GuiState) (ev : TouchEvent) (i : Nat) : Bool :=
  let cx := g.fbWidth / 2
  let startX := cx - (3 * 90 + 2 * 16) / 2
  let kx := startX + UInt32.ofNat (i % 3) * (90 + 16)
  let ky := 700 + UInt32.ofNat (i / 3) * (72 + 16)
  kx ≤ ev.x ∧ ev.x < kx + 90 ∧ ky ≤ ev.y ∧ ev.y < ky + 72

/-- The key of the PIN pad that is touched, by its number. -/
def pinKeyAt (g : GuiState) (ev : TouchEvent) : Option Nat := (List.range 12).find? fun i => inPinKey g ev i

/-- What a key does to the buffer: the last one deletes, the first ten add a character. -/
def pinType (g : GuiState) (i : Nat) : GuiState :=
  if i = 11 then { g with pinBuffer := g.pinBuffer.dropLast, pinFailed := 0 }
  else if i < 10 then
    let digit := if i = 10 then 0 else i + 1
    if g.pinBuffer.length < 4 then { g with pinBuffer := g.pinBuffer ++ [UInt8.ofNat (48 + digit)] } else g
  else g

/-- Four characters are there, and they are the PIN. -/
def PinRight (g : GuiState) : Prop := g.pinBuffer.length = 4 ∧ (atoi g.pinBuffer).toUInt32 = g.pinTarget

instance (g : GuiState) : Decidable (PinRight g) := by
  unfold PinRight
  infer_instance

/-- The check after every key. -/
def pinCheck (g : GuiState) : GuiState :=
  if g.pinBuffer.length = 4 then
    if (atoi g.pinBuffer).toUInt32 = g.pinTarget then
      { g with lockScreen := 0, pinBuffer := [], pinFailed := 0, currentView := .home }
    else { g with pinBuffer := [], pinFailed := 1 }
  else g

/-- `handle_pin_touch`; the flag says whether a key was touched. -/
def handlePinTouch (g : GuiState) (ev : TouchEvent) : Bool × GuiState :=
  if ev.event ≠ .down then (false, g)
  else
    match pinKeyAt g ev with
    | some i => (true, pinCheck (pinType g i))
    | none => (false, g)

/-! ## Touches -/

/-- `handle_home_touch`; a quick app is only announced. -/
def handleHomeTouch (g : GuiState) (ev : TouchEvent) : GuiState :=
  if ev.event ≠ .down then g
  else if g.fbHeight - nbHeight - 200 < ev.y then { g with prevView := .home, currentView := .launcher }
  else g

/-- `handle_launcher_touch`: an app is only announced. -/
def handleLauncherTouch (g : GuiState) (_ev : TouchEvent) : GuiState := g

def handleNotificationTouch (g : GuiState) (ev : TouchEvent) : GuiState :=
  if ev.event ≠ .down then g
  else
    let cbx := g.fbWidth / 2 - 80
    let cby := g.fbHeight - 160
    if cbx ≤ ev.x ∧ ev.x < cbx + 160 ∧ cby ≤ ev.y ∧ ev.y < cby + 44 then
      { guiNotifyClearAll g with currentView := .home }
    else if ev.y < sbHeight + 20 ∨ ev.x < 20 ∨ g.fbWidth - 20 < ev.x then { g with currentView := .home }
    else g

def handlePowerTouch (g : GuiState) (ev : TouchEvent) : GuiState :=
  if ev.event ≠ .down then g
  else
    let cx := g.fbWidth / 2
    if cx - 160 < ev.x ∧ ev.x < cx + 160 ∧ 640 < ev.y ∧ ev.y < 696 then g -- power off
    else if cx - 160 < ev.x ∧ ev.x < cx + 160 ∧ 712 < ev.y ∧ ev.y < 768 then g -- restart
    else { g with currentView := .home }

/-- The part of `gui_handle_touch` for each view, after the bars. -/
def viewTouch (g : GuiState) (ev : TouchEvent) : GuiState :=
  match g.currentView with
  | .home => handleHomeTouch g ev
  | .launcher => handleLauncherTouch g ev
  | .notifications => handleNotificationTouch g ev
  | .power => handlePowerTouch g ev
  | .lock | .recent => g

/-- The navigation bar. -/
def navTouch (g : GuiState) (ev : TouchEvent) : GuiState :=
  let bw := g.fbWidth / 3
  if ev.x < bw then { g with currentView := g.prevView }
  else if ev.x < bw * 2 then { g with currentView := .home }
  else { g with prevView := g.currentView, currentView := .recent }

/-- `gui_handle_touch`. A touch of the lock screen that is on no key, the emergency area
    included, changes nothing. -/
def guiHandleTouch (g : GuiState) (ev : TouchEvent) : GuiState :=
  if g.currentView = .lock then (handlePinTouch g ev).2
  else if ev.event = .down ∧ ev.y < sbHeight then { g with currentView := .notifications }
  else if ev.event = .down ∧ g.fbHeight - nbHeight - 40 < ev.y then
    if g.currentView = .notifications ∨ g.currentView = .recent ∨ g.currentView = .launcher then
      { g with currentView := .home }
    else g
  else if ev.event = .down ∧ g.fbHeight - nbHeight < ev.y then navTouch g ev
  else viewTouch g ev

/-! ## Steps -/

inductive GuiOp where
  | touch (ev : TouchEvent)
  | showPowerMenu
  | lock
  | unlock (pin : UInt32)
  | setPin (pin : UInt32)
  | notify
  | addNotification
  | notifyClear (id : UInt32)
  | notifyClearAll
  | registerApp (package : List UInt8)
  | launchApp (package : List UInt8) (fb : Bool)
  | killApp (pid : Int)
  | createSurface
deriving DecidableEq, Repr

def guiStep (g : GuiState) : GuiOp → Option GuiState
  | .touch ev => some (guiHandleTouch g ev)
  | .showPowerMenu => some (guiShowPowerMenu g)
  | .lock => some (guiLock g)
  | .unlock pin => some (guiUnlock g pin)
  | .setPin pin => some (guiSetPin g pin)
  | .notify => some (guiNotify g)
  | .addNotification => some (guiAddNotification g)
  | .notifyClear id => some (guiNotifyClear g id)
  | .notifyClearAll => some (guiNotifyClearAll g)
  | .registerApp package => some (guiRegisterApp g package).2
  | .launchApp package fb => guiLaunchApp g package fb
  | .killApp pid => some (guiKillApp g pid)
  | .createSurface => some (guiCreateSurface g).2

end Crimson.Gui
