import Crimson.Lib.Ring
import Crimson.Lib.Run

/-!
# Touch events on their way to the GUI (`touch.c`, `kmain.c`)

The interrupt handler puts events in a ring of 256 cells (`touch_enqueue_event`), and the render
task empties it once a frame, one `touch_read_event_nb` after the other, and hands each event
to `gui_handle_touch`.

The reader answers 0 when it has taken an event out and -1 when there is none; the loop of the
render task goes on while the answer is positive. So the loop ends at its first call, and an
event that this call has taken out is gone.
-/

set_option autoImplicit false

namespace Crimson.Touch

open Crimson.Lib

def touchQueueSize : Nat := 256

/-- `touch_event_t`. -/
structure TouchEvent where
  id : UInt32
  x : UInt32
  y : UInt32
  pressure : UInt32
  width : UInt32
  event : UInt32
  timestamp : UInt64
deriving DecidableEq, Repr

/-- The queue in `g_touch`. -/
structure TouchQueue where
  eventQueue : Nat → TouchEvent
  eqHead : Nat
  eqTail : Nat

/-- `touch_enqueue_event`: a full queue drops the event. -/
def touchEnqueueEvent (q : TouchQueue) (ev : TouchEvent) : TouchQueue :=
  if (q.eqHead + 1) % touchQueueSize ≠ q.eqTail then
    { q with
      eventQueue := Function.update q.eventQueue q.eqHead ev
      eqHead := (q.eqHead + 1) % touchQueueSize }
  else q

/-- `touch_read_event_nb`: the result, `*out` and the queue after the call. -/
def touchReadEventNb (q : TouchQueue) (out : TouchEvent) : Int × TouchEvent × TouchQueue :=
  if q.eqHead ≠ q.eqTail then
    (0, q.eventQueue q.eqTail, { q with eqTail := (q.eqTail + 1) % touchQueueSize })
  else (-1, out, q)

/-- The events in the queue, first one first. -/
def TouchQueue.events (q : TouchQueue) : List TouchEvent :=
  ringList q.eventQueue touchQueueSize q.eqTail ((q.eqHead + touchQueueSize - q.eqTail) % touchQueueSize)

/-- Where `crimson_gui_task` is in a frame: `gui_render_frame`, the loop of the touches,
    `display_swap_buffers`. -/
inductive GuiTaskPc where
  | render
  | touches
  | swap
deriving DecidableEq, Repr

/-- The queue and the render task, with what has been enqueued and what has been given to
    `gui_handle_touch` so far. `due` are the events enqueued up to the last time the loop of
    the touches was left. -/
structure GuiTask where
  queue : TouchQueue
  pc : GuiTaskPc
  ev : TouchEvent
  enqueued : List TouchEvent
  delivered : List TouchEvent
  due : List TouchEvent

/-- One call of the reader by the loop of the touches. -/
def touchLoop (t : GuiTask) : GuiTask :=
  match touchReadEventNb t.queue t.ev with
  | (r, ev, queue) =>
    if 0 < r then { t with queue := queue, ev := ev, delivered := t.delivered ++ [ev] }
    else { t with queue := queue, ev := ev, pc := .swap, due := t.enqueued }

inductive TouchOp where
  /-- The interrupt handler has an event. -/
  | enqueue (ev : TouchEvent)
  /-- The render task goes on. -/
  | task
deriving DecidableEq, Repr

def touchStep (t : GuiTask) : TouchOp → Option GuiTask
  | .enqueue ev => some { t with queue := touchEnqueueEvent t.queue ev, enqueued := t.enqueued ++ [ev] }
  | .task =>
    match t.pc with
    | .render => some { t with pc := .touches }
    | .touches => some (touchLoop t)
    | .swap => some { t with pc := .render }

/-- The zeroed queue and the task at its first frame; `ev` is an uninitialised local. -/
def touchStart (zero ev : TouchEvent) : GuiTask where
  queue := ⟨fun _ => zero, 0, 0⟩
  pc := .render
  ev := ev
  enqueued := []
  delivered := []
  due := []

/-- An event is enqueued only where there is room for it. -/
def NeverFull (t : GuiTask) : TouchOp → Prop
  | .enqueue _ => (t.queue.eqHead + 1) % touchQueueSize ≠ t.queue.eqTail
  | .task => True

instance (t : GuiTask) (op : TouchOp) : Decidable (NeverFull t op) := by
  cases op <;> unfold NeverFull <;> infer_instance

/-- Every event has been delivered or is still in the queue, once and in order, and what was
    there when the loop was left has been delivered. -/
structure Delivers (t : GuiTask) : Prop where
  inOrder : t.delivered ++ t.queue.events = t.enqueued
  delivered : t.due <+: t.delivered

/-- The loop of the touches runs only where no event has been enqueued yet. -/
def NothingYet (t : GuiTask) : TouchOp → Prop
  | .enqueue _ => True
  | .task => t.pc = .touches → t.enqueued = []

instance (t : GuiTask) (op : TouchOp) : Decidable (NothingYet t op) := by
  cases op <;> unfold NothingYet <;> infer_instance

/-! ## The queue -/

/-- Both indices are cells of the ring. -/
structure TouchQueue.Ok (q : TouchQueue) : Prop where
  head : q.eqHead < touchQueueSize
  tail : q.eqTail < touchQueueSize

theorem TouchQueue.Ok.enqueue {q : TouchQueue} (h : q.Ok) (ev : TouchEvent) : (touchEnqueueEvent q ev).Ok := by
  unfold touchEnqueueEvent
  split
  · exact ⟨Nat.mod_lt _ (by decide), h.tail⟩
  · exact h

/-- An event for which there is room goes behind the others. -/
theorem events_enqueue {q : TouchQueue} (h : q.Ok) (ev : TouchEvent)
    (hroom : (q.eqHead + 1) % touchQueueSize ≠ q.eqTail) : (touchEnqueueEvent q ev).events = q.events ++ [ev] := by
  obtain ⟨hhead, htail⟩ := h
  have henq : touchEnqueueEvent q ev =
      ⟨Function.update q.eventQueue q.eqHead ev, (q.eqHead + 1) % touchQueueSize, q.eqTail⟩ := if_pos hroom
  rw [henq]
  simp only [touchQueueSize] at hhead htail hroom
  have hidx : (q.eqTail + (q.eqHead + 256 - q.eqTail) % 256) % 256 = q.eqHead := by omega
  have hcount : ((q.eqHead + 1) % 256 + 256 - q.eqTail) % 256 = (q.eqHead + 256 - q.eqTail) % 256 + 1 := by omega
  have hput : ringList (ringPut 256 q.eventQueue ((q.eqTail + (q.eqHead + 256 - q.eqTail) % 256) % 256) [ev]).1 256
      q.eqTail ((q.eqHead + 256 - q.eqTail) % 256 + 1) =
        ringList q.eventQueue 256 q.eqTail ((q.eqHead + 256 - q.eqTail) % 256) ++ [ev] :=
    ringList_ringPut (by decide) (by simp only [List.length_singleton]; omega)
  rw [hidx] at hput
  simp only [TouchQueue.events, touchQueueSize, hcount]
  exact hput

theorem events_eq_nil {q : TouchQueue} (h : q.Ok) : q.events = [] ↔ q.eqHead = q.eqTail := by
  obtain ⟨hhead, htail⟩ := h
  simp only [touchQueueSize] at hhead htail
  rw [← List.length_eq_zero_iff, TouchQueue.events, length_ringList, touchQueueSize]
  omega

/-- A call of the reader that finds an event takes the first one out. -/
theorem events_read {q : TouchQueue} (h : q.Ok) (out : TouchEvent) (hne : q.eqHead ≠ q.eqTail) :
    q.events = (touchReadEventNb q out).2.1 :: (touchReadEventNb q out).2.2.events ∧
      (touchReadEventNb q out).2.2.Ok := by
  obtain ⟨hhead, htail⟩ := h
  simp only [touchReadEventNb, if_pos hne]
  refine ⟨?_, hhead, Nat.mod_lt _ (by decide)⟩
  have hcount : (q.eqHead + touchQueueSize - q.eqTail) % touchQueueSize =
      (q.eqHead + touchQueueSize - (q.eqTail + 1) % touchQueueSize) % touchQueueSize + 1 := by
    simp only [touchQueueSize] at hhead htail ⊢
    omega
  simp only [TouchQueue.events]
  rw [hcount, ringList_succ htail]

/-- The answer of the reader is never positive. -/
theorem read_not_pos (q : TouchQueue) (out : TouchEvent) : ¬0 < (touchReadEventNb q out).1 := by
  unfold touchReadEventNb
  split <;> simp

/-- So the loop is left at every call, with nothing delivered. -/
theorem touchLoop_eq (t : GuiTask) :
    touchLoop t =
      { t with
        queue := (touchReadEventNb t.queue t.ev).2.2
        ev := (touchReadEventNb t.queue t.ev).2.1
        pc := .swap
        due := t.enqueued } := by
  simp only [touchLoop, if_neg (read_not_pos t.queue t.ev)]

/-! ## Runs -/

theorem delivered_step {t t' : GuiTask} {op : TouchOp} (hs : touchStep t op = some t') :
    t'.delivered = t.delivered := by
  cases op with
  | enqueue ev =>
    obtain rfl := Option.some.inj hs
    rfl
  | task =>
    cases hpc : t.pc <;> simp only [touchStep, hpc, Option.some.injEq] at hs <;> obtain rfl := hs
    · rfl
    · rw [touchLoop_eq]
    · rfl

/-- **No event ever reaches the GUI**, full queue or not. -/
theorem nothing_delivered (zero ev : TouchEvent) (ops : List TouchOp) :
    Always touchStep (fun t => t.delivered = []) (touchStart zero ev) ops :=
  always_of_step (fun _ _ _ h hs => (delivered_step hs).trans h) rfl

/-- As long as the loop has met no event. -/
structure Waiting (t : GuiTask) : Prop where
  queue : t.queue.Ok
  events : t.queue.events = t.enqueued
  delivered : t.delivered = []
  due : t.due = []

theorem Waiting.delivers {t : GuiTask} (h : Waiting t) : Delivers t := by
  refine ⟨?_, ?_⟩
  · rw [h.delivered, h.events]
    rfl
  · rw [h.due]
    exact List.nil_prefix

theorem waiting_step (t : GuiTask) (op : TouchOp) (t' : GuiTask) (h : Waiting t) (hroom : NeverFull t op)
    (hg : NothingYet t op) (hs : touchStep t op = some t') : Waiting t' := by
  cases op with
  | enqueue ev =>
    obtain rfl := Option.some.inj hs
    exact ⟨h.queue.enqueue ev, by rw [events_enqueue h.queue ev hroom, h.events], h.delivered, h.due⟩
  | task =>
    cases hpc : t.pc with
    | render | swap =>
      simp only [touchStep, hpc, Option.some.injEq] at hs
      obtain rfl := hs
      exact ⟨h.queue, h.events, h.delivered, h.due⟩
    | touches =>
      simp only [touchStep, hpc, Option.some.injEq] at hs
      obtain rfl := hs
      have hnil : t.enqueued = [] := hg hpc
      -- the reader finds nothing and leaves the queue as it is
      have hempty : t.queue.eqHead = t.queue.eqTail := (events_eq_nil h.queue).mp (h.events.trans hnil)
      have hread : (touchReadEventNb t.queue t.ev).2.2 = t.queue := by simp [touchReadEventNb, hempty]
      rw [touchLoop_eq, hread]
      exact ⟨h.queue, h.events, h.delivered, hnil⟩

/-- Past the guard the loop is left with an event that has not been delivered. -/
theorem not_delivers_step (t : GuiTask) (op : TouchOp) (t' : GuiTask) (h : Waiting t) (hg : ¬NothingYet t op)
    (hs : touchStep t op = some t') : ¬Delivers t' := by
  intro h'
  cases op with
  | enqueue ev => exact hg trivial
  | task =>
    simp only [NothingYet, Classical.not_imp] at hg
    obtain ⟨hpc, hne⟩ := hg
    simp only [touchStep, hpc, Option.some.injEq] at hs
    obtain rfl := hs
    rw [touchLoop_eq] at h'
    have hdue : t.enqueued <+: t.delivered := h'.delivered
    rw [h.delivered, List.prefix_nil] at hdue
    exact hne hdue

theorem waiting_start (zero ev : TouchEvent) : Waiting (touchStart zero ev) := by
  have hok : (touchStart zero ev).queue.Ok := ⟨Nat.zero_lt_succ 255, Nat.zero_lt_succ 255⟩
  exact ⟨hok, (events_eq_nil hok).mpr rfl, rfl, rfl⟩

/-- Delivery, exactly: with a queue that is never full it works as long as no event has been
    enqueued when the loop of the touches runs. -/
theorem delivers_iff (zero ev : TouchEvent) (ops : List TouchOp)
    (hroom : Meets touchStep NeverFull (touchStart zero ev) ops) :
    Always touchStep Delivers (touchStart zero ev) ops ↔ Meets touchStep NothingYet (touchStart zero ev) ops :=
  always_iff_meets_assuming (fun _ => Waiting.delivers) waiting_step
    (fun t op t' h _ => not_delivers_step t op t' h) (waiting_start zero ev) hroom

/-- An event of a finger at (100, 200). -/
def someTouch : TouchEvent where
  id := 0
  x := 100
  y := 200
  pressure := 10
  width := 5
  event := 0
  timestamp := 1000

/-- A frame before the event: the event is still in the queue. -/
theorem delivers_frame_first :
    Always touchStep Delivers (touchStart someTouch someTouch) [.task, .task, .task, .enqueue someTouch] :=
  (delivers_iff someTouch someTouch [.task, .task, .task, .enqueue someTouch]
    (meets_of_check (fun t op => decide (NeverFull t op)) (fun _ _ => of_decide_eq_true) (by decide))).mpr
    (meets_of_check (fun t op => decide (NothingYet t op)) (fun _ _ => of_decide_eq_true) (by decide))

/-- One event and one frame: the event is taken out of the queue and thrown away. -/
theorem first_event_lost :
    ¬Always touchStep Delivers (touchStart someTouch someTouch) [.enqueue someTouch, .task, .task] := by
  intro h
  have hlast := (h.last rfl).inOrder
  exact absurd hlast (by decide)

end Crimson.Touch
