import Mathlib.Data.List.Perm.Basic
import Crimson.Lib.Run

/-!
# Triple buffering (`display_pipeline.c`)

Three framebuffers are named by three indices: the one to draw in, the one the display reads
and the one that is finished. `pipeline_render_frame` picks its buffer at its start and
publishes one at its end, without the lock; `pipeline_vsync_irq` turns the indices in between
and at any time.

A flip is a rotation, so it keeps the three indices apart. The end of a frame is an assignment
`fb_ready = fb_index`: from then on two of the indices are the same buffer, and no call ever
finds the third buffer again (`indices_lost`). A frame keeps the buffer it has picked, so flips
under it move that buffer first into `fb_ready` and then onto the screen.
-/

set_option autoImplicit false

namespace Crimson.Display

open Crimson.Lib

def pipelineFpsTarget : UInt64 := 60
def pipelineFrameBudget : UInt64 := 16667

/-- The fields of `g_pipeline` that a frame or a flip uses; framebuffers go by their index
    in `fb`. `scanout` is the buffer `display_set_scanout` was given last, and `frame` is what
    `pipeline_render_frame` holds in its locals while it draws: `back` and `frame_start`. -/
structure Pipeline where
  fbIndex : UInt32
  fbPresenting : UInt32
  fbReady : UInt32
  scanout : Option UInt32
  frame : Option (UInt32 × UInt64)
  frameCount : UInt64
  lastFrameTime : UInt64
  frameTimeUs : UInt64
  fps : UInt32
  droppedFrames : UInt32
  vsyncPending : Bool
deriving DecidableEq, Repr

/-- `pipeline_alloc_buffers`, on the zeroed state of `pipeline_init`. -/
def pipelineAllocBuffers : Pipeline where
  fbIndex := 0
  fbPresenting := 1
  fbReady := 2
  scanout := none
  frame := none
  frameCount := 0
  lastFrameTime := 0
  frameTimeUs := 0
  fps := 0
  droppedFrames := 0
  vsyncPending := false

def pipelineFlip (g : Pipeline) : Pipeline :=
  { g with
    fbPresenting := g.fbReady
    fbReady := g.fbIndex
    fbIndex := g.fbPresenting
    scanout := some g.fbReady
    vsyncPending := false }

def pipelineVsyncIrq (g : Pipeline) : Pipeline :=
  let g := pipelineFlip { g with vsyncPending := true }
  { g with frameCount := g.frameCount + 1 }

/-- `pipeline_render_frame` up to the drawing: the back buffer is read once. -/
def renderStart (g : Pipeline) (ticks : UInt64) : Pipeline := { g with frame := some (g.fbIndex, ticks) }

/-- The times measured behind the drawing. -/
def frameTimes (g : Pipeline) (frameStart frameEnd : UInt64) : Pipeline :=
  let g := { g with frameTimeUs := frameEnd - frameStart }
  let g := if pipelineFrameBudget < g.frameTimeUs then { g with droppedFrames := g.droppedFrames + 1 } else g
  if g.frameCount % pipelineFpsTarget = 0 then
    { g with fps := pipelineFpsTarget.toUInt32, lastFrameTime := frameStart }
  else g

/-- `pipeline_render_frame` from the drawing on: `fb_index` is read again. -/
def renderEnd (g : Pipeline) (frameStart ticks : UInt64) : Pipeline :=
  frameTimes { g with fbReady := g.fbIndex, frame := none } frameStart ticks

/-! ## Steps -/

/-- One thread renders, frame after frame; the interrupt comes at any time. -/
inductive PipelineOp where
  | frameStart (ticks : UInt64)
  | frameEnd (ticks : UInt64)
  | vsyncIrq
deriving DecidableEq, Repr

def pipelineStep (g : Pipeline) : PipelineOp → Option Pipeline
  | .frameStart ticks => if g.frame = none then some (renderStart g ticks) else none
  | .frameEnd ticks => g.frame.map fun f => renderEnd g f.2 ticks
  | .vsyncIrq => some (pipelineVsyncIrq g)

/-- The three indices name the three buffers. -/
def IndicesApart (g : Pipeline) : Prop := [g.fbIndex, g.fbPresenting, g.fbReady].Perm [0, 1, 2]

instance (g : Pipeline) : Decidable (IndicesApart g) := by
  unfold IndicesApart
  infer_instance

/-- The buffer that is drawn in, while a frame is. -/
def Pipeline.drawing (g : Pipeline) : Option UInt32 := g.frame.map Prod.fst

/-- What triple buffering is for: three buffers in use, and no drawing on the screen. -/
structure Buffered (g : Pipeline) : Prop where
  apart : IndicesApart g
  offscreen : g.drawing ≠ some g.fbPresenting

/-- No frame ends, and no flip shows the buffer that is drawn in. -/
def BufferGuard (g : Pipeline) : PipelineOp → Prop
  | .frameStart _ => True
  | .frameEnd _ => False
  | .vsyncIrq => g.drawing ≠ some g.fbReady

/-! ## What a step does to the indices -/

@[simp] theorem frameTimes_fbIndex (g : Pipeline) (a b : UInt64) : (frameTimes g a b).fbIndex = g.fbIndex := by
  simp only [frameTimes]
  split <;> split <;> rfl

@[simp] theorem frameTimes_fbPresenting (g : Pipeline) (a b : UInt64) :
    (frameTimes g a b).fbPresenting = g.fbPresenting := by
  simp only [frameTimes]
  split <;> split <;> rfl

@[simp] theorem frameTimes_fbReady (g : Pipeline) (a b : UInt64) : (frameTimes g a b).fbReady = g.fbReady := by
  simp only [frameTimes]
  split <;> split <;> rfl

/-- A flip turns the three indices. -/
theorem flip_perm (g : Pipeline) :
    [(pipelineVsyncIrq g).fbIndex, (pipelineVsyncIrq g).fbPresenting, (pipelineVsyncIrq g).fbReady].Perm
      [g.fbIndex, g.fbPresenting, g.fbReady] := by
  have hrot : ([g.fbPresenting, g.fbReady] ++ [g.fbIndex]).Perm ([g.fbIndex] ++ [g.fbPresenting, g.fbReady]) :=
    List.perm_append_comm
  exact hrot

theorem apart_flip {g : Pipeline} : IndicesApart (pipelineVsyncIrq g) ↔ IndicesApart g := by
  unfold IndicesApart
  exact ⟨fun h => (flip_perm g).symm.trans h, fun h => (flip_perm g).trans h⟩

theorem IndicesApart.nodup {g : Pipeline} (h : IndicesApart g) : [g.fbIndex, g.fbPresenting, g.fbReady].Nodup :=
  h.nodup_iff.mpr (by decide)

/-- The end of a frame leaves one buffer with two names. -/
theorem not_apart_renderEnd (g : Pipeline) (a b : UInt64) : ¬IndicesApart (renderEnd g a b) := by
  intro h
  have hnodup := h.nodup
  simp [renderEnd] at hnodup

/-- What a step does to the indices: nothing, a rotation, or a loss. -/
theorem step_apart {g g' : Pipeline} {op : PipelineOp} (hs : pipelineStep g op = some g') (h : IndicesApart g') :
    IndicesApart g := by
  cases op with
  | frameStart ticks =>
    simp only [pipelineStep, Option.ite_none_right_eq_some, Option.some.injEq] at hs
    obtain ⟨-, rfl⟩ := hs
    exact h
  | frameEnd ticks =>
    simp only [pipelineStep, Option.map_eq_some_iff] at hs
    obtain ⟨f, -, rfl⟩ := hs
    exact absurd h (not_apart_renderEnd g f.2 ticks)
  | vsyncIrq =>
    simp only [pipelineStep, Option.some.injEq] at hs
    obtain rfl := hs
    exact apart_flip.mp h

/-- **A buffer that is lost is lost for good**, whatever frames and flips follow. -/
theorem indices_lost {g : Pipeline} {ops : List PipelineOp} (h : ¬IndicesApart g) :
    Always pipelineStep (fun g => ¬IndicesApart g) g ops :=
  always_of_step (fun _ _ _ h hs h' => h (step_apart hs h')) h

/-! ## The invariant -/

theorem buffered_step (g : Pipeline) (op : PipelineOp) (g' : Pipeline) (h : Buffered g) (hg : BufferGuard g op)
    (hs : pipelineStep g op = some g') : Buffered g' := by
  cases op with
  | frameStart ticks =>
    simp only [pipelineStep, Option.ite_none_right_eq_some, Option.some.injEq] at hs
    obtain ⟨-, rfl⟩ := hs
    refine ⟨h.apart, ?_⟩
    have hne : g.fbIndex ≠ g.fbPresenting := by
      have hnodup := h.apart.nodup
      simp only [List.nodup_cons, List.mem_cons, not_or] at hnodup
      exact hnodup.1.1
    simpa [renderStart, Pipeline.drawing] using hne
  | frameEnd ticks => exact hg.elim
  | vsyncIrq =>
    simp only [pipelineStep, Option.some.injEq] at hs
    obtain rfl := hs
    exact ⟨apart_flip.mpr h.apart, hg⟩

theorem not_buffered_step (g : Pipeline) (op : PipelineOp) (g' : Pipeline) (hg : ¬BufferGuard g op)
    (hs : pipelineStep g op = some g') : ¬Buffered g' := by
  intro h'
  cases op with
  | frameStart ticks => exact hg trivial
  | frameEnd ticks =>
    simp only [pipelineStep, Option.map_eq_some_iff] at hs
    obtain ⟨f, -, rfl⟩ := hs
    exact not_apart_renderEnd g f.2 ticks h'.apart
  | vsyncIrq =>
    simp only [pipelineStep, Option.some.injEq] at hs
    obtain rfl := hs
    exact hg h'.offscreen

theorem buffered_alloc : Buffered pipelineAllocBuffers := ⟨by decide, by decide⟩

/-- Triple buffering, exactly: it lasts as long as no frame ends and no flip shows the buffer
    that is drawn in. -/
theorem buffered_iff (ops : List PipelineOp) :
    Always pipelineStep Buffered pipelineAllocBuffers ops ↔ Meets pipelineStep BufferGuard pipelineAllocBuffers ops :=
  always_iff_meets (fun _ h => h) buffered_step (fun g op g' _ => not_buffered_step g op g') buffered_alloc

/-- One frame with no flip breaks it; so do two flips under the first frame, which put its
    buffer on the screen. -/
theorem first_frame_breaks :
    ¬Always pipelineStep Buffered pipelineAllocBuffers [.frameStart 0, .frameEnd 10] ∧
      ¬Always pipelineStep Buffered pipelineAllocBuffers [.frameStart 0, .vsyncIrq, .vsyncIrq] := by
  constructor
  · intro h
    exact absurd (h.last rfl).apart (by decide)
  · intro h
    exact absurd (h.last rfl).offscreen (by decide)

end Crimson.Display
