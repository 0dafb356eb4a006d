import Crimson.Lib.Ring
import Crimson.Lib.Run

/-!
# The lock-free ring of the touch pipeline (`touch_pipeline.c`)

One producer runs `touch_enqueue` and one consumer `touch_dequeue`. Every access to the shared
variables is a step of its own, an event is copied one field after the other, and the
steps of the two come in any order. The barriers separate steps that are in order anyway.

`accepted` and `returned` record the events whose index has been published and the events
that a call of `touch_dequeue` has answered with. What is between the two is the queue, and it lies
in the cells from `queue_head` on.
-/

set_option autoImplicit false

namespace Crimson.TouchPipeline

open Crimson.Lib

def touchQueueSize : Nat := 128

/-- `touch_type_t`. -/
inductive TouchType where
  | down
  | up
  | move
  | cancel
deriving DecidableEq, Repr

/-- `gesture_type_t`. -/
inductive GestureType where
  | none
  | tap
  | doubleTap
  | longPress
  | swipeUp
  | swipeDown
  | swipeLeft
  | swipeRight
  | pinchIn
  | pinchOut
  | rotate
  | twoFingerSwipe
  | threeFingerSwipe
  | edgeLeft
  | edgeRight
  | edgeBottom
deriving DecidableEq, Repr

/-- `touch_event_t`. -/
structure TouchEvent where
  type : TouchType
  x : Int32
  y : Int32
  dx : Int32
  dy : Int32
  pressure : UInt32
  fingerId : UInt8
  fingerCount : UInt8
  timestamp : UInt64
  gesture : GestureType
deriving DecidableEq

/-- The fields of an event. -/
def eventFields : Nat := 10

/-- One step of `*dst = *src`: field `k`. -/
def copyField (src dst : TouchEvent) : Nat → TouchEvent
  | 0 => { dst with type := src.type }
  | 1 => { dst with x := src.x }
  | 2 => { dst with y := src.y }
  | 3 => { dst with dx := src.dx }
  | 4 => { dst with dy := src.dy }
  | 5 => { dst with pressure := src.pressure }
  | 6 => { dst with fingerId := src.fingerId }
  | 7 => { dst with fingerCount := src.fingerCount }
  | 8 => { dst with timestamp := src.timestamp }
  | 9 => { dst with gesture := src.gesture }
  | _ => dst

/-- Where `touch_enqueue` is, with its locals. -/
inductive EnqueuePc where
  | idle
  /-- To read `queue_tail` for `next`. -/
  | readTail (ev : TouchEvent)
  /-- To read `queue_head` and compare. -/
  | readHead (ev : TouchEvent) (next : Nat)
  /-- To count the drop and return -1. -/
  | full (ev : TouchEvent)
  /-- To read `queue_tail` for the cell. -/
  | cell (ev : TouchEvent) (next : Nat)
  /-- To copy field `k` into the cell. -/
  | copy (ev : TouchEvent) (next cell k : Nat)
  /-- To set `queue_tail`. -/
  | publish (ev : TouchEvent) (next : Nat)
  /-- To count the event and return 0. -/
  | count (ev : TouchEvent)

/-- Where `touch_dequeue` is, with its locals. -/
inductive DequeuePc where
  | idle
  | readHead
  /-- To read `queue_tail` and compare. -/
  | readTail (head : Nat)
  /-- To read `queue_head` for the cell. -/
  | cell
  /-- To copy field `k` out of the cell. -/
  | copy (cell k : Nat)
  /-- To read `queue_head` for its successor. -/
  | advance
  /-- To set `queue_head` and return 0. -/
  | release (head : Nat)

/-- The ring in `g_touch`, its two users, and what they have done: `results` are the finished
    calls of `touch_enqueue` with what they returned. -/
structure RingState where
  queue : Nat → TouchEvent
  queueHead : Nat
  queueTail : Nat
  totalEvents : UInt64
  droppedEvents : UInt64
  producer : EnqueuePc
  consumer : DequeuePc
  out : TouchEvent
  accepted : List TouchEvent
  returned : List TouchEvent
  results : List (TouchEvent × Int)

inductive RingOp where
  /-- The producer calls `touch_enqueue`. -/
  | enqueue (ev : TouchEvent)
  /-- The producer goes on. -/
  | producer
  /-- The consumer calls `touch_dequeue`. -/
  | dequeue
  /-- The consumer goes on. -/
  | consumer

/-- One step of `touch_enqueue`. -/
def touchEnqueueStep (s : RingState) : Option RingState :=
  match s.producer with
  | .idle => none
  | .readTail ev => some { s with producer := .readHead ev ((s.queueTail + 1) % touchQueueSize) }
  | .readHead ev next =>
    if next = s.queueHead then some { s with producer := .full ev }
    else some { s with producer := .cell ev next }
  | .full ev =>
    some { s with
      droppedEvents := s.droppedEvents + 1
      producer := .idle
      results := s.results ++ [(ev, -1)] }
  | .cell ev next => some { s with producer := .copy ev next s.queueTail 0 }
  | .copy ev next cell k =>
    some { s with
      queue := Function.update s.queue cell (copyField ev (s.queue cell) k)
      producer := if k + 1 = eventFields then .publish ev next else .copy ev next cell (k + 1) }
  | .publish ev next =>
    some { s with
      queueTail := next
      producer := .count ev
      accepted := s.accepted ++ [ev] }
  | .count ev =>
    some { s with
      totalEvents := s.totalEvents + 1
      producer := .idle
      results := s.results ++ [(ev, 0)] }

/-- One step of `touch_dequeue`. -/
def touchDequeueStep (s : RingState) : Option RingState :=
  match s.consumer with
  | .idle => none
  | .readHead => some { s with consumer := .readTail s.queueHead }
  | .readTail head => some { s with consumer := if head = s.queueTail then .idle else .cell }
  | .cell => some { s with consumer := .copy s.queueHead 0 }
  | .copy cell k =>
    some { s with
      out := copyField (s.queue cell) s.out k
      consumer := if k + 1 = eventFields then .advance else .copy cell (k + 1) }
  | .advance => some { s with consumer := .release s.queueHead }
  | .release head =>
    some { s with
      queueHead := (head + 1) % touchQueueSize
      consumer := .idle
      returned := s.returned ++ [s.out] }

def ringStep (s : RingState) : RingOp → Option RingState
  | .enqueue ev =>
    match s.producer with
    | .idle => some { s with producer := .readTail ev }
    | _ => none
  | .producer => touchEnqueueStep s
  | .dequeue =>
    match s.consumer with
    | .idle => some { s with consumer := .readHead }
    | _ => none
  | .consumer => touchDequeueStep s

/-- The zeroed ring, before the first call; `out` is an uninitialised local. -/
def ringStart (zero out : TouchEvent) : RingState where
  queue := fun _ => zero
  queueHead := 0
  queueTail := 0
  totalEvents := 0
  droppedEvents := 0
  producer := .idle
  consumer := .idle
  out := out
  accepted := []
  returned := []
  results := []

/-- `touch_queue_pending`. -/
def touchQueuePending (s : RingState) : Nat :=
  if s.queueHead ≤ s.queueTail then s.queueTail - s.queueHead else touchQueueSize - s.queueHead + s.queueTail

/-- The event whose index is published while its call has not returned yet. -/
def RingState.inFlight (s : RingState) : List TouchEvent :=
  match s.producer with
  | .count ev => [ev]
  | _ => []

/-- The events for which `touch_enqueue` has returned 0. -/
def RingState.enqueued (s : RingState) : List TouchEvent :=
  (s.results.filter fun r => r.2 = 0).map Prod.fst

/-- The events accepted and not returned. -/
def RingState.pending (s : RingState) : Nat := s.accepted.length - s.returned.length

/-- The ring is a queue: what comes out is what went in, in order, and between two
    operations the indices say how much is in it. -/
structure QueueLike (s : RingState) : Prop where
  fifo : s.returned <+: s.accepted
  accepted : s.enqueued ++ s.inFlight = s.accepted
  bound : s.pending < touchQueueSize
  pending : (∀ ev, s.producer ≠ .count ev) → touchQueuePending s = s.enqueued.length - s.returned.length

/-- `touch_enqueue` finds the ring full exactly when 127 events are pending, and answers -1
    exactly when it has found it full. -/
def DropsWhenFull (s : RingState) (op : RingOp) (s' : RingState) : Prop :=
  op = .producer →
    (∀ ev next, s.producer = .readHead ev next → (s'.producer = .full ev ↔ s.pending = touchQueueSize - 1)) ∧
      (s'.results = s.results ∨ ∃ ev r, s'.results = s.results ++ [(ev, r)] ∧ (r ≠ 0 ↔ s.producer = .full ev))

/-! ## The invariant -/

/-- `dst` after the first `k` fields of `src` have been copied into it. -/
def copied (src dst : TouchEvent) : Nat → TouchEvent
  | 0 => dst
  | k + 1 => copyField src (copied src dst k) k

theorem copied_all (src dst : TouchEvent) : copied src dst eventFields = src := by
  cases src
  rfl

/-- What `touch_enqueue` may rely on: there is room, and it is filling the cell behind the queue. -/
def ProducerOk (queue : Nat → TouchEvent) (tail pending : Nat) : EnqueuePc → Prop
  | .readHead _ next => next = (tail + 1) % touchQueueSize
  | .cell _ next => next = (tail + 1) % touchQueueSize ∧ pending + 1 < touchQueueSize
  | .copy ev next cell k =>
    next = (tail + 1) % touchQueueSize ∧ pending + 1 < touchQueueSize ∧ cell = tail ∧
      k < eventFields ∧ ∃ old, queue cell = copied ev old k
  | .publish ev next => next = (tail + 1) % touchQueueSize ∧ pending + 1 < touchQueueSize ∧ queue tail = ev
  | _ => True

/-- What `touch_dequeue` may rely on: there is an event, and it is reading the first cell. -/
def ConsumerOk (queue : Nat → TouchEvent) (head pending : Nat) (out : TouchEvent) : DequeuePc → Prop
  | .readTail h => h = head
  | .cell => 0 < pending
  | .copy cell k => cell = head ∧ 0 < pending ∧ k < eventFields ∧ ∃ old, out = copied (queue cell) old k
  | .advance => 0 < pending ∧ out = queue head
  | .release h => h = head ∧ 0 < pending ∧ out = queue head
  | _ => True

/-- The queue lies between the two indices, and both parties are where they think they are. -/
structure RingInv (s : RingState) : Prop where
  head : s.queueHead < touchQueueSize
  bound : s.pending < touchQueueSize
  tail : s.queueTail = (s.queueHead + s.pending) % touchQueueSize
  queue : s.returned ++ ringList s.queue touchQueueSize s.queueHead s.pending = s.accepted
  results : s.enqueued ++ s.inFlight = s.accepted
  producer : ProducerOk s.queue s.queueTail s.pending s.producer
  consumer : ConsumerOk s.queue s.queueHead s.pending s.out s.consumer

section

variable {queue queue' : Nat → TouchEvent} {head tail pending pending' : Nat} {out : TouchEvent}

/-- Less in the queue is more room. -/
theorem ProducerOk.pop {pc : EnqueuePc} (h : ProducerOk queue tail pending pc) (hle : pending' ≤ pending) :
    ProducerOk queue tail pending' pc := by
  cases pc with
  | idle | readTail | full | count => trivial
  | readHead ev next => exact h
  | cell ev next => exact ⟨h.1, by have := h.2; omega⟩
  | copy ev next cell k => exact ⟨h.1, by have := h.2.1; omega, h.2.2⟩
  | publish ev next => exact ⟨h.1, by have := h.2.1; omega, h.2.2⟩

/-- More in the queue, and the same event in front. -/
theorem ConsumerOk.push {pc : DequeuePc} (h : ConsumerOk queue head pending out pc) (hle : pending ≤ pending')
    (hfront : 0 < pending → queue' head = queue head) : ConsumerOk queue' head pending' out pc := by
  cases pc with
  | idle | readHead => trivial
  | readTail k => exact h
  | cell => exact Nat.lt_of_lt_of_le h hle
  | copy cell k =>
    obtain ⟨rfl, hpos, hk, old, hout⟩ := h
    exact ⟨rfl, by omega, hk, old, by rw [hfront hpos, hout]⟩
  | advance => exact ⟨by have := h.1; omega, by rw [hfront h.1, h.2]⟩
  | release k => exact ⟨h.1, by have := h.2.1; omega, by rw [hfront h.2.1, h.2.2]⟩

end

/-- The cell behind a queue that leaves room is none of its cells. -/
theorem ringList_update (queue : Nat → TouchEvent) (head : Nat) {n : Nat} (hroom : n + 1 < touchQueueSize)
    (ev : TouchEvent) :
    ringList (Function.update queue ((head + n) % touchQueueSize) ev) touchQueueSize head n =
      ringList queue touchQueueSize head n := by
  refine ringList_congr fun i hi => Function.update_of_ne ?_ _ _
  exact add_mod_ne hi (by omega)

variable {s s' : RingState}

theorem RingInv.le (h : RingInv s) : s.returned.length ≤ s.accepted.length := by
  rw [← h.queue, List.length_append]
  exact Nat.le_add_right _ _

/-- With 127 events pending, the index behind the last one is `queue_head`. -/
theorem RingInv.full_iff (h : RingInv s) :
    (s.queueTail + 1) % touchQueueSize = s.queueHead ↔ s.pending = touchQueueSize - 1 := by
  have hhead := h.head
  have hbound := h.bound
  have htail := h.tail
  simp only [touchQueueSize] at *
  omega

/-- A field more in the cell behind the queue. -/
theorem RingInv.copyIn (h : RingInv s) {ev : TouchEvent} {next cell k : Nat} (hpc : s.producer = .copy ev next cell k) :
    RingInv { s with
      queue := Function.update s.queue cell (copyField ev (s.queue cell) k)
      producer := if k + 1 = eventFields then .publish ev next else .copy ev next cell (k + 1) } := by
  have hok := h.producer
  have hresults := h.results
  unfold RingState.inFlight at hresults
  rw [hpc] at hok hresults
  obtain ⟨hnext, hroom, rfl, hk, old, hold⟩ := hok
  have hcell : Function.update s.queue s.queueTail (copyField ev (s.queue s.queueTail) k) s.queueTail =
      copied ev old (k + 1) := by
    rw [Function.update_self, hold]
    rfl
  have hlist := ringList_update s.queue s.queueHead hroom (copyField ev (s.queue s.queueTail) k)
  rw [← h.tail] at hlist
  refine ⟨h.head, h.bound, h.tail, ?_, ?_, ?_, ?_⟩
  · show s.returned ++ ringList _ touchQueueSize s.queueHead s.pending = s.accepted
    rw [hlist]
    exact h.queue
  · unfold RingState.inFlight
    dsimp only
    split <;> exact hresults
  · dsimp only
    split
    next hlast =>
      refine ⟨hnext, hroom, ?_⟩
      rw [hcell, hlast, copied_all]
    next hmore => exact ⟨hnext, hroom, rfl, by omega, old, hcell⟩
  · refine h.consumer.push le_rfl fun hpos => Function.update_of_ne ?_ _ _
    -- the cell being read is not the one being filled
    have hne : (s.queueHead + 0) % touchQueueSize ≠ (s.queueHead + s.pending) % touchQueueSize :=
      add_mod_ne hpos (by omega)
    rwa [Nat.add_zero, Nat.mod_eq_of_lt h.head, ← h.tail] at hne

/-- The cell behind the queue becomes its last one. -/
theorem RingInv.publish (h : RingInv s) {ev : TouchEvent} {next : Nat} (hpc : s.producer = .publish ev next) :
    RingInv { s with queueTail := next, producer := .count ev, accepted := s.accepted ++ [ev] } := by
  have hok := h.producer
  have hresults := h.results
  have hle := h.le
  unfold RingState.inFlight at hresults
  rw [hpc] at hok hresults
  obtain ⟨hnext, hroom, hev⟩ := hok
  have hpending : RingState.pending
      { s with queueTail := next, producer := .count ev, accepted := s.accepted ++ [ev] } = s.pending + 1 := by
    simp only [RingState.pending, List.length_append, List.length_singleton]
    omega
  refine ⟨h.head, ?_, ?_, ?_, ?_, trivial, ?_⟩
  · rw [hpending]
    exact hroom
  · rw [hpending]
    show next = (s.queueHead + (s.pending + 1)) % touchQueueSize
    rw [hnext, h.tail, Nat.mod_add_mod, Nat.add_assoc]
  · rw [hpending]
    show s.returned ++ ringList s.queue touchQueueSize s.queueHead (s.pending + 1) = s.accepted ++ [ev]
    have hone : ringList s.queue touchQueueSize s.queueTail 1 = [s.queue (s.queueTail % touchQueueSize)] := rfl
    have hmod : s.queueTail % touchQueueSize = s.queueTail := by rw [h.tail, Nat.mod_mod]
    rw [ringList_add, ← h.tail, hone, hmod, hev, ← List.append_assoc, h.queue]
  · show s.enqueued ++ [ev] = s.accepted ++ [ev]
    rw [← hresults, List.append_nil]
  · rw [hpending]
    exact h.consumer.push (Nat.le_succ _) fun _ => rfl

/-- **The producer's steps.** -/
theorem RingInv.producerStep (h : RingInv s) (hs : touchEnqueueStep s = some s') : RingInv s' := by
  have hresults := h.results
  have hok := h.producer
  unfold touchEnqueueStep at hs
  unfold RingState.inFlight at hresults
  cases hpc : s.producer with
  | idle =>
    rw [hpc] at hs
    cases hs
  | readTail ev =>
    simp only [hpc, Option.some.injEq] at hs hresults
    obtain rfl := hs
    exact ⟨h.head, h.bound, h.tail, h.queue, hresults, rfl, h.consumer⟩
  | readHead ev next =>
    simp only [hpc] at hs hresults hok
    split at hs
    next hfull =>
      obtain rfl := Option.some.inj hs
      exact ⟨h.head, h.bound, h.tail, h.queue, hresults, trivial, h.consumer⟩
    next hroom =>
      obtain rfl := Option.some.inj hs
      have hnext : next = (s.queueTail + 1) % touchQueueSize := hok
      -- there is room now, and the consumer only makes more
      refine ⟨h.head, h.bound, h.tail, h.queue, hresults, ⟨hok, ?_⟩, h.consumer⟩
      show s.pending + 1 < touchQueueSize
      have hbound := h.bound
      rw [hnext, h.full_iff] at hroom
      omega
  | full ev =>
    simp only [hpc, Option.some.injEq] at hs hresults
    obtain rfl := hs
    refine ⟨h.head, h.bound, h.tail, h.queue, ?_, trivial, h.consumer⟩
    simpa [RingState.enqueued, RingState.inFlight] using hresults
  | cell ev next =>
    simp only [hpc, Option.some.injEq] at hs hresults hok
    obtain rfl := hs
    refine ⟨h.head, h.bound, h.tail, h.queue, hresults, ?_, h.consumer⟩
    exact ⟨hok.1, hok.2, rfl, by decide, s.queue s.queueTail, rfl⟩
  | copy ev next cell k =>
    simp only [hpc, Option.some.injEq] at hs
    rw [← hs]
    exact h.copyIn hpc
  | publish ev next =>
    simp only [hpc, Option.some.injEq] at hs
    rw [← hs]
    exact h.publish hpc
  | count ev =>
    simp only [hpc, Option.some.injEq] at hs hresults
    obtain rfl := hs
    refine ⟨h.head, h.bound, h.tail, h.queue, ?_, trivial, h.consumer⟩
    simpa [RingState.enqueued, RingState.inFlight] using hresults

/-- A field more in `*out`. -/
theorem RingInv.copyOut (h : RingInv s) {cell k : Nat} (hpc : s.consumer = .copy cell k) :
    RingInv { s with
      out := copyField (s.queue cell) s.out k
      consumer := if k + 1 = eventFields then .advance else .copy cell (k + 1) } := by
  have hok := h.consumer
  rw [hpc] at hok
  obtain ⟨rfl, hpos, hk, old, hout⟩ := hok
  have hnew : copyField (s.queue s.queueHead) s.out k = copied (s.queue s.queueHead) old (k + 1) := by
    rw [hout]
    rfl
  refine ⟨h.head, h.bound, h.tail, h.queue, h.results, h.producer, ?_⟩
  dsimp only
  split
  next hlast => exact ⟨hpos, by rw [hnew, hlast, copied_all]⟩
  next hmore => exact ⟨rfl, hpos, by omega, old, hnew⟩

/-- The first cell of the queue is given up. -/
theorem RingInv.release (h : RingInv s) {head : Nat} (hpc : s.consumer = .release head) :
    RingInv { s with
      queueHead := (head + 1) % touchQueueSize, consumer := .idle, returned := s.returned ++ [s.out] } := by
  have hok := h.consumer
  rw [hpc] at hok
  obtain ⟨hhead, hpos, hout⟩ := hok
  have hpending : RingState.pending
      { s with
        queueHead := (head + 1) % touchQueueSize, consumer := .idle, returned := s.returned ++ [s.out] } =
      s.pending - 1 := by
    simp only [RingState.pending, List.length_append, List.length_singleton]
    omega
  have hone : s.pending = s.pending - 1 + 1 := by omega
  refine ⟨Nat.mod_lt _ (by decide), ?_, ?_, ?_, h.results, ?_, trivial⟩
  · rw [hpending]
    have := h.bound
    omega
  · rw [hpending]
    show s.queueTail = ((head + 1) % touchQueueSize + (s.pending - 1)) % touchQueueSize
    rw [h.tail, hhead, Nat.mod_add_mod, Nat.add_assoc, Nat.add_comm 1, ← hone]
  · rw [hpending]
    show (s.returned ++ [s.out]) ++ ringList s.queue touchQueueSize ((head + 1) % touchQueueSize) (s.pending - 1) =
      s.accepted
    have hqueue := h.queue
    rw [hone, ringList_succ h.head] at hqueue
    rw [List.append_assoc, List.singleton_append, hout, hhead]
    exact hqueue
  · rw [hpending]
    exact h.producer.pop (Nat.sub_le _ _)

/-- **The consumer's steps.** -/
theorem RingInv.consumerStep (h : RingInv s) (hs : touchDequeueStep s = some s') : RingInv s' := by
  have hok := h.consumer
  unfold touchDequeueStep at hs
  cases hpc : s.consumer with
  | idle =>
    rw [hpc] at hs
    cases hs
  | readHead =>
    simp only [hpc, Option.some.injEq] at hs
    obtain rfl := hs
    exact ⟨h.head, h.bound, h.tail, h.queue, h.results, h.producer, rfl⟩
  | readTail head =>
    simp only [hpc, Option.some.injEq] at hs hok
    have hhead : head = s.queueHead := hok
    obtain rfl := hs
    refine ⟨h.head, h.bound, h.tail, h.queue, h.results, h.producer, ?_⟩
    dsimp only
    split
    next => trivial
    next hne =>
      -- an empty queue has equal indices
      refine Nat.pos_of_ne_zero fun hzero => hne ?_
      have hnone : RingState.pending s = 0 := hzero
      rw [h.tail, hnone, Nat.add_zero, Nat.mod_eq_of_lt h.head, hhead]
  | cell =>
    simp only [hpc, Option.some.injEq] at hs hok
    obtain rfl := hs
    exact ⟨h.head, h.bound, h.tail, h.queue, h.results, h.producer, rfl, hok, by decide, s.out, rfl⟩
  | copy cell k =>
    simp only [hpc, Option.some.injEq] at hs
    rw [← hs]
    exact h.copyOut hpc
  | advance =>
    simp only [hpc, Option.some.injEq] at hs hok
    obtain rfl := hs
    exact ⟨h.head, h.bound, h.tail, h.queue, h.results, h.producer, rfl, hok⟩
  | release head =>
    simp only [hpc, Option.some.injEq] at hs
    rw [← hs]
    exact h.release hpc

theorem RingInv.step {op : RingOp} (h : RingInv s) (hs : ringStep s op = some s') : RingInv s' := by
  cases op with
  | enqueue ev =>
    cases hpc : s.producer with
    | idle =>
      have hresults := h.results
      simp only [ringStep, hpc, Option.some.injEq] at hs
      obtain rfl := hs
      unfold RingState.inFlight at hresults
      rw [hpc] at hresults
      exact ⟨h.head, h.bound, h.tail, h.queue, hresults, trivial, h.consumer⟩
    | readTail | readHead | full | cell | copy | publish | count => simp [ringStep, hpc] at hs
  | producer => exact h.producerStep hs
  | dequeue =>
    cases hpc : s.consumer with
    | idle =>
      simp only [ringStep, hpc, Option.some.injEq] at hs
      obtain rfl := hs
      exact ⟨h.head, h.bound, h.tail, h.queue, h.results, h.producer, trivial⟩
    | readHead | readTail | cell | copy | advance | release => simp [ringStep, hpc] at hs
  | consumer => exact h.consumerStep hs

theorem ringInv_start (zero out : TouchEvent) : RingInv (ringStart zero out) :=
  ⟨Nat.zero_lt_succ 127, Nat.zero_lt_succ 127, rfl, rfl, rfl, trivial, trivial⟩

/-! ## What the invariant says -/

/-- The indices give the number of pending events. -/
theorem RingInv.queuePending (h : RingInv s) : touchQueuePending s = s.pending := by
  have hhead := h.head
  have hbound := h.bound
  have htail := h.tail
  unfold touchQueuePending
  simp only [touchQueueSize] at *
  split <;> omega

theorem RingInv.queueLike (h : RingInv s) : QueueLike s := by
  refine ⟨⟨_, h.queue⟩, h.results, h.bound, fun hcount => ?_⟩
  have hflight : s.inFlight = [] := by
    unfold RingState.inFlight
    split
    next ev hpc => exact absurd hpc (hcount ev)
    next => rfl
  have hresults := h.results
  rw [hflight, List.append_nil] at hresults
  rw [h.queuePending, hresults]
  rfl

/-- The test of `touch_enqueue` finds the ring full when 127 events are pending. -/
theorem RingInv.dropsWhenFull (h : RingInv s) {op : RingOp} (hs : ringStep s op = some s') : DropsWhenFull s op s' := by
  rintro rfl
  have hs : touchEnqueueStep s = some s' := hs
  constructor
  · intro ev next hpc
    have hok := h.producer
    rw [hpc] at hok
    have hnext : next = (s.queueTail + 1) % touchQueueSize := hok
    rw [← h.full_iff, ← hnext]
    simp only [touchEnqueueStep, hpc] at hs
    split at hs
    next heq =>
      obtain rfl := Option.some.inj hs
      exact iff_of_true rfl heq
    next hne =>
      obtain rfl := Option.some.inj hs
      exact iff_of_false (fun hfull => nomatch hfull) hne
  · cases hpc : s.producer with
    | idle => simp [touchEnqueueStep, hpc] at hs
    | readTail | cell | copy | publish =>
      simp only [touchEnqueueStep, hpc, Option.some.injEq] at hs
      obtain rfl := hs
      exact Or.inl rfl
    | readHead =>
      simp only [touchEnqueueStep, hpc] at hs
      split at hs <;> obtain rfl := Option.some.inj hs <;> exact Or.inl rfl
    | full ev =>
      simp only [touchEnqueueStep, hpc, Option.some.injEq] at hs
      obtain rfl := hs
      exact Or.inr ⟨ev, -1, rfl, iff_of_true (by decide) rfl⟩
    | count ev =>
      simp only [touchEnqueueStep, hpc, Option.some.injEq] at hs
      obtain rfl := hs
      exact Or.inr ⟨ev, 0, rfl, iff_of_false (fun hne => hne rfl) fun hfull => nomatch hfull⟩

/-- **The ring is a queue** under every interleaving of the producer's and the consumer's steps. -/
theorem ring_is_queue (zero out : TouchEvent) (ops : List RingOp) :
    Always ringStep QueueLike (ringStart zero out) ops ∧ AlwaysStep ringStep DropsWhenFull (ringStart zero out) ops := by
  have hinv : Always ringStep RingInv (ringStart zero out) ops :=
    always_of_step (fun _ _ _ h hs => h.step hs) (ringInv_start zero out)
  exact ⟨hinv.mono fun _ h => h.queueLike,
    alwaysStep_of_always (fun _ _ _ h _ hs => h.dropsWhenFull hs) hinv meets_true⟩

end Crimson.TouchPipeline
