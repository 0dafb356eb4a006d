import Crimson.Lib.BitSets
import Crimson.Touch.Delivery

/-!
# Which fingers are down (`touch.c`)

At an interrupt `touch_read_goodix` reads a report of the controller, up to ten records of a
finger each, and throws away those that look like a palm, lie at the edge or have a bad id.
The ids of the others make up `touch_bitmap`; a finger that was in it and is not any more has
been lifted. `active_points` is the number of records the controller has sent, whether they
were thrown away or not, and a report without a record is not looked at.

The answers of the controller and of the timer are an argument of the call.
-/

set_option autoImplicit false

namespace Crimson.Touch

open Crimson.Lib

/-- `GT911_TOUCH_POINTS`. -/
def gt911TouchPoints : Nat := 10

/-- `EVENT_UP`. -/
def eventUp : UInt32 := 1

/-- What `touch_init` and `touch_set_calibration` set. -/
structure TouchConfig where
  xResolution : UInt32
  yResolution : UInt32
  xOffset : Int32
  yOffset : Int32
  xScale : Int32
  yScale : Int32
  palmThreshold : UInt32
  edgeRejectPixels : UInt32

/-- `GESTURE_*`. -/
inductive Gesture where
  | none
  | tap
  | doubleTap
  | longPress
  | swipeLeft
  | swipeRight
  | swipeUp
  | swipeDown
  | pinchIn
  | pinchOut
  | rotateCw
  | rotateCcw
deriving DecidableEq, Repr

/-- The static variables of `touch_recognise_gesture`, and what it sets. -/
structure GestureState where
  firstTouchTime : UInt64
  firstX : UInt32
  firstY : UInt32
  lastActive : UInt32
  gesture : Gesture
  pinchDistance : Int32

/-- `g_touch`. Beside it: the ids accepted in the last report, and the events given to
    `touch_enqueue_event` at it. -/
structure TouchState where
  config : TouchConfig
  points : Nat → TouchEvent
  activePoints : UInt32
  touchBitmap : BitVec 64
  queue : TouchQueue
  gestures : GestureState
  accepted : List Nat
  handed : List TouchEvent

/-- What the controller answers at an interrupt: the status register and the bytes of the
    records; and the times at which the events are made and the gesture is looked for. -/
structure Report where
  status : UInt8
  records : Nat → Nat → UInt8
  pointTime : Nat → UInt64
  liftTime : Nat → UInt64
  gestureTime : UInt64

def Report.count (r : Report) : Nat := (r.status &&& 0x0F).toNat

def Report.ready (r : Report) : Bool := r.status &&& 0x80 ≠ 0

def touchApplyCalibration (c : TouchConfig) (ev : TouchEvent) : TouchEvent :=
  if c.xScale = 0 then ev
  else
    let x := (ev.x.toInt32 - c.xOffset) * c.xScale / 4096
    let y := (ev.y.toInt32 - c.yOffset) * c.yScale / 4096
    let x := if x < 0 then 0 else x
    let y := if y < 0 then 0 else y
    let x := if c.xResolution ≤ x.toUInt32 then (c.xResolution - 1).toInt32 else x
    let y := if c.yResolution ≤ y.toUInt32 then (c.yResolution - 1).toInt32 else y
    { ev with x := x.toUInt32, y := y.toUInt32 }

/-- One record, from its bytes; `none` where it is thrown away. -/
def readRecord (c : TouchConfig) (buf : Nat → UInt8) (time : UInt64) : Option TouchEvent :=
  let id := (buf 0 >>> 4).toUInt32
  let x := (buf 1).toUInt32 ||| ((buf 2 &&& 0x0F).toUInt32 <<< 8)
  let y := (buf 3).toUInt32 ||| ((buf 4 &&& 0x0F).toUInt32 <<< 8)
  let w := (buf 5).toUInt32
  let area := (buf 6).toUInt32
  let event := ((buf 0 >>> 6) &&& 0x03).toUInt32
  if 10 ≤ id then none
  else if c.palmThreshold < area then none
  else if x < c.edgeRejectPixels ∨ c.xResolution - c.edgeRejectPixels < x ∨
      y < c.edgeRejectPixels ∨ c.yResolution - c.edgeRejectPixels < y then none
  else
    some (touchApplyCalibration c
      { id := id, x := x, y := y, pressure := area, width := w, event := event, timestamp := time })

def TouchState.enqueue (s : TouchState) (ev : TouchEvent) : TouchState :=
  { s with queue := touchEnqueueEvent s.queue ev, handed := s.handed ++ [ev] }

/-- What is done with record `i`; the second component is `new_bitmap`. -/
def takeRecord (r : Report) (acc : TouchState × BitVec 64) (i : Nat) : TouchState × BitVec 64 :=
  match readRecord acc.1.config (r.records i) (r.pointTime i) with
  | none => acc
  | some ev =>
    ({ acc.1 with points := Function.update acc.1.points ev.id.toNat ev }.enqueue ev,
      acc.2 ||| 1#64 <<< ev.id.toNat)

/-- The event for finger `i` if it has been lifted. -/
def liftFinger (r : Report) (lifted : BitVec 64) (s : TouchState) (i : Nat) : TouchState :=
  if lifted &&& 1#64 <<< i != 0#64 then
    s.enqueue
      { id := UInt32.ofNat i
        x := (s.points i).x
        y := (s.points i).y
        pressure := 0
        width := 0
        event := eventUp
        timestamp := r.liftTime i }
  else s

def touchReadGoodix (s : TouchState) (r : Report) : TouchState :=
  if r.ready = false ∨ r.count = 0 then s
  else
    let acc := (List.range (min r.count gt911TouchPoints)).foldl (takeRecord r) (s, 0#64)
    let lifted := acc.1.touchBitmap &&& ~~~acc.2
    let s := (List.range gt911TouchPoints).foldl (liftFinger r lifted) acc.1
    { s with touchBitmap := acc.2, activePoints := UInt32.ofNat r.count }

/-- `touch_get_point`: `none` for -1. -/
def touchGetPoint (s : TouchState) (id : Nat) : Option (UInt32 × UInt32 × UInt32) :=
  if gt911TouchPoints ≤ id ∨ (s.touchBitmap &&& 1#64 <<< id) = 0#64 then none
  else some ((s.points id).x, (s.points id).y, (s.points id).pressure)

/-- The gesture of a finger that has been lifted. -/
def liftGesture (g : GestureState) (p : TouchEvent) (now : UInt64) : Gesture :=
  let dt := now - g.firstTouchTime
  let dx := p.x.toInt32 - g.firstX.toInt32
  let dy := p.y.toInt32 - g.firstY.toInt32
  if dt < 200000 then
    if 100 < dx then .swipeRight
    else if dx < -100 then .swipeLeft
    else if 100 < dy then .swipeDown
    else if dy < -100 then .swipeUp
    else .tap
  else if dt < 800000 then .longPress
  else g.gesture

def touchRecogniseGesture (s : TouchState) (now : UInt64) : TouchState :=
  let g := s.gestures
  let g :=
    if s.activePoints = 1 ∧ g.lastActive = 0 then
      match touchGetPoint s 0 with
      | some p => { g with firstTouchTime := now, firstX := p.1, firstY := p.2.1 }
      | none => { g with firstTouchTime := now }
    else g
  let g :=
    if s.activePoints = 0 ∧ g.lastActive = 1 then { g with gesture := liftGesture g (s.points 0) now } else g
  let g :=
    if s.activePoints = 2 then
      match touchGetPoint s 0, touchGetPoint s 1 with
      | some p, some q =>
        let ddx := q.1.toInt32 - p.1.toInt32
        let ddy := q.2.1.toInt32 - p.2.1.toInt32
        { g with pinchDistance := ddx * ddx + ddy * ddy }
      | _, _ => g
    else g
  { s with gestures := { g with lastActive := s.activePoints } }

/-- `touch_irq_handler`, for a Goodix controller. -/
def touchIrqHandler (s : TouchState) (r : Report) : TouchState :=
  touchRecogniseGesture (touchReadGoodix s r) r.gestureTime

/-- The events of a report's records, in order. -/
def Report.events (c : TouchConfig) (r : Report) : List TouchEvent :=
  (List.range (min r.count gt911TouchPoints)).filterMap fun i => readRecord c (r.records i) (r.pointTime i)

/-- The ids of the records that are not thrown away. -/
def acceptedIds (c : TouchConfig) (r : Report) : List Nat := (r.events c).map fun ev => ev.id.toNat

inductive TouchStateOp where
  /-- An interrupt, with the ready bit set and at most ten records. -/
  | report (r : Report)
  /-- A reader takes an event out of the queue. -/
  | read
  /-- The configuration is changed. -/
  | configure (c : TouchConfig)

def touchStateStep (s : TouchState) : TouchStateOp → Option TouchState
  | .report r =>
    if r.ready ∧ r.count ≤ gt911TouchPoints then
      some (touchIrqHandler { s with handed := [], accepted := acceptedIds s.config r } r)
    else none
  | .read => some { s with queue := (touchReadEventNb s.queue (s.points 0)).2.2 }
  | .configure c => some { s with config := c }

/-- Nothing touched yet, with everything else as it may be. -/
structure Untouched (s : TouchState) : Prop where
  bitmap : s.touchBitmap = 0#64
  active : s.activePoints = 0
  queue : s.queue.eqHead = s.queue.eqTail ∧ s.queue.eqTail < touchQueueSize
  accepted : s.accepted = []

/-- The bitmap is the set of ids accepted in the last report, and the counter counts it. -/
structure Tracks (s : TouchState) : Prop where
  bitmap : ∀ id, s.touchBitmap.getLsbD id = true ↔ id ∈ s.accepted
  active : s.activePoints.toNat = bitCount s.touchBitmap

/-- Every finger that was down and is not in the report is reported as lifted once; and what
    is reported goes behind what is in the queue, as far as there is room. -/
def LiftsOnce (s : TouchState) (op : TouchStateOp) (s' : TouchState) : Prop :=
  match op with
  | .report r =>
    (∀ id, s.touchBitmap.getLsbD id = true → id ∉ acceptedIds s.config r →
      s'.handed.countP (fun ev => ev.id.toNat = id ∧ ev.event = eventUp) = 1) ∧
      s'.queue.events = (s.queue.events ++ s'.handed).take (touchQueueSize - 1)
  | _ => True

/-- No record of the report is thrown away, no id comes twice, and a report without a record
    comes when no finger is down. -/
def AllAccepted (s : TouchState) : TouchStateOp → Prop
  | .report r => (acceptedIds s.config r).dedup.length = r.count ∧ (r.count = 0 → s.touchBitmap = 0#64)
  | _ => True

/-! ## The queue -/

theorem length_events_le {q : TouchQueue} : q.events.length ≤ touchQueueSize - 1 := by
  have hlt := Nat.mod_lt (q.eqHead + touchQueueSize - q.eqTail) (show 0 < touchQueueSize by decide)
  rw [TouchQueue.events, length_ringList]
  omega

/-- An event goes behind the others if there is room for it. -/
theorem events_enqueue_take {q : TouchQueue} (h : q.Ok) (ev : TouchEvent) :
    (touchEnqueueEvent q ev).events = (q.events ++ [ev]).take (touchQueueSize - 1) := by
  have hlen : q.events.length = (q.eqHead + touchQueueSize - q.eqTail) % touchQueueSize := by
    rw [TouchQueue.events, length_ringList]
  obtain ⟨hhead, htail⟩ := h
  by_cases hroom : (q.eqHead + 1) % touchQueueSize ≠ q.eqTail
  · rw [events_enqueue ⟨hhead, htail⟩ ev hroom, List.take_of_length_le]
    rw [List.length_append, hlen, List.length_singleton]
    simp only [touchQueueSize] at *
    omega
  · have hfull : q.events.length = touchQueueSize - 1 := by
      rw [hlen]
      simp only [touchQueueSize] at *
      omega
    rw [touchEnqueueEvent, if_neg hroom, List.take_left' hfull]

/-- What goes behind a shortened list is cut off where it would be cut off anyway. -/
theorem take_take_append {α : Type*} (l m : List α) (n : Nat) : (l.take n ++ m).take n = (l ++ m).take n := by
  rw [List.take_append, List.take_append, List.take_take, Nat.min_self, List.length_take]
  by_cases hn : n ≤ l.length
  · rw [Nat.min_eq_left hn, Nat.sub_self, Nat.sub_eq_zero_of_le hn]
  · rw [Nat.min_eq_right (Nat.le_of_not_le hn)]

/-- And so do several. -/
theorem events_foldl_enqueue {q : TouchQueue} (h : q.Ok) (evs : List TouchEvent) :
    (evs.foldl touchEnqueueEvent q).Ok ∧
      (evs.foldl touchEnqueueEvent q).events = (q.events ++ evs).take (touchQueueSize - 1) := by
  induction evs generalizing q with
  | nil => exact ⟨h, by rw [List.foldl_nil, List.append_nil, List.take_of_length_le length_events_le]⟩
  | cons ev evs ih =>
    obtain ⟨hok, hevs⟩ := ih (h.enqueue ev)
    refine ⟨hok, ?_⟩
    rw [List.foldl_cons, hevs, events_enqueue_take h, take_take_append, List.append_assoc, List.singleton_append]

/-! ## The records of a report -/

theorem touchApplyCalibration_id (c : TouchConfig) (ev : TouchEvent) : (touchApplyCalibration c ev).id = ev.id := by
  unfold touchApplyCalibration
  split <;> rfl

theorem readRecord_id_lt {c : TouchConfig} {buf : Nat → UInt8} {time : UInt64} {ev : TouchEvent}
    (h : readRecord c buf time = some ev) : ev.id.toNat < gt911TouchPoints := by
  unfold readRecord at h
  dsimp only at h
  split at h
  next => cases h
  next hid =>
    split at h
    next => cases h
    split at h
    next => cases h
    obtain rfl := Option.some.inj h
    rw [touchApplyCalibration_id]
    exact UInt32.lt_iff_toNat_lt.mp (UInt32.not_le.mp hid)

theorem acceptedIds_lt {c : TouchConfig} {r : Report} {id : Nat} (h : id ∈ acceptedIds c r) : id < gt911TouchPoints := by
  obtain ⟨ev, hev, rfl⟩ := List.mem_map.mp h
  obtain ⟨i, -, hi⟩ := List.mem_filterMap.mp hev
  exact readRecord_id_lt hi

theorem Report.count_lt (r : Report) : r.count < 16 := by
  rw [Report.count, UInt8.toNat_and]
  exact Nat.and_lt_two_pow _ (n := 4) (by decide)

/-! ## What a report does -/

/-- `evs` have been given to the queue, and what the bookkeeping looks at is as before. -/
structure HandsOver (s s' : TouchState) (evs : List TouchEvent) : Prop where
  config : s'.config = s.config
  bitmap : s'.touchBitmap = s.touchBitmap
  active : s'.activePoints = s.activePoints
  accepted : s'.accepted = s.accepted
  handed : s'.handed = s.handed ++ evs
  queue : s'.queue = evs.foldl touchEnqueueEvent s.queue

theorem HandsOver.refl (s : TouchState) : HandsOver s s [] :=
  ⟨rfl, rfl, rfl, rfl, (List.append_nil _).symm, rfl⟩

theorem HandsOver.one (s : TouchState) (ev : TouchEvent) : HandsOver s (s.enqueue ev) [ev] :=
  ⟨rfl, rfl, rfl, rfl, rfl, rfl⟩

theorem HandsOver.trans {s t u : TouchState} {evs evs' : List TouchEvent} (h : HandsOver s t evs)
    (h' : HandsOver t u evs') : HandsOver s u (evs ++ evs') where
  config := h'.config.trans h.config
  bitmap := h'.bitmap.trans h.bitmap
  active := h'.active.trans h.active
  accepted := h'.accepted.trans h.accepted
  handed := by rw [h'.handed, h.handed, List.append_assoc]
  queue := by rw [h'.queue, h.queue, List.foldl_append]

/-- The loop of the records: each one accepted is handed over, and its bit is set. -/
theorem foldl_takeRecord (r : Report) (is : List Nat) (acc : TouchState × BitVec 64) :
    let evs := is.filterMap fun i => readRecord acc.1.config (r.records i) (r.pointTime i)
    HandsOver acc.1 (is.foldl (takeRecord r) acc).1 evs ∧
      (is.foldl (takeRecord r) acc).2 = (evs.map fun ev => ev.id.toNat).foldl (fun x i => x ||| 1#64 <<< i) acc.2 := by
  induction is generalizing acc with
  | nil => exact ⟨HandsOver.refl _, rfl⟩
  | cons i is ih =>
    intro evs
    rw [List.foldl_cons]
    cases hrec : readRecord acc.1.config (r.records i) (r.pointTime i) with
    | none =>
      have htake : takeRecord r acc i = acc := by rw [takeRecord, hrec]
      have hevs : evs = is.filterMap fun i => readRecord acc.1.config (r.records i) (r.pointTime i) :=
        List.filterMap_cons_none hrec
      rw [htake, hevs]
      exact ih acc
    | some ev =>
      have htake : takeRecord r acc i =
          ({ acc.1 with points := Function.update acc.1.points ev.id.toNat ev }.enqueue ev,
            acc.2 ||| 1#64 <<< ev.id.toNat) := by rw [takeRecord, hrec]
      have hevs : evs = ev :: is.filterMap fun i => readRecord acc.1.config (r.records i) (r.pointTime i) :=
        List.filterMap_cons_some hrec
      rw [htake, hevs]
      obtain ⟨hover, hbits⟩ :=
        ih ({ acc.1 with points := Function.update acc.1.points ev.id.toNat ev }.enqueue ev,
          acc.2 ||| 1#64 <<< ev.id.toNat)
      have hone : HandsOver acc.1
          ({ acc.1 with points := Function.update acc.1.points ev.id.toNat ev }.enqueue ev) [ev] :=
        ⟨rfl, rfl, rfl, rfl, rfl, rfl⟩
      exact ⟨hone.trans hover, hbits⟩

/-- The loop of the lifts: one event for each finger whose bit is set. -/
theorem foldl_liftFinger (r : Report) (lifted : BitVec 64) (is : List Nat) (his : ∀ i ∈ is, i < 64) (s : TouchState) :
    ∃ evs, HandsOver s (is.foldl (liftFinger r lifted) s) evs ∧ (∀ ev ∈ evs, ev.event = eventUp) ∧
      evs.map (fun ev => ev.id) = (is.filter lifted.getLsbD).map UInt32.ofNat := by
  induction is generalizing s with
  | nil => exact ⟨[], HandsOver.refl s, by simp, rfl⟩
  | cons i is ih =>
    have hi := his i (List.mem_cons_self ..)
    obtain ⟨evs, hover, hup, hids⟩ := ih (fun j hj => his j (List.mem_cons_of_mem _ hj)) (liftFinger r lifted s i)
    rw [List.foldl_cons]
    cases hbit : lifted.getLsbD i with
    | false =>
      have hlift : liftFinger r lifted s i = s := by
        rw [liftFinger, and_shift_ne_zero _ hi, hbit]
        rfl
      rw [hlift] at hover ⊢
      exact ⟨evs, hover, hup, by rw [hids, List.filter_cons_of_neg (by simp [hbit])]⟩
    | true =>
      rw [liftFinger, and_shift_ne_zero _ hi, hbit, if_pos rfl] at hover ⊢
      refine ⟨_ :: evs, (HandsOver.one s _).trans hover, ?_, ?_⟩
      · intro ev hev
        obtain rfl | hev := List.mem_cons.mp hev
        · rfl
        · exact hup ev hev
      · rw [List.map_cons, hids, List.filter_cons_of_pos hbit, List.map_cons]

/-- A report with at least one record: the new bitmap is that of the ids accepted, and behind the
    events of the records come those of the fingers lifted. -/
theorem touchReadGoodix_spec {s : TouchState} {r : Report} (hready : r.ready = true) (hcount : r.count ≠ 0) :
    ∃ ups, HandsOver { s with
          touchBitmap := (touchReadGoodix s r).touchBitmap
          activePoints := UInt32.ofNat r.count } (touchReadGoodix s r) (r.events s.config ++ ups) ∧
      (∀ id, (touchReadGoodix s r).touchBitmap.getLsbD id = true ↔ id ∈ acceptedIds s.config r) ∧
      (∀ ev ∈ ups, ev.event = eventUp) ∧
      ups.map (fun ev => ev.id) =
        ((List.range gt911TouchPoints).filter
          (s.touchBitmap &&& ~~~(touchReadGoodix s r).touchBitmap).getLsbD).map UInt32.ofNat := by
  have hnot : ¬(r.ready = false ∨ r.count = 0) := by simp [hready, hcount]
  obtain ⟨htake, hbits⟩ := foldl_takeRecord r (List.range (min r.count gt911TouchPoints)) (s, 0#64)
  obtain ⟨ups, hlift, hup, hids⟩ := foldl_liftFinger r
    (((List.range (min r.count gt911TouchPoints)).foldl (takeRecord r) (s, 0#64)).1.touchBitmap &&&
      ~~~((List.range (min r.count gt911TouchPoints)).foldl (takeRecord r) (s, 0#64)).2)
    (List.range gt911TouchPoints)
    (fun i hi => Nat.lt_of_lt_of_le (List.mem_range.mp hi) (by simp [gt911TouchPoints]))
    ((List.range (min r.count gt911TouchPoints)).foldl (takeRecord r) (s, 0#64)).1
  have hboth := htake.trans hlift
  rw [htake.bitmap] at hids
  rw [touchReadGoodix, if_neg hnot]
  refine ⟨ups, ⟨hboth.config, rfl, rfl, hboth.accepted, hboth.handed, hboth.queue⟩, ?_, hup, hids⟩
  intro id
  dsimp only
  rw [hbits]
  by_cases hid : id < 64
  · rw [getLsbD_foldl_or _ _ hid, BitVec.getLsbD_zero, Bool.false_or, decide_eq_true_iff]
    rfl
  · rw [BitVec.getLsbD_of_ge _ _ (Nat.le_of_not_lt hid)]
    refine iff_of_false Bool.false_ne_true fun hmem => hid ?_
    exact Nat.lt_of_lt_of_le (acceptedIds_lt hmem) (by simp [gt911TouchPoints])

/-- An id among those lifted belongs to one event. -/
theorem countP_ups {ups : List TouchEvent} {p : Nat → Bool} (hup : ∀ ev ∈ ups, ev.event = eventUp)
    (hids : ups.map (fun ev => ev.id) = ((List.range gt911TouchPoints).filter p).map UInt32.ofNat) {id : Nat}
    (hid : id < gt911TouchPoints) (hp : p id = true) :
    ups.countP (fun ev => ev.id.toNat = id ∧ ev.event = eventUp) = 1 := by
  have hevents : ups.countP (fun ev => ev.id.toNat = id ∧ ev.event = eventUp) =
      (ups.map fun ev => ev.id).countP (fun i => i.toNat = id) := by
    rw [List.countP_map]
    refine List.countP_congr fun ev hev => ?_
    simp [hup ev hev]
  have hnumbers : (((List.range gt911TouchPoints).filter p).map UInt32.ofNat).countP (fun i => i.toNat = id) =
      ((List.range gt911TouchPoints).filter p).count id := by
    rw [List.countP_map, List.count]
    refine List.countP_congr fun i hi => ?_
    have hlt := List.mem_range.mp (List.mem_filter.mp hi).1
    have hnat : (UInt32.ofNat i).toNat = i := UInt32.toNat_ofNat_of_lt' (Nat.lt_trans hlt (by decide))
    simp [hnat]
  rw [hevents, hids, hnumbers]
  exact List.count_eq_one_of_mem (List.nodup_range.filter _) (List.mem_filter.mpr ⟨List.mem_range.mpr hid, hp⟩)

/-! ## Runs -/

/-- What every step keeps. -/
structure TouchInv (s : TouchState) : Prop where
  queue : s.queue.Ok
  accepted : ∀ id ∈ s.accepted, id < gt911TouchPoints

variable {s s' : TouchState}

/-- What is handed over goes behind what is in the queue, and its indices stay cells. -/
theorem HandsOver.events {evs : List TouchEvent} (h : HandsOver s s' evs) (hq : s.queue.Ok) :
    s'.queue.Ok ∧ s'.queue.events = (s.queue.events ++ evs).take (touchQueueSize - 1) := by
  rw [h.queue]
  exact events_foldl_enqueue hq evs

/-- An empty report changes nothing. -/
theorem touchReadGoodix_empty {r : Report} (hcount : r.count = 0) : touchReadGoodix s r = s :=
  if_pos (Or.inr hcount)

theorem acceptedIds_empty {c : TouchConfig} {r : Report} (hcount : r.count = 0) : acceptedIds c r = [] := by
  simp [acceptedIds, Report.events, hcount]

theorem touchStateStep_report {r : Report} (hs : touchStateStep s (.report r) = some s') :
    r.ready = true ∧
      s' = touchIrqHandler { s with handed := [], accepted := acceptedIds s.config r } r := by
  simp only [touchStateStep] at hs
  split at hs
  next h => exact ⟨h.1, (Option.some.inj hs).symm⟩
  next => cases hs

theorem touchStateStep_empty {r : Report} (hcount : r.count = 0) (hs : touchStateStep s (.report r) = some s') :
    ∃ g, s' = { s with handed := [], accepted := [], gestures := g } := by
  obtain ⟨-, rfl⟩ := touchStateStep_report hs
  rw [touchIrqHandler, touchReadGoodix_empty hcount, acceptedIds_empty hcount]
  exact ⟨_, rfl⟩

/-- What a report with records leaves; `ups` are the events of the fingers lifted. -/
structure Reported (s : TouchState) (r : Report) (s' : TouchState) (ups : List TouchEvent) : Prop where
  accepted : s'.accepted = acceptedIds s.config r
  active : s'.activePoints.toNat = r.count
  handed : s'.handed = r.events s.config ++ ups
  queue : s.queue.Ok → s'.queue.Ok ∧ s'.queue.events = (s.queue.events ++ s'.handed).take (touchQueueSize - 1)
  bitmap : ∀ id, s'.touchBitmap.getLsbD id = true ↔ id ∈ s'.accepted
  up : ∀ ev ∈ ups, ev.event = eventUp
  lifted : ups.map (fun ev => ev.id) =
    ((List.range gt911TouchPoints).filter (s.touchBitmap &&& ~~~s'.touchBitmap).getLsbD).map UInt32.ofNat

theorem touchStateStep_reported {r : Report} (hcount : r.count ≠ 0) (hs : touchStateStep s (.report r) = some s') :
    ∃ ups, Reported s r s' ups := by
  obtain ⟨hready, rfl⟩ := touchStateStep_report hs
  obtain ⟨ups, hover, hbits, hup, hids⟩ :=
    touchReadGoodix_spec (s := { s with handed := [], accepted := acceptedIds s.config r }) hready hcount
  have hlt : r.count < UInt32.size := Nat.lt_trans r.count_lt (by decide)
  have hactive := congrArg UInt32.toNat hover.active
  rw [UInt32.toNat_ofNat_of_lt' hlt] at hactive
  have haccepted : (touchIrqHandler { s with handed := [], accepted := acceptedIds s.config r } r).accepted =
    acceptedIds s.config r := hover.accepted
  have hhanded : (touchIrqHandler { s with handed := [], accepted := acceptedIds s.config r } r).handed =
    r.events s.config ++ ups := hover.handed
  refine ⟨ups, haccepted, hactive, hhanded, fun hq => ?_, fun id => ?_, hup, hids⟩
  · rw [hhanded]
    exact hover.events hq
  · rw [haccepted]
    exact hbits id

theorem TouchInv.step {op : TouchStateOp} (h : TouchInv s) (hs : touchStateStep s op = some s') : TouchInv s' := by
  cases op with
  | report r =>
    by_cases hcount : r.count = 0
    · obtain ⟨g, rfl⟩ := touchStateStep_empty hcount hs
      exact ⟨h.queue, by simp⟩
    · obtain ⟨ups, hr⟩ := touchStateStep_reported hcount hs
      refine ⟨(hr.queue h.queue).1, fun id hid => ?_⟩
      rw [hr.accepted] at hid
      exact acceptedIds_lt hid
  | read =>
    obtain rfl := Option.some.inj hs
    refine ⟨?_, h.accepted⟩
    by_cases hne : s.queue.eqHead = s.queue.eqTail
    · simp only [touchReadEventNb, hne, ne_eq, not_true_eq_false, if_false]
      exact h.queue
    · exact (events_read h.queue (s.points 0) hne).2
  | configure c =>
    obtain rfl := Option.some.inj hs
    exact ⟨h.queue, h.accepted⟩

/-- The number of bits of the bitmap, where it is that of the ids accepted. -/
theorem bitCount_accepted (h : TouchInv s) (hbits : ∀ id, s.touchBitmap.getLsbD id = true ↔ id ∈ s.accepted) :
    bitCount s.touchBitmap = s.accepted.dedup.length :=
  bitCount_eq (fun id hid => Nat.lt_of_lt_of_le (h.accepted id hid) (by simp [gt911TouchPoints])) fun id _ => hbits id

/-- A finger that was down and is not reported is lifted, once. -/
theorem Reported.liftsOnce {r : Report} {ups : List TouchEvent} (hr : Reported s r s' ups) {id : Nat}
    (hlt : id < gt911TouchPoints) (hbit : s.touchBitmap.getLsbD id = true) (hgone : id ∉ acceptedIds s.config r) :
    s'.handed.countP (fun ev => ev.id.toNat = id ∧ ev.event = eventUp) = 1 := by
  have hrecords : (r.events s.config).countP (fun ev => ev.id.toNat = id ∧ ev.event = eventUp) = 0 := by
    refine List.countP_eq_zero.mpr fun ev hev hid => hgone ?_
    exact List.mem_map.mpr ⟨ev, hev, (of_decide_eq_true hid).1⟩
  -- its bit was set and is not, so it is among those that the last loop lifts
  have hnew : ¬s'.touchBitmap.getLsbD id = true := by
    rw [hr.bitmap id, hr.accepted]
    exact hgone
  have hdown : (s.touchBitmap &&& ~~~s'.touchBitmap).getLsbD id = true := by
    rw [BitVec.getLsbD_and, BitVec.getLsbD_not, Bool.eq_false_iff.mpr hnew, hbit]
    simp only [Bool.not_false, Bool.and_true, decide_eq_true_iff, Bool.true_and]
    exact Nat.lt_of_lt_of_le hlt (by simp [gt911TouchPoints])
  rw [hr.handed, List.countP_append, hrecords, Nat.zero_add]
  exact countP_ups hr.up hr.lifted hlt hdown

/-- **A report that is accepted whole.** -/
theorem TouchInv.accepted_step (h : TouchInv s) (ht : Tracks s) {op : TouchStateOp} (hop : AllAccepted s op)
    (hs : touchStateStep s op = some s') : Tracks s' ∧ LiftsOnce s op s' := by
  have hkept := h.step hs
  cases op with
  | read =>
    obtain rfl := Option.some.inj hs
    exact ⟨⟨ht.bitmap, ht.active⟩, trivial⟩
  | configure c =>
    obtain rfl := Option.some.inj hs
    exact ⟨⟨ht.bitmap, ht.active⟩, trivial⟩
  | report r =>
    obtain ⟨hall, hnone⟩ := hop
    by_cases hcount : r.count = 0
    · -- no finger was down, and none is
      have hzero := hnone hcount
      obtain ⟨g, rfl⟩ := touchStateStep_empty hcount hs
      refine ⟨⟨fun id => ?_, ht.active⟩, fun id hid => ?_, ?_⟩
      · simp [hzero]
      · rw [hzero] at hid
        simp at hid
      · show s.queue.events = (s.queue.events ++ []).take (touchQueueSize - 1)
        rw [List.append_nil, List.take_of_length_le length_events_le]
    · obtain ⟨ups, hr⟩ := touchStateStep_reported hcount hs
      refine ⟨⟨hr.bitmap, ?_⟩, fun id hbit hgone => ?_, (hr.queue h.queue).2⟩
      · rw [bitCount_accepted hkept hr.bitmap, hr.accepted, hr.active]
        exact hall.symm
      · exact hr.liftsOnce (h.accepted id ((ht.bitmap id).mp hbit)) hbit hgone

/-- And only such a report keeps the count and the bitmap right. -/
theorem TouchInv.accepted_of_tracks (h : TouchInv s) {op : TouchStateOp} (hs : touchStateStep s op = some s')
    (ht' : Tracks s') : AllAccepted s op := by
  have hkept := h.step hs
  cases op with
  | read | configure => trivial
  | report r =>
    by_cases hcount : r.count = 0
    · have hids := acceptedIds_empty (c := s.config) hcount
      refine ⟨by simp [hids, hcount], fun _ => ?_⟩
      obtain ⟨g, rfl⟩ := touchStateStep_empty hcount hs
      refine BitVec.eq_of_getLsbD_eq fun id _ => ?_
      have hclear := mt (ht'.bitmap id).mp List.not_mem_nil
      rw [BitVec.getLsbD_zero]
      exact Bool.eq_false_iff.mpr hclear
    · obtain ⟨ups, hr⟩ := touchStateStep_reported hcount hs
      have hbits := ht'.active
      rw [bitCount_accepted hkept ht'.bitmap, hr.accepted, hr.active] at hbits
      exact ⟨hbits.symm, fun hzero => absurd hzero hcount⟩

theorem Untouched.inv (h : Untouched s) : TouchInv s := by
  obtain ⟨heq, hlt⟩ := h.queue
  exact ⟨⟨heq ▸ hlt, hlt⟩, by simp [h.accepted]⟩

theorem Untouched.tracks (h : Untouched s) : Tracks s := by
  refine ⟨fun id => ?_, ?_⟩
  · simp [h.bitmap, h.accepted]
  · rw [h.bitmap, h.active, bitCount_eq_zero.mpr rfl]
    rfl

/-- **The tracking is right exactly while every record of a report is accepted** and no report without
    a record comes when a finger is down. -/
theorem tracking_iff (h : Untouched s) (ops : List TouchStateOp) :
    (Always touchStateStep Tracks s ops ∧ AlwaysStep touchStateStep LiftsOnce s ops) ↔
      Meets touchStateStep AllAccepted s ops := by
  have hiff : (Always touchStateStep Tracks s ops ∧ AlwaysStep touchStateStep LiftsOnce s ops) ↔
      (Tracks s ∧ Meets touchStateStep AllAccepted s ops) :=
    always_step_iff (P := Tracks) (R := LiftsOnce) (g := AllAccepted) (fun _ _ _ hinv hs => hinv.step hs)
      (fun _ _ _ hinv ht hop hs => TouchInv.accepted_step hinv ht hop hs)
      (fun _ _ _ hinv _ hs ht' _ => hinv.accepted_of_tracks hs ht') h.inv
  rw [hiff]
  exact and_iff_right h.tracks

/-- A panel of 1080 by 1920 points, before the first touch. -/
def panelStart : TouchState where
  config :=
    { xResolution := 1080, yResolution := 1920, xOffset := 0, yOffset := 0, xScale := 0, yScale := 0
      palmThreshold := 200, edgeRejectPixels := 10 }
  points := fun _ => { id := 0, x := 0, y := 0, pressure := 0, width := 0, event := 0, timestamp := 0 }
  activePoints := 0
  touchBitmap := 0
  queue := ⟨fun _ => { id := 0, x := 0, y := 0, pressure := 0, width := 0, event := 0, timestamp := 0 }, 0, 0⟩
  gestures := ⟨0, 0, 0, 0, .none, 0⟩
  accepted := []
  handed := []

theorem panelStart_untouched : Untouched panelStart := ⟨rfl, rfl, ⟨rfl, Nat.zero_lt_succ 255⟩, rfl⟩

/-- The records of a report: finger `id i` at (100, 100). -/
def fingersAt (count : UInt8) (id : Nat → UInt8) : Report where
  status := 0x80 ||| count
  records := fun i k => if k = 0 then id i <<< 4 else if k = 1 ∨ k = 3 then 100 else 0
  pointTime := fun _ => 0
  liftTime := fun _ => 0
  gestureTime := 0

instance (s : TouchState) (op : TouchStateOp) : Decidable (AllAccepted s op) := by
  cases op <;> unfold AllAccepted <;> infer_instance

/-- Two fingers, of which one goes. -/
theorem tracking_two_fingers :
    Always touchStateStep Tracks panelStart
        [.report (fingersAt 2 fun i => UInt8.ofNat i), .read, .report (fingersAt 1 fun _ => 1)] ∧
      AlwaysStep touchStateStep LiftsOnce panelStart
        [.report (fingersAt 2 fun i => UInt8.ofNat i), .read, .report (fingersAt 1 fun _ => 1)] :=
  (tracking_iff panelStart_untouched _).mpr
    (meets_of_check (fun s op => decide (AllAccepted s op)) (fun _ _ => of_decide_eq_true) (by decide +kernel))

/-- One finger goes down and up again: the report without a record is not looked at. -/
theorem last_finger_stays :
    ¬(Always touchStateStep Tracks panelStart [.report (fingersAt 1 fun _ => 0), .report (fingersAt 0 fun _ => 0)] ∧
      AlwaysStep touchStateStep LiftsOnce panelStart
        [.report (fingersAt 1 fun _ => 0), .report (fingersAt 0 fun _ => 0)]) := by
  intro h
  have hrun := eq_some_getD panelStart (o := run touchStateStep panelStart
    [.report (fingersAt 1 fun _ => 0), .report (fingersAt 0 fun _ => 0)]) (by decide +kernel)
  have hbit := ((h.1.last hrun).bitmap 0).mp (by decide +kernel)
  exact absurd hbit (by decide +kernel)

end Crimson.Touch
