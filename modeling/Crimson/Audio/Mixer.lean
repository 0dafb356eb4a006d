import Crimson.Lib.Ring
import Mathlib.Data.List.FinRange

/-!
# Audio streams and the mixer (`audio.c`)

Seven streams, each with a ring of 4096 samples that `audio_write` fills, a store at a time, and
`audio_mix_period` empties, a period of 1024 samples an interrupt. The positions count in 32 bits and
are reduced where the ring is accessed. A call holds the lock of its stream, the mixer takes none.

A call is a task that goes on one store at a time, so that a step of any other task and an interrupt
may stand between any two of them; `audio_open_stream` and `audio_play_system_sound` first reset the
write position, and do the rest in a second step. On one core the lock keeps interrupts away; on several it
does not.

Where samples go is recorded beside the state: `log` has every sample that was stored in a stream and the
task that it came from, `taken` counts those that the mixer took or a reset gave up, and `returned` has what
`audio_write` was given and returned, by the task. No function reads these three.

The rate, the channels, the format and the hooks of the codec, which nothing here depends on, are left out,
and the allocations of `audio_init` succeed.
-/

set_option autoImplicit false

namespace Crimson.Audio

open Crimson.Lib

/-- An `int16_t` -/
abbrev Sample := BitVec 16

def AUDIO_STREAM_MEDIA : Fin 7 := 0
def AUDIO_STREAM_SYSTEM : Fin 7 := 2
def AUDIO_PERIOD_SIZE : Nat := 1024
def AUDIO_BUFFER_SAMPLES : Nat := 4096

/-! ## Samples -/

/-- Arithmetic in `int32_t` -/
def wrap32 (x : Int) : Int := (BitVec.ofInt 32 x).toInt

/-- The limiter -/
def limit (x : Int) : Int := if x > 32767 then 32767 else if x < -32768 then -32768 else x

/-- `x * volume / 255`, limited -/
def scaled (x : Int) (volume : UInt32) : Sample :=
  BitVec.ofInt 16 (limit ((wrap32 (x * wrap32 volume.toNat)).tdiv 255))

/-! ## Streams -/

/-- `audio_stream_t` -/
structure AudioStream where
  buffer : Nat → Sample
  writePos : UInt32
  readPos : UInt32
  volume : UInt32
  active : Bool
  oneShot : Bool
  samplesRemaining : UInt32
  locked : Bool

/-- The samples between the positions -/
def AudioStream.avail (s : AudioStream) : UInt32 := s.writePos - s.readPos

/-- A sample stored at the write position -/
def AudioStream.put (s : AudioStream) (x : Sample) : AudioStream :=
  { s with
    buffer := Function.update s.buffer (s.writePos.toNat % AUDIO_BUFFER_SAMPLES) x
    writePos := s.writePos + 1 }

/-- `mix_buf` -/
abbrev MixBuf := Nat → Int

/-- The loop over the samples of a stream -/
def mixLoop (buffer : Nat → Sample) : Nat → Nat → UInt32 → MixBuf → UInt32 × MixBuf
  | _, 0, readPos, mix => (readPos, mix)
  | i, n + 1, readPos, mix =>
    mixLoop buffer (i + 1) n (readPos + 1)
      (Function.update mix i (wrap32 (mix i + (buffer (readPos.toNat % AUDIO_BUFFER_SAMPLES)).toInt)))

/-- The end of a one-shot sound -/
def AudioStream.played (s : AudioStream) (n : UInt32) : AudioStream :=
  if s.oneShot then
    { s with
      samplesRemaining := s.samplesRemaining - n
      active := if s.samplesRemaining - n = 0 then false else s.active }
  else s

/-- A stream in `audio_mix_period` -/
def mixStream (s : AudioStream) (mix : MixBuf) : AudioStream × MixBuf :=
  if !s.active then (s, mix)
  else if s.avail = 0 then (s, mix)
  else
    let avail := if s.avail.toNat > AUDIO_PERIOD_SIZE then UInt32.ofNat AUDIO_PERIOD_SIZE else s.avail
    let out := mixLoop s.buffer 0 avail.toNat s.readPos mix
    ({ s with readPos := out.1 }.played avail, out.2)

/-- The samples that the mixer takes from a stream -/
def AudioStream.takes (st : AudioStream) : Nat := if st.active then min st.avail.toNat AUDIO_PERIOD_SIZE else 0

/-! ## Calls -/

/-- Where `audio_write` is. -/
inductive WritePc where
  /-- at `spin_lock` -/
  | acquire
  /-- at the test of the outer loop, with the lock -/
  | head
  /-- in the inner loop, with the lock -/
  | copy (i toWrite : Nat)
deriving DecidableEq, Repr

/-- A call that has not returned. -/
inductive Task where
  | write (s : Fin 7) (samples : List Sample) (written : Nat) (pc : WritePc)
  /-- `audio_open_stream` behind `write_pos = 0` -/
  | opening (s : Fin 7)
  /-- `audio_play_system_sound` behind `write_pos = 0` -/
  | sounding (samples : List Sample)

/-- A stored sample: the task that stored it, and which of its samples it is. -/
structure Entry where
  task : Nat
  index : Nat
  value : Sample
deriving DecidableEq, Repr

/-- `audio_state_t` with the calls that are under way, what the codec was given, and the record. -/
structure AudioState where
  streams : Fin 7 → AudioStream
  masterVolume : UInt32
  callRoute : Nat
  inCall : Bool
  /-- The words written to the FIFO. -/
  fifo : List (BitVec 32)
  tasks : Nat → Option Task
  nextTask : Nat
  log : Fin 7 → List Entry
  taken : Fin 7 → Nat
  returned : Nat → Option (Fin 7 × List Sample × Nat)

/-- `audio_init` -/
def audioInit : AudioState where
  streams := fun _ => ⟨fun _ => 0, 0, 0, 255, false, false, 0, false⟩
  masterVolume := 255
  callRoute := 0
  inCall := false
  fifo := []
  tasks := fun _ => none
  nextTask := 0
  log := fun _ => []
  taken := fun _ => 0
  returned := fun _ => none

inductive AudioOp where
  | openStream (s : Fin 7)
  | write (s : Fin 7) (samples : List Sample)
  /-- The task goes on. -/
  | goOn (t : Nat)
  | close (s : Fin 7)
  | streamVolume (s : Fin 7) (volume : UInt32)
  | masterVolume (volume : UInt32)
  | systemSound (samples : List Sample)
  | callRoute (route : Nat)
  | startCall
  | endCall
  | irq

namespace AudioState

def onStream (a : AudioState) (s : Fin 7) (f : AudioStream → AudioStream) : AudioState :=
  { a with streams := Function.update a.streams s (f (a.streams s)) }

def setTask (a : AudioState) (t : Nat) (task : Option Task) : AudioState :=
  { a with tasks := Function.update a.tasks t task }

/-- A new task -/
def start (a : AudioState) (task : Task) : AudioState :=
  { a.setTask a.nextTask (some task) with nextTask := a.nextTask + 1 }

def unlock (a : AudioState) (s : Fin 7) : AudioState := a.onStream s fun st => { st with locked := false }

/-- The record of stored samples -/
def record (a : AudioState) (s : Fin 7) (entries : List Entry) : AudioState :=
  { a with log := Function.update a.log s (a.log s ++ entries) }

/-- The record of a reset: nothing that was stored before is left to play. -/
def forget (a : AudioState) (s : Fin 7) : AudioState := { a with taken := Function.update a.taken s (a.log s).length }

/-- The lock of a stream with the write position reset, if no task holds it -/
def reset (a : AudioState) (s : Fin 7) (task : Task) : Option AudioState :=
  if (a.streams s).locked then none
  else some ((a.onStream s fun st => { st with locked := true, writePos := 0 }).start task)

/-- `audio_write` from one access of the stream to the next -/
def writeGoesOn (a : AudioState) (t : Nat) (s : Fin 7) (samples : List Sample) (written : Nat) :
    WritePc → Option AudioState
  | .acquire =>
    if (a.streams s).locked then none
    else
      some ((a.onStream s fun st => { st with locked := true }).setTask t (some (.write s samples written .head)))
  | .head =>
    if written < samples.length then
      let space := UInt32.ofNat AUDIO_BUFFER_SAMPLES - (a.streams s).avail
      if space = 0 then some ((a.unlock s).setTask t (some (.write s samples written .acquire)))
      else
        let toWrite := if samples.length - written > space.toNat then space.toNat else samples.length - written
        some (a.setTask t (some (.write s samples written (.copy 0 toWrite))))
    else
      let a := a.onStream s fun st =>
        { st with samplesRemaining := st.samplesRemaining + UInt32.ofNat samples.length, locked := false }
      some { a.setTask t none with returned := Function.update a.returned t (some (s, samples, written)) }
  | .copy i toWrite =>
    if i < toWrite then
      let x := scaled (samples.getD (written + i) 0).toInt (a.streams s).volume
      some (((a.onStream s fun st => st.put x).record s [⟨t, written + i, x⟩]).setTask t
        (some (.write s samples written (.copy (i + 1) toWrite))))
    else some (a.setTask t (some (.write s samples (written + toWrite) .head)))

/-- `audio_open_stream` behind the reset of the write position -/
def openGoesOn (a : AudioState) (t : Nat) (s : Fin 7) : AudioState :=
  ((a.onStream s fun st =>
    { st with readPos := 0, active := true, oneShot := false, samplesRemaining := 0, locked := false }).forget s).setTask t none

/-- `audio_play_system_sound` behind the reset of the write position -/
def soundGoesOn (a : AudioState) (t : Nat) (samples : List Sample) : AudioState :=
  let toCopy := min samples.length AUDIO_BUFFER_SAMPLES
  let a := a.onStream AUDIO_STREAM_SYSTEM fun st =>
    { st with
      readPos := 0
      active := true
      oneShot := true
      samplesRemaining := UInt32.ofNat samples.length
      buffer := fun i => if i < toCopy then samples.getD i 0 else st.buffer i
      writePos := UInt32.ofNat toCopy
      locked := false }
  ((a.forget AUDIO_STREAM_SYSTEM).record AUDIO_STREAM_SYSTEM
    ((List.range toCopy).map fun i => ⟨t, i, samples.getD i 0⟩)).setTask t none

/-- The loop over the streams -/
def mixStreams (streams : Fin 7 → AudioStream) (mix : MixBuf) : List (Fin 7) → (Fin 7 → AudioStream) × MixBuf
  | [] => (streams, mix)
  | s :: rest =>
    let out := mixStream (streams s) mix
    mixStreams (Function.update streams s out.1) out.2 rest

/-- `audio_mix_period` -/
def audioMixPeriod (a : AudioState) : AudioState :=
  let out := mixStreams a.streams (fun _ => 0) (List.finRange 7)
  { a with
    streams := out.1
    fifo := a.fifo ++ (List.range AUDIO_PERIOD_SIZE).flatMap fun i =>
      let sample := (scaled (out.2 i) a.masterVolume).signExtend 32
      [sample, sample]
    taken := fun s => a.taken s + (a.streams s).takes }

end AudioState

/-- A step of the system -/
def audioStep (a : AudioState) : AudioOp → Option AudioState
  | .openStream s => a.reset s (.opening s)
  | .write s samples =>
    if samples.length < 2 ^ 32 then
      if (a.streams s).active then some (a.start (.write s samples 0 .acquire)) else some a
    else none
  | .goOn t =>
    match a.tasks t with
    | none => none
    | some (.write s samples written pc) => a.writeGoesOn t s samples written pc
    | some (.opening s) => some (a.openGoesOn t s)
    | some (.sounding samples) => some (a.soundGoesOn t samples)
  | .close s => if (a.streams s).locked then none else some (a.onStream s fun st => { st with active := false })
  | .streamVolume s volume =>
    some (a.onStream s fun st => { st with volume := if volume.toNat > 255 then 255 else volume })
  | .masterVolume volume => some { a with masterVolume := if volume.toNat > 255 then 255 else volume }
  | .systemSound samples =>
    if samples.length < 2 ^ 32 then a.reset AUDIO_STREAM_SYSTEM (.sounding samples) else none
  | .callRoute route => some { a with callRoute := route }
  | .startCall => some { a.onStream AUDIO_STREAM_MEDIA fun st => { st with volume := 64 } with inCall := true }
  | .endCall => some { a.onStream AUDIO_STREAM_MEDIA fun st => { st with volume := 255 } with inCall := false }
  | .irq => some a.audioMixPeriod

end Crimson.Audio
