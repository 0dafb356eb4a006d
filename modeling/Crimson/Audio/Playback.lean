import Crimson.Audio.Mixer
import Crimson.Lib.Run
import Mathlib.Algebra.Order.Ring.Abs
import Mathlib.Algebra.Order.Ring.Int
import Mathlib.Data.List.GetD

/-!
# What is played

Each stream is a queue of samples, whatever the order in which tasks and interrupts take their steps: its
ring holds what was stored and not taken (`AudioInv`), which the lock and the budget of the inner loop of
`audio_write` protect. Every interrupt plays the sum of what the active streams have next, exactly, and takes it
off them (`audio_mix_exact`), unless it falls between the two steps of a reset of an active stream, when the
positions say nothing.
-/

set_option autoImplicit false

namespace Crimson.Audio

open Crimson.Lib

/-! ## Exact arithmetic -/

theorem wrap32_eq {x : Int} (hlo : -2 ^ 31 ≤ x) (hhi : x < 2 ^ 31) : wrap32 x = x :=
  BitVec.toInt_ofInt_eq_self (by decide) (by simpa using hlo) (by simpa using hhi)

/-- The limiter, as bounds. -/
theorem limit_eq (x : Int) : limit x = max (-32768) (min 32767 x) := by
  unfold limit
  split
  · omega
  · split
    · omega
    · omega

theorem sample_bounds (x : Sample) : -32768 ≤ x.toInt ∧ x.toInt ≤ 32767 := by
  have hlo : -2 ^ 15 ≤ x.toInt := BitVec.le_toInt x
  have hhi : x.toInt < 2 ^ 15 := BitVec.toInt_lt
  omega

/-- The volume applied, without a trace of the 32 bits. -/
theorem scaled_eq {x : Int} {volume : UInt32} (hx : |x| ≤ 2 ^ 20) (hv : volume.toNat ≤ 255) :
    scaled x volume = BitVec.ofInt 16 (max (-32768) (min 32767 ((x * volume.toNat).tdiv 255))) := by
  have hvol : wrap32 (volume.toNat : Int) = volume.toNat := wrap32_eq (by omega) (by omega)
  have habs : |x * (volume.toNat : Int)| ≤ 2 ^ 20 * 255 := by
    rw [abs_mul]
    exact Int.mul_le_mul hx (by simpa using hv) (abs_nonneg _) (by decide)
  obtain ⟨hlo, hhi⟩ := abs_le.mp habs
  rw [scaled, hvol, wrap32_eq (by omega) (by omega), limit_eq]

/-! ## Rings -/

/-- The ring of a stream holds what was stored and not taken. -/
structure RingOk (st : AudioStream) (log : List Entry) (taken : Nat) : Prop where
  inside : taken ≤ log.length
  room : log.length - taken ≤ AUDIO_BUFFER_SAMPLES
  positions : st.writePos = st.readPos + UInt32.ofNat (log.length - taken)
  content : ringList st.buffer AUDIO_BUFFER_SAMPLES (st.readPos.toNat % AUDIO_BUFFER_SAMPLES) (log.length - taken) =
    (log.drop taken).map Entry.value

section Ring

variable {st : AudioStream} {log : List Entry} {taken : Nat}

/-- The ring's length divides the range of the positions. -/
theorem cell_add (p : UInt32) (k : Nat) :
    (p + UInt32.ofNat k).toNat % AUDIO_BUFFER_SAMPLES = (p.toNat % AUDIO_BUFFER_SAMPLES + k) % AUDIO_BUFFER_SAMPLES := by
  rw [UInt32.toNat_add, UInt32.toNat_ofNat']
  unfold AUDIO_BUFFER_SAMPLES
  omega

theorem RingOk.avail (h : RingOk st log taken) : st.avail.toNat = log.length - taken := by
  have hroom := h.room
  unfold AUDIO_BUFFER_SAMPLES at hroom
  rw [AudioStream.avail, h.positions, UInt32.add_comm, UInt32.add_sub_cancel, UInt32.toNat_ofNat']
  omega

/-- A stored sample is the last of the queue. -/
theorem RingOk.put (h : RingOk st log taken) (hroom : log.length - taken < AUDIO_BUFFER_SAMPLES) (e : Entry) :
    RingOk (st.put e.value) (log ++ [e]) taken := by
  have hle := h.inside
  have hlen : (log ++ [e]).length - taken = log.length - taken + 1 := by
    rw [List.length_append, List.length_singleton]
    omega
  have hcell : st.writePos.toNat % AUDIO_BUFFER_SAMPLES =
      (st.readPos.toNat % AUDIO_BUFFER_SAMPLES + (log.length - taken)) % AUDIO_BUFFER_SAMPLES := by
    rw [h.positions, cell_add]
  refine ⟨by rw [List.length_append]; omega, by omega, ?_, ?_⟩
  · show st.writePos + 1 = st.readPos + _
    rw [hlen, h.positions, UInt32.ofNat_add, UInt32.add_assoc]
    rfl
  · have hfits : log.length - taken + [e.value].length ≤ AUDIO_BUFFER_SAMPLES := by
      rw [List.length_singleton]
      omega
    rw [hlen, List.drop_append_of_le_length hle, List.map_append, ← h.content, List.map_singleton,
      ← ringList_ringPut (by decide) hfits, ← hcell]
    rfl

/-- Samples taken from the front. -/
theorem RingOk.take (h : RingOk st log taken) {n : Nat} (hn : n ≤ log.length - taken) :
    RingOk { st with readPos := st.readPos + UInt32.ofNat n } log (taken + n) := by
  have hle := h.inside
  have hroom := h.room
  have hsplit : log.length - taken = n + (log.length - (taken + n)) := by omega
  refine ⟨by omega, by omega, ?_, ?_⟩
  · show st.writePos = st.readPos + UInt32.ofNat n + _
    rw [h.positions, UInt32.add_assoc, ← UInt32.ofNat_add, ← hsplit]
  · have hcontent := h.content
    rw [hsplit, ringList_add, ← cell_add] at hcontent
    have hdrop := congrArg (List.drop n) hcontent
    rw [List.drop_left' length_ringList, ← List.map_drop, List.drop_drop] at hdrop
    exact hdrop

theorem RingOk.empty (hpos : st.writePos = st.readPos) : RingOk st log log.length := by
  refine ⟨Nat.le_refl _, by rw [Nat.sub_self]; decide, ?_, ?_⟩
  · rw [Nat.sub_self, hpos]
    exact (UInt32.add_zero _).symm
  · rw [Nat.sub_self, List.drop_length]
    rfl

theorem RingOk.congr {st' : AudioStream} (h : RingOk st log taken) (hbuf : st'.buffer = st.buffer)
    (hw : st'.writePos = st.writePos) (hr : st'.readPos = st.readPos) : RingOk st' log taken :=
  ⟨h.inside, h.room, by rw [hw, hr, h.positions], by rw [hbuf, hr, h.content]⟩

/-- The sample at a place of the queue. -/
theorem RingOk.cell (h : RingOk st log taken) {j : Nat} (hj : j < log.length - taken) :
    st.buffer ((st.readPos + UInt32.ofNat j).toNat % AUDIO_BUFFER_SAMPLES) = ((log.drop taken).map Entry.value).getD j 0 := by
  rw [← h.content, cell_add, List.getD_eq_getElem?_getD]
  simp [ringList, hj]

end Ring

/-! ## Mixing -/

theorem mixLoop_eq (buffer : Nat → Sample) (i n : Nat) (readPos : UInt32) (mix : MixBuf) :
    mixLoop buffer i n readPos mix = (readPos + UInt32.ofNat n, fun j =>
      if i ≤ j ∧ j < i + n then
        wrap32 (mix j + (buffer ((readPos + UInt32.ofNat (j - i)).toNat % AUDIO_BUFFER_SAMPLES)).toInt)
      else mix j) := by
  induction n generalizing i readPos mix with
  | zero =>
    refine Prod.ext (UInt32.add_zero readPos).symm ?_
    funext j
    exact (if_neg (by omega)).symm
  | succ n ih =>
    rw [mixLoop, ih]
    refine Prod.ext ?_ ?_
    · show readPos + 1 + UInt32.ofNat n = readPos + UInt32.ofNat (n + 1)
      rw [UInt32.add_assoc, UInt32.ofNat_add, UInt32.add_comm 1]
      rfl
    · funext j
      by_cases hj : j = i
      · subst hj
        have hout : ¬(j + 1 ≤ j ∧ j < j + 1 + n) := by omega
        have hin : j ≤ j ∧ j < j + (n + 1) := by omega
        simp only [hout, hin, if_false, if_true, Function.update_self, Nat.sub_self, and_self]
        rw [show UInt32.ofNat 0 = 0 from rfl, UInt32.add_zero]
      · simp only [Function.update_of_ne hj]
        by_cases hin : i + 1 ≤ j ∧ j < i + 1 + n
        · have hin' : i ≤ j ∧ j < i + (n + 1) := by omega
          have hback : j - i = 1 + (j - (i + 1)) := by omega
          rw [if_pos hin, if_pos hin', hback, UInt32.ofNat_add, UInt32.add_assoc]
          rfl
        · have hin' : ¬(i ≤ j ∧ j < i + (n + 1)) := by omega
          rw [if_neg hin, if_neg hin']

/-- What an active stream plays next. -/
def nextOf (active : Bool) (log : List Entry) (taken : Nat) : List Sample :=
  if active then ((log.drop taken).map Entry.value).take AUDIO_PERIOD_SIZE else []

theorem played_ring (st : AudioStream) (n : UInt32) :
    (st.played n).buffer = st.buffer ∧ (st.played n).writePos = st.writePos ∧ (st.played n).readPos = st.readPos ∧
      (st.played n).volume = st.volume ∧ (st.played n).locked = st.locked := by
  unfold AudioStream.played
  split
  · exact ⟨rfl, rfl, rfl, rfl, rfl⟩
  · exact ⟨rfl, rfl, rfl, rfl, rfl⟩

/-- The stream behind a period; the mixing buffer does not matter to it. -/
def periodOf (st : AudioStream) : AudioStream := (mixStream st fun _ => 0).1

theorem mixStream_fst (st : AudioStream) (mix : MixBuf) : (mixStream st mix).1 = periodOf st := by
  unfold periodOf mixStream
  simp only [mixLoop_eq]
  split
  · rfl
  · split
    · rfl
    · rfl

section Period

variable {st : AudioStream} {log : List Entry} {taken : Nat} {mix : MixBuf}

theorem RingOk.takes (h : RingOk st log taken) : st.takes = (nextOf st.active log taken).length := by
  unfold AudioStream.takes nextOf
  rw [h.avail]
  split
  · rw [List.length_take, List.length_map, List.length_drop, Nat.min_comm]
  · rfl

/-- The number that `audio_mix_period` takes, in 32 bits. -/
theorem RingOk.period (h : RingOk st log taken) :
    (if st.avail.toNat > AUDIO_PERIOD_SIZE then UInt32.ofNat AUDIO_PERIOD_SIZE else st.avail) =
      UInt32.ofNat (min (log.length - taken) AUDIO_PERIOD_SIZE) := by
  rw [← h.avail]
  split
  · rw [Nat.min_eq_right (by omega)]
  · rw [Nat.min_eq_left (by omega), UInt32.ofNat_toNat]

/-- **A stream mixed**: what it plays next is added, exactly. -/
theorem mixStream_snd (h : st.active = true → RingOk st log taken) {k : Nat} (hk : k ≤ 7)
    (hmix : ∀ j, -32768 * k ≤ mix j ∧ mix j ≤ 32768 * k) :
    (mixStream st mix).2 = fun j => mix j + ((nextOf st.active log taken).getD j 0).toInt := by
  unfold mixStream nextOf
  cases hact : st.active with
  | false =>
    funext j
    simp
  | true =>
    have hring := h hact
    have havail := hring.avail
    simp only [Bool.not_true, Bool.false_eq_true, if_false, if_true]
    split
    · next hzero =>
      have hnone : log.length - taken = 0 := by rw [← havail, hzero]; rfl
      funext j
      rw [List.drop_of_length_le (by omega)]
      simp
    · have hlt : min (log.length - taken) AUDIO_PERIOD_SIZE < 2 ^ 32 := Nat.lt_of_le_of_lt (Nat.min_le_right _ _) (by decide)
      funext j
      simp only [hring.period, mixLoop_eq, UInt32.toNat_ofNat_of_lt' hlt, Nat.zero_le, true_and, Nat.zero_add, Nat.sub_zero]
      split
      · next hj =>
        have hlog : j < log.length - taken := Nat.lt_of_lt_of_le hj (Nat.min_le_left _ _)
        have hperiod : j < AUDIO_PERIOD_SIZE := Nat.lt_of_lt_of_le hj (Nat.min_le_right _ _)
        have hget : (((log.drop taken).map Entry.value).take AUDIO_PERIOD_SIZE).getD j 0 =
            ((log.drop taken).map Entry.value).getD j 0 := by
          rw [List.getD_eq_getElem?_getD, List.getD_eq_getElem?_getD, List.getElem?_take_of_lt hperiod]
        rw [hring.cell hlog, hget]
        have hb := sample_bounds (((log.drop taken).map Entry.value).getD j 0)
        have hm := hmix j
        exact wrap32_eq (by omega) (by omega)
      · next hj =>
        have hshort : (((log.drop taken).map Entry.value).take AUDIO_PERIOD_SIZE).length ≤ j := by
          rw [List.length_take, List.length_map, List.length_drop, Nat.min_comm]
          exact Nat.le_of_not_lt hj
        rw [List.getD_eq_default _ _ hshort]
        simp

/-- The ring behind a period. -/
theorem RingOk.periodOf (h : RingOk st log taken) : RingOk (periodOf st) log (taken + st.takes) := by
  have havail := h.avail
  unfold Audio.periodOf mixStream AudioStream.takes
  cases hact : st.active with
  | false => exact h
  | true =>
    simp only [Bool.not_true, Bool.false_eq_true, if_false, if_true]
    split
    · next hzero =>
      rw [hzero]
      exact h
    · have hlt : min (log.length - taken) AUDIO_PERIOD_SIZE < 2 ^ 32 := Nat.lt_of_le_of_lt (Nat.min_le_right _ _) (by decide)
      have htake := h.take (n := min (log.length - taken) AUDIO_PERIOD_SIZE) (Nat.min_le_left _ _)
      simp only [h.period, mixLoop_eq, UInt32.toNat_ofNat_of_lt' hlt]
      rw [havail]
      exact htake.congr (played_ring _ _).1 (played_ring _ _).2.1 (played_ring _ _).2.2.1

theorem periodOf_keeps (st : AudioStream) :
    (periodOf st).writePos = st.writePos ∧ (periodOf st).volume = st.volume ∧ (periodOf st).locked = st.locked := by
  unfold periodOf mixStream
  split
  · exact ⟨rfl, rfl, rfl⟩
  · split
    · exact ⟨rfl, rfl, rfl⟩
    · obtain ⟨-, hw, -, hv, hl⟩ := played_ring { st with readPos := (mixLoop st.buffer 0
        (if st.avail.toNat > AUDIO_PERIOD_SIZE then UInt32.ofNat AUDIO_PERIOD_SIZE else st.avail).toNat st.readPos fun _ => 0).1 }
        (if st.avail.toNat > AUDIO_PERIOD_SIZE then UInt32.ofNat AUDIO_PERIOD_SIZE else st.avail)
      exact ⟨hw, hv, hl⟩

end Period

/-- The streams behind a period. -/
theorem mixStreams_fst (streams : Fin 7 → AudioStream) (mix : MixBuf) {l : List (Fin 7)} (hl : l.Nodup) :
    (AudioState.mixStreams streams mix l).1 = fun s => if s ∈ l then periodOf (streams s) else streams s := by
  induction l generalizing streams mix with
  | nil => simp [AudioState.mixStreams]
  | cons s l ih =>
    obtain ⟨hs, hl⟩ := List.nodup_cons.mp hl
    rw [AudioState.mixStreams, ih _ _ hl, mixStream_fst]
    funext u
    by_cases hu : u = s
    · subst hu
      simp [hs]
    · simp [hu]

/-- The sums of a period. -/
theorem mixStreams_snd {streams : Fin 7 → AudioStream} {log : Fin 7 → List Entry} {taken : Fin 7 → Nat}
    {l : List (Fin 7)} (h : ∀ s ∈ l, (streams s).active = true → RingOk (streams s) (log s) (taken s)) (hl : l.Nodup)
    {m : MixBuf} {k : Nat} (hk : k + l.length ≤ 7) (hmix : ∀ j, -32768 * k ≤ m j ∧ m j ≤ 32768 * k) :
    (AudioState.mixStreams streams m l).2 = fun j =>
      m j + (l.map fun s => ((nextOf (streams s).active (log s) (taken s)).getD j 0).toInt).sum := by
  induction l generalizing streams m k with
  | nil => simp [AudioState.mixStreams]
  | cons s l ih =>
    obtain ⟨hs, hl⟩ := List.nodup_cons.mp hl
    rw [List.length_cons] at hk
    have hone := mixStream_snd (h s List.mem_cons_self) (k := k) (by omega) hmix
    have hother : ∀ u ∈ l, Function.update streams s (periodOf (streams s)) u = streams u := by
      intro u hu
      exact Function.update_of_ne (fun heq : u = s => hs (heq ▸ hu)) _ _
    have hrings : ∀ u ∈ l, (Function.update streams s (periodOf (streams s)) u).active = true →
        RingOk (Function.update streams s (periodOf (streams s)) u) (log u) (taken u) := by
      intro u hu
      rw [hother u hu]
      exact h u (List.mem_cons_of_mem s hu)
    have hsum : ∀ j, -32768 * (k + 1 : Nat) ≤ (mixStream (streams s) m).2 j ∧
        (mixStream (streams s) m).2 j ≤ 32768 * (k + 1 : Nat) := by
      intro j
      have hb := sample_bounds ((nextOf (streams s).active (log s) (taken s)).getD j 0)
      have hm := hmix j
      simp only [hone]
      omega
    rw [AudioState.mixStreams, mixStream_fst, ih hrings hl (by omega) hsum, hone]
    funext j
    rw [List.map_congr_left fun u hu => by rw [hother u hu], List.map_cons, List.sum_cons, Int.add_assoc]

/-! ## Locks -/

/-- The stream a call is about -/
def Task.stream : Task → Fin 7
  | .write s _ _ _ => s
  | .opening s => s
  | .sounding _ => AUDIO_STREAM_SYSTEM

/-- The call holds the lock of its stream. -/
def Task.holds : Task → Bool
  | .write _ _ _ pc => pc ≠ .acquire
  | .opening _ => true
  | .sounding _ => true

/-- The call has reset the write position, and not yet the rest. -/
def Task.resets : Task → Bool
  | .write _ _ _ _ => false
  | .opening _ => true
  | .sounding _ => true

/-- A lock is held by at most one call, and it is taken then. -/
structure Locks (tasks : Nat → Option Task) (locked : Fin 7 → Bool) (next : Nat) : Prop where
  held : ∀ t task, tasks t = some task → task.holds = true → locked task.stream = true
  alone : ∀ t t' task task', tasks t = some task → tasks t' = some task' → task.holds = true → task'.holds = true →
    task.stream = task'.stream → t = t'
  fresh : ∀ t, next ≤ t → tasks t = none

section Locks

variable {tasks : Nat → Option Task} {locked : Fin 7 → Bool} {next t : Nat} {task old : Task}

theorem update_some {t u : Nat} {new : Option Task} {task : Task} (h : Function.update tasks t new u = some task) :
    (u = t ∧ new = some task) ∨ (u ≠ t ∧ tasks u = some task) := by
  by_cases hu : u = t
  · subst hu
    rw [Function.update_self] at h
    exact Or.inl ⟨rfl, h⟩
  · rw [Function.update_of_ne hu] at h
    exact Or.inr ⟨hu, h⟩

theorem Locks.lt (h : Locks tasks locked next) (ht : tasks t = some task) : t < next := by
  by_contra hle
  rw [h.fresh t (Nat.le_of_not_lt hle)] at ht
  exact absurd ht (by simp)

/-- A call that goes on with the lock it has, or without one. -/
theorem Locks.goesOn (h : Locks tasks locked next) (ht : tasks t = some old) (hstream : task.stream = old.stream)
    (hholds : task.holds = true → old.holds = true) : Locks (Function.update tasks t (some task)) locked next := by
  refine ⟨?_, ?_, ?_⟩
  · intro u v hu hv
    rcases update_some hu with ⟨rfl, hnew⟩ | ⟨-, hu⟩
    · obtain rfl := Option.some.inj hnew
      rw [hstream]
      exact h.held u old ht (hholds hv)
    · exact h.held u v hu hv
  · intro u u' v v' hu hu' hv hv' heq
    rcases update_some hu with ⟨rfl, hnew⟩ | ⟨hne, hu⟩
    · rcases update_some hu' with ⟨rfl, -⟩ | ⟨-, hu'⟩
      · rfl
      · obtain rfl := Option.some.inj hnew
        exact h.alone u u' old v' ht hu' (hholds hv) hv' (hstream ▸ heq)
    · rcases update_some hu' with ⟨hu't, hnew'⟩ | ⟨-, hu'⟩
      · obtain rfl := Option.some.inj hnew'
        exact (h.alone u t v old hu ht hv (hholds hv') (hstream ▸ heq)).trans hu't.symm
      · exact h.alone u u' v v' hu hu' hv hv' heq
  · intro u hu
    have hlt := h.lt ht
    rw [Function.update_of_ne (by omega)]
    exact h.fresh u hu

/-- A call takes a free lock. -/
theorem Locks.acquires (h : Locks tasks locked next) {next' : Nat} (hfree : locked task.stream = false) (hnext : next ≤ next')
    (ht : t < next') : Locks (Function.update tasks t (some task)) (Function.update locked task.stream true) next' := by
  have hnone : ∀ u v, tasks u = some v → v.holds = true → v.stream ≠ task.stream := by
    intro u v hu hv heq
    have hlocked := h.held u v hu hv
    rw [heq, hfree] at hlocked
    exact absurd hlocked (by simp)
  refine ⟨?_, ?_, ?_⟩
  · intro u v hu hv
    rcases update_some hu with ⟨rfl, hnew⟩ | ⟨-, hu⟩
    · obtain rfl := Option.some.inj hnew
      exact Function.update_self ..
    · rw [Function.update_of_ne (hnone u v hu hv)]
      exact h.held u v hu hv
  · intro u u' v v' hu hu' hv hv' heq
    rcases update_some hu with ⟨rfl, hnew⟩ | ⟨-, hu⟩
    · rcases update_some hu' with ⟨rfl, -⟩ | ⟨-, hu'⟩
      · rfl
      · obtain rfl := Option.some.inj hnew
        exact absurd heq.symm (hnone u' v' hu' hv')
    · rcases update_some hu' with ⟨-, hnew'⟩ | ⟨-, hu'⟩
      · obtain rfl := Option.some.inj hnew'
        exact absurd heq (hnone u v hu hv)
      · exact h.alone u u' v v' hu hu' hv hv' heq
  · intro u hu
    rw [Function.update_of_ne (by omega)]
    exact h.fresh u (by omega)

/-- A call gives its lock back, and goes on without or is done. -/
theorem Locks.releases (h : Locks tasks locked next) (ht : tasks t = some old) (hold : old.holds = true) {new : Option Task}
    (hnew : ∀ task, new = some task → task.holds = false) :
    Locks (Function.update tasks t new) (Function.update locked old.stream false) next := by
  refine ⟨?_, ?_, ?_⟩
  · intro u v hu hv
    rcases update_some hu with ⟨-, hn⟩ | ⟨hne, hu⟩
    · exact absurd hv (by simp [hnew v hn])
    · rw [Function.update_of_ne fun heq => hne (h.alone u t v old hu ht hv hold heq)]
      exact h.held u v hu hv
  · intro u u' v v' hu hu' hv hv' heq
    rcases update_some hu with ⟨-, hn⟩ | ⟨-, hu⟩
    · exact absurd hv (by simp [hnew v hn])
    · rcases update_some hu' with ⟨-, hn⟩ | ⟨-, hu'⟩
      · exact absurd hv' (by simp [hnew v' hn])
      · exact h.alone u u' v v' hu hu' hv hv' heq
  · intro u hu
    have hlt := h.lt ht
    rw [Function.update_of_ne (by omega)]
    exact h.fresh u hu

/-- A call begins without a lock. -/
theorem Locks.begins (h : Locks tasks locked next) (hfree : task.holds = false) :
    Locks (Function.update tasks next (some task)) locked (next + 1) := by
  refine ⟨?_, ?_, ?_⟩
  · intro u v hu hv
    rcases update_some hu with ⟨-, hn⟩ | ⟨-, hu⟩
    · obtain rfl := Option.some.inj hn
      exact absurd hv (by simp [hfree])
    · exact h.held u v hu hv
  · intro u u' v v' hu hu' hv hv' heq
    rcases update_some hu with ⟨-, hn⟩ | ⟨-, hu⟩
    · obtain rfl := Option.some.inj hn
      exact absurd hv (by simp [hfree])
    · rcases update_some hu' with ⟨-, hn⟩ | ⟨-, hu'⟩
      · obtain rfl := Option.some.inj hn
        exact absurd hv' (by simp [hfree])
      · exact h.alone u u' v v' hu hu' hv hv' heq
  · intro u hu
    rw [Function.update_of_ne (by omega)]
    exact h.fresh u (by omega)

end Locks

/-! ## The invariant -/

/-- A stream whose positions are being reset -/
def Resetting (tasks : Nat → Option Task) (s : Fin 7) : Prop :=
  ∃ t task, tasks t = some task ∧ task.resets = true ∧ task.stream = s

/-- The samples that are stored and not taken -/
def AudioState.pending (a : AudioState) (s : Fin 7) : Nat := (a.log s).length - a.taken s

/-- What a call in its inner loop may still store fits the ring. -/
def AudioState.Budget (a : AudioState) : Task → Prop
  | .write s _ _ (.copy i n) => a.pending s + (n - i) ≤ AUDIO_BUFFER_SAMPLES
  | _ => True

structure AudioInv (a : AudioState) : Prop where
  locks : Locks a.tasks (fun s => (a.streams s).locked) a.nextTask
  ring : ∀ s, Resetting a.tasks s ∨ RingOk (a.streams s) (a.log s) (a.taken s)
  opening : ∀ t s, a.tasks t = some (.opening s) → (a.streams s).writePos = 0
  budget : ∀ t task, a.tasks t = some task → a.Budget task
  volume : ∀ s, (a.streams s).volume.toNat ≤ 255
  master : a.masterVolume.toNat ≤ 255

theorem audioInv_init : AudioInv audioInit := by
  have hnone : ∀ (t : Nat) (task : Task), audioInit.tasks t ≠ some task := fun _ _ h => absurd h (by simp [audioInit])
  refine ⟨⟨?_, ?_, fun _ _ => rfl⟩, fun _ => Or.inr (RingOk.empty rfl), ?_, ?_, fun _ => ?_, by decide⟩
  · exact fun t task h => absurd h (hnone t task)
  · exact fun t _ task _ h => absurd h (hnone t task)
  · exact fun t _ h => absurd h (hnone t _)
  · exact fun t task h => absurd h (hnone t task)
  · show (255 : UInt32).toNat ≤ 255
    decide

section Steps

variable {a a' : AudioState} {t : Nat} {s : Fin 7} {n : Option Task}

theorem Resetting.update {tasks : Nat → Option Task} (h : Resetting tasks s)
    (hold : ∀ old, tasks t = some old → old.resets = false) : Resetting (Function.update tasks t n) s := by
  obtain ⟨u, task, hu, hresets, hs⟩ := h
  have hne : u ≠ t := by
    rintro rfl
    exact absurd hresets (by simp [hold task hu])
  exact ⟨u, task, by rw [Function.update_of_ne hne, hu], hresets, hs⟩

/-- A step that moves one call, and no sample. -/
theorem AudioInv.moves (h : AudioInv a) (hlocks : Locks a'.tasks (fun s => (a'.streams s).locked) a'.nextTask)
    (htasks : a'.tasks = Function.update a.tasks t n) (hlog : a'.log = a.log) (htaken : a'.taken = a.taken)
    (hstreams : ∀ s, (a'.streams s).buffer = (a.streams s).buffer ∧ (a'.streams s).writePos = (a.streams s).writePos ∧
      (a'.streams s).readPos = (a.streams s).readPos ∧ (a'.streams s).volume.toNat ≤ 255)
    (hmaster : a'.masterVolume.toNat ≤ 255) (hold : ∀ old, a.tasks t = some old → old.resets = false)
    (hnew : ∀ task, n = some task → task.resets = false ∧ a.Budget task) : AudioInv a' := by
  have hbudget : ∀ task, a.Budget task → a'.Budget task := by
    intro task hb
    unfold AudioState.Budget AudioState.pending at *
    rwa [hlog, htaken]
  refine ⟨hlocks, ?_, ?_, ?_, fun s => (hstreams s).2.2.2, hmaster⟩
  · intro s
    rw [htasks, hlog, htaken]
    obtain ⟨hb, hw, hr, -⟩ := hstreams s
    exact (h.ring s).imp (fun hres => hres.update hold) fun hring => hring.congr hb hw hr
  · intro u s hu
    rw [htasks] at hu
    rw [(hstreams s).2.1]
    rcases update_some hu with ⟨-, hn⟩ | ⟨-, hu⟩
    · exact absurd (hnew _ hn).1 (by simp [Task.resets])
    · exact h.opening u s hu
  · intro u task hu
    rw [htasks] at hu
    rcases update_some hu with ⟨-, hn⟩ | ⟨-, hu⟩
    · exact hbudget task (hnew task hn).2
    · exact hbudget task (h.budget u task hu)

/-- The locks behind a change of a stream. -/
theorem locked_onStream (a : AudioState) (s : Fin 7) (f : AudioStream → AudioStream) :
    (fun u => ((a.onStream s f).streams u).locked) =
      Function.update (fun u => (a.streams u).locked) s (f (a.streams s)).locked := by
  funext u
  by_cases hu : u = s
  · subst hu
    simp [AudioState.onStream]
  · simp [AudioState.onStream, Function.update_of_ne hu]

/-- A change of a stream that leaves the positions, the samples and the lock. -/
theorem AudioInv.adjusts (h : AudioInv a) {f : AudioStream → AudioStream}
    (hf : ∀ st, (f st).buffer = st.buffer ∧ (f st).writePos = st.writePos ∧ (f st).readPos = st.readPos ∧
      (f st).locked = st.locked) (hv : (f (a.streams s)).volume.toNat ≤ 255) : AudioInv (a.onStream s f) := by
  have hnone : a.tasks a.nextTask = none := h.locks.fresh _ (Nat.le_refl _)
  refine h.moves (t := a.nextTask) (n := none) ?_ ?_ rfl rfl ?_ h.master ?_ ?_
  · rw [locked_onStream, (hf _).2.2.2, Function.update_eq_self]
    exact h.locks
  · exact (Function.update_eq_self_iff.mpr hnone.symm).symm
  · intro u
    by_cases hu : u = s
    · subst hu
      obtain ⟨hb, hw, hr, -⟩ := hf (a.streams u)
      simp only [AudioState.onStream, Function.update_self]
      exact ⟨hb, hw, hr, hv⟩
    · have hkeep : (a.onStream s f).streams u = a.streams u := Function.update_of_ne hu _ _
      rw [hkeep]
      exact ⟨rfl, rfl, rfl, h.volume u⟩
  · intro old hold
    rw [hnone] at hold
    exact absurd hold (by simp)
  · exact fun task htask => absurd htask (by simp)

/-- A reset begins. -/
theorem AudioInv.reset (h : AudioInv a) (task : Task) (hs : task.stream = s) (hres : task.resets = true)
    (hr : a.reset s task = some a') : AudioInv a' := by
  unfold AudioState.reset at hr
  split at hr
  · exact absurd hr (by simp)
  next hfree =>
  obtain rfl := Option.some.inj hr
  have hfree : (a.streams s).locked = false := by simpa using hfree
  have hother : ∀ u task', a.tasks u = some task' → task'.resets = true → task'.stream ≠ s := by
    intro u task' hu hresets heq
    have hlocked := h.locks.held u task' hu (by cases task' <;> simp_all [Task.resets, Task.holds])
    rw [heq, hfree] at hlocked
    exact absurd hlocked (by simp)
  have hkeep : ∀ u, u ≠ s →
      ((a.onStream s fun st => { st with locked := true, writePos := 0 }).start task).streams u = a.streams u :=
    fun u hu => Function.update_of_ne hu _ _
  refine ⟨?_, ?_, ?_, ?_, ?_, h.master⟩
  · have hacq := h.locks.acquires (by rw [hs]; exact hfree) (Nat.le_succ _) (Nat.lt_succ_self a.nextTask)
    rw [hs] at hacq
    show Locks (Function.update a.tasks a.nextTask (some task))
      (fun u => ((a.onStream s fun st => { st with locked := true, writePos := 0 }).streams u).locked) (a.nextTask + 1)
    rw [locked_onStream]
    exact hacq
  · intro u
    by_cases hu : u = s
    · exact Or.inl ⟨a.nextTask, task, Function.update_self .., hres, hs.trans hu.symm⟩
    · rw [hkeep u hu]
      have hnone : a.tasks a.nextTask = none := h.locks.fresh _ (Nat.le_refl _)
      exact (h.ring u).imp_left fun hr => hr.update fun old hold => absurd (hnone.symm.trans hold) (by simp)
  · intro u v hu
    rcases update_some hu with ⟨-, hn⟩ | ⟨-, hu⟩
    · obtain rfl := Option.some.inj hn
      obtain rfl : v = s := hs
      show (Function.update a.streams v _ v).writePos = 0
      rw [Function.update_self]
    · rw [hkeep v (hother u _ hu rfl)]
      exact h.opening u v hu
  · intro u task' hu
    rcases update_some hu with ⟨-, hn⟩ | ⟨-, hu⟩
    · obtain rfl := Option.some.inj hn
      cases task with
      | write => exact absurd hres (by simp [Task.resets])
      | opening => trivial
      | sounding => trivial
    · exact h.budget u task' hu
  · intro u
    by_cases hu : u = s
    · subst hu
      show (Function.update a.streams u _ u).volume.toNat ≤ 255
      rw [Function.update_self]
      exact h.volume u
    · rw [hkeep u hu]
      exact h.volume u

/-- A stream whose lock is held by a call that does not reset is not being reset. -/
theorem Locks.not_resetting {tasks : Nat → Option Task} {locked : Fin 7 → Bool} {next : Nat} {task : Task}
    (h : Locks tasks locked next) (ht : tasks t = some task) (hholds : task.holds = true) (hres : task.resets = false) :
    ¬Resetting tasks task.stream := by
  rintro ⟨u, task', hu, hresets, hs⟩
  have hholds' : task'.holds = true := by
    cases task' with
    | write => exact absurd hresets (by simp [Task.resets])
    | opening => rfl
    | sounding => rfl
  obtain rfl := h.alone u t task' task hu ht hholds' hholds hs
  obtain rfl := Option.some.inj (hu.symm.trans ht)
  exact absurd hresets (by simp [hres])

/-- A step of a call that holds the lock of a stream, on that stream. -/
theorem AudioInv.owns (h : AudioInv a) {old : Task} (ht : a.tasks t = some old) (hold : old.holds = true) (hs : old.stream = s)
    (hlocks : Locks a'.tasks (fun s => (a'.streams s).locked) a'.nextTask) (htasks : a'.tasks = Function.update a.tasks t n)
    (hother : ∀ u, u ≠ s → a'.streams u = a.streams u ∧ a'.log u = a.log u ∧ a'.taken u = a.taken u)
    (hring : RingOk (a'.streams s) (a'.log s) (a'.taken s)) (hvol : (a'.streams s).volume.toNat ≤ 255)
    (hmaster : a'.masterVolume.toNat ≤ 255) (hnew : ∀ task, n = some task → task.resets = false ∧ a'.Budget task) :
    AudioInv a' := by
  have hapart : ∀ u task, u ≠ t → a.tasks u = some task → task.holds = true → task.stream ≠ s := fun u task hu htask hholds heq =>
    hu (h.locks.alone u t task old htask ht hholds hold (heq.trans hs.symm))
  refine ⟨hlocks, ?_, ?_, ?_, ?_, hmaster⟩
  · intro u
    by_cases hu : u = s
    · subst hu
      exact Or.inr hring
    · obtain ⟨hst, hl, htk⟩ := hother u hu
      rw [hst, hl, htk]
      refine (h.ring u).imp_left ?_
      rintro ⟨v, task, hv, hresets, hstream⟩
      have hne : v ≠ t := by
        rintro rfl
        obtain rfl := Option.some.inj (hv.symm.trans ht)
        exact hu (hstream.symm.trans hs)
      exact ⟨v, task, by rw [htasks, Function.update_of_ne hne, hv], hresets, hstream⟩
  · intro u v hu
    rw [htasks] at hu
    rcases update_some hu with ⟨-, hn⟩ | ⟨hne, hu⟩
    · exact absurd (hnew _ hn).1 (by simp [Task.resets])
    · rw [(hother v (hapart u _ hne hu rfl)).1]
      exact h.opening u v hu
  · intro u task hu
    rw [htasks] at hu
    rcases update_some hu with ⟨-, hn⟩ | ⟨hne, hu⟩
    · exact (hnew task hn).2
    · have hb := h.budget u task hu
      cases task with
      | write v samples written pc =>
        cases pc with
        | copy i n =>
          obtain ⟨-, hl, htk⟩ := hother v (hapart u _ hne hu rfl)
          show (a'.log v).length - a'.taken v + (n - i) ≤ AUDIO_BUFFER_SAMPLES
          rw [hl, htk]
          exact hb
        | acquire => trivial
        | head => trivial
      | opening => trivial
      | sounding => trivial
  · intro u
    by_cases hu : u = s
    · subst hu
      exact hvol
    · rw [(hother u hu).1]
      exact h.volume u

theorem AudioInv.write (h : AudioInv a) {samples : List Sample} {written : Nat} {pc : WritePc}
    (ht : a.tasks t = some (.write s samples written pc)) (hr : a.writeGoesOn t s samples written pc = some a') :
    AudioInv a' := by
  have hold : ∀ old, a.tasks t = some old → old.resets = false := by
    intro old hold
    obtain rfl := Option.some.inj (ht.symm.trans hold)
    rfl
  have hchange : ∀ f : AudioStream → AudioStream, (∀ st, (f st).buffer = st.buffer ∧ (f st).writePos = st.writePos ∧
      (f st).readPos = st.readPos ∧ (f st).volume = st.volume) → ∀ u, ((a.onStream s f).streams u).buffer = (a.streams u).buffer ∧
      ((a.onStream s f).streams u).writePos = (a.streams u).writePos ∧ ((a.onStream s f).streams u).readPos = (a.streams u).readPos ∧
      ((a.onStream s f).streams u).volume.toNat ≤ 255 := by
    intro f hf u
    by_cases hu : u = s
    · subst hu
      obtain ⟨hb, hw, hr, hv⟩ := hf (a.streams u)
      have hvol := h.volume u
      simp only [AudioState.onStream, Function.update_self]
      exact ⟨hb, hw, hr, hv ▸ hvol⟩
    · have hkeep : (a.onStream s f).streams u = a.streams u := Function.update_of_ne hu _ _
      rw [hkeep]
      exact ⟨rfl, rfl, rfl, h.volume u⟩
  cases pc with
  | acquire =>
    simp only [AudioState.writeGoesOn, Option.ite_none_left_eq_some, Bool.not_eq_true] at hr
    obtain ⟨hfree, hr⟩ := hr
    obtain rfl := Option.some.inj hr
    refine h.moves (t := t) ?_ rfl rfl rfl (hchange (fun st => { st with locked := true }) fun _ => ⟨rfl, rfl, rfl, rfl⟩)
      h.master hold ?_
    · show Locks (Function.update a.tasks t (some (.write s samples written .head)))
        (fun u => ((a.onStream s fun st => { st with locked := true }).streams u).locked) a.nextTask
      rw [locked_onStream]
      exact h.locks.acquires hfree (Nat.le_refl _) (h.locks.lt ht)
    · rintro task ⟨rfl⟩
      exact ⟨rfl, trivial⟩
  | head =>
    simp only [AudioState.writeGoesOn] at hr
    split at hr
    · split at hr
      · obtain rfl := Option.some.inj hr
        refine h.moves (t := t) ?_ rfl rfl rfl (hchange (fun st => { st with locked := false }) fun _ => ⟨rfl, rfl, rfl, rfl⟩)
          h.master hold ?_
        · show Locks (Function.update a.tasks t (some (.write s samples written .acquire)))
            (fun u => ((a.onStream s fun st => { st with locked := false }).streams u).locked) a.nextTask
          rw [locked_onStream]
          exact h.locks.releases ht rfl fun task htask => Option.some.inj htask ▸ rfl
        · rintro task ⟨rfl⟩
          exact ⟨rfl, trivial⟩
      · next hspace =>
        obtain rfl := Option.some.inj hr
        have hring := (h.ring s).resolve_left (h.locks.not_resetting ht rfl rfl)
        refine h.moves (t := t) ?_ rfl rfl rfl (fun u => ⟨rfl, rfl, rfl, h.volume u⟩) h.master hold ?_
        · exact h.locks.goesOn ht rfl fun _ => rfl
        · rintro task ⟨rfl⟩
          refine ⟨rfl, ?_⟩
          have havail := hring.avail
          have hroom := hring.room
          have hle : (a.streams s).avail ≤ UInt32.ofNat AUDIO_BUFFER_SAMPLES := by
            rw [UInt32.le_iff_toNat_le, havail]
            exact hroom
          have hfree : (UInt32.ofNat AUDIO_BUFFER_SAMPLES - (a.streams s).avail).toNat = AUDIO_BUFFER_SAMPLES - a.pending s := by
            rw [UInt32.toNat_sub_of_le _ _ hle, havail]
            rfl
          show a.pending s + (_ - 0) ≤ AUDIO_BUFFER_SAMPLES
          rw [hfree]
          unfold AudioState.pending at *
          split
          · omega
          · omega
    · obtain rfl := Option.some.inj hr
      refine h.moves (t := t) ?_ rfl rfl rfl (hchange (fun st =>
        { st with samplesRemaining := st.samplesRemaining + UInt32.ofNat samples.length, locked := false })
        fun _ => ⟨rfl, rfl, rfl, rfl⟩) h.master hold ?_
      · show Locks (Function.update a.tasks t none) (fun u => ((a.onStream s fun st =>
          { st with samplesRemaining := st.samplesRemaining + UInt32.ofNat samples.length, locked := false }).streams u).locked)
          a.nextTask
        rw [locked_onStream]
        exact h.locks.releases ht rfl fun task htask => absurd htask (by simp)
      · exact fun task htask => absurd htask (by simp)
  | copy i n =>
    simp only [AudioState.writeGoesOn] at hr
    split at hr
    · next hi =>
      obtain rfl := Option.some.inj hr
      have hring := (h.ring s).resolve_left (h.locks.not_resetting ht rfl rfl)
      have hbudget : a.pending s + (n - i) ≤ AUDIO_BUFFER_SAMPLES := h.budget t _ ht
      generalize scaled (samples.getD (written + i) 0).toInt (a.streams s).volume = x
      have hput := hring.put (by unfold AudioState.pending at hbudget; omega) ⟨t, written + i, x⟩
      refine h.owns (s := s) ht rfl rfl ?_ rfl ?_ ?_ ?_ h.master ?_
      · show Locks (Function.update a.tasks t (some (.write s samples written (.copy (i + 1) n))))
          (fun u => ((a.onStream s fun st => st.put x).streams u).locked) a.nextTask
        rw [locked_onStream, show ((a.streams s).put x).locked = (a.streams s).locked from rfl, Function.update_eq_self]
        exact h.locks.goesOn ht rfl fun _ => rfl
      · exact fun u hu => ⟨Function.update_of_ne hu _ _, Function.update_of_ne hu _ _, rfl⟩
      · simp only [AudioState.setTask, AudioState.record, AudioState.onStream, Function.update_self]
        exact hput
      · simp only [AudioState.setTask, AudioState.record, AudioState.onStream, Function.update_self]
        exact h.volume s
      · rintro task ⟨rfl⟩
        refine ⟨rfl, ?_⟩
        simp only [AudioState.Budget, AudioState.pending, AudioState.setTask, AudioState.record, AudioState.onStream,
          Function.update_self, List.length_append, List.length_singleton] at hbudget ⊢
        have hinside := hring.inside
        omega
    · obtain rfl := Option.some.inj hr
      refine h.moves (t := t) ?_ rfl rfl rfl (fun u => ⟨rfl, rfl, rfl, h.volume u⟩) h.master hold ?_
      · exact h.locks.goesOn ht rfl fun _ => rfl
      · rintro task ⟨rfl⟩
        exact ⟨rfl, trivial⟩

theorem AudioInv.opens (h : AudioInv a) (ht : a.tasks t = some (.opening s)) : AudioInv (a.openGoesOn t s) := by
  refine h.owns (s := s) ht rfl rfl ?_ rfl ?_ ?_ ?_ h.master fun task htask => absurd htask (by simp)
  · show Locks (Function.update a.tasks t none) (fun u => ((a.onStream s fun st =>
      { st with readPos := 0, active := true, oneShot := false, samplesRemaining := 0, locked := false }).streams u).locked)
      a.nextTask
    rw [locked_onStream]
    exact h.locks.releases ht rfl fun task htask => absurd htask (by simp)
  · exact fun u hu => ⟨Function.update_of_ne hu _ _, rfl, Function.update_of_ne hu _ _⟩
  · simp only [AudioState.openGoesOn, AudioState.forget, AudioState.setTask, AudioState.onStream, Function.update_self]
    exact RingOk.empty (h.opening t s ht)
  · simp only [AudioState.openGoesOn, AudioState.forget, AudioState.setTask, AudioState.onStream, Function.update_self]
    exact h.volume s

/-- The ring that `audio_play_system_sound` fills from its first cell on. -/
theorem ringOk_sound {st : AudioStream} {log : List Entry} {samples : List Sample} {n : Nat} (hn : n ≤ AUDIO_BUFFER_SAMPLES)
    (hbuf : ∀ i < n, st.buffer i = samples.getD i 0) (hw : st.writePos = UInt32.ofNat n)
    (hr : st.readPos = 0) (t : Nat) :
    RingOk st (log ++ (List.range n).map fun i => ⟨t, i, samples.getD i 0⟩) log.length := by
  have hlen : (log ++ (List.range n).map fun i => (⟨t, i, samples.getD i 0⟩ : Entry)).length - log.length = n := by
    rw [List.length_append, List.length_map, List.length_range, Nat.add_sub_cancel_left]
  refine ⟨by rw [List.length_append]; omega, by rw [hlen]; exact hn, ?_, ?_⟩
  · rw [hlen, hw, hr, UInt32.zero_add]
  · rw [hlen, List.drop_left, List.map_map, hr, ringList]
    refine List.map_congr_left fun i hi => ?_
    have hlt := List.mem_range.mp hi
    have hcell : ((0 : UInt32).toNat % AUDIO_BUFFER_SAMPLES + i) % AUDIO_BUFFER_SAMPLES = i := by
      show (0 + i) % AUDIO_BUFFER_SAMPLES = i
      rw [Nat.zero_add, Nat.mod_eq_of_lt (Nat.lt_of_lt_of_le hlt hn)]
    rw [hcell]
    exact hbuf i hlt

theorem AudioInv.sounds (h : AudioInv a) {samples : List Sample} (ht : a.tasks t = some (.sounding samples)) :
    AudioInv (a.soundGoesOn t samples) := by
  refine h.owns (s := AUDIO_STREAM_SYSTEM) ht rfl rfl ?_ rfl ?_ ?_ ?_ h.master fun task htask => absurd htask (by simp)
  · show Locks (Function.update a.tasks t none) (fun u => ((a.onStream AUDIO_STREAM_SYSTEM fun st =>
      { st with
        readPos := 0
        active := true
        oneShot := true
        samplesRemaining := UInt32.ofNat samples.length
        buffer := fun i => if i < min samples.length AUDIO_BUFFER_SAMPLES then samples.getD i 0 else st.buffer i
        writePos := UInt32.ofNat (min samples.length AUDIO_BUFFER_SAMPLES)
        locked := false }).streams u).locked) a.nextTask
    rw [locked_onStream]
    exact h.locks.releases ht rfl fun task htask => absurd htask (by simp)
  · intro u hu
    exact ⟨Function.update_of_ne hu _ _, Function.update_of_ne hu _ _, Function.update_of_ne hu _ _⟩
  · simp only [AudioState.soundGoesOn, AudioState.forget, AudioState.record, AudioState.setTask, AudioState.onStream,
      Function.update_self]
    exact ringOk_sound (Nat.min_le_right _ _) (fun i hi => if_pos hi) rfl rfl t
  · simp only [AudioState.soundGoesOn, AudioState.forget, AudioState.record, AudioState.setTask, AudioState.onStream,
      Function.update_self]
    exact h.volume AUDIO_STREAM_SYSTEM

theorem mixPeriod_streams (a : AudioState) : a.audioMixPeriod.streams = fun s => periodOf (a.streams s) := by
  show (AudioState.mixStreams a.streams (fun _ => 0) (List.finRange 7)).1 = _
  rw [mixStreams_fst _ _ (List.nodup_finRange 7)]
  funext s
  rw [if_pos (List.mem_finRange s)]

theorem AudioInv.mixes (h : AudioInv a) : AudioInv a.audioMixPeriod := by
  have hstreams := mixPeriod_streams a
  refine ⟨?_, ?_, ?_, ?_, ?_, h.master⟩
  · rw [hstreams]
    simp only [(periodOf_keeps _).2.2]
    exact h.locks
  · intro s
    rw [hstreams]
    exact (h.ring s).imp_right RingOk.periodOf
  · intro u s hu
    rw [hstreams]
    exact (periodOf_keeps _).1.trans (h.opening u s hu)
  · intro u task hu
    have hb := h.budget u task hu
    cases task with
    | write v samples written pc =>
      cases pc with
      | copy i n =>
        have hb : (a.log v).length - a.taken v + (n - i) ≤ AUDIO_BUFFER_SAMPLES := hb
        show (a.log v).length - (a.taken v + (a.streams v).takes) + (n - i) ≤ AUDIO_BUFFER_SAMPLES
        omega
      | acquire => trivial
      | head => trivial
    | opening => trivial
    | sounding => trivial
  · intro s
    rw [hstreams]
    simp only [(periodOf_keeps _).2.1]
    exact h.volume s

/-- **Every step keeps the invariant.** -/
theorem AudioInv.step (h : AudioInv a) {op : AudioOp} (hs : audioStep a op = some a') : AudioInv a' := by
  have hnone : a.tasks a.nextTask = none := h.locks.fresh _ (Nat.le_refl _)
  cases op with
  | openStream s => exact h.reset (.opening s) rfl rfl hs
  | write s samples =>
    simp only [audioStep, Option.ite_none_right_eq_some] at hs
    obtain ⟨-, hs⟩ := hs
    split at hs
    · obtain rfl := Option.some.inj hs
      refine h.moves (t := a.nextTask) (n := some (.write s samples 0 .acquire)) ?_ rfl rfl rfl
        (fun u => ⟨rfl, rfl, rfl, h.volume u⟩) h.master (fun old hold => absurd (hnone.symm.trans hold) (by simp)) ?_
      · exact h.locks.begins rfl
      · rintro task ⟨rfl⟩
        exact ⟨rfl, trivial⟩
    · obtain rfl := Option.some.inj hs
      exact h
  | goOn t =>
    simp only [audioStep] at hs
    split at hs
    · exact absurd hs (by simp)
    · next s samples written pc ht => exact h.write ht hs
    · next s ht => exact Option.some.inj hs ▸ h.opens ht
    · next samples ht => exact Option.some.inj hs ▸ h.sounds ht
  | close s =>
    simp only [audioStep, Option.ite_none_left_eq_some] at hs
    obtain rfl := Option.some.inj hs.2
    exact h.adjusts (fun _ => ⟨rfl, rfl, rfl, rfl⟩) (h.volume s)
  | streamVolume s volume =>
    obtain rfl := Option.some.inj hs
    refine h.adjusts (fun _ => ⟨rfl, rfl, rfl, rfl⟩) ?_
    show (if volume.toNat > 255 then (255 : UInt32) else volume).toNat ≤ 255
    split
    · decide
    · omega
  | masterVolume volume =>
    obtain rfl := Option.some.inj hs
    refine ⟨h.locks, h.ring, h.opening, h.budget, h.volume, ?_⟩
    show (if volume.toNat > 255 then (255 : UInt32) else volume).toNat ≤ 255
    split
    · decide
    · omega
  | systemSound samples =>
    simp only [audioStep, Option.ite_none_right_eq_some] at hs
    exact h.reset (.sounding samples) rfl rfl hs.2
  | callRoute route =>
    obtain rfl := Option.some.inj hs
    exact ⟨h.locks, h.ring, h.opening, h.budget, h.volume, h.master⟩
  | startCall =>
    obtain rfl := Option.some.inj hs
    have hset := h.adjusts (s := AUDIO_STREAM_MEDIA) (f := fun st => { st with volume := 64 }) (fun _ => ⟨rfl, rfl, rfl, rfl⟩)
      (show (64 : UInt32).toNat ≤ 255 by decide)
    exact ⟨hset.locks, hset.ring, hset.opening, hset.budget, hset.volume, hset.master⟩
  | endCall =>
    obtain rfl := Option.some.inj hs
    have hset := h.adjusts (s := AUDIO_STREAM_MEDIA) (f := fun st => { st with volume := 255 }) (fun _ => ⟨rfl, rfl, rfl, rfl⟩)
      (show (255 : UInt32).toNat ≤ 255 by decide)
    exact ⟨hset.locks, hset.ring, hset.opening, hset.budget, hset.volume, hset.master⟩
  | irq =>
    obtain rfl := Option.some.inj hs
    exact h.mixes

end Steps

/-! ## What an interrupt plays -/

/-- What a stream plays next: the first samples of a period that are stored and not taken, if it is active. -/
def AudioState.nexts (a : AudioState) (s : Fin 7) : List Sample := nextOf (a.streams s).active (a.log s) (a.taken s)

/-- The word for a place of the period: the sum over the streams by the master volume, limited. -/
def AudioState.word (a : AudioState) (i : Nat) : BitVec 32 :=
  let sum := ((List.finRange 7).map fun s => ((a.nexts s).getD i 0).toInt).sum
  (BitVec.ofInt 16 (max (-32768) (min 32767 ((sum * a.masterVolume.toNat).tdiv 255)))).signExtend 32

/-- The second step of a reset of the stream -/
def EndsReset (a : AudioState) (s : Fin 7) : AudioOp → Prop
  | .goOn t => ∃ task, a.tasks t = some task ∧ task.resets = true ∧ task.stream = s
  | _ => False

/-- An interrupt plays what the streams have next, and takes it off them. Nothing else plays, and of what is
    stored nothing is changed, and nothing but a reset gives it up. -/
def PlaysNext (a : AudioState) : AudioOp → AudioState → Prop
  | .irq, a' =>
    (∀ s, Resetting a.tasks s → (a.streams s).active = false) →
      a'.fifo = a.fifo ++ (List.range AUDIO_PERIOD_SIZE).flatMap (fun i => [a.word i, a.word i]) ∧
        ∀ s, a'.log s = a.log s ∧ a'.taken s = a.taken s + (a.nexts s).length
  | op, a' => a'.fifo = a.fifo ∧ ∀ s, a.log s <+: a'.log s ∧ (¬EndsReset a s op → a'.taken s = a.taken s)

section Plays

variable {a a' : AudioState} {s : Fin 7}

theorem sum_samples_le (f : Fin 7 → Sample) : |((List.finRange 7).map fun s => (f s).toInt).sum| ≤ 2 ^ 18 := by
  have hb (s : Fin 7) := sample_bounds (f s)
  have h0 := hb 0
  have h1 := hb 1
  have h2 := hb 2
  have h3 := hb 3
  have h4 := hb 4
  have h5 := hb 5
  have h6 := hb 6
  have hlist : List.finRange 7 = [0, 1, 2, 3, 4, 5, 6] := rfl
  rw [hlist, abs_le]
  simp only [List.map_cons, List.map_nil, List.sum_cons, List.sum_nil]
  omega

/-- **A period is the sum of what the streams have next.** -/
theorem AudioInv.plays (h : AudioInv a) (hq : ∀ s, Resetting a.tasks s → (a.streams s).active = false) :
    a.audioMixPeriod.fifo = a.fifo ++ (List.range AUDIO_PERIOD_SIZE).flatMap fun i => [a.word i, a.word i] := by
  have hrings : ∀ s ∈ List.finRange 7, (a.streams s).active = true → RingOk (a.streams s) (a.log s) (a.taken s) := by
    intro s _ hact
    refine (h.ring s).resolve_left fun hres => ?_
    rw [hq s hres] at hact
    exact absurd hact (by simp)
  have hsums := mixStreams_snd hrings (List.nodup_finRange 7) (m := fun _ => 0) (k := 0) (by decide) (by simp)
  have hword : ∀ i, (scaled ((AudioState.mixStreams a.streams (fun _ => 0) (List.finRange 7)).2 i) a.masterVolume).signExtend 32 =
      a.word i := by
    intro i
    have hle := sum_samples_le fun s => (nextOf (a.streams s).active (a.log s) (a.taken s)).getD i 0
    rw [hsums]
    simp only [Int.zero_add]
    rw [scaled_eq (le_trans hle (by decide)) h.master]
    rfl
  show a.fifo ++ (List.range AUDIO_PERIOD_SIZE).flatMap (fun i => _) = _
  simp only [hword]

theorem prefix_update {log : Fin 7 → List Entry} (s : Fin 7) (entries : List Entry) (u : Fin 7) :
    log u <+: Function.update log s (log s ++ entries) u := by
  by_cases hu : u = s
  · subst hu
    rw [Function.update_self]
    exact List.prefix_append _ _
  · exact (Function.update_of_ne hu _ _).symm ▸ List.prefix_refl _

theorem writeGoesOn_record {t : Nat} {samples : List Sample} {written : Nat} {pc : WritePc}
    (hr : a.writeGoesOn t s samples written pc = some a') :
    a'.fifo = a.fifo ∧ a'.taken = a.taken ∧ ∀ u, a.log u <+: a'.log u := by
  cases pc with
  | acquire =>
    simp only [AudioState.writeGoesOn, Option.ite_none_left_eq_some] at hr
    obtain rfl := Option.some.inj hr.2
    exact ⟨rfl, rfl, fun _ => List.prefix_refl _⟩
  | head =>
    simp only [AudioState.writeGoesOn] at hr
    split at hr
    · split at hr
      · obtain rfl := Option.some.inj hr
        exact ⟨rfl, rfl, fun _ => List.prefix_refl _⟩
      · obtain rfl := Option.some.inj hr
        exact ⟨rfl, rfl, fun _ => List.prefix_refl _⟩
    · obtain rfl := Option.some.inj hr
      exact ⟨rfl, rfl, fun _ => List.prefix_refl _⟩
  | copy i n =>
    simp only [AudioState.writeGoesOn] at hr
    split at hr
    · obtain rfl := Option.some.inj hr
      exact ⟨rfl, rfl, fun u => prefix_update s _ u⟩
    · obtain rfl := Option.some.inj hr
      exact ⟨rfl, rfl, fun _ => List.prefix_refl _⟩

theorem AudioInv.playsNext (h : AudioInv a) {op : AudioOp} (hs : audioStep a op = some a') : PlaysNext a op a' := by
  have hnothing {b : AudioState} {op : AudioOp} (hf : b.fifo = a.fifo) (hl : b.log = a.log) (ht : b.taken = a.taken) :
      b.fifo = a.fifo ∧ ∀ s, a.log s <+: b.log s ∧ (¬EndsReset a s op → b.taken s = a.taken s) :=
    ⟨hf, fun s => ⟨hl ▸ List.prefix_refl _, fun _ => ht ▸ rfl⟩⟩
  have hreset {s : Fin 7} {task : Task} (hr : a.reset s task = some a') :
      a'.fifo = a.fifo ∧ a'.log = a.log ∧ a'.taken = a.taken := by
    simp only [AudioState.reset, Option.ite_none_left_eq_some] at hr
    obtain rfl := Option.some.inj hr.2
    exact ⟨rfl, rfl, rfl⟩
  cases op with
  | openStream s =>
    obtain ⟨hf, hl, ht⟩ := hreset hs
    exact hnothing hf hl ht
  | write s samples =>
    simp only [audioStep, Option.ite_none_right_eq_some] at hs
    obtain ⟨-, hs⟩ := hs
    split at hs
    · obtain rfl := Option.some.inj hs
      exact hnothing rfl rfl rfl
    · obtain rfl := Option.some.inj hs
      exact hnothing rfl rfl rfl
  | goOn t =>
    simp only [audioStep] at hs
    split at hs
    · exact absurd hs (by simp)
    · obtain ⟨hf, ht, hl⟩ := writeGoesOn_record hs
      exact ⟨hf, fun s => ⟨hl s, fun _ => ht ▸ rfl⟩⟩
    · next s ht =>
      obtain rfl := Option.some.inj hs
      refine ⟨rfl, fun u => ⟨List.prefix_refl _, fun hno => ?_⟩⟩
      exact Function.update_of_ne (fun hu : u = s => hno ⟨_, ht, rfl, hu.symm⟩) _ _
    · next samples ht =>
      obtain rfl := Option.some.inj hs
      refine ⟨rfl, fun u => ⟨prefix_update AUDIO_STREAM_SYSTEM _ u, fun hno => ?_⟩⟩
      exact Function.update_of_ne (fun hu : u = AUDIO_STREAM_SYSTEM => hno ⟨_, ht, rfl, hu.symm⟩) _ _
  | close s =>
    simp only [audioStep, Option.ite_none_left_eq_some] at hs
    obtain rfl := Option.some.inj hs.2
    exact hnothing rfl rfl rfl
  | streamVolume s volume => exact Option.some.inj hs ▸ hnothing rfl rfl rfl
  | masterVolume volume => exact Option.some.inj hs ▸ hnothing rfl rfl rfl
  | systemSound samples =>
    simp only [audioStep, Option.ite_none_right_eq_some] at hs
    obtain ⟨hf, hl, ht⟩ := hreset hs.2
    exact hnothing hf hl ht
  | callRoute route => exact Option.some.inj hs ▸ hnothing rfl rfl rfl
  | startCall => exact Option.some.inj hs ▸ hnothing rfl rfl rfl
  | endCall => exact Option.some.inj hs ▸ hnothing rfl rfl rfl
  | irq =>
    obtain rfl := Option.some.inj hs
    intro hq
    refine ⟨h.plays hq, fun s => ⟨rfl, ?_⟩⟩
    show a.taken s + (a.streams s).takes = a.taken s + (a.nexts s).length
    rcases h.ring s with hres | hring
    · have hidle := hq s hres
      unfold AudioState.nexts nextOf AudioStream.takes
      rw [hidle]
      rfl
    · rw [hring.takes]
      rfl

/-- **Mixing is exact.** Along every run an interrupt plays, place for place, the limited sum of the next 1024
    samples of every active stream, and takes just these off them; unless it falls into a reset of an active stream. -/
theorem audio_mix_exact (ops : List AudioOp) : AlwaysStep audioStep PlaysNext audioInit ops := by
  have halways : Always audioStep AudioInv audioInit ops := always_of_step (fun _ _ _ h hs => h.step hs) audioInv_init
  exact alwaysStep_of_always (fun _ _ _ h _ hs => h.playsNext hs) halways meets_true

end Plays

end Crimson.Audio
