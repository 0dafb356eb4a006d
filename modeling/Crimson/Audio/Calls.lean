import Crimson.Audio.Playback

/-!
# Calls and sounds

What becomes of one call. The samples given to `audio_write` get into their stream in their order, each once,
scaled by a volume that the stream had at that moment, and the call returns their number when all are in
(`audio_writes_in_order`), whatever other calls, interrupts and resets take their steps in between.
`audio_play_system_sound` stores at most 4096 samples but waits for all it was given to be played: the
stream ends by itself if and only if the sound fits and is not empty (`sound_ends_iff`).
-/

set_option autoImplicit false

namespace Crimson.Audio

open Crimson.Lib

/-! ## Calls -/

/-- What a task stored in a stream. -/
def storedBy (log : Fin 7 → List Entry) (t : Nat) (s : Fin 7) : List Entry := (log s).filter fun e => e.task == t

/-- The task stored the first `n` samples in this stream, in order and each once, scaled by some volume, and
    nothing in another. -/
structure StoredIn (log : Fin 7 → List Entry) (t : Nat) (s : Fin 7) (samples : List Sample) (n : Nat) : Prop where
  order : (storedBy log t s).map Entry.index = List.range n
  value : ∀ e ∈ storedBy log t s, ∃ v : UInt32, v.toNat ≤ 255 ∧ e.value = scaled (samples.getD e.index 0).toInt v
  elsewhere : ∀ u, u ≠ s → storedBy log t u = []

/-- The samples of the inner loop that are stored -/
def WritePc.stored : WritePc → Nat
  | .copy i _ => i
  | _ => 0

/-- The samples of the inner loop -/
def WritePc.planned : WritePc → Nat
  | .copy _ n => n
  | _ => 0

/-- How far a call has got. -/
def CallOk (log : Fin 7 → List Entry) (t : Nat) : Task → Prop
  | .write s samples written pc => pc.stored ≤ pc.planned ∧ written + pc.planned ≤ samples.length ∧
      StoredIn log t s samples (written + pc.stored)
  | _ => True

/-- Every call stored what it says, and a call that returned stored all. -/
structure InOrder (a : AudioState) : Prop where
  fresh : ∀ t, a.nextTask ≤ t → a.returned t = none ∧ ∀ s, storedBy a.log t s = []
  running : ∀ t task, a.tasks t = some task → CallOk a.log t task
  returned : ∀ t s samples n, a.returned t = some (s, samples, n) →
    a.tasks t = none ∧ n = samples.length ∧ StoredIn a.log t s samples n

theorem inOrder_init : InOrder audioInit :=
  ⟨fun _ _ => ⟨rfl, fun _ => rfl⟩, fun _ _ h => absurd h (by simp [audioInit]), fun _ _ _ _ h => absurd h (by simp [audioInit])⟩

section Order

variable {a a' : AudioState} {t : Nat} {s : Fin 7} {new : Option Task}

/-- A step that stores nothing. -/
theorem InOrder.moves (h : InOrder a) (hlog : a'.log = a.log) (hret : a'.returned = a.returned) (hnext : a.nextTask ≤ a'.nextTask)
    (ht : t < a'.nextTask) (hnone : a.returned t = none) (htasks : a'.tasks = Function.update a.tasks t new)
    (hnew : ∀ task, new = some task → CallOk a.log t task) : InOrder a' := by
  refine ⟨?_, ?_, ?_⟩
  · intro u hu
    rw [hret, hlog]
    exact h.fresh u (Nat.le_trans hnext hu)
  · intro u task hu
    rw [hlog]
    rw [htasks] at hu
    rcases update_some hu with ⟨rfl, hn⟩ | ⟨-, hu⟩
    · exact hnew task hn
    · exact h.running u task hu
  · intro u v samples n hu
    rw [hret] at hu
    rw [hlog, htasks]
    obtain ⟨htask, hn, hst⟩ := h.returned u v samples n hu
    have hne : u ≠ t := by
      rintro rfl
      rw [hnone] at hu
      exact absurd hu (by simp)
    exact ⟨by rw [Function.update_of_ne hne, htask], hn, hst⟩

theorem InOrder.live (h : InOrder a) {task : Task} (ht : a.tasks t = some task) : a.returned t = none := by
  cases hr : a.returned t with
  | none => rfl
  | some r =>
    obtain ⟨s, samples, n⟩ := r
    exact absurd ((h.returned t s samples n hr).1.symm.trans ht) (by simp)

theorem CallOk.congr {log log' : Fin 7 → List Entry} {task : Task} (h : CallOk log t task)
    (hsame : storedBy log' t = storedBy log t) : CallOk log' t task := by
  cases task with
  | write s samples written pc =>
    obtain ⟨h1, h2, h3⟩ := h
    exact ⟨h1, h2, by rw [hsame]; exact h3.order, by rw [hsame]; exact h3.value, by rw [hsame]; exact h3.elsewhere⟩
  | opening => trivial
  | sounding => trivial

/-- What another task stored is not changed by a record. -/
theorem storedBy_record {log : Fin 7 → List Entry} {entries : List Entry} {u : Nat} (hu : u ≠ t) (he : ∀ e ∈ entries, e.task = t) :
    storedBy (Function.update log s (log s ++ entries)) u = storedBy log u := by
  funext v
  unfold storedBy
  by_cases hv : v = s
  · subst hv
    have hnone : (entries.filter fun e => e.task == u) = [] := by
      refine List.filter_eq_nil_iff.mpr fun e hmem => ?_
      rw [he e hmem]
      simpa using Ne.symm hu
    rw [Function.update_self, List.filter_append, hnone, List.append_nil]
  · rw [Function.update_of_ne hv]

/-- A step of a task that stores samples of its own. -/
theorem InOrder.stores (h : InOrder a) {old : Task} {entries : List Entry} (ht : a.tasks t = some old) (hlt : t < a.nextTask)
    (he : ∀ e ∈ entries, e.task = t) (hlog : a'.log = Function.update a.log s (a.log s ++ entries))
    (hret : a'.returned = a.returned) (hnext : a'.nextTask = a.nextTask) (htasks : a'.tasks = Function.update a.tasks t new)
    (hnew : ∀ task, new = some task → CallOk a'.log t task) : InOrder a' := by
  have hother : ∀ u, u ≠ t → storedBy a'.log u = storedBy a.log u := by
    intro u hu
    rw [hlog]
    exact storedBy_record hu he
  refine ⟨?_, ?_, ?_⟩
  · intro u hu
    rw [hnext] at hu
    rw [hret, hother u (by omega)]
    exact h.fresh u hu
  · intro u task hu
    rw [htasks] at hu
    rcases update_some hu with ⟨rfl, hn⟩ | ⟨hne, hu⟩
    · exact hnew task hn
    · exact (h.running u task hu).congr (hother u hne)
  · intro u v samples n hu
    rw [hret] at hu
    obtain ⟨htask, hn, hst⟩ := h.returned u v samples n hu
    have hne : u ≠ t := by
      rintro rfl
      exact absurd (htask.symm.trans ht) (by simp)
    have hsame := hother u hne
    exact ⟨by rw [htasks, Function.update_of_ne hne, htask], hn, by rw [hsame]; exact hst.order, by rw [hsame]; exact hst.value,
      by rw [hsame]; exact hst.elsewhere⟩

/-- The next sample of a call, stored behind the others. -/
theorem StoredIn.snoc {log : Fin 7 → List Entry} {samples : List Sample} {n : Nat} {v : UInt32} (h : StoredIn log t s samples n)
    (hv : v.toNat ≤ 255) :
    StoredIn (Function.update log s (log s ++ [⟨t, n, scaled (samples.getD n 0).toInt v⟩])) t s samples (n + 1) := by
  have hself : storedBy (Function.update log s (log s ++ [⟨t, n, scaled (samples.getD n 0).toInt v⟩])) t s =
      storedBy log t s ++ [⟨t, n, scaled (samples.getD n 0).toInt v⟩] := by
    unfold storedBy
    rw [Function.update_self, List.filter_append]
    simp
  refine ⟨?_, ?_, ?_⟩
  · rw [hself, List.map_append, h.order, List.range_succ]
    rfl
  · intro e he
    rw [hself] at he
    rcases List.mem_append.mp he with he | he
    · exact h.value e he
    · obtain rfl := List.mem_singleton.mp he
      exact ⟨v, hv, rfl⟩
  · intro u hu
    have hsame := h.elsewhere u hu
    unfold storedBy at *
    rwa [Function.update_of_ne hu]

theorem InOrder.write (h : InOrder a) (hinv : AudioInv a) {samples : List Sample} {written : Nat} {pc : WritePc}
    (ht : a.tasks t = some (.write s samples written pc)) (hr : a.writeGoesOn t s samples written pc = some a') : InOrder a' := by
  have hlt := hinv.locks.lt ht
  have hlive := h.live ht
  obtain ⟨hle, hfits, hstored⟩ := h.running t _ ht
  cases pc with
  | acquire =>
    simp only [AudioState.writeGoesOn, Option.ite_none_left_eq_some] at hr
    obtain rfl := Option.some.inj hr.2
    refine h.moves (t := t) rfl rfl (Nat.le_refl _) hlt hlive rfl ?_
    rintro task ⟨rfl⟩
    exact ⟨hle, hfits, hstored⟩
  | head =>
    simp only [AudioState.writeGoesOn] at hr
    split at hr
    · split at hr
      · obtain rfl := Option.some.inj hr
        refine h.moves (t := t) rfl rfl (Nat.le_refl _) hlt hlive rfl ?_
        rintro task ⟨rfl⟩
        exact ⟨hle, hfits, hstored⟩
      · obtain rfl := Option.some.inj hr
        refine h.moves (t := t) rfl rfl (Nat.le_refl _) hlt hlive rfl ?_
        rintro task ⟨rfl⟩
        refine ⟨Nat.zero_le _, ?_, hstored⟩
        show written + (if _ then _ else _) ≤ samples.length
        split
        · omega
        · omega
    · next hdone =>
      obtain rfl := Option.some.inj hr
      have hall : written = samples.length := by
        have hfits : written + 0 ≤ samples.length := hfits
        omega
      refine ⟨?_, ?_, ?_⟩
      · intro u hu
        have hu : a.nextTask ≤ u := hu
        have hne : u ≠ t := by omega
        have hold := h.fresh u hu
        exact ⟨(Function.update_of_ne hne _ _).trans hold.1, hold.2⟩
      · intro u task hu
        rcases update_some hu with ⟨-, hn⟩ | ⟨-, hu⟩
        · exact absurd hn (by simp)
        · exact h.running u task hu
      · intro u v samples' n hu
        by_cases hne : u = t
        · subst hne
          have hu : Function.update a.returned u (some (s, samples, written)) u = some (v, samples', n) := hu
          rw [Function.update_self] at hu
          obtain ⟨rfl, rfl, rfl⟩ : s = v ∧ samples = samples' ∧ written = n := by simpa using hu
          exact ⟨Function.update_self .., hall, hstored⟩
        · have hu : Function.update a.returned t (some (s, samples, written)) u = some (v, samples', n) := hu
          rw [Function.update_of_ne hne] at hu
          obtain ⟨htask, hn, hst⟩ := h.returned u v samples' n hu
          exact ⟨(Function.update_of_ne hne _ _).trans htask, hn, hst⟩
  | copy i n =>
    simp only [AudioState.writeGoesOn] at hr
    split at hr
    · next hi =>
      obtain rfl := Option.some.inj hr
      refine h.stores (s := s) ht hlt (fun e he => List.mem_singleton.mp he ▸ rfl) rfl rfl rfl rfl ?_
      rintro task ⟨rfl⟩
      exact ⟨hi, hfits, hstored.snoc (hinv.volume s)⟩
    · next hi =>
      obtain rfl := Option.some.inj hr
      have hend : i = n := Nat.le_antisymm hle (Nat.le_of_not_lt hi)
      refine h.moves (t := t) rfl rfl (Nat.le_refl _) hlt hlive rfl ?_
      rintro task ⟨rfl⟩
      exact ⟨Nat.le_refl _, hfits, hend ▸ hstored⟩

theorem InOrder.step (h : InOrder a) (hinv : AudioInv a) {op : AudioOp} (hs : audioStep a op = some a') : InOrder a' := by
  have hfresh := h.fresh a.nextTask (Nat.le_refl _)
  have hreset {s : Fin 7} {task : Task} (hr : a.reset s task = some a') (htask : CallOk a.log a.nextTask task) : InOrder a' := by
    simp only [AudioState.reset, Option.ite_none_left_eq_some] at hr
    obtain rfl := Option.some.inj hr.2
    refine h.moves (t := a.nextTask) rfl rfl (Nat.le_succ _) (Nat.lt_succ_self _) hfresh.1 rfl ?_
    rintro task' ⟨rfl⟩
    exact htask
  have hsame {b : AudioState} (hl : b.log = a.log) (hr : b.returned = a.returned) (hn : b.nextTask = a.nextTask)
      (ht : b.tasks = a.tasks) : InOrder b := by
    refine ⟨?_, ?_, ?_⟩
    · rw [hr, hn, hl]
      exact h.fresh
    · rw [ht, hl]
      exact h.running
    · rw [hr, ht, hl]
      exact h.returned
  cases op with
  | openStream s => exact hreset hs trivial
  | write s samples =>
    simp only [audioStep, Option.ite_none_right_eq_some] at hs
    obtain ⟨-, hs⟩ := hs
    split at hs
    · obtain rfl := Option.some.inj hs
      refine h.moves (t := a.nextTask) rfl rfl (Nat.le_succ _) (Nat.lt_succ_self _) hfresh.1 rfl ?_
      rintro task ⟨rfl⟩
      refine ⟨Nat.le_refl _, Nat.zero_le _, ?_, ?_, fun u _ => hfresh.2 u⟩
      · rw [hfresh.2 s]
        rfl
      · rw [hfresh.2 s]
        exact fun e he => absurd he List.not_mem_nil
    · obtain rfl := Option.some.inj hs
      exact h
  | goOn t =>
    simp only [audioStep] at hs
    split at hs
    · exact absurd hs (by simp)
    · next s samples written pc ht => exact h.write hinv ht hs
    · next s ht =>
      obtain rfl := Option.some.inj hs
      exact h.moves (t := t) rfl rfl (Nat.le_refl _) (hinv.locks.lt ht) (h.live ht) rfl fun task htask => absurd htask (by simp)
    · next samples ht =>
      obtain rfl := Option.some.inj hs
      refine h.stores (s := AUDIO_STREAM_SYSTEM) ht (hinv.locks.lt ht) ?_ rfl rfl rfl rfl fun task htask => absurd htask (by simp)
      intro e he
      obtain ⟨i, -, rfl⟩ := List.mem_map.mp he
      rfl
  | close s =>
    simp only [audioStep, Option.ite_none_left_eq_some] at hs
    obtain rfl := Option.some.inj hs.2
    exact hsame rfl rfl rfl rfl
  | streamVolume s volume => exact Option.some.inj hs ▸ hsame rfl rfl rfl rfl
  | masterVolume volume => exact Option.some.inj hs ▸ hsame rfl rfl rfl rfl
  | systemSound samples =>
    simp only [audioStep, Option.ite_none_right_eq_some] at hs
    exact hreset hs.2 trivial
  | callRoute route => exact Option.some.inj hs ▸ hsame rfl rfl rfl rfl
  | startCall => exact Option.some.inj hs ▸ hsame rfl rfl rfl rfl
  | endCall => exact Option.some.inj hs ▸ hsame rfl rfl rfl rfl
  | irq => exact Option.some.inj hs ▸ hsame rfl rfl rfl rfl

/-- **No sample is lost, doubled or moved** on its way into a stream: in every state of every run each call has
    stored a prefix of its samples, in order and each once, and a call that returned has stored all of them and
    returned their number. -/
theorem audio_writes_in_order (ops : List AudioOp) : Always audioStep InOrder audioInit ops := by
  have halways : Always audioStep (fun a => AudioInv a ∧ InOrder a) audioInit ops :=
    always_of_step (fun _ _ _ h hs => ⟨h.1.step hs, h.2.step h.1 hs⟩) ⟨audioInv_init, inOrder_init⟩
  exact halways.mono fun _ h => h.2

end Order

/-! ## Sounds -/

/-- A step that leaves the system stream to the mixer -/
def Elsewhere (a : AudioState) : AudioOp → Prop
  | .openStream s => s ≠ AUDIO_STREAM_SYSTEM
  | .close s => s ≠ AUDIO_STREAM_SYSTEM
  | .systemSound _ => False
  | .goOn t => ∀ task, a.tasks t = some task → task.stream ≠ AUDIO_STREAM_SYSTEM
  | _ => True

def AudioOp.isIrq : AudioOp → Bool
  | .irq => true
  | _ => false

/-- How much of a sound of `n` samples is played after `k` periods. -/
def soundPlayed (n k : Nat) : Nat := min (AUDIO_PERIOD_SIZE * k) (min n AUDIO_BUFFER_SAMPLES)

/-- A sound of `n` samples has ended after `k` periods. -/
def SoundOver (n k : Nat) : Prop := 1 ≤ n ∧ n ≤ AUDIO_BUFFER_SAMPLES ∧ n ≤ AUDIO_PERIOD_SIZE * k

/-- A one-shot stream, `k` periods into a sound of `n` samples -/
structure SoundAt (n k : Nat) (st : AudioStream) : Prop where
  write : st.writePos = UInt32.ofNat (min n AUDIO_BUFFER_SAMPLES)
  read : st.readPos = UInt32.ofNat (soundPlayed n k)
  oneShot : st.oneShot = true
  remaining : st.samplesRemaining = UInt32.ofNat (n - soundPlayed n k)
  active : st.active = false ↔ SoundOver n k

section Sound

variable {st : AudioStream} {n k : Nat}

theorem soundPlayed_le : soundPlayed n k ≤ n := Nat.le_trans (Nat.min_le_right _ _) (Nat.min_le_left _ _)

theorem soundPlayed_over (h : SoundOver n k) : soundPlayed n (k + 1) = soundPlayed n k := by
  obtain ⟨-, hfits, hlong⟩ := h
  unfold soundPlayed AUDIO_PERIOD_SIZE AUDIO_BUFFER_SAMPLES at *
  omega

theorem SoundAt.avail (h : SoundAt n k st) : st.avail.toNat = min n AUDIO_BUFFER_SAMPLES - soundPlayed n k := by
  have hle : soundPlayed n k ≤ min n AUDIO_BUFFER_SAMPLES := Nat.min_le_right _ _
  have hbuf : min n AUDIO_BUFFER_SAMPLES ≤ 4096 := Nat.min_le_right _ _
  have hsplit : min n AUDIO_BUFFER_SAMPLES = soundPlayed n k + (min n AUDIO_BUFFER_SAMPLES - soundPlayed n k) := by omega
  rw [AudioStream.avail, h.write, h.read, hsplit, UInt32.ofNat_add, UInt32.add_comm, UInt32.add_sub_cancel,
    UInt32.toNat_ofNat_of_lt' (show _ < 2 ^ 32 by omega)]
  omega

/-- **A period of a sound**: the stream ends with the sample that empties it, if that is the last one. -/
theorem SoundAt.period (h : SoundAt n k st) (hn : n < 2 ^ 32) :
    SoundAt n (k + 1) (periodOf st) ∧ soundPlayed n (k + 1) = soundPlayed n k + st.takes := by
  have havail := h.avail
  have hle : soundPlayed n k ≤ min n AUDIO_BUFFER_SAMPLES := Nat.min_le_right _ _
  unfold periodOf mixStream AudioStream.takes
  cases hact : st.active with
  | false =>
    have hover := h.active.mp hact
    have hsame := soundPlayed_over hover
    have hover' : SoundOver n (k + 1) := ⟨hover.1, hover.2.1, Nat.le_trans hover.2.2 (Nat.mul_le_mul_left _ (Nat.le_succ k))⟩
    exact ⟨⟨h.write, hsame ▸ h.read, h.oneShot, hsame ▸ h.remaining, iff_of_true hact hover'⟩, hsame⟩
  | true =>
    have hnot : ¬SoundOver n k := fun hover => by simp [h.active.mpr hover] at hact
    simp only [Bool.not_true, Bool.false_eq_true, if_false, if_true]
    split
    · next hzero =>
      -- the ring is empty and the sound not over: it was empty, or too long for the ring
      have hnone : min n AUDIO_BUFFER_SAMPLES - soundPlayed n k = 0 := by
        rw [← havail, hzero]
        rfl
      have hsame : soundPlayed n (k + 1) = soundPlayed n k := by
        unfold soundPlayed AUDIO_PERIOD_SIZE AUDIO_BUFFER_SAMPLES at *
        omega
      have hnot' : ¬SoundOver n (k + 1) := by
        unfold SoundOver soundPlayed AUDIO_PERIOD_SIZE AUDIO_BUFFER_SAMPLES at *
        omega
      refine ⟨⟨h.write, hsame ▸ h.read, h.oneShot, hsame ▸ h.remaining, iff_of_false (by simp [hact]) hnot'⟩, ?_⟩
      rw [havail, hnone, hsame]
      rfl
    · next hsome =>
      have hpos : 0 < min n AUDIO_BUFFER_SAMPLES - soundPlayed n k := by
        rw [← havail]
        exact Nat.pos_of_ne_zero fun hz => hsome (UInt32.toNat_inj.mp hz)
      have htake : (if st.avail.toNat > AUDIO_PERIOD_SIZE then UInt32.ofNat AUDIO_PERIOD_SIZE else st.avail) =
          UInt32.ofNat (min st.avail.toNat AUDIO_PERIOD_SIZE) := by
        split
        · rw [Nat.min_eq_right (by omega)]
        · rw [Nat.min_eq_left (by omega), UInt32.ofNat_toNat]
      have hnext : soundPlayed n (k + 1) = soundPlayed n k + min st.avail.toNat AUDIO_PERIOD_SIZE := by
        rw [havail]
        unfold soundPlayed AUDIO_PERIOD_SIZE AUDIO_BUFFER_SAMPLES at *
        omega
      have hall := soundPlayed_le (n := n) (k := k + 1)
      have hrest : UInt32.ofNat (n - soundPlayed n k) - UInt32.ofNat (min st.avail.toNat AUDIO_PERIOD_SIZE) =
          UInt32.ofNat (n - soundPlayed n (k + 1)) := by
        have hsplit : n - soundPlayed n k = min st.avail.toNat AUDIO_PERIOD_SIZE + (n - soundPlayed n (k + 1)) := by omega
        rw [hsplit, UInt32.ofNat_add, UInt32.add_comm, UInt32.add_sub_cancel]
      have hzero : UInt32.ofNat (n - soundPlayed n (k + 1)) = 0 ↔ SoundOver n (k + 1) := by
        rw [← UInt32.toNat_inj, UInt32.toNat_ofNat_of_lt' (show _ < 2 ^ 32 by omega)]
        show n - soundPlayed n (k + 1) = 0 ↔ _
        unfold SoundOver soundPlayed AUDIO_PERIOD_SIZE AUDIO_BUFFER_SAMPLES at *
        omega
      have hlt : min st.avail.toNat AUDIO_PERIOD_SIZE < 2 ^ 32 := Nat.lt_of_le_of_lt (Nat.min_le_right _ _) (by decide)
      refine ⟨?_, hnext⟩
      simp only [htake, mixLoop_eq, UInt32.toNat_ofNat_of_lt' hlt, AudioStream.played, h.oneShot, if_true, h.remaining, hrest]
      refine ⟨h.write, ?_, rfl, rfl, ?_⟩
      · show st.readPos + _ = _
        rw [h.read, hnext, UInt32.ofNat_add]
      · show (if UInt32.ofNat (n - soundPlayed n (k + 1)) = 0 then false else true) = false ↔ _
        rw [← hzero]
        split
        · next hz => exact iff_of_true rfl hz
        · next hz => exact iff_of_false (by simp) hz

theorem SoundAt.congr {st' : AudioStream} (h : SoundAt n k st) (hw : st'.writePos = st.writePos) (hr : st'.readPos = st.readPos)
    (ho : st'.oneShot = st.oneShot) (hm : st'.samplesRemaining = st.samplesRemaining) (ha : st'.active = st.active) :
    SoundAt n k st' :=
  ⟨hw.trans h.write, hr.trans h.read, ho.trans h.oneShot, hm.trans h.remaining, ha ▸ h.active⟩

end Sound

/-- The sound in the system: the stream, and what the mixer took of it. -/
structure Sounding (n k base : Nat) (a : AudioState) : Prop where
  stream : SoundAt n k (a.streams AUDIO_STREAM_SYSTEM)
  taken : a.taken AUDIO_STREAM_SYSTEM = base + soundPlayed n k

section Sound

variable {a a' b c : AudioState} {t n k base : Nat}

theorem Sounding.congr (h : Sounding n k base a) (hs : a'.streams AUDIO_STREAM_SYSTEM = a.streams AUDIO_STREAM_SYSTEM)
    (ht : a'.taken AUDIO_STREAM_SYSTEM = a.taken AUDIO_STREAM_SYSTEM) : Sounding n k base a' :=
  ⟨hs ▸ h.stream, ht.trans h.taken⟩

theorem writeGoesOn_other {s u : Fin 7} {samples : List Sample} {written : Nat} {pc : WritePc} (hu : u ≠ s)
    (hr : a.writeGoesOn t s samples written pc = some a') : a'.streams u = a.streams u := by
  cases pc with
  | acquire =>
    simp only [AudioState.writeGoesOn, Option.ite_none_left_eq_some] at hr
    exact Option.some.inj hr.2 ▸ Function.update_of_ne hu _ _
  | head =>
    simp only [AudioState.writeGoesOn] at hr
    split at hr
    · split at hr
      · exact Option.some.inj hr ▸ Function.update_of_ne hu _ _
      · exact Option.some.inj hr ▸ rfl
    · exact Option.some.inj hr ▸ Function.update_of_ne hu _ _
  | copy i m =>
    simp only [AudioState.writeGoesOn] at hr
    split at hr
    · exact Option.some.inj hr ▸ Function.update_of_ne hu _ _
    · exact Option.some.inj hr ▸ rfl

/-- A step elsewhere leaves the sound, and an interrupt plays a period of it. -/
theorem Sounding.step (h : Sounding n k base a) (hn : n < 2 ^ 32) {op : AudioOp} (hg : Elsewhere a op)
    (hs : audioStep a op = some a') : Sounding n (k + [op].countP AudioOp.isIrq) base a' := by
  have hreset {s : Fin 7} {task : Task} (hne : s ≠ AUDIO_STREAM_SYSTEM) (hr : a.reset s task = some a') :
      Sounding n k base a' := by
    simp only [AudioState.reset, Option.ite_none_left_eq_some] at hr
    obtain rfl := Option.some.inj hr.2
    exact h.congr (Function.update_of_ne hne.symm _ _) rfl
  have hvolume (s : Fin 7) (v : UInt32) : Sounding n k base (a.onStream s fun st => { st with volume := v }) := by
    refine ⟨?_, h.taken⟩
    by_cases hs : s = AUDIO_STREAM_SYSTEM
    · subst hs
      simp only [AudioState.onStream, Function.update_self]
      exact h.stream.congr rfl rfl rfl rfl rfl
    · rw [show (a.onStream s fun st => { st with volume := v }).streams AUDIO_STREAM_SYSTEM = a.streams AUDIO_STREAM_SYSTEM from
        Function.update_of_ne (Ne.symm hs) _ _]
      exact h.stream
  cases op with
  | openStream s => exact hreset hg hs
  | write s samples =>
    simp only [audioStep, Option.ite_none_right_eq_some] at hs
    obtain ⟨-, hs⟩ := hs
    split at hs
    · exact Option.some.inj hs ▸ h.congr rfl rfl
    · exact Option.some.inj hs ▸ h.congr rfl rfl
  | goOn t =>
    simp only [audioStep] at hs
    split at hs
    · exact absurd hs (by simp)
    · next s samples written pc ht =>
      have hne := hg _ ht
      exact h.congr (writeGoesOn_other hne.symm hs) (congrFun (writeGoesOn_record hs).2.1 _)
    · next s ht =>
      have hne := hg _ ht
      exact Option.some.inj hs ▸ h.congr (Function.update_of_ne hne.symm _ _) (Function.update_of_ne hne.symm _ _)
    · next samples ht => exact absurd rfl (hg _ ht)
  | close s =>
    simp only [audioStep, Option.ite_none_left_eq_some] at hs
    exact Option.some.inj hs.2 ▸ h.congr (Function.update_of_ne (Ne.symm hg) _ _) rfl
  | streamVolume s v => exact Option.some.inj hs ▸ hvolume s _
  | masterVolume v => exact Option.some.inj hs ▸ h.congr rfl rfl
  | systemSound samples => exact absurd hg id
  | callRoute route => exact Option.some.inj hs ▸ h.congr rfl rfl
  | startCall => exact Option.some.inj hs ▸ (hvolume AUDIO_STREAM_MEDIA 64).congr rfl rfl
  | endCall => exact Option.some.inj hs ▸ (hvolume AUDIO_STREAM_MEDIA 255).congr rfl rfl
  | irq =>
    obtain rfl := Option.some.inj hs
    obtain ⟨hstream, hplayed⟩ := h.stream.period hn
    refine ⟨?_, ?_⟩
    · rw [mixPeriod_streams]
      exact hstream
    · show a.taken AUDIO_STREAM_SYSTEM + (a.streams AUDIO_STREAM_SYSTEM).takes = base + soundPlayed n (k + 1)
      rw [h.taken, hplayed, Nat.add_assoc]

theorem Sounding.run (h : Sounding n k base a) (hn : n < 2 ^ 32) {ops : List AudioOp} (hg : Meets audioStep Elsewhere a ops)
    (hr : run audioStep a ops = some a') : Sounding n (k + ops.countP AudioOp.isIrq) base a' := by
  induction ops generalizing a k with
  | nil => exact Option.some.inj hr ▸ h
  | cons op ops ih =>
    simp only [Lib.run, Option.bind_eq_some_iff] at hr
    obtain ⟨mid, hop, hr⟩ := hr
    obtain ⟨hgo, hg⟩ := hg mid hop
    have hrest := ih (h.step hn hgo hop) hg hr
    rwa [Nat.add_assoc, ← List.countP_append, List.singleton_append] at hrest

/-- **A sound ends by itself if and only if it fits.** Behind `audio_play_system_sound`, as long as no other call
    touches the stream, `k` interrupts play the first `1024 k` of the samples that were stored; the stream is closed
    by then exactly if the sound is not empty, fits the ring and is played to its end. -/
theorem sound_ends_iff {samples : List Sample} {ops : List AudioOp} (ht : a.tasks t = some (.sounding samples))
    (hlen : samples.length < 2 ^ 32) (hs : audioStep a (.goOn t) = some b) (hg : Meets audioStep Elsewhere b ops)
    (hr : run audioStep b ops = some c) :
    c.taken AUDIO_STREAM_SYSTEM = b.taken AUDIO_STREAM_SYSTEM +
        min (AUDIO_PERIOD_SIZE * ops.countP AudioOp.isIrq) (min samples.length AUDIO_BUFFER_SAMPLES) ∧
      ((c.streams AUDIO_STREAM_SYSTEM).active = false ↔
        1 ≤ samples.length ∧ samples.length ≤ AUDIO_BUFFER_SAMPLES ∧
          samples.length ≤ AUDIO_PERIOD_SIZE * ops.countP AudioOp.isIrq) := by
  simp only [audioStep, ht, Option.some.injEq] at hs
  have hstart : Sounding samples.length 0 (b.taken AUDIO_STREAM_SYSTEM) b := by
    refine ⟨?_, (Nat.add_zero _).symm.trans (by simp [soundPlayed])⟩
    rw [← hs]
    simp only [AudioState.soundGoesOn, AudioState.forget, AudioState.record, AudioState.setTask, AudioState.onStream,
      Function.update_self]
    refine ⟨rfl, by simp [soundPlayed], rfl, by simp [soundPlayed], iff_of_false (by simp) ?_⟩
    rintro ⟨hpos, -, hzero⟩
    omega
  have hend := hstart.run hlen hg hr
  rw [Nat.zero_add] at hend
  exact ⟨hend.taken, hend.stream.active⟩

/-- A sound of three samples, and a period. -/
def soundStart : AudioState := (audioStep audioInit (.systemSound [1, 2, 3])).getD audioInit

def soundStored : AudioState := (audioStep soundStart (.goOn 0)).getD audioInit

def soundPeriod : AudioState := (run audioStep soundStored [.irq]).getD audioInit

theorem sound_ends_iff_three :
    soundPeriod.taken AUDIO_STREAM_SYSTEM = soundStored.taken AUDIO_STREAM_SYSTEM +
        min (AUDIO_PERIOD_SIZE * [AudioOp.irq].countP AudioOp.isIrq) (min ([1, 2, 3] : List Sample).length AUDIO_BUFFER_SAMPLES) ∧
      ((soundPeriod.streams AUDIO_STREAM_SYSTEM).active = false ↔
        1 ≤ ([1, 2, 3] : List Sample).length ∧ ([1, 2, 3] : List Sample).length ≤ AUDIO_BUFFER_SAMPLES ∧
          ([1, 2, 3] : List Sample).length ≤ AUDIO_PERIOD_SIZE * [AudioOp.irq].countP AudioOp.isIrq) :=
  sound_ends_iff (a := soundStart) (b := soundStored) (c := soundPeriod) (t := 0) rfl (by decide) rfl
    (fun _ _ => ⟨trivial, trivial⟩) rfl

end Sound

end Crimson.Audio
