import Mathlib.Data.List.Induction
import Crimson.Wifi.KeyInstall

/-!
# The offsets of the messages the driver sends

Received frames are read at EAPOL offsets: the nonce at 17, the replay counter at 25, the MIC at 77.
The messages are written at offsets of the whole frame, which are 14 more, but from a base 4 too
far: the SNonce ends up at EAPOL offset 21 and the MIC at 81. And the replay counter, taken from 25,
goes to 13. Both buffers are too short for what is written last into them.
-/

set_option autoImplicit false

namespace Crimson.Wifi

/-! ## Buffers -/

@[simp] theorem length_put (buf : List UInt8) (w : Nat × List UInt8) : (put buf w).length = buf.length := by
  simp only [put, List.length_take, List.length_append, List.length_drop]
  omega

theorem length_foldl_put (ws : List (Nat × List UInt8)) (buf : List UInt8) : (ws.foldl put buf).length = buf.length := by
  induction ws generalizing buf with
  | nil => rfl
  | cons w ws ih => rw [List.foldl_cons, ih, length_put]

theorem length_built (size : Nat) (ws : List (Nat × List UInt8)) : (built size ws).length = size := by
  rw [built, length_foldl_put, List.length_replicate]

theorem built_append (size : Nat) (ws : List (Nat × List UInt8)) (w : Nat × List UInt8) :
    built size (ws ++ [w]) = put (built size ws) w := by
  rw [built, built, List.foldl_append, List.foldl_cons, List.foldl_nil]

/-- A write changes nothing before it. -/
theorem slice_put_of_le {buf bs : List UInt8} {o n a : Nat} (h : o + n ≤ a) (hbuf : a ≤ buf.length) :
    slice (put buf (a, bs)) o n = slice buf o n := by
  have hlen : (buf.take a).length = a := by
    rw [List.length_take]
    omega
  have hput : put buf (a, bs) = (buf.take a ++ (bs ++ buf.drop (a + bs.length))).take buf.length := by
    rw [put, List.append_assoc]
  rw [hput, slice, slice, List.drop_take, List.take_take, Nat.min_eq_left (by omega),
    List.drop_append_of_le_length (by omega), List.take_append_of_le_length (by rw [List.length_drop]; omega),
    List.drop_take, List.take_take, Nat.min_eq_left (by omega)]

/-- Nor anything behind it. -/
theorem slice_put_of_ge {buf bs : List UInt8} {o n a : Nat} (h : a + bs.length ≤ o) (hbuf : o ≤ buf.length) :
    slice (put buf (a, bs)) o n = slice buf o n := by
  have hlen : (buf.take a).length = a := by
    rw [List.length_take]
    omega
  have hput : put buf (a, bs) = buf.take a ++ (bs ++ buf.drop (a + bs.length)) := by
    rw [put, List.take_of_length_le, List.append_assoc]
    simp only [List.length_append, List.length_take, List.length_drop]
    omega
  rw [hput, slice, slice, List.drop_append, hlen, List.drop_of_length_le (by omega), List.nil_append,
    List.drop_append, List.drop_of_length_le (by omega), List.nil_append, List.drop_drop]
  congr 2
  omega

/-- What no write has reached yet is zero. -/
theorem slice_built_of_ge {size : Nat} {ws : List (Nat × List UInt8)} {o n : Nat}
    (h : ∀ w ∈ ws, w.1 + w.2.length ≤ o) (hsize : o + n ≤ size) : slice (built size ws) o n = List.replicate n 0 := by
  induction ws using List.reverseRecOn with
  | nil =>
    rw [built, List.foldl_nil, slice, List.drop_replicate, List.take_replicate]
    congr 1
    omega
  | append_singleton ws w ih =>
    have hw := h w (by simp)
    rw [built_append, slice_put_of_ge hw (by rw [length_built]; omega)]
    refine ih ?_
    intro v hv
    exact h v (by simp [hv])

/-- What a write puts into a buffer is there. -/
theorem slice_put_self {buf : List UInt8} {o n : Nat} {bs : List UInt8} (hn : bs.length = n) (hw : o + n ≤ buf.length) :
    slice (put buf (o, bs)) o n = bs := by
  have hlen : (buf.take o).length = o := by
    rw [List.length_take]
    omega
  rw [put, List.take_of_length_le, slice, List.append_assoc, List.drop_left' hlen, List.take_left' hn]
  simp only [List.length_append, List.length_take, List.length_drop]
  omega

theorem slice_add (xs : List UInt8) (o a b : Nat) : slice xs o (a + b) = slice xs o a ++ slice xs (o + a) b := by
  rw [slice, slice, slice, List.take_add, List.drop_drop]

theorem slice_slice (xs : List UInt8) {o n a b : Nat} (h : a + b ≤ n) : slice (slice xs o n) a b = slice xs (o + a) b := by
  rw [slice, slice, slice, List.drop_take, List.drop_drop, List.take_take, Nat.min_eq_left (by omega)]

theorem slice_zero (xs : List UInt8) (n : Nat) : slice xs 0 n = xs.take n := by rw [slice, List.drop_zero]

theorem length_slice {xs : List UInt8} {o n : Nat} (h : o + n ≤ xs.length) : (slice xs o n).length = n := by
  rw [slice, List.length_take, List.length_drop]
  omega

/-! ## The law -/

/-- Every write lies inside a buffer of `size` bytes. -/
def Inside (size : Nat) (ws : List (Nat × List UInt8)) : Prop := ∀ w ∈ ws, w.1 + w.2.length ≤ size

/-- The EAPOL portion of the answer to a message 1. -/
def answer (w : WpaState) (mac : List UInt8) (r : Rx) : List UInt8 :=
  (m2 (r.stale 1) (onMessage1 r w) mac r.eapol).drop 14

/-- The answer to message 1 `r` is read back as it was meant; `stale` are those of the hash that
    verifies its MIC. -/
structure ReadsBack (w : WpaState) (mac : List UInt8) (r : Rx) (stale : Stacks) : Prop where
  nonce : slice (answer w mac r) 17 32 = r.snonce.toList
  replay : slice (answer w mac r) 25 8 = slice r.eapol 25 8
  mic : slice (answer w mac r) 77 16 = wpaComputeMic stale (onMessage1 r w).kck (zeroMic (answer w mac r))

/-- The two sides of the driver agree on the layout: the answer to a message 1 is read back, and
    nothing is written outside the buffers of this answer and of the one to any message 3. -/
structure LayoutAgrees (w : WpaState) (mac : List UInt8) (r : Rx) (stale : Stacks) : Prop where
  reads : ReadsBack w mac r stale
  inside2 : Inside 121 (m2Writes (r.stale 1) (onMessage1 r w) mac r.eapol)
  inside4 : ∀ r3 : Rx, Inside 77 (m4Writes (r3.stale 3) (onMessage1 r w) mac r3.eapol)

/-- The key descriptor's RSN element of message 2 ends 12 bytes behind the buffer. -/
theorem not_inside_m2 (stale : Stacks) (w : WpaState) (mac eapol : List UInt8) :
    ¬ Inside 121 (m2Writes stale w mac eapol) := by
  intro h
  have hmem : (111, rsnShort) ∈ m2Writes stale w mac eapol := by
    rw [m2Writes]
    exact List.mem_append_right _ (List.mem_cons_of_mem _ (List.mem_singleton_self _))
  have hrsn := h _ hmem
  exact absurd hrsn (by decide)

/-- The MIC of message 4 is behind the buffer. -/
theorem not_inside_m4 (stale : Stacks) (w : WpaState) (mac eapol : List UInt8) :
    ¬ Inside 77 (m4Writes stale w mac eapol) := by
  intro h
  have hmem : (77, m4Mic stale w mac eapol) ∈ m4Writes stale w mac eapol := by
    rw [m4Writes]
    exact List.mem_append_right _ (List.mem_singleton_self _)
  have hlen : (m4Mic stale w mac eapol).length = 16 := length_wpaComputeMic _ _ _
  have hmic := h _ hmem
  simp only [hlen] at hmic
  omega

/-! ## What is read back -/

/-- Where the replay counter, the SNonce and the MIC are in message 2, and what is before the MIC. -/
theorem slice_m2 (stale : Stacks) {w : WpaState} {mac eapol : List UInt8} (hn : w.snonce.length = 32)
    (haa : w.aa.length = 6) (hmac : mac.length = 6) (heapol : 33 ≤ eapol.length) :
    slice (m2 stale w mac eapol) 27 8 = slice eapol 25 8 ∧ slice (m2 stale w mac eapol) 35 32 = w.snonce ∧
      slice (m2 stale w mac eapol) 91 4 = List.replicate 4 0 ∧
      slice (m2 stale w mac eapol) 95 16 = m2Mic stale w mac eapol := by
  have hbuf (ws : List (Nat × List UInt8)) : (built 121 ws).length = 121 := length_built 121 ws
  have hreplay : (slice eapol 25 8).length = 8 := length_slice (by omega)
  have hbefore : ∀ v ∈ m2Unsigned w mac eapol, v.1 + v.2.length ≤ 91 := by
    simp [m2Unsigned, eapolHeader, hn, haa, hmac, hreplay]
  have hwrites : m2Writes stale w mac eapol =
      m2Unsigned w mac eapol ++ [(95, m2Mic stale w mac eapol)] ++ [(111, rsnShort)] := by
    rw [m2Writes, List.append_assoc, List.singleton_append]
  have hunsigned : m2Unsigned w mac eapol =
      eapolHeader w.aa mac ++ [(21, [0x00, 0x00])] ++ [(27, slice eapol 25 8)] ++ [(35, w.snonce)] := by
    simp only [m2Unsigned, List.append_assoc, List.cons_append, List.nil_append]
  rw [m2, hwrites, built_append, built_append]
  refine ⟨?_, ?_, ?_, ?_⟩
  · rw [slice_put_of_le (by decide) (by simp [hbuf]), slice_put_of_le (by decide) (by simp [hbuf]), hunsigned,
      built_append, slice_put_of_le (by decide) (by simp [hbuf]), built_append, slice_put_self hreplay (by simp [hbuf])]
  · rw [slice_put_of_le (by decide) (by simp [hbuf]), slice_put_of_le (by decide) (by simp [hbuf]), hunsigned,
      built_append, slice_put_self hn (by simp [hbuf])]
  · rw [slice_put_of_le (by decide) (by simp [hbuf]), slice_put_of_le (by decide) (by simp [hbuf])]
    exact slice_built_of_ge hbefore (by decide)
  · rw [slice_put_of_le (by decide) (by simp [hbuf])]
    exact slice_put_self (length_wpaComputeMic _ _ _) (by simp [hbuf])

variable {w : WpaState} {mac : Vector UInt8 6} {r : Rx}

/-- **What the driver reads in its own message 2**: of the nonce, the end of the replay counter and
    the start of the SNonce; of the replay counter, a part of the SNonce; of the MIC, four zeros and its start. -/
theorem read_answer (h : IsEapolKey r) :
    slice (answer w mac.toList r) 17 32 = slice r.eapol 29 4 ++ r.snonce.toList.take 28 ∧
      slice (answer w mac.toList r) 25 8 = slice r.snonce.toList 4 8 ∧
      slice (answer w mac.toList r) 77 16 =
        List.replicate 4 0 ++ (m2Mic (r.stale 1) (onMessage1 r w) mac.toList r.eapol).take 12 := by
  have hlen := h.1
  have heapol : 85 ≤ r.eapol.length := by
    rw [Rx.eapol, List.length_drop]
    omega
  have hn : (onMessage1 r w).snonce.length = 32 := by simp [onMessage1, wpaDerivePtk]
  have haa : (onMessage1 r w).aa.length = 6 := length_slice (by omega)
  have hmac : mac.toList.length = 6 := by simp
  have hkey : 33 ≤ r.eapol.length := by omega
  obtain ⟨hreplay, hnonce, hzero, hmic⟩ := slice_m2 (r.stale 1) hn haa hmac hkey
  have hsnonce : (onMessage1 r w).snonce = r.snonce.toList := by simp only [onMessage1, wpaDerivePtk]
  rw [hsnonce] at hnonce
  have hread (o n : Nat) : slice (answer w mac.toList r) o n =
      slice (m2 (r.stale 1) (onMessage1 r w) mac.toList r.eapol) (14 + o) n := by
    rw [answer, slice, slice, List.drop_drop]
  generalize m2 (r.stale 1) (onMessage1 r w) mac.toList r.eapol = frame at *
  refine ⟨?_, ?_, ?_⟩
  · calc
      slice (answer w mac.toList r) 17 32 = slice frame 31 4 ++ slice frame 35 28 := by rw [hread, slice_add _ 31 4 28]
      _ = slice (slice frame 27 8) 4 4 ++ slice (slice frame 35 32) 0 28 := by
        rw [slice_slice _ (by decide), slice_slice _ (by decide)]
      _ = slice r.eapol 29 4 ++ r.snonce.toList.take 28 := by
        rw [hreplay, hnonce, slice_slice _ (by decide), slice_zero]
  · calc
      slice (answer w mac.toList r) 25 8 = slice (slice frame 35 32) 4 8 := by rw [hread, slice_slice _ (by decide)]
      _ = slice r.snonce.toList 4 8 := by rw [hnonce]
  · calc
      slice (answer w mac.toList r) 77 16 = slice frame 91 4 ++ slice frame 95 12 := by rw [hread, slice_add _ 91 4 12]
      _ = slice frame 91 4 ++ slice (slice frame 95 16) 0 12 := by rw [slice_slice _ (by decide)]
      _ = List.replicate 4 0 ++ (m2Mic (r.stale 1) (onMessage1 r w) mac.toList r.eapol).take 12 := by
        rw [hzero, hmic, slice_zero]

/-- A list that is its own start behind four bytes `c` repeats these. -/
theorem take_eq_flatten_of_shift {xs c : List UInt8} {n : Nat} (hc : c.length = 4) (h : xs = c ++ xs.take n) (k : Nat)
    (hk : 4 * k ≤ n + 4) : xs.take (4 * k) = (List.replicate k c).flatten := by
  induction k with
  | zero => rfl
  | succ k ih =>
    have ih' := ih (by omega)
    have hsucc : 4 * (k + 1) - c.length = 4 * k := by omega
    conv => lhs; rw [h]
    rw [List.take_append, List.take_of_length_le (by omega), hsucc, List.take_take, Nat.min_eq_left (by omega), ih',
      List.replicate_succ, List.flatten_cons]

/-- Only a SNonce that repeats the end of the replay counter is read back. -/
theorem snonce_of_readsBack (h : IsEapolKey r) {stale : Stacks} (hreads : ReadsBack w mac.toList r stale) :
    r.snonce.toList = (List.replicate 8 (slice r.eapol 29 4)).flatten := by
  have hlen : 85 ≤ r.eapol.length := by
    have := h.1
    rw [Rx.eapol, List.length_drop]
    omega
  have hshift : r.snonce.toList = slice r.eapol 29 4 ++ r.snonce.toList.take 28 :=
    hreads.nonce.symm.trans (read_answer h).1
  have htake := take_eq_flatten_of_shift (length_slice (by omega)) hshift 8 (by decide)
  rw [← htake, List.take_of_length_le (by simp)]

/-- **The two sides never agree**, on no message 1 that is accepted: both buffers are left, and the
    SNonce is read back only when it is the end of the replay counter, eight times over. -/
theorem layout_never_agrees (h : AcceptsMessage1 w r) (stale : Stacks) :
    ¬ LayoutAgrees w mac.toList r stale ∧
      (ReadsBack w mac.toList r stale → r.snonce.toList = (List.replicate 8 (slice r.eapol 29 4)).flatten) := by
  refine ⟨?_, snonce_of_readsBack h.1⟩
  intro hagrees
  exact not_inside_m2 _ _ _ _ hagrees.inside2

theorem layout_never_agrees_sample : AcceptsMessage1 sampleState sampleMessage1 ∧
    ¬ LayoutAgrees sampleState sampleInterface.mac.toList sampleMessage1 (fun _ _ => 0) :=
  ⟨accepts_sampleMessage1 rfl, (layout_never_agrees (accepts_sampleMessage1 rfl) (fun _ _ => 0)).1⟩

/-- A message 1 whose answer is not laid out as frames are read. -/
theorem sample_layout_disagrees : ¬ ∀ (w : WpaState) (mac : Vector UInt8 6) (r : Rx) (stale : Stacks),
    AcceptsMessage1 w r → LayoutAgrees w mac.toList r stale := by
  intro h
  have hagrees := h sampleState sampleInterface.mac sampleMessage1 (fun _ _ => 0) (accepts_sampleMessage1 rfl)
  exact not_inside_m4 _ _ _ _ (hagrees.inside4 sampleMessage1)

end Crimson.Wifi
