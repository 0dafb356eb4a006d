import Mathlib.Tactic.Common
import Crimson.Wifi.Handshake

/-!
# One connection installs one key

A `Session` is the driver between two calls of `rtl8723cs_connect`: its state, the interface, every
write to the device since, and the frames it has accepted as message 1. The MIC of a message 3 is
read from a local array of 512 bytes that the frame is copied into, 16 bytes at offset 77, and the
only length that is checked is 99 bytes for the whole frame: of a frame of fewer than 107 bytes the
last bytes of the MIC are not in the frame, and are what the array held before.
-/

set_option autoImplicit false

namespace Crimson.Wifi

open Lib

/-! ## Sessions -/

structure Session where
  wpa : WpaState
  iface : WifiInterface
  writes : List DevWrite
  accepted : List Rx

/-- A session after `rtl8723cs_connect`. -/
def Session.connected (iface : WifiInterface) (ssid key : List UInt8) (stale : Nat → Stacks) (w : WpaState) :
    Session where
  wpa := (connect iface ssid key stale w).1
  iface := iface
  writes := (connect iface ssid key stale w).2
  accepted := []

/-- A call of `rtl8723cs_eapol_rx`. -/
def Session.rx (s : Session) (r : Rx) : Option Session :=
  some {
    wpa := (eapolRx s.iface r s.wpa).1
    iface := (eapolRx s.iface r s.wpa).2.1
    writes := s.writes ++ (eapolRx s.iface r s.wpa).2.2
    accepted := if AcceptsMessage1 s.wpa r then s.accepted ++ [r] else s.accepted }

/-- The writes of the temporal key. -/
def keyWrites (ws : List DevWrite) : List DevWrite := ws.filter fun w => w.1 = REG_TK

/-- The PTK of message 1 `m`: from its ANonce, its sender, and the SNonce generated for it. -/
def ptkOf (pmk spa : List UInt8) (m : Rx) : List UInt8 :=
  derivedPtk (m.stale 0) pmk (slice m.frame 6 6) spa (slice m.eapol 17 32) m.snonce.toList

/-- An EAPOL-Key frame with its MIC field zeroed. -/
def zeroMic (eapol : List UInt8) : List UInt8 := eapol.take 77 ++ List.replicate 16 0 ++ eapol.drop 93

/-- The frame has a MIC of 16 bytes, and that is the HMAC of the frame under the KCK of `ptk`. -/
def HasMicOf (ptk : List UInt8) (r : Rx) : Prop :=
  93 ≤ r.eapol.length ∧ slice r.eapol 77 16 = wpaComputeMic (r.stale 2) (slice ptk 0 16) (zeroMic r.eapol)

/-- At most one key is written, and at most one message 1 is answered with a derivation. -/
def InstallsOnce (s : Session) : Prop := (keyWrites s.writes).length ≤ 1 ∧ s.accepted.length ≤ 1

/-- A call writes no key, or the temporal key of the first message 1 that was accepted, on a frame
    with the MIC of that message's PTK; and once a message 1 is accepted the keys stay. -/
def InstallsVerified (pmk spa : List UInt8) (s : Session) (r : Rx) (s' : Session) : Prop :=
  (keyWrites s'.writes = keyWrites s.writes ∨
    ∃ m, s.accepted.head? = some m ∧ HasMicOf (ptkOf pmk spa m) r ∧
      keyWrites s'.writes = keyWrites s.writes ++ [(REG_TK, slice (ptkOf pmk spa m) 32 16)]) ∧
    (s.accepted ≠ [] → s'.accepted = s.accepted ∧ s'.wpa.ptk = s.wpa.ptk ∧ s'.wpa.kck = s.wpa.kck ∧
      s'.wpa.tk = s.wpa.tk)

/-! ## The MIC of a received frame -/

theorem foldl_or_eq_zero (xs : List UInt8) (d : UInt8) :
    xs.foldl (fun diff x => diff ||| x) d = 0 ↔ d = 0 ∧ ∀ x ∈ xs, x = 0 := by
  induction xs generalizing d with
  | nil => simp
  | cons x xs ih =>
    rw [List.foldl_cons, ih, UInt8.or_eq_zero_iff]
    simp only [List.mem_cons, forall_eq_or_imp, and_assoc]

/-- The comparison of the two MICs is an equality test. -/
theorem micDiff_eq_zero {xs ys : List UInt8} (h : xs.length = ys.length) : micDiff xs ys = 0 ↔ xs = ys := by
  rw [micDiff, foldl_or_eq_zero]
  simp only [true_and]
  induction xs generalizing ys with
  | nil =>
    cases ys with
    | nil => simp [xorBytes]
    | cons y ys => simp at h
  | cons x xs ih =>
    cases ys with
    | nil => simp at h
    | cons y ys =>
      have ih' := ih (Nat.succ.inj h)
      simp only [xorBytes, List.zipWith_cons_cons, List.mem_cons, forall_eq_or_imp, UInt8.xor_eq_zero_iff,
        List.cons.injEq] at ih' ⊢
      rw [ih']

theorem length_wpaComputeMic (stale : Stacks) (kck frame : List UInt8) :
    (wpaComputeMic stale kck frame).length = 16 := by simp [wpaComputeMic]

/-- `check_frame` of a frame that fits: 512 bytes. -/
theorem length_checkFrame {r : Rx} (h : r.eapol.length ≤ 512) : (checkFrame r).length = 512 := by
  simp only [checkFrame, List.length_append, List.length_map, List.length_range]
  omega

theorem length_rxMic {r : Rx} (h : r.eapol.length ≤ 512) : (rxMic r).length = 16 := by
  simp [rxMic, slice, length_checkFrame h]

theorem verifies_iff (w : WpaState) (r : Rx) :
    Verifies w r ↔ r.eapol.length ≤ 512 ∧ rxMic r = wpaComputeMic (r.stale 2) w.kck (micZeroed r) := by
  refine and_congr_right ?_
  intro h
  exact micDiff_eq_zero ((length_rxMic h).trans (length_wpaComputeMic _ _ _).symm)

/-- The MIC of a frame that has all of it is in the frame. -/
theorem rxMic_eq {r : Rx} (h : 93 ≤ r.eapol.length) : rxMic r = slice r.eapol 77 16 := by
  rw [rxMic, checkFrame, slice, slice, List.drop_append_of_le_length (by omega),
    List.take_append_of_le_length (by rw [List.length_drop]; omega)]

/-- What is hashed is then the EAPOL portion, its MIC field zeroed. -/
theorem micZeroed_eq {r : Rx} (h : 93 ≤ r.eapol.length) (hle : r.eapol.length ≤ 512) :
    micZeroed r = zeroMic r.eapol := by
  have hlen := length_checkFrame hle
  have htake : (checkFrame r).take 77 = r.eapol.take 77 := List.take_append_of_le_length (by omega)
  have hdrop : (checkFrame r).drop 93 =
      r.eapol.drop 93 ++ (List.range (512 - r.eapol.length)).map fun i => r.residue (r.eapol.length + i) :=
    List.drop_append_of_le_length h
  have hput : put (checkFrame r) (77, List.replicate 16 0) =
      (zeroMic r.eapol ++ (List.range (512 - r.eapol.length)).map fun i => r.residue (r.eapol.length + i)).take 512 := by
    simp only [put, List.length_replicate, htake, hdrop, hlen, zeroMic, List.append_assoc]
  have hzero : (zeroMic r.eapol).length = r.eapol.length := by
    simp only [zeroMic, List.length_append, List.length_take, List.length_replicate, List.length_drop]
    omega
  rw [micZeroed, hput, List.take_take, Nat.min_eq_left hle, ← hzero, List.take_left']
  rfl

/-! ## The handshake step by step -/

/-- The keys in the state are those of message 1 `m`. -/
structure KeysOf (pmk spa : List UInt8) (m : Rx) (w : WpaState) : Prop where
  ptk : w.ptk = ptkOf pmk spa m
  kck : w.kck = slice (ptkOf pmk spa m) 0 16
  tk : w.tk = slice (ptkOf pmk spa m) 32 16

/-- How far the handshake of a session is. -/
inductive Progress (pmk spa : List UInt8) (s : Session) : Prop
  | idle (step : s.wpa.handshakeStep = 0) (hpmk : s.wpa.pmk = pmk) (hspa : s.wpa.spa = spa)
      (accepted : s.accepted = []) (writes : keyWrites s.writes = [])
  | answered (m : Rx) (step : s.wpa.handshakeStep = 1) (keys : KeysOf pmk spa m s.wpa)
      (accepted : s.accepted = [m]) (writes : keyWrites s.writes = [])
  | installed (m : Rx) (step : s.wpa.handshakeStep = 2) (keys : KeysOf pmk spa m s.wpa)
      (accepted : s.accepted = [m]) (writes : (keyWrites s.writes).length = 1)

variable {pmk spa : List UInt8} {s s' : Session} {r : Rx}

theorem progress_connected (iface : WifiInterface) (ssid key : List UInt8) (stale : Nat → Stacks) (w : WpaState) :
    Progress (pbkdf2Sha1 stale key ssid 4096 32) iface.mac.toList (.connected iface ssid key stale w) := by
  refine .idle rfl ?_ rfl rfl ?_
  · simp only [Session.connected, connect]
  · simp [Session.connected, connect, keyWrites, TX_FIFO, REG_TK]

theorem Progress.installsOnce (h : Progress pmk spa s) : InstallsOnce s := by
  cases h with
  | idle step hpmk hspa accepted writes => simp [InstallsOnce, accepted, writes]
  | answered m step keys accepted writes => simp [InstallsOnce, accepted, writes]
  | installed m step keys accepted writes => simp [InstallsOnce, accepted, writes]

/-- A call that accepts message 1. -/
theorem rx_message1 (h : AcceptsMessage1 s.wpa r) :
    s.rx r = some {
      wpa := { onMessage1 r s.wpa with handshakeStep := 1 }
      iface := s.iface
      writes := s.writes ++ [(TX_FIFO, m2 (r.stale 1) (onMessage1 r s.wpa) s.iface.mac.toList r.eapol)]
      accepted := s.accepted ++ [r] } := by
  obtain ⟨-, heq⟩ | ⟨h3, -, -⟩ | ⟨hn, -, -⟩ := eapolRx_cases s.iface r s.wpa
  · rw [Session.rx, heq, if_pos h]
  · have h0 := h.2.2.2.2
    have h1 := h3.2.2.2.2
    omega
  · exact absurd h hn

/-- A call that accepts message 3. -/
theorem rx_message3 (h : ChecksMessage3 s.wpa r) (hv : Verifies s.wpa r) :
    s.rx r = some {
      wpa := { s.wpa with handshakeStep := 2 }
      iface := { s.iface with state := 5 }
      writes := s.writes ++ [(REG_TK, s.wpa.tk), (REG_CCMP, [0x07]),
        (TX_FIFO, m4 (r.stale 3) s.wpa s.iface.mac.toList r.eapol)]
      accepted := s.accepted } := by
  have hn1 : ¬ AcceptsMessage1 s.wpa r := by
    intro h1
    have h0 := h1.2.2.2.2
    have h1 := h.2.2.2.2
    omega
  obtain ⟨h1, -⟩ | ⟨-, -, heq⟩ | ⟨-, hn, -⟩ := eapolRx_cases s.iface r s.wpa
  · exact absurd h1 hn1
  · rw [Session.rx, heq, if_neg hn1]
  · exact absurd ⟨h, hv⟩ hn

/-- Any other call changes nothing. -/
theorem rx_other (h1 : ¬ AcceptsMessage1 s.wpa r) (h3 : ¬ (ChecksMessage3 s.wpa r ∧ Verifies s.wpa r)) :
    s.rx r = some s := by
  obtain ⟨h, -⟩ | ⟨h, hv, -⟩ | ⟨-, -, heq⟩ := eapolRx_cases s.iface r s.wpa
  · exact absurd h h1
  · exact absurd ⟨h, hv⟩ h3
  · rw [Session.rx, heq, if_neg h1, List.append_nil]

theorem keyWrites_message1 (ws : List DevWrite) (frame : List UInt8) :
    keyWrites (ws ++ [(TX_FIFO, frame)]) = keyWrites ws := by
  simp [keyWrites, TX_FIFO, REG_TK]

theorem keyWrites_message3 (ws : List DevWrite) (tk frame : List UInt8) :
    keyWrites (ws ++ [(REG_TK, tk), (REG_CCMP, [0x07]), (TX_FIFO, frame)]) = keyWrites ws ++ [(REG_TK, tk)] := by
  simp [keyWrites, TX_FIFO, REG_TK, REG_CCMP]

theorem keysOf_onMessage1 (hpmk : s.wpa.pmk = pmk) (hspa : s.wpa.spa = spa) :
    KeysOf pmk spa r { onMessage1 r s.wpa with handshakeStep := 1 } := by
  subst hpmk hspa
  constructor
  all_goals simp only [onMessage1, wpaDerivePtk, ptkOf]

/-- **Every call keeps the handshake in order**, whatever the frame. -/
theorem progress_rx (h : Progress pmk spa s) (hs : s.rx r = some s') : Progress pmk spa s' := by
  by_cases h1 : AcceptsMessage1 s.wpa r
  · rw [rx_message1 h1] at hs
    obtain rfl := Option.some.inj hs
    have hstep := h1.2.2.2.2
    cases h with
    | idle step hpmk hspa accepted writes =>
      refine .answered r rfl (keysOf_onMessage1 hpmk hspa) ?_ ?_
      · rw [accepted, List.nil_append]
      · rw [keyWrites_message1, writes]
    | answered m step keys accepted writes => omega
    | installed m step keys accepted writes => omega
  by_cases h3 : ChecksMessage3 s.wpa r ∧ Verifies s.wpa r
  · rw [rx_message3 h3.1 h3.2] at hs
    obtain rfl := Option.some.inj hs
    have hstep := h3.1.2.2.2.2
    cases h with
    | idle step hpmk hspa accepted writes => omega
    | answered m step keys accepted writes =>
      refine .installed m rfl ⟨keys.ptk, keys.kck, keys.tk⟩ accepted ?_
      rw [keyWrites_message3, writes, List.nil_append, List.length_singleton]
    | installed m step keys accepted writes => omega
  · rw [rx_other h1 h3] at hs
    obtain rfl := Option.some.inj hs
    exact h

/-- What a call writes when the frame, if it is verified as a message 3, has all of its MIC. -/
theorem installsVerified_rx (h : Progress pmk spa s) (hlen : ChecksMessage3 s.wpa r → 107 ≤ r.frame.length)
    (hs : s.rx r = some s') : InstallsVerified pmk spa s r s' := by
  by_cases h1 : AcceptsMessage1 s.wpa r
  · rw [rx_message1 h1] at hs
    obtain rfl := Option.some.inj hs
    refine ⟨Or.inl (keyWrites_message1 _ _), ?_⟩
    intro hne
    -- the step says that no message 1 has been accepted before
    have hstep := h1.2.2.2.2
    cases h with
    | idle step hpmk hspa accepted writes => exact absurd accepted hne
    | answered m step keys accepted writes => omega
    | installed m step keys accepted writes => omega
  by_cases h3 : ChecksMessage3 s.wpa r ∧ Verifies s.wpa r
  · rw [rx_message3 h3.1 h3.2] at hs
    obtain rfl := Option.some.inj hs
    refine ⟨Or.inr ?_, fun _ => ⟨rfl, rfl, rfl, rfl⟩⟩
    have hstep := h3.1.2.2.2.2
    obtain ⟨hle, hmic⟩ := (verifies_iff s.wpa r).1 h3.2
    have hfull : 93 ≤ r.eapol.length := by
      have := hlen h3.1
      rw [Rx.eapol, List.length_drop]
      omega
    cases h with
    | idle step hpmk hspa accepted writes => omega
    | answered m step keys accepted writes =>
      -- what the MIC was compared with, and what is written, stem from the first message 1
      refine ⟨m, by rw [accepted]; rfl, ⟨hfull, ?_⟩, ?_⟩
      · rw [← rxMic_eq hfull, ← micZeroed_eq hfull hle, ← keys.kck]
        exact hmic
      · rw [keyWrites_message3, keys.tk]
    | installed m step keys accepted writes => omega
  · rw [rx_other h1 h3] at hs
    obtain rfl := Option.some.inj hs
    exact ⟨Or.inl rfl, fun _ => ⟨rfl, rfl, rfl, rfl⟩⟩

/-! ## Runs -/

/-- **One key for one connection**: in every sequence of frames after a connect in which each frame
    that is checked as a message 3 has at least 107 bytes, and so a whole MIC. -/
theorem installs_verified_once (iface : WifiInterface) (ssid key : List UInt8) (stale : Nat → Stacks) (w : WpaState)
    (rs : List Rx)
    (h : Meets Session.rx (fun s r => ChecksMessage3 s.wpa r → 107 ≤ r.frame.length)
      (.connected iface ssid key stale w) rs) :
    Always Session.rx InstallsOnce (.connected iface ssid key stale w) rs ∧
      AlwaysStep Session.rx (InstallsVerified (pbkdf2Sha1 stale key ssid 4096 32) iface.mac.toList)
        (.connected iface ssid key stale w) rs := by
  have hprogress : Always Session.rx (Progress (pbkdf2Sha1 stale key ssid 4096 32) iface.mac.toList)
      (.connected iface ssid key stale w) rs :=
    always_of_step (fun _ _ _ hp hs => progress_rx hp hs) (progress_connected iface ssid key stale w)
  refine ⟨hprogress.mono fun _ hp => hp.installsOnce, alwaysStep_of_always ?_ hprogress h⟩
  intro s r s' hp hlen hs
  exact installsVerified_rx hp hlen hs

/-! ## A frame that lacks half of its MIC -/

/-- A message 1 of 99 bytes. -/
def sampleMessage1 : Rx where
  frame := List.replicate 14 0 ++ ([0x02, 0x03, 0x00, 0x5F, 0x02, 0x00, 0x88] ++ List.replicate 78 0)
  snonce := Vector.replicate 32 0
  stale := fun _ _ _ => 0
  residue := fun _ => 0

/-- A message 3 up to its MIC. -/
def sampleHead : List UInt8 := [0x02, 0x03, 0x00, 0x5F, 0x02, 0x01, 0x48] ++ List.replicate 70 0

/-- A message 3 that ends with the first `n` bytes of `mic`; the others are left in the array. -/
def cutMessage3 (mic : List UInt8) (n : Nat) : Rx where
  frame := List.replicate 14 0 ++ (sampleHead ++ mic.take n)
  snonce := Vector.replicate 32 0
  stale := fun _ _ _ => 0
  residue := fun i => mic.getD (i - 77) 0

/-- The MIC that `cutMessage3` needs. -/
def sampleMic (kck : List UInt8) (n : Nat) : List UInt8 :=
  wpaComputeMic (fun _ _ => 0) kck (sampleHead ++ List.replicate n 0)

theorem eapol_cutMessage3 (mic : List UInt8) (n : Nat) : (cutMessage3 mic n).eapol = sampleHead ++ mic.take n := rfl

theorem checkFrame_cutMessage3 {mic : List UInt8} (hmic : mic.length = 16) {n : Nat} (hn : n ≤ 16) :
    ∃ rest, checkFrame (cutMessage3 mic n) = sampleHead ++ (mic ++ rest) := by
  have hhead : sampleHead.length = 77 := rfl
  have hlen : (cutMessage3 mic n).eapol.length = 77 + n := by
    rw [eapol_cutMessage3, List.length_append, List.length_take, hhead, hmic, Nat.min_eq_left hn]
  refine ⟨(List.range (512 - 93)).map fun i => mic.getD (i + 16) 0, ?_⟩
  have hsplit : List.range (512 - (77 + n)) =
      List.range (16 - n) ++ (List.range (512 - 93)).map fun i => (16 - n) + i := by
    rw [← List.range_add]
    congr 1
    omega
  rw [checkFrame, hlen, eapol_cutMessage3, hsplit, List.map_append, List.append_assoc, ← List.append_assoc (mic.take n),
    List.map_map]
  congr 2
  · conv => rhs; rw [← List.take_append_drop n mic]
    congr 1
    refine List.ext_getElem (by simp [hmic]) ?_
    intro i h1 h2
    rw [List.length_drop, hmic] at h2
    have hi : 77 + n + i - 77 = n + i := by omega
    simp [cutMessage3, hi, List.getElem?_eq_getElem (show n + i < mic.length by omega)]
  · refine List.map_congr_left ?_
    intro i _
    have hi : 77 + n + (16 - n + i) - 77 = i + 16 := by omega
    simp [cutMessage3, hi]

theorem verifies_cutMessage3 {w : WpaState} {n : Nat} (hn : n ≤ 16) :
    Verifies w (cutMessage3 (sampleMic w.kck n) n) := by
  have hhead : sampleHead.length = 77 := rfl
  have hmic : (sampleMic w.kck n).length = 16 := length_wpaComputeMic _ _ _
  obtain ⟨rest, hrest⟩ := checkFrame_cutMessage3 hmic hn
  have hlen : (cutMessage3 (sampleMic w.kck n) n).eapol.length = 77 + n := by
    rw [eapol_cutMessage3, List.length_append, List.length_take, hhead, hmic, Nat.min_eq_left hn]
  refine (verifies_iff _ _).2 ⟨by omega, ?_⟩
  have hrx : rxMic (cutMessage3 (sampleMic w.kck n) n) = sampleMic w.kck n := by
    rw [rxMic, hrest, slice, List.drop_left' hhead, List.take_left' hmic]
  have hput : put (sampleHead ++ (sampleMic w.kck n ++ rest)) (77, List.replicate 16 0) =
      sampleHead ++ (List.replicate 16 0 ++ rest) := by
    rw [put, List.take_left' hhead, List.length_replicate, ← List.append_assoc sampleHead,
      List.drop_left' (by rw [List.length_append, hhead, hmic]), List.append_assoc, List.take_of_length_le]
    · rw [List.append_assoc]
    · simp [hmic]
      omega
  have hzero : micZeroed (cutMessage3 (sampleMic w.kck n) n) = sampleHead ++ List.replicate n 0 := by
    rw [micZeroed, hrest, hlen, hput, List.take_append, hhead, List.take_of_length_le (by omega), Nat.add_sub_cancel_left,
      List.take_append_of_le_length (by rw [List.length_replicate]; exact hn), List.take_replicate, Nat.min_eq_left hn]
  rw [hrx, hzero]
  rfl

theorem accepts_sampleMessage1 {w : WpaState} (h : w.handshakeStep = 0) : AcceptsMessage1 w sampleMessage1 :=
  ⟨by decide, by decide, by decide, by decide, h⟩

theorem checks_cutMessage3 {w : WpaState} {mic : List UInt8} (hmic : mic.length = 16) {n : Nat} (hn : 8 ≤ n)
    (h : w.handshakeStep = 1) : ChecksMessage3 w (cutMessage3 mic n) := by
  have hkey : keyInfo (cutMessage3 mic n).eapol = 0x0148 := by
    change (0x01 : UInt8).toNat <<< 8 ||| (0x48 : UInt8).toNat = 0x0148
    decide
  refine ⟨⟨?_, rfl, rfl⟩, by rw [isPairwise, hkey]; rfl, by rw [isInstall, hkey]; rfl, by rw [hasMic, hkey]; rfl, h⟩
  simp [cutMessage3, sampleHead, hmic]
  omega

theorem whole_frames {mic : List UInt8} (hmic : mic.length = 16) (s : Session) :
    ∀ r ∈ [sampleMessage1, cutMessage3 mic 16], ChecksMessage3 s.wpa r → 107 ≤ r.frame.length := by
  intro r hr h3
  rw [List.mem_cons, List.mem_singleton] at hr
  obtain rfl | rfl := hr
  · have hmic := h3.2.2.2.1
    exact absurd hmic (by decide)
  · simp [cutMessage3, sampleHead, hmic]

/-- The session after a connect and `sampleMessage1`, and after a message 3 with the first `n` bytes
    of its MIC: the temporal key is written. -/
theorem cutMessage3_installs {s : Session} (h : s.wpa.handshakeStep = 0) {n : Nat} (hn : 8 ≤ n) (hn' : n ≤ 16) :
    ∃ s₁ s₂, s.rx sampleMessage1 = some s₁ ∧ s₁.rx (cutMessage3 (sampleMic s₁.wpa.kck n) n) = some s₂ ∧
      keyWrites s₂.writes = keyWrites s₁.writes ++ [(REG_TK, s₁.wpa.tk)] := by
  refine ⟨_, _, rx_message1 (accepts_sampleMessage1 h), rx_message3 (checks_cutMessage3 ?_ hn rfl)
    (verifies_cutMessage3 hn'), keyWrites_message3 _ _ _⟩
  exact length_wpaComputeMic _ _ _

def sampleInterface : WifiInterface where
  mac := Vector.replicate 6 0
  connectedBssid := Vector.replicate 6 0
  state := 3

def sampleState : WpaState where
  pmk := []
  ptk := []
  kck := []
  kek := []
  tk := []
  anonce := []
  snonce := []
  aa := []
  spa := []
  handshakeStep := 0

/-- Behind any connect, a message 3 of 99 bytes installs a key with 8 bytes of a MIC. -/
theorem cut_message3_installs (pmk spa : List UInt8) {s : Session} (h : s.wpa.handshakeStep = 0) :
    ∃ rs, ¬ AlwaysStep Session.rx (InstallsVerified pmk spa) s rs := by
  obtain ⟨s₁, s₂, hs₁, hs₂, hkey⟩ := cutMessage3_installs h (Nat.le_refl 8) (by decide)
  refine ⟨[sampleMessage1, cutMessage3 (sampleMic s₁.wpa.kck 8) 8], ?_⟩
  intro hsteps
  obtain ⟨hinstall, -⟩ := ((hsteps s₁ hs₁).2 s₂ hs₂).1
  obtain heq | ⟨m, -, hmic, -⟩ := hinstall
  · rw [hkey] at heq
    simp at heq
  · have hlen := hmic.1
    rw [eapol_cutMessage3, List.length_append, List.length_take] at hlen
    have hhead : sampleHead.length = 77 := rfl
    omega

/-- So a connection's key is not only installed on a frame with a MIC. -/
theorem cut_message3_breaks : ¬ ∀ (iface : WifiInterface) (ssid key : List UInt8) (stale : Nat → Stacks)
    (w : WpaState) (rs : List Rx),
    Always Session.rx InstallsOnce (.connected iface ssid key stale w) rs ∧
      AlwaysStep Session.rx (InstallsVerified (pbkdf2Sha1 stale key ssid 4096 32) iface.mac.toList)
        (.connected iface ssid key stale w) rs := by
  intro h
  obtain ⟨rs, hrs⟩ := cut_message3_installs (pbkdf2Sha1 (fun _ _ _ => 0) [0x62] [0x61] 4096 32)
    sampleInterface.mac.toList (s := .connected sampleInterface [0x61] [0x62] (fun _ _ _ => 0) sampleState) rfl
  exact hrs (h _ _ _ _ _ rs).2

/-- With all 16 bytes of the MIC in the frame a key is installed as it should be. -/
theorem whole_message3_installs : ∃ rs s',
    run Session.rx (.connected sampleInterface [0x61] [0x62] (fun _ _ _ => 0) sampleState) rs = some s' ∧
      (keyWrites s'.writes).length = 1 ∧
      Always Session.rx InstallsOnce (.connected sampleInterface [0x61] [0x62] (fun _ _ _ => 0) sampleState) rs ∧
      AlwaysStep Session.rx
        (InstallsVerified (pbkdf2Sha1 (fun _ _ _ => 0) [0x62] [0x61] 4096 32) sampleInterface.mac.toList)
        (.connected sampleInterface [0x61] [0x62] (fun _ _ _ => 0) sampleState) rs := by
  obtain ⟨s₁, s₂, hs₁, hs₂, hkey⟩ := cutMessage3_installs
    (s := .connected sampleInterface [0x61] [0x62] (fun _ _ _ => 0) sampleState) rfl (by decide : 8 ≤ 16) (Nat.le_refl 16)
  have hwhole := installs_verified_once sampleInterface [0x61] [0x62] (fun _ _ _ => 0) sampleState
    [sampleMessage1, cutMessage3 (sampleMic s₁.wpa.kck 16) 16] (meets_of_forall (whole_frames (length_wpaComputeMic _ _ _)))
  have hrun : run Session.rx (.connected sampleInterface [0x61] [0x62] (fun _ _ _ => 0) sampleState)
      [sampleMessage1, cutMessage3 (sampleMic s₁.wpa.kck 16) 16] = some s₂ := by
    rw [run, hs₁, Option.bind_some, run, hs₂]
    rfl
  refine ⟨_, s₂, hrun, ?_, hwhole⟩
  have honce := (hwhole.1.last hrun).1
  rw [hkey, List.length_append, List.length_singleton] at honce ⊢
  omega

end Crimson.Wifi
