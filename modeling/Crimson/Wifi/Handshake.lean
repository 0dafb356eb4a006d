import Crimson.Lib.Run
import Crimson.Wifi.Sha1

/-!
# The 4-way handshake of the Wi-Fi driver (`wifi_rtl8723cs.c`)

`rtl8723cs_connect` derives the pairwise master key, and `rtl8723cs_eapol_rx` is given every EAPOL
frame: on message 1 it derives the PTK and sends message 2, on message 3 it verifies the MIC,
writes the temporal key to the hardware and sends message 4. What a call gives to the device is a
list of `DevWrite`s, and the two messages are built by lists of writes into a buffer, so that both
can be read back as the source has them.
-/

set_option autoImplicit false

namespace Crimson.Wifi

/-- `n` bytes of `xs` from offset `o` on. -/
def slice (xs : List UInt8) (o n : Nat) : List UInt8 := (xs.drop o).take n

/-- `memcmp(xs, ys, n) <= 0`, on two arrays of one length. -/
def memcmpLe : List UInt8 → List UInt8 → Bool
  | x :: xs, y :: ys => if x = y then memcmpLe xs ys else decide (x ≤ y)
  | _, _ => true

/-! ## The state -/

/-- `wpa_state_t` (the driver reads and writes no replay counter of it). -/
structure WpaState where
  pmk : List UInt8
  ptk : List UInt8
  kck : List UInt8
  kek : List UInt8
  tk : List UInt8
  anonce : List UInt8
  snonce : List UInt8
  aa : List UInt8
  spa : List UInt8
  handshakeStep : Nat
deriving DecidableEq, Repr

/-- What the handshake uses of a `wifi_interface_t`. -/
structure WifiInterface where
  mac : Vector UInt8 6
  connectedBssid : Vector UInt8 6
  state : Nat
deriving DecidableEq, Repr

/-- A write to the device: a register address, and the bytes. -/
abbrev DevWrite := Nat × List UInt8

/-- Where frames are written to, and the register of the temporal key. -/
def TX_FIFO : Nat := 0x8000
def REG_TK : Nat := 0x0E10
def REG_CCMP : Nat := 0x0E08

/-! ## Keys -/

/-- The string `"Pairwise key expansion"`. -/
def ptkLabel : List UInt8 := "Pairwise key expansion".toList.map fun c => UInt8.ofNat c.toNat

/-- The array `b` of `wpa_derive_ptk`: min(AA,SPA)||max(AA,SPA)||min(ANonce,SNonce)||max(ANonce,SNonce). -/
def ptkData (aa spa anonce snonce : List UInt8) : List UInt8 :=
  let aaLt := memcmpLe aa spa
  let anLt := memcmpLe anonce snonce
  (if aaLt then aa else spa) ++ (if aaLt then spa else aa) ++
    (if anLt then anonce else snonce) ++ (if anLt then snonce else anonce)

/-- The 64 bytes that `wpa_derive_ptk` writes to `ptk`. -/
def derivedPtk (stale : Stacks) (pmk aa spa anonce snonce : List UInt8) : List UInt8 :=
  prfSha1 stale pmk ptkLabel (ptkData aa spa anonce snonce) 64

def wpaDerivePtk (stale : Stacks) (w : WpaState) : WpaState :=
  let ptk := derivedPtk stale w.pmk w.aa w.spa w.anonce w.snonce
  { w with ptk := ptk, kck := slice ptk 0 16, kek := slice ptk 16 16, tk := slice ptk 32 16 }

/-- `wpa_compute_mic`, under the key confirmation key `kck`. -/
def wpaComputeMic (stale : Stacks) (kck frame : List UInt8) : List UInt8 := (hmacSha1 stale kck frame).take 16

/-! ## Buffers -/

/-- Writes bytes into a buffer at an offset. What falls behind its end is written to other memory,
    and is not part of the buffer. -/
def put (buf : List UInt8) (w : Nat × List UInt8) : List UInt8 :=
  (buf.take w.1 ++ w.2 ++ buf.drop (w.1 + w.2.length)).take buf.length

/-- A zeroed buffer after a list of writes. -/
def built (size : Nat) (ws : List (Nat × List UInt8)) : List UInt8 := ws.foldl put (List.replicate size 0)

/-! ## The two messages the driver sends -/

/-- The Ethernet header, the EAPOL header and the start of the key descriptor, up to the key
    information (pairwise, MIC), the same in both messages. -/
def eapolHeader (aa mac : List UInt8) : List (Nat × List UInt8) :=
  [(0, aa), (6, mac), (12, [0x88, 0x8E]), (14, [0x02, 0x03]), (16, [0x00, 0x5F]), (18, [0x02]), (19, [0x01, 0x09])]

def rsnShort : List UInt8 :=
  [0x30, 0x14, 0x01, 0x00, 0x00, 0x0F, 0xAC, 0x04, 0x01, 0x00, 0x00, 0x0F, 0xAC, 0x04, 0x01, 0x00,
   0x00, 0x0F, 0xAC, 0x02, 0x00, 0x00]

/-- The writes to `m2` before its MIC is computed; `eapol` is message 1. -/
def m2Unsigned (w : WpaState) (mac eapol : List UInt8) : List (Nat × List UInt8) :=
  eapolHeader w.aa mac ++ [(21, [0x00, 0x00]), (27, slice eapol 25 8), (35, w.snonce)]

/-- The MIC of message 2: over its EAPOL portion. -/
def m2Mic (stale : Stacks) (w : WpaState) (mac eapol : List UInt8) : List UInt8 :=
  wpaComputeMic stale w.kck (slice (built 121 (m2Unsigned w mac eapol)) 14 99)

/-- Every write to `m2`. -/
def m2Writes (stale : Stacks) (w : WpaState) (mac eapol : List UInt8) : List (Nat × List UInt8) :=
  m2Unsigned w mac eapol ++ [(95, m2Mic stale w mac eapol), (111, rsnShort)]

def m2 (stale : Stacks) (w : WpaState) (mac eapol : List UInt8) : List UInt8 :=
  built 121 (m2Writes stale w mac eapol)

/-- The writes to `m4` before its MIC is computed; `eapol` is message 3. -/
def m4Unsigned (w : WpaState) (mac eapol : List UInt8) : List (Nat × List UInt8) :=
  eapolHeader w.aa mac ++ [(27, slice eapol 25 8)]

def m4Mic (stale : Stacks) (w : WpaState) (mac eapol : List UInt8) : List UInt8 :=
  wpaComputeMic stale w.kck (slice (built 77 (m4Unsigned w mac eapol)) 14 63)

/-- Every write to `m4`. -/
def m4Writes (stale : Stacks) (w : WpaState) (mac eapol : List UInt8) : List (Nat × List UInt8) :=
  m4Unsigned w mac eapol ++ [(77, m4Mic stale w mac eapol)]

def m4 (stale : Stacks) (w : WpaState) (mac eapol : List UInt8) : List UInt8 :=
  built 77 (m4Writes stale w mac eapol)

/-! ## `rtl8723cs_connect` -/

/-- The authentication frame (Open System, sequence number 1). -/
def authFrame (iface : WifiInterface) : List UInt8 :=
  (built 32 [(0, [0xB0]), (2, [0x3A]), (4, iface.connectedBssid.toList), (10, iface.mac.toList),
    (16, iface.connectedBssid.toList)]).take 30

/-- The association request. -/
def assocFrame (iface : WifiInterface) (ssid : List UInt8) : List UInt8 :=
  let ssidLen := ssid.length % 256
  [0x00, 0x00, 0x3A, 0x00] ++ iface.connectedBssid.toList ++ iface.mac.toList ++ iface.connectedBssid.toList ++
    [0x00, 0x00, 0x11, 0x04] ++ [0x00, UInt8.ofNat ssidLen] ++ ssid.take ssidLen ++
    [0x01, 0x04, 0x82, 0x84, 0x8B, 0x96] ++ rsnShort

/-- `rtl8723cs_connect`; `ssid` and `key` are the strings without their final zero. -/
def connect (iface : WifiInterface) (ssid key : List UInt8) (stale : Nat → Stacks) (w : WpaState) :
    WpaState × List DevWrite :=
  ({ w with pmk := pbkdf2Sha1 stale key ssid 4096 32, spa := iface.mac.toList, handshakeStep := 0 },
    [(TX_FIFO, authFrame iface), (TX_FIFO, assocFrame iface ssid)])

/-! ## `rtl8723cs_eapol_rx` -/

/-- A call of `rtl8723cs_eapol_rx`: the frame, the random bytes it is given if it asks for a nonce,
    the stacks of its hashes, and what the stack holds in `check_frame` behind the frame. -/
structure Rx where
  frame : List UInt8
  snonce : Vector UInt8 32
  stale : Nat → Stacks
  residue : Stack

/-- The EAPOL portion of a frame. -/
def Rx.eapol (r : Rx) : List UInt8 := r.frame.drop 14

/-- `key_info`. -/
def keyInfo (eapol : List UInt8) : Nat := (eapol.getD 5 0).toNat <<< 8 ||| (eapol.getD 6 0).toNat

def isPairwise (eapol : List UInt8) : Bool := (keyInfo eapol).testBit 3
def isInstall (eapol : List UInt8) : Bool := (keyInfo eapol).testBit 6
def isAck (eapol : List UInt8) : Bool := (keyInfo eapol).testBit 7
def hasMic (eapol : List UInt8) : Bool := (keyInfo eapol).testBit 8

/-- The state of message 1 after its nonces are stored and the PTK is derived. -/
def onMessage1 (r : Rx) (w : WpaState) : WpaState :=
  wpaDerivePtk (r.stale 0)
    { w with anonce := slice r.eapol 17 32, aa := slice r.frame 6 6, snonce := r.snonce.toList }

/-- `check_frame` once the frame is copied into it. -/
def checkFrame (r : Rx) : List UInt8 :=
  r.eapol ++ (List.range (512 - r.eapol.length)).map fun i => r.residue (r.eapol.length + i)

/-- `rx_mic`. -/
def rxMic (r : Rx) : List UInt8 := slice (checkFrame r) 77 16

/-- The bytes of `check_frame` that are hashed: the EAPOL portion with the MIC field zeroed. -/
def micZeroed (r : Rx) : List UInt8 := (put (checkFrame r) (77, List.replicate 16 0)).take r.eapol.length

/-- The byte `diff` of the constant-time comparison. -/
def micDiff (rxMic calcMic : List UInt8) : UInt8 := (xorBytes rxMic calcMic).foldl (fun diff x => diff ||| x) 0

/-- `rtl8723cs_eapol_rx`: the new state, the interface, and the writes to the device. -/
def eapolRx (iface : WifiInterface) (r : Rx) (w : WpaState) : WpaState × WifiInterface × List DevWrite :=
  if r.frame.length < 99 then (w, iface, [])
  else if r.eapol.getD 0 0 ≠ 0x02 ∨ r.eapol.getD 1 0 ≠ 0x03 then (w, iface, [])
  else if isPairwise r.eapol ∧ isAck r.eapol ∧ ¬ hasMic r.eapol ∧ w.handshakeStep = 0 then
    let w := onMessage1 r w
    ({ w with handshakeStep := 1 }, iface, [(TX_FIFO, m2 (r.stale 1) w iface.mac.toList r.eapol)])
  else if isPairwise r.eapol ∧ isInstall r.eapol ∧ hasMic r.eapol ∧ w.handshakeStep = 1 then
    if 512 < r.eapol.length then (w, iface, [])
    else if micDiff (rxMic r) (wpaComputeMic (r.stale 2) w.kck (micZeroed r)) ≠ 0 then (w, iface, [])
    else
      ({ w with handshakeStep := 2 }, { iface with state := 5 },
        [(REG_TK, w.tk), (REG_CCMP, [0x07]), (TX_FIFO, m4 (r.stale 3) w iface.mac.toList r.eapol)])
  else (w, iface, [])

/-- A frame of the kind the driver answers, `eapol[0]` and `eapol[1]` being an EAPOL-Key frame's. -/
def IsEapolKey (r : Rx) : Prop := 99 ≤ r.frame.length ∧ r.eapol.getD 0 0 = 0x02 ∧ r.eapol.getD 1 0 = 0x03

/-- The driver takes the frame as a message 1. -/
def AcceptsMessage1 (w : WpaState) (r : Rx) : Prop :=
  IsEapolKey r ∧ isPairwise r.eapol ∧ isAck r.eapol ∧ ¬ hasMic r.eapol ∧ w.handshakeStep = 0

/-- The driver takes the frame for a message 3, and verifies it. -/
def ChecksMessage3 (w : WpaState) (r : Rx) : Prop :=
  IsEapolKey r ∧ isPairwise r.eapol ∧ isInstall r.eapol ∧ hasMic r.eapol ∧ w.handshakeStep = 1

/-- The MIC of the frame is the one the driver computes. -/
def Verifies (w : WpaState) (r : Rx) : Prop :=
  r.eapol.length ≤ 512 ∧ micDiff (rxMic r) (wpaComputeMic (r.stale 2) w.kck (micZeroed r)) = 0

instance (r : Rx) : Decidable (IsEapolKey r) := inferInstanceAs (Decidable (_ ∧ _))
instance (w : WpaState) (r : Rx) : Decidable (AcceptsMessage1 w r) := inferInstanceAs (Decidable (_ ∧ _))
instance (w : WpaState) (r : Rx) : Decidable (ChecksMessage3 w r) := inferInstanceAs (Decidable (_ ∧ _))

/-- Everything a call can do: answer a message 1, answer a message 3 it has verified, or nothing. -/
theorem eapolRx_cases (iface : WifiInterface) (r : Rx) (w : WpaState) :
    (AcceptsMessage1 w r ∧ eapolRx iface r w = ({ onMessage1 r w with handshakeStep := 1 }, iface,
        [(TX_FIFO, m2 (r.stale 1) (onMessage1 r w) iface.mac.toList r.eapol)])) ∨
      (ChecksMessage3 w r ∧ Verifies w r ∧ eapolRx iface r w = ({ w with handshakeStep := 2 },
        { iface with state := 5 }, [(REG_TK, w.tk), (REG_CCMP, [0x07]),
          (TX_FIFO, m4 (r.stale 3) w iface.mac.toList r.eapol)])) ∨
      (¬ AcceptsMessage1 w r ∧ ¬ (ChecksMessage3 w r ∧ Verifies w r) ∧ eapolRx iface r w = (w, iface, [])) := by
  by_cases hkey : IsEapolKey r
  · have hlen : ¬ r.frame.length < 99 := by
      have := hkey.1
      omega
    have htype : ¬ (r.eapol.getD 0 0 ≠ 0x02 ∨ r.eapol.getD 1 0 ≠ 0x03) := by
      rw [not_or, not_not, not_not]
      exact hkey.2
    by_cases h1 : isPairwise r.eapol ∧ isAck r.eapol ∧ ¬ hasMic r.eapol ∧ w.handshakeStep = 0
    · refine Or.inl ⟨⟨hkey, h1⟩, ?_⟩
      simp only [eapolRx, if_neg hlen, if_neg htype, if_pos h1]
    · refine Or.inr ?_
      have hn1 : ¬ AcceptsMessage1 w r := fun h => h1 h.2
      by_cases h3 : isPairwise r.eapol ∧ isInstall r.eapol ∧ hasMic r.eapol ∧ w.handshakeStep = 1
      · by_cases hv : Verifies w r
        · refine Or.inl ⟨⟨hkey, h3⟩, hv, ?_⟩
          have hv1 : ¬ 512 < r.eapol.length := Nat.not_lt.2 hv.1
          simp only [eapolRx, if_neg hlen, if_neg htype, if_neg h1, if_pos h3]
          rw [if_neg hv1, if_neg (not_not.2 hv.2)]
        · -- longer than `check_frame`, or with another MIC: refused
          refine Or.inr ⟨hn1, fun h => hv h.2, ?_⟩
          simp only [eapolRx, if_neg hlen, if_neg htype, if_neg h1, if_pos h3]
          by_cases hv1 : 512 < r.eapol.length
          · rw [if_pos hv1]
          · have hv2 : micDiff (rxMic r) (wpaComputeMic (r.stale 2) w.kck (micZeroed r)) ≠ 0 :=
              fun h => hv ⟨Nat.not_lt.1 hv1, h⟩
            rw [if_neg hv1, if_pos hv2]
      · refine Or.inr ⟨hn1, fun h => h3 h.1.2, ?_⟩
        simp only [eapolRx, if_neg hlen, if_neg htype, if_neg h1, if_neg h3]
  · -- too short, or of another type
    refine Or.inr (Or.inr ⟨fun h => hkey h.1, fun h => hkey h.1.1, ?_⟩)
    by_cases hlen : r.frame.length < 99
    · simp only [eapolRx, if_pos hlen]
    · have htype : r.eapol.getD 0 0 ≠ 0x02 ∨ r.eapol.getD 1 0 ≠ 0x03 := by
        by_contra h
        rw [not_or, not_not, not_not] at h
        exact hkey ⟨Nat.not_lt.1 hlen, h⟩
      simp only [eapolRx, if_neg hlen, if_pos htype]

end Crimson.Wifi
