import Crimson.Lib.Words
import Crimson.Wifi.Layout
import Mathlib.Data.List.GetD

/-!
# Data frames (`wifi_rtl8723cs.c`)

`wifi_netif_transmit` wraps an Ethernet frame into a data frame for the access point, and
`wifi_netif_poll` unwraps those that come from it. A frame to send goes into one write, which takes
512 bytes at most, with a descriptor before it; of a received frame only as many bytes are read
as the lowest byte of its length says, into a buffer on the stack. And the destination and the source
of a received frame are taken from the addresses behind their own.

`data_frames_iff` says which frames are nevertheless converted as they should be, whatever the
stack holds.
-/

set_option autoImplicit false

namespace Crimson.Wifi

open Crimson.Lib

/-! ## The two directions -/

/-- `sdio_cmd53_write`, to a card that takes what it is given: the writes it sees. -/
def sdioCmd53Write (addr : Nat) (buf : List UInt8) : Int × List DevWrite :=
  if 512 < buf.length ∨ buf.length = 0 then (-1, []) else (0, [(addr, buf)])

/-- `sdio_cmd53_read`, from a card that gives what it is asked for: the buffer behind it. -/
def sdioCmd53Read (card buf : List UInt8) (len : Nat) : List UInt8 :=
  if 512 < len ∨ len = 0 then buf else card.take len ++ buf.drop len

/-- The descriptor before a frame of `len` bytes. -/
def txDescriptor (len : Nat) : List UInt8 := leBytes 4 len ++ List.replicate 4 0

/-- `rtl8723cs_tx_frame`; `alloc` says whether there is memory for the buffer. -/
def rtl8723csTxFrame (frame : List UInt8) (alloc : Bool) : Int × List DevWrite :=
  if 2048 < frame.length then (-1, [])
  else if !alloc then (-1, [])
  else sdioCmd53Write TX_FIFO (txDescriptor frame.length ++ frame)

/-- `wifi_netif_transmit`; `alloc` and `alloc'` say whether there is memory for the frame, and for the
    buffer of `rtl8723cs_tx_frame`. The bytes of the frame are written one behind the other. -/
def wifiNetifTransmit (iface : Option WifiInterface) (data : List UInt8) (alloc alloc' : Bool) : Int × List DevWrite :=
  match iface with
  | none => (-1, [])
  | some iface =>
    if !alloc then (-1, [])
    else
      let frame := [0x08, 0x01] ++ [0x00, 0x00] ++ iface.connectedBssid.toList ++ iface.mac.toList ++ slice data 0 6 ++
        [0x00, 0x00] ++ [0xAA, 0xAA, 0x03, 0x00, 0x00, 0x00] ++ slice data 12 2 ++ slice data 14 (data.length - 14)
      (0, (rtl8723csTxFrame frame alloc').2)

/-- What `wifi_netif_poll` hands on. -/
inductive RxAction where
  | eapolRx (frame : List UInt8)
  | netRx (eth : List UInt8)
  | wifiRx (frame : List UInt8)
deriving DecidableEq, Repr

/-- The Ethernet frame that is made of the first `rxlen` bytes of the buffer. -/
def reconstruct (rxbuf : List UInt8) (rxlen : Nat) : List UInt8 :=
  slice rxbuf 16 6 ++ (if rxbuf.getD 1 0 &&& 0x02 ≠ 0 then slice rxbuf 10 6 else slice rxbuf 22 6) ++ slice rxbuf 30 2 ++
    slice rxbuf 32 (rxlen - 32)

/-- `wifi_netif_poll`, with the register, the frame the card has, what the stack has where the buffer
    is, and whether there is memory. The length is read as two bytes, and cast to one to read the frame. -/
def wifiNetifPoll (iface : Option WifiInterface) (hisr : UInt32) (card stack : List UInt8) (alloc : Bool) : List RxAction :=
  match iface with
  | none => []
  | some _ =>
    if hisr &&& 0x02 = 0 then []
    else
      let rxlen := card.length % 65536
      if rxlen < 24 ∨ 2048 < rxlen then []
      else
        let rxbuf := sdioCmd53Read card stack (rxlen % 256)
        if 36 < rxlen ∧ rxbuf.getD 30 0 = 0x88 ∧ rxbuf.getD 31 0 = 0x8E then [.eapolRx (rxbuf.take rxlen)]
        else if rxbuf.getD 0 0 &&& 0x0C = 0x08 ∧ 32 < rxlen then
          if !alloc then [] else [.netRx (reconstruct rxbuf rxlen), .wifiRx (rxbuf.take rxlen)]
        else [.wifiRx (rxbuf.take rxlen)]

/-- The frames given to `net_rx_frame`. -/
def injected (actions : List RxAction) : List (List UInt8) :=
  actions.filterMap fun
    | .netRx eth => some eth
    | _ => none

/-! ## Data frames -/

/-- A data frame: the header, with a QoS field in some, and LLC/SNAP before the payload. -/
structure DataFrame where
  typ : UInt8
  flags : UInt8
  duration : List UInt8
  addr1 : List UInt8
  addr2 : List UInt8
  addr3 : List UInt8
  seq : List UInt8
  qos : List UInt8
  etherType : List UInt8
  payload : List UInt8
deriving DecidableEq, Repr

def DataFrame.header (f : DataFrame) : List UInt8 :=
  [f.typ, f.flags] ++ f.duration ++ f.addr1 ++ f.addr2 ++ f.addr3 ++ f.seq ++ f.qos

def llcSnap : List UInt8 := [0xAA, 0xAA, 0x03, 0x00, 0x00, 0x00]

def DataFrame.bytes (f : DataFrame) : List UInt8 := f.header ++ llcSnap ++ f.etherType ++ f.payload

structure DataFrame.WellFormed (f : DataFrame) : Prop where
  typ : f.typ &&& 0x0C = 0x08
  duration : f.duration.length = 2
  addr1 : f.addr1.length = 6
  addr2 : f.addr2.length = 6
  addr3 : f.addr3.length = 6
  seq : f.seq.length = 2
  qos : f.qos.length = if f.typ &&& 0x80 = 0 then 0 else 2
  etherType : f.etherType.length = 2

/-- To the access point, or from it. -/
def DataFrame.ToDs (f : DataFrame) : Prop := f.flags &&& 0x03 = 0x01
def DataFrame.FromDs (f : DataFrame) : Prop := f.flags &&& 0x03 = 0x02

/-- The Ethernet frame of a frame from the access point. -/
def DataFrame.ethernet (f : DataFrame) : List UInt8 := f.addr1 ++ f.addr3 ++ f.etherType ++ f.payload

/-- The card is handed one frame for this Ethernet frame: by way of the access point, from here, to its
    destination, with its type and its payload. -/
def Hands (iface : WifiInterface) (data : List UInt8) (writes : List DevWrite) : Prop :=
  ∃ f : DataFrame, f.WellFormed ∧ f.ToDs ∧ f.addr1 = iface.connectedBssid.toList ∧ f.addr2 = iface.mac.toList ∧
    f.addr3 = data.take 6 ∧ f.etherType = slice data 12 2 ∧ f.payload = data.drop 14 ∧
    writes = [(TX_FIFO, txDescriptor f.bytes.length ++ f.bytes)]

/-- Its Ethernet frame is injected, and nothing else, whatever was on the stack. -/
def Injects (iface : WifiInterface) (hisr : UInt32) (f : DataFrame) (alloc : Bool) : Prop :=
  ∀ stack, stack.length = 2048 → injected (wifiNetifPoll (some iface) hisr f.bytes stack alloc) = [f.ethernet]

section

variable {iface : WifiInterface} {data : List UInt8} {alloc alloc' : Bool} {f : DataFrame} {hisr : UInt32}
  {card stack : List UInt8}

/-! ## Sending -/

theorem length_txDescriptor (len : Nat) : (txDescriptor len).length = 8 := by
  simp [txDescriptor]

/-- The frame that `wifi_netif_transmit` builds. -/
def toDsFrame (iface : WifiInterface) (data : List UInt8) : DataFrame where
  typ := 0x08
  flags := 0x01
  duration := [0x00, 0x00]
  addr1 := iface.connectedBssid.toList
  addr2 := iface.mac.toList
  addr3 := slice data 0 6
  seq := [0x00, 0x00]
  qos := []
  etherType := slice data 12 2
  payload := slice data 14 (data.length - 14)

theorem wellFormed_toDsFrame (hlen : 14 ≤ data.length) : (toDsFrame iface data).WellFormed := by
  constructor
  · show (0x08 : UInt8) &&& 0x0C = 0x08
    decide
  · rfl
  · exact Vector.length_toList
  · exact Vector.length_toList
  · exact length_slice (by omega)
  · rfl
  · show ([] : List UInt8).length = if (0x08 : UInt8) &&& 0x80 = 0 then 0 else 2
    decide
  · exact length_slice (by omega)

theorem length_bytes (h : f.WellFormed) : f.bytes.length = 32 + f.qos.length + f.payload.length := by
  simp only [DataFrame.bytes, DataFrame.header, llcSnap, List.length_append, List.length_cons, List.length_nil, h.duration,
    h.addr1, h.addr2, h.addr3, h.seq, h.etherType]
  omega

theorem transmit_writes : (wifiNetifTransmit (some iface) data true alloc').2 =
    (rtl8723csTxFrame (toDsFrame iface data).bytes alloc').2 := by
  simp [wifiNetifTransmit, toDsFrame, DataFrame.bytes, DataFrame.header, llcSnap]

/-- **A frame is handed to the card exactly when it fits into one write.** -/
theorem hands_iff (hlo : 14 ≤ data.length) (hhi : data.length ≤ 1514) :
    Hands iface data (wifiNetifTransmit (some iface) data alloc alloc').2 ↔
      alloc = true ∧ alloc' = true ∧ data.length ≤ 486 := by
  have hlen : (toDsFrame iface data).bytes.length = data.length + 18 := by
    rw [length_bytes (wellFormed_toDsFrame hlo)]
    simp only [toDsFrame, List.length_nil, length_slice (show 14 + (data.length - 14) ≤ data.length by omega)]
    omega
  constructor
  · rintro ⟨f, -, -, -, -, -, -, -, hwrites⟩
    have hsome : (wifiNetifTransmit (some iface) data alloc alloc').2 ≠ [] := by
      rw [hwrites]
      exact List.cons_ne_nil _ _
    cases alloc with
    | false => exact absurd rfl hsome
    | true =>
      rw [transmit_writes, rtl8723csTxFrame, if_neg (by omega)] at hsome
      cases alloc' with
      | false => exact absurd rfl hsome
      | true =>
        refine ⟨rfl, rfl, ?_⟩
        by_contra hlong
        refine hsome ?_
        rw [if_neg (by decide), sdioCmd53Write, if_pos]
        rw [List.length_append, length_txDescriptor, hlen]
        omega
  · rintro ⟨rfl, rfl, hfits⟩
    have htods : (0x01 : UInt8) &&& 0x03 = 0x01 := by decide
    refine ⟨toDsFrame iface data, wellFormed_toDsFrame hlo, htods, rfl, rfl, ?_, rfl, ?_, ?_⟩
    · exact slice_zero data 6
    · exact List.take_of_length_le (by rw [List.length_drop])
    · rw [transmit_writes, rtl8723csTxFrame, if_neg (by omega), if_neg (by decide), sdioCmd53Write, if_neg]
      rw [List.length_append, length_txDescriptor, hlen]
      omega

/-! ## Receiving -/

/-- What lies at an offset is found there. -/
theorem slice_mid {pre mid post : List UInt8} {o n : Nat} (hpre : pre.length = o) (hmid : mid.length = n) :
    slice (pre ++ (mid ++ post)) o n = mid := by
  subst hpre hmid
  rw [slice, List.drop_left, List.take_left]

/-- Where the fields of a frame are, when there is no QoS field. -/
theorem slice_fields (h : f.WellFormed) (hqos : f.qos = []) (rest : List UInt8) :
    slice (f.bytes ++ rest) 10 6 = f.addr2 ∧ slice (f.bytes ++ rest) 16 6 = f.addr3 ∧
      slice (f.bytes ++ rest) 30 2 = f.etherType ∧ slice (f.bytes ++ rest) 32 (f.bytes.length - 32) = f.payload := by
  have hlen := length_bytes h
  rw [hqos, List.length_nil] at hlen
  have hd := h.duration
  have h1 := h.addr1
  have h2 := h.addr2
  have h3 := h.addr3
  have hs := h.seq
  have he := h.etherType
  refine ⟨?_, ?_, ?_, ?_⟩
  · have hsplit : f.bytes ++ rest = ([f.typ, f.flags] ++ f.duration ++ f.addr1) ++
        (f.addr2 ++ (f.addr3 ++ f.seq ++ f.qos ++ llcSnap ++ f.etherType ++ f.payload ++ rest)) := by
      simp [DataFrame.bytes, DataFrame.header]
    rw [hsplit, slice_mid (by simp [hd, h1]) h2]
  · have hsplit : f.bytes ++ rest = ([f.typ, f.flags] ++ f.duration ++ f.addr1 ++ f.addr2) ++
        (f.addr3 ++ (f.seq ++ f.qos ++ llcSnap ++ f.etherType ++ f.payload ++ rest)) := by
      simp [DataFrame.bytes, DataFrame.header]
    rw [hsplit, slice_mid (by simp [hd, h1, h2]) h3]
  · have hsplit : f.bytes ++ rest = (f.header ++ llcSnap) ++ (f.etherType ++ (f.payload ++ rest)) := by
      simp [DataFrame.bytes]
    rw [hsplit, slice_mid (by simp [DataFrame.header, llcSnap, hqos, hd, h1, h2, h3, hs]) he]
  · have hsplit : f.bytes ++ rest = (f.header ++ llcSnap ++ f.etherType) ++ (f.payload ++ rest) := by
      simp [DataFrame.bytes]
    rw [hsplit, slice_mid (by simp [DataFrame.header, llcSnap, hqos, hd, h1, h2, h3, hs, he]) (by omega)]

/-- The frame that is injected for a frame of data length, if it is one. -/
theorem injected_poll (hhisr : hisr &&& 0x02 ≠ 0) (hlo : 33 ≤ card.length) (hhi : card.length ≤ 2048) (e : List UInt8) :
    injected (wifiNetifPoll (some iface) hisr card stack alloc) = [e] ↔
      let rxbuf := sdioCmd53Read card stack (card.length % 256)
      ¬(36 < card.length ∧ rxbuf.getD 30 0 = 0x88 ∧ rxbuf.getD 31 0 = 0x8E) ∧ rxbuf.getD 0 0 &&& 0x0C = 0x08 ∧
        alloc = true ∧ reconstruct rxbuf card.length = e := by
  have hmod : card.length % 65536 = card.length := Nat.mod_eq_of_lt (by omega)
  have hrange : ¬(card.length < 24 ∨ 2048 < card.length) := by omega
  simp only [wifiNetifPoll, hmod, if_neg hhisr, if_neg hrange]
  generalize sdioCmd53Read card stack (card.length % 256) = rxbuf
  split
  · rename_i heapol
    exact iff_of_false (by simp [injected]) fun h => h.1 heapol
  · rename_i heapol
    split
    · rename_i hdata
      cases alloc with
      | false => exact iff_of_false (by simp [injected]) fun h => absurd h.2.2.1 (by decide)
      | true =>
        refine ⟨fun h => ⟨heapol, hdata.1, rfl, ?_⟩, fun h => ?_⟩
        · exact (List.cons.inj h).1
        · rw [← h.2.2.2]
          rfl
    · rename_i hdata
      exact iff_of_false (by simp [injected]) fun h => hdata ⟨h.2.1, by omega⟩

/-- With a frame of less than 256 bytes, all of it is in the buffer. -/
theorem read_short (hpos : 0 < card.length) (hlen : card.length < 256) :
    sdioCmd53Read card stack (card.length % 256) = card ++ stack.drop card.length := by
  rw [Nat.mod_eq_of_lt hlen, sdioCmd53Read, if_neg (by omega), List.take_length]

/-- With a longer one, the buffer has its last byte from the stack. -/
theorem read_long {c : UInt8} (hlo : 256 ≤ card.length) (hhi : card.length ≤ 2048) :
    (sdioCmd53Read card (List.replicate 2048 c) (card.length % 256)).length = 2048 ∧
      (sdioCmd53Read card (List.replicate 2048 c) (card.length % 256)).getD (card.length - 1) 0 = c := by
  have hmod : card.length % 256 ≤ card.length - 1 := by omega
  have hcut : card.length % 256 < 256 := Nat.mod_lt _ (by decide)
  generalize card.length % 256 = m at hmod hcut
  unfold sdioCmd53Read
  split
  · refine ⟨List.length_replicate, ?_⟩
    rw [List.getD_replicate _ (by omega)]
  · refine ⟨?_, ?_⟩
    · simp only [List.length_append, List.length_take, List.length_drop, List.length_replicate]
      omega
    · rw [List.getD_append_right _ _ _ _ (by rw [List.length_take]; omega), List.drop_replicate, List.getD_replicate]
      rw [List.length_take]
      omega

/-- What is reconstructed is the Ethernet frame, part by part. -/
theorem reconstruct_eq_iff (h : f.WellFormed) {rxbuf : List UInt8} {rxlen : Nat} (hlen : 32 ≤ rxbuf.length) :
    reconstruct rxbuf rxlen = f.ethernet ↔
      slice rxbuf 16 6 = f.addr1 ∧ (if rxbuf.getD 1 0 &&& 0x02 ≠ 0 then slice rxbuf 10 6 else slice rxbuf 22 6) = f.addr3 ∧
        slice rxbuf 30 2 = f.etherType ∧ slice rxbuf 32 (rxlen - 32) = f.payload := by
  have hda : (slice rxbuf 16 6).length = f.addr1.length := by rw [length_slice (by omega), h.addr1]
  have hsa : (if rxbuf.getD 1 0 &&& 0x02 ≠ 0 then slice rxbuf 10 6 else slice rxbuf 22 6).length = f.addr3.length := by
    split <;> rw [length_slice (by omega), h.addr3]
  have htype : (slice rxbuf 30 2).length = f.etherType.length := by rw [length_slice (by omega), h.etherType]
  rw [reconstruct, DataFrame.ethernet]
  simp only [List.append_assoc]
  constructor
  · intro heq
    obtain ⟨hdst, heq⟩ := List.append_inj heq hda
    obtain ⟨hsrc, heq⟩ := List.append_inj heq hsa
    obtain ⟨hethertype, heq⟩ := List.append_inj heq htype
    exact ⟨hdst, hsrc, hethertype, heq⟩
  · rintro ⟨hdst, hsrc, hethertype, hpayload⟩
    rw [hdst, hsrc, hethertype, hpayload]

/-- The last byte of a frame is that of its payload. -/
theorem getD_last (h : f.WellFormed) (hpayload : f.payload ≠ []) :
    f.bytes.getD (f.bytes.length - 1) 0 = f.payload.getD (f.payload.length - 1) 0 := by
  have hpos := List.length_pos_of_ne_nil hpayload
  have hlen := length_bytes h
  have hhead : (f.header ++ llcSnap ++ f.etherType).length = f.bytes.length - f.payload.length := by
    simp only [DataFrame.bytes, List.length_append]
    omega
  have hidx : f.bytes.length - 1 - (f.bytes.length - f.payload.length) = f.payload.length - 1 := by omega
  conv_lhs => rw [DataFrame.bytes]
  rw [List.getD_append_right _ _ _ _ (by rw [hhead, ← DataFrame.bytes]; omega), hhead, ← DataFrame.bytes, hidx]

theorem getD_slice {xs : List UInt8} {o n i : Nat} (h : i < n) : (slice xs o n).getD i 0 = xs.getD (o + i) 0 := by
  rw [slice, List.getD_eq_getElem?_getD, List.getElem?_take_of_lt h, List.getElem?_drop, List.getD_eq_getElem?_getD]

theorem slice_two {xs : List UInt8} {o : Nat} (h : o + 2 ≤ xs.length) :
    slice xs o 2 = [xs.getD o 0, xs.getD (o + 1) 0] := by
  have hlen := length_slice h
  have h0 : (slice xs o 2).getD 0 0 = xs.getD (o + 0) 0 := getD_slice (by decide)
  have h1 : (slice xs o 2).getD 1 0 = xs.getD (o + 1) 0 := getD_slice (by decide)
  obtain ⟨a, b, hab⟩ := List.length_eq_two.mp hlen
  rw [hab] at h0 h1
  rw [hab, ← Nat.add_zero o, ← h0, Nat.add_zero, ← h1]
  rfl

/-- A frame from the access point has the bit that the code looks at. -/
theorem fromDs_bit (h : f.FromDs) (rest : List UInt8) : (f.bytes ++ rest).getD 1 0 &&& 0x02 ≠ 0 := by
  show f.flags &&& 0x02 ≠ 0
  have hmask : f.flags &&& 0x02 = (f.flags &&& 0x03) &&& 0x02 := by
    rw [UInt8.and_assoc]
    rfl
  rw [hmask, h]
  decide

theorem add_one_ne (b : UInt8) : b + 1 ≠ b := by
  intro h
  have hnat := congrArg UInt8.toNat h
  rw [UInt8.toNat_add] at hnat
  have hlt := b.toNat_lt
  have hone : (1 : UInt8).toNat = 1 := rfl
  omega

/-- A payload of the length that the code expects leaves no room for a QoS field. -/
theorem qos_of_payload (h : f.WellFormed) {rxbuf : List UInt8} (hlo : 32 ≤ f.bytes.length)
    (hlen : f.bytes.length ≤ rxbuf.length) (heq : slice rxbuf 32 (f.bytes.length - 32) = f.payload) : f.qos = [] := by
  have hbytes := length_bytes h
  have hslice := length_slice (show 32 + (f.bytes.length - 32) ≤ rxbuf.length by omega)
  rw [heq] at hslice
  exact List.length_eq_zero_iff.mp (by omega)

/-- **A frame is injected as it should be, whatever the stack holds, exactly when** it has less than 256
    bytes and no QoS field, and its three addresses are one. -/
theorem injects_iff (h : f.WellFormed) (hds : f.FromDs) (hhisr : hisr &&& 0x02 ≠ 0) (hlo : 33 ≤ f.bytes.length)
    (hhi : f.bytes.length ≤ 2048) (heapol : f.etherType ≠ [0x88, 0x8E]) :
    Injects iface hisr f alloc ↔
      alloc = true ∧ f.bytes.length < 256 ∧ f.qos = [] ∧ f.addr3 = f.addr1 ∧ f.addr2 = f.addr3 := by
  have hlen := length_bytes h
  constructor
  · intro hall
    -- a stack full of a byte that the frame does not end with
    have hstack := hall (List.replicate 2048 (f.bytes.getD (f.bytes.length - 1) 0 + 1)) List.length_replicate
    rw [injected_poll hhisr hlo hhi] at hstack
    obtain ⟨-, -, halloc, heq⟩ := hstack
    by_cases hshort : f.bytes.length < 256
    · rw [read_short (by omega) hshort] at heq
      generalize List.drop f.bytes.length _ = rest at heq
      rw [reconstruct_eq_iff h (by rw [List.length_append]; omega), if_pos (fromDs_bit hds rest)] at heq
      obtain ⟨hda, hsa, -, hpayload⟩ := heq
      have hqos := qos_of_payload h (by omega) (by rw [List.length_append]; omega) hpayload
      obtain ⟨h10, h16, -, -⟩ := slice_fields h hqos rest
      exact ⟨halloc, hshort, hqos, h16 ▸ hda, h10 ▸ hsa⟩
    · -- the payload would end with the byte of the stack
      obtain ⟨hbuf, hlast⟩ := read_long (c := f.bytes.getD (f.bytes.length - 1) 0 + 1) (Nat.le_of_not_lt hshort) hhi
      rw [reconstruct_eq_iff h (by omega)] at heq
      obtain ⟨-, -, -, hpayload⟩ := heq
      have hqos := qos_of_payload h (by omega) (by omega) hpayload
      rw [hqos, List.length_nil] at hlen
      have hne : f.payload ≠ [] := by
        intro hnil
        rw [hnil, List.length_nil] at hlen
        omega
      have hpos := List.length_pos_of_ne_nil hne
      have hbyte := getD_last h hne
      rw [← hpayload, length_slice (by omega), getD_slice (by omega), ← Nat.add_sub_assoc (by omega),
        show 32 + (f.bytes.length - 32) = f.bytes.length by omega, hlast] at hbyte
      exact absurd hbyte.symm (add_one_ne _)
  · rintro ⟨rfl, hshort, hqos, hdst, hsrc⟩ stack hstack
    rw [injected_poll hhisr hlo hhi, read_short (by omega) hshort]
    obtain ⟨h10, h16, h30, h32⟩ := slice_fields h hqos (stack.drop f.bytes.length)
    dsimp only
    refine ⟨?_, h.typ, rfl, ?_⟩
    · rintro ⟨-, hb30, hb31⟩
      rw [slice_two (by rw [List.length_append]; omega), hb30, hb31] at h30
      exact heapol h30.symm
    · rw [reconstruct_eq_iff h (by rw [List.length_append]; omega), if_pos (fromDs_bit hds _)]
      exact ⟨h16.trans hdst, h10.trans hsrc, h30, h32⟩

end

/-- **Data frames, exactly.** -/
theorem data_frames_iff (iface : WifiInterface) {hisr : UInt32} (hhisr : hisr &&& 0x02 ≠ 0) :
    (∀ data alloc alloc', 14 ≤ data.length → data.length ≤ 1514 →
      (Hands iface data (wifiNetifTransmit (some iface) data alloc alloc').2 ↔
        alloc = true ∧ alloc' = true ∧ data.length ≤ 486)) ∧
    (∀ (f : DataFrame) alloc, f.WellFormed → f.FromDs → 33 ≤ f.bytes.length → f.bytes.length ≤ 2048 →
      f.etherType ≠ [0x88, 0x8E] →
      (Injects iface hisr f alloc ↔
        alloc = true ∧ f.bytes.length < 256 ∧ f.qos = [] ∧ f.addr3 = f.addr1 ∧ f.addr2 = f.addr3)) :=
  ⟨fun _ _ _ hlo hhi => hands_iff hlo hhi, fun _ _ h hds hlo hhi heapol => injects_iff h hds hhisr hlo hhi heapol⟩

/-- An IPv4 frame from the access point, with one byte of payload. -/
def fromAccessPoint (addr1 addr2 addr3 : UInt8) : DataFrame where
  typ := 0x08
  flags := 0x02
  duration := [0, 0]
  addr1 := List.replicate 6 addr1
  addr2 := List.replicate 6 addr2
  addr3 := List.replicate 6 addr3
  seq := [0, 0]
  qos := []
  etherType := [0x08, 0x00]
  payload := [0x45]

theorem wellFormed_fromAccessPoint (addr1 addr2 addr3 : UInt8) :
    (fromAccessPoint addr1 addr2 addr3).WellFormed ∧ (fromAccessPoint addr1 addr2 addr3).FromDs := by
  have htyp : (0x08 : UInt8) &&& 0x0C = 0x08 := by decide
  have hqos : ([] : List UInt8).length = if (0x08 : UInt8) &&& 0x80 = 0 then 0 else 2 := by decide
  have hflags : (0x02 : UInt8) &&& 0x03 = 0x02 := by decide
  exact ⟨⟨htyp, rfl, rfl, rfl, rfl, rfl, hqos, rfl⟩, hflags⟩

/-- A short frame to send, and a frame that the access point sends to itself. -/
theorem data_frames_small :
    Hands sampleInterface (List.replicate 60 7) (wifiNetifTransmit (some sampleInterface) (List.replicate 60 7) true true).2 ∧
      Injects sampleInterface 2 (fromAccessPoint 6 6 6) true := by
  obtain ⟨hsend, hreceive⟩ := data_frames_iff sampleInterface (show (2 : UInt32) &&& 0x02 ≠ 0 by decide)
  obtain ⟨hwf, hds⟩ := wellFormed_fromAccessPoint 6 6 6
  refine ⟨?_, ?_⟩
  · exact (hsend (List.replicate 60 7) true true (by decide) (by decide)).mpr ⟨rfl, rfl, by decide⟩
  · exact (hreceive _ true hwf hds (by decide) (by decide) (by decide)).mpr ⟨rfl, by decide, rfl, rfl, rfl⟩

/-- A frame of 487 bytes is not sent; one from station 3 by way of access point 2 is injected with other addresses. -/
theorem data_frames_lost :
    ¬Hands sampleInterface (List.replicate 487 7) (wifiNetifTransmit (some sampleInterface) (List.replicate 487 7) true true).2 ∧
      ¬Injects sampleInterface 2 (fromAccessPoint 1 2 3) true := by
  obtain ⟨hwf, hds⟩ := wellFormed_fromAccessPoint 1 2 3
  refine ⟨fun h => ?_, fun h => ?_⟩
  · have hrange : 14 ≤ (List.replicate 487 (7 : UInt8)).length ∧ (List.replicate 487 (7 : UInt8)).length ≤ 1514 := by
      rw [List.length_replicate]
      decide
    obtain ⟨-, -, hlen⟩ := (hands_iff hrange.1 hrange.2).mp h
    rw [List.length_replicate] at hlen
    exact absurd hlen (by decide)
  · obtain ⟨-, -, -, haddr, -⟩ := (injects_iff hwf hds (by decide) (by decide) (by decide) (by decide)).mp h
    exact absurd haddr (by decide)

end Crimson.Wifi
