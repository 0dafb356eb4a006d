import Crimson.Lib.Run
import Mathlib.Data.List.GetD
import Mathlib.Data.UInt

/-!
# Packets from the modem (`modem_eg25g.c`)

`cell_netif_poll` empties the UART into a buffer of 2048 bytes and gives the first packet in it,
if it is complete, to `net_rx_frame`. A byte for which there is no room is thrown away.

It asks for each byte with `uart3_getc_timeout(0)`, which reads the clock for its deadline and
looks at the UART only while the clock is before that.
-/

set_option autoImplicit false

namespace Crimson.Phone

open Crimson.Lib

/-- The size of `g_cell_rx_buf`. -/
def cellRxBufSize : Nat := 2048

/-- `g_cell_rx_buf` up to `g_cell_rx_pos`, the address of `g_cell_netif`, the bytes that the UART
    has, how often the clock has been read, and the frames given to `net_rx_frame` so far. -/
structure CellLink where
  rxBuf : List UInt8
  mac : Vector UInt8 6
  waiting : List UInt8
  readings : Nat
  frames : List (List UInt8)

/-- `timer_get_uptime_ms`, from the counter of the CPU. -/
def timerGetUptimeMs (count freq : UInt64) : UInt64 := count * 1000 / freq

/-- The loop of `uart3_getc_timeout`: a byte or -1, and `none` where the loop is not left after
    `fuel` turns. -/
def getcLoop (clock : Nat → UInt64) (deadline : UInt64) : Nat → CellLink → Option (Option UInt8 × CellLink)
  | 0, _ => none
  | fuel + 1, l =>
    if clock l.readings < deadline then
      match l.waiting with
      | c :: waiting => some (some c, { l with waiting := waiting, readings := l.readings + 1 })
      | [] => getcLoop clock deadline fuel { l with readings := l.readings + 1 }
    else some (none, { l with readings := l.readings + 1 })

def uart3GetcTimeout (clock : Nat → UInt64) (timeoutMs : UInt32) (fuel : Nat) (l : CellLink) :
    Option (Option UInt8 × CellLink) :=
  getcLoop clock (clock l.readings + timeoutMs.toUInt64) fuel { l with readings := l.readings + 1 }

def putRx (l : CellLink) (c : UInt8) : CellLink :=
  if l.rxBuf.length < cellRxBufSize then { l with rxBuf := l.rxBuf ++ [c] } else l

/-- The loop that empties the UART, at most `n` bytes of it. -/
def drainUart (clock : Nat → UInt64) (fuel : Nat) : Nat → CellLink → Option CellLink
  | 0, _ => none
  | n + 1, l =>
    (uart3GetcTimeout clock 0 fuel l).bind fun r =>
      match r.1 with
      | some c => drainUart clock fuel n (putRx r.2 c)
      | none => some r.2

/-- The total length in the header of the packet in front. -/
def ipLen (buf : List UInt8) : Nat := ((buf.getD 2 0).toUInt16 <<< 8 ||| (buf.getD 3 0).toUInt16).toNat

/-- The packet behind a made-up Ethernet header. -/
def cellFrame (mac : Vector UInt8 6) (packet : List UInt8) : List UInt8 :=
  List.replicate 6 0x00 ++ mac.toList ++ [0x08, 0x00] ++ packet

/-- Whether a whole packet is in front. -/
def CompletePacket (buf : List UInt8) : Prop := 20 ≤ buf.length ∧ ipLen buf ≤ buf.length

instance (buf : List UInt8) : Decidable (CompletePacket buf) := by
  unfold CompletePacket
  infer_instance

/-- What is done with the buffer; `mem` says whether `kmalloc` finds memory. -/
def deliverPacket (l : CellLink) (mem : Bool) : CellLink :=
  if CompletePacket l.rxBuf then
    { l with
      rxBuf := l.rxBuf.drop (ipLen l.rxBuf)
      frames := if mem then l.frames ++ [cellFrame l.mac (l.rxBuf.take (ipLen l.rxBuf))] else l.frames }
  else l

/-- The bytes that have come to the UART since the last poll, and whether there is memory. -/
structure CellPoll where
  arrived : List UInt8
  mem : Bool

def cellNetifPoll (clock : Nat → UInt64) (fuel : Nat) (l : CellLink) (p : CellPoll) : Option CellLink :=
  (drainUart clock fuel fuel { l with waiting := l.waiting ++ p.arrived }).map fun l => deliverPacket l p.mem

/-- The link before the first byte. -/
def cellStart (mac : Vector UInt8 6) : CellLink where
  rxBuf := []
  mac := mac
  waiting := []
  readings := 0
  frames := []

/-- A packet of a length that the header gives. -/
structure IsPacket (p : List UInt8) : Prop where
  short : 20 ≤ p.length
  fits : p.length ≤ cellRxBufSize
  length : ipLen p = p.length

/-- The polls come back, the frames are those of the packets, in order, and nothing is left. -/
def Delivered (clock : Nat → UInt64) (fuel : Nat) (mac : Vector UInt8 6) (polls : List CellPoll)
    (packets : List (List UInt8)) : Prop :=
  ∃ l, run (cellNetifPoll clock fuel) (cellStart mac) polls = some l ∧
    l.frames = packets.map (cellFrame mac) ∧ l.rxBuf = [] ∧ l.waiting = []

/-! ## What is done with the bytes that have been read -/

/-- The part of a poll behind the reading, with the bytes that have been read. -/
def cellReceive (l : CellLink) (bytes : List UInt8) (mem : Bool) : CellLink :=
  deliverPacket (bytes.foldl putRx l) mem

/-- The bytes of a poll fit, and if they complete a packet there is memory for it. -/
def KeepsUp (l : CellLink) (p : CellPoll) : Prop :=
  l.rxBuf.length + p.arrived.length ≤ cellRxBufSize ∧ (CompletePacket (l.rxBuf ++ p.arrived) → p.mem = true)

variable {l : CellLink}

/-- Bytes go behind the others as far as there is room. -/
theorem foldl_putRx (bytes : List UInt8) (hl : l.rxBuf.length ≤ cellRxBufSize) :
    bytes.foldl putRx l = { l with rxBuf := (l.rxBuf ++ bytes).take cellRxBufSize } := by
  induction bytes generalizing l with
  | nil => simp [List.take_of_length_le hl]
  | cons c bytes ih =>
    rw [List.foldl_cons, putRx]
    split
    next hroom =>
      rw [ih (by simp only [List.length_append, List.length_singleton]; omega)]
      simp
    next hfull =>
      have heq : l.rxBuf.length = cellRxBufSize := by omega
      rw [ih hl, List.take_left' heq, List.take_left' heq]

theorem ipLen_append {buf : List UInt8} (h : 4 ≤ buf.length) (more : List UInt8) : ipLen (buf ++ more) = ipLen buf := by
  unfold ipLen
  rw [List.getD_append _ _ _ _ (by omega), List.getD_append _ _ _ _ (by omega)]

/-- The front packet of the stream is found as soon as it is there, and not before. -/
theorem completePacket_iff {buf future p more : List UInt8} (hp : IsPacket p) (heq : buf ++ future = p ++ more) :
    CompletePacket buf ↔ p.length ≤ buf.length := by
  have hshort := hp.short
  have hlen : 20 ≤ buf.length → ipLen buf = p.length := by
    intro h20
    rw [← ipLen_append (by omega) future, heq, ipLen_append (by omega), hp.length]
  constructor
  · rintro ⟨h20, hle⟩
    rwa [hlen h20] at hle
  · intro hle
    have h20 : 20 ≤ buf.length := by omega
    exact ⟨h20, by rwa [hlen h20]⟩

theorem deliverPacket_of_complete {future p more : List UInt8} (hp : IsPacket p) (heq : l.rxBuf ++ future = p ++ more)
    (hle : p.length ≤ l.rxBuf.length) (mem : Bool) :
    ∃ rest, l.rxBuf = p ++ rest ∧ rest ++ future = more ∧ deliverPacket l mem =
      { l with rxBuf := rest, frames := if mem then l.frames ++ [cellFrame l.mac p] else l.frames } := by
  obtain ⟨rest, hrest⟩ : p <+: l.rxBuf :=
    List.prefix_of_prefix_length_le ⟨more, heq.symm⟩ ⟨future, rfl⟩ hle
  have hlen : ipLen l.rxBuf = p.length := by
    rw [← hrest, ipLen_append (by have := hp.short; omega), hp.length]
  refine ⟨rest, hrest.symm, ?_, ?_⟩
  · rw [← hrest, List.append_assoc] at heq
    exact List.append_cancel_left heq
  · rw [deliverPacket, if_pos ((completePacket_iff hp heq).mpr hle), hlen, ← hrest, List.drop_left, List.take_left]

/-- What is left in front of the packets still to come: the buffer and the bytes to be read after
    it are a stream of packets. -/
structure InSync (l : CellLink) (future : List UInt8) (rest : List (List UInt8)) : Prop where
  stream : l.rxBuf ++ future = rest.flatten
  packets : ∀ p ∈ rest, IsPacket p
  room : l.rxBuf.length ≤ cellRxBufSize

/-- The bytes given on and those in the buffer. -/
def CellLink.total (l : CellLink) : Nat := (l.frames.map fun f => f.length - 14).sum + l.rxBuf.length

theorem length_cellFrame (mac : Vector UInt8 6) (p : List UInt8) : (cellFrame mac p).length = 14 + p.length := by
  simp [cellFrame]
  omega

theorem total_deliverPacket_le (l : CellLink) (mem : Bool) : (deliverPacket l mem).total ≤ l.total := by
  unfold deliverPacket
  split
  next hc =>
    have hle := hc.2
    cases mem
    · simp [CellLink.total]
    · simp only [CellLink.total, if_true, List.map_append, List.map_cons, List.map_nil, List.sum_append_nat,
        List.sum_cons, List.sum_nil, length_cellFrame, List.length_take, List.length_drop]
      omega
  next => exact le_rfl

/-- What is not lost of the bytes of a poll. -/
theorem total_foldl_putRx (bytes : List UInt8) (hl : l.rxBuf.length ≤ cellRxBufSize) :
    (bytes.foldl putRx l).total ≤ l.total + bytes.length ∧
      (cellRxBufSize < l.rxBuf.length + bytes.length → (bytes.foldl putRx l).total < l.total + bytes.length) := by
  rw [foldl_putRx bytes hl]
  simp only [CellLink.total, List.length_take, List.length_append]
  constructor <;> omega

theorem total_cellReceive_le (bytes : List UInt8) (mem : Bool) (hl : l.rxBuf.length ≤ cellRxBufSize) :
    (cellReceive l bytes mem).total ≤ l.total + bytes.length :=
  Nat.le_trans (total_deliverPacket_le _ _) (total_foldl_putRx bytes hl).1

theorem room_cellReceive (bytes : List UInt8) (mem : Bool) (hl : l.rxBuf.length ≤ cellRxBufSize) :
    (cellReceive l bytes mem).rxBuf.length ≤ cellRxBufSize := by
  rw [cellReceive, foldl_putRx bytes hl, deliverPacket]
  split
  · simp only [List.length_drop, List.length_take]
    omega
  · simp only [List.length_take]
    omega

variable {future : List UInt8} {rest : List (List UInt8)} {p : CellPoll}

/-- **A poll that keeps up** gives on the first packet if it is there, and loses nothing. If
    nothing is to come any more, it is there. -/
theorem InSync.keepsUp (h : InSync l (p.arrived ++ future) rest) (hk : KeepsUp l p) :
    ∃ k, InSync (cellReceive l p.arrived p.mem) future (rest.drop k) ∧
      (cellReceive l p.arrived p.mem).frames = l.frames ++ (rest.take k).map (cellFrame l.mac) ∧
      (cellReceive l p.arrived p.mem).mac = l.mac ∧ (future = [] → k = 1) := by
  obtain ⟨hfit, hmem⟩ := hk
  have hput : p.arrived.foldl putRx l = { l with rxBuf := l.rxBuf ++ p.arrived } := by
    rw [foldl_putRx _ h.room, List.take_of_length_le (by rw [List.length_append]; exact hfit)]
  have hroom := room_cellReceive p.arrived p.mem h.room
  have hstream := h.stream
  rw [← List.append_assoc] at hstream
  simp only [cellReceive, hput] at hroom ⊢
  cases rest with
  | nil =>
    -- nothing is left, and nothing comes
    obtain ⟨hnone, rfl⟩ := List.append_eq_nil_iff.mp hstream
    have hwhole : ¬CompletePacket (l.rxBuf ++ p.arrived) := by
      rw [hnone]
      exact fun hc => absurd hc.1 (by simp)
    refine ⟨1, ⟨?_, by simp, hroom⟩, ?_, ?_, fun _ => rfl⟩
    · simpa [deliverPacket, hwhole] using hnone
    · simp [deliverPacket, hwhole]
    · simp [deliverPacket, hwhole]
  | cons packet rest =>
    have hpacket := h.packets packet (by simp)
    rw [List.flatten_cons] at hstream
    by_cases hle : packet.length ≤ (l.rxBuf ++ p.arrived).length
    · have hwhole := (completePacket_iff hpacket hstream).mpr hle
      obtain ⟨more, -, hmore, hdeliver⟩ := deliverPacket_of_complete (l := { l with rxBuf := l.rxBuf ++ p.arrived })
        hpacket hstream hle p.mem
      rw [hdeliver] at hroom ⊢
      refine ⟨1, ⟨hmore, fun q hq => h.packets q (by simp_all), hroom⟩, ?_, rfl, fun _ => rfl⟩
      simp [hmem hwhole]
    · -- part of the packet is still to come
      have hwhole := mt (completePacket_iff hpacket hstream).mp hle
      rw [deliverPacket, if_neg hwhole] at hroom ⊢
      refine ⟨0, ⟨hstream, h.packets, hroom⟩, by simp, rfl, ?_⟩
      rintro rfl
      refine absurd ?_ hle
      rw [List.append_nil] at hstream
      rw [hstream, List.length_append]
      exact Nat.le_add_right _ _

/-- A poll that does not keep up loses bytes. -/
theorem InSync.loses (h : InSync l (p.arrived ++ future) rest) (hk : ¬KeepsUp l p) :
    (cellReceive l p.arrived p.mem).total < l.total + p.arrived.length := by
  by_cases hfit : l.rxBuf.length + p.arrived.length ≤ cellRxBufSize
  · have hput : p.arrived.foldl putRx l = { l with rxBuf := l.rxBuf ++ p.arrived } := by
      rw [foldl_putRx _ h.room, List.take_of_length_le (by rw [List.length_append]; exact hfit)]
    have hstream := h.stream
    rw [← List.append_assoc] at hstream
    have hbad : ¬(CompletePacket (l.rxBuf ++ p.arrived) → p.mem = true) := fun hm => hk ⟨hfit, hm⟩
    obtain ⟨hwhole, hmem⟩ := Classical.not_imp.mp hbad
    cases rest with
    | nil =>
      obtain ⟨hnone, -⟩ := List.append_eq_nil_iff.mp hstream
      rw [hnone] at hwhole
      exact absurd hwhole.1 (by simp)
    | cons packet rest =>
      have hpacket := h.packets packet (by simp)
      rw [List.flatten_cons] at hstream
      obtain ⟨more, heq, -, hdeliver⟩ := deliverPacket_of_complete (l := { l with rxBuf := l.rxBuf ++ p.arrived })
        hpacket hstream ((completePacket_iff hpacket hstream).mp hwhole) p.mem
      have hshort := hpacket.short
      have hlen := congrArg List.length heq
      simp only [List.length_append] at hlen
      rw [cellReceive, hput, hdeliver, Bool.eq_false_iff.mpr hmem]
      show (l.frames.map fun f => f.length - 14).sum + more.length < l.total + p.arrived.length
      rw [CellLink.total]
      omega
  · exact Nat.lt_of_le_of_lt (total_deliverPacket_le _ _)
      ((total_foldl_putRx p.arrived h.room).2 (Nat.lt_of_not_le hfit))

/-! ## The stream as a whole -/

/-- The polls of the bytes read at each. -/
def receiveStep (l : CellLink) (p : CellPoll) : Option CellLink := some (cellReceive l p.arrived p.mem)

def receiveAll (l : CellLink) (polls : List CellPoll) : CellLink :=
  polls.foldl (fun l p => cellReceive l p.arrived p.mem) l

theorem run_receiveStep {polls : List CellPoll} : run receiveStep l polls = some (receiveAll l polls) := by
  induction polls generalizing l with
  | nil => rfl
  | cons p polls ih => exact ih

/-- Polls that keep up give on packets from the front of the stream. -/
theorem InSync.run {polls : List CellPoll} (h : InSync l (polls.flatMap CellPoll.arrived) rest)
    (hk : Meets receiveStep KeepsUp l polls) :
    ∃ k, InSync (receiveAll l polls) [] (rest.drop k) ∧
      (receiveAll l polls).frames = l.frames ++ (rest.take k).map (cellFrame l.mac) ∧ (receiveAll l polls).mac = l.mac := by
  induction polls generalizing l rest with
  | nil => exact ⟨0, h, by simp [receiveAll], rfl⟩
  | cons p polls ih =>
    obtain ⟨hp, hpolls⟩ := hk _ rfl
    obtain ⟨k, hnext, hframes, hmac, -⟩ := h.keepsUp hp
    obtain ⟨n, hlast, hframes', hmac'⟩ := ih hnext hpolls
    refine ⟨k + n, ?_, ?_, hmac'.trans hmac⟩
    · rw [← List.drop_drop]
      exact hlast
    · show (receiveAll (cellReceive l p.arrived p.mem) polls).frames = _
      rw [hframes', hframes, hmac, List.take_add, List.map_append, List.append_assoc]

/-- When everything has come, every poll gives on a packet. -/
theorem InSync.run_idle {idle : List CellPoll} (hidle : ∀ p ∈ idle, p.arrived = []) (h : InSync l [] rest)
    (hk : Meets receiveStep KeepsUp l idle) :
    InSync (receiveAll l idle) [] (rest.drop idle.length) ∧
      (receiveAll l idle).frames = l.frames ++ (rest.take idle.length).map (cellFrame l.mac) := by
  induction idle generalizing l rest with
  | nil => exact ⟨h, by simp [receiveAll]⟩
  | cons p idle ih =>
    obtain ⟨hp, hpolls⟩ := hk _ rfl
    have hnone := hidle p (by simp)
    have hnow : InSync l (p.arrived ++ []) rest := by rw [hnone]; exact h
    obtain ⟨k, hnext, hframes, hmac, hone⟩ := hnow.keepsUp hp
    obtain rfl := hone rfl
    obtain ⟨hlast, hframes'⟩ := ih (fun q hq => hidle q (by simp [hq])) hnext hpolls
    rw [List.drop_drop, Nat.add_comm] at hlast
    refine ⟨hlast, ?_⟩
    show (receiveAll (cellReceive l p.arrived p.mem) idle).frames = _
    rw [hframes', hframes, hmac, List.append_assoc, ← List.map_append, ← List.take_add, List.length_cons, Nat.add_comm 1]

theorem total_receiveAll_le (polls : List CellPoll) (hl : l.rxBuf.length ≤ cellRxBufSize) :
    (receiveAll l polls).total ≤ l.total + (polls.flatMap CellPoll.arrived).length := by
  induction polls generalizing l with
  | nil => exact le_rfl
  | cons p polls ih =>
    have hstep := total_cellReceive_le p.arrived p.mem hl
    have hrest := ih (room_cellReceive p.arrived p.mem hl)
    rw [List.flatMap_cons, List.length_append]
    show (receiveAll (cellReceive l p.arrived p.mem) polls).total ≤ _
    omega

/-- Polls that lose nothing have kept up. -/
theorem InSync.meets {polls : List CellPoll} (h : InSync l (polls.flatMap CellPoll.arrived) rest)
    (htotal : (receiveAll l polls).total = l.total + (polls.flatMap CellPoll.arrived).length) :
    Meets receiveStep KeepsUp l polls := by
  induction polls generalizing l rest with
  | nil => trivial
  | cons p polls ih =>
    intro l' hl'
    obtain rfl := Option.some.inj hl'
    have hstep := total_cellReceive_le p.arrived p.mem h.room
    have hrest := total_receiveAll_le polls (room_cellReceive p.arrived p.mem h.room)
    rw [List.flatMap_cons, List.length_append] at htotal
    have htotal : (receiveAll (cellReceive l p.arrived p.mem) polls).total =
      l.total + (p.arrived.length + (polls.flatMap CellPoll.arrived).length) := htotal
    have hk : KeepsUp l p := by
      by_contra hbad
      have hless := h.loses hbad
      omega
    obtain ⟨k, hnext, -⟩ := h.keepsUp hk
    exact ⟨hk, ih hnext (by omega)⟩

/-- The bytes in the frames of packets. -/
theorem sum_frames (mac : Vector UInt8 6) (packets : List (List UInt8)) :
    ((packets.map (cellFrame mac)).map fun f => f.length - 14).sum = packets.flatten.length := by
  simp [List.length_flatten, length_cellFrame, Function.comp_def]

/-- **The bytes that have been read come out as the packets they are exactly if every poll keeps
    up**: they find room behind those of earlier polls, and a complete packet finds memory. -/
theorem framing_iff {packets : List (List UInt8)} (hpackets : ∀ p ∈ packets, IsPacket p) (mac : Vector UInt8 6)
    {polls idle : List CellPoll} (hcome : polls.flatMap CellPoll.arrived = packets.flatten)
    (hidle : ∀ p ∈ idle, p.arrived = []) (hlong : packets.length ≤ idle.length) :
    ((receiveAll (cellStart mac) (polls ++ idle)).frames = packets.map (cellFrame mac) ∧
        (receiveAll (cellStart mac) (polls ++ idle)).rxBuf = []) ↔
      Meets receiveStep KeepsUp (cellStart mac) (polls ++ idle) := by
  have hnone : idle.flatMap CellPoll.arrived = [] := List.flatMap_eq_nil_iff.mpr hidle
  have hstart : InSync (cellStart mac) (polls.flatMap CellPoll.arrived) packets :=
    ⟨hcome, hpackets, Nat.zero_le _⟩
  have hall : receiveAll (cellStart mac) (polls ++ idle) = receiveAll (receiveAll (cellStart mac) polls) idle :=
    List.foldl_append
  constructor
  · rintro ⟨hframes, hbuf⟩
    have hsync : InSync (cellStart mac) ((polls ++ idle).flatMap CellPoll.arrived) packets := by
      rw [List.flatMap_append, hnone, List.append_nil]
      exact hstart
    refine hsync.meets ?_
    rw [CellLink.total, hframes, hbuf, sum_frames, List.flatMap_append, hnone, List.append_nil, hcome]
    simp [CellLink.total, cellStart]
  · intro hk
    obtain ⟨k, hsync, hframes, hmac⟩ := hstart.run hk.before
    obtain ⟨hlast, hframes'⟩ := hsync.run_idle hidle (hk.behind run_receiveStep)
    have hlen : (packets.drop k).length ≤ idle.length := by
      rw [List.length_drop]
      omega
    rw [List.drop_eq_nil_of_le hlen] at hlast
    rw [hall]
    refine ⟨?_, by simpa using hlast.stream⟩
    rw [hframes', hframes, hmac, List.take_of_length_le hlen, List.append_assoc, ← List.map_append,
      List.take_append_drop]
    rfl

/-! ## What is read -/

variable {clock : Nat → UInt64}

/-- The link with another UART and clock. -/
def CellLink.at (l : CellLink) (waiting : List UInt8) (readings : Nat) : CellLink :=
  { l with waiting := waiting, readings := readings }

theorem putRx_at (l : CellLink) (waiting : List UInt8) (readings : Nat) (c : UInt8) :
    putRx (l.at waiting readings) c = (putRx l c).at waiting readings := by
  by_cases hroom : l.rxBuf.length < cellRxBufSize <;> simp [putRx, CellLink.at, hroom]

theorem foldl_putRx_at (bytes : List UInt8) (waiting : List UInt8) (readings : Nat) :
    bytes.foldl putRx (l.at waiting readings) = (bytes.foldl putRx l).at waiting readings := by
  induction bytes generalizing l with
  | nil => rfl
  | cons c bytes ih => rw [List.foldl_cons, List.foldl_cons, putRx_at, ih]

theorem deliverPacket_at (l : CellLink) (waiting : List UInt8) (readings : Nat) (mem : Bool) :
    deliverPacket (l.at waiting readings) mem = (deliverPacket l mem).at waiting readings := by
  by_cases hwhole : CompletePacket l.rxBuf <;> simp [deliverPacket, CellLink.at, hwhole]

/-- A call that returns has taken the byte in front, or none. -/
theorem getcLoop_reads {deadline : UInt64} {fuel : Nat} {l l' : CellLink} {c : Option UInt8}
    (h : getcLoop clock deadline fuel l = some (c, l')) :
    l.waiting = c.toList ++ l'.waiting ∧ l' = l.at l'.waiting l'.readings := by
  fun_induction getcLoop clock deadline fuel l with
  | case1 => cases h
  | case2 fuel l _ c waiting hwaiting =>
    obtain ⟨rfl, rfl⟩ := Prod.mk.inj (Option.some.inj h)
    exact ⟨hwaiting, rfl⟩
  | case3 fuel l _ hwaiting ih => exact ih h
  | case4 fuel l _ =>
    obtain ⟨rfl, rfl⟩ := Prod.mk.inj (Option.some.inj h)
    exact ⟨rfl, rfl⟩

theorem uart3GetcTimeout_reads {timeoutMs : UInt32} {fuel : Nat} {l l' : CellLink} {c : Option UInt8}
    (h : uart3GetcTimeout clock timeoutMs fuel l = some (c, l')) :
    l.waiting = c.toList ++ l'.waiting ∧ l' = l.at l'.waiting l'.readings := by
  obtain ⟨hfront, hsame⟩ := getcLoop_reads h
  exact ⟨hfront, hsame⟩

theorem drainUart_reads {fuel n : Nat} {l l' : CellLink} (h : drainUart clock fuel n l = some l') :
    ∃ bytes, l.waiting = bytes ++ l'.waiting ∧ l' = (bytes.foldl putRx l).at l'.waiting l'.readings := by
  induction n generalizing l with
  | zero => cases h
  | succ n ih =>
    obtain ⟨⟨c, t⟩, hc, hrest⟩ := Option.bind_eq_some_iff.mp h
    obtain ⟨hfront, hsame⟩ := uart3GetcTimeout_reads hc
    cases c with
    | none =>
      obtain rfl := Option.some.inj hrest
      exact ⟨[], hfront, hsame⟩
    | some c =>
      obtain ⟨bytes, hbytes, hl'⟩ := ih hrest
      have hput : putRx t c = (putRx l c).at t.waiting t.readings :=
        (congrArg (putRx · c) hsame).trans (putRx_at l t.waiting t.readings c)
      rw [hput] at hbytes hl'
      refine ⟨c :: bytes, ?_, ?_⟩
      · have hbytes : t.waiting = bytes ++ l'.waiting := hbytes
        rw [List.cons_append, ← hbytes]
        exact hfront
      · rw [foldl_putRx_at] at hl'
        exact hl'

/-- **A poll that returns** has taken bytes from the front of those that wait, and has done with them
    what `cellReceive` does. -/
theorem cellNetifPoll_reads {fuel : Nat} {l l' : CellLink} {p : CellPoll} (h : cellNetifPoll clock fuel l p = some l') :
    ∃ bytes, l.waiting ++ p.arrived = bytes ++ l'.waiting ∧
      l' = (cellReceive l bytes p.mem).at l'.waiting l'.readings := by
  obtain ⟨t, ht, rfl⟩ := Option.map_eq_some_iff.mp h
  obtain ⟨bytes, hbytes, hsame⟩ := drainUart_reads ht
  have hlink : ({ l with waiting := l.waiting ++ p.arrived } : CellLink) = l.at (l.waiting ++ p.arrived) l.readings := rfl
  have hdone : deliverPacket t p.mem = (cellReceive l bytes p.mem).at t.waiting t.readings := by
    rw [hlink, foldl_putRx_at] at hsame
    rw [hsame]
    exact deliverPacket_at (bytes.foldl putRx l) t.waiting t.readings p.mem
  rw [hdone]
  exact ⟨bytes, hbytes, rfl⟩

end Crimson.Phone
