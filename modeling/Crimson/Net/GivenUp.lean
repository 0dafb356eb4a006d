import Crimson.Net.SendSide

/-!
# Segments given up (`net.c`)

`tcp_send` takes the bytes of a segment off the ring whether or not `tcp_send_segment`
transmits them, and only a transmission moves `snd_nxt`. So after a segment of data was
given up the next one carries later bytes under the number of the lost ones. Up to then
the transmitted bytes, the ring and what is left of the call are the stream that was given.
-/

set_option autoImplicit false

namespace Crimson.Net

open Crimson.Lib

/-- What was transmitted. -/
def SendState.transmitted (st : SendState) : List Byte := streamOf TcpSegment.payload st.segments

/-- Every segment of data carries the given bytes at the place of its number, and none of
    those before was skipped. -/
structure CarriesGiven (base : UInt32) (st : SendState) : Prop where
  place : ∀ seg ∈ st.segments, seg.payload ≠ [] →
    ∃ pos, seg.seq = seqAt base pos ∧ seg.payload = (st.given.drop pos).take seg.payload.length
  unskipped : st.transmitted <+: st.given

/-- A segment of data is transmitted only if none was given up. -/
def NoneGivenUp (st : SendState) : SendOp → Prop
  | .round sent => SendsSegment st.sock st.pending → sent = true → st.gaveUp = false
  | _ => True

instance (st : SendState) (op : SendOp) : Decidable (NoneGivenUp st op) :=
  match op with
  | .round _ => inferInstanceAs (Decidable (_ → _ → _ = _))
  | .send _ | .rx _ _ _ | .timer _ => .isTrue trivial

/-- A connection that has sent no data yet. -/
structure GivenStart (s : TcpSocket) : Prop where
  established : s.state = .established
  number : s.sndNxt = s.iss + 1
  txOk : TxOk s
  empty : s.txCount = 0

/-- The invariant: numbers by place, and the whole stream as long as nothing was given up. -/
structure GivenInv (base : UInt32) (st : SendState) : Prop where
  connected : st.sock.state.connected = true
  numbered : Numbered TcpSegment.payload TcpSegment.seq (seqAt base) st.segments
  sndNxt : st.sock.sndNxt = seqAt base st.transmitted.length
  unskipped : st.transmitted <+: st.given
  whole : st.gaveUp = false → TxOk st.sock ∧ st.given = st.transmitted ++ txQueue st.sock ++ st.pending

variable {base : UInt32} {st st' : SendState}

theorem GivenInv.carries (h : GivenInv base st) : CarriesGiven base st where
  unskipped := h.unskipped
  place := by
    intro seg hmem _
    obtain ⟨i, hi, hget⟩ := List.getElem_of_mem hmem
    have hseg : st.segments[i]? = some seg := List.getElem?_eq_some_iff.mpr ⟨hi, hget⟩
    refine ⟨(streamBefore TcpSegment.payload st.segments i).length, h.numbered i seg hseg, ?_⟩
    obtain ⟨rest, hrest⟩ := (streamBefore_extends hseg).trans h.unskipped
    rw [← hrest, List.append_assoc, List.drop_left, List.take_left]

theorem givenInv_start {s : TcpSocket} (h : GivenStart s) : GivenInv (s.iss + 1) (sendStart s) where
  connected := by
    show s.state.connected = true
    rw [h.established]
    rfl
  numbered := numbered_nil
  sndNxt := h.number.trans (UInt32.add_zero _).symm
  unskipped := List.nil_prefix
  whole := by
    intro _
    refine ⟨h.txOk, ?_⟩
    show [] = [] ++ txQueue s ++ []
    rw [txQueue, h.empty]
    rfl

/-- An event that says nothing new. -/
theorem GivenInv.quiet {out : TcpSocket × List TcpSegment} (h : GivenInv base st) (hq : Quiet st.sock out) :
    GivenInv base (st.after out) := by
  have hempty : ∀ seg ∈ out.2, seg.payload = [] ∧ seg.seq = seqAt base (streamOf TcpSegment.payload st.segments).length :=
    fun seg hseg => ⟨(hq.empty seg hseg).1, (hq.empty seg hseg).2.trans h.sndNxt⟩
  obtain ⟨hnum, hsame⟩ := h.numbered.append_empty hempty
  have htrans : (st.after out).transmitted = st.transmitted := hsame
  refine ⟨hq.connected h.connected, hnum, ?_, ?_, ?_⟩
  · show out.1.sndNxt = _
    rw [htrans, hq.same.sndNxt]
    exact h.sndNxt
  · rw [htrans]
    exact h.unskipped
  · intro hno
    obtain ⟨hok, hgiven⟩ := h.whole hno
    refine ⟨hq.same.txOk hok, ?_⟩
    show st.given = (st.after out).transmitted ++ txQueue out.1 ++ st.pending
    rw [htrans, hq.same.txQueue]
    exact hgiven

/-- A round in which nothing was given up yet and nothing is. -/
theorem GivenInv.sentRound {out : TcpSocket × List Byte × List TcpSegment} (h : GivenInv base st)
    (hno : st.gaveUp = false) (hr : tcpSendRound st.sock st.pending true = some out) :
    GivenInv base { st.after (out.1, out.2.2) with pending := out.2.1 } := by
  obtain ⟨hok, hgiven⟩ := h.whole hno
  have hround := tcpSendRound_spec hok hr
  have htrans : streamOf TcpSegment.payload (st.segments ++ out.2.2) =
      st.transmitted ++ streamOf TcpSegment.payload out.2.2 := streamOf_append
  have hwhole : st.given = streamOf TcpSegment.payload (st.segments ++ out.2.2) ++ txQueue out.1 ++ out.2.1 := by
    rw [hgiven, htrans, List.append_assoc, hround.stream]
    simp only [List.append_assoc]
  refine ⟨(tcpSendRound_idle hr).connected h.connected, ?_, ?_, ?_, fun _ => ⟨hround.ok, hwhole⟩⟩
  · show Numbered TcpSegment.payload TcpSegment.seq (seqAt base) (st.segments ++ out.2.2)
    cases hround.segs with
    | inl hnil =>
      rw [hnil, List.append_nil]
      exact h.numbered
    | inr hone =>
      obtain ⟨seg, hseg, hseq⟩ := hone
      rw [hseg]
      exact h.numbered.append (hseq.trans h.sndNxt)
  · show out.1.sndNxt = seqAt base (streamOf TcpSegment.payload (st.segments ++ out.2.2)).length
    rw [hround.next, h.sndNxt, htrans, List.length_append, seqAt_add]
  · show streamOf TcpSegment.payload (st.segments ++ out.2.2) <+: st.given
    rw [hwhole, List.append_assoc]
    exact List.prefix_append _ _

/-- A round that transmits nothing. -/
theorem RoundEnd.silent {s : TcpSocket} {data : List Byte} {sent : Bool} {out : TcpSocket × List Byte × List TcpSegment}
    (h : RoundEnd s data sent out) (hno : SendsSegment s data → sent = false) :
    out.2.2 = [] ∧ out.1.sndNxt = s.sndNxt := by
  cases h with
  | queued k hk hsends => exact ⟨rfl, rfl⟩
  | offered k n hk hsends hn hpayload =>
    obtain rfl := hno hsends
    exact ⟨rfl, rfl⟩

/-- Whether the segment would be transmitted does not matter to a round that offers none. -/
theorem tcpSendRound_queued {s : TcpSocket} {data : List Byte} (hno : ¬ SendsSegment s data) (sent : Bool) :
    tcpSendRound s data sent = tcpSendRound s data true := by
  unfold tcpSendRound
  simp only
  split
  · rfl
  · split
    · rename_i hnagle
      have hpos : ¬ 0 < sendPayload (queueData s (data.take (min data.length (txSpace s)))) :=
        fun hpos => hno ⟨hnagle, hpos⟩
      rw [if_neg hpos, if_neg hpos]
    · rfl

/-- A round that transmits nothing, once a segment was given up. -/
theorem GivenInv.silentRound {sent : Bool} {out : TcpSocket × List Byte × List TcpSegment} (h : GivenInv base st)
    (hr : tcpSendRound st.sock st.pending sent = some out) (hno : SendsSegment st.sock st.pending → sent = false) :
    GivenInv base { st.after (out.1, out.2.2) with pending := out.2.1, gaveUp := true } := by
  obtain ⟨hnil, hnxt⟩ := (tcpSendRound_end hr).2.silent hno
  have hsegs : st.segments ++ out.2.2 = st.segments := by rw [hnil, List.append_nil]
  refine ⟨(tcpSendRound_idle hr).connected h.connected, ?_, ?_, ?_, fun hfalse => Bool.noConfusion hfalse⟩
  · show Numbered TcpSegment.payload TcpSegment.seq (seqAt base) (st.segments ++ out.2.2)
    rw [hsegs]
    exact h.numbered
  · show out.1.sndNxt = seqAt base (streamOf TcpSegment.payload (st.segments ++ out.2.2)).length
    rw [hsegs, hnxt]
    exact h.sndNxt
  · show streamOf TcpSegment.payload (st.segments ++ out.2.2) <+: st.given
    rw [hsegs]
    exact h.unskipped

/-- **Every step keeps the numbers and the places**, when data is transmitted only as long
    as none was given up. -/
theorem GivenInv.step {op : SendOp} (h : GivenInv base st) (hg : NoneGivenUp st op) (hs : sendStep st op = some st') :
    GivenInv base st' := by
  cases op with
  | send data =>
    obtain ⟨-, hidle, rfl⟩ := sendStep_send hs
    refine ⟨h.connected, h.numbered, h.sndNxt, h.unskipped.trans (List.prefix_append _ _), ?_⟩
    intro hno
    obtain ⟨hok, hgiven⟩ := h.whole hno
    refine ⟨hok, ?_⟩
    show st.given ++ data = st.transmitted ++ txQueue st.sock ++ data
    rw [hgiven, hidle, List.append_nil]
  | round sent =>
    obtain ⟨-, out, hr, rfl⟩ := sendStep_round hs
    by_cases hlost : SendsSegment st.sock st.pending → sent = true
    · have hflag : (st.gaveUp || (!sent && decide (SendsSegment st.sock st.pending))) = st.gaveUp := by
        by_cases hsends : SendsSegment st.sock st.pending
        · rw [hlost hsends]
          simp
        · simp [hsends]
      rw [hflag]
      cases hgave : st.gaveUp with
      | false =>
        have hr' : tcpSendRound st.sock st.pending true = some out := by
          by_cases hsends : SendsSegment st.sock st.pending
          · rw [← hlost hsends]
            exact hr
          · rw [← tcpSendRound_queued hsends sent]
            exact hr
        have hkeep := h.sentRound hgave hr'
        rw [SendState.after, hgave] at hkeep
        exact hkeep
      | true =>
        refine h.silentRound hr fun hsends => ?_
        exact absurd ((hg hsends (hlost hsends)).symm.trans hgave) Bool.false_ne_true
    · -- a segment is lost here, and from now on data counts as given up
      obtain ⟨hsends, hsent⟩ := Classical.not_imp.mp hlost
      have hfalse : sent = false := eq_false_of_ne_true hsent
      have hflag : (st.gaveUp || (!sent && decide (SendsSegment st.sock st.pending))) = true := by
        rw [hfalse]
        simp [hsends]
      rw [hflag]
      exact h.silentRound hr fun _ => hfalse
  | rx seg us ms =>
    obtain rfl := Option.some.inj hs
    exact h.quiet (deliverTo_quiet st.sock seg us ms h.connected)
  | timer now =>
    obtain rfl := Option.some.inj hs
    exact h.quiet (tcpTimer_quiet st.sock now)

/-- **Segments given up do not shift the stream as long as no data follows them**: in a run
    in which a segment of data is transmitted only if none was given up, every segment
    carries the bytes at the place of its number, in every state. -/
theorem given_carried (s : TcpSocket) (h : GivenStart s) (ops : List SendOp)
    (hg : Meets sendStep NoneGivenUp (sendStart s) ops) :
    Always sendStep (CarriesGiven (s.iss + 1)) (sendStart s) ops := by
  have hinv : Always sendStep (GivenInv (s.iss + 1)) (sendStart s) ops :=
    always_of_meets (fun _ _ _ hI hgi hs => hI.step hgi hs) (givenInv_start h) hg
  exact hinv.mono fun _ => GivenInv.carries

/-- A connection whose first data byte has the number 1. -/
def givenPeer : TcpSocket := { nearPeer with sndUna := 1, sndNxt := 1 }

theorem givenPeer_start : GivenStart givenPeer where
  established := rfl
  number := by decide
  txOk := ⟨by decide, by decide, by decide⟩
  empty := rfl

theorem given_carried_lastLost :
    Always sendStep (CarriesGiven (givenPeer.iss + 1)) (sendStart givenPeer)
      [.send [7], .round true, .rx (peerAck 2) 0 0, .send [8], .round false] :=
  given_carried givenPeer givenPeer_start _
    (meets_of_check (fun st op => decide (NoneGivenUp st op)) (fun _ _ hc => of_decide_eq_true hc) (by decide))

/-- The first byte is given up, and the second is transmitted under its number. -/
def lostByte : List SendOp := [.send [7], .round false, .send [8], .round true]

theorem lostByte_shifts :
    GivenStart givenPeer ∧ ¬ Always sendStep (CarriesGiven (givenPeer.iss + 1)) (sendStart givenPeer) lostByte := by
  refine ⟨givenPeer_start, ?_⟩
  intro h
  have hend : run sendStep (sendStart givenPeer) lostByte = some _ := eq_some_getD (sendStart givenPeer) (by decide)
  have hcarries := h.last hend
  have hgiven : ((run sendStep (sendStart givenPeer) lostByte).getD (sendStart givenPeer)).given = [7, 8] := by decide
  obtain ⟨pos, hseq, hbytes⟩ := hcarries.place (segment givenPeer (TCP_FLAG_ACK ||| TCP_FLAG_PSH) [8])
    (by decide) (List.cons_ne_nil _ _)
  rw [hgiven] at hbytes
  -- the byte 8 stands at 1 in what was given, and the segment has the number of place 0
  match pos with
  | 0 => exact absurd hbytes (by decide)
  | 1 => exact absurd hseq (by decide)
  | pos + 2 => exact absurd hbytes (by simp)

end Crimson.Net
