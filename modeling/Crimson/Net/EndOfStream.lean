import Crimson.Net.Stream

/-!
# The end of a stream

`tcp_recv` returns 0 for the end of the stream. A FIN is not compared with `rcv_nxt`: one
that overtakes data, or follows data that was lost or did not fit, is counted all the same,
and the data behind it is not taken any more. What holds is stated on the runs of `Stream`
in which nothing of this happens (`InOrder`): there the FIN counts once, in its place, and
an empty read means that everything before it was returned.
-/

set_option autoImplicit false

namespace Crimson.Net

open Crimson.Lib

/-- A FIN was transmitted, and `bytes` has all that was transmitted before it. -/
def StreamState.Ended (st : StreamState) (bytes : List Byte) : Prop :=
  ∃ i seg, st.fromA[i]? = some seg ∧ seg.has TCP_FLAG_FIN = true ∧ st.before i <+: bytes

/-- A step does what the end of the stream asks: an empty read comes behind all the data,
    and a FIN is counted where `rcv_nxt` is, when the data before it was received. -/
def EofStep (st : StreamState) (op : StreamOp) (st' : StreamState) : Prop :=
  match op with
  | .recv _ => st'.returned = st.returned → st.Ended st.returned
  | .toB i _ _ => ∀ seg, st.fromA[i]? = some seg → acceptsFin st.b seg = true →
      seg.seq = st.b.rcvNxt ∧ st.before i = st.received
  | _ => True

/-- `rcv_nxt` counts the bytes received, and at most one FIN. -/
def FinCounted (base : UInt32) (st : StreamState) : Prop :=
  ∃ fins, fins ≤ 1 ∧ st.b.rcvNxt = seqAt base (st.received.length + fins)

/-- The steps at which nothing overtakes anything: what is taken stands in the stream where
    `b` is; nobody reads 0 bytes; `b` does not read after its own close, or after the timer
    gave it up, before the FIN came. -/
def InOrder (st : StreamState) : StreamOp → Prop
  | .toB i _ _ => ∀ seg, st.fromA[i]? = some seg → tcpMatches seg st.b = true → st.b.state.takesData = true →
      seg.has TCP_FLAG_FIN = true ∨ (0 < seg.payload.length ∧ seg.seq = st.b.rcvNxt) →
        (st.before i).length = st.received.length
  | .recv len => 0 < len ∧ (st.b.rxCount = 0 → st.b.state ≠ .finWait1 ∧ st.b.state ≠ .finWait2)
  | .timerB now => ¬ keepAliveEnds st.b now
  | _ => True

theorem InOrder.inPlace {st : StreamState} {op : StreamOp} (h : InOrder st op) : InPlace st op := by
  cases op with
  | toB i us ms =>
    intro seg hseg hacc
    have htake : (tcpMatches seg st.b = true ∧ st.b.state.takesData = true) ∧
        (0 < seg.payload.length ∧ seg.seq = st.b.rcvNxt) := by
      unfold accepts at hacc
      split at hacc
      · rename_i hm
        refine ⟨hm, ?_⟩
        unfold rxAccepted at hacc
        split at hacc
        · assumption
        · cases hacc
      · cases hacc
    exact h seg hseg htake.1.1 htake.1.2 (Or.inr htake.2)
  | _ => trivial

/-! ## The states in which no data is taken -/

theorem tcpCloseStart_takes (s : TcpSocket) : (tcpCloseStart s).1.state.takesData = s.state.takesData := by
  unfold tcpCloseStart
  split
  · rename_i h
    rw [h]
    rfl
  · rename_i h
    rw [h]
    rfl
  · rfl

theorem tcpTimer_takes {s : TcpSocket} {now : Nat} (h : ¬ keepAliveEnds s now) :
    (tcpTimer s now).1.state.takesData = s.state.takesData := by
  unfold tcpTimer
  split
  · obtain ⟨cc, hcc⟩ := timerRetransmit_eq s now
    have hkeep : (timerKeepAlive { s with cc := cc } now).1.state = s.state := by
      unfold timerKeepAlive
      split
      · rename_i hdue
        simp only
        split
        · rename_i hprobes
          exact absurd ⟨hdue.1, hdue.2, hprobes⟩ h
        · rfl
      · rfl
    rw [hcc]
    generalize timerKeepAlive { s with cc := cc } now = out at hkeep
    show (timerTimeWait out.1 now).state.takesData = _
    cases timerTimeWait_eq out.1 now with
    | inl hsame => rw [hsame, hkeep]
    | inr hend =>
      rw [hend.2, ← hkeep, hend.1]
      rfl
  · rfl

theorem tcpSendRound_state {s : TcpSocket} {data : List Byte} {sent : Bool}
    {out : TcpSocket × List Byte × List TcpSegment} (hr : tcpSendRound s data sent = some out) :
    out.1.state = s.state := by
  unfold tcpSendRound at hr
  simp only at hr
  split at hr
  · cases hr
  · have hq : (queueData s (data.take (min data.length (txSpace s)))).state = s.state := rfl
    generalize queueData s (data.take (min data.length (txSpace s))) = q at hr hq
    split at hr
    · split at hr
      · simp only [Option.some.injEq] at hr
        subst hr
        rw [← hq]
        cases sent <;> rfl
      · simp only [Option.some.injEq] at hr
        subst hr
        exact hq
    · simp only [Option.some.injEq] at hr
      subst hr
      exact hq

/-! ## The invariant -/

/-- The stream, and what is known once `b` takes no more data: the FIN was counted behind
    all that was transmitted before it. -/
structure EofInv (base : UInt32) (st : StreamState) : Prop where
  stream : StreamInv base st
  ended : st.b.state.takesData = false → st.Ended st.received ∧ st.b.rcvNxt = seqAt base (st.received.length + 1)

/-- More segments, and more bytes. -/
theorem StreamState.Ended.mono {st st' : StreamState} {bytes bytes' : List Byte} {segs : List TcpSegment}
    (h : st.Ended bytes) (hsegs : st'.fromA = st.fromA ++ segs) (hbytes : bytes <+: bytes') : st'.Ended bytes' := by
  obtain ⟨i, seg, hseg, hfin, hbefore⟩ := h
  have hlt := lt_length_of_piece hseg
  refine ⟨i, seg, ?_, hfin, ?_⟩
  · rw [hsegs, List.getElem?_append_left hlt]
    exact hseg
  · rw [StreamState.before, hsegs, streamBefore_append (Nat.le_of_lt hlt)]
    exact hbefore.trans hbytes

/-- A step that receives nothing and leaves the receiver as it is. -/
theorem EofInv.keep {base : UInt32} {st st' : StreamState} {segs : List TcpSegment} (h : EofInv base st)
    (hstream : StreamInv base st') (hsegs : st'.fromA = st.fromA ++ segs) (hrec : st'.received = st.received)
    (hnext : st'.b.rcvNxt = st.b.rcvNxt) (ht : st'.b.state.takesData = st.b.state.takesData) : EofInv base st' := by
  refine ⟨hstream, ?_⟩
  intro hno
  obtain ⟨hended, hcount⟩ := h.ended (ht.symm.trans hno)
  rw [hrec, hnext]
  exact ⟨hended.mono hsegs List.prefix_rfl, hcount⟩

/-- A FIN that is counted in order stands where the receiver is. -/
theorem StreamInv.fin_place {base : UInt32} {st : StreamState} {i us ms : Nat} {seg : TcpSegment} (h : StreamInv base st)
    (hg : InOrder st (.toB i us ms)) (hseg : st.fromA[i]? = some seg) (hfin : acceptsFin st.b seg = true) :
    st.before i = st.received ∧ seg.seq = st.b.rcvNxt := by
  rw [acceptsFin, Bool.and_eq_true, Bool.and_eq_true] at hfin
  obtain ⟨⟨hm, htake⟩, hflag⟩ := hfin
  have hlen := hg seg hseg hm htake (Or.inl hflag)
  refine ⟨streamBefore_eq_of_length hseg h.got hlen, ?_⟩
  have hseq : seg.seq = seqAt base (st.before i).length := h.numbered i seg hseg
  rw [hseq, hlen, h.rcvNxt htake]

/-- **What arrives in order keeps the invariant.** -/
theorem EofInv.arrive {base : UInt32} {st : StreamState} {i us ms : Nat} {seg : TcpSegment} (h : EofInv base st)
    (hg : InOrder st (.toB i us ms)) (hseg : st.fromA[i]? = some seg) :
    EofInv base (st.withB (deliverTo st.b seg us ms).1) := by
  have hrec := deliverTo_received seg us ms h.stream.rxOk h.stream.connectedB
  obtain ⟨hstream, hgot⟩ := h.stream.take hseg hrec (hg.inPlace seg hseg)
  refine ⟨hstream, ?_⟩
  intro hno
  have hlen : (seg.payload.take (accepts st.b seg)).length = accepts st.b seg := by
    have hle : accepts st.b seg ≤ seg.payload.length := by
      unfold accepts
      split
      · exact (rxAccepted_le seg h.stream.rxOk).2
      · exact Nat.zero_le _
    rw [List.length_take, Nat.min_eq_left hle]
  have hnext : (st.withB (deliverTo st.b seg us ms).1).b.rcvNxt = st.b.rcvNxt + UInt32.ofNat (accepts st.b seg) +
      if acceptsFin st.b seg then 1 else 0 := hrec.next
  cases htake : st.b.state.takesData with
  | true =>
    -- data was taken until now, so this is the FIN
    have hfin : acceptsFin st.b seg = true := by
      have hboth := hrec.takes.symm.trans hno
      rw [htake, Bool.true_and, Bool.not_eq_false'] at hboth
      exact hboth
    have hflag : seg.has TCP_FLAG_FIN = true := by
      rw [acceptsFin, Bool.and_eq_true] at hfin
      exact hfin.2
    refine ⟨⟨i, seg, hseg, hflag, ?_⟩, ?_⟩
    · show st.before i <+: _
      rw [hgot, (h.stream.fin_place hg hseg hfin).1]
      exact List.prefix_append _ _
    · rw [hnext, hfin, hgot, List.length_append, hlen, h.stream.rcvNxt htake, seqAt_add, seqAt_add]
      rfl
  | false =>
    have hacc : accepts st.b seg = 0 := by
      rw [accepts, htake, if_neg]
      rintro ⟨-, h⟩
      cases h
    have hfin : acceptsFin st.b seg = false := by rw [acceptsFin, htake, Bool.and_false, Bool.false_and]
    obtain ⟨hended, hcount⟩ := h.ended htake
    rw [hacc, List.take_zero, List.append_nil] at hgot
    have hsegs : (st.withB (deliverTo st.b seg us ms).1).fromA = st.fromA ++ [] := (List.append_nil _).symm
    refine ⟨hended.mono hsegs (hgot ▸ List.prefix_rfl), ?_⟩
    rw [hnext, hacc, hfin, hgot, ← hcount]
    exact (UInt32.add_zero _).trans (UInt32.add_zero _)

/-- **Every step in order keeps the invariant.** -/
theorem EofInv.step {base : UInt32} {st st' : StreamState} {op : StreamOp} (h : EofInv base st) (hg : InOrder st op)
    (hs : streamStep st op = some st') : EofInv base st' := by
  have hstream := h.stream.step hg.inPlace hs
  have hrx : ∀ {b : TcpSocket}, RcvSame st.b b → (st.withB b).received = st.received := by
    intro b hb
    show st.returned ++ rxQueue b = _
    rw [hb.rxQueue]
    rfl
  -- only an arrival can bring the end of the stream
  cases op with
  | send data =>
    simp only [streamStep, Option.ite_none_right_eq_some, Option.some.injEq] at hs
    obtain ⟨-, rfl⟩ := hs
    exact h.keep hstream (List.append_nil _).symm rfl rfl rfl
  | round =>
    simp only [streamStep, Option.ite_none_left_eq_some, Option.map_eq_some_iff] at hs
    obtain ⟨-, out, -, rfl⟩ := hs
    exact h.keep hstream rfl rfl rfl rfl
  | recv len =>
    simp only [streamStep, Option.ite_none_left_eq_some, Option.some.injEq] at hs
    obtain ⟨-, rfl⟩ := hs
    obtain ⟨-, hqueue, -⟩ := tcpRecv_spec len h.stream.rxOk
    apply h.keep hstream (List.append_nil _).symm _ rfl rfl
    show st.returned ++ (tcpRecv st.b len).2.1 ++ rxQueue (tcpRecv st.b len).1 = _
    rw [List.append_assoc, ← hqueue]
    rfl
  | toB i us ms =>
    simp only [streamStep, Option.map_eq_some_iff] at hs
    obtain ⟨seg, hseg, rfl⟩ := hs
    exact h.arrive hg hseg
  | sendB data =>
    simp only [streamStep, Option.map_eq_some_iff] at hs
    obtain ⟨out, hr, rfl⟩ := hs
    have hi := tcpSendRound_idle hr
    apply h.keep hstream (List.append_nil _).symm (hrx hi.same) hi.same.rcvNxt
    show out.1.state.takesData = _
    rw [tcpSendRound_state hr]
  | recvA len =>
    simp only [streamStep, Option.ite_none_left_eq_some, Option.some.injEq] at hs
    obtain ⟨-, rfl⟩ := hs
    exact h.keep hstream rfl rfl rfl rfl
  | toA | closeA | timerA =>
    cases hs
    exact h.keep hstream rfl rfl rfl rfl
  | closeB =>
    cases hs
    have hi := tcpCloseStart_idle st.b
    exact h.keep hstream (List.append_nil _).symm (hrx hi.same) hi.same.rcvNxt (tcpCloseStart_takes st.b)
  | timerB now =>
    cases hs
    have hi := tcpTimer_idle st.b now
    exact h.keep hstream (List.append_nil _).symm (hrx hi.same) hi.same.rcvNxt (tcpTimer_takes hg)

theorem eofInv_start {a b : TcpSocket} (h : StreamStart a b) : EofInv a.sndNxt (streamStart a b) := by
  refine ⟨streamInv_start h, ?_⟩
  intro hno
  rw [streamStart, h.establishedB] at hno
  cases hno

/-- An empty read of a side that waits for data comes after the FIN. -/
theorem EofInv.read {base : UInt32} {st st' : StreamState} {len : Nat} (h : EofInv base st) (hg : InOrder st (.recv len))
    (hs : streamStep st (.recv len) = some st') (hnone : st'.returned = st.returned) : st.Ended st.returned := by
  simp only [streamStep, Option.ite_none_left_eq_some, Option.some.injEq] at hs
  obtain ⟨hwait, rfl⟩ := hs
  obtain ⟨-, -, hlen⟩ := tcpRecv_spec len h.stream.rxOk
  have hnil : (tcpRecv st.b len).2.1 = [] := List.append_right_eq_self.mp hnone
  rw [hnil, List.length_nil] at hlen
  have hempty : st.b.rxCount = 0 := by
    have hpos := hg.1
    omega
  have hidle : st.b.state ≠ .established := by
    intro hst
    apply hwait
    rw [tcpRecvWaits, hempty, hst]
    rfl
  have hno : st.b.state.takesData = false := by
    obtain ⟨h1, h2⟩ := hg.2 hempty
    cases hst : st.b.state with
    | established => exact absurd hst hidle
    | finWait1 => exact absurd hst h1
    | finWait2 => exact absurd hst h2
    | _ => rfl
  have hrec : st.received = st.returned := by
    rw [StreamState.received, rxQueue, hempty]
    exact List.append_nil _
  rw [← hrec]
  exact (h.ended hno).1

theorem EofInv.finCounted {base : UInt32} {st : StreamState} (h : EofInv base st) : FinCounted base st := by
  cases htake : st.b.state.takesData with
  | true => exact ⟨0, Nat.zero_le 1, h.stream.rcvNxt htake⟩
  | false => exact ⟨1, Nat.le_refl 1, (h.ended htake).2⟩

/-- **The end of the stream**, when nothing overtakes anything: an empty read comes behind
    all that was transmitted before the FIN, and the FIN is counted once, in its place. -/
theorem tcp_end_of_stream {a b : TcpSocket} (h : StreamStart a b) (ops : List StreamOp)
    (hg : Meets streamStep InOrder (streamStart a b) ops) :
    AlwaysStep streamStep EofStep (streamStart a b) ops ∧
      Always streamStep (FinCounted a.sndNxt) (streamStart a b) ops := by
  have hinv : Always streamStep (EofInv a.sndNxt) (streamStart a b) ops :=
    always_of_meets (fun _ _ _ hinv hg hs => hinv.step hg hs) (eofInv_start h) hg
  refine ⟨?_, hinv.mono fun st hst => hst.finCounted⟩
  apply alwaysStep_of_always _ hinv hg
  intro st op st' hst hgop hs
  cases op with
  | recv len => exact fun hnone => hst.read hgop hs hnone
  | toB i us ms =>
    intro seg hseg hfin
    obtain ⟨hplace, hseq⟩ := hst.stream.fin_place hgop hseg hfin
    exact ⟨hseq, hplace⟩
  | _ => trivial

theorem peers_start : StreamStart nearPeer farPeer :=
  ⟨rfl, rfl, rfl, ⟨by decide, rfl, by decide⟩, ⟨by decide, rfl, by decide⟩, rfl, rfl⟩

/-- A byte and a FIN that arrive in order, and a read after each. -/
def byteThenFin : List StreamOp := [.send [1], .round, .closeA, .toB 0 0 1, .recv 10, .toB 1 0 2, .recv 10]

theorem tcp_end_of_stream_byte :
    AlwaysStep streamStep EofStep (streamStart nearPeer farPeer) byteThenFin ∧
      Always streamStep (FinCounted nearPeer.sndNxt) (streamStart nearPeer farPeer) byteThenFin := by
  apply tcp_end_of_stream peers_start
  intro _ hs
  cases hs
  refine ⟨trivial, ?_⟩
  intro _ hs
  cases hs
  refine ⟨trivial, ?_⟩
  intro _ hs
  cases hs
  refine ⟨trivial, ?_⟩
  intro _ hs
  cases hs
  refine ⟨?_, ?_⟩
  · intro seg hseg _ _ _
    cases hseg
    rfl
  intro _ hs
  cases hs
  refine ⟨⟨by decide, fun _ => ⟨by decide, by decide⟩⟩, ?_⟩
  intro _ hs
  cases hs
  refine ⟨?_, ?_⟩
  · intro seg hseg _ _ _
    cases hseg
    rfl
  intro _ hs
  cases hs
  exact ⟨⟨by decide, fun _ => ⟨by decide, by decide⟩⟩, trivial⟩

/-- A byte that is lost, and the FIN behind it: it is counted, and the next read returns 0. -/
theorem fin_overtakes_byte :
    ∃ st st' st'', run streamStep (streamStart nearPeer farPeer) [.send [1], .round, .closeA] = some st ∧
      streamStep st (.toB 1 0 1) = some st' ∧ streamStep st' (.recv 10) = some st'' ∧
      st.transmitted = [1] ∧ st'.b.state = .closeWait ∧ st''.returned = [] ∧
      ¬ EofStep st (.toB 1 0 1) st' ∧ ¬ EofStep st' (.recv 10) st'' := by
  refine ⟨_, _, _, rfl, rfl, rfl, rfl, rfl, rfl, ?_, ?_⟩
  · intro h
    have hseq := (h _ rfl rfl).1
    exact absurd hseq (by decide)
  · intro h
    obtain ⟨i, seg, hseg, hfin, hbefore⟩ := h rfl
    match i with
    | 0 =>
      cases hseg
      cases hfin
    | 1 =>
      cases List.prefix_nil.mp hbefore
    | n + 2 => cases hseg

end Crimson.Net
