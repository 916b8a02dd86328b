import Sponge.Network.Lifecycle
import Sponge.Network.Opening
import Sponge.Tcp.State

/-!
# Conformance to the official states

After every operation, the state of a connection should be one of those that the TCP
specification names. It is, but for one case. A connection whose inbound stream ends
before it has sent its FIN need not linger, and should note that. The code notes it if its
outbound stream has not been read to the end. But the stream can have been read to the end
while the FIN has not been sent: when the last bytes fill the window exactly. If the
inbound stream ends at that moment, the connection is in no official state:
`state_not_official` is such a run. It does not happen in runs in which no segment that
may end the inbound stream arrives at such a moment (`Event.Unblocked`).

## The model

The sender's part of the state follows its counters, and the receiver's part its flags.
`Opening` and `Lifecycle` say which of them go together at every step, `Settled` what
holds between operations.

## What is proved

* `Source.stateSummary_eq` — the sender's part of the state.
* `Settled.run`, `Settled.receive` — what holds between operations.
* `state_official` — in every such run, the state of both sides is an official one, and
  a side whose inbound stream has ended does not linger unless it has sent its FIN.
-/

namespace Sponge

open StreamReassembler Relation

/-! ### The state -/

/-- The FIN has been sent when the stream has been read to its end and the sequence number counts
one more. -/
theorem Source.setFin_iff {accepted : Bytes} {s : TCPSender} (h : Source accepted s) :
    s.setFin = true ↔ s.stream.eof = true ∧ s.nextSeqno = s.stream.bytesWritten + 2 := by
  refine ⟨fun hfin => ⟨(ByteStream.eof_iff _).mpr (h.fin hfin), ?_⟩, fun hn => h.setFin_of_next hn.2⟩
  have hread := h.bytesRead_eq hfin
  rcases h.next with ⟨-, -, hnot⟩ | hnext
  · exact absurd hfin (by simp [hnot])
  · rw [hfin, Bool.toNat_true, hread, ← h.written] at hnext
    omega

/-- **The sender's part of the state**, if there is no error. -/
theorem Source.stateSummary_eq {accepted : Bytes} {s : TCPSender} (h : Source accepted s)
    (herr : s.stream.error = false) : s.stateSummary =
      if s.nextSeqno = 0 then .closed else if s.base = 0 then .synSent
      else if s.setFin = false then .synAcked else if s.flightBytes ≠ 0 then .finSent else .finAcked := by
  have hle := h.outstanding.le
  have hfin := h.setFin_iff
  have hbase : s.nextSeqno = s.flightBytes ↔ s.base = 0 := by
    unfold TCPSender.base
    omega
  have hread := h.bytesRead_le
  have hwritten := h.written
  have hnext := h.nextSeqno_le
  simp only [TCPSender.stateSummary, TCPSender.streamIn, TCPSender.nextSeqnoAbsolute,
    TCPSender.bytesInFlight, herr, hbase, Bool.false_eq_true, if_false]
  by_cases hset : s.setFin = true
  · obtain ⟨heof, hn⟩ := hfin.mp hset
    simp only [heof, hset, hn, not_true_eq_false, if_false, lt_self_iff_false, Bool.true_eq_false]
    rfl
  · have hlt : s.stream.eof = true → s.nextSeqno < s.stream.bytesWritten + 2 := fun heof => by
      have hne : s.nextSeqno ≠ s.stream.bytesWritten + 2 := fun hn => hset (hfin.mpr ⟨heof, hn⟩)
      omega
    rw [Bool.not_eq_true] at hset
    by_cases heof : s.stream.eof = true
    · simp only [heof, hset, hlt heof, not_true_eq_false, if_false, if_true]
    · simp only [heof, hset, Bool.false_eq_true, not_false_eq_true, if_true]

/-- The receiver's part of the state, if there is no error. -/
theorem TCPReceiver.stateSummary_eq {r : TCPReceiver} (herr : r.streamOut.error = false) : r.stateSummary =
    if r.setIsn = false then .listen else if r.streamOut.inputEnded then .finRecv else .synRecv := by
  simp only [TCPReceiver.stateSummary, herr, TCPReceiver.ackno_eq, Bool.false_eq_true, if_false]
  cases r.setIsn <;> simp

/-! ### Between operations -/

/-- What holds of a connection between operations, apart from closing. -/
structure Calm (p : Peer) : Prop where
  /-- The SYN of the peer is answered. -/
  started : p.receiver.setIsn = true → p.sender.nextSeqno ≠ 0
  /-- After the end of the inbound stream the connection lingers only if it has sent its FIN. -/
  cleared : p.conn.inboundStream.inputEnded = true →
    p.sender.setFin = true ∨ p.conn.lingerAfterStreamsFinish = false

/-- What holds of a connection between operations. -/
structure Settled (p : Peer) : Prop extends Calm p where
  /-- A connection that has finished and need not linger is closed. -/
  closes : p.conn.active = true → p.conn.lingerAfterStreamsFinish = false → ¬ Finished p

/-- The state, if there is no error. -/
theorem Lifecycle.state_eq {p : Peer} (hl : Lifecycle p) (hp : Source p.accepted p.sender)
    (herr : p.sender.stream.error = false) : p.conn.state =
      { sender :=
          if p.sender.nextSeqno = 0 then .closed else if p.sender.base = 0 then .synSent
          else if p.sender.setFin = false then .synAcked
          else if p.sender.flightBytes ≠ 0 then .finSent else .finAcked
        receiver :=
          if p.receiver.setIsn = false then .listen
          else if p.conn.inboundStream.inputEnded then .finRecv else .synRecv
        active := p.conn.active
        lingerAfterStreamsFinish := if p.conn.active then p.conn.lingerAfterStreamsFinish else false } := by
  have herr' : p.receiver.streamOut.error = false := hl.error.trans herr
  rw [TCPConnection.state, TCPState.of, hp.stateSummary_eq herr, TCPReceiver.stateSummary_eq herr']
  rfl

/-- A connection that has failed is reset. -/
theorem Lifecycle.official_of_error {p : Peer} (hl : Lifecycle p) (herr : p.sender.stream.error = true) :
    p.conn.state = .ofState .reset := by
  have herr' : p.receiver.streamOut.error = true := hl.error.trans herr
  simp [TCPConnection.state, TCPState.of, TCPSender.stateSummary, TCPReceiver.stateSummary,
    TCPSender.streamIn, TCPState.ofState, herr, herr', hl.dead herr]

/-- Without an error, a connection that is not active has closed. -/
theorem Lifecycle.official_of_closed {p q : Peer} (hl : Lifecycle p) (hp : Source p.accepted p.sender)
    (ho : Opening p q) (herr : p.sender.stream.error = false) (hactive : p.conn.active = false) :
    p.conn.state = .ofState .closed := by
  have hf := (hl.closed hactive).resolve_left (by simp [herr])
  have hnext := hf.next
  have hflight := hf.flight
  have hfin := hp.setFin_iff.mpr ⟨hf.eof, hnext⟩
  have hbase : p.sender.base ≠ 0 := by
    unfold TCPSender.base
    omega
  have h0 : p.sender.nextSeqno ≠ 0 := by omega
  rw [hl.state_eq hp herr]
  simp [TCPState.ofState, h0, hbase, hfin, hflight, ho.synced hbase, hf.ended, hactive]

/-- Until its SYN has been acknowledged, a connection listens or opens. -/
theorem Settled.official_of_unacked {p q : Peer} (h : Settled p) (hp : Source p.accepted p.sender)
    (hl : Lifecycle p) (ho : Opening p q) (herr : p.sender.stream.error = false)
    (hactive : p.conn.active = true) (hbase : p.sender.base = 0) :
    ∃ state, p.conn.state = .ofState state := by
  have hended : p.conn.inboundStream.inputEnded = false := (ho.unacked hbase).own.ended
  have hlinger : p.conn.lingerAfterStreamsFinish = true :=
    Bool.of_not_eq_false fun hnot => absurd (hl.linger hnot) (by simp [hended])
  rw [hl.state_eq hp herr]
  by_cases h0 : p.sender.nextSeqno = 0
  · have hset : p.receiver.setIsn = false := Bool.of_not_eq_true fun hset => h.started hset h0
    exact ⟨.listen, by simp [TCPState.ofState, h0, hset, hactive, hlinger]⟩
  · cases hset : p.receiver.setIsn
    · exact ⟨.synSent, by simp [TCPState.ofState, h0, hbase, hactive, hlinger]⟩
    · exact ⟨.synRcvd, by simp [TCPState.ofState, h0, hbase, hended, hactive, hlinger]⟩

/-- After that it is established or closes. -/
theorem Settled.official_of_acked {p q : Peer} (h : Settled p) (hp : Source p.accepted p.sender)
    (hl : Lifecycle p) (ho : Opening p q) (herr : p.sender.stream.error = false)
    (hactive : p.conn.active = true) (hbase : p.sender.base ≠ 0) :
    ∃ state, p.conn.state = .ofState state := by
  have hset := ho.synced hbase
  have h0 : p.sender.nextSeqno ≠ 0 := fun h0 => hbase (by rw [TCPSender.base, h0, Nat.zero_sub])
  have hcleared := h.cleared
  rw [hl.state_eq hp herr]
  cases hended : p.conn.inboundStream.inputEnded with
  | false =>
    -- the connection lingers
    have hlinger : p.conn.lingerAfterStreamsFinish = true :=
      Bool.of_not_eq_false fun hnot => absurd (hl.linger hnot) (by simp [hended])
    cases hfin : p.sender.setFin
    · exact ⟨.established, by simp [TCPState.ofState, h0, hbase, hset, hactive, hlinger]⟩
    · by_cases hflight : p.sender.flightBytes = 0
      · exact ⟨.finWait2, by simp [TCPState.ofState, h0, hbase, hset, hflight, hactive, hlinger]⟩
      · exact ⟨.finWait1, by simp [TCPState.ofState, h0, hbase, hset, hflight, hactive, hlinger]⟩
  | true =>
    cases hfin : p.sender.setFin with
    | false =>
      have hlinger := (hcleared hended).resolve_left (by simp [hfin])
      exact ⟨.closeWait, by simp [TCPState.ofState, h0, hbase, hset, hactive, hlinger]⟩
    | true =>
      by_cases hflight : p.sender.flightBytes = 0
      · -- a connection that need not linger would have been closed
        obtain ⟨heof, hnext⟩ := hp.setFin_iff.mp hfin
        have hlinger : p.conn.lingerAfterStreamsFinish = true :=
          Bool.of_not_eq_false fun hnot => h.closes hactive hnot ⟨heof, hended, hflight, hnext⟩
        exact ⟨.timeWait, by simp [TCPState.ofState, h0, hbase, hset, hflight, hactive, hlinger]⟩
      · cases hlinger : p.conn.lingerAfterStreamsFinish
        · exact ⟨.lastAck, by simp [TCPState.ofState, h0, hbase, hset, hflight, hactive]⟩
        · exact ⟨.closing, by simp [TCPState.ofState, h0, hbase, hset, hflight, hactive]⟩

/-- **The state is an official one.** -/
theorem Settled.official {p q : Peer} (h : Settled p) (hp : Source p.accepted p.sender) (hl : Lifecycle p)
    (ho : Opening p q) : p.conn.state.Official := by
  simp only [TCPState.Official, TCPState.eq_iff]
  cases herr : p.sender.stream.error with
  | true => exact ⟨.reset, hl.official_of_error herr⟩
  | false =>
    cases hactive : p.conn.active with
    | false => exact ⟨.closed, hl.official_of_closed hp ho herr hactive⟩
    | true =>
      by_cases hbase : p.sender.base = 0
      · exact h.official_of_unacked hp hl ho herr hactive hbase
      · exact h.official_of_acked hp hl ho herr hactive hbase

/-! ### Operations of the application -/

theorem Calm.progress {p p' : Peer} (h : Calm p) (hprog : Progress p p')
    (hset : p'.receiver.setIsn = p.receiver.setIsn)
    (hended : p'.conn.inboundStream.inputEnded = p.conn.inboundStream.inputEnded) : Calm p' := by
  refine ⟨fun hs => ?_, fun he => ?_⟩
  · have hnext := h.started (hset ▸ hs)
    have hle := hprog.next
    omega
  · exact (h.cleared (hended ▸ he)).imp hprog.fin hprog.linger

/-- A connection that tries to close is settled. -/
theorem Calm.tryCleanClose {p : Peer} (h : Calm p) : Settled (p.onConn (·.tryCleanClose)) := by
  have hsender : (p.onConn (·.tryCleanClose)).sender = p.sender := p.conn.tryCleanClose_sender
  have hreceiver : (p.onConn (·.tryCleanClose)).conn.receiver = p.conn.receiver :=
    p.conn.tryCleanClose_receiver
  have hlinger := p.conn.tryCleanClose_lingerAfterStreamsFinish
  refine ⟨⟨fun hset => ?_, fun hended => ?_⟩, fun hactive hl hf => ?_⟩
  · rw [hsender]
    rw [Peer.receiver, hreceiver] at hset
    exact h.started hset
  · rw [hsender]
    rw [TCPConnection.inboundStream, hreceiver] at hended
    exact (h.cleared hended).imp_right hlinger.trans
  · have hf' : Finished p := by
      obtain ⟨heof, hended, hflight, hnext⟩ := hf
      rw [TCPConnection.inboundStream, hreceiver] at hended
      rw [hsender] at heof hflight hnext
      exact ⟨heof, hended, hflight, hnext⟩
    have hinactive := p.conn.tryCleanClose_active_of_canClose (hf'.canClose (hlinger ▸ hl))
    exact absurd hactive (Bool.eq_false_iff.mp hinactive)

/-- Filling the window does not finish a connection: what it sends is in flight. -/
theorem Settled.flush {p : Peer} (h : Settled p) (hp : Source p.accepted p.sender) :
    Settled (p.onConn (·.fillWindow.sendSegments)) := by
  have hc : ReflTransGen (Micro []) p (p.onConn (·.fillWindow.sendSegments)) := flush_micro p
  refine ⟨h.toCalm.progress (hp.chain hc).2 rfl rfl, fun hactive hl hf => h.closes hactive hl ?_⟩
  rcases p.sender.fillWindow_fills.eq_or_flight with ⟨heq, -⟩ | hpos
  · obtain ⟨heof, hended, hflight, hnext⟩ := hf
    have heq' : p.conn.sender.fillWindow = p.conn.sender := heq
    simp only [Peer.onConn, TCPConnection.fillWindow, TCPConnection.sendSegments, Peer.sender,
      heq'] at heof hflight hnext
    exact ⟨heof, hended, hflight, hnext⟩
  · exact absurd hf.flight hpos.ne'

/-- **The operations of the application.** -/
theorem Settled.run {p : Peer} (h : Settled p) (hp : Source p.accepted p.sender) (op : Op)
    (hop : ∀ data, op = .write data → p.sender.stream.inputEnded = false) : Settled (p.run op) := by
  have hcalm : ∀ {p'}, ReflTransGen (Micro []) p p' → p'.receiver.setIsn = p.receiver.setIsn →
      p'.conn.inboundStream.inputEnded = p.conn.inboundStream.inputEnded → Calm p' := fun hc =>
    h.toCalm.progress (hp.chain hc).2
  cases op with
  | connect => exact h.flush hp
  | write data =>
    have hm : Micro [] p (p.writeStream data) := .write data (hop data rfl)
    exact (hcalm ((ReflTransGen.single hm).trans (flush_micro _)) rfl rfl).tryCleanClose
  | endInputStream =>
    have hm : Micro [] p (p.onSender fun s => { s with stream := s.stream.endInput }) := .endInput
    refine Settled.flush ⟨hcalm (.single hm) rfl rfl, fun hactive hl hf => h.closes hactive hl ?_⟩
      (hp.micro hm)
    -- the FIN has been sent, so the input had ended before
    have hfin := hp.fin (hp.setFin_of_next hf.next)
    exact ⟨(ByteStream.eof_iff _).mpr hfin, hf.ended, hf.flight, hf.next⟩
  | tick ms =>
    have hm : Micro [] p (p.onSender (·.tick ms)) := .tick ms
    simp only [Peer.run, TCPConnection.tick]
    split_ifs
    · exact ⟨hcalm (((ReflTransGen.single hm).tail .sendRst).tail .fail) rfl rfl,
        fun hactive => absurd hactive Bool.false_ne_true⟩
    · have hm' : Micro [] (p.onSender (·.tick ms)) _ := .note ((p.conn.waitSegmentTime + ms) % 2 ^ 64)
      exact (hcalm (((ReflTransGen.single hm).tail hm').tail .sendSegments) rfl rfl).tryCleanClose
  | read len =>
    exact ⟨hcalm (.single (.read len)) rfl rfl, fun hactive hl hf =>
      h.closes hactive hl ⟨hf.eof, hf.ended, hf.flight, hf.next⟩⟩

theorem Settled.send {p : Peer} (h : Settled p) : Settled p.send := by
  unfold Peer.send
  split
  · exact h
  · exact ⟨⟨h.started, h.cleared⟩, fun hactive hl hf =>
      h.closes hactive hl ⟨hf.eof, hf.ended, hf.flight, hf.next⟩⟩

/-! ### Arriving segments -/

/-- The segment carries a FIN, or one is held already: it may end the inbound stream. -/
def MayEnd (r : TCPReceiver) (seg : TCPSegment) : Prop :=
  seg.header.fin = true ∨ ∃ n ∈ r.reassembler.head, n.eof = true

/-- The segment may end the inbound stream at a moment at which the outbound stream has been ended
by its application and what is left of it fills the window exactly, so that the FIN has to
wait. -/
def Blocks (p : Peer) (seg : TCPSegment) : Prop :=
  seg.header.rst = false ∧ p.conn.inboundStream.inputEnded = false ∧ MayEnd p.receiver seg ∧
    p.sender.stream.inputEnded = true ∧ p.sender.setFin = false ∧
      p.sender.nextSeqno + p.sender.stream.bufferSize = max p.sender.nextSeqno (windowEnd p.sender seg)

instance Blocks.decidable (p : Peer) (seg : TCPSegment) : Decidable (Blocks p seg) := by
  unfold Blocks MayEnd
  infer_instance

/-- The window after a segment has arrived. -/
theorem freeWindow_deliver {p : Peer} {seg : TCPSegment}
    (hset : (p.receiver.segmentReceived seg).setIsn = true) :
    (p.onConn (·.deliver seg)).sender.freeWindow = windowEnd p.sender seg - p.sender.nextSeqno :=
  p.conn.deliver_freeWindow hset

/-- **When the inbound stream ends, the FIN has been sent, there is more to send, or lingering has
been decided on before.** -/
theorem Calm.cleared_deliver {p q : Peer} {seg : TCPSegment} (h : Calm p) (hp : Source p.accepted p.sender)
    (ho : Opening p q) (ho' : Opening q p) (hseg : seg ∈ q.wire) (hrst : seg.header.rst = false)
    (hb : ¬ Blocks p seg) (hended : (p.receiver.segmentReceived seg).streamOut.inputEnded = true)
    (heof : (p.onConn (·.deliver seg)).sender.fillWindow.stream.eof = true) :
    (p.onConn (·.deliver seg)).sender.fillWindow.setFin = true ∨ p.conn.lingerAfterStreamsFinish = false := by
  have hm : Micro q.wire p (p.onConn (·.deliver seg)) := .deliver hseg hrst
  have hfill := (p.onConn (·.deliver seg)).sender.fillWindow_fills
  have hmono : p.sender.setFin = true → (p.onConn (·.deliver seg)).sender.fillWindow.setFin = true :=
    fun hfin => hfill.setFin_of ((hm.progress hp).fin hfin)
  by_cases hold : p.conn.inboundStream.inputEnded = true
  · exact (h.cleared hold).imp_left hmono
  refine Or.inl (Bool.of_not_eq_false fun hfin => hb ?_)
  -- the stream ends with this segment: a FIN has arrived, and the SYN before it
  obtain ⟨hset, hmay⟩ : (p.receiver.segmentReceived seg).setIsn = true ∧ MayEnd p.receiver seg := by
    rw [TCPReceiver.streamOut, StreamReassembler.streamOut] at hended
    rcases p.receiver.segmentReceived_push seg with heq | ⟨hset, index, heq⟩ <;> rw [heq] at hended
    · exact absurd hended hold
    · exact ⟨hset, (pushSubstring_inputEnded hended).resolve_left hold⟩
  -- so the SYN of this side has been acknowledged
  have hnext : (p.onConn (·.deliver seg)).sender.nextSeqno ≠ 0 := fun h0 => by
    have hbase : (p.onConn (·.deliver seg)).sender.base = 0 := by rw [TCPSender.base, h0, Nat.zero_sub]
    have hown := ((ho.source_micro ho' hp hm).unacked hbase).own.ended
    rw [p.deliver_receiver] at hown
    exact absurd hended (Bool.eq_false_iff.mp hown)
  -- and the FIN is not sent because there is no room for it
  have hblocked := hfill.bufferSize_of_blocked hnext heof hfin
  have hinput := ((ByteStream.eof_iff _).mp heof).1
  rw [hfill.frame.2.2.2.1] at hinput
  rw [freeWindow_deliver hset] at hblocked
  have hstream : (p.onConn (·.deliver seg)).sender.stream = p.sender.stream := by
    rcases p.deliver_sender seg with ⟨-, -, heq⟩ | ⟨-, heq⟩ <;> rw [heq]
    rw [TCPSender.ackReceived_stream]
  rw [hstream] at hblocked hinput
  exact ⟨hrst, Bool.of_not_eq_true hold, hmay, hinput,
    Bool.of_not_eq_true fun hset => absurd (hmono hset) (Bool.eq_false_iff.mp hfin), by omega⟩

/-- What remains of an arriving segment: the window is filled, the segment is answered, and the
connection decides about lingering. -/
theorem Calm.respond {p q : Peer} {seg : TCPSegment} (h : Calm p) (hp : Source p.accepted p.sender)
    (ho : Opening p q) (ho' : Opening q p) (hseg : seg ∈ q.wire) (hrst : seg.header.rst = false)
    (hb : ¬ Blocks p seg) :
    Calm (p.onConn fun c => (((c.deliver seg).fillWindow.reply seg).sendSegments.clearLinger)) := by
  obtain ⟨l, heq⟩ := p.conn.answer_eq seg
  have hm : Micro q.wire p (p.onConn (·.deliver seg)) := .deliver hseg hrst
  simp only [Peer.onConn, heq]
  refine ⟨fun _ => ?_, fun hended => ?_⟩
  · rw [Peer.sender, TCPConnection.clearLinger_sender]
    exact TCPSender.fillWindow_nextSeqno_ne_zero (hp.micro hm).setFin_eq_false
  · rw [TCPConnection.inboundStream, TCPConnection.clearLinger_receiver] at hended
    rw [Peer.sender, TCPConnection.clearLinger_sender, TCPConnection.clearLinger_lingerAfterStreamsFinish]
    simp only [TCPConnection.deliver_receiver, TCPConnection.deliver_lingerAfterStreamsFinish] at hended ⊢
    cases heof : (p.onConn (·.deliver seg)).sender.fillWindow.stream.eof
    · -- there is more to send
      refine Or.inr ?_
      rw [hended, Bool.not_true, Bool.or_false]
      exact (congrArg _ heof).trans (Bool.and_false _)
    · have hcases := h.cleared_deliver hp ho ho' hseg hrst hb hended heof
      exact hcases.imp_right fun hl => by rw [hl, Bool.false_and]

/-- **Arriving segments.** -/
theorem Settled.receive {p q : Peer} {seg : TCPSegment} (h : Settled p) (hp : Source p.accepted p.sender)
    (ho : Opening p q) (ho' : Opening q p) (hseg : seg ∈ q.wire) (hb : ¬ Blocks p seg) :
    Settled (p.receive seg) := by
  -- the time is noted first
  have hnote : Micro q.wire p (p.onConn ({ · with waitSegmentTime := 0 })) := .note 0
  have hcalm : Calm (p.onConn ({ · with waitSegmentTime := 0 })) := ⟨h.started, h.cleared⟩
  have hb' : ¬ Blocks (p.onConn ({ · with waitSegmentTime := 0 })) seg := hb
  have hp₀ := hp.micro hnote
  have ho₀ := ho.source_micro ho' hp hnote
  have ho₀' := ho'.sink_micro hnote
  have hrec : p.receive seg = (p.onConn ({ · with waitSegmentTime := 0 })).onConn fun c =>
      if seg.header.rst then c.fail else
      if (c.deliver seg).receiver.ackno.isSome then
        (((c.deliver seg).fillWindow.reply seg).sendSegments.clearLinger).tryCleanClose
      else (c.deliver seg).tryCleanClose := rfl
  rw [hrec]
  generalize p.onConn ({ · with waitSegmentTime := 0 }) = p₀ at *
  simp only [Peer.onConn]
  split_ifs with hrst hsome
  · exact ⟨⟨hcalm.started, hcalm.cleared⟩, fun hactive => absurd hactive Bool.false_ne_true⟩
  · exact (hcalm.respond hp₀ ho₀ ho₀' hseg (Bool.of_not_eq_true hrst) hb').tryCleanClose
  · -- without the SYN of the peer the receiver ignores the segment
    have hset : (p₀.receiver.segmentReceived seg).setIsn = false := by
      rw [TCPConnection.deliver_receiver, TCPReceiver.ackno_eq] at hsome
      exact Bool.of_not_eq_true fun hset => hsome (by simp [hset])
    have hset₀ : p₀.receiver.setIsn = false := by
      rw [(p₀.receiver.segmentReceived_isn seg).2, Bool.or_eq_false_iff] at hset
      exact hset.1
    have hsame : (p₀.receiver.segmentReceived seg).reassembler = p₀.receiver.reassembler :=
      (p₀.receiver.segmentReceived_push seg).resolve_right fun hpush => by simp [hset] at hpush
    have hdelivered : Calm (p₀.onConn (·.deliver seg)) := by
      refine hcalm.progress (hp₀.progress_deliver seg) ?_ ?_
      · rw [p₀.deliver_receiver, hset, hset₀]
      · rw [p₀.deliver_inboundStream, TCPReceiver.streamOut, hsame]
        rfl
    exact hdelivered.tryCleanClose

/-! ### Runs -/

/-- No segment that may end the inbound stream arrives while the FIN has to wait for a window that
is filled exactly. -/
def Event.Unblocked (w : World) : Event → Prop
  | .deliver s i =>
    match (w s.other).wire[i]? with
    | some seg => ¬ Blocks (w s) seg
    | none => True
  | _ => True

instance Event.decidableUnblocked (w : World) (e : Event) : Decidable (e.Unblocked w) := by
  unfold Event.Unblocked
  split
  · split <;> infer_instance
  · infer_instance

/-- An event settles the side it is about, and does not touch the other. -/
theorem World.step_settled {w : World} {e : Event} (hl : e.Legal w) (hu : e.Unblocked w)
    (ho : World.Holds Openings w) (h : ∀ s, Settled (w s)) (s : Side) : Settled (w.step e s) := by
  have hupdate : ∀ t p, Settled p → Settled (Function.update w t p s) := fun t p hp => by
    by_cases hst : s = t
    · subst hst
      rwa [Function.update_self]
    · rw [Function.update_of_ne hst]
      exact h s
  cases e with
  | app t op =>
    refine hupdate t _ ((h t).run (ho t).1 op fun data hop => ?_)
    subst hop
    exact hl
  | send t => exact hupdate t _ (h t).send
  | deliver t i =>
    simp only [World.step, Event.Unblocked] at hu ⊢
    cases hseg : (w t.other).wire[i]? with
    | none => exact h s
    | some seg =>
      rw [hseg] at hu
      exact hupdate t _ ((h t).receive (ho t).1 (ho t).2.1 (ho t).2.2 (List.mem_of_getElem? hseg) hu)

/-- Between operations, in every run. -/
theorem World.settled {cfg : Side → TCPConfig} {random : Side → WrappingInt32} {es : List Event}
    (h : Along World.step (fun w e => e.Legal w ∧ e.Unblocked w) (World.start cfg random) es) (s : Side) :
    Settled (World.after cfg random es s) := by
  induction es using List.reverseRecOn generalizing s with
  | nil =>
    exact ⟨⟨fun hset => absurd hset Bool.false_ne_true, fun hended => absurd hended Bool.false_ne_true⟩,
      fun _ hl => absurd hl.symm Bool.false_ne_true⟩
  | append_singleton es e ih =>
    obtain ⟨hes, he, -⟩ := (along_append _ _ _).mp h
    have hallowed : World.Allowed cfg random es := hes.mono fun _ _ hc => hc.1
    rw [World.after, runs_append, runs_cons, runs_nil]
    exact World.step_settled he.1 he.2 (World.openings hallowed) (fun s => ih hes s) s

/-- **Conformance.** In every run of two connections in which no application writes after ending
its stream, and no segment that may end an inbound stream arrives while the FIN has to wait
for a window that is filled exactly, the state of both sides is an official one; and a side
whose inbound stream has ended and whose FIN has not been sent does not linger. -/
theorem state_official (cfg : Side → TCPConfig) (random : Side → WrappingInt32) (es : List Event)
    (h : Along World.step (fun w e => e.Legal w ∧ e.Unblocked w) (World.start cfg random) es) (s : Side) :
    (World.after cfg random es s).conn.state.Official ∧
      ((World.after cfg random es s).conn.inboundStream.inputEnded = true →
        (World.after cfg random es s).sender.setFin = false →
          (World.after cfg random es s).conn.lingerAfterStreamsFinish = false) := by
  have hallowed : World.Allowed cfg random es := h.mono fun _ _ hc => hc.1
  have hs := World.settled h s
  have ho := World.openings hallowed s
  exact ⟨hs.official ho.1 (World.lifecycle hallowed s) ho.2.1,
    fun hended hfin => (hs.cleared hended).resolve_left (by simp [hfin])⟩

/-- Side `a` writes two bytes and ends its stream; side `b` ends its own, and its FIN arrives before
the two bytes do. -/
def crossing : List Event := World.handshake ++
  [.app .a (.write [104, 105]), .app .a .endInputStream, .app .b .endInputStream, .send .b, .deliver .a 1]

/-- With room for its FIN, side `a` is closing. -/
theorem state_official_closing :
    (World.after (fun _ => { recvCapacity := 3 }) (fun _ => ⟨0⟩) crossing .a).conn.state.Official :=
  (state_official (fun _ => { recvCapacity := 3 }) (fun _ => ⟨0⟩) crossing (by decide +kernel) .a).1

/-- Without room for it, side `a` is in no official state: it has not sent its FIN and has seen
that of the other side, but lingers. -/
theorem state_not_official :
    World.Allowed (fun _ => { recvCapacity := 2 }) (fun _ => ⟨0⟩) crossing ∧
      ¬ (World.after (fun _ => { recvCapacity := 2 }) (fun _ => ⟨0⟩) crossing .a).conn.state.Official := by
  refine ⟨by decide +kernel, ?_⟩
  have hstate : (World.after (fun _ => { recvCapacity := 2 }) (fun _ => ⟨0⟩) crossing .a).conn.state =
      { sender := .synAcked, receiver := .finRecv } := by decide +kernel
  rw [hstate]
  rintro ⟨state, heq⟩
  rw [TCPState.eq_iff] at heq
  cases state <;> simp [TCPState.ofState] at heq

end Sponge
