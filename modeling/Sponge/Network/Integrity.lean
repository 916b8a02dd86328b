import Sponge.Network.Traffic
import Sponge.Network.World

/-!
# End-to-end integrity

Whatever the network does, what one application reads is a prefix of what the other has
written, and the end comes only after all of it.

The two directions of a connection are independent: `Half p q` is about the stream from
`p` to `q`. It says what `q` holds of what `p` has sent, that every segment on its way
from `p` to `q` is honest, and that every acknowledgment on its way back is. A step of
either side keeps it (`Half.source_micro`, `Half.sink_micro`).

Sequence numbers are 32 bits wide, so all this needs the streams to be shorter than
`2^31 - 2` bytes; only then does `unwrap` find the right position.

## What is proved

* `Half.fills` — the sender fills the window with honest segments only.
* `Half.acked` — an honest acknowledgment is understood.
* `Half.receive` — an honest segment is put in its place.
* `assembled_isPrefix_accepted` — in every run, what has been assembled at one side is a
  prefix of what the other has accepted, and all of it when the input has ended.
-/

namespace Sponge

open StreamReassembler

/-- The end of the window of the inbound stream. -/
def Peer.limit (p : Peer) : ℕ := p.receiver.reassembler.output.limit

/-- Streams are short enough for 32-bit sequence numbers. -/
def Peer.Short (p : Peer) : Prop := p.accepted.length < 2 ^ 31 - 2

/-- The stream from `p` to `q`. -/
structure Half (p q : Peer) : Prop where
  /-- The receiver numbers the stream as the sender does. -/
  isn : q.receiver.setIsn = true → q.receiver.isn = p.sender.isn ∧ p.sender.nextSeqno ≠ 0
  /-- The receiver has the capacity of its reassembler. -/
  cap : q.receiver.capacity = q.receiver.reassembler.capacity
  /-- The receiver holds a part of what has been sent. -/
  sink : Sink p.offer.bytes q.taken p.offer.fin q.receiver.reassembler
  /-- Segments on their way are honest. -/
  data : ∀ seg ∈ p.outgoing, seg.header.rst = false → Carries p.offer q.limit seg
  /-- Acknowledgments on their way back are honest. -/
  acks : ∀ seg ∈ q.outgoing, seg.header.rst = false → seg.header.ack = true →
    q.receiver.setIsn = true ∧ ∃ a, AcksAt p.sender.isn p.sender.setFin q.receiver.position q.limit seg a
  /-- The position acknowledged last has been sent. -/
  ackno : p.sender.ackno ≤ p.sender.nextSeqno
  /-- The window of the sender is inside that of the receiver. -/
  window : p.sender.ackno + p.sender.windowSz ≤ q.limit + 1 ∨ p.sender.setFin = true
  /-- What is not kept for retransmission has been received. -/
  acked : p.sender.base ≤ q.receiver.position

theorem half_start (c c' : TCPConfig) (r r' : WrappingInt32) :
    Half (Peer.start c r) (Peer.start c' r') := by
  refine ⟨?_, rfl, sink_make _, ?_, ?_, le_rfl, Or.inl (Nat.le_add_left _ _), Nat.zero_le _⟩
  · exact fun h => absurd h Bool.false_ne_true
  · exact fun seg h => absurd h List.not_mem_nil
  · exact fun seg h => absurd h List.not_mem_nil

/-- A receiver has not got further than the sender. -/
theorem Half.position_le {p q : Peer} (h : Half p q) (hp : Source p.accepted p.sender)
    (h0 : p.sender.nextSeqno ≠ 0) : q.receiver.position ≤ p.sender.nextSeqno := by
  have hle := h.sink.sound.out.le
  rw [hp.length_offer] at hle
  have hn := hp.next.resolve_left fun h' => h0 h'.1
  by_cases he : q.receiver.reassembler.output.inputEnded = true
  · have hfin : p.sender.setFin = true := h.sink.fin (Or.inl he)
    rw [hfin, Bool.toNat_true] at hn
    rw [TCPReceiver.position_of_inputEnded he]
    omega
  · rw [TCPReceiver.position_of_not_inputEnded he]
    omega

theorem Source.nextSeqno_lt {p : Peer} (hp : Source p.accepted p.sender) (hs : p.Short) :
    p.sender.nextSeqno < 2 ^ 31 := by
  have h1 := hp.nextSeqno_le
  have h2 := hp.bytesRead_le
  unfold Peer.Short at hs
  omega

/-! ### Steps of the sending side -/

/-- A step that sends nothing new. -/
theorem Half.source_of_eq {p p' q : Peer} (h : Half p q) (ho : p'.offer = p.offer)
    (hackno : p'.sender.ackno = p.sender.ackno) (hwin : p'.sender.windowSz = p.sender.windowSz)
    (hbase : p'.sender.base = p.sender.base)
    (hout : ∀ seg ∈ p'.outgoing, seg.header.rst = false → Carries p.offer q.limit seg) : Half p' q := by
  have h1 : p'.sender.isn = p.sender.isn := congrArg Offer.isn ho
  have h2 : p'.sender.nextSeqno = p.sender.nextSeqno := congrArg Offer.next ho
  have h3 : p'.sender.setFin = p.sender.setFin := congrArg Offer.fin ho
  refine ⟨?_, h.cap, ?_, ?_, ?_, ?_, ?_, ?_⟩
  · rw [h1, h2]
    exact h.isn
  · rw [ho]
    exact h.sink
  · rw [ho]
    exact hout
  · rw [h1, h3]
    exact h.acks
  · rw [hackno, h2]
    exact h.ackno
  · rw [hackno, hwin, h3]
    exact h.window
  · rw [hbase]
    exact h.acked

/-- Only the sender and the segments on their way matter. -/
theorem Half.source_congr {p p' q : Peer} (h : Half p q) (hs : p'.sender = p.sender)
    (ha : p'.accepted = p.accepted) (ho : p'.conn.segmentsOut = p.conn.segmentsOut) (hw : p'.wire = p.wire) :
    Half p' q := by
  refine h.source_of_eq ?_ ?_ ?_ ?_ fun seg hseg => h.data seg ?_
  · simp only [Peer.offer, hs, ha]
  · rw [hs]
  · rw [hs]
  · rw [hs]
  · simpa only [Peer.mem_outgoing, hs, ho, hw] using hseg

/-- The side after it has sent the next segment. -/
def Peer.sendNext (p : Peer) (w : ℕ) : Peer :=
  p.onSender fun s => (s.advance w).transmit (s.nextSegment w).1

section SendNext

variable {p q : Peer} {w : ℕ}

/-- What has been sent then. -/
theorem offer_sendNext (hfin : p.sender.setFin = false) : (p.sendNext w).offer =
    { isn := p.sender.isn
      bytes := p.accepted.take (p.sender.stream.bytesRead + (p.sender.nextSegment w).1.payload.length)
      next := p.sender.nextSeqno + (p.sender.nextSegment w).1.lengthInSequenceSpace
      fin := (p.sender.nextSegment w).1.header.fin } := by
  rw [← p.sender.nextSegment_bytesRead w]
  simp only [Peer.offer, Peer.sendNext, Peer.onSender, TCPSender.transmit, TCPSender.advance, hfin,
    Bool.false_or]

/-- It is more than before. -/
theorem offer_le_sendNext (hfin : p.sender.setFin = false) : p.offer.Le (p.sendNext w).offer := by
  rw [offer_sendNext hfin]
  exact ⟨rfl, List.take_prefix_take_left (Nat.le_add_right _ _), Nat.le_add_right _ _,
    fun hf => absurd hf (by simp [Peer.offer, hfin])⟩

/-- The payload ends inside the window that was advertised, or is one byte for a closed window. -/
theorem Half.next_small (h : Half p q) (hp : Source p.accepted p.sender) (hw : 0 < w)
    (hfin : p.sender.setFin = false)
    (hfree : p.sender.nextSeqno + w ≤ p.sender.ackno + p.sender.usableWindow) :
    (p.sender.nextSegment w).1.payload.length ≤ 1 ∨
      p.sender.nextSeqno - 1 + (p.sender.nextSegment w).1.payload.length ≤ q.limit := by
  have hlength := p.sender.nextSegment_length w
  have hle := p.sender.nextSegment_length_le w hw
  have hwin := h.window.resolve_right (by simp [hfin])
  have hack := h.ackno
  unfold TCPSender.usableWindow at hfree
  split_ifs at hfree with hz
  · refine Or.inr ?_
    rcases hp.next with ⟨h0, -, -⟩ | hn
    · rw [if_pos h0] at hlength
      omega
    · omega
  · exact Or.inl (by omega)

/-- The next segment carries the next part of the stream. -/
theorem Half.carries_next (h : Half p q) (hp : Source p.accepted p.sender) (hw : 0 < w)
    (hfin : p.sender.setFin = false) (hlen : 0 < (p.sender.nextSegment w).1.lengthInSequenceSpace)
    (hfree : p.sender.nextSeqno + w ≤ p.sender.ackno + p.sender.usableWindow) :
    Carries (p.sendNext w).offer q.limit (p.sender.nextSegment w).1 := by
  have hnext := hp.nextSeqno_sub_one hfin
  have hque := p.sender.nextSegment_payload_length w
  have hbuf := p.sender.stream.bytesRead_add_bufferSize
  have hwritten := hp.written
  have hbytes : (p.accepted.take
      (p.sender.stream.bytesRead + (p.sender.nextSegment w).1.payload.length)).length =
        p.sender.stream.bytesRead + (p.sender.nextSegment w).1.payload.length := by
    rw [List.length_take]
    omega
  rw [offer_sendNext hfin]
  refine ⟨p.sender.nextSeqno, rfl, Nat.add_pos_right _ hlen, Nat.le_add_right _ _,
    p.sender.nextSegment_syn w, ?_, Or.inr ?_, fun hf => ⟨hf, ?_⟩, h.next_small hp hw hfin hfree⟩
  · rw [hnext, slice, List.drop_take, Nat.add_sub_cancel_left, List.take_take, Nat.min_self, ← hp.que]
    exact p.sender.nextSegment_payload w
  · rw [hnext]
    exact hbytes.ge
  · rw [hnext]
    exact hbytes.symm

/-- One more segment is sent, inside the window. -/
theorem Half.send (h : Half p q) (hp : Source p.accepted p.sender) (hw : 0 < w)
    (hfin : p.sender.setFin = false) (hlen : 0 < (p.sender.nextSegment w).1.lengthInSequenceSpace)
    (hfree : p.sender.nextSeqno + w ≤ p.sender.ackno + p.sender.usableWindow) : Half (p.sendNext w) q := by
  have hoffer := offer_le_sendNext (w := w) hfin
  have hnext : p.sender.nextSeqno ≤ (p.sendNext w).sender.nextSeqno := hoffer.next
  have hbase : (p.sendNext w).sender.base = p.sender.base := Nat.add_sub_add_right _ _ _
  refine ⟨fun hs => ⟨(h.isn hs).1, ?_⟩, h.cap, h.sink.mono hoffer.bytes hoffer.fin, fun seg hmem hrst => ?_,
    fun seg hmem hrst hack => ?_, h.ackno.trans hnext, ?_, hbase ▸ h.acked⟩
  · have := (h.isn hs).2
    omega
  · have hcases : seg ∈ p.outgoing ∨ seg = (p.sender.nextSegment w).1 := by
      simp only [Peer.mem_outgoing, Peer.sendNext, Peer.onSender, TCPSender.transmit, TCPSender.advance,
        List.mem_append, List.mem_singleton] at hmem ⊢
      rcases hmem with (((hin | hnew) | hwait | hnew) | hout) | hwire
      · exact Or.inl (Or.inl (Or.inl (Or.inl hin)))
      · exact Or.inr hnew
      · exact Or.inl (Or.inl (Or.inl (Or.inr hwait)))
      · exact Or.inr hnew
      · exact Or.inl (Or.inl (Or.inr hout))
      · exact Or.inl (Or.inr hwire)
    rcases hcases with hold | rfl
    · exact (h.data seg hold hrst).mono hoffer le_rfl
    · exact h.carries_next hp hw hfin hlen hfree
  · obtain ⟨hset, a, ha⟩ := h.acks seg hmem hrst hack
    exact ⟨hset, a, ha.mono (fun hf => (hoffer.fin hf).1) le_rfl le_rfl⟩
  · exact Or.inl (h.window.resolve_right (by simp [hfin]))

end SendNext

/-- **The sender fills the window with honest segments only.** -/
theorem Half.fills {p q : Peer} {s s' : TCPSender} {w : ℕ} (hf : TCPSender.Fills s w s') (hs : p.sender = s)
    (h : Half p q) (hp : Source p.accepted p.sender)
    (hfree : w = 0 ∨ s.nextSeqno + w ≤ s.ackno + s.usableWindow) : Half (p.onSender fun _ => s') q := by
  induction hf generalizing p with
  | stop =>
    subst hs
    exact h
  | @send s s' w hw hfin hlen _ ih =>
    subst hs
    have hle := p.sender.nextSegment_length_le w hw
    have hstep := h.send hp hw hfin hlen (hfree.resolve_left hw.ne')
    refine ih (p := p.sendNext w) rfl hstep
      (hp.send hfin hlen) (Or.inr ?_)
    have := hfree.resolve_left hw.ne'
    show p.sender.nextSeqno + (p.sender.nextSegment w).1.lengthInSequenceSpace +
      (w - (p.sender.nextSegment w).1.lengthInSequenceSpace) ≤ p.sender.ackno + p.sender.usableWindow
    omega

theorem Half.fillWindow {p q : Peer} (h : Half p q) (hp : Source p.accepted p.sender) :
    Half (p.onSender (·.fillWindow)) q := by
  refine Half.fills p.sender.fillWindow_fills rfl h hp ?_
  unfold TCPSender.freeWindow
  omega

/-- **An honest acknowledgment is understood.** -/
theorem Half.ackReceived {p q : Peer} (h : Half p q) (hp : Source p.accepted p.sender) (hs : p.Short)
    {seg : TCPSegment} (hseg : seg ∈ q.outgoing) (hrst : seg.header.rst = false)
    (hack : seg.header.ack = true) :
    Half (p.onSender (·.ackReceived seg.header.ackno seg.header.win)) q := by
  obtain ⟨hset, a, ha⟩ := h.acks seg hseg hrst hack
  have hnext := hp.nextSeqno_lt hs
  have hpos := h.position_le hp (h.isn hset).2
  have hale := ha.le
  have hun : unwrap seg.header.ackno p.sender.isn p.sender.nextSeqno = a := by
    rw [ha.ackno]
    exact unwrap_wrap _ (by omega) (by omega)
  have hle : unwrap seg.header.ackno p.sender.isn p.sender.nextSeqno ≤ p.sender.nextSeqno := by omega
  obtain ⟨-, popped, hl, htiles, hpop⟩ := hp.outstanding.acked seg.header.win hle
  have hoffer : (p.onSender (·.ackReceived seg.header.ackno seg.header.win)).offer = p.offer := by
    simp only [Peer.offer, Peer.onSender_sender, Peer.onSender_accepted, TCPSender.ackReceived_isn,
      TCPSender.ackReceived_stream, TCPSender.ackReceived_nextSeqno, TCPSender.ackReceived_setFin]
  refine ⟨?_, h.cap, ?_, fun seg' hmem hrst' => ?_, ?_, ?_, ?_, ?_⟩
  · rw [Peer.onSender_sender, TCPSender.ackReceived_isn, TCPSender.ackReceived_nextSeqno]
    exact h.isn
  · rw [hoffer]
    exact h.sink
  · rw [hoffer]
    refine h.data seg' ?_ hrst'
    simp only [Peer.mem_outgoing, Peer.onSender_sender, Peer.onSender_segmentsOut, Peer.onSender_wire,
      TCPSender.ackReceived_segmentsOut] at hmem ⊢
    rw [hl, List.mem_append]
    exact hmem.imp_left (Or.imp_left (Or.imp_right Or.inr))
  · rw [Peer.onSender_sender, TCPSender.ackReceived_isn, TCPSender.ackReceived_setFin]
    exact h.acks
  · rw [Peer.onSender_sender, TCPSender.ackReceived_ackno, TCPSender.ackReceived_nextSeqno]
    exact hle
  · rw [Peer.onSender_sender, TCPSender.ackReceived_ackno, TCPSender.ackReceived_setFin,
      TCPSender.ackReceived_windowSz _ hle, hun]
    exact ha.window
  · -- what has been removed has been acknowledged
    show (p.sender.ackReceived seg.header.ackno seg.header.win).base ≤ _
    rcases hpop with rfl | hbase
    · rw [← tiles_nil.mp htiles]
      exact h.acked
    · omega

/-- A segment that the connection stamps or copies stays honest. -/
theorem carries_stamp {o : Offer} {limit : ℕ} {seg : TCPSegment} (h : Carries o limit seg)
    (r : TCPReceiver) : Carries o limit (TCPConnection.stamp r seg) :=
  h.congr (TCPConnection.stamp_seqno r seg) (TCPConnection.stamp_syn r seg) (TCPConnection.stamp_fin r seg)
    (TCPConnection.stamp_payload r seg)

/-- What a step adds to the segments on their way is honest, filling the window apart. -/
theorem Half.data_micro {p p' q : Peer} (h : Half p q) (hm : Micro q.wire p p')
    (hne : p' ≠ p.onSender (·.fillWindow)) {seg : TCPSegment} (hseg : seg ∈ p'.outgoing)
    (hrst : seg.header.rst = false) : Carries p.offer q.limit seg := by
  rcases hm.mem_outgoing hseg hrst with hold | ⟨seg', hmem, rfl⟩ | ⟨h0, rfl⟩ | ⟨heq, -⟩
  · exact h.data seg hold hrst
  · rw [TCPConnection.stamp_rst] at hrst
    exact carries_stamp (h.data seg' hmem hrst) _
  · exact ⟨p.sender.nextSeqno, rfl, Nat.pos_of_ne_zero h0, le_rfl, by simpa using h0, by simp,
      Or.inl rfl, by simp, Or.inl (Nat.zero_le _)⟩
  · exact absurd heq hne

/-- **The steps of the sending side.** -/
theorem Half.source_micro {p p' q : Peer} (h : Half p q) (hp : Source p.accepted p.sender) (hs : p.Short)
    (hm : Micro q.wire p p') : Half p' q := by
  by_cases hfill : p' = p.onSender (·.fillWindow)
  · rw [hfill]
    exact h.fillWindow hp
  have hdata : ∀ seg ∈ p'.outgoing, seg.header.rst = false → Carries p.offer q.limit seg := fun _ =>
    h.data_micro hm hfill
  cases hm with
  | @deliver seg hseg hrst =>
    rcases p.deliver_sender seg with ⟨-, hack, heq⟩ | ⟨-, heq⟩
    · exact (h.ackReceived hp hs (Peer.mem_outgoing.mpr (Or.inr hseg)) hrst hack).source_congr heq rfl
        (p.conn.deliver_segmentsOut seg) rfl
    · exact h.source_congr heq rfl (p.conn.deliver_segmentsOut seg) rfl
  | fillWindow => exact absurd rfl hfill
  | tick ms =>
    obtain ⟨timer, num, again, -, heq⟩ := p.sender.tick_eq ms
    refine h.source_of_eq ?_ ?_ ?_ ?_ hdata
    all_goals simp only [Peer.offer, Peer.onSender_sender, Peer.onSender_accepted, TCPSender.base, heq]
  | write data hend =>
    refine h.source_of_eq ?_ rfl rfl rfl hdata
    have hle := hp.bytesRead_le
    simp only [Peer.offer, Peer.writeStream, Peer.onSender, ByteStream.write_bytesRead,
      List.take_append_of_le_length hle]
  | _ => exact h.source_of_eq rfl rfl rfl rfl hdata

/-! ### Steps of the receiving side -/

/-- **An honest segment is put in its place.** -/
theorem Half.receive {p q q' : Peer} (h : Half p q) (hp : Source p.accepted p.sender) (hs : p.Short)
    {seg : TCPSegment} (hseg : seg ∈ p.outgoing) (hrst : seg.header.rst = false)
    (hr : q'.receiver = q.receiver.segmentReceived seg) (ht : q'.taken = q.taken)
    (hout : ∀ seg ∈ q'.outgoing, seg.header.rst = false → seg.header.ack = true → q.receiver.setIsn = true ∧
      ∃ a, AcksAt p.sender.isn p.sender.setFin q.receiver.position q.limit seg a) : Half p q' := by
  obtain ⟨x, hx⟩ := h.data seg hseg hrst
  have hnext : p.sender.nextSeqno < 2 ^ 31 := hp.nextSeqno_lt hs
  have hxle : x ≤ p.sender.nextSeqno := hx.le
  have hwle := h.sink.sound.out.le
  have hread := hp.bytesRead_le
  rw [hp.length_offer] at hwle
  have hw : q.receiver.streamOut.bytesWritten < 2 ^ 31 := by
    simp only [Peer.Short] at hs
    simp only [TCPReceiver.streamOut, streamOut]
    omega
  have hsink : Sink p.offer.bytes q.taken p.offer.fin (q.receiver.segmentReceived seg).reassembler ∧
      (q.receiver.segmentReceived seg).reassembler.output.limit = q.limit := by
    rcases segmentReceived_reassembler hx.seqno hx.syn (fun hset => (h.isn hset).1) (by omega) hw with he | he
    · rw [he]
      exact ⟨h.sink, rfl⟩
    · rw [he]
      exact h.sink.push hx.payload hx.inside hx.fin hx.small
  have hlimit : q'.limit = q.limit := by
    rw [Peer.limit, hr]
    exact hsink.2
  have hgrows : q.receiver.position ≤ q'.receiver.position := by
    rw [hr]
    exact TCPReceiver.position_le (q.receiver.segmentReceived_grows seg)
  have hset := (q.receiver.segmentReceived_isn seg).2
  refine ⟨?_, ?_, ?_, ?_, fun seg' hmem hrst' hack => ?_, h.ackno, ?_, h.acked.trans hgrows⟩
  · -- the SYN is at the initial sequence number
    rw [hr, hset, (q.receiver.segmentReceived_isn seg).1, Bool.or_eq_true]
    intro hor
    have hstarted : p.sender.nextSeqno ≠ 0 := hx.started.ne'
    split_ifs with hsyn
    · refine ⟨?_, hstarted⟩
      rw [hx.seqno, hx.syn.mp hsyn, wrap_zero]
      rfl
    · exact h.isn (hor.resolve_right hsyn)
  · rw [hr, (q.receiver.segmentReceived_capacity seg).1, (q.receiver.segmentReceived_capacity seg).2]
    exact h.cap
  · rw [hr, ht]
    exact hsink.1
  · rw [hlimit]
    exact h.data
  · obtain ⟨h1, a, ha⟩ := hout seg' hmem hrst' hack
    refine ⟨by rw [hr, hset, h1, Bool.true_or], a, ?_⟩
    rw [hlimit]
    exact ha.mono id hgrows le_rfl
  · rw [hlimit]
    exact h.window

/-- A step that does not touch the receiver. -/
theorem Half.sink_of_eq {p q q' : Peer} (h : Half p q) (hr : q'.receiver = q.receiver)
    (ht : q'.taken = q.taken)
    (hout : ∀ seg ∈ q'.outgoing, seg.header.rst = false → seg.header.ack = true → q.receiver.setIsn = true ∧
      ∃ a, AcksAt p.sender.isn p.sender.setFin q.receiver.position q.limit seg a) : Half p q' := by
  have hlimit : q'.limit = q.limit := by rw [Peer.limit, hr, Peer.limit]
  refine ⟨?_, ?_, ?_, ?_, ?_, h.ackno, ?_, ?_⟩
  · rw [hr]
    exact h.isn
  · rw [hr]
    exact h.cap
  · rw [hr, ht]
    exact h.sink
  · rw [hlimit]
    exact h.data
  · rw [hr, hlimit]
    exact hout
  · rw [hlimit]
    exact h.window
  · rw [hr]
    exact h.acked

/-- The receiver advertises the window that there is. -/
theorem Half.window_le {p q : Peer} (h : Half p q)
    (hend : ¬ q.receiver.reassembler.output.inputEnded = true) :
    q.receiver.position + (UInt16.ofNat q.receiver.windowSize).toNat ≤ q.limit + 1 := by
  have hread := q.receiver.reassembler.output.bytesRead_add_bufferSize
  have hroom := q.receiver.reassembler.output.bufferSize_add_remainingCapacity
  have hcap := h.cap
  have hkept := h.sink.sound.kept.cap
  have hwin : (UInt16.ofNat q.receiver.windowSize).toNat ≤
      q.receiver.capacity - q.receiver.reassembler.output.bufferSize := by
    rw [UInt16.toNat_ofNat', TCPReceiver.windowSize, sub64_of_le]
    · exact Nat.mod_le _ _
    · simp only [TCPReceiver.streamOut, streamOut]
      omega
  rw [TCPReceiver.position_of_not_inputEnded hend]
  simp only [Peer.limit, ByteStream.limit]
  omega

/-- What is stamped is an honest acknowledgment. -/
theorem Half.stamp {p q : Peer} (h : Half p q) {seg : TCPSegment} (hseg : seg ∈ q.outgoing)
    (hrst : seg.header.rst = false) (hack : (TCPConnection.stamp q.receiver seg).header.ack = true) :
    q.receiver.setIsn = true ∧ ∃ a, AcksAt p.sender.isn p.sender.setFin q.receiver.position q.limit
      (TCPConnection.stamp q.receiver seg) a := by
  cases hset : q.receiver.setIsn
  · rw [TCPConnection.stamp_of_not_setIsn _ seg hset] at hack
    exact absurd (h.acks seg hseg hrst hack).1 (by simp [hset])
  obtain ⟨-, hackno, hwin⟩ := TCPConnection.stamp_of_setIsn _ seg hset
  refine ⟨rfl, q.receiver.position, by rw [hackno, (h.isn hset).1], ?_, le_rfl, ?_⟩
  · unfold TCPReceiver.position
    omega
  · by_cases hend : q.receiver.reassembler.output.inputEnded = true
    · exact Or.inr (h.sink.fin (Or.inl hend))
    · exact Or.inl (hwin ▸ h.window_le hend)

/-- What a step adds to the acknowledgments on their way is honest. -/
theorem Half.acks_micro {p q q' : Peer} (h : Half p q) (hm : Micro p.wire q q') {seg : TCPSegment}
    (hseg : seg ∈ q'.outgoing) (hrst : seg.header.rst = false) (hack : seg.header.ack = true) :
    q.receiver.setIsn = true ∧
      ∃ a, AcksAt p.sender.isn p.sender.setFin q.receiver.position q.limit seg a := by
  rcases hm.mem_outgoing hseg hrst with hold | ⟨seg', hmem, rfl⟩ | ⟨-, rfl⟩ | ⟨-, s, w, rfl, -⟩
  · exact h.acks seg hold hrst hack
  · rw [TCPConnection.stamp_rst] at hrst
    exact h.stamp hmem hrst hack
  · exact absurd hack Bool.false_ne_true
  · exact absurd hack Bool.false_ne_true

/-- **The steps of the receiving side.** -/
theorem Half.sink_micro {p q q' : Peer} (h : Half p q) (hp : Source p.accepted p.sender) (hs : p.Short)
    (hm : Micro p.wire q q') : Half p q' := by
  have hacks : ∀ seg ∈ q'.outgoing, seg.header.rst = false → seg.header.ack = true → q.receiver.setIsn = true ∧
      ∃ a, AcksAt p.sender.isn p.sender.setFin q.receiver.position q.limit seg a := fun _ => h.acks_micro hm
  cases hm with
  | @deliver seg hseg hrst =>
    exact h.receive hp hs (Peer.mem_outgoing.mpr (Or.inr hseg)) hrst (q.deliver_receiver seg) rfl hacks
  | fail => exact ⟨h.isn, h.cap, h.sink.setError, h.data, h.acks, h.ackno, h.window, h.acked⟩
  | read len =>
    -- the window moves on
    have hlimit : q.limit ≤ (q.run (.read len)).limit := by
      simp only [Peer.limit, Peer.run, TCPConnection.readInbound, TCPReceiver.readOut, readOut, Peer.receiver,
        ByteStream.limit, ByteStream.read_snd, ByteStream.popOutput_bytesRead,
        ByteStream.popOutput_maximumcapacity]
      omega
    refine ⟨h.isn, h.cap, h.sink.readOut len, fun seg hmem hrst => (h.data seg hmem hrst).mono (.refl _) hlimit,
      fun seg hmem hrst hack => ?_, h.ackno, ?_, h.acked⟩
    · obtain ⟨hset, a, ha⟩ := h.acks seg hmem hrst hack
      exact ⟨hset, a, ha.mono id le_rfl hlimit⟩
    · exact h.window.imp_left fun hw => hw.trans (Nat.add_le_add_right hlimit 1)
  | _ => exact h.sink_of_eq rfl rfl hacks

/-! ### Runs -/

/-- Both streams, as long as they are short. -/
def Both (p q : Peer) : Prop := p.Short → q.Short → Half p q ∧ Half q p

theorem Both.symm {p q : Peer} (h : Both p q) : Both q p := fun hq hp => (h hp hq).symm

theorem Both.micro {p q p' : Peer} (hp : Source p.accepted p.sender) (hq : Source q.accepted q.sender)
    (h : Both p q) (hm : Micro q.wire p p') : Both p' q := by
  intro hps hqs
  have hps' : p.Short := lt_of_le_of_lt (hm.progress hp).accepted.length_le hps
  obtain ⟨h1, h2⟩ := h hps' hqs
  exact ⟨h1.source_micro hp hps' hm, h2.sink_micro hq hqs hm⟩

/-- In every run, both streams are in order. -/
theorem World.both {cfg : Side → TCPConfig} {random : Side → WrappingInt32} {es : List Event}
    (h : World.Allowed cfg random es) :
    World.Holds Both (World.after cfg random es) :=
  World.invariant Both.symm Both.micro h
    (World.holds_start cfg random fun _ _ _ _ _ _ => ⟨half_start _ _ _ _, half_start _ _ _ _⟩)

/-- What has been assembled is a prefix of what has been accepted, and all of it when the input has
ended. -/
theorem Half.assembled {p q : Peer} (h : Half p q) (hp : Source p.accepted p.sender) :
    q.assembled <+: p.accepted ∧ (q.conn.inboundStream.inputEnded = true →
      p.sender.stream.inputEnded = true ∧ q.assembled = p.accepted) := by
  have hbytes : q.assembled = p.offer.bytes.take q.receiver.reassembler.output.bytesWritten :=
    h.sink.sound.out.bytes
  have hpre : q.assembled <+: p.accepted := by
    rw [hbytes]
    exact (List.take_prefix _ _).trans (List.take_prefix _ _)
  refine ⟨hpre, fun hend => ?_⟩
  have hfin : p.sender.setFin = true := h.sink.fin (Or.inl hend)
  refine ⟨(hp.fin hfin).1, ?_⟩
  rw [hbytes, h.sink.sound.out.ended hend, List.take_length]
  simp only [Peer.offer, hp.bytesRead_eq hfin, List.take_length]

/-- **End-to-end integrity.** In every run of two connections in which no application writes after
ending its stream, and the streams are short, what has been assembled at one side is a prefix
of what the other side has accepted; and if the inbound stream of one side has ended, the
other application has ended its stream and all of it has been assembled. -/
theorem assembled_isPrefix_accepted (cfg : Side → TCPConfig) (random : Side → WrappingInt32)
    (es : List Event) (h : World.Allowed cfg random es)
    (hshort : ∀ s, (World.after cfg random es s).accepted.length < 2 ^ 31 - 2) (s : Side) :
    (World.after cfg random es s.other).assembled <+:
        (World.after cfg random es s).accepted ∧
      ((World.after cfg random es s.other).conn.inboundStream.inputEnded = true →
        (World.after cfg random es s).sender.stream.inputEnded = true ∧
          (World.after cfg random es s.other).assembled =
            (World.after cfg random es s).accepted) := by
  have hw := World.both h s
  exact (hw.2 (hshort s) (hshort s.other)).1.assembled hw.1

/-- Two bytes arrive, and then the end of the stream. -/
def delivery : List Event := World.handshake ++
  [.app .a (.write [104, 105]), .app .a .endInputStream, .send .a, .send .a, .deliver .b 2, .deliver .b 3]

/-- All that has been written is assembled. -/
theorem assembled_isPrefix_accepted_two :
    (World.after (fun _ => {}) (fun _ => ⟨0⟩) delivery .b).conn.inboundStream.inputEnded = true ∧
      (World.after (fun _ => {}) (fun _ => ⟨0⟩) delivery .b).assembled =
        (World.after (fun _ => {}) (fun _ => ⟨0⟩) delivery .a).accepted := by
  have hended : (World.after (fun _ => {}) (fun _ => ⟨0⟩) delivery .b).conn.inboundStream.inputEnded = true := by
    decide +kernel
  have hrun := assembled_isPrefix_accepted (fun _ => {}) (fun _ => ⟨0⟩) delivery (by decide +kernel)
    (fun s => by cases s <;> decide +kernel) .a
  exact ⟨hended, (hrun.2 hended).2⟩

end Sponge
