import Sponge.Network.World

/-!
# The opening of a connection

As long as its SYN has not been acknowledged, a side has sent nothing but the SYN: the
window of a new sender is one byte, which the SYN fills. So the other side has
received nothing from it, and its acknowledgments are all of position `1`. The first of
them that arrives acknowledges the SYN. A segment with a byte or a FIN comes from a side
whose own SYN has been acknowledged, which has therefore seen the SYN of the other side,
and acknowledges it. So nothing but a SYN is received before one's own SYN has been
acknowledged.

None of this depends on how long the streams are.

## What is proved

* `Opening.source_micro`, `Opening.sink_micro` — the steps of both sides keep this.
* `World.openings` — they hold in every run.
-/

namespace Sponge

open StreamReassembler

/-- A segment without payload and FIN. -/
def Bare (seg : TCPSegment) : Prop := seg.payload = [] ∧ seg.header.fin = false

theorem Bare.stamp {seg : TCPSegment} (h : Bare seg) (r : TCPReceiver) : Bare (TCPConnection.stamp r seg) :=
  ⟨(TCPConnection.stamp_payload r seg).trans h.1, (TCPConnection.stamp_fin r seg).trans h.2⟩

/-- Nothing has been received. -/
structure Blank (r : TCPReceiver) : Prop where
  /-- No byte has been written. -/
  written : r.reassembler.output.bytesWritten = 0
  /-- The input has not ended. -/
  ended : r.reassembler.output.inputEnded = false
  /-- No byte is held. -/
  head : r.reassembler.head = []

theorem Blank.position {r : TCPReceiver} (h : Blank r) : r.position = 1 := by
  rw [TCPReceiver.position_of_not_inputEnded (by simp [h.ended]), h.written]

/-- A segment without payload and FIN brings nothing. -/
theorem Blank.segmentReceived {r : TCPReceiver} (h : Blank r) {seg : TCPSegment} (hseg : Bare seg) :
    Blank (r.segmentReceived seg) := by
  obtain ⟨hwritten, hended, hhead⟩ := h
  rcases r.segmentReceived_push seg with heq | ⟨-, index, heq⟩
  · exact ⟨by rw [heq, hwritten], by rw [heq, hended], by rw [heq, hhead]⟩
  · rw [hseg.1, hseg.2] at heq
    have hpush : r.reassembler.pushSubstring [] index false = r.reassembler := by
      simp only [pushSubstring, fetchValidData, insertToLinklist, insertHead, hhead, fetchLoop,
        ByteStream.write_nil, List.drop_nil, List.length_nil, true_or, if_true, Nat.zero_min, ge_iff_le,
        le_refl, Bool.false_eq_true, if_false, ite_self, List.take_nil]
      rw [← hhead]
      split_ifs <;> rfl
    rw [hpush] at heq
    exact ⟨by rw [heq, hwritten], by rw [heq, hended], by rw [heq, hhead]⟩

/-- The first segment of a new sender is only the SYN. -/
theorem TCPSender.nextSegment_bare {s : TCPSender} (h0 : s.nextSeqno = 0) : Bare (s.nextSegment 1).1 := by
  have hlen := s.nextSegment_payload_length 1
  rw [if_pos h0, Nat.sub_self, Nat.zero_min, Nat.zero_min] at hlen
  refine ⟨List.length_eq_zero_iff.mp hlen, Bool.eq_false_iff.mpr fun hfin => ?_⟩
  have hroom := ((s.nextSegment_fin 1).mp hfin).2
  rw [if_pos h0] at hroom
  omega

/-- The acknowledgment of the SYN is understood. -/
theorem TCPSender.Outstanding.base_of_syn {s : TCPSender} (h : s.Outstanding) (h1 : s.nextSeqno = 1)
    (h0 : s.base = 0) (w : UInt16) : (s.ackReceived (wrap 1 s.isn) w).base = 1 := by
  have hun : unwrap (wrap 1 s.isn) s.isn s.nextSeqno = 1 := unwrap_wrap _ (by omega) (by omega)
  have hle := h.le
  have htiles := h.tiles
  rw [h0, h1] at htiles
  -- the SYN is the only segment that is kept
  have hflight : (s.ackReceived (wrap 1 s.isn) w).flightBytes = 0 := by
    have hpop := ackReceived_popAcked w (hun.trans_le h1.ge)
    rw [hun, h1] at hpop
    cases hl : s.waitAck with
    | nil =>
      rw [hl] at htiles
      exact absurd (tiles_nil.mp htiles) Nat.zero_ne_one
    | cons seg rest =>
      rw [hl] at htiles hpop
      obtain ⟨hseg, hrest⟩ := htiles
      have hlen := hrest.le
      have hpos := hseg.pos
      have hrest' : rest = [] := by
        rw [show 0 + seg.lengthInSequenceSpace = 1 by omega] at hrest
        exact hrest.eq_nil fun _ _ hx => hx.pos
      have hzero : unwrap seg.header.seqno s.isn 1 = 0 := by
        rw [hseg.seqno]
        exact unwrap_wrap _ (by omega) (by omega)
      have hone : seg.lengthInSequenceSpace = 1 := by omega
      have hf : s.flightBytes = 1 := by
        unfold base at h0
        omega
      rw [hrest'] at hpop
      simp only [popAcked, hzero, hone, hf, ge_iff_le, le_refl, if_true, Prod.mk.injEq] at hpop
      exact hpop.1
  rw [base, hflight, ackReceived_nextSeqno, h1]

/-- As long as the SYN of `p` has not been acknowledged. -/
structure Unacked (p q : Peer) : Prop where
  /-- Only the SYN has been sent. -/
  next : p.sender.nextSeqno ≤ 1
  /-- No acknowledgment has been seen. -/
  ackno : p.sender.ackno = 0
  /-- The window is that of a new sender. -/
  windowSz : p.sender.windowSz = 1
  /-- Nothing but the SYN is on its way. -/
  bare : ∀ seg ∈ p.outgoing, seg.header.rst = false → Bare seg
  /-- The other side has received nothing. -/
  other : Blank q.receiver
  /-- Nor has this side. -/
  own : Blank p.receiver
  /-- All acknowledgments are of the SYN. -/
  acks : ∀ seg ∈ q.outgoing, seg.header.rst = false → seg.header.ack = true →
    seg.header.ackno = wrap 1 p.sender.isn

theorem Unacked.freeWindow {p q : Peer} (h : Unacked p q) :
    p.sender.freeWindow = 1 - p.sender.nextSeqno := by
  simp [TCPSender.freeWindow, TCPSender.usableWindow, h.ackno, h.windowSz]

/-- The opening of the stream from `p` to `q`. -/
structure Opening (p q : Peer) : Prop where
  /-- A SYN carries the initial sequence number. -/
  syn : ∀ seg ∈ p.outgoing, seg.header.rst = false → seg.header.syn = true →
    seg.header.seqno = p.sender.isn ∧ p.sender.nextSeqno ≠ 0
  /-- The other side has the numbering from a SYN. -/
  isn : q.receiver.setIsn = true → q.receiver.isn = p.sender.isn ∧ p.sender.nextSeqno ≠ 0
  /-- What is acknowledged has been sent. -/
  acks : ∀ seg ∈ q.outgoing, seg.header.rst = false → seg.header.ack = true → p.sender.nextSeqno ≠ 0
  /-- A byte or a FIN comes with an acknowledgment. -/
  acked : ∀ seg ∈ p.stamped, seg.header.rst = false → Bare seg ∨ seg.header.ack = true
  /-- When the SYN has been acknowledged, the SYN of the other side has arrived. -/
  synced : p.sender.base ≠ 0 → p.receiver.setIsn = true
  /-- As long as it has not. -/
  unacked : p.sender.base = 0 → Unacked p q

theorem opening_start (c c' : TCPConfig) (r r' : WrappingInt32) :
    Opening (Peer.start c r) (Peer.start c' r') := by
  have hblank : ∀ (c : TCPConfig) (r : WrappingInt32), Blank (Peer.start c r).receiver := fun c r =>
    ⟨rfl, rfl, rfl⟩
  refine ⟨?_, fun h => absurd h Bool.false_ne_true, ?_, ?_, fun h => absurd rfl h, fun _ =>
    ⟨Nat.zero_le _, rfl, rfl, ?_, hblank _ _, hblank _ _, ?_⟩⟩
  all_goals exact fun seg h => absurd h List.not_mem_nil

/-! ### Steps of one side -/

/-- Where the segments that have been stamped come from. -/
theorem Micro.mem_stamped {inbox : List TCPSegment} {p p' : Peer} (hm : Micro inbox p p') {seg : TCPSegment}
    (hseg : seg ∈ p'.stamped) (hrst : seg.header.rst = false) :
    seg ∈ p.stamped ∨ ∃ seg' ∈ p.outgoing, seg = TCPConnection.stamp p.receiver seg' := by
  rw [Peer.stamped, List.mem_append] at hseg ⊢
  cases hm with
  | @deliver seg' =>
    exact Or.inl (hseg.imp_left fun h => p.conn.deliver_segmentsOut seg' ▸ h)
  | sendSegments =>
    simp only [Peer.onConn, TCPConnection.sendSegments, List.mem_append, List.mem_map] at hseg
    rcases hseg with (hout | ⟨seg', hmem, rfl⟩) | hwire
    · exact Or.inl (Or.inl hout)
    · exact Or.inr ⟨seg', Peer.mem_outgoing.mpr (Or.inl (Or.inl (Or.inl hmem))), rfl⟩
    · exact Or.inl (Or.inr hwire)
  | sendRst =>
    have hne : seg ≠ TCPConnection.stamp p.receiver
        { header := { rst := true, seqno := p.sender.nextSeqnoWrapped } } := by
      rintro rfl
      simp at hrst
    simp only [Peer.onConn, TCPConnection.sendRstSeg, List.mem_append, List.mem_singleton] at hseg
    tauto
  | send hout =>
    simp only [List.mem_append, List.mem_singleton] at hseg
    rw [hout, List.mem_cons]
    tauto
  | _ => exact Or.inl hseg

/-- Only an acknowledgment moves the oldest position that is not acknowledged, and only after the
SYN of the peer. -/
theorem Micro.base_cases {inbox : List TCPSegment} {p p' : Peer} (hm : Micro inbox p p') :
    p'.sender.base = p.sender.base ∨ p'.receiver.setIsn = true := by
  cases hm with
  | @deliver seg =>
    rcases p.deliver_sender seg with ⟨hset, -, -⟩ | ⟨-, heq⟩
    · rw [p.deliver_receiver]
      exact Or.inr hset
    · exact Or.inl (by rw [heq])
  | fillWindow => exact Or.inl p.sender.fillWindow_fills.base_eq
  | tick ms =>
    obtain ⟨timer, num, again, -, heq⟩ := p.sender.tick_eq ms
    exact Or.inl (by rw [Peer.onSender_sender, heq]; rfl)
  | _ => exact Or.inl rfl

/-! ### The sending side -/

/-- SYNs carry the initial sequence number, also the ones made by a step. -/
theorem Opening.syn_micro {p p' q : Peer} (h : Opening p q) (hp : Source p.accepted p.sender)
    (hm : Micro q.wire p p') {seg : TCPSegment} (hseg : seg ∈ p'.outgoing) (hrst : seg.header.rst = false)
    (hsyn : seg.header.syn = true) : seg.header.seqno = p'.sender.isn ∧ p'.sender.nextSeqno ≠ 0 := by
  have hprog := hm.progress hp
  have hkeep : ∀ seg ∈ p.outgoing, seg.header.rst = false → seg.header.syn = true →
      seg.header.seqno = p'.sender.isn ∧ p'.sender.nextSeqno ≠ 0 := fun seg hseg hrst hsyn => by
    obtain ⟨h1, h2⟩ := h.syn seg hseg hrst hsyn
    have hnext := hprog.next
    exact ⟨h1.trans hprog.isn.symm, by omega⟩
  rcases hm.mem_outgoing hseg hrst with hold | ⟨seg', hmem, rfl⟩ | ⟨-, rfl⟩ | ⟨heq, s, w, rfl, hisn, -⟩
  · exact hkeep seg hold hrst hsyn
  · rw [TCPConnection.stamp_rst] at hrst
    rw [TCPConnection.stamp_syn] at hsyn
    rw [TCPConnection.stamp_seqno]
    exact hkeep seg' hmem hrst hsyn
  · exact absurd hsyn Bool.false_ne_true
  · rw [TCPSender.nextSegment_seqno, (s.nextSegment_syn w).mp hsyn, wrap_zero, hisn, hprog.isn, heq]
    exact ⟨rfl, TCPSender.fillWindow_nextSeqno_ne_zero hp.setFin_eq_false⟩

/-- A segment is stamped with an acknowledgment, unless it is only a SYN. -/
theorem Opening.acked_micro {p p' q : Peer} (h : Opening p q) (hm : Micro q.wire p p') {seg : TCPSegment}
    (hseg : seg ∈ p'.stamped) (hrst : seg.header.rst = false) : Bare seg ∨ seg.header.ack = true := by
  rcases hm.mem_stamped hseg hrst with hold | ⟨seg', hmem, rfl⟩
  · exact h.acked seg hold hrst
  · rw [TCPConnection.stamp_rst] at hrst
    by_cases hbase : p.sender.base = 0
    · exact Or.inl (((h.unacked hbase).bare seg' hmem hrst).stamp _)
    · exact Or.inr (TCPConnection.stamp_of_setIsn _ _ (h.synced hbase)).1

/-- Without an acknowledgment of the SYN, nothing new is sent and nothing is received. -/
theorem Opening.idle {p p' q : Peer} (h : Opening p q) (h' : Opening q p) (hp : Source p.accepted p.sender)
    (hm : Micro q.wire p p') (hbase : p.sender.base = 0) (hbase' : p'.sender.base = 0) :
    p'.sender.nextSeqno ≤ 1 ∧ p'.sender.ackno = 0 ∧ p'.sender.windowSz = 1 ∧ Blank p'.receiver := by
  have hu := h.unacked hbase
  cases hm with
  | @deliver seg hseg hrst =>
    rcases p.deliver_sender seg with ⟨-, hack, heq⟩ | ⟨hnot, heq⟩
    · -- an acknowledgment would have been of the SYN
      have hmem : seg ∈ q.outgoing := Peer.mem_outgoing.mpr (Or.inr hseg)
      have hnext := h.acks seg hmem hrst hack
      have hle := hu.next
      rw [heq, hu.acks seg hmem hrst hack, hp.outstanding.base_of_syn (by omega) hbase] at hbase'
      exact absurd hbase' Nat.one_ne_zero
    · rw [heq, p.deliver_receiver]
      refine ⟨hu.next, hu.ackno, hu.windowSz, ?_⟩
      rcases h'.acked seg (List.mem_append_right _ hseg) hrst with hbare | hack
      · exact hu.own.segmentReceived hbare
      · -- before the SYN of the other side nothing is looked at
        rcases p.receiver.segmentReceived_push seg with hpush | ⟨hset, -⟩
        · exact ⟨by rw [hpush, hu.own.written], by rw [hpush, hu.own.ended], by rw [hpush, hu.own.head]⟩
        · exact absurd hack (by simp [hnot hset])
  | fillWindow =>
    have hf := p.sender.fillWindow_fills
    have hle := hf.nextSeqno_le_add
    have hnext := hu.next
    have hfree := hu.freeWindow
    refine ⟨?_, hf.frame.2.1.trans hu.ackno, hf.frame.2.2.1.trans hu.windowSz, hu.own⟩
    rw [Peer.onSender_sender]
    omega
  | tick ms =>
    obtain ⟨timer, num, again, -, heq⟩ := p.sender.tick_eq ms
    rw [Peer.onSender_sender, heq]
    exact ⟨hu.next, hu.ackno, hu.windowSz, hu.own⟩
  | fail => exact ⟨hu.next, hu.ackno, hu.windowSz, ⟨hu.own.written, hu.own.ended, hu.own.head⟩⟩
  | read => exact ⟨hu.next, hu.ackno, hu.windowSz, ⟨hu.own.written, hu.own.ended, hu.own.head⟩⟩
  | _ => exact ⟨hu.next, hu.ackno, hu.windowSz, hu.own⟩

/-- Until its SYN has been acknowledged, a side sends only that. -/
theorem Unacked.bare_micro {p p' q : Peer} (h : Unacked p q) (hm : Micro q.wire p p') {seg : TCPSegment}
    (hseg : seg ∈ p'.outgoing) (hrst : seg.header.rst = false) : Bare seg := by
  rcases hm.mem_outgoing hseg hrst with hold | ⟨seg', hmem, rfl⟩ | ⟨-, rfl⟩ | ⟨-, s, w, rfl, -, hw, hsum⟩
  · exact h.bare seg hold hrst
  · rw [TCPConnection.stamp_rst] at hrst
    exact (h.bare seg' hmem hrst).stamp _
  · exact ⟨rfl, rfl⟩
  · -- the window is one byte, which the SYN fills
    have hnext := h.next
    rw [h.freeWindow] at hsum
    have h1 : w = 1 := by omega
    rw [h1]
    exact TCPSender.nextSegment_bare (by omega)

/-- **The steps of the sending side.** -/
theorem Opening.source_micro {p p' q : Peer} (h : Opening p q) (h' : Opening q p)
    (hp : Source p.accepted p.sender) (hm : Micro q.wire p p') : Opening p' q := by
  have hprog := hm.progress hp
  have hnext := hprog.next
  refine ⟨fun seg => h.syn_micro hp hm, fun hset => ?_, fun seg hseg hrst hack => ?_,
    fun seg => h.acked_micro hm, fun hbase => ?_, fun hbase => ?_⟩
  · obtain ⟨h1, h2⟩ := h.isn hset
    exact ⟨h1.trans hprog.isn.symm, by omega⟩
  · have := h.acks seg hseg hrst hack
    omega
  · rcases hm.base_cases with heq | hset
    · exact hprog.setIsn (h.synced (heq ▸ hbase))
    · exact hset
  · have hbase₀ : p.sender.base = 0 := Nat.le_zero.mp (hbase ▸ hprog.base)
    have hu := h.unacked hbase₀
    obtain ⟨h1, h2, h3, h4⟩ := h.idle h' hp hm hbase₀ hbase
    exact ⟨h1, h2, h3, fun seg => hu.bare_micro hm, hu.other, h4, by rw [hprog.isn]; exact hu.acks⟩

/-! ### The receiving side -/

/-- An acknowledgment is of a position that the receiver has reached. -/
theorem Micro.ack_cases {inbox : List TCPSegment} {q q' : Peer} (hm : Micro inbox q q') {seg : TCPSegment}
    (hseg : seg ∈ q'.outgoing) (hrst : seg.header.rst = false) (hack : seg.header.ack = true) :
    seg ∈ q.outgoing ∨
      q.receiver.setIsn = true ∧ seg.header.ackno = wrap q.receiver.position q.receiver.isn := by
  rcases hm.mem_outgoing hseg hrst with hold | ⟨seg', hmem, rfl⟩ | ⟨-, rfl⟩ | ⟨-, s, w, rfl, -⟩
  · exact Or.inl hold
  · cases hset : q.receiver.setIsn
    · rw [TCPConnection.stamp_of_not_setIsn _ _ hset]
      exact Or.inl hmem
    · exact Or.inr ⟨rfl, (TCPConnection.stamp_of_setIsn _ _ hset).2.1⟩
  · exact absurd hack Bool.false_ne_true
  · exact absurd hack Bool.false_ne_true

/-- What a step does to a receiver. -/
theorem Micro.receiver_cases {inbox : List TCPSegment} {q q' : Peer} (hm : Micro inbox q q') :
    (∃ seg ∈ inbox, seg.header.rst = false ∧ q'.receiver = q.receiver.segmentReceived seg) ∨
      (q'.receiver.setIsn = q.receiver.setIsn ∧ q'.receiver.isn = q.receiver.isn ∧
        (Blank q.receiver → Blank q'.receiver)) := by
  cases hm with
  | @deliver seg hseg hrst => exact Or.inl ⟨seg, hseg, hrst, q.deliver_receiver seg⟩
  | fail => exact Or.inr ⟨rfl, rfl, fun h => ⟨h.written, h.ended, h.head⟩⟩
  | read => exact Or.inr ⟨rfl, rfl, fun h => ⟨h.written, h.ended, h.head⟩⟩
  | _ => exact Or.inr ⟨rfl, rfl, id⟩

/-- **The steps of the receiving side.** -/
theorem Opening.sink_micro {p q q' : Peer} (h : Opening p q) (hm : Micro p.wire q q') : Opening p q' := by
  refine ⟨h.syn, fun hset => ?_, fun seg hseg hrst hack => ?_, h.acked, h.synced, fun hbase => ?_⟩
  · rcases hm.receiver_cases with ⟨seg, hseg, hrst, heq⟩ | ⟨hset', hisn, -⟩
    · obtain ⟨h1, h2⟩ := q.receiver.segmentReceived_isn seg
      rw [heq, h2, Bool.or_eq_true] at hset
      rw [heq, h1]
      split_ifs with hsyn
      · exact h.syn seg (Peer.mem_outgoing.mpr (Or.inr hseg)) hrst hsyn
      · exact h.isn (hset.resolve_right hsyn)
    · rw [hisn]
      exact h.isn (hset' ▸ hset)
  · rcases hm.ack_cases hseg hrst hack with hold | ⟨hset, -⟩
    · exact h.acks seg hold hrst hack
    · exact (h.isn hset).2
  · have hu := h.unacked hbase
    refine ⟨hu.next, hu.ackno, hu.windowSz, hu.bare, ?_, hu.own, fun seg hseg hrst hack => ?_⟩
    · rcases hm.receiver_cases with ⟨seg, hseg, hrst, heq⟩ | ⟨-, -, hblank⟩
      · rw [heq]
        exact hu.other.segmentReceived (hu.bare seg (Peer.mem_outgoing.mpr (Or.inr hseg)) hrst)
      · exact hblank hu.other
    · rcases hm.ack_cases hseg hrst hack with hold | ⟨hset, hackno⟩
      · exact hu.acks seg hold hrst hack
      · rw [hackno, hu.other.position, (h.isn hset).1]

/-! ### Runs -/

/-- Both openings. -/
def Openings (p q : Peer) : Prop := Opening p q ∧ Opening q p

theorem Openings.symm {p q : Peer} (h : Openings p q) : Openings q p := And.symm h

theorem Openings.micro {p q p' : Peer} (hp : Source p.accepted p.sender) (_ : Source q.accepted q.sender)
    (h : Openings p q) (hm : Micro q.wire p p') : Openings p' q :=
  ⟨h.1.source_micro h.2 hp hm, h.2.sink_micro hm⟩

/-- In every run, both openings are in order. -/
theorem World.openings {cfg : Side → TCPConfig} {random : Side → WrappingInt32} {es : List Event}
    (h : World.Allowed cfg random es) : World.Holds Openings (World.after cfg random es) :=
  World.invariant Openings.symm Openings.micro h
    (World.holds_start cfg random fun _ _ _ _ => ⟨opening_start _ _ _ _, opening_start _ _ _ _⟩)

end Sponge
