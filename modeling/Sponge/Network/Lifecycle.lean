import Sponge.Network.World

/-!
# The life of a connection

A connection is active until it has finished or failed. It has finished when both streams
have ended and its own has been acknowledged, FIN included. It never takes that back.

## What is proved

* `Finished.micro` — a connection that has finished stays so.
* `Lifecycle.micro` — a connection that is not active has finished or failed, failure
  is seen on both streams, and only a connection whose inbound stream has ended does not
  linger.
-/

namespace Sponge

/-- Both streams have ended, and all that has been sent has been acknowledged, FIN included. -/
structure Finished (p : Peer) : Prop where
  /-- All of the outbound stream has been read. -/
  eof : p.sender.stream.eof = true
  /-- The inbound stream has ended. -/
  ended : p.conn.inboundStream.inputEnded = true
  /-- Nothing is in flight. -/
  flight : p.sender.flightBytes = 0
  /-- The FIN has been sent. -/
  next : p.sender.nextSeqno = p.sender.stream.bytesWritten + 2

theorem finished_of_canClose {p : Peer} (hc : p.conn.canClose = true) : Finished p := by
  simp only [TCPConnection.canClose, Bool.and_eq_true, beq_iff_eq] at hc
  obtain ⟨⟨⟨⟨heof, hend⟩, hflight⟩, hnext⟩, -⟩ := hc
  exact ⟨heof, hend, hflight, hnext⟩

/-- A connection that has finished and does not linger can close. -/
theorem Finished.canClose {p : Peer} (h : Finished p) (hl : p.conn.lingerAfterStreamsFinish = false) :
    p.conn.canClose = true := by
  simp only [TCPConnection.canClose, Bool.and_eq_true, beq_iff_eq]
  exact ⟨⟨⟨⟨h.eof, h.ended⟩, h.flight⟩, h.next⟩, by simp [hl]⟩

/-- The FIN is what the sequence number counts after all bytes. -/
theorem Source.setFin_of_next {accepted : Bytes} {s : TCPSender} (h : Source accepted s)
    (hn : s.nextSeqno = s.stream.bytesWritten + 2) : s.setFin = true := by
  have hread := h.bytesRead_le
  have hwritten := h.written
  by_contra hfin
  rw [Bool.not_eq_true] at hfin
  rcases h.next with ⟨h0, -, -⟩ | hnext
  · omega
  · rw [hfin, Bool.toNat_false] at hnext
    omega

/-- **What has finished stays finished.** -/
theorem Finished.micro {inbox : List TCPSegment} {p p' : Peer} (h : Finished p)
    (hp : Source p.accepted p.sender) (hm : Micro inbox p p') : Finished p' := by
  have hended := (hm.progress hp).ended h.ended
  cases hm with
  | @deliver seg =>
    rcases p.deliver_sender seg with ⟨-, -, heq⟩ | ⟨-, heq⟩
    · have hbase := (hp.forgotten_of_acked seg.header.ackno seg.header.win).1
      have hflight := h.flight
      have hnext := h.next
      refine ⟨?_, hended, ?_, ?_⟩ <;> rw [heq]
      · rw [TCPSender.ackReceived_stream]
        exact h.eof
      · -- nothing was in flight, and what has been acknowledged does not shrink
        simp only [TCPSender.base, TCPSender.ackReceived_nextSeqno] at hbase
        omega
      · rw [TCPSender.ackReceived_stream, TCPSender.ackReceived_nextSeqno]
        exact hnext
    · refine ⟨?_, hended, ?_, ?_⟩ <;> rw [heq]
      · exact h.eof
      · exact h.flight
      · exact h.next
  | fillWindow =>
    have hfill : p.sender.fillWindow = p.sender := by
      rw [TCPSender.fillWindow, if_pos (hp.setFin_of_next h.next)]
    rw [Peer.onSender, show p.conn.sender.fillWindow = p.conn.sender from hfill]
    exact h
  | tick ms =>
    obtain ⟨timer, num, again, -, heq⟩ := p.sender.tick_eq ms
    rw [Peer.onSender, show p.conn.sender.tick ms = _ from heq]
    exact ⟨h.eof, hended, h.flight, h.next⟩
  | write data hopen =>
    have heof := ((ByteStream.eof_iff _).mp h.eof).1
    exact absurd heof (by simp [hopen])
  | endInput =>
    have hque := ((ByteStream.eof_iff _).mp h.eof).2
    exact ⟨(ByteStream.eof_iff _).mpr ⟨rfl, hque⟩, hended, h.flight, h.next⟩
  | _ => exact ⟨h.eof, hended, h.flight, h.next⟩

/-- What a step does to the streams' errors and to the connection. -/
theorem Micro.alive_cases {inbox : List TCPSegment} {p p' : Peer} (hm : Micro inbox p p') :
    (p'.sender.stream.error = p.sender.stream.error ∧
      p'.conn.inboundStream.error = p.conn.inboundStream.error ∧
        (p'.conn.active = p.conn.active ∨ p.conn.canClose = true ∧ p'.conn.active = false)) ∨
    (p'.sender.stream.error = true ∧ p'.conn.inboundStream.error = true ∧ p'.conn.active = false) := by
  cases hm with
  | @deliver seg =>
    refine Or.inl ⟨?_, ?_, Or.inl (p.conn.deliver_active seg)⟩
    · rcases p.deliver_sender seg with ⟨-, -, heq⟩ | ⟨-, heq⟩ <;> rw [heq]
      rw [TCPSender.ackReceived_stream]
    · rw [p.deliver_inboundStream]
      exact (p.receiver.segmentReceived_grows seg).error
  | fillWindow => exact Or.inl ⟨p.sender.fillWindow_fills.frame.2.2.2.2.2, rfl, Or.inl rfl⟩
  | tick ms =>
    obtain ⟨timer, num, again, -, heq⟩ := p.sender.tick_eq ms
    rw [Peer.onSender_sender, heq]
    exact Or.inl ⟨rfl, rfl, Or.inl rfl⟩
  | fail => exact Or.inr ⟨rfl, rfl, rfl⟩
  | close hc => exact Or.inl ⟨rfl, rfl, Or.inr ⟨hc, rfl⟩⟩
  | _ => exact Or.inl ⟨rfl, rfl, Or.inl rfl⟩

/-- Where a connection is in its life. -/
structure Lifecycle (p : Peer) : Prop where
  /-- Both streams fail together. -/
  error : p.conn.inboundStream.error = p.sender.stream.error
  /-- A connection that has failed is not active. -/
  dead : p.sender.stream.error = true → p.conn.active = false
  /-- A connection that is not active has failed or finished. -/
  closed : p.conn.active = false → p.sender.stream.error = true ∨ Finished p
  /-- Only after the end of the inbound stream the connection does not linger. -/
  linger : p.conn.lingerAfterStreamsFinish = false → p.conn.inboundStream.inputEnded = true

theorem lifecycle_start (c : TCPConfig) (r : WrappingInt32) : Lifecycle (Peer.start c r) :=
  ⟨rfl, fun h => absurd h Bool.false_ne_true, fun h => absurd h.symm Bool.false_ne_true,
    fun h => absurd h.symm Bool.false_ne_true⟩

/-- **Every step keeps this.** -/
theorem Lifecycle.micro {inbox : List TCPSegment} {p p' : Peer} (h : Lifecycle p)
    (hp : Source p.accepted p.sender) (hm : Micro inbox p p') : Lifecycle p' := by
  have hlinger : p'.conn.lingerAfterStreamsFinish = false → p'.conn.inboundStream.inputEnded = true := by
    intro hl
    by_cases hold : p.conn.lingerAfterStreamsFinish = false
    · exact (hm.progress hp).ended (h.linger hold)
    · cases hm with
      | unlinger he => exact he
      | @deliver seg => exact absurd (p.conn.deliver_lingerAfterStreamsFinish seg ▸ hl) hold
      | _ => exact absurd hl hold
  rcases hm.alive_cases with ⟨herr, herr', hactive⟩ | ⟨herr, herr', hactive⟩
  · refine ⟨by rw [herr, herr', h.error], fun he => ?_, fun hdead => ?_, hlinger⟩
    · rcases hactive with heq | ⟨-, hfalse⟩
      · rw [heq]
        exact h.dead (herr ▸ he)
      · exact hfalse
    · rw [herr]
      rcases hactive with heq | ⟨hc, -⟩
      · exact (h.closed (heq ▸ hdead)).imp_right fun hf => hf.micro hp hm
      · exact Or.inr ((finished_of_canClose hc).micro hp hm)
  · exact ⟨by rw [herr, herr'], fun _ => hactive, fun _ => Or.inl herr, hlinger⟩

/-- In every run. -/
theorem World.lifecycle {cfg : Side → TCPConfig} {random : Side → WrappingInt32} {es : List Event}
    (h : World.Allowed cfg random es) (s : Side) : Lifecycle (World.after cfg random es s) :=
  World.side_invariant (J := Lifecycle) (fun hp hj hm => hj.micro hp hm) h (fun _ => source_make _ _ _ _)
    (lifecycle_start _ _)

end Sponge
