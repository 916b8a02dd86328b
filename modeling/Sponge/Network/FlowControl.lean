import Sponge.Network.Moves

/-!
# Flow control

A receiver has room for a fixed number of bytes that have not been read, and says with every
acknowledgment how many more it can take. The sender has to keep to it, although the window it knows
of may be old, and although the window moves while segments are on their way. When there is no room,
it sends a single byte all the same, in order to learn when there is room again.

## What is proved

* `Half.limit_eq` — the end of the receiver's window, from what has been read.
* `Paced.source_micro`, `Paced.sink_micro` — each step of either side keeps to the window.
* `within_window` — in every run with short streams, all data that is sent, sent again or on its way
  is inside the window that the receiver has now, single bytes that it is waiting for apart.
-/

namespace Sponge

open StreamReassembler

/-! ### The window of a receiver -/

/-- As much has been read as the application has taken. -/
theorem Half.limit_eq {p q : Peer} (h : Half p q) : q.limit = q.taken.length + q.receiver.capacity := by
  have hbytes := congrArg List.length h.sink.sound.out.bytes
  have hle := h.sink.sound.out.le
  have hcount := q.receiver.reassembler.output.bytesRead_add_bufferSize
  rw [List.length_append, List.length_take] at hbytes
  rw [Peer.limit, ByteStream.limit, h.cap, ← h.sink.sound.kept.cap]
  unfold ByteStream.bufferSize at hcount
  omega

/-- No step changes the capacity of the receiver, or takes back what it has got to. -/
theorem Micro.position_le {inbox : List TCPSegment} {p p' : Peer} (hm : Micro inbox p p') :
    p'.receiver.capacity = p.receiver.capacity ∧ p.receiver.position ≤ p'.receiver.position := by
  cases hm with
  | @deliver seg =>
    rw [p.deliver_receiver seg]
    exact ⟨(p.receiver.segmentReceived_capacity seg).1, TCPReceiver.position_le (p.receiver.segmentReceived_grows seg)⟩
  | _ => exact ⟨rfl, le_rfl⟩

/-- So the window moves on. -/
theorem Half.limit_le {p q q' : Peer} {inbox : List TCPSegment} (h : Half p q) (h' : Half p q')
    (hm : Micro inbox q q') :
    q.limit ≤ q'.limit := by
  rw [h.limit_eq, h'.limit_eq, hm.position_le.1]
  exact Nat.add_le_add_right hm.taken_prefix.length_le _

/-! ### The sender keeps to it -/

/-- The segment is inside the window: it carries no data, or its data ends before the limit, or it
is a single byte and the receiver has got to it. -/
def InWindow (s : TCPSender) (limit position : ℕ) (seg : TCPSegment) : Prop :=
  ∃ x ≤ s.nextSeqno, seg.header.seqno = wrap x s.isn ∧
    (seg.payload = [] ∨ x - 1 + seg.payload.length ≤ limit ∨ seg.payload.length = 1 ∧ x ≤ position)

theorem InWindow.mono {s s' : TCPSender} {limit limit' position position' : ℕ} {seg : TCPSegment}
    (h : InWindow s limit position seg) (hisn : s'.isn = s.isn) (hnext : s.nextSeqno ≤ s'.nextSeqno)
    (hlimit : limit ≤ limit') (hposition : position ≤ position') : InWindow s' limit' position' seg := by
  obtain ⟨x, hx, hseqno, hinside⟩ := h
  refine ⟨x, hx.trans hnext, hisn.symm ▸ hseqno, hinside.imp_right (Or.imp ?_ ?_)⟩
  · exact fun hle => hle.trans hlimit
  · exact fun hone => ⟨hone.1, hone.2.trans hposition⟩

/-- The sender keeps to the window. -/
structure Paced (p q : Peer) : Prop where
  /-- The receiver has got to what has been acknowledged. -/
  ackno : p.sender.ackno ≤ q.receiver.position
  /-- Every segment is inside the window. -/
  inside : ∀ seg ∈ p.outgoing, seg.header.rst = false → InWindow p.sender q.limit q.receiver.position seg

theorem paced_start (c c' : TCPConfig) (r r' : WrappingInt32) : Paced (Peer.start c r) (Peer.start c' r') :=
  ⟨Nat.zero_le _, fun _ h => absurd h List.not_mem_nil⟩

/-- The segments that filling the window makes, with where they are. -/
theorem TCPSender.Fills.made_le {s s' : TCPSender} {w : ℕ} (h : Fills s w s') {seg : TCPSegment}
    (hseg : seg ∈ s'.segmentsOut ∨ seg ∈ s'.waitAck) :
    (seg ∈ s.segmentsOut ∨ seg ∈ s.waitAck) ∨ s.setFin = false ∧ ∃ s₁ w₁, seg = (nextSegment s₁ w₁).1 ∧
      s₁.isn = s.isn ∧ 0 < w₁ ∧ s₁.nextSeqno + w₁ = s.nextSeqno + w ∧ s.nextSeqno ≤ s₁.nextSeqno ∧
        s₁.nextSeqno ≤ s'.nextSeqno := by
  induction h with
  | stop => exact Or.inl hseg
  | @send s s' w hw hfin hlen hrest ih =>
    have hle := s.nextSegment_length_le w hw
    have hnext := hrest.nextSeqno_le
    simp only [transmit, advance] at hnext
    have hnew : s.setFin = false ∧ ∃ s₁ w₁, (s.nextSegment w).1 = (nextSegment s₁ w₁).1 ∧ s₁.isn = s.isn ∧ 0 < w₁ ∧
        s₁.nextSeqno + w₁ = s.nextSeqno + w ∧ s.nextSeqno ≤ s₁.nextSeqno ∧ s₁.nextSeqno ≤ s'.nextSeqno :=
      ⟨hfin, s, w, rfl, rfl, hw, rfl, le_rfl, by omega⟩
    rcases ih hseg with hold | ⟨-, s₁, w₁, hmade, hisn, hpos, hsum, hafter, hbefore⟩
    · simp only [transmit, advance, List.mem_append, List.mem_singleton] at hold
      rcases hold with (hold | rfl) | (hold | rfl)
      · exact Or.inl (Or.inl hold)
      · exact Or.inr hnew
      · exact Or.inl (Or.inr hold)
      · exact Or.inr hnew
    · simp only [transmit, advance] at hsum hafter
      exact Or.inr ⟨hfin, s₁, w₁, hmade, hisn, hpos, by omega, by omega, hbefore⟩

section Steps

variable {p p' q q' : Peer}

/-- **The sender fills the window and does not go beyond it.** -/
theorem Paced.fillWindow (h : Paced p q) (hhalf : Half p q) : Paced (p.onSender (·.fillWindow)) q := by
  have hfills := p.sender.fillWindow_fills
  refine ⟨hfills.frame.2.1 ▸ h.ackno, fun seg hseg hrst => ?_⟩
  have hold : seg ∈ p.outgoing → InWindow p.sender.fillWindow q.limit q.receiver.position seg := fun hmem =>
    (h.inside seg hmem hrst).mono hfills.frame.1 hfills.nextSeqno_le le_rfl le_rfl
  rw [Peer.mem_outgoing] at hseg
  rcases hseg with (hseg | hseg) | hseg
  · rcases hfills.made_le hseg with hkept | ⟨hfin, s₁, w₁, rfl, hisn, hpos, hsum, hafter, hle⟩
    · exact hold (Peer.mem_outgoing.mpr (Or.inl (Or.inl hkept)))
    refine ⟨s₁.nextSeqno, hle, ?_, ?_⟩
    · rw [TCPSender.nextSegment_seqno, hisn, Peer.onSender_sender, hfills.frame.1]
    -- the payload fits into what is left of the window, and the window into that of the receiver
    have hlength := s₁.nextSegment_length w₁
    have hfits := s₁.nextSegment_length_le w₁ hpos
    have hwindow := hhalf.window.resolve_right (by simp [hfin])
    have hackno := hhalf.ackno
    have hposition := h.ackno
    rw [← List.length_eq_zero_iff]
    unfold TCPSender.freeWindow TCPSender.usableWindow at hsum
    split_ifs at hsum hlength <;> omega
  · exact hold (Peer.mem_outgoing.mpr (Or.inl (Or.inr hseg)))
  · exact hold (Peer.mem_outgoing.mpr (Or.inr hseg))

/-- An acknowledgment that arrives is of something that the receiver has got to. -/
theorem Half.ackReceived_ackno_le (h : Half p q) (hp : Source p.accepted p.sender) (hshort : p.Short)
    {seg : TCPSegment} (hseg : seg ∈ q.outgoing) (hrst : seg.header.rst = false) (hack : seg.header.ack = true) :
    (p.sender.ackReceived seg.header.ackno seg.header.win).ackno ≤ q.receiver.position := by
  obtain ⟨hset, a, ha⟩ := h.acks seg hseg hrst hack
  have hnext := hp.nextSeqno_lt hshort
  have hposition := h.position_le hp (h.isn hset).2
  have hle := ha.le
  rw [TCPSender.ackReceived_ackno, ha.ackno, unwrap_wrap _ (by omega) (by omega)]
  exact hle

/-- **The steps of the sending side.** -/
theorem Paced.source_micro (h : Paced p q) (hhalf : Half p q) (hp : Source p.accepted p.sender) (hshort : p.Short)
    (hm : Micro q.wire p p') : Paced p' q := by
  by_cases hfill : p' = p.onSender (·.fillWindow)
  · rw [hfill]
    exact h.fillWindow hhalf
  have hprogress := hm.progress hp
  refine ⟨?_, fun seg hseg hrst => ?_⟩
  · cases hm with
    | @deliver seg hseg hrst =>
      rcases p.deliver_sender seg with ⟨-, hack, heq⟩ | ⟨-, heq⟩ <;> rw [heq]
      · exact hhalf.ackReceived_ackno_le hp hshort (Peer.mem_outgoing.mpr (Or.inr hseg)) hrst hack
      · exact h.ackno
    | fillWindow => exact absurd rfl hfill
    | tick ms =>
      obtain ⟨timer, num, again, -, heq⟩ := p.sender.tick_eq ms
      rw [Peer.onSender_sender, heq]
      exact h.ackno
    | _ => exact h.ackno
  · rcases hm.mem_outgoing hseg hrst with hold | ⟨seg', hmem, rfl⟩ | ⟨h0, rfl⟩ | ⟨heq, -⟩
    · exact (h.inside seg hold hrst).mono hprogress.isn hprogress.next le_rfl le_rfl
    · rw [TCPConnection.stamp_rst] at hrst
      obtain ⟨x, hx, hseqno, hinside⟩ := (h.inside seg' hmem hrst).mono hprogress.isn hprogress.next le_rfl le_rfl
      refine ⟨x, hx, ?_, ?_⟩
      · rwa [TCPConnection.stamp_seqno]
      · rwa [TCPConnection.stamp_payload]
    · exact ⟨p.sender.nextSeqno, hprogress.next, congrArg (wrap p.sender.nextSeqno) hprogress.isn.symm, Or.inl rfl⟩
    · exact absurd heq hfill

/-- **The steps of the receiving side.** -/
theorem Paced.sink_micro (h : Paced p q) (hhalf : Half p q) (hhalf' : Half p q') (hm : Micro p.wire q q') :
    Paced p q' := by
  have hlimit := hhalf.limit_le hhalf' hm
  have hposition := hm.position_le.2
  exact ⟨h.ackno.trans hposition, fun seg hseg hrst => (h.inside seg hseg hrst).mono rfl le_rfl hlimit hposition⟩

end Steps

/-- In every run, both senders keep to the window, as long as the streams are short. -/
theorem World.paced {cfg : Side → TCPConfig} {random : Side → WrappingInt32} {es : List Event}
    (h : World.Allowed cfg random es) (hshort : ∀ s, (World.after cfg random es s).Short) (s : Side) :
    Paced (World.after cfg random es s) (World.after cfg random es s.other) :=
  (World.short_invariant (I := fun p q => Paced p q ∧ Paced q p) And.symm
    (fun hp hshort hpq hqp hqp' hi hm => ⟨hi.1.source_micro hpq hp hshort hm, hi.2.sink_micro hqp hqp' hm⟩)
    (fun _ _ _ _ => ⟨paced_start _ _ _ _, paced_start _ _ _ _⟩) h hshort s).1

/-- The capacity is the configured one. -/
theorem World.receiver_capacity {cfg : Side → TCPConfig} {random : Side → WrappingInt32} {es : List Event}
    (h : World.Allowed cfg random es) (s : Side) :
    (World.after cfg random es s).receiver.capacity = (cfg s).recvCapacity :=
  World.side_invariant (J := fun p => p.receiver.capacity = (cfg s).recvCapacity)
    (fun _ hj hm => hm.position_le.1.trans hj) h (fun _ => source_make _ _ _ _) rfl

/-- **Flow control, end to end.** In every run of two connections whose streams are short, take a
segment that is kept, queued or on its way, and not a reset. It is at a position of its sender's
stream, and what it carries ends inside the receiver's window as it is now: before the number of
bytes that the application has read and the capacity. The one exception is a single byte that the
receiver is waiting for, or has already. -/
theorem within_window (cfg : Side → TCPConfig) (random : Side → WrappingInt32) (es : List Event)
    (h : World.Allowed cfg random es) (hshort : ∀ s, (World.after cfg random es s).accepted.length < 2 ^ 31 - 2)
    (s : Side) (seg : TCPSegment) (hseg : seg ∈ (World.after cfg random es s).outgoing)
    (hrst : seg.header.rst = false) :
    ∃ x ≤ (World.after cfg random es s).sender.nextSeqno,
      seg.header.seqno = wrap x (World.after cfg random es s).sender.isn ∧
      (seg.payload = [] ∨
        x - 1 + seg.payload.length ≤ (World.after cfg random es s.other).taken.length + (cfg s.other).recvCapacity ∨
        seg.payload.length = 1 ∧ x ≤ (World.after cfg random es s.other).receiver.position) := by
  have hinside := (World.paced h hshort s).inside seg hseg hrst
  rw [((World.both h s).2 (hshort s) (hshort s.other)).1.limit_eq, World.receiver_capacity h s.other] at hinside
  exact hinside

/-- Five bytes are written to a receiver with room for three. It takes three of them and says that
there is no room. -/
def crowded : List Event :=
  World.handshake ++ [.app .a (.write [1, 2, 3, 4, 5]), .send .a, .deliver .b 2, .send .b, .deliver .a 1]

/-- The fourth byte is sent all the same, and it is the one that the receiver is waiting for. -/
theorem within_window_probe :
    let w := World.after (fun _ => { recvCapacity := 3 }) (fun _ => ⟨0⟩) crowded
    (w .b).taken = [] ∧ ∃ seg ∈ (w .a).outgoing, seg.payload = [4] ∧ seg.header.seqno = wrap 4 (w .a).sender.isn ∧
      ∃ x ≤ (w .a).sender.nextSeqno, seg.header.seqno = wrap x (w .a).sender.isn ∧
        (seg.payload = [] ∨ x - 1 + seg.payload.length ≤ (w .b).taken.length + 3 ∨
          seg.payload.length = 1 ∧ x ≤ (w .b).receiver.position) := by
  have hall := within_window (fun _ => { recvCapacity := 3 }) (fun _ => ⟨0⟩) crowded (by decide +kernel)
    (fun t => by cases t <;> decide +kernel) .a
  have hprobe : ∃ seg ∈ (World.after (fun _ => { recvCapacity := 3 }) (fun _ => ⟨0⟩) crowded .a).outgoing,
      seg.header.rst = false ∧ seg.payload = [4] ∧
        seg.header.seqno = wrap 4
          (World.after (fun _ => { recvCapacity := 3 }) (fun _ => ⟨0⟩) crowded .a).sender.isn := by
    decide +kernel
  obtain ⟨seg, hseg, hrst, hpayload, hseqno⟩ := hprobe
  exact ⟨by decide +kernel, seg, hseg, hpayload, hseqno, hall seg hseg hrst⟩

end Sponge
