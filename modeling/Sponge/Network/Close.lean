import Sponge.Network.Integrity
import Sponge.Network.Lifecycle

/-!
# Nothing is lost, and a clean close is agreed on

A sender forgets a segment when it has been acknowledged. Since acknowledgments are honest,
what it has forgotten has been assembled at the other side. A connection closes cleanly
when both streams have ended and everything has been acknowledged, FIN included. So at
that moment the other side has assembled everything too.

## What is proved

* `Half.assembled_of_forgotten` — what a sender has forgotten has been assembled.
* `Half.inputEnded_of_finished` — when a connection has finished, the other side has seen
  the end of its stream.
* `removed_assembled_and_close_agrees` — both facts in every run.
-/

namespace Sponge

open StreamReassembler

theorem Half.length_assembled {p q : Peer} (h : Half p q) :
    q.assembled.length = q.receiver.reassembler.output.bytesWritten := by
  have hbytes : q.assembled = p.offer.bytes.take q.receiver.reassembler.output.bytesWritten :=
    h.sink.sound.out.bytes
  rw [hbytes, List.length_take]
  exact min_eq_left h.sink.sound.out.le

/-- What has been acknowledged has been assembled, if it is inside the stream. -/
theorem Half.le_assembled {p q : Peer} (h : Half p q) (hp : Source p.accepted p.sender) {n : ℕ}
    (hn : n < p.sender.base) (hin : n ≤ p.accepted.length) : n ≤ q.assembled.length := by
  have hacked := h.acked
  rw [h.length_assembled]
  by_cases hend : q.receiver.reassembler.output.inputEnded = true
  · -- all of the stream has been assembled
    have hfin : p.sender.setFin = true := h.sink.fin (Or.inl hend)
    rwa [h.sink.sound.out.ended hend, hp.length_offer, hp.bytesRead_eq hfin]
  · rw [TCPReceiver.position_of_not_inputEnded hend] at hacked
    omega

/-- What has been forgotten has been assembled at the other side. -/
theorem Half.assembled_of_forgotten {p p₁ q q₁ : Peer} {seg : TCPSegment} (h : Half p q)
    (hp : Source p.accepted p.sender) (hs : p.Short) (h₁ : Half p₁ q₁)
    (hp₁ : Source p₁.accepted p₁.sender) (hprog : Progress p₁ p) (hseg : seg ∈ p₁.sender.waitAck)
    (hf : Forgotten p.sender seg) :
    ∃ x < 2 ^ 31, seg.header.seqno = wrap x p.sender.isn ∧ x - 1 + seg.payload.length ≤ q.assembled.length ∧
      slice q.assembled (x - 1) seg.payload.length = seg.payload := by
  obtain ⟨x, ⟨hx, hpos, hrst⟩, hle⟩ := hf
  have hisn := hprog.isn
  have hacc := hprog.accepted
  obtain ⟨y, hy⟩ := h₁.data seg (Peer.mem_outgoing.mpr (Or.inl (Or.inl (Or.inr hseg)))) hrst
  have hs₁ : p₁.Short := lt_of_le_of_lt hacc.length_le hs
  have hnext := hp.nextSeqno_lt hs
  have hnext₁ : p₁.offer.next < 2 ^ 31 := hp₁.nextSeqno_lt hs₁
  have hyle := hy.le
  have hbase : p.sender.base ≤ p.sender.nextSeqno := Nat.sub_le _ _
  -- the segment was made for the position at which it has been acknowledged
  have hxy : y = x := by
    have heq : wrap y p₁.sender.isn = wrap x p₁.sender.isn := by
      rw [← hisn, ← hx, hisn]
      exact hy.seqno.symm
    exact (wrap_left_inj _ (by omega) (by omega)).mp heq
  subst hxy
  have hoffer₁ : p₁.offer.bytes <+: p.accepted := (List.take_prefix _ _).trans hacc
  have hassembled : q.assembled <+: p.accepted := (h.assembled hp).1
  have hlt := hy.stop_lt
  have hin := hy.stop_le hpos
  have hstop := h.le_assembled hp (by omega) (hin.trans hoffer₁.length_le)
  refine ⟨y, by omega, hx, hstop, ?_⟩
  rw [← slice_of_isPrefix hassembled hstop, slice_of_isPrefix hoffer₁ hin]
  exact hy.payload.symm

/-! ### Closing -/

/-- When a connection has finished, the other side has seen the end of its stream. -/
theorem Half.inputEnded_of_finished {p q : Peer} (h : Half p q) (hp : Source p.accepted p.sender)
    (hf : Finished p) : q.conn.inboundStream.inputEnded = true := by
  by_contra hnot
  -- all has been acknowledged, which is two more than the bytes that can have been assembled
  have hacked := h.acked
  have hw : q.conn.receiver.reassembler.output.bytesWritten ≤ p.offer.bytes.length := h.sink.sound.out.le
  have hread := hp.bytesRead_le
  have hwritten := hp.written
  have hflight := hf.flight
  have hnext := hf.next
  rw [hp.length_offer] at hw
  rw [TCPReceiver.position_of_not_inputEnded hnot, TCPSender.base] at hacked
  omega

/-- **No loss, and agreement on a clean close.** In every run of two connections in which no
application writes after ending its stream, and the streams are short: a segment that a side
kept for retransmission at some time, and keeps no longer, has all of its payload assembled at
the other side, at its place; and if a side is inactive without an error of its streams, all
that it has accepted has been assembled at the other side, all that the other side has
accepted has been assembled at this one, and both streams have ended. -/
theorem removed_assembled_and_close_agrees (cfg : Side → TCPConfig) (random : Side → WrappingInt32)
    (es es' : List Event)
    (h : World.Allowed cfg random (es ++ es'))
    (hshort : ∀ s, (World.after cfg random (es ++ es') s).accepted.length < 2 ^ 31 - 2)
    (s : Side) :
    (∀ seg ∈ (World.after cfg random es s).sender.waitAck,
      seg ∉ (World.after cfg random (es ++ es') s).sender.waitAck →
        ∃ x < 2 ^ 31,
          seg.header.seqno = wrap x (World.after cfg random (es ++ es') s).sender.isn ∧
          x - 1 + seg.payload.length ≤
            (World.after cfg random (es ++ es') s.other).assembled.length ∧
          slice (World.after cfg random (es ++ es') s.other).assembled (x - 1)
            seg.payload.length = seg.payload) ∧
    ((World.after cfg random (es ++ es') s).conn.active = false →
      (World.after cfg random (es ++ es') s).sender.stream.error = false →
      (World.after cfg random (es ++ es') s).conn.inboundStream.error = false →
        ((World.after cfg random (es ++ es') s.other).conn.inboundStream.inputEnded = true ∧
          (World.after cfg random (es ++ es') s.other).assembled =
            (World.after cfg random (es ++ es') s).accepted) ∧
        ((World.after cfg random (es ++ es') s).conn.inboundStream.inputEnded = true ∧
          (World.after cfg random (es ++ es') s).assembled =
            (World.after cfg random (es ++ es') s.other).accepted)) := by
  have hw := World.both h
  obtain ⟨hpq, hqp⟩ := (hw s).2 (hshort s) (hshort s.other)
  constructor
  · intro seg hseg hnot
    obtain ⟨hfirst, hsecond⟩ := (along_append _ _ _).mp h
    have hw₁ := World.both hfirst
    have hprog := World.progress hsecond fun t => (hw₁ t).1
    rw [← runs_append] at hprog
    have hs₁ : ∀ t, (World.after cfg random es t).Short := fun t =>
      lt_of_le_of_lt (hprog t).accepted.length_le (hshort t)
    obtain ⟨hpq₁, -⟩ := (hw₁ s).2 (hs₁ s) (hs₁ s.other)
    exact hpq.assembled_of_forgotten (hw s).1 (hshort s) hpq₁ (hw₁ s).1 (hprog s) hseg
      (((hprog s).kept seg hseg).resolve_left hnot)
  · intro hactive herr _
    have hf := ((World.lifecycle h s).closed hactive).resolve_left (by simp [herr])
    have hend := hpq.inputEnded_of_finished (hw s).1 hf
    exact ⟨⟨hend, ((hpq.assembled (hw s).1).2 hend).2⟩, hf.ended, ((hqp.assembled (hw s.other).1).2 hf.ended).2⟩

/-- The run up to the write of two bytes. -/
def opening : List Event := World.handshake ++ [.app .a (.write [104, 105]), .send .a]

/-- Side `a` ends its stream and side `b` follows; side `b` closes first. -/
def farewell : List Event :=
  [.deliver .b 2, .send .b, .deliver .a 1, .app .a .endInputStream, .send .a, .deliver .b 3, .send .b,
    .deliver .a 2, .app .b .endInputStream, .send .b, .deliver .a 3, .send .a, .deliver .b 4]

/-- The segment with the two bytes is forgotten, and side `b` closes. -/
theorem removed_assembled_and_close_agrees_two :
    (∀ seg ∈ (World.after (fun _ => {}) (fun _ => ⟨0⟩) opening .a).sender.waitAck,
      ∃ x < 2 ^ 31,
        seg.header.seqno = wrap x (World.after (fun _ => {}) (fun _ => ⟨0⟩) (opening ++ farewell) .a).sender.isn ∧
        x - 1 + seg.payload.length ≤
          (World.after (fun _ => {}) (fun _ => ⟨0⟩) (opening ++ farewell) .b).assembled.length ∧
        slice (World.after (fun _ => {}) (fun _ => ⟨0⟩) (opening ++ farewell) .b).assembled (x - 1)
          seg.payload.length = seg.payload) ∧
    (World.after (fun _ => {}) (fun _ => ⟨0⟩) (opening ++ farewell) .b).assembled =
      (World.after (fun _ => {}) (fun _ => ⟨0⟩) (opening ++ farewell) .a).accepted := by
  have hrun := removed_assembled_and_close_agrees (fun _ => {}) (fun _ => ⟨0⟩) opening farewell
    (by decide +kernel) (fun s => by cases s <;> decide +kernel)
  have hnil : (World.after (fun _ => {}) (fun _ => ⟨0⟩) (opening ++ farewell) .a).sender.waitAck = [] := by
    decide +kernel
  refine ⟨fun seg hseg => (hrun .a).1 seg hseg ?_, ?_⟩
  · rw [hnil]
    exact List.not_mem_nil
  · exact ((hrun .b).2 (by decide +kernel) (by decide +kernel) (by decide +kernel)).2.2

end Sponge
