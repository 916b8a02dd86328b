import Sponge.Tcp.Calls
import Sponge.Tcp.Window

/-!
# What is answered

A segment that occupies sequence numbers has to be answered, also if it is a duplicate or lies outside the
window: its sender may be waiting for an acknowledgment that has been lost. A segment that occupies none
must not be answered by another such segment, or the two endpoints would acknowledge each other for ever.

## What is proved

* `segmentReceived_of_setIsn` — what a segment makes the connection queue.
* `reply_discipline` — in every state of a connection that is alive, every segment that occupies sequence
  numbers is answered, an empty one only by segments that are not empty, and nothing happens before the SYN.
-/

namespace Sponge

namespace TCPConnection

@[simp] theorem stamp_lengthInSequenceSpace (r : TCPReceiver) (seg : TCPSegment) :
    (stamp r seg).lengthInSequenceSpace = seg.lengthInSequenceSpace := by
  rw [TCPSegment.lengthInSequenceSpace, stamp_payload, stamp_syn, stamp_fin, TCPSegment.lengthInSequenceSpace]

variable {c : TCPConnection} {seg : TCPSegment}

/-- The receiver after a segment that is not a reset. -/
theorem segmentReceived_receiver (hrst : seg.header.rst = false) :
    (c.segmentReceived seg).receiver = c.receiver.segmentReceived seg := by
  rw [c.segmentReceived_eq hrst]
  split_ifs
  · simp only [tryCleanClose_receiver, clearLinger_receiver, sendSegments, reply_receiver, fillWindow,
      deliver_receiver]
  · rw [tryCleanClose_receiver, deliver_receiver]

/-- Before the SYN nothing is queued, and the sender is not told anything. -/
theorem segmentReceived_of_not_setIsn (hrst : seg.header.rst = false)
    (hset : (c.receiver.segmentReceived seg).setIsn = false) :
    (c.segmentReceived seg).segmentsOut = c.segmentsOut ∧ (c.segmentReceived seg).sender = c.sender := by
  rw [c.segmentReceived_eq hrst, hset, if_neg Bool.false_ne_true, tryCleanClose_segmentsOut, deliver_segmentsOut,
    tryCleanClose_sender]
  refine ⟨rfl, ?_⟩
  rcases ({ c with waitSegmentTime := 0 } : TCPConnection).deliver_sender seg with ⟨hset', -, -⟩ | ⟨-, heq⟩
  · exact absurd hset' (by simp [hset])
  · exact heq

/-- **What is queued after the SYN**: what `fill_window` makes, or an empty segment in its place. -/
theorem segmentReceived_of_setIsn (hrst : seg.header.rst = false)
    (hset : (c.receiver.segmentReceived seg).setIsn = true) (hempty : c.sender.segmentsOut = []) :
    ∃ l, (c.segmentReceived seg).segmentsOut =
        c.segmentsOut ++ l.map (stamp (c.receiver.segmentReceived seg)) ∧
      ((∀ out ∈ l, 0 < out.lengthInSequenceSpace) ∨ seg.lengthInSequenceSpace ≠ 0) ∧
      (seg.lengthInSequenceSpace ≠ 0 → l ≠ []) := by
  generalize hc₁ : ({ c with waitSegmentTime := 0 } : TCPConnection).deliver seg = c₁
  have hreceiver : c₁.receiver = c.receiver.segmentReceived seg := by rw [← hc₁, deliver_receiver]
  have hout : c₁.segmentsOut = c.segmentsOut := by rw [← hc₁, deliver_segmentsOut]
  have hempty₁ : c₁.sender.segmentsOut = [] := by
    rw [← hc₁, deliver_sender_segmentsOut]
    exact hempty
  obtain ⟨l, hfill, htiles, -⟩ := c₁.sender.fillWindow_fills.segments
  rw [hempty₁, List.nil_append] at hfill
  have hpos : ∀ out ∈ l, 0 < out.lengthInSequenceSpace := by
    intro out hmem
    obtain ⟨x, -, -, hfits⟩ := htiles.exists_of_mem hmem
    exact hfits.pos
  have hqueue : (c.segmentReceived seg).segmentsOut = c.segmentsOut ++
      (c₁.fillWindow.reply seg).sender.segmentsOut.map (stamp (c.receiver.segmentReceived seg)) := by
    rw [c.segmentReceived_eq hrst, hset, if_pos rfl, hc₁]
    simp only [tryCleanClose_segmentsOut, clearLinger_segmentsOut, sendSegments, reply_segmentsOut,
      reply_receiver, fillWindow, hreceiver, hout]
  refine ⟨_, hqueue, ?_⟩
  by_cases hreply : seg.lengthInSequenceSpace ≠ 0 ∧ c₁.fillWindow.sender.segmentsOut = []
  · rw [reply, if_pos hreply]
    refine ⟨Or.inr hreply.1, fun _ => ?_⟩
    simp [TCPSender.sendEmptySegment]
  · rw [reply, if_neg hreply]
    have hl : c₁.fillWindow.sender.segmentsOut = l := hfill
    rw [hl] at hreply ⊢
    exact ⟨Or.inl hpos, fun hne hnil => hreply ⟨hne, hnil⟩⟩

/-- **Reply discipline.** In every state of a connection that is alive, a segment that is not a reset leaves
what is queued and adds to it. If a SYN has been seen and the segment occupies sequence numbers, it adds at
least one segment. Every segment added carries the acknowledgment number of the receiver after it. If it
occupies none, every segment added occupies some. If no SYN has been seen, it adds nothing and the sender is
as before. -/
theorem reply_discipline (cfg : TCPConfig) (random : WrappingInt32) (es : List ConnectionCall)
    (seg : TCPSegment) (halive : (after cfg random es).active = true) (hrst : seg.header.rst = false) :
    let c := after cfg random es
    let c' := c.segmentReceived seg
    ∃ added, c'.segmentsOut = c.segmentsOut ++ added ∧
      (c'.receiver.setIsn = true → seg.lengthInSequenceSpace ≠ 0 → added ≠ []) ∧
      (∀ out ∈ added, out.header.ack = true ∧ c'.receiver.ackno = some out.header.ackno) ∧
      (seg.lengthInSequenceSpace = 0 → ∀ out ∈ added, out.lengthInSequenceSpace ≠ 0) ∧
      (c'.receiver.setIsn = false → added = [] ∧ c'.sender = c.sender) := by
  intro c c'
  have hreceiver : c'.receiver = c.receiver.segmentReceived seg := segmentReceived_receiver hrst
  rw [hreceiver]
  cases hset : (c.receiver.segmentReceived seg).setIsn with
  | false =>
    obtain ⟨hout, hsender⟩ := segmentReceived_of_not_setIsn hrst hset
    refine ⟨[], hout.trans (List.append_nil _).symm, ?_, ?_, ?_, fun _ => ⟨rfl, hsender⟩⟩
    · intro h
      exact absurd h Bool.false_ne_true
    · intro out hmem
      exact absurd hmem List.not_mem_nil
    · intro _ out hmem
      exact absurd hmem List.not_mem_nil
  | true =>
    obtain ⟨l, hout, hpos, hsome⟩ := segmentReceived_of_setIsn hrst hset (after_sender_segmentsOut halive)
    refine ⟨_, hout, ?_, ?_, ?_, nofun⟩
    · intro _ hlen
      rw [ne_eq, List.map_eq_nil_iff]
      exact hsome hlen
    · intro out hmem
      obtain ⟨out', -, rfl⟩ := List.mem_map.mp hmem
      obtain ⟨hack, hackno, -⟩ := stamp_of_setIsn (c.receiver.segmentReceived seg) out' hset
      exact ⟨hack, by rw [TCPReceiver.ackno_eq, if_pos hset, hackno]⟩
    · intro hlen out hmem
      obtain ⟨out', hmem', rfl⟩ := List.mem_map.mp hmem
      rw [stamp_lengthInSequenceSpace]
      exact Nat.ne_of_gt (hpos.resolve_right (not_not.mpr hlen) out' hmem')

/-- A byte that has been acknowledged already arrives once more, and is answered. -/
theorem reply_discipline_duplicate :
    let c := after {} ⟨0⟩ [.segmentReceived { header := { syn := true } },
      .segmentReceived { header := { seqno := ⟨1⟩ }, payload := [97] }]
    c.active = true ∧ ∃ added,
      (c.segmentReceived { header := { seqno := ⟨1⟩ }, payload := [97] }).segmentsOut = c.segmentsOut ++ added ∧
        added ≠ [] := by
  have halive : (after {} ⟨0⟩ [.segmentReceived { header := { syn := true } },
      .segmentReceived { header := { seqno := ⟨1⟩ }, payload := [97] }]).active = true := by decide +kernel
  obtain ⟨added, hout, hsome, -⟩ := reply_discipline {} ⟨0⟩ [.segmentReceived { header := { syn := true } },
    .segmentReceived { header := { seqno := ⟨1⟩ }, payload := [97] }]
    { header := { seqno := ⟨1⟩ }, payload := [97] } halive rfl
  intro c
  exact ⟨halive, added, hout, hsome (by decide +kernel) (by decide)⟩

end TCPConnection

end Sponge
