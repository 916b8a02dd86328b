import Mathlib.Data.List.Infix
import Sponge.Library.Runs
import Sponge.Stream.Reassembler
import Sponge.Tcp.Segment

/-!
# The receiver

`TCPReceiver` turns the segments that arrive into pushes to a `StreamReassembler`, and
says what it is waiting for: the acknowledgment number and the window size. The first
SYN should fix the numbering of the stream for good. In the code every SYN does, so
it is fixed exactly if all SYNs agree: `ackno_eq_iff`. `ackno_rebased` is a run with
two that do not.

## What is proved

* `ackno_eq_iff` — after the first SYN, with sequence number `i`, the acknowledgment number
  is that of the next position relative to `i` in every later state if and only if every
  later SYN has sequence number `i`; the position itself never moves backwards.
* `segmentReceived_translates` — the payload of a segment is pushed at the index of its position, or
  dropped if it lies outside the window.
-/

namespace Sponge

/-- The receiving part of a connection. -/
structure TCPReceiver where
  /-- The reassembler. -/
  reassembler : StreamReassembler
  /-- The maximum number of bytes to store. -/
  capacity : ℕ
  /-- The initial sequence number of the peer. -/
  isn : WrappingInt32
  /-- A SYN has been received. -/
  setIsn : Bool
  deriving DecidableEq

namespace TCPReceiver

/-- A new receiver. -/
def make (capacity : ℕ) : TCPReceiver where
  reassembler := StreamReassembler.make capacity
  capacity := capacity
  isn := ⟨0⟩
  setIsn := false

/-- `stream_out`. -/
def streamOut (r : TCPReceiver) : ByteStream := r.reassembler.streamOut

/-- `ackno`: the sequence number the receiver is waiting for. -/
def ackno (r : TCPReceiver) : Option WrappingInt32 :=
  if r.setIsn = false then none
  else
    let writtensize := r.streamOut.bytesWritten + 1
    if r.streamOut.inputEnded then some (r.isn.add (UInt32.ofNat (writtensize + 1)))
    else some (r.isn.add (UInt32.ofNat writtensize))

/-- `window_size`. -/
def windowSize (r : TCPReceiver) : ℕ := sub64 r.capacity r.streamOut.bufferSize

/-- `unassembled_bytes`. -/
def unassembledBytes (r : TCPReceiver) : ℕ := r.reassembler.unassembledBytes

/-- `segment_received`. -/
def segmentReceived (r : TCPReceiver) (seg : TCPSegment) : TCPReceiver :=
  let headerseq := if seg.header.syn then seg.header.seqno.add 1 else seg.header.seqno
  let r := if seg.header.syn then { r with isn := seg.header.seqno, setIsn := true } else r
  if r.setIsn then
    let absSeqNo := unwrap headerseq r.isn r.streamOut.bytesWritten
    if absSeqNo = 0 ∨ (absSeqNo > r.streamOut.bytesWritten ∧
        absSeqNo - r.streamOut.bytesWritten > r.capacity) then r
    else
      { r with
        reassembler := r.reassembler.pushSubstring seg.payload (absSeqNo - 1) seg.header.fin }
  else r

/-- A reader pops bytes of the stream. -/
def readOut (r : TCPReceiver) (len : ℕ) : TCPReceiver :=
  { r with reassembler := r.reassembler.readOut len }

end TCPReceiver

/-! ### The acknowledgment number -/

namespace TCPReceiver

/-- The absolute position the receiver is waiting for: after the SYN, the bytes written, and the
FIN if the input has ended. -/
def position (r : TCPReceiver) : ℕ :=
  1 + r.streamOut.bytesWritten + if r.streamOut.inputEnded then 1 else 0

theorem position_of_inputEnded {r : TCPReceiver} (h : r.reassembler.output.inputEnded = true) :
    r.position = r.reassembler.output.bytesWritten + 2 := by
  simp only [position, streamOut, StreamReassembler.streamOut, h, if_true]
  omega

theorem position_of_not_inputEnded {r : TCPReceiver} (h : ¬ r.reassembler.output.inputEnded = true) :
    r.position = r.reassembler.output.bytesWritten + 1 := by
  simp only [position, streamOut, StreamReassembler.streamOut, h, Bool.false_eq_true, if_false]
  omega

theorem position_le {r r' : TCPReceiver} (h : r.streamOut.Grows r'.streamOut) :
    r.position ≤ r'.position := by
  have h1 := h.bytesWritten_le
  have h2 := h.inputEnded
  unfold position
  split_ifs with he he' he'
  · omega
  · exact absurd (h2 he) he'
  · omega
  · omega

/-- The acknowledgment number is that of the position, relative to the last SYN. -/
theorem ackno_eq (r : TCPReceiver) :
    r.ackno = if r.setIsn then some (wrap r.position r.isn) else none := by
  have hwrap : ∀ n, wrap n r.isn = r.isn.add (UInt32.ofNat n) := fun n => by
    simp only [wrap, WrappingInt32.add, WrappingInt32.mk.injEq]
    congr 1
    apply UInt32.toNat_inj.mp
    simp
  cases hset : r.setIsn with
  | false => simp [ackno, hset]
  | true =>
    simp only [ackno, hset, hwrap, position, Bool.true_eq_false, if_false, if_true]
    split_ifs with he
    · rw [show 1 + r.streamOut.bytesWritten + 1 = r.streamOut.bytesWritten + 1 + 1 by omega]
    · rw [show 1 + r.streamOut.bytesWritten + 0 = r.streamOut.bytesWritten + 1 by omega]

/-- What a segment does to the numbering of the stream: a SYN sets it. -/
theorem segmentReceived_isn (r : TCPReceiver) (seg : TCPSegment) :
    (r.segmentReceived seg).isn = (if seg.header.syn then seg.header.seqno else r.isn) ∧
      (r.segmentReceived seg).setIsn = (r.setIsn || seg.header.syn) := by
  unfold segmentReceived
  cases hsyn : seg.header.syn
  · cases hset : r.setIsn
    · simp [hset]
    · simp only [hset, Bool.false_eq_true, if_false, if_true, Bool.or_false]
      split <;> simp [hset]
  · simp only [if_true, Bool.or_true]
    split <;> simp

/-- What a segment does to the stream: its payload is pushed somewhere, or it is ignored. -/
theorem segmentReceived_push (r : TCPReceiver) (seg : TCPSegment) :
    (r.segmentReceived seg).reassembler = r.reassembler ∨
      (r.segmentReceived seg).setIsn = true ∧ ∃ index, (r.segmentReceived seg).reassembler =
        r.reassembler.pushSubstring seg.payload index seg.header.fin := by
  simp only [segmentReceived]
  cases seg.header.syn <;> simp only [Bool.false_eq_true, if_false, if_true]
  · split_ifs with hset
    · exact Or.inl rfl
    · exact Or.inr ⟨hset, _, rfl⟩
    · exact Or.inl rfl
  · split_ifs
    · exact Or.inl rfl
    · exact Or.inr ⟨rfl, _, rfl⟩

/-- A segment does not change the capacities. -/
theorem segmentReceived_capacity (r : TCPReceiver) (seg : TCPSegment) :
    (r.segmentReceived seg).capacity = r.capacity ∧
      (r.segmentReceived seg).reassembler.capacity = r.reassembler.capacity := by
  constructor
  · simp only [segmentReceived]
    split_ifs <;> rfl
  · rcases r.segmentReceived_push seg with h | ⟨-, index, h⟩
    · rw [h]
    · rw [h, StreamReassembler.pushSubstring_capacity]

theorem segmentReceived_grows (r : TCPReceiver) (seg : TCPSegment) :
    r.streamOut.Grows (r.segmentReceived seg).streamOut := by
  unfold streamOut StreamReassembler.streamOut
  rcases r.segmentReceived_push seg with h | ⟨-, index, h⟩
  · rw [h]
    exact .refl _
  · rw [h]
    exact r.reassembler.pushSubstring_grows _ _ _

end TCPReceiver

/-! ### Runs -/

/-- What happens to a receiver. -/
inductive ReceiverEvent where
  /-- `segment_received`. -/
  | segment (seg : TCPSegment)
  /-- `stream_out().read(len)`. -/
  | read (len : ℕ)
  deriving DecidableEq

namespace TCPReceiver

/-- One event. -/
def step (r : TCPReceiver) : ReceiverEvent → TCPReceiver
  | .segment seg => r.segmentReceived seg
  | .read len => r.readOut len

theorem step_grows (r : TCPReceiver) (e : ReceiverEvent) : r.streamOut.Grows (r.step e).streamOut := by
  cases e with
  | segment seg => exact r.segmentReceived_grows seg
  | read len => exact .popOutput _ _

theorem runs_grows (r : TCPReceiver) (es : List ReceiverEvent) :
    r.streamOut.Grows (runs step r es).streamOut := by
  induction es generalizing r with
  | nil => exact .refl _
  | cons e es ih => exact (r.step_grows e).trans (ih _)

/-- A receiver that knows the numbering keeps it as long as every SYN agrees with it. -/
theorem isn_of_agree {r : TCPReceiver} {i : WrappingInt32} (hset : r.setIsn = true) (hisn : r.isn = i)
    {es : List ReceiverEvent}
    (h : ∀ seg, .segment seg ∈ es → seg.header.syn = true → seg.header.seqno = i) :
    (runs step r es).setIsn = true ∧ (runs step r es).isn = i := by
  induction es generalizing r with
  | nil => exact ⟨hset, hisn⟩
  | cons e es ih =>
    refine ih ?_ ?_ fun seg hseg => h seg (List.mem_cons_of_mem _ hseg)
    · cases e with
      | segment seg => simp [step, (r.segmentReceived_isn seg).2, hset]
      | read len => exact hset
    · cases e with
      | segment seg =>
        simp only [step, (r.segmentReceived_isn seg).1]
        split
        · exact h seg List.mem_cons_self ‹_›
        · exact hisn
      | read len => exact hisn

/-- **The numbering of the stream.** After a SYN with sequence number `i`, whatever came before
it, the acknowledgment number is in every later state that of the receiver's position relative
to `i`, if and only if every later SYN has sequence number `i`. The position never moves
backwards. -/
theorem ackno_eq_iff (capacity : ℕ) (before : List ReceiverEvent) (first : TCPSegment)
    (after : List ReceiverEvent) (hsyn : first.header.syn = true) :
    ((∀ es, es <+: after →
        (runs step (make capacity) (before ++ .segment first :: es)).ackno =
          some (wrap (runs step (make capacity) (before ++ .segment first :: es)).position
            first.header.seqno)) ↔
      ∀ seg, .segment seg ∈ after → seg.header.syn = true → seg.header.seqno = first.header.seqno) ∧
    ∀ es es', es <+: es' → es' <+: after →
      (runs step (make capacity) (before ++ .segment first :: es)).position ≤
        (runs step (make capacity) (before ++ .segment first :: es')).position := by
  simp only [runs_append, runs_cons]
  -- the state after the first SYN
  have h1 := ((runs step (make capacity) before).segmentReceived_isn first).1
  have h2 := ((runs step (make capacity) before).segmentReceived_isn first).2
  rw [hsyn, if_pos rfl] at h1
  rw [hsyn, Bool.or_true] at h2
  change (step (runs step (make capacity) before) (.segment first)).isn = _ at h1
  change (step (runs step (make capacity) before) (.segment first)).setIsn = _ at h2
  generalize step (runs step (make capacity) before) (.segment first) = r at h1 h2
  refine ⟨⟨fun h seg hseg hs => ?_, fun h es hes => ?_⟩, fun es es' hes _ => ?_⟩
  · -- the state right after a later SYN is numbered by it
    obtain ⟨l₁, l₂, rfl⟩ := List.append_of_mem hseg
    have hack := h (l₁ ++ [.segment seg]) ⟨l₂, by simp⟩
    rw [runs_append, runs_cons, runs_nil] at hack
    have hisn := ((runs step r l₁).segmentReceived_isn seg).1
    have hset := ((runs step r l₁).segmentReceived_isn seg).2
    rw [hs, if_pos rfl] at hisn
    rw [hs, Bool.or_true] at hset
    simp only [step, ackno_eq, hset, if_true, Option.some.injEq, wrap_right_inj, hisn] at hack
    exact hack
  · obtain ⟨hset, hisn⟩ := isn_of_agree h2 h1 fun seg hseg => h seg (hes.subset hseg)
    rw [ackno_eq, hset, hisn, if_pos rfl]
  · obtain ⟨l, rfl⟩ := hes
    rw [runs_append]
    exact position_le (runs_grows _ _)

/-- A byte, then the SYN once more, now with data and a FIN. -/
def retransmitted : List ReceiverEvent :=
  [.segment ⟨{ seqno := ⟨8⟩ }, [97]⟩, .segment ⟨{ seqno := ⟨7⟩, syn := true, fin := true }, [97, 98]⟩]

/-- The SYN once more does not change the numbering. -/
theorem ackno_eq_iff_retransmitted :
    (runs step (make 4) ([] ++ .segment ⟨{ seqno := ⟨7⟩, syn := true }, []⟩ :: retransmitted)).ackno =
      some (wrap (runs step (make 4)
        ([] ++ .segment ⟨{ seqno := ⟨7⟩, syn := true }, []⟩ :: retransmitted)).position ⟨7⟩) :=
  (ackno_eq_iff 4 [] ⟨{ seqno := ⟨7⟩, syn := true }, []⟩ retransmitted rfl).1.mpr
    (by simp [retransmitted]) retransmitted List.prefix_rfl

/-- A second SYN at another sequence number: `ackno()` was `1` and becomes `6`, though nothing
has been written. -/
theorem ackno_rebased :
    (runs step (make 4000) [.segment ⟨{ seqno := ⟨0⟩, syn := true }, []⟩]).ackno = some ⟨1⟩ ∧
    ¬ (runs step (make 4000)
        [.segment ⟨{ seqno := ⟨0⟩, syn := true }, []⟩, .segment ⟨{ seqno := ⟨5⟩, syn := true }, []⟩]).ackno =
      some (wrap (runs step (make 4000)
        [.segment ⟨{ seqno := ⟨0⟩, syn := true }, []⟩, .segment ⟨{ seqno := ⟨5⟩, syn := true }, []⟩]).position
          ⟨0⟩) := by
  decide

/-! ### From sequence numbers to indices -/

/-- Before the peer's SYN nothing is looked at. -/
theorem segmentReceived_before {r : TCPReceiver} {seg : TCPSegment} (hset : r.setIsn = false)
    (hsyn : seg.header.syn = false) : r.segmentReceived seg = r := by
  simp only [segmentReceived, hsyn, hset, Bool.false_eq_true, if_false]

/-- What a segment that is taken to be at position `x` does, when it carries no SYN. -/
theorem segmentReceived_at {r : TCPReceiver} {seg : TCPSegment} {x : ℕ} (hset : r.setIsn = true)
    (hsyn : seg.header.syn = false) (hx : unwrap seg.header.seqno r.isn r.streamOut.bytesWritten = x) :
    r.segmentReceived seg =
      if 1 ≤ x ∧ x ≤ r.streamOut.bytesWritten + r.capacity then
        { r with reassembler := r.reassembler.pushSubstring seg.payload (x - 1) seg.header.fin }
      else r := by
  simp only [segmentReceived, hsyn, hset, Bool.false_eq_true, if_false, if_true, hx]
  by_cases hin : 1 ≤ x ∧ x ≤ r.streamOut.bytesWritten + r.capacity
  · rw [if_pos hin, if_neg (by omega)]
  · rw [if_neg hin, if_pos (by omega)]

/-- The position of a segment near the last byte written is recovered. -/
theorem segmentReceived_near {r : TCPReceiver} {seg : TCPSegment} {x : ℕ} (hset : r.setIsn = true)
    (hsyn : seg.header.syn = false) (hseqno : seg.header.seqno = wrap x r.isn)
    (hx : distance x r.streamOut.bytesWritten < 2 ^ 31) :
    r.segmentReceived seg =
      if 1 ≤ x ∧ x ≤ r.streamOut.bytesWritten + r.capacity then
        { r with reassembler := r.reassembler.pushSubstring seg.payload (x - 1) seg.header.fin }
      else r := by
  unfold distance at hx
  apply segmentReceived_at hset hsyn
  rw [hseqno]
  exact unwrap_wrap r.isn (by omega) (by omega)

/-- **Index translation.** With `n` bytes written, a segment at a position `x` less than `2^31` away
from `n` is pushed at index `x - 1` if the position is after the SYN and at most the capacity beyond
`n`, and has no effect otherwise. As long as the input has not ended, the segment that the receiver is
waiting for is pushed at index `n`. -/
theorem segmentReceived_translates (r : TCPReceiver) (seg : TCPSegment) (hset : r.setIsn = true)
    (hcapacity : 1 ≤ r.capacity) (hsyn : seg.header.syn = false) :
    (∀ x, seg.header.seqno = wrap x r.isn → distance x r.streamOut.bytesWritten < 2 ^ 31 →
      r.segmentReceived seg =
        if 1 ≤ x ∧ x ≤ r.streamOut.bytesWritten + r.capacity then
          { r with reassembler := r.reassembler.pushSubstring seg.payload (x - 1) seg.header.fin }
        else r) ∧
    (r.streamOut.inputEnded = false → r.ackno = some seg.header.seqno →
      r.segmentReceived seg =
        { r with
          reassembler := r.reassembler.pushSubstring seg.payload r.streamOut.bytesWritten seg.header.fin }) := by
  refine ⟨fun x => segmentReceived_near hset hsyn, ?_⟩
  intro hopen hack
  have hposition : r.position = r.streamOut.bytesWritten + 1 :=
    position_of_not_inputEnded (Bool.eq_false_iff.mp hopen)
  rw [ackno_eq, if_pos hset, hposition, Option.some.injEq] at hack
  have hone : distance (r.streamOut.bytesWritten + 1) r.streamOut.bytesWritten < 2 ^ 31 := by
    unfold distance
    omega
  have hnext := segmentReceived_near hset hsyn hack.symm hone
  rwa [if_pos (by omega), Nat.add_sub_cancel] at hnext

/-- A receiver of a stream that began at sequence number `7` and has gone on for more than `2^32`
bytes, all of which have been read. -/
def wrappedAround : TCPReceiver :=
  { make 4 with
    reassembler :=
      { StreamReassembler.make 4 with
        output := { ByteStream.make 4 with writtensize := 2 ^ 32 + 5, readsize := 2 ^ 32 + 5, count := rfl } }
    isn := ⟨7⟩
    setIsn := true }

/-- The next byte of a stream that has wrapped around. -/
theorem segmentReceived_translates_wrapped :
    wrappedAround.ackno = some ⟨13⟩ ∧
      wrappedAround.segmentReceived { header := { seqno := ⟨13⟩ }, payload := [97] } =
        { wrappedAround with
          reassembler := wrappedAround.reassembler.pushSubstring [97] (2 ^ 32 + 5) false } :=
  ⟨by decide, (segmentReceived_translates wrappedAround { header := { seqno := ⟨13⟩ }, payload := [97] } rfl
    (by decide) rfl).2 rfl (by decide)⟩

end TCPReceiver

end Sponge
