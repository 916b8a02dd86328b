import Mathlib.Logic.Function.Basic
import Sponge.Library.Runs
import Sponge.Network.World
import Sponge.Tcp.Calls

/-!
# No storm of acknowledgments

Every segment that occupies sequence numbers is answered, so two connections that only
exchange what is in flight might answer each other for ever. They do not: an answer that
carries nothing is not answered unless it makes room for something, and what is sent then
has not been sent before. A number that every delivery lowers makes this precise. It
counts three for every sequence number that has not been sent, two for every segment on
its way that occupies some, and one for every segment on its way that occupies none.

## What is proved

* `potential_fills` — `fill_window` pays for the segments it makes.
* `potential_segmentReceived_lt` — the answer to a segment counts less than the segment.
* `deliveries_finite` — so two connections deliver at most as many segments as they
  have to spend.
-/

namespace Sponge

/-- What a segment on its way counts. -/
def TCPSegment.weight (seg : TCPSegment) : ℕ := if seg.lengthInSequenceSpace = 0 then 1 else 2

/-- What a queue of segments counts. -/
def queueWeight (l : List TCPSegment) : ℕ := (l.map TCPSegment.weight).sum

section Weight

variable (l l' : List TCPSegment) (seg : TCPSegment)

theorem TCPSegment.weight_pos : 0 < seg.weight := by
  unfold weight
  split <;> omega

theorem TCPSegment.weight_le : seg.weight ≤ 2 := by
  unfold weight
  split <;> omega

@[simp] theorem queueWeight_nil : queueWeight [] = 0 := rfl

@[simp] theorem queueWeight_cons : queueWeight (seg :: l) = seg.weight + queueWeight l := by
  simp [queueWeight]

@[simp] theorem queueWeight_append : queueWeight (l ++ l') = queueWeight l + queueWeight l' := by
  simp [queueWeight]

/-- A stamp does not change what a segment counts. -/
@[simp] theorem weight_stamp (r : TCPReceiver) : (TCPConnection.stamp r seg).weight = seg.weight := by
  unfold TCPConnection.stamp
  split <;> rfl

@[simp] theorem queueWeight_map_stamp (r : TCPReceiver) :
    queueWeight (l.map (TCPConnection.stamp r)) = queueWeight l := by
  simp only [queueWeight, List.map_map]
  congr 1
  exact List.map_congr_left fun seg _ => weight_stamp seg r

end Weight

/-! ### Senders -/

namespace TCPSender

/-- The sequence numbers that have not been sent: the SYN, the bytes and the FIN. -/
def unsent (s : TCPSender) : ℕ :=
  (if s.nextSeqno = 0 then 1 else 0) + s.stream.bufferSize + if s.setFin then 0 else 1

/-- What a sender has to spend. -/
def potential (s : TCPSender) : ℕ := 3 * s.unsent + queueWeight s.segmentsOut

/-- Sending uses up sequence numbers. -/
theorem unsent_send {s : TCPSender} {w : ℕ} (hfin : s.setFin = false)
    (hlen : 0 < (s.nextSegment w).1.lengthInSequenceSpace) :
    ((s.advance w).transmit (s.nextSegment w).1).unsent + (s.nextSegment w).1.lengthInSequenceSpace =
      s.unsent := by
  have hlength := s.nextSegment_length w
  have hpayload := s.nextSegment_payload_length w
  have hque := congrArg List.length (s.nextSegment_que w)
  rw [List.length_drop] at hque
  have hnext : s.nextSeqno + (s.nextSegment w).1.lengthInSequenceSpace ≠ 0 := by omega
  simp only [unsent, transmit, advance, hfin, ByteStream.bufferSize, Bool.false_or, if_neg hnext,
    Bool.false_eq_true, if_false] at hque hpayload ⊢
  split_ifs at hlength ⊢ <;> omega

/-- **`fill_window` pays for what it sends.** -/
theorem potential_fills {s s' : TCPSender} {w : ℕ} (h : Fills s w s') : s'.potential ≤ s.potential := by
  induction h with
  | stop => exact le_rfl
  | @send s _ w _ hfin hlen _ ih =>
    refine ih.trans ?_
    have hunsent := unsent_send hfin hlen
    have hweight := (s.nextSegment w).1.weight_le
    have hout : ((s.advance w).transmit (s.nextSegment w).1).segmentsOut =
        s.segmentsOut ++ [(s.nextSegment w).1] := rfl
    simp only [potential, hout, queueWeight_append, queueWeight_cons, queueWeight_nil]
    omega

@[simp] theorem potential_ackReceived (s : TCPSender) (n : WrappingInt32) (w : UInt16) :
    (s.ackReceived n w).potential = s.potential := by
  simp [potential, unsent]

end TCPSender

/-! ### Connections -/

namespace TCPConnection

/-- What a connection has to spend. -/
def potential (c : TCPConnection) : ℕ := c.sender.potential + queueWeight c.segmentsOut

section Potential

variable (c : TCPConnection) (seg : TCPSegment)

@[simp] theorem potential_tryCleanClose : c.tryCleanClose.potential = c.potential := by
  simp [potential]

@[simp] theorem potential_clearLinger : c.clearLinger.potential = c.potential := by
  simp [potential]

@[simp] theorem potential_deliver : (c.deliver seg).potential = c.potential := by
  rcases c.deliver_sender seg with ⟨-, -, heq⟩ | ⟨-, heq⟩
  · rw [potential, potential, heq, deliver_segmentsOut, TCPSender.potential_ackReceived]
  · rw [potential, potential, heq, deliver_segmentsOut]

theorem potential_fillWindow_le : c.fillWindow.potential ≤ c.potential :=
  Nat.add_le_add_right (TCPSender.potential_fills c.sender.fillWindow_fills) _

@[simp] theorem potential_sendSegments : c.sendSegments.potential = c.potential := by
  have hunsent : c.sendSegments.sender.unsent = c.sender.unsent := rfl
  have hqueue : queueWeight c.sendSegments.segmentsOut =
      queueWeight c.segmentsOut + queueWeight c.sender.segmentsOut := by
    rw [sendSegments, queueWeight_append, queueWeight_map_stamp]
  have hempty : queueWeight c.sendSegments.sender.segmentsOut = 0 := rfl
  simp only [potential, TCPSender.potential, hunsent, hqueue, hempty]
  omega

/-- An empty segment is sent in answer only to one that is not. -/
theorem potential_reply_lt : (c.reply seg).potential < c.potential + seg.weight := by
  have hpos := seg.weight_pos
  unfold reply
  split_ifs with h
  · have hweight : seg.weight = 2 := by rw [TCPSegment.weight, if_neg h.1]
    have hunsent : c.sender.sendEmptySegment.unsent = c.sender.unsent := rfl
    have hqueue : queueWeight c.sender.sendEmptySegment.segmentsOut =
        queueWeight c.sender.segmentsOut + 1 := by
      rw [TCPSender.sendEmptySegment, queueWeight_append]
      rfl
    simp only [potential, TCPSender.potential, hunsent, hqueue, hweight]
    omega
  · omega

/-- **The answer to a segment counts less than the segment.** -/
theorem potential_segmentReceived_lt : (c.segmentReceived seg).potential < c.potential + seg.weight := by
  have hpos := seg.weight_pos
  cases hrst : seg.header.rst with
  | true =>
    have hsame : (c.segmentReceived seg).potential = c.potential := by
      simp only [segmentReceived, hrst, if_true]
      rfl
    omega
  | false =>
    have hnote : ({ c with waitSegmentTime := 0 }.deliver seg).potential = c.potential :=
      potential_deliver _ seg
    rw [c.segmentReceived_eq hrst]
    split_ifs
    · rw [potential_tryCleanClose, potential_clearLinger, potential_sendSegments]
      calc _ < ({ c with waitSegmentTime := 0 }.deliver seg).fillWindow.potential + seg.weight :=
            potential_reply_lt _ seg
        _ ≤ ({ c with waitSegmentTime := 0 }.deliver seg).potential + seg.weight :=
            Nat.add_le_add_right (potential_fillWindow_le _) _
        _ = c.potential + seg.weight := by rw [hnote]
    · rw [potential_tryCleanClose, hnote]
      omega

end Potential

end TCPConnection

/-! ### Two connections -/

/-- Two connections and the segments on their way to each. -/
structure Exchange where
  /-- The connections. -/
  conn : Side → TCPConnection
  /-- The segments on their way to a side. -/
  flight : Side → List TCPSegment

namespace Exchange

/-- A segment on its way to a side is delivered, when the others are `rest`, and what the connection
has queued is sent. -/
def deliver (x : Exchange) (s : Side) (seg : TCPSegment) (rest : List TCPSegment) : Exchange where
  conn := Function.update x.conn s { (x.conn s).segmentReceived seg with segmentsOut := [] }
  flight := Function.update (Function.update x.flight s rest) s.other
    (x.flight s.other ++ ((x.conn s).segmentReceived seg).segmentsOut)

/-- What the two have to spend. -/
def potential (x : Exchange) : ℕ :=
  ((x.conn .a).potential + queueWeight (x.flight .a)) + ((x.conn .b).potential + queueWeight (x.flight .b))

/-- A side, and the other one. -/
theorem potential_eq (x : Exchange) (s : Side) :
    x.potential = (x.conn s).potential + queueWeight (x.flight s) +
      ((x.conn s.other).potential + queueWeight (x.flight s.other)) := by
  cases s with
  | a => rfl
  | b => exact Nat.add_comm _ _

end Exchange

/-- The network delivers a segment on its way, or loses it. -/
inductive Delivers : Exchange → Exchange → Prop where
  /-- A segment is delivered. -/
  | deliver {x : Exchange} {s : Side} {seg : TCPSegment} {l₁ l₂ : List TCPSegment} :
      x.flight s = l₁ ++ seg :: l₂ → Delivers x (x.deliver s seg (l₁ ++ l₂))
  /-- A segment is lost. -/
  | drop {x : Exchange} {s : Side} {seg : TCPSegment} {l₁ l₂ : List TCPSegment} :
      x.flight s = l₁ ++ seg :: l₂ →
        Delivers x { x with flight := Function.update x.flight s (l₁ ++ l₂) }

/-- What is taken off the way to a side. -/
theorem queueWeight_of_mem {l l₁ l₂ : List TCPSegment} {seg : TCPSegment} (h : l = l₁ ++ seg :: l₂) :
    queueWeight l = queueWeight (l₁ ++ l₂) + seg.weight := by
  rw [h, queueWeight_append, queueWeight_cons, queueWeight_append]
  omega

/-- **Every delivery and every loss lowers the potential.** -/
theorem Delivers.potential_lt {x y : Exchange} (h : Delivers x y) : y.potential < x.potential := by
  cases h with
  | @deliver s seg l₁ l₂ hflight =>
    have hlt := (x.conn s).potential_segmentReceived_lt seg
    have hweight := queueWeight_of_mem hflight
    generalize hc : (x.conn s).segmentReceived seg = c at hlt
    -- what has been queued is on its way
    have hsent : c.potential = ({ c with segmentsOut := [] } : TCPConnection).potential +
        queueWeight c.segmentsOut := rfl
    rw [Exchange.potential_eq _ s, x.potential_eq s]
    simp only [Exchange.deliver, hc, Function.update_self, Function.update_of_ne s.other_ne,
      Function.update_of_ne s.other_ne.symm, queueWeight_append] at hsent hweight ⊢
    omega
  | @drop s seg l₁ l₂ hflight =>
    have hpos := seg.weight_pos
    have hweight := queueWeight_of_mem hflight
    rw [Exchange.potential_eq _ s, x.potential_eq s]
    simp only [Function.update_self, Function.update_of_ne s.other_ne]
    omega

/-- **No storm of acknowledgments.** From any state of two connections, whatever is on its way
between them, no sequence of deliveries and losses is longer than the potential of that state; so
none goes on for ever. -/
theorem deliveries_finite (x : Exchange) :
    (∀ (n : ℕ) (f : ℕ → Exchange), f 0 = x → (∀ i < n, Delivers (f i) (f (i + 1))) → n ≤ x.potential) ∧
      ¬ ∃ f : ℕ → Exchange, f 0 = x ∧ ∀ i, Delivers (f i) (f (i + 1)) := by
  have hbound : ∀ (n : ℕ) (f : ℕ → Exchange), f 0 = x → (∀ i < n, Delivers (f i) (f (i + 1))) →
      n ≤ x.potential := by
    intro n f h0 hsteps
    have hle := steps_le_of_decreasing (fun _ _ h => Delivers.potential_lt h) hsteps
    rw [h0] at hle
    exact (Nat.le_add_right _ _).trans hle
  refine ⟨hbound, ?_⟩
  rintro ⟨f, h0, hsteps⟩
  have hle := hbound (x.potential + 1) f h0 fun i _ => hsteps i
  omega

end Sponge
