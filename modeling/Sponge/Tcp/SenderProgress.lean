import Sponge.Library.Runs
import Sponge.Tcp.Sender

/-!
# The sender does not go idle

If nothing is in flight, no timer runs and no acknowledgment is owed: a sender that has
something to send and nothing in flight may wait for ever. After `fill_window` it should
never be in that state. `fill_window` gives up when the window is full, and how full it
is depends on the acknowledged position, which `ack_received` sets to whatever the last
acknowledgment said, even if an earlier one said more. So an old acknowledgment that
arrives when everything has been acknowledged closes the window of an idle sender:
`fillWindow_idle` is such a run. It does not happen in runs whose acknowledgments leave
the window open when nothing is in flight (`SenderEvent.Fresh`).

## What is proved

* `Lively.step` — with nothing in flight, the window is open or the FIN has been sent.
* `fillWindow_not_idle` — so after `fill_window`, with nothing in flight, there is
  nothing left to send.
-/

namespace Sponge

/-- What happens to a sender. -/
inductive SenderEvent where
  /-- `stream_in().write(data)`. -/
  | write (data : Bytes)
  /-- `stream_in().end_input()`. -/
  | endInput
  /-- `fill_window()`. -/
  | fillWindow
  /-- `tick(ms)`. -/
  | tick (ms : ℕ)
  /-- `ack_received(ackno, window_size)`. -/
  | ackReceived (ackno : WrappingInt32) (windowSize : UInt16)
  deriving DecidableEq

namespace TCPSender

/-- One event. -/
def step (s : TCPSender) : SenderEvent → TCPSender
  | .write data => { s with stream := (s.stream.write data).2 }
  | .endInput => { s with stream := s.stream.endInput }
  | .fillWindow => s.fillWindow
  | .tick ms => s.tick ms
  | .ackReceived ackno windowSize => s.ackReceived ackno windowSize

end TCPSender

/-- The acknowledgment is of a position that has been sent. -/
def SenderEvent.Valid (s : TCPSender) : SenderEvent → Prop
  | .ackReceived ackno _ => unwrap ackno s.isn s.nextSeqno ≤ s.nextSeqno
  | _ => True

instance SenderEvent.decidableValid (s : TCPSender) (e : SenderEvent) : Decidable (e.Valid s) := by
  cases e <;> unfold SenderEvent.Valid <;> infer_instance

/-- An acknowledgment that arrives when nothing is in flight leaves the window open; and nothing
is written after the FIN has been sent. -/
def SenderEvent.Fresh (s : TCPSender) : SenderEvent → Prop
  | .ackReceived ackno windowSize => s.flightBytes = 0 →
      s.nextSeqno < unwrap ackno s.isn s.nextSeqno + max windowSize.toNat 1
  | .write data => s.setFin = true → data = [] ∨ s.stream.remainingCapacity = 0
  | _ => True

instance SenderEvent.decidableFresh (s : TCPSender) (e : SenderEvent) : Decidable (e.Fresh s) := by
  cases e <;> unfold SenderEvent.Fresh <;> infer_instance

namespace TCPSender

/-- A sender that can go on. -/
structure Lively (s : TCPSender) : Prop where
  /-- What is kept for retransmission is what is in flight. -/
  outstanding : Outstanding s
  /-- With nothing in flight, the window is open or the FIN has been sent. -/
  opens : s.flightBytes = 0 → s.setFin = true ∨ s.nextSeqno < s.ackno + s.usableWindow
  /-- Once the FIN has been sent there is nothing left to send. -/
  done : s.setFin = true → s.stream.que = []

theorem lively_make (capacity : ℕ) (retxTimeout : UInt16) (fixedIsn : Option WrappingInt32)
    (random : WrappingInt32) : Lively (make capacity retxTimeout fixedIsn random) :=
  ⟨outstanding_make _ _ _ _, fun _ => Or.inr Nat.one_pos, fun h => absurd h Bool.false_ne_true⟩

theorem Fills.done {s s' : TCPSender} {w : ℕ} (h : Fills s w s')
    (hs : s.setFin = true → s.stream.que = []) : s'.setFin = true → s'.stream.que = [] := by
  induction h with
  | stop => exact hs
  | @send s _ w _ hfin _ _ ih =>
    refine ih fun h => ?_
    simp only [transmit, advance, hfin, Bool.false_or] at h ⊢
    exact ((ByteStream.eof_iff _).mp ((s.nextSegment_fin w).mp h).1).2

theorem Lively.fills {s s' : TCPSender} {w : ℕ} (h : Lively s) (hf : Fills s w s') : Lively s' := by
  refine ⟨h.outstanding.fills hf, fun h0 => ?_, hf.done h.done⟩
  rcases hf.eq_or_flight with ⟨rfl, -⟩ | hpos
  · exact h.opens h0
  · omega

/-- **An acknowledgment keeps the window open.** If it removes all that is in flight it is of the
last position; if nothing was in flight, the condition says so. -/
theorem Lively.ackReceived {s : TCPSender} (h : Lively s) {n : WrappingInt32} {w : UInt16}
    (hle : unwrap n s.isn s.nextSeqno ≤ s.nextSeqno)
    (hfresh : s.flightBytes = 0 → s.nextSeqno < unwrap n s.isn s.nextSeqno + max w.toNat 1) :
    Lively (s.ackReceived n w) := by
  obtain ⟨hout, popped, hl, htiles, hpop⟩ := h.outstanding.acked w hle
  refine ⟨hout, fun h0 => Or.inr ?_, ?_⟩
  · rw [usableWindow_eq_max, ackReceived_ackno, ackReceived_nextSeqno, ackReceived_windowSz w hle]
    have hbase : (s.ackReceived n w).base = s.nextSeqno := by
      rw [base, h0, ackReceived_nextSeqno, Nat.sub_zero]
    rcases hpop with rfl | ha
    · -- nothing has been removed, so nothing was in flight
      refine hfresh ?_
      have hsame := tiles_nil.mp htiles
      have hsle := h.outstanding.le
      rw [hbase, base] at hsame
      omega
    · omega
  · rw [ackReceived_setFin, ackReceived_stream]
    exact h.done

theorem Lively.step {s : TCPSender} (h : Lively s) {e : SenderEvent} (hv : e.Valid s) (hf : e.Fresh s) :
    Lively (s.step e) := by
  cases e with
  | write data =>
    refine ⟨⟨h.outstanding.le, h.outstanding.tiles⟩, h.opens, fun hfin => ?_⟩
    simp only [TCPSender.step, ByteStream.write_que, h.done hfin, List.nil_append]
    rcases hf hfin with rfl | h0
    · exact List.take_nil
    · rw [h0, Nat.zero_min, List.take_zero]
  | endInput => exact ⟨⟨h.outstanding.le, h.outstanding.tiles⟩, h.opens, h.done⟩
  | fillWindow => exact h.fills s.fillWindow_fills
  | tick ms =>
    obtain ⟨timer, num, again, -, heq⟩ := s.tick_eq ms
    simp only [TCPSender.step, heq]
    exact ⟨⟨h.outstanding.le, h.outstanding.tiles⟩, h.opens, h.done⟩
  | ackReceived n w => exact h.ackReceived hv hf

/-- After `fill_window`, with nothing in flight, there is nothing left to send. -/
theorem Lively.fillWindow_done {s : TCPSender} (h : Lively s) (h0 : s.fillWindow.flightBytes = 0) :
    s.fillWindow.stream.que = [] ∧ (s.fillWindow.stream.inputEnded = true → s.fillWindow.setFin = true) := by
  rcases s.fillWindow_fills.eq_or_flight with ⟨heq, hidle⟩ | hpos
  · rw [heq] at h0 ⊢
    have hfin : s.setFin = true → s.stream.que = [] ∧ (s.stream.inputEnded = true → s.setFin = true) :=
      fun hfin => ⟨h.done hfin, fun _ => hfin⟩
    rcases hidle with hfull | hset | ⟨-, hque, hend⟩
    · -- the window is closed only if the FIN has been sent
      rcases h.opens h0 with hset | hopen
      · exact hfin hset
      · unfold freeWindow at hfull
        omega
    · exact hfin hset
    · exact ⟨hque, fun hc => absurd hc (by simp [hend])⟩
  · omega

/-- **The sender does not go idle with work to do.** In every run whose acknowledgments are of
positions that have been sent, leave the window open when nothing is in flight, and in which
nothing is written after the FIN, after `fill_window` with nothing in flight the stream has no
unread bytes and, if its input has ended, the FIN has been sent. -/
theorem fillWindow_not_idle (capacity : ℕ) (retxTimeout : UInt16) (fixedIsn : Option WrappingInt32)
    (random : WrappingInt32) (es : List SenderEvent)
    (h : Along step (fun s e => e.Valid s ∧ e.Fresh s) (make capacity retxTimeout fixedIsn random) es)
    (h0 : (runs step (make capacity retxTimeout fixedIsn random) es).fillWindow.bytesInFlight = 0) :
    (runs step (make capacity retxTimeout fixedIsn random) es).fillWindow.streamIn.bufferSize = 0 ∧
      ((runs step (make capacity retxTimeout fixedIsn random) es).fillWindow.streamIn.inputEnded = true →
        (runs step (make capacity retxTimeout fixedIsn random) es).fillWindow.setFin = true) := by
  have hl := h.invariant (I := Lively) (fun _ _ hi hc => hi.step hc.1 hc.2) (lively_make _ _ _ _)
  obtain ⟨hque, hfin⟩ := hl.fillWindow_done h0
  exact ⟨by rw [streamIn, ByteStream.bufferSize, hque, List.length_nil], hfin⟩

/-- The SYN and five bytes are sent and acknowledged. -/
theorem fillWindow_not_idle_hello :
    (runs step (make 10 1000 (some ⟨0⟩) ⟨0⟩) [.fillWindow, .ackReceived ⟨1⟩ 5,
        .write [104, 101, 108, 108, 111], .fillWindow, .ackReceived ⟨6⟩ 5]).fillWindow.bytesInFlight = 0 ∧
      (runs step (make 10 1000 (some ⟨0⟩) ⟨0⟩) [.fillWindow, .ackReceived ⟨1⟩ 5,
        .write [104, 101, 108, 108, 111], .fillWindow,
        .ackReceived ⟨6⟩ 5]).fillWindow.streamIn.bufferSize = 0 :=
  ⟨by decide +kernel, (fillWindow_not_idle 10 1000 (some ⟨0⟩) ⟨0⟩ _ (by decide +kernel) (by decide +kernel)).1⟩

/-- An idle sender with work to do: five bytes are acknowledged, then the acknowledgment of the
SYN arrives once more. Its window of five bytes has been used up, so the next byte is not
sent, though nothing is in flight. -/
theorem fillWindow_idle :
    Along step (fun s e => e.Valid s) (make 10 1000 (some ⟨0⟩) ⟨0⟩) [.fillWindow, .ackReceived ⟨1⟩ 5,
        .write [104, 101, 108, 108, 111], .fillWindow, .ackReceived ⟨6⟩ 5, .ackReceived ⟨1⟩ 5,
        .write [33]] ∧
      (runs step (make 10 1000 (some ⟨0⟩) ⟨0⟩) [.fillWindow, .ackReceived ⟨1⟩ 5,
        .write [104, 101, 108, 108, 111], .fillWindow, .ackReceived ⟨6⟩ 5, .ackReceived ⟨1⟩ 5,
        .write [33]]).fillWindow.bytesInFlight = 0 ∧
      ¬ (runs step (make 10 1000 (some ⟨0⟩) ⟨0⟩) [.fillWindow, .ackReceived ⟨1⟩ 5,
        .write [104, 101, 108, 108, 111], .fillWindow, .ackReceived ⟨6⟩ 5, .ackReceived ⟨1⟩ 5,
        .write [33]]).fillWindow.streamIn.bufferSize = 0 := by
  decide +kernel

end TCPSender

end Sponge
