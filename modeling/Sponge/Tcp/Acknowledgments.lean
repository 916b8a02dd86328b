import Sponge.Tcp.Transmission

/-!
# What acknowledgments do

A sender keeps every segment until it has been acknowledged. Sequence numbers repeat
every `2^32` positions, so an acknowledgment number stands for many positions; what it
means is the last of them that has been sent (`Denotes`). An acknowledgment of a position
that has not been sent is impossible and should be ignored. `ack_received` looks at it
only after it has recorded its position, so the next `fill_window` works with a window
that nobody has advertised: `impossible_ack_opens_window` is such a run.

## What is proved

* `popAcked_places` — an acknowledgment removes the segments that end at or before its
  position.
* `outstanding_acked` — in every run the segments kept for retransmission are those in
  flight, and an acknowledgment removes exactly those it covers.
* `impossible_ack_ignored_iff` — an impossible acknowledgment has no effect only if its
  position has been recorded before.
-/

namespace Sponge

namespace TCPSender

/-- The acknowledgment number stands for the position `a`: the last one, of those that have been
sent, with that sequence number. -/
structure Denotes (s : TCPSender) (n : WrappingInt32) (a : ℕ) : Prop where
  /-- The number is that of the position. -/
  wrap : n = wrap a s.isn
  /-- The position is not beyond what has been sent. -/
  le : a ≤ s.nextSeqno
  /-- No later position is. -/
  last : s.nextSeqno < a + 2 ^ 32

theorem Outstanding.call {s : TCPSender} (h : Outstanding s) (c : SenderCall) : Outstanding (s.call c) := by
  cases c with
  | event e =>
    cases e with
    | write data => exact ⟨h.le, h.tiles⟩
    | endInput => exact ⟨h.le, h.tiles⟩
    | fillWindow => exact h.fills s.fillWindow_fills
    | tick ms =>
      obtain ⟨timer, num, again, -, heq⟩ := s.tick_eq ms
      simp only [TCPSender.call, TCPSender.step, heq]
      exact ⟨h.le, h.tiles⟩
    | ackReceived n w => exact h.ackReceived w
  | sendEmptySegment => exact ⟨h.le, h.tiles⟩
  | take => exact ⟨h.le, h.tiles⟩

/-- In every run what is kept for retransmission is what is in flight. -/
theorem outstanding_runs (capacity : ℕ) (retxTimeout : UInt16) (fixedIsn : Option WrappingInt32)
    (random : WrappingInt32) (cs : List SenderCall) :
    Outstanding (runs TCPSender.call (make capacity retxTimeout fixedIsn random) cs) := by
  have hrun : Along TCPSender.call (fun _ _ => True) (make capacity retxTimeout fixedIsn random) cs :=
    along_true _ _
  exact hrun.invariant (fun _ c hi _ => hi.call c) (outstanding_make _ _ _ _)

/-! ### Acknowledgments of what has been sent -/

/-- **What an acknowledgment of position `a` removes**: with less than `2^31` in flight, exactly the
segments that end at or before `a`. -/
theorem popAcked_places {isn : WrappingInt32} {a base next flight : ℕ} {l : List TCPSegment}
    (h : Tiles TCPSegment.lengthInSequenceSpace (StartsAt isn) base l next) (hf : base + flight = next)
    (hshort : flight < 2 ^ 31) :
    places TCPSegment.lengthInSequenceSpace (next - (popAcked isn a next flight l).2.1)
        (popAcked isn a next flight l).2.2 =
      (places TCPSegment.lengthInSequenceSpace base l).filter
        fun q => decide (a < q.1 + q.2.lengthInSequenceSpace) := by
  induction l generalizing base flight with
  | nil => rfl
  | cons seg l ih =>
    have hle := h.2.le
    -- the sequence number of the segment is near enough to `next` to be recovered
    have hpos : unwrap seg.header.seqno isn next = base := by
      rw [h.1.seqno]
      exact unwrap_wrap isn (by omega) (by omega)
    simp only [popAcked, hpos]
    split_ifs with hack
    · have hsub := sub64_of_le (by omega : seg.lengthInSequenceSpace ≤ flight)
      rw [hsub, ih h.2 (by omega) (by omega)]
      symm
      exact List.filter_cons_of_neg (by simpa using hack)
    · have hbase : next - flight = base := by omega
      rw [hbase, filter_places_eq (by omega)]

/-- The number of an old position is taken for one that has not been sent. -/
theorem Denotes.unwrap_of_old {s : TCPSender} {n : WrappingInt32} {a : ℕ} (h : Denotes s n a)
    (hold : a + 2 ^ 31 < s.nextSeqno) : unwrap n s.isn s.nextSeqno = a + 2 ^ 32 := by
  have hlast := h.last
  have hsame : n = Sponge.wrap (a + 2 ^ 32) s.isn := by
    rw [h.wrap]
    simp only [Sponge.wrap, Nat.add_mod_right]
  rw [hsame]
  exact unwrap_wrap _ (by omega) (by omega)

/-- **An acknowledgment removes what it covers.** -/
theorem Outstanding.acked_places {s : TCPSender} (hs : Outstanding s) {n : WrappingInt32} {a : ℕ}
    (w : UInt16) (hn : Denotes s n a) (hshort : s.flightBytes < 2 ^ 31) :
    places TCPSegment.lengthInSequenceSpace (s.ackReceived n w).base (s.ackReceived n w).waitAck =
      (places TCPSegment.lengthInSequenceSpace s.base s.waitAck).filter
        fun q => decide (a < q.1 + q.2.lengthInSequenceSpace) := by
  have hle := hs.le
  have hale := hn.le
  rcases Nat.lt_or_ge (a + 2 ^ 31) s.nextSeqno with hold | hnear
  · -- an old acknowledgment removes nothing, and covers nothing
    have hold' := hn.unwrap_of_old hold
    have hlast := hn.last
    rw [ackReceived_of_gt w (by omega)]
    symm
    refine List.filter_eq_self.mpr fun q hq => decide_eq_true ?_
    have hbase : s.base ≤ q.1 := le_of_mem_places hq
    unfold base at hbase
    omega
  · have hunwrap : unwrap n s.isn s.nextSeqno = a := by
      rw [hn.wrap]
      exact unwrap_wrap _ (by omega) hnear
    have hpop := ackReceived_popAcked (s := s) (n := n) w (by omega)
    have hb : s.base + s.flightBytes = s.nextSeqno := by
      unfold base
      omega
    have hplaces := popAcked_places (a := a) hs.tiles hb hshort
    rw [hunwrap] at hpop
    rw [← hpop] at hplaces
    rw [base, ackReceived_nextSeqno]
    exact hplaces

/-- An acknowledgment never puts anything into flight. -/
theorem Outstanding.flightBytes_ackReceived_le {s : TCPSender} (hs : Outstanding s) (n : WrappingInt32)
    (w : UInt16) : (s.ackReceived n w).flightBytes ≤ s.flightBytes := by
  rcases Nat.lt_or_ge s.nextSeqno (unwrap n s.isn s.nextSeqno) with h | h
  · rw [ackReceived_of_gt w h]
  · obtain ⟨hout, popped, -, htiles, -⟩ := hs.acked w h
    have hle := htiles.le
    have hnew := hout.le
    have hold := hs.le
    unfold base at hle
    rw [ackReceived_nextSeqno] at hle hnew
    omega

/-- **The segments kept for retransmission.** In every run they are a contiguous run of segments
that ends at `next_seqno_absolute()`, and `bytes_in_flight()` is their length, which no
acknowledgment makes wrap around; and with less than `2^31` bytes in flight an acknowledgment of
position `a` removes exactly those that end at or before `a`, and keeps the others in order. -/
theorem outstanding_acked (capacity : ℕ) (retxTimeout : UInt16) (fixedIsn : Option WrappingInt32)
    (random : WrappingInt32) (cs : List SenderCall) :
    let s := runs TCPSender.call (make capacity retxTimeout fixedIsn random) cs
    Tiles TCPSegment.lengthInSequenceSpace
      (fun x seg => seg.header.seqno = wrap x s.isn ∧ 0 < seg.lengthInSequenceSpace)
      (s.nextSeqnoAbsolute - s.bytesInFlight) s.waitAck s.nextSeqnoAbsolute ∧
    s.bytesInFlight = (s.waitAck.map TCPSegment.lengthInSequenceSpace).sum ∧
    s.bytesInFlight ≤ s.nextSeqnoAbsolute ∧
    (∀ n w, (s.ackReceived n w).bytesInFlight ≤ s.bytesInFlight) ∧
    ∀ n w a, Denotes s n a → s.bytesInFlight < 2 ^ 31 →
      places TCPSegment.lengthInSequenceSpace
          ((s.ackReceived n w).nextSeqnoAbsolute - (s.ackReceived n w).bytesInFlight)
          (s.ackReceived n w).waitAck =
        (places TCPSegment.lengthInSequenceSpace (s.nextSeqnoAbsolute - s.bytesInFlight) s.waitAck).filter
          fun q => decide (a < q.1 + q.2.lengthInSequenceSpace) := by
  intro s
  have h : Outstanding s := outstanding_runs _ _ _ _ cs
  have hle := h.le
  refine ⟨?_, ?_, hle, ?_, ?_⟩
  · exact h.tiles.imp fun _ _ _ _ hat => ⟨hat.seqno, hat.pos⟩
  · have hsum := h.tiles.sum_eq
    unfold base at hsum
    unfold bytesInFlight
    omega
  · exact fun n w => h.flightBytes_ackReceived_le n w
  · intro n w a hn hshort
    exact h.acked_places w hn hshort

/-- Three bytes are sent, each in a segment of its own. -/
def threeSegments : List SenderCall :=
  [.event .fillWindow, .event (.ackReceived ⟨8⟩ 10), .event (.write [97]), .event .fillWindow,
    .event (.write [98]), .event .fillWindow, .event (.write [99]), .event .fillWindow]

/-- Two of them are acknowledged. -/
theorem outstanding_acked_three :
    let s := runs TCPSender.call (make 10 1000 (some ⟨7⟩) ⟨0⟩) threeSegments
    s.bytesInFlight = 3 ∧
      places TCPSegment.lengthInSequenceSpace
          ((s.ackReceived ⟨10⟩ 10).nextSeqnoAbsolute - (s.ackReceived ⟨10⟩ 10).bytesInFlight)
          (s.ackReceived ⟨10⟩ 10).waitAck =
        (places TCPSegment.lengthInSequenceSpace (s.nextSeqnoAbsolute - s.bytesInFlight) s.waitAck).filter
          fun q => decide (3 < q.1 + q.2.lengthInSequenceSpace) :=
  ⟨by decide +kernel, (outstanding_acked 10 1000 (some ⟨7⟩) ⟨0⟩ threeSegments).2.2.2.2 ⟨10⟩ 10 3
    ⟨by decide +kernel, by decide +kernel, by decide +kernel⟩ (by decide +kernel)⟩

/-! ### Impossible acknowledgments -/

/-- **When an impossible acknowledgment has no effect.** In every state that a sender reaches, an
acknowledgment of a position that has not been sent leaves the sender as it is, so that whatever is
done later `fill_window` makes the segments it would have made, if and only if that position is the
one recorded already. -/
theorem impossible_ack_ignored_iff (capacity : ℕ) (retxTimeout : UInt16) (fixedIsn : Option WrappingInt32)
    (random : WrappingInt32) (cs : List SenderCall) (n : WrappingInt32) (w : UInt16) :
    let s := runs TCPSender.call (make capacity retxTimeout fixedIsn random) cs
    s.nextSeqnoAbsolute < unwrap n s.isn s.nextSeqnoAbsolute →
      ((s.ackReceived n w = s ∧ ∀ later : List SenderCall,
          (runs TCPSender.call (s.ackReceived n w) later).created = (runs TCPSender.call s later).created) ↔
        s.ackno = unwrap n s.isn s.nextSeqnoAbsolute) := by
  intro s himpossible
  have heq : s.ackReceived n w = { s with ackno := unwrap n s.isn s.nextSeqno } :=
    ackReceived_of_gt w himpossible
  constructor
  · rintro ⟨hsame, -⟩
    have hackno := congrArg TCPSender.ackno hsame
    rw [ackReceived_ackno] at hackno
    exact hackno.symm
  · intro hackno
    have hsame : s.ackReceived n w = s := by
      rw [heq, show unwrap n s.isn s.nextSeqno = s.ackno from hackno.symm]
    refine ⟨hsame, fun later => ?_⟩
    rw [hsame]

/-- An impossible acknowledgment arrives twice. -/
theorem impossible_ack_ignored_twice :
    let s := runs TCPSender.call (make 10 1000 (some ⟨0⟩) ⟨0⟩)
      [.event .fillWindow, .event (.ackReceived ⟨100⟩ 3)]
    s.nextSeqnoAbsolute < unwrap ⟨100⟩ s.isn s.nextSeqnoAbsolute ∧ s.ackReceived ⟨100⟩ 3 = s :=
  ⟨by decide +kernel, ((impossible_ack_ignored_iff 10 1000 (some ⟨0⟩) ⟨0⟩
    [.event .fillWindow, .event (.ackReceived ⟨100⟩ 3)] ⟨100⟩ 3 (by decide +kernel)).mpr
      (by decide +kernel)).1⟩

/-- An impossible acknowledgment with an effect: the peer's window of three bytes is full, then the
acknowledgment of position `100` arrives, and `fill_window` sends three bytes more. -/
theorem impossible_ack_opens_window :
    let s := runs TCPSender.call (make 10 1000 (some ⟨0⟩) ⟨0⟩) [.event .fillWindow,
      .event (.ackReceived ⟨1⟩ 3), .event (.write [97, 98, 99, 100, 101, 102]), .event .fillWindow]
    s.nextSeqnoAbsolute < unwrap ⟨100⟩ s.isn s.nextSeqnoAbsolute ∧ s.ackReceived ⟨100⟩ 3 ≠ s ∧
      s.created = [] ∧ (s.ackReceived ⟨100⟩ 3).created.map (·.payload) = [[100, 101, 102]] := by
  decide +kernel

end TCPSender

end Sponge
