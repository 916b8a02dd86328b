import Sponge.Library.Tiles
import Sponge.Tcp.Segment

/-!
# The sender

`TCPSender` cuts its input stream into segments that fit into the window of the peer,
keeps them until they are acknowledged, and sends the oldest one again when its timer
expires.

## The model

A `std::queue` is a list, front first. `_next_seqno`, `_ackno` and `_flight_bytes` are
natural numbers; the timer's numbers are 32 bits wide, and adding to them wraps. The
loop of `fill_window` is `fillLoop`, which ends because every turn but the last uses up
some of the window. The loop of `ack_received` is `popAcked`.

## What is proved

* `Fills` says what a turn of the loop of `fill_window` does, and `fillWindow_fills`
  that the code does it.
* `Outstanding` — the segments kept for retransmission cover the positions from the
  oldest unacknowledged one to `_next_seqno`, one after the other. `Outstanding.fills`
  and `Outstanding.ackReceived` keep this.
* `popAcked_spec` — an acknowledgment never removes a segment beyond its position.
-/

namespace Sponge

/-- `TCPConfig::MAX_PAYLOAD_SIZE`. -/
def maxPayloadSize : ℕ := 1000

/-! ### The retransmission timer -/

/-- The timer. Times are in milliseconds. -/
structure Timer where
  /-- The timer is running. -/
  active : Bool
  /-- The timer has expired. -/
  expired : Bool
  /-- The initial timeout. -/
  initTimeout : ℕ
  /-- The current timeout, which doubles. -/
  timeout : ℕ
  /-- The time since the timer was started. -/
  curTime : ℕ
  deriving DecidableEq

namespace Timer

/-- A new timer. -/
def make (retxTimeout : UInt16) : Timer where
  active := false
  expired := false
  initTimeout := retxTimeout.toNat
  timeout := retxTimeout.toNat
  curTime := 0

/-- `start`. -/
def start (t : Timer) : Timer := { t with expired := false, active := true, curTime := 0 }

/-- `expire`: the timeout doubles, and a retransmission is counted, unless the window is
closed. -/
def expire (t : Timer) (winSize consecutiveNum : ℕ) : Timer × ℕ :=
  if winSize ≠ 0 then ({ t with timeout := t.timeout * 2 % 2 ^ 32 }, (consecutiveNum + 1) % 2 ^ 32)
  else (t, consecutiveNum)

/-- `tictoc`: time passes. -/
def tictoc (t : Timer) (winSize tictocTime consecutiveNum : ℕ) : Timer × ℕ :=
  if t.active then
    let t := { t with curTime := (t.curTime + tictocTime) % 2 ^ 32 }
    if t.curTime ≥ t.timeout then
      let e := { t with active := false }.expire winSize consecutiveNum
      ({ e.1 with expired := true }, e.2)
    else (t, consecutiveNum)
  else (t, consecutiveNum)

/-- `reset`. -/
def reset (t : Timer) : Timer := { t with timeout := t.initTimeout }

/-- `stop`. -/
def stop (t : Timer) : Timer := { t with active := false }

/-- `isexpired`. -/
def isexpired (t : Timer) : Bool := t.expired

/-- `started`. -/
def started (t : Timer) : Bool := t.active

end Timer

/-! ### The sender -/

/-- The sending part of a connection. -/
structure TCPSender where
  /-- The initial sequence number. -/
  isn : WrappingInt32
  /-- The segments to be sent. -/
  segmentsOut : List TCPSegment
  /-- The initial retransmission timeout. -/
  initialRetransmissionTimeout : ℕ
  /-- The bytes that have not been sent yet. -/
  stream : ByteStream
  /-- The absolute sequence number of the next byte to be sent. -/
  nextSeqno : ℕ
  /-- The window the peer has advertised. -/
  windowSz : ℕ
  /-- The absolute sequence number the peer has acknowledged. -/
  ackno : ℕ
  /-- How many sequence numbers have been sent and not acknowledged. -/
  flightBytes : ℕ
  /-- The FIN has been sent. -/
  setFin : Bool
  /-- The segments sent and not acknowledged, oldest first. -/
  waitAck : List TCPSegment
  /-- The retransmission timer. -/
  timer : Timer
  /-- How often the oldest segment has been sent again in a row. -/
  consecutiveTransmitNum : ℕ
  deriving DecidableEq

namespace TCPSender

/-- A new sender; `random` is the initial sequence number if none is given. -/
def make (capacity : ℕ) (retxTimeout : UInt16) (fixedIsn : Option WrappingInt32)
    (random : WrappingInt32) : TCPSender where
  isn := fixedIsn.getD random
  segmentsOut := []
  initialRetransmissionTimeout := retxTimeout.toNat
  stream := ByteStream.make capacity
  nextSeqno := 0
  windowSz := 1
  ackno := 0
  flightBytes := 0
  setFin := false
  waitAck := []
  timer := Timer.make retxTimeout
  consecutiveTransmitNum := 0

/-- `stream_in`. -/
def streamIn (s : TCPSender) : ByteStream := s.stream

/-- `bytes_in_flight`. -/
def bytesInFlight (s : TCPSender) : ℕ := s.flightBytes

/-- `consecutive_retransmissions`. -/
def consecutiveRetransmissions (s : TCPSender) : ℕ := s.consecutiveTransmitNum

/-- `next_seqno_absolute`. -/
def nextSeqnoAbsolute (s : TCPSender) : ℕ := s.nextSeqno

/-- `next_seqno`. -/
def nextSeqnoWrapped (s : TCPSender) : WrappingInt32 := wrap s.nextSeqno s.isn

/-- The window `fill_window` works with: a closed window counts as one byte. -/
def usableWindow (s : TCPSender) : ℕ := if s.windowSz ≠ 0 then s.windowSz else 1

/-- The segment a turn of the loop of `fill_window` makes, and the stream after its payload has
been read. -/
def nextSegment (s : TCPSender) (winSize : ℕ) : TCPSegment × ByteStream :=
  let syn := s.nextSeqno == 0
  let seqlen := if syn then 1 else 0
  let buffer := s.stream.read (min (winSize - seqlen) maxPayloadSize)
  let fin := buffer.2.eof && decide (seqlen + buffer.1.length < winSize)
  ({ header := { seqno := s.nextSeqnoWrapped, syn := syn, fin := fin }, payload := buffer.1 }, buffer.2)

/-- The sender after the segment has been made. -/
def advance (s : TCPSender) (winSize : ℕ) : TCPSender :=
  { s with
    stream := (s.nextSegment winSize).2
    setFin := s.setFin || (s.nextSegment winSize).1.header.fin
    nextSeqno := s.nextSeqno + (s.nextSegment winSize).1.lengthInSequenceSpace }

/-- The segment is sent, and kept until it is acknowledged. -/
def transmit (s : TCPSender) (seg : TCPSegment) : TCPSender :=
  { s with
    flightBytes := s.flightBytes + seg.lengthInSequenceSpace
    segmentsOut := s.segmentsOut ++ [seg]
    timer := if s.timer.started then s.timer else s.timer.start
    waitAck := s.waitAck ++ [seg] }

/-- The loop of `fill_window`. The window never shrinks below `0`: the segment fits into it. -/
def fillLoop (s : TCPSender) (winSize : ℕ) : TCPSender :=
  if winSize > 0 ∧ s.setFin = false then
    if (s.nextSegment winSize).1.lengthInSequenceSpace > 0 then
      fillLoop ((s.advance winSize).transmit (s.nextSegment winSize).1)
        (winSize - (s.nextSegment winSize).1.lengthInSequenceSpace)
    else s.advance winSize
  else s
termination_by winSize
decreasing_by omega

/-- `fill_window`. -/
def fillWindow (s : TCPSender) : TCPSender :=
  if s.setFin then s
  else if s.ackno + s.usableWindow ≤ s.nextSeqno then s
  else s.fillLoop (s.ackno + s.usableWindow - s.nextSeqno)

/-- The loop of `ack_received`: whether a segment has been acknowledged, the bytes in flight,
and the segments that are left. -/
def popAcked (isn : WrappingInt32) (absAckNo checkpoint : ℕ) :
    ℕ → List TCPSegment → Bool × ℕ × List TCPSegment
  | flight, [] => (false, flight, [])
  | flight, temp :: rest =>
    if absAckNo ≥ unwrap temp.header.seqno isn checkpoint + temp.lengthInSequenceSpace then
      (true, (popAcked isn absAckNo checkpoint (sub64 flight temp.lengthInSequenceSpace) rest).2)
    else (false, flight, temp :: rest)

/-- `ack_received`. The position is recorded before it is checked. -/
def ackReceived (s : TCPSender) (ackno : WrappingInt32) (windowSize : UInt16) : TCPSender :=
  let checkpoint := s.nextSeqno
  let absAckNo := unwrap ackno s.isn checkpoint
  let s := { s with ackno := absAckNo }
  if absAckNo > s.nextSeqno then s
  else
    let popped := popAcked s.isn absAckNo checkpoint s.flightBytes s.waitAck
    let s := { s with
      windowSz := windowSize.toNat
      flightBytes := popped.2.1
      waitAck := popped.2.2 }
    if popped.1 then
      { s with
        timer := if s.waitAck.isEmpty then s.timer.reset.stop else s.timer.reset.start
        consecutiveTransmitNum := 0 }
    else s

/-- `tick`. -/
def tick (s : TCPSender) (msSinceLastTick : ℕ) : TCPSender :=
  let t := s.timer.tictoc (s.windowSz % 2 ^ 16) (msSinceLastTick % 2 ^ 32) s.consecutiveTransmitNum
  let s := { s with timer := t.1, consecutiveTransmitNum := t.2 }
  if s.timer.isexpired && !s.waitAck.isEmpty then
    { s with segmentsOut := s.segmentsOut ++ s.waitAck.take 1, timer := s.timer.start }
  else s

/-- `send_empty_segment`. -/
def sendEmptySegment (s : TCPSender) : TCPSender :=
  { s with segmentsOut := s.segmentsOut ++ [{ header := { seqno := s.nextSeqnoWrapped } }] }

/-! ### What the next segment is -/

section NextSegment

variable (s : TCPSender) (w : ℕ)

@[simp] theorem nextSegment_seqno :
    (s.nextSegment w).1.header.seqno = wrap s.nextSeqno s.isn := rfl

theorem nextSegment_syn : (s.nextSegment w).1.header.syn = true ↔ s.nextSeqno = 0 := beq_iff_eq

/-- The payload is as much as the window, the maximum and the stream allow. -/
theorem nextSegment_payload_length : (s.nextSegment w).1.payload.length =
    min (min (w - if s.nextSeqno = 0 then 1 else 0) maxPayloadSize) s.stream.bufferSize := by
  simp only [nextSegment, ByteStream.read_fst, ByteStream.bufferSize, List.length_take, beq_iff_eq]
  omega

/-- The payload is the next part of the stream. -/
theorem nextSegment_payload :
    (s.nextSegment w).1.payload = s.stream.que.take (s.nextSegment w).1.payload.length := by
  rw [nextSegment_payload_length]
  simp only [nextSegment, ByteStream.read_fst, ByteStream.bufferSize, beq_iff_eq]

theorem nextSegment_que :
    (s.nextSegment w).2.que = s.stream.que.drop (s.nextSegment w).1.payload.length := by
  rw [nextSegment_payload_length]
  simp only [nextSegment, ByteStream.read_snd, ByteStream.popOutput_que, ByteStream.bufferSize, beq_iff_eq]

theorem nextSegment_bytesRead : (s.nextSegment w).2.bytesRead =
    s.stream.bytesRead + (s.nextSegment w).1.payload.length := by
  rw [nextSegment_payload_length]
  simp only [nextSegment, ByteStream.read_snd, ByteStream.popOutput_bytesRead, ByteStream.bufferSize,
    beq_iff_eq]

/-- The FIN is sent with the last byte, if there is room for it. -/
theorem nextSegment_fin : (s.nextSegment w).1.header.fin = true ↔
    (s.nextSegment w).2.eof = true ∧
      (if s.nextSeqno = 0 then 1 else 0) + (s.nextSegment w).1.payload.length < w := by
  simp only [nextSegment, Bool.and_eq_true, decide_eq_true_eq, beq_iff_eq]

/-- The length of the segment. -/
theorem nextSegment_length : (s.nextSegment w).1.lengthInSequenceSpace =
    (if s.nextSeqno = 0 then 1 else 0) + (s.nextSegment w).1.payload.length +
      if (s.nextSegment w).1.header.fin then 1 else 0 := by
  rw [TCPSegment.lengthInSequenceSpace, Nat.add_comm (s.nextSegment w).1.payload.length]
  simp only [nextSegment_syn]

/-- The segment fits into the window. -/
theorem nextSegment_length_le (hw : 0 < w) : (s.nextSegment w).1.lengthInSequenceSpace ≤ w := by
  have h1 := s.nextSegment_payload_length w
  have h2 := s.nextSegment_fin w
  rw [nextSegment_length]
  split_ifs at h1 h2 ⊢ with h0 hfin hfin
  · exact (h2.mp hfin).2
  · omega
  · exact (h2.mp hfin).2
  · omega

/-- A segment is empty only if there is nothing to send. -/
theorem idle_of_nextSegment_empty (hw : 0 < w) (h : (s.nextSegment w).1.lengthInSequenceSpace = 0) :
    s.nextSeqno ≠ 0 ∧ s.stream.que = [] ∧ s.stream.inputEnded = false := by
  rw [nextSegment_length] at h
  have h1 := s.nextSegment_payload_length w
  have h0 : s.nextSeqno ≠ 0 := fun h0 => by
    rw [if_pos h0] at h
    omega
  rw [if_neg h0] at h h1
  have hlen : s.stream.que.length = 0 := by
    unfold ByteStream.bufferSize maxPayloadSize at h1
    omega
  have hque := List.length_eq_zero_iff.mp hlen
  refine ⟨h0, hque, Bool.eq_false_iff.mpr fun hend => ?_⟩
  -- with the input ended and the stream empty, a FIN would be sent
  have hfin := (s.nextSegment_fin w).mpr
    ⟨(ByteStream.eof_iff _).mpr ⟨hend, by rw [nextSegment_que, hque, List.drop_nil]⟩, by
      rw [if_neg h0]
      omega⟩
  rw [if_pos hfin] at h
  omega

/-- Without anything to send the turn of the loop changes nothing. -/
theorem advance_of_empty (h : (s.nextSegment w).1.lengthInSequenceSpace = 0) : s.advance w = s := by
  have hlen : (s.nextSegment w).1.payload.length = 0 := by
    rw [nextSegment_length] at h
    omega
  have hfin : (s.nextSegment w).1.header.fin = false := by
    rw [nextSegment_length] at h
    by_contra hfin
    rw [Bool.not_eq_false] at hfin
    rw [if_pos hfin] at h
    omega
  have hstream : (s.nextSegment w).2 = s.stream := by
    rw [nextSegment_payload_length] at hlen
    simp only [nextSegment, ByteStream.read_snd, ByteStream.popOutput, beq_iff_eq]
    simp only [ByteStream.bufferSize] at hlen
    simp only [hlen, List.drop_zero, Nat.add_zero]
  simp only [advance, h, hfin, hstream, Bool.or_false, Nat.add_zero]

end NextSegment

/-- What `fill_window` does with a window: it sends segments one after the other, until the
window is full, the FIN has been sent or there is nothing to send. -/
inductive Fills : TCPSender → ℕ → TCPSender → Prop where
  /-- The window is full, the FIN has been sent, or there is nothing to send. -/
  | stop {s : TCPSender} {w : ℕ} :
      (w = 0 ∨ s.setFin = true ∨ s.nextSeqno ≠ 0 ∧ s.stream.que = [] ∧ s.stream.inputEnded = false) →
        Fills s w s
  /-- The next segment is sent. -/
  | send {s s' : TCPSender} {w : ℕ} : 0 < w → s.setFin = false →
      0 < (s.nextSegment w).1.lengthInSequenceSpace →
        Fills ((s.advance w).transmit (s.nextSegment w).1)
          (w - (s.nextSegment w).1.lengthInSequenceSpace) s' → Fills s w s'

/-- **The code follows the relation.** -/
theorem fillLoop_fills (s : TCPSender) (w : ℕ) : Fills s w (s.fillLoop w) := by
  fun_induction fillLoop s w with
  | case1 s w h hlen ih => exact .send h.1 h.2 hlen ih
  | case2 s w h hlen =>
    have hzero : (s.nextSegment w).1.lengthInSequenceSpace = 0 := by omega
    rw [s.advance_of_empty w hzero]
    exact .stop (Or.inr (Or.inr (s.idle_of_nextSegment_empty w h.1 hzero)))
  | case3 s w h =>
    rw [not_and, Bool.not_eq_false] at h
    rcases Nat.eq_zero_or_pos w with hw | hw
    · exact .stop (Or.inl hw)
    · exact .stop (Or.inr (Or.inl (h hw)))

theorem usableWindow_eq_max (s : TCPSender) : s.usableWindow = max s.windowSz 1 := by
  unfold usableWindow
  split_ifs <;> omega

/-- The part of the window that is still free. -/
def freeWindow (s : TCPSender) : ℕ := s.ackno + s.usableWindow - s.nextSeqno

theorem fillWindow_fills (s : TCPSender) : Fills s s.freeWindow s.fillWindow := by
  unfold fillWindow freeWindow
  split_ifs with hfin hfull
  · exact .stop (Or.inr (Or.inl hfin))
  · exact .stop (Or.inl (by omega))
  · exact s.fillLoop_fills _

/-- What sending does not touch. -/
theorem Fills.frame {s s' : TCPSender} {w : ℕ} (h : Fills s w s') :
    s'.isn = s.isn ∧ s'.ackno = s.ackno ∧ s'.windowSz = s.windowSz ∧
      s'.stream.inputEnded = s.stream.inputEnded ∧ s'.stream.bytesWritten = s.stream.bytesWritten ∧
        s'.stream.error = s.stream.error := by
  induction h with
  | stop => exact ⟨rfl, rfl, rfl, rfl, rfl, rfl⟩
  | send _ _ _ _ ih => exact ih

/-- The segments queued and kept afterwards were there before, or have been made by this, with
the rest of the window. -/
theorem Fills.made {s s' : TCPSender} {w : ℕ} (h : Fills s w s') {seg : TCPSegment}
    (hseg : seg ∈ s'.segmentsOut ∨ seg ∈ s'.waitAck) :
    (seg ∈ s.segmentsOut ∨ seg ∈ s.waitAck) ∨ ∃ s₁ w₁, seg = (nextSegment s₁ w₁).1 ∧ s₁.isn = s.isn ∧
      0 < w₁ ∧ s₁.nextSeqno + w₁ = s.nextSeqno + w := by
  induction h with
  | stop => exact Or.inl hseg
  | @send s s' w hw _ _ _ ih =>
    have hle := s.nextSegment_length_le w hw
    rcases ih hseg with hold | ⟨s₁, w₁, hmade, hisn, hpos, hsum⟩
    · simp only [transmit, advance, List.mem_append, List.mem_singleton] at hold
      rcases hold with (hold | rfl) | (hold | rfl)
      · exact Or.inl (Or.inl hold)
      · exact Or.inr ⟨s, w, rfl, rfl, hw, rfl⟩
      · exact Or.inl (Or.inr hold)
      · exact Or.inr ⟨s, w, rfl, rfl, hw, rfl⟩
    · refine Or.inr ⟨s₁, w₁, hmade, hisn, hpos, ?_⟩
      simp only [transmit, advance] at hsum
      omega

theorem Fills.nextSeqno_le_add {s s' : TCPSender} {w : ℕ} (h : Fills s w s') :
    s'.nextSeqno ≤ s.nextSeqno + w := by
  induction h with
  | stop => exact Nat.le_add_right _ _
  | @send s s' w hw _ _ _ ih =>
    have hle := s.nextSegment_length_le w hw
    simp only [transmit, advance] at ih
    omega

/-- Once the FIN has been sent, it has been sent. -/
theorem Fills.setFin_of {s s' : TCPSender} {w : ℕ} (h : Fills s w s') (hfin : s.setFin = true) :
    s'.setFin = true := by
  cases h with
  | stop => exact hfin
  | send _ hnot => exact absurd hfin (by simp [hnot])

theorem Fills.nextSeqno_le {s s' : TCPSender} {w : ℕ} (h : Fills s w s') :
    s.nextSeqno ≤ s'.nextSeqno := by
  induction h with
  | stop => exact le_rfl
  | send _ _ _ _ ih => exact (Nat.le_add_right _ _).trans ih

theorem Fills.nextSeqno_ne_zero {s s' : TCPSender} {w : ℕ} (h : Fills s w s') (hw : w ≠ 0)
    (hfin : s.nextSeqno = 0 → s.setFin = false) : s'.nextSeqno ≠ 0 := by
  cases h with
  | stop hstop =>
    rcases hstop with h0 | hset | ⟨hn, -⟩
    · exact absurd h0 hw
    · exact fun hn => absurd (hfin hn) (by simp [hset])
    · exact hn
  | send _ _ hlen hrest =>
    have := hrest.nextSeqno_le
    simp only [transmit, advance] at this
    omega

/-- After `fill_window` the SYN has been sent. -/
theorem fillWindow_nextSeqno_ne_zero {s : TCPSender} (hfin : s.nextSeqno = 0 → s.setFin = false) :
    s.fillWindow.nextSeqno ≠ 0 := by
  by_cases h0 : s.nextSeqno = 0
  · refine s.fillWindow_fills.nextSeqno_ne_zero ?_ hfin
    unfold freeWindow usableWindow
    split_ifs <;> omega
  · have := s.fillWindow_fills.nextSeqno_le
    omega

theorem Fills.flightBytes_le {s s' : TCPSender} {w : ℕ} (h : Fills s w s') :
    s.flightBytes ≤ s'.flightBytes := by
  induction h with
  | stop => exact le_rfl
  | send _ _ _ _ ih => exact (Nat.le_add_right _ _).trans ih

/-- Either something is sent, or nothing changes. -/
theorem Fills.eq_or_flight {s s' : TCPSender} {w : ℕ} (h : Fills s w s') :
    (s' = s ∧ (w = 0 ∨ s.setFin = true ∨
      s.nextSeqno ≠ 0 ∧ s.stream.que = [] ∧ s.stream.inputEnded = false)) ∨ 0 < s'.flightBytes := by
  cases h with
  | stop h => exact Or.inl ⟨rfl, h⟩
  | send _ _ hlen h => exact Or.inr (lt_of_lt_of_le (Nat.add_pos_right _ hlen) h.flightBytes_le)

/-- If all of the stream has been sent but its FIN has not, it has filled the window exactly. -/
theorem Fills.bufferSize_of_blocked {s s' : TCPSender} {w : ℕ} (h : Fills s w s') (hn : s.nextSeqno ≠ 0)
    (heof : s'.stream.eof = true) (hfin : s'.setFin = false) : s.stream.bufferSize = w := by
  induction h with
  | stop hstop =>
    obtain ⟨hend, hque⟩ := (ByteStream.eof_iff _).mp heof
    rcases hstop with h0 | hset | ⟨-, -, hopen⟩
    · rw [ByteStream.bufferSize, hque, List.length_nil, h0]
    · exact absurd hset (by simp [hfin])
    · exact absurd hend (by simp [hopen])
  | @send s s' w hw hfin₀ hlen hrest ih =>
    have hle := s.nextSegment_length_le w hw
    have hlength := s.nextSegment_length w
    have hpayload := s.nextSegment_payload_length w
    have hque := congrArg List.length (s.nextSegment_que w)
    -- the segment does not carry the FIN
    have hnofin : (s.nextSegment w).1.header.fin = false := Bool.eq_false_iff.mpr fun hset => by
      have := hrest.setFin_of (by simp only [transmit, advance, hset, Bool.or_true])
      simp [hfin] at this
    have hrest' := ih (by simp only [transmit, advance]; omega) heof hfin
    simp only [transmit, advance, ByteStream.bufferSize] at hrest' ⊢
    rw [hnofin, if_neg hn] at hlength
    rw [ByteStream.bufferSize] at hpayload
    rw [List.length_drop] at hque
    simp only [Bool.false_eq_true, if_false] at hlength
    omega

/-! ### The segments kept for retransmission -/

/-- The oldest position that has not been acknowledged. -/
def base (s : TCPSender) : ℕ := s.nextSeqno - s.flightBytes

/-- Sending does not touch the oldest position that has not been acknowledged. -/
theorem Fills.base_eq {s s' : TCPSender} {w : ℕ} (h : Fills s w s') :
    s'.base = s.base := by
  induction h with
  | stop => rfl
  | send _ _ _ _ ih => exact ih.trans (Nat.add_sub_add_right _ _ _)

theorem Fills.waitAck_subset {s s' : TCPSender} {w : ℕ} (h : Fills s w s') {seg : TCPSegment}
    (hseg : seg ∈ s.waitAck) : seg ∈ s'.waitAck := by
  induction h with
  | stop => exact hseg
  | send _ _ _ _ ih => exact ih (List.mem_append_left _ hseg)

/-- A segment, not a reset, that occupies sequence numbers from `x` on. -/
structure StartsAt (isn : WrappingInt32) (x : ℕ) (seg : TCPSegment) : Prop where
  /-- Its sequence number is that of the position. -/
  seqno : seg.header.seqno = wrap x isn
  /-- It occupies at least one sequence number. -/
  pos : 0 < seg.lengthInSequenceSpace
  /-- It is not a reset. -/
  rst : seg.header.rst = false

/-- The segments kept for retransmission cover the positions sent and not acknowledged. -/
structure Outstanding (s : TCPSender) : Prop where
  /-- What is in flight has been sent. -/
  le : s.flightBytes ≤ s.nextSeqno
  /-- The segments are kept in order and without gaps. -/
  tiles : Tiles TCPSegment.lengthInSequenceSpace (StartsAt s.isn) s.base s.waitAck s.nextSeqno

theorem outstanding_make (capacity : ℕ) (retxTimeout : UInt16) (fixedIsn : Option WrappingInt32)
    (random : WrappingInt32) : Outstanding (make capacity retxTimeout fixedIsn random) := ⟨le_rfl, rfl⟩

theorem Outstanding.send {s : TCPSender} (h : Outstanding s) {w : ℕ}
    (hlen : 0 < (s.nextSegment w).1.lengthInSequenceSpace) :
    Outstanding ((s.advance w).transmit (s.nextSegment w).1) := by
  have hle := h.le
  refine ⟨by simp only [transmit, advance]; omega, ?_⟩
  have hbase : ((s.advance w).transmit (s.nextSegment w).1).base = s.base := by
    simp only [base, transmit, advance]
    omega
  rw [hbase]
  exact h.tiles.concat ⟨s.nextSegment_seqno w, hlen, rfl⟩

theorem Outstanding.fills {s s' : TCPSender} {w : ℕ} (h : Outstanding s) (hf : Fills s w s') :
    Outstanding s' := by
  induction hf with
  | stop => exact h
  | send _ _ hlen _ ih => exact ih (h.send hlen)

/-- **What an acknowledgment of position `a` removes**: some of the oldest segments, none of which
reaches beyond `a`. -/
theorem popAcked_spec {isn : WrappingInt32} {a base next flight : ℕ} {l : List TCPSegment}
    (h : Tiles TCPSegment.lengthInSequenceSpace (StartsAt isn) base l next) (hf : base + flight = next) :
    ∃ popped base', l = popped ++ (popAcked isn a next flight l).2.2 ∧
      Tiles TCPSegment.lengthInSequenceSpace (StartsAt isn) base popped base' ∧
      Tiles TCPSegment.lengthInSequenceSpace (StartsAt isn) base' (popAcked isn a next flight l).2.2 next ∧
      base' + (popAcked isn a next flight l).2.1 = next ∧ (popped = [] ∨ base' ≤ a) := by
  induction l generalizing base flight with
  | nil => exact ⟨[], base, rfl, rfl, h, hf, Or.inl rfl⟩
  | cons seg l ih =>
    have hle := h.2.le
    simp only [popAcked]
    split_ifs with hack
    · -- the position of the segment is not taken for an earlier one
      have hpos : base ≤ unwrap seg.header.seqno isn next := by
        rw [h.1.seqno]
        exact le_unwrap_wrap isn (by omega)
      have hsub := sub64_of_le (by omega : seg.lengthInSequenceSpace ≤ flight)
      rw [hsub]
      obtain ⟨popped, base', hl, hp, ht, hb, ha⟩ := ih h.2 (by omega :
        base + seg.lengthInSequenceSpace + (flight - seg.lengthInSequenceSpace) = next)
      refine ⟨seg :: popped, base', by rw [List.cons_append, ← hl], ⟨h.1, hp⟩, ht, hb, Or.inr ?_⟩
      rcases ha with rfl | ha
      · have := tiles_nil.mp hp
        omega
      · exact ha
    · exact ⟨[], base, rfl, rfl, h, hf, Or.inl rfl⟩

section AckReceived

variable (s : TCPSender) (n : WrappingInt32) (w : UInt16)

@[simp] theorem ackReceived_isn : (s.ackReceived n w).isn = s.isn := by
  simp only [ackReceived]
  split_ifs <;> rfl

@[simp] theorem ackReceived_stream : (s.ackReceived n w).stream = s.stream := by
  simp only [ackReceived]
  split_ifs <;> rfl

@[simp] theorem ackReceived_nextSeqno : (s.ackReceived n w).nextSeqno = s.nextSeqno := by
  simp only [ackReceived]
  split_ifs <;> rfl

@[simp] theorem ackReceived_setFin : (s.ackReceived n w).setFin = s.setFin := by
  simp only [ackReceived]
  split_ifs <;> rfl

@[simp] theorem ackReceived_segmentsOut : (s.ackReceived n w).segmentsOut = s.segmentsOut := by
  simp only [ackReceived]
  split_ifs <;> rfl

@[simp] theorem ackReceived_ackno : (s.ackReceived n w).ackno = unwrap n s.isn s.nextSeqno := by
  simp only [ackReceived]
  split_ifs <;> rfl

variable {s n}

theorem ackReceived_windowSz (h : unwrap n s.isn s.nextSeqno ≤ s.nextSeqno) :
    (s.ackReceived n w).windowSz = w.toNat := by
  simp only [ackReceived, gt_iff_lt, not_lt.mpr h, if_false]
  split_ifs <;> rfl

/-- What is left in flight after an acknowledgment that is not beyond what has been sent. -/
theorem ackReceived_popAcked (h : unwrap n s.isn s.nextSeqno ≤ s.nextSeqno) :
    ((s.ackReceived n w).flightBytes, (s.ackReceived n w).waitAck) =
      (popAcked s.isn (unwrap n s.isn s.nextSeqno) s.nextSeqno s.flightBytes s.waitAck).2 := by
  simp only [ackReceived, gt_iff_lt, not_lt.mpr h, if_false]
  split_ifs <;> rfl

/-- What is kept after an acknowledgment was kept before. -/
theorem popAcked_suffix (isn : WrappingInt32) (a c flight : ℕ) (l : List TCPSegment) :
    (popAcked isn a c flight l).2.2 <:+ l := by
  induction l generalizing flight with
  | nil => exact List.suffix_refl _
  | cons seg l ih =>
    simp only [popAcked]
    split_ifs
    · exact (ih _).trans (List.suffix_cons _ _)
    · exact List.suffix_refl _

variable (s n) in
theorem ackReceived_waitAck_suffix : (s.ackReceived n w).waitAck <:+ s.waitAck := by
  simp only [ackReceived]
  split_ifs
  · exact List.suffix_refl _
  all_goals exact popAcked_suffix _ _ _ _ _

/-- An acknowledgment beyond what has been sent changes nothing but the recorded position. -/
theorem ackReceived_of_gt (h : s.nextSeqno < unwrap n s.isn s.nextSeqno) :
    s.ackReceived n w = { s with ackno := unwrap n s.isn s.nextSeqno } := by
  simp only [ackReceived, gt_iff_lt, h, if_true]

/-- The free part of the window after an acknowledgment. -/
theorem ackReceived_freeWindow : (s.ackReceived n w).freeWindow =
    unwrap n s.isn s.nextSeqno +
      max (if unwrap n s.isn s.nextSeqno ≤ s.nextSeqno then w.toNat else s.windowSz) 1 - s.nextSeqno := by
  rw [freeWindow, usableWindow_eq_max, ackReceived_ackno, ackReceived_nextSeqno]
  split_ifs with h
  · rw [ackReceived_windowSz w h]
  · rw [ackReceived_of_gt w (not_le.mp h)]

/-- An acknowledgment removes some of the oldest segments, none of which reaches beyond it. -/
theorem Outstanding.acked (hs : Outstanding s) (h : unwrap n s.isn s.nextSeqno ≤ s.nextSeqno) :
    Outstanding (s.ackReceived n w) ∧ ∃ popped, s.waitAck = popped ++ (s.ackReceived n w).waitAck ∧
      Tiles TCPSegment.lengthInSequenceSpace (StartsAt s.isn) s.base popped (s.ackReceived n w).base ∧
        (popped = [] ∨ (s.ackReceived n w).base ≤ unwrap n s.isn s.nextSeqno) := by
  have hle := hs.le
  have hb : s.base + s.flightBytes = s.nextSeqno := by
    unfold base
    omega
  obtain ⟨popped, base', hl, hp, ht, hb', ha⟩ :=
    popAcked_spec (a := unwrap n s.isn s.nextSeqno) hs.tiles hb
  rw [← ackReceived_popAcked w h] at hl ht hb'
  have hbase : (s.ackReceived n w).base = base' := by
    simp only [base, ackReceived_nextSeqno]
    omega
  rw [← hbase] at hp ht ha
  refine ⟨⟨?_, ?_⟩, popped, hl, hp, ha⟩
  · rw [ackReceived_nextSeqno]
    omega
  · rwa [ackReceived_isn, ackReceived_nextSeqno]

theorem Outstanding.ackReceived (hs : Outstanding s) : Outstanding (s.ackReceived n w) := by
  rcases Nat.lt_or_ge s.nextSeqno (unwrap n s.isn s.nextSeqno) with h | h
  · rw [ackReceived_of_gt w h]
    exact ⟨hs.le, hs.tiles⟩
  · exact (hs.acked w h).1

end AckReceived

section Tick

variable (s : TCPSender) (ms : ℕ)

/-- What a tick can change: the timer, and the oldest segment may be sent again. -/
theorem tick_eq : ∃ timer num, ∃ again : List TCPSegment, again.Sublist s.waitAck ∧
    s.tick ms = { s with
      timer := timer
      consecutiveTransmitNum := num
      segmentsOut := s.segmentsOut ++ again } := by
  simp only [tick]
  split_ifs
  · exact ⟨_, _, _, List.take_sublist 1 _, rfl⟩
  · exact ⟨_, _, [], List.nil_sublist _, by rw [List.append_nil]⟩

end Tick

end TCPSender

end Sponge
