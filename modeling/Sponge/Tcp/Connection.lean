import Sponge.Tcp.Receiver
import Sponge.Tcp.Sender

/-!
# The connection

`TCPConnection` joins a sender and a receiver into an endpoint: a segment that arrives
goes to the receiver and, as an acknowledgment, to the sender; a segment that leaves the
sender is stamped with what the receiver is waiting for.

## The model

Each operation is written as the code's steps in the code's order, and the steps that
have a purpose of their own have a name: `deliver` hands a segment to both parts,
`reply` makes sure that a segment is answered, `sendSegments` stamps what the sender
has queued, `clearLinger` and `tryCleanClose` decide about lingering and closing. The
destructor, which resets a connection that is still open, is modelled with the other
calls of a user (`Tcp.Calls`).
-/

namespace Sponge

/-- `TCPConfig::MAX_RETX_ATTEMPTS`. -/
def maxRetxAttempts : ℕ := 8

/-- `TCPConfig::DEFAULT_CAPACITY`. -/
def defaultCapacity : ℕ := 64000

/-- `TCPConfig::TIMEOUT_DFLT`. -/
def timeoutDflt : UInt16 := 1000

/-- The configuration of a connection. -/
structure TCPConfig where
  /-- Initial value of the retransmission timeout, in milliseconds. -/
  rtTimeout : UInt16 := timeoutDflt
  /-- Receive capacity, in bytes. -/
  recvCapacity : ℕ := defaultCapacity
  /-- Sender capacity, in bytes. -/
  sendCapacity : ℕ := defaultCapacity
  /-- The initial sequence number, if it is not random. -/
  fixedIsn : Option WrappingInt32 := none
  deriving DecidableEq

/-- `set_error` of the inbound stream. -/
def TCPReceiver.setError (r : TCPReceiver) : TCPReceiver :=
  { r with reassembler := { r.reassembler with output := r.reassembler.output.setError } }

/-- `set_error` of the outbound stream. -/
def TCPSender.setError (s : TCPSender) : TCPSender := { s with stream := s.stream.setError }

/-- An endpoint of a connection. -/
structure TCPConnection where
  /-- The configuration. -/
  cfg : TCPConfig
  /-- The receiving part. -/
  receiver : TCPReceiver
  /-- The sending part. -/
  sender : TCPSender
  /-- The segments the connection wants sent. -/
  segmentsOut : List TCPSegment
  /-- Stay active for a while after both streams have ended. -/
  lingerAfterStreamsFinish : Bool
  /-- The connection is alive. -/
  active : Bool
  /-- The time since the last segment was received. -/
  waitSegmentTime : ℕ
  deriving DecidableEq

/-- Where the window ends after a segment: the acknowledgment, if there is one, may move it. -/
def windowEnd (s : TCPSender) (seg : TCPSegment) : ℕ :=
  if seg.header.ack then
    unwrap seg.header.ackno s.isn s.nextSeqno +
      max (if unwrap seg.header.ackno s.isn s.nextSeqno ≤ s.nextSeqno then seg.header.win.toNat
        else s.windowSz) 1
  else s.ackno + max s.windowSz 1

namespace TCPConnection

/-- A new connection; `random` is the initial sequence number if none is configured. -/
def make (cfg : TCPConfig) (random : WrappingInt32) : TCPConnection where
  cfg := cfg
  receiver := TCPReceiver.make cfg.recvCapacity
  sender := TCPSender.make cfg.sendCapacity cfg.rtTimeout cfg.fixedIsn random
  segmentsOut := []
  lingerAfterStreamsFinish := true
  active := true
  waitSegmentTime := 0

/-- `inbound_stream`. -/
def inboundStream (c : TCPConnection) : ByteStream := c.receiver.streamOut

/-- `remaining_outbound_capacity`. -/
def remainingOutboundCapacity (c : TCPConnection) : ℕ := c.sender.streamIn.remainingCapacity

/-- `bytes_in_flight`. -/
def bytesInFlight (c : TCPConnection) : ℕ := c.sender.bytesInFlight

/-- `unassembled_bytes`. -/
def unassembledBytes (c : TCPConnection) : ℕ := c.receiver.unassembledBytes

/-- The segment with the receiver's acknowledgment number and window, if it has one. -/
def stamp (r : TCPReceiver) (seg : TCPSegment) : TCPSegment :=
  match r.ackno with
  | some ackno => { seg with header := { seg.header with
      ack := true
      ackno := ackno
      win := UInt16.ofNat r.windowSize } }
  | none => seg

/-- `send_segments`: all that the sender has queued is stamped and queued for the network. -/
def sendSegments (c : TCPConnection) : TCPConnection :=
  { c with
    segmentsOut := c.segmentsOut ++ c.sender.segmentsOut.map (stamp c.receiver)
    sender := { c.sender with segmentsOut := [] } }

/-- `send_rst_seg`. -/
def sendRstSeg (c : TCPConnection) : TCPConnection :=
  { c with
    segmentsOut := c.segmentsOut ++
      [stamp c.receiver { header := { rst := true, seqno := c.sender.nextSeqnoWrapped } }] }

/-- The condition under which `try_clean_close` closes. -/
def canClose (c : TCPConnection) : Bool :=
  c.sender.streamIn.eof && c.receiver.streamOut.inputEnded && c.bytesInFlight == 0 &&
    c.sender.nextSeqnoAbsolute == c.sender.streamIn.bytesWritten + 2 &&
      (decide (c.waitSegmentTime ≥ 10 * c.cfg.rtTimeout.toNat) || !c.lingerAfterStreamsFinish)

/-- `try_clean_close`. -/
def tryCleanClose (c : TCPConnection) : TCPConnection :=
  if c.canClose then { c with active := false } else c

/-- `fill_window` of the sender. -/
def fillWindow (c : TCPConnection) : TCPConnection := { c with sender := c.sender.fillWindow }

/-- A segment goes to the receiver and, if it acknowledges and the peer's SYN has arrived, to the
sender. -/
def deliver (c : TCPConnection) (seg : TCPSegment) : TCPConnection :=
  let c := { c with receiver := c.receiver.segmentReceived seg }
  if c.receiver.ackno.isSome && seg.header.ack then
    { c with sender := c.sender.ackReceived seg.header.ackno seg.header.win }
  else c

/-- A segment that occupies sequence numbers is answered, by an empty segment if the sender has
queued nothing. -/
def reply (c : TCPConnection) (seg : TCPSegment) : TCPConnection :=
  if seg.lengthInSequenceSpace ≠ 0 ∧ c.sender.segmentsOut = [] then
    { c with sender := c.sender.sendEmptySegment }
  else c

/-- If the inbound stream ends before the outbound one has been sent, there is no need to
linger. -/
def clearLinger (c : TCPConnection) : TCPConnection :=
  if !c.sender.streamIn.eof && c.receiver.streamOut.inputEnded then
    { c with lingerAfterStreamsFinish := false }
  else c

/-- Both streams suffer an error and the connection is dead. -/
def fail (c : TCPConnection) : TCPConnection :=
  { c with active := false, receiver := c.receiver.setError, sender := c.sender.setError }

/-! ### The operations -/

/-- `segment_received`. -/
def segmentReceived (c : TCPConnection) (seg : TCPSegment) : TCPConnection :=
  let c := { c with waitSegmentTime := 0 }
  if seg.header.rst then c.fail
  else
    let c := c.deliver seg
    if c.receiver.ackno.isSome then
      ((c.fillWindow.reply seg).sendSegments.clearLinger).tryCleanClose
    else c.tryCleanClose

/-- `write`: how many bytes have been accepted, and the connection. -/
def write (c : TCPConnection) (data : Bytes) : ℕ × TCPConnection :=
  let w := c.sender.stream.write data
  (w.1, { c with sender := { c.sender with stream := w.2 } }.fillWindow.sendSegments.tryCleanClose)

/-- `tick`. -/
def tick (c : TCPConnection) (msSinceLastTick : ℕ) : TCPConnection :=
  let c := { c with sender := c.sender.tick msSinceLastTick }
  if c.sender.consecutiveRetransmissions > maxRetxAttempts then c.sendRstSeg.fail
  else
    { c with waitSegmentTime := (c.waitSegmentTime + msSinceLastTick) % 2 ^ 64 }.sendSegments.tryCleanClose

/-- `end_input_stream`. -/
def endInputStream (c : TCPConnection) : TCPConnection :=
  { c with sender := { c.sender with stream := c.sender.stream.endInput } }.fillWindow.sendSegments

/-- `connect`. -/
def connect (c : TCPConnection) : TCPConnection := c.fillWindow.sendSegments

/-- The application reads from the inbound stream. -/
def readInbound (c : TCPConnection) (len : ℕ) : Bytes × TCPConnection :=
  ((c.inboundStream.read len).1, { c with receiver := c.receiver.readOut len })

/-! ### What the steps do -/

section Stamp

variable (r : TCPReceiver) (seg : TCPSegment)

@[simp] theorem stamp_rst : (stamp r seg).header.rst = seg.header.rst := by
  unfold stamp
  split <;> rfl

@[simp] theorem stamp_seqno : (stamp r seg).header.seqno = seg.header.seqno := by
  unfold stamp
  split <;> rfl

@[simp] theorem stamp_syn : (stamp r seg).header.syn = seg.header.syn := by
  unfold stamp
  split <;> rfl

@[simp] theorem stamp_fin : (stamp r seg).header.fin = seg.header.fin := by
  unfold stamp
  split <;> rfl

@[simp] theorem stamp_payload : (stamp r seg).payload = seg.payload := by
  unfold stamp
  split <;> rfl

/-- After the peer's SYN every segment acknowledges the position of the receiver, with its window. -/
theorem stamp_of_setIsn (h : r.setIsn = true) : (stamp r seg).header.ack = true ∧
    (stamp r seg).header.ackno = wrap r.position r.isn ∧
      (stamp r seg).header.win = UInt16.ofNat r.windowSize := by
  simp only [stamp, TCPReceiver.ackno_eq, h, if_true, and_self]

theorem stamp_of_not_setIsn (h : r.setIsn = false) : stamp r seg = seg := by
  simp only [stamp, TCPReceiver.ackno_eq, h, Bool.false_eq_true, if_false]

end Stamp

section Deliver

variable (c : TCPConnection) (seg : TCPSegment)

@[simp] theorem deliver_receiver : (c.deliver seg).receiver = c.receiver.segmentReceived seg := by
  simp only [deliver]
  split_ifs <;> rfl

@[simp] theorem deliver_segmentsOut : (c.deliver seg).segmentsOut = c.segmentsOut := by
  simp only [deliver]
  split_ifs <;> rfl

@[simp] theorem deliver_active : (c.deliver seg).active = c.active := by
  simp only [deliver]
  split_ifs <;> rfl

@[simp] theorem deliver_lingerAfterStreamsFinish :
    (c.deliver seg).lingerAfterStreamsFinish = c.lingerAfterStreamsFinish := by
  simp only [deliver]
  split_ifs <;> rfl

/-- The sender sees a segment only if it acknowledges something and the peer's SYN has arrived. -/
theorem deliver_sender :
    ((c.receiver.segmentReceived seg).setIsn = true ∧ seg.header.ack = true ∧
      (c.deliver seg).sender = c.sender.ackReceived seg.header.ackno seg.header.win) ∨
    (((c.receiver.segmentReceived seg).setIsn = true → seg.header.ack = false) ∧
      (c.deliver seg).sender = c.sender) := by
  have hsome : (c.receiver.segmentReceived seg).ackno.isSome = (c.receiver.segmentReceived seg).setIsn := by
    rw [TCPReceiver.ackno_eq]
    split <;> simp_all
  simp only [deliver, hsome]
  split_ifs with h
  · rw [Bool.and_eq_true] at h
    exact Or.inl ⟨h.1, h.2, rfl⟩
  · refine Or.inr ⟨fun hset => ?_, rfl⟩
    simpa [hset] using h

theorem deliver_sender_segmentsOut :
    (c.deliver seg).sender.segmentsOut = c.sender.segmentsOut := by
  rcases c.deliver_sender seg with ⟨-, -, heq⟩ | ⟨-, heq⟩
  · rw [heq, TCPSender.ackReceived_segmentsOut]
  · rw [heq]

variable {seg} in
/-- The window after a segment has arrived. -/
theorem deliver_freeWindow (hset : (c.receiver.segmentReceived seg).setIsn = true) :
    (c.deliver seg).sender.freeWindow = windowEnd c.sender seg - c.sender.nextSeqno := by
  unfold windowEnd
  rcases c.deliver_sender seg with ⟨-, hack, heq⟩ | ⟨hnot, heq⟩
  · rw [heq, hack, if_pos rfl, TCPSender.ackReceived_freeWindow]
  · rw [heq, hnot hset, TCPSender.freeWindow, TCPSender.usableWindow_eq_max]
    rfl

end Deliver

section Others

variable (c : TCPConnection) (seg : TCPSegment)

/-- The answer to a segment: the window is filled, and segments are queued. -/
theorem answer_eq : ∃ l, ((c.deliver seg).fillWindow.reply seg).sendSegments =
    { c.deliver seg with
      segmentsOut := l
      sender := { (c.deliver seg).sender.fillWindow with segmentsOut := [] } } := by
  unfold reply
  split
  · exact ⟨_, rfl⟩
  · exact ⟨_, rfl⟩

@[simp] theorem clearLinger_sender : c.clearLinger.sender = c.sender := by
  unfold clearLinger
  split <;> rfl

@[simp] theorem clearLinger_receiver : c.clearLinger.receiver = c.receiver := by
  unfold clearLinger
  split <;> rfl

theorem clearLinger_lingerAfterStreamsFinish : c.clearLinger.lingerAfterStreamsFinish =
    (c.lingerAfterStreamsFinish && (c.sender.streamIn.eof || !c.receiver.streamOut.inputEnded)) := by
  unfold clearLinger
  cases c.sender.streamIn.eof <;> cases c.receiver.streamOut.inputEnded <;> simp

@[simp] theorem tryCleanClose_sender : c.tryCleanClose.sender = c.sender := by
  unfold tryCleanClose
  split <;> rfl

@[simp] theorem tryCleanClose_receiver : c.tryCleanClose.receiver = c.receiver := by
  unfold tryCleanClose
  split <;> rfl

@[simp] theorem tryCleanClose_lingerAfterStreamsFinish :
    c.tryCleanClose.lingerAfterStreamsFinish = c.lingerAfterStreamsFinish := by
  unfold tryCleanClose
  split <;> rfl

/-- A connection that can close is closed. -/
theorem tryCleanClose_active_of_canClose (h : c.canClose = true) : c.tryCleanClose.active = false := by
  rw [tryCleanClose, if_pos h]

end Others

end TCPConnection

end Sponge
