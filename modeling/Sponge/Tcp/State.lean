import Sponge.Tcp.Connection

/-!
# The official states

A `TCPConnection` has no state machine of its own. `TCPState` summarises it, from the
sender, the receiver and the connection's two flags, so that it can be compared with the
states that the TCP specification names.

## The model

A summary is an enumeration with its text; the code stores and compares the texts.
`TCPState.eq` is `operator==`. `name()`, which only prints a state, is left out.

## What is proved

* `TCPState.eq_iff` — no two summaries have the same text, so `operator==` is equality.
-/

namespace Sponge

/-- `TCPReceiverStateSummary`. -/
inductive ReceiverSummary where
  | error
  | listen
  | synRecv
  | finRecv
  deriving DecidableEq

/-- `TCPSenderStateSummary`. -/
inductive SenderSummary where
  | error
  | closed
  | synSent
  | synAcked
  | finSent
  | finAcked
  deriving DecidableEq

/-- The text of a receiver's summary. -/
def ReceiverSummary.text : ReceiverSummary → String
  | error => "error (connection was reset)"
  | listen => "waiting for SYN: ackno is empty"
  | synRecv => "SYN received (ackno exists), and input to stream hasn't ended"
  | finRecv => "input to stream has ended"

/-- The text of a sender's summary. -/
def SenderSummary.text : SenderSummary → String
  | error => "error (connection was reset)"
  | closed => "waiting for stream to begin (no SYN sent)"
  | synSent => "stream started but nothing acknowledged"
  | synAcked => "stream ongoing"
  | finSent => "stream finished (FIN sent) but not fully acknowledged"
  | finAcked => "stream finished and fully acknowledged"

theorem ReceiverSummary.text_injective : Function.Injective text := by
  intro a b h
  cases a <;> cases b <;> simp [text] at h ⊢

theorem SenderSummary.text_injective : Function.Injective text := by
  intro a b h
  cases a <;> cases b <;> simp [text] at h ⊢

/-- `state_summary` of a receiver. -/
def TCPReceiver.stateSummary (receiver : TCPReceiver) : ReceiverSummary :=
  if receiver.streamOut.error then .error
  else if ¬ receiver.ackno.isSome then .listen
  else if receiver.streamOut.inputEnded then .finRecv
  else .synRecv

/-- `state_summary` of a sender. -/
def TCPSender.stateSummary (sender : TCPSender) : SenderSummary :=
  if sender.streamIn.error then .error
  else if sender.nextSeqnoAbsolute = 0 then .closed
  else if sender.nextSeqnoAbsolute = sender.bytesInFlight then .synSent
  else if ¬ sender.streamIn.eof then .synAcked
  else if sender.nextSeqnoAbsolute < sender.streamIn.bytesWritten + 2 then .synAcked
  else if sender.bytesInFlight ≠ 0 then .finSent
  else .finAcked

/-- `TCPState`. -/
structure TCPState where
  /-- The sender. -/
  sender : SenderSummary
  /-- The receiver. -/
  receiver : ReceiverSummary
  /-- The connection is alive. -/
  active : Bool := true
  /-- The connection will linger. -/
  lingerAfterStreamsFinish : Bool := true
  deriving DecidableEq

/-- `TCPState::State`, the official names. -/
inductive State where
  /-- Listening for a peer to connect. -/
  | listen
  /-- Got the peer's SYN. -/
  | synRcvd
  /-- Sent a SYN to initiate a connection. -/
  | synSent
  /-- Three-way handshake complete. -/
  | established
  /-- Remote side has sent a FIN, connection is half-open. -/
  | closeWait
  /-- Local side sent a FIN from `closeWait`, waiting for ACK. -/
  | lastAck
  /-- Sent a FIN to the remote side, not yet ACK'd. -/
  | finWait1
  /-- Received an ACK for previously-sent FIN. -/
  | finWait2
  /-- Received a FIN just after we sent one. -/
  | closing
  /-- Both sides have sent FIN and ACK'd, waiting for 2 MSL. -/
  | timeWait
  /-- A connection that has terminated normally. -/
  | closed
  /-- A connection that terminated abnormally. -/
  | reset
  deriving DecidableEq

namespace TCPState

/-- `operator==`. -/
def eq (s other : TCPState) : Bool :=
  s.active == other.active && s.lingerAfterStreamsFinish == other.lingerAfterStreamsFinish &&
    s.sender.text == other.sender.text && s.receiver.text == other.receiver.text

/-- The state with an official name. -/
def ofState : State → TCPState
  | .listen => { receiver := .listen, sender := .closed }
  | .synRcvd => { receiver := .synRecv, sender := .synSent }
  | .synSent => { receiver := .listen, sender := .synSent }
  | .established => { receiver := .synRecv, sender := .synAcked }
  | .closeWait => { receiver := .finRecv, sender := .synAcked, lingerAfterStreamsFinish := false }
  | .lastAck => { receiver := .finRecv, sender := .finSent, lingerAfterStreamsFinish := false }
  | .closing => { receiver := .finRecv, sender := .finSent }
  | .finWait1 => { receiver := .synRecv, sender := .finSent }
  | .finWait2 => { receiver := .synRecv, sender := .finAcked }
  | .timeWait => { receiver := .finRecv, sender := .finAcked }
  | .reset => { receiver := .error, sender := .error, lingerAfterStreamsFinish := false, active := false }
  | .closed =>
    { receiver := .finRecv, sender := .finAcked, lingerAfterStreamsFinish := false, active := false }

/-- The state of a sender, a receiver and the connection's flags. -/
def of (sender : TCPSender) (receiver : TCPReceiver) (active linger : Bool) : TCPState where
  sender := sender.stateSummary
  receiver := receiver.stateSummary
  active := active
  lingerAfterStreamsFinish := if active then linger else false

/-- No two summaries have the same text. -/
theorem eq_iff (s other : TCPState) : s.eq other = true ↔ s = other := by
  cases s
  cases other
  simp only [eq, Bool.and_eq_true, beq_iff_eq, SenderSummary.text_injective.eq_iff,
    ReceiverSummary.text_injective.eq_iff, TCPState.mk.injEq]
  tauto

/-- The state is one of the official ones. -/
def Official (s : TCPState) : Prop := ∃ state : State, s.eq (ofState state) = true

end TCPState

/-- `state`. -/
def TCPConnection.state (c : TCPConnection) : TCPState :=
  .of c.sender c.receiver c.active c.lingerAfterStreamsFinish

end Sponge
