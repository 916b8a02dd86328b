import Sponge.Host.Adapters
import Sponge.Host.EventLoop
import Sponge.Network.Moves
import Sponge.Tcp.Calls
import Sponge.Tcp.State

/-!
# The socket

A `TCPSpongeSocket` joins a connection, its owner and the network. The owner reads and writes one
end of a pair of local sockets; an event loop in a thread of its own moves bytes between the other
end and the connection, and segments between the connection and an adapter. Four rules do this.

## The model

The rules are programs on the socket's variables. `Thread.tcpLoop` is a turn of `_tcp_loop`, in one
of the three loops in which the socket may be: that of `connect`, that of `listen_and_accept`, and
that of `_tcp_main`. A `Turn` is what the loop finds when it looks at the clock and at the flag
`_abort`. What only prints is left out, and so are the checks that a socket is not used twice.
-/

namespace Sponge

/-- The variables of a socket that has been initialized. -/
structure TCPSpongeSocket (A : Type) where
  /-- `_tcp`. -/
  tcp : TCPConnection
  /-- `_datagram_adapter`. -/
  adapter : A
  /-- `_inbound_shutdown`: the owner has been told that there is no more. -/
  inboundShutdown : Bool := false
  /-- `_outbound_shutdown`: the owner has said that there is no more. -/
  outboundShutdown : Bool := false
  /-- `_fully_acked`. -/
  fullyAcked : Bool := false

/-- A program of a socket. -/
abbrev SocketProg (A α : Type) := Prog SocketFd (TCPSpongeSocket A) α

namespace TCPSpongeSocket

variable {A K : Type}

/-- The adapter does something. -/
def onAdapter {α : Type} (p : Prog SocketFd A α) : SocketProg A α :=
  inPart TCPSpongeSocket.adapter (fun adapter socket => { socket with adapter }) p

/-- The connection does something. -/
def onTcp (f : TCPConnection → TCPConnection) : SocketProg A Unit :=
  modify fun s => { s with own := { s.own with tcp := f s.own.tcp } }

/-- The owner will write nothing more. -/
def endOutbound : SocketProg A Unit :=
  modify fun s => { s with own := { s.own with tcp := s.own.tcp.endInputStream, outboundShutdown := true } }

/-- The note that all of the outbound stream has been acknowledged. -/
def noteFullyAcked : SocketProg A Unit := do
  let s ← get
  if (s.fds .thread).eof && s.own.tcp.bytesInFlight == 0 && !s.own.fullyAcked then
    modify fun s => { s with own := { s.own with fullyAcked := true } }

/-- Rule 1: read from filtered packet stream and dump into `TCPConnection`. -/
def rule1 [DatagramAdapter A K] : Rule SocketFd (TCPSpongeSocket A) where
  fd := .datagram
  direction := .In
  callback := do
    match ← onAdapter DatagramAdapter.read with
    | some seg => onTcp (·.segmentReceived seg)
    | none => pure ()
    noteFullyAcked
  interest s := s.own.tcp.active

/-- Rule 2: read from pipe into outbound buffer. -/
def rule2 : Rule SocketFd (TCPSpongeSocket A) where
  fd := .thread
  direction := .In
  callback := do
    let data ← FileDescriptor.read .thread (← get).own.tcp.remainingOutboundCapacity
    let (amountWritten, tcp) := (← get).own.tcp.write data
    onTcp fun _ => tcp
    if amountWritten != data.length then
      throw (.exception (.runtimeError "TCPConnection::write() accepted less than advertised length"))
    if ((← get).fds .thread).eof then
      endOutbound
  interest s := s.own.tcp.active && !s.own.outboundShutdown && decide (s.own.tcp.remainingOutboundCapacity > 0)
  cancel := endOutbound

/-- Rule 3: read from inbound buffer into pipe. Only what was actually written is popped. -/
def rule3 : Rule SocketFd (TCPSpongeSocket A) where
  fd := .thread
  direction := .Out
  callback := do
    let inbound := (← get).own.tcp.inboundStream
    let amountToWrite := min 65536 inbound.bufferSize
    let buffer := inbound.peekOutput amountToWrite
    let bytesWritten ← FileDescriptor.write .thread (.ofString buffer) false
    onTcp fun tcp => (tcp.readInbound bytesWritten).2
    let inbound := (← get).own.tcp.inboundStream
    if inbound.eof || inbound.error then
      FileDescriptor.shutdown .thread .wr
      modify fun s => { s with own := { s.own with inboundShutdown := true } }
  interest s :=
    let inbound := s.own.tcp.inboundStream
    !inbound.bufferEmpty || ((inbound.eof || inbound.error) && !s.own.inboundShutdown)

/-- The segment at the front of the queue is sent. -/
def sendFront [DatagramAdapter A K] (seg : TCPSegment) : SocketProg A Unit := do
  onAdapter (DatagramAdapter.write seg)
  onTcp fun tcp => { tcp with segmentsOut := tcp.segmentsOut.tail }

/-- The loop of rule 4: every round takes a segment from the queue. -/
def sendLoop [DatagramAdapter A K] : ℕ → SocketProg A Unit
  | 0 => throw .outOfSteps
  | steps + 1 => do
    match (← get).own.tcp.segmentsOut with
    | [] => return
    | seg :: _ =>
      sendFront seg
      sendLoop steps

/-- Rule 4: read outbound segments from `TCPConnection` and send as datagrams. -/
def rule4 [DatagramAdapter A K] : Rule SocketFd (TCPSpongeSocket A) where
  fd := .datagram
  direction := .Out
  callback := do
    sendLoop ((← get).own.tcp.segmentsOut.length + 1)
  interest s := !s.own.tcp.segmentsOut.isEmpty

/-- The rules that `_initialize_TCP` adds. -/
def rules [DatagramAdapter A K] : List (Rule SocketFd (TCPSpongeSocket A)) := [rule1, rule2, rule3, rule4]

end TCPSpongeSocket

/-! ### The thread -/

/-- What a turn of `_tcp_loop` finds. -/
structure Turn where
  /-- The time, in milliseconds. -/
  now : UInt64 := 0
  /-- `_abort`: the owner wants the thread to end. -/
  abort : Bool := false
  deriving DecidableEq

/-- The loop in which a socket is. -/
inductive Stage where
  /-- That of `connect`. -/
  | connecting
  /-- That of `listen_and_accept`. -/
  | accepting
  /-- That of `_tcp_main`. -/
  | main
  /-- None: `_tcp_main` has ended. -/
  | finished
  deriving DecidableEq

/-- The condition of the loop. -/
def Stage.condition : Stage → TCPConnection → Bool
  | connecting, tcp => tcp.state.eq (.ofState .synSent)
  | accepting, tcp =>
    tcp.state.eq (.ofState .listen) || tcp.state.eq (.ofState .synRcvd) || tcp.state.eq (.ofState .synSent)
  | main, _ => true
  | finished, _ => false

/-- Where a socket is in its code. -/
structure Thread (A : Type) where
  /-- The loop. -/
  stage : Stage
  /-- `base_time`. -/
  baseTime : UInt64
  /-- The rules of the event loop. -/
  rules : List (Rule SocketFd (TCPSpongeSocket A))

/-- `name`. -/
def TCPState.name (s : TCPState) : String :=
  "sender=`" ++ s.sender.text ++ "`, receiver=`" ++ s.receiver.text ++ "`, active=" ++ toString s.active.toNat ++
    ", linger_after_streams_finish=" ++ toString s.lingerAfterStreamsFinish.toNat

namespace TCPSpongeSocket

variable {A K : Type} [DatagramAdapter A K]

/-- `_initialize_TCP`. -/
def initializeTCP (config : TCPConfig) (random : WrappingInt32) : SocketProg A Unit :=
  onTcp fun _ => TCPConnection.make config random

/-- `connect`, up to its loop. -/
def connect (cTcp : TCPConfig) (random : WrappingInt32) (cAd : K) (now : UInt64) : SocketProg A (Thread A) := do
  initializeTCP cTcp random
  modify fun s => { s with own := { s.own with adapter := DatagramAdapter.configure cAd s.own.adapter } }
  onTcp (·.connect)
  let state := (← get).own.tcp.state
  if !state.eq (.ofState .synSent) then
    throw (.exception (.runtimeError ("After TCPConnection::connect(), state was " ++ state.name ++
      " but expected " ++ (TCPState.ofState .synSent).name)))
  return { stage := .connecting, baseTime := now, rules }

/-- `listen_and_accept`, up to its loop. -/
def listenAndAccept (cTcp : TCPConfig) (random : WrappingInt32) (cAd : K) (now : UInt64) :
    SocketProg A (Thread A) := do
  initializeTCP cTcp random
  modify fun s => { s with own :=
    { s.own with
      adapter := DatagramAdapter.setListening true (DatagramAdapter.configure cAd s.own.adapter) } }
  return { stage := .accepting, baseTime := now, rules }

end TCPSpongeSocket

namespace Thread

variable {A : Type}

/-- What follows a loop: after the first one `_tcp_main` and its loop; after that one the owner's
end is shut down, and the connection destroyed. -/
def leave (turn : Turn) (thread : Thread A) : SocketProg A (Thread A) :=
  if thread.stage = .main then do
    FileDescriptor.shutdown .owner .rdwr
    TCPSpongeSocket.onTcp (·.destroy)
    return { thread with stage := .finished }
  else
    return { thread with stage := .main, baseTime := turn.now }

/-- A turn of `_tcp_loop`. -/
def tcpLoop (turn : Turn) (thread : Thread A) : SocketProg A (Thread A) := do
  if !thread.stage.condition (← get).own.tcp then
    thread.leave turn
  else
    let (ret, rules) ← EventLoop.waitNextEvent thread.rules
    let thread := { thread with rules }
    if ret == .exit || turn.abort then
      thread.leave turn
    else if (← get).own.tcp.active then
      TCPSpongeSocket.onTcp (·.tick (turn.now - thread.baseTime).toNat)
      return { thread with baseTime := turn.now }
    else
      return thread

end Thread

end Sponge
