import Mathlib.Logic.Relation
import Sponge.Tcp.Connection

/-!
# One side of a connection

A `Peer` is a connection together with its application and with the segments it has handed
to the network. What its application does is an `Op`; what the network does to it is to
deliver segments.

An operation of a connection is a sequence of smaller steps. `Micro` lists them: each of
its constructors is one thing a connection does, and every operation is a chain of them
(`run_micro`, `segmentReceived_micro`). What all of them preserve is preserved by every
operation, so an invariant is proved once for each constructor.

## What is proved

* `Source` — the sender has sent a prefix of what its application has written, its
  sequence numbers count the bytes sent, and the FIN comes after all of them.
  `Source.micro` says that every step keeps this, without any assumption on the peer or
  the network.
* `Micro.mem_outgoing` — where the segments of a side come from.
* `Micro.progress` — no step takes anything back; in particular a segment that is kept
  stays kept, or lies before the oldest position that is not acknowledged.
-/

namespace Sponge

open Relation

/-- A connection, its application and its part of the network. -/
structure Peer where
  /-- The connection. -/
  conn : TCPConnection
  /-- The segments handed to the network so far. -/
  wire : List TCPSegment
  /-- The bytes that the connection has accepted from the application so far. -/
  accepted : Bytes
  /-- The bytes that the application has read from the inbound stream so far. -/
  taken : Bytes

/-- What an application does. -/
inductive Op where
  /-- `connect()`. -/
  | connect
  /-- `write(data)`. -/
  | write (data : Bytes)
  /-- `end_input_stream()`. -/
  | endInputStream
  /-- `tick(ms)`. -/
  | tick (ms : ℕ)
  /-- `inbound_stream().read(len)`. -/
  | read (len : ℕ)
  deriving DecidableEq

namespace Peer

/-- A new connection. -/
def start (cfg : TCPConfig) (random : WrappingInt32) : Peer := ⟨TCPConnection.make cfg random, [], [], []⟩

/-- The bytes assembled so far: those the application has read, and those in the inbound buffer. -/
def assembled (p : Peer) : Bytes := p.taken ++ p.conn.inboundStream.que

/-- The sender of the connection. -/
abbrev sender (p : Peer) : TCPSender := p.conn.sender

/-- The receiver of the connection. -/
abbrev receiver (p : Peer) : TCPReceiver := p.conn.receiver

/-- The application does something. -/
def run (p : Peer) : Op → Peer
  | .connect => { p with conn := p.conn.connect }
  | .write data =>
    { p with
      conn := (p.conn.write data).2
      accepted := p.accepted ++ data.take (p.conn.write data).1 }
  | .endInputStream => { p with conn := p.conn.endInputStream }
  | .tick ms => { p with conn := p.conn.tick ms }
  | .read len =>
    { p with
      conn := (p.conn.readInbound len).2
      taken := p.taken ++ (p.conn.readInbound len).1 }

/-- The network takes the next segment. -/
def send (p : Peer) : Peer :=
  match p.conn.segmentsOut with
  | [] => p
  | seg :: rest => { p with conn := { p.conn with segmentsOut := rest }, wire := p.wire ++ [seg] }

/-- The network delivers a segment. -/
def receive (p : Peer) (seg : TCPSegment) : Peer := { p with conn := p.conn.segmentReceived seg }

/-- A step of the connection. -/
def onConn (p : Peer) (f : TCPConnection → TCPConnection) : Peer := { p with conn := f p.conn }

/-- A step of the sender. -/
def onSender (p : Peer) (f : TCPSender → TCPSender) : Peer :=
  { p with conn := { p.conn with sender := f p.conn.sender } }

/-- The application writes, before the sender looks at it. -/
def writeStream (p : Peer) (data : Bytes) : Peer :=
  { p.onSender fun s => { s with stream := (s.stream.write data).2 } with
    accepted := p.accepted ++ data.take (p.sender.stream.write data).1 }

section Parts

variable (p : Peer) (f : TCPSender → TCPSender)

@[simp] theorem onSender_sender : (p.onSender f).sender = f p.sender := rfl
@[simp] theorem onSender_segmentsOut : (p.onSender f).conn.segmentsOut = p.conn.segmentsOut := rfl
@[simp] theorem onSender_wire : (p.onSender f).wire = p.wire := rfl
@[simp] theorem onSender_accepted : (p.onSender f).accepted = p.accepted := rfl

/-- A segment arrives. -/
theorem deliver_sender (seg : TCPSegment) :
    ((p.receiver.segmentReceived seg).setIsn = true ∧ seg.header.ack = true ∧
      (p.onConn (·.deliver seg)).sender = p.sender.ackReceived seg.header.ackno seg.header.win) ∨
    (((p.receiver.segmentReceived seg).setIsn = true → seg.header.ack = false) ∧
      (p.onConn (·.deliver seg)).sender = p.sender) := p.conn.deliver_sender seg

@[simp] theorem deliver_receiver (seg : TCPSegment) :
    (p.onConn (·.deliver seg)).receiver = p.receiver.segmentReceived seg := p.conn.deliver_receiver seg

@[simp] theorem deliver_inboundStream (seg : TCPSegment) :
    (p.onConn (·.deliver seg)).conn.inboundStream = (p.receiver.segmentReceived seg).streamOut :=
  congrArg TCPReceiver.streamOut (p.deliver_receiver seg)

end Parts

end Peer

/-- The steps of a connection whose peer has sent the segments `inbox`. -/
inductive Micro (inbox : List TCPSegment) : Peer → Peer → Prop where
  /-- A segment arrives. -/
  | deliver {p : Peer} {seg : TCPSegment} : seg ∈ inbox → seg.header.rst = false →
      Micro inbox p (p.onConn (·.deliver seg))
  /-- The sender fills the window. -/
  | fillWindow {p : Peer} : Micro inbox p (p.onSender (·.fillWindow))
  /-- The sender queues an empty segment, after its SYN. -/
  | sendEmpty {p : Peer} : p.sender.nextSeqno ≠ 0 → Micro inbox p (p.onSender (·.sendEmptySegment))
  /-- What the sender has queued is stamped. -/
  | sendSegments {p : Peer} : Micro inbox p (p.onConn (·.sendSegments))
  /-- Time passes for the sender. -/
  | tick {p : Peer} (ms : ℕ) : Micro inbox p (p.onSender (·.tick ms))
  /-- A reset is queued. -/
  | sendRst {p : Peer} : Micro inbox p (p.onConn (·.sendRstSeg))
  /-- The application writes; it does not do so after it has ended the stream. -/
  | write {p : Peer} (data : Bytes) : p.sender.stream.inputEnded = false →
      Micro inbox p (p.writeStream data)
  /-- The application ends its stream. -/
  | endInput {p : Peer} :
      Micro inbox p (p.onSender fun s => { s with stream := s.stream.endInput })
  /-- The connection fails. -/
  | fail {p : Peer} : Micro inbox p (p.onConn (·.fail))
  /-- The connection closes. -/
  | close {p : Peer} : p.conn.canClose = true →
      Micro inbox p (p.onConn ({ · with active := false }))
  /-- The connection notes the time. -/
  | note {p : Peer} (time : ℕ) : Micro inbox p (p.onConn ({ · with waitSegmentTime := time }))
  /-- The inbound stream has ended, and the connection need not linger. -/
  | unlinger {p : Peer} : p.conn.inboundStream.inputEnded = true →
      Micro inbox p (p.onConn ({ · with lingerAfterStreamsFinish := false }))
  /-- The application reads. -/
  | read {p : Peer} (len : ℕ) : Micro inbox p (p.run (.read len))
  /-- The network takes a segment. -/
  | send {p : Peer} {seg : TCPSegment} {rest : List TCPSegment} : p.conn.segmentsOut = seg :: rest →
      Micro inbox p { p with conn := { p.conn with segmentsOut := rest }, wire := p.wire ++ [seg] }

/-! ### Every operation is a chain of steps -/

section Chains

variable {inbox : List TCPSegment} (p : Peer)

theorem tryCleanClose_micro : ReflTransGen (Micro inbox) p (p.onConn (·.tryCleanClose)) := by
  simp only [Peer.onConn, TCPConnection.tryCleanClose]
  split_ifs with h
  · exact .single (.close h)
  · exact .refl

theorem clearLinger_micro : ReflTransGen (Micro inbox) p (p.onConn (·.clearLinger)) := by
  simp only [Peer.onConn, TCPConnection.clearLinger]
  split_ifs with h
  · exact .single (.unlinger (Bool.and_eq_true_iff.mp h).2)
  · exact .refl

theorem reply_micro (seg : TCPSegment) (h : p.sender.nextSeqno ≠ 0) :
    ReflTransGen (Micro inbox) p (p.onConn (·.reply seg)) := by
  simp only [Peer.onConn, TCPConnection.reply]
  split_ifs
  · exact .single (.sendEmpty h)
  · exact .refl

/-- Filling the window, and sending what there is. -/
theorem flush_micro : ReflTransGen (Micro inbox) p (p.onConn (·.fillWindow.sendSegments)) :=
  (ReflTransGen.single (.fillWindow (p := p))).tail .sendSegments

theorem send_micro : ReflTransGen (Micro inbox) p p.send := by
  unfold Peer.send
  split
  · exact .refl
  · exact .single (.send ‹_›)

/-- The operations of the application. -/
theorem run_micro (op : Op) (h : ∀ data, op = .write data → p.sender.stream.inputEnded = false) :
    ReflTransGen (Micro inbox) p (p.run op) := by
  cases op with
  | connect => exact flush_micro p
  | write data =>
    have h1 : Micro inbox p (p.writeStream data) := .write data (h data rfl)
    exact (ReflTransGen.single h1).trans ((flush_micro _).trans (tryCleanClose_micro _))
  | endInputStream =>
    have h1 : Micro inbox p (p.onSender fun s => { s with stream := s.stream.endInput }) := .endInput
    exact (ReflTransGen.single h1).trans (flush_micro _)
  | tick ms =>
    have h1 : Micro inbox p (p.onSender (·.tick ms)) := .tick ms
    simp only [Peer.run, TCPConnection.tick]
    split_ifs
    · exact ((ReflTransGen.single h1).tail .sendRst).tail .fail
    · have h2 : Micro inbox (p.onSender (·.tick ms)) _ := .note ((p.conn.waitSegmentTime + ms) % 2 ^ 64)
      exact (((ReflTransGen.single h1).tail h2).tail .sendSegments).trans (tryCleanClose_micro _)
  | read len => exact .single (.read len)

end Chains

/-- A segment arrives. -/
theorem segmentReceived_micro {inbox : List TCPSegment} {p : Peer} {seg : TCPSegment} (hseg : seg ∈ inbox)
    (h : p.sender.nextSeqno = 0 → p.sender.setFin = false) :
    ReflTransGen (Micro inbox) p (p.receive seg) := by
  have h1 : Micro inbox p (p.onConn ({ · with waitSegmentTime := 0 })) := .note 0
  refine (ReflTransGen.single h1).trans ?_
  generalize hp : p.onConn ({ · with waitSegmentTime := 0 }) = p₀
  have hrec : p.receive seg = p₀.onConn fun c => if seg.header.rst then c.fail else
      if (c.deliver seg).receiver.ackno.isSome then
        (((c.deliver seg).fillWindow.reply seg).sendSegments.clearLinger).tryCleanClose
      else (c.deliver seg).tryCleanClose := by
    subst hp
    rfl
  have h₀ : p₀.sender.nextSeqno = 0 → p₀.sender.setFin = false := by
    subst hp
    exact h
  rw [hrec]
  simp only [Peer.onConn]
  by_cases hrst : seg.header.rst = true
  · rw [if_pos hrst]
    exact .single .fail
  rw [if_neg hrst]
  have h2 : Micro inbox p₀ (p₀.onConn (·.deliver seg)) := .deliver hseg (Bool.eq_false_iff.mpr hrst)
  split_ifs
  · -- the acknowledgment does not touch what has been sent
    have hdel : (p₀.conn.deliver seg).sender.nextSeqno = 0 → (p₀.conn.deliver seg).sender.setFin = false := by
      simp only [TCPConnection.deliver]
      split_ifs <;> simpa using h₀
    have h3 : Micro inbox (p₀.onConn (·.deliver seg)) ((p₀.onConn (·.deliver seg)).onSender (·.fillWindow)) :=
      .fillWindow
    have h4 : ReflTransGen (Micro inbox) ((p₀.onConn (·.deliver seg)).onSender (·.fillWindow)) _ :=
      reply_micro _ seg (TCPSender.fillWindow_nextSeqno_ne_zero hdel)
    exact ((((ReflTransGen.single h2).tail h3).trans h4).tail .sendSegments).trans
      ((clearLinger_micro _).trans (tryCleanClose_micro _))
  · exact (ReflTransGen.single h2).trans (tryCleanClose_micro _)

/-! ### The segments of a side -/

/-- All the segments that a peer has made and that may still reach the other side. -/
def Peer.outgoing (p : Peer) : List TCPSegment :=
  p.sender.segmentsOut ++ p.sender.waitAck ++ p.conn.segmentsOut ++ p.wire

theorem Peer.mem_outgoing {p : Peer} {seg : TCPSegment} :
    seg ∈ p.outgoing ↔ ((seg ∈ p.sender.segmentsOut ∨ seg ∈ p.sender.waitAck) ∨ seg ∈ p.conn.segmentsOut) ∨
      seg ∈ p.wire := by
  simp only [Peer.outgoing, List.mem_append]

/-- Those that the connection has queued or handed to the network. -/
def Peer.stamped (p : Peer) : List TCPSegment := p.conn.segmentsOut ++ p.wire

/-- **Where the segments of a side come from.** After a step each was there before, has been
stamped or made by it, or is a reset. -/
theorem Micro.mem_outgoing {inbox : List TCPSegment} {p p' : Peer} (hm : Micro inbox p p') {seg : TCPSegment}
    (hseg : seg ∈ p'.outgoing) (hrst : seg.header.rst = false) :
    seg ∈ p.outgoing ∨ (∃ seg' ∈ p.outgoing, seg = TCPConnection.stamp p.receiver seg') ∨
      (p.sender.nextSeqno ≠ 0 ∧ seg = { header := { seqno := p.sender.nextSeqnoWrapped } }) ∨
        p' = p.onSender (·.fillWindow) ∧ ∃ s w, seg = (TCPSender.nextSegment s w).1 ∧
          s.isn = p.sender.isn ∧ 0 < w ∧ s.nextSeqno + w = p.sender.nextSeqno + p.sender.freeWindow := by
  rw [Peer.mem_outgoing] at hseg
  have hold : (((seg ∈ p.sender.segmentsOut ∨ seg ∈ p.sender.waitAck) ∨ seg ∈ p.conn.segmentsOut) ∨
      seg ∈ p.wire) → seg ∈ p.outgoing := Peer.mem_outgoing.mpr
  cases hm with
  | @deliver seg' =>
    have hsub := (p.sender.ackReceived_waitAck_suffix seg'.header.ackno seg'.header.win).subset (a := seg)
    rw [show (p.onConn (·.deliver seg')).conn.segmentsOut = _ from p.conn.deliver_segmentsOut seg'] at hseg
    rcases p.deliver_sender seg' with ⟨-, -, heq⟩ | ⟨-, heq⟩ <;> rw [heq] at hseg
    · rw [TCPSender.ackReceived_segmentsOut] at hseg
      exact Or.inl (hold (hseg.imp_left (Or.imp_left (Or.imp_right hsub))))
    · exact Or.inl (hold hseg)
  | fillWindow =>
    rcases hseg with (hnew | hout) | hwire
    · rcases p.sender.fillWindow_fills.made hnew with hin | hmade
      · exact Or.inl (hold (Or.inl (Or.inl hin)))
      · exact Or.inr (Or.inr (Or.inr ⟨rfl, hmade⟩))
    · exact Or.inl (hold (Or.inl (Or.inr hout)))
    · exact Or.inl (hold (Or.inr hwire))
  | sendEmpty h0 =>
    simp only [Peer.onSender_sender, Peer.onSender_segmentsOut, Peer.onSender_wire,
      TCPSender.sendEmptySegment, List.mem_append, List.mem_singleton] at hseg
    rcases hseg with (((hin | hnew) | hwait) | hout) | hwire
    · exact Or.inl (hold (Or.inl (Or.inl (Or.inl hin))))
    · exact Or.inr (Or.inr (Or.inl ⟨h0, hnew⟩))
    · exact Or.inl (hold (Or.inl (Or.inl (Or.inr hwait))))
    · exact Or.inl (hold (Or.inl (Or.inr hout)))
    · exact Or.inl (hold (Or.inr hwire))
  | sendSegments =>
    simp only [Peer.onConn, TCPConnection.sendSegments, List.mem_append, List.mem_map, List.not_mem_nil,
      false_or] at hseg
    rcases hseg with (hwait | hout | ⟨seg', hmem, rfl⟩) | hwire
    · exact Or.inl (hold (Or.inl (Or.inl (Or.inr hwait))))
    · exact Or.inl (hold (Or.inl (Or.inr hout)))
    · exact Or.inr (Or.inl ⟨seg', Peer.mem_outgoing.mpr (Or.inl (Or.inl (Or.inl hmem))), rfl⟩)
    · exact Or.inl (hold (Or.inr hwire))
  | tick ms =>
    obtain ⟨timer, num, again, hsub, heq⟩ := p.sender.tick_eq ms
    have hagain : seg ∈ again → seg ∈ p.sender.waitAck := fun h => hsub.subset h
    simp only [Peer.onSender_sender, Peer.onSender_segmentsOut, Peer.onSender_wire, heq,
      List.mem_append] at hseg
    rcases hseg with (((hin | hnew) | hwait) | hout) | hwire
    · exact Or.inl (hold (Or.inl (Or.inl (Or.inl hin))))
    · exact Or.inl (hold (Or.inl (Or.inl (Or.inr (hagain hnew)))))
    · exact Or.inl (hold (Or.inl (Or.inl (Or.inr hwait))))
    · exact Or.inl (hold (Or.inl (Or.inr hout)))
    · exact Or.inl (hold (Or.inr hwire))
  | sendRst =>
    have hne : seg ≠ TCPConnection.stamp p.receiver
        { header := { rst := true, seqno := p.sender.nextSeqnoWrapped } } := by
      rintro rfl
      simp at hrst
    simp only [Peer.onConn, TCPConnection.sendRstSeg, List.mem_append, List.mem_singleton] at hseg
    rcases hseg with (hsender | hout | hnew) | hwire
    · exact Or.inl (hold (Or.inl (Or.inl hsender)))
    · exact Or.inl (hold (Or.inl (Or.inr hout)))
    · exact absurd hnew hne
    · exact Or.inl (hold (Or.inr hwire))
  | send hout =>
    simp only [List.mem_append, List.mem_singleton] at hseg
    rw [hout, List.mem_cons] at hold
    rcases hseg with (hsender | hqueued) | hwire | hnew
    · exact Or.inl (hold (Or.inl (Or.inl hsender)))
    · exact Or.inl (hold (Or.inl (Or.inr (Or.inr hqueued))))
    · exact Or.inl (hold (Or.inr hwire))
    · exact Or.inl (hold (Or.inl (Or.inr (Or.inl hnew))))
  | _ => exact Or.inl (hold hseg)

/-! ### What the sender has sent -/

/-- The sender has sent a prefix of what has been accepted from its application. -/
structure Source (accepted : Bytes) (s : TCPSender) : Prop where
  /-- Everything accepted has been written to the stream. -/
  written : s.stream.bytesWritten = accepted.length
  /-- What has not been read from the stream is the rest of it. -/
  que : s.stream.que = accepted.drop s.stream.bytesRead
  /-- The sequence number counts the SYN, the bytes sent, and the FIN. -/
  next : s.nextSeqno = 0 ∧ s.stream.bytesRead = 0 ∧ s.setFin = false ∨
    s.nextSeqno = 1 + s.stream.bytesRead + s.setFin.toNat
  /-- The FIN is sent when the input has ended and all of it has been sent. -/
  fin : s.setFin = true → s.stream.inputEnded = true ∧ s.stream.que = []
  /-- What is in flight is kept for retransmission. -/
  outstanding : s.Outstanding

theorem source_make (capacity : ℕ) (retxTimeout : UInt16) (fixedIsn : Option WrappingInt32)
    (random : WrappingInt32) : Source [] (TCPSender.make capacity retxTimeout fixedIsn random) :=
  ⟨rfl, rfl, Or.inl ⟨rfl, rfl, rfl⟩, fun h => absurd h Bool.false_ne_true,
    TCPSender.outstanding_make _ _ _ _⟩

namespace Source

variable {accepted : Bytes} {s s' : TCPSender}

theorem bytesRead_le (h : Source accepted s) : s.stream.bytesRead ≤ accepted.length := by
  have h1 := s.stream.bytesRead_add_bufferSize
  have h2 := h.written
  omega

/-- Before the SYN there is no FIN. -/
theorem setFin_eq_false (h : Source accepted s) (h0 : s.nextSeqno = 0) : s.setFin = false := by
  rcases h.next with ⟨-, -, hfin⟩ | hn
  · exact hfin
  · omega

/-- When the FIN has been sent, everything has been. -/
theorem bytesRead_eq (h : Source accepted s) (hfin : s.setFin = true) :
    s.stream.bytesRead = accepted.length := by
  have h1 := s.stream.bytesRead_add_bufferSize
  have h2 := h.written
  rw [ByteStream.bufferSize, (h.fin hfin).2, List.length_nil] at h1
  omega

/-- The sequence number in numbers: at most the SYN, the bytes sent and the FIN. -/
theorem nextSeqno_le (h : Source accepted s) :
    s.nextSeqno ≤ 2 + s.stream.bytesRead := by
  rcases h.next with ⟨h0, -, -⟩ | hn
  · omega
  · have := Bool.toNat_le s.setFin
    omega

/-- The next position is that of the next byte of the stream. -/
theorem nextSeqno_sub_one (h : Source accepted s) (hfin : s.setFin = false) :
    s.nextSeqno - 1 = s.stream.bytesRead := by
  rcases h.next with ⟨h0, hr, -⟩ | hn
  · omega
  · rw [hfin, Bool.toNat_false] at hn
    omega

/-- One more segment. -/
theorem send (h : Source accepted s) {w : ℕ} (hfin : s.setFin = false)
    (hlen : 0 < (s.nextSegment w).1.lengthInSequenceSpace) :
    Source accepted ((s.advance w).transmit (s.nextSegment w).1) := by
  have hread := s.nextSegment_bytesRead w
  refine ⟨h.written, ?_, Or.inr ?_, fun hset => ?_, h.outstanding.send hlen⟩
  · simp only [TCPSender.transmit, TCPSender.advance]
    rw [s.nextSegment_que, hread, h.que, List.drop_drop]
  · -- the length of the segment counts the SYN, the payload and the FIN
    simp only [TCPSender.transmit, TCPSender.advance, hfin, Bool.false_or]
    rw [s.nextSegment_length, hread]
    have hn := h.next
    rw [hfin, Bool.toNat_false] at hn
    cases (s.nextSegment w).1.header.fin
    · simp only [Bool.false_eq_true, if_false, Bool.toNat_false]
      split_ifs <;> omega
    · simp only [if_true, Bool.toNat_true]
      split_ifs <;> omega
  · simp only [TCPSender.transmit, TCPSender.advance, hfin, Bool.false_or] at hset ⊢
    exact (ByteStream.eof_iff _).mp ((s.nextSegment_fin w).mp hset).1

theorem fills (h : Source accepted s) {w : ℕ} (hf : TCPSender.Fills s w s') : Source accepted s' := by
  induction hf with
  | stop => exact h
  | send _ hfin hlen _ ih => exact ih (h.send hfin hlen)

theorem ackReceived (h : Source accepted s) (n : WrappingInt32) (w : UInt16) :
    Source accepted (s.ackReceived n w) := by
  refine ⟨?_, ?_, ?_, ?_, h.outstanding.ackReceived w⟩
  · rw [TCPSender.ackReceived_stream]
    exact h.written
  · rw [TCPSender.ackReceived_stream]
    exact h.que
  · rw [TCPSender.ackReceived_stream, TCPSender.ackReceived_nextSeqno, TCPSender.ackReceived_setFin]
    exact h.next
  · rw [TCPSender.ackReceived_stream, TCPSender.ackReceived_setFin]
    exact h.fin

/-- More is accepted. -/
theorem write (h : Source accepted s) (data : Bytes) (hend : s.stream.inputEnded = false) :
    Source (accepted ++ data.take (s.stream.write data).1)
      { s with stream := (s.stream.write data).2 } := by
  have hle := h.bytesRead_le
  have hfin : s.setFin = false := Bool.eq_false_iff.mpr fun hset => by simp [(h.fin hset).1] at hend
  refine ⟨?_, ?_, h.next, fun hset => absurd hset (by simp [hfin]), ⟨h.outstanding.le, h.outstanding.tiles⟩⟩
  · simp only [ByteStream.write_bytesWritten, ByteStream.write_fst, List.length_append, List.length_take,
      h.written]
    omega
  · simp only [ByteStream.write_que, ByteStream.write_fst, ByteStream.write_bytesRead, h.que]
    rw [List.drop_append_of_le_length hle]

/-- **Every step keeps this.** -/
theorem micro {inbox : List TCPSegment} {p p' : Peer} (h : Source p.accepted p.sender)
    (hm : Micro inbox p p') : Source p'.accepted p'.sender := by
  cases hm with
  | @deliver seg =>
    rcases p.deliver_sender seg with ⟨-, -, heq⟩ | ⟨-, heq⟩ <;> rw [heq]
    · exact h.ackReceived _ _
    · exact h
  | fillWindow => exact h.fills p.sender.fillWindow_fills
  | sendEmpty => exact ⟨h.written, h.que, h.next, h.fin, ⟨h.outstanding.le, h.outstanding.tiles⟩⟩
  | sendSegments => exact ⟨h.written, h.que, h.next, h.fin, ⟨h.outstanding.le, h.outstanding.tiles⟩⟩
  | tick ms =>
    obtain ⟨timer, num, again, -, heq⟩ := p.sender.tick_eq ms
    simp only [Peer.onSender, heq]
    exact ⟨h.written, h.que, h.next, h.fin, ⟨h.outstanding.le, h.outstanding.tiles⟩⟩
  | sendRst => exact h
  | write data hend => exact h.write data hend
  | endInput => exact ⟨h.written, h.que, h.next, fun hset => ⟨rfl, (h.fin hset).2⟩,
      ⟨h.outstanding.le, h.outstanding.tiles⟩⟩
  | fail => exact ⟨h.written, h.que, h.next, h.fin, ⟨h.outstanding.le, h.outstanding.tiles⟩⟩
  | close => exact h
  | note => exact h
  | unlinger => exact h
  | read => exact h
  | send => exact h

end Source

/-! ### What is never taken back -/

/-- The segment lies before the oldest position that is not acknowledged. -/
def Forgotten (s : TCPSender) (seg : TCPSegment) : Prop :=
  ∃ x, TCPSender.StartsAt s.isn x seg ∧ x + seg.lengthInSequenceSpace ≤ s.base

/-- An acknowledgment forgets only what lies before the position it is of. -/
theorem Source.forgotten_of_acked {accepted : Bytes} {s : TCPSender} (h : Source accepted s)
    (n : WrappingInt32) (w : UInt16) :
    s.base ≤ (s.ackReceived n w).base ∧
      ∀ seg ∈ s.waitAck, seg ∈ (s.ackReceived n w).waitAck ∨ Forgotten (s.ackReceived n w) seg := by
  rcases Nat.lt_or_ge s.nextSeqno (unwrap n s.isn s.nextSeqno) with hgt | hle
  · rw [TCPSender.ackReceived_of_gt w hgt]
    exact ⟨le_rfl, fun seg hseg => Or.inl hseg⟩
  · obtain ⟨-, popped, hl, htiles, -⟩ := h.outstanding.acked w hle
    refine ⟨htiles.le, fun seg hseg => ?_⟩
    rw [hl, List.mem_append] at hseg
    rcases hseg with hpop | hkept
    · obtain ⟨x, -, hx, hstart⟩ := htiles.exists_of_mem hpop
      exact Or.inr ⟨x, by rwa [TCPSender.ackReceived_isn], hx⟩
    · exact Or.inl hkept

/-- What a side never takes back. -/
structure Progress (p p' : Peer) : Prop where
  /-- The numbering stays. -/
  isn : p'.sender.isn = p.sender.isn
  /-- What has been accepted stays. -/
  accepted : p.accepted <+: p'.accepted
  /-- What has been sent has been sent. -/
  next : p.sender.nextSeqno ≤ p'.sender.nextSeqno
  /-- So has the FIN. -/
  fin : p.sender.setFin = true → p'.sender.setFin = true
  /-- The oldest unacknowledged position moves on. -/
  base : p.sender.base ≤ p'.sender.base
  /-- What is not kept any more has been acknowledged. -/
  kept : ∀ seg ∈ p.sender.waitAck, seg ∈ p'.sender.waitAck ∨ Forgotten p'.sender seg
  /-- The numbering of the peer stays known. -/
  setIsn : p.receiver.setIsn = true → p'.receiver.setIsn = true
  /-- The end of the inbound stream stays. -/
  ended : p.conn.inboundStream.inputEnded = true → p'.conn.inboundStream.inputEnded = true
  /-- A connection that need not linger does not. -/
  linger : p.conn.lingerAfterStreamsFinish = false → p'.conn.lingerAfterStreamsFinish = false

theorem Progress.refl (p : Peer) : Progress p p :=
  ⟨rfl, List.prefix_rfl, le_rfl, id, le_rfl, fun _ h => Or.inl h, id, id, id⟩

theorem Progress.trans {p p' p'' : Peer} (h : Progress p p') (h' : Progress p' p'') : Progress p p'' := by
  refine ⟨h'.isn.trans h.isn, h.accepted.trans h'.accepted, h.next.trans h'.next, h'.fin ∘ h.fin,
    h.base.trans h'.base, fun seg hseg => ?_, h'.setIsn ∘ h.setIsn, h'.ended ∘ h.ended, h'.linger ∘ h.linger⟩
  rcases h.kept seg hseg with hkept | ⟨x, hx, hle⟩
  · exact h'.kept seg hkept
  · exact Or.inr ⟨x, by rwa [h'.isn], hle.trans h'.base⟩

/-- An arriving segment takes nothing back. -/
theorem Source.progress_deliver {p : Peer} (hp : Source p.accepted p.sender) (seg : TCPSegment) :
    Progress p (p.onConn (·.deliver seg)) := by
  have hset : p.receiver.setIsn = true → (p.onConn (·.deliver seg)).receiver.setIsn = true := fun hset => by
    rw [p.deliver_receiver, (p.receiver.segmentReceived_isn seg).2, hset, Bool.true_or]
  have hended : p.conn.inboundStream.inputEnded = true →
      (p.onConn (·.deliver seg)).conn.inboundStream.inputEnded = true := fun he => by
    rw [p.deliver_inboundStream]
    exact (p.receiver.segmentReceived_grows seg).inputEnded he
  have hlinger : p.conn.lingerAfterStreamsFinish = false →
      (p.onConn (·.deliver seg)).conn.lingerAfterStreamsFinish = false :=
    (p.conn.deliver_lingerAfterStreamsFinish seg).trans
  rcases p.deliver_sender seg with ⟨-, -, heq⟩ | ⟨-, heq⟩
  · obtain ⟨h1, h2⟩ := hp.forgotten_of_acked seg.header.ackno seg.header.win
    refine ⟨?_, List.prefix_rfl, ?_, ?_, ?_, ?_, hset, hended, hlinger⟩ <;> rw [heq]
    · exact p.sender.ackReceived_isn _ _
    · exact (p.sender.ackReceived_nextSeqno _ _).ge
    · exact fun hfin => (p.sender.ackReceived_setFin _ _).trans hfin
    · exact h1
    · exact h2
  · refine ⟨?_, List.prefix_rfl, ?_, ?_, ?_, ?_, hset, hended, hlinger⟩ <;> rw [heq]
    · exact id
    · exact fun _ h => Or.inl h

/-- **No step takes anything back.** -/
theorem Micro.progress {inbox : List TCPSegment} {p p' : Peer} (hp : Source p.accepted p.sender)
    (hm : Micro inbox p p') : Progress p p' := by
  obtain ⟨hisn, hacc, hnext, hfin, hbase, hkept, hset, hended, hlinger⟩ := Progress.refl p
  cases hm with
  | @deliver seg => exact hp.progress_deliver seg
  | fillWindow =>
    have hf := p.sender.fillWindow_fills
    exact ⟨hf.frame.1, hacc, hf.nextSeqno_le, hf.setFin_of, hf.base_eq.ge,
      fun _ h => Or.inl (hf.waitAck_subset h), hset, hended, hlinger⟩
  | tick ms =>
    obtain ⟨timer, num, again, -, heq⟩ := p.sender.tick_eq ms
    simp only [Peer.onSender, heq]
    exact ⟨hisn, hacc, hnext, hfin, hbase, hkept, hset, hended, hlinger⟩
  | write => exact ⟨hisn, List.prefix_append _ _, hnext, hfin, hbase, hkept, hset, hended, hlinger⟩
  | unlinger => exact ⟨hisn, hacc, hnext, hfin, hbase, hkept, hset, hended, fun _ => rfl⟩
  | _ => exact ⟨hisn, hacc, hnext, hfin, hbase, hkept, hset, hended, hlinger⟩

/-- A chain of steps. -/
theorem Source.chain {inbox : List TCPSegment} {p p' : Peer} (hp : Source p.accepted p.sender)
    (hc : ReflTransGen (Micro inbox) p p') : Source p'.accepted p'.sender ∧ Progress p p' := by
  induction hc with
  | refl => exact ⟨hp, .refl p⟩
  | tail _ hm ih => exact ⟨ih.1.micro hm, ih.2.trans (hm.progress ih.1)⟩

end Sponge
