import Sponge.Tcp.Calls
import Sponge.Tcp.Timer
import Sponge.Tcp.Transmission

/-!
# Dead connections

A connection dies when it receives a reset, when it has sent a segment again too often,
or when it closes. After that nothing should be heard from it. No operation looks at
`_active`, though: a dead connection assembles, acknowledges, answers and sends again as
before, and `dead_connection_answers` is such a run. Nothing makes it alive again, and it
is silent in the runs in which there is nothing for it to do (`ConnectionCall.Quiet`).

## What is proved

* `fillWindow_of_idle` — when `fill_window` sends nothing.
* `silent_call` — a quiet call queues nothing and adds nothing to the inbound stream.
* `dead_stays_silent` — so a dead connection is silent in every run of quiet calls.
-/

namespace Sponge

namespace TCPSender

/-- There is nothing that `fill_window` can send: the FIN has been sent, the window is full, or
there is no data and no end. -/
def Idle (s : TCPSender) : Prop :=
  s.setFin = true ∨ s.freeWindow = 0 ∨ s.nextSeqno ≠ 0 ∧ s.stream.que = [] ∧ s.stream.inputEnded = false

instance (s : TCPSender) : Decidable s.Idle := inferInstanceAs (Decidable (_ ∨ _ ∨ _))

/-- Without data and without an end the next segment is empty. -/
theorem nextSegment_length_eq_zero {s : TCPSender} (w : ℕ) (h0 : s.nextSeqno ≠ 0)
    (hque : s.stream.que = []) (hend : s.stream.inputEnded = false) :
    (s.nextSegment w).1.lengthInSequenceSpace = 0 := by
  have hpayload : (s.nextSegment w).1.payload = [] := by
    rw [s.nextSegment_payload w, hque, List.take_nil]
  have hfin : (s.nextSegment w).1.header.fin = false := by
    refine Bool.eq_false_iff.mpr fun hset => ?_
    have heof := ((s.nextSegment_fin w).mp hset).1
    have hended := ((ByteStream.eof_iff _).mp heof).1
    exact absurd hended (by simp [nextSegment, hend])
  rw [nextSegment_length, if_neg h0, hpayload, hfin]
  rfl

/-- **When `fill_window` sends nothing.** -/
theorem fillWindow_of_idle {s : TCPSender} (h : s.Idle) : s.fillWindow = s := by
  have hfills := s.fillWindow_fills
  generalize s.fillWindow = s' at hfills ⊢
  cases hfills with
  | stop => rfl
  | send hw hfin hlen _ =>
    rcases h with hset | hfull | ⟨h0, hque, hend⟩
    · exact absurd hset (by simp [hfin])
    · omega
    · have hzero := nextSegment_length_eq_zero s.freeWindow h0 hque hend
      omega

/-- Time passes without the timer expiring. -/
theorem tick_of_running {s : TCPSender} {ms : ℕ} (hexp : s.timer.expired = false)
    (hrun : s.timer.active = false ∨ (s.timer.curTime + ms % 2 ^ 32) % 2 ^ 32 < s.timer.timeout) :
    (s.tick ms).segmentsOut = s.segmentsOut ∧
      (s.tick ms).consecutiveTransmitNum = s.consecutiveTransmitNum := by
  cases hactive : s.timer.active with
  | false =>
    rw [tick_of_not_expired (Timer.tictoc_of_stopped _ _ _ hactive) hexp]
    exact ⟨rfl, rfl⟩
  | true =>
    have hlt := hrun.resolve_left (by simp [hactive])
    rw [tick_of_not_expired (Timer.tictoc_of_lt _ _ hactive hlt) hexp]
    exact ⟨rfl, rfl⟩

end TCPSender

namespace StreamReassembler

/-- A block of the list can be written: blocks that have been written already are skipped. -/
def ready (bytesWritten : ℕ) : List Node → Bool
  | [] => false
  | n :: rest =>
    if n.blockstart > bytesWritten then false
    else if n.blockend < bytesWritten then ready bytesWritten rest
    else true

/-- Nothing waits in the list that could be written. -/
def Drained (r : StreamReassembler) : Prop :=
  r.output.remainingCapacity = 0 ∨ ready r.output.bytesWritten r.head = false

instance (r : StreamReassembler) : Decidable r.Drained := inferInstanceAs (Decidable (_ ∨ _))

/-- Then nothing is written. -/
theorem fetchLoop_of_drained (out : ByteStream) (remain : ℕ) (l : List Node)
    (h : out.remainingCapacity = 0 ∨ ready out.bytesWritten l = false) :
    (fetchLoop out remain l).1 = out := by
  induction l generalizing remain with
  | nil => rfl
  | cons n l ih =>
    unfold fetchLoop
    split
    · rfl
    · rename_i hroom
      have hready := h.resolve_left hroom
      unfold ready at hready
      split at hready
      · rw [if_pos ‹_›]
      · rw [if_neg ‹_›]
        split at hready
        · rw [if_pos ‹_›]
          exact ih _ (Or.inr hready)
        · exact absurd hready (by simp)

/-- An empty substring that does not end the stream writes nothing, if nothing waits. -/
theorem pushSubstring_nil_of_drained {r : StreamReassembler} (h : r.Drained) (index : ℕ) :
    (r.pushSubstring [] index false).output = r.output := by
  unfold pushSubstring
  split
  · split
    · simp only [List.drop_nil, List.length_nil, ge_iff_le, Nat.zero_le, if_true, ByteStream.write_nil,
        Bool.false_eq_true, if_false]
      exact fetchLoop_of_drained _ _ _ h
    · rfl
  · have hins : r.insertToLinklist [] index false = r := by
      simp [insertToLinklist, insertHead]
    rw [hins]
    exact fetchLoop_of_drained _ _ _ h

end StreamReassembler

/-- The segment lies outside what the receiver passes on, or nothing waits to be written. -/
def TCPReceiver.Passes (r : TCPReceiver) (seg : TCPSegment) : Prop :=
  unwrap seg.header.seqno r.isn r.streamOut.bytesWritten ≤ r.streamOut.bytesWritten ∨
    r.streamOut.bytesWritten + r.capacity < unwrap seg.header.seqno r.isn r.streamOut.bytesWritten ∨
      r.reassembler.Drained

instance (r : TCPReceiver) (seg : TCPSegment) : Decidable (r.Passes seg) :=
  inferInstanceAs (Decidable (_ ∨ _ ∨ _))

/-- An empty segment then leaves the inbound stream as it is. -/
theorem TCPReceiver.segmentReceived_streamOut {r : TCPReceiver} {seg : TCPSegment}
    (hlen : seg.lengthInSequenceSpace = 0) (h : r.Passes seg) :
    (r.segmentReceived seg).streamOut = r.streamOut := by
  have hsyn : seg.header.syn = false := by
    by_contra hset
    simp [TCPSegment.lengthInSequenceSpace, hset] at hlen
  have hfin : seg.header.fin = false := by
    by_contra hset
    simp [TCPSegment.lengthInSequenceSpace, hset] at hlen
  have hpayload : seg.payload = [] := by
    unfold TCPSegment.lengthInSequenceSpace at hlen
    exact List.length_eq_zero_iff.mp (by omega)
  simp only [segmentReceived, hsyn, hfin, hpayload, Bool.false_eq_true, if_false]
  split_ifs with hset hout
  · rfl
  · rcases h with hle | hgt | hdrained
    · -- what lies before the next byte is not looked at
      have hpush : r.reassembler.pushSubstring []
          (unwrap seg.header.seqno r.isn r.streamOut.bytesWritten - 1) false = r.reassembler := by
        unfold streamOut StreamReassembler.streamOut at hle hout ⊢
        rw [StreamReassembler.pushSubstring, if_pos (by omega), List.length_nil, if_neg (by omega)]
      rw [hpush]
    · omega
    · exact StreamReassembler.pushSubstring_nil_of_drained hdrained _
  · rfl

/-- There is nothing for the connection to do. -/
def ConnectionCall.Quiet (c : TCPConnection) : ConnectionCall → Prop
  | .connect => c.sender.segmentsOut = [] ∧ c.sender.Idle
  | .write data => c.sender.segmentsOut = [] ∧
      (c.sender.setFin = true ∨ c.sender.freeWindow = 0 ∨ c.sender.nextSeqno ≠ 0 ∧
        c.sender.stream.que = [] ∧ (data = [] ∨ c.sender.stream.remainingCapacity = 0) ∧
          c.sender.stream.inputEnded = false)
  | .endInputStream => c.sender.segmentsOut = [] ∧ (c.sender.setFin = true ∨ c.sender.freeWindow = 0)
  -- the timer does not expire, and the connection has not given up
  | .tick ms => c.sender.segmentsOut = [] ∧ c.sender.consecutiveTransmitNum ≤ maxRetxAttempts ∧
      c.sender.timer.expired = false ∧ (c.sender.timer.active = false ∨
        (c.sender.timer.curTime + ms % 2 ^ 32) % 2 ^ 32 < c.sender.timer.timeout)
  -- a reset, a segment before any SYN, or an empty one that opens no window
  | .segmentReceived seg => seg.header.rst = true ∨
      c.receiver.setIsn = false ∧ seg.header.syn = false ∨
      seg.lengthInSequenceSpace = 0 ∧ c.receiver.Passes seg ∧ c.sender.segmentsOut = [] ∧
        (c.sender.setFin = true ∨ windowEnd c.sender seg ≤ c.sender.nextSeqno ∨ c.sender.nextSeqno ≠ 0 ∧
          c.sender.stream.que = [] ∧ c.sender.stream.inputEnded = false)
  | .read _ => True
  | .take => False
  | .destroy => c.active = false

instance ConnectionCall.decidableQuiet (c : TCPConnection) (e : ConnectionCall) : Decidable (e.Quiet c) := by
  cases e <;> unfold ConnectionCall.Quiet <;> infer_instance

/-- Nothing is heard of the connection: it is dead, queues nothing and adds nothing to its inbound
stream. -/
structure Silent (c c' : TCPConnection) : Prop where
  /-- It is dead. -/
  active : c'.active = false
  /-- Its queue is as before. -/
  segmentsOut : c'.segmentsOut = c.segmentsOut
  /-- Its inbound stream has not grown. -/
  bytesWritten : c'.inboundStream.bytesWritten = c.inboundStream.bytesWritten

theorem Silent.trans {c c' c'' : TCPConnection} (h : Silent c c') (h' : Silent c' c'') : Silent c c'' :=
  ⟨h'.active, h'.segmentsOut.trans h.segmentsOut, h'.bytesWritten.trans h.bytesWritten⟩

namespace TCPConnection

/-! ### Quiet calls -/

section Silence

variable {c : TCPConnection}

/-- Sending with nothing to send. -/
theorem silent_flush (h : c.active = false) (hq : c.sender.segmentsOut = []) (hi : c.sender.Idle) :
    Silent c c.fillWindow.sendSegments := by
  refine ⟨h, ?_, rfl⟩
  simp only [sendSegments, fillWindow, TCPSender.fillWindow_of_idle hi, hq, List.map_nil, List.append_nil]

theorem silent_tryCleanClose (h : c.active = false) : Silent c c.tryCleanClose := by
  refine ⟨tryCleanClose_active h, tryCleanClose_segmentsOut c, ?_⟩
  rw [inboundStream, tryCleanClose_receiver]
  rfl

/-- A segment that arrives leaves the sender with what it has to send. -/
theorem deliver_idle {seg : TCPSegment} (hset : (c.receiver.segmentReceived seg).setIsn = true)
    (hidle : c.sender.setFin = true ∨ windowEnd c.sender seg ≤ c.sender.nextSeqno ∨
      c.sender.nextSeqno ≠ 0 ∧ c.sender.stream.que = [] ∧ c.sender.stream.inputEnded = false) :
    (c.deliver seg).sender.Idle := by
  have hfree := c.deliver_freeWindow hset
  have hsame : (c.deliver seg).sender.setFin = c.sender.setFin ∧
      (c.deliver seg).sender.nextSeqno = c.sender.nextSeqno ∧
        (c.deliver seg).sender.stream = c.sender.stream := by
    rcases c.deliver_sender seg with ⟨-, -, heq⟩ | ⟨-, heq⟩
    · rw [heq]
      simp
    · rw [heq]
      exact ⟨rfl, rfl, rfl⟩
  obtain ⟨hfin, hnext, hstream⟩ := hsame
  unfold TCPSender.Idle
  rw [hfin, hnext, hstream, hfree]
  rcases hidle with hset | hfull | hempty
  · exact Or.inl hset
  · exact Or.inr (Or.inl (by omega))
  · exact Or.inr (Or.inr hempty)

/-- Nothing is sent in answer to an empty segment that opens no window. -/
theorem silent_answer (h : c.active = false) {seg : TCPSegment} (hlen : seg.lengthInSequenceSpace = 0)
    (hset : (c.receiver.segmentReceived seg).setIsn = true)
    (hstream : (c.receiver.segmentReceived seg).streamOut = c.receiver.streamOut)
    (hout : c.sender.segmentsOut = [])
    (hidle : c.sender.setFin = true ∨ windowEnd c.sender seg ≤ c.sender.nextSeqno ∨
      c.sender.nextSeqno ≠ 0 ∧ c.sender.stream.que = [] ∧ c.sender.stream.inputEnded = false) :
    Silent c ((({ c with waitSegmentTime := 0 }.deliver seg).fillWindow.reply
      seg).sendSegments.clearLinger).tryCleanClose := by
  generalize hc₀ : ({ c with waitSegmentTime := 0 } : TCPConnection) = c₀
  have hnote : Silent c c₀ := by
    subst hc₀
    exact ⟨h, rfl, rfl⟩
  have hdeliver : Silent c₀ (c₀.deliver seg) := by
    refine ⟨(deliver_active _ _).trans hnote.active, deliver_segmentsOut _ _, ?_⟩
    subst hc₀
    simp only [inboundStream, deliver_receiver, hstream]
  have hflush : Silent (c₀.deliver seg) (c₀.deliver seg).fillWindow.sendSegments := by
    refine silent_flush hdeliver.active ?_ ?_
    · rw [deliver_sender_segmentsOut]
      subst hc₀
      exact hout
    · subst hc₀
      exact deliver_idle hset hidle
  have hreply : (c₀.deliver seg).fillWindow.reply seg = (c₀.deliver seg).fillWindow := by
    rw [reply, if_neg fun hne => hne.1 hlen]
  rw [hreply]
  have hall := (hnote.trans hdeliver).trans hflush
  generalize (c₀.deliver seg).fillWindow.sendSegments = c₁ at hall ⊢
  have hlinger : Silent c₁ c₁.clearLinger := by
    refine ⟨clearLinger_active.trans hall.active, clearLinger_segmentsOut c₁, ?_⟩
    rw [inboundStream, clearLinger_receiver]
    rfl
  exact (hall.trans hlinger).trans (silent_tryCleanClose hlinger.active)

/-- A segment that arrives without anything to do. -/
theorem silent_segmentReceived (h : c.active = false) {seg : TCPSegment}
    (hq : (ConnectionCall.segmentReceived seg).Quiet c) : Silent c (c.segmentReceived seg) := by
  have hdead : (c.segmentReceived seg).active = false := call_active h (.segmentReceived seg)
  cases hrst : seg.header.rst with
  | true =>
    refine ⟨hdead, ?_, ?_⟩
    · simp only [segmentReceived, hrst, if_true, fail]
    · simp only [segmentReceived, hrst, if_true, fail]
      rfl
  | false =>
    obtain ⟨hisn, hset⟩ := c.receiver.segmentReceived_isn seg
    rcases hq with hq | ⟨hnone, hsyn⟩ | ⟨hlen, hpass, hout, hidle⟩
    · exact absurd hq (by simp [hrst])
    · -- before the SYN the receiver does not look at the segment
      have hsame := TCPReceiver.segmentReceived_before hnone hsyn
      rw [c.segmentReceived_eq hrst, hsame, hnone, if_neg Bool.false_ne_true] at hdead ⊢
      refine ⟨hdead, ?_, ?_⟩
      · rw [tryCleanClose_segmentsOut, deliver_segmentsOut]
      · simp only [inboundStream, tryCleanClose_receiver, deliver_receiver, hsame]
    · have hstream := TCPReceiver.segmentReceived_streamOut hlen hpass
      rw [c.segmentReceived_eq hrst] at hdead ⊢
      split_ifs at hdead ⊢ with hsome
      · exact silent_answer h hlen hsome hstream hout hidle
      · refine ⟨hdead, ?_, ?_⟩
        · rw [tryCleanClose_segmentsOut, deliver_segmentsOut]
        · simp only [inboundStream, tryCleanClose_receiver, deliver_receiver, hstream]

/-- **A quiet call is not heard.** -/
theorem silent_call (h : c.active = false) {e : ConnectionCall} (hq : e.Quiet c) : Silent c (c.call e) := by
  cases e with
  | connect => exact silent_flush h hq.1 hq.2
  | write data =>
    obtain ⟨hout, hidle⟩ := hq
    have hwrite : Silent c { c with sender := { c.sender with stream := (c.sender.stream.write data).2 } } :=
      ⟨h, rfl, rfl⟩
    refine (hwrite.trans (silent_flush h hout ?_)).trans (silent_tryCleanClose h)
    rcases hidle with hset | hfull | ⟨h0, hque, hnone, hend⟩
    · exact Or.inl hset
    · exact Or.inr (Or.inl hfull)
    · refine Or.inr (Or.inr ⟨h0, ?_, hend⟩)
      rw [ByteStream.write_que, hque, List.nil_append]
      rcases hnone with rfl | hfull
      · exact List.take_nil
      · rw [hfull, Nat.zero_min, List.take_zero]
  | endInputStream =>
    obtain ⟨hout, hidle⟩ := hq
    have hend : Silent c { c with sender := { c.sender with stream := c.sender.stream.endInput } } :=
      ⟨h, rfl, rfl⟩
    refine hend.trans (silent_flush h hout ?_)
    rcases hidle with hset | hfull
    · exact Or.inl hset
    · exact Or.inr (Or.inl hfull)
  | tick ms =>
    obtain ⟨hout, hnum, hexp, hrun⟩ := hq
    obtain ⟨hsame, hcount⟩ := TCPSender.tick_of_running hexp hrun
    have hdead := call_active h (.tick ms)
    simp only [call, tick, TCPSender.consecutiveRetransmissions, hcount, gt_iff_lt, not_lt.mpr hnum,
      if_false] at hdead ⊢
    refine ⟨hdead, ?_, ?_⟩
    · rw [tryCleanClose_segmentsOut]
      simp only [sendSegments, hsame, hout, List.map_nil, List.append_nil]
    · simp only [inboundStream, tryCleanClose_receiver, sendSegments]
  | segmentReceived seg => exact silent_segmentReceived h hq
  | read len => exact ⟨h, rfl, rfl⟩
  | take => exact absurd hq id
  | destroy =>
    simp only [call, destroy, h, Bool.false_eq_true, if_false]
    exact ⟨h, rfl, rfl⟩

/-- **A dead connection stays silent.** From every dead state that a connection reaches, in every
run of calls that find nothing to do, the connection stays dead, queues no segment and adds no byte
to its inbound stream. -/
theorem dead_stays_silent (cfg : TCPConfig) (random : WrappingInt32) (es : List ConnectionCall)
    (hdead : (after cfg random es).active = false) (later : List ConnectionCall)
    (hquiet : Along call (fun c e => e.Quiet c) (after cfg random es) later) :
    (runs call (after cfg random es) later).active = false ∧
      (runs call (after cfg random es) later).segmentsOut = (after cfg random es).segmentsOut ∧
      (runs call (after cfg random es) later).inboundStream.bytesWritten =
        (after cfg random es).inboundStream.bytesWritten := by
  have hsilent : Silent (after cfg random es) (runs call (after cfg random es) later) :=
    hquiet.invariant (fun _ _ hi hq => hi.trans (silent_call hi.active hq)) ⟨hdead, rfl, rfl⟩
  exact ⟨hsilent.active, hsilent.segmentsOut, hsilent.bytesWritten⟩

/-- A SYN arrives and is answered, and then a reset. -/
def resetConnection : List ConnectionCall :=
  [.segmentReceived { header := { syn := true } }, .take, .segmentReceived { header := { rst := true } }]

/-- After a reset, another one and the end of the outbound stream are not heard. -/
theorem dead_stays_silent_reset :
    (after {} ⟨0⟩ resetConnection).active = false ∧
      (runs call (after {} ⟨0⟩ resetConnection)
        [.segmentReceived { header := { rst := true } }, .endInputStream]).segmentsOut = [] := by
  refine ⟨by decide +kernel, ?_⟩
  have h := (dead_stays_silent {} ⟨0⟩ resetConnection (by decide +kernel)
    [.segmentReceived { header := { rst := true } }, .endInputStream] (by decide +kernel)).2.1
  rw [h]
  decide +kernel

/-- A dead connection that is heard: after a reset a byte arrives, is assembled and acknowledged. -/
theorem dead_connection_answers :
    (after {} ⟨0⟩ resetConnection).active = false ∧
      (after {} ⟨0⟩ resetConnection).segmentsOut = [] ∧
      (after {} ⟨0⟩ resetConnection).inboundStream.bytesWritten = 0 ∧
      (runs call (after {} ⟨0⟩ resetConnection)
        [.segmentReceived { header := { seqno := ⟨1⟩ }, payload := [97] }]).segmentsOut.length = 1 ∧
      (runs call (after {} ⟨0⟩ resetConnection)
        [.segmentReceived { header := { seqno := ⟨1⟩ }, payload := [97] }]).inboundStream.bytesWritten = 1 := by
  decide +kernel

end Silence

end TCPConnection

end Sponge
