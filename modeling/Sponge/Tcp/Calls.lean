import Sponge.Library.Runs
import Sponge.Tcp.Connection

/-!
# Runs of a connection

What an owner can do with a `TCPConnection`: call its operations, in any order and with
any arguments, read its inbound stream, and take segments from its queue. `queued` are
the segments that a call puts into the queue, and `receiverAt` is the receiver that they
are stamped with.

## What is proved

* `call_segmentsOut` — a call stamps what it queues with the receiver it works with.
* `call_active` — no call makes a dead connection alive.
* `after_sender_segmentsOut` — between calls the sender of a connection that is alive has nothing
  queued.
* `advertises_iff` — a segment queued after the peer's SYN advertises the receiver's
  window if and only if the window survives the conversion to 16 bits; `window_lost` is a
  run in which it does not.
-/

namespace Sponge

/-- What can be done with a connection. -/
inductive ConnectionCall where
  /-- `connect()`. -/
  | connect
  /-- `write(data)`. -/
  | write (data : Bytes)
  /-- `end_input_stream()`. -/
  | endInputStream
  /-- `tick(ms)`. -/
  | tick (ms : ℕ)
  /-- `segment_received(seg)`. -/
  | segmentReceived (seg : TCPSegment)
  /-- `inbound_stream().read(len)`. -/
  | read (len : ℕ)
  /-- The owner takes a segment from `segments_out()`. -/
  | take
  /-- The destructor runs. -/
  | destroy
  deriving DecidableEq

namespace TCPConnection

/-- `~TCPConnection`: a connection that is still alive tells its peer. -/
def destroy (c : TCPConnection) : TCPConnection :=
  if c.active then c.sendRstSeg.fail.sendSegments else c

/-- One call. -/
def call (c : TCPConnection) : ConnectionCall → TCPConnection
  | .connect => c.connect
  | .write data => (c.write data).2
  | .endInputStream => c.endInputStream
  | .tick ms => c.tick ms
  | .segmentReceived seg => c.segmentReceived seg
  | .read len => (c.readInbound len).2
  | .take => { c with segmentsOut := c.segmentsOut.tail }
  | .destroy => c.destroy

/-- The connection after some calls. -/
abbrev after (cfg : TCPConfig) (random : WrappingInt32) (es : List ConnectionCall) : TCPConnection :=
  runs call (make cfg random) es

/-- The segments that a call puts into the queue. -/
def queued (c : TCPConnection) (e : ConnectionCall) : List TCPSegment :=
  (c.call e).segmentsOut.drop c.segmentsOut.length

/-- The receiver at the moment a call queues its segments: after the segment that has arrived. -/
def receiverAt (c : TCPConnection) : ConnectionCall → TCPReceiver
  | .segmentReceived seg => c.receiver.segmentReceived seg
  | _ => c.receiver

/-! ### What a call queues -/

section Queue

variable (c : TCPConnection)

@[simp] theorem tryCleanClose_segmentsOut : c.tryCleanClose.segmentsOut = c.segmentsOut := by
  unfold tryCleanClose
  split <;> rfl

@[simp] theorem clearLinger_segmentsOut : c.clearLinger.segmentsOut = c.segmentsOut := by
  unfold clearLinger
  split <;> rfl

@[simp] theorem reply_segmentsOut (seg : TCPSegment) : (c.reply seg).segmentsOut = c.segmentsOut := by
  unfold reply
  split <;> rfl

@[simp] theorem reply_receiver (seg : TCPSegment) : (c.reply seg).receiver = c.receiver := by
  unfold reply
  split <;> rfl

/-- The stamp does not depend on errors of the streams. -/
@[simp] theorem stamp_setError (r : TCPReceiver) : stamp r.setError = stamp r := rfl

end Queue

/-- A segment that arrives, not a reset. -/
theorem segmentReceived_eq (c : TCPConnection) {seg : TCPSegment} (hrst : seg.header.rst = false) :
    c.segmentReceived seg =
      if (c.receiver.segmentReceived seg).setIsn then
        ((({ c with waitSegmentTime := 0 }.deliver seg).fillWindow.reply seg).sendSegments.clearLinger).tryCleanClose
      else ({ c with waitSegmentTime := 0 }.deliver seg).tryCleanClose := by
  have hsome : ({ c with waitSegmentTime := 0 }.deliver seg).receiver.ackno.isSome =
      (c.receiver.segmentReceived seg).setIsn := by
    rw [deliver_receiver, TCPReceiver.ackno_eq]
    split <;> simp_all
  simp only [segmentReceived, hrst, Bool.false_eq_true, if_false, hsome]

/-- **A call stamps what it queues** with the receiver it works with, and leaves what was queued. -/
theorem call_segmentsOut (c : TCPConnection) (e : ConnectionCall) (he : e ≠ .take) :
    ∃ l : List TCPSegment, (c.call e).segmentsOut = c.segmentsOut ++ l.map (stamp (c.receiverAt e)) := by
  cases e with
  | connect => exact ⟨c.sender.fillWindow.segmentsOut, rfl⟩
  | write data =>
    simp only [call, write, tryCleanClose_segmentsOut]
    exact ⟨_, rfl⟩
  | endInputStream => exact ⟨_, rfl⟩
  | tick ms =>
    simp only [call, tick]
    split_ifs
    · exact ⟨[_], rfl⟩
    · rw [tryCleanClose_segmentsOut]
      exact ⟨_, rfl⟩
  | segmentReceived seg =>
    cases hrst : seg.header.rst with
    | true =>
      refine ⟨[], ?_⟩
      simp only [call, segmentReceived, hrst, if_true, List.map_nil, List.append_nil]
      rfl
    | false =>
      simp only [call, c.segmentReceived_eq hrst]
      split_ifs
      · refine ⟨((({ c with waitSegmentTime := 0 }.deliver seg).fillWindow.reply seg).sender.segmentsOut), ?_⟩
        simp only [tryCleanClose_segmentsOut, clearLinger_segmentsOut, sendSegments, reply_segmentsOut,
          reply_receiver, fillWindow, deliver_segmentsOut, deliver_receiver, receiverAt]
      · refine ⟨[], ?_⟩
        simp only [tryCleanClose_segmentsOut, deliver_segmentsOut, List.map_nil, List.append_nil]
  | read len => exact ⟨[], by rw [List.map_nil, List.append_nil]; rfl⟩
  | take => exact absurd rfl he
  | destroy =>
    simp only [call, destroy]
    split_ifs
    · refine ⟨{ header := { rst := true, seqno := c.sender.nextSeqnoWrapped } } :: c.sender.segmentsOut, ?_⟩
      simp only [sendSegments, fail, sendRstSeg, TCPSender.setError, stamp_setError, List.map_cons,
        List.append_assoc, List.singleton_append, receiverAt]
    · exact ⟨[], by rw [List.map_nil, List.append_nil]⟩

/-- What is queued has been stamped. -/
theorem mem_queued {c : TCPConnection} {e : ConnectionCall} {seg : TCPSegment} (h : seg ∈ c.queued e) :
    ∃ seg', seg = stamp (c.receiverAt e) seg' := by
  by_cases he : e = .take
  · subst he
    have hnil : c.queued .take = [] := by simp [queued, call]
    rw [hnil] at h
    exact absurd h List.not_mem_nil
  · obtain ⟨l, hl⟩ := c.call_segmentsOut e he
    rw [queued, hl, List.drop_left] at h
    obtain ⟨seg', -, rfl⟩ := List.mem_map.mp h
    exact ⟨seg', rfl⟩

/-! ### No call brings a connection back to life -/

section Dead

variable {c : TCPConnection}

theorem tryCleanClose_active (h : c.active = false) : c.tryCleanClose.active = false := by
  unfold tryCleanClose
  split
  · rfl
  · exact h

@[simp] theorem clearLinger_active : c.clearLinger.active = c.active := by
  unfold clearLinger
  split <;> rfl

@[simp] theorem reply_active (seg : TCPSegment) : (c.reply seg).active = c.active := by
  unfold reply
  split <;> rfl

/-- **A dead connection stays dead.** -/
theorem call_active (h : c.active = false) (e : ConnectionCall) : (c.call e).active = false := by
  cases e with
  | connect => exact h
  | write data => exact tryCleanClose_active h
  | endInputStream => exact h
  | tick ms =>
    simp only [call, tick]
    split_ifs
    · rfl
    · exact tryCleanClose_active h
  | segmentReceived seg =>
    cases hrst : seg.header.rst with
    | true => simp only [call, segmentReceived, hrst, if_true, fail]
    | false =>
      simp only [call, c.segmentReceived_eq hrst]
      split_ifs
      · refine tryCleanClose_active ?_
        rw [clearLinger_active]
        simp only [sendSegments, reply_active, fillWindow, deliver_active, h]
      · exact tryCleanClose_active (by rw [deliver_active]; exact h)
  | read len => exact h
  | take => exact h
  | destroy =>
    simp only [call, destroy, h, Bool.false_eq_true, if_false]

/-- A connection that is alive after a call was alive before. -/
theorem active_of_call {e : ConnectionCall} (h : (c.call e).active = true) : c.active = true := by
  by_contra hdead
  rw [Bool.not_eq_true] at hdead
  exact absurd h (by simp [call_active hdead])

/-- **Between calls the sender of a connection that is alive has nothing queued**: whatever it queues is
sent by the end of the call. -/
theorem call_sender_segmentsOut (hempty : c.active = true → c.sender.segmentsOut = []) {e : ConnectionCall}
    (halive : (c.call e).active = true) : (c.call e).sender.segmentsOut = [] := by
  have hbefore := hempty (active_of_call halive)
  cases e with
  | connect => rfl
  | write data => simp only [call, write, tryCleanClose_sender, sendSegments]
  | endInputStream => rfl
  | tick ms =>
    simp only [call, tick] at halive ⊢
    split_ifs at halive ⊢
    · exact absurd halive Bool.false_ne_true
    · simp only [tryCleanClose_sender, sendSegments]
  | segmentReceived seg =>
    cases hrst : seg.header.rst with
    | true =>
      simp only [call, segmentReceived, hrst, if_true, fail] at halive
      exact absurd halive Bool.false_ne_true
    | false =>
      simp only [call, c.segmentReceived_eq hrst]
      split_ifs
      · simp only [tryCleanClose_sender, clearLinger_sender, sendSegments]
      · rw [tryCleanClose_sender, deliver_sender_segmentsOut]
        exact hbefore
  | read len => exact hbefore
  | take => exact hbefore
  | destroy =>
    simp only [call, destroy] at halive ⊢
    split_ifs at halive ⊢
    · rfl
    · exact hbefore

theorem after_sender_segmentsOut {cfg : TCPConfig} {random : WrappingInt32} {es : List ConnectionCall}
    (halive : (after cfg random es).active = true) : (after cfg random es).sender.segmentsOut = [] := by
  have hrun : Along call (fun _ _ => True) (make cfg random) es := along_true _ _
  exact hrun.invariant (I := fun c => c.active = true → c.sender.segmentsOut = [])
    (fun _ _ hi _ => call_sender_segmentsOut hi) (fun _ => rfl) halive

end Dead

/-! ### The window that is advertised -/

/-- The segment tells the peer what the receiver is waiting for and how much there is room for. -/
structure Advertises (r : TCPReceiver) (seg : TCPSegment) : Prop where
  /-- It acknowledges something. -/
  ack : seg.header.ack = true
  /-- It acknowledges what the receiver has. -/
  ackno : r.ackno = some seg.header.ackno
  /-- The window is the receiver's, as far as the field allows. -/
  win : seg.header.win.toNat = min r.windowSize 65535
  /-- A window that is open is not advertised as closed. -/
  opens : 0 < r.windowSize → seg.header.win ≠ 0

/-- A window that 16 bits can show: at most `65535`, or one whose last 16 bits are all set. -/
def Fits (windowSize : ℕ) : Prop := windowSize ≤ 65535 ∨ windowSize % 65536 = 65535

instance (windowSize : ℕ) : Decidable (Fits windowSize) := inferInstanceAs (Decidable (_ ∨ _))

/-- A stamped segment advertises the window if the window fits. -/
theorem advertises_stamp_iff {r : TCPReceiver} (hset : r.setIsn = true) (seg : TCPSegment) :
    Advertises r (stamp r seg) ↔ Fits r.windowSize := by
  obtain ⟨hack, hackno, hwin⟩ := stamp_of_setIsn r seg hset
  have hmod : (stamp r seg).header.win.toNat = r.windowSize % 65536 := by
    rw [hwin, UInt16.toNat_ofNat']
  constructor
  · intro h
    have hmin := h.win
    rw [hmod] at hmin
    unfold Fits
    omega
  · intro h
    have hmin : (stamp r seg).header.win.toNat = min r.windowSize 65535 := by
      unfold Fits at h
      rw [hmod]
      omega
    refine ⟨hack, ?_, hmin, fun hpos h0 => ?_⟩
    · rw [TCPReceiver.ackno_eq, if_pos hset, hackno]
    · rw [h0, UInt16.toNat_zero] at hmin
      omega

/-- **When the window is advertised.** In every run, every segment that a call queues after the
peer's SYN has arrived acknowledges what the receiver has at that moment and advertises its window,
up to the largest that a header can hold, if and only if that window fits into the field. -/
theorem advertises_iff (cfg : TCPConfig) (random : WrappingInt32) (es : List ConnectionCall)
    (e : ConnectionCall) (seg : TCPSegment) (hseg : seg ∈ (after cfg random es).queued e)
    (hset : ((after cfg random es).receiverAt e).setIsn = true) :
    Advertises ((after cfg random es).receiverAt e) seg ↔
      Fits ((after cfg random es).receiverAt e).windowSize := by
  obtain ⟨seg', rfl⟩ := mem_queued hseg
  exact advertises_stamp_iff hset seg'

/-- The answer to a SYN, with the default capacity. -/
theorem advertises_iff_default :
    ∃ seg ∈ (after {} ⟨0⟩ []).queued (.segmentReceived { header := { syn := true } }),
      Advertises ((after {} ⟨0⟩ []).receiverAt (.segmentReceived { header := { syn := true } })) seg := by
  refine ⟨{ header := { syn := true, ack := true, ackno := ⟨1⟩, win := 64000 } }, by decide +kernel, ?_⟩
  exact (advertises_iff {} ⟨0⟩ [] (.segmentReceived { header := { syn := true } }) _ (by decide +kernel)
    (by decide +kernel)).mpr (by decide +kernel)

/-- A connection with room for `65536` bytes answers a SYN, and advertises no room at all. -/
theorem window_lost :
    ∃ seg ∈ (after { recvCapacity := 65536 } ⟨0⟩ []).queued (.segmentReceived { header := { syn := true } }),
      ((after { recvCapacity := 65536 } ⟨0⟩ []).receiverAt
        (.segmentReceived { header := { syn := true } })).windowSize = 65536 ∧ seg.header.win = 0 ∧
      ¬ Advertises ((after { recvCapacity := 65536 } ⟨0⟩ []).receiverAt
        (.segmentReceived { header := { syn := true } })) seg := by
  refine ⟨{ header := { syn := true, ack := true, ackno := ⟨1⟩, win := 0 } }, by decide +kernel,
    by decide +kernel, rfl, fun h => ?_⟩
  exact h.opens (by decide +kernel) rfl

end TCPConnection

end Sponge
