import Sponge.Tcp.SenderProgress

/-!
# What the sender transmits

A sender makes segments in `fill_window` and nowhere else. `tick` sends the oldest one
again, and `send_empty_segment` sends a segment that carries nothing. Here a sender is
watched over a whole run: `Transmission` keeps, beside the sender, the bytes its stream
has accepted and the segments `fill_window` has made, in order.

## What is proved

* `Transmitted.fills` — a turn of the loop of `fill_window` adds the next part of the
  stream to what has been made.
* `created_tile` — in every run the segments made cover the sequence numbers from `0` to
  `next_seqno_absolute()`, one after the other, and carry exactly what has been read
  from the stream, with the SYN first and the FIN last.
-/

namespace Sponge

/-- What can be done with a sender. -/
inductive SenderCall where
  /-- The sender's input, its timer or an acknowledgment. -/
  | event (e : SenderEvent)
  /-- `send_empty_segment()`. -/
  | sendEmptySegment
  /-- The owner takes a segment from `segments_out()`. -/
  | take
  deriving DecidableEq

namespace TCPSender

/-- One call. -/
def call (s : TCPSender) : SenderCall → TCPSender
  | .event e => s.step e
  | .sendEmptySegment => s.sendEmptySegment
  | .take => { s with segmentsOut := s.segmentsOut.tail }

/-- The bytes that a call adds to the stream. -/
def accepts (s : TCPSender) : SenderCall → Bytes
  | .event (.write data) => data.take (s.stream.write data).1
  | _ => []

/-- The segments that `fill_window` makes: those it adds to the queue. -/
def created (s : TCPSender) : List TCPSegment := s.fillWindow.segmentsOut.drop s.segmentsOut.length

/-- The segments that a call makes. -/
def creates (s : TCPSender) : SenderCall → List TCPSegment
  | .event .fillWindow => s.created
  | _ => []

end TCPSender

/-- A sender, and what it has done so far. -/
structure Transmission where
  /-- The sender. -/
  sender : TCPSender
  /-- The bytes accepted by its stream. -/
  accepted : Bytes
  /-- The segments made by `fill_window`, in order. -/
  created : List TCPSegment

namespace Transmission

/-- A sender that has done nothing. -/
def start (s : TCPSender) : Transmission := ⟨s, [], []⟩

/-- One call. -/
def step (t : Transmission) (c : SenderCall) : Transmission where
  sender := t.sender.call c
  accepted := t.accepted ++ t.sender.accepts c
  created := t.created ++ t.sender.creates c

/-- Watching the sender does not change what it does. -/
theorem runs_sender (t : Transmission) (cs : List SenderCall) :
    (runs step t cs).sender = runs TCPSender.call t.sender cs := by
  induction cs generalizing t with
  | nil => rfl
  | cons c cs ih => exact ih (t.step c)

end Transmission

/-- A segment made for the position `x`. -/
structure MadeAt (isn : WrappingInt32) (x : ℕ) (seg : TCPSegment) : Prop where
  /-- Its sequence number is that of the position. -/
  seqno : seg.header.seqno = wrap x isn
  /-- It occupies at least one sequence number. -/
  pos : 0 < seg.lengthInSequenceSpace
  /-- The SYN is at position `0`. -/
  syn : seg.header.syn = true ↔ x = 0

/-- The segments made so far are the stream so far. -/
structure Transmitted (t : Transmission) : Prop where
  /-- Everything accepted has been written to the stream. -/
  written : t.sender.stream.bytesWritten = t.accepted.length
  /-- What has not been read from the stream is the rest of it. -/
  que : t.sender.stream.que = t.accepted.drop t.sender.stream.bytesRead
  /-- The segments follow each other. -/
  tiles : Tiles TCPSegment.lengthInSequenceSpace (MadeAt t.sender.isn) 0 t.created t.sender.nextSeqno
  /-- They carry what has been read. -/
  payloads : t.created.flatMap (·.payload) = t.accepted.take t.sender.stream.bytesRead
  /-- The sequence number counts the SYN, the bytes and the FIN. -/
  next : t.sender.nextSeqno = t.created.countP (·.header.syn) + t.sender.stream.bytesRead +
    t.created.countP (·.header.fin)
  /-- The FIN has been sent if a segment has carried it. -/
  setFin : t.sender.setFin = true ↔ ∃ seg ∈ t.created, seg.header.fin = true
  /-- Only the last one can carry it. -/
  fin : ∀ seg ∈ t.created.dropLast, seg.header.fin = false
  /-- What is kept for retransmission has been made. -/
  kept : ∀ seg ∈ t.sender.waitAck, seg ∈ t.created
  /-- What is queued has been made, or carries nothing. -/
  queued : ∀ seg ∈ t.sender.segmentsOut, 0 < seg.lengthInSequenceSpace → seg ∈ t.created

theorem transmitted_start (capacity : ℕ) (retxTimeout : UInt16) (fixedIsn : Option WrappingInt32)
    (random : WrappingInt32) :
    Transmitted (.start (TCPSender.make capacity retxTimeout fixedIsn random)) := by
  constructor <;> simp [Transmission.start, TCPSender.make, ByteStream.make, ByteStream.bytesRead,
    ByteStream.bytesWritten]

section Steps

open TCPSender

variable {s s' : TCPSender} {accepted : Bytes} {made : List TCPSegment}

/-- One more segment is made and sent. -/
theorem Transmitted.send (h : Transmitted ⟨s, accepted, made⟩) {w : ℕ} (hfin : s.setFin = false)
    (hlen : 0 < (s.nextSegment w).1.lengthInSequenceSpace) :
    Transmitted ⟨(s.advance w).transmit (s.nextSegment w).1, accepted,
      made ++ [(s.nextSegment w).1]⟩ := by
  have hread := s.nextSegment_bytesRead w
  have hque := h.que
  have hnofin : ∀ seg ∈ made, seg.header.fin = false := by
    intro seg hseg
    by_contra hset
    exact absurd (h.setFin.mpr ⟨seg, hseg, by simpa using hset⟩) (by simp [hfin])
  have hnew : MadeAt s.isn s.nextSeqno (s.nextSegment w).1 := ⟨rfl, hlen, s.nextSegment_syn w⟩
  constructor
  · exact h.written
  · simp only [transmit, advance] at hque ⊢
    rw [s.nextSegment_que w, hque, List.drop_drop, hread]
  · exact h.tiles.concat hnew
  · have hpay := h.payloads
    simp only [transmit, advance] at hpay hque ⊢
    rw [List.flatMap_append, List.flatMap_singleton, hpay, hread, List.take_add, ← hque,
      ← s.nextSegment_payload w]
  · have hnext := h.next
    have hlength := s.nextSegment_length w
    simp only [transmit, advance, List.countP_append, List.countP_singleton, nextSegment_syn] at hnext ⊢
    rw [hread]
    omega
  · simp only [transmit, advance, hfin, Bool.false_or, List.mem_append, List.mem_singleton]
    constructor
    · intro hset
      exact ⟨_, Or.inr rfl, hset⟩
    · rintro ⟨seg, hseg | rfl, hset⟩
      · exact absurd hset (by simp [hnofin seg hseg])
      · exact hset
  · simpa using hnofin
  · intro seg hseg
    rcases List.mem_append.mp hseg with hold | hone
    · exact List.mem_append_left _ (h.kept seg hold)
    · exact List.mem_append_right _ hone
  · intro seg hseg hpos
    rcases List.mem_append.mp hseg with hold | hone
    · exact List.mem_append_left _ (h.queued seg hold hpos)
    · exact List.mem_append_right _ hone

/-- **`fill_window` goes on where it stopped.** -/
theorem Transmitted.fills {w : ℕ} (h : Transmitted ⟨s, accepted, made⟩) (hf : Fills s w s') :
    ∃ l, s'.segmentsOut = s.segmentsOut ++ l ∧ Transmitted ⟨s', accepted, made ++ l⟩ := by
  induction hf generalizing made with
  | stop => exact ⟨[], by rw [List.append_nil], by rwa [List.append_nil]⟩
  | @send s _ w _ hfin hlen _ ih =>
    obtain ⟨l, hout, hl⟩ := ih (h.send hfin hlen)
    refine ⟨(s.nextSegment w).1 :: l, ?_, ?_⟩
    · rw [hout]
      simp only [transmit, advance, List.append_assoc, List.singleton_append]
    · rwa [List.append_assoc, List.singleton_append] at hl

/-- What `fill_window` makes. -/
theorem Transmitted.fillWindow (h : Transmitted ⟨s, accepted, made⟩) :
    Transmitted ⟨s.fillWindow, accepted, made ++ s.created⟩ := by
  obtain ⟨l, hout, hl⟩ := h.fills s.fillWindow_fills
  have hmade : s.created = l := by rw [created, hout, List.drop_left]
  rwa [hmade]

/-- **Every call keeps this.** -/
theorem Transmitted.step {t : Transmission} (h : Transmitted t) (c : SenderCall) :
    Transmitted (t.step c) := by
  obtain ⟨s, accepted, made⟩ := t
  cases c with
  | event e =>
    cases e with
    | fillWindow =>
      simp only [Transmission.step, accepts, creates, List.append_nil]
      exact h.fillWindow
    | write data =>
      have hwritten := h.written
      have hque := h.que
      have hcount := s.stream.count
      simp only [Transmission.step, accepts, creates, List.append_nil] at hwritten hque ⊢
      have hread : s.stream.bytesRead ≤ accepted.length := by
        rw [← hwritten]
        exact (Nat.le_add_right _ _).trans hcount.le
      refine ⟨?_, ?_, h.tiles, ?_, h.next, h.setFin, h.fin, h.kept, h.queued⟩
      · simp only [call, TCPSender.step, ByteStream.write_bytesWritten, ByteStream.write_fst,
          List.length_append, List.length_take, hwritten]
        omega
      · simp only [call, TCPSender.step, ByteStream.write_que, ByteStream.write_fst,
          ByteStream.write_bytesRead, hque]
        rw [List.drop_append_of_le_length hread]
      · have hpay := h.payloads
        simp only [call, TCPSender.step, ByteStream.write_bytesRead] at hpay ⊢
        rw [hpay, List.take_append_of_le_length hread]
    | endInput =>
      simp only [Transmission.step, accepts, creates, List.append_nil]
      exact ⟨h.written, h.que, h.tiles, h.payloads, h.next, h.setFin, h.fin, h.kept, h.queued⟩
    | tick ms =>
      obtain ⟨timer, num, again, hsub, heq⟩ := s.tick_eq ms
      simp only [Transmission.step, accepts, creates, List.append_nil, call, TCPSender.step, heq]
      refine ⟨h.written, h.que, h.tiles, h.payloads, h.next, h.setFin, h.fin, h.kept, ?_⟩
      intro seg hseg hpos
      rcases List.mem_append.mp hseg with hold | hagain
      · exact h.queued seg hold hpos
      · exact h.kept seg (hsub.subset hagain)
    | ackReceived n w =>
      have hsuffix := s.ackReceived_waitAck_suffix n w
      simp only [Transmission.step, accepts, creates, List.append_nil, call, TCPSender.step]
      refine ⟨?_, ?_, ?_, ?_, ?_, ?_, h.fin, fun seg hseg => h.kept seg (hsuffix.subset hseg), ?_⟩
      · simpa using h.written
      · simpa using h.que
      · simpa using h.tiles
      · simpa using h.payloads
      · simpa using h.next
      · simpa using h.setFin
      · simpa using h.queued
  | sendEmptySegment =>
    simp only [Transmission.step, accepts, creates, List.append_nil, call, sendEmptySegment]
    refine ⟨h.written, h.que, h.tiles, h.payloads, h.next, h.setFin, h.fin, h.kept, ?_⟩
    intro seg hseg hpos
    rcases List.mem_append.mp hseg with hold | hone
    · exact h.queued seg hold hpos
    · rw [List.mem_singleton.mp hone] at hpos
      exact absurd hpos (lt_irrefl 0)
  | take =>
    simp only [Transmission.step, accepts, creates, List.append_nil, call]
    refine ⟨h.written, h.que, h.tiles, h.payloads, h.next, h.setFin, h.fin, h.kept, ?_⟩
    intro seg hseg hpos
    exact h.queued seg (List.mem_of_mem_tail hseg) hpos

/-- The FIN is sent with the end of the stream. -/
theorem TCPSender.Fills.eof {w : ℕ} (h : Fills s w s') (hs : s.setFin = true → s.stream.eof = true) :
    s'.setFin = true → s'.stream.eof = true := by
  induction h with
  | stop => exact hs
  | @send s _ w _ hfin _ _ ih =>
    refine ih fun hset => ?_
    simp only [transmit, advance, hfin, Bool.false_or] at hset ⊢
    exact ((s.nextSegment_fin w).mp hset).1

/-- A FIN is made only when the input has ended and all that was accepted has been sent. -/
theorem Transmitted.eof_of_fin (h : Transmitted ⟨s, accepted, made⟩) {seg : TCPSegment}
    (hseg : seg ∈ s.created) (hfin : seg.header.fin = true) :
    s.fillWindow.stream.inputEnded = true ∧ s.fillWindow.stream.bytesRead = accepted.length := by
  have hopen : s.setFin = false := by
    by_contra hset
    rw [Bool.not_eq_false] at hset
    rw [created, TCPSender.fillWindow, if_pos hset, List.drop_length] at hseg
    exact absurd hseg List.not_mem_nil
  have hsent : s.fillWindow.setFin = true :=
    h.fillWindow.setFin.mpr ⟨seg, List.mem_append_right _ hseg, hfin⟩
  have heof := s.fillWindow_fills.eof (fun hset => absurd hset (by simp [hopen])) hsent
  obtain ⟨hend, hque⟩ := (ByteStream.eof_iff _).mp heof
  have hwritten := h.fillWindow.written
  have hcount := s.fillWindow.stream.bytesRead_add_bufferSize
  rw [ByteStream.bufferSize, hque, List.length_nil, Nat.add_zero] at hcount
  exact ⟨hend, hcount.trans hwritten⟩

end Steps

/-- The first segment carries the SYN, and no other. -/
theorem Transmitted.syn_iff {t : Transmission} (h : Transmitted t) {i : ℕ} {seg : TCPSegment}
    (hi : t.created[i]? = some seg) : seg.header.syn = true ↔ i = 0 := by
  obtain ⟨hlt, rfl⟩ := List.getElem?_eq_some_iff.mp hi
  -- the segment starts where those before it end
  have hsplit : t.created = t.created.take i ++ t.created[i] :: t.created.drop (i + 1) := by simp
  have htiles := h.tiles
  rw [hsplit] at htiles
  obtain ⟨x, hbefore, hat, -⟩ := tiles_append.mp htiles
  rw [hat.syn]
  constructor
  · rintro rfl
    have hnil := congrArg List.length (hbefore.eq_nil fun _ _ hmade => hmade.pos)
    rw [List.length_take, List.length_nil] at hnil
    omega
  · rintro rfl
    exact (tiles_nil.mp hbefore).symm

/-- Only the last segment can carry the FIN. -/
theorem Transmitted.fin_last {t : Transmission} (h : Transmitted t) {i : ℕ} {seg : TCPSegment}
    (hi : t.created[i]? = some seg) (hfin : seg.header.fin = true) : i + 1 = t.created.length := by
  obtain ⟨hlt, rfl⟩ := List.getElem?_eq_some_iff.mp hi
  by_contra hne
  have hmem : t.created[i] ∈ t.created.dropLast := by
    rw [List.mem_iff_getElem]
    exact ⟨i, by rw [List.length_dropLast]; omega, List.getElem_dropLast _⟩
  exact absurd hfin (by simp [h.fin _ hmem])

/-- In every run the segments made so far are the stream so far. -/
theorem transmitted_runs (capacity : ℕ) (retxTimeout : UInt16) (fixedIsn : Option WrappingInt32)
    (random : WrappingInt32) (cs : List SenderCall) :
    Transmitted (runs Transmission.step (.start (TCPSender.make capacity retxTimeout fixedIsn random)) cs) := by
  have hrun : Along Transmission.step (fun _ _ => True)
      (.start (TCPSender.make capacity retxTimeout fixedIsn random)) cs := along_true _ _
  exact hrun.invariant (fun _ c hi _ => hi.step c) (transmitted_start _ _ _ _)

/-- **The sender transmits exactly its stream.** In every run, the segments that `fill_window` has
made follow each other from `0` to `next_seqno_absolute()`; the first one and no other carries the
SYN, and only the last one can carry the FIN, which is made when the input has ended and all that
has been accepted has been sent; their payloads are what has been read from the stream; and all
that is queued otherwise is a copy of one of them or carries nothing. -/
theorem created_tile (capacity : ℕ) (retxTimeout : UInt16) (fixedIsn : Option WrappingInt32)
    (random : WrappingInt32) (cs : List SenderCall) :
    let s := runs TCPSender.call (TCPSender.make capacity retxTimeout fixedIsn random) cs
    let t := runs Transmission.step (.start (TCPSender.make capacity retxTimeout fixedIsn random)) cs
    t.sender = s ∧
    Tiles TCPSegment.lengthInSequenceSpace (fun x seg => seg.header.seqno = wrap x s.isn) 0 t.created
      s.nextSeqnoAbsolute ∧
    (∀ i seg, t.created[i]? = some seg → (seg.header.syn = true ↔ i = 0) ∧
      (seg.header.fin = true → i + 1 = t.created.length)) ∧
    t.created.flatMap (·.payload) = t.accepted.take s.streamIn.bytesRead ∧
    (∀ seg ∈ s.created, seg.header.fin = true → s.fillWindow.streamIn.inputEnded = true ∧
      s.fillWindow.streamIn.bytesRead = t.accepted.length) ∧
    s.nextSeqnoAbsolute = t.created.countP (·.header.syn) + s.streamIn.bytesRead +
      t.created.countP (·.header.fin) ∧
    ∀ seg ∈ s.segmentsOut, 0 < seg.lengthInSequenceSpace → seg ∈ t.created := by
  intro s t
  have hs : t.sender = s := Transmission.runs_sender _ cs
  have h : Transmitted t := transmitted_runs _ _ _ _ cs
  rw [← hs]
  refine ⟨rfl, ?_, ?_, h.payloads, ?_, h.next, h.queued⟩
  · exact h.tiles.imp fun _ _ _ _ hmade => hmade.seqno
  · intro i seg hi
    exact ⟨h.syn_iff hi, h.fin_last hi⟩
  · intro seg hseg hfin
    exact h.eof_of_fin hseg hfin

end Sponge
