import Sponge.Network.Moves
import Sponge.Network.Opening
import Sponge.Tcp.Acknowledgments
import Sponge.Tcp.Replies

/-!
# Recovery from loss

A segment that is lost is sent again when the timer expires. That is of use only if the other side
can do something with it, whatever has been lost, repeated or reordered before, and if the sender
understands the reply.

## What is proved

* `TCPReceiver.reaches` — a receiver with room takes all of a segment that begins where it has got
  to or before.
* `World.seen` — what has been acknowledged has been acknowledged by a receiver that has seen the
  SYN.
* `retransmission_recovers` — from every reachable state in which the streams are short, one timeout
  and one undisturbed round trip settle the oldest segment that is outstanding.
-/

namespace Sponge

open StreamReassembler

/-! ### What the receiver makes of a segment -/

/-- Data that reaches the next index and fits is written, and with it the end. -/
theorem StreamReassembler.pushSubstring_reaches {r : StreamReassembler} {data : Bytes} {index : ℕ} (eof : Bool)
    (hstart : index ≤ r.output.bytesWritten) (hstop : r.output.bytesWritten ≤ index + data.length)
    (hfits : index + data.length ≤ r.output.limit) :
    index + data.length ≤ (r.pushSubstring data index eof).output.bytesWritten ∧
      (eof = true → (r.pushSubstring data index eof).output.inputEnded = true) := by
  rw [pushSubstring_direct eof hstart hstop hfits]
  have hput := ByteStream.put_drop_bytesWritten eof hstart hstop hfits
  have hgrows := fetchLoop_grows (r.output.put (data.drop (r.output.bytesWritten - index)) eof) r.remaincapacity r.head
  refine ⟨hput ▸ hgrows.bytesWritten_le, fun heof => hgrows.inputEnded ?_⟩
  simp [heof]

namespace TCPReceiver

variable {r : TCPReceiver} {o : Offer} {limit x : ℕ} {seg : TCPSegment}

/-- A segment that begins where the receiver has got to or before is not dropped. -/
theorem segmentReceived_pushes (hx : CarriesAt o limit seg x) (hisn : r.setIsn = true → r.isn = o.isn)
    (hseen : r.setIsn = true ∨ x = 0) (hnear : x < 2 ^ 31) (hshort : r.streamOut.bytesWritten < 2 ^ 31)
    (hcapacity : 1 ≤ r.capacity) (hle : x ≤ r.streamOut.bytesWritten + 1) :
    (r.segmentReceived seg).reassembler = r.reassembler.pushSubstring seg.payload (x - 1) seg.header.fin := by
  cases hsyn : seg.header.syn with
  | true =>
    obtain rfl := hx.syn.mp hsyn
    have hseqno : seg.header.seqno = o.isn := by rw [hx.seqno, wrap_zero]
    have hnext : o.isn.add 1 = wrap 1 o.isn := by
      have hsucc := wrap_succ o.isn 0
      rwa [wrap_zero] at hsucc
    have hone : unwrap (wrap 1 o.isn) o.isn r.streamOut.bytesWritten = 1 := unwrap_wrap _ (by omega) (by omega)
    unfold segmentReceived
    simp only [hsyn, if_true, hseqno, hnext, streamOut] at hone hcapacity ⊢
    rw [hone, if_neg (by omega)]
  | false =>
    have hx0 : x ≠ 0 := fun h0 => by simp [hx.syn.mpr h0] at hsyn
    have hset := hseen.resolve_right hx0
    have hdistance : distance x r.streamOut.bytesWritten < 2 ^ 31 := by
      unfold distance
      omega
    rw [segmentReceived_near hset hsyn (by rw [hx.seqno, hisn hset]) hdistance, if_pos (by omega)]

/-- **A receiver takes what it can use.** If there is room, and the segment begins where the
receiver has got to or before, the receiver gets to the end of it. -/
theorem reaches (hx : CarriesAt o r.reassembler.output.limit seg x) (hisn : r.setIsn = true → r.isn = o.isn)
    (hseen : r.setIsn = true ∨ x = 0) (hnear : x < 2 ^ 31) (hshort : r.streamOut.bytesWritten < 2 ^ 31)
    (hcapacity : 1 ≤ r.capacity) (hle : x ≤ r.position) (hroom : r.streamOut.bytesWritten < r.reassembler.output.limit)
    (hended : r.streamOut.inputEnded = true → r.streamOut.bytesWritten = o.bytes.length)
    (hpos : 0 < seg.lengthInSequenceSpace) : x + seg.lengthInSequenceSpace ≤ (r.segmentReceived seg).position := by
  have hgrows := position_le (r.segmentReceived_grows seg)
  by_cases hdone : x + seg.lengthInSequenceSpace ≤ r.position
  · exact hdone.trans hgrows
  have hlength : seg.lengthInSequenceSpace =
      seg.payload.length + (if x = 0 then 1 else 0) + if seg.header.fin then 1 else 0 := by
    simp only [TCPSegment.lengthInSequenceSpace, hx.syn]
  -- the input has not ended: otherwise there would be nothing new in the segment
  have hopen : ¬ r.reassembler.output.inputEnded = true := by
    intro hend
    have hstop := hx.stop_le hpos
    have hall : r.reassembler.output.bytesWritten = o.bytes.length := hended hend
    rw [position_of_inputEnded hend, hlength] at hdone
    split_ifs at hdone <;> omega
  have hposition := position_of_not_inputEnded hopen
  have hbytes : r.streamOut.bytesWritten = r.reassembler.output.bytesWritten := rfl
  rw [hbytes] at hshort hroom
  have hpush := segmentReceived_pushes hx hisn hseen hnear hshort hcapacity (by omega)
  have hfits : x - 1 + seg.payload.length ≤ r.reassembler.output.limit := by
    rcases hx.small with hs | hs <;> omega
  have hreach : r.reassembler.output.bytesWritten ≤ x - 1 + seg.payload.length := by
    rw [hlength] at hdone
    split_ifs at hdone <;> omega
  obtain ⟨hwritten, hfin⟩ := pushSubstring_reaches seg.header.fin (by omega) hreach hfits
  rw [← hpush] at hwritten hfin
  cases hf : seg.header.fin with
  | true =>
    rw [position_of_inputEnded (hfin hf), hlength, hf, if_pos rfl]
    split_ifs <;> omega
  | false =>
    have hlast : (r.segmentReceived seg).reassembler.output.bytesWritten + 1 ≤ (r.segmentReceived seg).position := by
      unfold position
      exact (Nat.add_comm _ _).le.trans (Nat.le_add_right _ _)
    rw [hlength, hf, if_neg Bool.false_ne_true]
    split_ifs <;> omega

end TCPReceiver

/-! ### What has been acknowledged -/

/-- What each side has had acknowledged, the other has acknowledged after it has seen the SYN. -/
def Seen (p q : Peer) : Prop :=
  (p.sender.base ≠ 0 → q.receiver.setIsn = true) ∧ (q.sender.base ≠ 0 → p.receiver.setIsn = true)

theorem Seen.symm {p q : Peer} (h : Seen p q) : Seen q p := And.symm h

theorem Seen.micro {p q p' : Peer} (h : Seen p q) (hhalf : Half p q) (hm : Micro q.wire p p') : Seen p' q := by
  have hset : p.receiver.setIsn = true → p'.receiver.setIsn = true := by
    intro hset
    rcases hm.receiver_cases with ⟨seg, -, -, heq⟩ | ⟨hsame, -⟩
    · rw [heq, (p.receiver.segmentReceived_isn seg).2, hset, Bool.true_or]
    · rw [hsame, hset]
  refine ⟨fun hbase => ?_, fun hbase => hset (h.2 hbase)⟩
  cases hm with
  | @deliver seg hseg hrst =>
    rcases p.deliver_sender seg with ⟨-, hack, -⟩ | ⟨-, heq⟩
    · exact (hhalf.acks seg (Peer.mem_outgoing.mpr (Or.inr hseg)) hrst hack).1
    · exact h.1 (heq ▸ hbase)
  | fillWindow => exact h.1 (p.sender.fillWindow_fills.base_eq ▸ hbase)
  | tick ms =>
    obtain ⟨timer, num, again, -, heq⟩ := p.sender.tick_eq ms
    rw [Peer.onSender_sender, heq] at hbase
    exact h.1 hbase
  | _ => exact h.1 hbase

/-- In every run, as long as the streams are short. -/
theorem World.seen {cfg : Side → TCPConfig} {random : Side → WrappingInt32} {es : List Event}
    (h : World.Allowed cfg random es) (hshort : ∀ s, (World.after cfg random es s).Short) (s : Side) :
    Seen (World.after cfg random es s) (World.after cfg random es s.other) :=
  World.short_invariant (I := Seen) Seen.symm (fun _ _ hhalf _ _ hi hm => hi.micro hhalf hm)
    (fun _ _ _ _ => ⟨fun hbase => absurd rfl hbase, fun hbase => absurd rfl hbase⟩) h hshort s

/-! ### What the sender makes of the reply -/

namespace TCPSender

/-- An acknowledgment of a position behind the oldest segment settles that segment. -/
theorem Outstanding.base_of_acked {s : TCPSender} (hs : Outstanding s) {front : TCPSegment} {rest : List TCPSegment}
    (hwait : s.waitAck = front :: rest) {n : WrappingInt32} {a : ℕ} (w : UInt16) (hn : Denotes s n a)
    (hshort : s.nextSeqno < 2 ^ 31) (ha : s.base + front.lengthInSequenceSpace ≤ a) :
    s.base + front.lengthInSequenceSpace ≤ (s.ackReceived n w).base := by
  have hle := hs.le
  have hale := hn.le
  have hunwrap : unwrap n s.isn s.nextSeqno = a := by
    rw [hn.wrap]
    exact unwrap_wrap _ (by omega) (by omega)
  obtain ⟨-, popped, hpopped, htiles, -⟩ := hs.acked w (show unwrap n s.isn s.nextSeqno ≤ s.nextSeqno by omega)
  cases popped with
  | nil =>
    -- then nothing would have been removed, though the segment is covered
    have hplaces := hs.acked_places w hn (by omega)
    rw [← tiles_nil.mp htiles, ← List.nil_append (s.ackReceived n w).waitAck, ← hpopped, hwait] at hplaces
    have hmem : (s.base, front) ∈ places TCPSegment.lengthInSequenceSpace s.base (front :: rest) :=
      List.mem_cons_self
    rw [hplaces] at hmem
    exact absurd (of_decide_eq_true (List.mem_filter.mp hmem).2) (not_lt.mpr ha)
  | cons seg popped =>
    rw [hwait] at hpopped
    obtain rfl : front = seg := (List.cons.inj hpopped).1
    exact htiles.2.le

end TCPSender

namespace TCPConnection

variable {c : TCPConnection} {seg : TCPSegment}

/-- An acknowledgment does to the outstanding segments of a connection what it does to those of its
sender. -/
theorem segmentReceived_base (hrst : seg.header.rst = false) (hset : (c.receiver.segmentReceived seg).setIsn = true)
    (hack : seg.header.ack = true) : (c.segmentReceived seg).sender.base =
      (c.sender.ackReceived seg.header.ackno seg.header.win).base := by
  rw [c.segmentReceived_eq hrst, if_pos hset, tryCleanClose_sender, clearLinger_sender]
  generalize hc : ({ c with waitSegmentTime := 0 } : TCPConnection).deliver seg = c₁
  have hsender : c₁.sender = c.sender.ackReceived seg.header.ackno seg.header.win := by
    rcases ({ c with waitSegmentTime := 0 } : TCPConnection).deliver_sender seg with ⟨-, -, heq⟩ | ⟨hnot, -⟩
    · rw [← hc, heq]
    · exact absurd (hnot hset) (by simp [hack])
  have hreply : (c₁.fillWindow.reply seg).sendSegments.sender.base = c₁.fillWindow.sender.base := by
    unfold reply
    split_ifs <;> rfl
  rw [hreply, ← hsender]
  exact c₁.sender.fillWindow_fills.base_eq

/-- What the sender queues while a segment is received is not a reset. -/
theorem reply_rst (hs : c.sender.Outstanding) (hempty : c.sender.segmentsOut = []) :
    ∀ out ∈ ((c.deliver seg).fillWindow.reply seg).sender.segmentsOut, out.header.rst = false := by
  have hkept : ∀ out ∈ (c.deliver seg).sender.waitAck, out.header.rst = false := by
    have hs' : (c.deliver seg).sender.Outstanding := by
      rcases c.deliver_sender seg with ⟨-, -, heq⟩ | ⟨-, heq⟩ <;> rw [heq]
      · exact hs.ackReceived _
      · exact hs
    intro out hout
    obtain ⟨x, -, -, hstart⟩ := hs'.tiles.exists_of_mem hout
    exact hstart.rst
  have hfill : ∀ out ∈ (c.deliver seg).fillWindow.sender.segmentsOut, out.header.rst = false := by
    intro out hout
    rcases (c.deliver seg).sender.fillWindow_fills.made (Or.inl hout) with (hold | hold) | ⟨s, w, rfl, -⟩
    · rw [deliver_sender_segmentsOut, hempty] at hold
      exact absurd hold List.not_mem_nil
    · exact hkept out hold
    · rfl
  unfold reply
  split_ifs
  · exact List.forall_mem_append.mpr ⟨hfill, List.forall_mem_singleton.mpr rfl⟩
  · exact hfill

/-- **The replies** to a segment that occupies sequence numbers: there are some, all acknowledge
what the receiver has then, and no reset is among them. -/
theorem segmentReceived_replies (hs : c.sender.Outstanding) (hrst : seg.header.rst = false)
    (hset : (c.receiver.segmentReceived seg).setIsn = true) (hempty : c.sender.segmentsOut = [])
    (hpos : 0 < seg.lengthInSequenceSpace) :
    ∃ replies, replies ≠ [] ∧ (c.segmentReceived seg).segmentsOut = c.segmentsOut ++ replies ∧
      ∀ reply ∈ replies, reply.header.rst = false ∧ reply.header.ack = true ∧ reply.header.ackno =
        wrap (c.receiver.segmentReceived seg).position (c.receiver.segmentReceived seg).isn := by
  obtain ⟨l, hqueue, -, hne⟩ := segmentReceived_of_setIsn hrst hset hempty
  refine ⟨_, ?_, hqueue, ?_⟩
  · rw [ne_eq, List.map_eq_nil_iff]
    exact hne hpos.ne'
  -- the same queue, as the sender has left it
  have hsender : (c.segmentReceived seg).segmentsOut = c.segmentsOut ++
      ((({ c with waitSegmentTime := 0 } : TCPConnection).deliver seg).fillWindow.reply seg).sender.segmentsOut.map
        (stamp (c.receiver.segmentReceived seg)) := by
    rw [c.segmentReceived_eq hrst, hset, if_pos rfl]
    simp only [tryCleanClose_segmentsOut, clearLinger_segmentsOut, sendSegments, reply_segmentsOut, reply_receiver,
      fillWindow, deliver_receiver, deliver_segmentsOut]
  rw [List.append_cancel_left (hqueue.symm.trans hsender)]
  refine List.forall_mem_map.mpr fun out hout => ?_
  obtain ⟨hack, hackno, -⟩ := stamp_of_setIsn (c.receiver.segmentReceived seg) out hset
  have hrst' := reply_rst (c := { c with waitSegmentTime := 0 }) hs hempty out hout
  exact ⟨by rw [stamp_rst, hrst'], hack, hackno⟩

/-- **What a tick sends again** is the oldest segment that is outstanding, which stays outstanding.
-/
theorem tick_resends (hempty : c.sender.segmentsOut = []) {ms : ℕ} (halive : (c.tick ms).active = true)
    (hagain : (c.tick ms).segmentsOut ≠ c.segmentsOut) : ∃ front rest, c.sender.waitAck = front :: rest ∧
      (c.tick ms).segmentsOut = c.segmentsOut ++ [stamp c.receiver front] ∧ (c.tick ms).receiver = c.receiver ∧
      (c.tick ms).sender.waitAck = c.sender.waitAck ∧ (c.tick ms).sender.base = c.sender.base := by
  simp only [tick] at halive hagain ⊢
  split_ifs at halive hagain ⊢
  · exact absurd halive Bool.false_ne_true
  simp only [tryCleanClose_segmentsOut, tryCleanClose_receiver, tryCleanClose_sender, sendSegments] at hagain ⊢
  simp only [TCPSender.tick, hempty] at hagain ⊢
  split_ifs at hagain ⊢ with hexpired
  · cases hwait : c.sender.waitAck with
    | nil => simp [hwait] at hexpired
    | cons front rest => exact ⟨front, rest, rfl, rfl, trivial, rfl, rfl⟩
  · exact absurd (List.append_nil _) hagain

end TCPConnection

/-! ### The whole round trip -/

/-- What happens to a side in a step of the two is at most one call of its connection. -/
theorem World.conn_step (w : World) (e : Event) (s : Side) :
    (w.step e s).conn = (w s).conn ∨ ∃ call, (w.step e s).conn = (w s).conn.call call := by
  have hother : ∀ {t : Side} {p : Peer}, (∃ call, p.conn = (w t).conn.call call) →
      (Function.update w t p s).conn = (w s).conn ∨ ∃ call, (Function.update w t p s).conn = (w s).conn.call call := by
    intro t p hcall
    by_cases hst : s = t
    · subst hst
      rw [Function.update_self]
      exact Or.inr hcall
    · rw [Function.update_of_ne hst]
      exact Or.inl rfl
  cases e with
  | app t op =>
    refine hother ?_
    cases op with
    | connect => exact ⟨.connect, rfl⟩
    | write data => exact ⟨.write data, rfl⟩
    | endInputStream => exact ⟨.endInputStream, rfl⟩
    | tick ms => exact ⟨.tick ms, rfl⟩
    | read len => exact ⟨.read len, rfl⟩
  | send t =>
    refine hother ⟨.take, ?_⟩
    unfold Peer.send
    split
    · rename_i hnil
      simp only [TCPConnection.call, hnil, List.tail_nil]
      rw [← hnil]
    · rename_i hcons
      simp only [TCPConnection.call, hcons, List.tail_cons]
  | deliver t i =>
    cases hwire : (w t.other).wire[i]? with
    | none =>
      simp only [World.step, hwire]
      exact Or.inl trivial
    | some seg =>
      simp only [World.step, hwire]
      exact hother ⟨.segmentReceived seg, rfl⟩

/-- In every run of the two, the sender of a connection that is alive has nothing queued. -/
theorem World.sender_segmentsOut {cfg : Side → TCPConfig} {random : Side → WrappingInt32} {es : List Event}
    (h : World.Allowed cfg random es) (s : Side) (halive : (World.after cfg random es s).conn.active = true) :
    (World.after cfg random es s).sender.segmentsOut = [] := by
  refine h.invariant (I := fun w => ∀ s, (w s).conn.active = true → (w s).sender.segmentsOut = [])
    (fun w e hi _ s => ?_) (fun _ _ => rfl) s halive
  rcases w.conn_step e s with hsame | ⟨call, hcall⟩
  · rw [hsame, Peer.sender, hsame]
    exact hi s
  · rw [hcall, Peer.sender, hcall]
    exact TCPConnection.call_sender_segmentsOut (hi s)

section RoundTrip

variable {p q : Peer}

/-- Where the oldest segment that is outstanding is. -/
theorem Half.front (h : Half p q) (hp : Source p.accepted p.sender) (hshort : p.Short) {front : TCPSegment}
    {rest : List TCPSegment} (hwait : p.sender.waitAck = front :: rest) (r : TCPReceiver) :
    0 < front.lengthInSequenceSpace ∧ front.header.rst = false ∧
      CarriesAt p.offer q.limit (TCPConnection.stamp r front) p.sender.base := by
  have htiles := hp.outstanding.tiles
  rw [hwait] at htiles
  obtain ⟨hseqno, hpos, hrst⟩ := htiles.1
  have hkept : front ∈ p.outgoing := Peer.mem_outgoing.mpr
    (Or.inl (Or.inl (Or.inr (hwait ▸ List.mem_cons_self))))
  obtain ⟨x, hx⟩ := carries_stamp (h.data front hkept hrst) r
  have hle := hx.le
  have hnext := hp.nextSeqno_lt hshort
  have hbase := hp.outstanding.tiles.le
  have hsame : x = p.sender.base := by
    have hwrap := hx.seqno
    rw [TCPConnection.stamp_seqno, hseqno] at hwrap
    have hoffer : p.offer.next = p.sender.nextSeqno := rfl
    exact ((wrap_left_inj _ (by omega) (by omega)).mp hwrap).symm
  exact ⟨hpos, hrst, hsame ▸ hx⟩

/-- The other side gets to the end of it, if there is room. -/
theorem Half.reaches (h : Half p q) (hp : Source p.accepted p.sender) (hshort : p.Short)
    (hseen : p.sender.base ≠ 0 → q.receiver.setIsn = true) (hroom : 0 < q.conn.inboundStream.remainingCapacity)
    {seg : TCPSegment} (hx : CarriesAt p.offer q.limit seg p.sender.base) (hpos : 0 < seg.lengthInSequenceSpace) :
    p.sender.base + seg.lengthInSequenceSpace ≤ (q.receiver.segmentReceived seg).position := by
  have hnext := hp.nextSeqno_lt hshort
  have hbase := hp.outstanding.tiles.le
  have hwritten := h.sink.sound.out.le
  have hread := hp.bytesRead_le
  rw [hp.length_offer] at hwritten
  have hcount := q.conn.inboundStream.count
  have hfull := q.conn.inboundStream.room
  have hcap := h.cap.trans h.sink.sound.kept.cap.symm
  unfold Peer.Short at hshort
  refine TCPReceiver.reaches hx (fun hset => (h.isn hset).1) ?_ (by omega) ?_ ?_ h.acked ?_ h.sink.sound.out.ended hpos
  · by_cases h0 : p.sender.base = 0
    · exact Or.inr h0
    · exact Or.inl (hseen h0)
  · show q.receiver.reassembler.output.bytesWritten < 2 ^ 31
    omega
  · rw [hcap]
    exact hroom.trans_le (hfull ▸ Nat.le_add_left _ _)
  · show q.conn.inboundStream.writtensize < q.conn.inboundStream.readsize + q.conn.inboundStream.maximumcapacity
    have hroom' : 0 < q.conn.inboundStream.capacity := hroom
    omega

/-- **A segment that is sent again, and what comes of it.** -/
theorem Half.recovers (h : Half p q) (hp : Source p.accepted p.sender) (hshort : p.Short)
    (hq : Source q.accepted q.sender) (hseen : p.sender.base ≠ 0 → q.receiver.setIsn = true)
    (hempty : q.sender.segmentsOut = []) (hroom : 0 < q.conn.inboundStream.remainingCapacity)
    {front : TCPSegment} {rest : List TCPSegment} (hwait : p.sender.waitAck = front :: rest) {r : TCPReceiver}
    (hmem : TCPConnection.stamp r front ∈ p.outgoing) :
    ∃ replies, replies ≠ [] ∧
      (q.conn.segmentReceived (TCPConnection.stamp r front)).segmentsOut = q.conn.segmentsOut ++ replies ∧
      ∀ reply ∈ replies, p.receiver.setIsn = true ∨ reply.header.syn = true →
        p.sender.base + front.lengthInSequenceSpace ≤ (p.conn.segmentReceived reply).sender.base := by
  obtain ⟨hpos, hrst, hx⟩ := h.front hp hshort hwait r
  generalize hseg : TCPConnection.stamp r front = seg at *
  have hlength : seg.lengthInSequenceSpace = front.lengthInSequenceSpace := by
    rw [← hseg, TCPConnection.stamp_lengthInSequenceSpace]
  have hrst' : seg.header.rst = false := by rw [← hseg, TCPConnection.stamp_rst, hrst]
  have hset : (q.receiver.segmentReceived seg).setIsn = true := by
    rw [(q.receiver.segmentReceived_isn seg).2, Bool.or_eq_true]
    by_cases h0 : p.sender.base = 0
    · exact Or.inr (hx.syn.mpr h0)
    · exact Or.inl (hseen h0)
  -- the other side gets to the end of the segment, and not beyond what has been sent
  have hreaches := h.reaches hp hshort hseen hroom hx (hlength ▸ hpos)
  have hafter : Half p (q.onConn fun c => { c with receiver := c.receiver.segmentReceived seg }) :=
    h.receive hp hshort hmem hrst' rfl rfl h.acks
  have hisn : (q.receiver.segmentReceived seg).isn = p.sender.isn ∧ p.sender.nextSeqno ≠ 0 := hafter.isn hset
  have hposition : (q.receiver.segmentReceived seg).position ≤ p.sender.nextSeqno := hafter.position_le hp hisn.2
  obtain ⟨replies, hne, hqueue, hreplies⟩ :=
    TCPConnection.segmentReceived_replies hq.outstanding hrst' hset hempty (hlength ▸ hpos)
  refine ⟨replies, hne, hqueue, fun reply hreply hknown => ?_⟩
  obtain ⟨hrst'', hack, hackno⟩ := hreplies reply hreply
  have hset' : (p.receiver.segmentReceived reply).setIsn = true := by
    rwa [(p.receiver.segmentReceived_isn reply).2, Bool.or_eq_true]
  rw [TCPConnection.segmentReceived_base hrst'' hset' hack]
  have hnext := hp.nextSeqno_lt hshort
  refine hp.outstanding.base_of_acked hwait _ ⟨hackno.trans ?_, hposition, ?_⟩ hnext (hlength ▸ hreaches)
  · rw [hisn.1]
  · omega

end RoundTrip

/-- The two sides after a tick of one. -/
theorem World.half_tick {cfg : Side → TCPConfig} {random : Side → WrappingInt32} {es : List Event}
    (h : World.Allowed cfg random es) (hshort : ∀ t, (World.after cfg random es t).Short) (s : Side) (ms : ℕ) :
    Source (World.after cfg random es s).accepted ((World.after cfg random es s).run (.tick ms)).sender ∧
      Half ((World.after cfg random es s).run (.tick ms)) (World.after cfg random es s.other) := by
  have hlegal : World.Allowed cfg random (es ++ [.app s (.tick ms)]) := (along_append _ _ _).mpr ⟨h, trivial, trivial⟩
  have hstep : World.after cfg random (es ++ [.app s (.tick ms)]) = Function.update (World.after cfg random es) s
      ((World.after cfg random es s).run (.tick ms)) := runs_append _ _ _
  have hboth := World.both hlegal s
  rw [hstep, Function.update_self, Function.update_of_ne s.other_ne] at hboth
  exact ⟨hboth.1, (hboth.2 (hshort s) (hshort s.other)).1⟩

/-- **A loss is made good.** In every run of two connections whose streams are short, if the tick of
one side sends something again and the other side is alive and has room, then what is sent again is
one segment at the oldest position that is not acknowledged; delivered, it is answered; and every
answer that the first side can make use of, because it has seen the SYN of the other side or the
answer carries it, settles that segment. -/
theorem retransmission_recovers (cfg : Side → TCPConfig) (random : Side → WrappingInt32) (es : List Event) (s : Side)
    (ms : ℕ) (h : World.Allowed cfg random es)
    (hshort : ∀ t, (World.after cfg random es t).accepted.length < 2 ^ 31 - 2)
    (hother : (World.after cfg random es s.other).conn.active = true)
    (hroom : 0 < (World.after cfg random es s.other).conn.inboundStream.remainingCapacity)
    (halive : ((World.after cfg random es s).conn.tick ms).active = true)
    (hagain : ((World.after cfg random es s).conn.tick ms).segmentsOut ≠
      (World.after cfg random es s).conn.segmentsOut) :
    let p := (World.after cfg random es s).conn
    let q := (World.after cfg random es s.other).conn
    ∃ seg replies, (p.tick ms).segmentsOut = p.segmentsOut ++ [seg] ∧ 0 < seg.lengthInSequenceSpace ∧
      seg.header.seqno = wrap p.sender.base p.sender.isn ∧
      replies ≠ [] ∧ (q.segmentReceived seg).segmentsOut = q.segmentsOut ++ replies ∧
      ∀ reply ∈ replies, p.receiver.setIsn = true ∨ reply.header.syn = true →
        p.sender.base + seg.lengthInSequenceSpace ≤ ((p.tick ms).segmentReceived reply).sender.base := by
  intro p q
  have hbefore := TCPConnection.active_of_call (e := .tick ms) halive
  obtain ⟨front, rest, hwait, hqueue, hreceiver, hkept, hbase⟩ :=
    TCPConnection.tick_resends (World.sender_segmentsOut h s hbefore) halive hagain
  obtain ⟨hp, hhalf⟩ := World.half_tick h hshort s ms
  -- the oldest segment, before the tick
  obtain ⟨hpos, -, hx⟩ := ((World.both h s).2 (hshort s) (hshort s.other)).1.front (World.both h s).1 (hshort s) hwait
    p.receiver
  have hmem : TCPConnection.stamp p.receiver front ∈ ((World.after cfg random es s).run (.tick ms)).conn.segmentsOut :=
    hqueue ▸ List.mem_append_right _ List.mem_cons_self
  obtain ⟨replies, hne, hreplies, hsettles⟩ := hhalf.recovers hp (hshort s) (World.both h s.other).1
    (fun h0 => (World.seen h hshort s).1 (hbase ▸ h0)) (World.sender_segmentsOut h s.other hother) hroom
    (hkept.trans hwait) (Peer.mem_outgoing.mpr (Or.inl (Or.inr hmem)))
  refine ⟨TCPConnection.stamp p.receiver front, replies, hqueue, ?_, hx.seqno, hne, hreplies,
    fun reply hreply hknown => ?_⟩
  · rwa [TCPConnection.stamp_lengthInSequenceSpace]
  · rw [TCPConnection.stamp_lengthInSequenceSpace, ← hbase]
    exact hsettles reply hreply (hknown.imp_left fun hset => (congrArg TCPReceiver.setIsn hreceiver).trans hset)

/-- Two bytes are sent, and are lost. -/
def lost : List Event := World.handshake ++ [.app .a (.write [104, 105]), .send .a]

/-- They are sent again after a second, and are acknowledged. -/
theorem retransmission_recovers_two :
    let p := (World.after (fun _ => {}) (fun _ => ⟨0⟩) lost .a).conn
    let q := (World.after (fun _ => {}) (fun _ => ⟨0⟩) lost .b).conn
    p.sender.base = 1 ∧ p.receiver.setIsn = true ∧ q.inboundStream.bytesWritten = 0 ∧
      ∃ seg replies, (p.tick 1000).segmentsOut = p.segmentsOut ++ [seg] ∧ 0 < seg.lengthInSequenceSpace ∧
        seg.header.seqno = wrap p.sender.base p.sender.isn ∧
        replies ≠ [] ∧ (q.segmentReceived seg).segmentsOut = q.segmentsOut ++ replies ∧
        ∀ reply ∈ replies, p.receiver.setIsn = true ∨ reply.header.syn = true →
          p.sender.base + seg.lengthInSequenceSpace ≤ ((p.tick 1000).segmentReceived reply).sender.base := by
  have hall := retransmission_recovers (fun _ => {}) (fun _ => ⟨0⟩) lost .a 1000 (by decide +kernel)
    (fun t => by cases t <;> decide +kernel) (by decide +kernel) (by decide +kernel) (by decide +kernel)
    (by decide +kernel)
  exact ⟨by decide +kernel, by decide +kernel, by decide +kernel, hall⟩

end Sponge
