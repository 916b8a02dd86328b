import Sponge.Network.Peer
import Sponge.Stream.Soundness

/-!
# Honest traffic

What one side sends to the other, and what arrives there. An `Offer` is what a side has
sent so far: the bytes, how far its sequence numbers have got, and whether the FIN was
among them. A segment is honest if it carries a part of the offer at its position
(`Carries`), and an acknowledgment is if it is of a position the other side has reached
(`AcksAt`). Offers and positions only grow, and what was honest stays so.

`Sink` is the other end: a reassembler that holds a part of what has been offered. It
is here that the peer's window matters. A segment is either inside the window that was
advertised, or the single byte that probes a closed one. So no block of the list
straddles the limit of the output, and no block is ever cut in two (`Sink.push`).

## What is proved

* `CarriesAt.mono` — honest segments stay honest.
* `Sink.push` — pushing a part of the offer keeps the sink sound.
* `segmentReceived_reassembler` — the receiver pushes the payload of an honest segment at
  its place, or not at all.
-/

namespace Sponge

open StreamReassembler

/-- What a side has sent so far. -/
structure Offer where
  /-- Its initial sequence number. -/
  isn : WrappingInt32
  /-- The bytes sent. -/
  bytes : Bytes
  /-- The next absolute sequence number. -/
  next : ℕ
  /-- The FIN has been sent. -/
  fin : Bool

/-- More has been sent; after the FIN nothing is. -/
structure Offer.Le (o o' : Offer) : Prop where
  /-- The numbering stays. -/
  isn : o'.isn = o.isn
  /-- The bytes sent stay. -/
  bytes : o.bytes <+: o'.bytes
  /-- The sequence numbers grow. -/
  next : o.next ≤ o'.next
  /-- After the FIN nothing changes. -/
  fin : o.fin = true → o'.fin = true ∧ o'.bytes = o.bytes

theorem Offer.Le.refl (o : Offer) : o.Le o := ⟨rfl, List.prefix_rfl, le_rfl, fun h => ⟨h, rfl⟩⟩

/-- What a peer has sent. -/
def Peer.offer (p : Peer) : Offer where
  isn := p.sender.isn
  bytes := p.accepted.take p.sender.stream.bytesRead
  next := p.sender.nextSeqno
  fin := p.sender.setFin

theorem Source.length_offer {p : Peer} (h : Source p.accepted p.sender) :
    p.offer.bytes.length = p.sender.stream.bytesRead := by
  have := h.bytesRead_le
  simp only [Peer.offer, List.length_take]
  omega

/-- The segment carries the part of the offer from position `x` on. -/
structure CarriesAt (o : Offer) (limit : ℕ) (seg : TCPSegment) (x : ℕ) : Prop where
  /-- The sequence number is that of the position. -/
  seqno : seg.header.seqno = wrap x o.isn
  /-- The SYN has been sent. -/
  started : 0 < o.next
  /-- The position has been sent, or is the next one. -/
  le : x ≤ o.next
  /-- The SYN is at position `0`. -/
  syn : seg.header.syn = true ↔ x = 0
  /-- The payload is what has been sent there. -/
  payload : seg.payload = slice o.bytes (x - 1) seg.payload.length
  /-- It has been sent. -/
  inside : seg.payload = [] ∨ x - 1 + seg.payload.length ≤ o.bytes.length
  /-- The FIN is at the end. -/
  fin : seg.header.fin = true → o.fin = true ∧ x - 1 + seg.payload.length = o.bytes.length
  /-- The payload is inside the window, or a single byte. -/
  small : seg.payload.length ≤ 1 ∨ x - 1 + seg.payload.length ≤ limit

/-- The payload ends before the sequence numbers of the segment do. -/
theorem CarriesAt.stop_lt {o : Offer} {limit : ℕ} {seg : TCPSegment} {x : ℕ} (h : CarriesAt o limit seg x) :
    x - 1 + seg.payload.length + 1 ≤ x + seg.lengthInSequenceSpace := by
  unfold TCPSegment.lengthInSequenceSpace
  by_cases h0 : x = 0
  · rw [if_pos (h.syn.mpr h0)]
    omega
  · omega

/-- A segment with sequence numbers of its own is inside the offer. -/
theorem CarriesAt.stop_le {o : Offer} {limit : ℕ} {seg : TCPSegment} {x : ℕ} (h : CarriesAt o limit seg x)
    (hpos : 0 < seg.lengthInSequenceSpace) : x - 1 + seg.payload.length ≤ o.bytes.length := by
  rcases h.inside with hnil | hin
  · by_cases hfin : seg.header.fin = true
    · exact (h.fin hfin).2.le
    · have hsyn : seg.header.syn = true := by
        by_contra hsyn
        simp [TCPSegment.lengthInSequenceSpace, hnil, hsyn, hfin] at hpos
      rw [h.syn.mp hsyn, hnil]
      exact Nat.zero_le _
  · exact hin

/-- The segment carries a part of the offer. -/
def Carries (o : Offer) (limit : ℕ) (seg : TCPSegment) : Prop := ∃ x, CarriesAt o limit seg x

/-- **Honest segments stay honest.** -/
theorem CarriesAt.mono {o o' : Offer} {limit limit' : ℕ} {seg : TCPSegment} {x : ℕ}
    (h : CarriesAt o limit seg x) (ho : o.Le o') (hl : limit ≤ limit') : CarriesAt o' limit' seg x := by
  have hlen := ho.bytes.length_le
  refine ⟨?_, h.started.trans_le ho.next, h.le.trans ho.next, h.syn, ?_, ?_, fun hf => ?_, ?_⟩
  · rw [ho.isn]
    exact h.seqno
  · rcases h.inside with hnil | hin
    · rw [hnil, List.length_nil, slice_zero]
    · rw [slice_of_isPrefix ho.bytes hin]
      exact h.payload
  · exact h.inside.imp_right fun hin => hin.trans hlen
  · obtain ⟨h1, h2⟩ := h.fin hf
    obtain ⟨h3, h4⟩ := ho.fin h1
    exact ⟨h3, by rw [h4]; exact h2⟩
  · exact h.small.imp_right fun hs => hs.trans hl

theorem Carries.mono {o o' : Offer} {limit limit' : ℕ} {seg : TCPSegment} (h : Carries o limit seg)
    (ho : o.Le o') (hl : limit ≤ limit') : Carries o' limit' seg :=
  h.imp fun _ hx => hx.mono ho hl

/-- Only the flags, the sequence number and the payload matter. -/
theorem Carries.congr {o : Offer} {limit : ℕ} {seg seg' : TCPSegment} (h : Carries o limit seg)
    (hseqno : seg'.header.seqno = seg.header.seqno) (hsyn : seg'.header.syn = seg.header.syn)
    (hfin : seg'.header.fin = seg.header.fin) (hpay : seg'.payload = seg.payload) :
    Carries o limit seg' := by
  obtain ⟨x, h⟩ := h
  exact ⟨x, hseqno ▸ h.seqno, h.started, h.le, hsyn ▸ h.syn, by rw [hpay]; exact h.payload,
    by rw [hpay]; exact h.inside, by rw [hpay, hfin]; exact h.fin, by rw [hpay]; exact h.small⟩

/-- The segment acknowledges position `a` of a stream with initial sequence number `isn`. The other
side has reached `position`, and its window ends at `limit`; after the FIN the window does
not matter. -/
structure AcksAt (isn : WrappingInt32) (fin : Bool) (position limit : ℕ) (seg : TCPSegment) (a : ℕ) :
    Prop where
  /-- The acknowledgment number is that of the position. -/
  ackno : seg.header.ackno = wrap a isn
  /-- The SYN is acknowledged. -/
  pos : 1 ≤ a
  /-- The other side has reached the position. -/
  le : a ≤ position
  /-- The window that is advertised is there. -/
  window : a + seg.header.win.toNat ≤ limit + 1 ∨ fin = true

theorem AcksAt.mono {isn : WrappingInt32} {fin fin' : Bool} {position position' limit limit' : ℕ}
    {seg : TCPSegment} {a : ℕ} (h : AcksAt isn fin position limit seg a) (hfin : fin = true → fin' = true)
    (hp : position ≤ position') (hl : limit ≤ limit') : AcksAt isn fin' position' limit' seg a := by
  refine ⟨h.ackno, h.pos, h.le.trans hp, ?_⟩
  rcases h.window with hw | hw
  · exact Or.inl (by omega)
  · exact Or.inr (hfin hw)

/-! ### The other end -/

/-- A reassembler that holds a part of the bytes that have been sent to it. -/
structure Sink (bytes taken : Bytes) (fin : Bool) (r : StreamReassembler) : Prop where
  /-- What it holds and has written is a part of them. -/
  sound : Sound bytes taken r
  /-- No block straddles the limit of the output. -/
  small : ∀ n ∈ r.head, n.stop ≤ n.blockstart + 1 ∨ n.stop ≤ r.output.limit
  /-- The end is known only if the FIN has been sent. -/
  fin : (r.output.inputEnded = true ∨ ∃ n ∈ r.head, n.eof = true) → fin = true

theorem sink_make (capacity : ℕ) : Sink [] [] false (make capacity) :=
  ⟨sound_make [] capacity, by simp [make], by simp [make]⟩

/-- A longer stream, whose end has not been sent. -/
theorem Sound.mono {s s' taken : Bytes} {r : StreamReassembler} (h : Sound s taken r) (hs : s <+: s')
    (hend : s' = s ∨ r.output.inputEnded = false ∧ ∀ n ∈ r.head, n.eof = false) : Sound s' taken r := by
  rcases hend with rfl | ⟨hout, hnodes⟩
  · exact h
  have hlen := hs.length_le
  refine ⟨h.kept, fun n hn => ?_, ?_, h.out.le.trans hlen, fun he => absurd he (by simp [hout])⟩
  · have hof := h.nodes n hn
    have hle := hof.stop_le
    have hn' := (h.kept.tidy.ok n hn).len
    refine ⟨hle.trans hlen, ?_, fun he => absurd he (by simp [hnodes n hn])⟩
    rw [slice_of_isPrefix hs (by omega)]
    exact hof.data_eq
  · rw [h.out.bytes]
    obtain ⟨t, rfl⟩ := hs
    exact (List.take_append_of_le_length h.out.le).symm

theorem Sink.mono {bytes bytes' taken : Bytes} {fin fin' : Bool} {r : StreamReassembler}
    (h : Sink bytes taken fin r) (hb : bytes <+: bytes') (hfin : fin = true → fin' = true ∧ bytes' = bytes) :
    Sink bytes' taken fin' r := by
  refine ⟨h.sound.mono hb ?_, h.small, fun he => (hfin (h.fin he)).1⟩
  by_cases hf : fin = true
  · exact Or.inl (hfin hf).2
  · refine Or.inr ⟨Bool.eq_false_iff.mpr fun he => hf (h.fin (Or.inl he)), fun n hn => ?_⟩
    exact Bool.eq_false_iff.mpr fun he => hf (h.fin (Or.inr ⟨n, hn, he⟩))

theorem Sink.readOut {bytes taken : Bytes} {fin : Bool} {r : StreamReassembler} (h : Sink bytes taken fin r)
    (len : ℕ) : Sink bytes (taken ++ (r.output.read len).1) fin (r.readOut len) := by
  refine ⟨h.sound.readOut len, fun n hn => (h.small n hn).imp_right fun hs => hs.trans ?_, h.fin⟩
  simp only [StreamReassembler.readOut, ByteStream.limit, ByteStream.read_snd,
    ByteStream.popOutput_bytesRead, ByteStream.popOutput_maximumcapacity]
  omega

theorem Sink.setError {bytes taken : Bytes} {fin : Bool} {r : StreamReassembler}
    (h : Sink bytes taken fin r) : Sink bytes taken fin { r with output := r.output.setError } :=
  ⟨⟨⟨h.sound.kept.tidy, h.sound.kept.account, h.sound.kept.cap⟩, h.sound.nodes,
    ⟨h.sound.out.bytes, h.sound.out.le, h.sound.out.ended⟩⟩, h.small, h.fin⟩

/-- What does not straddle the limit is not cut in two. -/
theorem Sink.wholeBlocks {bytes taken : Bytes} {fin : Bool} {r : StreamReassembler}
    (h : Sink bytes taken fin r) {data : Bytes} {index : ℕ}
    (hsmall : data.length ≤ 1 ∨ index + data.length ≤ r.output.limit) : WholeBlocks r data index := by
  refine Or.inr (Or.inr ⟨fun n hn => ?_, ?_⟩)
  · rcases h.small n hn with hs | hs <;> omega
  · omega

theorem Sink.push_of {bytes taken : Bytes} {fin : Bool} {r : StreamReassembler} (h : Sink bytes taken fin r)
    {p : Push} (hp : p.Of bytes) (heof : p.eof = true → fin = true)
    (hsmall : p.data.length ≤ 1 ∨ p.stop ≤ r.output.limit) :
    Sink bytes taken fin (r.pushSubstring p.data p.index p.eof) ∧
      (r.pushSubstring p.data p.index p.eof).output.limit = r.output.limit := by
  have hw := h.wholeBlocks hsmall
  have hpush := push_spec h.sound.kept p.eof hw
  refine ⟨⟨h.sound.push hp hw, fun n hn => ?_, ?_⟩, hpush.limit_eq⟩
  · rw [hpush.limit_eq]
    rcases hpush.mem hn with hn | ⟨k, m, _, hkm, _, hstart, hstop, -⟩
    · exact h.small n hn
    · unfold Push.stop at hsmall
      omega
  · rintro (he | ⟨n, hn, he⟩)
    · rcases pushSubstring_inputEnded he with he | he | he
      · exact h.fin (Or.inl he)
      · exact heof he
      · exact h.fin (Or.inr he)
    · rcases pushSubstring_eof hn he with he | hold
      · exact heof he
      · exact h.fin (Or.inr hold)

/-- **Pushing a part of what has been sent keeps the sink sound.** An empty segment may lie behind the
end of the stream; it is as good as one at the next index. -/
theorem Sink.push {bytes taken : Bytes} {fin : Bool} {r : StreamReassembler} (h : Sink bytes taken fin r)
    {data : Bytes} {index : ℕ} {eof : Bool} (hdata : data = slice bytes index data.length)
    (hin : data = [] ∨ index + data.length ≤ bytes.length)
    (heof : eof = true → fin = true ∧ index + data.length = bytes.length)
    (hsmall : data.length ≤ 1 ∨ index + data.length ≤ r.output.limit) :
    Sink bytes taken fin (r.pushSubstring data index eof) ∧
      (r.pushSubstring data index eof).output.limit = r.output.limit := by
  by_cases hle : index + data.length ≤ bytes.length
  · exact h.push_of (p := ⟨data, index, eof⟩) ⟨hle, hdata, fun he => (heof he).2⟩ (fun he => (heof he).1) hsmall
  · obtain rfl := hin.resolve_right hle
    have hf : eof = false := Bool.eq_false_iff.mpr fun he => hle (heof he).2.le
    have hwle := h.sound.out.le
    rw [List.length_nil] at hle
    rw [hf, pushSubstring_nil (by omega)]
    exact h.push_of (p := ⟨[], r.output.bytesWritten, false⟩) ⟨hwle, by simp, by simp⟩ (by simp) (by simp)

/-- The receiver pushes the payload of a segment at position `x` to index `x - 1`, or drops it. -/
theorem segmentReceived_reassembler {r : TCPReceiver} {seg : TCPSegment} {isn : WrappingInt32} {x : ℕ}
    (hseqno : seg.header.seqno = wrap x isn) (hsyn : seg.header.syn = true ↔ x = 0)
    (hisn : r.setIsn = true → r.isn = isn) (hx : x < 2 ^ 31) (hw : r.streamOut.bytesWritten < 2 ^ 31) :
    (r.segmentReceived seg).reassembler = r.reassembler ∨
      (r.segmentReceived seg).reassembler =
        r.reassembler.pushSubstring seg.payload (x - 1) seg.header.fin := by
  cases hs : seg.header.syn with
  | true =>
    obtain rfl := hsyn.mp hs
    have hi : seg.header.seqno = isn := by rw [hseqno, wrap_zero]
    -- the position of the first byte of the payload
    have hnext : isn.add 1 = wrap 1 isn := by
      have hsucc := wrap_succ isn 0
      rwa [wrap_zero] at hsucc
    have hpos : unwrap (wrap 1 isn) isn r.streamOut.bytesWritten = 1 := unwrap_wrap isn (by omega) (by omega)
    unfold TCPReceiver.segmentReceived
    simp only [hs, if_true, hi, hnext, TCPReceiver.streamOut] at hpos ⊢
    rw [hpos]
    split
    · exact Or.inl rfl
    · exact Or.inr rfl
  | false =>
    cases hset : r.setIsn with
    | false => exact Or.inl (by rw [TCPReceiver.segmentReceived_before hset hs])
    | true =>
      have hnear : distance x r.streamOut.bytesWritten < 2 ^ 31 := by
        unfold distance
        omega
      rw [TCPReceiver.segmentReceived_near hset hs (by rw [hseqno, hisn hset]) hnear]
      split_ifs
      · exact Or.inr rfl
      · exact Or.inl rfl

end Sponge
