import Sponge.Wire.Datagrams
import Sponge.Wire.Segments

/-!
# Writing and reading packets

What is written is read back, and what is read is written back. The first holds for all the segments and
datagrams that fit into their length fields. The second is about a segment that has been accepted: its
bytes are written again if it has no options and its reserved bits are `0`. They are the same but for a
checksum of all ones, which may come back as zeros: both stand for nothing in one's complement.

## What is proved

* `TCPHeader.front_ofBytes`, `TCPHeader.back_ofBytes` — the header that bytes denote is written as them.
* `TCPSegment.segment_round_trip` — both directions for segments.
* `IPv4Datagram.datagram_round_trip` — datagrams, with the checksum of the header.
-/

namespace Sponge

open BigEndian

/-! ### Segments -/

namespace TCPHeader

/-- The reserved bits of a header are `0`: the low half of the byte with the data offset, and the two high
bits of the byte with the flags. -/
structure ReservedZero (b : Bytes) : Prop where
  /-- The low half of the byte with the data offset. -/
  offset : (b.getD 12 0).toNat % 16 = 0
  /-- The high bits of the byte with the flags. -/
  flags : (b.getD 13 0).toNat < 64

/-- A byte of the flags alone is the byte that they are written as. -/
theorem flags_of_lt {x : UInt8} (h : x.toNat < 64) :
    flags { urg := x &&& 0b00100000 != 0, ack := x &&& 0b00010000 != 0, psh := x &&& 0b00001000 != 0,
            rst := x &&& 0b00000100 != 0, syn := x &&& 0b00000010 != 0, fin := x &&& 0b00000001 != 0 } = x := by
  have hall : ∀ i : Fin 64, let x := UInt8.ofNat i.val
      flags { urg := x &&& 0b00100000 != 0, ack := x &&& 0b00010000 != 0, psh := x &&& 0b00001000 != 0,
              rst := x &&& 0b00000100 != 0, syn := x &&& 0b00000010 != 0, fin := x &&& 0b00000001 != 0 } = x := by
    decide
  have hx := hall ⟨x.toNat, h⟩
  simpa only [UInt8.ofNat_toNat] using hx

theorem shiftLeft_shiftRight {x : UInt8} (h : x.toNat % 16 = 0) : x >>> 4 <<< 4 = x := by
  have hx := x.toNat_lt
  apply UInt8.toNat_inj.mp
  rw [UInt8.toNat_shiftLeft, UInt8.toNat_shiftRight, Nat.shiftLeft_eq, Nat.shiftRight_eq_div_pow]
  show x.toNat / 16 * 16 % 256 = _
  omega

section

variable {b : Bytes} (hlen : 20 ≤ b.length)
include hlen

/-- **The bytes before the checksum are written back.** -/
theorem front_ofBytes (h : ReservedZero b) : (ofBytes (b.take 20)).front = b.take 16 := by
  have hpart : ∀ i n, i + n ≤ 20 → (slice (b.take 20) i n).length = n := by
    intro i n hin
    exact length_slice (by rw [List.length_take]; omega)
  have hoffset : encode 1 ((ofBytes (b.take 20)).doff <<< 4).toNat = slice (b.take 20) 12 1 := by
    show encode 1 (UInt8.ofNat (decode (slice (b.take 20) 12 1)) >>> 4 <<< 4).toNat = _
    rw [shiftLeft_shiftRight (by rw [NetParser.byte_slice (by decide) hlen]; exact h.offset),
      NetUnparser.encode_u8 (hpart 12 1 (by decide))]
  have hflags : encode 1 (ofBytes (b.take 20)).flags.toNat = slice (b.take 20) 13 1 := by
    have hbyte : (ofBytes (b.take 20)).flags = UInt8.ofNat (decode (slice (b.take 20) 13 1)) :=
      flags_of_lt (by rw [NetParser.byte_slice (by decide) hlen]; exact h.flags)
    rw [hbyte, NetUnparser.encode_u8 (hpart 13 1 (by decide))]
  rw [front, hoffset, hflags]
  simp only [ofBytes]
  rw [NetUnparser.encode_u16 (hpart 0 2 (by decide)), NetUnparser.encode_u16 (hpart 2 2 (by decide)),
    NetUnparser.encode_u32 (hpart 4 4 (by decide)), NetUnparser.encode_u32 (hpart 8 4 (by decide)),
    NetUnparser.encode_u16 (hpart 14 2 (by decide)), show slice (b.take 20) 0 2 = (b.take 20).take 2 from rfl]
  rw [take_append_slice, take_append_slice, take_append_slice, take_append_slice, take_append_slice,
    take_append_slice, List.take_take]
  rfl

/-- The checksum in the bytes. -/
theorem cksum_ofBytes : encode 2 (ofBytes (b.take 20)).cksum.toNat = slice b 16 2 := by
  have htwenty : 16 + 2 ≤ (b.take 20).length := by
    rw [List.length_take]
    omega
  rw [slice_of_isPrefix (List.take_prefix 20 b) htwenty]
  exact NetUnparser.encode_u16 (length_slice htwenty)

/-- **Without options, the bytes after the checksum are written back.** -/
theorem back_ofBytes (hdoff : dataOffset b = 5) : (ofBytes (b.take 20)).back = slice b 18 2 := by
  have htwenty : 18 + 2 ≤ (b.take 20).length := by
    rw [List.length_take]
    omega
  rw [slice_of_isPrefix (List.take_prefix 20 b) htwenty, back, toNat_doff_ofBytes hlen, hdoff]
  refine (List.append_nil _).trans ?_
  exact NetUnparser.encode_u16 (length_slice htwenty)

omit hlen in
/-- The bytes, with those of the checksum apart. -/
theorem split_cksum (b : Bytes) : b = b.take 16 ++ slice b 16 2 ++ b.drop 18 := by
  rw [take_append_slice, List.take_append_drop]

end

end TCPHeader

namespace TCPSegment

variable {buffer : Buffer} {c : UInt32}

/-- What is known of a segment without options that has been accepted. -/
theorem accepted {seg₀ seg : TCPSegment} (h : seg₀.parse buffer c = .ok (.noError, seg))
    (hdoff : TCPHeader.dataOffset buffer.str = 5) :
    ((⟨c, false⟩ : InternetChecksum).add buffer.str).value = 0 ∧ 20 ≤ buffer.str.length ∧
      seg = { header := .ofBytes (buffer.str.take 20), payload := buffer.str.drop 20 } := by
  by_cases hvalue : ((⟨c, false⟩ : InternetChecksum).add buffer.str).value = 0
  swap
  · rw [seg₀.parse_of_value_ne_zero hvalue] at h
    cases h
  obtain ⟨r, p, hparse, hfailed, hheader⟩ := TCPHeader.parse_result (p := { buffer }) (not_not.mpr rfl)
  rw [seg₀.parse_of_value_eq_zero hvalue hparse, Except.ok.injEq, Prod.mk.injEq] at h
  obtain ⟨herror, rfl⟩ := h
  have hlen : 20 ≤ buffer.str.length := (hfailed.mp (not_not.mpr herror)).1
  have hinside : 4 * TCPHeader.dataOffset buffer.str ≤ buffer.str.length := by
    rw [hdoff]
    exact hlen
  obtain ⟨hr, hrest⟩ := hheader hlen (Nat.le_of_eq hdoff.symm) hinside
  refine ⟨hvalue, hlen, ?_⟩
  rw [hr, hrest]
  show TCPSegment.mk _ (buffer.str.drop (4 * TCPHeader.dataOffset buffer.str)) = _
  rw [hdoff]
  rfl

/-- **What is read is written back**, but for a checksum of all ones, which may come back as zeros. -/
theorem serialize_accepted {seg₀ seg : TCPSegment} (h : seg₀.parse buffer c = .ok (.noError, seg))
    (hdoff : TCPHeader.dataOffset buffer.str = 5) (hreserved : TCPHeader.ReservedZero buffer.str) :
    ∃ l, seg.serialize c = .ok l ∧
      (l.concatenate = buffer.str ∨
        buffer.str = buffer.str.take 16 ++ [0xff, 0xff] ++ buffer.str.drop 18 ∧
          l.concatenate = buffer.str.take 16 ++ [0, 0] ++ buffer.str.drop 18) := by
  obtain ⟨hvalue, hlen, rfl⟩ := accepted h hdoff
  generalize buffer.str = b at *
  have hfive : 5 ≤ (TCPHeader.ofBytes (b.take 20)).doff.toNat := by
    rw [TCPHeader.toNat_doff_ofBytes hlen, hdoff]
  obtain ⟨l, hserialize, hl⟩ :=
    @serialize_wire { header := .ofBytes (b.take 20), payload := b.drop 20 } hfive c
  refine ⟨l, hserialize, ?_⟩
  have hrest : (TCPHeader.ofBytes (b.take 20)).back ++ b.drop 20 = b.drop 18 := by
    have hdrop : b.drop 20 = (b.drop 18).drop 2 := by rw [List.drop_drop]
    rw [TCPHeader.back_ofBytes hlen hdoff, slice, hdrop, List.take_append_drop]
  have hsplit := TCPHeader.split_cksum b
  rw [← TCPHeader.cksum_ofBytes hlen] at hsplit
  have hput := InternetChecksum.value_of_verifies (a := b.take 16) (b := b.drop 18) (c := c)
    (by rw [List.length_take]; omega) (TCPHeader.ofBytes (b.take 20)).cksum.toNat_lt (by rwa [← hsplit])
  rw [hl, wire, checksum, TCPHeader.front_ofBytes hlen hreserved, hrest]
  rcases hput with hsame | ⟨hones, hzero⟩
  · left
    rw [hsame, ← hsplit]
  · right
    rw [hzero]
    rw [hones] at hsplit
    exact ⟨hsplit, rfl⟩

/-- **Segments make the round trip.** A segment whose header and length are within bounds is written and
read back, with another checksum at most. A segment that is accepted, without options and with reserved
bits of `0`, is written back as it was, but for a checksum of all ones, which may come back as zeros. -/
theorem segment_round_trip :
    (∀ (seg seg₀ : TCPSegment) (c : UInt32), 5 ≤ seg.header.doff.toNat → seg.header.doff.toNat ≤ 15 →
      4 * seg.header.doff.toNat + seg.payload.length ≤ 65535 → c.toNat < 2 ^ 20 →
        ∃ l, seg.serialize c = .ok l ∧ ∀ buffer : Buffer, buffer.str = l.concatenate →
          ∃ cksum, seg₀.parse buffer c = .ok (.noError, { seg with header := { seg.header with cksum } })) ∧
    (∀ (seg seg₀ : TCPSegment) (c : UInt32) (buffer : Buffer), seg₀.parse buffer c = .ok (.noError, seg) →
      TCPHeader.dataOffset buffer.str = 5 → TCPHeader.ReservedZero buffer.str →
        ∃ l, seg.serialize c = .ok l ∧
          (l.concatenate = buffer.str ∨
            buffer.str = buffer.str.take 16 ++ [0xff, 0xff] ++ buffer.str.drop 18 ∧
              l.concatenate = buffer.str.take 16 ++ [0, 0] ++ buffer.str.drop 18)) := by
  constructor
  · intro seg seg₀ c hfive hfifteen hlen hc
    obtain ⟨l, hserialize, hl⟩ := serialize_wire (c := c) hfive
    refine ⟨l, hserialize, fun buffer hbuffer => ⟨seg.checksum c, ?_⟩⟩
    exact parse_wire hfive hfifteen hlen hc seg₀ (hbuffer.trans hl)
  · intro seg seg₀ c buffer hparse hdoff hreserved
    exact serialize_accepted hparse hdoff hreserved

/-- A segment with a byte and a FIN. -/
def lastByte : TCPSegment := { header := { seqno := ⟨1⟩, fin := true }, payload := [97] }

/-- The segment with its checksum. -/
def lastByteRead : TCPSegment := { lastByte with header := { lastByte.header with cksum := 20221 } }

/-- Its bytes. -/
def lastByteWire : Buffer := .ofString [0, 0, 0, 0, 0, 0, 0, 1, 0, 0, 0, 0, 80, 1, 0, 0, 78, 253, 0, 0, 97]

/-- It makes the round trip, and so do its bytes. -/
theorem segment_round_trip_lastByte :
    (∃ l, lastByte.serialize 0 = .ok l ∧ ∀ buffer : Buffer, buffer.str = l.concatenate →
      ∃ cksum, TCPSegment.parse {} buffer 0 =
        .ok (.noError, { lastByte with header := { lastByte.header with cksum } })) ∧
    TCPSegment.parse {} lastByteWire 0 = .ok (.noError, lastByteRead) ∧
      ∃ l, lastByteRead.serialize 0 = .ok l ∧ l.concatenate = lastByteWire.str := by
  have hparse : TCPSegment.parse {} lastByteWire 0 = .ok (.noError, lastByteRead) := by decide +kernel
  have hreserved : TCPHeader.ReservedZero lastByteWire.str := ⟨by decide +kernel, by decide +kernel⟩
  obtain ⟨hwritten, hread⟩ := segment_round_trip
  obtain ⟨l, hserialize, hsame | ⟨hones, -⟩⟩ := hread lastByteRead {} 0 lastByteWire hparse (by decide +kernel) hreserved
  · exact ⟨hwritten lastByte {} 0 (by decide) (by decide) (by decide) (by decide), hparse, l, hserialize, hsame⟩
  · exact absurd hones (by decide +kernel)

end TCPSegment

/-! ### Datagrams -/

namespace IPv4Datagram

open IPv4Header

/-- The checksum of a header that has been written verifies. -/
theorem value_wireHeader {dgram : IPv4Datagram} (hfive : 5 ≤ dgram.header.hlen.toNat)
    (hfifteen : dgram.header.hlen.toNat ≤ 15) : (InternetChecksum.add {} dgram.wireHeader).value = 0 := by
  have hback := dgram.header.length_back
  have hsum : (0 : UInt32).toNat + (words (dgram.header.front ++ encode 2 0 ++ dgram.header.back)).sum < 2 ^ 32 := by
    refine sum_words_lt ?_ (by decide)
    simp only [List.length_append, length_front, length_encode]
    omega
  have hones : onesSum 0 dgram.wireHeader = 0xffff :=
    InternetChecksum.onesSum_value (by rw [length_front]) hsum
  refine (InternetChecksum.value_add_eq_zero_iff (sum_words_lt ?_ (by decide))).mpr hones
  rw [length_wireHeader hfive]
  omega

/-- The header of a datagram that has been written is accepted. -/
theorem parse_wireHeader {dgram : IPv4Datagram} (hver : dgram.header.ver = 4)
    (hfive : 5 ≤ dgram.header.hlen.toNat) (hfifteen : dgram.header.hlen.toNat ≤ 15)
    (hoffset : dgram.header.offset.toNat < 2 ^ 13)
    (htotal : dgram.header.len.toNat = 4 * dgram.header.hlen.toNat + dgram.payload.size) (header : IPv4Header)
    {buffer : Buffer} (hbuffer : buffer.str = dgram.wire) :
    ∃ p, header.parse { buffer } = .ok ((.noError, { dgram.header with cksum := dgram.checksum }), p) := by
  obtain ⟨htwenty, hhlen, hshape⟩ := shaped_wire hver hfive hfifteen hoffset htotal
  have htake : dgram.wire.take (4 * headerLength dgram.wire) = dgram.wireHeader := by
    rw [hhlen, wire, List.take_left' (length_wireHeader hfive)]
  have hrest : NetParser.rest { buffer } = dgram.wire := hbuffer
  rw [← hrest] at htwenty hshape
  obtain ⟨p, hparse, -, -⟩ := @parse_shaped header { buffer } (not_not.mpr rfl) htwenty hshape
  rw [hrest, htake, value_wireHeader hfive hfifteen, if_pos rfl, ofBytes_wire hver hfifteen hoffset] at hparse
  exact ⟨p, hparse⟩

/-- A payload of the wrong size is not written. -/
theorem serialize_of_size_ne {dgram : IPv4Datagram} (h : dgram.payload.size ≠ dgram.header.payloadLength.toNat) :
    dgram.serialize = .error (.runtimeError "IPv4Datagram::serialize: payload is wrong size") := by
  simp only [serialize, h, ne_eq, not_false_eq_true, if_true]
  rfl

/-- **Datagrams make the round trip.** A datagram of version 4 whose header and length are within bounds is
written and read back, with another checksum at most, and the checksum that is put in verifies. One whose
payload has another size than the header says is not written. -/
theorem datagram_round_trip :
    (∀ dgram : IPv4Datagram, dgram.header.ver = 4 → 5 ≤ dgram.header.hlen.toNat →
      dgram.header.hlen.toNat ≤ 15 → dgram.header.offset.toNat < 2 ^ 13 →
      dgram.header.len.toNat = 4 * dgram.header.hlen.toNat + dgram.payload.size →
        ∃ l, dgram.serialize = .ok l ∧ ∀ buffer : Buffer, buffer.str = l.concatenate →
          (∃ cksum payload, IPv4Datagram.parse {} buffer =
              .ok (.noError, { header := { dgram.header with cksum }, payload }) ∧
            payload.concatenate = dgram.payload.concatenate) ∧
          ∃ header p, IPv4Header.parse {} { buffer } = .ok ((.noError, header), p)) ∧
    (∀ dgram : IPv4Datagram, dgram.payload.size ≠ dgram.header.payloadLength.toNat →
      dgram.serialize = .error (.runtimeError "IPv4Datagram::serialize: payload is wrong size")) := by
  constructor
  · intro dgram hver hfive hfifteen hoffset htotal
    obtain ⟨l, hserialize, hl⟩ := serialize_wire hver hfive htotal
    refine ⟨l, hserialize, fun buffer hbuffer => ?_⟩
    rw [hl] at hbuffer
    obtain ⟨p, hparse, hpayload⟩ := parse_wire hver hfive hfifteen hoffset htotal {} hbuffer
    obtain ⟨p', hheader⟩ := parse_wireHeader hver hfive hfifteen hoffset htotal {} hbuffer
    refine ⟨⟨_, _, hparse, ?_⟩, _, p', hheader⟩
    rw [BufferList.concatenate_ofBuffer, hpayload]
  · intro dgram hsize
    exact serialize_of_size_ne hsize

/-- A datagram with one byte. -/
def oneByte : IPv4Datagram := { header := { len := 21 }, payload := .ofString [97] }

/-- It makes the round trip. -/
theorem datagram_round_trip_oneByte :
    ∃ l, oneByte.serialize = .ok l ∧ ∀ buffer : Buffer, buffer.str = l.concatenate →
      (∃ cksum payload, IPv4Datagram.parse {} buffer =
          .ok (.noError, { header := { oneByte.header with cksum }, payload }) ∧
        payload.concatenate = oneByte.payload.concatenate) ∧
      ∃ header p, IPv4Header.parse {} { buffer } = .ok ((.noError, header), p) :=
  datagram_round_trip.1 oneByte rfl (by decide) (by decide) (by decide) (by decide)

end IPv4Datagram

end Sponge
