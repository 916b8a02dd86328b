import Sponge.Wire.Checksum
import Sponge.Wire.Parser

/-!
# IPv4 datagrams on the wire

The bytes of an IPv4 datagram: a header of twenty bytes with its own checksum, options that are skipped
or written as zeros, and the payload. `IPv4Header` also supplies what TCP adds to its checksum: the
addresses, the protocol and the length of the payload.

## The model

`IPv4Header.parse` has a result of its own for each thing that may be wrong with a header, and records
none of them in the parser. `IPv4Datagram.parse` looks at the parser only, and at the length of what is
left.

## What is proved

* `IPv4Datagram.parse_result` — what parsing does with any bytes.
* `IPv4Datagram.serialize_wire`, `parse_wire` — what is written is read back.
* `IPv4Datagram.datagram_accepted_iff` — which datagrams are accepted: a bad checksum is not a reason
  for refusing one.
-/

namespace Sponge

open BigEndian

/-- The header of an IPv4 datagram. -/
structure IPv4Header where
  /-- IP version. -/
  ver : UInt8 := 4
  /-- Header length, in multiples of 32 bits. -/
  hlen : UInt8 := 5
  /-- Type of service. -/
  tos : UInt8 := 0
  /-- Total length of the packet. -/
  len : UInt16 := 0
  /-- Identification number. -/
  id : UInt16 := 0
  /-- Don't fragment. -/
  df : Bool := true
  /-- More fragments. -/
  mf : Bool := false
  /-- Fragment offset. -/
  offset : UInt16 := 0
  /-- Time to live. -/
  ttl : UInt8 := 128
  /-- Protocol. -/
  proto : UInt8 := 6
  /-- Checksum. -/
  cksum : UInt16 := 0
  /-- Source address. -/
  src : UInt32 := 0
  /-- Destination address. -/
  dst : UInt32 := 0
  deriving DecidableEq

namespace IPv4Header

/-- `LENGTH`: the length of a header without options. -/
def length : ℕ := 20

/-- `PROTO_TCP`: the protocol number of TCP. -/
def protoTcp : UInt8 := 6

/-- The fields that `parse` reads. -/
def parseFields : Parsing IPv4Header := do
  let firstByte ← NetParser.u8
  let tos ← NetParser.u8
  let len ← NetParser.u16
  let id ← NetParser.u16
  let foVal ← NetParser.u16
  let ttl ← NetParser.u8
  let proto ← NetParser.u8
  let cksum ← NetParser.u16
  let src ← NetParser.u32
  let dst ← NetParser.u32
  return {
    ver := firstByte >>> 4
    hlen := firstByte &&& 0x0f
    tos, len, id
    df := foVal &&& 0x4000 != 0
    mf := foVal &&& 0x2000 != 0
    offset := foVal &&& 0x1fff
    ttl, proto, cksum, src, dst }

/-- `parse`: the result, and the header afterwards. -/
def parse (header : IPv4Header) : Parsing (ParseResult × IPv4Header) := do
  let originalSerializedVersion := (← get).buffer
  let dataSize := originalSerializedVersion.size
  if dataSize < length then
    return (.packetTooShort, header)
  let header ← parseFields
  if dataSize < 4 * header.hlen.toNat then
    return (.packetTooShort, header)
  if header.ver ≠ 4 then
    return (.wrongIPVersion, header)
  if header.hlen < 5 then
    return (.headerTooShort, header)
  if dataSize ≠ header.len.toNat then
    return (.truncatedPacket, header)
  NetParser.removePrefix (header.hlen.toNat * 4 - length)
  let p ← get
  if p.error then
    return (p.getError, header)
  let check : InternetChecksum := {}
  if (check.add (originalSerializedVersion.str.take (4 * header.hlen.toNat))).value ≠ 0 then
    return (.badChecksum, header)
  return (.noError, header)

/-- Version and header length in one byte. -/
def firstByte (header : IPv4Header) : UInt8 := (header.ver <<< 4) ||| (header.hlen &&& 0xf)

/-- Flags and fragment offset in one word. -/
def foVal (header : IPv4Header) : UInt16 :=
  (if header.df then 0x4000 else 0) ||| (if header.mf then 0x2000 else 0) ||| (header.offset &&& 0x1fff)

/-- `serialize`. -/
def serialize (header : IPv4Header) : Except Exception Bytes := do
  if header.ver ≠ 4 then
    throw (.runtimeError "wrong IP version")
  if 4 * header.hlen.toNat < length then
    throw (.runtimeError "IP header too short")
  let ret := NetUnparser.u8 [] header.firstByte
  let ret := NetUnparser.u8 ret header.tos
  let ret := NetUnparser.u16 ret header.len
  let ret := NetUnparser.u16 ret header.id
  let ret := NetUnparser.u16 ret header.foVal
  let ret := NetUnparser.u8 ret header.ttl
  let ret := NetUnparser.u8 ret header.proto
  let ret := NetUnparser.u16 ret header.cksum
  let ret := NetUnparser.u32 ret header.src
  let ret := NetUnparser.u32 ret header.dst
  return resize ret (4 * header.hlen.toNat)

/-- `payload_length`: in 16 bits. -/
def payloadLength (header : IPv4Header) : UInt16 := header.len - 4 * header.hlen.toUInt16

/-- `pseudo_cksum`: what the header adds to the checksum of TCP. -/
def pseudoCksum (header : IPv4Header) : UInt32 :=
  let pcksum := (header.src >>> 16) + (header.src &&& 0xffff)
  let pcksum := pcksum + ((header.dst >>> 16) + (header.dst &&& 0xffff))
  let pcksum := pcksum + header.proto.toUInt32
  pcksum + header.payloadLength.toUInt32

end IPv4Header

/-- An IPv4 datagram. -/
structure IPv4Datagram where
  /-- The header. -/
  header : IPv4Header := {}
  /-- The payload. -/
  payload : BufferList := {}
  deriving DecidableEq

namespace IPv4Datagram

/-- `parse`: the result, and the datagram afterwards. -/
def parse (dgram : IPv4Datagram) (buffer : Buffer) : Except Exception (ParseResult × IPv4Datagram) := do
  -- the result of parsing the header is not looked at
  let ((_, header), p) ← dgram.header.parse { buffer }
  let payload := BufferList.ofBuffer p.buffer
  if payload.size ≠ header.payloadLength.toNat then
    return (.packetTooShort, { header, payload })
  return (p.getError, { header, payload })

/-- `serialize`. -/
def serialize (dgram : IPv4Datagram) : Except Exception BufferList := do
  if dgram.payload.size ≠ dgram.header.payloadLength.toNat then
    throw (.runtimeError "IPv4Datagram::serialize: payload is wrong size")
  let headerOut := { dgram.header with cksum := 0 }
  let headerZeroChecksum ← headerOut.serialize
  -- the checksum is taken over the header only
  let check : InternetChecksum := {}
  let check := check.add headerZeroChecksum
  let headerOut := { headerOut with cksum := check.value }
  return (BufferList.append {} (BufferList.ofString (← headerOut.serialize))).append dgram.payload

end IPv4Datagram

/-! ### Parsing a header -/

namespace IPv4Header

/-- The header that twenty bytes denote. -/
def ofBytes (b : Bytes) : IPv4Header where
  ver := UInt8.ofNat (decode (slice b 0 1)) >>> 4
  hlen := UInt8.ofNat (decode (slice b 0 1)) &&& 0x0f
  tos := UInt8.ofNat (decode (slice b 1 1))
  len := UInt16.ofNat (decode (slice b 2 2))
  id := UInt16.ofNat (decode (slice b 4 2))
  df := UInt16.ofNat (decode (slice b 6 2)) &&& 0x4000 != 0
  mf := UInt16.ofNat (decode (slice b 6 2)) &&& 0x2000 != 0
  offset := UInt16.ofNat (decode (slice b 6 2)) &&& 0x1fff
  ttl := UInt8.ofNat (decode (slice b 8 1))
  proto := UInt8.ofNat (decode (slice b 9 1))
  cksum := UInt16.ofNat (decode (slice b 10 2))
  src := UInt32.ofNat (decode (slice b 12 4))
  dst := UInt32.ofNat (decode (slice b 16 4))

theorem reads_parseFields : Reads NetParser.rest NetParser.Failed parseFields 20 ofBytes := by
  refine Reads.congr (NetParser.reads_u8.bind fun firstByte => NetParser.reads_u8.bind fun tos =>
    NetParser.reads_u16.bind fun len => NetParser.reads_u16.bind fun id =>
    NetParser.reads_u16.bind fun foVal => NetParser.reads_u8.bind fun ttl =>
    NetParser.reads_u8.bind fun proto => NetParser.reads_u16.bind fun cksum =>
    NetParser.reads_u32.bind fun src => NetParser.reads_u32.bind fun dst => Reads.pure _) ?_
  intro l hl
  simp only [ofBytes, slice, List.drop_drop, List.drop_zero, Nat.reduceAdd]

/-- The version in the bytes of a header. -/
def version (b : Bytes) : ℕ := (b.getD 0 0).toNat / 16

/-- The header length in the bytes of a header, in multiples of 32 bits. -/
def headerLength (b : Bytes) : ℕ := (b.getD 0 0).toNat % 16

/-- The total length in the bytes of a header. -/
def totalLength (b : Bytes) : ℕ := (b.getD 2 0).toNat * 256 + (b.getD 3 0).toNat

section

variable {b : Bytes} (h : 20 ≤ b.length)
include h

theorem toNat_ver_ofBytes : (ofBytes (b.take 20)).ver.toNat = version b := by
  show (UInt8.ofNat (decode (slice (b.take 20) 0 1)) >>> 4).toNat = _
  rw [NetParser.byte_slice (by decide) h, UInt8.toNat_shiftRight, Nat.shiftRight_eq_div_pow]
  rfl

theorem toNat_hlen_ofBytes : (ofBytes (b.take 20)).hlen.toNat = headerLength b := by
  show (UInt8.ofNat (decode (slice (b.take 20) 0 1)) &&& 0x0f).toNat = _
  rw [NetParser.byte_slice (by decide) h, UInt8.toNat_and]
  exact Nat.and_two_pow_sub_one_eq_mod _ 4

theorem toNat_len_ofBytes : (ofBytes (b.take 20)).len.toNat = totalLength b := by
  have hslice : slice (b.take 20) 2 2 = [b[2], b[3]] := by
    rw [slice, List.drop_take, List.take_take, List.drop_eq_getElem_cons (by omega),
      List.drop_eq_getElem_cons (by omega)]
    rfl
  have h2 := (b[2]).toNat_lt
  have h3 := (b[3]).toNat_lt
  show (UInt16.ofNat (decode (slice (b.take 20) 2 2))).toNat = _
  rw [hslice, decode_cons, decode_cons, decode_nil, totalLength, List.getD_eq_getElem _ _ (by omega),
    List.getD_eq_getElem _ _ (by omega), UInt16.toNat_ofNat']
  simp only [List.length_cons, List.length_nil, pow_zero, Nat.zero_add, pow_one]
  omega

end

/-- The header is one of version 4, its length is at least five words and lies inside the bytes, and the
bytes are as many as it says. -/
structure Shaped (b : Bytes) : Prop where
  /-- The version is 4. -/
  version : version b = 4
  /-- The header length is not less than a header takes. -/
  minimum : 5 ≤ headerLength b
  /-- The header lies inside the bytes. -/
  inside : 4 * headerLength b ≤ b.length
  /-- The bytes are as many as the header says. -/
  total : totalLength b = b.length

variable {header : IPv4Header} {p : NetParser}

/-- Too few bytes for a header: nothing is read. -/
theorem parse_short (h : p.rest.length < 20) : header.parse p = .ok ((.packetTooShort, header), p) := by
  have hsize : p.buffer.size < length := h
  rw [parse, get_bind, if_pos hsize]
  rfl

section

variable {h : IPv4Header} {p₁ p₂ : NetParser} (hlen : 20 ≤ p.rest.length)
  (hfields : parseFields p = .ok (h, p₁))
include hlen hfields

/-- Something is wrong with the header: no more is read. -/
theorem parse_of_not_shaped (hshape : ¬ (4 * h.hlen.toNat ≤ p.rest.length ∧ h.ver = 4 ∧ ¬ h.hlen < 5 ∧
    p.rest.length = h.len.toNat)) : ∃ r, header.parse p = .ok ((r, h), p₁) := by
  have hsize : ¬ p.buffer.size < length := Nat.not_lt.mpr hlen
  rw [parse, get_bind, if_neg hsize, bind_ok hfields]
  by_cases hinside : p.buffer.size < 4 * h.hlen.toNat
  · rw [if_pos hinside]
    exact ⟨.packetTooShort, rfl⟩
  by_cases hver : h.ver ≠ 4
  · rw [if_neg hinside, if_pos hver]
    exact ⟨.wrongIPVersion, rfl⟩
  by_cases hfive : h.hlen < 5
  · rw [if_neg hinside, if_neg hver, if_pos hfive]
    exact ⟨.headerTooShort, rfl⟩
  by_cases htotal : p.buffer.size ≠ h.len.toNat
  · rw [if_neg hinside, if_neg hver, if_neg hfive, if_pos htotal]
    exact ⟨.truncatedPacket, rfl⟩
  · exact absurd ⟨Nat.not_lt.mp hinside, not_not.mp hver, hfive, not_not.mp htotal⟩ hshape

/-- The options are skipped; then the checksum is looked at. -/
theorem parse_of_removePrefix (hinside : 4 * h.hlen.toNat ≤ p.rest.length) (hver : h.ver = 4)
    (hfive : ¬ h.hlen < 5) (htotal : p.rest.length = h.len.toNat)
    (hremove : NetParser.removePrefix (h.hlen.toNat * 4 - length) p₁ = .ok ((), p₂)) (hp₂ : ¬ p₂.Failed) :
    header.parse p = .ok ((if (InternetChecksum.add {} (p.rest.take (4 * h.hlen.toNat))).value = 0 then .noError
      else .badChecksum, h), p₂) := by
  have hsize : ¬ p.buffer.size < length := Nat.not_lt.mpr hlen
  have hinside : ¬ p.buffer.size < 4 * h.hlen.toNat := Nat.not_lt.mpr hinside
  have htotal : ¬ p.buffer.size ≠ h.len.toNat := not_not.mpr htotal
  rw [parse, get_bind, if_neg hsize, bind_ok hfields, if_neg hinside, if_neg (not_not.mpr hver), if_neg hfive,
    if_neg htotal, bind_ok hremove, get_bind, if_neg (NetParser.not_error hp₂)]
  by_cases hcheck : (InternetChecksum.add {} (p.rest.take (4 * h.hlen.toNat))).value = 0
  · rw [if_pos hcheck]
    exact congrFun (if_neg (not_not.mpr hcheck)) p₂
  · rw [if_neg hcheck]
    exact congrFun (if_pos hcheck) p₂

end

theorem toNat_payloadLength (header : IPv4Header) :
    header.payloadLength.toNat = (header.len.toNat + 65536 - 4 * header.hlen.toNat) % 65536 := by
  have hlen := header.len.toNat_lt
  have hhlen := header.hlen.toNat_lt
  have hfour : (4 * header.hlen.toUInt16).toNat = 4 * header.hlen.toNat := by
    rw [UInt16.toNat_mul, UInt8.toNat_toUInt16]
    show 4 * header.hlen.toNat % 65536 = _
    omega
  rw [payloadLength, UInt16.toNat_sub, hfour]
  omega

/-- A header that twenty bytes denote has the shape that the bytes have. -/
theorem shaped_iff {b : Bytes} (h : 20 ≤ b.length) : Shaped b ↔
    4 * (ofBytes (b.take 20)).hlen.toNat ≤ b.length ∧ (ofBytes (b.take 20)).ver = 4 ∧
      ¬ (ofBytes (b.take 20)).hlen < 5 ∧ b.length = (ofBytes (b.take 20)).len.toNat := by
  have hver : (ofBytes (b.take 20)).ver = 4 ↔ version b = 4 := by
    rw [← UInt8.toNat_inj, toNat_ver_ofBytes h]
    rfl
  have hfive : (ofBytes (b.take 20)).hlen < 5 ↔ headerLength b < 5 := by
    rw [UInt8.lt_iff_toNat_lt, toNat_hlen_ofBytes h]
    rfl
  rw [hver, hfive, toNat_hlen_ofBytes h, toNat_len_ofBytes h]
  constructor
  · rintro ⟨h1, h2, h3, h4⟩
    exact ⟨h3, h1, Nat.not_lt.mpr h2, h4.symm⟩
  · rintro ⟨h3, h1, h2, h4⟩
    exact ⟨h1, Nat.not_lt.mp h2, h3, h4.symm⟩

/-- A header with the shape of one: it is read, the options are skipped, and the checksum is looked at. -/
theorem parse_shaped (hp : ¬ p.Failed) (hlen : 20 ≤ p.rest.length) (hshape : Shaped p.rest) :
    ∃ p', header.parse p = .ok ((if (InternetChecksum.add {} (p.rest.take (4 * headerLength p.rest))).value = 0
        then .noError else .badChecksum, ofBytes (p.rest.take 20)), p') ∧
      p'.rest = p.rest.drop (4 * headerLength p.rest) ∧ ¬ p'.Failed := by
  obtain ⟨hinside, hver, hfive, htotal⟩ := (shaped_iff hlen).mp hshape
  have hhlen := toNat_hlen_ofBytes hlen
  have hminimum := hshape.minimum
  obtain ⟨p₁, hfields, hrest, hp₁⟩ := reads_parseFields.ok p hp hlen
  have hskip : (ofBytes (p.rest.take 20)).hlen.toNat * 4 - length ≤ p₁.rest.length := by
    rw [hrest, List.length_drop, length]
    omega
  obtain ⟨p₂, hremove, hrest₂, hp₂⟩ := (NetParser.reads_removePrefix _).ok p₁ hp₁ hskip
  refine ⟨p₂, ?_, ?_, hp₂⟩
  · rw [parse_of_removePrefix hlen hfields hinside hver hfive htotal hremove hp₂, hhlen]
  · rw [hrest₂, hrest, List.drop_drop, hhlen, length]
    congr 1
    omega

end IPv4Header

/-! ### Which datagrams are accepted -/

namespace IPv4Datagram

open IPv4Header

variable {buffer : Buffer}

theorem parse_of_header (dgram : IPv4Datagram) {r : ParseResult} {h : IPv4Header} {p : NetParser}
    (hheader : dgram.header.parse { buffer } = .ok ((r, h), p)) :
    dgram.parse buffer = .ok (if p.rest.length = h.payloadLength.toNat then p.getError else .packetTooShort,
      { header := h, payload := .ofBuffer p.buffer }) := by
  have hsize : (BufferList.ofBuffer p.buffer).size = p.rest.length := by
    rw [BufferList.size_eq, BufferList.concatenate_ofBuffer]
    rfl
  simp only [parse, hheader, bind, Except.bind, hsize, ne_eq, pure, Except.pure]
  by_cases hlength : p.rest.length = h.payloadLength.toNat
  · simp only [hlength, not_true_eq_false, if_false, if_true]
  · simp only [hlength, not_false_eq_true, if_false, if_true]

/-- **What parsing does with any bytes that hold a header.** Its checksum, and whatever else may be wrong
with it, is not looked at: the length of what is left decides. -/
theorem parse_result (dgram : IPv4Datagram) (hlen : 20 ≤ buffer.size) :
    ∃ r p, dgram.parse buffer =
        .ok (r, { header := .ofBytes (buffer.str.take 20), payload := .ofBuffer p }) ∧
      (r = .noError ↔ Shaped buffer.str ∨
        buffer.size - 20 = (totalLength buffer.str + 65536 - 4 * headerLength buffer.str) % 65536) ∧
      (Shaped buffer.str → p.str = buffer.str.drop (4 * headerLength buffer.str)) := by
  have hfresh : ¬ NetParser.Failed { buffer } := not_not.mpr rfl
  have hlength := toNat_payloadLength (.ofBytes (buffer.str.take 20))
  rw [toNat_hlen_ofBytes hlen, toNat_len_ofBytes hlen] at hlength
  by_cases hshape : Shaped buffer.str
  · obtain ⟨p₂, hparse, hrest, hp₂⟩ := parse_shaped (p := { buffer }) hfresh hlen hshape
    have hdrop : p₂.rest = buffer.str.drop (4 * headerLength buffer.str) := hrest
    refine ⟨_, p₂.buffer, dgram.parse_of_header hparse, ?_, fun _ => hdrop⟩
    have hsize : p₂.rest.length = (ofBytes (buffer.str.take 20)).payloadLength.toNat := by
      have hinside := hshape.inside
      have htotal := hshape.total
      have hlt := (ofBytes (buffer.str.take 20)).len.toNat_lt
      rw [toNat_len_ofBytes hlen] at hlt
      rw [hdrop, List.length_drop, hlength]
      omega
    rw [if_pos hsize]
    exact ⟨fun _ => Or.inl hshape, fun _ => Decidable.not_not.mp hp₂⟩
  · obtain ⟨p₁, hfields, hrest, hp₁⟩ := reads_parseFields.ok { buffer } hfresh hlen
    obtain ⟨r, hparse⟩ := parse_of_not_shaped (p := { buffer }) hlen hfields
      (fun h => hshape ((shaped_iff hlen).mpr h))
    refine ⟨_, p₁.buffer, dgram.parse_of_header hparse, ?_, fun h => absurd h hshape⟩
    have hsize : p₁.rest.length = buffer.size - 20 := by
      rw [hrest, List.length_drop]
      rfl
    rw [hsize, hlength]
    by_cases hlast : buffer.size - 20 = (totalLength buffer.str + 65536 - 4 * headerLength buffer.str) % 65536
    · rw [if_pos hlast]
      exact ⟨fun _ => Or.inr hlast, fun _ => Decidable.not_not.mp hp₁⟩
    · rw [if_neg hlast]
      simp [hshape, hlast]

/-- Fewer bytes than a header takes are refused. -/
theorem parse_fresh_short (hlen : buffer.size < 20) :
    parse {} buffer = .ok (.packetTooShort, { header := {}, payload := .ofBuffer buffer }) := by
  have hparse := parse_of_header {} (parse_short (p := { buffer }) hlen)
  have hne : (NetParser.rest { buffer }).length ≠ (IPv4Header.payloadLength {}).toNat := by
    intro h
    have : buffer.size = 65516 := h
    omega
  rwa [if_neg hne] at hparse

/-- The bytes are a datagram: the header has the shape of one, and its checksum verifies. -/
structure WellFormed (b : Bytes) : Prop where
  /-- There is a header. -/
  header : 20 ≤ b.length
  /-- Version and lengths are right. -/
  shape : Shaped b
  /-- The checksum of the header verifies. -/
  checksum : onesSum 0 (b.take (4 * headerLength b)) = 0xffff

/-- **Which datagrams are accepted.** A datagram is accepted exactly if it is well formed, and its payload
is then what follows the header, if and only if the bytes are fewer than twenty, or a well-shaped header
has a valid checksum, or an ill-shaped one is betrayed by the number of bytes after the first twenty. -/
theorem datagram_accepted_iff (buffer : Buffer) :
    ∃ r dgram, IPv4Datagram.parse {} buffer = .ok (r, dgram) ∧
      (((r = .noError ↔ WellFormed buffer.str) ∧
          (WellFormed buffer.str →
            dgram.payload.concatenate = buffer.str.drop (4 * headerLength buffer.str))) ↔
        (buffer.size < 20 ∨
          (Shaped buffer.str ∧ onesSum 0 (buffer.str.take (4 * headerLength buffer.str)) = 0xffff) ∨
          (¬ Shaped buffer.str ∧
            buffer.size - 20 ≠ (totalLength buffer.str + 65536 - 4 * headerLength buffer.str) % 65536))) := by
  by_cases hlen : 20 ≤ buffer.size
  swap
  · have hshort : buffer.size < 20 := Nat.lt_of_not_le hlen
    refine ⟨_, _, parse_fresh_short hshort, ?_⟩
    have hnot : ¬ WellFormed buffer.str := fun h => hlen h.header
    simp [hnot, hshort]
  obtain ⟨r, p, hparse, haccept, hpayload⟩ := parse_result {} hlen
  refine ⟨_, _, hparse, ?_⟩
  constructor
  · rintro ⟨hiff, -⟩
    by_cases hshape : Shaped buffer.str
    · exact Or.inr (Or.inl ⟨hshape, (hiff.mp (haccept.mpr (Or.inl hshape))).checksum⟩)
    · refine Or.inr (Or.inr ⟨hshape, fun hlast => hshape ?_⟩)
      exact (hiff.mp (haccept.mpr (Or.inr hlast))).shape
  · rintro (hshort | ⟨hshape, hcheck⟩ | ⟨hshape, hlast⟩)
    · omega
    · have hwell : WellFormed buffer.str := ⟨hlen, hshape, hcheck⟩
      refine ⟨⟨fun _ => hwell, fun _ => haccept.mpr (Or.inl hshape)⟩, fun _ => ?_⟩
      rw [BufferList.concatenate_ofBuffer, hpayload hshape]
    · have hnot : ¬ WellFormed buffer.str := fun h => hshape h.shape
      refine ⟨⟨fun hr => ?_, fun h => absurd h hnot⟩, fun h => absurd h hnot⟩
      exact absurd (haccept.mp hr) (not_or.mpr ⟨hshape, hlast⟩)

/-- The header of a datagram with no payload, with zeros for its checksum. -/
def zeroChecksum : Bytes := [0x45, 0, 0, 20, 0, 0, 0, 0, 128, 6] ++ List.replicate 10 0

/-- **A datagram with a bad checksum is accepted.** -/
theorem bad_checksum_accepted :
    ¬ ∀ buffer : Buffer, ∃ r dgram, IPv4Datagram.parse {} buffer = .ok (r, dgram) ∧
      (r = .noError ↔ WellFormed buffer.str) ∧
      (WellFormed buffer.str →
        dgram.payload.concatenate = buffer.str.drop (4 * headerLength buffer.str)) := by
  intro h
  obtain ⟨r, dgram, hparse, hiff, -⟩ := h (Buffer.ofString zeroChecksum)
  have hresult : (IPv4Datagram.parse {} (Buffer.ofString zeroChecksum)).map Prod.fst = .ok .noError := by
    decide +kernel
  rw [hparse] at hresult
  have hr : r = .noError := by
    cases hresult
    rfl
  have hcheck := (hiff.mp hr).checksum
  revert hcheck
  decide +kernel

end IPv4Datagram

/-! ### What is written is read back -/

/-- Bits that a word does not have do not show when it is put into another. -/
theorem or_and_eq_left {x o m k : UInt16} (h : m &&& k = 0) : (x ||| (o &&& m)) &&& k = x &&& k := by
  have hnat : m.toNat &&& k.toNat = 0 := by
    rw [← UInt16.toNat_and, h]
    rfl
  apply UInt16.toNat_inj.mp
  simp only [UInt16.toNat_and, UInt16.toNat_or, Nat.and_or_distrib_right, Nat.and_assoc, hnat, Nat.and_zero,
    Nat.or_zero]

theorem or_and_eq_right {x o m : UInt16} (h : x &&& m = 0) : (x ||| (o &&& m)) &&& m = o &&& m := by
  have hnat : x.toNat &&& m.toNat = 0 := by
    rw [← UInt16.toNat_and, h]
    rfl
  apply UInt16.toNat_inj.mp
  simp only [UInt16.toNat_and, UInt16.toNat_or, Nat.and_or_distrib_right, Nat.and_assoc, hnat, Nat.and_self,
    Nat.zero_or]

namespace IPv4Header

/-- The bytes before the checksum. -/
def front (header : IPv4Header) : Bytes :=
  encode 1 header.firstByte.toNat ++ encode 1 header.tos.toNat ++ encode 2 header.len.toNat ++
    encode 2 header.id.toNat ++ encode 2 header.foVal.toNat ++ encode 1 header.ttl.toNat ++
    encode 1 header.proto.toNat

/-- The addresses. -/
def addresses (header : IPv4Header) : Bytes := encode 4 header.src.toNat ++ encode 4 header.dst.toNat

/-- The bytes after the checksum. -/
def back (header : IPv4Header) : Bytes := header.addresses ++ List.replicate (4 * header.hlen.toNat - 20) 0

@[simp] theorem length_front (header : IPv4Header) : header.front.length = 10 := by
  simp only [front, List.length_append, length_encode]

@[simp] theorem length_addresses (header : IPv4Header) : header.addresses.length = 8 := by
  simp only [addresses, List.length_append, length_encode]

theorem length_back (header : IPv4Header) : header.back.length = 8 + (4 * header.hlen.toNat - 20) := by
  simp only [back, List.length_append, length_addresses, List.length_replicate]

variable {header : IPv4Header} (hver : header.ver = 4)
include hver

theorem serialize_eq (hfive : 5 ≤ header.hlen.toNat) :
    header.serialize = .ok (header.front ++ encode 2 header.cksum.toNat ++ header.back) := by
  have hhlen : ¬ 4 * header.hlen.toNat < length := by
    rw [length]
    omega
  have hlen : (header.front ++ encode 2 header.cksum.toNat ++ header.addresses).length = 20 := by
    simp only [List.length_append, length_front, length_addresses, length_encode]
  have hresize : resize (header.front ++ encode 2 header.cksum.toNat ++ header.addresses)
      (4 * header.hlen.toNat) = header.front ++ encode 2 header.cksum.toNat ++ header.back := by
    rw [resize_of_le (by omega), hlen, back, List.append_assoc _ header.addresses]
  simp only [serialize, hver, hhlen, ne_eq, not_true_eq_false, if_false, NetUnparser.u32_eq, NetUnparser.u16_eq,
    NetUnparser.u8_eq, List.nil_append]
  rw [← hresize, addresses, ← List.append_assoc]
  rfl

theorem toNat_firstByte (hfifteen : header.hlen.toNat ≤ 15) :
    header.firstByte.toNat = 64 + header.hlen.toNat := by
  have hlow : (header.hlen &&& 0xf).toNat = header.hlen.toNat := by
    rw [UInt8.toNat_and, show (0xf : UInt8).toNat = 2 ^ 4 - 1 from rfl, Nat.and_two_pow_sub_one_eq_mod]
    omega
  rw [firstByte, hver, UInt8.toNat_or, hlow]
  exact (Nat.two_pow_add_eq_or_of_lt (i := 4) (by omega) 4).symm

theorem firstByte_nibbles (hfifteen : header.hlen.toNat ≤ 15) :
    header.firstByte >>> 4 = header.ver ∧ header.firstByte &&& 0x0f = header.hlen := by
  have hbyte := toNat_firstByte hver hfifteen
  constructor
  · apply UInt8.toNat_inj.mp
    rw [UInt8.toNat_shiftRight, Nat.shiftRight_eq_div_pow, hbyte, hver]
    show (64 + header.hlen.toNat) / 16 = 4
    omega
  · apply UInt8.toNat_inj.mp
    rw [UInt8.toNat_and, show (0x0f : UInt8).toNat = 2 ^ 4 - 1 from rfl, Nat.and_two_pow_sub_one_eq_mod, hbyte]
    omega

omit hver in
theorem foVal_bits (hoffset : header.offset.toNat < 2 ^ 13) :
    (header.foVal &&& 0x4000 != 0) = header.df ∧ (header.foVal &&& 0x2000 != 0) = header.mf ∧
      header.foVal &&& 0x1fff = header.offset := by
  have hmask : header.offset &&& 0x1fff = header.offset := by
    apply UInt16.toNat_inj.mp
    rw [UInt16.toNat_and, show (0x1fff : UInt16).toNat = 2 ^ 13 - 1 from rfl, Nat.and_two_pow_sub_one_eq_mod,
      Nat.mod_eq_of_lt hoffset]
  have hflags : ∀ df mf : Bool, let x : UInt16 := (if df then 0x4000 else 0) ||| (if mf then 0x2000 else 0)
      (x &&& 0x4000 != 0) = df ∧ (x &&& 0x2000 != 0) = mf ∧ x &&& 0x1fff = 0 := by decide
  obtain ⟨hdf, hmf, hzero⟩ := hflags header.df header.mf
  rw [foVal, or_and_eq_left (by decide), or_and_eq_left (by decide), or_and_eq_right hzero, hmask]
  exact ⟨hdf, hmf, rfl⟩

/-- The twenty bytes that are written denote the header. -/
theorem ofBytes_fields (hfifteen : header.hlen.toNat ≤ 15) (hoffset : header.offset.toNat < 2 ^ 13) :
    ofBytes (header.front ++ encode 2 header.cksum.toNat ++ header.addresses) = header := by
  obtain ⟨hhigh, hlow⟩ := firstByte_nibbles hver hfifteen
  obtain ⟨hdf, hmf, hfo⟩ := foVal_bits hoffset
  -- every field is read from the bytes that were written for it
  show IPv4Header.mk (UInt8.ofNat (decode (encode 1 header.firstByte.toNat)) >>> 4)
    (UInt8.ofNat (decode (encode 1 header.firstByte.toNat)) &&& 0x0f) (UInt8.ofNat (decode (encode 1 header.tos.toNat)))
    (UInt16.ofNat (decode (encode 2 header.len.toNat))) (UInt16.ofNat (decode (encode 2 header.id.toNat)))
    (UInt16.ofNat (decode (encode 2 header.foVal.toNat)) &&& 0x4000 != 0)
    (UInt16.ofNat (decode (encode 2 header.foVal.toNat)) &&& 0x2000 != 0)
    (UInt16.ofNat (decode (encode 2 header.foVal.toNat)) &&& 0x1fff)
    (UInt8.ofNat (decode (encode 1 header.ttl.toNat))) (UInt8.ofNat (decode (encode 1 header.proto.toNat)))
    (UInt16.ofNat (decode (encode 2 header.cksum.toNat))) (UInt32.ofNat (decode (encode 4 header.src.toNat)))
    (UInt32.ofNat (decode (encode 4 header.dst.toNat))) = _
  simp only [NetUnparser.ofNat_decode_u32, NetUnparser.ofNat_decode_u16, NetUnparser.ofNat_decode_u8, hhigh, hlow,
    hdf, hmf, hfo]

end IPv4Header

namespace IPv4Datagram

open IPv4Header

variable (dgram : IPv4Datagram)

/-- The checksum that `serialize` puts in. -/
def checksum : UInt16 := (InternetChecksum.add {} (dgram.header.front ++ encode 2 0 ++ dgram.header.back)).value

/-- The bytes of the header that `serialize` writes. -/
def wireHeader : Bytes := dgram.header.front ++ encode 2 dgram.checksum.toNat ++ dgram.header.back

/-- The bytes that `serialize` writes. -/
def wire : Bytes := dgram.wireHeader ++ dgram.payload.concatenate

variable {dgram} (hver : dgram.header.ver = 4) (hfive : 5 ≤ dgram.header.hlen.toNat)
include hver hfive

omit hver in
theorem length_wireHeader : dgram.wireHeader.length = 4 * dgram.header.hlen.toNat := by
  have hback := dgram.header.length_back
  simp only [wireHeader, List.length_append, length_front, length_encode]
  omega

theorem serialize_wire (htotal : dgram.header.len.toNat = 4 * dgram.header.hlen.toNat + dgram.payload.size) :
    ∃ l, dgram.serialize = .ok l ∧ l.concatenate = dgram.wire := by
  have hsize : dgram.payload.size = dgram.header.payloadLength.toNat := by
    have hlt := dgram.header.len.toNat_lt
    rw [toNat_payloadLength]
    omega
  have hzero : IPv4Header.serialize { dgram.header with cksum := 0 } =
      .ok (dgram.header.front ++ encode 2 0 ++ dgram.header.back) :=
    @IPv4Header.serialize_eq { dgram.header with cksum := 0 } hver hfive
  have hfull : IPv4Header.serialize { dgram.header with cksum := dgram.checksum } = .ok dgram.wireHeader :=
    @IPv4Header.serialize_eq { dgram.header with cksum := dgram.checksum } hver hfive
  have hvalue : (InternetChecksum.add {} (dgram.header.front ++ encode 2 0 ++ dgram.header.back)).value =
      dgram.checksum := rfl
  simp only [serialize, hsize, ne_eq, not_true_eq_false, if_false, hzero, bind, Except.bind, hvalue, hfull, pure,
    Except.pure]
  refine ⟨_, rfl, ?_⟩
  simp only [BufferList.concatenate_append, BufferList.concatenate_ofString, BufferList.concatenate_nil,
    List.nil_append, wire]

section

variable (hfifteen : dgram.header.hlen.toNat ≤ 15) (hoffset : dgram.header.offset.toNat < 2 ^ 13)
include hfifteen hoffset

omit hfive in
/-- The bytes that are written denote the header, with the checksum put in. -/
theorem ofBytes_wire : ofBytes (dgram.wire.take 20) = { dgram.header with cksum := dgram.checksum } := by
  have htake : dgram.wire.take 20 =
      dgram.header.front ++ encode 2 dgram.checksum.toNat ++ dgram.header.addresses := by
    rw [wire, wireHeader, back, ← List.append_assoc, List.append_assoc _ (List.replicate _ _)]
    apply List.take_left'
    simp only [List.length_append, length_front, length_addresses, length_encode]
  rw [htake]
  exact @ofBytes_fields { dgram.header with cksum := dgram.checksum } hver hfifteen hoffset

variable (htotal : dgram.header.len.toNat = 4 * dgram.header.hlen.toNat + dgram.payload.size)
include htotal

/-- The bytes that are written have the shape of a datagram. -/
theorem shaped_wire :
    20 ≤ dgram.wire.length ∧ headerLength dgram.wire = dgram.header.hlen.toNat ∧ Shaped dgram.wire := by
  have hof := ofBytes_wire hver hfifteen hoffset
  have hlen : dgram.wire.length = 4 * dgram.header.hlen.toNat + dgram.payload.size := by
    rw [wire, List.length_append, length_wireHeader hfive, BufferList.size_eq]
  have htwenty : 20 ≤ dgram.wire.length := by omega
  refine ⟨htwenty, ?_, ?_⟩
  · rw [← toNat_hlen_ofBytes htwenty, hof]
  · rw [shaped_iff htwenty, hof]
    exact ⟨by dsimp only; omega, hver, Nat.not_lt.mpr hfive, by dsimp only; omega⟩

/-- **What is written is read back**, with the checksum put in. -/
theorem parse_wire (dgram₀ : IPv4Datagram) {buffer : Buffer} (hbuffer : buffer.str = dgram.wire) :
    ∃ p, dgram₀.parse buffer = .ok (.noError,
        { header := { dgram.header with cksum := dgram.checksum }, payload := .ofBuffer p }) ∧
      p.str = dgram.payload.concatenate := by
  obtain ⟨htwenty, hhlen, hshape⟩ := shaped_wire hver hfive hfifteen hoffset htotal
  rw [← hbuffer] at htwenty hshape
  obtain ⟨r, p, hparse, haccept, hpayload⟩ := parse_result dgram₀ htwenty
  refine ⟨p, ?_, ?_⟩
  · rw [hparse, haccept.mpr (Or.inl hshape), hbuffer, ofBytes_wire hver hfifteen hoffset]
  · rw [hpayload hshape, hbuffer, hhlen, wire, List.drop_left' (length_wireHeader hfive)]

end

end IPv4Datagram

end Sponge
