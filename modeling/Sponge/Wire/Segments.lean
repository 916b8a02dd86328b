import Sponge.Tcp.Segment
import Sponge.Wire.Checksum
import Sponge.Wire.Parser

/-!
# TCP segments on the wire

The bytes of a TCP segment: a header of twenty bytes, options that are skipped or written as zeros, and
the payload. The checksum covers all of it and a number that comes from the layer below.

## The model

`TCPHeader.parse` reads the fields of a header and skips the options; it returns its own result beside
the error that the parser records. `TCPSegment.parse` looks at the parser only.

## What is proved

* `TCPSegment.parse_result` — what parsing does with any bytes.
* `TCPSegment.serialize_wire`, `parse_wire` — what is written is read back.
* `TCPSegment.segment_accepted_iff` — which segments are accepted: a data offset below five is not refused.
-/

namespace Sponge

open BigEndian

namespace TCPHeader

/-- `LENGTH`: the length of a header without options. -/
def length : ℕ := 20

/-- The fields that `parse` reads. -/
def parseFields : Parsing TCPHeader := do
  let sport ← NetParser.u16
  let dport ← NetParser.u16
  let seqno ← NetParser.u32
  let ackno ← NetParser.u32
  let doff ← NetParser.u8
  let flB ← NetParser.u8
  let win ← NetParser.u16
  let cksum ← NetParser.u16
  let uptr ← NetParser.u16
  return {
    sport, dport
    seqno := ⟨seqno⟩
    ackno := ⟨ackno⟩
    doff := doff >>> 4
    urg := flB &&& 0b00100000 != 0
    ack := flB &&& 0b00010000 != 0
    psh := flB &&& 0b00001000 != 0
    rst := flB &&& 0b00000100 != 0
    syn := flB &&& 0b00000010 != 0
    fin := flB &&& 0b00000001 != 0
    win, cksum, uptr }

/-- `parse`. -/
def parse : Parsing (ParseResult × TCPHeader) := do
  let header ← parseFields
  if header.doff < 5 then
    return (.headerTooShort, header)
  -- skip any options or anything extra in the header
  NetParser.removePrefix (header.doff.toNat * 4 - length)
  let p ← get
  if p.error then
    return (p.getError, header)
  return (.noError, header)

/-- The byte with the flags. -/
def flags (header : TCPHeader) : UInt8 :=
  (if header.urg then 0b00100000 else 0) ||| (if header.ack then 0b00010000 else 0) |||
    (if header.psh then 0b00001000 else 0) ||| (if header.rst then 0b00000100 else 0) |||
    (if header.syn then 0b00000010 else 0) ||| (if header.fin then 0b00000001 else 0)

/-- `serialize`. -/
def serialize (header : TCPHeader) : Except Exception Bytes := do
  if header.doff < 5 then
    throw (.runtimeError "TCP header too short")
  let ret := NetUnparser.u16 [] header.sport
  let ret := NetUnparser.u16 ret header.dport
  let ret := NetUnparser.u32 ret header.seqno.rawValue
  let ret := NetUnparser.u32 ret header.ackno.rawValue
  let ret := NetUnparser.u8 ret (header.doff <<< 4)
  let ret := NetUnparser.u8 ret header.flags
  let ret := NetUnparser.u16 ret header.win
  let ret := NetUnparser.u16 ret header.cksum
  let ret := NetUnparser.u16 ret header.uptr
  return resize ret (4 * header.doff.toNat)

end TCPHeader

namespace TCPSegment

/-- `parse`: the result, and the segment afterwards. -/
def parse (seg : TCPSegment) (buffer : Buffer) (datagramLayerChecksum : UInt32 := 0) :
    Except Exception (ParseResult × TCPSegment) := do
  let check : InternetChecksum := { sum := datagramLayerChecksum }
  if (check.add buffer.str).value ≠ 0 then
    return (.badChecksum, seg)
  -- the result of parsing the header is not looked at
  let ((_, header), p) ← TCPHeader.parse { buffer }
  return (p.getError, { header, payload := p.buffer.str })

/-- `serialize`. -/
def serialize (seg : TCPSegment) (datagramLayerChecksum : UInt32 := 0) : Except Exception BufferList := do
  let headerOut := { seg.header with cksum := 0 }
  let check : InternetChecksum := { sum := datagramLayerChecksum }
  let check := check.add (← headerOut.serialize)
  let check := check.add seg.payload
  let headerOut := { headerOut with cksum := check.value }
  return (BufferList.append {} (BufferList.ofString (← headerOut.serialize))).append
    (BufferList.ofString seg.payload)

end TCPSegment

/-! ### Parsing a header -/

namespace TCPHeader

/-- The header that twenty bytes denote. -/
def ofBytes (b : Bytes) : TCPHeader where
  sport := UInt16.ofNat (decode (slice b 0 2))
  dport := UInt16.ofNat (decode (slice b 2 2))
  seqno := ⟨UInt32.ofNat (decode (slice b 4 4))⟩
  ackno := ⟨UInt32.ofNat (decode (slice b 8 4))⟩
  doff := UInt8.ofNat (decode (slice b 12 1)) >>> 4
  urg := UInt8.ofNat (decode (slice b 13 1)) &&& 0b00100000 != 0
  ack := UInt8.ofNat (decode (slice b 13 1)) &&& 0b00010000 != 0
  psh := UInt8.ofNat (decode (slice b 13 1)) &&& 0b00001000 != 0
  rst := UInt8.ofNat (decode (slice b 13 1)) &&& 0b00000100 != 0
  syn := UInt8.ofNat (decode (slice b 13 1)) &&& 0b00000010 != 0
  fin := UInt8.ofNat (decode (slice b 13 1)) &&& 0b00000001 != 0
  win := UInt16.ofNat (decode (slice b 14 2))
  cksum := UInt16.ofNat (decode (slice b 16 2))
  uptr := UInt16.ofNat (decode (slice b 18 2))

theorem reads_parseFields : Reads NetParser.rest NetParser.Failed parseFields 20 ofBytes := by
  refine Reads.congr (NetParser.reads_u16.bind fun sport => NetParser.reads_u16.bind fun dport =>
    NetParser.reads_u32.bind fun seqno => NetParser.reads_u32.bind fun ackno =>
    NetParser.reads_u8.bind fun doff => NetParser.reads_u8.bind fun flB =>
    NetParser.reads_u16.bind fun win => NetParser.reads_u16.bind fun cksum =>
    NetParser.reads_u16.bind fun uptr => Reads.pure _) ?_
  intro l hl
  simp only [ofBytes, slice, List.drop_drop, List.drop_zero, Nat.reduceAdd]

variable {p : NetParser}

section

variable {header : TCPHeader} {p₁ p₂ : NetParser} (hfields : parseFields p = .ok (header, p₁))
include hfields

theorem parse_of_lt (hdoff : header.doff < 5) : parse p = .ok ((.headerTooShort, header), p₁) := by
  rw [parse, bind_ok hfields, if_pos hdoff]
  rfl

theorem parse_of_removePrefix (hdoff : ¬ header.doff < 5)
    (hremove : NetParser.removePrefix (header.doff.toNat * 4 - length) p₁ = .ok ((), p₂)) :
    parse p = .ok ((p₂.getError, header), p₂) := by
  rw [parse, bind_ok hfields, if_neg hdoff, bind_ok hremove, get_bind]
  by_cases hp₂ : p₂.Failed
  · rw [if_pos (NetParser.error_eq_true.mpr hp₂)]
    rfl
  · rw [if_neg (NetParser.not_error hp₂), Decidable.not_not.mp hp₂]
    rfl

end

/-- Parsing a header throws nothing. -/
theorem parse_total (p : NetParser) : ∃ r p', parse p = .ok (r, p') := by
  obtain ⟨header, p₁, hfields⟩ := reads_parseFields.total p
  by_cases hdoff : header.doff < 5
  · exact ⟨_, p₁, parse_of_lt hfields hdoff⟩
  · obtain ⟨⟨⟩, p₂, hremove⟩ := (NetParser.reads_removePrefix _).total p₁
    exact ⟨_, p₂, parse_of_removePrefix hfields hdoff hremove⟩

/-- Too few bytes for the fields: an error is recorded. -/
theorem parse_short (h : p.Failed ∨ p.rest.length < 20) : ∃ r p', parse p = .ok (r, p') ∧ p'.Failed := by
  obtain ⟨header, p₁, hfields, hp₁⟩ := reads_parseFields.short p h
  by_cases hdoff : header.doff < 5
  · exact ⟨_, p₁, parse_of_lt hfields hdoff, hp₁⟩
  · obtain ⟨⟨⟩, p₂, hremove, hp₂⟩ := (NetParser.reads_removePrefix _).short p₁ (Or.inl hp₁)
    exact ⟨_, p₂, parse_of_removePrefix hfields hdoff hremove, hp₂⟩

/-- A data offset below five: nothing is skipped, and no error is recorded. -/
theorem parse_offset (hp : ¬ p.Failed) (hlen : 20 ≤ p.rest.length)
    (hdoff : (ofBytes (p.rest.take 20)).doff < 5) :
    ∃ p', parse p = .ok ((.headerTooShort, ofBytes (p.rest.take 20)), p') ∧
      p'.rest = p.rest.drop 20 ∧ ¬ p'.Failed := by
  obtain ⟨p₁, hfields, hrest, hp₁⟩ := reads_parseFields.ok p hp hlen
  exact ⟨p₁, parse_of_lt hfields hdoff, hrest, hp₁⟩

/-- There are as many bytes as the data offset says. -/
theorem parse_ok (hp : ¬ p.Failed) (hdoff : ¬ (ofBytes (p.rest.take 20)).doff < 5)
    (hlen : (ofBytes (p.rest.take 20)).doff.toNat * 4 ≤ p.rest.length) :
    ∃ p', parse p = .ok ((.noError, ofBytes (p.rest.take 20)), p') ∧
      p'.rest = p.rest.drop ((ofBytes (p.rest.take 20)).doff.toNat * 4) ∧ ¬ p'.Failed := by
  have hfive : 5 ≤ (ofBytes (p.rest.take 20)).doff.toNat := Nat.not_lt.mp hdoff
  obtain ⟨p₁, hfields, hrest, hp₁⟩ := reads_parseFields.ok p hp (by omega)
  have hlen₁ : (ofBytes (p.rest.take 20)).doff.toNat * 4 - length ≤ p₁.rest.length := by
    rw [hrest, List.length_drop, length]
    omega
  obtain ⟨p₂, hremove, hrest₂, hp₂⟩ := (NetParser.reads_removePrefix _).ok p₁ hp₁ hlen₁
  refine ⟨p₂, ?_, ?_, hp₂⟩
  · rw [parse_of_removePrefix hfields hdoff hremove, Decidable.not_not.mp hp₂]
  · rw [hrest₂, hrest, List.drop_drop, length]
    congr 1
    omega

/-- There are fewer bytes than the data offset says: an error is recorded. -/
theorem parse_long (hp : ¬ p.Failed) (hlen : 20 ≤ p.rest.length)
    (hdoff : ¬ (ofBytes (p.rest.take 20)).doff < 5)
    (hlong : p.rest.length < (ofBytes (p.rest.take 20)).doff.toNat * 4) :
    ∃ r p', parse p = .ok (r, p') ∧ p'.Failed := by
  obtain ⟨p₁, hfields, hrest, hp₁⟩ := reads_parseFields.ok p hp hlen
  have hlen₁ : p₁.rest.length < (ofBytes (p.rest.take 20)).doff.toNat * 4 - length := by
    rw [hrest, List.length_drop, length]
    omega
  obtain ⟨⟨⟩, p₂, hremove, hp₂⟩ := (NetParser.reads_removePrefix _).short p₁ (Or.inr hlen₁)
  exact ⟨_, p₂, parse_of_removePrefix hfields hdoff hremove, hp₂⟩

/-- The data offset in the bytes of a header. -/
def dataOffset (b : Bytes) : ℕ := (b.getD 12 0).toNat / 16

theorem toNat_doff_ofBytes {b : Bytes} (h : 20 ≤ b.length) : (ofBytes (b.take 20)).doff.toNat = dataOffset b := by
  show (UInt8.ofNat (decode (slice (b.take 20) 12 1)) >>> 4).toNat = _
  rw [NetParser.byte_slice (by decide) h, UInt8.toNat_shiftRight, Nat.shiftRight_eq_div_pow]
  rfl

/-- **What parsing does with any bytes.** A data offset below five is an error of the header, and none of
the parser. -/
theorem parse_result (hp : ¬ p.Failed) :
    ∃ r p', parse p = .ok (r, p') ∧
      (¬ p'.Failed ↔ 20 ≤ p.rest.length ∧ (dataOffset p.rest < 5 ∨ 4 * dataOffset p.rest ≤ p.rest.length)) ∧
      (20 ≤ p.rest.length → 5 ≤ dataOffset p.rest → 4 * dataOffset p.rest ≤ p.rest.length →
        r.2 = ofBytes (p.rest.take 20) ∧ p'.rest = p.rest.drop (4 * dataOffset p.rest)) := by
  by_cases hlen : 20 ≤ p.rest.length
  swap
  · obtain ⟨r, p', hparse, hp'⟩ := parse_short (Or.inr (Nat.lt_of_not_le hlen))
    exact ⟨r, p', hparse, ⟨fun h => absurd hp' h, fun h => absurd h.1 hlen⟩, fun h => absurd h hlen⟩
  have hdoff := toNat_doff_ofBytes hlen
  by_cases hfive : dataOffset p.rest < 5
  · have hlt : (ofBytes (p.rest.take 20)).doff.toNat < 5 := by rwa [hdoff]
    obtain ⟨p', hparse, -, hp'⟩ := parse_offset hp hlen hlt
    exact ⟨_, p', hparse, ⟨fun _ => ⟨hlen, Or.inl hfive⟩, fun _ => hp'⟩, fun _ h => absurd hfive (Nat.not_lt.mpr h)⟩
  have hnotlt : ¬ (ofBytes (p.rest.take 20)).doff.toNat < 5 := by rwa [hdoff]
  by_cases hoffset : 4 * dataOffset p.rest ≤ p.rest.length
  · have hinside : (ofBytes (p.rest.take 20)).doff.toNat * 4 ≤ p.rest.length := by rwa [hdoff, Nat.mul_comm]
    obtain ⟨p', hparse, hrest, hp'⟩ := parse_ok hp hnotlt hinside
    rw [hdoff, Nat.mul_comm] at hrest
    exact ⟨_, p', hparse, ⟨fun _ => ⟨hlen, Or.inr hoffset⟩, fun _ => hp'⟩, fun _ _ _ => ⟨rfl, hrest⟩⟩
  · have hlong : p.rest.length < (ofBytes (p.rest.take 20)).doff.toNat * 4 := by
      rw [hdoff, Nat.mul_comm]
      exact Nat.lt_of_not_le hoffset
    obtain ⟨r, p', hparse, hp'⟩ := parse_long hp hlen hnotlt hlong
    exact ⟨r, p', hparse, ⟨fun h => absurd hp' h, fun h => absurd h.2 (not_or.mpr ⟨hfive, hoffset⟩)⟩,
      fun _ _ h => absurd h hoffset⟩

end TCPHeader

/-! ### Which segments are accepted -/

namespace TCPSegment

variable {buffer : Buffer} {c : UInt32}

section Checksum

variable (seg : TCPSegment)

theorem parse_of_value_ne_zero (h : ((⟨c, false⟩ : InternetChecksum).add buffer.str).value ≠ 0) :
    parse seg buffer c = .ok (.badChecksum, seg) := by
  simp only [parse, h, ne_eq, not_false_eq_true, if_true, pure, Except.pure]

theorem parse_of_value_eq_zero (h : ((⟨c, false⟩ : InternetChecksum).add buffer.str).value = 0)
    {r : ParseResult × TCPHeader} {p : NetParser} (hheader : TCPHeader.parse { buffer } = .ok (r, p)) :
    parse seg buffer c = .ok (p.getError, { header := r.2, payload := p.rest }) := by
  simp only [parse, h, ne_eq, not_true_eq_false, if_false, hheader, bind, Except.bind, pure, Except.pure]
  rfl

/-- Parsing throws nothing. -/
theorem parse_total (buffer : Buffer) (c : UInt32) : ∃ r seg', seg.parse buffer c = .ok (r, seg') := by
  obtain ⟨r, p, hheader⟩ := TCPHeader.parse_total { buffer }
  by_cases hvalue : ((⟨c, false⟩ : InternetChecksum).add buffer.str).value = 0
  · exact ⟨_, _, seg.parse_of_value_eq_zero hvalue hheader⟩
  · exact ⟨_, _, seg.parse_of_value_ne_zero hvalue⟩

variable (hsum : c.toNat + (words buffer.str).sum < 2 ^ 32)
include hsum

theorem parse_of_badChecksum (h : onesSum c buffer.str ≠ 0xffff) :
    parse seg buffer c = .ok (.badChecksum, seg) :=
  seg.parse_of_value_ne_zero fun hvalue => h ((InternetChecksum.value_add_eq_zero_iff hsum).mp hvalue)

theorem parse_of_header (h : onesSum c buffer.str = 0xffff) {r : ParseResult × TCPHeader} {p : NetParser}
    (hheader : TCPHeader.parse { buffer } = .ok (r, p)) :
    parse seg buffer c = .ok (p.getError, { header := r.2, payload := p.rest }) :=
  seg.parse_of_value_eq_zero ((InternetChecksum.value_add_eq_zero_iff hsum).mpr h) hheader

end Checksum

/-- The bytes are a segment with a valid checksum: the header has the length it claims, at least twenty
bytes. -/
structure WellFormed (c : UInt32) (b : Bytes) : Prop where
  /-- The checksum verifies. -/
  checksum : onesSum c b = 0xffff
  /-- There is a header. -/
  header : 20 ≤ b.length
  /-- The data offset is not less than a header takes. -/
  minimum : 5 ≤ TCPHeader.dataOffset b
  /-- The data offset lies inside the bytes. -/
  offset : 4 * TCPHeader.dataOffset b ≤ b.length

/-- **What parsing does with any bytes.** A data offset below five is not refused: nothing looks at the
result of `TCPHeader.parse`. -/
theorem parse_result (seg : TCPSegment) (hsum : c.toNat + (words buffer.str).sum < 2 ^ 32) :
    ∃ r seg', seg.parse buffer c = .ok (r, seg') ∧
      (r = .noError ↔ onesSum c buffer.str = 0xffff ∧ 20 ≤ buffer.size ∧
        (TCPHeader.dataOffset buffer.str < 5 ∨ 4 * TCPHeader.dataOffset buffer.str ≤ buffer.size)) ∧
      (WellFormed c buffer.str → seg' =
        { header := .ofBytes (buffer.str.take 20)
          payload := buffer.str.drop (4 * TCPHeader.dataOffset buffer.str) }) := by
  by_cases hcheck : onesSum c buffer.str = 0xffff
  · obtain ⟨r, p, hparse, hfailed, hheader⟩ := TCPHeader.parse_result (p := { buffer }) (not_not.mpr rfl)
    refine ⟨_, _, parse_of_header seg hsum hcheck hparse, ?_, ?_⟩
    · rw [and_iff_right hcheck]
      exact Decidable.not_not.symm.trans hfailed
    · intro hwell
      obtain ⟨hr, hrest⟩ := hheader hwell.header hwell.minimum hwell.offset
      rw [hr, hrest]
      rfl
  · refine ⟨_, _, parse_of_badChecksum seg hsum hcheck, ?_, ?_⟩
    · simp [hcheck]
    · intro hwell
      exact absurd hwell.checksum hcheck

/-- **Which segments are accepted.** A segment is accepted exactly if it is well formed, and its payload
is then what follows the header, if and only if it is not a segment of twenty bytes or more with a valid
checksum and a data offset below five. -/
theorem segment_accepted_iff (seg : TCPSegment) (buffer : Buffer) (c : UInt32) (hlen : buffer.size ≤ 65535)
    (hc : c.toNat < 2 ^ 20) :
    ∃ r seg', seg.parse buffer c = .ok (r, seg') ∧
      (((r = .noError ↔ WellFormed c buffer.str) ∧
          (WellFormed c buffer.str →
            seg'.payload = buffer.str.drop (4 * TCPHeader.dataOffset buffer.str))) ↔
        ¬ (onesSum c buffer.str = 0xffff ∧ 20 ≤ buffer.size ∧ TCPHeader.dataOffset buffer.str < 5)) := by
  obtain ⟨r, seg', hparse, haccept, hpayload⟩ := parse_result seg (sum_words_lt hlen hc)
  refine ⟨r, seg', hparse, ?_⟩
  constructor
  · rintro ⟨hiff, -⟩ ⟨hcheck, hsize, hfive⟩
    have hwell := hiff.mp (haccept.mpr ⟨hcheck, hsize, Or.inl hfive⟩)
    have := hwell.minimum
    omega
  · intro hnot
    refine ⟨⟨?_, ?_⟩, fun hwell => by rw [hpayload hwell]⟩
    · intro hr
      obtain ⟨hcheck, hsize, hoffset⟩ := haccept.mp hr
      have hfive : ¬ TCPHeader.dataOffset buffer.str < 5 := fun h => hnot ⟨hcheck, hsize, h⟩
      exact ⟨hcheck, hsize, Nat.not_lt.mp hfive, hoffset.resolve_left hfive⟩
    · intro hwell
      exact haccept.mpr ⟨hwell.checksum, hwell.header, Or.inr hwell.offset⟩

/-- A segment of twenty zeros but for a checksum that verifies. -/
def offsetZero : Bytes := List.replicate 16 0 ++ [0xff, 0xff, 0, 0]

/-- The theorem at a segment that is refused for its checksum. -/
theorem segment_accepted_iff_zeros :
    (Buffer.ofString (List.replicate 20 0)).size ≤ 65535 ∧ (0 : UInt32).toNat < 2 ^ 20 ∧
    ∃ r seg', TCPSegment.parse {} (Buffer.ofString (List.replicate 20 0)) 0 = .ok (r, seg') ∧
      (((r = .noError ↔ WellFormed 0 (Buffer.ofString (List.replicate 20 0)).str) ∧
          (WellFormed 0 (Buffer.ofString (List.replicate 20 0)).str →
            seg'.payload = (Buffer.ofString (List.replicate 20 0)).str.drop
              (4 * TCPHeader.dataOffset (Buffer.ofString (List.replicate 20 0)).str))) ↔
        ¬ (onesSum 0 (Buffer.ofString (List.replicate 20 0)).str = 0xffff ∧
          20 ≤ (Buffer.ofString (List.replicate 20 0)).size ∧
          TCPHeader.dataOffset (Buffer.ofString (List.replicate 20 0)).str < 5)) :=
  ⟨by decide, by decide, segment_accepted_iff {} (Buffer.ofString (List.replicate 20 0)) 0 (by decide) (by decide)⟩

/-- **A segment whose header is too short is accepted.** Its checksum is right, its data offset is `0`,
and the parser has recorded no error. -/
theorem short_header_accepted :
    ¬ ∀ (buffer : Buffer) (c : UInt32), buffer.size ≤ 65535 → c.toNat < 2 ^ 20 →
      ∃ r seg', TCPSegment.parse {} buffer c = .ok (r, seg') ∧ (r = .noError ↔ WellFormed c buffer.str) ∧
        (WellFormed c buffer.str →
          seg'.payload = buffer.str.drop (4 * TCPHeader.dataOffset buffer.str)) := by
  intro h
  obtain ⟨r, seg', hparse, hiff, -⟩ := h (Buffer.ofString offsetZero) 0 (by decide) (by decide)
  have hnone : TCPSegment.parse {} (Buffer.ofString offsetZero) 0 =
      .ok (.noError, { header := { doff := 0, cksum := 0xffff }, payload := [] }) := by decide +kernel
  rw [hnone] at hparse
  cases hparse
  have hfive := (hiff.mp rfl).minimum
  revert hfive
  decide

end TCPSegment

/-! ### What is written is read back -/

namespace TCPHeader

/-- The bytes before the checksum. -/
def front (header : TCPHeader) : Bytes :=
  encode 2 header.sport.toNat ++ encode 2 header.dport.toNat ++ encode 4 header.seqno.rawValue.toNat ++
    encode 4 header.ackno.rawValue.toNat ++ encode 1 (header.doff <<< 4).toNat ++
    encode 1 header.flags.toNat ++ encode 2 header.win.toNat

/-- The bytes after the checksum. -/
def back (header : TCPHeader) : Bytes :=
  encode 2 header.uptr.toNat ++ List.replicate (4 * header.doff.toNat - 20) 0

@[simp] theorem length_front (header : TCPHeader) : header.front.length = 16 := by
  simp only [front, List.length_append, length_encode]

theorem length_back (header : TCPHeader) : header.back.length = 2 + (4 * header.doff.toNat - 20) := by
  simp only [back, List.length_append, length_encode, List.length_replicate]

theorem serialize_eq {header : TCPHeader} (h : 5 ≤ header.doff.toNat) :
    header.serialize = .ok (header.front ++ encode 2 header.cksum.toNat ++ header.back) := by
  have hdoff : ¬ header.doff < 5 := Nat.not_lt.mpr h
  have hlen : (header.front ++ encode 2 header.cksum.toNat ++ encode 2 header.uptr.toNat).length = 20 := by
    simp only [List.length_append, length_front, length_encode]
  have hresize : resize (header.front ++ encode 2 header.cksum.toNat ++ encode 2 header.uptr.toNat)
      (4 * header.doff.toNat) = header.front ++ encode 2 header.cksum.toNat ++ header.back := by
    rw [resize_of_le (by omega), hlen, back, List.append_assoc]
  simp only [serialize, hdoff, if_false, NetUnparser.u32_eq, NetUnparser.u16_eq, NetUnparser.u8_eq,
    List.nil_append]
  rw [← hresize]
  rfl

/-- Every flag is in the byte with the flags. -/
theorem flags_bits : ∀ urg ack psh rst syn fin : Bool,
    let fl := flags { urg, ack, psh, rst, syn, fin }
    (fl &&& 0b00100000 != 0) = urg ∧ (fl &&& 0b00010000 != 0) = ack ∧ (fl &&& 0b00001000 != 0) = psh ∧
      (fl &&& 0b00000100 != 0) = rst ∧ (fl &&& 0b00000010 != 0) = syn ∧ (fl &&& 0b00000001 != 0) = fin := by
  decide

theorem shiftRight_shiftLeft {doff : UInt8} (h : doff.toNat ≤ 15) : doff <<< 4 >>> 4 = doff := by
  apply UInt8.toNat_inj.mp
  rw [UInt8.toNat_shiftRight, UInt8.toNat_shiftLeft, Nat.shiftLeft_eq, Nat.shiftRight_eq_div_pow]
  show doff.toNat * 16 % 256 / 16 = _
  omega

/-- The twenty bytes that are written denote the header. -/
theorem ofBytes_fields {header : TCPHeader} (h : header.doff.toNat ≤ 15) :
    ofBytes (header.front ++ encode 2 header.cksum.toNat ++ encode 2 header.uptr.toNat) = header := by
  obtain ⟨sport, dport, ⟨seqno⟩, ⟨ackno⟩, doff, urg, ack, psh, rst, syn, fin, win, cksum, uptr⟩ := header
  have hflags := flags_bits urg ack psh rst syn fin
  dsimp only at hflags
  obtain ⟨hurg, hack, hpsh, hrst, hsyn, hfin⟩ := hflags
  generalize hfl : flags { urg, ack, psh, rst, syn, fin } = fl at *
  -- every field is read from the bytes that were written for it
  show TCPHeader.mk (UInt16.ofNat (decode (encode 2 sport.toNat))) (UInt16.ofNat (decode (encode 2 dport.toNat)))
    ⟨UInt32.ofNat (decode (encode 4 seqno.toNat))⟩ ⟨UInt32.ofNat (decode (encode 4 ackno.toNat))⟩
    (UInt8.ofNat (decode (encode 1 (doff <<< 4).toNat)) >>> 4)
    (UInt8.ofNat (decode (encode 1 (flags { urg, ack, psh, rst, syn, fin }).toNat)) &&& 0b00100000 != 0)
    (UInt8.ofNat (decode (encode 1 (flags { urg, ack, psh, rst, syn, fin }).toNat)) &&& 0b00010000 != 0)
    (UInt8.ofNat (decode (encode 1 (flags { urg, ack, psh, rst, syn, fin }).toNat)) &&& 0b00001000 != 0)
    (UInt8.ofNat (decode (encode 1 (flags { urg, ack, psh, rst, syn, fin }).toNat)) &&& 0b00000100 != 0)
    (UInt8.ofNat (decode (encode 1 (flags { urg, ack, psh, rst, syn, fin }).toNat)) &&& 0b00000010 != 0)
    (UInt8.ofNat (decode (encode 1 (flags { urg, ack, psh, rst, syn, fin }).toNat)) &&& 0b00000001 != 0)
    (UInt16.ofNat (decode (encode 2 win.toNat))) (UInt16.ofNat (decode (encode 2 cksum.toNat)))
    (UInt16.ofNat (decode (encode 2 uptr.toNat))) = _
  simp only [NetUnparser.ofNat_decode_u32, NetUnparser.ofNat_decode_u16, NetUnparser.ofNat_decode_u8, hfl,
    hurg, hack, hpsh, hrst, hsyn, hfin, shiftRight_shiftLeft h]

end TCPHeader

namespace TCPSegment

variable (seg : TCPSegment)

/-- The checksum that `serialize` puts in. -/
def checksum (c : UInt32) : UInt16 :=
  ((⟨c, false⟩ : InternetChecksum).add
    (seg.header.front ++ encode 2 0 ++ (seg.header.back ++ seg.payload))).value

/-- The bytes that `serialize` writes. -/
def wire (c : UInt32) : Bytes :=
  seg.header.front ++ encode 2 (seg.checksum c).toNat ++ (seg.header.back ++ seg.payload)

variable {seg} (hfive : 5 ≤ seg.header.doff.toNat)
include hfive

theorem length_wire : (seg.wire c).length = 4 * seg.header.doff.toNat + seg.payload.length := by
  have hback := seg.header.length_back
  simp only [wire, List.length_append, TCPHeader.length_front, length_encode]
  omega

theorem serialize_wire : ∃ l, seg.serialize c = .ok l ∧ l.concatenate = seg.wire c := by
  have hzero : TCPHeader.serialize { seg.header with cksum := 0 } =
      .ok (seg.header.front ++ encode 2 0 ++ seg.header.back) := TCPHeader.serialize_eq hfive
  have hfull : TCPHeader.serialize { seg.header with cksum := seg.checksum c } =
      .ok (seg.header.front ++ encode 2 (seg.checksum c).toNat ++ seg.header.back) := TCPHeader.serialize_eq hfive
  have hvalue : ((InternetChecksum.add ⟨c, false⟩ (seg.header.front ++ encode 2 0 ++ seg.header.back)).add
      seg.payload).value = seg.checksum c := by
    rw [checksum, ← InternetChecksum.add_append, List.append_assoc _ seg.header.back]
  simp only [serialize, hzero, bind, Except.bind, hvalue, hfull, pure, Except.pure]
  refine ⟨_, rfl, ?_⟩
  simp only [BufferList.concatenate_append, BufferList.concatenate_ofString, BufferList.concatenate_nil,
    List.nil_append, wire, List.append_assoc]

/-- The checksum verifies. -/
theorem onesSum_wire (hlen : 4 * seg.header.doff.toNat + seg.payload.length ≤ 65535) (hc : c.toNat < 2 ^ 20) :
    onesSum c (seg.wire c) = 0xffff := by
  have hback := seg.header.length_back
  apply InternetChecksum.onesSum_value (by rw [TCPHeader.length_front])
  refine sum_words_lt ?_ hc
  simp only [List.length_append, TCPHeader.length_front, length_encode]
  omega

/-- **What is written is read back**, with the checksum put in. -/
theorem parse_wire (hfifteen : seg.header.doff.toNat ≤ 15)
    (hlen : 4 * seg.header.doff.toNat + seg.payload.length ≤ 65535) (hc : c.toNat < 2 ^ 20)
    (seg₀ : TCPSegment) (hbuffer : buffer.str = seg.wire c) :
    seg₀.parse buffer c = .ok (.noError, { seg with header := { seg.header with cksum := seg.checksum c } }) := by
  have hsize := length_wire (c := c) hfive
  have htake : (seg.wire c).take 20 =
      seg.header.front ++ encode 2 (seg.checksum c).toNat ++ encode 2 seg.header.uptr.toNat := by
    rw [wire, TCPHeader.back, List.append_assoc (encode 2 _), ← List.append_assoc]
    apply List.take_left'
    simp only [List.length_append, TCPHeader.length_front, length_encode]
  have hdrop : (seg.wire c).drop (4 * seg.header.doff.toNat) = seg.payload := by
    have hback := seg.header.length_back
    rw [wire, ← List.append_assoc]
    apply List.drop_left'
    simp only [List.length_append, TCPHeader.length_front, length_encode]
    omega
  have hof : TCPHeader.ofBytes ((seg.wire c).take 20) = { seg.header with cksum := seg.checksum c } := by
    rw [htake]
    exact @TCPHeader.ofBytes_fields { seg.header with cksum := seg.checksum c } hfifteen
  have hoffset : TCPHeader.dataOffset (seg.wire c) = seg.header.doff.toNat := by
    rw [← TCPHeader.toNat_doff_ofBytes (by omega), hof]
  have hwell : WellFormed c buffer.str := by
    rw [hbuffer]
    exact ⟨onesSum_wire hfive hlen hc, by omega, by omega, by omega⟩
  have hlen' : buffer.str.length ≤ 65535 := by
    rw [hbuffer]
    omega
  obtain ⟨r, seg', hparse, haccept, hresult⟩ := parse_result seg₀ (sum_words_lt hlen' hc)
  have hr := haccept.mpr ⟨hwell.checksum, hwell.header, Or.inr hwell.offset⟩
  rw [hparse, hr, hresult hwell, hbuffer, hof, hoffset, hdrop]

end TCPSegment

end Sponge
