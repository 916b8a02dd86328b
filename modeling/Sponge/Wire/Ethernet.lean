import Sponge.Wire.Parser

/-!
# Ethernet frames on the wire

The bytes of an Ethernet frame: two addresses of six bytes, a type of two, and the payload. There is no
checksum and nothing to skip, so every sequence of at least fourteen bytes is a frame, and the frame
determines the bytes.

## The model

`EthernetHeader.parse` looks at the number of bytes before it reads any, and reports too few of them in its
result without recording an error in the parser. `EthernetFrame.parse` looks at the parser only, as
`IPv4Datagram.parse` and `TCPSegment.parse` do.

## What is proved

* `EthernetFrame.parse_of_le`, `parse_of_lt` — what parsing does with any bytes.
* `EthernetFrame.frame_accepted_iff` — fewer than fourteen bytes are not refused; all other bytes are read
  and written back, and so is every frame.
-/

namespace Sponge

open BigEndian

/-! ### Arrays of bytes -/

/-- A loop that reads the bytes of an array. -/
def NetParser.bytes : (n : ℕ) → Parsing (Vector UInt8 n)
  | 0 => return #v[]
  | n + 1 => do
    let front ← bytes n
    return front.push (← u8)

/-- A loop that writes the bytes of an array. -/
def NetUnparser.bytes {n : ℕ} (s : Bytes) (a : Vector UInt8 n) : Bytes := a.toList.foldl u8 s

/-- The array of the first `n` bytes. -/
def arrayOf (n : ℕ) (l : Bytes) : Vector UInt8 n := Vector.ofFn fun i => l.getD i 0

theorem toList_arrayOf {n : ℕ} {l : Bytes} (h : l.length = n) : (arrayOf n l).toList = l := by
  subst h
  apply List.ext_getElem
  · simp
  · intro i _ hi
    simp [arrayOf]

theorem arrayOf_toList {n : ℕ} (a : Vector UInt8 n) : arrayOf n a.toList = a := by
  apply Vector.ext
  intro i hi
  simp [arrayOf]

theorem NetParser.reads_bytes (n : ℕ) : Reads rest Failed (bytes n) n (arrayOf n) := by
  induction n with
  | zero => exact Reads.congr (Reads.pure _) fun l _ => by simp [arrayOf]
  | succ n ih =>
    refine Reads.congr (ih.bind fun front => reads_u8.bind fun byte => Reads.pure (front.push byte)) ?_
    intro l hl
    have hlast : (l.drop n).take 1 = [l[n]] := by
      rw [List.drop_eq_getElem_cons (by omega)]
      rfl
    have hfront : (arrayOf n (l.take n)).toList = l.take n :=
      toList_arrayOf (List.length_take_of_le (by omega))
    apply Vector.toList_inj.mp
    rw [hlast, ofNat_decode_singleton, Vector.toList_push, hfront, toList_arrayOf hl,
      ← List.take_succ_eq_append_getElem (by omega), List.take_of_length_le (by omega)]

theorem NetUnparser.bytes_eq {n : ℕ} (s : Bytes) (a : Vector UInt8 n) : bytes s a = s ++ a.toList := by
  have hfold : ∀ (l s : Bytes), l.foldl u8 s = s ++ l := by
    intro l
    induction l with
    | nil => intro s; simp
    | cons x l ih =>
      intro s
      have hx : u8 s x = s ++ [x] := by simp [u8_eq, encode]
      rw [List.foldl_cons, ih, hx, List.append_assoc, List.singleton_append]
  exact hfold _ s

/-! ### Headers and frames -/

/-- An Ethernet address. -/
abbrev EthernetAddress := Vector UInt8 6

/-- The header of an Ethernet frame. -/
structure EthernetHeader where
  /-- Destination address. -/
  dst : EthernetAddress := Vector.replicate 6 0
  /-- Source address. -/
  src : EthernetAddress := Vector.replicate 6 0
  /-- Type of the payload. -/
  type : UInt16 := 0
  deriving DecidableEq

namespace EthernetHeader

/-- `LENGTH`. -/
def length : ℕ := 14

/-- The fields that `parse` reads. -/
def parseFields : Parsing EthernetHeader := do
  let dst ← NetParser.bytes 6
  let src ← NetParser.bytes 6
  let type ← NetParser.u16
  return { dst, src, type }

/-- `parse`: the result, and the header afterwards. -/
def parse (header : EthernetHeader) : Parsing (ParseResult × EthernetHeader) := do
  if (← get).buffer.size < length then
    return (.packetTooShort, header)
  let header ← parseFields
  return ((← get).getError, header)

/-- `serialize`. -/
def serialize (header : EthernetHeader) : Bytes :=
  let ret := NetUnparser.bytes [] header.dst
  let ret := NetUnparser.bytes ret header.src
  NetUnparser.u16 ret header.type

end EthernetHeader

/-- An Ethernet frame. -/
structure EthernetFrame where
  /-- The header. -/
  header : EthernetHeader := {}
  /-- The payload. -/
  payload : BufferList := {}
  deriving DecidableEq

namespace EthernetFrame

/-- `parse`: the result, and the frame afterwards. -/
def parse (frame : EthernetFrame) (buffer : Buffer) : Except Exception (ParseResult × EthernetFrame) := do
  -- the result of parsing the header is not looked at
  let ((_, header), p) ← frame.header.parse { buffer }
  return (p.getError, { header, payload := .ofBuffer p.buffer })

/-- `serialize`. -/
def serialize (frame : EthernetFrame) : BufferList :=
  (BufferList.append {} (BufferList.ofString frame.header.serialize)).append frame.payload

end EthernetFrame

/-! ### Reading and writing a header -/

namespace EthernetHeader

/-- The header that fourteen bytes denote. -/
def ofBytes (b : Bytes) : EthernetHeader where
  dst := arrayOf 6 (slice b 0 6)
  src := arrayOf 6 (slice b 6 6)
  type := UInt16.ofNat (decode (slice b 12 2))

theorem reads_parseFields : Reads NetParser.rest NetParser.Failed parseFields 14 ofBytes := by
  refine Reads.congr ((NetParser.reads_bytes 6).bind fun dst => (NetParser.reads_bytes 6).bind fun src =>
    NetParser.reads_u16.bind fun type => Reads.pure _) ?_
  intro l hl
  simp only [ofBytes, slice, List.drop_drop, List.drop_zero, Nat.reduceAdd]

theorem serialize_eq (header : EthernetHeader) :
    header.serialize = header.dst.toList ++ header.src.toList ++ encode 2 header.type.toNat := by
  rw [serialize, NetUnparser.u16_eq, NetUnparser.bytes_eq, NetUnparser.bytes_eq, List.nil_append]

@[simp] theorem length_serialize (header : EthernetHeader) : header.serialize.length = 14 := by
  rw [serialize_eq]
  simp

/-- **What is read is written back.** -/
theorem serialize_ofBytes {b : Bytes} (h : b.length = 14) : (ofBytes b).serialize = b := by
  have hpart : ∀ i n, i + n ≤ 14 → (slice b i n).length = n := fun i n hin => length_slice (by omega)
  rw [serialize_eq]
  show (arrayOf 6 (slice b 0 6)).toList ++ (arrayOf 6 (slice b 6 6)).toList ++
    encode 2 (UInt16.ofNat (decode (slice b 12 2))).toNat = b
  rw [toList_arrayOf (hpart 0 6 (by decide)), toList_arrayOf (hpart 6 6 (by decide)),
    NetUnparser.encode_u16 (hpart 12 2 (by decide)), show slice b 0 6 = b.take 6 from rfl, take_append_slice,
    take_append_slice, List.take_of_length_le (by omega)]

/-- **What is written is read back.** -/
theorem ofBytes_serialize (header : EthernetHeader) : ofBytes header.serialize = header := by
  obtain ⟨dst, src, type⟩ := header
  have hdst : slice (dst.toList ++ src.toList ++ encode 2 type.toNat) 0 6 = dst.toList := by
    rw [List.append_assoc]
    exact List.take_left' Vector.length_toList
  have hsrc : slice (dst.toList ++ src.toList ++ encode 2 type.toNat) 6 6 = src.toList := by
    rw [List.append_assoc, slice, List.drop_left' Vector.length_toList]
    exact List.take_left' Vector.length_toList
  have htype : slice (dst.toList ++ src.toList ++ encode 2 type.toNat) 12 2 = encode 2 type.toNat := by
    rw [slice, List.drop_left' (by simp), List.take_of_length_le (by simp)]
  rw [serialize_eq]
  show EthernetHeader.mk (arrayOf 6 (slice (dst.toList ++ src.toList ++ encode 2 type.toNat) 0 6))
    (arrayOf 6 (slice (dst.toList ++ src.toList ++ encode 2 type.toNat) 6 6))
    (UInt16.ofNat (decode (slice (dst.toList ++ src.toList ++ encode 2 type.toNat) 12 2))) = _
  rw [hdst, hsrc, htype, arrayOf_toList, arrayOf_toList, NetUnparser.ofNat_decode_u16]

variable {header : EthernetHeader} {p : NetParser}

/-- Too few bytes: nothing is read, and no error is recorded. -/
theorem parse_of_lt (h : p.rest.length < 14) : header.parse p = .ok ((.packetTooShort, header), p) := by
  have hsize : p.buffer.size < length := h
  rw [parse, get_bind, if_pos hsize]
  rfl

theorem parse_of_le (hp : ¬ p.Failed) (h : 14 ≤ p.rest.length) :
    ∃ p', header.parse p = .ok ((.noError, ofBytes (p.rest.take 14)), p') ∧ p'.rest = p.rest.drop 14 ∧
      ¬ p'.Failed := by
  have hsize : ¬ p.buffer.size < length := Nat.not_lt.mpr h
  obtain ⟨p', hfields, hrest, hp'⟩ := reads_parseFields.ok p hp h
  refine ⟨p', ?_, hrest, hp'⟩
  rw [parse, get_bind, if_neg hsize, bind_ok hfields, get_bind, Decidable.not_not.mp hp']
  rfl

end EthernetHeader

/-! ### Which frames are accepted -/

namespace EthernetFrame

variable (frame : EthernetFrame) {buffer : Buffer}

theorem serialize_concatenate :
    frame.serialize.concatenate = frame.header.serialize ++ frame.payload.concatenate := by
  simp only [serialize, BufferList.concatenate_append, BufferList.concatenate_ofString, BufferList.concatenate_nil,
    List.nil_append]

/-- Too few bytes are accepted: all of them are the payload, and the header is as it was. -/
theorem parse_of_lt (h : buffer.size < 14) :
    frame.parse buffer = .ok (.noError, { frame with payload := .ofBuffer buffer }) := by
  have hheader : frame.header.parse { buffer } = .ok ((.packetTooShort, frame.header), { buffer }) :=
    EthernetHeader.parse_of_lt h
  simp only [parse, hheader, bind, Except.bind, pure, Except.pure]

/-- All other bytes are a header and a payload. -/
theorem parse_of_le (h : 14 ≤ buffer.size) :
    ∃ p, frame.parse buffer =
        .ok (.noError, { header := .ofBytes (buffer.str.take 14), payload := .ofBuffer p }) ∧
      p.str = buffer.str.drop 14 := by
  obtain ⟨p, hheader, hrest, hp⟩ :=
    @EthernetHeader.parse_of_le frame.header { buffer } (not_not.mpr rfl) h
  refine ⟨p.buffer, ?_, hrest⟩
  simp only [parse, hheader, bind, Except.bind, pure, Except.pure, Decidable.not_not.mp hp]
  rfl

/-- **What is written is read back.** -/
theorem parse_serialize (frame₀ : EthernetFrame) (hbuffer : buffer.str = frame.serialize.concatenate) :
    ∃ payload, frame₀.parse buffer = .ok (.noError, { frame with payload }) ∧
      payload.concatenate = frame.payload.concatenate := by
  rw [serialize_concatenate] at hbuffer
  have hlen : 14 ≤ buffer.size := by
    rw [Buffer.size, hbuffer, List.length_append, EthernetHeader.length_serialize]
    exact Nat.le_add_right _ _
  obtain ⟨p, hparse, hp⟩ := frame₀.parse_of_le hlen
  have hfront : (frame.header.serialize ++ frame.payload.concatenate).take 14 = frame.header.serialize :=
    List.take_left' frame.header.length_serialize
  refine ⟨.ofBuffer p, ?_, ?_⟩
  · rw [hparse, hbuffer, hfront, EthernetHeader.ofBytes_serialize]
  · rw [BufferList.concatenate_ofBuffer, hp, hbuffer, List.drop_left' frame.header.length_serialize]

/-- **Which frames are accepted.** For a fresh frame: bytes are accepted exactly if there are at least
fourteen, and what is accepted is written back, if and only if there are at least fourteen bytes. Every
frame that is written is read back. -/
theorem frame_accepted_iff (buffer : Buffer) :
    (∃ r frame, EthernetFrame.parse {} buffer = .ok (r, frame) ∧
      (((r = .noError ↔ 14 ≤ buffer.size) ∧ (r = .noError → frame.serialize.concatenate = buffer.str)) ↔
        14 ≤ buffer.size)) ∧
    ∀ frame frame₀ : EthernetFrame, buffer.str = frame.serialize.concatenate →
      ∃ payload, frame₀.parse buffer = .ok (.noError, { frame with payload }) ∧
        payload.concatenate = frame.payload.concatenate := by
  constructor
  · by_cases hlen : 14 ≤ buffer.size
    · obtain ⟨p, hparse, hp⟩ := EthernetFrame.parse_of_le {} hlen
      refine ⟨_, _, hparse, fun _ => hlen, fun _ => ⟨⟨fun _ => hlen, fun _ => rfl⟩, fun _ => ?_⟩⟩
      have hheader : (EthernetHeader.ofBytes (buffer.str.take 14)).serialize = buffer.str.take 14 :=
        EthernetHeader.serialize_ofBytes (List.length_take_of_le hlen)
      rw [serialize_concatenate, hheader, BufferList.concatenate_ofBuffer, hp, List.take_append_drop]
    · refine ⟨_, _, EthernetFrame.parse_of_lt {} (Nat.lt_of_not_le hlen), ?_⟩
      exact ⟨fun h => h.1.mp rfl, fun h => absurd h hlen⟩
  · intro frame frame₀ hbuffer
    exact frame.parse_serialize frame₀ hbuffer

/-- **No bytes at all are accepted as a frame.** -/
theorem empty_frame_accepted :
    ¬ ∀ buffer : Buffer, ∃ r frame, EthernetFrame.parse {} buffer = .ok (r, frame) ∧
      (r = .noError ↔ 14 ≤ buffer.size) ∧ (r = .noError → frame.serialize.concatenate = buffer.str) := by
  intro h
  obtain ⟨r, frame, hparse, hiff, -⟩ := h (Buffer.ofString [])
  have hnone : EthernetFrame.parse {} (Buffer.ofString []) =
      .ok (.noError, { payload := .ofBuffer (Buffer.ofString []) }) := by decide +kernel
  rw [hnone] at hparse
  cases hparse
  exact absurd (hiff.mp rfl) (by decide)

end EthernetFrame

end Sponge
