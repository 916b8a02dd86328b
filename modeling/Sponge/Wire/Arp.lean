import Sponge.Wire.Ethernet

/-!
# ARP messages on the wire

An ARP message says in its first eight bytes what kind of message it is, and then gives two pairs of
an Ethernet address and an IPv4 address. The format allows addresses of any size; the code knows one
kind, Ethernet and IPv4, and two operations.

## The model

`parse` reads the fields of the kind into the message before it looks at them, so a message that is
refused as unsupported has been changed; its addresses have not. `serialize` throws for a message of
another kind.

## What is proved

* `parse_of_unsupported`, `parse_of_supported` — what parsing does with any bytes.
* `message_accepted_iff` — which bytes are accepted; what is accepted is written back, and what is
  written is read back, whatever follows it.
-/

namespace Sponge

open BigEndian

/-- `TYPE_IPv4`. -/
def EthernetHeader.typeIPv4 : UInt16 := 0x800

/-- `TYPE_ETHERNET`. -/
def ARPMessage.typeEthernet : UInt16 := 1

/-- An ARP message. -/
structure ARPMessage where
  /-- Type of the link-layer protocol. -/
  hardwareType : UInt16 := ARPMessage.typeEthernet
  /-- Type of the Internet-layer protocol. -/
  protocolType : UInt16 := EthernetHeader.typeIPv4
  /-- Size of an address of the link layer. -/
  hardwareAddressSize : UInt8 := 6
  /-- Size of an address of the Internet layer. -/
  protocolAddressSize : UInt8 := 4
  /-- Request or reply. -/
  opcode : UInt16 := 0
  /-- Ethernet address of the sender. -/
  senderEthernetAddress : EthernetAddress := Vector.replicate 6 0
  /-- IP address of the sender. -/
  senderIpAddress : UInt32 := 0
  /-- Ethernet address of the target. -/
  targetEthernetAddress : EthernetAddress := Vector.replicate 6 0
  /-- IP address of the target. -/
  targetIpAddress : UInt32 := 0
  deriving DecidableEq

namespace ARPMessage

/-- `LENGTH`. -/
def length : ℕ := 28

/-- `OPCODE_REQUEST`. -/
def opcodeRequest : UInt16 := 1

/-- `OPCODE_REPLY`. -/
def opcodeReply : UInt16 := 2

/-- `supported`: is this a kind of message that the parser knows? -/
def supported (m : ARPMessage) : Bool :=
  m.hardwareType == typeEthernet && m.protocolType == EthernetHeader.typeIPv4 && m.hardwareAddressSize == 6 &&
    m.protocolAddressSize == 4 && (m.opcode == opcodeRequest || m.opcode == opcodeReply)

/-- The first part of `parse`: what kind of message it is. -/
def parseKind (m : ARPMessage) : Parsing ARPMessage := do
  let hardwareType ← NetParser.u16
  let protocolType ← NetParser.u16
  let hardwareAddressSize ← NetParser.u8
  let protocolAddressSize ← NetParser.u8
  let opcode ← NetParser.u16
  return { m with hardwareType, protocolType, hardwareAddressSize, protocolAddressSize, opcode }

/-- The second part of `parse`: the addresses. -/
def parseAddresses (m : ARPMessage) : Parsing ARPMessage := do
  let senderEthernetAddress ← NetParser.bytes 6
  let senderIpAddress ← NetParser.u32
  let targetEthernetAddress ← NetParser.bytes 6
  let targetIpAddress ← NetParser.u32
  return { m with senderEthernetAddress, senderIpAddress, targetEthernetAddress, targetIpAddress }

/-- The body of `parse`. -/
def parseFields (m : ARPMessage) : Parsing (ParseResult × ARPMessage) := do
  if (← get).buffer.size < length then
    return (.packetTooShort, m)
  let m ← m.parseKind
  if !m.supported then
    return (.unsupported, m)
  let m ← m.parseAddresses
  return ((← get).getError, m)

/-- `parse`: the result, and the message afterwards. -/
def parse (m : ARPMessage) (buffer : Buffer) : Except Exception (ParseResult × ARPMessage) := do
  let (r, _) ← m.parseFields { buffer }
  return r

/-- `serialize`. -/
def serialize (m : ARPMessage) : Except Exception Bytes := do
  if !m.supported then
    throw (.runtimeError
      "ARPMessage::serialize(): unsupported field combination (must be Ethernet/IP, and request or reply)")
  let ret := NetUnparser.u16 [] m.hardwareType
  let ret := NetUnparser.u16 ret m.protocolType
  let ret := NetUnparser.u8 ret m.hardwareAddressSize
  let ret := NetUnparser.u8 ret m.protocolAddressSize
  let ret := NetUnparser.u16 ret m.opcode
  let ret := NetUnparser.bytes ret m.senderEthernetAddress
  let ret := NetUnparser.u32 ret m.senderIpAddress
  let ret := NetUnparser.bytes ret m.targetEthernetAddress
  return NetUnparser.u32 ret m.targetIpAddress

/-! ### Reading and writing the two parts -/

/-- The message with the kind that eight bytes denote. -/
def withKind (m : ARPMessage) (b : Bytes) : ARPMessage :=
  { m with
    hardwareType := UInt16.ofNat (decode (slice b 0 2))
    protocolType := UInt16.ofNat (decode (slice b 2 2))
    hardwareAddressSize := UInt8.ofNat (decode (slice b 4 1))
    protocolAddressSize := UInt8.ofNat (decode (slice b 5 1))
    opcode := UInt16.ofNat (decode (slice b 6 2)) }

/-- The message with the addresses that twenty bytes denote. -/
def withAddresses (m : ARPMessage) (b : Bytes) : ARPMessage :=
  { m with
    senderEthernetAddress := arrayOf 6 (slice b 0 6)
    senderIpAddress := UInt32.ofNat (decode (slice b 6 4))
    targetEthernetAddress := arrayOf 6 (slice b 10 6)
    targetIpAddress := UInt32.ofNat (decode (slice b 16 4)) }

/-- The bytes of the kind. -/
def kindBytes (m : ARPMessage) : Bytes :=
  encode 2 m.hardwareType.toNat ++ encode 2 m.protocolType.toNat ++ encode 1 m.hardwareAddressSize.toNat ++
    encode 1 m.protocolAddressSize.toNat ++ encode 2 m.opcode.toNat

/-- The bytes of the addresses. -/
def addressBytes (m : ARPMessage) : Bytes :=
  m.senderEthernetAddress.toList ++ encode 4 m.senderIpAddress.toNat ++ m.targetEthernetAddress.toList ++
    encode 4 m.targetIpAddress.toNat

variable (m : ARPMessage)

@[simp] theorem length_kindBytes : m.kindBytes.length = 8 := by simp [kindBytes]

@[simp] theorem length_addressBytes : m.addressBytes.length = 20 := by simp [addressBytes]

theorem reads_parseKind : Reads NetParser.rest NetParser.Failed m.parseKind 8 m.withKind := by
  refine Reads.congr (NetParser.reads_u16.bind fun hardwareType => NetParser.reads_u16.bind fun protocolType =>
    NetParser.reads_u8.bind fun hardwareAddressSize => NetParser.reads_u8.bind fun protocolAddressSize =>
      NetParser.reads_u16.bind fun opcode => Reads.pure _) ?_
  intro l hl
  simp only [withKind, slice, List.drop_drop, List.drop_zero, Nat.reduceAdd]

theorem reads_parseAddresses : Reads NetParser.rest NetParser.Failed m.parseAddresses 20 m.withAddresses := by
  refine Reads.congr ((NetParser.reads_bytes 6).bind fun senderEthernetAddress => NetParser.reads_u32.bind
    fun senderIpAddress => (NetParser.reads_bytes 6).bind fun targetEthernetAddress => NetParser.reads_u32.bind
      fun targetIpAddress => Reads.pure _) ?_
  intro l hl
  simp only [withAddresses, slice, List.drop_drop, List.drop_zero, Nat.reduceAdd]

theorem serialize_eq : m.serialize = if m.supported then .ok (m.kindBytes ++ m.addressBytes) else
    .error (.runtimeError
      "ARPMessage::serialize(): unsupported field combination (must be Ethernet/IP, and request or reply)") := by
  cases hsupported : m.supported with
  | true =>
    simp only [serialize, hsupported, Bool.not_true, Bool.false_eq_true, if_false, if_true, kindBytes, addressBytes,
      NetUnparser.u16_eq, NetUnparser.u8_eq, NetUnparser.u32_eq, NetUnparser.bytes_eq, List.nil_append,
      List.append_assoc]
    rfl
  | false =>
    simp only [serialize, hsupported, Bool.not_false, if_true]
    rfl

/-- **What is read is written back.** -/
theorem kindBytes_withKind {b : Bytes} (h : b.length = 8) : (m.withKind b).kindBytes = b := by
  have hpart : ∀ i n, i + n ≤ 8 → (slice b i n).length = n := fun i n hin => length_slice (by omega)
  simp only [kindBytes, withKind]
  rw [NetUnparser.encode_u16 (hpart 0 2 (by decide)), NetUnparser.encode_u16 (hpart 2 2 (by decide)),
    NetUnparser.encode_u8 (hpart 4 1 (by decide)), NetUnparser.encode_u8 (hpart 5 1 (by decide)),
    NetUnparser.encode_u16 (hpart 6 2 (by decide)), show slice b 0 2 = b.take 2 from rfl, take_append_slice,
    take_append_slice, take_append_slice, take_append_slice, List.take_of_length_le (by omega)]

theorem addressBytes_withAddresses {b : Bytes} (h : b.length = 20) : (m.withAddresses b).addressBytes = b := by
  have hpart : ∀ i n, i + n ≤ 20 → (slice b i n).length = n := fun i n hin => length_slice (by omega)
  simp only [addressBytes, withAddresses]
  rw [toList_arrayOf (hpart 0 6 (by decide)), NetUnparser.encode_u32 (hpart 6 4 (by decide)),
    toList_arrayOf (hpart 10 6 (by decide)), NetUnparser.encode_u32 (hpart 16 4 (by decide)),
    show slice b 0 6 = b.take 6 from rfl, take_append_slice, take_append_slice, take_append_slice,
    List.take_of_length_le (by omega)]

open NetUnparser (encode_u8_inj encode_u16_inj encode_u32_inj)

variable {m} {m' : ARPMessage}

/-- The bytes of the kind determine it. -/
theorem kind_inj (h : m.kindBytes = m'.kindBytes) : m.hardwareType = m'.hardwareType ∧
    m.protocolType = m'.protocolType ∧ m.hardwareAddressSize = m'.hardwareAddressSize ∧
      m.protocolAddressSize = m'.protocolAddressSize ∧ m.opcode = m'.opcode := by
  obtain ⟨h, hopcode⟩ := List.append_inj' h (by simp)
  obtain ⟨h, hprotocolSize⟩ := List.append_inj' h (by simp)
  obtain ⟨h, hhardwareSize⟩ := List.append_inj' h (by simp)
  obtain ⟨hhardware, hprotocol⟩ := List.append_inj' h (by simp)
  exact ⟨encode_u16_inj hhardware, encode_u16_inj hprotocol, encode_u8_inj hhardwareSize, encode_u8_inj hprotocolSize,
    encode_u16_inj hopcode⟩

/-- The bytes of the addresses determine them. -/
theorem addresses_inj (h : m.addressBytes = m'.addressBytes) : m.senderEthernetAddress = m'.senderEthernetAddress ∧
    m.senderIpAddress = m'.senderIpAddress ∧ m.targetEthernetAddress = m'.targetEthernetAddress ∧
      m.targetIpAddress = m'.targetIpAddress := by
  obtain ⟨h, htargetIp⟩ := List.append_inj' h (by simp)
  obtain ⟨h, htarget⟩ := List.append_inj' h (by simp)
  obtain ⟨hsender, hsenderIp⟩ := List.append_inj' h (by simp)
  exact ⟨Vector.toList_inj.mp hsender, encode_u32_inj hsenderIp, Vector.toList_inj.mp htarget, encode_u32_inj htargetIp⟩

/-- **What is written is read back**, whatever the message was before. -/
theorem withAddresses_withKind (m₀ m : ARPMessage) : (m₀.withKind m.kindBytes).withAddresses m.addressBytes = m := by
  obtain ⟨hhardware, hprotocol, hhardwareSize, hprotocolSize, hopcode⟩ :=
    kind_inj (m₀.kindBytes_withKind m.length_kindBytes)
  obtain ⟨hsender, hsenderIp, htarget, htargetIp⟩ :=
    addresses_inj ((m₀.withKind m.kindBytes).addressBytes_withAddresses m.length_addressBytes)
  cases m
  simp only [withKind, withAddresses, mk.injEq] at *
  exact ⟨hhardware, hprotocol, hhardwareSize, hprotocolSize, hopcode, hsender, hsenderIp, htarget, htargetIp⟩

/-- The bytes by which a message is known to be supported. -/
def Known (b : Bytes) : Prop := ∃ op, (op = 1 ∨ op = 2) ∧ b = [0, 1, 8, 0, 6, 4, 0, op]

theorem supported_iff : m.supported = true ↔ Known m.kindBytes := by
  simp only [supported, Bool.and_eq_true, Bool.or_eq_true, beq_iff_eq]
  constructor
  · rintro ⟨⟨⟨⟨hhardware, hprotocol⟩, hhardwareSize⟩, hprotocolSize⟩, hopcode | hopcode⟩
    · refine ⟨1, Or.inl rfl, ?_⟩
      rw [kindBytes, hhardware, hprotocol, hhardwareSize, hprotocolSize, hopcode]
      decide
    · refine ⟨2, Or.inr rfl, ?_⟩
      rw [kindBytes, hhardware, hprotocol, hhardwareSize, hprotocolSize, hopcode]
      decide
  · rintro ⟨op, rfl | rfl, hbytes⟩
    · have hkind : m.kindBytes = ({ opcode := opcodeRequest } : ARPMessage).kindBytes := hbytes.trans (by decide)
      obtain ⟨hhardware, hprotocol, hhardwareSize, hprotocolSize, hopcode⟩ := kind_inj hkind
      exact ⟨⟨⟨⟨hhardware, hprotocol⟩, hhardwareSize⟩, hprotocolSize⟩, Or.inl hopcode⟩
    · have hkind : m.kindBytes = ({ opcode := opcodeReply } : ARPMessage).kindBytes := hbytes.trans (by decide)
      obtain ⟨hhardware, hprotocol, hhardwareSize, hprotocolSize, hopcode⟩ := kind_inj hkind
      exact ⟨⟨⟨⟨hhardware, hprotocol⟩, hhardwareSize⟩, hprotocolSize⟩, Or.inr hopcode⟩

/-! ### Which messages are accepted -/

variable (m) {buffer : Buffer}

theorem parse_of_fields {r : ParseResult × ARPMessage} {p : NetParser} (h : m.parseFields { buffer } = .ok (r, p)) :
    m.parse buffer = .ok r := by
  simp only [parse, h, bind, Except.bind, pure, Except.pure]

/-- Too few bytes: nothing is read. -/
theorem parse_of_lt (h : buffer.size < 28) : m.parse buffer = .ok (.packetTooShort, m) := by
  refine m.parse_of_fields (p := { buffer }) ?_
  rw [parseFields, get_bind, if_pos (show Buffer.size _ < length from h)]
  rfl

/-- The kind is read first. -/
theorem parseKind_of_le (h : 28 ≤ buffer.size) : ∃ p,
    m.parseKind { buffer } = .ok (m.withKind (buffer.str.take 8), p) ∧ p.rest = buffer.str.drop 8 ∧ ¬ p.Failed ∧
      ((m.withKind (buffer.str.take 8)).supported = true ↔ Known (buffer.str.take 8)) := by
  have hlen : 8 ≤ buffer.str.length := le_trans (by decide) h
  obtain ⟨p, hkind, hrest, hp⟩ := m.reads_parseKind.ok { buffer } (not_not.mpr rfl) hlen
  refine ⟨p, hkind, hrest, hp, ?_⟩
  rw [supported_iff, kindBytes_withKind _ (List.length_take_of_le hlen)]

/-- A message of another kind is refused, with its kind in the fields. -/
theorem parse_of_unsupported (h : 28 ≤ buffer.size) (hkind : ¬ Known (buffer.str.take 8)) :
    m.parse buffer = .ok (.unsupported, m.withKind (buffer.str.take 8)) := by
  obtain ⟨p, hparse, -, -, hsupported⟩ := m.parseKind_of_le h
  rw [← hsupported, Bool.not_eq_true] at hkind
  refine m.parse_of_fields (p := p) ?_
  rw [parseFields, get_bind, if_neg (show ¬ Buffer.size _ < length from Nat.not_lt.mpr h), bind_ok hparse,
    if_pos (by rw [hkind, Bool.not_false])]
  rfl

/-- A message of the right kind is accepted. -/
theorem parse_of_supported (h : 28 ≤ buffer.size) (hkind : Known (buffer.str.take 8)) :
    m.parse buffer = .ok (.noError, (m.withKind (buffer.str.take 8)).withAddresses (slice buffer.str 8 20)) := by
  obtain ⟨p, hparse, hrest, hp, hsupported⟩ := m.parseKind_of_le h
  have hlen : 28 ≤ buffer.str.length := h
  obtain ⟨p', haddresses, -, hp'⟩ := (reads_parseAddresses _).ok p hp
    (by rw [hrest, List.length_drop]; omega : 20 ≤ p.rest.length)
  refine m.parse_of_fields (p := p') ?_
  rw [parseFields, get_bind, if_neg (show ¬ Buffer.size _ < length from Nat.not_lt.mpr h), bind_ok hparse,
    if_neg (by rw [hsupported.mpr hkind]; decide), bind_ok haddresses, get_bind, Decidable.not_not.mp hp', hrest]
  rfl

/-- **Which messages are accepted.** Whatever the message was before, parsing bytes never throws. It
succeeds exactly if there are at least twenty-eight bytes of which the first eight say Ethernet,
IPv4 and request or reply, and then writing the message gives the first twenty-eight bytes. A
message that can be written is read back, whatever follows it. -/
theorem message_accepted_iff (m₀ : ARPMessage) (buffer : Buffer) :
    (∃ r m, m₀.parse buffer = .ok (r, m) ∧ (r = .noError ↔ 28 ≤ buffer.size ∧ Known (buffer.str.take 8)) ∧
      (r = .noError → m.serialize = .ok (buffer.str.take 28))) ∧
    ∀ m bytes, ARPMessage.serialize m = .ok bytes → bytes <+: buffer.str → m₀.parse buffer = .ok (.noError, m) := by
  constructor
  · by_cases hlen : 28 ≤ buffer.size
    · by_cases hkind : Known (buffer.str.take 8)
      · refine ⟨_, _, m₀.parse_of_supported hlen hkind, ⟨fun _ => ⟨hlen, hkind⟩, fun _ => rfl⟩, fun _ => ?_⟩
        have hlen' : 28 ≤ buffer.str.length := hlen
        have hbytes : ((m₀.withKind (buffer.str.take 8)).withAddresses (slice buffer.str 8 20)).kindBytes =
            buffer.str.take 8 := m₀.kindBytes_withKind (List.length_take_of_le (by omega))
        rw [serialize_eq, if_pos (supported_iff.mpr (hbytes.symm ▸ hkind)), hbytes,
          addressBytes_withAddresses _ (length_slice (by omega)), take_append_slice]
      · refine ⟨_, _, m₀.parse_of_unsupported hlen hkind, ⟨fun h => absurd h (by decide), fun h => absurd h.2 hkind⟩,
          fun h => absurd h (by decide)⟩
    · refine ⟨_, _, m₀.parse_of_lt (Nat.lt_of_not_le hlen), ⟨fun h => absurd h (by decide), fun h => absurd h.1 hlen⟩,
        fun h => absurd h (by decide)⟩
  · intro m bytes hserialize hfirst
    rw [serialize_eq] at hserialize
    split_ifs at hserialize with hsupported
    obtain rfl := Except.ok.inj hserialize
    obtain ⟨rest, hrest⟩ := hfirst
    have hkind : buffer.str.take 8 = m.kindBytes := by
      rw [← hrest, List.append_assoc]
      exact List.take_left' m.length_kindBytes
    have haddresses : slice buffer.str 8 20 = m.addressBytes := by
      rw [← hrest, List.append_assoc, slice, List.drop_left' m.length_kindBytes]
      exact List.take_left' m.length_addressBytes
    have hlen : 28 ≤ buffer.size := by
      rw [Buffer.size, ← hrest, List.length_append, List.length_append, length_kindBytes, length_addressBytes]
      exact Nat.le_add_right _ _
    rw [m₀.parse_of_supported hlen (hkind ▸ supported_iff.mp hsupported), hkind, haddresses, withAddresses_withKind]

end ARPMessage

end Sponge
