import Sponge.Host.Descriptor
import Sponge.Tcp.Connection

/-!
# Adapters

A `TCPSpongeSocket` exchanges segments with its peer through an adapter, which puts them into
datagrams and takes them out again. The class is a template over the adapter: there are segments in
IPv4 datagrams on a TUN device, segments in UDP datagrams, and each of these with a filter in front
of it that loses some segments at random.

## The model

`DatagramAdapter` is what the socket asks of an adapter, with the adapter's own state as the
variables of its programs. The random numbers of the filter are a sequence that it is given. `tick`
does nothing for these adapters. The adapter for Ethernet, whose `NetworkInterface` is not
implemented, is left out.

`LawfulAdapter` is what the socket can rely on: an adapter reads one datagram at a time, a segment
that it returns is in that datagram, and what it writes is the segment. Segments are told apart only
by what a connection looks at (`Alike`). A TUN device takes a datagram at once (`SysCall.Whole`):
the loop of `write` would send the rest of a datagram as a datagram of its own.

## What is proved

* `segmentReceived_alike` — ports and checksum do not matter to a connection.
* `TCPOverIPv4Adapter.receive_total`, `TCPOverIPv4Adapter.receive_wrapped` — no bytes make an
  adapter throw, and whatever adapter finds a segment in a datagram finds the one that was put
  there.
* instances of `LawfulAdapter`.
-/

namespace Sponge

/-- The descriptors of a socket. -/
inductive SocketFd where
  /-- The end of the pair that the owner has. -/
  | owner
  /-- `_thread_data`, the end of the pair that the connection has. -/
  | thread
  /-- The descriptor of the adapter. -/
  | datagram
  deriving DecidableEq

/-- What a socket asks of its adapter. -/
class DatagramAdapter (A : Type) (K : outParam Type) where
  /-- `config_mut() = config`. -/
  configure : K → A → A
  /-- `set_listening`. -/
  setListening : Bool → A → A
  /-- `read`: a segment of the peer, if the next datagram has one. -/
  read : Prog SocketFd A (Option TCPSegment)
  /-- `write`. -/
  write : TCPSegment → Prog SocketFd A Unit

/-! ### The adapters -/

section

variable {δ τ ρ α : Type}

/-- A program on a part of the variables. -/
def inPart (get : τ → ρ) (set : ρ → τ → τ) (p : Prog δ ρ α) : Prog δ τ α :=
  zoom (fun s => { fds := s.fds, answers := s.answers, calls := s.calls, own := get s.own })
    (fun r s => { fds := r.fds, answers := r.answers, calls := r.calls, own := set r.own s.own }) p

namespace UDPSocket

variable [DecidableEq δ]

/-- `recv`: where the datagram comes from, and what is in it. -/
def recv (fd : δ) (mtu : ℕ) : Prog δ τ (Address × Bytes) := do
  let answer ← systemCall "recvfrom"
  if answer.bytes.length > mtu then
    throw (.exception (.runtimeError "recvfrom (oversized datagram)"))
  FileDescriptor.registerRead fd
  note (.recvfrom fd answer.source answer.bytes)
  return (answer.source, answer.bytes)

/-- `sendto`. -/
def sendto (fd : δ) (destination : Address) (payload : BufferViewList) : Prog δ τ Unit := do
  let answer ← systemCall "sendmsg"
  if answer.count != payload.size then
    throw (.exception (.runtimeError "datagram payload too big for sendmsg()"))
  note (.sendmsg fd destination payload.bytes)
  FileDescriptor.registerWrite fd

/-- One datagram is received. -/
theorem recv_outcome (fd : δ) (mtu : ℕ) (s : Process δ τ) :
    Outcome (fun r s' => s'.own = s.own ∧ s'.calls = s.calls ++ [.recvfrom fd r.1 r.2] ∧
        (∀ fd', fd' ≠ fd → s'.fds fd' = s.fds fd') ∧ (s'.fds fd).readCount = (s.fds fd).readCount + 1)
      (fun e s' => e.FromKernel ∧ Untouched s s') (recv fd mtu s) := by
  simp only [recv, outcome_bind, outcome_systemCall, outcome_ite, outcome_throw, FileDescriptor.registerRead,
    FileDescriptor.outcome_modifyFd, outcome_note, outcome_pure, answered_fds, Function.update_self]
  exact ⟨fun errno _ => ⟨trivial, rfl, rfl⟩, fun _ => ⟨fun _ => ⟨by simp [Failure.FromKernel], rfl, rfl⟩,
    fun _ => ⟨rfl, rfl, fun fd' hne => Function.update_of_ne hne .., trivial⟩⟩⟩

/-- One datagram is sent. -/
theorem sendto_outcome (fd : δ) (destination : Address) (payload : BufferViewList) (s : Process δ τ) :
    Outcome (fun _ s' => s'.own = s.own ∧ s'.calls = s.calls ++ [.sendmsg fd destination payload.bytes] ∧
        ∀ fd', fd' ≠ fd → s'.fds fd' = s.fds fd')
      (fun e s' => e.FromKernel ∧ Untouched s s') (sendto fd destination payload s) := by
  simp only [sendto, outcome_bind, outcome_systemCall, outcome_ite, outcome_throw, FileDescriptor.registerWrite,
    FileDescriptor.outcome_modifyFd, outcome_note, answered_fds]
  exact ⟨fun errno _ => ⟨trivial, rfl, rfl⟩, fun _ => ⟨fun _ => ⟨by simp [Failure.FromKernel], rfl, rfl⟩,
    fun _ => ⟨rfl, rfl, fun fd' hne => Function.update_of_ne hne ..⟩⟩⟩

end UDPSocket

end

/-- The default limit of `FileDescriptor::read`: the largest `size_t`. -/
def sizeMax : ℕ := 2 ^ 64 - 1

/-- What `TCPOverIPv4OverTunFdAdapter::read` does with the bytes it has read. -/
def TCPOverIPv4Adapter.receive (adapter : TCPOverIPv4Adapter) (bytes : Bytes) :
    Except Exception (Option TCPSegment × TCPOverIPv4Adapter) := do
  let (result, ipDgram) ← IPv4Datagram.parse {} (Buffer.ofString bytes)
  if result != .noError then
    return (none, adapter)
  adapter.unwrapTcpInIp ipDgram

/-- `TCPOverIPv4OverTunFdAdapter`. -/
structure TCPOverIPv4OverTunFdAdapter where
  /-- The base class. -/
  base : TCPOverIPv4Adapter := {}

instance : DatagramAdapter TCPOverIPv4OverTunFdAdapter FdAdapterConfig where
  configure config adapter := ⟨{ adapter.base with config }⟩
  setListening listening adapter := ⟨{ adapter.base with listening }⟩
  read := do
    let bytes ← FileDescriptor.read .datagram sizeMax
    let (seg, base) ← orThrow ((← get).own.base.receive bytes)
    modify fun s => { s with own := ⟨base⟩ }
    return seg
  write seg := do
    let (ipDgram, _) ← orThrow ((← get).own.base.wrapTcpInIp seg)
    let wire ← orThrow ipDgram.serialize
    let _ ← FileDescriptor.write .datagram (.ofBufferList wire) true

/-- `TCPOverUDPSocketAdapter`. -/
structure TCPOverUDPSocketAdapter where
  /-- The configuration. -/
  config : FdAdapterConfig := {}
  /-- The adapter waits for a new connection. -/
  listening : Bool := false
  deriving DecidableEq

/-- What `TCPOverUDPSocketAdapter::read` does with the datagram it has received. The ports of
the segment are not looked at. -/
def TCPOverUDPSocketAdapter.receive (adapter : TCPOverUDPSocketAdapter) (source : Address) (payload : Bytes) :
    Except Exception (Option TCPSegment × TCPOverUDPSocketAdapter) := do
  if !adapter.listening && source != adapter.config.destination then
    return (none, adapter)
  let (result, seg) ← TCPSegment.parse {} (Buffer.ofString payload) 0
  if result != .noError then
    return (none, adapter)
  if adapter.listening then
    if seg.header.syn && !seg.header.rst then
      return (some seg, { config := { adapter.config with destination := source }, listening := false })
    else
      return (none, adapter)
  return (some seg, adapter)

instance : DatagramAdapter TCPOverUDPSocketAdapter FdAdapterConfig where
  configure config adapter := { adapter with config }
  setListening listening adapter := { adapter with listening }
  read := do
    let (source, payload) ← UDPSocket.recv .datagram 65536
    let (seg, adapter) ← orThrow ((← get).own.receive source payload)
    modify fun s => { s with own := adapter }
    return seg
  write seg := do
    let config := (← get).own.config
    let seg := { seg with
      header := { seg.header with sport := config.source.port, dport := config.destination.port } }
    let wire ← orThrow (seg.serialize 0)
    UDPSocket.sendto .datagram config.destination (.ofBufferList wire)

/-- The configuration of an adapter with a filter in front of it. -/
structure LossyConfig (K : Type) where
  /-- The adapter's own. -/
  config : K
  /-- How many of `65536` segments to lose on the way in. -/
  lossRateDn : UInt16 := 0
  /-- How many of `65536` segments to lose on the way out. -/
  lossRateUp : UInt16 := 0

/-- `LossyFdAdapter`. -/
structure LossyFdAdapter (A : Type) where
  /-- The numbers that the generator will give. -/
  rand : ℕ → UInt32
  /-- How many it has given. -/
  drawn : ℕ := 0
  /-- The loss rates of the configuration. -/
  lossRateDn : UInt16 := 0
  /-- The loss rates of the configuration. -/
  lossRateUp : UInt16 := 0
  /-- The adapter. -/
  adapter : A

/-- `_should_drop`: a number is drawn only if the rate is not zero. -/
def LossyFdAdapter.shouldDrop {A : Type} (uplink : Bool) : Prog SocketFd (LossyFdAdapter A) Bool := do
  let lossy := (← get).own
  let loss := if uplink then lossy.lossRateUp else lossy.lossRateDn
  if loss != 0 then
    modify fun s => { s with own := { s.own with drawn := s.own.drawn + 1 } }
    return (lossy.rand lossy.drawn).toUInt16 < loss
  return false

instance {A K : Type} [DatagramAdapter A K] : DatagramAdapter (LossyFdAdapter A) (LossyConfig K) where
  configure config lossy :=
    { lossy with
      lossRateDn := config.lossRateDn
      lossRateUp := config.lossRateUp
      adapter := DatagramAdapter.configure config.config lossy.adapter }
  setListening listening lossy := { lossy with adapter := DatagramAdapter.setListening listening lossy.adapter }
  read := do
    let ret ← inPart LossyFdAdapter.adapter (fun adapter lossy => { lossy with adapter }) DatagramAdapter.read
    if ← LossyFdAdapter.shouldDrop false then
      return none
    return ret
  write seg := do
    if ← LossyFdAdapter.shouldDrop true then
      return
    inPart LossyFdAdapter.adapter (fun adapter lossy => { lossy with adapter }) (DatagramAdapter.write seg)

/-! ### Segments and datagrams -/

/-- The two segments differ at most in ports and checksum. -/
def TCPSegment.Alike (seg seg' : TCPSegment) : Prop :=
  ∃ sport dport cksum, seg' = { seg with header := { seg.header with sport, dport, cksum } }

/-- **Ports and checksum do not matter to a connection.** -/
theorem segmentReceived_alike {seg seg' : TCPSegment} (h : seg.Alike seg') (c : TCPConnection) :
    c.segmentReceived seg' = c.segmentReceived seg := by
  obtain ⟨sport, dport, cksum, rfl⟩ := h
  rfl

/-- The segment fits into a datagram. -/
structure TCPSegment.Fits (seg : TCPSegment) : Prop where
  /-- The header has no options. -/
  doff : seg.header.doff = 5
  /-- The payload has at most the maximum size. -/
  payload : seg.payload.length ≤ maxPayloadSize

namespace TCPOverIPv4Adapter

/-- If there is a valid segment in a datagram, that segment is returned or nothing is. -/
theorem receive_parsed (adapter : TCPOverIPv4Adapter) {bytes : Bytes} {header : IPv4Header} {p : Buffer}
    {seg : TCPSegment}
    (hdatagram : IPv4Datagram.parse {} (Buffer.ofString bytes) = .ok (.noError, { header, payload := .ofBuffer p }))
    (hsegment : TCPSegment.parse {} p header.pseudoCksum = .ok (.noError, seg)) :
    ∃ r adapter', adapter.receive bytes = .ok (r, adapter') ∧ ∀ g, r = some g → g = seg := by
  have hbuffer : (BufferList.ofBuffer p).toBuffer = .ok p := rfl
  simp only [receive, hdatagram, unwrapTcpInIp, hbuffer, bind, Except.bind, hsegment, pure, Except.pure]
  split_ifs <;> exact ⟨_, _, rfl, by simp⟩

/-- **No bytes make an adapter throw.** -/
theorem receive_total (adapter : TCPOverIPv4Adapter) (bytes : Bytes) :
    ∃ r adapter', adapter.receive bytes = .ok (r, adapter') := by
  obtain ⟨result, header, p, hparse⟩ : ∃ result header p, IPv4Datagram.parse {} (Buffer.ofString bytes) =
      .ok (result, { header, payload := .ofBuffer p }) := by
    by_cases hlen : 20 ≤ (Buffer.ofString bytes).size
    · obtain ⟨result, p, hparse, -⟩ := IPv4Datagram.parse_result {} hlen
      exact ⟨result, _, p, hparse⟩
    · exact ⟨_, _, _, IPv4Datagram.parse_fresh_short (Nat.not_le.mp hlen)⟩
  simp only [receive, hparse, bind, Except.bind, pure, Except.pure]
  split_ifs
  · exact ⟨none, adapter, rfl⟩
  · obtain ⟨seg, adapter', hunwrap, -⟩ := @unwrapTcpInIp_cases adapter { header, payload := .ofBuffer p } le_rfl
    exact ⟨seg, adapter', hunwrap⟩

/-- **What is put into a datagram is what is found there**, by whatever adapter finds something. -/
theorem receive_wrapped (x : TCPOverIPv4Adapter) {seg : TCPSegment} (hfits : seg.Fits) :
    ∃ ipDgram seg₁ wire, x.wrapTcpInIp seg = .ok (ipDgram, seg₁) ∧ ipDgram.serialize = .ok wire ∧
      wire.concatenate ≠ [] ∧ ∀ y : TCPOverIPv4Adapter, ∃ r y', y.receive wire.concatenate = .ok (r, y') ∧
        ∀ g, r = some g → seg.Alike g := by
  let seg₁ : TCPSegment := { seg with
    header := { seg.header with sport := x.config.source.port, dport := x.config.destination.port } }
  let header : IPv4Header :=
    { src := x.config.source.ipv4Numeric, dst := x.config.destination.ipv4Numeric
      len := UInt16.ofNat (5 * 4 + seg.header.doff.toNat * 4 + seg.payload.length) }
  have hdoff : seg₁.header.doff.toNat = 5 := congrArg UInt8.toNat hfits.doff
  have hlen : seg.payload.length ≤ 1000 := hfits.payload
  obtain ⟨l, hserialize, hl⟩ := TCPSegment.serialize_wire (c := header.pseudoCksum) (Nat.le_of_eq hdoff.symm)
  let ipDgram : IPv4Datagram := { header, payload := l }
  have hwrap : x.wrapTcpInIp seg = .ok (ipDgram, seg₁) := by
    show (seg₁.serialize header.pseudoCksum >>= fun payload => _) = _
    rw [hserialize]
    rfl
  have hsize : l.size = 20 + seg.payload.length := by
    rw [BufferList.size_eq, hl, TCPSegment.length_wire (Nat.le_of_eq hdoff.symm), hdoff]
  have htotal : ipDgram.header.len.toNat = 4 * ipDgram.header.hlen.toNat + ipDgram.payload.size := by
    show (UInt16.ofNat (5 * 4 + seg₁.header.doff.toNat * 4 + seg.payload.length)).toNat = 4 * 5 + l.size
    rw [UInt16.toNat_ofNat', hsize, hdoff]
    omega
  -- the datagram on the wire, and the segment in it
  have hver : ipDgram.header.ver = 4 := rfl
  have hhlen : ipDgram.header.hlen.toNat = 5 := rfl
  have hoffset : ipDgram.header.offset.toNat < 2 ^ 13 := Nat.two_pow_pos 13
  obtain ⟨wire, hwire, hconcat⟩ := IPv4Datagram.serialize_wire hver (Nat.le_of_eq hhlen.symm) htotal
  obtain ⟨p, hparse, hp⟩ := IPv4Datagram.parse_wire hver (Nat.le_of_eq hhlen.symm) (by omega) hoffset htotal {}
    ((Buffer.str_ofString _).trans hconcat)
  have hsegment := TCPSegment.parse_wire (Nat.le_of_eq hdoff.symm) (by omega)
    (by rw [hdoff]; show 20 + seg.payload.length ≤ _; omega)
    (toNat_pseudoCksum_lt header) {} (hp.trans hl)
  generalize ipDgram.checksum = cksum at hparse
  generalize seg₁.checksum header.pseudoCksum = cksum₁ at hsegment
  rw [← pseudoCksum_cksum header cksum] at hsegment
  refine ⟨ipDgram, seg₁, wire, hwrap, hwire, ?_, fun y => ?_⟩
  · have htwenty := (IPv4Datagram.shaped_wire hver (Nat.le_of_eq hhlen.symm) (by omega) hoffset htotal).1
    rw [hconcat]
    exact List.ne_nil_of_length_pos (by omega)
  obtain ⟨r, y', hreceive, hr⟩ := y.receive_parsed hparse hsegment
  refine ⟨r, y', hreceive, fun g hg => ?_⟩
  rw [hr g hg]
  exact ⟨_, _, cksum₁, rfl⟩

/-- The bytes are a datagram in which an adapter has wrapped the segment. -/
def Wraps (seg : TCPSegment) (bytes : Bytes) : Prop :=
  seg.Fits ∧ ∃ (x : TCPOverIPv4Adapter) (ipDgram : IPv4Datagram) (seg₁ : TCPSegment) (wire : BufferList),
    x.wrapTcpInIp seg = .ok (ipDgram, seg₁) ∧ ipDgram.serialize = .ok wire ∧ bytes = wire.concatenate

theorem Wraps.alike {seg g : TCPSegment} {bytes : Bytes} {y y' : TCPOverIPv4Adapter} (h : Wraps seg bytes)
    (hreceive : y.receive bytes = .ok (some g, y')) : seg.Alike g := by
  obtain ⟨hfits, x, ipDgram, seg₁, wire, hwrap, hserialize, rfl⟩ := h
  obtain ⟨ipDgram', seg₁', wire', hwrap', hserialize', -, hall⟩ := x.receive_wrapped hfits
  obtain ⟨rfl, rfl⟩ := Prod.mk.inj (Except.ok.inj (hwrap.symm.trans hwrap'))
  obtain rfl := Except.ok.inj (hserialize.symm.trans hserialize')
  obtain ⟨r, y'', hreceive', hr⟩ := hall y
  exact hr g (Prod.mk.inj (Except.ok.inj (hreceive.symm.trans hreceive'))).1.symm

end TCPOverIPv4Adapter

namespace TCPOverUDPSocketAdapter

/-- If a datagram is a valid segment, that segment is returned or nothing is. -/
theorem receive_parsed (adapter : TCPOverUDPSocketAdapter) (source : Address) {payload : Bytes} {seg : TCPSegment}
    (hparse : TCPSegment.parse {} (Buffer.ofString payload) 0 = .ok (.noError, seg)) :
    ∃ r adapter', adapter.receive source payload = .ok (r, adapter') ∧ ∀ g, r = some g → g = seg := by
  simp only [receive, hparse, bind, Except.bind, pure, Except.pure]
  split_ifs <;> exact ⟨_, _, rfl, by simp⟩

/-- **No datagram makes an adapter throw.** -/
theorem receive_total (adapter : TCPOverUDPSocketAdapter) (source : Address) (payload : Bytes) :
    ∃ r adapter', adapter.receive source payload = .ok (r, adapter') := by
  obtain ⟨result, seg, hparse⟩ := TCPSegment.parse_total {} (Buffer.ofString payload) 0
  simp only [receive, hparse, bind, Except.bind, pure, Except.pure]
  split_ifs <;> exact ⟨_, _, rfl⟩

/-- **What is put into a datagram is what is found there**, by whatever adapter finds something. -/
theorem receive_serialized (config : FdAdapterConfig) {seg : TCPSegment} (hfits : seg.Fits) :
    ∃ wire, TCPSegment.serialize { seg with
        header := { seg.header with sport := config.source.port, dport := config.destination.port } } 0 = .ok wire ∧
      ∀ (y : TCPOverUDPSocketAdapter) (source : Address), ∃ r y', y.receive source wire.concatenate = .ok (r, y') ∧
        ∀ g, r = some g → seg.Alike g := by
  have hdoff : seg.header.doff.toNat = 5 := congrArg UInt8.toNat hfits.doff
  have hlen : seg.payload.length ≤ 1000 := hfits.payload
  have hfive : 5 ≤ seg.header.doff.toNat := Nat.le_of_eq hdoff.symm
  generalize hseg₁ : ({ seg with header := { seg.header with
    sport := config.source.port, dport := config.destination.port } } : TCPSegment) = seg₁
  have hfive₁ : 5 ≤ seg₁.header.doff.toNat := by rw [← hseg₁]; exact hfive
  have hfifteen₁ : seg₁.header.doff.toNat ≤ 15 := by rw [← hseg₁]; show seg.header.doff.toNat ≤ 15; omega
  have hlen₁ : 4 * seg₁.header.doff.toNat + seg₁.payload.length ≤ 65535 := by
    rw [← hseg₁]
    show 4 * seg.header.doff.toNat + seg.payload.length ≤ 65535
    omega
  obtain ⟨wire, hserialize, hwire⟩ := TCPSegment.serialize_wire (c := 0) hfive₁
  have hparse := TCPSegment.parse_wire hfive₁ hfifteen₁ hlen₁ (by decide : (0 : UInt32).toNat < 2 ^ 20) {}
    ((Buffer.str_ofString wire.concatenate).trans hwire)
  refine ⟨wire, hserialize, fun y source => ?_⟩
  obtain ⟨r, y', hreceive, hr⟩ := y.receive_parsed source hparse
  refine ⟨r, y', hreceive, fun g hg => ?_⟩
  rw [hr g hg, ← hseg₁]
  exact ⟨_, _, _, rfl⟩

/-- The bytes are a datagram that an adapter has made of the segment. -/
def Wraps (seg : TCPSegment) (bytes : Bytes) : Prop :=
  seg.Fits ∧ ∃ (config : FdAdapterConfig) (wire : BufferList), TCPSegment.serialize { seg with
      header := { seg.header with sport := config.source.port, dport := config.destination.port } } 0 = .ok wire ∧
    bytes = wire.concatenate

theorem Wraps.alike {seg g : TCPSegment} {bytes : Bytes} {y y' : TCPOverUDPSocketAdapter} {source : Address}
    (h : Wraps seg bytes) (hreceive : y.receive source bytes = .ok (some g, y')) : seg.Alike g := by
  obtain ⟨hfits, config, wire, hserialize, rfl⟩ := h
  obtain ⟨wire', hserialize', hall⟩ := receive_serialized config hfits
  obtain rfl := Except.ok.inj (hserialize.symm.trans hserialize')
  obtain ⟨r, y'', hreceive', hr⟩ := hall y source
  exact hr g (Prod.mk.inj (Except.ok.inj (hreceive.symm.trans hreceive'))).1.symm

end TCPOverUDPSocketAdapter

/-! ### What a socket can rely on -/

/-- The descriptor of a call. -/
def SysCall.fd {δ : Type} : SysCall δ → δ
  | .read fd _ => fd
  | .write fd _ _ => fd
  | .recvfrom fd _ _ => fd
  | .sendmsg fd _ _ => fd
  | .shutdown fd _ => fd
  | .close fd => fd

/-- The datagram that has arrived at a call. -/
def SysCall.arrived : SysCall SocketFd → Option Bytes
  | .read .datagram bytes => some bytes
  | .recvfrom .datagram _ payload => some payload
  | _ => none

/-- The datagram that has been sent at a call. -/
def SysCall.departed : SysCall SocketFd → Option Bytes
  | .write .datagram offered count => some (offered.take count)
  | .sendmsg .datagram _ payload => some payload
  | _ => none

/-- A datagram that is written is taken at once. -/
def SysCall.Whole : SysCall SocketFd → Prop
  | .write .datagram offered count => count = offered.length
  | _ => True

/-- What an adapter has done that has returned `seg`. -/
structure AdapterRead {A : Type} (Decodes : Bytes → TCPSegment → Prop) (s : Process SocketFd A)
    (seg : Option TCPSegment) (s' : Process SocketFd A) : Prop where
  /-- It has read a datagram, and the segment is in it. -/
  calls : ∃ call, s'.calls = s.calls ++ [call] ∧ call.fd = .datagram ∧ call.departed = none ∧
    ∀ g, seg = some g → ∃ bytes, call.arrived = some bytes ∧ Decodes bytes g
  /-- It has not touched the other descriptor. -/
  thread : s'.fds .thread = s.fds .thread
  /-- The read has been counted. -/
  count : (s'.fds .datagram).readCount = (s.fds .datagram).readCount + 1

/-- The calls by which an adapter has written a segment. -/
structure Sends (Encodes : TCPSegment → Bytes → Prop) (seg : TCPSegment) (calls : List (SysCall SocketFd)) :
    Prop where
  /-- They are about its descriptor, and nothing is read. -/
  fd : ∀ call ∈ calls, call.fd = .datagram ∧ call.arrived = none
  /-- What has been sent is the segment. -/
  encodes : (∀ call ∈ calls, call.Whole) → ∀ call ∈ calls, ∀ bytes, call.departed = some bytes → Encodes seg bytes

theorem sends_nil (Encodes : TCPSegment → Bytes → Prop) (seg : TCPSegment) : Sends Encodes seg [] :=
  ⟨by simp, by simp⟩

/-- What a socket can rely on. -/
class LawfulAdapter (A : Type) {K : outParam Type} [DatagramAdapter A K] where
  /-- The bytes are a datagram with the segment. -/
  Encodes : TCPSegment → Bytes → Prop
  /-- An adapter may find the segment in the bytes. -/
  Decodes : Bytes → TCPSegment → Prop
  /-- What is found is what was put there. -/
  alike : ∀ {seg g bytes}, Encodes seg bytes → Decodes bytes g → seg.Alike g
  /-- Reading. -/
  read_outcome : ∀ s : Process SocketFd A, Outcome (AdapterRead Decodes s)
    (fun e s' => e.FromKernel ∧ s'.calls = s.calls) (DatagramAdapter.read s)
  /-- Writing. -/
  write_outcome : ∀ {seg : TCPSegment}, seg.Fits → ∀ s : Process SocketFd A,
    Outcome (fun _ s' => s'.fds .thread = s.fds .thread ∧ ∃ new, s'.calls = s.calls ++ new ∧ Sends Encodes seg new)
      (fun e s' => e.FromKernel ∧ ∃ new, s'.calls = s.calls ++ new ∧ Sends Encodes seg new)
      (DatagramAdapter.write seg s)

/-- Pieces of something: either there are none, or the whole has been taken at once. -/
theorem writes_whole {bytes : Bytes} {counts : List ℕ} (hle : counts.sum ≤ bytes.length)
    (hpos : ∀ n ∈ counts, n ≠ 0)
    (hwhole : ∀ call ∈ FileDescriptor.writes SocketFd.datagram bytes counts, call.Whole) :
    counts = [] ∨ counts = [bytes.length] := by
  cases counts with
  | nil => exact Or.inl rfl
  | cons n counts =>
    have hn : n = bytes.length := hwhole _ List.mem_cons_self
    cases counts with
    | nil => exact Or.inr (by rw [hn])
    | cons m counts =>
      have hm := hpos m (List.mem_cons_of_mem _ List.mem_cons_self)
      rw [List.sum_cons, List.sum_cons] at hle
      omega

theorem mem_writes {fd : SocketFd} {bytes : Bytes} {counts : List ℕ} {call : SysCall SocketFd}
    (h : call ∈ FileDescriptor.writes fd bytes counts) : ∃ offered count, call = .write fd offered count := by
  induction counts generalizing bytes with
  | nil => exact absurd h List.not_mem_nil
  | cons n counts ih =>
    rcases List.mem_cons.mp h with rfl | h
    · exact ⟨_, _, rfl⟩
    · exact ih h

/-- The pieces in which a datagram is written. -/
theorem sends_writes {Encodes : TCPSegment → Bytes → Prop} {seg : TCPSegment} {bytes : Bytes} {counts : List ℕ}
    (hbytes : Encodes seg bytes) (hne : bytes ≠ []) (hle : counts.sum ≤ bytes.length)
    (hpos : bytes ≠ [] → ∀ n ∈ counts, n ≠ 0) : Sends Encodes seg (FileDescriptor.writes .datagram bytes counts) := by
  refine ⟨fun call hcall => ?_, fun hwhole call hcall sent hsent => ?_⟩
  · obtain ⟨offered, count, rfl⟩ := mem_writes hcall
    exact ⟨rfl, rfl⟩
  · rcases writes_whole hle (hpos hne) hwhole with rfl | rfl
    · exact absurd hcall List.not_mem_nil
    · obtain rfl := List.mem_singleton.mp hcall
      obtain rfl : bytes.take bytes.length = sent := Option.some.inj hsent
      rwa [List.take_length]

instance : LawfulAdapter TCPOverIPv4OverTunFdAdapter where
  Encodes := TCPOverIPv4Adapter.Wraps
  Decodes bytes g := ∃ y y' : TCPOverIPv4Adapter, y.receive bytes = .ok (some g, y')
  alike := by
    rintro seg g bytes hwraps ⟨y, y', hreceive⟩
    exact hwraps.alike hreceive
  read_outcome s := by
    simp only [DatagramAdapter.read, outcome_bind, outcome_get]
    refine (FileDescriptor.read_outcome _ _ s).mono ?_ fun e s' he => ⟨he.1, he.2.calls⟩
    rintro bytes - ⟨rfl, -⟩
    obtain ⟨r, base, hreceive⟩ := s.own.base.receive_total bytes
    rw [FileDescriptor.afterRead_own, hreceive]
    refine ⟨⟨.read .datagram bytes, rfl, rfl, rfl, fun g hg => ⟨bytes, rfl, s.own.base, base, ?_⟩⟩, ?_, ?_⟩
    · rw [hreceive, show r = some g from hg]
    · exact FileDescriptor.afterRead_fds_of_ne s sizeMax bytes (by decide : SocketFd.thread ≠ .datagram)
    · exact congrArg FDWrapper.readCount (FileDescriptor.afterRead_fds_self s SocketFd.datagram sizeMax bytes)
  write_outcome {seg} hfits s := by
    obtain ⟨ipDgram, seg₁, wire, hwrap, hserialize, hne, -⟩ := s.own.base.receive_wrapped hfits
    have hwraps : TCPOverIPv4Adapter.Wraps seg wire.concatenate :=
      ⟨hfits, s.own.base, ipDgram, seg₁, wire, hwrap, hserialize, rfl⟩
    simp only [DatagramAdapter.write, outcome_bind, outcome_get, hwrap, hserialize, outcome_orThrow_ok]
    refine (FileDescriptor.write_outcome _ _ _ s).mono ?_ ?_
    · rintro n - ⟨counts, rfl, hsum, hle, -, -, -, hpos⟩
      rw [BufferViewList.bytes_ofBufferList] at hle hpos
      refine ⟨FileDescriptor.afterWrites_fds_of_ne _ _ _ (by decide), _, rfl, ?_⟩
      rw [BufferViewList.bytes_ofBufferList]
      exact sends_writes hwraps hne (hsum ▸ hle) hpos
    · rintro e s' ⟨he, counts, -, hcalls, hle, hpos⟩
      rw [BufferViewList.bytes_ofBufferList] at hcalls hle hpos
      exact ⟨he, _, hcalls, sends_writes hwraps hne hle hpos⟩

instance : LawfulAdapter TCPOverUDPSocketAdapter where
  Encodes := TCPOverUDPSocketAdapter.Wraps
  Decodes bytes g := ∃ (y y' : TCPOverUDPSocketAdapter) (source : Address),
    y.receive source bytes = .ok (some g, y')
  alike := by
    rintro seg g bytes hwraps ⟨y, y', source, hreceive⟩
    exact hwraps.alike hreceive
  read_outcome s := by
    simp only [DatagramAdapter.read, outcome_bind, outcome_get]
    refine (UDPSocket.recv_outcome _ _ s).mono ?_ fun e s' he => ⟨he.1, he.2.calls⟩
    rintro ⟨source, bytes⟩ s' ⟨hown, hcalls, hfds, hcount⟩
    obtain ⟨r, adapter, hreceive⟩ := s.own.receive_total source bytes
    rw [hown, hreceive]
    refine ⟨⟨.recvfrom .datagram source bytes, hcalls, rfl, rfl, fun g hg =>
      ⟨bytes, rfl, s.own, adapter, source, ?_⟩⟩, hfds _ (by decide), hcount⟩
    rw [hreceive, show r = some g from hg]
  write_outcome {seg} hfits s := by
    obtain ⟨wire, hserialize, -⟩ := TCPOverUDPSocketAdapter.receive_serialized s.own.config hfits
    simp only [DatagramAdapter.write, outcome_bind, outcome_get, hserialize, outcome_orThrow_ok]
    refine (UDPSocket.sendto_outcome _ _ _ s).mono ?_ ?_
    · rintro - s' ⟨-, hcalls, hfds⟩
      refine ⟨hfds _ (by decide), _, hcalls, ?_, ?_⟩
      · intro call hcall
        rw [List.mem_singleton.mp hcall]
        exact ⟨rfl, rfl⟩
      · intro _ call hcall bytes hbytes
        rw [List.mem_singleton.mp hcall] at hbytes
        obtain rfl := Option.some.inj hbytes
        exact ⟨hfits, s.own.config, wire, hserialize, BufferViewList.bytes_ofBufferList wire⟩
    · rintro e s' ⟨he, hs⟩
      exact ⟨he, [], by rw [hs.calls, List.append_nil], sends_nil _ _⟩

/-! ### The filter -/

section Filter

variable {A K : Type}

/-- Drawing a number changes nothing but the filter. -/
theorem shouldDrop_outcome (uplink : Bool) (s : Process SocketFd (LossyFdAdapter A)) :
    Outcome (fun _ s' => s'.fds = s.fds ∧ s'.calls = s.calls ∧ s'.own.adapter = s.own.adapter)
      (fun _ _ => False) (LossyFdAdapter.shouldDrop uplink s) := by
  simp only [LossyFdAdapter.shouldDrop, outcome_bind, outcome_get, outcome_ite, outcome_modify, outcome_pure]
  simp

instance [DatagramAdapter A K] [LawfulAdapter A] : LawfulAdapter (LossyFdAdapter A) where
  Encodes := LawfulAdapter.Encodes A
  Decodes := LawfulAdapter.Decodes A
  alike := LawfulAdapter.alike
  read_outcome s := by
    simp only [DatagramAdapter.read, inPart, outcome_bind, outcome_zoom]
    refine (LawfulAdapter.read_outcome (A := A) _).mono ?_ fun e s' he => he
    rintro seg s' ⟨hcalls, hthread, hcount⟩
    refine (shouldDrop_outcome false _).mono ?_ fun _ _ he => he.elim
    rintro drop s'' ⟨hfds, hcalls', -⟩
    obtain ⟨call, hcall, hfd, hdeparted, hseg⟩ := hcalls
    simp only [outcome_ite, outcome_pure]
    refine ⟨fun _ => ⟨⟨call, hcalls'.trans hcall, hfd, hdeparted, by simp⟩, ?_, ?_⟩,
      fun _ => ⟨⟨call, hcalls'.trans hcall, hfd, hdeparted, hseg⟩, ?_, ?_⟩⟩
    all_goals rw [hfds]
    exacts [hthread, hcount, hthread, hcount]
  write_outcome {seg} hfits s := by
    simp only [DatagramAdapter.write, inPart, outcome_bind]
    refine (shouldDrop_outcome true s).mono ?_ fun _ _ he => he.elim
    rintro drop s' ⟨hfds, hcalls, -⟩
    simp only [outcome_ite, outcome_pure, outcome_zoom]
    refine ⟨fun _ => ⟨by rw [hfds], [], by rw [hcalls, List.append_nil], sends_nil _ _⟩, fun _ => ?_⟩
    have hwrite := LawfulAdapter.write_outcome (A := A) hfits
      { fds := s'.fds, answers := s'.answers, calls := s'.calls, own := s'.own.adapter }
    rw [hfds, hcalls] at hwrite ⊢
    exact hwrite

end Filter

end Sponge
