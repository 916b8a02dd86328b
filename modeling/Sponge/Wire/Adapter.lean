import Sponge.Wire.Datagrams
import Sponge.Wire.Segments

/-!
# Segments in datagrams

`TCPOverIPv4Adapter` stands between a TCP connection and the network: it wraps the connection's segments
in datagrams for the peer, and picks out of the datagrams that arrive the segments that come from the
peer. An adapter that listens has no peer yet; the first SYN for its port makes one.

## The model

An address is its 32-bit number and its port: the code goes through a string of four numbers and back.
`unwrapTcpInIp` returns the segment, if there is one, and the adapter afterwards.

## What is proved

* `unwrapTcpInIp_cases` — a datagram is ignored, opens the connection, or comes from the peer.
* `segment_delivered` — what one adapter wraps, another one on the other side unwraps.
* `one_peer` — an adapter that listens takes all its segments from one peer.
-/

namespace Sponge

/-- An IPv4 address with a port. -/
structure Address where
  /-- `ipv4_numeric`: the address as a 32-bit integer. -/
  ipv4Numeric : UInt32
  /-- The port. -/
  port : UInt16
  deriving DecidableEq

/-- The configuration of an adapter. -/
structure FdAdapterConfig where
  /-- Source address and port. -/
  source : Address := ⟨0, 0⟩
  /-- Destination address and port. -/
  destination : Address := ⟨0, 0⟩
  deriving DecidableEq

/-- A converter from TCP segments to IPv4 datagrams. -/
structure TCPOverIPv4Adapter where
  /-- The configuration. -/
  config : FdAdapterConfig := {}
  /-- The adapter waits for a new connection. -/
  listening : Bool := false
  deriving DecidableEq

namespace TCPOverIPv4Adapter

/-- `unwrap_tcp_in_ip`: the segment in a datagram, unless it is invalid or unrelated. -/
def unwrapTcpInIp (adapter : TCPOverIPv4Adapter) (ipDgram : IPv4Datagram) :
    Except Exception (Option TCPSegment × TCPOverIPv4Adapter) := do
  -- an adapter that listens takes datagrams for any address from anybody
  if !adapter.listening && ipDgram.header.dst != adapter.config.source.ipv4Numeric then
    return (none, adapter)
  if !adapter.listening && ipDgram.header.src != adapter.config.destination.ipv4Numeric then
    return (none, adapter)
  if ipDgram.header.proto != IPv4Header.protoTcp then
    return (none, adapter)
  let (result, tcpSeg) ← TCPSegment.parse {} (← ipDgram.payload.toBuffer) ipDgram.header.pseudoCksum
  if result != .noError then
    return (none, adapter)
  if tcpSeg.header.dport != adapter.config.source.port then
    return (none, adapter)
  let mut adapter := adapter
  if adapter.listening then
    if tcpSeg.header.syn && !tcpSeg.header.rst then
      adapter :=
        { config :=
            { source := ⟨ipDgram.header.dst, adapter.config.source.port⟩
              destination := ⟨ipDgram.header.src, tcpSeg.header.sport⟩ }
          listening := false }
    else
      return (none, adapter)
  if tcpSeg.header.sport != adapter.config.destination.port then
    return (none, adapter)
  return (some tcpSeg, adapter)

/-- `wrap_tcp_in_ip`: a datagram with the segment, and the segment with its ports set. -/
def wrapTcpInIp (adapter : TCPOverIPv4Adapter) (seg : TCPSegment) :
    Except Exception (IPv4Datagram × TCPSegment) := do
  let seg := { seg with
    header := { seg.header with sport := adapter.config.source.port, dport := adapter.config.destination.port } }
  let header : IPv4Header := { src := adapter.config.source.ipv4Numeric, dst := adapter.config.destination.ipv4Numeric }
  let header := { header with
    len := UInt16.ofNat (header.hlen.toNat * 4 + seg.header.doff.toNat * 4 + seg.payload.length) }
  return ({ header, payload := ← seg.serialize header.pseudoCksum }, seg)

/-! ### What a datagram does -/

/-- The addresses and ports of a segment in a datagram. -/
structure Flow where
  /-- Source address. -/
  src : UInt32
  /-- Source port. -/
  sport : UInt16
  /-- Destination address. -/
  dst : UInt32
  /-- Destination port. -/
  dport : UInt16

/-- The flow that a segment in a datagram belongs to. -/
def flow (ipDgram : IPv4Datagram) (seg : TCPSegment) : Flow :=
  ⟨ipDgram.header.src, seg.header.sport, ipDgram.header.dst, seg.header.dport⟩

/-- The adapter at the receiving end of a flow. -/
def settled (f : Flow) : TCPOverIPv4Adapter where
  config := { source := ⟨f.dst, f.dport⟩, destination := ⟨f.src, f.sport⟩ }
  listening := false

/-- What a datagram may do: it is ignored, it opens the connection of an adapter that listens, or it
comes from the peer. -/
inductive Unwraps (adapter : TCPOverIPv4Adapter) (ipDgram : IPv4Datagram) :
    Option TCPSegment → TCPOverIPv4Adapter → Prop where
  /-- The datagram is ignored. -/
  | ignored : Unwraps adapter ipDgram none adapter
  /-- A SYN for the adapter's port makes the sender its peer. -/
  | opened {seg : TCPSegment} : adapter.listening = true → seg.header.dport = adapter.config.source.port →
      seg.header.syn = true → seg.header.rst = false →
      Unwraps adapter ipDgram (some seg) (settled (flow ipDgram seg))
  /-- A segment of the peer. -/
  | received {seg : TCPSegment} : adapter.listening = false → adapter = settled (flow ipDgram seg) →
      Unwraps adapter ipDgram (some seg) adapter

section

variable {adapter : TCPOverIPv4Adapter} {ipDgram : IPv4Datagram}

/-- **What a datagram in one piece does.** Nothing is thrown. -/
theorem unwrapTcpInIp_cases (h : ipDgram.payload.buffers.length ≤ 1) :
    ∃ seg adapter', adapter.unwrapTcpInIp ipDgram = .ok (seg, adapter') ∧ Unwraps adapter ipDgram seg adapter' := by
  obtain ⟨buffer, hbuffer, -⟩ := BufferList.toBuffer_str h
  obtain ⟨result, seg, hparse⟩ := TCPSegment.parse_total {} buffer ipDgram.header.pseudoCksum
  have hignored : ∃ seg adapter', (.ok (none, adapter) : Except Exception _) = .ok (seg, adapter') ∧
      Unwraps adapter ipDgram seg adapter' := ⟨none, adapter, rfl, .ignored⟩
  rw [unwrapTcpInIp]
  by_cases hdst : (!adapter.listening && ipDgram.header.dst != adapter.config.source.ipv4Numeric) = true
  · rw [if_pos hdst]
    exact hignored
  by_cases hsrc : (!adapter.listening && ipDgram.header.src != adapter.config.destination.ipv4Numeric) = true
  · rw [if_neg hdst, if_pos hsrc]
    exact hignored
  by_cases hproto : (ipDgram.header.proto != IPv4Header.protoTcp) = true
  · rw [if_neg hdst, if_neg hsrc, if_pos hproto]
    exact hignored
  rw [if_neg hdst, if_neg hsrc, if_neg hproto, hbuffer]
  show ∃ seg adapter', (TCPSegment.parse {} buffer ipDgram.header.pseudoCksum >>= _) = _ ∧ _
  rw [hparse]
  simp only [bind, Except.bind, pure, Except.pure]
  split_ifs with hresult hdport hlisten hsyn hsport hsport
  · exact hignored
  · exact hignored
  · simp at hsport
  · have hdport : seg.header.dport = adapter.config.source.port := by simpa using hdport
    obtain ⟨hsyn, hrst⟩ : seg.header.syn = true ∧ seg.header.rst = false := by simpa using hsyn
    refine ⟨some seg, settled (flow ipDgram seg), ?_, .opened hlisten hdport hsyn hrst⟩
    simp only [settled, flow, hdport]
  · exact hignored
  · exact hignored
  · refine ⟨some seg, adapter, rfl, ?_⟩
    obtain ⟨⟨⟨source, port⟩, ⟨destination, port'⟩⟩, listening⟩ := adapter
    simp only [Bool.not_eq_true] at hlisten
    simp only [hlisten, Bool.not_false, Bool.true_and, bne_iff_ne, ne_eq, Decidable.not_not] at hdst hsrc hdport hsport
    exact .received hlisten (by simp only [settled, flow, hdst, hsrc, hdport, hsport, hlisten])

end

/-! ### From one adapter to another -/

/-- What a header adds to the checksum of TCP is below `2^20`. -/
theorem toNat_pseudoCksum_lt (header : IPv4Header) : header.pseudoCksum.toNat < 2 ^ 20 := by
  have hfold : ∀ n : UInt32, ((n >>> 16) + (n &&& 0xffff)).toNat ≤ 131070 := by
    intro n
    have hn := n.toNat_lt
    rw [toNat_carry]
    omega
  have hsrc := hfold header.src
  have hdst := hfold header.dst
  have hproto := header.proto.toNat_lt
  have hlength := header.payloadLength.toNat_lt
  rw [IPv4Header.pseudoCksum, UInt32.toNat_add, UInt32.toNat_add, UInt32.toNat_add _ (_ + _),
    UInt8.toNat_toUInt32, UInt16.toNat_toUInt32]
  omega

/-- The checksum of a header is not part of it. -/
theorem pseudoCksum_cksum (header : IPv4Header) (cksum : UInt16) :
    ({ header with cksum } : IPv4Header).pseudoCksum = header.pseudoCksum := rfl

/-- A valid segment of the peer is returned. -/
theorem unwrapTcpInIp_of_peer {adapter : TCPOverIPv4Adapter} {ipDgram : IPv4Datagram} {buffer : Buffer}
    {seg : TCPSegment} (hproto : ipDgram.header.proto = IPv4Header.protoTcp)
    (hbuffer : ipDgram.payload.toBuffer = .ok buffer)
    (hparse : TCPSegment.parse {} buffer ipDgram.header.pseudoCksum = .ok (.noError, seg))
    (hpeer : adapter = settled (flow ipDgram seg)) :
    adapter.unwrapTcpInIp ipDgram = .ok (some seg, adapter) := by
  subst hpeer
  simp [unwrapTcpInIp, settled, flow, hproto, hbuffer, hparse, bind, Except.bind, pure, Except.pure]

/-- **Over the wire and back.** What an adapter wraps in a datagram, another one whose addresses are the
other way round takes out again: the segment with the ports of the first, and a checksum. -/
theorem segment_delivered (x y : TCPOverIPv4Adapter) (seg : TCPSegment) (hlisten : y.listening = false)
    (hsource : y.config.source = x.config.destination) (hdestination : y.config.destination = x.config.source)
    (hfive : 5 ≤ seg.header.doff.toNat) (hfifteen : seg.header.doff.toNat ≤ 15)
    (hlen : 20 + 4 * seg.header.doff.toNat + seg.payload.length ≤ 65535) :
    ∃ ipDgram seg₁ wire ipDgram' cksum,
      x.wrapTcpInIp seg = .ok (ipDgram, seg₁) ∧ ipDgram.serialize = .ok wire ∧
      IPv4Datagram.parse {} (Buffer.ofString wire.concatenate) = .ok (.noError, ipDgram') ∧
      y.unwrapTcpInIp ipDgram' = .ok (some { seg with
        header := { seg.header with
          sport := x.config.source.port, dport := x.config.destination.port, cksum } }, y) := by
  -- the segment with its ports, and the header of the datagram
  let seg₁ : TCPSegment := { seg with
    header := { seg.header with sport := x.config.source.port, dport := x.config.destination.port } }
  let header : IPv4Header :=
    { src := x.config.source.ipv4Numeric, dst := x.config.destination.ipv4Numeric
      len := UInt16.ofNat (5 * 4 + seg.header.doff.toNat * 4 + seg.payload.length) }
  have hfive₁ : 5 ≤ seg₁.header.doff.toNat := hfive
  have hlen₁ : 4 * seg₁.header.doff.toNat + seg₁.payload.length ≤ 65535 := by
    show 4 * seg.header.doff.toNat + seg.payload.length ≤ 65535
    omega
  obtain ⟨l, hserialize, hl⟩ := TCPSegment.serialize_wire (c := header.pseudoCksum) hfive₁
  let ipDgram : IPv4Datagram := { header, payload := l }
  have hwrap : x.wrapTcpInIp seg = .ok (ipDgram, seg₁) := by
    show (seg₁.serialize header.pseudoCksum >>= fun payload => _) = _
    rw [hserialize]
    rfl
  have hsize : l.size = 4 * seg.header.doff.toNat + seg.payload.length := by
    rw [BufferList.size_eq, hl]
    exact TCPSegment.length_wire hfive₁
  have htotal : ipDgram.header.len.toNat = 4 * ipDgram.header.hlen.toNat + ipDgram.payload.size := by
    show (UInt16.ofNat (5 * 4 + seg.header.doff.toNat * 4 + seg.payload.length)).toNat = 4 * 5 + l.size
    rw [UInt16.toNat_ofNat', hsize]
    omega
  -- the datagram on the wire
  have hver : ipDgram.header.ver = 4 := rfl
  have hhlen : ipDgram.header.hlen.toNat = 5 := rfl
  have hoffset : ipDgram.header.offset.toNat < 2 ^ 13 := Nat.two_pow_pos 13
  obtain ⟨wire, hwire, hconcat⟩ := IPv4Datagram.serialize_wire hver (Nat.le_of_eq hhlen.symm) htotal
  obtain ⟨p, hparse, hp⟩ := IPv4Datagram.parse_wire hver (Nat.le_of_eq hhlen.symm) (by omega) hoffset htotal {}
    ((Buffer.str_ofString _).trans hconcat)
  have hsegment := TCPSegment.parse_wire hfive₁ hfifteen hlen₁ (toNat_pseudoCksum_lt header) {} (hp.trans hl)
  generalize ipDgram.checksum = cksum at hparse
  generalize seg₁.checksum header.pseudoCksum = cksum₁ at hsegment
  rw [← pseudoCksum_cksum header cksum] at hsegment
  refine ⟨ipDgram, seg₁, wire, _, cksum₁, hwrap, hwire, hparse, ?_⟩
  -- the segment on the other side
  refine unwrapTcpInIp_of_peer rfl rfl hsegment ?_
  obtain ⟨⟨source, destination⟩, listening⟩ := y
  subst hlisten hsource hdestination
  rfl

/-- The adapter of one that calls port `80`. -/
def caller : TCPOverIPv4Adapter := { config := { source := ⟨1, 5000⟩, destination := ⟨2, 80⟩ } }

/-- The adapter of one that is called. -/
def callee : TCPOverIPv4Adapter := { config := { source := ⟨2, 80⟩, destination := ⟨1, 5000⟩ } }

/-- A SYN with two bytes. -/
def hello : TCPSegment := { header := { syn := true }, payload := [104, 105] }

/-- The theorem at a call. -/
theorem segment_delivered_hello :
    callee.listening = false ∧ callee.config.source = caller.config.destination ∧
    callee.config.destination = caller.config.source ∧ 5 ≤ hello.header.doff.toNat ∧
    hello.header.doff.toNat ≤ 15 ∧ 20 + 4 * hello.header.doff.toNat + hello.payload.length ≤ 65535 ∧
    ∃ ipDgram seg₁ wire ipDgram' cksum,
      caller.wrapTcpInIp hello = .ok (ipDgram, seg₁) ∧ ipDgram.serialize = .ok wire ∧
      IPv4Datagram.parse {} (Buffer.ofString wire.concatenate) = .ok (.noError, ipDgram') ∧
      callee.unwrapTcpInIp ipDgram' = .ok (some { hello with
        header := { hello.header with
          sport := caller.config.source.port, dport := caller.config.destination.port, cksum } }, callee) :=
  ⟨rfl, rfl, rfl, by decide, by decide, by decide,
    segment_delivered caller callee hello rfl rfl rfl (by decide) (by decide) (by decide)⟩

/-! ### One peer -/

/-- A datagram that has been handed to an adapter: the adapter before, the segment, and the adapter after. -/
structure Unwrapping where
  /-- The adapter before. -/
  before : TCPOverIPv4Adapter
  /-- The datagram. -/
  ipDgram : IPv4Datagram
  /-- The segment that is returned. -/
  segment : Option TCPSegment
  /-- The adapter after. -/
  after : TCPOverIPv4Adapter

/-- The datagrams are handed to the adapter one after the other. -/
def unwrapAll : TCPOverIPv4Adapter → List IPv4Datagram → Except Exception (List Unwrapping)
  | _, [] => .ok []
  | adapter, ipDgram :: ipDgrams => do
    let (segment, after) ← adapter.unwrapTcpInIp ipDgram
    let log ← unwrapAll after ipDgrams
    return { before := adapter, ipDgram, segment, after } :: log

theorem unwrapAll_cons {adapter after : TCPOverIPv4Adapter} {ipDgram : IPv4Datagram} {ipDgrams : List IPv4Datagram}
    {segment : Option TCPSegment} {log : List Unwrapping}
    (h : adapter.unwrapTcpInIp ipDgram = .ok (segment, after)) (hlog : unwrapAll after ipDgrams = .ok log) :
    unwrapAll adapter (ipDgram :: ipDgrams) = .ok ({ before := adapter, ipDgram, segment, after } :: log) := by
  simp only [unwrapAll, h, hlog, bind, Except.bind, pure, Except.pure]

theorem settled_injective {f g : Flow} (h : settled f = settled g) : f = g := by
  obtain ⟨src, sport, dst, dport⟩ := f
  obtain ⟨src', sport', dst', dport'⟩ := g
  simp only [settled, mk.injEq, FdAdapterConfig.mk.injEq, Address.mk.injEq, and_true] at h
  obtain ⟨⟨rfl, rfl⟩, rfl, rfl⟩ := h
  rfl

/-- An adapter that has a peer keeps it, and takes segments from nobody else. -/
theorem unwrapAll_settled {adapter : TCPOverIPv4Adapter} (hlisten : adapter.listening = false)
    {ipDgrams : List IPv4Datagram} (h : ∀ d ∈ ipDgrams, d.payload.buffers.length ≤ 1) :
    ∃ log, unwrapAll adapter ipDgrams = .ok log ∧ log.map Unwrapping.ipDgram = ipDgrams ∧
      ∀ u ∈ log, u.before = adapter ∧ u.after = adapter ∧
        ∀ seg, u.segment = some seg → adapter = settled (flow u.ipDgram seg) := by
  induction ipDgrams with
  | nil => exact ⟨[], rfl, rfl, by simp⟩
  | cons ipDgram ipDgrams ih =>
    obtain ⟨log, hlog, hmap, hall⟩ := ih fun d hd => h d (List.mem_cons_of_mem _ hd)
    obtain ⟨segment, after, hunwrap, hcase⟩ := unwrapTcpInIp_cases (h ipDgram List.mem_cons_self)
    obtain ⟨rfl, hseg⟩ : after = adapter ∧ ∀ seg, segment = some seg → adapter = settled (flow ipDgram seg) := by
      cases hcase with
      | ignored => exact ⟨rfl, by simp⟩
      | opened hlisten' => rw [hlisten] at hlisten'; cases hlisten'
      | received _ hpeer =>
        refine ⟨rfl, fun seg hseg => ?_⟩
        cases hseg
        exact hpeer
    refine ⟨_, unwrapAll_cons hunwrap hlog, by rw [List.map_cons, hmap], ?_⟩
    intro u hu
    rcases List.mem_cons.mp hu with rfl | hu
    · exact ⟨rfl, rfl, hseg⟩
    · exact hall u hu

/-- What holds of a datagram that is handed to an adapter, after those of `log`, if the adapter began by
listening and the flow of its peer is `f`. -/
structure FromPeer (adapter : TCPOverIPv4Adapter) (f : Flow) (log : List Unwrapping) (u : Unwrapping) : Prop where
  /-- A datagram for which nothing is returned changes nothing. -/
  ignored : u.segment = none → u.after = u.before
  /-- A segment that is returned belongs to the flow of the peer, and then the adapter is settled. -/
  peer : ∀ seg, u.segment = some seg → flow u.ipDgram seg = f ∧ u.after = settled f
  /-- The adapter listens until a segment has been returned. -/
  listening : u.before.listening = true ↔ ∀ v ∈ log, v.segment = none
  /-- While it listens its configuration stays. -/
  unchanged : u.before.listening = true → u.before = adapter
  /-- The first segment that is returned is a SYN and no RST. -/
  first : u.before.listening = true → ∀ seg, u.segment = some seg →
    seg.header.syn = true ∧ seg.header.rst = false
  /-- Afterwards nothing changes. -/
  settled : u.before.listening = false → u.before = settled f ∧ u.after = settled f

/-- **One peer per connection.** An adapter that listens takes all its segments from one flow, the first
of them a SYN, and stops listening at that one. -/
theorem one_peer (adapter : TCPOverIPv4Adapter) (hlisten : adapter.listening = true)
    (ipDgrams : List IPv4Datagram) (h : ∀ d ∈ ipDgrams, d.payload.buffers.length ≤ 1) :
    ∃ log f, unwrapAll adapter ipDgrams = .ok log ∧ log.map Unwrapping.ipDgram = ipDgrams ∧
      f.dport = adapter.config.source.port ∧
      ∀ l₁ u l₂, log = l₁ ++ u :: l₂ → FromPeer adapter f l₁ u := by
  induction ipDgrams with
  | nil => exact ⟨[], ⟨0, 0, 0, adapter.config.source.port⟩, rfl, rfl, rfl, by simp⟩
  | cons ipDgram ipDgrams ih =>
    have hrest : ∀ d ∈ ipDgrams, d.payload.buffers.length ≤ 1 := fun d hd => h d (List.mem_cons_of_mem _ hd)
    obtain ⟨segment, after, hunwrap, hcase⟩ := unwrapTcpInIp_cases (h ipDgram List.mem_cons_self)
    cases hcase with
    | ignored =>
      obtain ⟨log, f, hlog, hmap, hport, hall⟩ := ih hrest
      refine ⟨_, f, unwrapAll_cons hunwrap hlog, by rw [List.map_cons, hmap], hport, ?_⟩
      rintro (_ | ⟨v, l₁⟩) u l₂ heq
      · obtain ⟨rfl, rfl⟩ := List.cons.inj heq
        refine ⟨fun _ => rfl, by simp, by simpa using hlisten, fun _ => rfl, by simp, fun hfalse => ?_⟩
        rw [hlisten] at hfalse
        cases hfalse
      · obtain ⟨rfl, htail⟩ := List.cons.inj heq
        obtain ⟨h1, h2, h3, h4, h5, h6⟩ := hall l₁ u l₂ htail
        exact ⟨h1, h2, by simpa using h3, h4, h5, h6⟩
    | @opened seg _ hdport hsyn hrst =>
      obtain ⟨log, hlog, hmap, hall⟩ := @unwrapAll_settled (settled (flow ipDgram seg)) rfl _ hrest
      refine ⟨_, flow ipDgram seg, unwrapAll_cons hunwrap hlog, by rw [List.map_cons, hmap], hdport, ?_⟩
      rintro (_ | ⟨v, l₁⟩) u l₂ heq
      · obtain ⟨rfl, rfl⟩ := List.cons.inj heq
        refine ⟨by simp, ?_, by simpa using hlisten, fun _ => rfl, ?_, fun hfalse => ?_⟩
        · rintro seg' ⟨⟩
          exact ⟨rfl, rfl⟩
        · rintro - seg' ⟨⟩
          exact ⟨hsyn, hrst⟩
        · rw [hlisten] at hfalse
          cases hfalse
      · obtain ⟨rfl, htail⟩ := List.cons.inj heq
        have hmem : u ∈ log := by
          rw [htail]
          exact List.mem_append_right l₁ List.mem_cons_self
        obtain ⟨hbefore, hafter, hflow⟩ := hall u hmem
        have hfalse : u.before.listening = false := by
          rw [hbefore]
          rfl
        refine ⟨fun _ => by rw [hbefore, hafter], fun seg' hseg => ⟨?_, hafter⟩, by simp [hfalse],
          fun htrue => ?_, fun htrue => ?_, fun _ => ⟨hbefore, hafter⟩⟩
        · exact (settled_injective (hflow seg' hseg)).symm
        · rw [hfalse] at htrue
          cases htrue
        · rw [hfalse] at htrue
          cases htrue
    | received hfalse =>
      rw [hlisten] at hfalse
      cases hfalse

/-- An adapter that listens on port `80`. -/
def listener : TCPOverIPv4Adapter := { config := { source := ⟨0, 80⟩ }, listening := true }

/-- A SYN for port `80`, in one piece. -/
def knock : IPv4Datagram where
  header := { len := 40, src := 1, dst := 2 }
  payload := .ofString [19, 136, 0, 80, 0, 0, 0, 0, 0, 0, 0, 0, 80, 2, 0, 0, 156, 8, 0, 0]

/-- The theorem at an adapter that is sent the same SYN twice, and returns it both times. -/
theorem one_peer_knock :
    listener.listening = true ∧ (∀ d ∈ [knock, knock], d.payload.buffers.length ≤ 1) ∧
    ((unwrapAll listener [knock, knock]).map fun log => log.map fun u => u.segment.isSome) = .ok [true, true] ∧
    ∃ log f, unwrapAll listener [knock, knock] = .ok log ∧ log.map Unwrapping.ipDgram = [knock, knock] ∧
      f.dport = listener.config.source.port ∧
      ∀ l₁ u l₂, log = l₁ ++ u :: l₂ → FromPeer listener f l₁ u :=
  ⟨rfl, by decide, by decide +kernel, one_peer listener rfl [knock, knock] (by decide)⟩

end TCPOverIPv4Adapter

end Sponge
