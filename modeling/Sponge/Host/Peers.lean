import Sponge.Host.Adapters

/-!
# One peer over UDP

A `TCPOverUDPSocketAdapter` that listens takes the first SYN that arrives, from wherever it comes,
and has a peer from then on. Datagrams may come from anybody, and hold anything.

## The model

`receiveAll` hands datagrams to an adapter one after the other, each with the address that it comes
from. `chosen` is what the adapter is for: it says of a whole sequence of datagrams which segments
are the connection's, without a state that changes on the way.

## What is proved

* `receive_eq` — what an adapter does with a datagram depends only on the segment that the datagram
  holds.
* `receiveAll_eq` — over every sequence of datagrams the adapter does what it is for, and never
  throws.
-/

namespace Sponge

namespace TCPOverUDPSocketAdapter

/-- The segment that a datagram holds, if it holds one. -/
def content (payload : Bytes) : Option TCPSegment :=
  match TCPSegment.parse {} (Buffer.ofString payload) 0 with
  | .ok (.noError, seg) => some seg
  | _ => none

/-- The datagram asks for a connection: it holds a SYN, and not a reset. -/
def opens (payload : Bytes) : Bool := (content payload).any fun seg => seg.header.syn && !seg.header.rst

/-- What the peer has sent, if the datagram comes from the peer. -/
def fromPeer (peer : Address) (datagram : Address × Bytes) : Option TCPSegment :=
  if datagram.1 = peer then content datagram.2 else none

/-- The adapter when it has a peer. -/
def joined (adapter : TCPOverUDPSocketAdapter) (peer : Address) : TCPOverUDPSocketAdapter :=
  { config := { adapter.config with destination := peer }, listening := false }

/-- The datagrams are handed to the adapter one after the other. -/
def receiveAll : TCPOverUDPSocketAdapter → List (Address × Bytes) →
    Except Exception (List (Option TCPSegment) × TCPOverUDPSocketAdapter)
  | adapter, [] => .ok ([], adapter)
  | adapter, (source, payload) :: datagrams => do
    let (seg, adapter) ← adapter.receive source payload
    let (segs, adapter) ← receiveAll adapter datagrams
    return (seg :: segs, adapter)

/-- What an adapter is for. If it listens, the first datagram that asks for a connection decides who
the peer is; nothing that comes before it counts, and after it only what comes from the peer does.
-/
def chosen (adapter : TCPOverUDPSocketAdapter) (datagrams : List (Address × Bytes)) :
    List (Option TCPSegment) × TCPOverUDPSocketAdapter :=
  if adapter.listening then
    match datagrams.dropWhile fun d => !opens d.2 with
    | [] => (datagrams.map fun _ => none, adapter)
    | first :: later =>
      ((datagrams.takeWhile fun d => !opens d.2).map (fun _ => none) ++
        content first.2 :: later.map (fromPeer first.1), adapter.joined first.1)
  else (datagrams.map (fromPeer adapter.config.destination), adapter)

section

variable (adapter : TCPOverUDPSocketAdapter) (source : Address) (payload : Bytes)

/-- **One datagram.** -/
theorem receive_eq : adapter.receive source payload = .ok
    (if adapter.listening then if opens payload then (content payload, adapter.joined source) else (none, adapter)
    else (fromPeer adapter.config.destination (source, payload), adapter)) := by
  obtain ⟨result, seg, hparse⟩ := TCPSegment.parse_total {} (Buffer.ofString payload) 0
  have hcontent : content payload = if result = .noError then some seg else none := by
    rw [content, hparse]
    cases result <;> rfl
  simp only [receive, opens, fromPeer, hcontent, hparse, bind, Except.bind, pure, Except.pure]
  cases adapter.listening with
  | true =>
    by_cases hresult : result = .noError
    · simp only [hresult, if_true, Option.any_some]
      cases seg.header.syn && !seg.header.rst <;> rfl
    · simp [hresult]
  | false =>
    by_cases hsource : source = adapter.config.destination
    · by_cases hresult : result = .noError <;> simp [hsource, hresult]
    · simp [hsource]

theorem receiveAll_cons {seg : Option TCPSegment} {adapter' : TCPOverUDPSocketAdapter}
    {datagrams : List (Address × Bytes)}
    (h : adapter.receive source payload = .ok (seg, adapter'))
    {r : List (Option TCPSegment) × TCPOverUDPSocketAdapter} (hrest : adapter'.receiveAll datagrams = .ok r) :
    adapter.receiveAll ((source, payload) :: datagrams) = .ok (seg :: r.1, r.2) := by
  simp only [receiveAll, h, hrest, bind, Except.bind, pure, Except.pure]

end

/-- An adapter that has a peer takes what comes from the peer. -/
theorem receiveAll_of_joined {adapter : TCPOverUDPSocketAdapter} (hlisten : adapter.listening = false)
    (datagrams : List (Address × Bytes)) :
    adapter.receiveAll datagrams = .ok (datagrams.map (fromPeer adapter.config.destination), adapter) := by
  induction datagrams with
  | nil => rfl
  | cons datagram datagrams ih =>
    have hreceive := adapter.receive_eq datagram.1 datagram.2
    rw [hlisten, if_neg Bool.false_ne_true] at hreceive
    exact adapter.receiveAll_cons _ _ hreceive ih

/-- **One peer.** Over every sequence of datagrams, whoever they come from and whatever they hold,
an adapter returns the segments that are meant for its connection, each in its place and nothing
else, ends with the peer that it has chosen, and never throws. -/
theorem receiveAll_eq (adapter : TCPOverUDPSocketAdapter) (datagrams : List (Address × Bytes)) :
    adapter.receiveAll datagrams = .ok (adapter.chosen datagrams) := by
  cases hlisten : adapter.listening with
  | false =>
    rw [receiveAll_of_joined hlisten, chosen, hlisten, if_neg Bool.false_ne_true]
  | true =>
    rw [chosen, hlisten, if_pos rfl]
    -- until a datagram asks for a connection nothing changes, and then the adapter has its peer
    induction datagrams with
    | nil => rfl
    | cons datagram datagrams ih =>
      have hreceive := adapter.receive_eq datagram.1 datagram.2
      rw [hlisten, if_pos rfl] at hreceive
      cases hopens : opens datagram.2 with
      | true =>
        rw [hopens, if_pos rfl] at hreceive
        rw [adapter.receiveAll_cons _ _ hreceive (receiveAll_of_joined rfl datagrams), List.dropWhile_cons_of_neg
          (by simp [hopens]), List.takeWhile_cons_of_neg (by simp [hopens])]
        rfl
      | false =>
        rw [hopens, if_neg Bool.false_ne_true] at hreceive
        rw [adapter.receiveAll_cons _ _ hreceive ih, List.dropWhile_cons_of_pos (by simp [hopens]),
          List.takeWhile_cons_of_pos (by simp [hopens])]
        split <;> rfl

end TCPOverUDPSocketAdapter

end Sponge
