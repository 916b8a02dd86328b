import Sponge.Host.Socket

/-!
# A socket is one side of a connection

A socket does to its connection what an application and a network do. `Related s p` says that a
socket `s` is in the state of a side `p`: the bytes that the side has accepted are those read from
the owner, the bytes taken are those written to the owner, and every datagram sent has a segment of
its `wire` in it. `Effect s s'` says that what has happened from `s` to `s'` are moves of one side,
whichever side `s` is in the state of. It does not matter which segments the network gives, so long
as they are among those that it may give (`Heard`).

A socket may throw at any system call, and then stands in the middle of something. `Stop` and `Halt`
say as much as can be said then: its calls are those of some moves, and after them the streams of
the side are as those of the socket (`Mirrors`).

## What is proved

* `Effect.trans`, `Effect.trans_halt` — effects add up.
* `rule1_effect`, `rule2_effect`, `rule3_effect`, `rule4_effect` — each rule has an effect, for
  every kernel and every adapter, and throws only what the kernel is to blame for.
* `Consistent.fitting` — whatever the network gives, every segment that is queued fits into a
  datagram.
-/

namespace Sponge

open Relation TCPSpongeSocket

variable {A K : Type} [DatagramAdapter A K] [LawfulAdapter A]

/-- The calls of a socket are those of one side of a connection: what it has accepted was read from
the owner, what has been taken was written to the owner, and every datagram has one of its segments
in it. -/
structure Explains (A : Type) {K : Type} [DatagramAdapter A K] [LawfulAdapter A] (calls : List (SysCall SocketFd))
    (p : Peer) : Prop where
  /-- The bytes from the owner. -/
  accepted : p.accepted = received .thread calls
  /-- The bytes to the owner. -/
  taken : p.taken = written .thread calls
  /-- The datagrams to the network. -/
  wire : (∀ call ∈ calls, call.Whole) → ∀ call ∈ calls, ∀ bytes, call.departed = some bytes →
    ∃ seg ∈ p.wire, LawfulAdapter.Encodes A seg bytes

/-- The segments found in the datagrams that have arrived are segments of `N`. -/
def Heard (A : Type) {K : Type} [DatagramAdapter A K] [LawfulAdapter A] (N : TCPSegment → Prop)
    (calls : List (SysCall SocketFd)) : Prop :=
  ∀ call ∈ calls, ∀ bytes, call.arrived = some bytes → ∀ g, LawfulAdapter.Decodes A bytes g → ∃ seg, N seg ∧ seg.Alike g

/-- The socket is in the state of that side. -/
structure Related (s : Process SocketFd (TCPSpongeSocket A)) (p : Peer) : Prop extends Explains A s.calls p where
  /-- The connections are the same. -/
  conn : p.conn = s.own.tcp
  /-- The stream has ended if the owner has said so. -/
  ended : p.sender.stream.inputEnded = s.own.outboundShutdown
  /-- The owner has been told what the socket has noted. -/
  noted : s.own.inboundShutdown = true → .shutdown .thread .wr ∈ s.calls

/-- The streams of a socket are those of that side, but for an error. This is so at any time, also
when the socket has thrown or its connection has been destroyed. -/
structure Mirrors (own : TCPSpongeSocket A) (p : Peer) : Prop where
  /-- The same bytes wait to be given to the owner. -/
  que : own.tcp.inboundStream.que = p.conn.inboundStream.que
  /-- The end of the inbound stream is known to both. -/
  inputEnded : own.tcp.inboundStream.inputEnded = p.conn.inboundStream.inputEnded
  /-- An error of the side is one of the socket. -/
  error : p.conn.inboundStream.error = true → own.tcp.inboundStream.error = true
  /-- The outbound stream has ended as soon as the socket has seen its owner end it. -/
  ended : p.sender.stream.inputEnded = own.outboundShutdown

omit [DatagramAdapter A K] [LawfulAdapter A] in
theorem mirrors_of_eq {own : TCPSpongeSocket A} {p : Peer} (hinbound : own.tcp.inboundStream = p.conn.inboundStream)
    (hended : p.sender.stream.inputEnded = own.outboundShutdown) : Mirrors own p :=
  ⟨by rw [hinbound], by rw [hinbound], by rw [hinbound]; exact id, hended⟩

theorem Related.mirrors {s : Process SocketFd (TCPSpongeSocket A)} {p : Peer} (h : Related s p) : Mirrors s.own p :=
  mirrors_of_eq (by rw [h.conn]) h.ended

omit [DatagramAdapter A K] [LawfulAdapter A] in
/-- A connection that is destroyed while it is active fails. -/
theorem Mirrors.destroy {own : TCPSpongeSocket A} {p : Peer} (h : Mirrors own p) :
    Mirrors { own with tcp := own.tcp.destroy } p := by
  unfold TCPConnection.destroy
  split_ifs
  · exact ⟨h.que, h.inputEnded, fun _ => rfl, h.ended⟩
  · exact h

/-- What has happened from `s` to `s'` are moves of one side. -/
structure Effect (s s' : Process SocketFd (TCPSpongeSocket A)) : Prop where
  /-- No call is taken back. -/
  calls : s.calls <+: s'.calls
  /-- The moves. -/
  moves : ∀ N p, Heard A N s'.calls → Related s p → ∃ p', Moves N p p' ∧ Related s' p'

/-- The inbound stream is over: it has failed, or all of it has been taken. -/
def InboundOver (c : TCPConnection) : Prop := c.inboundStream.eof = true ∨ c.inboundStream.error = true

theorem TCPConnection.readInbound_inboundStream (c : TCPConnection) (len : ℕ) :
    (c.readInbound len).2.inboundStream = c.inboundStream.popOutput len := rfl

/-- Taking bytes from a stream that is over. -/
theorem InboundOver.readInbound {c : TCPConnection} (h : InboundOver c) (len : ℕ) :
    InboundOver (c.readInbound len).2 := by
  rcases h with heof | herror
  · obtain ⟨hended, hque⟩ := (ByteStream.eof_iff _).mp heof
    refine Or.inl ((ByteStream.eof_iff _).mpr ⟨hended, ?_⟩)
    rw [c.readInbound_inboundStream, ByteStream.popOutput_que, hque, List.drop_nil]
  · exact Or.inr herror

/-- What has happened from `s` on before the socket has stopped are moves of one side. The owner has
been told nothing, and if the inbound stream was over, it still is. -/
structure Stop (s s' : Process SocketFd (TCPSpongeSocket A)) : Prop where
  /-- No call is taken back. -/
  calls : s.calls <+: s'.calls
  /-- The owner has not been told anything. -/
  told : .shutdown .thread .wr ∈ s'.calls → .shutdown .thread .wr ∈ s.calls
  /-- The moves. -/
  moves : ∀ N p, Heard A N s'.calls → Related s p → ∃ p', Moves N p p' ∧ Explains A s'.calls p' ∧
    Mirrors s'.own p' ∧ (InboundOver p.conn → InboundOver p'.conn)

/-- What has happened from `s` on before the socket has stopped are moves of one side. If the owner
has been told that the inbound stream is over, it is. -/
structure Halt (s s' : Process SocketFd (TCPSpongeSocket A)) : Prop where
  /-- No call is taken back. -/
  calls : s.calls <+: s'.calls
  /-- The moves. -/
  moves : ∀ N p, Heard A N s'.calls → Related s p → ∃ p', Moves N p p' ∧ Explains A s'.calls p' ∧
    Mirrors s'.own p' ∧ (.shutdown .thread .wr ∈ s'.calls → .shutdown .thread .wr ∈ s.calls ∨ InboundOver p'.conn)

theorem Heard.mono {N : TCPSegment → Prop} {calls calls' : List (SysCall SocketFd)} (h : Heard A N calls')
    (hle : calls <+: calls') : Heard A N calls := fun call hcall => h call (hle.subset hcall)

variable {s s' s'' : Process SocketFd (TCPSpongeSocket A)}

theorem Effect.refl (s : Process SocketFd (TCPSpongeSocket A)) : Effect s s :=
  ⟨List.prefix_rfl, fun _ p _ hp => ⟨p, .refl, hp⟩⟩

theorem Effect.trans (h : Effect s s') (h' : Effect s' s'') : Effect s s'' := by
  refine ⟨h.calls.trans h'.calls, fun N p hheard hp => ?_⟩
  obtain ⟨p', hmoves, hp'⟩ := h.moves N p (hheard.mono h'.calls) hp
  obtain ⟨p'', hmoves', hp''⟩ := h'.moves N p' hheard hp'
  exact ⟨p'', hmoves.trans hmoves', hp''⟩

/-- First an effect that leaves the inbound stream over, then the end. -/
theorem Effect.trans_stop (h : Effect s s') (htold : .shutdown .thread .wr ∈ s'.calls → .shutdown .thread .wr ∈ s.calls)
    (hover : InboundOver s.own.tcp → InboundOver s'.own.tcp) (h' : Stop s' s'') : Stop s s'' := by
  refine ⟨h.calls.trans h'.calls, htold ∘ h'.told, fun N p hheard hp => ?_⟩
  obtain ⟨p', hmoves, hp'⟩ := h.moves N p (hheard.mono h'.calls) hp
  obtain ⟨p'', hmoves', hexplains, hmirrors, hover'⟩ := h'.moves N p' hheard hp'
  refine ⟨p'', hmoves.trans hmoves', hexplains, hmirrors, fun hp => hover' ?_⟩
  rw [hp'.conn]
  exact hover (by rwa [← ‹Related s p›.conn])

/-- First an effect, after which the owner has been told only what is so, then the end. -/
theorem Effect.trans_halt (h : Effect s s')
    (htold : .shutdown .thread .wr ∈ s'.calls → .shutdown .thread .wr ∈ s.calls ∨ InboundOver s'.own.tcp)
    (h' : Stop s' s'') : Halt s s'' := by
  refine ⟨h.calls.trans h'.calls, fun N p hheard hp => ?_⟩
  obtain ⟨p', hmoves, hp'⟩ := h.moves N p (hheard.mono h'.calls) hp
  obtain ⟨p'', hmoves', hexplains, hmirrors, hover⟩ := h'.moves N p' hheard hp'
  refine ⟨p'', hmoves.trans hmoves', hexplains, hmirrors,
    fun hshut => (htold (h'.told hshut)).imp_right fun hnow => hover ?_⟩
  rwa [hp'.conn]

/-! ### Moves and calls -/

/-- The calls `new` are those of what the side has done from `p` to `p'`. -/
structure Extends (A : Type) {K : Type} [DatagramAdapter A K] [LawfulAdapter A] (p : Peer)
    (new : List (SysCall SocketFd)) (p' : Peer) : Prop where
  /-- The bytes from the owner. -/
  accepted : p'.accepted = p.accepted ++ received .thread new
  /-- The bytes to the owner. -/
  taken : p'.taken = p.taken ++ written .thread new
  /-- What has been sent has been sent. -/
  wire : p.wire ⊆ p'.wire
  /-- The datagrams to the network. -/
  sent : (∀ call ∈ new, call.Whole) → ∀ call ∈ new, ∀ bytes, call.departed = some bytes →
    ∃ seg ∈ p'.wire, LawfulAdapter.Encodes A seg bytes

theorem Explains.extends {calls new : List (SysCall SocketFd)} {p p' : Peer} (h : Explains A calls p)
    (hnew : Extends A p new p') : Explains A (calls ++ new) p' := by
  refine ⟨?_, ?_, fun hwhole call hcall bytes hbytes => ?_⟩
  · rw [hnew.accepted, h.accepted, received_append]
  · rw [hnew.taken, h.taken, written_append]
  · obtain ⟨hold, hlast⟩ := List.forall_mem_append.mp hwhole
    rcases List.mem_append.mp hcall with hcall | hcall
    · obtain ⟨seg, hseg, hencodes⟩ := h.wire hold call hcall bytes hbytes
      exact ⟨seg, hnew.wire hseg, hencodes⟩
    · exact hnew.sent hlast call hcall bytes hbytes

/-- A call that sends no datagram. -/
theorem extends_call {p p' : Peer} {call : SysCall SocketFd}
    (haccepted : p'.accepted = p.accepted ++ call.received .thread)
    (htaken : p'.taken = p.taken ++ call.written .thread) (hwire : p'.wire = p.wire) (hcall : call.departed = none) :
    Extends A p [call] p' := by
  refine ⟨?_, ?_, hwire ▸ List.Subset.refl _, fun _ call' hmem bytes hbytes => ?_⟩
  · rw [haccepted, received, List.flatMap_singleton]
  · rw [htaken, written, List.flatMap_singleton]
  · rw [List.mem_singleton.mp hmem, hcall] at hbytes
    cases hbytes

theorem extends_nil {p p' : Peer} (haccepted : p'.accepted = p.accepted) (htaken : p'.taken = p.taken)
    (hwire : p'.wire = p.wire) : Extends A p [] p' := by
  refine ⟨?_, ?_, hwire ▸ List.Subset.refl _, fun _ call hmem => absurd hmem List.not_mem_nil⟩
  · rw [haccepted]
    exact (List.append_nil _).symm
  · rw [htaken]
    exact (List.append_nil _).symm

/-- Calls of the adapter pass no bytes to or from the owner. -/
theorem extends_datagram {p p' : Peer} {new : List (SysCall SocketFd)} (hfd : ∀ call ∈ new, call.fd = .datagram)
    (haccepted : p'.accepted = p.accepted) (htaken : p'.taken = p.taken) (hwire : p.wire ⊆ p'.wire)
    (hsent : (∀ call ∈ new, call.Whole) → ∀ call ∈ new, ∀ bytes, call.departed = some bytes →
      ∃ seg ∈ p'.wire, LawfulAdapter.Encodes A seg bytes) : Extends A p new p' := by
  have hreceived : received .thread new = [] := List.flatMap_eq_nil_iff.mpr fun call hcall => by
    have := hfd call hcall
    cases call <;> simp_all [SysCall.fd, SysCall.received]
  have hwritten : written .thread new = [] := List.flatMap_eq_nil_iff.mpr fun call hcall => by
    have := hfd call hcall
    cases call <;> simp_all [SysCall.fd, SysCall.written]
  exact ⟨by rw [haccepted, hreceived, List.append_nil], by rw [htaken, hwritten, List.append_nil], hwire, hsent⟩

/-- The calls and the connection are all that counts. -/
theorem Effect.congr (h : Effect s s') (hcalls : s''.calls = s'.calls) (hown : s''.own = s'.own) : Effect s s'' := by
  refine ⟨hcalls ▸ h.calls, fun N p hheard hp => ?_⟩
  obtain ⟨p', hmoves, hexplains, hconn, hend, hnoted⟩ := h.moves N p (hcalls ▸ hheard) hp
  exact ⟨p', hmoves, hcalls ▸ hexplains, hown ▸ hconn, hown ▸ hend, hown ▸ hcalls ▸ hnoted⟩

/-- An effect, from what the side has done. -/
theorem effect_of_moves {new : List (SysCall SocketFd)} (hcalls : s'.calls = s.calls ++ new)
    (hnoted : s'.own.inboundShutdown = true → s.own.inboundShutdown = true ∨ .shutdown .thread .wr ∈ s'.calls)
    (h : ∀ N p, Heard A N s'.calls → p.conn = s.own.tcp → p.sender.stream.inputEnded = s.own.outboundShutdown →
      ∃ p', Moves N p p' ∧ Extends A p new p' ∧ p'.conn = s'.own.tcp ∧
        p'.sender.stream.inputEnded = s'.own.outboundShutdown) : Effect s s' := by
  refine ⟨hcalls ▸ List.prefix_append _ _, fun N p hheard hp => ?_⟩
  obtain ⟨p', hmoves, hextends, hconn, hend⟩ := h N p hheard hp.conn hp.ended
  refine ⟨p', hmoves, ?_, hconn, hend, fun hnote => ?_⟩
  · rw [hcalls]
    exact hp.toExplains.extends hextends
  · rcases hnoted hnote with hold | hnew
    · rw [hcalls]
      exact List.mem_append_left _ (hp.noted hold)
    · exact hnew

/-- The same when the socket has stopped. -/
theorem stop_of_moves {new : List (SysCall SocketFd)} (hcalls : s'.calls = s.calls ++ new)
    (hnew : .shutdown .thread .wr ∉ new) (h : ∀ N p, p.conn = s.own.tcp → Mirrors s.own p → ∃ p', Moves N p p' ∧
      Extends A p new p' ∧ Mirrors s'.own p' ∧ (InboundOver p.conn → InboundOver p'.conn)) : Stop s s' := by
  refine ⟨hcalls ▸ List.prefix_append _ _, fun hmem => ?_, fun N p _ hp => ?_⟩
  · rw [hcalls] at hmem
    exact (List.mem_append.mp hmem).resolve_right hnew
  · obtain ⟨p', hmoves, hextends, hmirrors, hover⟩ := h N p hp.conn hp.mirrors
    refine ⟨p', hmoves, ?_, hmirrors, hover⟩
    rw [hcalls]
    exact hp.toExplains.extends hextends

/-- Nothing has happened but to the adapter. -/
theorem stop_of_calls (h : s'.calls = s.calls) (htcp : s'.own.tcp = s.own.tcp)
    (hout : s'.own.outboundShutdown = s.own.outboundShutdown) : Stop s s' := by
  refine stop_of_moves (by rw [h, List.append_nil]) List.not_mem_nil fun _ p _ hmirrors => ?_
  obtain ⟨hque, hended, herror, hend⟩ := hmirrors
  rw [← htcp] at hque hended herror
  exact ⟨p, .refl, extends_nil rfl rfl rfl, ⟨hque, hended, herror, hend.trans hout.symm⟩, id⟩

theorem stop_of_untouched (h : Untouched s s') : Stop s s' := stop_of_calls h.calls (by rw [h.own]) (by rw [h.own])

/-! ### The rules -/

omit [DatagramAdapter A K] [LawfulAdapter A] in
theorem noteFullyAcked_outcome (s : Process SocketFd (TCPSpongeSocket A)) :
    Outcome (fun _ s' => s'.fds = s.fds ∧ s'.calls = s.calls ∧ s'.own.tcp = s.own.tcp ∧
        s'.own.outboundShutdown = s.own.outboundShutdown ∧ s'.own.inboundShutdown = s.own.inboundShutdown)
      (fun _ _ => False) (noteFullyAcked s) := by
  simp only [noteFullyAcked, outcome_bind, outcome_get, outcome_ite, outcome_modify, outcome_pure,
    and_self, implies_true]

/-- **Rule 1** gives a segment to the connection, if there is one in the datagram. -/
theorem rule1_effect (s : Process SocketFd (TCPSpongeSocket A)) :
    Outcome (fun _ s' => Effect s s' ∧ (∃ call, s'.calls = s.calls ++ [call] ∧ call.fd = .datagram) ∧
        s'.own.outboundShutdown = s.own.outboundShutdown ∧
        (s'.fds .datagram).readCount = (s.fds .datagram).readCount + 1)
      (fun e s' => e.FromKernel ∧ Stop s s') (rule1.callback s) := by
  simp only [rule1, onAdapter, inPart, outcome_bind, outcome_zoom]
  refine (LawfulAdapter.read_outcome (A := A) _).mono ?_ fun e s' he => ⟨he.1, stop_of_calls he.2 rfl rfl⟩
  rintro seg r ⟨⟨call, hcalls, hfd, hdeparted, hseg⟩, -, hcount⟩
  replace hcalls : r.calls = s.calls ++ [call] := hcalls
  have hextends : ∀ (p : Peer) (conn : TCPConnection), Extends A p [call] { p with conn } := by
    intro p conn
    refine extends_datagram (List.forall_mem_singleton.mpr hfd) rfl rfl (List.Subset.refl _) ?_
    intro _ call' hcall' bytes hbytes
    rw [List.mem_singleton.mp hcall', hdeparted] at hbytes
    cases hbytes
  cases seg with
  | none =>
    refine (noteFullyAcked_outcome _).mono ?_ fun _ _ he => he.elim
    rintro - s' ⟨hfds, hcalls', htcp, hout, hin⟩
    refine ⟨effect_of_moves (hcalls'.trans hcalls) (fun h => Or.inl (hin ▸ h)) fun N p _ hconn hend => ?_,
      ⟨call, hcalls'.trans hcalls, hfd⟩, hout, ?_⟩
    · exact ⟨p, .refl, hextends p p.conn, hconn.trans htcp.symm, hend.trans hout.symm⟩
    · rw [hfds]
      exact hcount
  | some g =>
    refine (noteFullyAcked_outcome _).mono ?_ fun _ _ he => he.elim
    rintro - s' ⟨hfds, hcalls', htcp, hout, hin⟩
    replace hcalls' : s'.calls = r.calls := hcalls'
    refine ⟨effect_of_moves (hcalls'.trans hcalls) (fun h => Or.inl (hin ▸ h)) fun N p hheard hconn hend => ?_,
      ⟨call, hcalls'.trans hcalls, hfd⟩, hout, ?_⟩
    · -- the segment is one that the network may give
      obtain ⟨bytes, harrived, hdecodes⟩ := hseg g rfl
      have hcall : call ∈ s'.calls := by
        rw [hcalls', hcalls]
        exact List.mem_append_right _ (List.mem_singleton_self _)
      obtain ⟨seg, hN, halike⟩ := hheard call hcall bytes harrived g hdecodes
      refine ⟨p.receive seg, .single (.receive hN), hextends p _, ?_, ?_⟩
      · rw [htcp]
        exact (congrArg (·.segmentReceived seg) hconn).trans (segmentReceived_alike halike _).symm
      · exact (p.conn.segmentReceived_inputEnded seg).trans (hend.trans hout.symm)
    · rw [hfds]
      exact hcount

omit [DatagramAdapter A K] [LawfulAdapter A] in
theorem outcome_onTcp {Q : Unit → Process SocketFd (TCPSpongeSocket A) → Prop}
    {E : Failure → Process SocketFd (TCPSpongeSocket A) → Prop} {f : TCPConnection → TCPConnection} :
    Outcome Q E (onTcp f s) ↔ Q () { s with own := { s.own with tcp := f s.own.tcp } } := Iff.rfl

/-- The end of the outbound stream. -/
theorem effect_endOutbound (s : Process SocketFd (TCPSpongeSocket A)) :
    Effect s { s with own := { s.own with tcp := s.own.tcp.endInputStream, outboundShutdown := true } } := by
  refine effect_of_moves (List.append_nil _).symm Or.inl fun N p _ hconn _ => ?_
  refine ⟨p.run .endInputStream, .single (.run .endInputStream (by simp)), extends_nil rfl rfl rfl, ?_, ?_⟩
  · exact congrArg (·.endInputStream) hconn
  · exact p.conn.endInputStream_inputEnded

/-- **Rule 2** gives the connection all that has been read from the owner: no more is read than
fits. -/
theorem rule2_effect (s : Process SocketFd (TCPSpongeSocket A)) (hopen : s.own.outboundShutdown = false) :
    Outcome (fun _ s' => Effect s s' ∧ (∃ data, s'.calls = s.calls ++ [.read .thread data]) ∧
        s'.own.tcp.inboundStream = s.own.tcp.inboundStream ∧ (s'.fds .thread).readCount = (s.fds .thread).readCount + 1)
      (fun e s' => e.FromKernel ∧ Stop s s') (rule2.callback s) := by
  simp only [rule2, outcome_bind, outcome_get]
  refine (FileDescriptor.read_outcome _ _ s).mono ?_ fun e s' he => ⟨he.1, stop_of_untouched he.2⟩
  rintro data - ⟨rfl, hlen⟩
  have hfit : data.length ≤ s.own.tcp.sender.stream.remainingCapacity := hlen.trans (Nat.min_le_right _ _)
  have hall : (s.own.tcp.write data).1 = data.length := Nat.min_eq_right hfit
  simp only [outcome_onTcp, FileDescriptor.afterRead_own, outcome_bind, outcome_get, outcome_ite, hall,
    bne_self_eq_false, Bool.false_eq_true, false_implies, not_false_eq_true, true_implies, true_and]
  have hinbound : (s.own.tcp.write data).2.inboundStream = s.own.tcp.inboundStream :=
    congrArg TCPReceiver.streamOut (TCPConnection.tryCleanClose_receiver _)
  have hcount : (FileDescriptor.afterRead s SocketFd.thread s.own.tcp.remainingOutboundCapacity data).fds .thread =
    _ := FileDescriptor.afterRead_fds_self ..
  -- the write
  have hwrite : Effect s { FileDescriptor.afterRead s SocketFd.thread s.own.tcp.remainingOutboundCapacity data with
      own := { s.own with tcp := (s.own.tcp.write data).2 } } := by
    refine effect_of_moves rfl Or.inl fun N p _ hconn hend => ?_
    have hlegal : p.sender.stream.inputEnded = false := hend.trans hopen
    have hwrote : (p.conn.write data).1 = data.length := by rw [hconn, hall]
    refine ⟨p.run (.write data), .single (.run (.write data) fun _ _ => hlegal), extends_call ?_ ?_ rfl rfl, ?_, ?_⟩
    · simp only [Peer.run, hwrote, List.take_length, SysCall.received, if_true]
    · exact (List.append_nil _).symm
    · exact congrArg (fun c => (TCPConnection.write c data).2) hconn
    · exact (p.conn.write_inputEnded data).trans hend
  refine ⟨fun _ => ?_, fun _ => ?_⟩
  · refine ⟨hwrite.trans (effect_endOutbound _), ⟨data, rfl⟩, hinbound, ?_⟩
    exact congrArg FDWrapper.readCount hcount
  · refine ⟨hwrite, ⟨data, rfl⟩, hinbound, ?_⟩
    exact congrArg FDWrapper.readCount hcount

/-- What is read is the beginning of what was peeked at. -/
theorem ByteStream.take_peekOutput {b : ByteStream} {len n : ℕ} (h : n ≤ (b.peekOutput len).length) :
    (b.peekOutput len).take n = (b.read n).1 := by
  rw [peekOutput, List.length_take] at h
  rw [peekOutput, List.take_take, read_fst]
  congr 1
  omega

/-- Calls that only write to the owner: the side reads what has been written. -/
theorem extends_writes {p : Peer} {len : ℕ} {counts : List ℕ}
    (hle : counts.sum ≤ (p.conn.inboundStream.peekOutput len).length) :
    Extends A p (FileDescriptor.writes .thread (p.conn.inboundStream.peekOutput len) counts)
      (p.run (.read counts.sum)) := by
  refine ⟨?_, ?_, List.Subset.refl _, fun _ call hcall bytes hbytes => ?_⟩
  · rw [FileDescriptor.received_writes]
    exact (List.append_nil _).symm
  · rw [FileDescriptor.written_writes _ _ hle, if_pos rfl, ByteStream.take_peekOutput hle]
    rfl
  · obtain ⟨offered, count, rfl⟩ := mem_writes hcall
    cases hbytes

theorem shutdown_not_mem_writes {bytes : Bytes} {counts : List ℕ} :
    SysCall.shutdown SocketFd.thread .wr ∉ FileDescriptor.writes .thread bytes counts := by
  intro hmem
  obtain ⟨offered, count, heq⟩ := mem_writes hmem
  cases heq

/-- The owner is told that the inbound stream is over. -/
theorem effect_shutdown (s : Process SocketFd (TCPSpongeSocket A)) :
    Effect s { FileDescriptor.afterShutdown s .thread with own := { s.own with inboundShutdown := true } } := by
  refine effect_of_moves rfl (fun _ => Or.inr (List.mem_append_right _ (List.mem_singleton_self _)))
    fun N p _ hconn hend => ⟨p, .refl, extends_call ?_ ?_ rfl rfl, hconn, hend⟩
  · exact (List.append_nil _).symm
  · exact (List.append_nil _).symm

/-- **Rule 3** pops what the owner has been given, and tells the owner when the stream is over. -/
theorem rule3_effect (s : Process SocketFd (TCPSpongeSocket A)) :
    Outcome (fun _ s' => Effect s s' ∧ s'.own.outboundShutdown = s.own.outboundShutdown ∧
        (s'.fds .thread).writeCount ≠ (s.fds .thread).writeCount ∧ (InboundOver s.own.tcp → InboundOver s'.own.tcp) ∧
        (.shutdown .thread .wr ∈ s'.calls → .shutdown .thread .wr ∈ s.calls ∨ InboundOver s'.own.tcp))
      (fun e s' => e.FromKernel ∧ Stop s s') (rule3.callback s) := by
  simp only [rule3, outcome_bind, outcome_get]
  generalize hlen : min 65536 s.own.tcp.inboundStream.bufferSize = len
  refine (FileDescriptor.write_outcome _ _ _ s).mono ?_ ?_
  · rintro n - ⟨counts, rfl, hsum, hle, -, honce, -, -⟩
    rw [BufferViewList.bytes_ofString] at hle ⊢
    obtain rfl := honce rfl
    have hpop : Effect s { FileDescriptor.afterWrites s .thread (s.own.tcp.inboundStream.peekOutput len) [n] with
        own := { s.own with tcp := (s.own.tcp.readInbound n).2 } } := by
      refine effect_of_moves rfl Or.inl fun N p _ hconn hend => ?_
      rw [← hconn] at hle ⊢
      rw [← hsum] at hle
      have hextends := extends_writes (A := A) hle
      rw [hsum] at hextends
      exact ⟨p.run (.read n), .single (.run (.read n) (by simp)), hextends, rfl, hend⟩
    have hfds := FileDescriptor.afterWrites_fds_self s .thread (s.own.tcp.inboundStream.peekOutput len) [n]
    have hold : .shutdown .thread .wr ∈ s.calls ++
        FileDescriptor.writes .thread (s.own.tcp.inboundStream.peekOutput len) [n] →
        .shutdown .thread .wr ∈ s.calls := fun hmem => (List.mem_append.mp hmem).resolve_right shutdown_not_mem_writes
    simp only [outcome_onTcp, FileDescriptor.afterWrites_own, outcome_ite, outcome_bind]
    refine ⟨fun hover => ?_, fun hnot => ?_⟩
    · refine (FileDescriptor.shutdown_outcome _ _).mono ?_ fun e s' he =>
        ⟨he.1, hpop.trans_stop hold (·.readInbound n) (stop_of_untouched he.2)⟩
      rintro - - rfl
      have hover' : InboundOver (s.own.tcp.readInbound n).2 := Bool.or_eq_true_iff.mp hover
      refine ⟨hpop.trans (effect_shutdown _), rfl, ?_, fun _ => hover', fun _ => Or.inr hover'⟩
      simp only [FileDescriptor.afterShutdown, Function.update_self, hfds, List.length_cons, List.length_nil]
      grind
    · refine ⟨hpop, rfl, ?_, fun hover => hover.readInbound n, fun hmem => Or.inl (hold hmem)⟩
      simp [hfds]
  · rintro e s' ⟨he, counts, hbroken⟩
    exact ⟨he, stop_of_untouched hbroken.untouched⟩

/-- Everything that the connection has queued fits into a datagram. -/
def Fitting (c : TCPConnection) : Prop := ∀ seg ∈ c.segmentsOut, seg.Fits

/-- Calls of the adapter do not shut down the owner's socket. -/
theorem shutdown_not_mem_datagram {new : List (SysCall SocketFd)} (hfd : ∀ call ∈ new, call.fd = .datagram) :
    SysCall.shutdown .thread .wr ∉ new := fun hmem => absurd (hfd _ hmem) (by simp [SysCall.fd])

/-- One segment is handed to the adapter. -/
theorem sendFront_effect {seg : TCPSegment} {rest : List TCPSegment} (hqueue : s.own.tcp.segmentsOut = seg :: rest)
    (hseg : seg.Fits) :
    Outcome (fun _ s' => Effect s s' ∧ s'.own.outboundShutdown = s.own.outboundShutdown ∧
        s'.own.tcp = { s.own.tcp with segmentsOut := rest } ∧
        (.shutdown .thread .wr ∈ s'.calls → .shutdown .thread .wr ∈ s.calls))
      (fun e s' => e.FromKernel ∧ Stop s s') (sendFront seg s) := by
  -- the network takes the segment from the side
  have hsends : ∀ {new : List (SysCall SocketFd)}, Sends (LawfulAdapter.Encodes A) seg new → ∀ p : Peer,
      p.conn = s.own.tcp → Extends A p new p.send ∧ p.send.conn = { s.own.tcp with segmentsOut := rest } := by
    intro new hnew p hconn
    have hsend : p.send = { p with conn := { p.conn with segmentsOut := rest }, wire := p.wire ++ [seg] } := by
      rw [Peer.send, hconn, hqueue]
    rw [hsend, hconn]
    refine ⟨extends_datagram (fun call hcall => (hnew.fd call hcall).1) rfl rfl (List.subset_append_left _ _) ?_, rfl⟩
    exact fun hwhole call hcall bytes hbytes =>
      ⟨seg, List.mem_append_right _ (List.mem_singleton_self _), hnew.encodes hwhole call hcall bytes hbytes⟩
  simp only [sendFront, onAdapter, inPart, outcome_bind, outcome_zoom, outcome_onTcp, hqueue, List.tail_cons]
  refine (LawfulAdapter.write_outcome (A := A) hseg _).mono ?_ ?_
  · rintro - r ⟨-, new, hcalls, hnew⟩
    replace hcalls : r.calls = s.calls ++ new := hcalls
    refine ⟨effect_of_moves hcalls Or.inl fun N p _ hconn hend => ?_, trivial, trivial, fun hmem => ?_⟩
    · obtain ⟨hextends, hsent⟩ := hsends hnew p hconn
      refine ⟨p.send, .single .send, hextends, hsent, ?_⟩
      rw [Peer.sender, hsent, ← hend, Peer.sender, hconn]
    · rw [hcalls, List.mem_append] at hmem
      exact hmem.resolve_right (shutdown_not_mem_datagram fun call hcall => (hnew.fd call hcall).1)
  · rintro e r ⟨he, new, hcalls, hnew⟩
    refine ⟨he, stop_of_moves hcalls (shutdown_not_mem_datagram fun call hcall => (hnew.fd call hcall).1)
      fun N p hconn hmirrors => ?_⟩
    obtain ⟨hextends, hsent⟩ := hsends hnew p hconn
    -- the segment is still queued in the socket, but the streams are as they were
    have hinbound : p.send.conn.inboundStream = p.conn.inboundStream := by
      rw [hsent, hconn]
      rfl
    have hended : p.send.sender.stream.inputEnded = p.sender.stream.inputEnded := by
      rw [Peer.sender, hsent, Peer.sender, hconn]
    refine ⟨p.send, .single .send, hextends, mirrors_of_eq ?_ (hended.trans hmirrors.ended), fun hover => ?_⟩
    · rw [hinbound, hconn]
    · rw [InboundOver, hinbound]
      exact hover

/-- The loop sends everything that is queued. -/
theorem sendLoop_effect {steps : ℕ} (hsteps : s.own.tcp.segmentsOut.length < steps) (hfit : Fitting s.own.tcp) :
    Outcome (fun _ s' => Effect s s' ∧ s'.own.outboundShutdown = s.own.outboundShutdown ∧
        s'.own.tcp = { s.own.tcp with segmentsOut := [] } ∧
        (.shutdown .thread .wr ∈ s'.calls → .shutdown .thread .wr ∈ s.calls))
      (fun e s' => e.FromKernel ∧ Stop s s') (sendLoop steps s) := by
  induction steps generalizing s with
  | zero => exact absurd hsteps (Nat.not_lt_zero _)
  | succ steps ih =>
    simp only [sendLoop, outcome_bind, outcome_get]
    cases hqueue : s.own.tcp.segmentsOut with
    | nil => exact ⟨.refl s, rfl, by rw [← hqueue], id⟩
    | cons seg rest =>
      rw [hqueue, List.length_cons] at hsteps
      have hfront := sendFront_effect hqueue (hfit seg (hqueue ▸ List.mem_cons_self))
      rw [outcome_bind]
      refine hfront.mono ?_ fun _ _ he => he
      rintro - s₁ ⟨heffect₁, hout₁, htcp₁, hshut₁⟩
      have hfit₁ : Fitting s₁.own.tcp := by
        rw [htcp₁]
        exact fun seg' hseg' => hfit seg' (hqueue ▸ List.mem_cons_of_mem _ hseg')
      have hsteps₁ : s₁.own.tcp.segmentsOut.length < steps := by
        rw [htcp₁]
        exact Nat.lt_of_succ_lt_succ hsteps
      refine (ih hsteps₁ hfit₁).mono ?_ fun e s' he => ⟨he.1, heffect₁.trans_stop hshut₁ (htcp₁ ▸ id) he.2⟩
      rintro - s' ⟨heffect, hout, htcp, hshut⟩
      exact ⟨heffect₁.trans heffect, hout.trans hout₁, by rw [htcp, htcp₁], hshut₁ ∘ hshut⟩

/-- **Rule 4** sends every segment that the connection has queued. -/
theorem rule4_effect (hfit : Fitting s.own.tcp) :
    Outcome (fun _ s' => Effect s s' ∧ s'.own.outboundShutdown = s.own.outboundShutdown ∧
        s'.own.tcp = { s.own.tcp with segmentsOut := [] } ∧
        (.shutdown .thread .wr ∈ s'.calls → .shutdown .thread .wr ∈ s.calls))
      (fun e s' => e.FromKernel ∧ Stop s s') (rule4.callback s) := by
  simp only [rule4, outcome_bind, outcome_get]
  exact sendLoop_effect (Nat.lt_succ_self _) hfit

/-! ### What a socket never does -/

theorem TCPSegment.Alike.refl (seg : TCPSegment) : seg.Alike seg := ⟨_, _, _, rfl⟩

/-- The network may give anything. -/
theorem heard_true (calls : List (SysCall SocketFd)) : Heard A (fun _ => True) calls :=
  fun _ _ _ _ g _ => ⟨g, trivial, .refl g⟩

/-- A connection makes only segments that fit into a datagram. -/
theorem queued_fits_micro {inbox : List TCPSegment} {p p' : Peer} (h : Queued TCPSegment.Fits p)
    (hm : Micro inbox p p') : Queued TCPSegment.Fits p' := by
  refine h.micro (fun r seg hseg => ⟨?_, ?_⟩) (fun _ => ⟨rfl, Nat.zero_le _⟩) (fun _ => ⟨rfl, Nat.zero_le _⟩)
    (fun s w => ⟨rfl, ?_⟩) hm
  · unfold TCPConnection.stamp
    split
    · exact hseg.doff
    · exact hseg.doff
  · rw [TCPConnection.stamp_payload]
    exact hseg.payload
  · rw [TCPSender.nextSegment_payload_length]
    omega

/-- The socket is in the state of some side, whatever the network has given it. -/
def Consistent (s : Process SocketFd (TCPSpongeSocket A)) : Prop :=
  ∃ p, Source p.accepted p.sender ∧ Queued TCPSegment.Fits p ∧ Related s p

theorem Effect.consistent (h : Effect s s') (hs : Consistent s) : Consistent s' := by
  obtain ⟨p, hsource, hqueued, hp⟩ := hs
  obtain ⟨p', hmoves, hp'⟩ := h.moves _ p (heard_true _) hp
  obtain ⟨hsource', hqueued'⟩ := hmoves.invariant (fun _ hq hm => queued_fits_micro hq hm) hsource hqueued
  exact ⟨p', hsource', hqueued', hp'⟩

theorem Consistent.fitting (h : Consistent s) : Fitting s.own.tcp := by
  obtain ⟨p, -, hqueued, hp⟩ := h
  rw [← hp.conn]
  exact hqueued.conn

end Sponge
