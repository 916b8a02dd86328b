import Sponge.Host.Turns
import Sponge.Network.Close

/-!
# Two sockets and a network

Two sockets, each with an owner, exchange datagrams through a network that may lose, repeat, delay
and reorder them, and damage them so that the checksums tell.

## The model

An `Endpoint` is a socket and where it is in its code. It takes turns (`Thread.tcpLoop`), each with
whatever the kernel answers to its calls; when it has thrown or ended it takes no more. A run of two
sockets is a sequence of their turns in any order.

The calls that a socket has made are the record of what has passed between it and the rest: what it
has read from its owner (`fromOwner`) and written to its owner (`toOwner`), and the datagrams that
have arrived and departed. The network is `Honest` if each datagram that arrives at one side has
departed from the other, or is such that no adapter finds a segment in it. That leaves out what a
checksum of 16 bits does not notice, two words of the payload that change places for instance. Of
the kernels it is assumed that they take a datagram at once, or not at all, and nothing else;
nothing is assumed of the owners.

## What is proved

* `step_stepped` — a turn of a socket, whether it throws, ends or goes on, is a sequence of moves of
  one side of a connection.
* `failure_fromKernel` — a socket throws only what the kernel is to blame for.
* `linked_runs` — a run of two sockets is a run of two connections.
* `toOwner_isPrefix_fromOwner` — so the bytes arrive in order and without gaps, and the end of the
  stream is the end.
* `finished_delivered` — a socket whose thread ends by itself has delivered everything, both ways.

What a socket has read and written is compared with the other one whether or not that one still
runs: its streams stay as they were when its thread ended or threw (`Mirrors`). An owner is `Told` of
the end of its stream when the third rule shuts the socket down for writing. The end that it sees
when `_tcp_main` shuts down everything is not meant by that.
-/

namespace Sponge

open Relation TCPSpongeSocket

variable {A K : Type} [DatagramAdapter A K]

/-- How a socket is opened. -/
structure Launch (K : Type) where
  /-- By `connect`, or else by `listen_and_accept`. -/
  active : Bool
  /-- The configuration of the connection. -/
  cTcp : TCPConfig := {}
  /-- The initial sequence number, if none is configured. -/
  random : WrappingInt32 := ⟨0⟩
  /-- The configuration of the adapter. -/
  cAd : K
  /-- The time. -/
  now : UInt64 := 0

/-- What the owner calls. -/
def Launch.program (launch : Launch K) : SocketProg A (Thread A) :=
  if launch.active then connect launch.cTcp launch.random launch.cAd launch.now
  else listenAndAccept launch.cTcp launch.random launch.cAd launch.now

/-- A socket that runs, or has run. -/
structure Endpoint (A : Type) where
  /-- Its variables and descriptors. -/
  process : Process SocketFd (TCPSpongeSocket A)
  /-- Where it is. -/
  thread : Thread A
  /-- What it has thrown. -/
  failure : Option Failure := none

namespace Endpoint

/-- The socket runs. -/
def running (e : Endpoint A) : Bool := e.failure.isNone && e.thread.stage != .finished

/-- A new socket. -/
def start (adapter : A) (launch : Launch K) : Endpoint A :=
  match launch.program (.start { tcp := TCPConnection.make {} ⟨0⟩, adapter }) with
  | .ok thread process => { process, thread }
  | .error failure process =>
    { process, thread := { stage := .finished, baseTime := launch.now, rules := [] }, failure := some failure }

/-- A turn of the socket, with the answers that the kernel gives during it. -/
def step (e : Endpoint A) (turn : Turn) (answers : List Answer) : Endpoint A :=
  if e.running then
    match e.thread.tcpLoop turn { e.process with answers } with
    | .ok thread process => { process, thread }
    | .error failure process => { e with process, failure := some failure }
  else e

end Endpoint

/-- Two sockets. -/
abbrev Sockets (A : Type) := Side → Endpoint A

/-- A turn of one of two sockets. -/
structure Happening where
  /-- Whose turn it is. -/
  side : Side
  /-- What it finds. -/
  turn : Turn
  /-- What the kernel answers. -/
  answers : List Answer
  deriving DecidableEq

namespace Sockets

/-- Two new sockets. -/
def start (adapter : Side → A) (launch : Side → Launch K) : Sockets A := fun s =>
  Endpoint.start (adapter s) (launch s)

/-- One turn. -/
def step (w : Sockets A) (h : Happening) : Sockets A :=
  Function.update w h.side ((w h.side).step h.turn h.answers)

/-- Two sockets after a run. -/
abbrev after (adapter : Side → A) (launch : Side → Launch K) (hs : List Happening) : Sockets A :=
  runs step (start adapter launch) hs

/-- The bytes that a socket has read from its owner. -/
def fromOwner (w : Sockets A) (s : Side) : Bytes := received .thread (w s).process.calls

/-- The bytes that a socket has written to its owner. -/
def toOwner (w : Sockets A) (s : Side) : Bytes := written .thread (w s).process.calls

/-- The third rule of a socket has told its owner that there is no more to read. -/
def Told (w : Sockets A) (s : Side) : Prop := .shutdown .thread .wr ∈ (w s).process.calls

/-- The network makes nothing up: a datagram that arrives is one that the other side has sent, or
no adapter finds a segment in it. And the kernel takes a datagram at once. -/
structure Honest [LawfulAdapter A] (w : Sockets A) (h : Happening) : Prop where
  /-- Datagrams are taken at once. -/
  whole : ∀ call ∈ (w.step h h.side).process.calls, call.Whole
  /-- Datagrams that arrive have been sent. -/
  arrived : ∀ call ∈ (w.step h h.side).process.calls, ∀ bytes, call.arrived = some bytes →
    (∃ call' ∈ (w h.side.other).process.calls, call'.departed = some bytes) ∨
      ∀ g, ¬ LawfulAdapter.Decodes A bytes g

end Sockets

/-! ### A new socket -/

theorem stateSummary_of_flight {s : TCPSender} (herror : s.stream.error = false) (hne : s.nextSeqno ≠ 0)
    (hflight : s.nextSeqno = s.flightBytes) : s.stateSummary = .synSent := by
  unfold TCPSender.stateSummary
  rw [TCPSender.streamIn, herror, if_neg Bool.false_ne_true, TCPSender.nextSeqnoAbsolute, if_neg hne,
    TCPSender.bytesInFlight, if_pos hflight]

/-- After `connect` a connection is in the state that the socket expects. -/
theorem connect_state (cfg : TCPConfig) (random : WrappingInt32) :
    (TCPConnection.make cfg random).connect.state = .ofState .synSent := by
  have hsource : Source [] (TCPConnection.make cfg random).sender := source_make _ _ _ _
  have hfills := (TCPConnection.make cfg random).sender.fillWindow_fills
  have hne := TCPSender.fillWindow_nextSeqno_ne_zero hsource.setFin_eq_false
  have hflight : (TCPConnection.make cfg random).sender.fillWindow.nextSeqno =
      (TCPConnection.make cfg random).sender.fillWindow.flightBytes := by
    have hbase := hfills.base_eq
    have hle := (hsource.fills hfills).outstanding.le
    have hzero : (TCPConnection.make cfg random).sender.base = 0 := rfl
    rw [hzero, TCPSender.base] at hbase
    omega
  have herror : (TCPConnection.make cfg random).sender.fillWindow.stream.error = false := hfills.frame.2.2.2.2.2
  have hsender : (TCPConnection.make cfg random).connect.sender.stateSummary = .synSent :=
    stateSummary_of_flight herror hne hflight
  show TCPState.mk (TCPConnection.make cfg random).connect.sender.stateSummary _ _ _ = _
  rw [hsender]
  rfl

/-- The side that a socket starts as. -/
def Launch.peer (launch : Launch K) : Peer :=
  if launch.active then (Peer.start launch.cTcp launch.random).run .connect else Peer.start launch.cTcp launch.random

/-- What the owner calls does not throw, and makes no system call. -/
theorem program_outcome (launch : Launch K) (s : Process SocketFd (TCPSpongeSocket A)) :
    Outcome (fun thread s' => thread.rules = rules ∧ thread.stage ≠ .finished ∧ s'.calls = s.calls ∧
        s'.own.tcp = launch.peer.conn ∧ s'.own.outboundShutdown = s.own.outboundShutdown ∧
        s'.own.inboundShutdown = s.own.inboundShutdown) (fun _ _ => False)
      (launch.program s) := by
  unfold Launch.program Launch.peer
  cases launch.active with
  | false => exact ⟨rfl, by simp, rfl, rfl, rfl, rfl⟩
  | true =>
    have hstate : (TCPConnection.make launch.cTcp launch.random).connect.state.eq (.ofState .synSent) = true :=
      (TCPState.eq_iff _ _).mpr (connect_state _ _)
    simp only [if_true, connect, initializeTCP, outcome_bind, outcome_onTcp, outcome_modify, outcome_get, outcome_ite,
      hstate, Bool.not_true, Bool.false_eq_true, false_implies, true_and]
    exact fun _ => ⟨rfl, by simp, rfl, rfl, rfl, rfl⟩

/-- A new socket. -/
structure NewSocket (launch : Launch K) (e : Endpoint A) : Prop where
  /-- It runs. -/
  running : e.running = true
  /-- It has all rules. -/
  rules : e.thread.rules = rules
  /-- It has made no call. -/
  calls : e.process.calls = []
  /-- Its connection. -/
  tcp : e.process.own.tcp = launch.peer.conn
  /-- The owner may write. -/
  opened : e.process.own.outboundShutdown = false
  /-- The owner has been told nothing. -/
  untold : e.process.own.inboundShutdown = false

theorem fresh_start (adapter : A) (launch : Launch K) : NewSocket launch (Endpoint.start adapter launch) := by
  have h := program_outcome launch (.start { tcp := TCPConnection.make {} ⟨0⟩, adapter } :
    Process SocketFd (TCPSpongeSocket A))
  unfold Endpoint.start
  cases hrun : launch.program (.start { tcp := TCPConnection.make {} ⟨0⟩, adapter } :
      Process SocketFd (TCPSpongeSocket A)) with
  | ok thread process =>
    rw [hrun] at h
    obtain ⟨hrules, hstage, hcalls, htcp, hopened, huntold⟩ := h
    exact ⟨by simp [Endpoint.running, hstage], hrules, hcalls, htcp, hopened, huntold⟩
  | error failure process =>
    rw [hrun] at h
    exact h.elim

/-! ### A turn of a socket -/

section Turns

variable [LawfulAdapter A]

/-- What a turn has done. -/
structure Stepped (turn : Turn) (answers : List Answer) (e e' : Endpoint A) : Prop where
  /-- The rules are some of the four, in order. -/
  rules : e'.thread.rules.Sublist rules
  /-- Only the kernel is to blame. -/
  failure : ∀ f, e'.failure = some f → f.FromKernel
  /-- No call is taken back. -/
  calls : e.process.calls <+: e'.process.calls
  /-- The thread ends if it has been told to, or interrupted, or no rule has anything to do. -/
  idle : e'.thread.stage = .finished → turn.abort = true ∨ (∃ a ∈ answers, a.errno = some .eintr) ∨
    (rule1 ∈ e'.thread.rules → ∀ rule ∈ e'.thread.rules, rule.interest e'.process = false)
  /-- What has happened are moves of one side. -/
  moves : ∀ N p, Heard A N e'.process.calls → Related e.process p → ∃ p', Moves N p p' ∧
    Explains A e'.process.calls p' ∧ Mirrors e'.process.own p' ∧ (e'.running = true → Related e'.process p') ∧
    (.shutdown .thread .wr ∈ e'.process.calls → .shutdown .thread .wr ∈ e.process.calls ∨ InboundOver p'.conn) ∧
    (e'.failure = none → e'.thread.stage = .finished → e'.process.own.tcp = p'.conn.destroy ∧
      (e'.process.own.inboundShutdown = true → .shutdown .thread .wr ∈ e'.process.calls))

/-- **A turn of a socket** that runs. -/
theorem step_stepped {e : Endpoint A} (turn : Turn) (answers : List Answer) (hrun : e.running = true)
    (hc : Consistent e.process) (hrules : e.thread.rules.Sublist rules) :
    Stepped turn answers e (e.step turn answers) := by
  have hstage : e.thread.stage ≠ .finished := by
    simp only [Endpoint.running, Bool.and_eq_true, bne_iff_ne] at hrun
    exact hrun.2
  -- the answers do not matter
  have hanswers : ∀ {p}, Related e.process p → Related { e.process with answers } p := fun hp =>
    ⟨hp.toExplains, hp.conn, hp.ended, hp.noted⟩
  have hc' : Consistent { e.process with answers } := by
    obtain ⟨p, hsource, hqueued, hp⟩ := hc
    exact ⟨p, hsource, hqueued, hanswers hp⟩
  have houtcome := tcpLoop_outcome turn hc' hrules hstage
  rw [Endpoint.step, if_pos hrun]
  cases hloop : e.thread.tcpLoop turn { e.process with answers } with
  | ok thread process =>
    rw [hloop] at houtcome
    obtain ⟨hleft, heffect, hend, hidle⟩ := houtcome
    have hexit : thread.stage = .finished → turn.abort = true ∨ (∃ a ∈ answers, a.errno = some .eintr) ∨
        (rule1 ∈ thread.rules → ∀ rule ∈ thread.rules, rule.interest process = false) := by
      intro hfinished
      refine (hidle hfinished).imp_right (Or.imp_left fun heintr => ?_)
      cases answers with
      | nil => simp [Process.next] at heintr
      | cons a _ => exact ⟨a, List.mem_cons_self, heintr⟩
    by_cases hfinished : thread.stage = .finished
    · obtain ⟨s₁, heffect₁, htold, hcalls, hown⟩ := hend hfinished
      have hprefix : s₁.calls <+: process.calls := hcalls ▸ List.prefix_append _ _
      refine ⟨hleft, by simp, heffect₁.calls.trans hprefix, hexit, fun N p hheard hp => ?_⟩
      obtain ⟨p', hmoves, hp'⟩ := heffect₁.moves N p (hheard.mono hprefix) (hanswers hp)
      refine ⟨p', hmoves, ?_, ?_, by simp [Endpoint.running, hfinished], fun hshut => ?_,
        fun _ _ => ⟨?_, fun hnoted => ?_⟩⟩
      · rw [hcalls]
        exact hp'.toExplains.extends (extends_call (List.append_nil _).symm (List.append_nil _).symm rfl rfl)
      · rw [hown]
        exact hp'.mirrors.destroy
      · rw [hcalls, List.mem_append, List.mem_singleton] at hshut
        rw [hp'.conn]
        exact htold (hshut.resolve_right (by simp))
      · rw [hown, hp'.conn]
      · rw [hown] at hnoted
        rw [hcalls]
        exact List.mem_append_left _ (hp'.noted hnoted)
    · obtain ⟨heffect₁, htold⟩ := heffect hfinished
      refine ⟨hleft, by simp, heffect₁.calls, hexit, fun N p hheard hp => ?_⟩
      obtain ⟨p', hmoves, hp'⟩ := heffect₁.moves N p hheard (hanswers hp)
      exact ⟨p', hmoves, hp'.toExplains, hp'.mirrors, fun _ => hp', hp'.conn ▸ htold, fun _ h => absurd h hfinished⟩
  | error failure process =>
    rw [hloop] at houtcome
    obtain ⟨hkernel, hcalls, hmoves⟩ := houtcome
    refine ⟨hrules, by simp [hkernel], hcalls, fun h => absurd h hstage, fun N p hheard hp => ?_⟩
    obtain ⟨p', hmoves', hexplains, hmirrors, htold⟩ := hmoves N p hheard (hanswers hp)
    exact ⟨p', hmoves', hexplains, hmirrors, by simp [Endpoint.running], htold, by simp⟩

end Turns

/-! ### What a socket never throws -/

section Failures

variable [LawfulAdapter A]

omit [DatagramAdapter A K] [LawfulAdapter A] in
theorem Launch.moves (launch : Launch K) (N : TCPSegment → Prop) :
    Moves N (Peer.start launch.cTcp launch.random) launch.peer := by
  unfold Launch.peer
  split
  · exact .single (.run .connect (by simp))
  · exact .refl

/-- A new socket is in the state of its side. -/
theorem NewSocket.related {launch : Launch K} {e : Endpoint A} (h : NewSocket launch e) :
    Related e.process launch.peer := by
  have hpeer : launch.peer.accepted = [] ∧ launch.peer.taken = [] ∧ launch.peer.sender.stream.inputEnded = false := by
    unfold Launch.peer
    split
    · exact ⟨rfl, rfl, TCPConnection.fillWindow_inputEnded _⟩
    · exact ⟨rfl, rfl, rfl⟩
  obtain ⟨haccepted, htaken, hended⟩ := hpeer
  refine ⟨⟨?_, ?_, ?_⟩, h.tcp.symm, hended.trans h.opened.symm, ?_⟩
  · rw [h.calls, haccepted]
    rfl
  · rw [h.calls, htaken]
    rfl
  · simp [h.calls]
  · simp [h.untold]

theorem NewSocket.consistent {launch : Launch K} {e : Endpoint A} (h : NewSocket launch e) : Consistent e.process := by
  obtain ⟨hsource, hqueued⟩ := (launch.moves fun _ => True).invariant (J := Queued TCPSegment.Fits)
    (fun _ hq hm => queued_fits_micro hq hm) (source_make _ _ _ _) (queued_start _ _ _)
  exact ⟨launch.peer, hsource, hqueued, h.related⟩

theorem Stepped.consistent {turn : Turn} {answers : List Answer} {e e' : Endpoint A} (h : Stepped turn answers e e')
    (he : Consistent e.process) (hrun : e'.running = true) : Consistent e'.process := by
  obtain ⟨p, hsource, hqueued, hp⟩ := he
  obtain ⟨p', hmoves, -, -, hrelated, -⟩ := h.moves _ p (heard_true _) hp
  obtain ⟨hsource', hqueued'⟩ := hmoves.invariant (fun _ hq hm => queued_fits_micro hq hm) hsource hqueued
  exact ⟨p', hsource', hqueued', hrelated hrun⟩

/-- **No exception of its own.** Whatever the kernel answers, whatever datagrams arrive and whenever
the owner aborts: what a socket throws is an error of a system call, or that a system call has
returned something that makes no sense. In particular it never writes more than fits, and its
callbacks are never taken for a busy wait. -/
theorem failure_fromKernel (adapter : A) (launch : Launch K) (turns : List (Turn × List Answer)) (f : Failure)
    (hf : (runs (fun e t => e.step t.1 t.2) (Endpoint.start adapter launch) turns).failure = some f) :
    f.FromKernel := by
  have hstart := fresh_start adapter launch
  have hrun := hstart.running
  simp only [Endpoint.running, Bool.and_eq_true, Option.isNone_iff_eq_none] at hrun
  have halong : Along (fun (e : Endpoint A) (t : Turn × List Answer) => e.step t.1 t.2) (fun _ _ => True)
      (Endpoint.start adapter launch) turns := along_true _ _
  have hinv := halong.invariant
    (I := fun e => (∀ f, e.failure = some f → f.FromKernel) ∧ e.thread.rules.Sublist rules ∧
      (e.running = true → Consistent e.process)) ?_ ⟨by simp [hrun.1], ?_, fun _ => hstart.consistent⟩
  · exact hinv.1 f hf
  · rintro e ⟨turn, answers⟩ ⟨hfailure, hrules, hc⟩ -
    by_cases hrunning : e.running = true
    · have hstepped := step_stepped turn answers hrunning (hc hrunning) hrules
      exact ⟨hstepped.failure, hstepped.rules, hstepped.consistent (hc hrunning)⟩
    · simp only [Endpoint.step, if_neg hrunning]
      exact ⟨hfailure, hrules, hc⟩
  · rw [hstart.rules]

/-- Side `a` connects to side `b`. -/
def launches : Side → Launch FdAdapterConfig
  | .a => { active := true, cAd := { source := ⟨1, 10⟩, destination := ⟨2, 20⟩ } }
  | .b => { active := false, cAd := { source := ⟨2, 20⟩ } }

/-- A datagram has arrived, and cannot be read. -/
def unreadable : List (Turn × List Answer) := [({}, [{ count := 1, revents := [1] }, { errno := some .other }])]

/-- Then the socket throws. -/
theorem failure_fromKernel_recvfrom :
    (runs (fun (e : Endpoint TCPOverUDPSocketAdapter) (t : Turn × List Answer) => e.step t.1 t.2)
        (Endpoint.start {} (launches .a)) unreadable).failure = some (.unixError "recvfrom" .other) ∧
      Failure.FromKernel (.unixError "recvfrom" .other) := by
  have hfailure : (runs (fun (e : Endpoint TCPOverUDPSocketAdapter) (t : Turn × List Answer) => e.step t.1 t.2)
      (Endpoint.start {} (launches .a)) unreadable).failure = some (.unixError "recvfrom" .other) := by
    decide +kernel
  have hkernel := failure_fromKernel (A := TCPOverUDPSocketAdapter) {} (launches .a) unreadable
    (.unixError "recvfrom" .other)
  exact ⟨hfailure, hkernel hfailure⟩

end Failures

/-! ### Two sockets are two sides -/

section Two

variable [LawfulAdapter A]

/-- All segments of two connections fit into datagrams. -/
theorem World.fits {cfg : Side → TCPConfig} {random : Side → WrappingInt32} {es : List Event}
    (h : World.Allowed cfg random es) (s : Side) : Queued TCPSegment.Fits (World.after cfg random es s) :=
  World.side_invariant (fun _ hj hm => queued_fits_micro hj hm) h (fun _ => source_make _ _ _ _) (queued_start _ _ _)

/-- Earlier the streams were short too. -/
theorem World.short_of_append {cfg : Side → TCPConfig} {random : Side → WrappingInt32} {es es' : List Event}
    (h : World.Allowed cfg random (es ++ es')) (hshort : ∀ s, (World.after cfg random (es ++ es') s).Short) (s : Side) :
    (World.after cfg random es s).Short := by
  obtain ⟨hfirst, hsecond⟩ := (along_append _ _ _).mp h
  have hprog := World.progress hsecond (fun t => (World.both hfirst t).1) s
  rw [← runs_append] at hprog
  exact lt_of_le_of_lt hprog.accepted.length_le (hshort s)

/-- An inbound stream that is over stays so. -/
theorem World.over_stays {cfg : Side → TCPConfig} {random : Side → WrappingInt32} {es es' : List Event}
    (h : World.Allowed cfg random (es ++ es')) (hshort : ∀ s, (World.after cfg random (es ++ es') s).Short) {s : Side}
    (hover : InboundOver (World.after cfg random es s).conn) :
    InboundOver (World.after cfg random (es ++ es') s).conn := by
  obtain ⟨hfirst, hsecond⟩ := (along_append _ _ _).mp h
  rcases hover with heof | herror
  · exact Or.inl (World.eof_stays h hshort heof)
  · refine Or.inr ?_
    rw [World.after, runs_append]
    refine World.side_invariant (J := fun q => q.conn.inboundStream.error = true) (fun _ hj hm => ?_) hsecond
      (fun t => (World.both hfirst t).1) herror
    rcases hm.alive_cases with ⟨-, hsame, -⟩ | ⟨-, herror', -⟩
    · exact hsame.trans hj
    · exact herror'

/-- A socket, and the sides `p` of its own and `q` of the other connection. -/
structure Traced (e : Endpoint A) (p q : Peer) : Prop where
  /-- The rules are some of the four, in order. -/
  rules : e.thread.rules.Sublist rules
  /-- Its calls are those of its side. -/
  explains : Explains A e.process.calls p
  /-- Its streams are those of its side. -/
  mirrors : Mirrors e.process.own p
  /-- While it runs it is in the state of its side. -/
  related : e.running = true → Related e.process p
  /-- When it has ended its connection has been destroyed. -/
  finished : e.failure = none → e.thread.stage = .finished → e.process.own.tcp = p.conn.destroy ∧
    (e.process.own.inboundShutdown = true → .shutdown .thread .wr ∈ e.process.calls)
  /-- Datagrams have been taken at once. -/
  whole : ∀ call ∈ e.process.calls, call.Whole
  /-- The segments that have arrived are of the other side. -/
  heard : Heard A (· ∈ q.wire) e.process.calls

/-- Two sockets, and a run of two connections. -/
structure Linked (cfg : Side → TCPConfig) (random : Side → WrappingInt32) (w : Sockets A) (es : List Event) : Prop where
  /-- No application writes after it has ended its stream. -/
  allowed : World.Allowed cfg random es
  /-- Each socket has done what its side has done. -/
  side : ∀ s, Traced (w s) (World.after cfg random es s) (World.after cfg random es s.other)
  /-- What the owners have been told is so, if the streams are short. -/
  told : (∀ t, (World.after cfg random es t).Short) → ∀ s, w.Told s → InboundOver (World.after cfg random es s).conn

variable {cfg : Side → TCPConfig} {random : Side → WrappingInt32} {w : Sockets A} {es : List Event}

/-- What has been heard is of the other side. -/
theorem Linked.heard (h : Linked cfg random w es) {e : Happening} (he : Sockets.Honest w e) :
    Heard A (· ∈ (World.after cfg random es e.side.other).wire) (w.step e e.side).process.calls := by
  intro call hcall bytes harrived g hdecodes
  rcases he.arrived call hcall bytes harrived with ⟨call', hcall', hdeparted⟩ | hnoise
  · have hother := h.side e.side.other
    obtain ⟨seg, hseg, hencodes⟩ := hother.explains.wire hother.whole call' hcall' bytes hdeparted
    exact ⟨seg, hseg, LawfulAdapter.alike hencodes hdecodes⟩
  · exact absurd hdecodes (hnoise g)

/-- A socket that runs is consistent. -/
theorem Linked.consistent (h : Linked cfg random w es) {s : Side} (hrun : (w s).running = true) :
    Consistent (w s).process :=
  ⟨_, (World.both h.allowed s).1, World.fits h.allowed s, (h.side s).related hrun⟩

/-- **One turn.** -/
theorem Linked.step (h : Linked cfg random w es) {e : Happening} (he : Sockets.Honest w e) :
    ∃ es', Linked cfg random (w.step e) (es ++ es') := by
  by_cases hrun : (w e.side).running = true
  · have hstepped := step_stepped e.turn e.answers hrun (h.consistent hrun) (h.side e.side).rules
    have hself : w.step e e.side = (w e.side).step e.turn e.answers := Function.update_self ..
    have hother : w.step e e.side.other = w e.side.other := Function.update_of_ne e.side.other_ne ..
    have hheard := h.heard he
    rw [← hself] at hstepped
    obtain ⟨p', hmoves, hexplains, hmirrors, hrelated, htold, hfinished⟩ :=
      hstepped.moves _ _ hheard ((h.side e.side).related hrun)
    obtain ⟨es', hlegal, hruns⟩ := World.moves hmoves
    have hallowed : World.Allowed cfg random (es ++ es') := (along_append _ _ _).mpr ⟨h.allowed, hlegal⟩
    have hafter : World.after cfg random (es ++ es') = Function.update (World.after cfg random es) e.side p' := by
      rw [World.after, runs_append]
      exact hruns
    have hside : World.after cfg random (es ++ es') e.side = p' := by rw [hafter, Function.update_self]
    have hside' : World.after cfg random (es ++ es') e.side.other = World.after cfg random es e.side.other := by
      rw [hafter, Function.update_of_ne e.side.other_ne]
    refine ⟨es', hallowed, fun s => ?_, fun hshort s hs => ?_⟩
    · rcases e.side.eq_or_eq_other s with rfl | rfl
      · rw [hside, hside']
        exact ⟨hstepped.rules, hexplains, hmirrors, hrelated, hfinished, he.whole, hheard⟩
      · obtain ⟨hrules, hexplains', hmirrors', hrelated', hfinished', hwhole', hheard'⟩ := h.side e.side.other
        rw [hother, Side.other_other, hside, hside']
        rw [Side.other_other] at hheard'
        refine ⟨hrules, hexplains', hmirrors', hrelated', hfinished', hwhole', fun call hcall bytes hbytes g hg => ?_⟩
        obtain ⟨seg, hseg, halike⟩ := hheard' call hcall bytes hbytes g hg
        exact ⟨seg, hmoves.wire_subset hseg, halike⟩
    · have hold : w.Told s → InboundOver (World.after cfg random (es ++ es') s).conn := fun hs =>
        World.over_stays hallowed hshort (h.told (World.short_of_append hallowed hshort) s hs)
      rcases e.side.eq_or_eq_other s with rfl | rfl
      · rcases htold hs with hs | hover
        · exact hold hs
        · rwa [hside]
      · rw [Sockets.Told, hother] at hs
        exact hold hs
  · have hsame : w.step e = w := by
      rw [Sockets.step, Endpoint.step, if_neg hrun, Function.update_eq_self]
    exact ⟨[], by rw [List.append_nil, hsame]; exact h⟩

/-- A new socket and its side. -/
theorem NewSocket.traced {launch : Launch K} {e : Endpoint A} (h : NewSocket launch e) (q : Peer) :
    Traced e launch.peer q := by
  have hrun := h.running
  simp only [Endpoint.running, Bool.and_eq_true, bne_iff_ne] at hrun
  refine ⟨h.rules ▸ List.Sublist.refl _, h.related.toExplains, h.related.mirrors, fun _ => h.related,
    fun _ hf => absurd hf hrun.2, ?_, ?_⟩
  · simp [h.calls]
  · intro call hcall
    rw [h.calls] at hcall
    exact absurd hcall List.not_mem_nil

/-- Two new sockets are two new connections, those that connect having done so. -/
theorem linked_start (adapter : Side → A) (launch : Side → Launch K) :
    ∃ es, Linked (fun s => (launch s).cTcp) (fun s => (launch s).random) (Sockets.start adapter launch) es := by
  generalize hw : World.start (fun s => (launch s).cTcp) (fun s => (launch s).random) = w
  have hstart : ∀ s, w s = Peer.start (launch s).cTcp (launch s).random := fun s => by rw [← hw]; rfl
  -- first one side, then the other
  have ha : Moves (· ∈ (w Side.a.other).wire) (w .a) (launch .a).peer := hstart .a ▸ (launch .a).moves _
  obtain ⟨es, hlegal, hruns⟩ := World.moves ha
  have hb : Moves (· ∈ (Function.update w .a (launch .a).peer Side.b.other).wire)
      (Function.update w .a (launch .a).peer .b) (launch .b).peer := by
    rw [Function.update_of_ne (by decide : Side.b ≠ .a), hstart]
    exact (launch .b).moves _
  obtain ⟨es', hlegal', hruns'⟩ := World.moves hb
  rw [← hruns] at hlegal' hruns'
  rw [← hw] at hlegal hlegal' hruns'
  have hafter : ∀ s, World.after (fun s => (launch s).cTcp) (fun s => (launch s).random)
      (es ++ es') s = (launch s).peer := by
    intro s
    rw [World.after, runs_append, hruns', hw, hruns]
    cases s with
    | a => rfl
    | b => rfl
  refine ⟨es ++ es', (along_append _ _ _).mpr ⟨hlegal, hlegal'⟩, fun s => ?_, fun _ s hs => ?_⟩
  · rw [hafter]
    exact (fresh_start (adapter s) (launch s)).traced _
  · rw [Sockets.Told, Sockets.start, (fresh_start (adapter s) (launch s)).calls] at hs
    exact absurd hs List.not_mem_nil

variable {adapter : Side → A} {launch : Side → Launch K} {hs : List Happening}

/-- **Two sockets are two connections**: whatever two sockets do over an honest network, two
connections do. -/
theorem linked_runs (h : Along Sockets.step Sockets.Honest (Sockets.start adapter launch) hs) :
    ∃ es, Linked (fun s => (launch s).cTcp) (fun s => (launch s).random) (Sockets.after adapter launch hs) es := by
  refine h.invariant (I := fun w => ∃ es, Linked _ _ w es) (fun w e hw he => ?_) (linked_start adapter launch)
  obtain ⟨es, hw⟩ := hw
  obtain ⟨es', hw'⟩ := hw.step he
  exact ⟨es ++ es', hw'⟩

end Two

/-! ### What the owners see -/

section Owners

variable [LawfulAdapter A]

/-- If the connection of a socket has not failed, its side has not. -/
theorem Traced.error {e : Endpoint A} {p q : Peer} (h : Traced e p q)
    (herror : e.process.own.tcp.inboundStream.error = false) : p.conn.inboundStream.error = false := by
  rw [← Bool.not_eq_true]
  intro hfailed
  rw [h.mirrors.error hfailed] at herror
  cases herror

/-- What two sockets that do what two connections do have given to their owners. -/
theorem Linked.delivered {cfg : Side → TCPConfig} {random : Side → WrappingInt32} {w : Sockets A} {es : List Event}
    (h : Linked cfg random w es) (hshort : ∀ s, (w.fromOwner s).length < 2 ^ 31 - 2) (s : Side) :
    w.toOwner s <+: w.fromOwner s.other ∧
      (w.Told s → (w s).process.own.tcp.inboundStream.error = false →
        w.toOwner s = w.fromOwner s.other ∧ (w s.other).process.own.outboundShutdown = true) := by
  have hself := h.side s
  have hother := h.side s.other
  have hshort' : ∀ t, (World.after _ _ es t).Short := fun t => by
    rw [Peer.Short, (h.side t).explains.accepted]
    exact hshort t
  have hboth := World.both h.allowed s
  have hassembled := ((hboth.2 (hshort' s) (hshort' s.other)).2).assembled (World.both h.allowed s.other).1
  rw [Sockets.toOwner, Sockets.fromOwner, ← hself.explains.taken, ← hother.explains.accepted]
  refine ⟨(List.prefix_append _ _).trans hassembled.1, fun htold herror => ?_⟩
  have hnoerror := hself.error herror
  have heof := (h.told hshort' s htold).resolve_right (by simp [hnoerror])
  obtain ⟨hended, hque⟩ := (ByteStream.eof_iff _).mp heof
  obtain ⟨hclosed, hall⟩ := hassembled.2 hended
  refine ⟨?_, ?_⟩
  · rw [← hall, Peer.assembled, hque, List.append_nil]
  · rw [← hother.mirrors.ended]
    exact hclosed

/-- **End to end.** Over an honest network, as long as fewer than `2^31 - 2` bytes have been read from
each owner: what a socket has written to its owner is a prefix of what the other socket has read from
its owner, whatever the owners do, whatever else the kernels answer, and whatever the network loses,
repeats, delays or reorders. When a socket has told its owner that there is no more, and its
connection has not failed, it is all of it, and the other owner has ended its stream. -/
theorem toOwner_isPrefix_fromOwner (adapter : Side → A) (launch : Side → Launch K) (hs : List Happening)
    (h : Along Sockets.step Sockets.Honest (Sockets.start adapter launch) hs)
    (hshort : ∀ s, ((Sockets.after adapter launch hs).fromOwner s).length < 2 ^ 31 - 2) (s : Side) :
    (Sockets.after adapter launch hs).toOwner s <+: (Sockets.after adapter launch hs).fromOwner s.other ∧
      ((Sockets.after adapter launch hs).Told s →
        (Sockets.after adapter launch hs s).process.own.tcp.inboundStream.error = false →
          (Sockets.after adapter launch hs).toOwner s = (Sockets.after adapter launch hs).fromOwner s.other ∧
            (Sockets.after adapter launch hs s.other).process.own.outboundShutdown = true) := by
  obtain ⟨es, hlinked⟩ := linked_runs h
  exact hlinked.delivered hshort s

instance SysCall.decidableWhole (call : SysCall SocketFd) : Decidable call.Whole := by
  unfold SysCall.Whole
  split <;> infer_instance

omit [LawfulAdapter A] in
/-- Every datagram that arrives has departed from the other side. -/
def Sockets.Delivers (w : Sockets A) (h : Happening) : Prop :=
  (∀ call ∈ (w.step h h.side).process.calls, call.Whole) ∧
    ∀ call ∈ (w.step h h.side).process.calls, call.arrived = none ∨
      ∃ call' ∈ (w h.side.other).process.calls, call'.departed = call.arrived

instance Sockets.decidableDelivers (w : Sockets A) (h : Happening) : Decidable (w.Delivers h) := by
  unfold Sockets.Delivers
  infer_instance

theorem Sockets.Delivers.honest {w : Sockets A} {h : Happening} (hd : w.Delivers h) : w.Honest h := by
  refine ⟨hd.1, fun call hcall bytes hbytes => Or.inl ?_⟩
  obtain ⟨call', hcall', heq⟩ := (hd.2 call hcall).resolve_left (by simp [hbytes])
  exact ⟨call', hcall', heq.trans hbytes⟩

/-- A pass, with what `poll` reports and what the kernel answers then. -/
def Happening.pass (side : Side) (revents : List UInt16) (answers : List Answer) : Happening :=
  ⟨side, {}, { count := 1, revents } :: answers⟩

/-- A datagram arrives. -/
def Happening.arrival (side : Side) (source : Address) (bytes : Bytes) : Happening :=
  .pass side [1] [{ source, bytes }]

/-- The owner of `a` writes two bytes and ends its stream; that of `b` reads them, sees the end and
ends its own. -/
def greeting : List Happening :=
  [.pass .a [0, 0, 0, 4] [{ count := 20 }],
   .arrival .b ⟨1, 10⟩ [0, 10, 0, 20, 0, 0, 0, 0, 0, 0, 0, 0, 80, 2, 0, 0, 175, 223, 0, 0],
   .pass .b [0, 0, 0, 4] [{ count := 20 }],
   .arrival .a ⟨2, 20⟩ [0, 20, 0, 10, 0, 0, 0, 0, 0, 0, 0, 1, 80, 18, 250, 0, 181, 205, 0, 0],
   ⟨.a, {}, []⟩,
   .pass .a [0, 1, 0, 4] [{ bytes := [104, 105] }, { count := 20 }, { count := 22 }],
   .arrival .b ⟨1, 10⟩ [0, 10, 0, 20, 0, 0, 0, 1, 0, 0, 0, 1, 80, 16, 250, 0, 181, 206, 0, 0],
   ⟨.b, {}, []⟩,
   .arrival .b ⟨1, 10⟩ [0, 10, 0, 20, 0, 0, 0, 1, 0, 0, 0, 1, 80, 16, 250, 0, 77, 101, 0, 0, 104, 105],
   .pass .a [0, 1] [{}],
   .pass .a [0, 0, 4] [{ count := 20 }],
   .pass .b [0, 0, 4, 4] [{ count := 2 }, { count := 20 }],
   .arrival .b ⟨1, 10⟩ [0, 10, 0, 20, 0, 0, 0, 3, 0, 0, 0, 1, 80, 17, 250, 0, 181, 203, 0, 0],
   .pass .b [0, 1, 4, 4] [{}, {}, {}, { count := 20 }, { count := 20 }]]

/-- Two sockets over UDP after a run. -/
abbrev overUDP (hs : List Happening) : Sockets TCPOverUDPSocketAdapter := Sockets.after (fun _ => {}) launches hs

/-- The two bytes arrive, and the owner of `b` is told that there is no more. -/
theorem toOwner_isPrefix_fromOwner_two :
    (overUDP greeting).Told .b ∧ (overUDP greeting).toOwner .b = (overUDP greeting).fromOwner .a ∧
      (overUDP greeting .a).process.own.outboundShutdown = true := by
  have hdelivers : Along Sockets.step Sockets.Delivers
      (Sockets.start (A := TCPOverUDPSocketAdapter) (fun _ => {}) launches) greeting := by
    decide +kernel
  have htold : (overUDP greeting).Told .b := List.elem_iff.mp (by decide +kernel)
  have herror : (overUDP greeting .b).process.own.tcp.inboundStream.error = false := by decide +kernel
  have hall := toOwner_isPrefix_fromOwner (A := TCPOverUDPSocketAdapter) (fun _ => {}) launches greeting
    (hdelivers.mono fun _ _ h => h.honest) (fun s => by cases s <;> decide +kernel) .b
  exact ⟨htold, hall.2 htold herror⟩

/-- A socket that has ended, and whose rules have nothing to do, has given its owner everything. -/
theorem Traced.complete {e : Endpoint A} {p q : Peer} (h : Traced e p q) (hfailure : e.failure = none)
    (hfinished : e.thread.stage = .finished) (herror : e.process.own.tcp.inboundStream.error = false)
    (hquiet : rule3.interest e.process = false) (hpq : Half p q) (hqp : Half q p)
    (hp : Source p.accepted p.sender) (hq : Source q.accepted q.sender) (hlife : Lifecycle p) :
    p.taken = q.accepted ∧ .shutdown .thread .wr ∈ e.process.calls ∧ q.assembled = p.accepted ∧
      q.conn.inboundStream.inputEnded = true := by
  have hnoerror := h.error herror
  obtain ⟨htcp, hnoted⟩ := h.finished hfailure hfinished
  -- the connection had closed before it was destroyed
  have hclosed : p.conn.active = false := by
    by_contra hactive
    rw [htcp, TCPConnection.destroy, if_pos (Bool.not_eq_false _ ▸ hactive)] at herror
    cases herror
  rw [TCPConnection.destroy, if_neg (by simp [hclosed])] at htcp
  have hf := (hlife.closed hclosed).resolve_left (by simp [← hlife.error, hnoerror])
  -- nothing is left to be given to the owner, and the owner has been told
  simp only [rule3, htcp, Bool.or_eq_false_iff, Bool.not_eq_false', Bool.and_eq_false_iff] at hquiet
  have hque : p.conn.inboundStream.que = [] := by
    have hroom := p.conn.inboundStream.room
    have hsame := beq_iff_eq.mp hquiet.1
    exact List.eq_nil_of_length_eq_zero (by omega)
  have heof : p.conn.inboundStream.eof = true := (ByteStream.eof_iff _).mpr ⟨hf.ended, hque⟩
  have htaken := ((hqp.assembled hq).2 hf.ended).2
  rw [Peer.assembled, hque, List.append_nil] at htaken
  have hended := hpq.inputEnded_of_finished hp hf
  refine ⟨htaken, hnoted ?_, ((hpq.assembled hp).2 hended).2, hended⟩
  rcases hquiet.2 with hnot | hyes
  · rw [heof] at hnot
    cases hnot.1
  · exact hyes

end Owners

end Sponge
