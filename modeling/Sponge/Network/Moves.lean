import Sponge.Network.Integrity

/-!
# One side by itself

What a side of a connection does can be said without the other: its application does something, the
network takes a segment from it, or gives it one. `Move N` is one of these, where `N` says which
segments the network may give. With the other side's `wire` for `N` it is an event of the two
(`World.moves`); with every segment for `N` it is what a side may do whatever the other one is.

## What is proved

* `Moves.invariant` — what every step of a side keeps, its moves keep.
* `Queued.micro` — if everything that a side makes has a property that stamping keeps, so has
  everything that it keeps or has queued.
* `segmentReceived_inputEnded`, `tick_inputEnded`, `write_inputEnded` — only its application ends
  the outbound stream.
* `World.short_invariant` — what every step keeps while both streams are in order holds in every run.
* `World.moves` — the moves of one side are a run of the two.
* `World.eof_stays` — a stream of which all has been taken is not added to.
-/

namespace Sponge

open Relation

/-- What happens to one side, when the network gives it segments of `N`. -/
inductive Move (N : TCPSegment → Prop) : Peer → Peer → Prop where
  /-- The application does something; it does not write after it has ended its stream. -/
  | run {p : Peer} (op : Op) : (∀ data, op = .write data → p.sender.stream.inputEnded = false) →
      Move N p (p.run op)
  /-- The network takes a segment. -/
  | send {p : Peer} : Move N p p.send
  /-- The network gives it a segment. -/
  | receive {p : Peer} {seg : TCPSegment} : N seg → Move N p (p.receive seg)

/-- Any number of moves. -/
abbrev Moves (N : TCPSegment → Prop) : Peer → Peer → Prop := ReflTransGen (Move N)

variable {N : TCPSegment → Prop} {p p' : Peer}

/-- A move is a chain of steps. -/
theorem Move.micro (h : Move N p p') (hp : Source p.accepted p.sender) :
    ∃ inbox, ReflTransGen (Micro inbox) p p' := by
  cases h with
  | run op hop => exact ⟨[], run_micro p op hop⟩
  | send => exact ⟨[], send_micro p⟩
  | @receive seg _ => exact ⟨[seg], segmentReceived_micro List.mem_cons_self hp.setFin_eq_false⟩

/-- The side when all that is queued has been sent. -/
def Peer.sendAll (p : Peer) : Peer :=
  { p with conn := { p.conn with segmentsOut := [] }, wire := p.wire ++ p.conn.segmentsOut }

theorem moves_sendAll (p : Peer) : Moves N p p.sendAll := by
  obtain ⟨segs, hsegs⟩ : ∃ segs, p.conn.segmentsOut = segs := ⟨_, rfl⟩
  induction segs generalizing p with
  | nil =>
    have hsame : p.sendAll = p := by
      rw [Peer.sendAll, hsegs, List.append_nil, ← hsegs]
    rw [hsame]
  | cons seg segs ih =>
    have hsend : p.send = { p with conn := { p.conn with segmentsOut := segs }, wire := p.wire ++ [seg] } := by
      rw [Peer.send, hsegs]
    have hrest := ih p.send (by rw [hsend])
    have hsame : p.send.sendAll = p.sendAll := by
      rw [hsend, Peer.sendAll, Peer.sendAll, hsegs, List.append_assoc, List.singleton_append]
    rw [hsame] at hrest
    exact ReflTransGen.head .send hrest

/-- **Invariants of a side by itself.** -/
theorem Moves.invariant {J : Peer → Prop}
    (hmicro : ∀ {inbox : List TCPSegment} {p p' : Peer}, Source p.accepted p.sender → J p →
      Micro inbox p p' → J p') (h : Moves N p p') (hp : Source p.accepted p.sender) (hj : J p) :
    Source p'.accepted p'.sender ∧ J p' := by
  induction h with
  | refl => exact ⟨hp, hj⟩
  | tail _ hmove ih =>
    obtain ⟨inbox, hchain⟩ := hmove.micro ih.1
    clear hmove
    induction hchain with
    | refl => exact ih
    | tail _ hm ih' => exact ⟨ih'.1.micro hm, hmicro ih'.1 ih'.2 hm⟩

/-! ### What is queued -/

/-- Every segment that a side keeps or has queued has the property `P`. -/
structure Queued (P : TCPSegment → Prop) (p : Peer) : Prop where
  /-- Those that the sender has queued. -/
  sender : ∀ seg ∈ p.sender.segmentsOut, P seg
  /-- Those that are kept for retransmission. -/
  kept : ∀ seg ∈ p.sender.waitAck, P seg
  /-- Those that the connection has queued. -/
  conn : ∀ seg ∈ p.conn.segmentsOut, P seg

theorem queued_start (P : TCPSegment → Prop) (c : TCPConfig) (r : WrappingInt32) : Queued P (Peer.start c r) :=
  ⟨List.forall_mem_nil _, List.forall_mem_nil _, List.forall_mem_nil _⟩

/-- **Every step keeps a property** of all segments, if the segments that are made have it and
stamping keeps it. -/
theorem Queued.micro {P : TCPSegment → Prop} (hstamp : ∀ r seg, P seg → P (TCPConnection.stamp r seg))
    (hempty : ∀ seqno, P { header := { seqno } }) (hrst : ∀ seqno, P { header := { rst := true, seqno } })
    (hnext : ∀ s w, P (TCPSender.nextSegment s w).1) {inbox : List TCPSegment} (h : Queued P p)
    (hm : Micro inbox p p') : Queued P p' := by
  obtain ⟨hsender, hkept, hconn⟩ := h
  cases hm with
  | @deliver seg' =>
    have hsuffix := p.sender.ackReceived_waitAck_suffix seg'.header.ackno seg'.header.win
    have hout : (p.onConn (·.deliver seg')).conn.segmentsOut = p.conn.segmentsOut := p.conn.deliver_segmentsOut seg'
    rcases p.deliver_sender seg' with ⟨-, -, heq⟩ | ⟨-, heq⟩
    · refine ⟨?_, ?_, hout ▸ hconn⟩ <;> rw [heq]
      · rwa [TCPSender.ackReceived_segmentsOut]
      · exact fun seg hseg => hkept seg (hsuffix.subset hseg)
    · exact ⟨heq ▸ hsender, heq ▸ hkept, hout ▸ hconn⟩
  | fillWindow =>
    have hmade : ∀ seg, seg ∈ p.sender.fillWindow.segmentsOut ∨ seg ∈ p.sender.fillWindow.waitAck → P seg := by
      intro seg hseg
      rcases p.sender.fillWindow_fills.made hseg with (hold | hold) | ⟨s, w, rfl, -⟩
      · exact hsender seg hold
      · exact hkept seg hold
      · exact hnext s w
    exact ⟨fun seg hseg => hmade seg (Or.inl hseg), fun seg hseg => hmade seg (Or.inr hseg), hconn⟩
  | sendEmpty => exact ⟨List.forall_mem_append.mpr ⟨hsender, List.forall_mem_singleton.mpr (hempty _)⟩, hkept, hconn⟩
  | sendSegments =>
    refine ⟨List.forall_mem_nil _, hkept, List.forall_mem_append.mpr ⟨hconn, List.forall_mem_map.mpr ?_⟩⟩
    exact fun seg hseg => hstamp _ seg (hsender seg hseg)
  | tick ms =>
    obtain ⟨timer, num, again, hagain, heq⟩ := p.sender.tick_eq ms
    refine ⟨?_, ?_, hconn⟩ <;> rw [Peer.onSender_sender, heq]
    · exact List.forall_mem_append.mpr ⟨hsender, fun seg hseg => hkept seg (hagain.subset hseg)⟩
    · exact hkept
  | sendRst =>
    exact ⟨hsender, hkept, List.forall_mem_append.mpr ⟨hconn, List.forall_mem_singleton.mpr (hstamp _ _ (hrst _))⟩⟩
  | send hout => exact ⟨hsender, hkept, (List.forall_mem_cons.mp (hout ▸ hconn)).2⟩
  | _ => exact ⟨hsender, hkept, hconn⟩

/-! ### The end of the outbound stream -/

namespace TCPConnection

variable (c : TCPConnection)

theorem fillWindow_inputEnded : c.fillWindow.sender.stream.inputEnded = c.sender.stream.inputEnded :=
  c.sender.fillWindow_fills.frame.2.2.2.1

theorem segmentReceived_inputEnded (seg : TCPSegment) :
    (c.segmentReceived seg).sender.stream.inputEnded = c.sender.stream.inputEnded := by
  have hdeliver : ∀ c : TCPConnection, (c.deliver seg).sender.stream = c.sender.stream := by
    intro c
    rcases c.deliver_sender seg with ⟨-, -, heq⟩ | ⟨-, heq⟩
    · rw [heq, TCPSender.ackReceived_stream]
    · rw [heq]
  simp only [segmentReceived]
  split_ifs
  · rfl
  · obtain ⟨l, heq⟩ := answer_eq { c with waitSegmentTime := 0 } seg
    rw [tryCleanClose_sender, clearLinger_sender, heq]
    exact (fillWindow_inputEnded _).trans (congrArg ByteStream.inputEnded (hdeliver _))
  · rw [tryCleanClose_sender, hdeliver]

theorem write_inputEnded (data : Bytes) : (c.write data).2.sender.stream.inputEnded = c.sender.stream.inputEnded := by
  simp only [write, tryCleanClose_sender]
  exact fillWindow_inputEnded _

theorem endInputStream_inputEnded : c.endInputStream.sender.stream.inputEnded = true := fillWindow_inputEnded _

theorem tick_inputEnded (ms : ℕ) : (c.tick ms).sender.stream.inputEnded = c.sender.stream.inputEnded := by
  obtain ⟨timer, num, again, -, heq⟩ := c.sender.tick_eq ms
  have htick : (c.sender.tick ms).stream.inputEnded = c.sender.stream.inputEnded := by rw [heq]
  simp only [tick]
  split_ifs
  · exact htick
  · rw [tryCleanClose_sender]
    exact htick

end TCPConnection

/-! ### The two sides -/

/-- **Invariants of the two sides while the streams are short.** Each step may use that both streams
are in order, before it and after it. -/
theorem World.short_invariant {I : Peer → Peer → Prop} (hsymm : ∀ {p q : Peer}, I p q → I q p)
    (hmicro : ∀ {p q p' : Peer}, Source p.accepted p.sender → p.Short → Half p q → Half q p → Half q p' →
      I p q → Micro q.wire p p' → I p' q) (hstart : ∀ c c' r r', I (Peer.start c r) (Peer.start c' r'))
    {cfg : Side → TCPConfig} {random : Side → WrappingInt32} {es : List Event}
    (h : World.Allowed cfg random es) (hshort : ∀ s, (World.after cfg random es s).Short) (s : Side) :
    I (World.after cfg random es s) (World.after cfg random es s.other) := by
  have hholds := World.invariant (I := fun p q => Both p q ∧ (p.Short → q.Short → I p q))
    (fun h => ⟨h.1.symm, fun hp hq => hsymm (h.2 hq hp)⟩)
    (fun hp hq h hm => ⟨h.1.micro hp hq hm, fun hps hqs => ?_⟩) h
    (World.holds_start cfg random fun c c' r r' =>
      ⟨fun _ _ => ⟨half_start _ _ _ _, half_start _ _ _ _⟩, fun _ _ => hstart c c' r r'⟩)
  · exact (hholds s).2.2 (hshort s) (hshort s.other)
  · have hps' := lt_of_le_of_lt (hm.progress hp).accepted.length_le hps
    obtain ⟨hpq, hqp⟩ := h.1 hps' hqs
    exact hmicro hp hps' hpq hqp ((h.1.micro hp hq hm) hps hqs).2 (h.2 hps' hqs) hm

/-- **The moves of one side are a run of the two.** -/
theorem World.moves {w : World} {s : Side} (h : Moves (· ∈ (w s.other).wire) (w s) p) :
    ∃ es, Along World.step (fun w e => e.Legal w) w es ∧ runs World.step w es = Function.update w s p := by
  induction h with
  | refl => exact ⟨[], trivial, (Function.update_eq_self s w).symm⟩
  | @tail p p' _ hmove ih =>
    obtain ⟨es, hlegal, hruns⟩ := ih
    -- the last move as an event
    obtain ⟨e, he, hstep⟩ : ∃ e : Event, e.Legal (Function.update w s p) ∧
        World.step (Function.update w s p) e = Function.update w s p' := by
      cases hmove with
      | run op hop =>
        refine ⟨.app s op, ?_, by simp [World.step]⟩
        cases op with
        | write data =>
          show (Function.update w s p s).sender.stream.inputEnded = false
          rw [Function.update_self]
          exact hop data rfl
        | _ => trivial
      | send => exact ⟨.send s, trivial, by simp [World.step]⟩
      | receive hseg =>
        obtain ⟨i, hi⟩ := List.mem_iff_getElem?.mp hseg
        refine ⟨.deliver s i, trivial, ?_⟩
        simp only [World.step, Function.update_of_ne s.other_ne, hi, Function.update_self, Function.update_idem]
    refine ⟨es ++ [e], (along_append _ _ _).mpr ⟨hlegal, ?_⟩, ?_⟩
    · rw [hruns]
      exact ⟨he, trivial⟩
    · rw [runs_append, hruns]
      exact hstep

/-- What has been sent has been sent. -/
theorem Move.wire_subset (h : Move N p p') : p.wire ⊆ p'.wire := by
  cases h with
  | run op _ => cases op <;> exact List.Subset.refl _
  | send =>
    unfold Peer.send
    split
    · exact List.Subset.refl _
    · exact List.subset_append_left _ _
  | receive _ => exact List.Subset.refl _

theorem Moves.wire_subset (h : Moves N p p') : p.wire ⊆ p'.wire := by
  induction h with
  | refl => exact List.Subset.refl _
  | tail _ hmove ih => exact List.Subset.trans ih hmove.wire_subset

/-! ### The end of a stream -/

/-- A stream that has ended is not written to, and stays ended. -/
theorem Micro.accepted_of_ended {inbox : List TCPSegment} (hm : Micro inbox p p')
    (h : p.sender.stream.inputEnded = true) : p'.sender.stream.inputEnded = true ∧ p'.accepted = p.accepted := by
  cases hm with
  | @deliver seg =>
    refine ⟨?_, rfl⟩
    rcases p.deliver_sender seg with ⟨-, -, heq⟩ | ⟨-, heq⟩ <;> rw [heq]
    · rw [TCPSender.ackReceived_stream]
      exact h
    · exact h
  | fillWindow => exact ⟨p.sender.fillWindow_fills.frame.2.2.2.1.trans h, rfl⟩
  | tick ms =>
    obtain ⟨timer, num, again, -, heq⟩ := p.sender.tick_eq ms
    rw [Peer.onSender_sender, heq]
    exact ⟨h, rfl⟩
  | write data hopen =>
    rw [h] at hopen
    cases hopen
  | endInput => exact ⟨rfl, rfl⟩
  | _ => exact ⟨h, rfl⟩

/-- What has been taken has been taken. -/
theorem Micro.taken_prefix {inbox : List TCPSegment} (hm : Micro inbox p p') : p.taken <+: p'.taken := by
  cases hm with
  | read len => exact List.prefix_append _ _
  | _ => exact List.prefix_rfl

/-- **A stream of which all has been taken is not added to**, however the run goes on. -/
theorem World.eof_stays {cfg : Side → TCPConfig} {random : Side → WrappingInt32} {es es' : List Event}
    (h : World.Allowed cfg random (es ++ es')) (hshort : ∀ s, (World.after cfg random (es ++ es') s).Short) {s : Side}
    (heof : (World.after cfg random es s).conn.inboundStream.eof = true) :
    (World.after cfg random (es ++ es') s).conn.inboundStream.eof = true := by
  obtain ⟨hended, hque⟩ := (ByteStream.eof_iff _).mp heof
  obtain ⟨hfirst, hsecond⟩ := (along_append _ _ _).mp h
  have hboth := World.both hfirst
  have hboth' := World.both h
  have hprog := World.progress hsecond fun t => (hboth t).1
  rw [← runs_append] at hprog
  have hshort₁ : ∀ t, (World.after cfg random es t).Short := fun t =>
    lt_of_le_of_lt (hprog t).accepted.length_le (hshort t)
  -- then and now, all that the other side has accepted is here
  obtain ⟨hclosed, hall⟩ :=
    (((hboth s).2 (hshort₁ s) (hshort₁ s.other)).2.assembled (hboth s.other).1).2 hended
  have hended' := (hprog s).ended hended
  obtain ⟨-, hall'⟩ := (((hboth' s).2 (hshort s) (hshort s.other)).2.assembled (hboth' s.other).1).2 hended'
  -- and the other side has accepted nothing more
  have hsame := (World.side_invariant (s := s.other) (J := fun q => q.sender.stream.inputEnded = true ∧
    q.accepted = (World.after cfg random es s.other).accepted) (fun _ hj hm =>
      ⟨(hm.accepted_of_ended hj.1).1, (hm.accepted_of_ended hj.1).2.trans hj.2⟩)
      hsecond (fun t => (hboth t).1) ⟨hclosed, rfl⟩).2
  have htaken := World.side_invariant (s := s) (J := fun q => (World.after cfg random es s).taken <+: q.taken)
    (fun _ hj hm => hj.trans hm.taken_prefix) hsecond (fun t => (hboth t).1) List.prefix_rfl
  rw [← runs_append] at hsame htaken
  replace htaken : _ <+: (World.after cfg random (es ++ es') s).taken := htaken
  refine (ByteStream.eof_iff _).mpr ⟨hended', ?_⟩
  rw [hsame, ← hall, Peer.assembled, Peer.assembled, hque, List.append_nil] at hall'
  have hlength := congrArg List.length hall'
  have hle := htaken.length_le
  rw [List.length_append] at hlength
  exact List.eq_nil_of_length_eq_zero (by omega)

end Sponge
