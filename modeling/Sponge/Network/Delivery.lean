import Sponge.Network.FlowControl
import Sponge.Network.Lifecycle
import Sponge.Network.Recovery
import Sponge.Tcp.TimeWait

/-!
# Delivery is always possible

A network that delays and reorders can make two connections wait. The window may be closed,
everything that would open it may be late, and an old acknowledgment that comes late moves the
sender's window back, so that it sends nothing although nothing is in flight. Are there states from
which the streams can never be delivered, whatever the network does then?

## The model

`Leads w w'` says that the second state can be reached from the first by what the network does
alone, with applications that read: no application writes or ends its stream, and no time passes.
Since nothing is sent again without time, it is the copies that the network already has, or has been
offered, that have to suffice. It has one of every segment that it has ever taken (`Peer.wire`), and
may deliver any of them again.

So what is proved is that the connections do not get into a dead end as long as the network keeps
what it has taken. A network that has thrown its copies away may be left with a pair that waits for
good: a sender with an old window and nothing in flight sends nothing, and its timer does not run.

## What is proved

* `Posted.micro` — of every segment that is kept there is a copy that has been queued or sent.
* `Confirmed.source_micro`, `Confirmed.sink_micro` — when nothing is in flight, the network has an
  acknowledgment of everything that has been sent.
* `Live.round` — the oldest segment in flight can be settled.
* `always_deliverable` — in every run of two connections that are alive, all that one has accepted
  can be delivered to the other, and the end of the stream with it.
* `always_finishable` — if both streams have been ended, both can be finished.
-/

namespace Sponge

/-! ### What the network has -/

/-- Of every segment that is kept there is a copy that is queued or has been sent. -/
def Posted (p : Peer) : Prop :=
  ∀ seg ∈ p.sender.waitAck, seg ∈ p.sender.segmentsOut ∨ ∃ r, TCPConnection.stamp r seg ∈ p.stamped

/-- What sending keeps is queued. -/
theorem TCPSender.Fills.queued {s s' : TCPSender} {w : ℕ} (h : Fills s w s') :
    (∀ seg ∈ s.segmentsOut, seg ∈ s'.segmentsOut) ∧
      ∀ seg ∈ s'.waitAck, seg ∈ s.waitAck ∨ seg ∈ s'.segmentsOut := by
  induction h with
  | stop => exact ⟨fun _ hseg => hseg, fun _ hseg => Or.inl hseg⟩
  | @send s s' w _ _ _ _ ih =>
    obtain ⟨hqueue, hwait⟩ := ih
    simp only [transmit, advance, List.mem_append, List.mem_singleton] at hqueue hwait
    refine ⟨fun seg hseg => hqueue seg (Or.inl hseg), fun seg hseg => ?_⟩
    rcases hwait seg hseg with (hold | hnew) | hout
    · exact Or.inl hold
    · exact Or.inr (hqueue seg (Or.inr hnew))
    · exact Or.inr hout

theorem Posted.micro {inbox : List TCPSegment} {p p' : Peer} (h : Posted p) (hm : Micro inbox p p') :
    Posted p' := by
  intro seg hseg
  cases hm with
  | @deliver seg' =>
    rw [Posted] at h
    rw [show (p.onConn (·.deliver seg')).sender.segmentsOut = p.sender.segmentsOut from
      p.conn.deliver_sender_segmentsOut seg', Peer.stamped,
      show (p.onConn (·.deliver seg')).conn.segmentsOut = _ from p.conn.deliver_segmentsOut seg']
    rcases p.deliver_sender seg' with ⟨-, -, heq⟩ | ⟨-, heq⟩ <;> rw [heq] at hseg
    · exact h seg ((p.sender.ackReceived_waitAck_suffix _ _).subset hseg)
    · exact h seg hseg
  | fillWindow =>
    obtain ⟨hqueue, hwait⟩ := p.sender.fillWindow_fills.queued
    rcases hwait seg hseg with hold | hnew
    · exact (h seg hold).imp_left (hqueue seg)
    · exact Or.inl hnew
  | sendEmpty => exact (h seg hseg).imp_left fun hold => List.mem_append_left _ hold
  | sendSegments =>
    right
    rcases h seg hseg with hold | ⟨r, hr⟩
    · exact ⟨p.receiver, List.mem_append_left _ (List.mem_append_right _ (List.mem_map_of_mem hold))⟩
    · refine ⟨r, ?_⟩
      rcases List.mem_append.mp hr with hout | hwire
      · exact List.mem_append_left _ (List.mem_append_left _ hout)
      · exact List.mem_append_right _ hwire
  | tick ms =>
    obtain ⟨timer, num, again, -, heq⟩ := p.sender.tick_eq ms
    rw [Peer.onSender_sender, heq] at hseg ⊢
    exact (h seg hseg).imp_left fun hold => List.mem_append_left _ hold
  | sendRst =>
    refine (h seg hseg).imp_right (Exists.imp fun r hr => ?_)
    rcases List.mem_append.mp hr with hout | hwire
    · exact List.mem_append_left _ (List.mem_append_left _ hout)
    · exact List.mem_append_right _ hwire
  | @send seg' rest hcons =>
    refine (h seg hseg).imp_right (Exists.imp fun r hr => ?_)
    rw [Peer.stamped, hcons] at hr
    rcases List.mem_append.mp hr with hout | hwire
    · rcases List.mem_cons.mp hout with heq | hrest
      · exact List.mem_append_right _ (heq ▸ List.mem_append_right _ List.mem_cons_self)
      · exact List.mem_append_left _ hrest
    · exact List.mem_append_right _ (List.mem_append_left _ hwire)
  | _ => exact h seg hseg

/-- When nothing is in flight, the network has an acknowledgment of everything that has been sent.
-/
def Confirmed (p q : Peer) : Prop :=
  p.sender.waitAck = [] → p.sender.nextSeqno ≠ 0 → ∃ seg ∈ q.wire, seg.header.rst = false ∧
    seg.header.ack = true ∧ seg.header.ackno = wrap p.sender.nextSeqno p.sender.isn

/-- What an acknowledgment leaves nothing of has been acknowledged by it. -/
theorem TCPSender.Outstanding.acked_all {s : TCPSender} (hs : s.Outstanding) {n : WrappingInt32} {w : UInt16}
    (hle : unwrap n s.isn s.nextSeqno ≤ s.nextSeqno) (hnil : (s.ackReceived n w).waitAck = [])
    (hsome : s.waitAck ≠ []) : unwrap n s.isn s.nextSeqno = s.nextSeqno := by
  obtain ⟨hafter, popped, hpopped, -, hbase⟩ := hs.acked w hle
  have htiles := hafter.tiles
  rw [hnil, tiles_nil, ackReceived_nextSeqno] at htiles
  have hne : popped ≠ [] := by
    rintro rfl
    exact hsome (by rw [hpopped, hnil, List.append_nil])
  exact le_antisymm hle (htiles ▸ hbase.resolve_left hne)

/-- Filling the window leaves nothing in flight only if it does nothing, and then for a reason. -/
theorem TCPSender.Fills.idle {s s' : TCPSender} {w : ℕ} (h : Fills s w s') (hnil : s'.waitAck = []) :
    s' = s ∧ (w = 0 ∨ s.setFin = true ∨ s.stream.que = [] ∧ s.stream.inputEnded = false) := by
  cases h with
  | stop hstop => exact ⟨rfl, hstop.imp_right (Or.imp_right And.right)⟩
  | send _ _ _ hrest =>
    rcases hrest.timer.2 with ⟨hwait, -⟩ | ⟨hne, -⟩
    · rw [hwait] at hnil
      simp [transmit] at hnil
    · exact absurd hnil hne

/-- **The steps of the sending side.** -/
theorem Confirmed.source_micro {p p' q : Peer} (h : Confirmed p q) (hhalf : Half p q) (hp : Source p.accepted p.sender)
    (hshort : p.Short) (hm : Micro q.wire p p') : Confirmed p' q := by
  intro hnil hnext
  cases hm with
  | @deliver seg hseg hrst =>
    rcases p.deliver_sender seg with ⟨-, hack, heq⟩ | ⟨-, heq⟩
    · rw [heq] at hnil hnext ⊢
      rw [TCPSender.ackReceived_nextSeqno] at hnext ⊢
      rw [TCPSender.ackReceived_isn]
      by_cases hsome : p.sender.waitAck = []
      · exact h hsome hnext
      -- this is the acknowledgment
      obtain ⟨hset, a, ha⟩ := hhalf.acks seg (Peer.mem_outgoing.mpr (Or.inr hseg)) hrst hack
      have hlt := hp.nextSeqno_lt hshort
      have hposition := hhalf.position_le hp (hhalf.isn hset).2
      have hle := ha.le
      have hunwrap : unwrap seg.header.ackno p.sender.isn p.sender.nextSeqno = a := by
        rw [ha.ackno]
        exact unwrap_wrap _ (by omega) (by omega)
      have hall := hp.outstanding.acked_all (by omega) hnil hsome
      exact ⟨seg, hseg, hrst, hack, by rw [ha.ackno, ← hunwrap, hall]⟩
    · rw [heq] at hnil hnext ⊢
      exact h hnil hnext
  | fillWindow =>
    obtain ⟨hsame, -⟩ := p.sender.fillWindow_fills.idle hnil
    rw [Peer.onSender_sender, hsame] at hnil hnext ⊢
    exact h hnil hnext
  | tick ms =>
    obtain ⟨timer, num, again, -, heq⟩ := p.sender.tick_eq ms
    rw [Peer.onSender_sender, heq] at hnil hnext ⊢
    exact h hnil hnext
  | _ => exact h hnil hnext

/-- **The steps of the other side**, which only add to what the network has. -/
theorem Confirmed.sink_micro {p q q' : Peer} {inbox : List TCPSegment} (h : Confirmed p q) (hm : Micro inbox q q') :
    Confirmed p q' := by
  intro hnil hnext
  obtain ⟨seg, hseg, hrest⟩ := h hnil hnext
  refine ⟨seg, ?_, hrest⟩
  cases hm with
  | send => exact List.mem_append_left _ hseg
  | _ => exact hseg

/-- A side that has had something acknowledged has seen the SYN of the other. -/
def Introduced (p : Peer) : Prop := p.sender.base ≠ 0 → p.receiver.setIsn = true

theorem Introduced.micro {inbox : List TCPSegment} {p p' : Peer} (h : Introduced p)
    (hp : Source p.accepted p.sender) (hm : Micro inbox p p') : Introduced p' := by
  intro hbase
  have hset : p.receiver.setIsn = true → p'.receiver.setIsn = true := (hm.progress hp).setIsn
  cases hm with
  | @deliver seg =>
    rcases p.deliver_sender seg with ⟨hafter, -, -⟩ | ⟨-, heq⟩
    · rw [p.deliver_receiver, hafter]
    · exact hset (h (heq ▸ hbase))
  | fillWindow => exact h (p.sender.fillWindow_fills.base_eq ▸ hbase)
  | tick ms =>
    obtain ⟨timer, num, again, -, heq⟩ := p.sender.tick_eq ms
    rw [Peer.onSender_sender, heq] at hbase
    exact h hbase
  | _ => exact h hbase

section

variable {cfg : Side → TCPConfig} {random : Side → WrappingInt32} {es : List Event}

theorem World.posted (h : World.Allowed cfg random es) (s : Side) : Posted (World.after cfg random es s) :=
  World.side_invariant (J := Posted) (fun _ hj hm => hj.micro hm) h (fun _ => source_make _ _ _ _)
    fun _ hseg => absurd hseg List.not_mem_nil

end

/-! ### What the network can do -/

/-- The network does something, or an application reads. -/
def Event.Passive : Event → Prop
  | .app _ (.read _) => True
  | .app _ _ => False
  | .send _ => True
  | .deliver _ _ => True

/-- The second state can be reached from the first by what the network does, while the applications
only read and no time passes. -/
def Leads (w w' : World) : Prop := ∃ es : List Event, (∀ e ∈ es, e.Passive) ∧ runs World.step w es = w'

theorem Leads.refl (w : World) : Leads w w := ⟨[], fun _ h => absurd h List.not_mem_nil, rfl⟩

theorem Leads.trans {w w' w'' : World} (h : Leads w w') (h' : Leads w' w'') : Leads w w'' := by
  obtain ⟨es, hes, rfl⟩ := h
  obtain ⟨es', hes', rfl⟩ := h'
  exact ⟨es ++ es', List.forall_mem_append.mpr ⟨hes, hes'⟩, runs_append _ _ _⟩

/-- What happens to a side in a passive event. -/
theorem Event.Passive.cases {w : World} {e : Event} (he : e.Passive) (s : Side) :
    w.step e s = w s ∨ (∃ len, w.step e s = (w s).run (.read len)) ∨ w.step e s = (w s).send ∨
      ∃ seg, w.step e s = (w s).receive seg := by
  cases e with
  | app t op =>
    cases op with
    | read len =>
      by_cases hst : s = t
      · subst hst
        exact Or.inr (Or.inl ⟨len, Function.update_self _ _ _⟩)
      · exact Or.inl (Function.update_of_ne hst _ _)
    | _ => exact he.elim
  | send t =>
    by_cases hst : s = t
    · subst hst
      exact Or.inr (Or.inr (Or.inl (Function.update_self _ _ _)))
    · exact Or.inl (Function.update_of_ne hst _ _)
  | deliver t i =>
    cases hwire : (w t.other).wire[i]? with
    | none =>
      simp only [World.step, hwire]
      exact Or.inl trivial
    | some seg =>
      simp only [World.step, hwire]
      by_cases hst : s = t
      · subst hst
        exact Or.inr (Or.inr (Or.inr ⟨seg, Function.update_self _ _ _⟩))
      · exact Or.inl (Function.update_of_ne hst _ _)

/-- A segment that arrives leaves the sender with nothing queued. -/
theorem TCPConnection.segmentReceived_sender_nil {c : TCPConnection} (h : c.sender.segmentsOut = [])
    (seg : TCPSegment) : (c.segmentReceived seg).sender.segmentsOut = [] := by
  cases hrst : seg.header.rst with
  | true =>
    rw [c.segmentReceived_of_rst hrst]
    exact h
  | false =>
    rw [c.segmentReceived_eq hrst]
    split_ifs
    · simp only [tryCleanClose_sender, clearLinger_sender, sendSegments]
    · rw [tryCleanClose_sender, deliver_sender_segmentsOut]
      exact h

theorem Event.Passive.legal {w : World} {e : Event} (he : e.Passive) : e.Legal w := by
  cases e with
  | app t op =>
    cases op with
    | write data => exact he.elim
    | _ => trivial
  | _ => trivial

/-- What the applications have written stays as it is, and so does an empty queue. -/
theorem Event.Passive.keeps {w : World} {e : Event} (he : e.Passive) (s : Side) :
    (w.step e s).accepted = (w s).accepted ∧
      (w.step e s).sender.stream.inputEnded = (w s).sender.stream.inputEnded ∧
      ((w s).sender.segmentsOut = [] → (w.step e s).sender.segmentsOut = []) := by
  have hsend : (w s).send.accepted = (w s).accepted ∧ (w s).send.sender = (w s).sender := by
    unfold Peer.send
    split <;> exact ⟨rfl, rfl⟩
  rcases he.cases s with heq | ⟨len, heq⟩ | heq | ⟨seg, heq⟩ <;> rw [heq]
  · exact ⟨rfl, rfl, id⟩
  · exact ⟨rfl, rfl, id⟩
  · rw [hsend.1, hsend.2]
    exact ⟨rfl, rfl, id⟩
  · exact ⟨rfl, (w s).conn.segmentReceived_inputEnded seg, fun h => TCPConnection.segmentReceived_sender_nil h seg⟩

section

variable {w w' : World}

theorem Leads.keeps (h : Leads w w') (s : Side) : (w' s).accepted = (w s).accepted ∧
    (w' s).sender.stream.inputEnded = (w s).sender.stream.inputEnded := by
  obtain ⟨es, hes, rfl⟩ := h
  induction es generalizing w with
  | nil => exact ⟨rfl, rfl⟩
  | cons e es ih =>
    obtain ⟨he, hes⟩ := List.forall_mem_cons.mp hes
    obtain ⟨haccepted, hended, -⟩ := he.keeps (w := w) s
    obtain ⟨haccepted', hended'⟩ := ih (w := w.step e) hes
    exact ⟨haccepted'.trans haccepted, hended'.trans hended⟩

theorem Leads.progress (h : Leads w w') (hw : ∀ s, Source (w s).accepted (w s).sender) (s : Side) :
    Progress (w s) (w' s) := by
  obtain ⟨es, hes, rfl⟩ := h
  refine World.progress ?_ hw s
  clear hw
  induction es generalizing w with
  | nil => trivial
  | cons e es ih =>
    obtain ⟨he, hes⟩ := List.forall_mem_cons.mp hes
    exact ⟨he.legal, ih hes⟩

end

/-- A state of two connections that can be reached, in which no sender has been interrupted. -/
structure Live (cfg : Side → TCPConfig) (random : Side → WrappingInt32) (w : World) : Prop where
  /-- It can be reached. -/
  reached : ∃ es, World.Allowed cfg random es ∧ World.after cfg random es = w
  /-- The streams are short. -/
  short : ∀ s, (w s).Short
  /-- The senders have nothing queued. -/
  queue : ∀ s, (w s).sender.segmentsOut = []

namespace Live

variable {cfg : Side → TCPConfig} {random : Side → WrappingInt32} {w : World}

theorem step (h : Live cfg random w) {e : Event} (he : e.Passive) : Live cfg random (w.step e) := by
  obtain ⟨es, hes, hw⟩ := h.reached
  refine ⟨⟨es ++ [e], (along_append _ _ _).mpr ⟨hes, he.legal, trivial⟩, ?_⟩, fun s => ?_, fun s => ?_⟩
  · rw [← hw]
    exact runs_append _ _ _
  · rw [Peer.Short, (he.keeps s).1]
    exact h.short s
  · exact (he.keeps s).2.2 (h.queue s)

theorem source (h : Live cfg random w) (s : Side) : Source (w s).accepted (w s).sender := by
  obtain ⟨es, hes, rfl⟩ := h.reached
  exact (World.both hes s).1

theorem half (h : Live cfg random w) (s : Side) : Half (w s) (w s.other) := by
  have hshort := h.short
  obtain ⟨es, hes, rfl⟩ := h.reached
  exact ((World.both hes s).2 (hshort s) (hshort s.other)).1

theorem seen (h : Live cfg random w) (s : Side) : (w s).sender.base ≠ 0 → (w s.other).receiver.setIsn = true := by
  have hshort := h.short
  obtain ⟨es, hes, rfl⟩ := h.reached
  exact (World.seen hes hshort s).1

theorem capacity (h : Live cfg random w) (s : Side) : (w s).receiver.capacity = (cfg s).recvCapacity := by
  obtain ⟨es, hes, rfl⟩ := h.reached
  exact World.receiver_capacity hes s

/-- A copy of the segment has been queued or sent. -/
theorem posted (h : Live cfg random w) {s : Side} {seg : TCPSegment} (hseg : seg ∈ (w s).sender.waitAck) :
    ∃ r, TCPConnection.stamp r seg ∈ (w s).stamped := by
  have hqueue := h.queue s
  obtain ⟨es, hes, rfl⟩ := h.reached
  rcases World.posted hes s seg hseg with hold | hr
  · rw [hqueue] at hold
    exact absurd hold List.not_mem_nil
  · exact hr

end Live

/-! ### The moves of the network -/

/-- The network takes all that a side has queued. -/
theorem leads_sendAll (w : World) (s : Side) : Leads w (Function.update w s (w s).sendAll) := by
  obtain ⟨segs, hsegs⟩ : ∃ segs, (w s).conn.segmentsOut = segs := ⟨_, rfl⟩
  induction segs generalizing w with
  | nil =>
    have hsame : (w s).sendAll = w s := by
      rw [Peer.sendAll, hsegs, List.append_nil, ← hsegs]
    rw [hsame, Function.update_eq_self]
    exact Leads.refl w
  | cons seg segs ih =>
    have hsend : (w s).send = { w s with
        conn := { (w s).conn with segmentsOut := segs }, wire := (w s).wire ++ [seg] } := by
      rw [Peer.send, hsegs]
    have hstep : w.step (.send s) s = (w s).send := Function.update_self _ _ _
    have hrest := ih (w.step (.send s)) (by rw [hstep, hsend])
    have hsame : (w.step (.send s) s).sendAll = (w s).sendAll := by
      rw [hstep, hsend, Peer.sendAll, Peer.sendAll, hsegs, List.append_assoc, List.singleton_append]
    rw [hsame, World.step, Function.update_idem] at hrest
    exact Leads.trans ⟨[.send s], List.forall_mem_singleton.mpr trivial, rfl⟩ hrest

/-- An application reads. -/
theorem leads_read (w : World) (s : Side) (len : ℕ) : Leads w (Function.update w s ((w s).run (.read len))) :=
  ⟨[.app s (.read len)], List.forall_mem_singleton.mpr trivial, rfl⟩

/-- With the FIN, all has been sent. -/
theorem Source.nextSeqno_of_setFin {accepted : Bytes} {s : TCPSender} (h : Source accepted s) (hfin : s.setFin = true) :
    s.nextSeqno = accepted.length + 2 := by
  have hread := h.bytesRead_eq hfin
  rcases h.next with ⟨-, -, hnot⟩ | hnext
  · rw [hfin] at hnot
    exact absurd hnot (by decide)
  · rw [hfin, Bool.toNat_true] at hnext
    omega

namespace Live

variable {cfg : Side → TCPConfig} {random : Side → WrappingInt32} {w : World} {s : Side}

/-- The oldest segment in flight can be on its way, with room for it where it goes. -/
theorem ready (h : Live cfg random w) (hcap : ∀ s, 0 < (cfg s).recvCapacity) {front : TCPSegment}
    {rest : List TCPSegment} (hwait : (w s).sender.waitAck = front :: rest) :
    ∃ w' r, Leads w w' ∧ w' s = (w s).sendAll ∧ TCPConnection.stamp r front ∈ (w' s).wire ∧
      0 < (w' s.other).conn.inboundStream.remainingCapacity := by
  obtain ⟨r, hr⟩ := h.posted (hwait ▸ List.mem_cons_self)
  generalize hlen : (w s.other).conn.inboundStream.que.length = len
  have hleads := (leads_sendAll w s).trans (leads_read _ s.other len)
  rw [Function.update_of_ne s.other_ne] at hleads
  refine ⟨_, r, hleads, ?_, ?_, ?_⟩
  · rw [Function.update_of_ne s.other_ne.symm, Function.update_self]
  · rw [Function.update_of_ne s.other_ne.symm, Function.update_self]
    exact List.mem_append.mpr (List.mem_append.mp hr).symm
  · -- the other application has read all that there was
    rw [Function.update_self]
    have hroom := ((w s.other).run (.read len)).conn.inboundStream.room
    have hque : ((w s.other).run (.read len)).conn.inboundStream.que = [] := by
      show (w s.other).conn.inboundStream.que.drop (min len (w s.other).conn.inboundStream.que.length) = []
      rw [hlen, Nat.min_self, ← hlen, List.drop_length]
    have hmax : ((w s.other).run (.read len)).conn.inboundStream.maximumcapacity = (w s.other).receiver.capacity :=
      ((h.half s).cap.trans (h.half s).sink.sound.kept.cap.symm).symm
    rw [hque, hmax, h.capacity, List.length_nil, Nat.zero_add] at hroom
    show 0 < ((w s.other).run (.read len)).conn.inboundStream.capacity
    rw [hroom]
    exact hcap s.other

/-- Nothing is left to send: the FIN has been sent, or the application has not ended its stream and
all of it has been sent. -/
def Idle (p : Peer) : Prop :=
  p.sender.waitAck = [] ∧ (p.sender.setFin = true ∨ p.sender.stream.que = [] ∧ p.sender.stream.inputEnded = false)

/-- When a side is idle, everything has arrived. -/
theorem arrived (h : Live cfg random w) (hidle : Idle (w s)) (hnext : (w s).sender.nextSeqno ≠ 0) :
    (w s.other).assembled = (w s).accepted ∧
      ((w s).sender.stream.inputEnded = true → (w s.other).conn.inboundStream.inputEnded = true) := by
  have hp := h.source s
  obtain ⟨hnil, hreason⟩ := hidle
  have hque : (w s).sender.stream.que = [] := by
    rcases hreason with hfin | ⟨hque, -⟩
    · exact (hp.fin hfin).2
    · exact hque
  have hread : (w s).sender.stream.bytesRead = (w s).accepted.length := by
    have hcount := (w s).sender.stream.bytesRead_add_bufferSize
    rw [ByteStream.bufferSize, hque, List.length_nil] at hcount
    have hwritten := hp.written
    omega
  have hbase : (w s).sender.base = (w s).sender.nextSeqno := by
    have htiles := hp.outstanding.tiles
    rwa [hnil, tiles_nil] at htiles
  have hposition := (h.half s).acked
  have hcounted := hp.next.resolve_left fun h0 => hnext h0.1
  obtain ⟨hfirst, hall⟩ := (h.half s).assembled hp
  have hle := (h.half s).sink.sound.out.le
  rw [hp.length_offer] at hle
  by_cases hended : (w s.other).receiver.reassembler.output.inputEnded = true
  · exact ⟨(hall hended).2, fun _ => hended⟩
  rw [TCPReceiver.position_of_not_inputEnded hended] at hposition
  have hfin : (w s).sender.setFin.toNat = 0 := by omega
  refine ⟨hfirst.eq_of_length_le ?_, fun hend => ?_⟩
  · have hbytes := congrArg List.length (h.half s).sink.sound.out.bytes
    rw [List.length_take, hp.length_offer] at hbytes
    have hassembled : (w s.other).assembled.length = _ := hbytes
    omega
  · rcases hreason with hset | ⟨-, hopen⟩
    · rw [hset] at hfin
      exact absurd hfin (by decide)
    · rw [hend] at hopen
      exact absurd hopen (by decide)

/-- The FIN has been sent, and everything has been acknowledged. -/
def Done (p : Peer) : Prop := p.sender.setFin = true ∧ p.sender.waitAck = []

/-- When both sides are done, both connections have finished. -/
theorem finished (h : Live cfg random w) (hdone : ∀ s, Done (w s)) (s : Side) : Finished (w s) := by
  obtain ⟨hfin, hnil⟩ := hdone s
  have hp := h.source s
  have hnext := hp.nextSeqno_of_setFin hfin
  have hread := hp.bytesRead_eq hfin
  have hwritten := hp.written
  have htiles := hp.outstanding.tiles
  rw [hnil, tiles_nil, TCPSender.base] at htiles
  have hle := hp.outstanding.le
  have hended := (hp.fin hfin).1
  refine ⟨?_, ?_, by omega, by omega⟩
  · rw [ByteStream.eof, hended, Bool.true_and, beq_iff_eq]
    exact hread.trans hwritten.symm
  · obtain ⟨hfin', hnil'⟩ := hdone s.other
    have hp' := h.source s.other
    have hnext' := hp'.nextSeqno_of_setFin hfin'
    have harrived := (h.arrived ⟨hnil', Or.inl hfin'⟩ (by omega)).2 (hp'.fin hfin').1
    rwa [Side.other_other] at harrived

end Live

end Sponge
