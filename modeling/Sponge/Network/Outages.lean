import Sponge.Network.Lifecycle
import Sponge.Network.Recovery
import Sponge.Tcp.TimeWait

/-!
# Outages

A network may fail for a while. A connection that hears nothing sends its oldest segment again,
waits twice as long each time, and after `MAX_RETX_ATTEMPTS` attempts in a row it gives up: both
streams suffer an error, and a reset tells the peer. How long may an outage be?

## The model

`clock s es` is the time that has passed on a side in a run, over all its ticks. The two sides need
not tick together. An attempt counts only when the timer has run for its whole timeout, so the
attempts made in a row say how much time has passed at least: with an initial timeout `t` it is
`t + 2 t + 4 t + …`, and the attempt that is one too many comes after `(2 ^ 9 - 1) t`.

## What is proved

* `TCPSender.Patient` — the attempts that a sender has made fit into the time that has passed.
* `Healthy` — nothing has gone wrong with a connection; every call keeps this while there is time.
* `survives_outage` — until `2 ^ 9 - 1` times the initial timeout have passed on a side, there is no
  error and no reset, whatever the network loses, repeats, delays and reorders.
-/

namespace Sponge

/-- How long a connection tries, in milliseconds. -/
def patience (cfg : TCPConfig) : ℕ := (2 ^ (maxRetxAttempts + 1) - 1) * cfg.rtTimeout.toNat

/-! ### The attempts and the time -/

namespace TCPSender

/-- The attempts that the sender has made in a row, and the time since the last, fit into the time
that has passed. -/
def Patient (rtTimeout time : ℕ) (s : TCPSender) : Prop :=
  ∃ elapsed attempts window, s.Timed rtTimeout elapsed attempts window ∧ window < 2 ^ 16 ∧
    rtTimeout * 2 ^ attempts + elapsed ≤ rtTimeout + time

section

variable {rtTimeout time : ℕ} {s s' : TCPSender}

theorem patient_make (capacity : ℕ) (retxTimeout : UInt16) (fixedIsn : Option WrappingInt32)
    (random : WrappingInt32) : Patient retxTimeout.toNat 0 (make capacity retxTimeout fixedIsn random) :=
  ⟨0, 0, 1, timed_make capacity retxTimeout fixedIsn random, by decide, by omega⟩

theorem Patient.congr (h : Patient rtTimeout time s) (htimer : s'.timer = s.timer)
    (hwait : s'.waitAck = s.waitAck) (hnum : s'.consecutiveTransmitNum = s.consecutiveTransmitNum)
    (hwindow : s'.windowSz = s.windowSz) : Patient rtTimeout time s' := by
  obtain ⟨elapsed, attempts, window, htimed, hrest⟩ := h
  exact ⟨elapsed, attempts, window, htimed.congr htimer (congrArg List.isEmpty hwait) hnum hwindow, hrest⟩

theorem Patient.fillWindow (h : Patient rtTimeout time s) : Patient rtTimeout time s.fillWindow := by
  obtain ⟨elapsed, attempts, window, htimed, hwindow, hspent⟩ := h
  refine ⟨_, attempts, window, htimed.fills s.fillWindow_fills, hwindow, ?_⟩
  split_ifs <;> omega

/-- One attempt too many would have taken more time. -/
theorem attempts_le {elapsed attempts : ℕ} (hspent : rtTimeout * 2 ^ attempts + elapsed ≤ rtTimeout + time)
    (hlt : time < 511 * rtTimeout) : attempts ≤ maxRetxAttempts := by
  by_contra hmany
  have hpow : rtTimeout * 2 ^ 9 ≤ rtTimeout * 2 ^ attempts :=
    Nat.mul_le_mul_left _ (Nat.pow_le_pow_right (by decide) (Nat.lt_of_not_le hmany))
  omega

theorem Patient.consecutiveRetransmissions_le (h : Patient rtTimeout time s) (hlt : time < 511 * rtTimeout) :
    s.consecutiveRetransmissions ≤ maxRetxAttempts := by
  obtain ⟨elapsed, attempts, window, htimed, -, hspent⟩ := h
  exact htimed.num.le.trans (attempts_le hspent hlt)

/-- **Time passes**, and an attempt is counted only if it has passed. -/
theorem Patient.tick (h : Patient rtTimeout time s) {ms : ℕ} (hrt : rtTimeout < 2 ^ 16)
    (hlt : time + ms < 511 * rtTimeout) : Patient rtTimeout (time + ms) (s.tick ms) := by
  obtain ⟨elapsed, attempts, window, htimed, hwindow, hspent⟩ := h
  have hattempts := attempts_le hspent (by omega)
  refine ⟨_, _, window, (htimed.tick (by omega) hrt hattempts hwindow).1, hwindow, ?_⟩
  cases hexpires : s.expires (rtTimeout * 2 ^ attempts) elapsed ms with
  | false =>
    simp only [Bool.false_and, Bool.false_eq_true, if_false]
    omega
  | true =>
    simp only [expires, Bool.and_eq_true, decide_eq_true_eq] at hexpires
    obtain ⟨-, hreached⟩ := hexpires
    simp only [Bool.true_and, if_true]
    split_ifs
    · rw [pow_succ, ← Nat.mul_assoc]
      omega
    · omega

end

end TCPSender

/-! ### Calls -/

/-- Nothing has gone wrong: the outbound stream has no error, and no reset has been made. -/
structure Healthy (rtTimeout time : ℕ) (c : TCPConnection) : Prop where
  /-- The attempts fit into the time. -/
  patient : c.sender.Patient rtTimeout time
  /-- What is kept for retransmission is what is in flight. -/
  outstanding : c.sender.Outstanding
  /-- The sender queues no reset. -/
  made : ∀ seg ∈ c.sender.segmentsOut, seg.header.rst = false
  /-- The stream has no error. -/
  error : c.sender.stream.error = false
  /-- The connection queues no reset. -/
  queued : ∀ seg ∈ c.segmentsOut, seg.header.rst = false

namespace Healthy

variable {rtTimeout time : ℕ} {c c' : TCPConnection}

theorem start (cfg : TCPConfig) (random : WrappingInt32) :
    Healthy cfg.rtTimeout.toNat 0 (TCPConnection.make cfg random) :=
  ⟨TCPSender.patient_make _ _ _ _, TCPSender.outstanding_make _ _ _ _, fun _ h => absurd h List.not_mem_nil, rfl,
    fun _ h => absurd h List.not_mem_nil⟩

/-- A step that does not concern the sender. -/
theorem frame (h : Healthy rtTimeout time c) (hsender : c'.sender = c.sender)
    (hqueued : c'.segmentsOut ⊆ c.segmentsOut) : Healthy rtTimeout time c' :=
  ⟨hsender ▸ h.patient, hsender ▸ h.outstanding, hsender ▸ h.made, hsender ▸ h.error,
    fun seg hseg => h.queued seg (hqueued hseg)⟩

/-- A step that concerns only the sender's stream. -/
theorem onStream (h : Healthy rtTimeout time c) {stream : ByteStream} (herror : stream.error = c.sender.stream.error) :
    Healthy rtTimeout time { c with sender := { c.sender with stream } } :=
  ⟨h.patient.congr rfl rfl rfl rfl, ⟨h.outstanding.le, h.outstanding.tiles⟩, h.made, herror.trans h.error, h.queued⟩

/-- What is kept is not a reset. -/
theorem kept (h : Healthy rtTimeout time c) {seg : TCPSegment} (hseg : seg ∈ c.sender.waitAck) :
    seg.header.rst = false := by
  obtain ⟨x, -, -, hstart⟩ := h.outstanding.tiles.exists_of_mem hseg
  exact hstart.rst

theorem tryCleanClose (h : Healthy rtTimeout time c) : Healthy rtTimeout time c.tryCleanClose :=
  h.frame c.tryCleanClose_sender (c.tryCleanClose_segmentsOut ▸ List.Subset.refl _)

theorem clearLinger (h : Healthy rtTimeout time c) : Healthy rtTimeout time c.clearLinger :=
  h.frame c.clearLinger_sender (c.clearLinger_segmentsOut ▸ List.Subset.refl _)

theorem fillWindow (h : Healthy rtTimeout time c) : Healthy rtTimeout time c.fillWindow := by
  have hfills := c.sender.fillWindow_fills
  refine ⟨h.patient.fillWindow, h.outstanding.fills hfills, fun seg hseg => ?_,
    hfills.frame.2.2.2.2.2.trans h.error, h.queued⟩
  rcases hfills.made (Or.inl hseg) with (hold | hold) | ⟨s₁, w₁, rfl, -⟩
  · exact h.made seg hold
  · exact h.kept hold
  · rfl

theorem sendSegments (h : Healthy rtTimeout time c) : Healthy rtTimeout time c.sendSegments := by
  refine ⟨h.patient.congr rfl rfl rfl rfl, ⟨h.outstanding.le, h.outstanding.tiles⟩,
    fun _ hseg => absurd hseg List.not_mem_nil, h.error, List.forall_mem_append.mpr ⟨h.queued, ?_⟩⟩
  refine List.forall_mem_map.mpr fun seg hseg => ?_
  rw [TCPConnection.stamp_rst]
  exact h.made seg hseg

theorem reply (h : Healthy rtTimeout time c) (seg : TCPSegment) : Healthy rtTimeout time (c.reply seg) := by
  unfold TCPConnection.reply
  split_ifs
  · exact ⟨h.patient.congr rfl rfl rfl rfl, ⟨h.outstanding.le, h.outstanding.tiles⟩,
      List.forall_mem_append.mpr ⟨h.made, List.forall_mem_singleton.mpr rfl⟩, h.error, h.queued⟩
  · exact h

theorem deliver (h : Healthy rtTimeout time c) (seg : TCPSegment) : Healthy rtTimeout time (c.deliver seg) := by
  refine ⟨?_, ?_, ?_, ?_, ?_⟩
  · -- an acknowledgment that completes a segment makes the sender start over
    obtain ⟨elapsed, attempts, window, htimed, hwindow, hspent⟩ := h.patient
    refine ⟨_, _, _, TCPConnection.timed_deliver htimed seg, c.lastWindow_lt hwindow _, ?_⟩
    split_ifs
    · omega
    · exact hspent
  · rcases c.deliver_sender seg with ⟨-, -, heq⟩ | ⟨-, heq⟩ <;> rw [heq]
    · exact h.outstanding.ackReceived _
    · exact h.outstanding
  · rw [c.deliver_sender_segmentsOut]
    exact h.made
  · rw [c.deliver_stream]
    exact h.error
  · rw [c.deliver_segmentsOut]
    exact h.queued

/-- **A segment arrives** that is not a reset. -/
theorem segmentReceived (h : Healthy rtTimeout time c) {seg : TCPSegment} (hrst : seg.header.rst = false) :
    Healthy rtTimeout time (c.segmentReceived seg) := by
  have hnoted : Healthy rtTimeout time { c with waitSegmentTime := 0 } := h.frame rfl (List.Subset.refl _)
  rw [c.segmentReceived_eq hrst]
  split_ifs
  · exact ((((hnoted.deliver seg).fillWindow).reply seg).sendSegments.clearLinger).tryCleanClose
  · exact (hnoted.deliver seg).tryCleanClose

/-- **Time passes**, and there is time left. -/
theorem tick (h : Healthy rtTimeout time c) {ms : ℕ} (hrt : rtTimeout < 2 ^ 16)
    (hlt : time + ms < 511 * rtTimeout) : Healthy rtTimeout (time + ms) (c.tick ms) := by
  have hpatient := h.patient.tick hrt hlt
  have hle := hpatient.consecutiveRetransmissions_le hlt
  have hsender : Healthy rtTimeout (time + ms) { c with sender := c.sender.tick ms } := by
    obtain ⟨timer, num, again, hagain, heq⟩ := c.sender.tick_eq ms
    refine ⟨hpatient, ?_, ?_, ?_, h.queued⟩
    · rw [heq]
      exact ⟨h.outstanding.le, h.outstanding.tiles⟩
    · rw [heq]
      exact List.forall_mem_append.mpr ⟨h.made, fun seg hseg => h.kept (hagain.subset hseg)⟩
    · rw [heq]
      exact h.error
  simp only [TCPConnection.tick, gt_iff_lt, not_lt.mpr hle, if_false]
  refine (Healthy.sendSegments ?_).tryCleanClose
  exact hsender.frame rfl (List.Subset.refl _)

end Healthy

/-! ### Runs of two connections -/

/-- The time that an operation takes, in milliseconds. -/
def Op.duration : Op → ℕ
  | .tick ms => ms
  | _ => 0

/-- The time on a side after an event. -/
def Event.clock (s : Side) (time : ℕ) : Event → ℕ
  | .app t op => if t = s then time + op.duration else time
  | _ => time

/-- The time that has passed on a side, over all its ticks. -/
def clock (s : Side) (es : List Event) : ℕ := runs (Event.clock s) 0 es

theorem Event.le_clock (s : Side) (time : ℕ) (e : Event) : time ≤ e.clock s time := by
  cases e with
  | app t op =>
    simp only [Event.clock]
    split_ifs <;> omega
  | send t => exact le_rfl
  | deliver t i => exact le_rfl

/-- Nothing has gone wrong on a side, and none of its segments on the wire is a reset. -/
structure Intact (rtTimeout time : ℕ) (p : Peer) : Prop where
  /-- The connection. -/
  healthy : Healthy rtTimeout time p.conn
  /-- The wire. -/
  wire : ∀ seg ∈ p.wire, seg.header.rst = false

namespace Intact

variable {rtTimeout time : ℕ} {p : Peer}

/-- **The application does something**, and there is time left. -/
theorem run (h : Intact rtTimeout time p) {op : Op} (hrt : rtTimeout < 2 ^ 16)
    (hlt : time + op.duration < 511 * rtTimeout) : Intact rtTimeout (time + op.duration) (p.run op) := by
  refine ⟨?_, by cases op <;> exact h.wire⟩
  have hc := h.healthy
  cases op with
  | connect => exact hc.fillWindow.sendSegments
  | write data => exact (hc.onStream (ByteStream.write_error _ _)).fillWindow.sendSegments.tryCleanClose
  | endInputStream => exact (hc.onStream (ByteStream.endInput_error _)).fillWindow.sendSegments
  | tick ms => exact hc.tick hrt hlt
  | read len => exact hc.frame rfl (List.Subset.refl _)

theorem send (h : Intact rtTimeout time p) : Intact rtTimeout time p.send := by
  unfold Peer.send
  split
  · exact h
  · rename_i seg rest hcons
    refine ⟨h.healthy.frame rfl (hcons ▸ List.subset_cons_self seg rest), List.forall_mem_append.mpr ⟨h.wire, ?_⟩⟩
    exact List.forall_mem_singleton.mpr (h.healthy.queued seg (hcons ▸ List.mem_cons_self))

theorem receive (h : Intact rtTimeout time p) {seg : TCPSegment} (hrst : seg.header.rst = false) :
    Intact rtTimeout time (p.receive seg) := ⟨h.healthy.segmentReceived hrst, h.wire⟩

end Intact

/-- A side has changed, and the time of no other. -/
theorem World.intact_update {w : World} {rtTimeout time time' : Side → ℕ} {t : Side} {p : Peer}
    (h : ∀ s, Intact (rtTimeout s) (time s) (w s)) (hsame : ∀ s, s ≠ t → time' s = time s)
    (hp : Intact (rtTimeout t) (time' t) p) (s : Side) : Intact (rtTimeout s) (time' s) (Function.update w t p s) := by
  by_cases hst : s = t
  · subst hst
    rw [Function.update_self]
    exact hp
  · rw [Function.update_of_ne hst, hsame s hst]
    exact h s

/-- **An event** leaves both sides intact, if there is time left on both. -/
theorem World.intact_step {w : World} {rtTimeout time : Side → ℕ} (h : ∀ s, Intact (rtTimeout s) (time s) (w s))
    (hrt : ∀ s, rtTimeout s < 2 ^ 16) (e : Event) (hlt : ∀ s, e.clock s (time s) < 511 * rtTimeout s) (s : Side) :
    Intact (rtTimeout s) (e.clock s (time s)) (w.step e s) := by
  cases e with
  | app t op =>
    have htime : Event.clock t (time t) (.app t op) = time t + op.duration := if_pos rfl
    have hrun := (h t).run (hrt t) (htime ▸ hlt t)
    have hsame : ∀ s, s ≠ t → Event.clock s (time s) (.app t op) = time s := fun s hst => if_neg hst.symm
    exact World.intact_update h hsame (htime ▸ hrun) s
  | send t => exact World.intact_update h (fun _ _ => rfl) (h t).send s
  | deliver t i =>
    cases hwire : (w t.other).wire[i]? with
    | none =>
      simp only [World.step, hwire]
      exact h s
    | some seg =>
      simp only [World.step, hwire]
      have hrst := (h t.other).wire seg (List.mem_of_getElem? hwire)
      exact World.intact_update h (fun _ _ => rfl) ((h t).receive hrst) s

/-- In every run, both sides are intact as long as there is time left. -/
theorem World.intact {cfg : Side → TCPConfig} (random : Side → WrappingInt32) {es : List Event}
    (htime : ∀ s, clock s es < patience (cfg s)) (s : Side) :
    Intact (cfg s).rtTimeout.toNat (clock s es) (World.after cfg random es s) := by
  induction es using List.reverseRecOn generalizing s with
  | nil => exact ⟨Healthy.start (cfg s) (random s), fun _ hseg => absurd hseg List.not_mem_nil⟩
  | append_singleton es e ih =>
    have hclock : ∀ s, clock s (es ++ [e]) = e.clock s (clock s es) := fun s => runs_append _ _ _
    have hstep : World.after cfg random (es ++ [e]) = (World.after cfg random es).step e := runs_append _ _ _
    simp only [hclock] at htime ⊢
    rw [hstep]
    exact World.intact_step (ih fun s => lt_of_le_of_lt (e.le_clock s _) (htime s))
      (fun s => (cfg s).rtTimeout.toNat_lt) e htime s

/-- **An outage is survived.** In every run of two connections, as long as less than `2 ^ 9 - 1`
times the initial timeout has passed on each side, neither stream of a connection has an error, no
reset has been queued or sent, and a connection that is not active any more has closed in the
regular way. Nothing is assumed of the network, which may have lost every segment. -/
theorem survives_outage (cfg : Side → TCPConfig) (random : Side → WrappingInt32) (es : List Event)
    (h : World.Allowed cfg random es) (htime : ∀ s, clock s es < patience (cfg s)) (s : Side) :
    (World.after cfg random es s).conn.inboundStream.error = false ∧
      (World.after cfg random es s).sender.stream.error = false ∧
      (∀ seg ∈ (World.after cfg random es s).stamped, seg.header.rst = false) ∧
      ((World.after cfg random es s).conn.active = true ∨ Finished (World.after cfg random es s)) := by
  have hintact := World.intact random htime s
  have herror := hintact.healthy.error
  have hlife := World.lifecycle h s
  refine ⟨hlife.error.trans herror, herror, List.forall_mem_append.mpr ⟨hintact.healthy.queued, hintact.wire⟩, ?_⟩
  cases hactive : (World.after cfg random es s).conn.active with
  | true => exact Or.inl rfl
  | false => exact Or.inr ((hlife.closed hactive).resolve_left fun hfailed => by simp [herror] at hfailed)

/-- Nobody answers, for one millisecond less than a connection is patient. -/
def silentPeer : List Event :=
  [.app .a .connect, .app .a (.tick 1000), .app .a (.tick 2000), .app .a (.tick 4000), .app .a (.tick 8000),
    .app .a (.tick 16000), .app .a (.tick 32000), .app .a (.tick 64000), .app .a (.tick 128000),
    .app .a (.tick 255999)]

/-- The connection is alive then, and in the next millisecond it gives up. -/
theorem survives_outage_silentPeer :
    (World.after (fun _ => {}) (fun _ => ⟨0⟩) silentPeer .a).conn.inboundStream.error = false ∧
      clock .a (silentPeer ++ [.app .a (.tick 1)]) = patience {} ∧
      (World.after (fun _ => {}) (fun _ => ⟨0⟩) (silentPeer ++ [.app .a (.tick 1)]) .a).conn.inboundStream.error =
        true := by
  have hall := survives_outage (fun _ => {}) (fun _ => ⟨0⟩) silentPeer (by decide +kernel)
    (fun s => by cases s <;> decide +kernel) .a
  exact ⟨hall.1, by decide +kernel, by decide +kernel⟩

end Sponge
