import Sponge.Tcp.Acknowledgments
import Sponge.Tcp.Retransmission

/-!
# TIME_WAIT

A connection whose two streams are finished is not closed at once, unless the other side was the
first to finish: its last acknowledgment may be lost, and then the other side sends its FIN again.
It stays until no segment has arrived for ten times the initial retransmission timeout. The time is
counted by `tick` in `_wait_segment_time`, and looked at only in `try_clean_close`.

## What is proved

* `after_waitSegmentTime` — the count is the time since a segment has arrived.
* `call_closes` — a connection closes without an error only if its streams are finished, and it need
  not stay or has stayed.
* `timeWait_exact` — while no segment arrives, a connection that has finished stays exactly as long
  as it should, however the time is cut into ticks.
-/

namespace Sponge

/-- The time since a segment has arrived, after a call. -/
def ConnectionCall.since (time : ℕ) : ConnectionCall → ℕ
  | .segmentReceived _ => 0
  | e => time + e.duration

/-- The time since a segment has arrived, or since the start. -/
def silence (es : List ConnectionCall) : ℕ := runs ConnectionCall.since 0 es

/-- While no segment arrives: time passes, the application reads, the network takes segments. -/
def ConnectionCall.Undisturbed : ConnectionCall → Prop
  | .tick _ => True
  | .read _ => True
  | .take => True
  | _ => False

/-- Time does not go back while no segment arrives. -/
theorem le_runs_since {es : List ConnectionCall} (hquiet : ∀ e ∈ es, e.Undisturbed) (time : ℕ) :
    time ≤ runs ConnectionCall.since time es := by
  induction es generalizing time with
  | nil => exact le_rfl
  | cons e es ih =>
    obtain ⟨he, hes⟩ := List.forall_mem_cons.mp hquiet
    refine le_trans ?_ (ih hes (e.since time))
    cases e with
    | tick ms => exact Nat.le_add_right _ _
    | read len => exact le_rfl
    | take => exact le_rfl
    | _ => exact he.elim

/-- Only ticks take time. -/
theorem runs_since_of_no_tick {es : List ConnectionCall} (hquiet : ∀ e ∈ es, e.Undisturbed) (hno : ∀ ms, .tick ms ∉ es)
    (time : ℕ) : runs ConnectionCall.since time es = time := by
  induction es with
  | nil => rfl
  | cons e es ih =>
    obtain ⟨he, hes⟩ := List.forall_mem_cons.mp hquiet
    have hrest := ih hes fun ms hms => hno ms (List.mem_cons_of_mem e hms)
    cases e with
    | tick ms => exact absurd List.mem_cons_self (hno ms)
    | read len => exact hrest
    | take => exact hrest
    | _ => exact he.elim

theorem ConnectionCall.since_mod (e : ConnectionCall) (time : ℕ) :
    e.since (time % 2 ^ 64) % 2 ^ 64 = e.since time % 2 ^ 64 := by
  cases e with
  | segmentReceived seg => rfl
  | _ => exact Nat.mod_add_mod _ _ _

/-- If nothing is in flight, nothing is kept. -/
theorem TCPSender.Outstanding.waitAck_eq_nil {s : TCPSender} (h : s.Outstanding) (hflight : s.flightBytes = 0) :
    s.waitAck = [] := by
  have htiles := h.tiles
  have hbase : s.base = s.nextSeqno := by rw [base, hflight, Nat.sub_zero]
  rw [hbase] at htiles
  exact htiles.eq_nil fun _ _ hstart => hstart.pos

/-- Filling the window and sending keeps what is outstanding in order. -/
theorem TCPSender.Outstanding.sent {s : TCPSender} (h : s.Outstanding) :
    ({ s.fillWindow with segmentsOut := [] }).Outstanding :=
  have hfill := h.fills s.fillWindow_fills
  ⟨hfill.le, hfill.tiles⟩

namespace TCPConnection

/-- Both streams are finished: the outbound one has been sent and acknowledged with its FIN, and the
inbound one has ended. -/
structure Finished (c : TCPConnection) : Prop where
  /-- The application has ended the outbound stream, and all of it has been sent. -/
  eof : c.sender.streamIn.eof = true
  /-- The inbound stream has ended. -/
  ended : c.receiver.streamOut.inputEnded = true
  /-- Everything has been acknowledged. -/
  flight : c.bytesInFlight = 0
  /-- The FIN has been sent. -/
  fin : c.sender.nextSeqnoAbsolute = c.sender.streamIn.bytesWritten + 2

/-- It is time to close: the connection need not stay, or has stayed for long enough. -/
def Stayed (c : TCPConnection) : Prop :=
  c.lingerAfterStreamsFinish = false ∨ 10 * c.cfg.rtTimeout.toNat ≤ c.waitSegmentTime

variable {c : TCPConnection}

theorem canClose_iff : c.canClose = true ↔ c.Finished ∧ c.Stayed := by
  unfold canClose Stayed
  simp only [Bool.and_eq_true, Bool.or_eq_true, beq_iff_eq, decide_eq_true_iff, Bool.not_eq_true']
  constructor
  · rintro ⟨⟨⟨⟨heof, hended⟩, hflight⟩, hfin⟩, hstay⟩
    exact ⟨⟨heof, hended, hflight, hfin⟩, hstay.symm⟩
  · rintro ⟨⟨heof, hended, hflight, hfin⟩, hstay⟩
    exact ⟨⟨⟨⟨heof, hended⟩, hflight⟩, hfin⟩, hstay.symm⟩

/-! ### What a call can do -/

/-- A call ends the connection with an error. -/
structure Fails (c c' : TCPConnection) : Prop where
  /-- The connection is dead. -/
  dead : c'.active = false
  /-- The inbound stream has suffered an error. -/
  error : c'.inboundStream.error = true
  /-- The configuration does not change. -/
  cfg : c'.cfg = c.cfg
  /-- Whether it would have had to stay does not change. -/
  linger : c'.lingerAfterStreamsFinish = c.lingerAfterStreamsFinish

/-- What a call does before it tries to close the connection. -/
structure Works (c : TCPConnection) (e : ConnectionCall) (c' : TCPConnection) : Prop where
  /-- Whether the connection is alive has not been looked at. -/
  active : c'.active = c.active
  /-- The configuration does not change. -/
  cfg : c'.cfg = c.cfg
  /-- The time is counted. -/
  time : c.waitSegmentTime < 2 ^ 64 → c'.waitSegmentTime = e.since c.waitSegmentTime % 2 ^ 64
  /-- The connection need not stay any more only if the inbound stream has ended and the outbound
  one has not been sent. -/
  linger : c'.lingerAfterStreamsFinish = c.lingerAfterStreamsFinish ∨
    c'.lingerAfterStreamsFinish = false ∧ c'.sender.streamIn.eof = false ∧ c'.receiver.streamOut.inputEnded = true

theorem Works.of_untimed {e : ConnectionCall} {c' : TCPConnection} (he : e.since c.waitSegmentTime = c.waitSegmentTime)
    (hactive : c'.active = c.active) (hcfg : c'.cfg = c.cfg) (htime : c'.waitSegmentTime = c.waitSegmentTime)
    (hlinger : c'.lingerAfterStreamsFinish = c.lingerAfterStreamsFinish) : Works c e c' :=
  ⟨hactive, hcfg, fun hlt => by rw [htime, he, Nat.mod_eq_of_lt hlt], Or.inl hlinger⟩

theorem clearLinger_works {e : ConnectionCall} {c' : TCPConnection} (h : Works c e c')
    (hsame : c'.lingerAfterStreamsFinish = c.lingerAfterStreamsFinish) : Works c e c'.clearLinger := by
  unfold clearLinger
  split_ifs with hcond
  · rw [Bool.and_eq_true, Bool.not_eq_true'] at hcond
    exact ⟨h.active, h.cfg, h.time, Or.inr ⟨rfl, hcond⟩⟩
  · exact ⟨h.active, h.cfg, h.time, Or.inl hsame⟩

/-- A segment that arrives, not a reset. -/
theorem segmentReceived_works (c : TCPConnection) {seg : TCPSegment} (hrst : seg.header.rst = false) :
    ∃ c', c.segmentReceived seg = c'.tryCleanClose ∧ Works c (.segmentReceived seg) c' := by
  have hworks : ∀ c₁, c₁ = ({ c with waitSegmentTime := 0 } : TCPConnection).deliver seg →
      Works c (.segmentReceived seg) c₁ ∧ c₁.lingerAfterStreamsFinish = c.lingerAfterStreamsFinish := by
    rintro c₁ rfl
    simp only [deliver]
    split <;> exact ⟨⟨rfl, rfl, fun _ => rfl, Or.inl rfl⟩, rfl⟩
  obtain ⟨⟨hactive, hcfg, htime, hlinger⟩, hsame⟩ := hworks _ rfl
  obtain ⟨l, hanswer⟩ := ({ c with waitSegmentTime := 0 } : TCPConnection).answer_eq seg
  rw [c.segmentReceived_eq hrst, hanswer]
  split_ifs
  · exact ⟨_, rfl, clearLinger_works ⟨hactive, hcfg, htime, Or.inl hsame⟩ hsame⟩
  · exact ⟨_, rfl, hactive, hcfg, htime, hlinger⟩

/-- **What a call can do**: it ends the connection with an error, or it does its work and then may
try to close the connection. -/
theorem call_cases (c : TCPConnection) (e : ConnectionCall) :
    Fails c (c.call e) ∨ ∃ c', (c.call e = c' ∨ c.call e = c'.tryCleanClose) ∧ Works c e c' := by
  cases e with
  | connect => exact Or.inr ⟨_, Or.inl rfl, .of_untimed rfl rfl rfl rfl rfl⟩
  | write data => exact Or.inr ⟨_, Or.inr rfl, .of_untimed rfl rfl rfl rfl rfl⟩
  | endInputStream => exact Or.inr ⟨_, Or.inl rfl, .of_untimed rfl rfl rfl rfl rfl⟩
  | tick ms =>
    simp only [call, tick]
    split_ifs
    · exact Or.inl ⟨rfl, rfl, rfl, rfl⟩
    · exact Or.inr ⟨_, Or.inr rfl, ⟨rfl, rfl, fun _ => rfl, Or.inl rfl⟩⟩
  | segmentReceived seg =>
    cases hrst : seg.header.rst with
    | true =>
      refine Or.inl ?_
      simp only [call, segmentReceived, hrst, if_true]
      exact ⟨rfl, rfl, rfl, rfl⟩
    | false =>
      obtain ⟨c', heq, hworks⟩ := c.segmentReceived_works hrst
      exact Or.inr ⟨c', Or.inr heq, hworks⟩
  | read len => exact Or.inr ⟨_, Or.inl rfl, .of_untimed rfl rfl rfl rfl rfl⟩
  | take => exact Or.inr ⟨_, Or.inl rfl, .of_untimed rfl rfl rfl rfl rfl⟩
  | destroy =>
    simp only [call, destroy]
    split_ifs
    · exact Or.inl ⟨rfl, rfl, rfl, rfl⟩
    · exact Or.inr ⟨_, Or.inl rfl, .of_untimed rfl rfl rfl rfl rfl⟩

/-! ### The count of the time -/

@[simp] theorem tryCleanClose_waitSegmentTime : c.tryCleanClose.waitSegmentTime = c.waitSegmentTime := by
  unfold tryCleanClose
  split <;> rfl

@[simp] theorem tryCleanClose_cfg : c.tryCleanClose.cfg = c.cfg := by
  unfold tryCleanClose
  split <;> rfl

theorem call_cfg (e : ConnectionCall) : (c.call e).cfg = c.cfg := by
  rcases c.call_cases e with hfails | ⟨c', heq | heq, hworks⟩
  · exact hfails.cfg
  · rw [heq, hworks.cfg]
  · rw [heq, tryCleanClose_cfg, hworks.cfg]

/-- A call counts the time that has passed, unless it ends the connection. -/
theorem call_waitSegmentTime {e : ConnectionCall} (halive : (c.call e).active = true)
    (hlt : c.waitSegmentTime < 2 ^ 64) : (c.call e).waitSegmentTime = e.since c.waitSegmentTime % 2 ^ 64 := by
  rcases c.call_cases e with hfails | ⟨c', heq | heq, hworks⟩
  · exact absurd halive (by simp [hfails.dead])
  · rw [heq]
    exact hworks.time hlt
  · rw [heq, tryCleanClose_waitSegmentTime]
    exact hworks.time hlt

/-- **The count is the time since a segment has arrived**, in every run that leaves the connection
alive. -/
theorem after_waitSegmentTime {cfg : TCPConfig} {random : WrappingInt32} {es : List ConnectionCall}
    (halive : (after cfg random es).active = true) :
    (after cfg random es).waitSegmentTime = silence es % 2 ^ 64 := by
  induction es using List.reverseRecOn with
  | nil => rfl
  | append_singleton es e ih =>
    have hstep : after cfg random (es ++ [e]) = (after cfg random es).call e := runs_append _ _ _
    have hsilence : silence (es ++ [e]) = e.since (silence es) := runs_append _ _ _
    rw [hstep] at halive ⊢
    have hbefore := ih (active_of_call halive)
    rw [call_waitSegmentTime halive (hbefore ▸ Nat.mod_lt _ (Nat.two_pow_pos 64)), hbefore, hsilence, e.since_mod]

/-! ### Closing -/

/-- A call changes the sender by operations of the sender, so what is kept for retransmission is
what is in flight. -/
theorem call_outstanding (h : c.sender.Outstanding) (e : ConnectionCall) : (c.call e).sender.Outstanding := by
  cases e with
  | connect => exact h.sent
  | write data =>
    simp only [call, write, tryCleanClose_sender]
    exact TCPSender.Outstanding.sent (s := { c.sender with stream := (c.sender.stream.write data).2 }) ⟨h.le, h.tiles⟩
  | endInputStream =>
    exact TCPSender.Outstanding.sent (s := { c.sender with stream := c.sender.stream.endInput }) ⟨h.le, h.tiles⟩
  | tick ms =>
    obtain ⟨timer, num, again, -, heq⟩ := c.sender.tick_eq ms
    simp only [call, tick, heq]
    split_ifs
    · exact ⟨h.le, h.tiles⟩
    · rw [tryCleanClose_sender]
      exact ⟨h.le, h.tiles⟩
  | segmentReceived seg =>
    cases hrst : seg.header.rst with
    | true =>
      simp only [call, segmentReceived, hrst, if_true]
      exact ⟨h.le, h.tiles⟩
    | false =>
      have hdeliver : (({ c with waitSegmentTime := 0 } : TCPConnection).deliver seg).sender.Outstanding := by
        rcases ({ c with waitSegmentTime := 0 } : TCPConnection).deliver_sender seg with ⟨-, -, heq⟩ | ⟨-, heq⟩ <;>
          rw [heq]
        · exact h.ackReceived _
        · exact h
      obtain ⟨l, hanswer⟩ := ({ c with waitSegmentTime := 0 } : TCPConnection).answer_eq seg
      simp only [call, c.segmentReceived_eq hrst, hanswer]
      split_ifs
      · rw [tryCleanClose_sender, clearLinger_sender]
        exact hdeliver.sent
      · rw [tryCleanClose_sender]
        exact hdeliver
  | read len => exact h
  | take => exact h
  | destroy =>
    simp only [call, destroy]
    split_ifs
    · exact ⟨h.le, h.tiles⟩
    · exact h

/-- A connection that has finished, with its timer stopped. -/
structure Waits (c : TCPConnection) : Prop where
  /-- Both streams are finished. -/
  finished : c.Finished
  /-- The timer does not run. -/
  stopped : c.sender.timer.active = false
  /-- The timer is not left expired. -/
  expired : c.sender.timer.expired = false
  /-- The connection has not given up. -/
  attempts : c.sender.consecutiveTransmitNum ≤ maxRetxAttempts

/-- The sender has nothing to do any more. -/
theorem Waits.tick_eq (h : c.Waits) (ms : ℕ) : c.tick ms =
    ({ c with waitSegmentTime := (c.waitSegmentTime + ms) % 2 ^ 64 } : TCPConnection).sendSegments.tryCleanClose := by
  have hsender : c.sender.tick ms = c.sender :=
    TCPSender.tick_of_not_expired (Timer.tictoc_of_stopped _ _ _ h.stopped) h.expired
  simp only [tick, hsender]
  exact if_neg (Nat.not_lt.mpr h.attempts)

/-- What is queued does not matter. -/
theorem Waits.congr (h : c.Waits) {c' : TCPConnection} {l : List TCPSegment}
    (hsender : c'.sender = { c.sender with segmentsOut := l })
    (hended : c'.receiver.streamOut.inputEnded = c.receiver.streamOut.inputEnded) : c'.Waits := by
  obtain ⟨⟨heof, hinput, hflight, hfin⟩, hstopped, hexpired, hattempts⟩ := h
  refine ⟨⟨?_, hended.trans hinput, ?_, ?_⟩, ?_, ?_, ?_⟩
  · rwa [hsender]
  · rwa [bytesInFlight, hsender]
  · rwa [hsender]
  · rwa [hsender]
  · rwa [hsender]
  · rwa [hsender]

/-- **A tick closes the connection** if it has stayed for long enough, or need not stay. -/
theorem Waits.tick (h : c.Waits) {ms : ℕ} (hlt : c.waitSegmentTime + ms < 2 ^ 64) :
    (c.tick ms).Waits ∧ (c.tick ms).cfg = c.cfg ∧ (c.tick ms).waitSegmentTime = c.waitSegmentTime + ms ∧
      (c.tick ms).lingerAfterStreamsFinish = c.lingerAfterStreamsFinish ∧
      ((c.tick ms).active = true ↔ c.active = true ∧ c.lingerAfterStreamsFinish = true ∧
        c.waitSegmentTime + ms < 10 * c.cfg.rtTimeout.toNat) := by
  rw [h.tick_eq, Nat.mod_eq_of_lt hlt]
  generalize hc₁ : ({ c with waitSegmentTime := c.waitSegmentTime + ms } : TCPConnection).sendSegments = c₁
  have hwaits : c₁.Waits := by
    rw [← hc₁]
    exact h.congr rfl rfl
  have hstayed : c₁.canClose = true ↔
      c.lingerAfterStreamsFinish = false ∨ 10 * c.cfg.rtTimeout.toNat ≤ c.waitSegmentTime + ms := by
    rw [canClose_iff, and_iff_right hwaits.finished, ← hc₁]
    rfl
  refine ⟨hwaits.congr (tryCleanClose_sender _) (by rw [tryCleanClose_receiver]), ?_, ?_, ?_, ?_⟩
  · rw [tryCleanClose_cfg, ← hc₁]
    rfl
  · rw [tryCleanClose_waitSegmentTime, ← hc₁]
    rfl
  · rw [tryCleanClose_lingerAfterStreamsFinish, ← hc₁]
    rfl
  · have hactive : c₁.active = c.active := by
      rw [← hc₁]
      rfl
    unfold tryCleanClose
    split_ifs with hcan
    · refine ⟨fun hfalse => absurd hfalse (by simp), fun hstay => ?_⟩
      rcases hstayed.mp hcan with hleave | hlong
      · exact absurd hstay.2.1 (by simp [hleave])
      · exact absurd hstay.2.2 (Nat.not_lt.mpr hlong)
    · rw [hstayed, not_or, Bool.not_eq_false, Nat.not_le] at hcan
      rw [hactive, and_iff_left hcan]

/-- **A connection that has finished stays as long as it should.** -/
theorem Waits.stays (h : c.Waits) {later : List ConnectionCall} (hquiet : ∀ e ∈ later, e.Undisturbed)
    (hlt : runs ConnectionCall.since c.waitSegmentTime later < 2 ^ 64) :
    (runs call c later).active = true ↔ c.active = true ∧ ((∃ ms, .tick ms ∈ later) →
      c.lingerAfterStreamsFinish = true ∧
        runs ConnectionCall.since c.waitSegmentTime later < 10 * c.cfg.rtTimeout.toNat) := by
  induction later generalizing c with
  | nil => simp
  | cons e later ih =>
    obtain ⟨he, hlater⟩ := List.forall_mem_cons.mp hquiet
    cases e with
    | tick ms =>
      have hle := le_runs_since hlater (c.waitSegmentTime + ms)
      have hlt' : runs ConnectionCall.since (c.waitSegmentTime + ms) later < 2 ^ 64 := hlt
      obtain ⟨hwaits, hcfg, htime, hlinger, hactive⟩ := h.tick (hle.trans_lt hlt')
      have hrest := ih hwaits hlater (by rwa [htime])
      rw [htime, hlinger, hcfg, hactive] at hrest
      show (runs call (c.tick ms) later).active = true ↔ _ ∧ (_ → _ ∧
        runs ConnectionCall.since (c.waitSegmentTime + ms) later < _)
      rw [hrest]
      constructor
      · rintro ⟨⟨halive, hstay, hshort⟩, hticks⟩
        refine ⟨halive, fun _ => ⟨hstay, ?_⟩⟩
        by_cases hsome : ∃ ms', .tick ms' ∈ later
        · exact (hticks hsome).2
        · rwa [runs_since_of_no_tick hlater (not_exists.mp hsome)]
      · rintro ⟨halive, hticks⟩
        obtain ⟨hstay, hshort⟩ := hticks ⟨ms, List.mem_cons_self⟩
        exact ⟨⟨halive, hstay, hle.trans_lt hshort⟩, fun _ => ⟨hstay, hshort⟩⟩
    | read len =>
      have hsame : (∃ ms, ConnectionCall.tick ms ∈ .read len :: later) ↔ ∃ ms, .tick ms ∈ later := by simp
      rw [hsame]
      exact ih (c := (c.readInbound len).2) (h.congr rfl rfl) hlater hlt
    | take =>
      have hsame : (∃ ms, ConnectionCall.tick ms ∈ .take :: later) ↔ ∃ ms, .tick ms ∈ later := by simp
      rw [hsame]
      exact ih (c := { c with segmentsOut := c.segmentsOut.tail }) (h.congr rfl rfl) hlater hlt
    | _ => exact he.elim

theorem after_outstanding (cfg : TCPConfig) (random : WrappingInt32) (es : List ConnectionCall) :
    (after cfg random es).sender.Outstanding := by
  have hrun : Along call (fun _ _ => True) (make cfg random) es := along_true _ _
  exact hrun.invariant (I := fun c => c.sender.Outstanding) (fun _ e hi _ => call_outstanding hi e)
    (TCPSender.outstanding_make _ _ _ _)

theorem after_cfg (cfg : TCPConfig) (random : WrappingInt32) (es : List ConnectionCall) :
    (after cfg random es).cfg = cfg := by
  have hrun : Along call (fun _ _ => True) (make cfg random) es := along_true _ _
  exact hrun.invariant (I := fun c => c.cfg = cfg) (fun _ e hi _ => (call_cfg e).trans hi) rfl

/-- **TIME_WAIT lasts exactly as long as it should.** In every run of a connection, if both streams
are finished and the connection is alive, and then no segment arrives and the application only
reads, while at least one tick comes, the connection is alive as long as it has to stay and the time
since the last segment, over all ticks, is less than ten times the initial timeout; and no longer.
Before, no tick was of `2^31` milliseconds or more, and the silence is shorter than `2^64`. -/
theorem timeWait_exact (cfg : TCPConfig) (random : WrappingInt32) (es later : List ConnectionCall)
    (hticks : ∀ ms, .tick ms ∈ es → ms < 2 ^ 31) (halive : (after cfg random es).active = true)
    (hfinished : (after cfg random es).Finished) (hquiet : ∀ e ∈ later, e.Undisturbed) (hsome : ∃ ms, .tick ms ∈ later)
    (hlt : silence (es ++ later) < 2 ^ 64) :
    (after cfg random (es ++ later)).active = true ↔ (after cfg random es).lingerAfterStreamsFinish = true ∧
      silence (es ++ later) < 10 * cfg.rtTimeout.toNat := by
  have hfollows := Watch.follows_after hticks halive
  have hconnection : (Watch.after cfg random es).connection = after cfg random es := Watch.runs_connection _ _
  have hsilence : silence (es ++ later) = runs ConnectionCall.since (silence es) later := runs_append _ _ _
  have hcfg := after_cfg cfg random es
  -- nothing is outstanding, so the timer is stopped
  have hwaits : (after cfg random es).Waits := by
    have htimed := hfollows.timed
    rw [hconnection] at htimed
    have hempty := (after_outstanding cfg random es).waitAck_eq_nil hfinished.flight
    refine ⟨hfinished, ?_, htimed.expired, htimed.num.le.trans hfollows.attempts⟩
    rw [htimed.running, hempty]
    rfl
  have htime : (after cfg random es).waitSegmentTime = silence es := by
    rw [after_waitSegmentTime halive]
    rw [hsilence] at hlt
    exact Nat.mod_eq_of_lt ((le_runs_since hquiet _).trans_lt hlt)
  have hstays := hwaits.stays hquiet (by rwa [htime, ← hsilence])
  rw [htime, ← hsilence, hcfg, and_iff_right halive] at hstays
  have hrun : after cfg random (es ++ later) = runs call (after cfg random es) later := runs_append _ _ _
  rw [hrun, hstays]
  exact ⟨fun hall => hall hsome, fun hall _ => hall⟩

/-- The connection is opened, ends its stream first, and the other side ends the other one. -/
def activeClose : List ConnectionCall :=
  [.connect, .segmentReceived { header := { syn := true, ack := true, ackno := ⟨1⟩, win := 100 } }, .endInputStream,
    .segmentReceived { header := { seqno := ⟨1⟩, fin := true, ack := true, ackno := ⟨2⟩, win := 100 } }]

/-- It stays for ten seconds, and no longer. -/
theorem timeWait_exact_ten_seconds :
    ((after {} ⟨0⟩ (activeClose ++ [.tick 4000, .tick 5999])).active = true ↔
      (after {} ⟨0⟩ activeClose).lingerAfterStreamsFinish = true ∧
        silence (activeClose ++ [.tick 4000, .tick 5999]) < 10 * ({} : TCPConfig).rtTimeout.toNat) ∧
    ((after {} ⟨0⟩ (activeClose ++ [.tick 4000, .tick 6000])).active = true ↔
      (after {} ⟨0⟩ activeClose).lingerAfterStreamsFinish = true ∧
        silence (activeClose ++ [.tick 4000, .tick 6000]) < 10 * ({} : TCPConfig).rtTimeout.toNat) := by
  have hticks : ∀ ms, .tick ms ∈ activeClose → ms < 2 ^ 31 := by simp [activeClose]
  have halive : (after {} ⟨0⟩ activeClose).active = true := by decide +kernel
  have hfinished : (after {} ⟨0⟩ activeClose).Finished :=
    ⟨by decide +kernel, by decide +kernel, by decide +kernel, by decide +kernel⟩
  have hquiet : ∀ ms ms', ∀ e ∈ [ConnectionCall.tick ms, .tick ms'], e.Undisturbed :=
    by simp [ConnectionCall.Undisturbed]
  exact ⟨timeWait_exact {} ⟨0⟩ activeClose _ hticks halive hfinished (hquiet _ _) ⟨4000, by simp⟩ (by decide +kernel),
    timeWait_exact {} ⟨0⟩ activeClose _ hticks halive hfinished (hquiet _ _) ⟨4000, by simp⟩ (by decide +kernel)⟩

end TCPConnection

end Sponge
