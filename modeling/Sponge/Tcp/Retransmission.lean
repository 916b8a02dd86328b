import Sponge.Tcp.Calls
import Sponge.Tcp.Timer

/-!
# The retransmission timer

What the timer should do is a policy: it runs while a segment is outstanding; when the time since it was
started reaches the timeout, the oldest segment is sent again and the timer starts over, with twice the
timeout if the peer's window was open; an acknowledgment that completes a segment resets it. After
`MAX_RETX_ATTEMPTS` attempts in a row the connection gives up. `Watch` is that policy, beside the
connection: the time since the timer was started, the attempts and the last window, in natural numbers
and without looking at the timer.

## What is proved

* `Follows.step_cases` — a call keeps to the policy, or ends the connection.
* `Follows.aborts_iff` — a connection aborts when it gives up, or is destroyed.
* `retransmission_timer` — in every run the timer follows the policy as long as the connection is alive.
-/

namespace Sponge

/-! ### The policy -/

namespace TCPConnection

/-- The sender hears of the segment: it acknowledges something, and the peer's SYN has arrived. -/
def hears (c : TCPConnection) (seg : TCPSegment) : Bool :=
  (c.receiver.segmentReceived seg).setIsn && seg.header.ack

/-- The call is an acknowledgment that completes a segment. -/
def completes (c : TCPConnection) : ConnectionCall → Bool
  | .segmentReceived seg => c.hears seg && c.sender.completes seg.header.ackno seg.header.win
  | _ => false

/-- The window of the last acceptable acknowledgment, if it was `window` before the call: one of a position
that has been sent is acceptable. -/
def lastWindow (c : TCPConnection) (window : ℕ) : ConnectionCall → ℕ
  | .segmentReceived seg =>
    if c.hears seg && decide (unwrap seg.header.ackno c.sender.isn c.sender.nextSeqno ≤ c.sender.nextSeqno) then
      seg.header.win.toNat
    else window
  | _ => window

section

variable (c : TCPConnection)

theorem lastWindow_lt {window : ℕ} (h : window < 2 ^ 16) (e : ConnectionCall) :
    c.lastWindow window e < 2 ^ 16 := by
  unfold lastWindow
  split
  · split
    · exact UInt16.toNat_lt _
    · exact h
  · exact h

/-- The sender hears of what it should. -/
theorem deliver_sender_eq (seg : TCPSegment) : (c.deliver seg).sender =
    if c.hears seg then c.sender.ackReceived seg.header.ackno seg.header.win else c.sender := by
  unfold hears
  rcases c.deliver_sender seg with ⟨hset, hack, heq⟩ | ⟨hnot, heq⟩
  · rw [hset, hack, heq]
    rfl
  · cases hset : (c.receiver.segmentReceived seg).setIsn with
    | true => rw [hnot hset, heq]; rfl
    | false => rw [heq]; rfl

variable {c} in
/-- **A segment arrives.** -/
theorem timed_deliver {rtTimeout elapsed attempts window : ℕ}
    (h : c.sender.Timed rtTimeout elapsed attempts window) (seg : TCPSegment) :
    (c.deliver seg).sender.Timed rtTimeout (if c.completes (.segmentReceived seg) then 0 else elapsed)
      (if c.completes (.segmentReceived seg) then 0 else attempts)
      (c.lastWindow window (.segmentReceived seg)) := by
  rw [deliver_sender_eq, lastWindow, completes]
  cases c.hears seg with
  | false => exact h
  | true =>
    have hwindow := c.sender.ackReceived_windowSz_eq seg.header.ackno seg.header.win
    rw [h.window] at hwindow
    simp only [if_true, Bool.true_and, decide_eq_true_eq, ← hwindow]
    cases hcompletes : c.sender.completes seg.header.ackno seg.header.win with
    | false => exact h.not_completed hcompletes
    | true => exact h.completed hcompletes

/-- What is outstanding changes only if something is completed. -/
theorem deliver_waitAck {seg : TCPSegment} (h : c.completes (.segmentReceived seg) = false) :
    (c.deliver seg).sender.waitAck = c.sender.waitAck := by
  rw [completes] at h
  rw [deliver_sender_eq]
  cases hhears : c.hears seg with
  | false => rfl
  | true =>
    rw [hhears, Bool.true_and] at h
    exact (c.sender.ackReceived_of_not_completes _ _ h).1

theorem deliver_stream (seg : TCPSegment) : (c.deliver seg).sender.stream = c.sender.stream := by
  rw [deliver_sender_eq]
  split_ifs
  · exact TCPSender.ackReceived_stream _ _ _
  · rfl

theorem segmentReceived_of_rst {seg : TCPSegment} (h : seg.header.rst = true) :
    c.segmentReceived seg = { c with waitSegmentTime := 0 }.fail := if_pos h

theorem sendRstSeg_segmentsOut :
    ∃ seg, seg.header.rst = true ∧ c.sendRstSeg.segmentsOut = c.segmentsOut ++ [seg] :=
  ⟨_, stamp_rst c.receiver _, rfl⟩

theorem destroy_active : c.destroy.active = false := by
  unfold destroy
  split
  · rfl
  · exact Bool.eq_false_iff.mpr ‹_›

variable {ms : ℕ}

theorem tick_sender_of_le (h : (c.sender.tick ms).consecutiveRetransmissions ≤ maxRetxAttempts) :
    (c.tick ms).sender = { c.sender.tick ms with segmentsOut := [] } := by
  simp only [tick, gt_iff_lt, not_lt.mpr h, if_false, tryCleanClose_sender, sendSegments]

theorem tick_of_gt (h : maxRetxAttempts < (c.sender.tick ms).consecutiveRetransmissions) :
    c.tick ms = ({ c with sender := c.sender.tick ms }.sendRstSeg).fail := if_pos h

end

end TCPConnection

/-- The time that passes in a call, in milliseconds. -/
def ConnectionCall.duration : ConnectionCall → ℕ
  | .tick ms => ms
  | _ => 0

/-- A connection, and beside it what the policy has to know. -/
structure Watch where
  /-- The connection. -/
  connection : TCPConnection
  /-- The initial timeout. -/
  rtTimeout : ℕ
  /-- The time since the timer was last started. -/
  elapsed : ℕ
  /-- How often the timer has expired, with the window open, since an acknowledgment last completed a
  segment. -/
  attempts : ℕ
  /-- The window of the last acceptable acknowledgment. -/
  window : ℕ

namespace Watch

/-- At the start, the window counts as one byte. -/
def start (cfg : TCPConfig) (random : WrappingInt32) : Watch :=
  ⟨.make cfg random, cfg.rtTimeout.toNat, 0, 0, 1⟩

/-- The timeout doubles with every attempt. -/
def timeout (w : Watch) : ℕ := w.rtTimeout * 2 ^ w.attempts

/-- The timer expires within the next `ms` milliseconds: a segment is outstanding, and the time reaches the
timeout. -/
def expires (w : Watch) (ms : ℕ) : Bool := w.connection.sender.expires w.timeout w.elapsed ms

/-- The call starts the timer: it has expired, or a segment is outstanding after the call and either none
was before or one has been completed. -/
def starts (w : Watch) : ConnectionCall → Bool
  | .tick ms => w.expires ms
  | e => !(w.connection.call e).sender.waitAck.isEmpty &&
      (w.connection.sender.waitAck.isEmpty || w.connection.completes e)

/-- The call is one more attempt: the timer expires with the window open. -/
def retries (w : Watch) : ConnectionCall → Bool
  | .tick ms => w.expires ms && w.window != 0
  | _ => false

/-- One call. -/
def step (w : Watch) (e : ConnectionCall) : Watch where
  connection := w.connection.call e
  rtTimeout := w.rtTimeout
  elapsed := if w.starts e then 0 else w.elapsed + e.duration
  attempts := if w.connection.completes e then 0 else if w.retries e then w.attempts + 1 else w.attempts
  window := w.connection.lastWindow w.window e

/-- The policy beside a run. -/
abbrev after (cfg : TCPConfig) (random : WrappingInt32) (es : List ConnectionCall) : Watch :=
  runs step (start cfg random) es

theorem runs_connection (w : Watch) (es : List ConnectionCall) :
    (runs step w es).connection = runs TCPConnection.call w.connection es := by
  induction es generalizing w with
  | nil => rfl
  | cons e es ih => exact ih (w.step e)

theorem runs_rtTimeout (w : Watch) (es : List ConnectionCall) : (runs step w es).rtTimeout = w.rtTimeout := by
  induction es generalizing w with
  | nil => rfl
  | cons e es ih => exact ih (w.step e)

/-- The connection does what the policy says. -/
structure Follows (w : Watch) : Prop where
  /-- The timer is where the policy says. -/
  timed : w.connection.sender.Timed w.rtTimeout w.elapsed w.attempts w.window
  /-- The connection has not given up. -/
  attempts : w.attempts ≤ maxRetxAttempts
  /-- The initial timeout has 16 bits. -/
  rtTimeout : w.rtTimeout < 2 ^ 16
  /-- The window has 16 bits. -/
  window : w.window < 2 ^ 16
  /-- The outbound stream has suffered no error. -/
  error : w.connection.sender.stream.error = false

theorem follows_start (cfg : TCPConfig) (random : WrappingInt32) : (start cfg random).Follows :=
  ⟨TCPSender.timed_make _ _ _ _, Nat.zero_le _, cfg.rtTimeout.toNat_lt, Nat.one_lt_two_pow (by decide), rfl⟩

section Step

variable {w : Watch}

/-- A call that is not a tick: the sender may hear of an acknowledgment, and then sends what it can. -/
theorem Follows.sends (h : w.Follows) {e : ConnectionCall} (he : ∀ ms, e ≠ .tick ms) {s s' : TCPSender}
    (hs : s.Timed w.rtTimeout (if w.connection.completes e then 0 else w.elapsed)
      (if w.connection.completes e then 0 else w.attempts) (w.connection.lastWindow w.window e))
    (hwait : w.connection.completes e = false → s.waitAck = w.connection.sender.waitAck)
    (herror : s.stream.error = false) {n : ℕ} (hfills : TCPSender.Fills s n s') {out : List TCPSegment}
    (hcall : (w.connection.call e).sender = { s' with segmentsOut := out }) : (w.step e).Follows := by
  have hwait' : (w.connection.call e).sender.waitAck = s'.waitAck := by rw [hcall]
  have helapsed : (w.step e).elapsed =
      if !s'.waitAck.isEmpty && (w.connection.sender.waitAck.isEmpty || w.connection.completes e) then 0
      else w.elapsed := by
    rw [← hwait']
    cases e with
    | tick ms => exact absurd rfl (he ms)
    | _ => rfl
  have hattempts : (w.step e).attempts = if w.connection.completes e then 0 else w.attempts := by
    cases e with
    | tick ms => exact absurd rfl (he ms)
    | _ => rfl
  refine ⟨?_, ?_, h.rtTimeout, TCPConnection.lastWindow_lt _ h.window e, ?_⟩
  · rw [hattempts]
    refine ((hs.fills hfills).elapsed_congr fun hne => ?_).congr ?_ ?_ ?_ ?_
    · rw [helapsed, hne]
      cases hcompletes : w.connection.completes e with
      | true => simp
      | false => simp [hwait hcompletes]
    all_goals
      show _ = _
      rw [step, hcall]
  · rw [hattempts]
    split_ifs
    · exact Nat.zero_le _
    · exact h.attempts
  · show (w.connection.call e).sender.stream.error = false
    rw [hcall]
    exact hfills.frame.2.2.2.2.2.trans herror

/-- The application calls, and the sender sends what it can. -/
theorem Follows.fills (h : w.Follows) {e : ConnectionCall} (he : ∀ ms, e ≠ .tick ms)
    (hcompletes : w.connection.completes e = false)
    (hwindow : w.connection.lastWindow w.window e = w.window) {stream : ByteStream}
    (herror : stream.error = w.connection.sender.stream.error)
    (hcall : (w.connection.call e).sender =
      { { w.connection.sender with stream }.fillWindow with segmentsOut := [] }) : (w.step e).Follows := by
  have hstream : TCPSender.Timed w.rtTimeout (if w.connection.completes e then 0 else w.elapsed)
      (if w.connection.completes e then 0 else w.attempts) (w.connection.lastWindow w.window e)
      { w.connection.sender with stream } := by
    rw [hcompletes, hwindow]
    exact h.timed.congr rfl rfl rfl rfl
  have hfills := TCPSender.fillWindow_fills { w.connection.sender with stream }
  exact h.sends he hstream (fun _ => rfl) (herror.trans h.error) hfills hcall

/-- A segment arrives, not a reset. -/
theorem Follows.segmentReceived (h : w.Follows) {seg : TCPSegment} (hrst : seg.header.rst = false) :
    (w.step (.segmentReceived seg)).Follows := by
  have hdeliver := TCPConnection.timed_deliver h.timed seg
  have hwait : w.connection.completes (.segmentReceived seg) = false → _ := w.connection.deliver_waitAck
  have herror : (w.connection.deliver seg).sender.stream.error = false := by
    rw [TCPConnection.deliver_stream, h.error]
  have hcall := w.connection.segmentReceived_eq hrst
  cases hset : (w.connection.receiver.segmentReceived seg).setIsn with
  | true =>
    rw [hset, if_pos rfl] at hcall
    obtain ⟨out, hanswer⟩ := ({ w.connection with waitSegmentTime := 0 } : TCPConnection).answer_eq seg
    have hsender : (w.connection.segmentReceived seg).sender =
        { (w.connection.deliver seg).sender.fillWindow with segmentsOut := [] } := by
      rw [hcall, TCPConnection.tryCleanClose_sender, TCPConnection.clearLinger_sender, hanswer]
      simp only [TCPConnection.deliver_sender_eq]
      rfl
    exact h.sends (by simp) hdeliver hwait herror (TCPSender.fillWindow_fills _) hsender
  | false =>
    rw [hset, if_neg Bool.false_ne_true] at hcall
    have hsender : (w.connection.segmentReceived seg).sender = (w.connection.deliver seg).sender := by
      rw [hcall, TCPConnection.tryCleanClose_sender]
      simp only [TCPConnection.deliver_sender_eq]
      rfl
    exact h.sends (by simp) hdeliver hwait herror (.stop (w := 0) (Or.inl rfl)) hsender

/-- The connection gives up: one more attempt would be one too many. -/
def GivesUp (w : Watch) (ms : ℕ) : Prop :=
  w.expires ms = true ∧ w.window ≠ 0 ∧ w.attempts = maxRetxAttempts

theorem retries_iff (w : Watch) (ms : ℕ) :
    w.retries (.tick ms) = true ↔ w.expires ms = true ∧ w.window ≠ 0 := by
  rw [retries, Bool.and_eq_true, bne_iff_ne]

theorem GivesUp.attempts_step {ms : ℕ} (h : w.GivesUp ms) :
    (w.step (.tick ms)).attempts = maxRetxAttempts + 1 := by
  obtain ⟨hexpires, hwindow, hlast⟩ := h
  rw [← hlast]
  exact if_pos ((w.retries_iff ms).mpr ⟨hexpires, hwindow⟩)

section Tick

variable (h : w.Follows) {ms : ℕ} (hms : ms < 2 ^ 31)

include h hms

theorem Follows.timed_tick : (w.connection.sender.tick ms).Timed w.rtTimeout (w.step (.tick ms)).elapsed
    (w.step (.tick ms)).attempts w.window := (h.timed.tick hms h.rtTimeout h.attempts h.window).1

theorem Follows.tick_segmentsOut : (w.connection.sender.tick ms).segmentsOut =
    w.connection.sender.segmentsOut ++ if w.expires ms then w.connection.sender.waitAck.take 1 else [] :=
  (h.timed.tick hms h.rtTimeout h.attempts h.window).2

/-- A connection that gives up sends a reset and fails. -/
theorem Follows.tick_of_givesUp (hgives : w.GivesUp ms) : w.connection.tick ms =
    ({ w.connection with sender := w.connection.sender.tick ms }.sendRstSeg).fail := by
  refine w.connection.tick_of_gt ?_
  have hnum : (w.connection.sender.tick ms).consecutiveRetransmissions = _ := (h.timed_tick hms).num
  rw [hnum, hgives.attempts_step]
  exact Nat.lt_succ_self _

/-- Time passes. -/
theorem Follows.tick : (w.step (.tick ms)).Follows ∨ w.GivesUp ms := by
  have htimed := h.timed_tick hms
  rcases Nat.lt_or_ge maxRetxAttempts (w.step (.tick ms)).attempts with hgt | hle
  · -- only an attempt after the last one is too many
    right
    have hattempts : (w.step (.tick ms)).attempts =
        if w.retries (.tick ms) then w.attempts + 1 else w.attempts := rfl
    have hbefore := h.attempts
    split_ifs at hattempts with hretries
    · obtain ⟨hexpires, hwindow⟩ := (w.retries_iff ms).mp hretries
      exact ⟨hexpires, hwindow, by omega⟩
    · omega
  · left
    obtain ⟨timer, num, again, -, heq⟩ := w.connection.sender.tick_eq ms
    have hcall : (w.connection.tick ms).sender = { w.connection.sender.tick ms with segmentsOut := [] } :=
      w.connection.tick_sender_of_le (htimed.num.trans_le hle)
    refine ⟨?_, hle, h.rtTimeout, h.window, ?_⟩
    · show TCPSender.Timed _ _ _ _ (w.connection.tick ms).sender
      rw [hcall]
      exact htimed.congr rfl rfl rfl rfl
    · show (w.connection.tick ms).sender.stream.error = false
      rw [hcall, heq]
      exact h.error

end Tick

/-- **A call keeps to the policy or ends the connection**: it is destroyed, or reset, or gives up. -/
theorem Follows.step_cases (h : w.Follows) {e : ConnectionCall} (hms : e.duration < 2 ^ 31) :
    (w.step e).Follows ∨ e = .destroy ∨ (∃ seg, e = .segmentReceived seg ∧ seg.header.rst = true) ∨
      ∃ ms, e = .tick ms ∧ w.GivesUp ms := by
  cases e with
  | connect => exact Or.inl (h.fills (by simp) rfl rfl rfl rfl)
  | write data =>
    refine Or.inl (h.fills (by simp) rfl rfl (ByteStream.write_error _ data) ?_)
    rw [TCPConnection.call, TCPConnection.write, TCPConnection.tryCleanClose_sender]
    rfl
  | endInputStream => exact Or.inl (h.fills (by simp) rfl rfl (ByteStream.endInput_error _) rfl)
  | tick ms =>
    rcases h.tick hms with hfollows | hgives
    · exact Or.inl hfollows
    · exact Or.inr (Or.inr (Or.inr ⟨ms, rfl, hgives⟩))
  | segmentReceived seg =>
    cases hrst : seg.header.rst with
    | true => exact Or.inr (Or.inr (Or.inl ⟨seg, rfl, hrst⟩))
    | false => exact Or.inl (h.segmentReceived hrst)
  | read len =>
    exact Or.inl (h.sends (by simp) h.timed (fun _ => rfl) h.error (.stop (w := 0) (Or.inl rfl)) rfl)
  | take =>
    exact Or.inl (h.sends (by simp) h.timed (fun _ => rfl) h.error (.stop (w := 0) (Or.inl rfl)) rfl)
  | destroy => exact Or.inr (Or.inl rfl)

/-- As long as the connection is alive, it keeps to the policy. -/
theorem Follows.call (h : w.Follows) {e : ConnectionCall} (hms : e.duration < 2 ^ 31)
    (halive : (w.connection.call e).active = true) : (w.step e).Follows := by
  have hdead : ∀ c : TCPConnection, c.active = false → w.connection.call e ≠ c := by
    rintro c hdead rfl
    exact absurd halive (by simp [hdead])
  rcases h.step_cases hms with hfollows | rfl | ⟨seg, rfl, hrst⟩ | ⟨ms, rfl, hgives⟩
  · exact hfollows
  · exact absurd rfl (hdead _ w.connection.destroy_active)
  · exact absurd (w.connection.segmentReceived_of_rst hrst) (hdead _ rfl)
  · exact absurd (h.tick_of_givesUp hms hgives) (hdead _ rfl)

end Step

theorem follows_after {cfg : TCPConfig} {random : WrappingInt32} {es : List ConnectionCall}
    (hticks : ∀ ms, .tick ms ∈ es → ms < 2 ^ 31) (halive : (TCPConnection.after cfg random es).active = true) :
    (after cfg random es).Follows := by
  have hduration : ∀ e ∈ es, e.duration < 2 ^ 31 := by
    intro e he
    cases e with
    | tick ms => exact hticks ms he
    | _ => exact Nat.two_pow_pos 31
  have hrun : Along step (fun _ e => e.duration < 2 ^ 31) (start cfg random) es :=
    along_of_forall_mem hduration _
  refine hrun.invariant (I := fun w => w.connection.active = true → w.Follows) ?_
    (fun _ => follows_start cfg random) ?_
  · intro w e hi hms halive
    exact (hi (TCPConnection.active_of_call halive)).call hms halive
  · rw [runs_connection]
    exact halive

end Watch

namespace TCPConnection

/-- The connection is aborted: it sends a reset, both streams suffer an error and it is dead. -/
structure Aborts (c c' : TCPConnection) : Prop where
  /-- The last segment that it queues is a reset. -/
  reset : ∃ seg, seg.header.rst = true ∧ c'.segmentsOut = c.segmentsOut ++ [seg]
  /-- It is dead. -/
  dead : c'.active = false
  /-- The outbound stream suffers an error. -/
  outbound : c'.sender.stream.error = true
  /-- The inbound stream suffers an error. -/
  inbound : c'.inboundStream.error = true

end TCPConnection

namespace Watch

/-- **A connection aborts** when it gives up, or is destroyed. -/
theorem Follows.aborts_iff {w : Watch} (h : w.Follows) (halive : w.connection.active = true)
    (hqueue : w.connection.sender.segmentsOut = []) {e : ConnectionCall} (hms : e.duration < 2 ^ 31) :
    w.connection.Aborts (w.connection.call e) ↔ e = .destroy ∨ ∃ ms, e = .tick ms ∧ w.GivesUp ms := by
  constructor
  · intro haborts
    rcases h.step_cases hms with hfollows | rfl | ⟨seg, rfl, hrst⟩ | ⟨ms, rfl, hgives⟩
    · have hnone : (w.connection.call e).sender.stream.error = false := hfollows.error
      exact absurd haborts.outbound (by simp [hnone])
    · exact Or.inl rfl
    · -- a connection that is reset says nothing
      obtain ⟨seg', -, hout⟩ := haborts.reset
      rw [TCPConnection.call, TCPConnection.segmentReceived_of_rst _ hrst] at hout
      exact absurd hout (by simp [TCPConnection.fail])
    · exact Or.inr ⟨ms, rfl, hgives⟩
  · rintro (rfl | ⟨ms, rfl, hgives⟩)
    · rw [TCPConnection.call, TCPConnection.destroy, if_pos halive]
      obtain ⟨seg, hrst, hout⟩ := w.connection.sendRstSeg_segmentsOut
      have hnone : (w.connection.sendRstSeg.fail.sendSegments).segmentsOut = w.connection.sendRstSeg.segmentsOut := by
        simp only [TCPConnection.sendSegments, TCPConnection.fail, TCPConnection.sendRstSeg, TCPSender.setError,
          hqueue, List.map_nil, List.append_nil]
      exact ⟨⟨seg, hrst, hnone.trans hout⟩, rfl, rfl, rfl⟩
    · have htick : w.connection.tick ms = _ := h.tick_of_givesUp hms hgives
      rw [TCPConnection.call, htick]
      exact ⟨TCPConnection.sendRstSeg_segmentsOut _, rfl, rfl, rfl⟩

end Watch

namespace TCPConnection

/-- The connection and its timer do what the policy `w` says. -/
structure Obeys (cfg : TCPConfig) (c : TCPConnection) (w : Watch) : Prop where
  /-- The timer runs while a segment is outstanding. -/
  running : c.sender.timer.started = true ↔ c.sender.waitAck ≠ []
  /-- It is not left expired. -/
  expired : c.sender.timer.isexpired = false
  /-- The attempts are counted, and are not too many. -/
  attempts : c.sender.consecutiveRetransmissions = w.attempts ∧ w.attempts ≤ maxRetxAttempts
  /-- The timeout has doubled with every attempt, and 32 bits are enough for it. -/
  timeout : c.sender.timer.timeout = cfg.rtTimeout.toNat * 2 ^ c.sender.consecutiveRetransmissions ∧
    cfg.rtTimeout.toNat * 2 ^ c.sender.consecutiveRetransmissions < 2 ^ 32
  /-- The timer expires when it runs and the time since it was started reaches the timeout. -/
  expires : ∀ ms, w.expires ms = true ↔
    c.sender.timer.started = true ∧ c.sender.timer.timeout ≤ w.elapsed + ms
  /-- Then the oldest segment is sent again. -/
  resends : ∀ ms < 2 ^ 31, w.expires ms = true → ∃ oldest rest, c.sender.waitAck = oldest :: rest ∧
    (c.sender.tick ms).segmentsOut = c.sender.segmentsOut ++ [oldest]
  /-- Otherwise nothing is sent. -/
  waits : ∀ ms < 2 ^ 31, w.expires ms = false → (c.sender.tick ms).segmentsOut = c.sender.segmentsOut
  /-- The attempts and the timeout grow when the timer expires with the window open, and are reset when an
  acknowledgment completes a segment. -/
  counts : ∀ e : ConnectionCall, e.duration < 2 ^ 31 → (c.call e).active = true →
    (c.call e).sender.consecutiveRetransmissions =
        (if c.completes e then 0
        else if w.retries e then c.sender.consecutiveRetransmissions + 1
        else c.sender.consecutiveRetransmissions) ∧
      (c.call e).sender.timer.timeout =
        if c.completes e then cfg.rtTimeout.toNat
        else if w.retries e then 2 * c.sender.timer.timeout
        else c.sender.timer.timeout
  /-- The connection aborts when one more attempt would be too many, or when it is destroyed. -/
  aborts : ∀ e : ConnectionCall, e.duration < 2 ^ 31 →
    (c.Aborts (c.call e) ↔ e = .destroy ∨ ∃ ms, e = .tick ms ∧ w.GivesUp ms)

theorem obeys_of_follows {cfg : TCPConfig} {w : Watch} (h : w.Follows) (halive : w.connection.active = true)
    (hqueue : w.connection.sender.segmentsOut = []) (hrt : w.rtTimeout = cfg.rtTimeout.toNat) :
    w.connection.Obeys cfg w := by
  have htimed := h.timed
  have hnum : w.connection.sender.consecutiveRetransmissions = w.attempts := htimed.num
  have hrunning : w.connection.sender.timer.started = !w.connection.sender.waitAck.isEmpty := htimed.running
  have hbound : w.rtTimeout * 2 ^ w.attempts ≤ w.rtTimeout * 2 ^ maxRetxAttempts :=
    Nat.mul_le_mul_left _ (Nat.pow_le_pow_right (by decide) h.attempts)
  refine ⟨?_, htimed.expired, ⟨hnum, h.attempts⟩, ⟨?_, ?_⟩, ?_, ?_, ?_, ?_, ?_⟩
  · rw [hrunning, Bool.not_eq_true', List.isEmpty_eq_false_iff]
  · rw [htimed.timeout, hnum, hrt]
  · have hlt := h.rtTimeout
    rw [hnum, ← hrt]
    unfold maxRetxAttempts at hbound
    omega
  · intro ms
    rw [Watch.expires, TCPSender.expires, Bool.and_eq_true, decide_eq_true_eq, hrunning, htimed.timeout]
    rfl
  · intro ms hms hexpires
    have htick := h.tick_segmentsOut hms
    rw [if_pos hexpires] at htick
    cases hwait : w.connection.sender.waitAck with
    | nil => simp [Watch.expires, TCPSender.expires, hwait] at hexpires
    | cons oldest rest =>
      rw [hwait, List.take_succ_cons, List.take_zero] at htick
      exact ⟨oldest, rest, rfl, htick⟩
  · intro ms hms hexpires
    rw [h.tick_segmentsOut hms, hexpires, if_neg Bool.false_ne_true, List.append_nil]
  · intro e hms hcall
    have htimed' := (h.call hms hcall).timed
    have hnum' : (w.connection.call e).sender.consecutiveRetransmissions = (w.step e).attempts := htimed'.num
    have htimeout' : (w.connection.call e).sender.timer.timeout = w.rtTimeout * 2 ^ (w.step e).attempts :=
      htimed'.timeout
    have hattempts : (w.step e).attempts = if w.connection.completes e then 0
        else if w.retries e then w.attempts + 1 else w.attempts := rfl
    rw [hnum', htimeout', hnum, htimed.timeout, hattempts, ← hrt]
    refine ⟨rfl, ?_⟩
    split_ifs
    · rw [pow_zero, Nat.mul_one]
    · rw [pow_succ, Nat.mul_comm (2 ^ w.attempts) 2, Nat.mul_left_comm]
    · rfl
  · intro e hms
    exact h.aborts_iff halive hqueue hms

/-- **The retransmission timer.** In every run whose ticks are shorter than `2 ^ 31` milliseconds, the
connection and its timer do what the policy says, as long as the connection is alive. -/
theorem retransmission_timer (cfg : TCPConfig) (random : WrappingInt32) (es : List ConnectionCall)
    (hticks : ∀ ms, .tick ms ∈ es → ms < 2 ^ 31) (halive : (after cfg random es).active = true) :
    (Watch.after cfg random es).connection = after cfg random es ∧
      (after cfg random es).Obeys cfg (Watch.after cfg random es) := by
  have hconnection : (Watch.after cfg random es).connection = after cfg random es := Watch.runs_connection _ _
  have hobeys : (Watch.after cfg random es).connection.Obeys cfg (Watch.after cfg random es) := by
    refine obeys_of_follows (Watch.follows_after hticks halive) ?_ ?_ (Watch.runs_rtTimeout _ _)
    · rw [hconnection, halive]
    · rw [hconnection, after_sender_segmentsOut halive]
  rw [hconnection] at hobeys
  exact ⟨hconnection, hobeys⟩

/-- Nobody answers a SYN: it is sent again eight times, and each time the connection waits twice as long. -/
def unanswered : List ConnectionCall :=
  [.connect, .tick 1000, .tick 2000, .tick 4000, .tick 8000, .tick 16000, .tick 32000, .tick 64000, .tick 128000]

/-- Then it aborts. -/
theorem retransmission_timer_unanswered :
    (after {} ⟨0⟩ unanswered).sender.timer.timeout = 256000 ∧
      (after {} ⟨0⟩ unanswered).Aborts ((after {} ⟨0⟩ unanswered).tick 256000) := by
  have hticks : ∀ ms, .tick ms ∈ unanswered → ms < 2 ^ 31 := by
    intro ms hms
    simp only [unanswered, List.mem_cons, reduceCtorEq, ConnectionCall.tick.injEq, List.not_mem_nil,
      false_or, or_false] at hms
    omega
  have h := (retransmission_timer {} ⟨0⟩ unanswered hticks (by decide +kernel)).2
  refine ⟨by decide +kernel, (h.aborts (.tick 256000) (by decide)).mpr (Or.inr ⟨256000, rfl, ?_⟩)⟩
  exact ⟨by decide +kernel, by decide +kernel, by decide +kernel⟩

end TCPConnection

end Sponge
