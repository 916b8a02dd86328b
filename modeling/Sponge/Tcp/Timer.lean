import Sponge.Tcp.Sender

/-!
# The timer of a sender

The timer is a flag, two timeouts and a 32-bit count of milliseconds, with a counter of attempts that the
sender keeps outside of it, and it is started, reset and stopped from three places. `Timed` says where it
stands in natural numbers: `elapsed` milliseconds have passed since it was last started, and the oldest
segment has been sent again `attempts` times.

## What is proved

* `ackReceived_of_completes`, `ackReceived_of_not_completes` — the timer is reset by the acknowledgments
  that complete a segment, and by no other.
* `Timed.fills`, `Timed.completed`, `Timed.not_completed`, `Timed.tick` — each operation of the sender moves
  the timer as it should, and no count overflows.
-/

namespace Sponge

/-! ### What each operation does to the timer -/

namespace Timer

variable {t : Timer} (winSize ms num : ℕ)

theorem tictoc_of_stopped (h : t.active = false) : t.tictoc winSize ms num = (t, num) := by
  rw [tictoc, h, if_neg Bool.false_ne_true]

variable {ms}

theorem tictoc_of_lt (h : t.active = true) (hlt : (t.curTime + ms) % 2 ^ 32 < t.timeout) :
    t.tictoc winSize ms num = ({ t with curTime := (t.curTime + ms) % 2 ^ 32 }, num) := by
  rw [tictoc, h, if_pos rfl]
  exact if_neg (Nat.not_le.mpr hlt)

/-- The timer expires: it is stopped, and has doubled if the window was open. -/
theorem tictoc_of_le (h : t.active = true) (hle : t.timeout ≤ (t.curTime + ms) % 2 ^ 32) :
    t.tictoc winSize ms num =
      ({ t with
          active := false
          expired := true
          curTime := (t.curTime + ms) % 2 ^ 32
          timeout := if winSize ≠ 0 then t.timeout * 2 % 2 ^ 32 else t.timeout },
        if winSize ≠ 0 then (num + 1) % 2 ^ 32 else num) := by
  rw [tictoc, h, if_pos rfl]
  refine (if_pos hle).trans ?_
  unfold expire
  by_cases hopen : winSize ≠ 0
  · rw [if_pos hopen, if_pos hopen, if_pos hopen]
  · rw [if_neg hopen, if_neg hopen, if_neg hopen]

end Timer

namespace TCPSender

section Operations

variable {s s' : TCPSender} {w : ℕ}

/-- Sending starts the timer, unless it runs. -/
theorem Fills.timer (h : Fills s w s') : s'.consecutiveTransmitNum = s.consecutiveTransmitNum ∧
    (s'.waitAck = s.waitAck ∧ s'.timer = s.timer ∨
      s'.waitAck ≠ [] ∧ s'.timer = if s.timer.active then s.timer else s.timer.start) := by
  induction h with
  | stop => exact ⟨rfl, Or.inl ⟨rfl, rfl⟩⟩
  | @send s s' w _ _ _ _ ih =>
    obtain ⟨hnum, htimer⟩ := ih
    refine ⟨hnum, Or.inr ?_⟩
    rcases htimer with ⟨hwait, htimer⟩ | ⟨hwait, htimer⟩
    · refine ⟨?_, htimer⟩
      rw [hwait]
      exact List.append_ne_nil_of_right_ne_nil _ (List.cons_ne_nil _ _)
    · -- after the first segment it runs
      refine ⟨hwait, htimer.trans ?_⟩
      have hrun : ((s.advance w).transmit (s.nextSegment w).1).timer.active = true := by
        show (if s.timer.active = true then s.timer else s.timer.start).active = true
        by_cases hactive : s.timer.active = true
        · rwa [if_pos hactive]
        · rw [if_neg hactive]
          rfl
      rw [if_pos hrun]
      rfl

/-- Whether the loop of `ack_received` has removed a segment. -/
theorem popAcked_fst (isn : WrappingInt32) (a c flight : ℕ) (l : List TCPSegment) :
    (popAcked isn a c flight l).1 = true ∧ (popAcked isn a c flight l).2.2.length < l.length ∨
      (popAcked isn a c flight l).1 = false ∧ (popAcked isn a c flight l).2.2 = l := by
  cases l with
  | nil => exact Or.inr ⟨rfl, rfl⟩
  | cons seg l =>
    simp only [popAcked]
    split_ifs
    · refine Or.inl ⟨rfl, ?_⟩
      exact Nat.lt_succ_of_le (popAcked_suffix _ _ _ _ _).length_le
    · exact Or.inr ⟨rfl, rfl⟩

variable (s) (n : WrappingInt32) (window : UInt16)

/-- The acknowledgment completes a segment: fewer are outstanding after it. -/
def completes : Bool := decide ((s.ackReceived n window).waitAck.length < s.waitAck.length)

/-- An acknowledgment that completes a segment resets the timer. -/
theorem ackReceived_of_completes (h : s.completes n window = true) :
    (s.ackReceived n window).consecutiveTransmitNum = 0 ∧
      (s.ackReceived n window).timer =
        if (s.ackReceived n window).waitAck.isEmpty then s.timer.reset.stop else s.timer.reset.start := by
  rw [completes, decide_eq_true_eq] at h
  rcases Nat.lt_or_ge s.nextSeqno (unwrap n s.isn s.nextSeqno) with hgt | hle
  · rw [ackReceived_of_gt window hgt] at h
    exact absurd h (lt_irrefl _)
  · have hpop := congrArg Prod.snd (ackReceived_popAcked window hle)
    dsimp only at hpop
    rcases popAcked_fst s.isn (unwrap n s.isn s.nextSeqno) s.nextSeqno s.flightBytes s.waitAck with
      ⟨hpopped, -⟩ | ⟨-, hsame⟩
    · simp only [ackReceived, gt_iff_lt, not_lt.mpr hle, if_false, hpopped, if_true]
      exact ⟨trivial, trivial⟩
    · rw [hpop, hsame] at h
      exact absurd h (lt_irrefl _)

/-- Any other acknowledgment leaves the timer and what is outstanding as they are. -/
theorem ackReceived_of_not_completes (h : s.completes n window = false) :
    (s.ackReceived n window).waitAck = s.waitAck ∧
      (s.ackReceived n window).consecutiveTransmitNum = s.consecutiveTransmitNum ∧
        (s.ackReceived n window).timer = s.timer := by
  rw [completes, decide_eq_false_iff_not] at h
  rcases Nat.lt_or_ge s.nextSeqno (unwrap n s.isn s.nextSeqno) with hgt | hle
  · rw [ackReceived_of_gt window hgt]
    exact ⟨rfl, rfl, rfl⟩
  · have hpop := congrArg Prod.snd (ackReceived_popAcked window hle)
    dsimp only at hpop
    rcases popAcked_fst s.isn (unwrap n s.isn s.nextSeqno) s.nextSeqno s.flightBytes s.waitAck with
      ⟨-, hless⟩ | ⟨hpopped, hsame⟩
    · exact absurd (hpop ▸ hless) h
    · refine ⟨hpop.trans hsame, ?_⟩
      simp only [ackReceived, gt_iff_lt, not_lt.mpr hle, if_false, hpopped, Bool.false_eq_true]
      exact ⟨trivial, trivial⟩

end Operations

/-! ### The timer and the policy -/

/-- The timer is where the policy says: after `elapsed` milliseconds, `attempts` attempts and a last
window of `window`, with an initial timeout of `rtTimeout`. -/
structure Timed (rtTimeout elapsed attempts window : ℕ) (s : TCPSender) : Prop where
  /-- It runs while a segment is outstanding. -/
  running : s.timer.active = !s.waitAck.isEmpty
  /-- It is not left expired. -/
  expired : s.timer.expired = false
  /-- It knows the initial timeout. -/
  initTimeout : s.timer.initTimeout = rtTimeout
  /-- The timeout has doubled with every attempt. -/
  timeout : s.timer.timeout = rtTimeout * 2 ^ attempts
  /-- The attempts are counted. -/
  num : s.consecutiveTransmitNum = attempts
  /-- The time is counted while it runs, and has not reached the timeout. -/
  time : s.waitAck ≠ [] → s.timer.curTime = elapsed ∧ elapsed ≤ rtTimeout * 2 ^ attempts
  /-- The last window is known. -/
  window : s.windowSz = window

theorem timed_make (capacity : ℕ) (retxTimeout : UInt16) (fixedIsn : Option WrappingInt32)
    (random : WrappingInt32) :
    Timed retxTimeout.toNat 0 0 1 (make capacity retxTimeout fixedIsn random) :=
  ⟨rfl, rfl, rfl, (Nat.mul_one _).symm, rfl, fun h => absurd rfl h, rfl⟩

section

variable {rtTimeout elapsed attempts window w : ℕ} {s s' : TCPSender}

/-- With nothing outstanding no time is counted. -/
theorem Timed.elapsed_congr (h : Timed rtTimeout elapsed attempts window s) {elapsed' : ℕ}
    (heq : s.waitAck.isEmpty = false → elapsed' = elapsed) : Timed rtTimeout elapsed' attempts window s := by
  refine { h with time := fun hne => ?_ }
  rw [heq (List.isEmpty_eq_false_iff.mpr hne)]
  exact h.time hne

/-- Only the timer, the counter, the window and whether anything is outstanding matter. -/
theorem Timed.congr (h : Timed rtTimeout elapsed attempts window s) (htimer : s'.timer = s.timer)
    (hwait : s'.waitAck.isEmpty = s.waitAck.isEmpty)
    (hnum : s'.consecutiveTransmitNum = s.consecutiveTransmitNum) (hwindow : s'.windowSz = s.windowSz) :
    Timed rtTimeout elapsed attempts window s' := by
  refine ⟨?_, ?_, ?_, ?_, hnum.trans h.num, ?_, hwindow.trans h.window⟩
  · rw [htimer, hwait, h.running]
  · rw [htimer, h.expired]
  · rw [htimer, h.initTimeout]
  · rw [htimer, h.timeout]
  · intro hne
    have hne₀ : s.waitAck ≠ [] := by
      rw [← List.isEmpty_eq_false_iff, ← hwait, List.isEmpty_eq_false_iff]
      exact hne
    rw [htimer]
    exact h.time hne₀

/-- The timer has been started. -/
theorem timed_start {timer : Timer} (htimer : s'.timer = timer.start) (hinit : timer.initTimeout = rtTimeout)
    (htimeout : timer.timeout = rtTimeout * 2 ^ attempts) (hwait : s'.waitAck ≠ [])
    (hnum : s'.consecutiveTransmitNum = attempts) (hwindow : s'.windowSz = window) :
    Timed rtTimeout 0 attempts window s' := by
  refine ⟨?_, ?_, ?_, ?_, hnum, fun _ => ?_, hwindow⟩
  · rw [htimer, List.isEmpty_eq_false_iff.mpr hwait]
    rfl
  · rw [htimer]
    rfl
  · rw [htimer]
    exact hinit
  · rw [htimer]
    exact htimeout
  · rw [htimer]
    exact ⟨rfl, Nat.zero_le _⟩

/-- **Sending.** The timer is started if nothing was outstanding. -/
theorem Timed.fills (h : Timed rtTimeout elapsed attempts window s) (hf : Fills s w s') :
    Timed rtTimeout (if !s'.waitAck.isEmpty && s.waitAck.isEmpty then 0 else elapsed) attempts window s' := by
  obtain ⟨hnum, htimer⟩ := hf.timer
  have hwindow : s'.windowSz = s.windowSz := hf.frame.2.2.1
  rcases htimer with ⟨hwait, htimer⟩ | ⟨hwait, htimer⟩
  · rw [hwait, Bool.not_and_self, if_neg Bool.false_ne_true]
    exact h.congr htimer (congrArg List.isEmpty hwait) hnum hwindow
  · have hempty' : s'.waitAck.isEmpty = false := List.isEmpty_eq_false_iff.mpr hwait
    have hactive := h.running
    rw [hempty', Bool.not_false, Bool.true_and]
    cases hempty : s.waitAck.isEmpty with
    | false =>
      rw [hempty, Bool.not_false] at hactive
      rw [if_pos hactive] at htimer
      exact h.congr htimer (hempty'.trans hempty.symm) hnum hwindow
    | true =>
      rw [hempty, Bool.not_true] at hactive
      rw [hactive, if_neg Bool.false_ne_true] at htimer
      exact timed_start htimer h.initTimeout h.timeout hwait (hnum.trans h.num) (hwindow.trans h.window)

/-- The window that an acknowledgment leaves: only one of a position that has been sent counts. -/
theorem ackReceived_windowSz_eq (s : TCPSender) (n : WrappingInt32) (window : UInt16) :
    (s.ackReceived n window).windowSz =
      if unwrap n s.isn s.nextSeqno ≤ s.nextSeqno then window.toNat else s.windowSz := by
  split_ifs with hle
  · exact ackReceived_windowSz window hle
  · rw [ackReceived_of_gt window (not_le.mp hle)]

/-- **An acknowledgment that completes a segment** resets the timer, and starts it if another is
outstanding. -/
theorem Timed.completed (h : Timed rtTimeout elapsed attempts window s) {n : WrappingInt32} {win : UInt16}
    (hcompletes : s.completes n win = true) :
    Timed rtTimeout 0 0 (s.ackReceived n win).windowSz (s.ackReceived n win) := by
  obtain ⟨hnum, htimer⟩ := s.ackReceived_of_completes n win hcompletes
  have htimeout : s.timer.reset.timeout = rtTimeout * 2 ^ 0 := by
    rw [pow_zero, Nat.mul_one]
    exact h.initTimeout
  cases hempty : (s.ackReceived n win).waitAck.isEmpty with
  | false =>
    have hne := List.isEmpty_eq_false_iff.mp hempty
    rw [hempty, if_neg Bool.false_ne_true] at htimer
    exact timed_start htimer h.initTimeout htimeout hne hnum rfl
  | true =>
    rw [hempty, if_pos rfl] at htimer
    refine ⟨?_, ?_, ?_, ?_, hnum, ?_, rfl⟩
    · rw [htimer, hempty]
      rfl
    · rw [htimer]
      exact h.expired
    · rw [htimer]
      exact h.initTimeout
    · rw [htimer]
      exact htimeout
    · intro hne
      exact absurd (List.isEmpty_iff.mp hempty) hne

/-- **Any other acknowledgment** leaves the timer alone. -/
theorem Timed.not_completed (h : Timed rtTimeout elapsed attempts window s) {n : WrappingInt32} {win : UInt16}
    (hcompletes : s.completes n win = false) :
    Timed rtTimeout elapsed attempts (s.ackReceived n win).windowSz (s.ackReceived n win) := by
  obtain ⟨hwait, hnum, htimer⟩ := s.ackReceived_of_not_completes n win hcompletes
  have hsame : Timed rtTimeout elapsed attempts (s.ackReceived n win).windowSz
      { s with windowSz := (s.ackReceived n win).windowSz } := { h with window := rfl }
  exact hsame.congr htimer (congrArg List.isEmpty hwait) hnum rfl

/-- The timer expires within the next `ms` milliseconds. -/
def expires (s : TCPSender) (timeout elapsed ms : ℕ) : Bool :=
  !s.waitAck.isEmpty && decide (timeout ≤ elapsed + ms)

/-- Time passes without the timer expiring. -/
theorem tick_of_not_expired {ms : ℕ} {timer : Timer}
    (h : s.timer.tictoc (s.windowSz % 2 ^ 16) (ms % 2 ^ 32) s.consecutiveTransmitNum =
      (timer, s.consecutiveTransmitNum)) (hexpired : timer.expired = false) :
    s.tick ms = { s with timer } := by
  simp only [TCPSender.tick, h, Timer.isexpired, hexpired, Bool.false_and, Bool.false_eq_true, if_false]

/-- The timer expires with a segment outstanding. -/
theorem tick_of_expired {ms num : ℕ} {timer : Timer}
    (h : s.timer.tictoc (s.windowSz % 2 ^ 16) (ms % 2 ^ 32) s.consecutiveTransmitNum = (timer, num))
    (hexpired : timer.expired = true) (hwait : s.waitAck ≠ []) :
    s.tick ms = { s with
      timer := timer.start
      consecutiveTransmitNum := num
      segmentsOut := s.segmentsOut ++ s.waitAck.take 1 } := by
  have hempty := List.isEmpty_eq_false_iff.mpr hwait
  simp only [TCPSender.tick, h, Timer.isexpired, hexpired, hempty, Bool.not_false, Bool.and_self, if_true]

/-- **Time passes.** If the timer expires, the oldest segment is sent again and the timer is started, with
another attempt counted and twice the timeout if the window was open; if not, the time is counted. No
32-bit count overflows. -/
theorem Timed.tick (h : Timed rtTimeout elapsed attempts window s) {ms : ℕ} (hms : ms < 2 ^ 31)
    (hrt : rtTimeout < 2 ^ 16) (hattempts : attempts ≤ 8) (hwindow : window < 2 ^ 16) :
    Timed rtTimeout (if s.expires (rtTimeout * 2 ^ attempts) elapsed ms then 0 else elapsed + ms)
        (if s.expires (rtTimeout * 2 ^ attempts) elapsed ms && window != 0 then attempts + 1 else attempts)
        window (s.tick ms) ∧
      (s.tick ms).segmentsOut = s.segmentsOut ++
        if s.expires (rtTimeout * 2 ^ attempts) elapsed ms then s.waitAck.take 1 else [] := by
  have hbound : rtTimeout * 2 ^ attempts ≤ rtTimeout * 2 ^ 8 :=
    Nat.mul_le_mul_left _ (Nat.pow_le_pow_right (by decide) hattempts)
  have hmod : ms % 2 ^ 32 = ms := Nat.mod_eq_of_lt (by omega)
  have hwin : s.windowSz % 2 ^ 16 = window := by rw [h.window, Nat.mod_eq_of_lt hwindow]
  have htimeout := h.timeout
  have hactive := h.running
  cases hempty : s.waitAck.isEmpty with
  | true =>
    have hexpires : s.expires (rtTimeout * 2 ^ attempts) elapsed ms = false := by
      rw [expires, hempty, Bool.not_true, Bool.false_and]
    rw [hempty, Bool.not_true] at hactive
    rw [tick_of_not_expired (Timer.tictoc_of_stopped _ _ _ hactive) h.expired, hexpires]
    exact ⟨h.elapsed_congr fun hne => absurd hempty (by simp [hne]), (List.append_nil _).symm⟩
  | false =>
    have hne := List.isEmpty_eq_false_iff.mp hempty
    obtain ⟨htime, hle⟩ := h.time hne
    have hsum : (s.timer.curTime + ms % 2 ^ 32) % 2 ^ 32 = elapsed + ms := by
      rw [hmod, htime]
      exact Nat.mod_eq_of_lt (by omega)
    have hexpires : s.expires (rtTimeout * 2 ^ attempts) elapsed ms =
        decide (rtTimeout * 2 ^ attempts ≤ elapsed + ms) := by
      rw [expires, hempty, Bool.not_false, Bool.true_and]
    rw [hempty, Bool.not_false] at hactive
    rw [hexpires]
    rcases Nat.lt_or_ge (elapsed + ms) (rtTimeout * 2 ^ attempts) with hlt | hreached
    · rw [decide_eq_false (Nat.not_le.mpr hlt)]
      have htictoc := Timer.tictoc_of_lt (s.windowSz % 2 ^ 16) s.consecutiveTransmitNum hactive
        (show (s.timer.curTime + ms % 2 ^ 32) % 2 ^ 32 < s.timer.timeout by omega)
      rw [tick_of_not_expired htictoc h.expired]
      refine ⟨{ h with time := fun _ => ⟨hsum, ?_⟩ }, (List.append_nil _).symm⟩
      exact Nat.le_of_lt hlt
    · rw [decide_eq_true hreached]
      have htictoc := Timer.tictoc_of_le (s.windowSz % 2 ^ 16) s.consecutiveTransmitNum hactive
        (show s.timer.timeout ≤ (s.timer.curTime + ms % 2 ^ 32) % 2 ^ 32 by omega)
      rw [tick_of_expired htictoc rfl hne]
      refine ⟨timed_start rfl h.initTimeout ?_ hne ?_ h.window, rfl⟩
      · rw [hwin, htimeout]
        by_cases hopen : window = 0
        · simp [hopen]
        · simp only [hopen, ne_eq, not_false_eq_true, if_true, bne_iff_ne, Bool.true_and, pow_succ]
          rw [← Nat.mul_assoc]
          exact Nat.mod_eq_of_lt (by omega)
      · rw [hwin, h.num]
        by_cases hopen : window = 0
        · simp [hopen]
        · simp only [hopen, ne_eq, not_false_eq_true, if_true, bne_iff_ne, Bool.true_and]
          exact Nat.mod_eq_of_lt (by omega)

end

end TCPSender

end Sponge
