import Sponge.Host.Descriptor

/-!
# The event loop

An `EventLoop` has a list of rules. A pass (`wait_next_event`) asks each rule whether it is
interested, waits until the kernel reports something, and calls the rules whose descriptor is ready.
A rule whose descriptor is at its end, closed or hung up is cancelled: its `cancel` is called and it
is erased.

## The model

A rule's callbacks are programs. Those of the code change only the variables they have captured,
which here are the variables of the process. A pass returns the rules that are left. The poll
results are kept in a vector beside the list of rules and found by counting, as in the code; reading
past the end of the vector is undefined.

## What is proved

* `setUp_outcome`, `dispatch_outcome` — invariants of the two loops.
* `waitNextEvent_outcome` — what a pass does, from what cancelling and calling a rule does. In
  particular the two lists stay aligned, and no pass is taken for a busy wait if every callback
  reads or writes its descriptor or loses interest.
-/

namespace Sponge

variable {δ τ : Type}

/-- What a rule waits for. -/
inductive Direction where
  /-- The descriptor can be read. -/
  | In
  /-- The descriptor can be written. -/
  | Out
  deriving DecidableEq

/-! ### The bits of `poll` -/

/-- `POLLIN`. -/
def pollIn : UInt16 := 0x001

/-- `POLLOUT`. -/
def pollOut : UInt16 := 0x004

/-- `POLLERR`. -/
def pollErr : UInt16 := 0x008

/-- `POLLHUP`. -/
def pollHup : UInt16 := 0x010

/-- `POLLNVAL`. -/
def pollNval : UInt16 := 0x020

/-- The bit of a direction. -/
def Direction.events : Direction → UInt16
  | In => pollIn
  | Out => pollOut

theorem Direction.events_ne_zero (d : Direction) : d.events ≠ 0 := by cases d <;> decide

/-- `pollfd`, without the number of the descriptor. -/
structure PollFd where
  /-- The events that are asked for. -/
  events : UInt16
  /-- The events that have been reported. -/
  revents : UInt16 := 0
  deriving DecidableEq

namespace PollFd

/-- The descriptor is in error. -/
def error (p : PollFd) : Bool := p.revents &&& (pollErr ||| pollNval) != 0

/-- What was asked for has been reported. -/
def ready (p : PollFd) : Bool := p.revents &&& p.events != 0

/-- Something was asked for, and all that has been reported is that nobody is there any more. -/
def hungUp (p : PollFd) : Bool := p.revents &&& pollHup != 0 && p.events != 0 && !p.ready

end PollFd

/-- `Rule`. -/
structure Rule (δ τ : Type) where
  /-- The descriptor. -/
  fd : δ
  /-- What to wait for. -/
  direction : Direction
  /-- Called when the descriptor is ready. -/
  callback : Prog δ τ Unit
  /-- Whether to wait at all. -/
  interest : Process δ τ → Bool
  /-- Called when the rule is erased. -/
  cancel : Prog δ τ Unit := pure ()

namespace Rule

/-- `service_count`. -/
def serviceCount (rule : Rule δ τ) (s : Process δ τ) : UInt32 :=
  match rule.direction with
  | .In => (s.fds rule.fd).readCount
  | .Out => (s.fds rule.fd).writeCount

/-- The rule is of no use any more. -/
def stale (rule : Rule δ τ) (s : Process δ τ) : Bool :=
  (rule.direction == .In && (s.fds rule.fd).eof) || (s.fds rule.fd).closed

end Rule

namespace EventLoop

/-- `Result`. -/
inductive Result where
  /-- At least one rule was triggered. -/
  | success
  /-- No rule was triggered in time. -/
  | timeout
  /-- No rule is left, or none is interested. -/
  | exit
  deriving DecidableEq

/-- The first loop of a pass: the rules that are left, and what `poll` is asked for each. -/
def setUp : List (Rule δ τ) → Prog δ τ (List (Rule δ τ) × List PollFd)
  | [] => return ([], [])
  | rule :: rest => do
    if rule.stale (← get) then
      rule.cancel
      setUp rest
    else
      let events := if rule.interest (← get) then rule.direction.events else 0
      let (rules, pollfds) ← setUp rest
      return (rule :: rules, { events } :: pollfds)

/-- The second loop of a pass: the rules that are left. -/
def dispatch (pollfds : List PollFd) : ℕ → List (Rule δ τ) → Prog δ τ (List (Rule δ τ))
  | _, [] => return []
  | idx, rule :: rest =>
    match pollfds[idx]? with
    | none => throw .undefined
    | some pollfd => do
      if pollfd.error then
        throw (.exception (.runtimeError "EventLoop: error on polled file descriptor"))
      if pollfd.hungUp then
        rule.cancel
        dispatch pollfds (idx + 1) rest
      else
        if pollfd.ready then
          let countBefore := rule.serviceCount (← get)
          rule.callback
          let s ← get
          if countBefore == rule.serviceCount s && rule.interest s then
            throw (.exception (.runtimeError
              "EventLoop: busy wait detected: callback did not read/write fd and is still interested"))
        let rules ← dispatch pollfds (idx + 1) rest
        return rule :: rules

/-- What `poll` comes back with. -/
inductive Polled where
  /-- Nothing has happened in time. -/
  | timeout
  /-- A signal has been caught. -/
  | interrupted
  /-- The descriptors, with what has happened to them. -/
  | reported (pollfds : List PollFd)
  deriving DecidableEq

/-- `poll`. An error other than a signal is caught, and nothing has been reported. -/
def poll (pollfds : List PollFd) : Prog δ τ Polled := do
  let answer := (← get).next
  modify Process.answered
  return match answer.errno with
    | some .eintr => .interrupted
    | some .other => .reported pollfds
    | none =>
      if answer.count = 0 then .timeout
      else .reported (pollfds.zipWith (fun p revents => { p with revents })
        (answer.revents ++ List.replicate pollfds.length 0))

/-- `wait_next_event`. -/
def waitNextEvent (rules : List (Rule δ τ)) : Prog δ τ (Result × List (Rule δ τ)) := do
  let (rules, pollfds) ← setUp rules
  if pollfds.all (·.events == 0) then
    return (.exit, rules)
  match ← poll pollfds with
  | .timeout => return (.timeout, rules)
  | .interrupted => return (.exit, rules)
  | .reported pollfds => return (.success, ← dispatch pollfds 0 rules)

/-! ### Invariants of the two loops -/

section Loops

variable {E : Failure → Process δ τ → Prop}

/-- **The first loop.** `C kept rest` holds when the rules of `kept` have been kept, each with
whether it is interested, and those of `rest` are still to be asked. -/
theorem setUp_outcome {C : List (Rule δ τ × Bool) → List (Rule δ τ) → Process δ τ → Prop}
    (hkeep : ∀ {kept r rest s}, C kept (r :: rest) s → r.stale s = false →
      C (kept ++ [(r, r.interest s)]) rest s)
    (herase : ∀ {kept r rest s}, C kept (r :: rest) s → r.stale s = true →
      Outcome (fun _ s' => C kept rest s') E (r.cancel s))
    {kept : List (Rule δ τ × Bool)} {rules : List (Rule δ τ)} {s : Process δ τ} (h : C kept rules s) :
    Outcome (fun r s' => ∃ new : List (Rule δ τ × Bool), r.1 = new.map Prod.fst ∧
        r.2 = (new.map fun x => { events := if x.2 then x.1.direction.events else 0 }) ∧ C (kept ++ new) [] s')
      E (setUp rules s) := by
  induction rules generalizing kept s with
  | nil => exact ⟨[], rfl, rfl, by rwa [List.append_nil]⟩
  | cons rule rest ih =>
    simp only [setUp, outcome_bind, outcome_get, outcome_ite]
    refine ⟨fun hstale => (herase h hstale).mono (fun _ s' h' => ih h') fun _ _ he => he, fun hfresh => ?_⟩
    have hkept := hkeep h (Bool.not_eq_true _ ▸ hfresh)
    refine (ih hkept).mono ?_ fun _ _ he => he
    rintro ⟨rules, pollfds⟩ s' ⟨new, rfl, rfl, hC⟩
    exact ⟨(rule, rule.interest s) :: new, rfl, rfl, by rwa [List.append_assoc] at hC⟩

/-- **The second loop.** `D kept rest` holds when the rules of `kept` have been gone through and
kept, and those of `rest` are still to come. -/
theorem dispatch_outcome {D : List (Rule δ τ) → List (Rule δ τ × Bool) → Process δ τ → Prop}
    (hskip : ∀ {kept r b rest s}, D kept ((r, b) :: rest) s → D (kept ++ [r]) rest s)
    (hcall : ∀ {kept r rest s}, D kept ((r, true) :: rest) s →
      Outcome (fun _ s' => D (kept ++ [r]) rest s' ∧
        (r.serviceCount s' = r.serviceCount s → r.interest s' = false)) E (r.callback s))
    (hcancel : ∀ {kept r rest s}, D kept ((r, true) :: rest) s →
      Outcome (fun _ s' => D kept rest s') E (r.cancel s))
    (herror : ∀ {kept rest s}, D kept rest s →
      E (.exception (.runtimeError "EventLoop: error on polled file descriptor")) s)
    {pollfds : List PollFd} {idx : ℕ} {kept : List (Rule δ τ)} {rest : List (Rule δ τ × Bool)}
    {s : Process δ τ} (h : D kept rest s)
    (haligned : (pollfds.drop idx).map PollFd.events =
      rest.map fun x => if x.2 then x.1.direction.events else 0) :
    Outcome (fun rules s' => D (kept ++ rules) [] s') E (dispatch pollfds idx (rest.map Prod.fst) s) := by
  induction rest generalizing idx kept s with
  | nil =>
    show D (kept ++ []) [] s
    rwa [List.append_nil]
  | cons x rest ih =>
    obtain ⟨rule, interested⟩ := x
    -- the poll result of the rule
    rw [List.map_cons] at haligned
    obtain ⟨pollfd, more, hdrop, hevents, hmore⟩ := List.map_eq_cons_iff.mp haligned
    have hpollfd : pollfds[idx]? = some pollfd := by
      rw [← Nat.add_zero idx, ← List.getElem?_drop, hdrop]
      rfl
    have hrest : pollfds.drop (idx + 1) = more := by
      rw [← List.drop_drop, hdrop]
      rfl
    -- something was asked for only if the rule was interested
    have hasked : pollfd.events ≠ 0 → interested = true := by
      intro hne
      by_contra hno
      simp only [hno, if_false] at hevents
      exact hne hevents
    simp only [List.map_cons, dispatch, hpollfd, outcome_bind, outcome_ite, outcome_throw, outcome_get]
    refine ⟨fun _ => herror h, fun _ => ⟨fun hup => ?_, fun _ => ⟨fun hready => ?_, fun _ => ?_⟩⟩⟩
    · have hne : pollfd.events ≠ 0 := by
        simp only [PollFd.hungUp, Bool.and_eq_true, bne_iff_ne] at hup
        exact hup.1.2
      obtain rfl := hasked hne
      exact (hcancel h).mono (fun _ s' h' => ih h' (by rw [hrest, hmore])) fun _ _ he => he
    · have hne : pollfd.events ≠ 0 := by
        intro hzero
        simp [PollFd.ready, hzero] at hready
      obtain rfl := hasked hne
      refine (hcall h).mono ?_ fun _ _ he => he
      rintro - s' ⟨h', hserved⟩
      refine ⟨fun hbusy => ?_, fun _ => ?_⟩
      · obtain ⟨hsame, hstill⟩ := Bool.and_eq_true_iff.mp hbusy
        rw [hserved (beq_iff_eq.mp hsame).symm] at hstill
        cases hstill
      · refine (ih h' (by rw [hrest, hmore])).mono (fun rules s'' h'' => ?_) fun _ _ he => he
        rwa [List.append_assoc] at h''
    · refine (ih (hskip h) (by rw [hrest, hmore])).mono (fun rules s'' h'' => ?_) fun _ _ he => he
      rwa [List.append_assoc] at h''

end Loops

/-! ### A pass -/

/-- What `poll` reports does not change what it was asked for. -/
theorem events_reported (pollfds : List PollFd) (revents : List UInt16) (h : pollfds.length ≤ revents.length) :
    (pollfds.zipWith (fun p revents => { p with revents }) revents).map PollFd.events =
      pollfds.map PollFd.events := by
  induction pollfds generalizing revents with
  | nil => rfl
  | cons p pollfds ih =>
    cases revents with
    | nil => exact absurd h (Nat.not_succ_le_zero _)
    | cons r revents =>
      rw [List.zipWith_cons_cons, List.map_cons, List.map_cons, ih revents (Nat.le_of_succ_le_succ h)]

/-- How a pass has ended that has begun with the rules of `kept`. -/
inductive Passed (C : List (Rule δ τ × Bool) → List (Rule δ τ) → Process δ τ → Prop)
    (D : List (Rule δ τ) → List (Rule δ τ × Bool) → Process δ τ → Prop) :
    Result × List (Rule δ τ) → Process δ τ → Prop where
  /-- No rule is interested. -/
  | idle {kept : List (Rule δ τ × Bool)} {s : Process δ τ} : C kept [] s → (∀ x ∈ kept, x.2 = false) →
      Passed C D (.exit, kept.map Prod.fst) s
  /-- A signal has been caught. -/
  | interrupted {kept : List (Rule δ τ × Bool)} {s : Process δ τ} : C kept [] s → s.next.errno = some .eintr →
      Passed C D (.exit, kept.map Prod.fst) s.answered
  /-- Nothing has happened in time. -/
  | timeout {kept : List (Rule δ τ × Bool)} {s : Process δ τ} : C kept [] s →
      Passed C D (.timeout, kept.map Prod.fst) s.answered
  /-- All rules have been gone through. -/
  | success {rules : List (Rule δ τ)} {s : Process δ τ} : D rules [] s → Passed C D (.success, rules) s

/-- **A pass**, from what cancelling and calling a rule does: `C` is kept by the first loop, and `D`
by the second. -/
theorem waitNextEvent_outcome {C : List (Rule δ τ × Bool) → List (Rule δ τ) → Process δ τ → Prop}
    {D : List (Rule δ τ) → List (Rule δ τ × Bool) → Process δ τ → Prop} {E : Failure → Process δ τ → Prop}
    (hkeep : ∀ {kept r rest s}, C kept (r :: rest) s → r.stale s = false →
      C (kept ++ [(r, r.interest s)]) rest s)
    (herase : ∀ {kept r rest s}, C kept (r :: rest) s → r.stale s = true →
      Outcome (fun _ s' => C kept rest s') E (r.cancel s))
    (hpoll : ∀ {kept s}, C kept [] s → D [] kept s.answered)
    (hskip : ∀ {kept r b rest s}, D kept ((r, b) :: rest) s → D (kept ++ [r]) rest s)
    (hcall : ∀ {kept r rest s}, D kept ((r, true) :: rest) s →
      Outcome (fun _ s' => D (kept ++ [r]) rest s' ∧
        (r.serviceCount s' = r.serviceCount s → r.interest s' = false)) E (r.callback s))
    (hcancel : ∀ {kept r rest s}, D kept ((r, true) :: rest) s →
      Outcome (fun _ s' => D kept rest s') E (r.cancel s))
    (herror : ∀ {kept rest s}, D kept rest s →
      E (.exception (.runtimeError "EventLoop: error on polled file descriptor")) s)
    {rules : List (Rule δ τ)} {s : Process δ τ} (h : C [] rules s) :
    Outcome (Passed C D) E (waitNextEvent rules s) := by
  simp only [waitNextEvent, outcome_bind]
  refine (setUp_outcome (C := C) hkeep herase h).mono ?_ fun _ _ he => he
  rintro ⟨-, -⟩ s₁ ⟨kept, rfl, rfl, hC⟩
  rw [List.nil_append] at hC
  simp only [outcome_ite, outcome_pure, poll, outcome_bind, outcome_get, outcome_modify]
  refine ⟨fun hidle => .idle hC fun x hx => ?_, fun _ => ?_⟩
  · by_contra hne
    have hzero := List.all_eq_true.mp hidle _ (List.mem_map_of_mem hx)
    simp only [Bool.not_eq_false] at hne
    simp only [hne, if_true, beq_iff_eq] at hzero
    exact x.1.direction.events_ne_zero hzero
  -- the answer to `poll`
  have hdispatch : ∀ pollfds : List PollFd,
      pollfds.map PollFd.events = (kept.map fun x => if x.2 then x.1.direction.events else 0) →
      Outcome (Passed C D) E ((do return (.success, ← dispatch pollfds 0 (kept.map Prod.fst)) :
        Prog δ τ (Result × List (Rule δ τ))) s₁.answered) := by
    intro pollfds hevents
    rw [outcome_bind]
    have haligned : (pollfds.drop 0).map PollFd.events = _ := hevents
    refine (dispatch_outcome (D := D) hskip hcall hcancel herror (hpoll hC) haligned).mono (fun rules s' h' => ?_)
      fun _ _ he => he
    exact .success h'
  cases herrno : s₁.next.errno with
  | some errno =>
    cases errno with
    | eintr => exact .interrupted hC herrno
    | other => exact hdispatch _ (by rw [List.map_map]; rfl)
  | none =>
    by_cases hcount : s₁.next.count = 0
    · simp only [hcount, if_true]
      exact .timeout hC
    · simp only [hcount, if_false]
      refine hdispatch _ ?_
      rw [events_reported, List.map_map]
      · rfl
      · rw [List.length_append, List.length_replicate]
        exact Nat.le_add_left _ _

end EventLoop

end Sponge
