import Sponge.Host.Simulation

/-!
# The turns of a socket

A turn of `_tcp_loop` is a pass of the event loop and, while the connection is alive, a tick. Within
a pass the four rules are gone through in their order, and what makes a call of one of them right
has been made sure of by those before it: a segment is given to the connection before the owner is
told that there is no more; the owner's bytes are read only if the owner has not ended its stream,
which the pass has asked before.

## What is proved

* `pass_outcome` — what a pass does, whichever rules are left, whatever the kernel reports.
* `tcpLoop_outcome` — what a turn does. It has the effect of moves of one side of a connection; the
  owner is told that the stream is over only if it is; the thread ends only if it was told to, if it
  was interrupted, or if no rule has anything left to do.
-/

namespace Sponge

open Relation TCPSpongeSocket

variable {A K : Type} [DatagramAdapter A K] [LawfulAdapter A] {s s' : Process SocketFd (TCPSpongeSocket A)}

/-- The place of a rule among the four. -/
def Rule.place {τ : Type} (rule : Rule SocketFd τ) : ℕ :=
  match rule.fd, rule.direction with
  | .datagram, .In => 1
  | .thread, .In => 2
  | .thread, .Out => 3
  | _, _ => 4

omit [LawfulAdapter A] in
theorem rules_pairwise : (rules : List (Rule SocketFd (TCPSpongeSocket A))).Pairwise (·.place < ·.place) := by
  simp [rules, rule1, rule2, rule3, rule4, Rule.place]

omit [LawfulAdapter A] in
theorem mem_rules {r : Rule SocketFd (TCPSpongeSocket A)} :
    r ∈ rules ↔ r = rule1 ∨ r = rule2 ∨ r = rule3 ∨ r = rule4 := by
  simp [rules]

/-- The first loop, begun at `s₀`. -/
structure SettingUp (s₀ : Process SocketFd (TCPSpongeSocket A)) (kept : List (Rule SocketFd (TCPSpongeSocket A) × Bool))
    (rest : List (Rule SocketFd (TCPSpongeSocket A))) (s : Process SocketFd (TCPSpongeSocket A)) : Prop where
  /-- What has happened so far. -/
  effect : Effect s₀ s
  /-- No call has been made. -/
  answers : s.answers = s₀.answers
  /-- No call has been made. -/
  calls : s.calls = s₀.calls
  /-- The rules are some of the four, in order. -/
  rules : (kept.map Prod.fst ++ rest).Sublist rules
  /-- The rules that have been asked would answer the same again. -/
  interest : ∀ x ∈ kept, x.2 = x.1.interest s

/-- The second loop, begun at `s₀`. -/
structure Dispatching (s₀ : Process SocketFd (TCPSpongeSocket A)) (kept : List (Rule SocketFd (TCPSpongeSocket A)))
    (rest : List (Rule SocketFd (TCPSpongeSocket A) × Bool)) (s : Process SocketFd (TCPSpongeSocket A)) : Prop where
  /-- What has happened so far. -/
  effect : Effect s₀ s
  /-- The rules are some of the four, in order. -/
  rules : (kept ++ rest.map Prod.fst).Sublist rules
  /-- Rule 2 is called only if the owner may still write. -/
  opened : ((rule2, true) : Rule SocketFd (TCPSpongeSocket A) × Bool) ∈ rest → s.own.outboundShutdown = false
  /-- When the owner has been told that the stream is over, it is, and no segment will arrive in
  this pass. -/
  told : .shutdown .thread .wr ∈ s.calls → .shutdown .thread .wr ∈ s₀.calls ∨
    InboundOver s.own.tcp ∧ rule1 ∉ rest.map Prod.fst

namespace Dispatching

variable {s₀ : Process SocketFd (TCPSpongeSocket A)} {kept : List (Rule SocketFd (TCPSpongeSocket A))}
  {r : Rule SocketFd (TCPSpongeSocket A)} {b : Bool} {rest : List (Rule SocketFd (TCPSpongeSocket A) × Bool)}

theorem mem (h : Dispatching s₀ kept ((r, b) :: rest) s) : r ∈ TCPSpongeSocket.rules :=
  h.rules.subset (List.mem_append_right _ List.mem_cons_self)

/-- The rules that follow have a later place. -/
theorem later (h : Dispatching s₀ kept ((r, b) :: rest) s) : ∀ r' ∈ rest.map Prod.fst, r.place < r'.place := by
  have hpairwise := List.Pairwise.sublist h.rules rules_pairwise
  rw [List.map_cons] at hpairwise
  exact (List.pairwise_cons.mp (List.pairwise_append.mp hpairwise).2.1).1

theorem stop (h : Dispatching s₀ kept rest s) (h' : Stop s s') : Halt s₀ s' :=
  h.effect.trans_halt (fun hshut => (h.told hshut).imp_right And.left) h'

/-- A rule has been gone through. -/
theorem next (h : Dispatching s₀ kept ((r, b) :: rest) s) (heffect : Effect s s')
    (hopened : ((rule2, true) : Rule SocketFd (TCPSpongeSocket A) × Bool) ∈ rest →
      s'.own.outboundShutdown = s.own.outboundShutdown)
    (htold : .shutdown .thread .wr ∈ s'.calls → .shutdown .thread .wr ∈ s₀.calls ∨
      InboundOver s'.own.tcp ∧ rule1 ∉ rest.map Prod.fst) : Dispatching s₀ (kept ++ [r]) rest s' := by
  refine ⟨h.effect.trans heffect, ?_, fun hmem => ?_, htold⟩
  · rw [List.append_assoc]
    exact h.rules
  · rw [hopened hmem]
    exact h.opened (List.mem_cons_of_mem _ hmem)

end Dispatching

section Pass

variable {s₀ : Process SocketFd (TCPSpongeSocket A)} {kept : List (Rule SocketFd (TCPSpongeSocket A))}
  {r : Rule SocketFd (TCPSpongeSocket A)} {rest : List (Rule SocketFd (TCPSpongeSocket A) × Bool)}

/-- A rule is called. -/
theorem Dispatching.call (hs₀ : Consistent s₀) (h : Dispatching s₀ kept ((r, true) :: rest) s) :
    Outcome (fun _ s' => Dispatching s₀ (kept ++ [r]) rest s' ∧
        (r.serviceCount s' = r.serviceCount s → r.interest s' = false))
      (fun e s' => e.FromKernel ∧ Halt s₀ s') (r.callback s) := by
  have hlater := h.later
  rcases mem_rules.mp h.mem with rfl | rfl | rfl | rfl
  · -- nobody has been told anything yet in this pass
    refine (rule1_effect s).mono ?_ fun e s' he => ⟨he.1, h.stop he.2⟩
    rintro - s' ⟨heffect, ⟨call, hcalls, hfd⟩, hout, hcount⟩
    refine ⟨h.next heffect (fun _ => hout) fun hshut => ?_, fun hsame => ?_⟩
    · rw [hcalls, List.mem_append] at hshut
      have hnew := shutdown_not_mem_datagram (List.forall_mem_singleton.mpr hfd)
      rcases h.told (hshut.resolve_right hnew) with hold | ⟨-, hnot⟩
      · exact Or.inl hold
      · exact absurd List.mem_cons_self hnot
    · replace hsame : (s'.fds .datagram).readCount = (s.fds .datagram).readCount := hsame
      simp [hcount] at hsame
  · refine (rule2_effect s (h.opened List.mem_cons_self)).mono ?_ fun e s' he => ⟨he.1, h.stop he.2⟩
    rintro - s' ⟨heffect, ⟨data, hcalls⟩, hinbound, hcount⟩
    refine ⟨h.next heffect (fun hmem => ?_) fun hshut => ?_, fun hsame => ?_⟩
    · exact absurd (hlater _ (List.mem_map_of_mem hmem)) (Nat.lt_irrefl _)
    · rw [hcalls, List.mem_append, List.mem_singleton] at hshut
      rcases h.told (hshut.resolve_right (by simp)) with hold | ⟨hover, hnot⟩
      · exact Or.inl hold
      · rw [InboundOver, hinbound]
        exact Or.inr ⟨hover, fun hmem => hnot (List.mem_cons_of_mem _ hmem)⟩
    · replace hsame : (s'.fds .thread).readCount = (s.fds .thread).readCount := hsame
      simp [hcount] at hsame
  · refine (rule3_effect s).mono ?_ fun e s' he => ⟨he.1, h.stop he.2⟩
    rintro - s' ⟨heffect, hout, hcount, hover, htold⟩
    have hnot : (rule1 : Rule SocketFd (TCPSpongeSocket A)) ∉ rest.map Prod.fst := by
      intro hmem
      exact absurd (hlater _ hmem) (by simp [Rule.place, rule1, rule3])
    refine ⟨h.next heffect (fun _ => hout) fun hshut => ?_, fun hsame => absurd hsame hcount⟩
    rcases htold hshut with hold | hnow
    · exact (h.told hold).imp_right fun hb => ⟨hover hb.1, hnot⟩
    · exact Or.inr ⟨hnow, hnot⟩
  · refine (rule4_effect (h.effect.consistent hs₀).fitting).mono ?_ fun e s' he => ⟨he.1, h.stop he.2⟩
    rintro - s' ⟨heffect, hout, htcp, hshut⟩
    refine ⟨h.next heffect (fun _ => hout) fun hmem => ?_, fun _ => ?_⟩
    · refine (h.told (hshut hmem)).imp_right fun hb => ⟨?_, fun hmem => hb.2 (List.mem_cons_of_mem _ hmem)⟩
      rw [htcp]
      exact hb.1
    · simp [rule4, htcp]

omit [LawfulAdapter A] in
/-- Cancelling a rule but the second does nothing. -/
theorem cancel_eq (h : r ∈ (rules : List (Rule SocketFd (TCPSpongeSocket A)))) (hne : r ≠ rule2) :
    r.cancel = pure () := by
  rcases mem_rules.mp h with rfl | rfl | rfl | rfl
  · rfl
  · exact absurd rfl hne
  · rfl
  · rfl

/-- A rule is cancelled. -/
theorem Dispatching.cancel (h : Dispatching s₀ kept ((r, true) :: rest) s) :
    Outcome (fun _ s' => Dispatching s₀ kept rest s') (fun e s' => e.FromKernel ∧ Halt s₀ s') (r.cancel s) := by
  have hrules : (kept ++ rest.map Prod.fst).Sublist TCPSpongeSocket.rules :=
    (List.Sublist.append_left (List.sublist_cons_self _ _) _).trans h.rules
  have hlater := h.later
  by_cases hr : r = rule2
  · subst hr
    refine ⟨h.effect.trans (effect_endOutbound s), hrules, fun hmem => ?_, fun hshut => ?_⟩
    · exact absurd (hlater _ (List.mem_map_of_mem hmem)) (Nat.lt_irrefl _)
    · exact (h.told hshut).imp_right fun hb => ⟨hb.1, fun hmem => hb.2 (List.mem_cons_of_mem _ hmem)⟩
  · rw [cancel_eq h.mem hr]
    refine ⟨h.effect, hrules, fun hmem => h.opened (List.mem_cons_of_mem _ hmem), fun hshut => ?_⟩
    exact (h.told hshut).imp_right fun hb => ⟨hb.1, fun hmem => hb.2 (List.mem_cons_of_mem _ hmem)⟩

/-- A rule is skipped. -/
theorem Dispatching.skip {b : Bool} (h : Dispatching s₀ kept ((r, b) :: rest) s) :
    Dispatching s₀ (kept ++ [r]) rest s := by
  refine h.next (.refl s) (fun _ => rfl) fun hshut => ?_
  exact (h.told hshut).imp_right fun hb => ⟨hb.1, fun hmem => hb.2 (List.mem_cons_of_mem _ hmem)⟩

variable {asked : List (Rule SocketFd (TCPSpongeSocket A) × Bool)} {left : List (Rule SocketFd (TCPSpongeSocket A))}

/-- A rule is kept. -/
theorem SettingUp.keep (h : SettingUp s₀ asked (r :: left) s) : SettingUp s₀ (asked ++ [(r, r.interest s)]) left s := by
  refine ⟨h.effect, h.answers, h.calls, ?_, List.forall_mem_append.mpr ⟨h.interest, by simp⟩⟩
  rw [List.map_append, List.append_assoc]
  exact h.rules

/-- A rule is erased. -/
theorem SettingUp.erase (h : SettingUp s₀ asked (r :: left) s) :
    Outcome (fun _ s' => SettingUp s₀ asked left s') (fun e s' => e.FromKernel ∧ Halt s₀ s') (r.cancel s) := by
  have hmem : r ∈ TCPSpongeSocket.rules := h.rules.subset (List.mem_append_right _ List.mem_cons_self)
  have hrules : (asked.map Prod.fst ++ left).Sublist TCPSpongeSocket.rules :=
    (List.Sublist.append_left (List.sublist_cons_self _ _) _).trans h.rules
  by_cases hr : r = rule2
  · subst hr
    refine ⟨h.effect.trans (effect_endOutbound s), h.answers, h.calls, hrules, fun x hx => ?_⟩
    -- only rule 1 can have been asked before, and what it answers is not changed
    have hplace := (List.pairwise_append.mp (List.Pairwise.sublist h.rules rules_pairwise)).2.2 x.1
      (List.mem_map_of_mem hx) rule2 List.mem_cons_self
    have hx' := h.interest x hx
    rcases mem_rules.mp (h.rules.subset (List.mem_append_left _ (List.mem_map_of_mem hx))) with heq | heq | heq | heq
    · rw [heq] at hx' ⊢
      exact hx'
    all_goals
      rw [heq] at hplace
      simp [Rule.place, rule2, rule3, rule4] at hplace
  · rw [cancel_eq hmem hr]
    exact ⟨h.effect, h.answers, h.calls, hrules, h.interest⟩

/-- The kernel has answered, and the second loop begins. -/
theorem SettingUp.poll (h : SettingUp s₀ asked [] s) : Dispatching s₀ [] asked s.answered := by
  refine ⟨h.effect.congr rfl rfl, ?_, fun hmem => ?_, fun hshut => Or.inl (h.calls ▸ hshut)⟩
  · rw [List.nil_append, ← List.append_nil (asked.map Prod.fst)]
    exact h.rules
  · have hinterest := (h.interest _ hmem).symm
    simp only [rule2, Bool.and_eq_true, Bool.not_eq_true'] at hinterest
    exact hinterest.1.2

/-- What a pass has done that has begun at `s₀`. -/
structure PassedFrom (s₀ : Process SocketFd (TCPSpongeSocket A))
    (r : EventLoop.Result × List (Rule SocketFd (TCPSpongeSocket A)))
    (s : Process SocketFd (TCPSpongeSocket A)) : Prop where
  /-- What has happened. -/
  effect : Effect s₀ s
  /-- The rules are some of the four, in order. -/
  rules : r.2.Sublist rules
  /-- When the owner has been told that the stream is over, it is. -/
  told : .shutdown .thread .wr ∈ s.calls → .shutdown .thread .wr ∈ s₀.calls ∨ InboundOver s.own.tcp
  /-- The loop ends if it has been interrupted, or no rule has anything to do. -/
  exit : r.1 = .exit → s₀.next.errno = some .eintr ∨ ∀ rule ∈ r.2, rule.interest s = false

/-- **A pass**, whichever rules are left, whatever the kernel reports. -/
theorem pass_outcome (hs₀ : Consistent s₀) (hleft : left.Sublist rules) :
    Outcome (PassedFrom s₀) (fun e s' => e.FromKernel ∧ Halt s₀ s') (EventLoop.waitNextEvent left s₀) := by
  have hstart : SettingUp s₀ [] left s₀ := ⟨.refl s₀, rfl, rfl, hleft, by simp⟩
  refine (EventLoop.waitNextEvent_outcome (C := SettingUp s₀) (D := Dispatching s₀) (fun h _ => h.keep)
    (fun h _ => h.erase) (fun h => h.poll) (fun h => h.skip) (fun h => h.call hs₀) (fun h => h.cancel)
    (fun h => ⟨by simp [Failure.FromKernel], h.stop (stop_of_calls rfl rfl rfl)⟩) hstart).mono ?_ fun _ _ he => he
  have hnames : ∀ {asked s}, SettingUp s₀ asked [] s → (asked.map Prod.fst).Sublist rules := by
    intro asked s h
    rw [← List.append_nil (asked.map Prod.fst)]
    exact h.rules
  rintro - s (⟨h, hidle⟩ | ⟨h, heintr⟩ | h | h)
  · refine ⟨h.effect, hnames h, fun hshut => Or.inl (h.calls ▸ hshut), fun _ => Or.inr fun rule hrule => ?_⟩
    obtain ⟨x, hx, rfl⟩ := List.mem_map.mp hrule
    exact (h.interest x hx).symm.trans (hidle x hx)
  · refine ⟨h.effect.congr rfl rfl, hnames h, fun hshut => Or.inl (h.calls ▸ hshut), fun _ => Or.inl ?_⟩
    rw [← heintr, Process.next, Process.next, h.answers]
  · exact ⟨h.effect.congr rfl rfl, hnames h, fun hshut => Or.inl (h.calls ▸ hshut), by simp⟩
  · refine ⟨h.effect, ?_, fun hshut => (h.told hshut).imp_right And.left, by simp⟩
    rw [← List.append_nil (Prod.snd _)]
    exact h.rules

end Pass

/-! ### A turn -/

/-- Time passes. -/
theorem effect_tick (s : Process SocketFd (TCPSpongeSocket A)) (ms : ℕ) :
    Effect s { s with own := { s.own with tcp := s.own.tcp.tick ms } } := by
  refine effect_of_moves (List.append_nil _).symm Or.inl fun N p _ hconn hend => ?_
  refine ⟨p.run (.tick ms), .single (.run (.tick ms) (by simp)), extends_nil rfl rfl rfl, ?_, ?_⟩
  · exact congrArg (·.tick ms) hconn
  · exact (p.conn.tick_inputEnded ms).trans hend

/-- A connection whose inbound stream is over may fail, but the stream stays so. -/
theorem InboundOver.tick {c : TCPConnection} (h : InboundOver c) (ms : ℕ) : InboundOver (c.tick ms) := by
  simp only [TCPConnection.tick]
  split_ifs
  · exact Or.inr rfl
  · rw [InboundOver, TCPConnection.inboundStream, TCPConnection.tryCleanClose_receiver]
    exact h

/-- What a turn has done that has begun at `s₀`. -/
structure Turned (turn : Turn) (s₀ : Process SocketFd (TCPSpongeSocket A)) (thread : Thread A)
    (s : Process SocketFd (TCPSpongeSocket A)) : Prop where
  /-- The rules are some of the four, in order. -/
  rules : thread.rules.Sublist rules
  /-- What has happened, if the thread goes on; when the owner has been told that the stream is
  over, it is. -/
  effect : thread.stage ≠ .finished → Effect s₀ s ∧
    (.shutdown .thread .wr ∈ s.calls → .shutdown .thread .wr ∈ s₀.calls ∨ InboundOver s.own.tcp)
  /-- What has happened, if the thread has ended: the owner's end has been shut down, and the
  connection destroyed. -/
  ended : thread.stage = .finished → ∃ s₁, Effect s₀ s₁ ∧
    (.shutdown .thread .wr ∈ s₁.calls → .shutdown .thread .wr ∈ s₀.calls ∨ InboundOver s₁.own.tcp) ∧
    s.calls = s₁.calls ++ [.shutdown .owner .rdwr] ∧ s.own = { s₁.own with tcp := s₁.own.tcp.destroy }
  /-- The thread ends if it has been told to, or interrupted, or no rule has anything to do. -/
  idle : thread.stage = .finished → turn.abort = true ∨ s₀.next.errno = some .eintr ∨
    (rule1 ∈ thread.rules → ∀ rule ∈ thread.rules, rule.interest s = false)

/-- What follows a loop. -/
theorem leave_outcome {turn : Turn} {thread : Thread A} {s₀ : Process SocketFd (TCPSpongeSocket A)}
    (hrules : thread.rules.Sublist rules) (heffect : Effect s₀ s)
    (htold : .shutdown .thread .wr ∈ s.calls → .shutdown .thread .wr ∈ s₀.calls ∨ InboundOver s.own.tcp)
    (hexit : thread.stage = .main → turn.abort = true ∨ s₀.next.errno = some .eintr ∨
      ∀ rule ∈ thread.rules, rule.interest s = false) :
    Outcome (Turned turn s₀) (fun e s' => e.FromKernel ∧ Halt s₀ s') (thread.leave turn s) := by
  simp only [Thread.leave, outcome_ite, outcome_bind, outcome_pure]
  refine ⟨fun hmain => ?_, fun _ => ⟨hrules, fun _ => ⟨heffect, htold⟩, by simp, by simp⟩⟩
  refine (FileDescriptor.shutdown_rdwr_outcome _ s).mono ?_ fun e s' he =>
    ⟨he.1, heffect.trans_halt htold (stop_of_untouched he.2)⟩
  rintro - s' ⟨hown, hcalls⟩
  simp only [outcome_onTcp]
  refine ⟨hrules, by simp, fun _ => ⟨s, heffect, htold, hcalls, by rw [hown]⟩, fun _ => ?_⟩
  · refine (hexit hmain).imp_right (Or.imp_right fun hidle hfirst rule hrule => ?_)
    -- a connection that is not active is destroyed without a word
    have hdead : s.own.tcp.active = false := hidle rule1 hfirst
    have hsame : s.own.tcp.destroy = s.own.tcp := by simp [TCPConnection.destroy, hdead]
    rw [← hidle rule hrule]
    simp only [hown, hsame]
    rcases mem_rules.mp (hrules.subset hrule) with rfl | rfl | rfl | rfl <;> rfl

/-- **A turn of the loop.** -/
theorem tcpLoop_outcome (turn : Turn) {thread : Thread A} {s₀ : Process SocketFd (TCPSpongeSocket A)}
    (hs₀ : Consistent s₀) (hrules : thread.rules.Sublist rules) (hstage : thread.stage ≠ .finished) :
    Outcome (Turned turn s₀) (fun e s' => e.FromKernel ∧ Halt s₀ s') (thread.tcpLoop turn s₀) := by
  simp only [Thread.tcpLoop, outcome_bind, outcome_get, outcome_ite, outcome_pure]
  refine ⟨fun hdone => ?_, fun _ => ?_⟩
  · refine leave_outcome hrules (.refl s₀) Or.inl fun hmain => ?_
    simp [hmain, Stage.condition] at hdone
  · refine (pass_outcome hs₀ hrules).mono ?_ fun _ _ he => he
    rintro ⟨ret, left⟩ s ⟨heffect, hleft, htold, hexit⟩
    refine ⟨fun hleave => leave_outcome hleft heffect htold fun _ => ?_, fun _ => ⟨fun _ => ?_, fun _ => ?_⟩⟩
    · simp only [Bool.or_eq_true, beq_iff_eq] at hleave
      rcases hleave with hret | habort
      · exact Or.inr (hexit hret)
      · exact Or.inl habort
    · refine ⟨hleft, fun _ => ⟨heffect.trans (effect_tick s (turn.now - thread.baseTime).toNat), fun hshut => ?_⟩,
        fun h => absurd h hstage, fun h => absurd h hstage⟩
      exact (htold hshut).imp_right (·.tick _)
    · exact ⟨hleft, fun _ => ⟨heffect, htold⟩, fun h => absurd h hstage, fun h => absurd h hstage⟩

end Sponge
