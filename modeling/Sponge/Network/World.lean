import Mathlib.Logic.Function.Basic
import Sponge.Library.Runs
import Sponge.Network.Peer

/-!
# Two connections and a network

Two connections, each used by an application, exchange segments through a network that
may lose, duplicate, delay and reorder them but does not make them up.

## The model

Each side's segments go to its `wire`, which keeps every segment ever handed to the
network. The network may deliver any of them at any time: one that is never delivered
is lost, one that is delivered twice is duplicated, and the order is free. A run is a
sequence of events: an application does something, the network takes a segment from a
connection, or it delivers one.

## What is proved

* `World.invariant` — what holds between the two sides at the start and is preserved by
  every step of a connection (`Micro`) holds in every run.
-/

namespace Sponge

open Relation

/-- The two sides. -/
inductive Side where
  | a
  | b
  deriving DecidableEq

namespace Side

/-- The other side. -/
def other : Side → Side
  | a => b
  | b => a

@[simp] theorem other_other (s : Side) : s.other.other = s := by cases s <;> rfl

theorem other_ne (s : Side) : s.other ≠ s := by cases s <;> decide

theorem eq_or_eq_other (s t : Side) : t = s ∨ t = s.other := by cases s <;> cases t <;> decide

end Side

/-- Two connections. -/
abbrev World := Side → Peer

/-- What happens. -/
inductive Event where
  /-- The application of a side does something. -/
  | app (s : Side) (op : Op)
  /-- The network takes a segment from a side. -/
  | send (s : Side)
  /-- The network delivers to a side the `i`-th segment that it has taken from the other. -/
  | deliver (s : Side) (i : ℕ)
  deriving DecidableEq

namespace World

/-- Two new connections. -/
def start (cfg : Side → TCPConfig) (random : Side → WrappingInt32) : World := fun s =>
  Peer.start (cfg s) (random s)

/-- One event. -/
def step (w : World) : Event → World
  | .app s op => Function.update w s ((w s).run op)
  | .send s => Function.update w s (w s).send
  | .deliver s i =>
    match (w s.other).wire[i]? with
    | some seg => Function.update w s ((w s).receive seg)
    | none => w

end World

/-- No application writes after it has ended its stream. -/
def Event.Legal (w : World) : Event → Prop
  | .app s (.write _) => (w s).sender.stream.inputEnded = false
  | _ => True

instance Event.decidableLegal (w : World) (e : Event) : Decidable (e.Legal w) := by
  unfold Event.Legal
  split <;> infer_instance

namespace World

/-- An event is a chain of steps of one side. -/
theorem step_micro {w : World} {e : Event} (h : e.Legal w)
    (hw : ∀ s, (w s).sender.nextSeqno = 0 → (w s).sender.setFin = false) :
    ∃ s p, ReflTransGen (Micro (w s.other).wire) (w s) p ∧ w.step e = Function.update w s p := by
  cases e with
  | app s op =>
    refine ⟨s, _, run_micro (w s) op fun data hop => ?_, rfl⟩
    subst hop
    exact h
  | send s => exact ⟨s, _, send_micro (w s), rfl⟩
  | deliver s i =>
    simp only [step]
    split
    · rename_i seg hseg
      exact ⟨s, _, segmentReceived_micro (List.mem_of_getElem? hseg) (hw s), rfl⟩
    · exact ⟨s, w s, .refl, (Function.update_eq_self s w).symm⟩

variable {I : Peer → Peer → Prop}

/-- What holds between the two sides, and what each has sent. -/
def Holds (I : Peer → Peer → Prop) (w : World) : Prop :=
  ∀ s, Source (w s).accepted (w s).sender ∧ I (w s) (w s.other)

/-- A chain of steps of one side. -/
theorem chain (hmicro : ∀ {p q p' : Peer}, Source p.accepted p.sender → Source q.accepted q.sender →
      I p q → Micro q.wire p p' → I p' q) {p q p' : Peer} (hp : Source p.accepted p.sender)
    (hq : Source q.accepted q.sender) (hi : I p q) (hc : ReflTransGen (Micro q.wire) p p') :
    Source p'.accepted p'.sender ∧ I p' q := by
  induction hc with
  | refl => exact ⟨hp, hi⟩
  | tail _ hm ih => exact ⟨ih.1.micro hm, hmicro ih.1 hq ih.2 hm⟩

/-- **Invariants of the two sides**: what is symmetric and preserved by every step of one side holds
in every run. -/
theorem invariant (hsymm : ∀ {p q : Peer}, I p q → I q p)
    (hmicro : ∀ {p q p' : Peer}, Source p.accepted p.sender → Source q.accepted q.sender → I p q →
      Micro q.wire p p' → I p' q) {w : World} {es : List Event} (h : Along step (fun w e => e.Legal w) w es)
    (hw : Holds I w) : Holds I (runs step w es) := by
  refine h.invariant (I := Holds I) (fun w e hi hl => ?_) hw
  obtain ⟨s, p, hc, heq⟩ := step_micro hl fun s => (hi s).1.setFin_eq_false
  obtain ⟨hp, hpi⟩ := chain hmicro (hi s).1 (hi s.other).1 (hi s).2 hc
  rw [heq]
  intro t
  rcases s.eq_or_eq_other t with rfl | rfl
  · rw [Function.update_self, Function.update_of_ne t.other_ne]
    exact ⟨hp, hpi⟩
  · rw [Function.update_of_ne s.other_ne, Side.other_other, Function.update_self]
    exact ⟨(hi s.other).1, hsymm hpi⟩

/-- **Invariants of one side**: what every step of a side preserves holds of it in every run. -/
theorem side_invariant {J : Peer → Prop}
    (hmicro : ∀ {inbox : List TCPSegment} {p p' : Peer}, Source p.accepted p.sender → J p →
      Micro inbox p p' → J p') {w : World} {es : List Event} (h : Along step (fun w e => e.Legal w) w es)
    (hw : ∀ s, Source (w s).accepted (w s).sender) {s : Side} (hj : J (w s)) : J (runs step w es s) := by
  have hinv := h.invariant (I := fun w => (∀ s, Source (w s).accepted (w s).sender) ∧ J (w s))
    (fun w e hi hl => ?_) ⟨hw, hj⟩
  · exact hinv.2
  obtain ⟨t, p, hc, heq⟩ := step_micro hl fun s => (hi.1 s).setFin_eq_false
  have hsource : ∀ s, Source (w.step e s).accepted (w.step e s).sender := by
    intro s
    rw [heq]
    by_cases hst : s = t
    · subst hst
      rw [Function.update_self]
      exact (chain (I := fun _ _ => True) (fun _ _ _ _ => trivial) (hi.1 s) (hi.1 s.other) trivial hc).1
    · rw [Function.update_of_ne hst]
      exact hi.1 s
  refine ⟨hsource, ?_⟩
  rw [heq]
  by_cases hst : s = t
  · subst hst
    rw [Function.update_self]
    exact (chain (I := fun p _ => J p) (fun hp _ hj hm => hmicro hp hj hm) (hi.1 s) (hi.1 s.other) hi.2 hc).2
  · rw [Function.update_of_ne hst]
    exact hi.2

/-- A run does to every side what a step does. -/
theorem progress {w : World} {es : List Event} (h : Along step (fun w e => e.Legal w) w es)
    (hw : ∀ s, Source (w s).accepted (w s).sender) (s : Side) : Progress (w s) (runs step w es s) :=
  side_invariant (J := Progress (w s)) (fun hp hj hm => hj.trans (hm.progress hp)) h hw (.refl _)

/-- The state after a run of two new connections. -/
abbrev after (cfg : Side → TCPConfig) (random : Side → WrappingInt32) (es : List Event) : World :=
  runs step (start cfg random) es

/-- In the run of two new connections, no application writes after it has ended its stream. -/
abbrev Allowed (cfg : Side → TCPConfig) (random : Side → WrappingInt32) (es : List Event) : Prop :=
  Along step (fun w e => e.Legal w) (start cfg random) es

/-- Side `a` connects to side `b`, and nothing is lost. -/
def handshake : List Event :=
  [.app .a .connect, .send .a, .deliver .b 0, .send .b, .deliver .a 0, .send .a, .deliver .b 1]

theorem holds_start (cfg : Side → TCPConfig) (random : Side → WrappingInt32)
    (h : ∀ c c' r r', I (Peer.start c r) (Peer.start c' r')) : Holds I (start cfg random) := fun _ =>
  ⟨source_make _ _ _ _, h _ _ _ _⟩

end World

end Sponge
