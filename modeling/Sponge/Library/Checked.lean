import Mathlib.Algebra.Order.Ring.Nat
import Mathlib.Tactic.Common
import Sponge.Library.LinkedLists
import Sponge.Library.Runs

/-!
# Unsigned numbers and checked operations

A 64-bit unsigned counter that only grows is a natural number: no run gets near `2^64`. What depends on
the width is subtraction, which wraps around when the result would be negative. `sub64` is that subtraction.

What a program with pointers, strings and unsigned numbers must not do is a `Fault` here: follow a null
pointer or one to a freed cell, take a substring past the end of a string, subtract below `0`, add beyond
64 bits. Every operation that could returns an `Except`. A loop gets fuel, and running out of it is a fault
too, so a program that returns a result has done nothing of the kind and has come to its end.

## What is proved

* Each operation returns its result when it is used as it should be (`sub_ok`, `add_ok`, `substr_ok`, …).
* `exists_fuel` — if every call of a program simulates a step of a system, with enough fuel for that step,
  then so does every sequence of calls, with enough fuel for all of it.
-/

namespace Sponge

/-- Subtraction of 64-bit unsigned numbers: below `0` it wraps around. -/
def sub64 (a b : ℕ) : ℕ := if b ≤ a then a - b else a + 2 ^ 64 - b

theorem sub64_of_le {a b : ℕ} (h : b ≤ a) : sub64 a b = a - b := if_pos h

namespace Checked

open LinkedLists

universe u v w

/-- What can go wrong. -/
inductive Fault where
  /-- A null pointer is followed, or one to a cell that has been freed. -/
  | badPointer
  /-- A substring starts past the end of the string. -/
  | outOfRange
  /-- The result of a subtraction is negative. -/
  | underflow
  /-- The result of an addition does not fit into 64 bits. -/
  | overflow
  /-- A loop or a recursion has not come to its end. -/
  | unfinished
  deriving DecidableEq

section Operations

variable {α : Type u}

/-- Subtraction of unsigned numbers. -/
def sub (a b : ℕ) : Except Fault ℕ := if b ≤ a then .ok (a - b) else .error .underflow

/-- Addition of unsigned numbers of 64 bits. -/
def add (a b : ℕ) : Except Fault ℕ := if a + b < 2 ^ 64 then .ok (a + b) else .error .overflow

/-- `s.substr(pos, n)`. -/
def substr (s : List α) (pos n : ℕ) : Except Fault (List α) :=
  if pos ≤ s.length then .ok ((s.drop pos).take n) else .error .outOfRange

/-- `s.substr(pos)`. -/
def substrFrom (s : List α) (pos : ℕ) : Except Fault (List α) :=
  if pos ≤ s.length then .ok (s.drop pos) else .error .outOfRange

/-- The cell that a pointer points to. -/
def deref (h : Heap α) (p : Option ℕ) : Except Fault (Cell α) :=
  match p.bind h.read with
  | some c => .ok c
  | none => .error .badPointer

/-- Change the cell that a pointer points to. -/
def assign (h : Heap α) (p : Option ℕ) (c : Cell α) : Except Fault (Heap α) :=
  match p with
  | some a => if (h.read a).isSome then .ok (h.write a c) else .error .badPointer
  | none => .error .badPointer

/-- `delete`. -/
def delete (h : Heap α) (p : Option ℕ) : Except Fault (Heap α) :=
  match p with
  | some a => if (h.read a).isSome then .ok (h.free a) else .error .badPointer
  | none => .error .badPointer

variable {h : Heap α} {a b n : ℕ} {c : Cell α} {s : List α}

theorem sub_ok (hle : b ≤ a) : sub a b = .ok (a - b) := if_pos hle

theorem add_ok (hlt : a + b < 2 ^ 64) : add a b = .ok (a + b) := if_pos hlt

theorem substr_ok (hle : a ≤ s.length) : substr s a n = .ok ((s.drop a).take n) := if_pos hle

theorem substrFrom_ok (hle : a ≤ s.length) : substrFrom s a = .ok (s.drop a) := if_pos hle

theorem deref_ok (hread : h.read a = some c) : deref h (some a) = .ok c := by
  rw [deref, Option.bind_some, hread]

theorem assign_ok (hread : h.read a = some c) (d : Cell α) : assign h (some a) d = .ok (h.write a d) := by
  simp only [assign, hread, Option.isSome_some, if_true]

theorem delete_ok (hread : h.read a = some c) : delete h (some a) = .ok (h.free a) := by
  simp only [delete, hread, Option.isSome_some, if_true]

end Operations

/-- A result is passed on. -/
theorem ok_bind {ε : Type u} {α β : Type v} {x : Except ε α} {a : α} (hx : x = .ok a) (k : α → Except ε β) :
    (x >>= k) = k a := by
  rw [hx]
  rfl

section Simulation

variable {σ : Type u} {ε : Type v} {μ : Type w} {step : σ → ε → σ} {call : ℕ → μ → ε → Except Fault μ}
  {R : μ → σ → Prop} {I : σ → Prop}
  {C : ε → Prop}

/-- **Enough fuel for every call is enough for all of them**: if from a state with the invariant every call
that is allowed simulates its step, so does a sequence of calls. -/
theorem exists_fuel (hinv : ∀ s e, I s → C e → I (step s e))
    (hstep : ∀ s e, I s → C e → ∃ n, ∀ fuel ≥ n, ∀ m, R m s → ∃ m', call fuel m e = .ok m' ∧ R m' (step s e))
    (es : List ε) : ∀ {s : σ}, I s → (∀ e ∈ es, C e) →
      ∃ n, ∀ fuel ≥ n, ∀ m, R m s → ∃ m', es.foldlM (call fuel) m = .ok m' ∧ R m' (runs step s es) := by
  induction es with
  | nil =>
    intro s _ _
    exact ⟨0, fun fuel _ m hm => ⟨m, rfl, hm⟩⟩
  | cons e es ih =>
    intro s hs hes
    have he := hes e List.mem_cons_self
    obtain ⟨n, hn⟩ := hstep s e hs he
    obtain ⟨k, hk⟩ := ih (hinv s e hs he) fun d hd => hes d (List.mem_cons_of_mem e hd)
    refine ⟨max n k, fun fuel hfuel m hm => ?_⟩
    obtain ⟨m', hcall, hm'⟩ := hn fuel (Nat.le_trans (Nat.le_max_left n k) hfuel) m hm
    rw [List.foldlM_cons, ok_bind hcall, runs_cons]
    exact hk fuel (Nat.le_trans (Nat.le_max_right n k) hfuel) m' hm'

end Simulation

end Checked

end Sponge
