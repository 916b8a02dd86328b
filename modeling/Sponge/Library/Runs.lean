import Mathlib.Data.List.Basic
import Mathlib.Logic.Basic

/-!
# Runs of a machine

A machine is a total step function `step : σ → ε → σ`: it is in a state, it is
given an event, it is in the next state. A run is a finite list of events.
`Along step C s es` says that every event of the run `es` from `s` meets the
condition `C` in the state in which it occurs; conditions are how the behaviour
of the environment (and the domain in which a program is right) is described.

## What is proved

* `Along.invariant` — what every step allowed by `C` preserves holds at the end
  of every run allowed by `C`.
* `along_iff` — two conditions that agree in every state with an invariant allow the same runs.
* `steps_le_of_decreasing` — a relation whose every step lowers a number has no sequence of
  more steps than that number.
* `along_append` — a run is allowed if its two halves are, so every state
  reached on the way is itself reached by an allowed run.
-/

namespace Sponge

universe u v

variable {σ : Type u} {ε : Type v}

/-- The state after a run. -/
def runs (step : σ → ε → σ) (s : σ) (es : List ε) : σ := es.foldl step s

/-- Every event of the run meets the condition `C` in the state it occurs in. -/
def Along (step : σ → ε → σ) (C : σ → ε → Prop) : σ → List ε → Prop
  | _, [] => True
  | s, e :: es => C s e ∧ Along step C (step s e) es

instance Along.decidable (step : σ → ε → σ) (C : σ → ε → Prop) [∀ s e, Decidable (C s e)] :
    ∀ (s : σ) (es : List ε), Decidable (Along step C s es)
  | _, [] => .isTrue trivial
  | s, e :: es =>
    have := Along.decidable step C (step s e) es
    inferInstanceAs (Decidable (C s e ∧ Along step C (step s e) es))

variable {step : σ → ε → σ} {C : σ → ε → Prop}

@[simp] theorem runs_nil (s : σ) : runs step s [] = s := rfl

@[simp] theorem runs_cons (s : σ) (e : ε) (es : List ε) :
    runs step s (e :: es) = runs step (step s e) es := rfl

theorem runs_append (s : σ) (es es' : List ε) :
    runs step s (es ++ es') = runs step (runs step s es) es' := List.foldl_append

@[simp] theorem along_nil (s : σ) : Along step C s [] := trivial

@[simp] theorem along_cons (s : σ) (e : ε) (es : List ε) :
    Along step C s (e :: es) ↔ C s e ∧ Along step C (step s e) es := Iff.rfl

/-- A run is allowed exactly if its first part is, and then the rest from where the
first part ends. -/
theorem along_append (s : σ) (es es' : List ε) :
    Along step C s (es ++ es') ↔ Along step C s es ∧ Along step C (runs step s es) es' := by
  induction es generalizing s with
  | nil => simp
  | cons e es ih => simp [ih, and_assoc]

/-- A weaker condition allows more runs. -/
theorem Along.mono {D : σ → ε → Prop} (h : ∀ s e, C s e → D s e) {s : σ} {es : List ε}
    (hr : Along step C s es) : Along step D s es := by
  induction es generalizing s with
  | nil => trivial
  | cons e es ih => exact ⟨h s e hr.1, ih hr.2⟩

/-- Every run is allowed if everything is. -/
theorem along_true (s : σ) (es : List ε) : Along step (fun _ _ => True) s es := by
  induction es generalizing s with
  | nil => trivial
  | cons e es ih => exact ⟨trivial, ih (step s e)⟩

/-- A condition on the events alone. -/
theorem along_of_forall_mem {P : ε → Prop} {es : List ε} (h : ∀ e ∈ es, P e) (s : σ) :
    Along step (fun _ e => P e) s es := by
  induction es generalizing s with
  | nil => trivial
  | cons e es ih =>
    exact ⟨h e List.mem_cons_self, ih (fun e' he' => h e' (List.mem_cons_of_mem e he')) (step s e)⟩

/-- **Invariants**: what holds at the start and is preserved by every allowed step
holds at the end of every allowed run. -/
theorem Along.invariant {I : σ → Prop} (hstep : ∀ s e, I s → C s e → I (step s e)) {s : σ}
    {es : List ε} (hr : Along step C s es) (h : I s) : I (runs step s es) := by
  induction es generalizing s with
  | nil => exact h
  | cons e es ih => exact ih hr.2 (hstep s e h hr.1)

/-- **Two conditions that agree**: if in every state with the invariant `I` the conditions `N` and `D` say
the same about an allowed event, and such an event that meets them preserves `I`, they allow the same
runs. -/
theorem along_iff {I : σ → Prop} {D N : σ → ε → Prop} (hstep : ∀ s e, I s → C s e → D s e → I (step s e))
    (hiff : ∀ s e, I s → C s e → (N s e ↔ D s e)) {s : σ} {es : List ε} (hr : Along step C s es) (h : I s) :
    Along step N s es ↔ Along step D s es := by
  induction es generalizing s with
  | nil => exact Iff.rfl
  | cons e es ih =>
    rw [along_cons, along_cons, hiff s e h hr.1]
    exact and_congr_right fun hD => ih hr.2 (hstep s e h hr.1 hD)

/-- **Descent**: if every step lowers a number, there are at most that many steps. -/
theorem steps_le_of_decreasing {R : σ → σ → Prop} {φ : σ → ℕ} (hR : ∀ x y, R x y → φ y < φ x)
    {f : ℕ → σ} {n : ℕ} (h : ∀ i < n, R (f i) (f (i + 1))) : n + φ (f n) ≤ φ (f 0) := by
  induction n with
  | zero => exact Nat.le_of_eq (Nat.zero_add _)
  | succ n ih =>
    have hlast := hR _ _ (h n (Nat.lt_succ_self n))
    have hbefore := ih fun i hi => h i (Nat.lt_succ_of_lt hi)
    omega

end Sponge
