import Mathlib.Logic.Basic
import Mathlib.Tactic.Common

/-!
# Programs that may throw

A program with a state is an `EStateM ε σ α`: it returns a value or throws, and in both cases it
leaves a state behind. `Outcome Q E` says of the end of a run that `Q` holds of what was returned
and the state, or `E` of what was thrown and the state; `Outcome Q E (p s)` is the weakest
precondition of `p` at `s`. The `simp` lemmas execute a program symbolically, one statement at a
time.

## What is proved

* `outcome_bind` — one program after another.
* `Outcome.mono` — consequence.
* `outcome_zoom` — a program for a part of the state, run on that part.
-/

namespace Sponge

variable {ε σ ρ α β : Type}

/-- How a run has ended: it has returned and then `Q` holds, or it has thrown and then `E` holds. -/
def Outcome (Q : α → σ → Prop) (E : ε → σ → Prop) : EStateM.Result ε σ α → Prop
  | .ok a s => Q a s
  | .error e s => E e s

section

variable {Q Q' : α → σ → Prop} {E E' : ε → σ → Prop} {s : σ}

@[simp] theorem outcome_ok {a : α} : Outcome Q E (.ok a s) ↔ Q a s := Iff.rfl

@[simp] theorem outcome_error {e : ε} : Outcome Q E (.error e s : EStateM.Result ε σ α) ↔ E e s := Iff.rfl

/-- Consequence. -/
theorem Outcome.mono {r : EStateM.Result ε σ α} (h : Outcome Q E r) (hQ : ∀ a s, Q a s → Q' a s)
    (hE : ∀ e s, E e s → E' e s) : Outcome Q' E' r := by
  cases r with
  | ok a s => exact hQ a s h
  | error e s => exact hE e s h

@[simp] theorem outcome_pure {a : α} : Outcome Q E ((pure a : EStateM ε σ α) s) ↔ Q a s := Iff.rfl

@[simp] theorem outcome_throw {e : ε} : Outcome Q E ((throw e : EStateM ε σ α) s) ↔ E e s := Iff.rfl

@[simp] theorem outcome_bind {p : EStateM ε σ β} {f : β → EStateM ε σ α} :
    Outcome Q E ((p >>= f) s) ↔ Outcome (fun b s' => Outcome Q E (f b s')) E (p s) := by
  show Outcome Q E (EStateM.bind p f s) ↔ _
  unfold EStateM.bind
  cases p s <;> rfl

@[simp] theorem outcome_ite {c : Prop} [Decidable c] {p q : EStateM ε σ α} :
    Outcome Q E ((if c then p else q) s) ↔ (c → Outcome Q E (p s)) ∧ (¬ c → Outcome Q E (q s)) := by
  split <;> simp [*]

end

section

variable {E : ε → σ → Prop} {s : σ}

@[simp] theorem outcome_get {Q : σ → σ → Prop} : Outcome Q E ((get : EStateM ε σ σ) s) ↔ Q s s := Iff.rfl

@[simp] theorem outcome_modify {Q : PUnit → σ → Prop} {f : σ → σ} :
    Outcome Q E ((modify f : EStateM ε σ PUnit) s) ↔ Q ⟨⟩ (f s) := Iff.rfl

end

/-! ### A part of the state -/

/-- A program for a part of the state. -/
def zoom (get : σ → ρ) (set : ρ → σ → σ) (p : EStateM ε ρ α) : EStateM ε σ α := fun s =>
  match p (get s) with
  | .ok a r => .ok a (set r s)
  | .error e r => .error e (set r s)

@[simp] theorem outcome_zoom {get : σ → ρ} {set : ρ → σ → σ} {p : EStateM ε ρ α} {Q : α → σ → Prop}
    {E : ε → σ → Prop} {s : σ} :
    Outcome Q E (zoom get set p s) ↔
      Outcome (fun a r => Q a (set r s)) (fun e r => E e (set r s)) (p (get s)) := by
  unfold zoom
  cases p (get s) <;> rfl

end Sponge
