import Mathlib.Tactic.Common

/-!
# Readers of fixed size

A reader takes values from the front of what is left of an input, and remembers in its state that the
input has been too short: nothing is read after that. `Reads m n f` says that the program `m` takes `n`
items and makes `f` of them, or else leaves the state failed. It never throws.

Programs are put together from smaller ones, so the rules are about `pure` and `bind`: sizes add up. A
program that is not made of reads alone is run step by step (`bind_ok`, `map_ok`, `get_bind`,
`lift_bind_ok`).

## What is proved

* `Reads.bind` — a program that takes `n` items followed by one that takes `k` takes `n + k`.
* `Reads.total` — a program that reads always returns.
-/

namespace Sponge

universe u v

variable {σ ε α γ : Type u} {β : Type v}

/-! ### Running a program -/

section

variable {m : StateT σ (Except ε) α} {a : α} {s s' : σ}

theorem bind_ok (h : m s = .ok (a, s')) (k : α → StateT σ (Except ε) γ) : (m >>= k) s = k a s' := by
  rw [show (m >>= k) s = (m s >>= fun r => k r.1 r.2) from rfl, h]
  rfl

theorem map_ok (h : m s = .ok (a, s')) (g : α → γ) : (g <$> m) s = .ok (g a, s') := by
  rw [show (g <$> m) s = (m s >>= fun r => pure (g r.1, r.2)) from rfl, h]
  rfl

theorem get_bind (k : σ → StateT σ (Except ε) γ) (s : σ) : (get >>= k) s = k s s := rfl

theorem lift_bind_ok {x : Except ε α} (h : x = .ok a) (k : α → StateT σ (Except ε) γ) (s : σ) :
    ((liftM x : StateT σ (Except ε) α) >>= k) s = k a s := by
  rw [h]
  rfl

end

/-! ### Readers -/

/-- The program `m` takes `n` items from the front of `rest` and makes `f` of them; when there are
fewer, or the state has failed before, the state has failed after. -/
structure Reads (rest : σ → List β) (failed : σ → Prop) (m : StateT σ (Except ε) α) (n : ℕ)
    (f : List β → α) : Prop where
  /-- There are enough items. -/
  ok : ∀ s, ¬ failed s → n ≤ (rest s).length →
    ∃ s', m s = .ok (f ((rest s).take n), s') ∧ rest s' = (rest s).drop n ∧ ¬ failed s'
  /-- The state has failed, or there are too few items. -/
  short : ∀ s, failed s ∨ (rest s).length < n → ∃ a s', m s = .ok (a, s') ∧ failed s'

namespace Reads

variable {rest : σ → List β} {failed : σ → Prop} {m : StateT σ (Except ε) α} {n : ℕ} {f : List β → α}

/-- Nothing is read. -/
theorem pure (a : α) : Reads rest failed (Pure.pure a : StateT σ (Except ε) α) 0 fun _ => a where
  ok s hs _ := ⟨s, rfl, rfl, hs⟩
  short s h := ⟨a, s, rfl, h.resolve_right (Nat.not_lt_zero _)⟩

/-- **One program after another.** -/
theorem bind (h : Reads rest failed m n f) {m' : α → StateT σ (Except ε) γ} {k : ℕ}
    {g : α → List β → γ} (h' : ∀ a, Reads rest failed (m' a) k (g a)) :
    Reads rest failed (m >>= m') (n + k) fun l => g (f (l.take n)) (l.drop n) where
  ok s hs hlen := by
    obtain ⟨s₁, hm, hrest, hs₁⟩ := h.ok s hs (by omega)
    have hlen₁ : k ≤ (rest s₁).length := by
      rw [hrest, List.length_drop]
      omega
    obtain ⟨s₂, hm', hrest', hs₂⟩ := (h' (f ((rest s).take n))).ok s₁ hs₁ hlen₁
    refine ⟨s₂, ?_, ?_, hs₂⟩
    · rw [bind_ok hm, hm', hrest, List.take_take, Nat.min_eq_left (Nat.le_add_right n k), List.drop_take,
        Nat.add_sub_cancel_left]
    · rw [hrest', hrest, List.drop_drop]
  short s hs := by
    -- the first program fails, or the second does
    by_cases hfirst : failed s ∨ (rest s).length < n
    · obtain ⟨a, s₁, hm, hs₁⟩ := h.short s hfirst
      rw [bind_ok hm]
      exact (h' a).short s₁ (Or.inl hs₁)
    · rw [not_or, Nat.not_lt] at hfirst
      obtain ⟨s₁, hm, hrest, -⟩ := h.ok s hfirst.1 hfirst.2
      have hlt : (rest s).length < n + k := hs.resolve_left hfirst.1
      rw [bind_ok hm]
      refine (h' _).short s₁ (Or.inr ?_)
      rw [hrest, List.length_drop]
      omega

/-- What is made of the items of a read. -/
theorem map (h : Reads rest failed m n f) (g : α → γ) : Reads rest failed (g <$> m) n fun l => g (f l) := by
  have hbind := h.bind fun a => Reads.pure (g a)
  constructor
  · intro s hs hlen
    obtain ⟨s', hm, hrest, hs'⟩ := hbind.ok s hs hlen
    refine ⟨s', ?_, hrest, hs'⟩
    rw [List.take_take, Nat.min_eq_left (Nat.le_add_right n 0)] at hm
    exact hm
  · intro s hs
    exact hbind.short s hs

/-- A program that reads always returns. -/
theorem total (h : Reads rest failed m n f) (s : σ) : ∃ a s', m s = .ok (a, s') := by
  by_cases hs : failed s ∨ (rest s).length < n
  · obtain ⟨a, s', hm, -⟩ := h.short s hs
    exact ⟨a, s', hm⟩
  · rw [not_or, Nat.not_lt] at hs
    obtain ⟨s', hm, -, -⟩ := h.ok s hs.1 hs.2
    exact ⟨_, s', hm⟩

/-- Only what is made of `n` items matters. -/
theorem congr (h : Reads rest failed m n f) {g : List β → α} (hg : ∀ l, l.length = n → f l = g l) :
    Reads rest failed m n g where
  ok s hs hlen := by
    rw [← hg _ (List.length_take_of_le hlen)]
    exact h.ok s hs hlen
  short := h.short

end Reads

end Sponge
