import Mathlib.Algebra.Order.Ring.Nat
import Mathlib.Order.Interval.Finset.Nat
import Mathlib.Data.Finset.Card
import Mathlib.Algebra.BigOperators.Group.List.Basic

/-!
# Blocks of indices

A block is anything that has a first index `start b` and a first index after it
`stop b`: it holds the indices `[start b, stop b)`. This module is about lists of
blocks kept in order, as an allocator or a reassembly buffer keeps them. A block
may be empty.

## What is proved

* `card_heldIndices` — in a list in order, the number of distinct indices held is
  the sum of the lengths of the blocks.
* `Held` is what insertion into and removal from such a list are described by:
  `held_cons`, `held_append`, and `InOrder.not_held_of_lt` — below the first block
  nothing is held.
* `missing`, the number of indices of a range that are not held, is additive
  (`missing_add`).
-/

namespace Sponge.Intervals

universe u

variable {β : Type u} (start stop : β → ℕ)

/-- Index `i` lies in one of the blocks. -/
def Held (l : List β) (i : ℕ) : Prop := ∃ b ∈ l, start b ≤ i ∧ i < stop b

instance (l : List β) (i : ℕ) : Decidable (Held start stop l i) :=
  inferInstanceAs (Decidable (∃ b ∈ l, _))

/-- The blocks are in order: each ends before the next one starts. -/
def InOrder (l : List β) : Prop :=
  (∀ b ∈ l, start b ≤ stop b) ∧ l.Pairwise fun a b => stop a ≤ start b

/-- The indices held, as a set. -/
def heldIndices (l : List β) : Finset ℕ :=
  l.foldr (fun b s => Finset.Ico (start b) (stop b) ∪ s) ∅

variable {start stop}

@[simp] theorem not_held_nil (i : ℕ) : ¬ Held start stop [] i := by simp [Held]

theorem held_cons {b : β} {l : List β} {i : ℕ} :
    Held start stop (b :: l) i ↔ (start b ≤ i ∧ i < stop b) ∨ Held start stop l i := by
  simp [Held]

/-- More blocks hold more. -/
theorem Held.mono {l l' : List β} {i : ℕ} (h : Held start stop l i) (hl : ∀ b ∈ l, b ∈ l') :
    Held start stop l' i := by
  obtain ⟨b, hb, hi⟩ := h
  exact ⟨b, hl b hb, hi⟩

theorem mem_heldIndices {l : List β} {i : ℕ} : i ∈ heldIndices start stop l ↔ Held start stop l i := by
  induction l with
  | nil => simp [heldIndices]
  | cons b l ih =>
    rw [held_cons, ← ih]
    simp [heldIndices]

theorem inOrder_cons {b : β} {l : List β} :
    InOrder start stop (b :: l) ↔
      start b ≤ stop b ∧ (∀ c ∈ l, stop b ≤ start c) ∧ InOrder start stop l := by
  simp only [InOrder, List.forall_mem_cons, List.pairwise_cons]
  tauto

/-- Below the first block nothing is held. -/
theorem InOrder.not_held_of_lt {b : β} {l : List β} (h : InOrder start stop (b :: l)) {i : ℕ}
    (hi : i < start b) : ¬ Held start stop (b :: l) i := by
  rw [inOrder_cons] at h
  rintro ⟨c, hc, hci⟩
  rcases List.mem_cons.mp hc with rfl | hc
  · omega
  · have := h.2.1 c hc
    omega

/-- In a list in order, the number of indices held is the sum of the blocks' lengths. -/
theorem card_heldIndices {l : List β} (h : InOrder start stop l) :
    (heldIndices start stop l).card = (l.map fun b => stop b - start b).sum := by
  induction l with
  | nil => simp [heldIndices]
  | cons b l ih =>
    obtain ⟨-, hbl, hl⟩ := inOrder_cons.mp h
    have hd : Disjoint (Finset.Ico (start b) (stop b)) (heldIndices start stop l) := by
      rw [Finset.disjoint_left]
      intro i hi hil
      obtain ⟨c, hc, hci⟩ := mem_heldIndices.mp hil
      have := hbl c hc
      have := (Finset.mem_Ico.mp hi).2
      omega
    rw [List.map_cons, List.sum_cons, ← ih hl, ← Nat.card_Ico, ← Finset.card_union_of_disjoint hd]
    rfl

/-- How many indices of `[a, i)` do not have the property `H`. -/
def missing (H : ℕ → Prop) [DecidablePred H] (a i : ℕ) : ℕ :=
  ((Finset.Ico a i).filter fun j => ¬ H j).card

section Missing

variable {H : ℕ → Prop} [DecidablePred H]

theorem missing_add {a m i : ℕ} (ham : a ≤ m) (hmi : m ≤ i) :
    missing H a i = missing H a m + missing H m i := by
  unfold missing
  rw [← Finset.Ico_union_Ico_eq_Ico ham hmi, Finset.filter_union, Finset.card_union_of_disjoint]
  exact Finset.disjoint_filter_filter (Finset.Ico_disjoint_Ico_consecutive a m i)

/-- A stretch in which nothing is held is missing entirely. -/
theorem missing_eq_of_forall {a i : ℕ} (h : ∀ j, a ≤ j → j < i → ¬ H j) : missing H a i = i - a := by
  unfold missing
  rw [Finset.filter_true_of_mem, Nat.card_Ico]
  intro j hj
  exact h j (Finset.mem_Ico.mp hj).1 (Finset.mem_Ico.mp hj).2

/-- A stretch that is held misses nothing. -/
theorem missing_eq_zero {a i : ℕ} (h : ∀ j, a ≤ j → j < i → H j) : missing H a i = 0 := by
  unfold missing
  rw [Finset.card_eq_zero, Finset.filter_eq_empty_iff]
  intro j hj
  exact not_not.mpr (h j (Finset.mem_Ico.mp hj).1 (Finset.mem_Ico.mp hj).2)

end Missing

end Sponge.Intervals
