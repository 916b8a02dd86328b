import Mathlib.Algebra.Order.Ring.Nat
import Mathlib.Data.List.Basic
import Mathlib.Order.Nat

/-!
# Items laid end to end

A queue whose items have lengths, such as the segments of a stream or the entries of a
log, covers a range of positions: each item starts where the one before it ends.
`Tiles len P a l b` says that the items of `l` cover `[a, b)` in this way, and that each
satisfies `P` at the position where it starts.

## What is proved

* `tiles_append` — a queue covers a range exactly if its two parts cover the two parts
  of it; `Tiles.concat` is the case of one more item.
* `Tiles.exists_of_mem` — an item of the queue lies in the range and satisfies `P` there.
* `Tiles.eq_nil` — if no item is empty, only the empty queue covers an empty range.
* `Tiles.sum_eq` — the range is as long as the items together.
* `filter_places_eq` — of the items with their places, all those end after a position
  before the first end.
-/

namespace Sponge

universe u

variable {β : Type u}

/-- The items of the list, end to end from `a` on, end at `b`, and each satisfies `P` at its
position. -/
def Tiles (len : β → ℕ) (P : ℕ → β → Prop) : ℕ → List β → ℕ → Prop
  | a, [], b => a = b
  | a, x :: l, b => P a x ∧ Tiles len P (a + len x) l b

variable {len : β → ℕ} {P Q : ℕ → β → Prop} {a b : ℕ} {x : β} {l l' : List β}

@[simp] theorem tiles_nil : Tiles len P a [] b ↔ a = b := Iff.rfl

@[simp] theorem tiles_cons : Tiles len P a (x :: l) b ↔ P a x ∧ Tiles len P (a + len x) l b := Iff.rfl

theorem Tiles.le (h : Tiles len P a l b) : a ≤ b := by
  induction l generalizing a with
  | nil => exact le_of_eq h
  | cons x l ih => exact (Nat.le_add_right _ _).trans (ih h.2)

theorem tiles_append : Tiles len P a (l ++ l') b ↔ ∃ m, Tiles len P a l m ∧ Tiles len P m l' b := by
  induction l generalizing a with
  | nil => simp
  | cons x l ih => simp [ih, and_assoc]

/-- One more item at the end. -/
theorem Tiles.concat (h : Tiles len P a l b) (hx : P b x) : Tiles len P a (l ++ [x]) (b + len x) :=
  tiles_append.mpr ⟨b, h, hx, rfl⟩

/-- A weaker property, for items inside the range. -/
theorem Tiles.imp (h : Tiles len P a l b) (hPQ : ∀ p y, a ≤ p → p + len y ≤ b → P p y → Q p y) :
    Tiles len Q a l b := by
  induction l generalizing a with
  | nil => exact h
  | cons x l ih =>
    exact ⟨hPQ a x le_rfl h.2.le h.1,
      ih h.2 fun p y hp => hPQ p y ((Nat.le_add_right _ _).trans hp)⟩

theorem Tiles.exists_of_mem (h : Tiles len P a l b) (hx : x ∈ l) :
    ∃ p, a ≤ p ∧ p + len x ≤ b ∧ P p x := by
  induction l generalizing a with
  | nil => exact absurd hx (List.not_mem_nil)
  | cons y l ih =>
    rcases List.mem_cons.mp hx with rfl | hx
    · exact ⟨a, le_rfl, h.2.le, h.1⟩
    · obtain ⟨p, hp, hpb, hP⟩ := ih h.2 hx
      exact ⟨p, (Nat.le_add_right _ _).trans hp, hpb, hP⟩

/-- If no item is empty, an empty range is covered by no item. -/
theorem Tiles.eq_nil (hP : ∀ p y, P p y → 0 < len y) (h : Tiles len P a l a) : l = [] := by
  cases l with
  | nil => rfl
  | cons x l =>
    have h1 := hP a x h.1
    have h2 := h.2.le
    omega

/-- The items are together as long as the range. -/
theorem Tiles.sum_eq (h : Tiles len P a l b) : a + (l.map len).sum = b := by
  induction l generalizing a with
  | nil => exact h
  | cons x l ih =>
    have hrest := ih h.2
    rw [List.map_cons, List.sum_cons]
    omega

/-- The items of the list, end to end from `a` on, each with the position where it starts. -/
def places (len : β → ℕ) : ℕ → List β → List (ℕ × β)
  | _, [] => []
  | a, x :: l => (a, x) :: places len (a + len x) l

theorem le_of_mem_places {q : ℕ × β} (h : q ∈ places len a l) : a ≤ q.1 := by
  induction l generalizing a with
  | nil => exact absurd h List.not_mem_nil
  | cons x l ih =>
    rcases List.mem_cons.mp h with rfl | h
    · exact le_rfl
    · exact (Nat.le_add_right _ _).trans (ih h)

/-- If the first item ends after the position `c`, every item does. -/
theorem filter_places_eq {c : ℕ} (hc : c < a + len x) :
    (places len a (x :: l)).filter (fun q => decide (c < q.1 + len q.2)) = places len a (x :: l) := by
  refine List.filter_eq_self.mpr fun q hq => decide_eq_true ?_
  rcases List.mem_cons.mp hq with rfl | hq
  · exact hc
  · have hle := le_of_mem_places hq
    omega

end Sponge
