import Mathlib.Data.List.Basic
import Mathlib.Data.List.TakeDrop

/-!
# Parts of a string

`slice s i n` is the part `s[i, i+n)` of a string: what is left of it when it runs
past the end of `s`. The lemmas say how slices are cut and put together, and that
a slice inside a string does not change when the string grows.

A string may be kept as a list of pieces, some of them empty. `dropPieces l n` takes `n`
items off its front: it drops whole pieces as long as it can and cuts the piece in which
the rest begins.

## What is proved

* `slice_slice` — a piece of a slice is a slice.
* `slice_of_isPrefix` — a slice inside a string stays when the string grows.
* `flatten_dropPieces` — what is left of a string in pieces is the string without its
  first `n` items.
-/

namespace Sponge

universe u

variable {α : Type u}

/-! ### Slices -/

/-- The part `s[i, i+n)` of `s`. -/
def slice (s : List α) (i n : ℕ) : List α := (s.drop i).take n

theorem length_slice {s : List α} {i n : ℕ} (h : i + n ≤ s.length) : (slice s i n).length = n := by
  simp only [slice, List.length_take, List.length_drop]
  omega

@[simp] theorem slice_zero (s : List α) (i : ℕ) : slice s i 0 = [] := by simp [slice]

theorem drop_slice (s : List α) (i n k : ℕ) : (slice s i n).drop k = slice s (i + k) (n - k) := by
  simp only [slice, List.drop_take, List.drop_drop]

theorem take_slice (s : List α) (i n k : ℕ) : (slice s i n).take k = slice s i (min k n) := by
  simp only [slice, List.take_take]

/-- What precedes a slice, followed by the slice. -/
theorem take_append_slice (s : List α) (i n : ℕ) : s.take i ++ slice s i n = s.take (i + n) := by
  rw [slice, List.take_add]

/-- A slice inside a string stays when the string grows. -/
theorem slice_append_left {s : List α} {i n : ℕ} (h : i + n ≤ s.length) (t : List α) :
    slice (s ++ t) i n = slice s i n := by
  simp only [slice]
  rw [List.drop_append_of_le_length (by omega), List.take_append_of_le_length]
  simp only [List.length_drop]
  omega

theorem slice_of_isPrefix {s t : List α} (h : s <+: t) {i n : ℕ} (hn : i + n ≤ s.length) :
    slice t i n = slice s i n := by
  obtain ⟨u, rfl⟩ := h
  exact slice_append_left hn u

/-- A piece of a slice is a slice. -/
theorem slice_slice {s d : List α} {i n k m : ℕ} (h : d = slice s i n) (hm : k + m ≤ n) :
    (d.drop k).take m = slice s (i + k) m := by
  rw [h, drop_slice, take_slice, Nat.min_eq_left (by omega)]

/-! ### Pieces -/

/-- Take `n` items off the front of a string in pieces. -/
def dropPieces : List (List α) → ℕ → List (List α)
  | l, 0 => l
  | [], _ + 1 => []
  | s :: l, n + 1 => if n + 1 < s.length then s.drop (n + 1) :: l else dropPieces l (n + 1 - s.length)

/-- **What is left of a string in pieces.** -/
theorem flatten_dropPieces (l : List (List α)) (n : ℕ) : (dropPieces l n).flatten = l.flatten.drop n := by
  fun_induction dropPieces l n with
  | case1 l => rfl
  | case2 n => exact List.drop_nil.symm
  | case3 s l n hlt => rw [List.flatten_cons, List.flatten_cons, List.drop_append_of_le_length (Nat.le_of_lt hlt)]
  | case4 s l n hge ih =>
    rw [ih, List.flatten_cons, List.drop_append, List.drop_eq_nil_of_le (Nat.not_lt.mp hge), List.nil_append]

end Sponge
