import Mathlib.Algebra.Order.BigOperators.Group.List
import Mathlib.Algebra.Order.Ring.Nat
import Mathlib.Data.Nat.ModEq
import Mathlib.Tactic.Common

/-!
# One's-complement sums

Numbers of at most `m` are added with an end-around carry: what is over `m` starts again at `1`. For
`m = 2^16 - 1` this is addition in one's complement. The sum of a list stands for the sum of its
numbers modulo `m`, with `m` and not `0` for the multiples of `m`, unless all of them are `0`
(`reduce`).

## What is proved

* `carrySum_eq` — the end-around-carry sum of a list is `reduce` of its sum.
* `reduce_fold` — carrying the high digit of a number in base `m + 1` around does not change it.
* `reduce_complement` — a number followed by the complement of its sum is all ones.
* `complement_sub` — and what completes a sum to all ones is that complement.
-/

namespace Sponge.OnesComplement

/-- Addition with an end-around carry. -/
def carryAdd (m a b : ℕ) : ℕ := if a + b ≤ m then a + b else a + b - m

/-- The end-around-carry sum of a list. -/
def carrySum (m : ℕ) (l : List ℕ) : ℕ := l.foldl (carryAdd m) 0

/-- The number from `1` to `m` that a positive number stands for. -/
def reduce (m n : ℕ) : ℕ := if n = 0 then 0 else (n - 1) % m + 1

variable {m : ℕ}

theorem reduce_le (hm : 0 < m) (n : ℕ) : reduce m n ≤ m := by
  unfold reduce
  split
  · exact Nat.zero_le m
  · exact Nat.mod_lt _ hm

theorem reduce_pos {n : ℕ} (h : 0 < n) : 0 < reduce m n := by
  rw [reduce, if_neg (by omega)]
  exact Nat.succ_pos _

/-- A number stands for itself modulo `m`. -/
theorem reduce_modEq (m n : ℕ) : reduce m n ≡ n [MOD m] := by
  unfold reduce
  split
  next h => rw [h]
  next h =>
    have hmod : (n - 1) % m + 1 ≡ n - 1 + 1 [MOD m] := (Nat.mod_modEq (n - 1) m).add_right 1
    rwa [Nat.sub_add_cancel (by omega)] at hmod

/-- The number from `1` to `m` is determined by its residue. -/
theorem reduce_eq_of_modEq {r n : ℕ} (h1 : 0 < r) (h2 : r ≤ m) (hn : 0 < n) (h : r ≡ n [MOD m]) :
    reduce m n = r := by
  have hpred : n - 1 ≡ r - 1 [MOD m] := by
    apply Nat.ModEq.add_right_cancel' 1
    rw [Nat.sub_add_cancel hn, Nat.sub_add_cancel h1]
    exact h.symm
  rw [reduce, if_neg (by omega), hpred, Nat.mod_eq_of_lt (by omega), Nat.sub_add_cancel h1]

theorem reduce_of_le {n : ℕ} (h : n ≤ m) : reduce m n = n := by
  rcases Nat.eq_zero_or_pos n with rfl | hn
  · rfl
  · exact reduce_eq_of_modEq hn h hn rfl

theorem reduce_congr {a b : ℕ} (hm : 0 < m) (ha : 0 < a) (hb : 0 < b) (h : a ≡ b [MOD m]) :
    reduce m a = reduce m b :=
  reduce_eq_of_modEq (reduce_pos hb) (reduce_le hm b) ha ((reduce_modEq m b).trans h.symm)

/-- Only positive multiples of `m` stand for `m`. -/
theorem reduce_eq_top_iff (hm : 0 < m) {n : ℕ} : reduce m n = m ↔ 0 < n ∧ m ∣ n := by
  constructor
  · intro h
    have hn : 0 < n := by
      rcases Nat.eq_zero_or_pos n with rfl | hn
      · rw [show reduce m 0 = 0 from rfl] at h
        omega
      · exact hn
    have hmod := reduce_modEq m n
    rw [h] at hmod
    exact ⟨hn, (Nat.modEq_zero_iff_dvd.mp (hmod.symm.trans (by simp [Nat.ModEq])))⟩
  · rintro ⟨hn, hdvd⟩
    apply reduce_eq_of_modEq hm (Nat.le_refl m) hn
    exact (Nat.modEq_zero_iff_dvd.mpr (Nat.dvd_refl m)).trans (Nat.modEq_zero_iff_dvd.mpr hdvd).symm

/-- Adding with an end-around carry, one number at a time. -/
theorem carryAdd_reduce (hm : 0 < m) (a : ℕ) {b : ℕ} (hb : b ≤ m) :
    carryAdd m (reduce m a) b = reduce m (a + b) := by
  rcases Nat.eq_zero_or_pos (a + b) with h0 | hpos
  · obtain ⟨rfl, rfl⟩ : a = 0 ∧ b = 0 := by omega
    simp [carryAdd, reduce]
  · have hle := reduce_le hm a
    have hmod : reduce m a + b ≡ a + b [MOD m] := (reduce_modEq m a).add_right b
    unfold carryAdd
    split
    next h =>
      refine (reduce_eq_of_modEq ?_ h hpos hmod).symm
      rcases Nat.eq_zero_or_pos a with rfl | ha
      · omega
      · have := reduce_pos (m := m) ha
        omega
    next h =>
      have hlow : 0 < reduce m a + b - m := by omega
      have hhigh : reduce m a + b - m ≤ m := by omega
      have hcarry : reduce m a + b - m ≡ reduce m a + b [MOD m] := by
        rw [Nat.modEq_iff_dvd' (Nat.sub_le _ _)]
        exact ⟨1, by omega⟩
      exact (reduce_eq_of_modEq hlow hhigh hpos (hcarry.trans hmod)).symm

/-- **The end-around-carry sum of a list.** -/
theorem carrySum_eq (hm : 0 < m) {l : List ℕ} (h : ∀ x ∈ l, x ≤ m) : carrySum m l = reduce m l.sum := by
  have hfold : ∀ (l : List ℕ), (∀ x ∈ l, x ≤ m) → ∀ a, l.foldl (carryAdd m) (reduce m a) = reduce m (a + l.sum) := by
    intro l
    induction l with
    | nil => intro _ a; simp
    | cons x l ih =>
      intro hl a
      rw [List.foldl_cons, carryAdd_reduce hm a (hl x List.mem_cons_self),
        ih (fun y hy => hl y (List.mem_cons_of_mem x hy)), List.sum_cons, Nat.add_assoc]
  have h0 := hfold l h 0
  rwa [Nat.zero_add] at h0

/-- **Carrying the high digit around.** -/
theorem reduce_fold (hm : 0 < m) (n k : ℕ) :
    reduce m (n / (m + 1) + n % (m + 1) + k) = reduce m (n + k) := by
  have hsplit : (m + 1) * (n / (m + 1)) + n % (m + 1) = n := Nat.div_add_mod n (m + 1)
  rw [Nat.add_mul, Nat.one_mul] at hsplit
  rcases Nat.eq_zero_or_pos (n + k) with h0 | hpos
  · obtain ⟨rfl, rfl⟩ : n = 0 ∧ k = 0 := by omega
    simp
  · apply reduce_congr hm
    · rcases Nat.eq_zero_or_pos (n / (m + 1)) with h | h
      · rw [h, Nat.mul_zero] at hsplit
        omega
      · omega
    · exact hpos
    · apply Nat.ModEq.add_right
      rw [Nat.modEq_iff_dvd' (by omega)]
      exact ⟨n / (m + 1), by omega⟩

/-- **A number followed by the complement of its sum is all ones.** -/
theorem reduce_complement (hm : 0 < m) (n : ℕ) : reduce m (n + (m - reduce m n)) = m := by
  have hle := reduce_le hm n
  rw [reduce_eq_top_iff hm]
  constructor
  · rcases Nat.eq_zero_or_pos n with rfl | hn
    · simpa [reduce] using hm
    · omega
  · have hmod : n + (m - reduce m n) ≡ reduce m n + (m - reduce m n) [MOD m] :=
      (reduce_modEq m n).symm.add_right _
    rw [Nat.add_sub_cancel' hle] at hmod
    exact Nat.modEq_zero_iff_dvd.mp (hmod.trans (Nat.modEq_zero_iff_dvd.mpr (Nat.dvd_refl m)))

/-- **What is taken out of a sum of all ones is the complement of the rest**, but for the two ways to
write nothing. -/
theorem complement_sub (hm : 0 < m) {n v : ℕ} (hv : v ≤ m) (hn : reduce m n = m) :
    m - reduce m (n - v) = v ∨ v = m ∧ m - reduce m (n - v) = 0 := by
  obtain ⟨hpos, hdvd⟩ := (reduce_eq_top_iff hm).mp hn
  have hle : m ≤ n := Nat.le_of_dvd hpos hdvd
  rcases Nat.eq_zero_or_pos (n - v) with h0 | hrest
  · left
    rw [h0, show reduce m 0 = 0 from rfl]
    omega
  rcases Nat.lt_or_eq_of_le hv with hlt | rfl
  · left
    rcases Nat.eq_zero_or_pos v with rfl | hv0
    · rw [Nat.sub_zero, hn, Nat.sub_self]
    · have hmod : m - v ≡ n - v [MOD m] := by
        have hadd : m - v + v ≡ n - v + v [MOD m] := by
          rw [Nat.sub_add_cancel hv, Nat.sub_add_cancel (by omega)]
          exact (Nat.modEq_zero_iff_dvd.mpr (Nat.dvd_refl m)).trans (Nat.modEq_zero_iff_dvd.mpr hdvd).symm
        exact Nat.ModEq.add_right_cancel' v hadd
      rw [reduce_eq_of_modEq (by omega) (Nat.sub_le m v) hrest hmod]
      omega
  · right
    rw [(reduce_eq_top_iff hm).mpr ⟨hrest, Nat.dvd_sub hdvd (Nat.dvd_refl v)⟩, Nat.sub_self]
    exact ⟨rfl, rfl⟩

end Sponge.OnesComplement
