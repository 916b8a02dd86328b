import Mathlib.Data.List.Basic
import Mathlib.Data.List.Nodup

/-!
# Linked lists in memory

A cell holds a value and a pointer to the next cell; a pointer is an address or null. A heap says what is
at an address. `Linked h p l` says that the cells from `p` on are those of the list `l`, which gives each
with its address; the last one points nowhere. A linked list visits no cell twice, so it does not change
when another cell does.

## What is proved

* `Linked.nodup` — no cell is visited twice.
* `Linked.cons`, `Linked.insert`, `Linked.pop`, `Linked.set` — what becomes of the list when a cell is put in
  front of it, put in after one of its cells, when its first cell is removed, or changed.
-/

namespace Sponge.LinkedLists

universe u

variable {α : Type u}

/-- A cell of a linked list. -/
structure Cell (α : Type u) where
  /-- The value. -/
  val : α
  /-- The address of the next cell, or null. -/
  next : Option ℕ
  deriving DecidableEq

/-- A heap: the cell at each address that has been given out, unless it has been freed. -/
structure Heap (α : Type u) where
  /-- The cells, by address. -/
  cells : List (Option (Cell α))
  deriving DecidableEq

namespace Heap

/-- Nothing has been allocated. -/
def empty : Heap α := ⟨[]⟩

/-- The cell at an address. -/
def read (h : Heap α) (a : ℕ) : Option (Cell α) := h.cells[a]?.join

/-- The address of the cell that is allocated next. -/
def fresh (h : Heap α) : ℕ := h.cells.length

/-- Allocate a cell. -/
def alloc (h : Heap α) (c : Cell α) : Heap α := ⟨h.cells ++ [some c]⟩

/-- Change a cell. -/
def write (h : Heap α) (a : ℕ) (c : Cell α) : Heap α := ⟨h.cells.set a (some c)⟩

/-- Free a cell. -/
def free (h : Heap α) (a : ℕ) : Heap α := ⟨h.cells.set a none⟩

variable {h : Heap α} {a b : ℕ} {c d : Cell α}

/-- An address with a cell has been given out. -/
theorem lt_fresh (hread : h.read a = some c) : a < h.fresh := by
  by_contra hge
  rw [read, List.getElem?_eq_none (Nat.not_lt.mp hge)] at hread
  cases hread

theorem read_alloc (hread : h.read a = some c) : (h.alloc d).read a = some c := by
  rw [read, alloc, List.getElem?_append_left (lt_fresh hread)]
  exact hread

theorem read_alloc_fresh (h : Heap α) (c : Cell α) : (h.alloc c).read h.fresh = some c := by
  rw [read, alloc, fresh, List.getElem?_append_right (Nat.le_refl _), Nat.sub_self]
  rfl

theorem read_write (hread : h.read a = some c) : (h.write a d).read a = some d := by
  rw [read, write, List.getElem?_set_self (lt_fresh hread)]
  rfl

theorem read_write_of_ne (hne : b ≠ a) : (h.write a d).read b = h.read b := by
  rw [read, write, List.getElem?_set_ne hne.symm, read]

theorem read_free_of_ne (hne : b ≠ a) : (h.free a).read b = h.read b := by
  rw [read, free, List.getElem?_set_ne hne.symm, read]

end Heap

/-- The cells from the pointer `p` on are those of the list, each with its address. -/
inductive Linked (h : Heap α) : Option ℕ → List (ℕ × α) → Prop where
  /-- A null pointer is an empty list. -/
  | nil : Linked h none []
  /-- A cell, and the list it points to. -/
  | cell {a : ℕ} {x : α} {next : Option ℕ} {l : List (ℕ × α)} :
      h.read a = some ⟨x, next⟩ → Linked h next l → Linked h (some a) ((a, x) :: l)

namespace Linked

variable {h h' : Heap α} {p : Option ℕ} {a : ℕ} {x y : α} {l l₁ l₂ : List (ℕ × α)}

theorem cell_iff : Linked h p ((a, x) :: l) ↔ p = some a ∧ ∃ next, h.read a = some ⟨x, next⟩ ∧ Linked h next l := by
  constructor
  · intro hl
    cases hl with
    | cell hread hl => exact ⟨rfl, _, hread, hl⟩
  · rintro ⟨rfl, next, hread, hl⟩
    exact .cell hread hl

theorem nil_iff : Linked h p [] ↔ p = none := by
  constructor
  · intro hl
    cases hl
    rfl
  · rintro rfl
    exact .nil

/-- There is one list at a pointer. -/
theorem unique {l' : List (ℕ × α)} (hl : Linked h p l) (hl' : Linked h p l') : l = l' := by
  induction hl generalizing l' with
  | nil =>
    cases hl'
    rfl
  | cell hread _ ih =>
    cases hl' with
    | cell hread' hl' =>
      rw [hread] at hread'
      cases hread'
      rw [ih hl']

/-- The list from one of its cells on. -/
theorem drop (hl : Linked h p (l₁ ++ (a, x) :: l₂)) : Linked h (some a) ((a, x) :: l₂) := by
  induction l₁ generalizing p with
  | nil =>
    obtain ⟨rfl, next, hread, hl⟩ := cell_iff.mp hl
    exact .cell hread hl
  | cons c l₁ ih =>
    obtain ⟨-, next, -, hl⟩ := cell_iff.mp hl
    exact ih hl

/-- **No cell is visited twice.** -/
theorem nodup (hl : Linked h p l) : (l.map Prod.fst).Nodup := by
  induction hl with
  | nil => exact List.nodup_nil
  | @cell a x next l hread hl ih =>
    refine List.nodup_cons.mpr ⟨fun hmem => ?_, ih⟩
    -- if the cell came again, the list would be its own end
    obtain ⟨⟨b, y⟩, hcell, rfl⟩ := List.mem_map.mp hmem
    obtain ⟨l₁, l₂, rfl⟩ := List.append_of_mem hcell
    have hsame := congrArg List.length ((Linked.cell hread hl).unique hl.drop)
    simp only [List.length_cons, List.length_append] at hsame
    omega

/-- A list does not change if its cells do not. -/
theorem congr (hl : Linked h p l) (hread : ∀ a ∈ l.map Prod.fst, h'.read a = h.read a) : Linked h' p l := by
  induction hl with
  | nil => exact .nil
  | cell hcell _ ih =>
    refine .cell ?_ (ih fun b hb => hread b (List.mem_cons_of_mem _ hb))
    rw [hread _ List.mem_cons_self, hcell]

/-- Every cell of a list is there. -/
theorem read_mem (hl : Linked h p l) {b : ℕ} (hb : b ∈ l.map Prod.fst) : ∃ c, h.read b = some c := by
  induction hl with
  | nil => cases hb
  | cell hcell _ ih =>
    rcases List.mem_cons.mp hb with rfl | hb
    · exact ⟨_, hcell⟩
    · exact ih hb

/-- Allocation does not touch a list. -/
theorem alloc (hl : Linked h p l) (c : Cell α) : Linked (h.alloc c) p l := by
  refine hl.congr fun b hb => ?_
  obtain ⟨d, hd⟩ := hl.read_mem hb
  rw [hd]
  exact Heap.read_alloc hd

/-- **A cell in front of the list.** -/
theorem cons (hl : Linked h p l) (x : α) : Linked (h.alloc ⟨x, p⟩) (some h.fresh) ((h.fresh, x) :: l) :=
  .cell (Heap.read_alloc_fresh h _) (hl.alloc _)

/-- The first part of a list does not change if its cells do not. -/
theorem append_congr {b : ℕ} {y : α} {l₂' : List (ℕ × α)} (hl : Linked h p (l₁ ++ (a, x) :: l₂))
    (hread : ∀ b ∈ l₁.map Prod.fst, h'.read b = h.read b) (hl' : Linked h' (some a) ((b, y) :: l₂')) :
    Linked h' p (l₁ ++ (b, y) :: l₂') := by
  induction l₁ generalizing p with
  | nil =>
    obtain ⟨rfl, -⟩ := cell_iff.mp hl
    exact hl'
  | cons c l₁ ih =>
    obtain ⟨rfl, next, hcell, hl⟩ := cell_iff.mp hl
    refine .cell ?_ (ih hl fun b hb => hread b (List.mem_cons_of_mem _ hb))
    rw [hread _ List.mem_cons_self, hcell]

/-- **A cell after one of the cells of the list**: it is allocated with that cell's pointer, which is then
changed. -/
theorem insert {next : Option ℕ} (hl : Linked h p (l₁ ++ (a, x) :: l₂)) (hread : h.read a = some ⟨x, next⟩) (y : α) :
    Linked ((h.alloc ⟨y, next⟩).write a ⟨x, some h.fresh⟩) p (l₁ ++ (a, x) :: (h.fresh, y) :: l₂) := by
  have hnodup := hl.nodup
  rw [List.map_append, List.map_cons, List.nodup_middle, List.nodup_cons, List.mem_append, not_or] at hnodup
  obtain ⟨-, next', hread', hrest⟩ := cell_iff.mp hl.drop
  rw [hread] at hread'
  cases hread'
  have hsame : ∀ b ∈ (l₁ ++ l₂).map Prod.fst, ((h.alloc ⟨y, next⟩).write a ⟨x, some h.fresh⟩).read b = h.read b := by
    intro b hb
    rw [List.map_append] at hb
    have hne : b ≠ a := by
      rintro rfl
      rcases List.mem_append.mp hb with hb | hb
      · exact hnodup.1.1 hb
      · exact hnodup.1.2 hb
    have hmem : b ∈ (l₁ ++ (a, x) :: l₂).map Prod.fst := by
      rw [List.map_append, List.map_cons, List.mem_append, List.mem_cons]
      exact (List.mem_append.mp hb).imp_right Or.inr
    obtain ⟨d, hd⟩ := hl.read_mem hmem
    rw [Heap.read_write_of_ne hne, Heap.read_alloc hd, hd]
  have hfresh : h.fresh ≠ a := Nat.ne_of_gt (Heap.lt_fresh hread)
  have hnew : ((h.alloc ⟨y, next⟩).write a ⟨x, some h.fresh⟩).read h.fresh = some ⟨y, next⟩ := by
    rw [Heap.read_write_of_ne hfresh, Heap.read_alloc_fresh]
  have hrest' : Linked ((h.alloc ⟨y, next⟩).write a ⟨x, some h.fresh⟩) next l₂ := by
    refine hrest.congr fun b hb => hsame b ?_
    rw [List.map_append]
    exact List.mem_append_right _ hb
  refine hl.append_congr (fun b hb => hsame b ?_) (.cell (Heap.read_write (Heap.read_alloc hread)) (.cell hnew hrest'))
  rw [List.map_append]
  exact List.mem_append_left _ hb

/-- **The first cell is removed and freed.** -/
theorem pop {next : Option ℕ} (hl : Linked h p ((a, x) :: l)) (hread : h.read a = some ⟨x, next⟩) :
    Linked (h.free a) next l := by
  have hnodup := (List.nodup_cons.mp hl.nodup).1
  obtain ⟨-, next', hread', hrest⟩ := cell_iff.mp hl
  rw [hread] at hread'
  cases hread'
  refine hrest.congr fun b hb => Heap.read_free_of_ne ?_
  rintro rfl
  exact hnodup hb

/-- **The value of the first cell is changed.** -/
theorem set {next : Option ℕ} (hl : Linked h p ((a, x) :: l)) (hread : h.read a = some ⟨x, next⟩) (y : α) :
    Linked (h.write a ⟨y, next⟩) p ((a, y) :: l) := by
  have hnodup := (List.nodup_cons.mp hl.nodup).1
  obtain ⟨rfl, next', hread', hrest⟩ := cell_iff.mp hl
  rw [hread] at hread'
  cases hread'
  refine .cell (Heap.read_write hread) (hrest.congr fun b hb => Heap.read_write_of_ne ?_)
  rintro rfl
  exact hnodup hb

end Linked

end Sponge.LinkedLists
