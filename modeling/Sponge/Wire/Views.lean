import Sponge.Library.Strings
import Sponge.Wire.Buffer

/-!
# Removing a prefix

What has been sent of a packet is removed from its front. A packet is a `BufferList`, which owns its
bytes, or a `BufferViewList`, which only looks at them; each class has a `remove_prefix` of its own. The
partial writes of a descriptor rely on the two agreeing.

## The model

The two loops are one, `removeLoop`: it drops whole pieces and then cuts one. What differs is how a piece
is looked at, how it is cut and what the exception says. A `string_view` is the bytes it looks at.

## What is proved

* `removeLoop_ok`, `removeLoop_error` — what the loop leaves, and when it throws.
* `prefix_removed` — a list and a view of it, given the same calls, stand for the same bytes.
-/

namespace Sponge

/-- The loop of `remove_prefix`: the pieces that are left. -/
def removeLoop {α : Type} (str : α → Bytes) (cut : α → ℕ → Except Exception α) (what : String) :
    List α → ℕ → Except Exception (List α)
  | pieces, 0 => .ok pieces
  | [], _ + 1 => .error (.outOfRange what)
  | front :: rest, n + 1 =>
    if n + 1 < (str front).length then do
      let front ← cut front (n + 1)
      return front :: rest
    else removeLoop str cut what rest (n + 1 - (str front).length)

section Loop

variable {α : Type} {str : α → Bytes} {cut : α → ℕ → Except Exception α} {what : String}

/-- **As many bytes as there are can be removed.** -/
theorem removeLoop_ok (hcut : ∀ a n, n ≤ (str a).length → ∃ a', cut a n = .ok a' ∧ str a' = (str a).drop n)
    {pieces : List α} {n : ℕ} (h : n ≤ (pieces.map str).flatten.length) :
    ∃ left, removeLoop str cut what pieces n = .ok left ∧ left.map str = dropPieces (pieces.map str) n := by
  fun_induction removeLoop str cut what pieces n with
  | case1 pieces => exact ⟨pieces, rfl, by rw [dropPieces]⟩
  | case2 n => exact absurd h (Nat.not_succ_le_zero n)
  | case3 front rest n hlt =>
    obtain ⟨front', hfront, hstr⟩ := hcut front (n + 1) hlt.le
    refine ⟨front' :: rest, by rw [hfront]; rfl, ?_⟩
    rw [List.map_cons, List.map_cons, dropPieces, if_pos hlt, hstr]
  | case4 front rest n hge ih =>
    rw [List.map_cons, List.flatten_cons, List.length_append] at h
    obtain ⟨left, hleft, hmap⟩ := ih (by omega)
    refine ⟨left, hleft, ?_⟩
    rw [hmap, List.map_cons, dropPieces, if_neg hge]

/-- **More cannot.** -/
theorem removeLoop_error {pieces : List α} {n : ℕ} (h : (pieces.map str).flatten.length < n) :
    removeLoop str cut what pieces n = .error (.outOfRange what) := by
  fun_induction removeLoop str cut what pieces n with
  | case1 pieces => exact absurd h (Nat.not_lt_zero _)
  | case2 n => rfl
  | case3 front rest n hlt =>
    rw [List.map_cons, List.flatten_cons, List.length_append] at h
    omega
  | case4 front rest n hge ih =>
    rw [List.map_cons, List.flatten_cons, List.length_append] at h
    exact ih (by omega)

end Loop

namespace BufferList

/-- `remove_prefix`. -/
def removePrefix (l : BufferList) (n : ℕ) : Except Exception BufferList := do
  let buffers ← removeLoop Buffer.str Buffer.removePrefix "BufferList::remove_prefix" l.buffers n
  return ⟨buffers⟩

theorem concatenate_eq (l : BufferList) : l.concatenate = (l.buffers.map Buffer.str).flatten :=
  List.flatMap_def ..

theorem removePrefix_ok {l : BufferList} {n : ℕ} (h : n ≤ l.size) :
    ∃ l' : BufferList, l.removePrefix n = .ok l' ∧
      l'.buffers.map Buffer.str = dropPieces (l.buffers.map Buffer.str) n := by
  rw [size_eq, concatenate_eq] at h
  obtain ⟨left, hleft, hmap⟩ : ∃ left, removeLoop Buffer.str Buffer.removePrefix "BufferList::remove_prefix"
      l.buffers n = .ok left ∧ left.map Buffer.str = dropPieces (l.buffers.map Buffer.str) n :=
    removeLoop_ok (fun b _ hle => b.removePrefix_ok hle) h
  exact ⟨⟨left⟩, by rw [removePrefix, hleft]; rfl, hmap⟩

theorem removePrefix_error {l : BufferList} {n : ℕ} (h : l.size < n) :
    l.removePrefix n = .error (.outOfRange "BufferList::remove_prefix") := by
  rw [size_eq, concatenate_eq] at h
  rw [removePrefix, removeLoop_error h]
  rfl

end BufferList

/-- A string in pieces that belong to somebody else. -/
structure BufferViewList where
  /-- The pieces. -/
  views : List Bytes
  deriving DecidableEq

namespace BufferViewList

/-- A view of a `BufferList`. -/
def ofBufferList (buffers : BufferList) : BufferViewList := ⟨buffers.buffers.map Buffer.str⟩

/-- `remove_prefix`. -/
def removePrefix (v : BufferViewList) (n : ℕ) : Except Exception BufferViewList := do
  let views ← removeLoop id (fun view n => .ok (view.drop n)) "BufferListView::remove_prefix" v.views n
  return ⟨views⟩

/-- `size`. -/
def size (v : BufferViewList) : ℕ := (v.views.map List.length).sum

/-- The bytes that are looked at. -/
def bytes (v : BufferViewList) : Bytes := v.views.flatten

theorem size_eq (v : BufferViewList) : v.size = v.bytes.length := List.length_flatten.symm

theorem bytes_ofBufferList (l : BufferList) : (ofBufferList l).bytes = l.concatenate :=
  l.concatenate_eq.symm

theorem size_ofBufferList (l : BufferList) : (ofBufferList l).size = l.size := by
  rw [size_eq, bytes_ofBufferList, l.size_eq]

theorem removePrefix_ok {v : BufferViewList} {n : ℕ} (h : n ≤ v.size) :
    v.removePrefix n = .ok ⟨dropPieces v.views n⟩ := by
  have hle : n ≤ (v.views.map id).flatten.length := by rwa [List.map_id, ← bytes, ← size_eq]
  obtain ⟨left, hleft, hmap⟩ : ∃ left, removeLoop id (fun view n => .ok (view.drop n))
      "BufferListView::remove_prefix" v.views n = .ok left ∧ left.map id = dropPieces (v.views.map id) n :=
    removeLoop_ok (fun _ _ _ => ⟨_, rfl, rfl⟩) hle
  rw [List.map_id, List.map_id] at hmap
  rw [removePrefix, hleft, hmap]
  rfl

theorem removePrefix_error {v : BufferViewList} {n : ℕ} (h : v.size < n) :
    v.removePrefix n = .error (.outOfRange "BufferListView::remove_prefix") := by
  rw [size_eq, bytes] at h
  rw [removePrefix, removeLoop_error (by rwa [List.map_id])]
  rfl

end BufferViewList

namespace BufferList

/-- **One call**: the bytes are removed from the list, and a view of the list follows it. -/
theorem removePrefix_view {l : BufferList} {n : ℕ} (h : n ≤ l.size) :
    ∃ l' : BufferList, l.removePrefix n = .ok l' ∧ l'.concatenate = l.concatenate.drop n ∧
      (BufferViewList.ofBufferList l).removePrefix n = .ok (.ofBufferList l') := by
  obtain ⟨l', hl', hmap⟩ := removePrefix_ok h
  refine ⟨l', hl', ?_, ?_⟩
  · rw [concatenate_eq, concatenate_eq, hmap, flatten_dropPieces]
  · rw [BufferViewList.removePrefix_ok (by rwa [BufferViewList.size_ofBufferList])]
    show Except.ok (⟨dropPieces (l.buffers.map Buffer.str) n⟩ : BufferViewList) = _
    rw [← hmap]
    rfl

/-- **Any number of calls.** -/
theorem foldlM_removePrefix {l : BufferList} {ns : List ℕ} (h : ns.sum ≤ l.size) :
    ∃ l' : BufferList, ns.foldlM removePrefix l = .ok l' ∧ l'.concatenate = l.concatenate.drop ns.sum ∧
      ns.foldlM BufferViewList.removePrefix (.ofBufferList l) = .ok (.ofBufferList l') := by
  induction ns generalizing l with
  | nil => exact ⟨l, rfl, rfl, rfl⟩
  | cons n ns ih =>
    rw [List.sum_cons] at h
    obtain ⟨l₁, hl₁, hdrop, hview⟩ := removePrefix_view (l := l) (n := n) (by omega)
    have hsize : l₁.size = l.size - n := by rw [size_eq, size_eq, hdrop, List.length_drop]
    obtain ⟨l', hl', hdrop', hview'⟩ := ih (l := l₁) (by omega)
    refine ⟨l', ?_, ?_, ?_⟩
    · rw [List.foldlM_cons, hl₁]
      exact hl'
    · rw [hdrop', hdrop, List.drop_drop, List.sum_cons]
    · rw [List.foldlM_cons, hview]
      exact hview'

/-- Calls that ask for more than there is throw, on the list and on the view. -/
theorem foldlM_removePrefix_error {l : BufferList} {ns : List ℕ} (h : l.size < ns.sum) :
    ns.foldlM removePrefix l = .error (.outOfRange "BufferList::remove_prefix") ∧
      ns.foldlM BufferViewList.removePrefix (.ofBufferList l) =
        .error (.outOfRange "BufferListView::remove_prefix") := by
  induction ns generalizing l with
  | nil => exact absurd h (Nat.not_lt_zero _)
  | cons n ns ih =>
    rw [List.sum_cons] at h
    rw [List.foldlM_cons, List.foldlM_cons]
    by_cases hn : n ≤ l.size
    · obtain ⟨l₁, hl₁, hdrop, hview⟩ := removePrefix_view hn
      have hsize : l₁.size = l.size - n := by rw [size_eq, size_eq, hdrop, List.length_drop]
      rw [hl₁, hview]
      exact ih (l := l₁) (by omega)
    · rw [removePrefix_error (Nat.not_le.mp hn),
        BufferViewList.removePrefix_error (by rw [BufferViewList.size_ofBufferList]; exact Nat.not_le.mp hn)]
      exact ⟨rfl, rfl⟩

/-- **Prefix removal.** One call removes the first `n` bytes or, if there are fewer, throws; and a view of
the list that is given the same calls stands for the same bytes, and throws with it. -/
theorem prefix_removed (l : BufferList) :
    (∀ n, (n ≤ l.size → ∃ l' : BufferList, l.removePrefix n = .ok l' ∧ l'.concatenate = l.concatenate.drop n) ∧
      (l.size < n → l.removePrefix n = .error (.outOfRange "BufferList::remove_prefix"))) ∧
    (∀ ns : List ℕ, ns.sum ≤ l.size → ∃ (l' : BufferList) (v' : BufferViewList),
      ns.foldlM removePrefix l = .ok l' ∧ ns.foldlM BufferViewList.removePrefix (.ofBufferList l) = .ok v' ∧
        v'.bytes = l'.concatenate ∧ v'.size = l'.size ∧ l'.concatenate = l.concatenate.drop ns.sum) ∧
    (∀ ns : List ℕ, l.size < ns.sum →
      ns.foldlM removePrefix l = .error (.outOfRange "BufferList::remove_prefix") ∧
        ns.foldlM BufferViewList.removePrefix (.ofBufferList l) =
          .error (.outOfRange "BufferListView::remove_prefix")) := by
  refine ⟨fun n => ⟨fun h => ?_, removePrefix_error⟩, fun ns h => ?_, fun ns h => foldlM_removePrefix_error h⟩
  · obtain ⟨l', hl', hdrop, -⟩ := removePrefix_view h
    exact ⟨l', hl', hdrop⟩
  · obtain ⟨l', hl', hdrop, hview⟩ := foldlM_removePrefix h
    exact ⟨l', _, hl', hview, BufferViewList.bytes_ofBufferList l', BufferViewList.size_ofBufferList l', hdrop⟩

end BufferList

end Sponge
