import Sponge.Library.Intervals
import Sponge.Library.Strings
import Sponge.Stream.Reassembler

/-!
# What insertion into the linked list does

`insert_to_linklist` walks the list, skips what it already holds, fills the gaps one
by one and puts what is left at the end. `Inserts` says this once, as a relation
with one constructor for each way a node is passed; `insertAfter_inserts` says that
the code follows it on a list in order. Everything else about insertion is an induction
on that relation.

`InsertsAtHead` adds the two cases that only arise at `_head`, and
`insertHead_spec` ties it to the code.

## What is proved

* `InsertsAtHead.tidy` — the list stays tidy: blocks in order, each as long as its
  data.
* `InsertsAtHead.mem` — a node of the new list is an old node or a piece of the data
  at its place (`IsPiece`), and `InsertsAtHead.sublist` — old nodes stay.
* `InsertsAtHead.total_add` — what the list gains in bytes the remaining capacity
  loses.
* `InsertsAtHead.complete` — if there is room (`Room`), every byte of the data is
  held afterwards.

`Room` is exact about the way the code runs out of room. It cuts the data to the
remaining capacity before it skips what is already held, so a held stretch uses up
the remaining capacity too, until the next missing byte.
-/

namespace Sponge

open Intervals StreamReassembler

/-- The first index after a block. -/
def Node.stop (n : Node) : ℕ := n.blockend + 1

/-- A block is as long as its data. No block starts at index `0`: the byte there can
always be written. -/
structure Node.Ok (n : Node) : Prop where
  /-- The first byte of the stream is never kept in the list. -/
  pos : 1 ≤ n.blockstart
  /-- The indices are those of the data. -/
  len : n.blockstart + n.data.length = n.stop

/-- A tidy list: its blocks are as long as their data, and in order. -/
structure Tidy (l : List Node) : Prop where
  /-- Every block is as long as its data. -/
  ok : ∀ n ∈ l, n.Ok
  /-- A block ends before the next one starts. -/
  order : l.Pairwise fun a b => a.stop ≤ b.blockstart

/-- The list holds index `i`. -/
abbrev Holds (l : List Node) (i : ℕ) : Prop := Held Node.blockstart Node.stop l i

theorem holds_cons {n : Node} {l : List Node} {i : ℕ} :
    Holds (n :: l) i ↔ (n.blockstart ≤ i ∧ i < n.stop) ∨ Holds l i := held_cons

/-- The number of bytes in the list. -/
def total (l : List Node) : ℕ := (l.map fun n => n.data.length).sum

@[simp] theorem total_nil : total [] = 0 := rfl

@[simp] theorem total_cons (n : Node) (l : List Node) : total (n :: l) = n.data.length + total l := by
  simp [total]

theorem Node.Ok.le {n : Node} (h : n.Ok) : n.blockstart ≤ n.stop := by
  have := h.len
  omega

theorem tidy_nil : Tidy [] := ⟨by simp, List.Pairwise.nil⟩

theorem tidy_cons {n : Node} {l : List Node} :
    Tidy (n :: l) ↔ n.Ok ∧ (∀ c ∈ l, n.stop ≤ c.blockstart) ∧ Tidy l := by
  constructor
  · rintro ⟨hok, hord⟩
    rw [List.pairwise_cons] at hord
    exact ⟨hok n List.mem_cons_self, hord.1, fun c hc => hok c (List.mem_cons_of_mem _ hc), hord.2⟩
  · rintro ⟨hn, hord, hl⟩
    exact ⟨by simpa using ⟨hn, hl.ok⟩, List.pairwise_cons.mpr ⟨hord, hl.order⟩⟩

theorem Tidy.tail {n : Node} {l : List Node} (h : Tidy (n :: l)) : Tidy l := (tidy_cons.mp h).2.2

theorem Tidy.sublist {l l' : List Node} (h : Tidy l) (hl : l'.Sublist l) : Tidy l' :=
  ⟨fun n hn => h.ok n (hl.subset hn), h.order.sublist hl⟩

theorem Tidy.inOrder {l : List Node} (h : Tidy l) : InOrder Node.blockstart Node.stop l :=
  ⟨fun n hn => (h.ok n hn).le, h.order⟩

/-- Every block of a tidy list starts at or after the first one. -/
theorem Tidy.start_le {n : Node} {l : List Node} (h : Tidy (n :: l)) {c : Node} (hc : c ∈ n :: l) :
    n.blockstart ≤ c.blockstart := by
  obtain ⟨hn, hord, -⟩ := tidy_cons.mp h
  rcases List.mem_cons.mp hc with rfl | hc
  · exact le_rfl
  · exact hn.le.trans (hord c hc)

/-- In a tidy list, the bytes in the list are the indices held, each counted once. -/
theorem Tidy.total_eq {l : List Node} (h : Tidy l) :
    total l = (heldIndices Node.blockstart Node.stop l).card := by
  rw [card_heldIndices h.inOrder, total]
  congr 1
  refine List.map_congr_left fun n hn => ?_
  have := (h.ok n hn).len
  omega

/-! ### The relation -/

/-- The bytes `data[k, k+m)`, as a block of the list. -/
def pieceAt (data : Bytes) (index k m : ℕ) (eof : Bool) : Node where
  data := (data.drop k).take m
  blockstart := index + k
  blockend := index + k + m - 1
  eof := eof

/-- Insertion of `data` at `index`, from a node of the list on, when `remain` bytes of
capacity remain: the list and the remaining capacity afterwards. -/
inductive Inserts (eof : Bool) : ℕ → List Node → Bytes → ℕ → List Node → ℕ → Prop where
  /-- Nothing to insert, or no room. -/
  | done {remain : ℕ} {l : List Node} {data : Bytes} {index : ℕ} :
      data.length = 0 ∨ remain = 0 → Inserts eof remain l data index l remain
  /-- What there is room for ends inside `p`. -/
  | covered {remain : ℕ} {p : Node} {rest : List Node} {data : Bytes} {index : ℕ} :
      index + min data.length remain ≤ p.stop →
        Inserts eof remain (p :: rest) data index (p :: rest) remain
  /-- The next node follows `p` at once, or starts before `index`: walk on. -/
  | walk {remain remain' : ℕ} {p q : Node} {rest l' : List Node} {data : Bytes} {index : ℕ} :
      p.stop < index + min data.length remain → q.blockstart = p.stop ∨ q.blockstart < index →
        Inserts eof remain (q :: rest) data index l' remain' →
          Inserts eof remain (p :: q :: rest) data index (p :: l') remain'
  /-- Fill the gap between `p` and the next node, and go on with the rest. -/
  | gap {remain remain' k m : ℕ} {p q : Node} {rest l' : List Node} {data : Bytes} {index : ℕ} :
      0 < data.length → p.stop < index + min data.length remain → index ≤ q.blockstart →
        k = p.stop - index →
        m = min (min (min data.length remain) (data.length - k)) (q.blockstart - (index + k)) →
          Inserts eof (remain - m) (q :: rest) (data.drop (k + m)) (index + k + m) l' remain' →
            Inserts eof remain (p :: q :: rest) data index
              (p :: pieceAt data index k m false :: l') remain'
  /-- `p` is the last node: put what there is room for after it. -/
  | last {remain k m : ℕ} {p : Node} {data : Bytes} {index : ℕ} :
      0 < data.length → p.stop < index + min data.length remain → k = p.stop - index →
        m = min (min data.length remain) (data.length - k) →
          Inserts eof remain [p] data index
            [p, pieceAt data index k m (m + k == data.length && eof)] (remain - m)

/-- How far the data overlaps `p`, as the code computes it. -/
theorem offset_eq (p : Node) (index : ℕ) :
    (if index > p.blockend then 0 else p.blockend + 1 - index) = p.stop - index := by
  unfold Node.stop
  split_ifs <;> omega

/-- The room before the next node, as the code computes it. -/
theorem gap_eq {p q : Node} {index : ℕ} (h1 : 1 ≤ index) (hpq : p.stop ≤ q.blockstart)
    (hq : index ≤ q.blockstart) :
    sub64 (sub64 q.blockstart (max (sub64 index 1) p.blockend)) 1 =
      q.blockstart - (index + (p.stop - index)) := by
  unfold Node.stop at hpq ⊢
  have hin : sub64 q.blockstart (max (index - 1) p.blockend) = q.blockstart - max (index - 1) p.blockend :=
    sub64_of_le (by omega)
  rw [sub64_of_le h1, hin, sub64_of_le (by omega)]
  omega

/-- The blocks are in order: each one ends before the next one starts. -/
abbrev Spaced (l : List Node) : Prop := l.Pairwise fun a b => a.stop ≤ b.blockstart

section Equations

variable {remain : ℕ} {p q : Node} {rest : List Node} {data : Bytes} {index k m : ℕ} (eof : Bool)

theorem insertAfter_done {l : List Node} (h : data.length = 0 ∨ remain = 0) :
    insertAfter remain l data index eof = (l, remain) := by
  rcases l with _ | ⟨p, _ | ⟨q, rest⟩⟩
  · rfl
  · rw [insertAfter, if_pos h]
  · rw [insertAfter, if_pos h]

theorem insertAfter_covered (h : index + min data.length remain ≤ p.stop) :
    insertAfter remain (p :: rest) data index eof = (p :: rest, remain) := by
  by_cases hdone : data.length = 0 ∨ remain = 0
  · exact insertAfter_done eof hdone
  · have hstop : ¬ index + min data.length remain - 1 > p.blockend := by
      unfold Node.stop at h
      omega
    cases rest with
    | nil => simp only [insertAfter, if_neg hdone, if_neg hstop]
    | cons q rest => simp only [insertAfter, if_neg hdone, if_neg hstop]

variable (hpos : 0 < data.length) (hremain : 0 < remain) (hstop : p.stop < index + min data.length remain)
include hpos hremain hstop

theorem insertAfter_walk (hnext : q.blockstart = p.stop ∨ q.blockstart < index) :
    insertAfter remain (p :: q :: rest) data index eof =
      (p :: (insertAfter remain (q :: rest) data index eof).1, (insertAfter remain (q :: rest) data index eof).2) := by
  have hblock : index + min data.length remain - 1 > p.blockend := by
    unfold Node.stop at hstop
    omega
  have hwalk : q.blockstart = p.blockend + 1 ∨ index > q.blockstart := hnext
  simp only [insertAfter]
  rw [if_neg (by omega), if_pos hblock, if_pos hwalk]

theorem insertAfter_gap (hi : 1 ≤ index) (hpq : p.stop < q.blockstart) (hq : index ≤ q.blockstart)
    (hk : k = p.stop - index)
    (hm : m = min (min (min data.length remain) (data.length - k)) (q.blockstart - (index + k))) :
    insertAfter remain (p :: q :: rest) data index eof =
      (p :: pieceAt data index k m false ::
          (insertAfter (remain - m) (q :: rest) (data.drop (k + m)) (index + k + m) eof).1,
        (insertAfter (remain - m) (q :: rest) (data.drop (k + m)) (index + k + m) eof).2) := by
  have hblock : index + min data.length remain - 1 > p.blockend := by
    unfold Node.stop at hstop
    omega
  have hwalk : ¬ (q.blockstart = p.blockend + 1 ∨ index > q.blockstart) := by
    unfold Node.stop at hpq
    omega
  simp only [insertAfter, offset_eq, List.length_drop]
  rw [if_neg (by omega), if_pos hblock, if_neg hwalk, gap_eq hi hpq.le hq, ← hk, ← hm, sub64_of_le (by omega),
    Nat.sub_add_cancel (by omega)]
  rfl

theorem insertAfter_last (hi : 1 ≤ index) (hk : k = p.stop - index)
    (hm : m = min (min data.length remain) (data.length - k)) :
    insertAfter remain [p] data index eof =
      ([p, pieceAt data index k m (m + k == data.length && eof)], remain - m) := by
  have hblock : index + min data.length remain - 1 > p.blockend := by
    unfold Node.stop at hstop
    omega
  simp only [insertAfter, offset_eq, List.length_drop]
  rw [if_neg (by omega), if_pos hblock, ← hk, ← hm, sub64_of_le (by omega)]
  rfl

end Equations

/-- **The code follows the relation** on a list in order. -/
theorem insertAfter_inserts (eof : Bool) {rest : List Node} : ∀ {remain : ℕ} {p : Node} {data : Bytes}
    {index : ℕ}, Spaced (p :: rest) → 1 ≤ index →
      Inserts eof remain (p :: rest) data index (insertAfter remain (p :: rest) data index eof).1
        (insertAfter remain (p :: rest) data index eof).2 := by
  induction rest with
  | nil =>
    intro remain p data index hspaced hi
    by_cases hdone : data.length = 0 ∨ remain = 0
    · rw [insertAfter_done eof hdone]
      exact .done hdone
    by_cases hstop : p.stop < index + min data.length remain
    · rw [insertAfter_last eof (by omega) (by omega) hstop hi rfl rfl]
      exact .last (by omega) hstop rfl rfl
    · rw [insertAfter_covered eof (Nat.not_lt.mp hstop)]
      exact .covered (Nat.not_lt.mp hstop)
  | cons q rest ih =>
    intro remain p data index hspaced hi
    obtain ⟨hpq, htail⟩ := List.pairwise_cons.mp hspaced
    have hpq := hpq q List.mem_cons_self
    by_cases hdone : data.length = 0 ∨ remain = 0
    · rw [insertAfter_done eof hdone]
      exact .done hdone
    by_cases hstop : p.stop < index + min data.length remain
    · by_cases hwalk : q.blockstart = p.stop ∨ q.blockstart < index
      · rw [insertAfter_walk eof (by omega) (by omega) hstop hwalk]
        exact .walk hstop hwalk (ih htail hi)
      · rw [insertAfter_gap eof (by omega) (by omega) hstop hi (by omega) (by omega) rfl rfl]
        exact .gap (by omega) hstop (by omega) rfl rfl (ih htail (by omega))
    · rw [insertAfter_covered eof (Nat.not_lt.mp hstop)]
      exact .covered (Nat.not_lt.mp hstop)

/-! ### What the list consists of afterwards -/

/-- `n` is a piece of the data, at its place. It carries the end of the stream if it
reaches the end of the data, unless a block of the list `l` starts there or later. -/
def IsPiece (data : Bytes) (index : ℕ) (eof : Bool) (l : List Node) (n : Node) : Prop :=
  ∃ k m, k < data.length ∧ k + m ≤ data.length ∧ n.data = (data.drop k).take m ∧
    n.blockstart = index + k ∧ n.stop = index + k + m ∧
      (n.eof = true → eof = true ∧ k + m = data.length) ∧
        (eof = true → k + m = data.length →
          n.eof = true ∨ ∃ q ∈ l, index + data.length ≤ q.blockstart)

/-- A piece of the rest of the data is a piece of the data. -/
theorem IsPiece.of_drop {data : Bytes} {index o : ℕ} {eof : Bool} {l l' : List Node} {n : Node}
    (h : IsPiece (data.drop o) (index + o) eof l n) (hl : ∀ q ∈ l, q ∈ l') :
    IsPiece data index eof l' n := by
  obtain ⟨k, m, hk, hkm, hdata, hstart, hstop, heof, heof'⟩ := h
  rw [List.length_drop] at hk hkm heof heof'
  refine ⟨o + k, m, by omega, by omega, ?_, by omega, by omega, ?_, ?_⟩
  · rw [hdata, List.drop_drop]
  · intro he
    have := heof he
    exact ⟨this.1, by omega⟩
  · intro he hend
    rcases heof' he (by omega) with h | ⟨q, hq, hle⟩
    · exact Or.inl h
    · exact Or.inr ⟨q, hl q hq, by omega⟩

theorem IsPiece.mono {data : Bytes} {index : ℕ} {eof : Bool} {l l' : List Node} {n : Node}
    (h : IsPiece data index eof l n) (hl : ∀ q ∈ l, q ∈ l') : IsPiece data index eof l' n := by
  refine IsPiece.of_drop (o := 0) ?_ hl
  simpa using h

/-- The blocks that insertion makes are pieces of the data. -/
theorem isPiece_pieceAt {data : Bytes} {index k m : ℕ} {eof e : Bool} {l : List Node}
    (hi : 1 ≤ index) (hk : k < data.length) (hkm : k + m ≤ data.length)
    (he : e = true → eof = true ∧ k + m = data.length)
    (he' : eof = true → k + m = data.length → e = true ∨ ∃ q ∈ l, index + data.length ≤ q.blockstart) :
    IsPiece data index eof l (pieceAt data index k m e) := by
  refine ⟨k, m, hk, hkm, rfl, rfl, ?_, he, he'⟩
  simp only [Node.stop, pieceAt]
  omega

theorem mem_pieceAt {data : Bytes} {index k m i : ℕ} {e : Bool} (h1 : index + k ≤ i)
    (h2 : i < index + k + m) :
    (pieceAt data index k m e).blockstart ≤ i ∧ i < (pieceAt data index k m e).stop := by
  simp only [Node.stop, pieceAt]
  omega

theorem length_pieceAt {data : Bytes} {index k m : ℕ} {e : Bool} (hkm : k + m ≤ data.length) :
    (pieceAt data index k m e).data.length = m := by
  simp only [pieceAt, List.length_take, List.length_drop]
  omega

theorem pieceAt_ok {data : Bytes} {index k m : ℕ} {e : Bool} (hi : 1 ≤ index)
    (hkm : k + m ≤ data.length) : (pieceAt data index k m e).Ok := by
  constructor
  · simp only [pieceAt]
    omega
  · rw [length_pieceAt hkm]
    simp only [pieceAt, Node.stop]
    omega

/-- Where the piece of the data after a node lies: it starts where the node stops, or at `index`. -/
theorem piece_bounds {stop index len remain k m : ℕ} (hpos : 0 < len)
    (hstop : stop < index + min len remain) (hk : k = stop - index) (hm : m ≤ min (min len remain) (len - k)) :
    stop ≤ index + k ∧ k < len ∧ k + m ≤ len ∧ m ≤ remain := by
  omega

section Inserts

variable {eof : Bool} {remain remain' : ℕ} {l l' : List Node} {data : Bytes} {index : ℕ}

/-- Old nodes stay. -/
theorem Inserts.sublist (h : Inserts eof remain l data index l' remain') : l.Sublist l' := by
  induction h with
  | done => exact List.Sublist.refl _
  | covered => exact List.Sublist.refl _
  | walk _ _ _ ih => exact ih.cons_cons _
  | gap _ _ _ _ _ _ ih => exact (ih.cons _).cons_cons _
  | last => exact (List.nil_sublist _).cons_cons _

/-- The first node stays first. -/
theorem Inserts.head (h : Inserts eof remain l data index l' remain') : l'.head? = l.head? := by
  cases h <;> rfl

/-- A node of the new list is an old node or a piece of the data. -/
theorem Inserts.mem (h : Inserts eof remain l data index l' remain') (hi : 1 ≤ index) {n : Node}
    (hn : n ∈ l') : n ∈ l ∨ IsPiece data index eof l n := by
  induction h with
  | done => exact Or.inl hn
  | covered => exact Or.inl hn
  | walk _ _ _ ih =>
    rcases List.mem_cons.mp hn with rfl | hn
    · exact Or.inl List.mem_cons_self
    · rcases ih hi hn with h | h
      · exact Or.inl (List.mem_cons_of_mem _ h)
      · exact Or.inr (h.mono fun q hq => List.mem_cons_of_mem _ hq)
  | @gap remain remain' k m p q rest l' data index hpos hstop hq hk hm _ ih =>
    obtain ⟨-, hklen, hkm, -⟩ := piece_bounds hpos hstop hk (hm.trans_le (min_le_left _ _))
    have hmq : m ≤ q.blockstart - (index + k) := hm.trans_le (min_le_right _ _)
    clear hstop hk hm
    rcases List.mem_cons.mp hn with rfl | hn
    · exact Or.inl List.mem_cons_self
    rcases List.mem_cons.mp hn with rfl | hn
    · -- the gap is filled without the flag: the next node starts after it
      refine Or.inr (isPiece_pieceAt hi hklen hkm (by simp) fun _ hend => Or.inr ?_)
      exact ⟨q, by simp, by omega⟩
    · rcases ih (by omega) hn with h | h
      · exact Or.inl (List.mem_cons_of_mem _ h)
      · rw [Nat.add_assoc] at h
        exact Or.inr (h.of_drop fun q hq => List.mem_cons_of_mem _ hq)
  | last hpos hstop hk hm =>
    rcases List.mem_cons.mp hn with rfl | hn
    · exact Or.inl List.mem_cons_self
    · obtain ⟨-, hklen, hkm, -⟩ := piece_bounds hpos hstop hk (Nat.le_of_eq hm)
      rw [List.mem_singleton.mp hn]
      refine Or.inr (isPiece_pieceAt hi hklen hkm ?_ ?_)
      · simp only [Bool.and_eq_true, beq_iff_eq]
        exact fun ⟨h, he⟩ => ⟨he, by omega⟩
      · intro he hend
        left
        simp only [Bool.and_eq_true, beq_iff_eq]
        exact ⟨by omega, he⟩

/-- The list stays tidy after its first node, whatever that node is. -/
theorem Inserts.tidy_after (h : Inserts eof remain l data index l' remain') (hi : 1 ≤ index) {p : Node}
    {rest : List Node} (hl : l = p :: rest) (hord : ∀ c ∈ rest, p.stop ≤ c.blockstart) (ht : Tidy rest) :
    ∃ rest', l' = p :: rest' ∧ (∀ c ∈ rest', p.stop ≤ c.blockstart) ∧ Tidy rest' := by
  induction h generalizing p rest with
  | done => exact ⟨rest, hl, hord, ht⟩
  | covered => exact ⟨rest, hl, hord, ht⟩
  | @walk _ _ _ q _ _ _ _ _ _ _ ih =>
    cases hl
    obtain ⟨hq, hqord, hqrest⟩ := tidy_cons.mp ht
    obtain ⟨rest', rfl, hord', hrest'⟩ := ih hi rfl hqord hqrest
    have ht' : Tidy (q :: rest') := tidy_cons.mpr ⟨hq, hord', hrest'⟩
    exact ⟨_, rfl, fun c hc => (hord q List.mem_cons_self).trans (ht'.start_le hc), ht'⟩
  | @gap _ _ k m _ q _ _ data index hpos hstop hq hk hm _ ih =>
    cases hl
    obtain ⟨hpk, -, hkm, -⟩ := piece_bounds hpos hstop hk (hm.trans_le (min_le_left _ _))
    have hmq : m ≤ q.blockstart - (index + k) := hm.trans_le (min_le_right _ _)
    obtain ⟨hqok, hqord, hqrest⟩ := tidy_cons.mp ht
    have hpq := hord q List.mem_cons_self
    have hkq : index + k ≤ q.blockstart := by omega
    clear hstop hk hm
    obtain ⟨rest', rfl, hord', hrest'⟩ := ih (by omega) rfl hqord hqrest
    have ht' : Tidy (q :: rest') := tidy_cons.mpr ⟨hqok, hord', hrest'⟩
    have hpiece : (pieceAt data index k m false).stop = index + k + m := by
      simp only [Node.stop, pieceAt]
      omega
    refine ⟨_, rfl, fun c hc => ?_, tidy_cons.mpr ⟨pieceAt_ok hi hkm, fun c hc => ?_, ht'⟩⟩
    · rcases List.mem_cons.mp hc with rfl | hc
      · exact hpk
      · exact hpq.trans (ht'.start_le hc)
    · have := ht'.start_le hc
      omega
  | last hpos hstop hk hm =>
    cases hl
    obtain ⟨hpk, -, hkm, -⟩ := piece_bounds hpos hstop hk (Nat.le_of_eq hm)
    refine ⟨_, rfl, fun c hc => ?_, tidy_cons.mpr ⟨pieceAt_ok hi hkm, by simp, tidy_nil⟩⟩
    rw [List.mem_singleton.mp hc]
    exact hpk

/-- The list stays tidy. -/
theorem Inserts.tidy (h : Inserts eof remain l data index l' remain') (hi : 1 ≤ index)
    (ht : Tidy l) : Tidy l' := by
  cases l with
  | nil =>
    cases h
    exact tidy_nil
  | cons p rest =>
    obtain ⟨hp, hord, hrest⟩ := tidy_cons.mp ht
    obtain ⟨rest', rfl, hord', hrest'⟩ := h.tidy_after hi rfl hord hrest
    exact tidy_cons.mpr ⟨hp, hord', hrest'⟩

/-- What the list gains in bytes the remaining capacity loses. -/
theorem Inserts.total_add (h : Inserts eof remain l data index l' remain') :
    remain' + total l' = remain + total l := by
  induction h with
  | done => rfl
  | covered => rfl
  | walk _ _ _ ih =>
    simp only [total_cons] at ih ⊢
    omega
  | gap hpos hstop _ hk hm _ ih =>
    obtain ⟨-, -, hkm, hmr⟩ := piece_bounds hpos hstop hk (hm.trans_le (min_le_left _ _))
    clear hstop hk hm
    simp only [total_cons, length_pieceAt hkm] at ih ⊢
    omega
  | last hpos hstop hk hm =>
    obtain ⟨-, -, hkm, hmr⟩ := piece_bounds hpos hstop hk (Nat.le_of_eq hm)
    simp only [total_cons, total_nil, length_pieceAt hkm]
    omega

end Inserts

/-! ### Every byte is kept if there is room -/

/-- There is room for the data `[index, index+len)` in a list that holds the indices `H`,
with `remain` bytes of capacity left: for every byte `i` not yet held, the missing bytes
before it and the held stretch `[r, i)` right before it together leave room. -/
def Room (H : ℕ → Prop) [DecidablePred H] (index len remain : ℕ) : Prop :=
  ∀ i r, index ≤ r → r ≤ i → i < index + len → (∀ j, r ≤ j → j < i → H j) → ¬ H i →
    missing H index i + (i - r) < remain

instance (H : ℕ → Prop) [DecidablePred H] (index len remain : ℕ) :
    Decidable (Room H index len remain) :=
  decidable_of_iff (∀ i < index + len, ∀ r < i + 1,
      index ≤ r ∧ (∀ j < i, r ≤ j → H j) ∧ ¬ H i → missing H index i + (i - r) < remain)
    ⟨fun h i r hr hri hi hrun hH => h i hi r (by omega) ⟨hr, fun j hj hrj => hrun j hrj hj, hH⟩,
      fun h i hi r hri ⟨hr, hrun, hH⟩ => h i r hr (by omega) hi (fun j hrj hj => hrun j hj hrj) hH⟩

section Room

variable {H : ℕ → Prop} [DecidablePred H] {index len remain : ℕ}

/-- If the part of the data the code looks at is held, all of it is. -/
theorem Room.of_min (h : Room H index len remain)
    (hmin : ∀ i, index ≤ i → i < index + min len remain → H i) :
    ∀ i, index ≤ i → i < index + len → H i := by
  intro i
  induction i using Nat.strong_induction_on with
  | _ i ih =>
    intro hi hlen
    by_cases hlt : i < index + min len remain
    · exact hmin i hi hlt
    by_contra hH
    have := h i index le_rfl hi hlen (fun j hj hji => ih j hji hj (by omega)) hH
    omega

/-- A gap that starts at `a` has room up to its end or the end of the data. -/
theorem Room.lt_of_gap (h : Room H index len remain) {a b : ℕ} (ha : index ≤ a)
    (hgap : ∀ j, a ≤ j → j < b → ¬ H j) {i : ℕ} (hai : a ≤ i) (hib : i < b)
    (hi : i < index + len) : i < a + remain := by
  have h1 := h i i (by omega) le_rfl hi (fun j hj hji => absurd hj (by omega)) (hgap i hai hib)
  rw [missing_add ha hai, missing_eq_of_forall (a := a) fun j hj hji => hgap j hj (by omega)] at h1
  omega

/-- Every byte of the data in the gap goes into a new node of `m` bytes. -/
theorem Room.lt_of_fill (h : Room H index len remain) {a b m : ℕ} (ha : index ≤ a)
    (hgap : ∀ j, a ≤ j → j < b → ¬ H j) (hm : min (min remain (index + len - a)) (b - a) ≤ m) {i : ℕ}
    (hai : a ≤ i) (hib : i < b) (hi : i < index + len) : i < a + m := by
  have := h.lt_of_gap ha hgap hai hib hi
  omega

/-- If the data goes on after the gap, the new node fills it. -/
theorem Room.fill (h : Room H index len remain) {a b m : ℕ} (ha : index ≤ a) (hab : a ≤ b)
    (hgap : ∀ j, a ≤ j → j < b → ¬ H j) (hm : min (min remain (index + len - a)) (b - a) ≤ m)
    (hmb : m ≤ b - a) (hb : b < index + len) : a + m = b := by
  by_contra hne
  have := h.lt_of_fill ha hgap hm (i := a + m) (by omega) (by omega) (by omega)
  omega

/-- After a gap is filled there is still room for the rest. -/
theorem Room.rest (h : Room H index len remain) {a b m : ℕ} (ha : index ≤ a) (hfill : a + m = b)
    (hgap : ∀ j, a ≤ j → j < b → ¬ H j) {len' : ℕ} (hlen : b + len' = index + len) :
    Room H b len' (remain - m) := by
  intro i r hr hri hi hrun hH
  have h1 := h i r (by omega) hri (by omega) hrun hH
  rw [missing_add ha (by omega : a ≤ i), missing_add (by omega : a ≤ b) (by omega : b ≤ i),
    missing_eq_of_forall hgap] at h1
  omega

end Room

/-- What a tidy list holds from its second node on. -/
theorem Tidy.holds_tail {p : Node} {l : List Node} {i b : ℕ} (hb : p.stop ≤ b) (hi : b ≤ i) :
    Holds (p :: l) i ↔ Holds l i := by
  rw [holds_cons]
  constructor
  · rintro (h | h)
    · omega
    · exact h
  · exact Or.inr

/-- Between two nodes of a tidy list nothing is held. -/
theorem Tidy.not_holds_between {p q : Node} {rest : List Node} (ht : Tidy (p :: q :: rest)) {i : ℕ}
    (hp : p.stop ≤ i) (hq : i < q.blockstart) : ¬ Holds (p :: q :: rest) i := by
  rw [Tidy.holds_tail le_rfl hp]
  exact ht.tail.inOrder.not_held_of_lt hq

/-- **Completeness of insertion.** `H` is what the whole list holds; it agrees with `l` from
the first node of `l` on, and below that node it holds all of the data. -/
theorem Inserts.complete {eof : Bool} {remain remain' : ℕ} {l l' : List Node} {data : Bytes}
    {index : ℕ} (h : Inserts eof remain l data index l' remain') {H : ℕ → Prop} [DecidablePred H] :
    ∀ {p : Node} {rest : List Node}, l = p :: rest → Tidy l →
      (∀ i, p.blockstart ≤ i → (H i ↔ Holds l i)) → (∀ i, index ≤ i → i < p.blockstart → H i) →
        Room H index data.length remain →
          ∀ i, p.blockstart ≤ i → index ≤ i → i < index + data.length → Holds l' i := by
  induction h with
  | done hdone =>
    intro p rest _ _ hH _ hroom i hpi hi hlen
    by_contra hnot
    have := hroom i i hi le_rfl hlen (fun j hj hji => absurd hj (by omega)) (by rwa [hH i hpi])
    omega
  | @covered remain p rest data index hstop =>
    intro p' rest' hl ht hH hbelow hroom i hpi hi hlen
    obtain ⟨rfl, rfl⟩ := List.cons.inj hl
    rw [← hH i hpi]
    refine hroom.of_min (fun j hj hjm => ?_) i hi hlen
    by_cases hjp : j < p.blockstart
    · exact hbelow j hj hjp
    · rw [hH j (by omega), holds_cons]
      exact Or.inl ⟨by omega, by omega⟩
  | @walk remain remain' p q rest l' data index hstop hnext _ ih =>
    intro p' rest' hl ht hH hbelow hroom i hpi hi hlen
    obtain ⟨rfl, rfl⟩ := List.cons.inj hl
    obtain ⟨hp, hord, ht'⟩ := tidy_cons.mp ht
    have hpq := hord q List.mem_cons_self
    rw [holds_cons]
    by_cases hip : i < p.stop
    · exact Or.inl ⟨hpi, hip⟩
    refine Or.inr (ih rfl ht' (fun j hj => ?_) (fun j hj hjq => ?_) hroom i (by omega) hi hlen)
    · have := hp.le
      rw [hH j (by omega), Tidy.holds_tail hpq hj]
    · by_cases hjp : j < p.blockstart
      · exact hbelow j hj hjp
      · rw [hH j (by omega), holds_cons]
        exact Or.inl ⟨by omega, by omega⟩
  | @gap remain remain' k m p q rest l' data index hpos hstop hq hk hm _ ih =>
    intro p' rest' hl ht hH hbelow hroom i hpi hi hlen
    obtain ⟨rfl, rfl⟩ := List.cons.inj hl
    obtain ⟨hp, hord, ht'⟩ := tidy_cons.mp ht
    have hpq := hord q List.mem_cons_self
    have hple := hp.le
    obtain ⟨hpk, hklen, hkm, hmr⟩ := piece_bounds hpos hstop hk (hm.trans_le (min_le_left _ _))
    have hmq : m ≤ q.blockstart - (index + k) := hm.trans_le (min_le_right _ _)
    have hkq : index + k ≤ q.blockstart := by omega
    have hki : p.stop ≤ i → index + k ≤ i := by omega
    have hm' : min (min remain (index + data.length - (index + k))) (q.blockstart - (index + k)) ≤ m := by
      omega
    clear hstop hk hm
    have hgap : ∀ j, index + k ≤ j → j < q.blockstart → ¬ H j := fun j hj hjq => by
      rw [hH j (by omega)]
      exact ht.not_holds_between (by omega) hjq
    rw [holds_cons, holds_cons]
    by_cases hip : i < p.stop
    · exact Or.inl ⟨hpi, hip⟩
    by_cases hiq : i < q.blockstart
    · have hai := hki (Nat.not_lt.mp hip)
      exact Or.inr (Or.inl (mem_pieceAt hai
        (hroom.lt_of_fill (Nat.le_add_right _ _) hgap hm' hai hiq hlen)))
    -- the data reaches the next node, so the gap has been filled
    have hend : index + k + m = q.blockstart :=
      hroom.fill (Nat.le_add_right _ _) hkq hgap hm' hmq (by omega)
    clear hm' hmq
    have hrest : Room H q.blockstart (data.drop (k + m)).length (remain - m) := by
      refine hroom.rest (Nat.le_add_right _ _) hend hgap ?_
      rw [List.length_drop]
      omega
    rw [hend] at ih
    refine Or.inr (Or.inr (ih rfl ht' (fun j hj => ?_) (fun j hj hjq => absurd hj (by omega)) hrest i
      (by omega) (by omega) ?_))
    · rw [hH j (by omega), Tidy.holds_tail hpq hj]
    · rw [List.length_drop]
      omega
  | @last remain k m p data index hpos hstop hk hm =>
    intro p' rest' hl ht hH hbelow hroom i hpi hi hlen
    obtain ⟨rfl, rfl⟩ := List.cons.inj hl
    have hple := (ht.ok p List.mem_cons_self).le
    rw [holds_cons, holds_cons]
    by_cases hip : i < p.stop
    · exact Or.inl ⟨hpi, hip⟩
    have hgap : ∀ j, index + k ≤ j → j < i + 1 → ¬ H j := fun j hj _ => by
      rw [hH j (by omega), Tidy.holds_tail le_rfl (by omega : p.stop ≤ j)]
      exact not_held_nil j
    have := hroom.lt_of_gap (by omega) hgap (by omega : index + k ≤ i) (by omega) hlen
    exact Or.inr (Or.inl (mem_pieceAt (by omega) (by omega)))

/-! ### At the head of the list -/

/-- Insertion at `_head`. -/
inductive InsertsAtHead (eof : Bool) (remain : ℕ) (data : Bytes) (index : ℕ) :
    List Node → List Node → ℕ → Prop where
  /-- Nothing to insert, or no room. -/
  | done {l : List Node} : data.length = 0 ∨ remain = 0 → InsertsAtHead eof remain data index l l remain
  /-- The list is empty: the data makes its first node. -/
  | first {m : ℕ} : 0 < data.length → m = min data.length remain →
      InsertsAtHead eof remain data index [] [pieceAt data index 0 m (m == data.length && eof)] (remain - m)
  /-- The data starts before the list: a new first node, and then the rest. -/
  | before {m remain' : ℕ} {h : Node} {rest l' : List Node} : 0 < data.length → 0 < remain →
      index < h.blockstart → m = min (min data.length remain) (h.blockstart - index) →
        Inserts eof (remain - m) (h :: rest) (data.drop m) (index + m) l' remain' →
          InsertsAtHead eof remain data index (h :: rest) (pieceAt data index 0 m false :: l') remain'
  /-- The data starts in or after the first node. -/
  | after {remain' : ℕ} {h : Node} {rest l' : List Node} : h.blockstart ≤ index →
      Inserts eof remain (h :: rest) data index l' remain' →
        InsertsAtHead eof remain data index (h :: rest) l' remain'

section Equations

variable {remain : ℕ} {h : Node} {rest : List Node} {data : Bytes} {index m : ℕ} (eof : Bool)

theorem insertHead_done {l : List Node} (hdone : data.length = 0 ∨ remain = 0) :
    insertHead remain l data index eof = (l, remain) := if_pos hdone

theorem insertHead_before (hdone : ¬ (data.length = 0 ∨ remain = 0)) (hbefore : index < h.blockstart)
    (hm : m = min (min data.length remain) (h.blockstart - index)) :
    insertHead remain (h :: rest) data index eof =
      (pieceAt data index 0 m false :: (insertAfter (remain - m) (h :: rest) (data.drop m) (index + m) eof).1,
        (insertAfter (remain - m) (h :: rest) (data.drop m) (index + m) eof).2) := by
  simp only [insertHead]
  rw [if_neg hdone, if_pos hbefore, ← hm]
  rfl

theorem insertHead_after (hafter : h.blockstart ≤ index) :
    insertHead remain (h :: rest) data index eof = insertAfter remain (h :: rest) data index eof := by
  by_cases hdone : data.length = 0 ∨ remain = 0
  · rw [insertHead_done eof hdone, insertAfter_done eof hdone]
  · simp only [insertHead]
    rw [if_neg hdone, if_neg (Nat.not_lt.mpr hafter)]

end Equations

/-- **The code follows the relation** on a list in order. -/
theorem insertHead_spec_of_spaced (eof : Bool) (remain : ℕ) {head : List Node} (data : Bytes) {index : ℕ}
    (hs : Spaced head) (hi : 1 ≤ index) :
    InsertsAtHead eof remain data index head (insertHead remain head data index eof).1
      (insertHead remain head data index eof).2 := by
  by_cases hdone : data.length = 0 ∨ remain = 0
  · rw [insertHead_done eof hdone]
    exact .done hdone
  cases head with
  | nil =>
    rw [insertHead, if_neg hdone]
    exact .first (by omega) rfl
  | cons h rest =>
    by_cases hbefore : index < h.blockstart
    · rw [insertHead_before eof hdone hbefore rfl]
      exact .before (by omega) (by omega) hbefore rfl (insertAfter_inserts eof hs (by omega))
    · rw [insertHead_after eof (Nat.not_lt.mp hbefore)]
      exact .after (by omega) (insertAfter_inserts eof hs hi)

/-- In particular on a tidy list. -/
theorem insertHead_spec (eof : Bool) (remain : ℕ) {head : List Node} (data : Bytes) {index : ℕ}
    (ht : Tidy head) (hi : 1 ≤ index) :
    InsertsAtHead eof remain data index head
      (StreamReassembler.insertHead remain head data index eof).1
      (StreamReassembler.insertHead remain head data index eof).2 :=
  insertHead_spec_of_spaced eof remain data ht.order hi

namespace InsertsAtHead

variable {eof : Bool} {remain remain' : ℕ} {l l' : List Node} {data : Bytes} {index : ℕ}

/-- Old nodes stay. -/
theorem sublist (h : InsertsAtHead eof remain data index l l' remain') : l.Sublist l' := by
  cases h with
  | done => exact List.Sublist.refl _
  | first => exact List.nil_sublist _
  | before _ _ _ _ hins => exact hins.sublist.cons _
  | after _ hins => exact hins.sublist

/-- A node of the new list is an old node or a piece of the data. -/
theorem mem (h : InsertsAtHead eof remain data index l l' remain') (hi : 1 ≤ index) {n : Node}
    (hn : n ∈ l') : n ∈ l ∨ IsPiece data index eof l n := by
  cases h with
  | done => exact Or.inl hn
  | first hpos hm =>
    rw [List.mem_singleton.mp hn]
    refine Or.inr (isPiece_pieceAt hi hpos (by omega) ?_ ?_)
    · simp only [Bool.and_eq_true, beq_iff_eq]
      exact fun ⟨h, he⟩ => ⟨he, by omega⟩
    · intro he hend
      left
      simp only [Bool.and_eq_true, beq_iff_eq]
      exact ⟨by omega, he⟩
  | @before m _ h rest _ hpos _ hlt hm hins =>
    rcases List.mem_cons.mp hn with rfl | hn
    · refine Or.inr (isPiece_pieceAt hi hpos (by omega) (by simp) fun _ hend => Or.inr ?_)
      exact ⟨h, by simp, by omega⟩
    · rcases hins.mem (by omega) hn with h | h
      · exact Or.inl h
      · exact Or.inr (h.of_drop fun _ hq => hq)
  | after _ hins => exact hins.mem hi hn

/-- The list stays tidy. -/
theorem tidy (h : InsertsAtHead eof remain data index l l' remain') (hi : 1 ≤ index) (ht : Tidy l) :
    Tidy l' := by
  cases h with
  | done => exact ht
  | first _ hm => exact tidy_cons.mpr ⟨pieceAt_ok hi (by omega), by simp, tidy_nil⟩
  | @before m _ h rest _ _ _ hlt hm hins =>
    have ht' := hins.tidy (by omega) ht
    obtain ⟨t, rfl⟩ := List.head?_eq_some_iff.mp hins.head
    refine tidy_cons.mpr ⟨pieceAt_ok hi (by omega), fun c hc => ?_, ht'⟩
    have := ht'.start_le hc
    simp only [Node.stop, pieceAt]
    omega
  | after _ hins => exact hins.tidy hi ht

/-- What the list gains in bytes the remaining capacity loses. -/
theorem total_add (h : InsertsAtHead eof remain data index l l' remain') :
    remain' + total l' = remain + total l := by
  cases h with
  | done => rfl
  | first =>
    simp only [total_cons, total_nil, pieceAt, List.length_take, List.length_drop]
    omega
  | before _ _ _ _ hins =>
    have := hins.total_add
    simp only [total_cons, pieceAt, List.length_take, List.length_drop] at this ⊢
    omega
  | after _ hins => exact hins.total_add

/-- What is held was held before or is in the data. -/
theorem holds (h : InsertsAtHead eof remain data index l l' remain') (hi : 1 ≤ index) {i : ℕ}
    (hh : Holds l' i) : Holds l i ∨ index ≤ i ∧ i < index + data.length := by
  obtain ⟨n, hn, h1, h2⟩ := hh
  rcases h.mem hi hn with h | ⟨k, m, _, _, _, hstart, hstop, -⟩
  · exact Or.inl ⟨n, h, h1, h2⟩
  · exact Or.inr ⟨by omega, by omega⟩

/-- **Completeness**: if there is room, every byte of the data is held afterwards. -/
theorem complete (h : InsertsAtHead eof remain data index l l' remain') (ht : Tidy l)
    (hroom : Room (Holds l) index data.length remain) :
    ∀ i, index ≤ i → i < index + data.length → Holds l' i := by
  intro i hi hlen
  cases h with
  | done hdone =>
    by_contra hnot
    have := hroom i i hi le_rfl hlen (fun j hj hji => absurd hj (by omega)) hnot
    omega
  | @first m hpos hm =>
    have := hroom.lt_of_gap le_rfl (b := i + 1) (fun j _ _ => not_held_nil j) hi (by omega) hlen
    rw [holds_cons]
    exact Or.inl (mem_pieceAt hi (by omega))
  | @before m _ h rest l' hpos hr hlt hm hins =>
    have hgap : ∀ j, index ≤ j → j < h.blockstart → ¬ Holds (h :: rest) j :=
      fun j _ hj => ht.inOrder.not_held_of_lt hj
    have hm' : min (min remain (index + data.length - index)) (h.blockstart - index) ≤ m := by omega
    rw [holds_cons]
    by_cases hih : i < h.blockstart
    · exact Or.inl (mem_pieceAt hi (hroom.lt_of_fill le_rfl hgap hm' hi hih hlen))
    -- the data reaches the old first node, so the space before it has been filled
    have hend : index + m = h.blockstart :=
      hroom.fill le_rfl hlt.le hgap hm' (by omega) (by omega)
    have hrest : Room (Holds (h :: rest)) h.blockstart (data.drop m).length (remain - m) := by
      refine hroom.rest le_rfl hend hgap ?_
      rw [List.length_drop]
      omega
    rw [hend] at hins
    refine Or.inr (hins.complete rfl ht (fun _ _ => Iff.rfl) (fun j hj hjh => absurd hj (by omega))
      hrest i (by omega) (by omega) ?_)
    rw [List.length_drop]
    omega
  | after hle hins =>
    exact hins.complete rfl ht (fun _ _ => Iff.rfl) (fun j hj hjh => absurd hj (by omega)) hroom i
      (by omega) hi hlen

end InsertsAtHead

end Sponge
