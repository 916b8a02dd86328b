import Mathlib.Data.List.Chain
import Sponge.Stream.Completeness

/-!
# The shape of the linked list

A block of the list should hold at least one byte, and as many as its two indices say, and it should end
before the next one starts; then there are never more nodes than bytes. All of this holds of every run
inside the window but for one thing: a push whose data starts exactly where a stored block starts, with a
gap before that block, is put into the gap. Nothing of it fits there, and what is put there is a node
without data. So pushing again what the list already holds makes the list grow (`empty_node`).

## What is proved

* `insertHead_nonempty` — insertion makes no empty node, unless the data starts at a block behind a gap
  (`Apart`).
* `insertHead_empty` — and then it does.
* `canonical_iff` — in which runs inside the window the list keeps its shape.
-/

namespace Sponge

open Intervals StreamReassembler

/-- The shape of the list: its blocks hold their bytes, and are in order. -/
structure Canonical (l : List Node) : Prop where
  /-- Every block holds a byte. -/
  nonempty : ∀ n ∈ l, n.data ≠ []
  /-- Every block holds as many bytes as its indices say. -/
  length : ∀ n ∈ l, n.blockstart ≤ n.blockend ∧ n.data.length = n.blockend - n.blockstart + 1
  /-- A block ends before the next one starts. -/
  order : l.IsChain fun a b => a.blockend < b.blockstart

/-- No block behind a gap starts at `index`. -/
def Apart (index : ℕ) (l : List Node) : Prop := l.IsChain fun a b => b.blockstart = index → a.stop = b.blockstart

instance (index : ℕ) (l : List Node) : Decidable (Apart index l) :=
  inferInstanceAs (Decidable (l.IsChain _))

section Shape

variable {l : List Node}

theorem Tidy.canonical (h : Tidy l) (hne : ∀ n ∈ l, n.data ≠ []) : Canonical l := by
  refine ⟨hne, fun n hn => ?_, ?_⟩
  · have hlen := (h.ok n hn).len
    have hpos := List.length_pos_of_ne_nil (hne n hn)
    unfold Node.stop at hlen
    omega
  · exact (h.order.imp fun hab => hab).isChain

/-- A list without empty nodes has at most as many nodes as bytes. -/
theorem length_le_total (hne : ∀ n ∈ l, n.data ≠ []) : l.length ≤ total l := by
  induction l with
  | nil => exact Nat.le_refl 0
  | cons n l ih =>
    have hpos := List.length_pos_of_ne_nil (hne n List.mem_cons_self)
    have htail := ih fun m hm => hne m (List.mem_cons_of_mem n hm)
    rw [List.length_cons, total_cons]
    omega

/-- Nodes that are added to a list add bytes. -/
theorem length_add_total_le {l' : List Node} (hsub : l.Sublist l') (hne : ∀ n ∈ l', n.data ≠ []) :
    l'.length + total l ≤ l.length + total l' := by
  induction hsub with
  | slnil => exact Nat.le_refl _
  | @cons l₁ l₂ n _ ih =>
    have hpos := List.length_pos_of_ne_nil (hne n List.mem_cons_self)
    have htail := ih fun m hm => hne m (List.mem_cons_of_mem n hm)
    rw [List.length_cons, total_cons]
    omega
  | @cons_cons l₁ l₂ n _ ih =>
    have htail := ih fun m hm => hne m (List.mem_cons_of_mem n hm)
    rw [List.length_cons, List.length_cons, total_cons, total_cons]
    omega

/-- At or before the first block there is no gap. -/
theorem Tidy.apart_of_le {p : Node} {rest : List Node} (h : Tidy (p :: rest)) {index : ℕ}
    (hle : index ≤ p.blockstart) : Apart index (p :: rest) := by
  have hpair : (p :: rest).Pairwise fun a b => b.blockstart = index → a.stop = b.blockstart := by
    refine h.order.imp_of_mem fun {a b} ha _ hab hb => ?_
    have hstart := h.start_le ha
    have hstop := (h.ok a ha).le
    omega
  exact hpair.isChain

end Shape

/-! ### Insertion -/

theorem pieceAt_ne_nil {data : Bytes} {index k m : ℕ} {e : Bool} (hm : 0 < m) (hkm : k + m ≤ data.length) :
    (pieceAt data index k m e).data ≠ [] := by
  rw [← List.length_pos_iff, length_pieceAt hkm]
  exact hm

/-- **Insertion makes no empty node**, from a node of the list on. -/
theorem insertAfter_nonempty (eof : Bool) {rest : List Node} : ∀ {remain : ℕ} {p : Node} {data : Bytes}
    {index : ℕ}, Tidy (p :: rest) → (∀ n ∈ p :: rest, n.data ≠ []) → 1 ≤ index → Apart index (p :: rest) →
      ∀ n ∈ (insertAfter remain (p :: rest) data index eof).1, n.data ≠ [] := by
  induction rest with
  | nil =>
    intro remain p data index ht hne hi hapart n hn
    by_cases hdone : data.length = 0 ∨ remain = 0
    · rw [insertAfter_done eof hdone] at hn
      exact hne n hn
    by_cases hstop : p.stop < index + min data.length remain
    · rw [insertAfter_last eof (by omega) (by omega) hstop hi rfl rfl] at hn
      rcases List.mem_cons.mp hn with rfl | hn
      · exact hne _ List.mem_cons_self
      · rw [List.mem_singleton.mp hn]
        exact pieceAt_ne_nil (by omega) (by omega)
    · rw [insertAfter_covered eof (Nat.not_lt.mp hstop)] at hn
      exact hne n hn
  | cons q rest ih =>
    intro remain p data index ht hne hi hapart n hn
    have hpq : p.stop ≤ q.blockstart := (tidy_cons.mp ht).2.1 q List.mem_cons_self
    have hne' : ∀ n ∈ q :: rest, n.data ≠ [] := fun m hm => hne m (List.mem_cons_of_mem p hm)
    by_cases hdone : data.length = 0 ∨ remain = 0
    · rw [insertAfter_done eof hdone] at hn
      exact hne n hn
    by_cases hstop : p.stop < index + min data.length remain
    · by_cases hwalk : q.blockstart = p.stop ∨ q.blockstart < index
      · rw [insertAfter_walk eof (by omega) (by omega) hstop hwalk] at hn
        rcases List.mem_cons.mp hn with rfl | hn
        · exact hne _ List.mem_cons_self
        · exact ih ht.tail hne' hi hapart.tail n hn
      · rw [not_or] at hwalk
        have hfirst : index = q.blockstart → p.stop = q.blockstart :=
          fun h => (List.isChain_cons_cons.mp hapart).1 h.symm
        have hgap : index + (p.stop - index) < q.blockstart := by omega
        rw [insertAfter_gap eof (by omega) (by omega) hstop hi (by omega) (by omega) rfl rfl] at hn
        rcases List.mem_cons.mp hn with rfl | hn
        · exact hne _ List.mem_cons_self
        rcases List.mem_cons.mp hn with rfl | hn
        · exact pieceAt_ne_nil (by omega) (by omega)
        · -- what is left of the data starts at or before the next node
          exact ih ht.tail hne' (by omega) (ht.tail.apart_of_le (by omega)) n hn
    · rw [insertAfter_covered eof (Nat.not_lt.mp hstop)] at hn
      exact hne n hn

theorem insertHead_nonempty (eof : Bool) (remain : ℕ) {head : List Node} (data : Bytes) {index : ℕ}
    (ht : Tidy head) (hne : ∀ n ∈ head, n.data ≠ []) (hi : 1 ≤ index) (hapart : Apart index head) :
    ∀ n ∈ (insertHead remain head data index eof).1, n.data ≠ [] := by
  intro n hn
  by_cases hdone : data.length = 0 ∨ remain = 0
  · rw [insertHead_done eof hdone] at hn
    exact hne n hn
  cases head with
  | nil =>
    rw [insertHead, if_neg hdone] at hn
    rw [List.mem_singleton.mp hn, ← List.length_pos_iff]
    simp only [List.length_take]
    omega
  | cons h rest =>
    by_cases hbefore : index < h.blockstart
    · rw [insertHead_before eof hdone hbefore rfl] at hn
      rcases List.mem_cons.mp hn with rfl | hn
      · exact pieceAt_ne_nil (by omega) (by omega)
      · exact insertAfter_nonempty eof ht hne (by omega) (ht.apart_of_le (by omega)) n hn
    · rw [insertHead_after eof (Nat.not_lt.mp hbefore)] at hn
      exact insertAfter_nonempty eof ht hne hi hapart n hn

/-- **Data that starts at a block behind a gap makes an empty node**, from a node of the list on. -/
theorem insertAfter_empty (eof : Bool) {remain : ℕ} {data : Bytes} {index : ℕ} (hdata : data ≠ [])
    (hremain : 0 < remain) {rest : List Node} : ∀ {p : Node}, Tidy (p :: rest) → ¬ Apart index (p :: rest) →
      ∃ n ∈ (insertAfter remain (p :: rest) data index eof).1, n.data = [] := by
  have hpos := List.length_pos_of_ne_nil hdata
  induction rest with
  | nil =>
    intro p ht hapart
    exact absurd (List.isChain_singleton p) hapart
  | cons q rest ih =>
    intro p ht hapart
    have hpq : p.stop ≤ q.blockstart := (tidy_cons.mp ht).2.1 q List.mem_cons_self
    by_cases htail : Apart index (q :: rest)
    · -- the gap is right here
      have hhere : ¬ (q.blockstart = index → p.stop = q.blockstart) :=
        fun h => hapart (List.isChain_cons_cons.mpr ⟨h, htail⟩)
      rw [Classical.not_imp] at hhere
      obtain ⟨hq, hne⟩ := hhere
      have hzero : q.blockstart - (index + (p.stop - index)) = 0 := by omega
      rw [insertAfter_gap eof hpos hremain (by omega) (by omega) (by omega) (by omega) rfl rfl]
      refine ⟨_, List.mem_cons_of_mem _ List.mem_cons_self, ?_⟩
      rw [hzero, Nat.min_zero, pieceAt, List.take_zero]
    · -- it comes later, and the walk reaches it
      have hlt : q.blockstart < index := Nat.not_le.mp fun hle => htail (ht.tail.apart_of_le hle)
      rw [insertAfter_walk eof hpos hremain (by omega) (Or.inr hlt)]
      obtain ⟨n, hn, hempty⟩ := ih ht.tail htail
      exact ⟨n, List.mem_cons_of_mem p hn, hempty⟩

theorem insertHead_empty (eof : Bool) {remain : ℕ} {head : List Node} {data : Bytes} {index : ℕ}
    (ht : Tidy head) (hdata : data ≠ []) (hremain : 0 < remain) (hapart : ¬ Apart index head) :
    ∃ n ∈ (insertHead remain head data index eof).1, n.data = [] := by
  cases head with
  | nil => exact absurd List.isChain_nil hapart
  | cons h rest =>
    have hlt : h.blockstart < index := Nat.not_le.mp fun hle => hapart (ht.apart_of_le hle)
    rw [insertHead_after eof (Nat.le_of_lt hlt)]
    exact insertAfter_empty eof hdata hremain ht hapart

/-- Data that the list holds already adds no node, if no empty one. -/
theorem InsertsAtHead.length_le {eof : Bool} {remain remain' : ℕ} {l l' : List Node} {data : Bytes} {index : ℕ}
    (h : InsertsAtHead eof remain data index l l' remain') (hi : 1 ≤ index) (ht : Tidy l)
    (hne : ∀ n ∈ l', n.data ≠ []) (hheld : ∀ i, index ≤ i → i < index + data.length → Holds l i) :
    l'.length ≤ l.length := by
  have hsub : heldIndices Node.blockstart Node.stop l' ⊆ heldIndices Node.blockstart Node.stop l := by
    intro i hmem
    rw [mem_heldIndices] at hmem ⊢
    rcases h.holds hi hmem with hold | ⟨h1, h2⟩
    · exact hold
    · exact hheld i h1 h2
  have hcard := Finset.card_le_card hsub
  rw [← ht.total_eq, ← (h.tidy hi ht).total_eq] at hcard
  have hlen := length_add_total_le h.sublist hne
  omega

/-! ### Runs inside the window -/

/-- A reassembler inside its window, with a list that has its shape. -/
structure InShape (r : StreamReassembler) : Prop where
  /-- The bookkeeping of the list. -/
  kept : Kept r
  /-- Every block holds a byte. -/
  nonempty : ∀ n ∈ r.head, n.data ≠ []
  /-- Every block lies in the window. -/
  window : ∀ n ∈ r.head, n.stop ≤ r.output.limit
  /-- All blocks have been written, or all of them lie behind a gap. -/
  settled : (∀ n ∈ r.head, n.stop ≤ r.output.bytesWritten) ∨ ∀ n ∈ r.head, r.output.bytesWritten < n.blockstart

theorem inShape_make (capacity : ℕ) : InShape (make capacity) :=
  ⟨kept_make capacity, by simp [make], by simp [make], by simp [make]⟩

theorem InShape.readOut {r : StreamReassembler} (h : InShape r) (len : ℕ) : InShape (r.readOut len) := by
  refine ⟨h.kept.readOut len, h.nonempty, fun n hn => (h.window n hn).trans ?_, h.settled⟩
  simp only [StreamReassembler.readOut, ByteStream.limit, ByteStream.read_snd,
    ByteStream.popOutput_bytesRead, ByteStream.popOutput_maximumcapacity]
  omega

/-- After draining, all blocks have been written, or all of them lie behind a gap. -/
theorem Fetches.settled {out out' : ByteStream} {remain remain' : ℕ} {l l' : List Node}
    (h : Fetches out remain l out' remain' l') (ht : Tidy l) (hwindow : ∀ n ∈ l, n.stop ≤ out.limit) :
    (∀ n ∈ l', n.stop ≤ out'.bytesWritten) ∨ ∀ n ∈ l', out'.bytesWritten < n.blockstart := by
  rcases h.stops with rfl | hfull | ⟨n, hn, hlt⟩
  · exact Or.inl (by simp)
  · -- a full output has been written up to the limit
    refine Or.inl fun n hn => ?_
    have hstop := hwindow n (h.suffix.subset hn)
    have hlim := out'.bytesWritten_add_remainingCapacity
    rw [← h.limit_eq] at hstop
    omega
  · obtain ⟨t, rfl⟩ := List.head?_eq_some_iff.mp hn
    exact Or.inr fun m hm => hlt.trans_le ((ht.sublist h.suffix.sublist).start_le hm)

/-- The push does not start at a block behind a gap, if it has to be kept. -/
def Push.Clear (r : StreamReassembler) (p : Push) : Prop :=
  p.data = [] ∨ p.index ≤ r.output.bytesWritten ∨ Apart p.index r.head

instance (r : StreamReassembler) (p : Push) : Decidable (p.Clear r) := inferInstanceAs (Decidable (_ ∨ _ ∨ _))

section Push

variable {r : StreamReassembler} {p : Push}

theorem InShape.wholeBlocks (h : InShape r) (hp : p.stop ≤ r.output.limit) : WholeBlocks r p.data p.index :=
  Or.inr (Or.inr ⟨fun n hn => Or.inl (h.window n hn), Or.inr (Or.inl hp)⟩)

/-- A push that has to be kept: the list it is inserted into, and how that is drained. -/
theorem InShape.gap (h : InShape r) (hp : p.stop ≤ r.output.limit) (hgap : r.output.bytesWritten < p.index) :
    InsertsAtHead p.eof r.remaincapacity p.data p.index r.head
        (insertHead r.remaincapacity r.head p.data p.index p.eof).1
        (insertHead r.remaincapacity r.head p.data p.index p.eof).2 ∧
      ∃ out remain l, Fetches r.output (insertHead r.remaincapacity r.head p.data p.index p.eof).2
          (insertHead r.remaincapacity r.head p.data p.index p.eof).1 out remain l ∧
        r.pushSubstring p.data p.index p.eof = { r with output := out, remaincapacity := remain, head := l } := by
  have hins := insertHead_spec p.eof r.remaincapacity p.data h.kept.tidy (by omega : 1 ≤ p.index)
  refine ⟨hins, _, _, _, fetchLoop_fetches (hins.tidy (by omega) h.kept.tidy).ok
    ((h.wholeBlocks hp).gap hgap hins), ?_⟩
  rw [pushSubstring_gap p.eof hgap]
  rfl

/-- The blocks of the list after insertion lie in the window. -/
theorem InShape.window_insert (h : InShape r) (hp : p.stop ≤ r.output.limit) (hi : 1 ≤ p.index) {l : List Node}
    {remain : ℕ} (hins : InsertsAtHead p.eof r.remaincapacity p.data p.index r.head l remain) :
    ∀ n ∈ l, n.stop ≤ r.output.limit := by
  have hstop : p.stop = p.index + p.data.length := rfl
  intro n hn
  rcases hins.mem hi hn with hn | ⟨k, m, _, hkm, _, _, hn, -⟩
  · exact h.window n hn
  · omega

theorem InShape.nonempty_insert (h : InShape r) (hgap : r.output.bytesWritten < p.index) (hclear : p.Clear r) :
    ∀ n ∈ (insertHead r.remaincapacity r.head p.data p.index p.eof).1, n.data ≠ [] := by
  rcases hclear with hnil | hle | hapart
  · rw [insertHead, if_pos (Or.inl (by rw [hnil]; rfl))]
    exact h.nonempty
  · omega
  · exact insertHead_nonempty p.eof _ _ h.kept.tidy h.nonempty (by omega) hapart

/-- **A push keeps the shape of the list**, if it does not start at a block behind a gap. -/
theorem InShape.push (h : InShape r) (hp : p.stop ≤ r.output.limit) (hclear : p.Clear r) :
    InShape (r.pushSubstring p.data p.index p.eof) := by
  have hstop : p.stop = p.index + p.data.length := rfl
  have hpush := push_spec h.kept p.eof (h.wholeBlocks hp)
  have hkept := hpush.kept h.kept
  by_cases hgap : r.output.bytesWritten < p.index
  · obtain ⟨hins, out, remain, l, hf, heq⟩ := h.gap hp hgap
    have ht := hins.tidy (by omega) h.kept.tidy
    have hwindow := h.window_insert hp (by omega) hins
    rw [heq] at hkept ⊢
    refine ⟨hkept, fun n hn => h.nonempty_insert hgap hclear n (hf.suffix.subset hn), fun n hn => ?_,
      hf.settled ht hwindow⟩
    rw [hf.limit_eq]
    exact hwindow n (hf.suffix.subset hn)
  · generalize r.pushSubstring p.data p.index p.eof = r' at hpush hkept ⊢
    cases hpush with
    | old => exact h
    | direct _ _ _ hf =>
      have hlim : ∀ n ∈ r.head, n.stop ≤
          (r.output.put (p.data.drop (r.output.bytesWritten - p.index)) p.eof).limit := by
        simpa using h.window
      refine ⟨hkept, fun n hn => h.nonempty n (hf.suffix.subset hn), fun n hn => ?_,
        hf.settled h.kept.tidy hlim⟩
      rw [hf.limit_eq]
      exact hlim n (hf.suffix.subset hn)
    | past _ _ h2 => omega
    | without h0 => omega
    | gap hgap' => exact absurd hgap' hgap

/-- What is held already makes no new node. -/
theorem InShape.length_push (h : InShape r) (hp : p.stop ≤ r.output.limit) (hclear : p.Clear r)
    (hheld : ∀ i, p.index ≤ i → i < p.stop → Holds r.head i) :
    (r.pushSubstring p.data p.index p.eof).head.length ≤ r.head.length := by
  have hstop : p.stop = p.index + p.data.length := rfl
  by_cases hgap : r.output.bytesWritten < p.index
  · obtain ⟨hins, out, remain, l, hf, heq⟩ := h.gap hp hgap
    rw [heq]
    exact hf.suffix.length_le.trans (hins.length_le (by omega) h.kept.tidy (h.nonempty_insert hgap hclear) hheld)
  · have hpush := push_spec h.kept p.eof (h.wholeBlocks hp)
    generalize r.pushSubstring p.data p.index p.eof = r' at hpush ⊢
    cases hpush with
    | old => exact Nat.le_refl _
    | direct _ _ _ hf => exact hf.suffix.length_le
    | past _ _ h2 => omega
    | without h0 => omega
    | gap hgap' => exact absurd hgap' hgap

/-- Inside the window the list has room for a byte behind a gap. -/
theorem InShape.remain_pos (h : InShape r) (hlt : r.output.bytesWritten + 1 < r.output.limit)
    (hbehind : ∀ n ∈ r.head, r.output.bytesWritten < n.blockstart) : 0 < r.remaincapacity := by
  have hsub : heldIndices Node.blockstart Node.stop r.head ⊆ Finset.Ioo r.output.bytesWritten r.output.limit := by
    intro i hmem
    obtain ⟨n, hn, h1, h2⟩ := mem_heldIndices.mp hmem
    have hstart := hbehind n hn
    have hstop := h.window n hn
    rw [Finset.mem_Ioo]
    omega
  have hcard := Finset.card_le_card hsub
  rw [← h.kept.tidy.total_eq, Nat.card_Ioo] at hcard
  have hlim := r.output.bytesWritten_add_remainingCapacity
  have hroom := r.output.bufferSize_add_remainingCapacity
  have hcap := h.kept.cap
  have haccount := h.kept.account
  omega

/-- Nothing is drained when all blocks lie behind a gap. -/
theorem fetchLoop_of_behind {out : ByteStream} {l : List Node} (h : ∀ n ∈ l, out.bytesWritten < n.blockstart)
    (remain : ℕ) : fetchLoop out remain l = (out, remain, l) := by
  cases l with
  | nil => rfl
  | cons n l =>
    rw [fetchLoop, if_pos (h n List.mem_cons_self), ite_self]

/-- **A push that starts at a block behind a gap leaves an empty node.** -/
theorem InShape.empty_push (h : InShape r) (hp : p.stop ≤ r.output.limit) (hclear : ¬ p.Clear r) :
    ∃ n ∈ (r.pushSubstring p.data p.index p.eof).head, n.data = [] := by
  have hstop : p.stop = p.index + p.data.length := rfl
  rw [Push.Clear, not_or, not_or, Nat.not_le] at hclear
  obtain ⟨hdata, hgap, hapart⟩ := hclear
  have hpos := List.length_pos_of_ne_nil hdata
  have hbehind : ∀ n ∈ r.head, r.output.bytesWritten < n.blockstart := by
    refine h.settled.resolve_left fun hwritten => hapart ?_
    -- no block that has been written starts at the index of the push
    have hpair : r.head.Pairwise fun a b => b.blockstart = p.index → a.stop = b.blockstart := by
      refine h.kept.tidy.order.imp_of_mem fun {a b} _ hb _ heq => ?_
      have hle := (h.kept.tidy.ok b hb).le
      have hb' := hwritten b hb
      omega
    exact hpair.isChain
  have hremain := h.remain_pos (by omega) hbehind
  obtain ⟨n, hn, hempty⟩ := insertHead_empty p.eof h.kept.tidy hdata hremain hapart
  have hins := (h.gap hp hgap).1
  have hbehind' : ∀ n ∈ (insertHead r.remaincapacity r.head p.data p.index p.eof).1,
      r.output.bytesWritten < n.blockstart := by
    intro m hm
    rcases hins.mem (by omega) hm with hm | ⟨k, _, _, _, _, hstart, -⟩
    · exact hbehind m hm
    · omega
  rw [pushSubstring_gap p.eof hgap, fetchValidData]
  exact ⟨n, by rw [insertToLinklist, fetchLoop_of_behind hbehind']; exact hn, hempty⟩

end Push

/-! ### Runs -/

/-- A call that does not push at a block behind a gap. -/
def Call.Clear (t : Session) : Call → Prop
  | .push p => p.Clear t.reassembler
  | .read _ => True

instance (t : Session) : ∀ c : Call, Decidable (c.Clear t)
  | .push p => inferInstanceAs (Decidable (p.Clear t.reassembler))
  | .read _ => .isTrue trivial

/-- What the list should be like after a call. -/
structure Neat (t : Session) (c : Call) : Prop where
  /-- The list has its shape. -/
  canonical : Canonical (t.step c).reassembler.head
  /-- It has at most as many nodes as bytes. -/
  count : (t.step c).reassembler.head.length ≤ total (t.step c).reassembler.head
  /-- Pushing what it holds already does not make it grow. -/
  again : ∀ p, c = .push p → (∀ i, p.index ≤ i → i < p.stop → Holds t.reassembler.head i) →
    (t.step c).reassembler.head.length ≤ t.reassembler.head.length

theorem InShape.step {t : Session} (h : InShape t.reassembler) {c : Call} (hw : c.InWindow t) (hc : c.Clear t) :
    InShape (t.step c).reassembler := by
  cases c with
  | push p => exact h.push hw hc
  | read len => exact h.readOut len

theorem InShape.neat_iff {t : Session} (h : InShape t.reassembler) {c : Call} (hw : c.InWindow t) :
    Neat t c ↔ c.Clear t := by
  constructor
  · intro hneat
    cases c with
    | push p =>
      by_contra hclear
      obtain ⟨n, hn, hempty⟩ := h.empty_push hw hclear
      exact hneat.canonical.nonempty n hn hempty
    | read len => trivial
  · intro hc
    have hshape := h.step hw hc
    refine ⟨hshape.kept.tidy.canonical hshape.nonempty, length_le_total hshape.nonempty, ?_⟩
    rintro p rfl hheld
    exact h.length_push hw hc hheld

/-- **The shape of the list.** In every run of pushes inside the window and reads, whatever is pushed, every
state on the way has a list of non-empty blocks in order, with at most as many nodes as bytes, that does
not grow when something is pushed that it holds already, if and only if no push that has to be kept starts
exactly at a block behind a gap. -/
theorem canonical_iff (capacity : ℕ) (calls : List Call)
    (h : Along Session.step (fun t c => c.InWindow t) (Session.start capacity) calls) :
    Along Session.step Neat (Session.start capacity) calls ↔
      Along Session.step (fun t c => c.Clear t) (Session.start capacity) calls :=
  along_iff (I := fun t => InShape t.reassembler) (fun _ _ hi hw hc => hi.step hw hc)
    (fun _ _ hi hw => hi.neat_iff hw) h (inShape_make capacity)

/-- `bc` arrives before `a`, and then once more: the list does not grow. -/
theorem canonical_iff_again :
    Along Session.step Neat (Session.start 4) [.push ⟨[98, 99], 1, false⟩, .push ⟨[98, 99], 1, false⟩] :=
  (canonical_iff 4 [.push ⟨[98, 99], 1, false⟩, .push ⟨[98, 99], 1, false⟩] (by decide)).mpr (by decide)

/-- An empty node: `b` and `d` of `abcd` are held, with a gap between them, when `d` is pushed again. -/
theorem empty_node :
    let calls : List Call := [.push ⟨[98], 1, false⟩, .push ⟨[100], 3, true⟩, .push ⟨[100], 3, true⟩]
    Along Session.step (fun t c => c.Of [97, 98, 99, 100] ∧ c.InWindow t) (Session.start 4) calls ∧
      (runs Session.step (Session.start 4) calls).reassembler.head =
        [⟨[98], 1, 1, false⟩, ⟨[], 3, 2, false⟩, ⟨[100], 3, 3, true⟩] ∧
      ¬ Along Session.step Neat (Session.start 4) calls := by
  refine ⟨by decide, by decide, fun h => ?_⟩
  exact h.2.2.1.canonical.nonempty ⟨[], 3, 2, false⟩ (by decide) rfl

end Sponge
