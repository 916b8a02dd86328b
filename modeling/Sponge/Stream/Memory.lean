import Sponge.Stream.Accounting

/-!
# The memory limit

The header says that the capacity limits the bytes that have been reassembled and those
that have not, together. The code limits them separately, each by the whole capacity:
`bufferSize_add_unassembledBytes_gt` is a run in which both are full. The joint limit
holds in every run in which what a push adds fits into what is free of the capacity
(`Call.HasSpace`). Nothing is assumed about the data, which need not agree with each
other. The indices of a push have to fit into 64 bits: the code adds them up, and a sum
that wraps around can make it store more than that.

## What is proved

* `Pushes.from_held_or_data` — what a push writes or holds was held before or belongs
  to its data.
* `Bounded.push` — the joint limit is kept by a push that has space.
* `bufferSize_add_unassembledBytes_le` — so it holds in a run.
-/

namespace Sponge

open Intervals StreamReassembler

/-- A reassembler within its limit. -/
structure Bounded (r : StreamReassembler) : Prop where
  /-- The bookkeeping of the list. -/
  kept : Kept r
  /-- What is held lies beyond the next index. -/
  beyond : ∀ i, Holds r.head i → r.output.bytesWritten < i
  /-- The joint limit. -/
  le : r.output.bufferSize + total r.head ≤ r.capacity

theorem bounded_make (capacity : ℕ) : Bounded (make capacity) :=
  ⟨kept_make capacity, fun i hi => absurd hi (not_held_nil i), Nat.zero_le _⟩

theorem Bounded.readOut {r : StreamReassembler} (h : Bounded r) (len : ℕ) : Bounded (r.readOut len) := by
  refine ⟨h.kept.readOut len, h.beyond, le_trans ?_ h.le⟩
  simp only [StreamReassembler.readOut, ByteStream.read_snd, ByteStream.bufferSize,
    ByteStream.popOutput_que, List.length_drop]
  omega

theorem Bounded.fresh {r : StreamReassembler} (h : Bounded r) : Fresh r :=
  ⟨h.kept, fun i hi => (h.beyond i hi).le⟩

/-- The indices of the push that are neither written nor held. -/
def Push.added (r : StreamReassembler) (p : Push) : ℕ :=
  missing (Holds r.head) (max p.index r.output.bytesWritten) p.stop

/-- There is space for the push: its indices fit into 64 bits; and nothing of it is new, or it lies
behind a gap while nothing waits to be read, or what it adds fits into what is free, and it does not
fill the output over blocks that are held. Without capacity nothing is kept. -/
def Push.HasSpace (r : StreamReassembler) (p : Push) : Prop :=
  p.stop < 2 ^ 64 ∧
    (r.capacity = 0 ∨ p.stop ≤ r.output.bytesWritten ∨
      (r.output.bytesWritten < p.index ∧ r.output.bufferSize = 0) ∨
      (r.output.bufferSize + r.unassembledBytes + p.added r ≤ r.capacity ∧
        (r.output.bytesWritten < p.index ∨ p.stop < r.output.limit ∨ r.unassembledBytes = 0)))

instance (r : StreamReassembler) (p : Push) : Decidable (p.HasSpace r) :=
  inferInstanceAs (Decidable (_ ∧ (_ ∨ _ ∨ _ ∨ _)))

/-- What a push writes or holds was held before or belongs to the new part of its data. -/
theorem Pushes.from_held_or_data {r r' : StreamReassembler} {p : Push}
    (h : Pushes r p.data p.index p.eof r') (ht : Tidy r.head) {i : ℕ}
    (hi : (r.output.bytesWritten ≤ i ∧ i < r'.output.bytesWritten) ∨
      (Holds r'.head i ∧ r.output.bytesWritten ≤ i)) :
    Holds r.head i ∨ (max p.index r.output.bytesWritten ≤ i ∧ i < p.stop) := by
  have hlim := r.output.bytesWritten_add_remainingCapacity
  have hstop : p.stop = p.index + p.data.length := rfl
  cases h with
  | old => exact Or.inl (hi.elim (fun hi => absurd hi (by omega)) And.left)
  | direct h1 h2 h3 hf =>
    have hput := ByteStream.put_drop_bytesWritten p.eof h1 h2 h3
    rcases hi with ⟨hwi, hi⟩ | ⟨hi, -⟩
    · by_cases hp : i < p.stop
      · exact Or.inr ⟨by omega, hp⟩
      · exact Or.inl (hf.held_of_written ht.ok (by omega) hi)
    · exact Or.inl (hi.mono fun n hn => hf.suffix.subset hn)
  | past hpos h1 h2 hins =>
    have hput := ByteStream.put_slice_bytesWritten h1 h2
    rcases hi with ⟨hwi, hi⟩ | ⟨hi, hwi⟩
    · simp only at hi
      exact Or.inr ⟨by omega, by omega⟩
    · refine (hins.holds hpos hi).imp_right fun hi => ?_
      rw [List.length_drop] at hi
      omega
  | without => exact Or.inl (hi.elim (fun hi => absurd hi (by omega)) And.left)
  | gap hgap hins hf =>
    have ht' := hins.tidy (by omega) ht
    refine (hins.holds (by omega) ?_).imp_right fun hi => ⟨by omega, by omega⟩
    rcases hi with ⟨hwi, hi⟩ | ⟨hi, -⟩
    · exact hf.held_of_written ht'.ok hwi hi
    · exact hi.mono fun n hn => hf.suffix.subset hn

/-- What is held and what a push adds, as one set of indices. -/
theorem card_held_union_added {r : StreamReassembler} (ht : Tidy r.head) (p : Push) :
    (heldIndices Node.blockstart Node.stop r.head ∪
      (Finset.Ico (max p.index r.output.bytesWritten) p.stop).filter fun j => ¬ Holds r.head j).card ≤
        total r.head + p.added r := by
  rw [ht.total_eq]
  exact Finset.card_union_le _ _

theorem mem_held_union_added {r : StreamReassembler} {p : Push} {i : ℕ}
    (h : Holds r.head i ∨ (max p.index r.output.bytesWritten ≤ i ∧ i < p.stop)) :
    i ∈ heldIndices Node.blockstart Node.stop r.head ∪
      (Finset.Ico (max p.index r.output.bytesWritten) p.stop).filter fun j => ¬ Holds r.head j := by
  rw [Finset.mem_union, mem_heldIndices, Finset.mem_filter, Finset.mem_Ico]
  by_cases hi : Holds r.head i
  · exact Or.inl hi
  · exact Or.inr ⟨h.resolve_left hi, hi⟩

/-- The bytes in memory grow by at most what the push adds. -/
theorem Pushes.memory_le {r r' : StreamReassembler} {p : Push} (h : Pushes r p.data p.index p.eof r')
    (ht : Tidy r.head) (hw : r.output.bytesWritten ≤ r'.output.bytesWritten) (hr' : Fresh r') :
    r'.output.bufferSize + total r'.head ≤ r.output.bufferSize + total r.head + p.added r := by
  -- the indices written by the push and those held after it are distinct
  have hsub : Finset.Ico r.output.bytesWritten r'.output.bytesWritten ∪
      heldIndices Node.blockstart Node.stop r'.head ⊆
        heldIndices Node.blockstart Node.stop r.head ∪
          (Finset.Ico (max p.index r.output.bytesWritten) p.stop).filter fun j => ¬ Holds r.head j := by
    intro i hi
    refine mem_held_union_added (h.from_held_or_data ht ?_)
    rcases Finset.mem_union.mp hi with hi | hi
    · exact Or.inl (Finset.mem_Ico.mp hi)
    · have hi := mem_heldIndices.mp hi
      exact Or.inr ⟨hi, hw.trans (hr'.fresh i hi)⟩
  have hdisj : Disjoint (Finset.Ico r.output.bytesWritten r'.output.bytesWritten)
      (heldIndices Node.blockstart Node.stop r'.head) := by
    refine Finset.disjoint_left.mpr fun i hi hi' => ?_
    have h1 := hr'.fresh i (mem_heldIndices.mp hi')
    have h2 := (Finset.mem_Ico.mp hi).2
    omega
  have hcard := (Finset.card_le_card hsub).trans (card_held_union_added ht p)
  rw [Finset.card_union_of_disjoint hdisj, Nat.card_Ico, ← hr'.kept.tidy.total_eq] at hcard
  have h1 := r.output.bytesRead_add_bufferSize
  have h2 := r'.output.bytesRead_add_bufferSize
  have h3 := h.frame.1
  omega

/-- After a push the output is full, or the next index is not held. -/
theorem Pushes.full_or_next {r r' : StreamReassembler} {p : Push} (h : Pushes r p.data p.index p.eof r')
    (ht : Tidy r.head) (hn : ¬ Holds r.head r.output.bytesWritten) :
    r'.output.remainingCapacity = 0 ∨ ¬ Holds r'.head r'.output.bytesWritten := by
  have hstops : ∀ {out out' : ByteStream} {remain remain' : ℕ} {l l' : List Node},
      Fetches out remain l out' remain' l' → Tidy l →
        out'.remainingCapacity = 0 ∨ ¬ Holds l' out'.bytesWritten := by
    intro out out' remain remain' l l' hf ht
    rcases hf.stops with rfl | hfull | ⟨n, hn, hlt⟩
    · exact Or.inr (not_held_nil _)
    · exact Or.inl hfull
    · obtain ⟨t, rfl⟩ := List.head?_eq_some_iff.mp hn
      exact Or.inr ((ht.sublist hf.suffix.sublist).inOrder.not_held_of_lt hlt)
  cases h with
  | old => exact Or.inr hn
  | direct h1 h2 h3 hf => exact hstops hf ht
  | past _ h1 h2 =>
    have hput := ByteStream.put_slice_bytesWritten h1 h2
    have hlim := ByteStream.bytesWritten_add_remainingCapacity
      (r.output.put (slice p.data (r.output.bytesWritten - p.index) r.output.remainingCapacity) false)
    rw [ByteStream.put_limit] at hlim
    exact Or.inl (by simp only; omega)
  | without => exact Or.inr hn
  | gap hgap hins hf => exact hstops hf (hins.tidy (by omega) ht)

section Bounded

variable {r : StreamReassembler} {p : Push}

/-- An empty list holds nothing. -/
theorem Kept.not_holds (h : Kept r) (h0 : total r.head = 0) (i : ℕ) : ¬ Holds r.head i := by
  rw [h.tidy.total_eq, Finset.card_eq_zero] at h0
  intro hi
  have hmem := mem_heldIndices.mpr hi
  rw [h0] at hmem
  exact Finset.notMem_empty i hmem

theorem Bounded.next (h : Bounded r) : ¬ Holds r.head r.output.bytesWritten := fun hi =>
  lt_irrefl _ (h.beyond _ hi)

/-- The next index stays missing, so no block is cut in two. -/
theorem Bounded.wholeBlocks_of_gap (h : Bounded r)
    (hp : r.output.bytesWritten < p.index ∨ p.stop ≤ r.output.bytesWritten) :
    WholeBlocks r p.data p.index := by
  have hlim := r.output.bytesWritten_add_remainingCapacity
  have hstop : p.stop = p.index + p.data.length := rfl
  by_cases hfull : r.output.bytesWritten = r.output.limit
  · exact Or.inl hfull
  · exact Or.inr (Or.inl ⟨r.output.bytesWritten, by omega, le_rfl, h.next, by omega⟩)

/-- If what is added fits into what is free, no block is cut in two: a block that straddles the
limit, with everything before it, would be too much. -/
theorem Bounded.wholeBlocks_of_le (h : Bounded r) (hi : p.index ≤ r.output.bytesWritten)
    (hp : r.output.bufferSize + total r.head + p.added r ≤ r.capacity) :
    WholeBlocks r p.data p.index := by
  have hstop : p.stop = p.index + p.data.length := rfl
  by_cases hgap : ∃ i < r.output.limit, r.output.bytesWritten ≤ i ∧ ¬ Holds r.head i ∧
      ¬ (p.index ≤ i ∧ i < p.index + p.data.length)
  · exact Or.inr (Or.inl hgap)
  refine Or.inr (Or.inr ⟨fun n hn => ?_, Or.inl hi⟩)
  by_contra hnot
  have hsub : Finset.Ico r.output.bytesWritten (r.output.limit + 1) ⊆
      heldIndices Node.blockstart Node.stop r.head ∪
        (Finset.Ico (max p.index r.output.bytesWritten) p.stop).filter fun j => ¬ Holds r.head j := by
    intro i hi'
    rw [Finset.mem_Ico] at hi'
    refine mem_held_union_added ?_
    by_cases hlt : i < r.output.limit
    · by_contra hc
      rw [not_or] at hc
      exact hgap ⟨i, hlt, hi'.1, hc.1, by omega⟩
    · exact Or.inl ⟨n, hn, by omega, by omega⟩
  have hcard := (Finset.card_le_card hsub).trans (card_held_union_added h.kept.tidy p)
  rw [Nat.card_Ico] at hcard
  have h1 := r.output.bytesRead_add_bufferSize
  have h2 := h.kept.cap
  unfold ByteStream.limit at hcard
  omega

theorem Bounded.wholeBlocks (h : Bounded r) (hp : p.HasSpace r) : WholeBlocks r p.data p.index := by
  have hb := r.output.bytesRead_add_bufferSize
  have hcap := h.kept.cap
  have hle := h.le
  obtain ⟨-, hp | hp | hp | ⟨hp, -⟩⟩ := hp
  · refine Or.inl ?_
    unfold ByteStream.limit
    omega
  · exact h.wholeBlocks_of_gap (Or.inr hp)
  · exact h.wholeBlocks_of_gap (Or.inl hp.1)
  · rw [h.kept.unassembledBytes_eq] at hp
    by_cases hi : p.index ≤ r.output.bytesWritten
    · exact h.wholeBlocks_of_le hi hp
    · exact h.wholeBlocks_of_gap (Or.inl (not_le.mp hi))

/-- A push that has space does not fill the output over blocks that are held. -/
theorem Bounded.fresh_of_hasSpace (h : Bounded r) (hp : p.HasSpace r) : p.Fresh r := by
  intro hi hlt hle i _
  have hb := r.output.bytesRead_add_bufferSize
  have hcap := h.kept.cap
  have hlim : r.output.limit = r.output.bytesRead + r.output.maximumcapacity := rfl
  obtain ⟨-, hp | hp | hp | ⟨-, hp | hp | hp⟩⟩ := hp
  iterate 5 omega
  rw [h.kept.unassembledBytes_eq] at hp
  exact h.kept.not_holds hp i

/-- The joint limit is kept. -/
theorem Bounded.le_push (h : Bounded r) (hp : p.HasSpace r) {r' : StreamReassembler}
    (hpush : Pushes r p.data p.index p.eof r') (hfresh : Fresh r') :
    r'.output.bufferSize + total r'.head ≤ r'.capacity := by
  have hmem := hpush.memory_le h.kept.tidy hpush.bytesWritten_le hfresh
  have hle := h.le
  have hacc := hfresh.kept.account
  have hcap' := hpush.frame.2.2.2
  obtain ⟨-, hp | hp | ⟨hgap, hempty⟩ | ⟨hp, -⟩⟩ := hp
  · have h1 := r'.output.bufferSize_add_remainingCapacity
    have h2 := hfresh.kept.cap
    omega
  · have hadd : p.added r = 0 := missing_eq_zero fun j hj hj' => absurd hj (by omega)
    omega
  · -- nothing is written, and the list alone is within the capacity
    have hw : r'.output.bytesWritten = r.output.bytesWritten := by
      refine le_antisymm (not_lt.mp fun hlt => ?_) hpush.bytesWritten_le
      rcases hpush.from_held_or_data h.kept.tidy (Or.inl ⟨le_rfl, hlt⟩) with hheld | hdata
      · exact h.next hheld
      · omega
    have h1 := r.output.bytesRead_add_bufferSize
    have h2 := r'.output.bytesRead_add_bufferSize
    have h3 := hpush.frame.1
    omega
  · rw [h.kept.unassembledBytes_eq] at hp
    omega

/-- **A push that has space keeps the limit.** -/
theorem Bounded.push (h : Bounded r) (hp : p.HasSpace r) :
    Bounded (r.pushSubstring p.data p.index p.eof) := by
  have hpush := push_spec h.kept p.eof (h.wholeBlocks hp)
  have hfresh := hpush.fresh h.fresh (h.fresh_of_hasSpace hp)
  have hle := h.le_push hp hpush hfresh
  refine ⟨hfresh.kept, fun i hi => lt_of_le_of_ne (hfresh.fresh i hi) fun heq => ?_, hle⟩
  rcases hpush.full_or_next h.kept.tidy h.next with hfull | hnext
  · -- a full output leaves no room for a byte in the list
    have h1 := (r.pushSubstring p.data p.index p.eof).output.bufferSize_add_remainingCapacity
    have h2 := hfresh.kept.cap
    exact hfresh.kept.not_holds (by omega) i hi
  · exact hnext (heq ▸ hi)

end Bounded

/-! ### Runs -/

/-- A call for which there is space. -/
def Call.HasSpace (t : Session) : Call → Prop
  | .push p => p.HasSpace t.reassembler
  | .read _ => True

instance (t : Session) : ∀ c : Call, Decidable (c.HasSpace t)
  | .push p => inferInstanceAs (Decidable (p.HasSpace t.reassembler))
  | .read _ => .isTrue trivial

theorem Bounded.step {t : Session} (h : Bounded t.reassembler) {c : Call} (hc : c.HasSpace t) :
    Bounded (t.step c).reassembler ∧ (t.step c).reassembler.capacity = t.reassembler.capacity := by
  cases c with
  | push p => exact ⟨h.push hc, (push_spec h.kept p.eof (h.wholeBlocks hc)).frame.2.2.2⟩
  | read len => exact ⟨h.readOut len, rfl⟩

/-- **The memory limit.** In every run in which there is space for each push, its indices being of 64
bits, the bytes that wait to be read and those that wait to be assembled are together at most the
capacity. -/
theorem bufferSize_add_unassembledBytes_le (capacity : ℕ) (calls : List Call)
    (h : Along Session.step (fun t c => c.HasSpace t) (Session.start capacity) calls) :
    (runs Session.step (Session.start capacity) calls).output.bufferSize +
      (runs Session.step (Session.start capacity) calls).reassembler.unassembledBytes ≤ capacity := by
  obtain ⟨hb, hcap⟩ := h.invariant
    (I := fun t => Bounded t.reassembler ∧ t.reassembler.capacity = capacity)
    (fun _ _ hi hc => ⟨(hi.1.step hc).1, (hi.1.step hc).2.trans hi.2⟩) ⟨bounded_make capacity, rfl⟩
  rw [hb.kept.unassembledBytes_eq]
  exact hb.le.trans_eq hcap

/-- A byte is written, one behind a gap is kept, and the gap is filled after a read. -/
theorem bufferSize_add_unassembledBytes_le_two :
    Along Session.step (fun t c => c.HasSpace t) (Session.start 2)
        [.push ⟨[97], 0, false⟩, .push ⟨[99], 2, false⟩, .read 1, .push ⟨[98], 1, false⟩] ∧
      (runs Session.step (Session.start 2) [.push ⟨[97], 0, false⟩, .push ⟨[99], 2, false⟩, .read 1,
          .push ⟨[98], 1, false⟩]).output.bufferSize +
        (runs Session.step (Session.start 2) [.push ⟨[97], 0, false⟩, .push ⟨[99], 2, false⟩, .read 1,
          .push ⟨[98], 1, false⟩]).reassembler.unassembledBytes ≤ 2 :=
  ⟨by decide, bufferSize_add_unassembledBytes_le 2 _ (by decide)⟩

/-- The limit exceeded: with capacity `2`, `ab` fills the output, and `cd` behind it the list. -/
theorem bufferSize_add_unassembledBytes_gt :
    ¬ (runs Session.step (Session.start 2)
          [.push ⟨[97, 98], 0, false⟩, .push ⟨[99, 100], 2, false⟩]).output.bufferSize +
        (runs Session.step (Session.start 2)
          [.push ⟨[97, 98], 0, false⟩, .push ⟨[99, 100], 2, false⟩]).reassembler.unassembledBytes ≤ 2 := by
  decide

end Sponge
