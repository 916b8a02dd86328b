import Sponge.Stream.Soundness

/-!
# Accounting

`unassembled_bytes()` should be the number of indices that the list holds and that have
not been written yet, each counted once. The list is drained only while the output has
room, so a push that fills the output may leave blocks behind whose bytes have just been
written. `unassembledBytes_counts_written` is such a run. In every run without
such a push (`Call.Fresh`) the count is right.

## What is proved

* `Fresh.push` — a push leaves no written byte in the list.
* `unassembledBytes_eq_card` — so in a run `unassembled_bytes()` is the number of
  unwritten indices held.
-/

namespace Sponge

open Intervals StreamReassembler

/-- The indices at or after `bytes_written()` whose byte is held in the list. -/
def StreamReassembler.unwritten (r : StreamReassembler) : Finset ℕ :=
  (heldIndices Node.blockstart Node.stop r.head).filter (r.output.bytesWritten ≤ ·)

/-- The bookkeeping is right, and no written byte is in the list. -/
structure Fresh (r : StreamReassembler) : Prop where
  /-- The bookkeeping of the list. -/
  kept : Kept r
  /-- What is held has not been written. -/
  fresh : ∀ i, Holds r.head i → r.output.bytesWritten ≤ i

theorem fresh_make (capacity : ℕ) : Fresh (make capacity) :=
  ⟨kept_make capacity, fun i hi => absurd hi (not_held_nil i)⟩

theorem Fresh.readOut {r : StreamReassembler} (h : Fresh r) (len : ℕ) : Fresh (r.readOut len) :=
  ⟨h.kept.readOut len, h.fresh⟩

/-- All that the list holds is unwritten. -/
theorem Fresh.unwritten_eq {r : StreamReassembler} (h : Fresh r) :
    r.unwritten = heldIndices Node.blockstart Node.stop r.head :=
  Finset.filter_true_of_mem fun i hi => h.fresh i (mem_heldIndices.mp hi)

theorem Fresh.unassembledBytes_eq {r : StreamReassembler} (h : Fresh r) :
    r.unassembledBytes = r.unwritten.card := by
  rw [h.unwritten_eq, h.kept.unassembledBytes_eq, h.kept.tidy.total_eq]

theorem Kept.unassembledBytes_le {r : StreamReassembler} (h : Kept r) :
    r.unassembledBytes ≤ r.capacity := by
  have := h.account
  rw [h.unassembledBytes_eq]
  omega

theorem Kept.empty_iff {r : StreamReassembler} (h : Kept r) :
    r.empty = true ↔ r.unassembledBytes = 0 := by
  have := h.account
  rw [h.unassembledBytes_eq, StreamReassembler.empty, beq_iff_eq]
  omega

/-- A push that fills the output finds nothing in the list that it has just written. -/
def Push.Fresh (r : StreamReassembler) (p : Push) : Prop :=
  p.index ≤ r.output.bytesWritten → r.output.bytesWritten < r.output.limit → r.output.limit ≤ p.stop →
    ∀ i < r.output.limit, ¬ Holds r.head i

instance (r : StreamReassembler) (p : Push) : Decidable (p.Fresh r) :=
  inferInstanceAs (Decidable (_ → _))

/-- If the data reaches the limit of the output, nothing is held before it. -/
theorem Fresh.limit_le {r : StreamReassembler} (h : Fresh r) {p : Push} (hp : p.Fresh r)
    (h1 : p.index ≤ r.output.bytesWritten) (h2 : r.output.limit ≤ p.stop) {i : ℕ}
    (hi : Holds r.head i) : r.output.limit ≤ i := by
  have hlim := r.output.bytesWritten_add_remainingCapacity
  have hle := h.fresh i hi
  by_contra hlt
  exact hp h1 (by omega) h2 i (by omega) hi

/-- **A push leaves no written byte in the list.** -/
theorem Pushes.fresh {r r' : StreamReassembler} {p : Push} (h : Pushes r p.data p.index p.eof r')
    (hr : Fresh r) (hp : p.Fresh r) : Fresh r' := by
  have hlim := r.output.bytesWritten_add_remainingCapacity
  have hstop : p.stop = p.index + p.data.length := rfl
  have htidy := hr.kept.tidy
  refine ⟨h.kept hr.kept, ?_⟩
  cases h with
  | old => exact hr.fresh
  | direct h1 h2 h3 hf =>
    have hput := ByteStream.put_drop_bytesWritten p.eof h1 h2 h3
    have hout := ByteStream.bytesWritten_add_remainingCapacity
      (r.output.put (p.data.drop (r.output.bytesWritten - p.index)) p.eof)
    rw [ByteStream.put_limit] at hout
    refine hf.fresh htidy ?_
    by_cases hfull : p.stop < r.output.limit
    · exact Or.inl (by omega)
    · refine Or.inr fun i hi => ?_
      have := hr.limit_le hp h1 (by omega) hi
      omega
  | past hpos h1 h2 hins =>
    have hput := ByteStream.put_slice_bytesWritten h1 h2
    intro i hi
    rcases hins.holds hpos hi with hi | hi
    · have := hr.limit_le hp h1 (by omega) hi
      simp only
      omega
    · simp only
      omega
  | without => exact hr.fresh
  | gap hgap hins hf =>
    refine hf.fresh (hins.tidy (by omega) htidy) (Or.inr fun i hi => ?_)
    rcases hins.holds (by omega) hi with hi | hi
    · exact hr.fresh i hi
    · omega

/-! ### Runs -/

/-- A call that leaves no written byte in the list. -/
def Call.Fresh (t : Session) : Call → Prop
  | .push p => p.Fresh t.reassembler
  | .read _ => True

instance (t : Session) : ∀ c : Call, Decidable (c.Fresh t)
  | .push p => inferInstanceAs (Decidable (p.Fresh t.reassembler))
  | .read _ => .isTrue trivial

theorem Fresh.step {t : Session} (h : Fresh t.reassembler) {c : Call} (hw : c.Whole t) (hf : c.Fresh t) :
    Fresh (t.step c).reassembler := by
  cases c with
  | push p => exact (push_spec h.kept p.eof hw).fresh h hf
  | read len => exact h.readOut len

/-- A push or a read does not change the capacity. -/
theorem Session.step_capacity {t : Session} (h : Kept t.reassembler) {c : Call} (hw : c.Whole t) :
    (t.step c).reassembler.capacity = t.reassembler.capacity := by
  cases c with
  | push p => exact (push_spec h p.eof hw).frame.2.2.2
  | read len => rfl

/-- **Accounting.** In every run in which no block is cut in two and no push that fills the output
finds in the list what it has just written, `unassembled_bytes()` is the number of indices
held and not written yet, it is at most the capacity, and `empty()` says whether it is zero. -/
theorem unassembledBytes_eq_card (capacity : ℕ) (calls : List Call)
    (h : Along Session.step (fun t c => c.Whole t ∧ c.Fresh t) (Session.start capacity) calls) :
    (runs Session.step (Session.start capacity) calls).reassembler.unassembledBytes =
        (runs Session.step (Session.start capacity) calls).reassembler.unwritten.card ∧
      (runs Session.step (Session.start capacity) calls).reassembler.unassembledBytes ≤ capacity ∧
      ((runs Session.step (Session.start capacity) calls).reassembler.empty = true ↔
        (runs Session.step (Session.start capacity) calls).reassembler.unwritten.card = 0) := by
  obtain ⟨hfresh, hcap⟩ := h.invariant
    (I := fun t => Fresh t.reassembler ∧ t.reassembler.capacity = capacity)
    (fun _ _ hi hc => ⟨hi.1.step hc.1 hc.2, (Session.step_capacity hi.1.kept hc.1).trans hi.2⟩)
    ⟨fresh_make capacity, rfl⟩
  rw [← hfresh.unassembledBytes_eq]
  exact ⟨rfl, hfresh.kept.unassembledBytes_le.trans_eq hcap, hfresh.kept.empty_iff⟩

/-- Two bytes wait behind a gap, one of them twice. -/
theorem unassembledBytes_eq_card_bc :
    Along Session.step (fun t c => c.Whole t ∧ c.Fresh t) (Session.start 4)
        [.push ⟨[98], 1, false⟩, .push ⟨[98, 99], 1, false⟩] ∧
      (runs Session.step (Session.start 4)
          [.push ⟨[98], 1, false⟩, .push ⟨[98, 99], 1, false⟩]).reassembler.unassembledBytes =
        (runs Session.step (Session.start 4)
          [.push ⟨[98], 1, false⟩, .push ⟨[98, 99], 1, false⟩]).reassembler.unwritten.card :=
  ⟨by decide, (unassembledBytes_eq_card 4 _ (by decide)).1⟩

/-- A written byte that is counted: with capacity `2`, `b` at `1` waits, and `ab` at `0` fills the
output; the block `b` stays in the list. -/
theorem unassembledBytes_counts_written :
    Along Session.step (fun _ c => c.Of [97, 98]) (Session.start 2)
        [.push ⟨[98], 1, false⟩, .push ⟨[97, 98], 0, false⟩] ∧
      (runs Session.step (Session.start 2)
        [.push ⟨[98], 1, false⟩, .push ⟨[97, 98], 0, false⟩]).reassembler.unassembledBytes = 1 ∧
      (runs Session.step (Session.start 2)
        [.push ⟨[98], 1, false⟩, .push ⟨[97, 98], 0, false⟩]).reassembler.unwritten.card = 0 := by
  decide

end Sponge
