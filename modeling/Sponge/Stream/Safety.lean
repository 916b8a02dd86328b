import Sponge.Stream.Push

/-!
# The list in every run

What the other modules prove about the linked list holds as long as no block is cut in two when the list is
drained (`WholeBlocks`). A block that is cut keeps bytes it has already written, and its first index may end
up behind its last. This module is about what holds of the list nevertheless, whatever is pushed and read: the
blocks after the first are as long as their data, and the first one holds data up to its end at least.

## What is proved

* `Stored.insert`, `Stored.fetch` — inserting and draining keep this.
* `Safe.step` — and so does every call.
-/

namespace Sponge

open StreamReassembler

/-- The blocks of a list in any run, when `written` bytes have been written. -/
structure Stored (written : ℕ) (l : List Node) : Prop where
  /-- They are in order. -/
  spaced : Spaced l
  /-- After the first one they are as long as their data. -/
  ok : ∀ n ∈ l.tail, n.Ok
  /-- So is the first one, unless it has been cut. Then it starts with bytes that have been written. -/
  first : ∀ n ∈ l.head?, n.Ok ∨ n.blockstart ≤ written ∧ n.stop ≤ n.blockstart + n.data.length
  /-- Their indices fit into 64 bits. -/
  small : ∀ n ∈ l, n.stop < 2 ^ 64

section Stored

variable {written : ℕ} {l : List Node}

theorem stored_nil (written : ℕ) : Stored written [] :=
  ⟨List.Pairwise.nil, by simp, by simp, by simp⟩

theorem Tidy.stored (h : Tidy l) (hsmall : ∀ n ∈ l, n.stop < 2 ^ 64) : Stored written l :=
  ⟨h.order, fun n hn => h.ok n (List.mem_of_mem_tail hn),
    fun n hn => Or.inl (h.ok n (List.mem_of_mem_head? hn)), hsmall⟩

theorem Stored.mono (h : Stored written l) {written' : ℕ} (hle : written ≤ written') : Stored written' l :=
  ⟨h.spaced, h.ok, fun n hn => (h.first n hn).imp_right fun hcut => ⟨Nat.le_trans hcut.1 hle, hcut.2⟩, h.small⟩

/-- After its first block the list is tidy. -/
theorem Stored.tidy_tail {n : Node} (h : Stored written (n :: l)) : Tidy l :=
  ⟨h.ok, (List.pairwise_cons.mp h.spaced).2⟩

theorem Stored.tail {n : Node} (h : Stored written (n :: l)) {written' : ℕ} : Stored written' l :=
  h.tidy_tail.stored fun c hc => h.small c (List.mem_cons_of_mem n hc)

/-- Every block holds data up to its end at least. -/
theorem Stored.stop_le (h : Stored written l) {n : Node} (hn : n ∈ l) : n.stop ≤ n.blockstart + n.data.length := by
  cases l with
  | nil => cases hn
  | cons p rest =>
    rcases List.mem_cons.mp hn with rfl | hn
    · rcases h.first n rfl with hok | hcut
      · exact Nat.le_of_eq hok.len.symm
      · exact hcut.2
    · exact Nat.le_of_eq (h.ok n hn).len.symm

/-- A list whose first block has not been cut is tidy. -/
theorem Stored.tidy {p : Node} (h : Stored written (p :: l)) (hlt : written < p.blockstart) : Tidy (p :: l) := by
  obtain ⟨hord, -⟩ := List.pairwise_cons.mp h.spaced
  rcases h.first p rfl with hok | hcut
  · exact tidy_cons.mpr ⟨hok, hord, h.tidy_tail⟩
  · exact absurd hcut.1 (Nat.not_le.mpr hlt)

/-- **Insertion.** -/
theorem Stored.insert (h : Stored written l) {eof : Bool} {remain remain' index : ℕ} {data : Bytes} {l' : List Node}
    (hins : InsertsAtHead eof remain data index l l' remain') (hw : written ≤ index) (hi : 1 ≤ index)
    (hfits : index + data.length < 2 ^ 64) : Stored written l' := by
  have hsmall : ∀ n ∈ l', n.stop < 2 ^ 64 := by
    intro n hn
    rcases hins.mem hi hn with hn | ⟨k, m, _, hkm, _, _, hstop, -⟩
    · exact h.small n hn
    · omega
  have htidy := hins.tidy hi
  cases hins with
  | done => exact h
  | first => exact (htidy tidy_nil).stored hsmall
  | before _ _ hlt => exact (htidy (h.tidy (by omega))).stored hsmall
  | after _ hins =>
    -- the first block stays, and what follows it stays tidy
    obtain ⟨hord, -⟩ := List.pairwise_cons.mp h.spaced
    obtain ⟨rest', rfl, hord', htidy'⟩ := hins.tidy_after hi rfl hord h.tidy_tail
    exact ⟨List.pairwise_cons.mpr ⟨hord', htidy'.order⟩, htidy'.ok, h.first, hsmall⟩

/-- **Draining.** -/
theorem Stored.fetch {out : ByteStream} {remain : ℕ} (h : Stored out.bytesWritten l) :
    Stored (fetchLoop out remain l).1.bytesWritten (fetchLoop out remain l).2.2 := by
  induction l generalizing out remain with
  | nil => exact stored_nil _
  | cons n l ih =>
    simp only [fetchLoop]
    split_ifs with hfull hgap hold hlong heof
    · exact h
    · exact h
    · exact ih h.tail
    · -- the block is cut: it keeps all its bytes
      obtain ⟨hord, htail⟩ := List.pairwise_cons.mp h.spaced
      refine ⟨List.pairwise_cons.mpr ⟨hord, htail⟩, h.ok, fun c hc => Or.inr ?_, fun c hc => ?_⟩
      · have hstop := h.stop_le List.mem_cons_self
        obtain rfl := Option.mem_some_iff.mp hc
        simp only [Node.stop, ByteStream.write_bytesWritten, ByteStream.write_remainingCapacity, List.length_take,
          List.length_drop] at hstop hlong ⊢
        omega
      · rcases List.mem_cons.mp hc with rfl | hc
        · exact h.small n List.mem_cons_self
        · exact h.small c (List.mem_cons_of_mem n hc)
    · exact ih h.tail
    · exact ih h.tail

end Stored

/-! ### The reassembler -/

/-- What holds of a reassembler in any run. -/
structure Safe (r : StreamReassembler) : Prop where
  /-- Its blocks. -/
  stored : Stored r.output.bytesWritten r.head
  /-- Without capacity nothing is ever kept. -/
  room : r.output.maximumcapacity = 0 → r.remaincapacity = 0

/-- Draining does not change how much the output may hold. -/
theorem fetchLoop_maximumcapacity (out : ByteStream) (remain : ℕ) (l : List Node) :
    (fetchLoop out remain l).1.maximumcapacity = out.maximumcapacity := by
  induction l generalizing out remain with
  | nil => rfl
  | cons n l ih =>
    simp only [fetchLoop]
    split_ifs
    · rfl
    · rfl
    · exact ih out _
    · rfl
    · exact ih _ _
    · exact ih _ _

/-- An output without capacity is full. -/
theorem ByteStream.remainingCapacity_of_zero {b : ByteStream} (h : b.maximumcapacity = 0) :
    b.remainingCapacity = 0 := by
  have := b.bufferSize_add_remainingCapacity
  omega

namespace Safe

variable {r : StreamReassembler}

theorem make (capacity : ℕ) : Safe (make capacity) := ⟨stored_nil 0, id⟩

/-- Writing to the output. -/
theorem write (h : Safe r) {out : ByteStream} (hgrows : r.output.Grows out)
    (hmax : out.maximumcapacity = r.output.maximumcapacity) : Safe { r with output := out } :=
  ⟨h.stored.mono hgrows.bytesWritten_le, fun hzero => h.room (hmax ▸ hzero)⟩

theorem insertToLinklist (h : Safe r) {data : Bytes} {index : ℕ} {eof : Bool} (hw : r.output.bytesWritten ≤ index)
    (hi : 1 ≤ index ∨ r.remaincapacity = 0) (hfits : index + data.length < 2 ^ 64) :
    Safe (r.insertToLinklist data index eof) := by
  by_cases hzero : r.remaincapacity = 0
  · rw [StreamReassembler.insertToLinklist, insertHead_done eof (Or.inr hzero)]
    exact h
  · have hi : 1 ≤ index := hi.resolve_right hzero
    refine ⟨h.stored.insert (insertHead_spec_of_spaced eof _ data h.stored.spaced hi) hw hi hfits, fun hmax => ?_⟩
    exact absurd (h.room hmax) hzero

theorem fetchValidData (h : Safe r) : Safe r.fetchValidData := by
  refine ⟨h.stored.fetch, fun hmax => ?_⟩
  rw [StreamReassembler.fetchValidData, fetchLoop_maximumcapacity] at hmax
  rw [fetchValidData_of_full (ByteStream.remainingCapacity_of_zero hmax)]
  exact h.room hmax

/-- Where the data starts that does not fit into the output. -/
theorem keep (h : Safe r) {data : Bytes} {index : ℕ} (h1 : index ≤ r.output.bytesWritten)
    (hfits : index + data.length < 2 ^ 64) {offset writesize : ℕ} (hoffset : offset = r.output.bytesWritten - index)
    (hwritesize : writesize = min (data.drop offset).length r.output.remainingCapacity)
    (hover : ¬ writesize ≥ (data.drop offset).length) :
    (r.output.write ((data.drop offset).take writesize)).2.bytesWritten ≤ index + offset + writesize ∧
      (1 ≤ index + offset + writesize ∨ r.remaincapacity = 0) ∧
      index + offset + writesize + ((data.drop offset).drop writesize).length < 2 ^ 64 := by
  rw [ByteStream.write_bytesWritten, List.length_drop, List.length_take]
  rw [List.length_drop] at hwritesize hover ⊢
  refine ⟨by omega, ?_, by omega⟩
  by_cases hmax : r.output.maximumcapacity = 0
  · exact Or.inr (h.room hmax)
  · have := r.output.remainingCapacity_eq
    exact Or.inl (by omega)

/-- **A push.** -/
theorem pushSubstring (h : Safe r) {data : Bytes} {index : ℕ} (eof : Bool) (hfits : index + data.length < 2 ^ 64) :
    Safe (r.pushSubstring data index eof) := by
  unfold StreamReassembler.pushSubstring
  dsimp only
  split_ifs with h1 h2 hfit heof
  · exact (h.write ((ByteStream.Grows.write _ _).trans (.endInput _)) rfl).fetchValidData
  · exact (h.write (.write _ _) rfl).fetchValidData
  · obtain ⟨hw, hi, hlt⟩ := h.keep h1 hfits rfl rfl hfit
    exact ((h.write (.write _ _) rfl).insertToLinklist hw hi hlt).fetchValidData
  · exact h
  · exact (h.insertToLinklist (by omega) (by omega) hfits).fetchValidData

/-- **A call.** -/
theorem step {t : Session} (h : Safe t.reassembler) {c : Call} (hc : ∀ p, c = .push p → p.stop < 2 ^ 64) :
    Safe (t.step c).reassembler := by
  cases c with
  | push p => exact h.pushSubstring p.eof (hc p rfl)
  | read len => exact h.write (.popOutput _ len) rfl

end Safe

end Sponge
