import Sponge.Stream.Insert

/-!
# What draining the linked list does

`fetch_valid_data` goes down the list: it drops the blocks whose bytes have all been
written, writes the rest of a block that has become contiguous, and stops at a gap or
when the output is full. `Fetches` says this once, with one constructor for each way
a node is passed.

The loop has one more branch, for a block that does not fit into the output whole.
It is taken when the block straddles the limit of the output, `bytes_read + capacity`,
and the stream is complete up to that limit; `fetchLoop_fetches` says that otherwise
the code follows the relation. What the code does in that branch is wrong, since the
bytes it has written stay in the block.

## What is proved

For a list that is drained by whole blocks:

* `Fetches.total_add` — the bytes the list loses the remaining capacity gains.
* `Fetches.holds` and `Fetches.stops` — nothing held is lost, and draining stops only
  at a gap, at the end of the list or when the output is full.
* `Fetches.eof` — a block that carries the end of the stream ends it when it is drained.
-/

namespace Sponge

open Intervals

/-- The first index there is no room for in the stream. -/
def ByteStream.limit (b : ByteStream) : ℕ := b.bytesRead + b.maximumcapacity

theorem ByteStream.bytesWritten_add_remainingCapacity (b : ByteStream) :
    b.bytesWritten + b.remainingCapacity = b.limit := by
  have := b.remainingCapacity_eq
  unfold limit
  omega

/-- Write, and end the input if this was the end of the stream. -/
def ByteStream.put (b : ByteStream) (data : Bytes) (eof : Bool) : ByteStream :=
  if eof then (b.write data).2.endInput else (b.write data).2

namespace ByteStream

variable (b : ByteStream) (data : Bytes) (eof : Bool)

theorem ite_endInput :
    (if eof = true then (b.write data).2.endInput else (b.write data).2) = b.put data eof := rfl

@[simp] theorem put_maximumcapacity : (b.put data eof).maximumcapacity = b.maximumcapacity := by
  unfold put
  split <;> rfl

@[simp] theorem put_bytesRead : (b.put data eof).bytesRead = b.bytesRead := by
  unfold put
  split <;> rfl

@[simp] theorem put_error : (b.put data eof).error = b.error := by
  unfold put
  split <;> rfl

@[simp] theorem put_inputEnded : (b.put data eof).inputEnded = (b.inputEnded || eof) := by
  unfold put
  cases eof <;> simp

@[simp] theorem put_limit : (b.put data eof).limit = b.limit := by simp [limit]

variable {b data}

theorem put_bytesWritten (h : data.length ≤ b.remainingCapacity) :
    (b.put data eof).bytesWritten = b.bytesWritten + data.length := by
  have := write_bytesWritten_of_le h
  unfold put
  split <;> simpa using this

theorem put_que (h : data.length ≤ b.remainingCapacity) : (b.put data eof).que = b.que ++ data := by
  have := write_que_of_le h
  unfold put
  split <;> simpa using this

end ByteStream

/-- Draining the list into the output by whole blocks: the output, the remaining capacity
and the list afterwards. -/
inductive Fetches : ByteStream → ℕ → List Node → ByteStream → ℕ → List Node → Prop where
  /-- The list is empty, the output is full, or there is a gap. -/
  | stop {out : ByteStream} {remain : ℕ} {l : List Node} :
      (l = [] ∨ out.remainingCapacity = 0 ∨ ∃ n ∈ l.head?, out.bytesWritten < n.blockstart) →
        Fetches out remain l out remain l
  /-- All the bytes of the first block have been written. -/
  | drop {out out' : ByteStream} {remain remain' : ℕ} {n : Node} {l l' : List Node} :
      n.stop ≤ out.bytesWritten → Fetches out (remain + n.data.length) l out' remain' l' →
        Fetches out remain (n :: l) out' remain' l'
  /-- The rest of the first block is written. -/
  | drain {out out' : ByteStream} {remain remain' : ℕ} {n : Node} {l l' : List Node} :
      n.blockstart ≤ out.bytesWritten → out.bytesWritten < n.stop →
        (n.data.drop (out.bytesWritten - n.blockstart)).length ≤ out.remainingCapacity →
          Fetches (out.put (n.data.drop (out.bytesWritten - n.blockstart)) n.eof)
            (remain + n.data.length) l out' remain' l' →
              Fetches out remain (n :: l) out' remain' l'

/-- No block is cut in two when the list is drained: the output is full, there is a gap
before its limit, or no block straddles the limit. -/
def Whole (out : ByteStream) (l : List Node) : Prop :=
  out.remainingCapacity = 0 ∨
    (∃ i < out.limit, out.bytesWritten ≤ i ∧ ¬ Holds l i) ∨
      ∀ n ∈ l, n.stop ≤ out.limit ∨ out.limit ≤ n.blockstart

/-- What is left of a block that is being drained. -/
theorem Node.Ok.length_drop {n : Node} (hn : n.Ok) {w : ℕ} (h1 : n.blockstart ≤ w) :
    (n.data.drop (w - n.blockstart)).length = n.stop - w := by
  have := hn.len
  rw [List.length_drop]
  omega

/-- In a list that is drained by whole blocks, a block that has become contiguous fits. -/
theorem Whole.fits {out : ByteStream} {n : Node} {l : List Node} (h : Whole out (n :: l))
    (hr : out.remainingCapacity ≠ 0) (h1 : n.blockstart ≤ out.bytesWritten) :
    n.stop ≤ out.limit := by
  have hlim := out.bytesWritten_add_remainingCapacity
  rcases h with h | ⟨i, hi, hwi, hgap⟩ | h
  · exact absurd h hr
  · rw [holds_cons] at hgap
    omega
  · rcases h n List.mem_cons_self with h | h <;> omega

theorem Whole.of_drop {out : ByteStream} {n : Node} {l : List Node} (h : Whole out (n :: l)) :
    Whole out l := by
  rcases h with h | ⟨i, hi, hwi, hgap⟩ | h
  · exact Or.inl h
  · rw [holds_cons, not_or] at hgap
    exact Or.inr (Or.inl ⟨i, hi, hwi, hgap.2⟩)
  · exact Or.inr (Or.inr fun m hm => h m (List.mem_cons_of_mem _ hm))

theorem Whole.of_drain {out out' : ByteStream} {n : Node} {l : List Node} (h : Whole out (n :: l))
    (h1 : n.blockstart ≤ out.bytesWritten) (hw : out'.bytesWritten = n.stop)
    (hl : out'.limit = out.limit) (hr : out.remainingCapacity ≠ 0) : Whole out' l := by
  rcases h with h | ⟨i, hi, hwi, hgap⟩ | h
  · exact absurd h hr
  · rw [holds_cons, not_or] at hgap
    exact Or.inr (Or.inl ⟨i, by omega, by omega, hgap.2⟩)
  · exact Or.inr (Or.inr fun m hm => by rw [hl]; exact h m (List.mem_cons_of_mem _ hm))

/-- **The code follows the relation** when no block is cut in two. -/
theorem fetchLoop_fetches {out : ByteStream} {remain : ℕ} {l : List Node} (hok : ∀ n ∈ l, n.Ok)
    (hw : Whole out l) :
    Fetches out remain l (StreamReassembler.fetchLoop out remain l).1
      (StreamReassembler.fetchLoop out remain l).2.1 (StreamReassembler.fetchLoop out remain l).2.2 := by
  induction l generalizing out remain with
  | nil => exact .stop (Or.inl rfl)
  | cons n l ih =>
    have hn := hok n List.mem_cons_self
    have hok' : ∀ m ∈ l, m.Ok := fun m hm => hok m (List.mem_cons_of_mem _ hm)
    simp only [StreamReassembler.fetchLoop, ByteStream.ite_endInput]
    split_ifs with hfull hgap hold hlong
    · exact .stop (Or.inr (Or.inl hfull))
    · exact .stop (Or.inr (Or.inr ⟨n, rfl, hgap⟩))
    · exact .drop hold (ih hok' hw.of_drop)
    · -- a block that does not fit would straddle the limit
      have hlen := hn.length_drop (w := out.bytesWritten) (by omega)
      have hfit := hw.fits hfull (by omega)
      have := out.bytesWritten_add_remainingCapacity
      omega
    · have hlen := hn.length_drop (w := out.bytesWritten) (by omega)
      have hlt : out.bytesWritten < n.stop := by unfold Node.stop; omega
      refine .drain (by omega) hlt (by omega) (ih hok' (hw.of_drain (by omega) ?_ (by simp) hfull))
      rw [ByteStream.put_bytesWritten _ (by omega)]
      omega

namespace Fetches

variable {out out' : ByteStream} {remain remain' : ℕ} {l l' : List Node}

/-- Draining removes blocks from the front. -/
theorem suffix (h : Fetches out remain l out' remain' l') : l' <:+ l := by
  induction h with
  | stop => exact List.suffix_refl _
  | drop _ _ ih => exact ih.trans (List.suffix_cons _ _)
  | drain _ _ _ _ ih => exact ih.trans (List.suffix_cons _ _)

/-- The reader's side of the output is not touched. -/
theorem frame (h : Fetches out remain l out' remain' l') :
    out'.bytesRead = out.bytesRead ∧ out'.maximumcapacity = out.maximumcapacity ∧ out'.error = out.error := by
  induction h with
  | stop => exact ⟨rfl, rfl, rfl⟩
  | drop _ _ ih => exact ih
  | drain _ _ _ _ ih => simpa using ih

theorem limit_eq (h : Fetches out remain l out' remain' l') : out'.limit = out.limit := by
  obtain ⟨h1, h2, -⟩ := h.frame
  rw [ByteStream.limit, ByteStream.limit, h1, h2]

/-- The bytes the list loses the remaining capacity gains. -/
theorem total_add (h : Fetches out remain l out' remain' l') : remain' + total l' = remain + total l := by
  induction h with
  | stop => rfl
  | drop _ _ ih =>
    rw [total_cons]
    omega
  | drain _ _ _ _ ih =>
    rw [total_cons]
    omega

/-- After a block has been drained, the output ends where the block does. -/
theorem drain_bytesWritten {n : Node} (hn : n.Ok) (h1 : n.blockstart ≤ out.bytesWritten)
    (h2 : out.bytesWritten < n.stop)
    (hfit : (n.data.drop (out.bytesWritten - n.blockstart)).length ≤ out.remainingCapacity) :
    (out.put (n.data.drop (out.bytesWritten - n.blockstart)) n.eof).bytesWritten = n.stop := by
  rw [ByteStream.put_bytesWritten _ hfit, hn.length_drop h1]
  omega

theorem bytesWritten_le (h : Fetches out remain l out' remain' l') :
    out.bytesWritten ≤ out'.bytesWritten := by
  induction h with
  | stop => exact le_rfl
  | drop _ _ ih => exact ih
  | drain _ _ hfit _ ih =>
    rw [ByteStream.put_bytesWritten _ hfit] at ih
    omega

/-- What has been written was written before or was held. -/
theorem held_of_written (h : Fetches out remain l out' remain' l') (hok : ∀ n ∈ l, n.Ok) {i : ℕ}
    (h1 : out.bytesWritten ≤ i) (h2 : i < out'.bytesWritten) : Holds l i := by
  induction h with
  | stop => omega
  | drop _ _ ih =>
    exact holds_cons.mpr (Or.inr (ih (fun m hm => hok m (List.mem_cons_of_mem _ hm)) h1 h2))
  | @drain out _ _ _ n l _ hs ht hfit _ ih =>
    rw [drain_bytesWritten (hok n List.mem_cons_self) hs ht hfit] at ih
    rw [holds_cons]
    by_cases hi : i < n.stop
    · exact Or.inl ⟨by omega, hi⟩
    · exact Or.inr (ih (fun m hm => hok m (List.mem_cons_of_mem _ hm)) (by omega) h2)

/-- Nothing held is lost: it is still held, or it has been written. -/
theorem holds (h : Fetches out remain l out' remain' l') (hok : ∀ n ∈ l, n.Ok) {i : ℕ}
    (hi : Holds l i) : i < out'.bytesWritten ∨ Holds l' i := by
  induction h with
  | stop => exact Or.inr hi
  | drop hold hrest ih =>
    rcases holds_cons.mp hi with hi | hi
    · have := hrest.bytesWritten_le
      exact Or.inl (by omega)
    · exact ih (fun m hm => hok m (List.mem_cons_of_mem _ hm)) hi
  | @drain out _ _ _ n l _ hs ht hfit hrest ih =>
    rcases holds_cons.mp hi with hi | hi
    · have := hrest.bytesWritten_le
      rw [drain_bytesWritten (hok n List.mem_cons_self) hs ht hfit] at this
      exact Or.inl (by omega)
    · exact ih (fun m hm => hok m (List.mem_cons_of_mem _ hm)) hi

/-- Draining stops at the end of the list, when the output is full, or at a gap. -/
theorem stops (h : Fetches out remain l out' remain' l') :
    l' = [] ∨ out'.remainingCapacity = 0 ∨ ∃ n ∈ l'.head?, out'.bytesWritten < n.blockstart := by
  induction h with
  | stop h => exact h
  | drop _ _ ih => exact ih
  | drain _ _ _ _ ih => exact ih

/-- No written byte stays in the list, unless the output is full before draining starts. -/
theorem fresh (h : Fetches out remain l out' remain' l') (ht : Tidy l)
    (hfresh : out.remainingCapacity ≠ 0 ∨ ∀ i, Holds l i → out.bytesWritten ≤ i) :
    ∀ i, Holds l' i → out'.bytesWritten ≤ i := by
  induction h with
  | @stop out _ l hstop =>
    intro i hi
    rcases hfresh with hr | hfresh
    · rcases hstop with rfl | hstop | ⟨n, hn, hlt⟩
      · exact absurd hi (not_held_nil i)
      · exact absurd hstop hr
      · obtain ⟨t, rfl⟩ := List.head?_eq_some_iff.mp hn
        by_contra hle
        exact ht.inOrder.not_held_of_lt (by omega) hi
    · exact hfresh i hi
  | drop _ _ ih =>
    exact ih ht.tail (hfresh.imp_right fun h i hi => h i (holds_cons.mpr (Or.inr hi)))
  | @drain out _ _ _ n l _ hs hlt hfit _ ih =>
    obtain ⟨hn, hord, ht'⟩ := tidy_cons.mp ht
    refine ih ht' (Or.inr fun i ⟨c, hc, h1, _⟩ => ?_)
    have := hord c hc
    rw [drain_bytesWritten hn hs hlt hfit]
    omega

/-- The end of the input is never taken back. -/
theorem inputEnded_of (h : Fetches out remain l out' remain' l') (he : out.inputEnded = true) :
    out'.inputEnded = true := by
  induction h with
  | stop => exact he
  | drop _ _ ih => exact ih he
  | drain _ _ _ _ ih => exact ih (by simp [he])

/-- A block that carries the end of the stream and has not been written stays in the list,
or ends the input. -/
theorem eof (h : Fetches out remain l out' remain' l') (ht : Tidy l) {n : Node} (hn : n ∈ l)
    (he : n.eof = true) (hne : n.blockstart < n.stop) (hw : out.bytesWritten < n.stop) :
    n ∈ l' ∨ out'.inputEnded = true := by
  induction h with
  | stop => exact Or.inl hn
  | drop hold _ ih =>
    rcases List.mem_cons.mp hn with rfl | hn
    · omega
    · exact ih ht.tail hn hw
  | @drain out _ _ _ c l _ hs hlt hfit hrest ih =>
    obtain ⟨hc, hord, ht'⟩ := tidy_cons.mp ht
    rcases List.mem_cons.mp hn with rfl | hn
    · exact Or.inr (hrest.inputEnded_of (by simp [he]))
    · have := hord n hn
      refine ih ht' hn ?_
      rw [drain_bytesWritten hc hs hlt hfit]
      omega

end Fetches

end Sponge
