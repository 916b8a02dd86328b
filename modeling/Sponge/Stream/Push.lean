import Sponge.Library.Runs
import Sponge.Stream.Fetch

/-!
# What a push does

`push_substring` writes what it can to the output, keeps the rest in the linked list,
and drains the list. `Pushes` says which of these happens: the substring is old,
it is written whole, it fills the output and the rest is kept, or it lies behind a
gap and is kept.

A `Session` is a reassembler together with the history the properties of this part are
about: the bytes the reader has taken, and the substrings pushed so far. A run of a
session is a run of `Session.step`.

## What is proved

* `push_spec` — the code follows `Pushes` as long as no block is cut in two
  (`WholeBlocks`).
* `Pushes.mem` — a block of the list is an old one or a piece of the data.
* `Pushes.kept` — the bookkeeping of the list is kept: it is tidy, and its bytes and
  the remaining capacity make up the capacity (`Kept`).
-/

namespace Sponge

open Intervals StreamReassembler

/-- The bookkeeping of the linked list. -/
structure Kept (r : StreamReassembler) : Prop where
  /-- The list is tidy. -/
  tidy : Tidy r.head
  /-- The bytes in the list and the remaining capacity make up the capacity. -/
  account : r.remaincapacity + total r.head = r.capacity
  /-- The output has the same capacity. -/
  cap : r.output.maximumcapacity = r.capacity

theorem kept_make (capacity : ℕ) : Kept (make capacity) := ⟨tidy_nil, rfl, rfl⟩

theorem Kept.readOut {r : StreamReassembler} (h : Kept r) (len : ℕ) : Kept (r.readOut len) :=
  ⟨h.tidy, h.account, h.cap⟩

/-- The number of bytes in the list is what `unassembled_bytes` says. -/
theorem Kept.unassembledBytes_eq {r : StreamReassembler} (h : Kept r) :
    r.unassembledBytes = total r.head := by
  have := h.account
  rw [unassembledBytes, sub64_of_le (by omega)]
  omega

/-- No block is cut in two by this push: the output is full, a gap remains before its limit
`bytes_read + capacity`, or neither a block of the list nor the data, if it has to be kept,
straddles the limit. -/
def WholeBlocks (r : StreamReassembler) (data : Bytes) (index : ℕ) : Prop :=
  r.output.bytesWritten = r.output.limit ∨
    (∃ i < r.output.limit, r.output.bytesWritten ≤ i ∧ ¬ Holds r.head i ∧
      ¬ (index ≤ i ∧ i < index + data.length)) ∨
    ((∀ n ∈ r.head, n.stop ≤ r.output.limit ∨ r.output.limit ≤ n.blockstart) ∧
      (index ≤ r.output.bytesWritten ∨ index + data.length ≤ r.output.limit ∨
        r.output.limit ≤ index))

instance (r : StreamReassembler) (data : Bytes) (index : ℕ) : Decidable (WholeBlocks r data index) :=
  inferInstanceAs (Decidable (_ ∨ _ ∨ _))

/-- What a push does. -/
inductive Pushes (r : StreamReassembler) (data : Bytes) (index : ℕ) (eof : Bool) :
    StreamReassembler → Prop where
  /-- All of the data has been written already. -/
  | old : index + data.length < r.output.bytesWritten → Pushes r data index eof r
  /-- What is new of the data fits into the output. -/
  | direct {out : ByteStream} {remain : ℕ} {l : List Node} :
      index ≤ r.output.bytesWritten → r.output.bytesWritten ≤ index + data.length →
        index + data.length ≤ r.output.limit →
          Fetches (r.output.put (data.drop (r.output.bytesWritten - index)) eof) r.remaincapacity r.head
            out remain l →
              Pushes r data index eof { r with output := out, remaincapacity := remain, head := l }
  /-- The data fills the output, and the rest of it is kept. -/
  | past {remain : ℕ} {l : List Node} : 1 ≤ r.output.limit →
      index ≤ r.output.bytesWritten → r.output.limit < index + data.length →
        InsertsAtHead eof r.remaincapacity (data.drop (r.output.limit - index)) r.output.limit r.head
          l remain →
            Pushes r data index eof
              { r with
                output := r.output.put
                  (slice data (r.output.bytesWritten - index) r.output.remainingCapacity) false
                remaincapacity := remain
                head := l }
  /-- A reassembler without capacity keeps nothing. -/
  | without : r.output.limit = 0 → index ≤ r.output.bytesWritten → 0 < data.length →
      Pushes r data index eof r
  /-- The data starts after what has been written, and is kept. -/
  | gap {out : ByteStream} {remain remain' : ℕ} {l l' : List Node} :
      r.output.bytesWritten < index →
        InsertsAtHead eof r.remaincapacity data index r.head l remain →
          Fetches r.output remain l out remain' l' →
            Pushes r data index eof { r with output := out, remaincapacity := remain', head := l' }

section Put

variable {out : ByteStream} {data : Bytes} {index : ℕ}

/-- When the new part of the data has been written, the output ends where the data does. -/
theorem ByteStream.put_drop_bytesWritten (eof : Bool) (h1 : index ≤ out.bytesWritten)
    (h2 : out.bytesWritten ≤ index + data.length) (h3 : index + data.length ≤ out.limit) :
    (out.put (data.drop (out.bytesWritten - index)) eof).bytesWritten = index + data.length := by
  have hlim := out.bytesWritten_add_remainingCapacity
  have hlen := List.length_drop (i := out.bytesWritten - index) (l := data)
  rw [ByteStream.put_bytesWritten eof (by omega)]
  omega

/-- When the data fills the output, the output ends at its limit. -/
theorem ByteStream.put_slice_bytesWritten (h1 : index ≤ out.bytesWritten)
    (h2 : out.limit < index + data.length) :
    (out.put (slice data (out.bytesWritten - index) out.remainingCapacity) false).bytesWritten =
      out.limit := by
  have hlim := out.bytesWritten_add_remainingCapacity
  have hlen := length_slice (s := data) (i := out.bytesWritten - index) (n := out.remainingCapacity)
    (by omega)
  rw [ByteStream.put_bytesWritten false hlen.le]
  omega

end Put

/-- A full output: nothing is drained. -/
theorem fetchLoop_of_full {out : ByteStream} (h : out.remainingCapacity = 0) (remain : ℕ)
    (l : List Node) : fetchLoop out remain l = (out, remain, l) := by
  cases l with
  | nil => rfl
  | cons n l => simp [fetchLoop, h]

theorem fetchValidData_of_full {r : StreamReassembler} (h : r.output.remainingCapacity = 0) :
    r.fetchValidData = r := by
  rw [fetchValidData, fetchLoop_of_full h]

/-- Writing the new part of the data directly leaves the list drainable by whole blocks. -/
theorem WholeBlocks.direct {r : StreamReassembler} {data : Bytes} {index : ℕ} {out : ByteStream}
    (hw : WholeBlocks r data index) (h1 : index ≤ r.output.bytesWritten)
    (h2 : r.output.bytesWritten ≤ index + data.length)
    (hout : out.bytesWritten = index + data.length) (hlim : out.limit = r.output.limit) :
    Whole out r.head := by
  have hrem := out.bytesWritten_add_remainingCapacity
  rcases hw with hw | ⟨i, hi, hwi, hhold, hdata⟩ | ⟨hw, -⟩
  · exact Or.inl (by omega)
  · exact Or.inr (Or.inl ⟨i, by omega, by omega, hhold⟩)
  · exact Or.inr (Or.inr (by rwa [hlim]))

/-- So does keeping data that lies behind a gap. -/
theorem WholeBlocks.gap {r : StreamReassembler} {data : Bytes} {index : ℕ} {eof : Bool}
    {remain : ℕ} {l : List Node} (hw : WholeBlocks r data index) (h : r.output.bytesWritten < index)
    (hins : InsertsAtHead eof r.remaincapacity data index r.head l remain) : Whole r.output l := by
  have hrem := r.output.bytesWritten_add_remainingCapacity
  rcases hw with hw | ⟨i, hi, hwi, hhold, hdata⟩ | ⟨hw, hdata⟩
  · exact Or.inl (by omega)
  · refine Or.inr (Or.inl ⟨i, hi, hwi, fun hl => ?_⟩)
    exact (hins.holds (by omega) hl).elim hhold hdata
  · refine Or.inr (Or.inr fun n hn => ?_)
    rcases hins.mem (by omega) hn with hn | ⟨k, m, _, _, _, hstart, hstop, -⟩
    · exact hw n hn
    · omega

section Equations

variable {r : StreamReassembler} {data : Bytes} {index : ℕ} (eof : Bool)

/-- The new part of the data fits: it is written. -/
theorem pushSubstring_direct (h1 : index ≤ r.output.bytesWritten)
    (h2 : r.output.bytesWritten ≤ index + data.length) (h3 : index + data.length ≤ r.output.limit) :
    r.pushSubstring data index eof = fetchValidData
      { r with output := r.output.put (data.drop (r.output.bytesWritten - index)) eof } := by
  have hlim := r.output.bytesWritten_add_remainingCapacity
  have hlen : (data.drop (r.output.bytesWritten - index)).length ≤ r.output.remainingCapacity := by
    rw [List.length_drop]
    omega
  rw [pushSubstring, if_pos h1, if_pos h2, if_pos (by rw [Nat.min_eq_left hlen])]
  rfl

/-- It does not fit: the output is filled, and the rest is kept. -/
theorem pushSubstring_over (h1 : index ≤ r.output.bytesWritten) (h3 : r.output.limit < index + data.length) :
    r.pushSubstring data index eof = insertToLinklist
      { r with
        output := r.output.put
          (slice data (r.output.bytesWritten - index) r.output.remainingCapacity) false }
      (data.drop (r.output.limit - index)) r.output.limit eof := by
  have hlim := r.output.bytesWritten_add_remainingCapacity
  have hmin : min (data.drop (r.output.bytesWritten - index)).length r.output.remainingCapacity =
      r.output.remainingCapacity := by
    rw [List.length_drop]
    omega
  have hput := ByteStream.put_slice_bytesWritten h1 h3
  have hput' := ByteStream.bytesWritten_add_remainingCapacity
    (r.output.put (slice data (r.output.bytesWritten - index) r.output.remainingCapacity) false)
  rw [ByteStream.put_limit] at hput'
  rw [pushSubstring, if_pos h1, if_pos (by omega)]
  simp only [hmin, List.drop_drop]
  rw [if_neg (by rw [List.length_drop]; omega),
    show r.output.bytesWritten - index + r.output.remainingCapacity = r.output.limit - index by omega,
    show index + (r.output.bytesWritten - index) + r.output.remainingCapacity = r.output.limit by omega]
  exact fetchValidData_of_full (by
    show (r.output.put (slice data _ _) false).remainingCapacity = 0
    omega)

/-- All of it has been written before. -/
theorem pushSubstring_old (h : index + data.length < r.output.bytesWritten) :
    r.pushSubstring data index eof = r := by
  rw [pushSubstring, if_pos (by omega), if_neg (by omega)]

/-- It lies behind a gap: it is kept. -/
theorem pushSubstring_gap (h : r.output.bytesWritten < index) :
    r.pushSubstring data index eof = fetchValidData (insertToLinklist r data index eof) := by
  rw [pushSubstring, if_neg (by omega)]

end Equations

/-- **The code follows the relation** if no block is cut in two. -/
theorem push_spec {r : StreamReassembler} (hk : Kept r) {data : Bytes} {index : ℕ} (eof : Bool)
    (hw : WholeBlocks r data index) : Pushes r data index eof (r.pushSubstring data index eof) := by
  have hlim := r.output.bytesWritten_add_remainingCapacity
  by_cases hold : index + data.length < r.output.bytesWritten
  · rw [pushSubstring_old eof hold]
    exact .old hold
  by_cases hgap : r.output.bytesWritten < index
  · rw [pushSubstring_gap eof hgap]
    have hins := insertHead_spec eof r.remaincapacity data hk.tidy (by omega : 1 ≤ index)
    exact .gap hgap hins (fetchLoop_fetches (hins.tidy (by omega) hk.tidy).ok (hw.gap hgap hins))
  by_cases hfit : index + data.length ≤ r.output.limit
  · rw [pushSubstring_direct eof (by omega) (by omega) hfit]
    exact .direct (by omega) (by omega) hfit (fetchLoop_fetches hk.tidy.ok (hw.direct (by omega) (by omega)
      (ByteStream.put_drop_bytesWritten eof (by omega) (by omega) hfit) (by simp)))
  · rw [pushSubstring_over eof (by omega) (by omega)]
    by_cases hpos : 1 ≤ r.output.limit
    · exact .past hpos (by omega) (by omega) (insertHead_spec eof _ _ hk.tidy hpos)
    · have hcap := hk.cap
      have hacc := hk.account
      have hzero : r.remaincapacity = 0 := by
        unfold ByteStream.limit at hpos
        omega
      have hrem : r.output.remainingCapacity = 0 := by omega
      have hsame : insertToLinklist
          { r with
            output := r.output.put
              (slice data (r.output.bytesWritten - index) r.output.remainingCapacity) false }
          (data.drop (r.output.limit - index)) r.output.limit eof = r := by
        simp only [insertToLinklist, insertHead, hzero, hrem, or_true, if_true, slice_zero,
          ByteStream.put, Bool.false_eq_true, if_false, ByteStream.write_nil]
        rw [← hzero]
      rw [hsame]
      exact .without (by omega) (by omega) (by omega)

/-- The bookkeeping is kept. -/
theorem Pushes.kept {r r' : StreamReassembler} {data : Bytes} {index : ℕ} {eof : Bool} (hk : Kept r)
    (h : Pushes r data index eof r') : Kept r' := by
  have hacc := hk.account
  cases h with
  | old => exact hk
  | direct _ _ _ hf =>
    have htot := hf.total_add
    exact ⟨hk.tidy.sublist hf.suffix.sublist, by simp only; omega, by simpa [hf.frame.2.1] using hk.cap⟩
  | past hpos _ _ hins =>
    have htot := hins.total_add
    exact ⟨hins.tidy hpos hk.tidy, by simp only; omega, by simpa using hk.cap⟩
  | without => exact hk
  | gap hgap hins hf =>
    have htot := hins.total_add
    have htot' := hf.total_add
    exact ⟨(hins.tidy (by omega) hk.tidy).sublist hf.suffix.sublist, by simp only; omega,
      by simpa [hf.frame.2.1] using hk.cap⟩

/-- A block of the list afterwards was there before, or is a piece of the data. -/
theorem Pushes.mem {r r' : StreamReassembler} {data : Bytes} {index : ℕ} {eof : Bool}
    (h : Pushes r data index eof r') {n : Node} (hn : n ∈ r'.head) :
    n ∈ r.head ∨ IsPiece data index eof r.head n := by
  have hlim := r.output.bytesWritten_add_remainingCapacity
  cases h with
  | old => exact Or.inl hn
  | direct _ _ _ hf => exact Or.inl (hf.suffix.subset hn)
  | past hpos h1 _ hins =>
    refine (hins.mem hpos hn).imp_right fun hp => ?_
    obtain ⟨o, ho⟩ : ∃ o, r.output.limit = index + o := ⟨r.output.limit - index, by omega⟩
    rw [ho, Nat.add_sub_cancel_left] at hp
    exact hp.of_drop fun _ hq => hq
  | without => exact Or.inl hn
  | gap hgap hins hf => exact hins.mem (by omega) (hf.suffix.subset hn)

/-- What a push does not touch: the reader's side of the output, and the capacities. -/
theorem Pushes.frame {r r' : StreamReassembler} {data : Bytes} {index : ℕ} {eof : Bool}
    (h : Pushes r data index eof r') :
    r'.output.bytesRead = r.output.bytesRead ∧ r'.output.maximumcapacity = r.output.maximumcapacity ∧
      r'.output.error = r.output.error ∧ r'.capacity = r.capacity := by
  cases h with
  | old => exact ⟨rfl, rfl, rfl, rfl⟩
  | direct _ _ _ hf => simpa using hf.frame
  | past => simp
  | without => exact ⟨rfl, rfl, rfl, rfl⟩
  | gap _ _ hf => simpa using hf.frame

theorem Pushes.limit_eq {r r' : StreamReassembler} {data : Bytes} {index : ℕ} {eof : Bool}
    (h : Pushes r data index eof r') : r'.output.limit = r.output.limit := by
  obtain ⟨h1, h2, -⟩ := h.frame
  rw [ByteStream.limit, ByteStream.limit, h1, h2]

/-- A push never takes back what has been written. -/
theorem Pushes.bytesWritten_le {r r' : StreamReassembler} {data : Bytes} {index : ℕ} {eof : Bool}
    (h : Pushes r data index eof r') : r.output.bytesWritten ≤ r'.output.bytesWritten := by
  cases h with
  | old => exact le_rfl
  | direct h1 h2 h3 hf =>
    have hput := ByteStream.put_drop_bytesWritten eof h1 h2 h3
    exact h2.trans (hput ▸ hf.bytesWritten_le)
  | past _ h1 h2 =>
    have hlim := r.output.bytesWritten_add_remainingCapacity
    have hput := ByteStream.put_slice_bytesWritten h1 h2
    simp only
    omega
  | without => exact le_rfl
  | gap _ _ hf => exact hf.bytesWritten_le

/-- Pushing nothing behind a gap is the same as pushing nothing at the next index. -/
theorem pushSubstring_nil {r : StreamReassembler} {index : ℕ} (h : r.output.bytesWritten < index) :
    r.pushSubstring [] index false = r.pushSubstring [] r.output.bytesWritten false := by
  have hlim := r.output.bytesWritten_add_remainingCapacity
  rw [pushSubstring_gap false h, pushSubstring_direct false le_rfl (by simp) (by simp only [List.length_nil]; omega)]
  simp [insertToLinklist, insertHead, ByteStream.put]

/-! ### Sessions -/

/-- A call of `push_substring`. -/
structure Push where
  /-- The substring. -/
  data : Bytes
  /-- The index of its first byte. -/
  index : ℕ
  /-- Its last byte is the last of the stream. -/
  eof : Bool
  deriving DecidableEq

/-- The first index after the substring. -/
def Push.stop (p : Push) : ℕ := p.index + p.data.length

/-- A call made by the user of a reassembler. -/
inductive Call where
  /-- `push_substring`. -/
  | push (p : Push)
  /-- `stream_out().read(len)`. -/
  | read (len : ℕ)
  deriving DecidableEq

/-- A reassembler with its history. -/
structure Session where
  /-- The reassembler. -/
  reassembler : StreamReassembler
  /-- The bytes read from the output so far. -/
  taken : Bytes
  /-- The calls of `push_substring` so far. -/
  pushes : List Push
  deriving DecidableEq

namespace Session

/-- The output stream. -/
def output (t : Session) : ByteStream := t.reassembler.output

/-- The bytes ever written to the output stream. -/
def assembled (t : Session) : Bytes := t.taken ++ t.output.que

/-- A session with a new reassembler. -/
def start (capacity : ℕ) : Session := ⟨make capacity, [], []⟩

/-- One call. -/
def step (t : Session) : Call → Session
  | .push p =>
    { reassembler := t.reassembler.pushSubstring p.data p.index p.eof
      taken := t.taken
      pushes := t.pushes ++ [p] }
  | .read len =>
    { reassembler := t.reassembler.readOut len
      taken := t.taken ++ (t.output.read len).1
      pushes := t.pushes }

end Session

end Sponge
