import Mathlib.Order.Nat
import Sponge.Library.Checked
import Sponge.Stream.ByteStream

/-!
# The stream reassembler

`StreamReassembler` accepts substrings of a stream in any order, overlapping and
duplicated, and writes to its output stream whatever has become contiguous. What
cannot be written yet is kept in a linked list of blocks, ordered by index.

## The model

The linked list is a list of `Node`s, `_head` first. Pointers into it are positions
in the list: `insert_to_linklist` is called with a reference to the pointer it
starts from, and everything it does happens at or after that pointer, except that
a block before the first one becomes the new `_head`.

In `insert_to_linklist` the `while` loop moves `p` down the list, and the recursive
call starts again at the node after the one just inserted. Neither goes back, and
walking on does not change `data`, `index` or `_remaincapacity`, so the two are one
recursion on the list, `insertAfter`. In a recursive call the tests
`_head == nullptr` and `index < _head->blockstart` fail: `_head` is there, and the
index has only grown since it was found not to lie before `_head`. So only the
outer call, `insertToLinklist`, makes them.

Additions are those of natural numbers, so the model is one of pushes whose indices fit
into 64 bits (`index + |data| < 2^64`): with larger ones the sums of the code wrap around.
Subtractions that the tests just before them do not already justify are `sub64`. `substr`
past the end of a string, which throws in the code, is empty here. That for such pushes
nothing wraps around and nothing is thrown is proved of the model with pointers,
`LinkedReassembler`.

## What is proved

* `pushSubstring_grows` — whatever is pushed, bytes written stay written and the end
  stays the end.
* `pushSubstring_inputEnded`, `pushSubstring_eof` — the end comes from a push that carries it.
-/

namespace Sponge

/-- A block of the linked list: the bytes of the stream from `blockstart` to
`blockend`, both included. -/
structure Node where
  /-- The bytes. -/
  data : Bytes
  /-- The index of the first byte. -/
  blockstart : ℕ
  /-- The index of the last byte. -/
  blockend : ℕ
  /-- The last byte of the block is the last of the stream. -/
  eof : Bool
  deriving DecidableEq

/-- The reassembler. -/
structure StreamReassembler where
  /-- The reassembled stream. -/
  output : ByteStream
  /-- The maximum number of bytes. -/
  capacity : ℕ
  /-- How many more bytes the linked list may hold. -/
  remaincapacity : ℕ
  /-- The linked list. -/
  head : List Node
  deriving DecidableEq

namespace StreamReassembler

/-- A new reassembler. -/
def make (capacity : ℕ) : StreamReassembler where
  output := ByteStream.make capacity
  capacity := capacity
  remaincapacity := capacity
  head := []

/-- `stream_out`. -/
def streamOut (r : StreamReassembler) : ByteStream := r.output

/-- `unassembled_bytes`. -/
def unassembledBytes (r : StreamReassembler) : ℕ := sub64 r.capacity r.remaincapacity

/-- `empty`. -/
def empty (r : StreamReassembler) : Bool := r.remaincapacity == r.capacity

/-- `insert_to_linklist` from the node `p` on, for an index that does not lie before the
list: the list from `p` on, and the remaining capacity, afterwards. -/
def insertAfter : ℕ → List Node → Bytes → ℕ → Bool → List Node × ℕ
  | remain, [], _, _, _ => ([], remain)
  | remain, [p], data, index, eof =>
    if data.length = 0 ∨ remain = 0 then ([p], remain)
    else
      let writesize := min data.length remain
      if index + writesize - 1 > p.blockend then
        -- a new node at the end of the list
        let offset := if index > p.blockend then 0 else p.blockend + 1 - index
        let writesize := min writesize (data.drop offset).length
        let temp : Node :=
          { data := (data.drop offset).take writesize
            blockstart := index + offset
            blockend := sub64 (index + offset + writesize) 1
            eof := writesize + offset == data.length && eof }
        ([p, temp], remain - writesize)
      else ([p], remain)
  | remain, p :: q :: rest, data, index, eof =>
    if data.length = 0 ∨ remain = 0 then (p :: q :: rest, remain)
    else
      let writesize := min data.length remain
      if index + writesize - 1 > p.blockend then
        if q.blockstart = p.blockend + 1 ∨ index > q.blockstart then
          -- the loop goes on to the next node
          let r := insertAfter remain (q :: rest) data index eof
          (p :: r.1, r.2)
        else
          -- fill the gap before the next node, and go on from there
          let offset := if index > p.blockend then 0 else p.blockend + 1 - index
          let writesize := min (min writesize (data.drop offset).length)
            (sub64 (sub64 q.blockstart (max (sub64 index 1) p.blockend)) 1)
          let temp : Node :=
            { data := (data.drop offset).take writesize
              blockstart := index + offset
              blockend := sub64 (index + offset + writesize) 1
              eof := false }
          let r := insertAfter (remain - writesize) (q :: rest) (data.drop (offset + writesize))
            (temp.blockend + 1) eof
          (p :: temp :: r.1, r.2)
      else (p :: q :: rest, remain)

/-- `insert_to_linklist` at `_head`: the list and the remaining capacity afterwards. -/
def insertHead (remain : ℕ) (head : List Node) (data : Bytes) (index : ℕ) (eof : Bool) :
    List Node × ℕ :=
  if data.length = 0 ∨ remain = 0 then (head, remain)
  else
    let writesize := min data.length remain
    match head with
    | [] =>
      ([{ data := data.take writesize
          blockstart := index
          blockend := index + writesize - 1
          eof := writesize == data.length && eof }], remain - writesize)
    | h :: rest =>
      if index < h.blockstart then
        let writesize := min writesize (h.blockstart - index)
        let temp : Node :=
          { data := data.take writesize
            blockstart := index
            blockend := index + writesize - 1
            eof := false }
        let r := insertAfter (remain - writesize) (h :: rest) (data.drop writesize)
          (index + writesize) eof
        (temp :: r.1, r.2)
      else insertAfter remain (h :: rest) data index eof

/-- `insert_to_linklist`, called at `_head`. -/
def insertToLinklist (r : StreamReassembler) (data : Bytes) (index : ℕ) (eof : Bool) :
    StreamReassembler :=
  let i := insertHead r.remaincapacity r.head data index eof
  { r with head := i.1, remaincapacity := i.2 }

/-- The loop of `fetch_valid_data`: the output stream, the remaining capacity and the list
afterwards. -/
def fetchLoop : ByteStream → ℕ → List Node → ByteStream × ℕ × List Node
  | out, remain, [] => (out, remain, [])
  | out, remain, h :: rest =>
    if out.remainingCapacity = 0 then (out, remain, h :: rest)
    else if h.blockstart > out.bytesWritten then (out, remain, h :: rest)
    else if h.blockend < out.bytesWritten then fetchLoop out (remain + h.data.length) rest
    else
      let offset := out.bytesWritten - h.blockstart
      let data := h.data.drop offset
      if data.length > out.remainingCapacity then
        let writedata := data.take out.remainingCapacity
        let out' := (out.write writedata).2
        -- `remaining_capacity()` is read again here, after the write, when it is `0`
        let data' := data.drop out'.remainingCapacity
        (out', remain + (offset + writedata.length),
          { h with data := data', blockstart := h.blockstart + (offset + writedata.length) } :: rest)
      else
        let out' := (out.write data).2
        fetchLoop (if h.eof then out'.endInput else out') (remain + h.data.length) rest

/-- `fetch_valid_data`. -/
def fetchValidData (r : StreamReassembler) : StreamReassembler :=
  let f := fetchLoop r.output r.remaincapacity r.head
  { r with output := f.1, remaincapacity := f.2.1, head := f.2.2 }

/-- `push_substring`. -/
def pushSubstring (r : StreamReassembler) (data : Bytes) (index : ℕ) (eof : Bool) :
    StreamReassembler :=
  if index ≤ r.output.bytesWritten then
    if index + data.length ≥ r.output.bytesWritten then
      let offset := r.output.bytesWritten - index
      let data' := data.drop offset
      let writesize := min data'.length r.output.remainingCapacity
      if writesize ≥ data'.length then
        let out := (r.output.write data').2
        fetchValidData { r with output := if eof then out.endInput else out }
      else
        let out := (r.output.write (data'.take writesize)).2
        fetchValidData (insertToLinklist { r with output := out } (data'.drop writesize)
          (index + offset + writesize) eof)
    else r
  else fetchValidData (insertToLinklist r data index eof)

/-- A reader pops bytes of the output stream. -/
def readOut (r : StreamReassembler) (len : ℕ) : StreamReassembler :=
  { r with output := (r.output.read len).2 }

end StreamReassembler

/-! ### Nothing is taken back -/

/-- Bytes written stay written, the end of the input stays the end, and there is no new error. -/
structure ByteStream.Grows (b b' : ByteStream) : Prop where
  /-- No byte is taken back. -/
  bytesWritten_le : b.bytesWritten ≤ b'.bytesWritten
  /-- The end of the input is not taken back. -/
  inputEnded : b.inputEnded = true → b'.inputEnded = true
  /-- An error is neither made nor removed. -/
  error : b'.error = b.error

namespace ByteStream.Grows

variable {b b' b'' : ByteStream}

theorem refl (b : ByteStream) : b.Grows b := ⟨le_rfl, id, rfl⟩

theorem trans (h : b.Grows b') (h' : b'.Grows b'') : b.Grows b'' :=
  ⟨h.bytesWritten_le.trans h'.bytesWritten_le, h'.inputEnded ∘ h.inputEnded, h'.error.trans h.error⟩

theorem write (b : ByteStream) (data : Bytes) : b.Grows (b.write data).2 :=
  ⟨by simp, by simp, rfl⟩

theorem popOutput (b : ByteStream) (len : ℕ) : b.Grows (b.popOutput len) := ⟨le_rfl, id, rfl⟩

theorem endInput (b : ByteStream) : b.Grows b.endInput := ⟨le_rfl, fun _ => rfl, rfl⟩

theorem ite_endInput (b : ByteStream) (data : Bytes) (eof : Bool) :
    b.Grows (if eof then (b.write data).2.endInput else (b.write data).2) := by
  split
  · exact (write b data).trans (endInput _)
  · exact write b data

end ByteStream.Grows

namespace StreamReassembler

open ByteStream

theorem fetchLoop_grows (out : ByteStream) (remain : ℕ) (l : List Node) :
    out.Grows (fetchLoop out remain l).1 := by
  induction l generalizing out remain with
  | nil => exact .refl out
  | cons n l ih =>
    unfold fetchLoop
    split
    · exact .refl out
    split
    · exact .refl out
    split
    · exact ih _ _
    dsimp only
    split
    · exact .write _ _
    · exact (Grows.ite_endInput _ _ _).trans (ih _ _)

/-- **Nothing is taken back**, whatever is pushed. -/
theorem pushSubstring_grows (r : StreamReassembler) (data : Bytes) (index : ℕ) (eof : Bool) :
    r.output.Grows (r.pushSubstring data index eof).output := by
  unfold pushSubstring
  split
  · split
    · dsimp only
      split
      · exact (Grows.ite_endInput _ _ _).trans (fetchLoop_grows _ _ _)
      · exact (Grows.write _ _).trans (fetchLoop_grows _ _ _)
    · exact .refl _
  · exact fetchLoop_grows _ _ _

@[simp] theorem pushSubstring_capacity (r : StreamReassembler) (data : Bytes) (index : ℕ) (eof : Bool) :
    (r.pushSubstring data index eof).capacity = r.capacity := by
  simp only [pushSubstring]
  split_ifs <;> rfl

/-! ### Where the end comes from -/

theorem insertAfter_eof {remain : ℕ} {l : List Node} {data : Bytes} {index : ℕ} {eof : Bool} {n : Node}
    (hn : n ∈ (insertAfter remain l data index eof).1) (he : n.eof = true) :
    eof = true ∨ ∃ m ∈ l, m.eof = true := by
  fun_induction insertAfter remain l data index eof with
  | case1 => exact absurd hn List.not_mem_nil
  | case2 => exact Or.inr ⟨n, hn, he⟩
  | case3 remain p data index eof _ writesize hlt offset writesize' temp =>
    rcases List.mem_cons.mp hn with rfl | hn
    · exact Or.inr ⟨n, List.mem_cons_self, he⟩
    · rw [List.mem_singleton.mp hn] at he
      exact Or.inl (Bool.and_eq_true_iff.mp he).2
  | case4 => exact Or.inr ⟨n, hn, he⟩
  | case5 => exact Or.inr ⟨n, hn, he⟩
  | case6 remain p q rest data index eof _ writesize _ _ r ih =>
    rcases List.mem_cons.mp hn with rfl | hn
    · exact Or.inr ⟨n, List.mem_cons_self, he⟩
    · exact (ih hn).imp_right fun ⟨m, hm, h⟩ => ⟨m, List.mem_cons_of_mem _ hm, h⟩
  | case7 remain p q rest data index eof _ writesize _ _ offset writesize' temp r ih =>
    -- the block that fills a gap does not carry the end
    rcases List.mem_cons.mp hn with rfl | hn
    · exact Or.inr ⟨n, List.mem_cons_self, he⟩
    rcases List.mem_cons.mp hn with rfl | hn
    · exact absurd he Bool.false_ne_true
    · exact (ih hn).imp_right fun ⟨m, hm, h⟩ => ⟨m, List.mem_cons_of_mem _ hm, h⟩
  | case8 => exact Or.inr ⟨n, hn, he⟩

theorem insertHead_eof {remain : ℕ} {head : List Node} {data : Bytes} {index : ℕ} {eof : Bool} {n : Node}
    (hn : n ∈ (insertHead remain head data index eof).1) (he : n.eof = true) :
    eof = true ∨ ∃ m ∈ head, m.eof = true := by
  unfold insertHead at hn
  split at hn
  · exact Or.inr ⟨n, hn, he⟩
  cases head with
  | nil =>
    rw [List.mem_singleton.mp hn] at he
    exact Or.inl (Bool.and_eq_true_iff.mp he).2
  | cons h rest =>
    dsimp only at hn
    split at hn
    · -- the block before the list does not carry the end
      rcases List.mem_cons.mp hn with rfl | hn
      · exact absurd he Bool.false_ne_true
      · exact insertAfter_eof hn he
    · exact insertAfter_eof hn he

theorem fetchLoop_inputEnded {out : ByteStream} {remain : ℕ} {l : List Node}
    (he : (fetchLoop out remain l).1.inputEnded = true) :
    out.inputEnded = true ∨ ∃ n ∈ l, n.eof = true := by
  induction l generalizing out remain with
  | nil => exact Or.inl he
  | cons n l ih =>
    have htail : (∃ m ∈ l, m.eof = true) → ∃ m ∈ n :: l, m.eof = true := fun ⟨m, hm, h⟩ =>
      ⟨m, List.mem_cons_of_mem _ hm, h⟩
    unfold fetchLoop at he
    dsimp only at he
    split_ifs at he with h1 h2 h3 h4 h5
    · exact Or.inl he
    · exact Or.inl he
    · exact (ih he).imp_right htail
    · exact Or.inl he
    · exact Or.inr ⟨n, List.mem_cons_self, h5⟩
    · exact (ih he).imp_right htail

theorem fetchLoop_eof {out : ByteStream} {remain : ℕ} {l : List Node} {n : Node}
    (hn : n ∈ (fetchLoop out remain l).2.2) (he : n.eof = true) : ∃ m ∈ l, m.eof = true := by
  induction l generalizing out remain with
  | nil => exact absurd hn List.not_mem_nil
  | cons h l ih =>
    have htail : (∃ m ∈ l, m.eof = true) → ∃ m ∈ h :: l, m.eof = true :=
      Exists.imp fun m hm => ⟨List.mem_cons_of_mem _ hm.1, hm.2⟩
    unfold fetchLoop at hn
    dsimp only at hn
    split_ifs at hn with h1 h2 h3 h4 h5
    · exact ⟨n, hn, he⟩
    · exact ⟨n, hn, he⟩
    · exact htail (ih hn)
    · -- a block that is cut carries the end if it did before
      rcases List.mem_cons.mp hn with rfl | hn
      · exact ⟨h, List.mem_cons_self, he⟩
      · exact ⟨n, List.mem_cons_of_mem _ hn, he⟩
    · exact htail (ih hn)
    · exact htail (ih hn)

/-- **The end comes from a push**: this one, or one whose block is kept. -/
theorem pushSubstring_inputEnded {r : StreamReassembler} {data : Bytes} {index : ℕ} {eof : Bool}
    (he : (r.pushSubstring data index eof).output.inputEnded = true) :
    r.output.inputEnded = true ∨ eof = true ∨ ∃ n ∈ r.head, n.eof = true := by
  unfold pushSubstring at he
  dsimp only at he
  split_ifs at he with h1 h2 h3 h4
  · exact Or.inr (Or.inl h4)
  · exact (fetchLoop_inputEnded he).imp_right Or.inr
  · rcases fetchLoop_inputEnded he with h | ⟨n, hn, h⟩
    · exact Or.inl h
    · exact Or.inr (insertHead_eof hn h)
  · exact Or.inl he
  · rcases fetchLoop_inputEnded he with h | ⟨n, hn, h⟩
    · exact Or.inl h
    · exact Or.inr (insertHead_eof hn h)

/-- And so does a block that carries it. -/
theorem pushSubstring_eof {r : StreamReassembler} {data : Bytes} {index : ℕ} {eof : Bool} {n : Node}
    (hn : n ∈ (r.pushSubstring data index eof).head) (he : n.eof = true) :
    eof = true ∨ ∃ m ∈ r.head, m.eof = true := by
  unfold pushSubstring at hn
  dsimp only at hn
  split_ifs at hn with h1 h2 h3 h4
  · exact Or.inl h4
  · exact Or.inr (fetchLoop_eof hn he)
  · obtain ⟨m, hm, he⟩ := fetchLoop_eof hn he
    exact insertHead_eof hm he
  · exact Or.inr ⟨n, hn, he⟩
  · obtain ⟨m, hm, he⟩ := fetchLoop_eof hn he
    exact insertHead_eof hm he

end StreamReassembler

end Sponge
