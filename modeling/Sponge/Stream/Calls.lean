import Sponge.Library.Runs
import Sponge.Stream.ByteStream

/-!
# Runs of a byte stream

What its two users can do with a `ByteStream`, in any order. Whatever they do, the stream is a queue of
bounded length: `StreamHistory` remembers the bytes that have gone in and those that have come out, and
`IsFifo` says that the second are the first ones of the first, with the rest in the buffer.

The writer can end the input, and the class says that no more bytes can be written then. `write` does
not look at `_end`, though: it accepts whatever there is room for, and a stream that had come to its end
has bytes to read again (`written_after_end`). Such a stream is frozen in the runs in which every later
write finds no room or has nothing to write, and in no others.

## What is proved

* `bounded_fifo` — in every run the stream is a queue of bounded length, and its counters agree with it.
* `frozen_iff` — when a call leaves a stream frozen.
* `ended_frozen_iff` — in which runs a stream is frozen after the end of its input.
-/

namespace Sponge

/-- What can be done with a stream. -/
inductive StreamCall where
  /-- `write(data)`. -/
  | write (data : Bytes)
  /-- `peek_output(len)`. -/
  | peekOutput (len : ℕ)
  /-- `pop_output(len)`. -/
  | popOutput (len : ℕ)
  /-- `read(len)`. -/
  | read (len : ℕ)
  /-- `end_input()`. -/
  | endInput
  /-- `set_error()`. -/
  | setError
  deriving DecidableEq

/-- A write that has nothing to write or finds no room, or any other call. -/
def StreamCall.Vain (b : ByteStream) : StreamCall → Prop
  | .write data => data = [] ∨ b.remainingCapacity = 0
  | _ => True

namespace ByteStream

/-- One call. -/
def call (b : ByteStream) : StreamCall → ByteStream
  | .write data => (b.write data).2
  | .peekOutput _ => b
  | .popOutput len => b.popOutput len
  | .read len => (b.read len).2
  | .endInput => b.endInput
  | .setError => b.setError

end ByteStream

/-! ### First in, first out -/

/-- The bytes that the call takes out of the stream. -/
def StreamCall.taken (b : ByteStream) : StreamCall → Bytes
  | .popOutput len => b.peekOutput len
  | .read len => (b.read len).1
  | _ => []

/-- The bytes that the stream accepts from the call: as many of a write as it says. -/
def StreamCall.accepted (b : ByteStream) : StreamCall → Bytes
  | .write data => data.take (b.write data).1
  | _ => []

/-- A stream with its history. -/
structure StreamHistory where
  /-- The stream. -/
  stream : ByteStream
  /-- All bytes popped so far. -/
  popped : Bytes
  /-- The accepted parts of all writes so far. -/
  accepted : Bytes

namespace StreamHistory

/-- A new stream. -/
def start (capacity : ℕ) : StreamHistory := ⟨.make capacity, [], []⟩

/-- One call. -/
def call (h : StreamHistory) (e : StreamCall) : StreamHistory where
  stream := h.stream.call e
  popped := h.popped ++ e.taken h.stream
  accepted := h.accepted ++ e.accepted h.stream

/-- The history does not change what the stream does. -/
theorem runs_stream (h : StreamHistory) (es : List StreamCall) :
    (runs call h es).stream = runs ByteStream.call h.stream es := by
  induction es generalizing h with
  | nil => rfl
  | cons e es ih => exact ih (h.call e)

/-- The bytes popped, and then the buffer, are the bytes accepted; the capacity is `capacity`. -/
structure InOrder (capacity : ℕ) (h : StreamHistory) : Prop where
  /-- Nothing is lost, made up or moved. -/
  bytes : h.popped ++ h.stream.que = h.accepted
  /-- The popped bytes are counted. -/
  popped : h.stream.bytesRead = h.popped.length
  /-- The capacity stays. -/
  capacity : h.stream.maximumcapacity = capacity

theorem inOrder_start (capacity : ℕ) : InOrder capacity (start capacity) := ⟨rfl, rfl, rfl⟩

/-- What is taken out of the stream was at the front of the buffer. -/
theorem InOrder.pop {capacity : ℕ} {h : StreamHistory} (hi : InOrder capacity h) (len : ℕ) :
    InOrder capacity ⟨h.stream.popOutput len, h.popped ++ h.stream.peekOutput len, h.accepted⟩ where
  bytes := by
    rw [ByteStream.peekOutput, ByteStream.popOutput_que, List.append_assoc, List.take_append_drop]
    exact hi.bytes
  popped := by
    rw [ByteStream.popOutput_bytesRead, hi.popped, List.length_append, ByteStream.peekOutput, List.length_take,
      Nat.min_assoc, Nat.min_self]
  capacity := hi.capacity

/-- A call that neither takes nor accepts a byte. -/
theorem InOrder.same {capacity : ℕ} {h : StreamHistory} (hi : InOrder capacity h) {b : ByteStream}
    (hque : b.que = h.stream.que) (hread : b.bytesRead = h.stream.bytesRead)
    (hcap : b.maximumcapacity = h.stream.maximumcapacity) :
    InOrder capacity ⟨b, h.popped ++ [], h.accepted ++ []⟩ := by
  rw [List.append_nil, List.append_nil]
  exact ⟨by rw [hque, hi.bytes], by rw [hread, hi.popped], by rw [hcap, hi.capacity]⟩

/-- **One call keeps the order.** -/
theorem InOrder.call {capacity : ℕ} {h : StreamHistory} (hi : InOrder capacity h) (e : StreamCall) :
    InOrder capacity (h.call e) := by
  cases e with
  | write data =>
    refine ⟨?_, ?_, hi.capacity⟩
    · show (h.popped ++ []) ++ (h.stream.que ++ _) = h.accepted ++ _
      rw [List.append_nil, ← List.append_assoc, hi.bytes]
      rfl
    · show h.stream.bytesRead = (h.popped ++ []).length
      rw [List.append_nil, hi.popped]
  | popOutput len =>
    have hpop := hi.pop len
    rw [← List.append_nil h.accepted] at hpop
    exact hpop
  | read len =>
    have hpop := hi.pop len
    rw [← List.append_nil h.accepted] at hpop
    exact hpop
  | peekOutput len => exact hi.same rfl rfl rfl
  | endInput => exact hi.same rfl rfl rfl
  | setError => exact hi.same rfl rfl rfl

/-- A queue of bounded length, after the calls `es` of a stream of capacity `capacity`. -/
structure IsFifo (capacity : ℕ) (es : List StreamCall) (h : StreamHistory) : Prop where
  /-- What has come out, and then the buffer, is what has gone in. -/
  bytes : h.popped ++ h.stream.que = h.accepted
  /-- A write accepts as many leading bytes as there is room for, and puts them at the end. -/
  write : ∀ data, (h.stream.write data).1 = min data.length (capacity - h.stream.bufferSize) ∧
    (h.stream.write data).2.que = h.stream.que ++ data.take (min data.length (capacity - h.stream.bufferSize))
  /-- The buffer and the remaining capacity make up the capacity. -/
  room : h.stream.bufferSize + h.stream.remainingCapacity = capacity
  /-- No more bytes have been read than written. -/
  read_le : h.stream.bytesRead ≤ h.stream.bytesWritten
  /-- The bytes written and not read are in the buffer. -/
  count : h.stream.bytesWritten - h.stream.bytesRead = h.stream.bufferSize
  /-- The buffer is empty if there is nothing in it. -/
  empty : h.stream.bufferEmpty = true ↔ h.stream.bufferSize = 0
  /-- The end is reached when the input has ended and every byte that has gone in has come out. -/
  eof : h.stream.eof = true ↔ .endInput ∈ es ∧ h.popped = h.accepted

theorem InOrder.isFifo {capacity : ℕ} {h : StreamHistory} (hi : InOrder capacity h) {es : List StreamCall}
    (hend : h.stream.inputEnded = true ↔ .endInput ∈ es) : IsFifo capacity es h := by
  have hroom := h.stream.bufferSize_add_remainingCapacity
  have hcount := h.stream.bytesRead_add_bufferSize
  rw [hi.capacity] at hroom
  have hfree : h.stream.remainingCapacity = capacity - h.stream.bufferSize := by omega
  refine ⟨hi.bytes, fun data => ?_, hroom, by omega, by omega, ?_, ?_⟩
  · rw [ByteStream.write_fst, ByteStream.write_que, hfree, Nat.min_comm]
    exact ⟨rfl, rfl⟩
  · rw [ByteStream.bufferEmpty, beq_iff_eq, hi.capacity]
    show h.stream.remainingCapacity = capacity ↔ _
    omega
  · rw [ByteStream.eof_iff, hend, ← hi.bytes, List.self_eq_append_right]

end StreamHistory

namespace ByteStream

/-- The input has ended if and only if somebody has ended it. -/
theorem runs_inputEnded (b : ByteStream) (es : List StreamCall) :
    (runs call b es).inputEnded = true ↔ b.inputEnded = true ∨ .endInput ∈ es := by
  induction es generalizing b with
  | nil => simp
  | cons e es ih =>
    rw [runs_cons, ih, List.mem_cons]
    cases e with
    | endInput => simp [call]
    | write data | peekOutput len | popOutput len | read len | setError => simp [call]

/-- **A byte stream is a queue of bounded length.** In every run, what has come out and then the buffer are
what has gone in; a write is accepted as far as there is room; and the counters say what they should. -/
theorem bounded_fifo (capacity : ℕ) (es : List StreamCall) :
    (runs StreamHistory.call (.start capacity) es).stream = runs call (make capacity) es ∧
      (runs StreamHistory.call (.start capacity) es).IsFifo capacity es := by
  have hstream := StreamHistory.runs_stream (.start capacity) es
  have hall : Along StreamHistory.call (fun _ _ => True) (.start capacity) es := along_true _ _
  have horder := hall.invariant (I := StreamHistory.InOrder capacity) (fun h e hi _ => hi.call e)
    (StreamHistory.inOrder_start capacity)
  refine ⟨hstream, horder.isFifo ?_⟩
  rw [hstream, runs_inputEnded]
  simp [StreamHistory.start]

/-! ### The end of the input -/

/-- The call finds the stream frozen: a write is refused and changes nothing, and a stream that is at its
end stays there. -/
structure Frozen (b : ByteStream) (e : StreamCall) : Prop where
  /-- A write accepts nothing, and leaves the buffer and the counters as they are. -/
  refused : ∀ data, e = .write data → (b.write data).1 = 0 ∧ (b.call e).que = b.que ∧
    (b.call e).bytesWritten = b.bytesWritten ∧ (b.call e).remainingCapacity = b.remainingCapacity
  /-- The end stays the end. -/
  eof : b.eof = true → (b.call e).eof = true

/-- Reading does not move the end. -/
theorem eof_popOutput {b : ByteStream} (h : b.eof = true) (len : ℕ) : (b.popOutput len).eof = true := by
  obtain ⟨hend, hque⟩ := (eof_iff b).mp h
  rw [eof_iff, popOutput_inputEnded, popOutput_que, hque, List.drop_nil]
  exact ⟨hend, rfl⟩

/-- A write in vain changes nothing. -/
theorem write_of_vain {b : ByteStream} {data : Bytes} (h : data = [] ∨ b.remainingCapacity = 0) :
    (b.write data).1 = 0 ∧ (b.write data).2 = b := by
  rcases h with rfl | hfull
  · exact ⟨Nat.min_zero _, write_nil b⟩
  · obtain ⟨que, capacity, maximumcapacity, writtensize, readsize, error, inputEnded, room, count⟩ := b
    obtain rfl : capacity = 0 := hfull
    simp [write]

/-- **When a call leaves a stream frozen.** -/
theorem frozen_iff (b : ByteStream) (e : StreamCall) : Frozen b e ↔ e.Vain b := by
  cases e with
  | write data =>
    constructor
    · intro h
      have hzero := (h.refused data rfl).1
      rw [write_fst] at hzero
      rcases Nat.min_eq_zero_iff.mp hzero with hfull | hempty
      · exact Or.inr hfull
      · exact Or.inl (List.length_eq_zero_iff.mp hempty)
    · intro h
      obtain ⟨hzero, hsame⟩ := write_of_vain h
      refine ⟨?_, ?_⟩
      · rintro _ ⟨rfl⟩
        rw [call, hsame]
        exact ⟨hzero, rfl, rfl, rfl⟩
      · rw [call, hsame]
        exact id
  | popOutput len => exact ⟨fun _ => trivial, fun _ => ⟨nofun, fun h => eof_popOutput h len⟩⟩
  | read len => exact ⟨fun _ => trivial, fun _ => ⟨nofun, fun h => eof_popOutput h len⟩⟩
  | endInput =>
    refine ⟨fun _ => trivial, fun _ => ⟨nofun, fun h => ?_⟩⟩
    exact (eof_iff _).mpr ⟨rfl, ((eof_iff b).mp h).2⟩
  | peekOutput len => exact ⟨fun _ => trivial, fun _ => ⟨nofun, id⟩⟩
  | setError => exact ⟨fun _ => trivial, fun _ => ⟨nofun, id⟩⟩

/-- **When the end of the input freezes a stream.** In every run, every write after `end_input()` is
refused and changes nothing, and the end once reached stays reached, if and only if every later write has
nothing to write or finds no room. -/
theorem ended_frozen_iff (capacity : ℕ) (before later : List StreamCall) :
    Along call Frozen (runs call (make capacity) (before ++ [.endInput])) later ↔
      Along call (fun b e => e.Vain b) (runs call (make capacity) (before ++ [.endInput])) later := by
  constructor
  · exact Along.mono fun b e => (frozen_iff b e).mp
  · exact Along.mono fun b e => (frozen_iff b e).mpr

/-- A stream that is not frozen: its input has ended and it is at its end, then a byte is written, and it
is not at its end any more. -/
theorem written_after_end :
    let b := runs call (make 4) [.endInput]
    b.eof = true ∧ (b.write [97]).1 = 1 ∧ (b.call (.write [97])).que = [97] ∧
      (b.call (.write [97])).eof = false ∧ ¬ Along call Frozen b [.write [97]] := by
  refine ⟨by decide, by decide, by decide, by decide, fun h => ?_⟩
  have hzero := (h.1.refused [97] rfl).1
  revert hzero
  decide

end ByteStream

end Sponge
