import Mathlib.Data.List.Basic
import Mathlib.Tactic.Common

/-!
# The byte stream

`ByteStream` is the flow-controlled in-memory stream every other component is built
on: bytes are written at one end, as many as there is room for, and read at the
other. The code keeps the bytes in a deque and, beside it, five counters that say
the same things in different ways; the two equations between them are fields of
the structure, so that a stream whose counters disagree cannot be built.

## The model

A `size_t` is a natural number: a counter of bytes does not get near `2^64`. A
`char` is a `UInt8` and a `std::string` a list of them.
-/

namespace Sponge

/-- A string of bytes. -/
abbrev Bytes := List UInt8

/-- An in-order byte stream. -/
structure ByteStream where
  /-- The bytes written and not yet read. -/
  que : Bytes
  /-- The remaining capacity: how many bytes there is still room for. -/
  capacity : ℕ
  /-- The capacity the stream was built with. -/
  maximumcapacity : ℕ
  /-- How many bytes have been written. -/
  writtensize : ℕ
  /-- How many bytes have been read. -/
  readsize : ℕ
  /-- The stream has suffered an error. -/
  error : Bool
  /-- The input has ended. -/
  inputEnded : Bool
  /-- Buffer and remaining capacity make up the capacity. -/
  room : que.length + capacity = maximumcapacity
  /-- Every byte written has been read or is in the buffer. -/
  count : readsize + que.length = writtensize
  deriving DecidableEq

namespace ByteStream

/-- An empty stream with room for `capacity` bytes. -/
def make (capacity : ℕ) : ByteStream where
  que := []
  capacity := capacity
  maximumcapacity := capacity
  writtensize := 0
  readsize := 0
  error := false
  inputEnded := false
  room := by simp
  count := rfl

/-- `write`: as many bytes of `data` as fit, and how many those are. The code does not
look at `_end`: a stream whose input has ended still accepts bytes. -/
def write (b : ByteStream) (data : Bytes) : ℕ × ByteStream :=
  let writesize := min b.capacity data.length
  (writesize,
    { b with
      que := b.que ++ data.take writesize
      capacity := b.capacity - writesize
      writtensize := b.writtensize + writesize
      room := by
        have := b.room
        simp only [List.length_append, List.length_take]
        omega
      count := by
        have := b.count
        simp only [List.length_append, List.length_take]
        omega })

/-- `peek_output`. -/
def peekOutput (b : ByteStream) (len : ℕ) : Bytes := b.que.take (min len b.que.length)

/-- `pop_output`. -/
def popOutput (b : ByteStream) (len : ℕ) : ByteStream :=
  let popsize := min len b.que.length
  { b with
    que := b.que.drop popsize
    capacity := b.capacity + popsize
    readsize := b.readsize + popsize
    room := by
      have := b.room
      simp only [List.length_drop]
      omega
    count := by
      have := b.count
      simp only [List.length_drop]
      omega }

/-- `read`: copy and then pop. -/
def read (b : ByteStream) (len : ℕ) : Bytes × ByteStream := (b.peekOutput len, b.popOutput len)

/-- `end_input`. -/
def endInput (b : ByteStream) : ByteStream := { b with inputEnded := true }

/-- `set_error`. -/
def setError (b : ByteStream) : ByteStream := { b with error := true }

/-- `buffer_size`. -/
def bufferSize (b : ByteStream) : ℕ := b.que.length

/-- `buffer_empty`. -/
def bufferEmpty (b : ByteStream) : Bool := b.capacity == b.maximumcapacity

/-- `eof`: the input has ended and everything written has been read. -/
def eof (b : ByteStream) : Bool := b.inputEnded && b.readsize == b.writtensize

/-- `bytes_written`. -/
def bytesWritten (b : ByteStream) : ℕ := b.writtensize

/-- `bytes_read`. -/
def bytesRead (b : ByteStream) : ℕ := b.readsize

/-- `remaining_capacity`. -/
def remainingCapacity (b : ByteStream) : ℕ := b.capacity

/-! ### What each operation does to each part -/

section Parts

variable (b : ByteStream) (data : Bytes) (len : ℕ)

@[simp] theorem make_que (n : ℕ) : (make n).que = [] := rfl
@[simp] theorem make_capacity (n : ℕ) : (make n).capacity = n := rfl
@[simp] theorem make_maximumcapacity (n : ℕ) : (make n).maximumcapacity = n := rfl
@[simp] theorem make_bytesWritten (n : ℕ) : (make n).bytesWritten = 0 := rfl
@[simp] theorem make_bytesRead (n : ℕ) : (make n).bytesRead = 0 := rfl
@[simp] theorem make_error (n : ℕ) : (make n).error = false := rfl
@[simp] theorem make_inputEnded (n : ℕ) : (make n).inputEnded = false := rfl

@[simp] theorem write_que : (b.write data).2.que =
    b.que ++ data.take (min b.remainingCapacity data.length) := rfl
@[simp] theorem write_maximumcapacity : (b.write data).2.maximumcapacity = b.maximumcapacity := rfl
@[simp] theorem write_bytesRead : (b.write data).2.bytesRead = b.bytesRead := rfl
@[simp] theorem write_error : (b.write data).2.error = b.error := rfl
@[simp] theorem write_inputEnded : (b.write data).2.inputEnded = b.inputEnded := rfl
@[simp] theorem write_fst : (b.write data).1 = min b.remainingCapacity data.length := rfl
@[simp] theorem write_bytesWritten :
    (b.write data).2.bytesWritten = b.bytesWritten + min b.remainingCapacity data.length := rfl
@[simp] theorem write_remainingCapacity :
    (b.write data).2.remainingCapacity = b.remainingCapacity - min b.remainingCapacity data.length := rfl

@[simp] theorem popOutput_que : (b.popOutput len).que = b.que.drop (min len b.que.length) := rfl
@[simp] theorem popOutput_maximumcapacity : (b.popOutput len).maximumcapacity = b.maximumcapacity := rfl
@[simp] theorem popOutput_bytesWritten : (b.popOutput len).bytesWritten = b.bytesWritten := rfl
@[simp] theorem popOutput_bytesRead :
    (b.popOutput len).bytesRead = b.bytesRead + min len b.que.length := rfl
@[simp] theorem popOutput_error : (b.popOutput len).error = b.error := rfl
@[simp] theorem popOutput_inputEnded : (b.popOutput len).inputEnded = b.inputEnded := rfl

@[simp] theorem read_snd : (b.read len).2 = b.popOutput len := rfl
@[simp] theorem read_fst : (b.read len).1 = b.que.take (min len b.que.length) := rfl

@[simp] theorem endInput_que : b.endInput.que = b.que := rfl
@[simp] theorem endInput_maximumcapacity : b.endInput.maximumcapacity = b.maximumcapacity := rfl
@[simp] theorem endInput_bytesWritten : b.endInput.bytesWritten = b.bytesWritten := rfl
@[simp] theorem endInput_bytesRead : b.endInput.bytesRead = b.bytesRead := rfl
@[simp] theorem endInput_remainingCapacity : b.endInput.remainingCapacity = b.remainingCapacity := rfl
@[simp] theorem endInput_error : b.endInput.error = b.error := rfl
@[simp] theorem endInput_inputEnded : b.endInput.inputEnded = true := rfl

@[simp] theorem setError_que : b.setError.que = b.que := rfl
@[simp] theorem setError_maximumcapacity : b.setError.maximumcapacity = b.maximumcapacity := rfl
@[simp] theorem setError_bytesWritten : b.setError.bytesWritten = b.bytesWritten := rfl
@[simp] theorem setError_bytesRead : b.setError.bytesRead = b.bytesRead := rfl
@[simp] theorem setError_error : b.setError.error = true := rfl
@[simp] theorem setError_inputEnded : b.setError.inputEnded = b.inputEnded := rfl

end Parts

/-! ### The counters -/

/-- The remaining capacity is what the unread bytes leave of the capacity. -/
theorem remainingCapacity_eq (b : ByteStream) :
    b.remainingCapacity + b.bytesWritten = b.bytesRead + b.maximumcapacity := by
  have := b.room
  have := b.count
  simp only [remainingCapacity, bytesWritten, bytesRead]
  omega

theorem bytesRead_add_bufferSize (b : ByteStream) : b.bytesRead + b.bufferSize = b.bytesWritten :=
  b.count

theorem bufferSize_add_remainingCapacity (b : ByteStream) :
    b.bufferSize + b.remainingCapacity = b.maximumcapacity := b.room

theorem eof_iff (b : ByteStream) : b.eof = true ↔ b.inputEnded = true ∧ b.que = [] := by
  have hc := b.count
  rw [eof, Bool.and_eq_true, beq_iff_eq, ← List.length_eq_zero_iff]
  exact and_congr_right fun _ => by omega

@[simp] theorem write_nil (b : ByteStream) : (b.write []).2 = b := by
  cases b
  simp [write]

/-- A write that fits is accepted whole. -/
theorem write_que_of_le {b : ByteStream} {data : Bytes} (h : data.length ≤ b.remainingCapacity) :
    (b.write data).2.que = b.que ++ data := by
  rw [write_que, Nat.min_eq_right h, List.take_length]

theorem write_bytesWritten_of_le {b : ByteStream} {data : Bytes}
    (h : data.length ≤ b.remainingCapacity) :
    (b.write data).2.bytesWritten = b.bytesWritten + data.length := by
  rw [write_bytesWritten, Nat.min_eq_right h]

end ByteStream

end Sponge
