import Mathlib.Algebra.Order.Ring.Nat
import Sponge.Stream.ByteStream

/-!
# Buffers

A `Buffer` is a string that several packets may share and that loses bytes from the front: it keeps
the whole string and an offset. What it stands for is `str`, the string past the offset. A `BufferList`
is a packet in pieces, so that a header can be put in front of a payload without copying it.

## The model

The string is released when all of it has been discarded, and the offset stays as it is: `storage` is
an option. That the offset lies inside the string is a field, so `str` never starts past the end.
A function that may throw returns an `Except`.

## What is proved

* `Buffer.removePrefix_ok` — as many bytes as there are can be discarded, and no other byte is lost.
* `BufferList.toBuffer_str` — a list of at most one buffer is that buffer.
-/

namespace Sponge

/-- The exceptions of the standard library that the code throws, with their texts. -/
inductive Exception where
  /-- `std::out_of_range`. -/
  | outOfRange (what : String)
  /-- `std::runtime_error`. -/
  | runtimeError (what : String)
  deriving DecidableEq

/-- `std::string::resize`: cut, or filled up with zeros. -/
def resize (s : Bytes) (n : ℕ) : Bytes := s.take n ++ List.replicate (n - s.length) 0

theorem resize_of_le {s : Bytes} {n : ℕ} (h : s.length ≤ n) :
    resize s n = s ++ List.replicate (n - s.length) 0 := by
  rw [resize, List.take_of_length_le h]

/-- A read-only string that can discard bytes from the front. -/
structure Buffer where
  /-- The string, until all of it has been discarded. -/
  storage : Option Bytes
  /-- How many bytes have been discarded. -/
  startingOffset : ℕ
  /-- The offset lies inside the string. -/
  bounded : ∀ s ∈ storage, startingOffset ≤ s.length
  deriving DecidableEq

namespace Buffer

/-- A default-constructed buffer. -/
def empty : Buffer where
  storage := none
  startingOffset := 0
  bounded := by simp

/-- A buffer that takes ownership of a string. -/
def ofString (str : Bytes) : Buffer where
  storage := some str
  startingOffset := 0
  bounded := by simp

/-- `str`: the bytes that have not been discarded. -/
def str (b : Buffer) : Bytes :=
  match b.storage with
  | none => []
  | some s => s.drop b.startingOffset

/-- `at`: the byte at location `n`. -/
def byteAt (b : Buffer) (n : ℕ) : Except Exception UInt8 :=
  match b.str[n]? with
  | some byte => .ok byte
  | none => .error (.outOfRange "basic_string_view::at")

/-- `size`. -/
def size (b : Buffer) : ℕ := b.str.length

/-- `remove_prefix`: discard the first `n` bytes. -/
def removePrefix (b : Buffer) (n : ℕ) : Except Exception Buffer :=
  if h : n > b.str.length then .error (.outOfRange "Buffer::remove_prefix")
  else .ok
    { -- a string of which nothing is left is released
      storage := b.storage.filter fun s => b.startingOffset + n ≠ s.length
      startingOffset := b.startingOffset + n
      bounded := by
        intro s hs
        obtain ⟨hs, -⟩ := Option.mem_filter_iff.mp hs
        have hle := b.bounded s hs
        have hstr : b.str = s.drop b.startingOffset := by rw [str, Option.mem_def.mp hs]
        rw [hstr, List.length_drop] at h
        omega }

@[simp] theorem str_ofString (s : Bytes) : (ofString s).str = s := List.drop_zero

theorem byteAt_eq (b : Buffer) {n : ℕ} (h : n < b.str.length) : b.byteAt n = .ok b.str[n] := by
  rw [byteAt, List.getElem?_eq_getElem h]

/-- **As many bytes as there are can be discarded.** -/
theorem removePrefix_ok (b : Buffer) {n : ℕ} (h : n ≤ b.str.length) :
    ∃ b', b.removePrefix n = .ok b' ∧ b'.str = b.str.drop n := by
  rw [removePrefix, dif_neg (Nat.not_lt.mpr h)]
  refine ⟨_, rfl, ?_⟩
  obtain ⟨storage, offset, hbounded⟩ := b
  cases storage with
  | none => exact List.drop_nil.symm
  | some s =>
    by_cases hall : offset + n = s.length
    · simp [str, Option.filter, hall]
    · simp [str, Option.filter, hall]

end Buffer

/-- A string in pieces. -/
structure BufferList where
  /-- The pieces. -/
  buffers : List Buffer := []
  deriving DecidableEq

namespace BufferList

/-- A list of one buffer. -/
def ofBuffer (buffer : Buffer) : BufferList := ⟨[buffer]⟩

/-- A list of one string. -/
def ofString (str : Bytes) : BufferList := ofBuffer (Buffer.ofString str)

/-- `append`. -/
def append (l other : BufferList) : BufferList := ⟨l.buffers ++ other.buffers⟩

/-- `operator Buffer`: only a list in one piece is a buffer. -/
def toBuffer (l : BufferList) : Except Exception Buffer :=
  match l.buffers with
  | [] => .ok Buffer.empty
  | [b] => .ok b
  | _ => .error (.runtimeError
      "BufferList: please use concatenate() to combine a multi-Buffer BufferList into one Buffer")

/-- `concatenate`. -/
def concatenate (l : BufferList) : Bytes := l.buffers.flatMap Buffer.str

/-- `size`. -/
def size (l : BufferList) : ℕ := (l.buffers.map Buffer.size).sum

@[simp] theorem concatenate_nil : (⟨[]⟩ : BufferList).concatenate = [] := rfl

@[simp] theorem concatenate_ofString (s : Bytes) : (ofString s).concatenate = s := by
  simp [concatenate, ofString, ofBuffer]

@[simp] theorem concatenate_ofBuffer (b : Buffer) : (ofBuffer b).concatenate = b.str := by
  simp [concatenate, ofBuffer]

@[simp] theorem concatenate_append (l other : BufferList) :
    (l.append other).concatenate = l.concatenate ++ other.concatenate := by
  simp [concatenate, append]

theorem size_eq (l : BufferList) : l.size = l.concatenate.length := by
  rw [size, concatenate, List.length_flatMap]
  rfl

/-- **A list of at most one buffer is that buffer.** -/
theorem toBuffer_str {l : BufferList} (h : l.buffers.length ≤ 1) :
    ∃ b, l.toBuffer = .ok b ∧ b.str = l.concatenate := by
  obtain ⟨buffers⟩ := l
  cases buffers with
  | nil => exact ⟨Buffer.empty, rfl, rfl⟩
  | cons b rest =>
    cases rest with
    | nil => exact ⟨b, rfl, (concatenate_ofBuffer b).symm⟩
    | cons b' rest =>
      rw [List.length_cons, List.length_cons] at h
      omega

end BufferList

end Sponge
