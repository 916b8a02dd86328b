import Mathlib.Tactic.Common
import Mathlib.Data.Nat.Notation
import Sponge.Library.Checked
import Sponge.Stream.ByteStream

/-!
# Sequence numbers and segments

A position in a TCP stream is an absolute sequence number, a 64-bit integer that starts
at `0` for the SYN. What travels in a header is a 32-bit integer relative to a random
initial sequence number. `wrap` goes from the first to the second, and `unwrap` back,
to the position nearest to a checkpoint. What two TCP endpoints exchange are segments,
with a header and a payload.

## What is proved

* `unwrap_wrap` — a position less than `2^31` away from the checkpoint is recovered.
* `le_unwrap_wrap` — a position before the checkpoint is never taken for an earlier one.
* `unwrap_nearest` — of the positions with a sequence number, `unwrap` finds the one nearest to the
  checkpoint, and of two the smaller.
-/

namespace Sponge

/-- A 32-bit integer relative to an arbitrary initial value. -/
structure WrappingInt32 where
  /-- The 32-bit integer. -/
  rawValue : UInt32
  deriving DecidableEq, Repr

namespace WrappingInt32

/-- `operator+`: the point `b` steps past `a`. -/
def add (a : WrappingInt32) (b : UInt32) : WrappingInt32 := ⟨a.rawValue + b⟩

/-- `operator-`, as the 32-bit pattern of the result: the steps from `b` to `a`. -/
def sub (a b : WrappingInt32) : UInt32 := a.rawValue - b.rawValue

end WrappingInt32

/-- `wrap`: an absolute sequence number as a wrapping integer. -/
def wrap (n : ℕ) (isn : WrappingInt32) : WrappingInt32 := isn.add (UInt32.ofNat (n % 2 ^ 32))

/-- `unwrap`: the absolute sequence number that wraps to `n`, near `checkpoint`. -/
def unwrap (n isn : WrappingInt32) (checkpoint : ℕ) : ℕ :=
  let distance := (n.sub (wrap checkpoint isn)).toNat
  if distance < 2 ^ 31 then checkpoint + distance
  else
    let tempAns := sub64 checkpoint (2 ^ 32 - distance)
    if tempAns > checkpoint then checkpoint + distance else tempAns

/-- The 32-bit distance between two positions. -/
theorem toNat_sub_wrap (x c : ℕ) (isn : WrappingInt32) :
    ((wrap x isn).sub (wrap c isn)).toNat = (x % 2 ^ 32 + 2 ^ 32 - c % 2 ^ 32) % 2 ^ 32 := by
  have hisn := isn.rawValue.toNat_lt
  simp only [wrap, WrappingInt32.sub, WrappingInt32.add, UInt32.toNat_sub, UInt32.toNat_add,
    UInt32.toNat_ofNat']
  omega

variable {x c : ℕ} (isn : WrappingInt32)

/-- **A position near the checkpoint is recovered.** -/
theorem unwrap_wrap (h1 : x < c + 2 ^ 31) (h2 : c ≤ x + 2 ^ 31) : unwrap (wrap x isn) isn c = x := by
  have hd := toNat_sub_wrap x c isn
  simp only [unwrap]
  rcases Nat.lt_or_ge x c with hx | hx
  · -- behind the checkpoint: the distance is counted the other way round
    have hdist : 2 ^ 32 - ((wrap x isn).sub (wrap c isn)).toNat = c - x := by omega
    rw [if_neg (by omega), hdist, sub64_of_le (by omega), if_neg (by omega)]
    omega
  · rw [if_pos (by omega)]
    omega

/-- A position behind the checkpoint is never taken for an earlier one. -/
theorem le_unwrap_wrap (h : x ≤ c) : x ≤ unwrap (wrap x isn) isn c := by
  have hd := toNat_sub_wrap x c isn
  simp only [unwrap]
  split_ifs with hlt hgt
  · omega
  · omega
  · rw [sub64_of_le (by omega)]
    omega

theorem wrap_succ (x : ℕ) : (wrap x isn).add 1 = wrap (x + 1) isn := by
  have h1 : UInt32.ofNat ((x + 1) % 2 ^ 32) = UInt32.ofNat (x % 2 ^ 32) + 1 := by
    apply UInt32.toNat_inj.mp
    simp only [UInt32.toNat_add, UInt32.toNat_ofNat', UInt32.toNat_one]
    omega
  simp only [wrap, WrappingInt32.add, h1, UInt32.add_assoc]

@[simp] theorem wrap_zero : wrap 0 isn = isn := by
  simp [wrap, WrappingInt32.add]

/-- Positions have the same sequence number exactly if they are a multiple of `2^32` apart. -/
theorem wrap_inj {y : ℕ} : wrap x isn = wrap y isn ↔ x % 2 ^ 32 = y % 2 ^ 32 := by
  constructor
  · intro h
    have hd := toNat_sub_wrap x y isn
    rw [h] at hd
    simp only [WrappingInt32.sub, UInt32.sub_self, UInt32.toNat_zero] at hd
    omega
  · intro h
    rw [wrap, h, wrap]

/-- Positions less than `2^32` apart have different sequence numbers. -/
theorem wrap_left_inj {y : ℕ} (hx : x < 2 ^ 32) (hy : y < 2 ^ 32) : wrap x isn = wrap y isn ↔ x = y := by
  rw [wrap_inj, Nat.mod_eq_of_lt hx, Nat.mod_eq_of_lt hy]

/-- Every sequence number is that of a position. -/
theorem exists_wrap (n : WrappingInt32) : ∃ x, wrap x isn = n := by
  obtain ⟨n⟩ := n
  refine ⟨(n - isn.rawValue).toNat, ?_⟩
  have hlt := (n - isn.rawValue).toNat_lt
  rw [wrap, Nat.mod_eq_of_lt hlt, UInt32.ofNat_toNat, WrappingInt32.add, UInt32.add_comm, UInt32.sub_add_cancel]

/-- Two streams with the same sequence number at the same position start at the same one. -/
theorem wrap_right_inj (x : ℕ) {i j : WrappingInt32} : wrap x i = wrap x j ↔ i = j := by
  simp only [wrap, WrappingInt32.add, WrappingInt32.mk.injEq]
  constructor
  · intro h
    cases i
    cases j
    simpa using h
  · rintro rfl
    rfl

/-! ### The nearest position -/

/-- The distance of a position from the checkpoint. -/
def distance (x checkpoint : ℕ) : ℕ := ((x : ℤ) - checkpoint).natAbs

/-- The position has the sequence number it was found for. -/
theorem wrap_unwrap (n : WrappingInt32) (c : ℕ) : wrap (unwrap n isn c) isn = n := by
  obtain ⟨x, rfl⟩ := exists_wrap isn n
  have hd := toNat_sub_wrap x c isn
  rw [wrap_inj]
  simp only [unwrap]
  split_ifs with hlt hgt
  · omega
  · omega
  · -- `2^32` divides `2^64`, so wrapping around below `0` does not show
    unfold sub64
    split_ifs <;> omega

/-- No 64-bit sum overflows, if the checkpoint is not among the last positions. -/
theorem unwrap_lt (n : WrappingInt32) (hc : c < 2 ^ 64 - 2 ^ 31) : unwrap n isn c < 2 ^ 64 := by
  have hd := (n.sub (wrap c isn)).toNat_lt
  simp only [unwrap]
  split_ifs with hlt hgt
  · omega
  · unfold sub64 at hgt
    split_ifs at hgt <;> omega
  · omega

/-- No position with the same sequence number is nearer to the checkpoint, and none that is as near is
smaller. -/
theorem unwrap_wrap_le {y : ℕ} (hc : c < 2 ^ 64) (hy : wrap y isn = wrap x isn) :
    distance (unwrap (wrap x isn) isn c) c ≤ distance y c ∧
      (distance (unwrap (wrap x isn) isn c) c = distance y c → unwrap (wrap x isn) isn c ≤ y) := by
  rw [wrap_inj] at hy
  have hd := toNat_sub_wrap x c isn
  simp only [unwrap, distance]
  split_ifs with hlt hgt
  · omega
  · -- the nearer position would be negative
    unfold sub64 at hgt
    split_ifs at hgt <;> omega
  · unfold sub64 at hgt ⊢
    split_ifs at hgt ⊢ <;> omega

/-- **`unwrap` is the nearest preimage of `wrap`.** It is a 64-bit position with the given sequence
number; no other is nearer to the checkpoint, and of two that are as near it is the smaller. So a
position less than `2^31` away from the checkpoint is recovered. -/
theorem unwrap_nearest (n isn : WrappingInt32) (checkpoint : ℕ) (hcheckpoint : checkpoint < 2 ^ 64 - 2 ^ 31) :
    unwrap n isn checkpoint < 2 ^ 64 ∧ wrap (unwrap n isn checkpoint) isn = n ∧
      (∀ x, wrap x isn = n → distance (unwrap n isn checkpoint) checkpoint ≤ distance x checkpoint ∧
        (distance (unwrap n isn checkpoint) checkpoint = distance x checkpoint →
          unwrap n isn checkpoint ≤ x)) ∧
      ∀ x, distance x checkpoint < 2 ^ 31 → unwrap (wrap x isn) isn checkpoint = x := by
  refine ⟨unwrap_lt isn n hcheckpoint, wrap_unwrap isn n checkpoint, ?_, ?_⟩
  · rintro x rfl
    exact unwrap_wrap_le isn (by omega) rfl
  · intro x hx
    unfold distance at hx
    exact unwrap_wrap isn (by omega) (by omega)

/-- Of the positions `0` and `2^32`, both `2^31` away from the checkpoint, the first is found. -/
theorem unwrap_nearest_tie :
    2 ^ 31 < 2 ^ 64 - 2 ^ 31 ∧ distance 0 (2 ^ 31) = distance (2 ^ 32) (2 ^ 31) ∧
      unwrap ⟨7⟩ ⟨7⟩ (2 ^ 31) ≤ 0 := by
  have htie := (unwrap_nearest ⟨7⟩ ⟨7⟩ (2 ^ 31) (by decide)).2.2.1 0 (by decide)
  exact ⟨by decide, by decide, htie.2 (by decide)⟩

/-! ### Segments -/

/-- The header of a TCP segment. -/
structure TCPHeader where
  /-- Source port. -/
  sport : UInt16 := 0
  /-- Destination port. -/
  dport : UInt16 := 0
  /-- Sequence number. -/
  seqno : WrappingInt32 := ⟨0⟩
  /-- Acknowledgment number. -/
  ackno : WrappingInt32 := ⟨0⟩
  /-- Data offset. -/
  doff : UInt8 := 5
  /-- Urgent flag. -/
  urg : Bool := false
  /-- The acknowledgment number is valid. -/
  ack : Bool := false
  /-- Push flag. -/
  psh : Bool := false
  /-- Reset the connection. -/
  rst : Bool := false
  /-- The beginning of the stream. -/
  syn : Bool := false
  /-- The end of the stream. -/
  fin : Bool := false
  /-- Window size. -/
  win : UInt16 := 0
  /-- Checksum. -/
  cksum : UInt16 := 0
  /-- Urgent pointer. -/
  uptr : UInt16 := 0
  deriving DecidableEq

/-- A TCP segment. -/
structure TCPSegment where
  /-- The header. -/
  header : TCPHeader := {}
  /-- The payload. -/
  payload : Bytes := []
  deriving DecidableEq

/-- `length_in_sequence_space`: SYN and FIN count for one byte each. -/
def TCPSegment.lengthInSequenceSpace (seg : TCPSegment) : ℕ :=
  seg.payload.length + (if seg.header.syn then 1 else 0) + (if seg.header.fin then 1 else 0)

end Sponge
