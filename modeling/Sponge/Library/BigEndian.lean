import Mathlib.Algebra.Order.Ring.Nat
import Mathlib.Tactic.Common
import Mathlib.Tactic.Ring

/-!
# Big-endian numbers

A number written in bytes, the most significant first: what `decode` reads, and the `len` bytes that
`encode` writes.

## What is proved

* `decode_encode` — a number that fits in `len` bytes is read back.
* `encode_decode` — bytes that are read are written back.
-/

namespace Sponge.BigEndian

/-- The number that bytes denote. -/
def decode (l : List UInt8) : ℕ := l.foldl (fun n b => n * 256 + b.toNat) 0

/-- The last `len` bytes of a number. -/
def encode : ℕ → ℕ → List UInt8
  | 0, _ => []
  | len + 1, n => UInt8.ofNat (n / 256 ^ len) :: encode len n

@[simp] theorem decode_nil : decode [] = 0 := rfl

theorem decode_append_singleton (l : List UInt8) (b : UInt8) :
    decode (l ++ [b]) = decode l * 256 + b.toNat := by
  simp only [decode, List.foldl_append, List.foldl_cons, List.foldl_nil]

theorem foldl_decode (l : List UInt8) (n : ℕ) :
    l.foldl (fun n b => n * 256 + b.toNat) n = n * 256 ^ l.length + decode l := by
  induction l generalizing n with
  | nil => simp
  | cons b l ih =>
    rw [decode, List.foldl_cons, List.foldl_cons, ih, ih, List.length_cons, pow_succ]
    ring

theorem decode_cons (b : UInt8) (l : List UInt8) : decode (b :: l) = b.toNat * 256 ^ l.length + decode l := by
  rw [decode, List.foldl_cons, foldl_decode, Nat.zero_mul, Nat.zero_add]

/-- What `n` bytes denote is less than `256 ^ n`. -/
theorem decode_lt (l : List UInt8) : decode l < 256 ^ l.length := by
  induction l with
  | nil => simp
  | cons b l ih =>
    have hb := b.toNat_lt
    rw [decode_cons, List.length_cons, pow_succ]
    have hle : (b.toNat + 1) * 256 ^ l.length ≤ 256 * 256 ^ l.length :=
      Nat.mul_le_mul_right _ (by omega)
    rw [Nat.add_mul] at hle
    omega

@[simp] theorem length_encode (len n : ℕ) : (encode len n).length = len := by
  induction len with
  | zero => rfl
  | succ len ih => rw [encode, List.length_cons, ih]

/-- Only the last `len` bytes count. -/
theorem decode_encode_mod (len n : ℕ) : decode (encode len n) = n % 256 ^ len := by
  induction len with
  | zero => rw [encode, decode_nil, pow_zero, Nat.mod_one]
  | succ len ih =>
    rw [encode, decode_cons, length_encode, ih, UInt8.toNat_ofNat', pow_succ 256 len, Nat.mod_mul (a := 256 ^ len)]
    ring

/-- **A number that fits is read back.** -/
theorem decode_encode {len n : ℕ} (h : n < 256 ^ len) : decode (encode len n) = n := by
  rw [decode_encode_mod, Nat.mod_eq_of_lt h]

/-- Only the last `len` bytes are written. -/
theorem encode_add_mul (len n k : ℕ) : encode len (k * 256 ^ len + n) = encode len n := by
  induction len generalizing k with
  | zero => rfl
  | succ len ih =>
    have hhigh : (k * 256 ^ (len + 1) + n) / 256 ^ len = k * 256 + n / 256 ^ len := by
      rw [pow_succ, show k * (256 ^ len * 256) + n = n + (k * 256) * 256 ^ len by ring,
        Nat.add_mul_div_right _ _ (Nat.pow_pos (by decide)), Nat.add_comm]
    have hlow : encode len (k * 256 ^ (len + 1) + n) = encode len n := by
      rw [pow_succ, show k * (256 ^ len * 256) = (k * 256) * 256 ^ len by ring]
      exact ih (k * 256)
    rw [encode, encode, hhigh, hlow]
    congr 1
    apply UInt8.toNat_inj.mp
    rw [UInt8.toNat_ofNat', UInt8.toNat_ofNat']
    omega

/-- **Bytes that are read are written back.** -/
theorem encode_decode (l : List UInt8) : encode l.length (decode l) = l := by
  induction l with
  | nil => rfl
  | cons b l ih =>
    have hlt := decode_lt l
    have hhigh : (b.toNat * 256 ^ l.length + decode l) / 256 ^ l.length = b.toNat := by
      rw [Nat.add_comm, Nat.add_mul_div_right _ _ (Nat.pow_pos (by decide)), Nat.div_eq_of_lt hlt,
        Nat.zero_add]
    rw [List.length_cons, encode, decode_cons, hhigh, UInt8.ofNat_toNat, encode_add_mul, ih]

end Sponge.BigEndian
