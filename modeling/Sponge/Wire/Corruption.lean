import Sponge.Wire.Segments

/-!
# Corrupted segments

The checksum of a segment cannot tell which bytes have been changed, and many changes cancel out. A change
of one byte does not: it moves the sum by less than `0xffff`, so the sum is not a multiple of `0xffff` any
more. In particular a bit that is flipped is noticed.

## What is proved

* `sum_words_modify` — what a byte contributes to the sum.
* `onesSum_modify` — a change of one byte is noticed.
* `single_bit_caught` — so a segment with one bit flipped is refused.
-/

namespace Sponge

open OnesComplement

/-- The weight of the byte at a position: the first byte of a word is the high one. -/
def weight (i : ℕ) : ℕ := if i % 2 = 0 then 256 else 1

theorem weight_zero : weight 0 = 256 := rfl

theorem weight_one : weight 1 = 1 := rfl

theorem weight_add_two (i : ℕ) : weight (i + 2) = weight i := by
  rw [weight, weight, Nat.add_mod_right]

/-- **What a byte contributes to the sum.** -/
theorem sum_words_modify (f : UInt8 → UInt8) (b : Bytes) {i : ℕ} (hi : i < b.length) :
    (words (b.modify i f)).sum + weight i * b[i].toNat = (words b).sum + weight i * (f b[i]).toNat := by
  -- two bytes at a time, as the words are
  fun_induction words b generalizing i with
  | case1 => exact absurd hi (Nat.not_lt_zero i)
  | case2 x =>
    obtain rfl : i = 0 := Nat.lt_one_iff.mp hi
    simp only [List.modify_zero_cons, words, List.sum_singleton, weight_zero, List.getElem_cons_zero]
    omega
  | case3 x y l ih =>
    rcases i with _ | _ | i
    · simp only [List.modify_zero_cons, words, List.sum_cons, weight_zero, List.getElem_cons_zero]
      omega
    · simp only [Nat.zero_add, List.modify_succ_cons, List.modify_zero_cons, words, List.sum_cons, weight_one,
        List.getElem_cons_succ, List.getElem_cons_zero]
      omega
    · have hl : i < l.length := by simpa using hi
      have hrest := ih hl
      simp only [List.modify_succ_cons, words, List.sum_cons, List.getElem_cons_succ, weight_add_two]
      omega

/-- **A change of one byte is noticed.** It moves the sum by at least `1` and by less than `0xffff`. -/
theorem onesSum_modify {c : UInt32} {f : UInt8 → UInt8} {b : Bytes} {i : ℕ} (hi : i < b.length)
    (hchange : f b[i] ≠ b[i]) (h : onesSum c b = 0xffff) : onesSum c (b.modify i f) ≠ 0xffff := by
  intro h'
  rw [onesSum_eq] at h h'
  obtain ⟨-, k, hk⟩ := (reduce_eq_top_iff (by decide)).mp h
  obtain ⟨-, k', hk'⟩ := (reduce_eq_top_iff (by decide)).mp h'
  have hsum := sum_words_modify f b hi
  have hne : (f b[i]).toNat ≠ b[i].toNat := fun heq => hchange (UInt8.toNat_inj.mp heq)
  have hold := (b[i]).toNat_lt
  have hnew := (f b[i]).toNat_lt
  unfold weight at hsum
  split at hsum
  · omega
  · omega

/-- The bytes with bit `j` of byte `i` flipped. -/
def flipBit (b : Bytes) (i : ℕ) (j : Fin 8) : Bytes := b.modify i (· ^^^ UInt8.ofNat (2 ^ j.val))

theorem xor_bit_ne (x : UInt8) (j : Fin 8) : x ^^^ UInt8.ofNat (2 ^ j.val) ≠ x := by
  have hbit : ∀ j : Fin 8, UInt8.ofNat (2 ^ j.val) ≠ 0 := by decide
  intro h
  refine hbit j ?_
  calc UInt8.ofNat (2 ^ j.val) = x ^^^ (x ^^^ UInt8.ofNat (2 ^ j.val)) := by
        rw [← UInt8.xor_assoc, UInt8.xor_self, UInt8.zero_xor]
    _ = 0 := by rw [h, UInt8.xor_self]

namespace TCPSegment

/-- **A segment with one bit flipped is refused.** If a segment is not refused for its checksum, it is with
any one bit flipped and the same number from the layer below. -/
theorem single_bit_caught (seg seg₀ : TCPSegment) (buffer buffer' : Buffer) (c : UInt32)
    (hlen : buffer.size ≤ 65535) (hc : c.toNat < 2 ^ 20) {r : ParseResult} {seg' : TCPSegment}
    (hparse : seg.parse buffer c = .ok (r, seg')) (hr : r ≠ .badChecksum) {i : ℕ} (hi : i < buffer.size)
    (j : Fin 8) (hflip : buffer'.str = flipBit buffer.str i j) :
    seg₀.parse buffer' c = .ok (.badChecksum, seg₀) := by
  have hlen' : buffer'.str.length ≤ 65535 := by
    rw [hflip, flipBit, List.length_modify]
    exact hlen
  have hones : onesSum c buffer.str = 0xffff := by
    by_contra hbad
    rw [seg.parse_of_badChecksum (sum_words_lt hlen hc) hbad, Except.ok.injEq, Prod.mk.injEq] at hparse
    exact hr hparse.1.symm
  refine seg₀.parse_of_badChecksum (sum_words_lt hlen' hc) ?_
  rw [hflip]
  exact onesSum_modify hi (xor_bit_ne _ j) hones

/-- A bit of a port is flipped in a segment of zeros but for its checksum. -/
theorem single_bit_caught_port :
    TCPSegment.parse {} (Buffer.ofString (flipBit offsetZero 3 5)) 0 = .ok (.badChecksum, {}) := by
  have hparse : TCPSegment.parse {} (Buffer.ofString offsetZero) 0 =
      .ok (.noError, { header := { doff := 0, cksum := 0xffff }, payload := [] }) := by decide +kernel
  exact single_bit_caught {} {} (Buffer.ofString offsetZero) _ 0 (by decide) (by decide) hparse (by decide)
    (i := 3) (by decide) 5 (Buffer.str_ofString _)

end TCPSegment

end Sponge
