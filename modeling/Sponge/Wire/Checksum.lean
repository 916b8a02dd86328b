import Sponge.Library.BigEndian
import Sponge.Library.OnesComplement
import Sponge.Stream.ByteStream

/-!
# The Internet checksum

The checksum of a packet is the complement of the one's-complement sum of its 16-bit words, the last
of them padded with a zero byte if need be. `InternetChecksum` takes the bytes in any number of pieces:
it adds them up in 32 bits, knows whether the next byte is the high or the low one of its word, and
folds the carries back at the end.

## What is proved

* `InternetChecksum.value_eq` — what the checksum of a piece of data is.
* `InternetChecksum.value_of_pieces` — it is the complement of the one's-complement sum of the words,
  wherever the data is cut.
* `value_eq_zero_iff` — it is `0` exactly if the words add up to `0xffff`.
* `InternetChecksum.onesSum_value` — with the checksum put in, the words add up to `0xffff`.
* `InternetChecksum.value_of_verifies` — and a checksum that verifies is the one that is put in.
-/

namespace Sponge

open BigEndian OnesComplement

/-- The internet checksum algorithm. -/
structure InternetChecksum where
  /-- The sum so far. -/
  sum : UInt32 := 0
  /-- The next byte is the low one of its word. -/
  parity : Bool := false

/-- One round of the fold of the carries. -/
theorem toNat_carry (ret : UInt32) :
    ((ret >>> 16) + (ret &&& 0xffff)).toNat = ret.toNat / 65536 + ret.toNat % 65536 := by
  have hlt := ret.toNat_lt
  have hhigh : (ret >>> 16).toNat = ret.toNat / 65536 := by
    rw [UInt32.toNat_shiftRight, Nat.shiftRight_eq_div_pow]
    rfl
  have hlow : (ret &&& 0xffff).toNat = ret.toNat % 65536 := by
    rw [UInt32.toNat_and]
    exact Nat.and_two_pow_sub_one_eq_mod _ 16
  rw [UInt32.toNat_add, hhigh, hlow]
  omega

namespace InternetChecksum

/-- A round of the loop of `add`. -/
def addByte (c : InternetChecksum) (byte : UInt8) : InternetChecksum :=
  let val : UInt16 := byte.toUInt16
  let val := if !c.parity then val <<< 8 else val
  { sum := c.sum + val.toUInt32, parity := !c.parity }

/-- `add`. -/
def add (c : InternetChecksum) (data : Bytes) : InternetChecksum := data.foldl addByte c

/-- The loop of `value`. -/
def fold (ret : UInt32) : UInt32 := if ret > 0xffff then fold ((ret >>> 16) + (ret &&& 0xffff)) else ret
termination_by ret.toNat
decreasing_by
  have hlt : 65535 < ret.toNat := by assumption
  rw [toNat_carry]
  omega

/-- `value`. -/
def value (c : InternetChecksum) : UInt16 := (~~~(fold c.sum)).toUInt16

end InternetChecksum

/-! ### Words -/

/-- The big-endian 16-bit words of a string; a last odd byte is followed by a zero. -/
def words : Bytes → List ℕ
  | [] => []
  | [x] => [x.toNat * 256]
  | x :: y :: l => (x.toNat * 256 + y.toNat) :: words l

theorem words_le (data : Bytes) : ∀ x ∈ words data, x ≤ 65535 := by
  fun_induction words data with
  | case1 => simp
  | case2 x =>
    have hx := x.toNat_lt
    simp only [List.mem_singleton, forall_eq]
    omega
  | case3 x y l ih =>
    have hx := x.toNat_lt
    have hy := y.toNat_lt
    simp only [List.mem_cons, forall_eq_or_imp]
    exact ⟨by omega, ih⟩

/-- `n` bytes are at most `(n + 1) / 2` words. -/
theorem sum_words_le (data : Bytes) : (words data).sum ≤ 65535 * ((data.length + 1) / 2) := by
  fun_induction words data with
  | case1 => simp
  | case2 x =>
    have hx := x.toNat_lt
    simp only [List.sum_singleton, List.length_singleton]
    omega
  | case3 x y l ih =>
    have hx := x.toNat_lt
    have hy := y.toNat_lt
    simp only [List.sum_cons, List.length_cons]
    omega

/-- The words of a string that is cut between two words. -/
theorem words_append {a : Bytes} (h : a.length % 2 = 0) (b : Bytes) : words (a ++ b) = words a ++ words b := by
  fun_induction words a with
  | case1 => rfl
  | case2 x => simp at h
  | case3 x y l ih =>
    have hl : l.length % 2 = 0 := by
      simp only [List.length_cons] at h
      omega
    rw [List.cons_append, List.cons_append, words, ih hl, List.cons_append]

/-! ### The checksum -/

namespace InternetChecksum

/-- What a byte adds. -/
theorem toNat_addByte (c : InternetChecksum) (byte : UInt8) :
    (c.addByte byte).sum.toNat = (c.sum.toNat + if c.parity then byte.toNat else byte.toNat * 256) % 2 ^ 32 := by
  have hbyte := byte.toNat_lt
  have hhigh : (byte.toUInt16 <<< 8).toNat = byte.toNat * 256 := by
    rw [UInt16.toNat_shiftLeft, UInt8.toNat_toUInt16, Nat.shiftLeft_eq]
    show byte.toNat * 256 % 65536 = _
    omega
  cases hparity : c.parity with
  | true => simp [addByte, hparity, UInt32.toNat_add]
  | false =>
    have hsum : (c.addByte byte).sum = c.sum + (byte.toUInt16 <<< 8).toUInt32 := by
      simp [addByte, hparity]
    rw [hsum, UInt32.toNat_add, UInt16.toNat_toUInt32, hhigh]
    rfl

@[simp] theorem parity_addByte (c : InternetChecksum) (byte : UInt8) : (c.addByte byte).parity = !c.parity := rfl

/-- **The sum of a string that begins with a high byte.** -/
theorem toNat_add (data : Bytes) (c : InternetChecksum) (h : c.parity = false) :
    (c.add data).sum.toNat = (c.sum.toNat + (words data).sum) % 2 ^ 32 := by
  fun_induction words data generalizing c with
  | case1 => exact (Nat.mod_eq_of_lt c.sum.toNat_lt).symm
  | case2 x =>
    rw [add, List.foldl_cons, List.foldl_nil, toNat_addByte, h, List.sum_singleton]
    rfl
  | case3 x y l ih =>
    have hx := c.toNat_addByte x
    have hy := (c.addByte x).toNat_addByte y
    rw [h] at hx
    rw [parity_addByte, h] at hy
    have hnext : ((c.addByte x).addByte y).parity = false := by
      rw [parity_addByte, parity_addByte, h]
      rfl
    have hl := ih ((c.addByte x).addByte y) hnext
    rw [add, List.foldl_cons, List.foldl_cons, ← add, hl, hy, hx, List.sum_cons]
    simp only [Bool.false_eq_true, if_false, Bool.not_false, if_true]
    omega

/-- Two pieces are added as one. -/
theorem add_append (c : InternetChecksum) (a b : Bytes) : c.add (a ++ b) = (c.add a).add b := by
  rw [add, add, add, List.foldl_append]

/-- So are any number of pieces. -/
theorem foldl_add (c : InternetChecksum) (pieces : List Bytes) : pieces.foldl add c = c.add pieces.flatten := by
  rw [add, List.foldl_flatten]
  rfl

/-- The fold ends, and brings the sum to 16 bits. -/
theorem toNat_fold (ret : UInt32) : (fold ret).toNat = reduce 65535 ret.toNat := by
  fun_induction fold ret with
  | case1 ret h ih =>
    rw [ih, toNat_carry]
    exact reduce_fold (m := 65535) (by decide) ret.toNat 0
  | case2 ret h =>
    have hle : ret.toNat ≤ 65535 := Nat.not_lt.mp h
    exact (reduce_of_le hle).symm

/-- **The value of a checksum.** -/
theorem value_eq (c : InternetChecksum) : c.value.toNat = 65535 - reduce 65535 c.sum.toNat := by
  have hle := reduce_le (m := 65535) (by decide) c.sum.toNat
  have hfold := toNat_fold c.sum
  rw [value, UInt32.toNat_toUInt16, UInt32.toNat_not, hfold]
  show (4294967296 - 1 - reduce 65535 c.sum.toNat) % 65536 = _
  omega

/-- **The value is `0` exactly if the words add up to `0xffff`.** -/
theorem value_eq_zero_iff (c : InternetChecksum) : c.value = 0 ↔ reduce 65535 c.sum.toNat = 65535 := by
  have hle := reduce_le (m := 65535) (by decide) c.sum.toNat
  have hvalue := c.value_eq
  rw [← UInt16.toNat_inj, hvalue]
  show 65535 - reduce 65535 c.sum.toNat = 0 ↔ _
  omega

end InternetChecksum

/-- The one's-complement sum of a 32-bit number and the words of a string. -/
def onesSum (c : UInt32) (data : Bytes) : ℕ :=
  carrySum 0xffff (c.toNat / 65536 :: c.toNat % 65536 :: words data)

theorem onesSum_eq (c : UInt32) (data : Bytes) :
    onesSum c data = reduce 65535 (c.toNat + (words data).sum) := by
  have hc := c.toNat_lt
  have hle : ∀ x ∈ c.toNat / 65536 :: c.toNat % 65536 :: words data, x ≤ 65535 := by
    simp only [List.mem_cons, forall_eq_or_imp]
    exact ⟨by omega, by omega, words_le data⟩
  rw [onesSum, carrySum_eq (by decide) hle, List.sum_cons, List.sum_cons, ← Nat.add_assoc]
  exact reduce_fold (m := 65535) (by decide) _ _

/-- **Data whose sum stays below `2^32` verifies exactly if its words add up to `0xffff`.** -/
theorem InternetChecksum.value_add_eq_zero_iff {c : UInt32} {data : Bytes}
    (h : c.toNat + (words data).sum < 2 ^ 32) :
    ((⟨c, false⟩ : InternetChecksum).add data).value = 0 ↔ onesSum c data = 0xffff := by
  rw [value_eq_zero_iff, toNat_add data _ rfl, Nat.mod_eq_of_lt h, onesSum_eq]

/-- The words of a buffer of at most `65535` bytes and a number below `2^20` do not overflow. -/
theorem sum_words_lt {c : UInt32} {data : Bytes} (hlen : data.length ≤ 65535) (hc : c.toNat < 2 ^ 20) :
    c.toNat + (words data).sum < 2 ^ 32 := by
  have hsum := sum_words_le data
  omega

namespace InternetChecksum

/-- Up to `65535` bytes are added up without overflow. -/
theorem toNat_add_of_le {initial : UInt32} (hinitial : initial.toNat < 2 ^ 20) {data : Bytes}
    (hlen : data.length ≤ 65535) :
    ((⟨initial, false⟩ : InternetChecksum).add data).sum.toNat = initial.toNat + (words data).sum := by
  rw [toNat_add data _ rfl]
  exact Nat.mod_eq_of_lt (sum_words_lt hlen hinitial)

/-- **The checksum does not depend on how the data is cut.** For an initial sum below `2^20` and at most
`65535` bytes in any number of pieces, of even or odd length, the value is the complement of the
one's-complement sum of the initial sum and the words of the whole string. After every byte of every piece
the accumulator holds the sum itself: it never overflows. -/
theorem value_of_pieces (initial : UInt32) (pieces : List Bytes) (hinitial : initial.toNat < 2 ^ 20)
    (hlen : pieces.flatten.length ≤ 65535) :
    (pieces.foldl add ⟨initial, false⟩).value = ~~~(UInt16.ofNat (onesSum initial pieces.flatten)) ∧
      ∀ before piece rest after, pieces = before ++ (piece ++ rest) :: after →
        ((before.foldl add ⟨initial, false⟩).add piece).sum.toNat =
          initial.toNat + (words (before.flatten ++ piece)).sum := by
  constructor
  · have hle := reduce_le (m := 65535) (by decide) (initial.toNat + (words pieces.flatten).sum)
    apply UInt16.toNat_inj.mp
    rw [foldl_add, value_eq, toNat_add_of_le hinitial hlen, onesSum_eq, UInt16.toNat_not,
      UInt16.toNat_ofNat_of_lt' (Nat.lt_succ_of_le hle)]
    rfl
  · rintro before piece rest after rfl
    have hpart : (before.flatten ++ piece).length ≤ 65535 := by
      simp only [List.flatten_append, List.flatten_cons, List.length_append] at hlen ⊢
      omega
    rw [foldl_add, ← add_append, toNat_add_of_le hinitial hpart]

/-- Three bytes, cut after the first one and after the second. -/
theorem value_of_pieces_odd :
    ((⟨0xffff, false⟩ : InternetChecksum).add [0x12] |>.add [0x34] |>.add [0x56]).value = 0x97cb := by
  have hvalue := (value_of_pieces 0xffff [[0x12], [0x34], [0x56]] (by decide) (by decide)).1
  rw [List.foldl_cons, List.foldl_cons, List.foldl_cons, List.foldl_nil] at hvalue
  rw [hvalue]
  decide

end InternetChecksum

/-- A word is added up as it is. -/
theorem sum_words_encode {a : Bytes} (ha : a.length % 2 = 0) {v : ℕ} (hv : v < 65536) (b : Bytes) :
    (words (a ++ encode 2 v ++ b)).sum = (words a).sum + v + (words b).sum := by
  have hlen : (a ++ encode 2 v).length % 2 = 0 := by
    rw [List.length_append, length_encode]
    omega
  have hword : words (encode 2 v) = [v] := by
    have hdecode : decode (encode 2 v) = v := decode_encode hv
    rw [encode, encode, encode, decode_cons, decode_cons, decode_nil] at hdecode
    rw [encode, encode, encode, words, words]
    simpa using hdecode
  rw [words_append hlen, words_append ha, hword, List.sum_append, List.sum_append, List.sum_singleton]

namespace InternetChecksum

variable {c : UInt32} {a b : Bytes} (ha : a.length % 2 = 0)
include ha

/-- **With the checksum put in, the words add up to `0xffff`.** The checksum is taken with zeros in
its place. -/
theorem onesSum_value (h : c.toNat + (words (a ++ encode 2 0 ++ b)).sum < 2 ^ 32) :
    onesSum c (a ++ encode 2 ((⟨c, false⟩ : InternetChecksum).add (a ++ encode 2 0 ++ b)).value.toNat ++ b) =
      0xffff := by
  have hvalue := value_eq ((⟨c, false⟩ : InternetChecksum).add (a ++ encode 2 0 ++ b))
  rw [toNat_add _ _ rfl, Nat.mod_eq_of_lt h, sum_words_encode ha (by decide)] at hvalue
  rw [onesSum_eq, sum_words_encode ha (UInt16.toNat_lt _), hvalue]
  refine Eq.trans ?_ (reduce_complement (m := 65535) (by decide) (c.toNat + ((words a).sum + 0 + (words b).sum)))
  congr 1
  omega

/-- **A checksum that verifies is the one that is put in**, but for the two ways to write nothing. The sum
may overflow. -/
theorem value_of_verifies {v : ℕ} (hv : v < 65536)
    (h : ((⟨c, false⟩ : InternetChecksum).add (a ++ encode 2 v ++ b)).value = 0) :
    ((⟨c, false⟩ : InternetChecksum).add (a ++ encode 2 0 ++ b)).value.toNat = v ∨
      v = 65535 ∧ ((⟨c, false⟩ : InternetChecksum).add (a ++ encode 2 0 ++ b)).value.toNat = 0 := by
  rw [value_eq_zero_iff, toNat_add _ _ rfl, sum_words_encode ha hv] at h
  have hle : 65535 ≤ (c.toNat + ((words a).sum + v + (words b).sum)) % 2 ^ 32 := by
    obtain ⟨hpos, hdvd⟩ := (reduce_eq_top_iff (by decide)).mp h
    exact Nat.le_of_dvd hpos hdvd
  have hsub := complement_sub (m := 65535) (by decide) (Nat.le_of_lt_succ hv) h
  have hrest : (c.toNat + ((words a).sum + v + (words b).sum)) % 2 ^ 32 - v =
      (c.toNat + ((words a).sum + 0 + (words b).sum)) % 2 ^ 32 := by omega
  rw [value_eq, toNat_add _ _ rfl, sum_words_encode ha (by decide), ← hrest]
  exact hsub

end InternetChecksum

end Sponge
