import Mathlib.Data.List.GetD
import Sponge.Library.BigEndian
import Sponge.Library.Readers
import Sponge.Library.Strings
import Sponge.Wire.Buffer

/-!
# Reading and writing integers

`NetParser` reads integers in network byte order from a buffer. When a request finds too few bytes it
records an error, and every later request sees the error and does nothing: a parser can ask for all
the fields of a header and look at the error once. `NetUnparser` writes integers to the end of a string.

## The model

A function that reads is a program with a `NetParser` for its state. `uint8_t`, `uint16_t` and
`uint32_t` are one template of the source: `parseInt len` is its body for a type of `len` bytes, and
the shifts and sums of the loop are truncated to it.

## What is proved

* `NetParser.reads_u8`, `reads_u16`, `reads_u32`, `reads_removePrefix` — a request takes its bytes from
  the front of the buffer and never throws.
* `NetUnparser.u8_eq`, `u16_eq`, `u32_eq` — the bytes of an integer are added to the string.
-/

namespace Sponge

open BigEndian

/-- The result of parsing a datagram or a segment. -/
inductive ParseResult where
  /-- Success. -/
  | noError
  /-- Bad checksum. -/
  | badChecksum
  /-- Not enough data to finish parsing. -/
  | packetTooShort
  /-- A version of IP other than 4. -/
  | wrongIPVersion
  /-- The header length is shorter than the minimum required. -/
  | headerTooShort
  /-- The packet is shorter than the header claims. -/
  | truncatedPacket
  /-- The packet uses unsupported features. -/
  | unsupported
  deriving DecidableEq

/-- A buffer that is being read. -/
structure NetParser where
  /-- What has not been read. -/
  buffer : Buffer
  /-- The result so far. -/
  getError : ParseResult := .noError

/-- A program that reads. -/
abbrev Parsing := StateT NetParser (Except Exception)

namespace NetParser

/-- `error`: has there been an error? -/
def error (p : NetParser) : Bool := p.getError != .noError

/-- `_check_size`: is there enough data for the next token? -/
def checkSize (size : ℕ) : Parsing Unit :=
  modify fun p => if size > p.buffer.size then { p with getError := .packetTooShort } else p

/-- The loop of `_parse_int`, for a type of `len` bytes. -/
def intAt (buffer : Buffer) (len : ℕ) : Except Exception ℕ :=
  (List.range len).foldlM
    (fun ret i => do
      let byte ← buffer.byteAt i
      return (ret * 256 % 256 ^ len + byte.toNat) % 256 ^ len) 0

/-- `_parse_int`, for a type of `len` bytes. -/
def parseInt (len : ℕ) : Parsing ℕ := do
  checkSize len
  let p ← get
  if p.error then
    return 0
  let ret ← intAt p.buffer len
  let buffer ← p.buffer.removePrefix len
  set { p with buffer }
  return ret

/-- `u32`. -/
def u32 : Parsing UInt32 := UInt32.ofNat <$> parseInt 4

/-- `u16`. -/
def u16 : Parsing UInt16 := UInt16.ofNat <$> parseInt 2

/-- `u8`. -/
def u8 : Parsing UInt8 := UInt8.ofNat <$> parseInt 1

/-- `remove_prefix`. -/
def removePrefix (n : ℕ) : Parsing Unit := do
  checkSize n
  let p ← get
  if p.error then
    return
  let buffer ← p.buffer.removePrefix n
  set { p with buffer }

/-! ### What a request reads -/

/-- What is left to read. -/
def rest (p : NetParser) : Bytes := p.buffer.str

/-- There has been an error. -/
def Failed (p : NetParser) : Prop := p.getError ≠ .noError

variable {p : NetParser} {n : ℕ}

theorem error_eq_true : p.error = true ↔ p.Failed := bne_iff_ne

theorem not_error (h : ¬ p.Failed) : ¬ p.error = true := by
  rw [error_eq_true]
  exact h

/-- The parser once it is noted whether there are `n` bytes. -/
def noted (p : NetParser) (n : ℕ) : NetParser :=
  if n > p.buffer.size then { p with getError := .packetTooShort } else p

theorem checkSize_eq (n : ℕ) (p : NetParser) : checkSize n p = .ok ((), p.noted n) := rfl

@[simp] theorem noted_buffer (p : NetParser) (n : ℕ) : (p.noted n).buffer = p.buffer := by
  unfold noted
  split <;> rfl

/-- Enough data: nothing is noted. -/
theorem noted_of_le (h : n ≤ p.rest.length) : p.noted n = p := if_neg (Nat.not_lt.mpr h)

theorem noted_of_lt (h : p.rest.length < n) : p.noted n = { p with getError := .packetTooShort } := if_pos h

/-- There is an error afterwards if there was one before, or there is too little data. -/
theorem noted_failed_iff : (p.noted n).Failed ↔ p.Failed ∨ p.rest.length < n := by
  unfold noted
  split
  next hlt => exact ⟨fun _ => Or.inr hlt, fun _ => by rintro ⟨⟩⟩
  next hle => exact ⟨Or.inl, fun h => h.resolve_right hle⟩

theorem checkSize_of_le (h : n ≤ p.rest.length) : checkSize n p = .ok ((), p) := by
  rw [checkSize_eq, noted_of_le h]

/-- The loop reads a big-endian integer. -/
theorem intAt_eq {buffer : Buffer} {len : ℕ} (h : len ≤ buffer.str.length) :
    intAt buffer len = .ok (decode (buffer.str.take len)) := by
  -- after `k` rounds it has read `k` bytes, and nothing has been truncated
  have hloop : ∀ k ≤ len, (List.range k).foldlM (fun ret i => do
      let byte ← buffer.byteAt i
      return (ret * 256 % 256 ^ len + byte.toNat) % 256 ^ len : ℕ → ℕ → Except Exception ℕ) 0 =
        .ok (decode (buffer.str.take k)) := by
    intro k
    induction k with
    | zero => intro _; rfl
    | succ k ih =>
      intro hk
      have hlt : k < buffer.str.length := by omega
      have htake : buffer.str.take (k + 1) = buffer.str.take k ++ [buffer.str[k]] :=
        List.take_succ_eq_append_getElem hlt
      have hfit : decode (buffer.str.take (k + 1)) < 256 ^ len := by
        refine lt_of_lt_of_le (decode_lt _) (Nat.pow_le_pow_right (by decide) ?_)
        exact (List.length_take_le _ _).trans hk
      rw [htake, decode_append_singleton] at hfit
      rw [List.range_succ, List.foldlM_append, ih (by omega), htake, decode_append_singleton]
      show (buffer.byteAt k >>= fun byte => _) >>= _ = _
      rw [buffer.byteAt_eq hlt]
      show Except.ok ((decode (buffer.str.take k) * 256 % 256 ^ len + buffer.str[k].toNat) % 256 ^ len) = _
      rw [Nat.mod_eq_of_lt (lt_of_le_of_lt (Nat.le_add_right _ _) hfit), Nat.mod_eq_of_lt hfit]
  exact hloop len (Nat.le_refl len)

/-- A request that fails reads `0` and only notes the error. -/
theorem parseInt_of_failed (h : (p.noted n).Failed) : parseInt n p = .ok (0, p.noted n) := by
  rw [parseInt, bind_ok (checkSize_eq n p), get_bind, if_pos (error_eq_true.mpr h)]
  rfl

theorem removePrefix_of_failed (h : (p.noted n).Failed) : removePrefix n p = .ok ((), p.noted n) := by
  rw [removePrefix, bind_ok (checkSize_eq n p), get_bind, if_pos (error_eq_true.mpr h)]
  rfl

/-- **An integer of `len` bytes.** -/
theorem reads_parseInt (len : ℕ) : Reads rest Failed (parseInt len) len decode where
  ok p hp hlen := by
    obtain ⟨buffer, hremove, hstr⟩ := p.buffer.removePrefix_ok hlen
    refine ⟨{ p with buffer }, ?_, hstr, hp⟩
    rw [parseInt, bind_ok (checkSize_of_le hlen), get_bind, if_neg (not_error hp), lift_bind_ok (intAt_eq hlen),
      lift_bind_ok hremove]
    rfl
  short p hp := ⟨0, p.noted len, parseInt_of_failed (noted_failed_iff.mpr hp), noted_failed_iff.mpr hp⟩

/-- `n` bytes are skipped. -/
theorem reads_removePrefix (n : ℕ) : Reads rest Failed (removePrefix n) n fun _ => () where
  ok p hp hlen := by
    obtain ⟨buffer, hremove, hstr⟩ := p.buffer.removePrefix_ok hlen
    refine ⟨{ p with buffer }, ?_, hstr, hp⟩
    rw [removePrefix, bind_ok (checkSize_of_le hlen), get_bind, if_neg (not_error hp), lift_bind_ok hremove]
    rfl
  short p hp := ⟨(), p.noted n, removePrefix_of_failed (noted_failed_iff.mpr hp), noted_failed_iff.mpr hp⟩

/-- A byte as `u8` reads it. -/
theorem ofNat_decode_singleton (x : UInt8) : UInt8.ofNat (decode [x]) = x := by
  rw [decode_cons, decode_nil, List.length_nil, pow_zero, Nat.mul_one, Nat.add_zero, UInt8.ofNat_toNat]

theorem byte_slice {b : Bytes} {i n : ℕ} (hi : i < n) (hn : n ≤ b.length) :
    UInt8.ofNat (decode (slice (b.take n) i 1)) = b.getD i 0 := by
  have hslice : slice (b.take n) i 1 = [b[i]] := by
    rw [slice, List.drop_take, List.take_take, List.drop_eq_getElem_cons (by omega), Nat.min_eq_left (by omega)]
    rfl
  rw [hslice, ofNat_decode_singleton, List.getD_eq_getElem _ _ (by omega)]

theorem reads_u8 : Reads rest Failed u8 1 fun l => UInt8.ofNat (decode l) :=
  (reads_parseInt 1).map UInt8.ofNat

theorem reads_u16 : Reads rest Failed u16 2 fun l => UInt16.ofNat (decode l) :=
  (reads_parseInt 2).map UInt16.ofNat

theorem reads_u32 : Reads rest Failed u32 4 fun l => UInt32.ofNat (decode l) :=
  (reads_parseInt 4).map UInt32.ofNat

end NetParser

namespace NetUnparser

/-- `_unparse_int`, for a type of `len` bytes. -/
def unparseInt (len : ℕ) (s : Bytes) (val : ℕ) : Bytes :=
  (List.range len).foldl (fun s i => s ++ [UInt8.ofNat (val >>> ((len - i - 1) * 8) &&& 0xff)]) s

/-- `u32`. -/
def u32 (s : Bytes) (val : UInt32) : Bytes := unparseInt 4 s val.toNat

/-- `u16`. -/
def u16 (s : Bytes) (val : UInt16) : Bytes := unparseInt 2 s val.toNat

/-- `u8`. -/
def u8 (s : Bytes) (val : UInt8) : Bytes := unparseInt 1 s val.toNat

/-- **The bytes of an integer are added to the string.** -/
theorem unparseInt_eq (len : ℕ) (s : Bytes) (val : ℕ) : unparseInt len s val = s ++ encode len val := by
  have hmap : ∀ len, (List.range len).map (fun i => UInt8.ofNat (val >>> ((len - i - 1) * 8) &&& 0xff)) =
      encode len val := by
    intro len
    induction len with
    | zero => rfl
    | succ len ih =>
      rw [List.range_succ_eq_map, List.map_cons, List.map_map, encode, ← ih]
      congr 1
      · apply UInt8.toNat_inj.mp
        rw [UInt8.toNat_ofNat', UInt8.toNat_ofNat', Nat.shiftRight_eq_div_pow,
          show (0xff : ℕ) = 2 ^ 8 - 1 from rfl, Nat.and_two_pow_sub_one_eq_mod, Nat.mod_mod, Nat.mul_comm, pow_mul]
        rfl
      · apply List.map_congr_left
        intro i _
        simp only [Function.comp_apply, Nat.succ_eq_add_one, Nat.add_sub_add_right]
  have happend : ∀ (l : List ℕ) (f : ℕ → UInt8) (s : Bytes),
      l.foldl (fun s i => s ++ [f i]) s = s ++ l.map f := by
    intro l f
    induction l with
    | nil => intro s; simp
    | cons i l ih => intro s; simp [ih]
  rw [unparseInt, happend, hmap]

theorem u32_eq (s : Bytes) (val : UInt32) : u32 s val = s ++ encode 4 val.toNat := unparseInt_eq 4 s _

theorem u16_eq (s : Bytes) (val : UInt16) : u16 s val = s ++ encode 2 val.toNat := unparseInt_eq 2 s _

theorem u8_eq (s : Bytes) (val : UInt8) : u8 s val = s ++ encode 1 val.toNat := unparseInt_eq 1 s _

/-! What is written is what a request reads. -/

@[simp] theorem ofNat_decode_u32 (val : UInt32) : UInt32.ofNat (decode (encode 4 val.toNat)) = val := by
  rw [decode_encode val.toNat_lt, UInt32.ofNat_toNat]

@[simp] theorem ofNat_decode_u16 (val : UInt16) : UInt16.ofNat (decode (encode 2 val.toNat)) = val := by
  rw [decode_encode val.toNat_lt, UInt16.ofNat_toNat]

@[simp] theorem ofNat_decode_u8 (val : UInt8) : UInt8.ofNat (decode (encode 1 val.toNat)) = val := by
  rw [decode_encode val.toNat_lt, UInt8.ofNat_toNat]

theorem encode_u32_inj {x y : UInt32} (h : encode 4 x.toNat = encode 4 y.toNat) : x = y := by
  rw [← ofNat_decode_u32 x, h, ofNat_decode_u32]

theorem encode_u16_inj {x y : UInt16} (h : encode 2 x.toNat = encode 2 y.toNat) : x = y := by
  rw [← ofNat_decode_u16 x, h, ofNat_decode_u16]

theorem encode_u8_inj {x y : UInt8} (h : encode 1 x.toNat = encode 1 y.toNat) : x = y := by
  rw [← ofNat_decode_u8 x, h, ofNat_decode_u8]

/-! What a request reads is what is written. -/

theorem encode_u32 {l : Bytes} (h : l.length = 4) : encode 4 (UInt32.ofNat (decode l)).toNat = l := by
  have hlt := decode_lt l
  rw [h] at hlt
  rw [UInt32.toNat_ofNat_of_lt' hlt, ← h, encode_decode]

theorem encode_u16 {l : Bytes} (h : l.length = 2) : encode 2 (UInt16.ofNat (decode l)).toNat = l := by
  have hlt := decode_lt l
  rw [h] at hlt
  rw [UInt16.toNat_ofNat_of_lt' hlt, ← h, encode_decode]

theorem encode_u8 {l : Bytes} (h : l.length = 1) : encode 1 (UInt8.ofNat (decode l)).toNat = l := by
  have hlt := decode_lt l
  rw [h] at hlt
  rw [UInt8.toNat_ofNat_of_lt' hlt, ← h, encode_decode]

end NetUnparser

end Sponge
