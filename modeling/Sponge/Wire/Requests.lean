import Sponge.Wire.Parser

/-!
# Sequences of requests

The header parsers ask a `NetParser` for one field after the other and look at its error once, at the
end. That is safe because an error stays: after the first request that finds too few bytes, every request
is refused, takes nothing and reads `0`. `Answered` says what becomes of one request, and a sequence of
requests is a program, `ask`.

## What is proved

* `Request.answered` — what becomes of a request, whatever has been asked before.
* `ask_of_unparsed` — integers that have been written are read back.
* `integers_and_requests` — both, for every list of integers and every sequence of requests.
-/

namespace Sponge

open BigEndian NetParser

/-! ### Integers with their width -/

/-- The width of an integer. -/
inductive Width where
  /-- `uint8_t`. -/
  | u8
  /-- `uint16_t`. -/
  | u16
  /-- `uint32_t`. -/
  | u32
  deriving DecidableEq

/-- How many bytes an integer takes. -/
def Width.size : Width → ℕ
  | .u8 => 1
  | .u16 => 2
  | .u32 => 4

/-- An integer with its width. -/
inductive NetInt where
  /-- Of 8 bits. -/
  | u8 (val : UInt8)
  /-- Of 16 bits. -/
  | u16 (val : UInt16)
  /-- Of 32 bits. -/
  | u32 (val : UInt32)
  deriving DecidableEq

namespace NetInt

/-- The width. -/
def width : NetInt → Width
  | .u8 _ => .u8
  | .u16 _ => .u16
  | .u32 _ => .u32

/-- The integer of a width that a number stands for. -/
def ofNat : Width → ℕ → NetInt
  | .u8, n => .u8 (UInt8.ofNat n)
  | .u16, n => .u16 (UInt16.ofNat n)
  | .u32, n => .u32 (UInt32.ofNat n)

/-- Write an integer to the end of a string. -/
def unparse (s : Bytes) : NetInt → Bytes
  | .u8 val => NetUnparser.u8 s val
  | .u16 val => NetUnparser.u16 s val
  | .u32 val => NetUnparser.u32 s val

/-- The bytes of an integer. -/
def bytes : NetInt → Bytes
  | .u8 val => encode 1 val.toNat
  | .u16 val => encode 2 val.toNat
  | .u32 val => encode 4 val.toNat

theorem unparse_eq (s : Bytes) (i : NetInt) : i.unparse s = s ++ i.bytes := by
  cases i with
  | u8 val => exact NetUnparser.u8_eq s val
  | u16 val => exact NetUnparser.u16_eq s val
  | u32 val => exact NetUnparser.u32_eq s val

/-- Integers are written one after the other. -/
theorem foldl_unparse (is : List NetInt) (s : Bytes) : is.foldl unparse s = s ++ is.flatMap bytes := by
  induction is generalizing s with
  | nil => exact (List.append_nil s).symm
  | cons i is ih => rw [List.foldl_cons, ih, unparse_eq, List.flatMap_cons, List.append_assoc]

theorem length_bytes (i : NetInt) : i.bytes.length = i.width.size := by
  cases i <;> exact length_encode _ _

/-- An integer is what its bytes stand for. -/
theorem ofNat_decode_bytes (i : NetInt) : ofNat i.width (decode i.bytes) = i := by
  cases i with
  | u8 val => exact congrArg NetInt.u8 (NetUnparser.ofNat_decode_u8 val)
  | u16 val => exact congrArg NetInt.u16 (NetUnparser.ofNat_decode_u16 val)
  | u32 val => exact congrArg NetInt.u32 (NetUnparser.ofNat_decode_u32 val)

end NetInt

/-! ### Requests -/

/-- What a parser can be asked for. -/
inductive Request where
  /-- `u8()`, `u16()` or `u32()`. -/
  | int (width : Width)
  /-- `remove_prefix(n)`. -/
  | removePrefix (n : ℕ)
  deriving DecidableEq

namespace Request

/-- How many bytes the request is about. -/
def size : Request → ℕ
  | .int width => width.size
  | .removePrefix n => n

/-- Make the request. -/
def run : Request → Parsing (Option NetInt)
  | .int .u8 => (fun val => some (.u8 val)) <$> NetParser.u8
  | .int .u16 => (fun val => some (.u16 val)) <$> NetParser.u16
  | .int .u32 => (fun val => some (.u32 val)) <$> NetParser.u32
  | .removePrefix n => (fun _ => none) <$> NetParser.removePrefix n

/-- What the request makes of its bytes. -/
def answer : Request → Bytes → Option NetInt
  | .int width, l => some (.ofNat width (decode l))
  | .removePrefix _, _ => none

/-- What a request that fails returns. -/
def refusal : Request → Option NetInt
  | .int width => some (.ofNat width 0)
  | .removePrefix _ => none

theorem reads_run (r : Request) : Reads rest Failed r.run r.size r.answer := by
  cases r with
  | int width =>
    cases width with
    | u8 => exact reads_u8.map _
    | u16 => exact reads_u16.map _
    | u32 => exact reads_u32.map _
  | removePrefix n => exact (reads_removePrefix n).map _

theorem run_of_failed {r : Request} {p : NetParser} (h : (p.noted r.size).Failed) :
    r.run p = .ok (r.refusal, p.noted r.size) := by
  cases r with
  | int width =>
    cases width with
    | u8 => exact map_ok (map_ok (parseInt_of_failed h) _) _
    | u16 => exact map_ok (map_ok (parseInt_of_failed h) _) _
    | u32 => exact map_ok (map_ok (parseInt_of_failed h) _) _
  | removePrefix n => exact map_ok (removePrefix_of_failed h) _

end Request

/-- What becomes of a request. -/
structure Answered (p : NetParser) (r : Request) (answer : Option NetInt) (p' : NetParser) : Prop where
  /-- It succeeds exactly if there has been no error and there are enough bytes. -/
  succeeds : p'.getError = .noError ↔ p.getError = .noError ∧ r.size ≤ p.buffer.size
  /-- Then it takes its bytes from the front. -/
  taken : p'.getError = .noError →
    answer = r.answer (p.buffer.str.take r.size) ∧ p'.buffer.str = p.buffer.str.drop r.size
  /-- Otherwise the error is noted, the buffer stays as it is, and an integer is `0`. -/
  refused : p'.getError ≠ .noError →
    answer = r.refusal ∧ p'.getError = .packetTooShort ∧ p'.buffer = p.buffer

/-- The errors of a parser that is only asked. -/
def Asked (p : NetParser) : Prop := p.getError = .noError ∨ p.getError = .packetTooShort

/-- **What becomes of a request.** -/
theorem Request.answered (r : Request) {p : NetParser} (hp : Asked p) :
    ∃ answer p', r.run p = .ok (answer, p') ∧ Answered p r answer p' ∧ Asked p' := by
  by_cases hfail : p.Failed ∨ p.rest.length < r.size
  · have hnoted := noted_failed_iff.mpr hfail
    have herror : (p.noted r.size).getError = .packetTooShort := by
      rcases Nat.lt_or_ge p.rest.length r.size with hlt | hge
      · rw [noted_of_lt hlt]
      · rw [noted_of_le hge] at hnoted ⊢
        exact hp.resolve_left hnoted
    refine ⟨r.refusal, p.noted r.size, run_of_failed hnoted, ⟨?_, ?_, ?_⟩, Or.inr herror⟩
    · refine ⟨fun h => absurd h hnoted, fun ⟨hno, hle⟩ => ?_⟩
      exact (hfail.resolve_left fun h => h hno).not_ge hle |>.elim
    · exact fun h => absurd h hnoted
    · exact fun _ => ⟨rfl, herror, noted_buffer p r.size⟩
  · rw [not_or, Nat.not_lt] at hfail
    obtain ⟨p', hrun, hrest, hp'⟩ := r.reads_run.ok p hfail.1 hfail.2
    have hno : p.getError = .noError := Decidable.of_not_not hfail.1
    have hno' : p'.getError = .noError := Decidable.of_not_not hp'
    refine ⟨_, p', hrun, ⟨?_, ?_, ?_⟩, Or.inl hno'⟩
    · exact ⟨fun _ => ⟨hno, hfail.2⟩, fun _ => hno'⟩
    · exact fun _ => ⟨rfl, hrest⟩
    · exact fun h => absurd hno' h

/-- Requests, one after the other. -/
def ask : List Request → Parsing (List (Option NetInt))
  | [] => return []
  | r :: rs => do
    let answer ← r.run
    let answers ← ask rs
    return answer :: answers

theorem ask_cons {r : Request} {rs : List Request} {p p₁ p₂ : NetParser} {answer : Option NetInt}
    {answers : List (Option NetInt)} (hr : r.run p = .ok (answer, p₁)) (hrs : ask rs p₁ = .ok (answers, p₂)) :
    ask (r :: rs) p = .ok (answer :: answers, p₂) := by
  rw [ask, bind_ok hr, bind_ok hrs]
  rfl

/-- Asking never throws. -/
theorem ask_total (rs : List Request) {p : NetParser} (hp : Asked p) :
    ∃ answers p', ask rs p = .ok (answers, p') ∧ Asked p' := by
  induction rs generalizing p with
  | nil => exact ⟨[], p, rfl, hp⟩
  | cons r rs ih =>
    obtain ⟨answer, p₁, hrun, -, hp₁⟩ := r.answered hp
    obtain ⟨answers, p₂, hask, hp₂⟩ := ih hp₁
    exact ⟨answer :: answers, p₂, ask_cons hrun hask, hp₂⟩

/-- **Integers that have been written are read back**, and nothing else is taken. -/
theorem ask_of_unparsed (is : List NetInt) {tail : Bytes} {p : NetParser} (hp : ¬ p.Failed)
    (hrest : p.rest = is.flatMap NetInt.bytes ++ tail) :
    ∃ p', ask (is.map fun i => .int i.width) p = .ok (is.map some, p') ∧ ¬ p'.Failed ∧ p'.rest = tail := by
  induction is generalizing p with
  | nil => exact ⟨p, rfl, hp, hrest⟩
  | cons i is ih =>
    rw [List.flatMap_cons, List.append_assoc] at hrest
    have hlen := i.length_bytes
    have htake : p.rest.take i.width.size = i.bytes := by rw [hrest, ← hlen, List.take_left]
    have hdrop : p.rest.drop i.width.size = is.flatMap NetInt.bytes ++ tail := by rw [hrest, ← hlen, List.drop_left]
    have henough : i.width.size ≤ p.rest.length := by
      rw [hrest, List.length_append, hlen]
      exact Nat.le_add_right _ _
    obtain ⟨p₁, hrun, hrest₁, hp₁⟩ := (Request.int i.width).reads_run.ok p hp henough
    obtain ⟨p₂, hask, hp₂, hrest₂⟩ := ih hp₁ (hrest₁.trans hdrop)
    refine ⟨p₂, ask_cons ?_ hask, hp₂, hrest₂⟩
    rw [hrun, Request.answer, Request.size, htake, i.ofNat_decode_bytes]

/-- **Parser and unparser.** Integers written by a `NetUnparser`, with any bytes after them, are read back by
a `NetParser`, and those bytes are left. And in every sequence of requests for any buffer, a request
succeeds exactly if no earlier one has failed and there are enough bytes; from the first failure on the
error is `PacketTooShort`, the buffer stays as it is and every integer read is `0`. -/
theorem integers_and_requests (is : List NetInt) (tail : Bytes) (before : List Request) (r : Request)
    (buffer : Buffer) :
    (buffer.str = is.foldl NetInt.unparse [] ++ tail →
      ∃ p, ask (is.map fun i => .int i.width) ⟨buffer, .noError⟩ = .ok (is.map some, p) ∧
        p.getError = .noError ∧ p.buffer.str = tail) ∧
    ∃ answers p answer p', ask before ⟨buffer, .noError⟩ = .ok (answers, p) ∧ r.run p = .ok (answer, p') ∧
      Answered p r answer p' := by
  constructor
  · intro hstr
    rw [NetInt.foldl_unparse, List.nil_append] at hstr
    obtain ⟨p, hask, hp, hrest⟩ := ask_of_unparsed is (p := ⟨buffer, .noError⟩) (fun h => h rfl) hstr
    exact ⟨p, hask, Decidable.of_not_not hp, hrest⟩
  · obtain ⟨answers, p, hask, hp⟩ := ask_total before (p := ⟨buffer, .noError⟩) (Or.inl rfl)
    obtain ⟨answer, p', hrun, hanswered, -⟩ := r.answered hp
    exact ⟨answers, p, answer, p', hask, hrun, hanswered⟩

end Sponge
