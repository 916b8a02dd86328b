import Sponge.Stream.Push

/-!
# Soundness of reassembly

If every substring pushed is a part of one stream `s`, the output is a prefix of `s`,
and the input ends only at the end of `s`. This holds of every run in which no block
is cut in two (`Call.Whole`); `assembled_not_isPrefix` is a run with a reassembler of
capacity `2` in which a block is cut in two, and a byte comes out twice.

## What is proved

* `Sound.push` — a push keeps a sound reassembler sound (`Sound`: the output is a
  prefix of the stream, and every block of the list is the part of the stream at its
  indices).
* `assembled_isPrefix` — so does a run.
-/

namespace Sponge

open Intervals StreamReassembler

/-- The block is the part of `s` at its indices; it carries the end of the stream only at
the end of `s`. -/
structure Node.Of (s : Bytes) (n : Node) : Prop where
  /-- The block lies in `s`. -/
  stop_le : n.stop ≤ s.length
  /-- Its data are the bytes of `s`. -/
  data_eq : n.data = slice s n.blockstart n.data.length
  /-- It carries the end of the stream only at the end of `s`. -/
  eof : n.eof = true → n.stop = s.length

/-- The bytes `taken` and those in the buffer of `out` are what has been assembled of `s`. -/
structure Assembles (s taken : Bytes) (out : ByteStream) : Prop where
  /-- The bytes written are the first ones of `s`. -/
  bytes : taken ++ out.que = s.take out.bytesWritten
  /-- No more bytes have been written than there are. -/
  le : out.bytesWritten ≤ s.length
  /-- The input ends at the end of `s`. -/
  ended : out.inputEnded = true → out.bytesWritten = s.length

/-- Writing the next part of `s`. -/
theorem Assembles.put {s taken : Bytes} {out : ByteStream} (h : Assembles s taken out) {data : Bytes}
    {eof : Bool} (hfit : data.length ≤ out.remainingCapacity)
    (hle : out.bytesWritten + data.length ≤ s.length)
    (hdata : data = slice s out.bytesWritten data.length)
    (heof : eof = true → out.bytesWritten + data.length = s.length) :
    Assembles s taken (out.put data eof) := by
  constructor
  · rw [ByteStream.put_que _ hfit, ByteStream.put_bytesWritten _ hfit, ← List.append_assoc, h.bytes]
    nth_rewrite 1 [hdata]
    exact take_append_slice s _ _
  · rwa [ByteStream.put_bytesWritten _ hfit]
  · rw [ByteStream.put_inputEnded, ByteStream.put_bytesWritten _ hfit, Bool.or_eq_true]
    rintro (he | he)
    · have := h.ended he
      omega
    · exact heof he

/-- Draining a list of blocks of `s`. -/
theorem Fetches.assembles {s taken : Bytes} {out out' : ByteStream} {remain remain' : ℕ}
    {l l' : List Node} (h : Fetches out remain l out' remain' l') (hok : ∀ n ∈ l, n.Ok)
    (hof : ∀ n ∈ l, n.Of s) (ha : Assembles s taken out) : Assembles s taken out' := by
  induction h with
  | stop => exact ha
  | drop _ _ ih =>
    exact ih (fun m hm => hok m (List.mem_cons_of_mem _ hm)) (fun m hm => hof m (List.mem_cons_of_mem _ hm)) ha
  | @drain out _ _ _ n l _ hs hlt hfit _ ih =>
    refine ih (fun m hm => hok m (List.mem_cons_of_mem _ hm)) (fun m hm => hof m (List.mem_cons_of_mem _ hm)) ?_
    have hn := hof n List.mem_cons_self
    have hlen := (hok n List.mem_cons_self).length_drop hs
    have hle := hn.stop_le
    refine ha.put hfit (by omega) ?_ fun he => ?_
    · -- the rest of the block is the part of `s` that comes next
      have hdrop := drop_slice s n.blockstart n.data.length (out.bytesWritten - n.blockstart)
      rw [← hn.data_eq] at hdrop
      rw [hdrop]
      congr 1
      · omega
      · rw [length_slice]
        have := (hok n List.mem_cons_self).len
        omega
    · have := hn.eof he
      omega

/-- A piece of a part of `s` is a part of `s`. -/
theorem IsPiece.of {s data : Bytes} {index : ℕ} {eof : Bool} {l : List Node} {n : Node}
    (h : IsPiece data index eof l n) (hle : index + data.length ≤ s.length)
    (hdata : data = slice s index data.length) (heof : eof = true → index + data.length = s.length) :
    n.Of s := by
  obtain ⟨k, m, hk, hkm, hd, hstart, hstop, he, -⟩ := h
  have hslice := slice_slice hdata hkm
  have hlen : n.data.length = m := by
    rw [hd, hslice]
    exact length_slice (by omega)
  refine ⟨by omega, ?_, fun h => ?_⟩
  · rw [hlen, hstart, ← hslice, hd]
  · have := he h
    have := heof this.1
    omega

/-- A reassembler of which the bytes `taken` have been read is sound for the stream `s`. -/
structure Sound (s taken : Bytes) (r : StreamReassembler) : Prop where
  /-- The bookkeeping of the list. -/
  kept : Kept r
  /-- Every block is the part of `s` at its indices. -/
  nodes : ∀ n ∈ r.head, n.Of s
  /-- The output is a prefix of `s`. -/
  out : Assembles s taken r.output

theorem sound_make (s : Bytes) (capacity : ℕ) : Sound s [] (make capacity) :=
  ⟨kept_make capacity, by simp [make], ⟨rfl, Nat.zero_le _, by simp [make]⟩⟩

/-- Reading moves bytes from the buffer to the reader. -/
theorem Sound.readOut {s taken : Bytes} {r : StreamReassembler} (h : Sound s taken r) (len : ℕ) :
    Sound s (taken ++ (r.output.read len).1) (r.readOut len) := by
  refine ⟨h.kept.readOut len, h.nodes, ⟨?_, h.out.le, h.out.ended⟩⟩
  simp only [StreamReassembler.readOut, ByteStream.read_fst, ByteStream.read_snd,
    ByteStream.popOutput_que, ByteStream.popOutput_bytesWritten, List.append_assoc,
    List.take_append_drop]
  exact h.out.bytes

/-- The push is of a part of `s`, with `eof` only at the end. -/
structure Push.Of (s : Bytes) (p : Push) : Prop where
  /-- The substring lies in `s`. -/
  stop_le : p.stop ≤ s.length
  /-- Its bytes are those of `s`. -/
  data_eq : p.data = slice s p.index p.data.length
  /-- `eof` is set only at the end. -/
  eof : p.eof = true → p.stop = s.length

/-- What a push writes to the output is the next part of the stream. -/
theorem Pushes.assembles {s taken : Bytes} {r r' : StreamReassembler} {p : Push}
    (h : Pushes r p.data p.index p.eof r') (hs : Sound s taken r) (hp : p.Of s) :
    Assembles s taken r'.output := by
  have hlim := r.output.bytesWritten_add_remainingCapacity
  have hstop : p.index + p.data.length ≤ s.length := hp.stop_le
  cases h with
  | old => exact hs.out
  | direct h1 h2 h3 hf =>
    have hlen := List.length_drop (i := r.output.bytesWritten - p.index) (l := p.data)
    refine hf.assembles hs.kept.tidy.ok hs.nodes (hs.out.put (by omega) (by omega) ?_ fun he => ?_)
    · have hdrop := drop_slice s p.index p.data.length (r.output.bytesWritten - p.index)
      rw [← hp.data_eq, show p.index + (r.output.bytesWritten - p.index) = r.output.bytesWritten by omega]
        at hdrop
      rwa [hlen]
    · have : p.index + p.data.length = s.length := hp.eof he
      omega
  | past hpos h1 h2 hins =>
    have hlen := length_slice (s := p.data) (i := r.output.bytesWritten - p.index)
      (n := r.output.remainingCapacity) (by omega)
    show Assembles s taken (r.output.put
      (slice p.data (r.output.bytesWritten - p.index) r.output.remainingCapacity) false)
    refine hs.out.put (by omega) (by omega) ?_ (by simp)
    have hslice := slice_slice (k := r.output.bytesWritten - p.index) (m := r.output.remainingCapacity)
      hp.data_eq (by omega)
    rw [show p.index + (r.output.bytesWritten - p.index) = r.output.bytesWritten by omega] at hslice
    rw [hlen]
    exact hslice
  | without => exact hs.out
  | gap hgap hins hf =>
    refine hf.assembles (hins.tidy (by omega) hs.kept.tidy).ok (fun n hn => ?_) hs.out
    exact (hins.mem (by omega) hn).elim (hs.nodes n) fun h => h.of hstop hp.data_eq hp.eof

/-- **A push keeps a sound reassembler sound**, if no block is cut in two. -/
theorem Sound.push {s taken : Bytes} {r : StreamReassembler} (h : Sound s taken r) {p : Push}
    (hp : p.Of s) (hw : WholeBlocks r p.data p.index) :
    Sound s taken (r.pushSubstring p.data p.index p.eof) := by
  have hpush := push_spec h.kept p.eof hw
  refine ⟨hpush.kept h.kept, fun n hn => ?_, hpush.assembles h hp⟩
  exact (hpush.mem hn).elim (h.nodes n) fun hn => hn.of hp.stop_le hp.data_eq hp.eof

/-! ### Runs -/

instance (s : Bytes) (p : Push) : Decidable (p.Of s) :=
  decidable_of_iff (p.stop ≤ s.length ∧ p.data = slice s p.index p.data.length ∧
    (p.eof = true → p.stop = s.length))
    ⟨fun h => ⟨h.1, h.2.1, h.2.2⟩, fun h => ⟨h.stop_le, h.data_eq, h.eof⟩⟩

/-- A call that pushes a part of `s`, or reads. -/
def Call.Of (s : Bytes) : Call → Prop
  | .push p => p.Of s
  | .read _ => True

instance (s : Bytes) : ∀ c : Call, Decidable (c.Of s)
  | .push p => inferInstanceAs (Decidable (p.Of s))
  | .read _ => .isTrue trivial

/-- A call that cuts no block in two. -/
def Call.Whole (t : Session) : Call → Prop
  | .push p => WholeBlocks t.reassembler p.data p.index
  | .read _ => True

instance (t : Session) : ∀ c : Call, Decidable (c.Whole t)
  | .push p => inferInstanceAs (Decidable (WholeBlocks t.reassembler p.data p.index))
  | .read _ => .isTrue trivial

theorem Sound.step {s : Bytes} {t : Session} (h : Sound s t.taken t.reassembler) {c : Call}
    (hof : c.Of s) (hw : c.Whole t) : Sound s (t.step c).taken (t.step c).reassembler := by
  cases c with
  | push p => exact h.push hof hw
  | read len => exact h.readOut len

/-- **Soundness of reassembly.** In every run of pushes of parts of `s` and reads in which no
block is cut in two, the bytes ever written to the output are a prefix of `s`, and the input
has ended only if all of `s` has been written. -/
theorem assembled_isPrefix (s : Bytes) (capacity : ℕ) (calls : List Call)
    (h : Along Session.step (fun t c => c.Of s ∧ c.Whole t) (Session.start capacity) calls) :
    (runs Session.step (Session.start capacity) calls).assembled <+: s ∧
      ((runs Session.step (Session.start capacity) calls).output.inputEnded = true →
        (runs Session.step (Session.start capacity) calls).output.bytesWritten = s.length) := by
  have hsound := h.invariant (I := fun t => Sound s t.taken t.reassembler)
    (fun _ _ hi hc => hi.step hc.1 hc.2) (sound_make s capacity)
  refine ⟨?_, hsound.out.ended⟩
  rw [Session.assembled, Session.output, hsound.out.bytes]
  exact List.take_prefix _ _

/-- A run in which a block waits behind a gap, and the end of the stream arrives last. -/
theorem assembled_isPrefix_abcd :
    Along Session.step (fun t c => c.Of [97, 98, 99, 100] ∧ c.Whole t) (Session.start 3)
        [.push ⟨[98, 99], 1, false⟩, .push ⟨[97], 0, false⟩, .read 2, .push ⟨[99, 100], 2, true⟩] ∧
      (runs Session.step (Session.start 3) [.push ⟨[98, 99], 1, false⟩, .push ⟨[97], 0, false⟩, .read 2,
        .push ⟨[99, 100], 2, true⟩]).assembled <+: [97, 98, 99, 100] :=
  ⟨by decide, (assembled_isPrefix [97, 98, 99, 100] 3 _ (by decide)).1⟩

/-- A block that is cut in two: with capacity `2`, after `bc` at `1` and `a` at `0` the output
is full and the block `bc` is left with `c` to be written, but with all of its data. When the
reader has taken `ab`, the next push writes `bc`. -/
theorem assembled_not_isPrefix :
    Along Session.step (fun _ c => c.Of [97, 98, 99]) (Session.start 2)
        [.push ⟨[98, 99], 1, false⟩, .push ⟨[97], 0, false⟩, .read 2, .push ⟨[], 2, false⟩] ∧
      ¬ (runs Session.step (Session.start 2) [.push ⟨[98, 99], 1, false⟩, .push ⟨[97], 0, false⟩, .read 2,
        .push ⟨[], 2, false⟩]).assembled <+: [97, 98, 99] := by
  decide

end Sponge
