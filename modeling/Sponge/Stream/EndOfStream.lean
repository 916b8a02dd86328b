import Sponge.Stream.Soundness

/-!
# The end of the stream

A push with `eof` set says where the stream ends. If the bytes before it are missing,
the flag waits in the list, on the block with the last byte. With a capacity of at
least the length of the stream, the end should be known as soon as all bytes are
there, and it is in every run in which each push leaves the flag a block to wait on
(`Call.KeepsEnd`). `inputEnded_forgotten` is a run in which one does not: an empty
push with `eof` behind a gap is dropped, and its flag with it.

## What is proved

* `Ending.push` — after a push with `eof` the input has ended, or a block with an
  unwritten last byte carries the flag.
* `inputEnded_of_eof_pushed` — so in a run the input has ended once all bytes have
  been written and the end has been pushed.
-/

namespace Sponge

open Intervals StreamReassembler

/-- The block carries the end of the stream `s`, and its last byte has not been written. -/
structure Node.Ends (s : Bytes) (out : ByteStream) (n : Node) : Prop where
  /-- The flag. -/
  eof : n.eof = true
  /-- The block is not empty. -/
  nonempty : n.blockstart < n.stop
  /-- It ends where the stream does. -/
  stop : n.stop = s.length
  /-- Its last byte has not been written. -/
  unwritten : out.bytesWritten < n.stop

/-- The reassembler knows the end of the stream. -/
def KnowsEnd (s : Bytes) (r : StreamReassembler) : Prop :=
  r.output.inputEnded = true ∨ ∃ n ∈ r.head, n.Ends s r.output

/-- A reassembler with room for all of `s` that has not forgotten an end. -/
structure Ending (s taken : Bytes) (pushes : List Push) (r : StreamReassembler) : Prop where
  /-- The blocks and the output belong to `s`. -/
  sound : Sound s taken r
  /-- There is room for all of `s`. -/
  room : s.length ≤ r.capacity
  /-- Blocks start before the end of `s`. -/
  start : ∀ n ∈ r.head, n.blockstart < s.length
  /-- An end that has been pushed is known. -/
  known : (∃ p ∈ pushes, p.eof = true) → KnowsEnd s r

theorem ending_make {s : Bytes} {capacity : ℕ} (h : s.length ≤ capacity) :
    Ending s [] [] (make capacity) :=
  ⟨sound_make s capacity, h, by simp [make], by simp⟩

theorem Ending.readOut {s taken : Bytes} {pushes : List Push} {r : StreamReassembler}
    (h : Ending s taken pushes r) (len : ℕ) :
    Ending s (taken ++ (r.output.read len).1) pushes (r.readOut len) :=
  ⟨h.sound.readOut len, h.room, h.start, fun hp => (h.known hp).imp_right
    fun ⟨n, hn, h1, h2, h3, h4⟩ => ⟨n, hn, h1, h2, h3, h4⟩⟩

/-- A push that leaves the end of the stream a block to wait on. A push with `eof` behind a gap
needs its last byte kept, unless the list carries the flag already; and the last byte is not
written by a push without `eof` while the flag waits on a block. -/
def Push.KeepsEnd (s : Bytes) (r : StreamReassembler) (p : Push) : Prop :=
  (p.eof = true → r.output.bytesWritten < p.index →
    (∃ n ∈ r.head, n.eof = true) ∨
      0 < p.data.length ∧ ¬ Holds r.head (p.stop - 1) ∧
        Room (Holds r.head) p.index p.data.length r.remaincapacity) ∧
  (p.eof = false → p.index ≤ r.output.bytesWritten → p.stop = s.length →
    r.output.inputEnded = true ∨ ∀ n ∈ r.head, n.eof = false)

instance (s : Bytes) (r : StreamReassembler) (p : Push) : Decidable (p.KeepsEnd s r) :=
  inferInstanceAs (Decidable (_ ∧ _))

section Limit

variable {s taken : Bytes} {pushes : List Push} {r : StreamReassembler}

/-- The stream ends inside the window. -/
theorem Ending.length_le_limit (h : Ending s taken pushes r) : s.length ≤ r.output.limit := by
  have h1 := h.room
  have h2 := h.sound.kept.cap
  unfold ByteStream.limit
  omega

theorem Ending.wholeBlocks (h : Ending s taken pushes r) {p : Push} (hp : p.Of s) :
    WholeBlocks r p.data p.index := by
  have hlim := h.length_le_limit
  exact Or.inr (Or.inr ⟨fun n hn => Or.inl ((h.sound.nodes n hn).stop_le.trans hlim),
    Or.inr (Or.inl (hp.stop_le.trans hlim))⟩)

/-- Blocks stay short of the end of `s`. -/
theorem Ending.start_push (h : Ending s taken pushes r) {p : Push} (hp : p.Of s) {r' : StreamReassembler}
    (hpush : Pushes r p.data p.index p.eof r') : ∀ n ∈ r'.head, n.blockstart < s.length := by
  intro n hn
  rcases hpush.mem hn with hn | ⟨k, m, hk, _, _, hstart, -⟩
  · exact h.start n hn
  · have := hp.stop_le
    unfold Push.stop at this
    omega

end Limit

/-- Draining keeps a known end, if the last byte has not been written before. -/
theorem Fetches.knowsEnd {s : Bytes} {r r' : StreamReassembler}
    (h : Fetches r.output r.remaincapacity r.head r'.output r'.remaincapacity r'.head) (ht : Tidy r.head)
    (hr : r.output.remainingCapacity ≠ 0) (hk : KnowsEnd s r) : KnowsEnd s r' := by
  rcases hk with hk | ⟨n, hn, heof, hne, hstop, hw⟩
  · exact Or.inl (h.inputEnded_of hk)
  rcases h.eof ht hn heof hne hw with hn' | hend
  · have hlast := h.fresh ht (Or.inl hr) (n.stop - 1) ⟨n, hn', by omega, by omega⟩
    exact Or.inr ⟨n, hn', heof, hne, hstop, by omega⟩
  · exact Or.inl hend

/-- The block that insertion makes of the last byte of the stream carries the flag. -/
theorem InsertsAtHead.ends {s : Bytes} {r : StreamReassembler} {p : Push} (hp : p.Of s)
    {l : List Node} {remain : ℕ} (hgap : r.output.bytesWritten < p.index)
    (h : InsertsAtHead p.eof r.remaincapacity p.data p.index r.head l remain) (ht : Tidy r.head)
    (hstart : ∀ n ∈ r.head, n.blockstart < s.length) (heof : p.eof = true) (hpos : 0 < p.data.length)
    (hnew : ¬ Holds r.head (p.stop - 1))
    (hroom : Room (Holds r.head) p.index p.data.length r.remaincapacity) :
    ∃ n ∈ l, n.Ends s r.output := by
  have hstop : p.stop = p.index + p.data.length := rfl
  have hend := hp.eof heof
  obtain ⟨n, hn, h1, h2⟩ := h.complete ht hroom (p.stop - 1) (by omega) (by omega)
  rcases h.mem (by omega) hn with hold | ⟨k, m, hk, hkm, _, hs, ht', _, hflag⟩
  · exact absurd ⟨n, hold, h1, h2⟩ hnew
  · rcases hflag heof (by omega) with hflag | ⟨q, hq, hle⟩
    · exact ⟨n, hn, hflag, by omega, by omega, by omega⟩
    · have := hstart q hq
      omega

section Push

variable {s taken : Bytes} {pushes : List Push} {r : StreamReassembler} {p : Push} {out : ByteStream}
  {remain : ℕ} {l : List Node}

/-- A substring that is written at once keeps a known end. -/
theorem Ending.knowsEnd_direct (h : Ending s taken pushes r) (hp : p.Of s) (hkeep : p.KeepsEnd s r)
    (hle : p.index ≤ r.output.bytesWritten) (hge : r.output.bytesWritten ≤ p.stop)
    (hf : Fetches (r.output.put (p.data.drop (r.output.bytesWritten - p.index)) p.eof) r.remaincapacity
      r.head out remain l) (hknown : p.eof = true ∨ KnowsEnd s r) :
    KnowsEnd s { r with output := out, remaincapacity := remain, head := l } := by
  have hlim := h.length_le_limit
  have hstop : p.stop = p.index + p.data.length := rfl
  have hple := hp.stop_le
  have hput := ByteStream.put_drop_bytesWritten p.eof hle hge (hple.trans hlim)
  by_cases he : p.eof = true
  · exact Or.inl (hf.inputEnded_of (by simp [he]))
  have hk := hknown.resolve_left he
  rw [Bool.not_eq_true] at he
  by_cases hall : p.stop = s.length
  · -- the last byte is written without the flag, so none is waiting
    rcases hkeep.2 he hle hall with hend | hnone
    · exact Or.inl (hf.inputEnded_of (by simp [hend]))
    · rcases hk with hk | ⟨n, hn, hflag, -⟩
      · exact Or.inl (hf.inputEnded_of (by simp [hk]))
      · exact absurd hflag (by simp [hnone n hn])
  · have hout := ByteStream.bytesWritten_add_remainingCapacity
      (r.output.put (p.data.drop (r.output.bytesWritten - p.index)) p.eof)
    rw [ByteStream.put_limit] at hout
    refine Fetches.knowsEnd (r := { r with output := r.output.put _ p.eof }) hf h.sound.kept.tidy ?_ ?_
    · simp only
      omega
    · rcases hk with hk | ⟨n, hn, hflag, hne, hns, hnw⟩
      · exact Or.inl (by simp [hk])
      · exact Or.inr ⟨n, hn, hflag, hne, hns, by simp only; omega⟩

/-- A substring that is put into the list keeps a known end: the flag waits on an old block, or on
the block with the last byte of the data. -/
theorem Ending.knowsEnd_gap (h : Ending s taken pushes r) (hp : p.Of s) (hkeep : p.KeepsEnd s r)
    (hgap : r.output.bytesWritten < p.index)
    (hins : InsertsAtHead p.eof r.remaincapacity p.data p.index r.head l remain)
    (hknown : p.eof = true ∨ KnowsEnd s r) :
    KnowsEnd s { r with remaincapacity := remain, head := l } := by
  have hold : KnowsEnd s r → KnowsEnd s { r with remaincapacity := remain, head := l } := fun hk =>
    hk.imp_right fun ⟨n, hn, h1, h2, h3, h4⟩ => ⟨n, hins.sublist.subset hn, h1, h2, h3, h4⟩
  rcases hknown with he | hk
  · rcases hkeep.1 he hgap with ⟨n, hn, hflag⟩ | ⟨hpos, hnew, hroom⟩
    · have hns := (h.sound.nodes n hn).eof hflag
      have hlt := h.start n hn
      have hstop : p.stop = p.index + p.data.length := rfl
      have hple := hp.stop_le
      exact hold (Or.inr ⟨n, hn, hflag, by omega, hns, by omega⟩)
    · exact Or.inr (InsertsAtHead.ends (r := r) hp hgap hins h.sound.kept.tidy h.start he hpos hnew hroom)
  · exact hold hk

/-- **A push keeps the end of the stream.** -/
theorem Ending.push (h : Ending s taken pushes r) (hp : p.Of s) (hkeep : p.KeepsEnd s r) :
    Ending s taken (pushes ++ [p]) (r.pushSubstring p.data p.index p.eof) := by
  have hpush := push_spec h.sound.kept p.eof (h.wholeBlocks hp)
  have hsound := h.sound.push hp (h.wholeBlocks hp)
  have hstart := h.start_push hp hpush
  have hlim := h.length_le_limit
  have hrem := r.output.bytesWritten_add_remainingCapacity
  have hle := h.sound.out.le
  have hstop : p.stop = p.index + p.data.length := rfl
  have hple := hp.stop_le
  refine ⟨hsound, by rw [hpush.frame.2.2.2]; exact h.room, hstart, fun hex => ?_⟩
  -- the end is this push's or an earlier one's, and then it is known
  have hknown : p.eof = true ∨ KnowsEnd s r := by
    obtain ⟨q, hq, hqe⟩ := hex
    rcases List.mem_append.mp hq with hq | hq
    · exact Or.inr (h.known ⟨q, hq, hqe⟩)
    · exact Or.inl (List.mem_singleton.mp hq ▸ hqe)
  clear hex hsound hstart
  generalize r.pushSubstring p.data p.index p.eof = r' at hpush ⊢
  cases hpush with
  | old hold =>
    refine hknown.resolve_left fun he => ?_
    have := hp.eof he
    omega
  | direct h1 h2 _ hf => exact h.knowsEnd_direct hp hkeep h1 h2 hf hknown
  | past _ _ h2 => omega
  | without hzero _ hpos => omega
  | @gap _ remain _ l _ hgap hins hf =>
    exact Fetches.knowsEnd (r := { r with remaincapacity := remain, head := l }) hf
      (hins.tidy (by omega) h.sound.kept.tidy) (by simp only; omega)
      (h.knowsEnd_gap hp hkeep hgap hins hknown)

end Push

/-! ### Runs -/

/-- A call that leaves the end of the stream a block to wait on. -/
def Call.KeepsEnd (s : Bytes) (t : Session) : Call → Prop
  | .push p => p.KeepsEnd s t.reassembler
  | .read _ => True

instance (s : Bytes) (t : Session) : ∀ c : Call, Decidable (c.KeepsEnd s t)
  | .push p => inferInstanceAs (Decidable (p.KeepsEnd s _))
  | .read _ => .isTrue trivial

theorem Ending.step {s : Bytes} {t : Session} (h : Ending s t.taken t.pushes t.reassembler) {c : Call}
    (hof : c.Of s) (hkeep : c.KeepsEnd s t) :
    Ending s (t.step c).taken (t.step c).pushes (t.step c).reassembler := by
  cases c with
  | push p => exact h.push hof hkeep
  | read len => exact h.readOut len

/-- **The end of the stream is not forgotten.** With room for all of `s`, in every run of pushes of
parts of `s` that leave the end a block to wait on, the input has ended as soon as all bytes
have been written and the end has been pushed. -/
theorem inputEnded_of_eof_pushed (s : Bytes) (capacity : ℕ) (calls : List Call)
    (hcap : s.length ≤ capacity)
    (h : Along Session.step (fun t c => c.Of s ∧ c.KeepsEnd s t) (Session.start capacity) calls)
    (hw : (runs Session.step (Session.start capacity) calls).output.bytesWritten = s.length)
    (he : ∃ p ∈ (runs Session.step (Session.start capacity) calls).pushes, p.eof = true) :
    (runs Session.step (Session.start capacity) calls).output.inputEnded = true := by
  have hi := h.invariant (I := fun t => Ending s t.taken t.pushes t.reassembler)
    (fun _ _ hi hc => hi.step hc.1 hc.2) (ending_make hcap)
  refine (hi.known he).resolve_right fun ⟨n, _, hn⟩ => ?_
  have h1 := hn.unwritten
  have h2 := hn.stop
  have h3 : (runs Session.step (Session.start capacity) calls).reassembler.output.bytesWritten = s.length := hw
  omega

/-- The end arrives first and waits behind a gap. -/
theorem inputEnded_of_eof_pushed_abc :
    Along Session.step (fun t c => c.Of [97, 98, 99] ∧ c.KeepsEnd [97, 98, 99] t) (Session.start 3)
        [.push ⟨[98, 99], 1, true⟩, .push ⟨[97, 98], 0, false⟩] ∧
      (runs Session.step (Session.start 3)
        [.push ⟨[98, 99], 1, true⟩, .push ⟨[97, 98], 0, false⟩]).output.inputEnded = true :=
  ⟨by decide, inputEnded_of_eof_pushed [97, 98, 99] 3 _ (by decide) (by decide) (by decide) (by decide)⟩

/-- An end that is forgotten: an empty push with `eof` at `2`, then all of `ab`. -/
theorem inputEnded_forgotten :
    Along Session.step (fun _ c => c.Of [97, 98]) (Session.start 2)
        [.push ⟨[], 2, true⟩, .push ⟨[97, 98], 0, false⟩] ∧
      (runs Session.step (Session.start 2)
        [.push ⟨[], 2, true⟩, .push ⟨[97, 98], 0, false⟩]).output.bytesWritten = 2 ∧
      (∃ p ∈ (runs Session.step (Session.start 2)
        [.push ⟨[], 2, true⟩, .push ⟨[97, 98], 0, false⟩]).pushes, p.eof = true) ∧
      ¬ (runs Session.step (Session.start 2)
        [.push ⟨[], 2, true⟩, .push ⟨[97, 98], 0, false⟩]).output.inputEnded = true := by
  decide

end Sponge
