import Mathlib.Order.Bounds.Basic
import Sponge.Stream.Soundness

/-!
# Completeness of reassembly

Inside the window, that is as long as every push ends at or before
`bytes_read + capacity`, the reassembler should not lose a byte: the number of bytes
written should be the largest `k` such that every index below `k` has been pushed.
This holds of every run in which the list has room for what has to be kept
(`Call.Fits`). `bytesWritten_not_isGreatest` is a run inside the window in which it
has not: the code cuts the data to the remaining capacity of the list before it skips
the part that the list already holds.

## What is proved

* `Complete.push` — what has been pushed is what has been written or is held, and the
  next index has not been pushed.
* `bytesWritten_isGreatest` — so in a run the number of bytes written is the length of
  the longest stretch that has been pushed, and does not depend on the order.
-/

namespace Sponge

open Intervals StreamReassembler

/-- Index `i` lies in one of the substrings pushed. -/
def Covered (pushes : List Push) (i : ℕ) : Prop := ∃ p ∈ pushes, p.index ≤ i ∧ i < p.stop

instance (pushes : List Push) (i : ℕ) : Decidable (Covered pushes i) :=
  inferInstanceAs (Decidable (∃ p ∈ pushes, _))

theorem covered_append_singleton {pushes : List Push} {p : Push} {i : ℕ} :
    Covered (pushes ++ [p]) i ↔ Covered pushes i ∨ (p.index ≤ i ∧ i < p.stop) := by
  simp only [Covered, List.mem_append, List.mem_singleton, or_and_right, exists_or, exists_eq_left]

/-- The indices `C` are those written to the output or held in the list. -/
def Keeps (C : ℕ → Prop) (out : ByteStream) (l : List Node) : Prop :=
  ∀ i, C i ↔ i < out.bytesWritten ∨ Holds l i

/-- Draining the list keeps what there is. -/
theorem Fetches.keeps {C : ℕ → Prop} {out out' : ByteStream} {remain remain' : ℕ} {l l' : List Node}
    (h : Fetches out remain l out' remain' l') (hok : ∀ n ∈ l, n.Ok) (hk : Keeps C out l) :
    Keeps C out' l' := by
  intro i
  rw [hk i]
  constructor
  · rintro (hi | hi)
    · exact Or.inl (hi.trans_le h.bytesWritten_le)
    · exact h.holds hok hi
  · rintro (hi | hi)
    · by_cases hw : i < out.bytesWritten
      · exact Or.inl hw
      · exact Or.inr (h.held_of_written hok (by omega) hi)
    · exact Or.inr (hi.mono fun n hn => h.suffix.subset hn)

/-- After draining, the next index is not there, if nothing reaches beyond the limit. -/
theorem Fetches.not_next {C : ℕ → Prop} {out out' : ByteStream} {remain remain' : ℕ}
    {l l' : List Node} (h : Fetches out remain l out' remain' l') (ht : Tidy l)
    (hk : Keeps C out' l') (hlim : ∀ i, C i → i < out'.limit) : ¬ C out'.bytesWritten := by
  intro hc
  rcases h.stops with rfl | hfull | ⟨n, hn, hlt⟩
  · rcases (hk _).mp hc with h | h
    · exact absurd h (lt_irrefl _)
    · exact not_held_nil _ h
  · have := hlim _ hc
    have := out'.bytesWritten_add_remainingCapacity
    omega
  · obtain ⟨t, rfl⟩ := List.head?_eq_some_iff.mp hn
    rcases (hk _).mp hc with h' | h'
    · exact absurd h' (lt_irrefl _)
    · exact (ht.sublist h.suffix.sublist).inOrder.not_held_of_lt hlt h'

/-- A reassembler that has lost nothing of the substrings pushed. -/
structure Complete (pushes : List Push) (r : StreamReassembler) : Prop where
  /-- The bookkeeping of the list. -/
  kept : Kept r
  /-- What has been pushed is what has been written or is held. -/
  keeps : Keeps (Covered pushes) r.output r.head
  /-- All of it lies in the window. -/
  window : ∀ p ∈ pushes, p.stop ≤ r.output.limit
  /-- The next index has not been pushed. -/
  next : ¬ Covered pushes r.output.bytesWritten

theorem complete_make (capacity : ℕ) : Complete [] (make capacity) := by
  refine ⟨kept_make capacity, fun i => ?_, by simp, by simp [Covered]⟩
  simp [Covered, make]

theorem Complete.readOut {pushes : List Push} {r : StreamReassembler} (h : Complete pushes r)
    (len : ℕ) : Complete pushes (r.readOut len) := by
  refine ⟨h.kept.readOut len, h.keeps, fun p hp => (h.window p hp).trans ?_, h.next⟩
  simp only [StreamReassembler.readOut, ByteStream.limit, ByteStream.read_snd,
    ByteStream.popOutput_bytesRead, ByteStream.popOutput_maximumcapacity]
  omega

theorem Complete.lt_limit {pushes : List Push} {r : StreamReassembler} (h : Complete pushes r) {i : ℕ}
    (hi : Covered pushes i) : i < r.output.limit := by
  obtain ⟨p, hp, _, h2⟩ := hi
  have := h.window p hp
  omega

/-- Inside the window no block is cut in two. -/
theorem Complete.wholeBlocks {pushes : List Push} {r : StreamReassembler} (h : Complete pushes r)
    {p : Push} (hp : p.stop ≤ r.output.limit) : WholeBlocks r p.data p.index := by
  refine Or.inr (Or.inr ⟨fun n hn => ?_, Or.inr (Or.inl hp)⟩)
  by_contra hnot
  -- the last byte below the end of the block is held, so it has been pushed
  have hheld : Holds r.head (n.stop - 1) := ⟨n, hn, by omega, by omega⟩
  have := h.lt_limit ((h.keeps _).mpr (Or.inr hheld))
  omega

/-- Writing a substring that reaches the next index keeps it. -/
theorem Complete.keeps_put {pushes : List Push} {r : StreamReassembler} (h : Complete pushes r) {p : Push}
    {out : ByteStream} (hput : out.bytesWritten = p.stop) (hle : p.index ≤ r.output.bytesWritten)
    (hlt : r.output.bytesWritten ≤ p.stop) : Keeps (Covered (pushes ++ [p])) out r.head := by
  intro i
  rw [covered_append_singleton, h.keeps i, hput]
  constructor
  · rintro ((hi | hi) | hi)
    · exact Or.inl (by omega)
    · exact Or.inr hi
    · exact Or.inl (by omega)
  · rintro (hi | hi)
    · by_cases hw : i < r.output.bytesWritten
      · exact Or.inl (Or.inl hw)
      · exact Or.inr ⟨by omega, by omega⟩
    · exact Or.inl (Or.inr hi)

/-- Inserting a substring into the list keeps it, if there is room. -/
theorem Complete.keeps_insert {pushes : List Push} {r : StreamReassembler} (h : Complete pushes r)
    {p : Push} {l : List Node} {remain : ℕ}
    (hins : InsertsAtHead p.eof r.remaincapacity p.data p.index r.head l remain) (hi : 1 ≤ p.index)
    (hroom : Room (Holds r.head) p.index p.data.length r.remaincapacity) :
    Keeps (Covered (pushes ++ [p])) r.output l := by
  have hstop : p.stop = p.index + p.data.length := rfl
  intro i
  rw [covered_append_singleton, h.keeps i]
  constructor
  · rintro ((hi | hi) | hi)
    · exact Or.inl hi
    · exact Or.inr (hi.mono fun n hn => hins.sublist.subset hn)
    · exact Or.inr (hins.complete h.kept.tidy hroom i hi.1 (by omega))
  · rintro (hi | hi)
    · exact Or.inl (Or.inl hi)
    · rcases hins.holds (by omega) hi with hi | hi
      · exact Or.inl (Or.inr hi)
      · exact Or.inr ⟨hi.1, by omega⟩

/-- **A push loses nothing**, if it lies in the window and, when it has to be kept, there is
room for it in the list. -/
theorem Complete.push {pushes : List Push} {r : StreamReassembler} (h : Complete pushes r) {p : Push}
    (hp : p.stop ≤ r.output.limit)
    (hroom : r.output.bytesWritten < p.index → Room (Holds r.head) p.index p.data.length r.remaincapacity) :
    Complete (pushes ++ [p]) (r.pushSubstring p.data p.index p.eof) := by
  have hpush := push_spec h.kept p.eof (h.wholeBlocks hp)
  have hstop : p.stop = p.index + p.data.length := rfl
  have hlim : ∀ i, Covered (pushes ++ [p]) i → i < r.output.limit := by
    intro i hi
    rcases covered_append_singleton.mp hi with hi | hi
    · exact h.lt_limit hi
    · omega
  have hwindow : ∀ q ∈ pushes ++ [p], q.stop ≤ r.output.limit := by
    intro q hq
    rcases List.mem_append.mp hq with hq | hq
    · exact h.window q hq
    · rwa [List.mem_singleton.mp hq]
  have hkept := hpush.kept h.kept
  generalize r.pushSubstring p.data p.index p.eof = r' at hpush hkept ⊢
  rw [← hpush.limit_eq] at hlim hwindow
  cases hpush with
  | old hold =>
    refine ⟨hkept, fun i => ?_, hwindow, fun hc => ?_⟩
    · rw [covered_append_singleton, h.keeps i]
      exact ⟨fun hi => hi.elim id fun hi => Or.inl (by omega), Or.inl⟩
    · rcases covered_append_singleton.mp hc with hc | hc
      · exact h.next hc
      · omega
  | direct h1 h2 h3 hf =>
    have hput := ByteStream.put_drop_bytesWritten p.eof h1 h2 h3
    have hkeeps' := hf.keeps h.kept.tidy.ok (h.keeps_put hput (by omega) (by omega))
    exact ⟨hkept, hkeeps', hwindow, hf.not_next h.kept.tidy hkeeps' hlim⟩
  | past _ _ h2 => omega
  | without => omega
  | @gap _ _ _ l _ hgap hins hf =>
    have ht := hins.tidy (by omega) h.kept.tidy
    have hkeeps' := hf.keeps ht.ok (h.keeps_insert hins (by omega) (hroom hgap))
    exact ⟨hkept, hkeeps', hwindow, hf.not_next ht hkeeps' hlim⟩

/-- The number of bytes written is the length of the longest stretch pushed. -/
theorem Complete.isGreatest {pushes : List Push} {r : StreamReassembler} (h : Complete pushes r) :
    IsGreatest {k | ∀ i < k, Covered pushes i} r.output.bytesWritten := by
  constructor
  · intro i hi
    exact (h.keeps i).mpr (Or.inl hi)
  · intro k hk
    by_contra hlt
    exact h.next (hk _ (not_le.mp hlt))

/-! ### Runs -/

/-- A push inside the window. -/
def Call.InWindow (t : Session) : Call → Prop
  | .push p => p.stop ≤ t.output.limit
  | .read _ => True

instance (t : Session) : ∀ c : Call, Decidable (c.InWindow t)
  | .push p => inferInstanceAs (Decidable (p.stop ≤ _))
  | .read _ => .isTrue trivial

/-- The list has room for a push that has to be kept. -/
def Call.Fits (t : Session) : Call → Prop
  | .push p => t.output.bytesWritten < p.index →
      Room (Holds t.reassembler.head) p.index p.data.length t.reassembler.remaincapacity
  | .read _ => True

instance (t : Session) : ∀ c : Call, Decidable (c.Fits t)
  | .push p => inferInstanceAs (Decidable (_ < p.index → _))
  | .read _ => .isTrue trivial

theorem Complete.step {t : Session} (h : Complete t.pushes t.reassembler) {c : Call}
    (hw : c.InWindow t) (hf : c.Fits t) : Complete (t.step c).pushes (t.step c).reassembler := by
  cases c with
  | push p => exact h.push hw hf
  | read len => exact h.readOut len

/-- Whatever a run inside the window pushes is kept until it is written. -/
theorem complete_runs {capacity : ℕ} {calls : List Call}
    (h : Along Session.step (fun t c => c.InWindow t ∧ c.Fits t) (Session.start capacity) calls) :
    Complete (runs Session.step (Session.start capacity) calls).pushes
      (runs Session.step (Session.start capacity) calls).reassembler :=
  h.invariant (I := fun t => Complete t.pushes t.reassembler)
    (fun _ _ hi hc => hi.step hc.1 hc.2) (complete_make capacity)

/-- **Completeness of reassembly.** In every run of pushes inside the window and reads in which
the list has room for what has to be kept, the number of bytes written is the largest `k` such
that every index below `k` has been pushed; so two such runs that push the same substrings in
different orders have written equally many. -/
theorem bytesWritten_isGreatest (capacity : ℕ) (calls : List Call)
    (h : Along Session.step (fun t c => c.InWindow t ∧ c.Fits t) (Session.start capacity) calls) :
    IsGreatest {k | ∀ i < k, Covered (runs Session.step (Session.start capacity) calls).pushes i}
        (runs Session.step (Session.start capacity) calls).output.bytesWritten ∧
      ∀ calls' : List Call,
        Along Session.step (fun t c => c.InWindow t ∧ c.Fits t) (Session.start capacity) calls' →
          (runs Session.step (Session.start capacity) calls').pushes.Perm
              (runs Session.step (Session.start capacity) calls).pushes →
            (runs Session.step (Session.start capacity) calls').output.bytesWritten =
              (runs Session.step (Session.start capacity) calls).output.bytesWritten := by
  have hg := (complete_runs h).isGreatest
  refine ⟨hg, fun calls' h' hperm => ?_⟩
  have hg' := (complete_runs h').isGreatest
  simp only [Covered, hperm.mem_iff] at hg'
  exact hg'.unique hg

/-- Overlapping pieces that arrive in reverse order. -/
theorem bytesWritten_isGreatest_abcd :
    Along Session.step (fun t c => c.InWindow t ∧ c.Fits t) (Session.start 4)
        [.push ⟨[100], 3, true⟩, .push ⟨[98, 99], 1, false⟩, .push ⟨[97, 98], 0, false⟩] ∧
      IsGreatest {k | ∀ i < k, Covered [⟨[100], 3, true⟩, ⟨[98, 99], 1, false⟩, ⟨[97, 98], 0, false⟩] i}
        (runs Session.step (Session.start 4)
          [.push ⟨[100], 3, true⟩, .push ⟨[98, 99], 1, false⟩, .push ⟨[97, 98], 0, false⟩]).output.bytesWritten :=
  ⟨by decide, (bytesWritten_isGreatest 4
    [.push ⟨[100], 3, true⟩, .push ⟨[98, 99], 1, false⟩, .push ⟨[97, 98], 0, false⟩] (by decide)).1⟩

/-- A byte that is lost inside the window: with capacity `4` and `bc` held, two bytes of room are
left. Of `bcd` at `1` the first two bytes are looked at, which are held already, and `d` is not
kept, though there is room for it. -/
theorem bytesWritten_not_isGreatest :
    Along Session.step (fun t c => c.Of [97, 98, 99, 100] ∧ c.InWindow t) (Session.start 4)
        [.push ⟨[98, 99], 1, false⟩, .push ⟨[98, 99, 100], 1, true⟩, .push ⟨[97], 0, false⟩] ∧
      ¬ IsGreatest {k | ∀ i < k, Covered (runs Session.step (Session.start 4) [.push ⟨[98, 99], 1, false⟩,
            .push ⟨[98, 99, 100], 1, true⟩, .push ⟨[97], 0, false⟩]).pushes i}
          (runs Session.step (Session.start 4) [.push ⟨[98, 99], 1, false⟩,
            .push ⟨[98, 99, 100], 1, true⟩, .push ⟨[97], 0, false⟩]).output.bytesWritten := by
  refine ⟨by decide, fun h => ?_⟩
  -- all of `abcd` has been pushed, and three bytes have been written
  exact absurd (h.2 (show ∀ i < 4, Covered _ i by decide)) (by decide)

end Sponge
