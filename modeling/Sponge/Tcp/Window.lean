import Sponge.Tcp.Transmission

/-!
# How the window is filled

The window of the peer ends at the recorded acknowledgment plus the recorded window, a closed window
counting as one. `fill_window` makes segments until it has reached that position (`limit`), has sent the
FIN, or finds nothing to send. A segment carries as many bytes as it may, so only the end of the window or
the end of what has been written makes one short.

## What is proved

* `nextSegment_cut` — what makes a segment shorter than the maximum.
* `Fills.segments`, `Fills.stops` — what a run of the loop makes, and why it stops.
* `window_filled` — in every run `fill_window` fills the window exactly.
-/

namespace Sponge

namespace TCPSender

/-- Where the window ends. -/
def limit (s : TCPSender) : ℕ := max s.nextSeqnoAbsolute (s.ackno + max s.windowSz 1)

theorem nextSeqno_add_freeWindow (s : TCPSender) : s.nextSeqno + s.freeWindow = s.limit := by
  rw [freeWindow, usableWindow_eq_max, limit, nextSeqnoAbsolute]
  omega

/-- A segment at the position `x` that may be sent before the position `stop`. -/
structure FitsAt (isn : WrappingInt32) (stop x : ℕ) (seg : TCPSegment) : Prop where
  /-- Its sequence number is that of the position. -/
  seqno : seg.header.seqno = wrap x isn
  /-- It occupies at least one sequence number. -/
  pos : 0 < seg.lengthInSequenceSpace
  /-- It does not carry more than a segment may. -/
  payload : seg.payload.length ≤ maxPayloadSize
  /-- It does not reach beyond the window. -/
  inside : x + seg.lengthInSequenceSpace ≤ stop

section NextSegment

variable (s : TCPSender) {w : ℕ} (hw : 0 < w)
include hw

theorem nextSegment_fitsAt (hlen : 0 < (s.nextSegment w).1.lengthInSequenceSpace) :
    FitsAt s.isn (s.nextSeqno + w) s.nextSeqno (s.nextSegment w).1 := by
  have hpayload := s.nextSegment_payload_length w
  have hle := s.nextSegment_length_le w hw
  exact ⟨s.nextSegment_seqno w, hlen, by omega, by omega⟩

/-- **What makes a segment short**: the end of the window, or the end of what there is to send. -/
theorem nextSegment_cut : (s.nextSegment w).1.payload.length = maxPayloadSize ∨
    (s.nextSegment w).1.lengthInSequenceSpace = w ∨ (s.nextSegment w).1.payload = s.stream.que := by
  have hpayload := s.nextSegment_payload_length w
  have hlength := s.nextSegment_length w
  have hle := s.nextSegment_length_le w hw
  rcases Nat.lt_or_ge (s.nextSegment w).1.payload.length s.stream.bufferSize with hmore | hall
  · rcases Nat.lt_or_ge (s.nextSegment w).1.payload.length maxPayloadSize with hshort | hfull
    · -- neither the stream nor the maximum has stopped it
      refine Or.inr (Or.inl ?_)
      split_ifs at hpayload hlength <;> omega
    · exact Or.inl (by omega)
  · refine Or.inr (Or.inr ?_)
    rw [nextSegment_payload]
    exact List.take_of_length_le hall

end NextSegment

variable {s s' : TCPSender} {w : ℕ}

/-- **What the loop makes**: segments that follow each other inside the window, each as long as the
window, the maximum and the stream allow. -/
theorem Fills.segments (h : Fills s w s') : ∃ l, s'.segmentsOut = s.segmentsOut ++ l ∧
    Tiles TCPSegment.lengthInSequenceSpace (FitsAt s.isn (s.nextSeqno + w)) s.nextSeqno l s'.nextSeqno ∧
    ∀ before seg after, l = before ++ seg :: after → seg.payload.length = maxPayloadSize ∨
      s.nextSeqno + (before.map TCPSegment.lengthInSequenceSpace).sum + seg.lengthInSequenceSpace =
        s.nextSeqno + w ∨ (before ++ [seg]).flatMap (·.payload) = s.stream.que := by
  induction h with
  | stop =>
    refine ⟨[], (List.append_nil _).symm, rfl, ?_⟩
    intro before seg after hnil
    exact absurd hnil.symm (by simp)
  | @send s s' w hw hfin hlen hrest ih =>
    obtain ⟨l, hout, htiles, hcut⟩ := ih
    have hle := s.nextSegment_length_le w hw
    -- the next turn works with the same end of the window
    have hstop : s.nextSeqno + (s.nextSegment w).1.lengthInSequenceSpace +
        (w - (s.nextSegment w).1.lengthInSequenceSpace) = s.nextSeqno + w := by omega
    simp only [transmit, advance, hstop] at hout htiles hcut
    refine ⟨(s.nextSegment w).1 :: l, ?_, ⟨s.nextSegment_fitsAt hw hlen, htiles⟩, ?_⟩
    · rw [hout, List.append_assoc, List.singleton_append]
    · intro before seg after hl
      cases before with
      | nil =>
        obtain ⟨rfl, -⟩ := List.cons.inj hl
        rcases s.nextSegment_cut hw with hmax | hend | hall
        · exact Or.inl hmax
        · exact Or.inr (Or.inl (by simp [hend]))
        · exact Or.inr (Or.inr (by simp [hall]))
      | cons first before =>
        obtain ⟨rfl, hl'⟩ := List.cons.inj hl
        rcases hcut before seg after hl' with hmax | hend | hall
        · exact Or.inl hmax
        · refine Or.inr (Or.inl ?_)
          rw [List.map_cons, List.sum_cons]
          omega
        · refine Or.inr (Or.inr ?_)
          rw [List.cons_append, List.flatMap_cons, hall, nextSegment_que]
          nth_rewrite 1 [nextSegment_payload]
          exact List.take_append_drop _ _

/-- **Why the loop stops.** -/
theorem Fills.stops (h : Fills s w s') : s'.nextSeqno = s.nextSeqno + w ∨ s'.setFin = true ∨
    s'.stream.que = [] ∧ s'.stream.inputEnded = false := by
  induction h with
  | stop hstop =>
    rcases hstop with rfl | hset | ⟨-, hidle⟩
    · exact Or.inl rfl
    · exact Or.inr (Or.inl hset)
    · exact Or.inr (Or.inr hidle)
  | @send s s' w hw _ _ _ ih =>
    have hle := s.nextSegment_length_le w hw
    rcases ih with hfull | hrest
    · simp only [transmit, advance] at hfull
      exact Or.inl (by omega)
    · exact Or.inr hrest

/-- **`fill_window` fills the window exactly.** In every state that a sender reaches, the segments that
`fill_window` makes follow each other from `next_seqno_absolute()` on; each occupies at least one sequence
number, carries at most `MAX_PAYLOAD_SIZE` bytes and ends at or before the end of the window. It stops at
the end of the window, when the FIN has been sent, or when there is no byte to send and the input has not
ended. A segment carries exactly `MAX_PAYLOAD_SIZE` bytes, unless it ends with the window or with the last
byte that has been written. -/
theorem window_filled (capacity : ℕ) (retxTimeout : UInt16) (fixedIsn : Option WrappingInt32)
    (random : WrappingInt32) (cs : List SenderCall) :
    let s := runs TCPSender.call (make capacity retxTimeout fixedIsn random) cs
    let t := runs Transmission.step (.start (make capacity retxTimeout fixedIsn random)) cs
    t.sender = s ∧
    Tiles TCPSegment.lengthInSequenceSpace (FitsAt s.isn s.limit) s.nextSeqnoAbsolute s.created
      s.fillWindow.nextSeqnoAbsolute ∧
    (s.fillWindow.nextSeqnoAbsolute = s.limit ∨ (∃ seg ∈ t.created ++ s.created, seg.header.fin = true) ∨
      s.fillWindow.streamIn.bufferSize = 0 ∧ s.fillWindow.streamIn.inputEnded = false) ∧
    ∀ before seg after, s.created = before ++ seg :: after →
      seg.payload.length = maxPayloadSize ∨
      s.nextSeqnoAbsolute + (before.map TCPSegment.lengthInSequenceSpace).sum + seg.lengthInSequenceSpace =
        s.limit ∨
      (before ++ [seg]).flatMap (·.payload) = s.streamIn.que := by
  intro s t
  have hs : t.sender = s := Transmission.runs_sender _ cs
  have ht : Transmitted t := transmitted_runs _ _ _ _ cs
  obtain ⟨l, hout, htiles, hcut⟩ := s.fillWindow_fills.segments
  have hmade : s.created = l := by rw [created, hout, List.drop_left]
  rw [nextSeqno_add_freeWindow] at htiles hcut
  rw [hmade]
  refine ⟨hs, htiles, ?_, hcut⟩
  rcases s.fillWindow_fills.stops with hfull | hset | ⟨hque, hopen⟩
  · rw [nextSeqno_add_freeWindow] at hfull
    exact Or.inl hfull
  · refine Or.inr (Or.inl ?_)
    have hfill : Transmitted ⟨t.sender.fillWindow, t.accepted, t.created ++ t.sender.created⟩ := ht.fillWindow
    rw [hs] at hfill
    rw [← hmade]
    exact hfill.setFin.mp hset
  · refine Or.inr (Or.inr ⟨?_, hopen⟩)
    rw [streamIn, ByteStream.bufferSize, hque, List.length_nil]

end TCPSender

end Sponge
