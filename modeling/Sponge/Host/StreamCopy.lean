import Sponge.Host.EventLoop

/-!
# Copying both ways

`bidirectional_stream_copy` connects a socket to the standard input and output: what is read from
one is written to the other, through a `ByteStream` in each direction. It is what the programs do
once they have a connection.

## The model

The four rules are two of a kind: for each direction one that fills the stream and one that drains
it. They differ in the descriptors and in what is done at the end, when the socket is shut down for
writing, or the output closed. A run is given a number of passes; a run that has not returned by
then ends with `outOfSteps`, so that what is proved of every number of passes is proved of the copy
at work.

## What is proved

* `Copying` — the invariant: what has been read is what has been written and what is in the stream.
  It says too which rules are left while a stream may still be filled.
* `bidirectionalStreamCopy_outcome` — nothing is lost, made up or put out of order, whatever the
  kernel answers. The end is passed on only after everything else, and the function returns only
  when both directions are done. It throws nothing but errors of system calls.
-/

namespace Sponge

/-- The descriptors of the copy. -/
inductive CopyFd where
  /-- `_input`. -/
  | input
  /-- `_output`. -/
  | output
  /-- `socket`. -/
  | socket
  deriving DecidableEq

/-- The two directions of the copy. -/
inductive Way where
  /-- From the input to the socket. -/
  | outbound
  /-- From the socket to the output. -/
  | inbound
  deriving DecidableEq

namespace Way

/-- Where the bytes come from. -/
def source : Way → CopyFd
  | outbound => .input
  | inbound => .socket

/-- Where the bytes go. -/
def sink : Way → CopyFd
  | outbound => .socket
  | inbound => .output

/-- The other direction. -/
def other : Way → Way
  | outbound => inbound
  | inbound => outbound

end Way

/-- The variables of the copy. -/
structure StreamCopy where
  /-- `_outbound` and `_inbound`. -/
  stream : Way → ByteStream
  /-- `_outbound_shutdown` and `_inbound_shutdown`. -/
  shutdown : Way → Bool

namespace StreamCopy

/-- `max_copy_length`. -/
def maxCopyLength : ℕ := 65536

/-- `buffer_size`. -/
def bufferSize : ℕ := 1048576

/-- The variables at the beginning. -/
def start : StreamCopy where
  stream := fun _ => .make bufferSize
  shutdown := fun _ => false

/-- A stream is changed. -/
def onStream (way : Way) (f : ByteStream → ByteStream) : Prog CopyFd StreamCopy Unit := modify fun s =>
  { s with own := { s.own with stream := Function.update s.own.stream way (f (s.own.stream way)) } }

/-- What is done at the end of a stream. -/
def finish : Way → Prog CopyFd StreamCopy Unit
  | .outbound => FileDescriptor.shutdown .socket .wr
  | .inbound => FileDescriptor.close .output

/-- The call by which it is done. -/
def finishCall : Way → SysCall CopyFd
  | .outbound => .shutdown .socket .wr
  | .inbound => .close .output

/-- Read from a descriptor into a byte stream. -/
def fillRule (way : Way) : Rule CopyFd StreamCopy where
  fd := way.source
  direction := .In
  callback := do
    let data ← FileDescriptor.read way.source ((← get).own.stream way).remainingCapacity
    onStream way fun stream => (stream.write data).2
    if ((← get).fds way.source).eof then
      onStream way ByteStream.endInput
  interest s := !(s.own.stream way).error && decide ((s.own.stream way).remainingCapacity > 0) &&
    !(s.own.stream way.other).error
  cancel := onStream way ByteStream.endInput

/-- Read from a byte stream into a descriptor. -/
def drainRule (way : Way) : Rule CopyFd StreamCopy where
  fd := way.sink
  direction := .Out
  callback := do
    let stream := (← get).own.stream way
    let bytesToWrite := min maxCopyLength stream.bufferSize
    let bytesWritten ← FileDescriptor.write way.sink (.ofString (stream.peekOutput bytesToWrite)) false
    onStream way fun stream => stream.popOutput bytesWritten
    if ((← get).own.stream way).eof then
      finish way
      modify fun s => { s with own := { s.own with shutdown := Function.update s.own.shutdown way true } }
  interest s := !(s.own.stream way).bufferEmpty || (s.own.stream way).eof && !s.own.shutdown way
  cancel := onStream way ByteStream.endInput

/-- Rule 1: read from stdin into outbound byte stream. -/
def rule1 : Rule CopyFd StreamCopy := fillRule .outbound

/-- Rule 2: read from outbound byte stream into socket. -/
def rule2 : Rule CopyFd StreamCopy := drainRule .outbound

/-- Rule 3: read from socket into inbound byte stream. -/
def rule3 : Rule CopyFd StreamCopy := fillRule .inbound

/-- Rule 4: read from inbound byte stream into stdout. -/
def rule4 : Rule CopyFd StreamCopy := drainRule .inbound

/-- The rules. -/
def rules : List (Rule CopyFd StreamCopy) := [rule1, rule2, rule3, rule4]

/-- The loop until completion: the rules that are left when it returns. -/
def copyLoop : ℕ → List (Rule CopyFd StreamCopy) → Prog CopyFd StreamCopy (List (Rule CopyFd StreamCopy))
  | 0, _ => throw .outOfSteps
  | passes + 1, rules => do
    let (result, rules) ← EventLoop.waitNextEvent rules
    if result == .exit then
      return rules
    copyLoop passes rules

/-- `bidirectional_stream_copy`. -/
def bidirectionalStreamCopy (passes : ℕ) : Prog CopyFd StreamCopy (List (Rule CopyFd StreamCopy)) :=
  copyLoop passes rules

/-! ### One direction -/

variable {s s' : Process CopyFd StreamCopy} {way : Way}

@[simp] theorem outcome_onStream {Q : PUnit → Process CopyFd StreamCopy → Prop}
    {E : Failure → Process CopyFd StreamCopy → Prop} {f : ByteStream → ByteStream} :
    Outcome Q E (onStream way f s) ↔
      Q ⟨⟩ { s with own := { s.own with stream := Function.update s.own.stream way (f (s.own.stream way)) } } :=
  Iff.rfl

/-- The calls of a run, seen from one direction. -/
structure Faithful (calls : List (SysCall CopyFd)) (way : Way) : Prop where
  /-- What has been written has been read, in this order. -/
  ordered : written way.sink calls <+: received way.source calls
  /-- When the end has been passed on, so has everything else. -/
  complete : finishCall way ∈ calls → written way.sink calls = received way.source calls

/-- A direction at work. -/
structure Flow (s : Process CopyFd StreamCopy) (way : Way) : Prop where
  /-- What has been read has been written or is in the stream. -/
  bytes : received way.source s.calls = written way.sink s.calls ++ (s.own.stream way).que
  /-- The stream is in order. -/
  error : (s.own.stream way).error = false
  /-- The stream has the capacity it was made with. -/
  room : (s.own.stream way).maximumcapacity = bufferSize
  /-- The end has been passed on when `_shutdown` says so. -/
  told : finishCall way ∈ s.calls ↔ s.own.shutdown way = true
  /-- And then there is nothing left. -/
  done : s.own.shutdown way = true → (s.own.stream way).eof = true

theorem Flow.faithful (h : Flow s way) : Faithful s.calls way := by
  refine ⟨⟨_, h.bytes.symm⟩, fun hfinish => ?_⟩
  have hempty := ((ByteStream.eof_iff _).mp (h.done (h.told.mp hfinish))).2
  rw [h.bytes, hempty, List.append_nil]

/-- What does not concern a direction. -/
structure Aside (s s' : Process CopyFd StreamCopy) (way : Way) : Prop where
  /-- The stream. -/
  stream : s'.own.stream way = s.own.stream way
  /-- Whether it is shut down. -/
  shutdown : s'.own.shutdown way = s.own.shutdown way
  /-- What has been read. -/
  received : received way.source s'.calls = received way.source s.calls
  /-- What has been written. -/
  written : written way.sink s'.calls = written way.sink s.calls
  /-- Whether the end has been passed on. -/
  finish : finishCall way ∈ s'.calls ↔ finishCall way ∈ s.calls

theorem Flow.aside (h : Flow s way) (h' : Aside s s' way) : Flow s' way := by
  refine ⟨?_, ?_, ?_, ?_, ?_⟩
  · rw [h'.received, h'.written, h'.stream, h.bytes]
  · rw [h'.stream, h.error]
  · rw [h'.stream, h.room]
  · rw [h'.finish, h'.shutdown, h.told]
  · rw [h'.shutdown, h'.stream]
    exact h.done

/-- What a call of either rule leaves as it is. -/
structure Frame (way : Way) (s s' : Process CopyFd StreamCopy) : Prop where
  /-- The other direction. -/
  aside : ∀ w ≠ way, Aside s s' w
  /-- A descriptor at its end stays there. -/
  eof : ∀ fd, (s.fds fd).eof = true → (s'.fds fd).eof = true
  /-- The answers are used up in order. -/
  answers : s'.answers <:+ s.answers

/-- What a rule has done that fills a stream. -/
structure Filled (way : Way) (s s' : Process CopyFd StreamCopy) : Prop extends Frame way s s' where
  /-- The direction is still at work. -/
  flow : s.own.shutdown way = false → Flow s way → Flow s' way
  /-- Nothing is shut down. -/
  shutdown : s'.own.shutdown way = s.own.shutdown way
  /-- The stream is ended at the end of the descriptor. -/
  ended : (s'.own.stream way).inputEnded = true ↔
    (s.own.stream way).inputEnded = true ∨ (s'.fds way.source).eof = true
  /-- The descriptor has been read. -/
  count : (s'.fds way.source).readCount = (s.fds way.source).readCount + 1

/-- What a rule has done that drains a stream. -/
structure Drained (way : Way) (s s' : Process CopyFd StreamCopy) : Prop extends Frame way s s' where
  /-- The direction is still at work. -/
  flow : Flow s way → Flow s' way
  /-- The stream is shut down only if it is over. -/
  shutdown : s'.own.shutdown way = true → s.own.shutdown way = true ∨ (s.own.stream way).inputEnded = true
  /-- The stream is not ended. -/
  ended : (s'.own.stream way).inputEnded = (s.own.stream way).inputEnded
  /-- The descriptor has been written. -/
  count : (s'.fds way.sink).writeCount ≠ (s.fds way.sink).writeCount

/-! ### What each rule does -/

theorem source_injective {w w' : Way} : w.source = w'.source ↔ w = w' := by
  cases w <;> cases w' <;> simp [Way.source]

theorem sink_injective {w w' : Way} : w.sink = w'.sink ↔ w = w' := by
  cases w <;> cases w' <;> simp [Way.sink]

theorem finishCall_ne_read (fd : CopyFd) (data : Bytes) : finishCall way ≠ .read fd data := by
  cases way <;> simp [finishCall]

theorem finishCall_not_mem_writes (fd : CopyFd) (bytes : Bytes) (counts : List ℕ) :
    finishCall way ∉ FileDescriptor.writes fd bytes counts := by
  induction counts generalizing bytes with
  | nil => simp [FileDescriptor.writes]
  | cons count counts ih =>
    rw [FileDescriptor.writes, List.mem_cons, not_or]
    exact ⟨by cases way <;> simp [finishCall], ih _⟩

/-- The process when data has been read and the stream has become `stream`. -/
theorem filled_of {data : Bytes} {limit : ℕ} {stream : ByteStream} (hque : stream.que = (s.own.stream way).que ++ data)
    (herror : stream.error = (s.own.stream way).error)
    (hroom : stream.maximumcapacity = (s.own.stream way).maximumcapacity)
    (hended : stream.inputEnded = true ↔ (s.own.stream way).inputEnded = true ∨
      ((FileDescriptor.afterRead s way.source limit data).fds way.source).eof = true) :
    Filled way s { FileDescriptor.afterRead s way.source limit data with
      own := { s.own with stream := Function.update s.own.stream way stream } } := by
  have hfinish : ∀ w, finishCall w ∈ s.calls ++ [.read way.source data] ↔ finishCall w ∈ s.calls := fun w => by
    simp [finishCall_ne_read]
  have hwritten : ∀ w : Way, written w.sink (s.calls ++ [.read way.source data]) = written w.sink s.calls := by
    simp [written, SysCall.written]
  refine ⟨⟨fun w hw => ⟨Function.update_of_ne hw .., rfl, ?_, hwritten w, hfinish w⟩, fun fd heof => ?_, ?_⟩,
    fun hshut hflow => ⟨?_, ?_, ?_, ?_, fun hshut' => ?_⟩, rfl, ?_, ?_⟩
  · simp [received, SysCall.received, source_injective, Ne.symm hw]
  · by_cases hfd : fd = way.source
    · subst hfd
      simp [FileDescriptor.afterRead_fds_self, heof]
    · rwa [FileDescriptor.afterRead_fds_of_ne _ _ _ hfd]
  · exact List.tail_suffix _
  · simp only [Function.update_self, FileDescriptor.afterRead_calls, received_append, hflow.bytes, hwritten, hque]
    simp [received, SysCall.received]
  · simp only [Function.update_self, herror, hflow.error]
  · simp only [Function.update_self, hroom, hflow.room]
  · rw [FileDescriptor.afterRead_calls, hfinish, hflow.told]
  · rw [hshut] at hshut'
    cases hshut'
  · simpa only [Function.update_self] using hended
  · simp [FileDescriptor.afterRead_fds_self]

/-- **Filling** a stream. -/
theorem fillRule_outcome (way : Way) (s : Process CopyFd StreamCopy) :
    Outcome (fun _ s' => Filled way s s') (fun e s' => e.FromKernel ∧ Untouched s s') ((fillRule way).callback s) := by
  simp only [fillRule, outcome_bind, outcome_get]
  refine (FileDescriptor.read_outcome ..).mono ?_ fun _ _ he => he
  rintro data s₁ ⟨rfl, hlen⟩
  have hfits : data.length ≤ (s.own.stream way).remainingCapacity := le_trans hlen (min_le_right _ _)
  simp only [outcome_onStream, outcome_ite, outcome_pure, FileDescriptor.afterRead_own, Function.update_self,
    Function.update_idem]
  refine ⟨fun heof => filled_of ?_ rfl rfl ?_, fun heof => filled_of ?_ rfl rfl ?_⟩
  · rw [ByteStream.endInput_que, ByteStream.write_que_of_le hfits]
  · simp [heof]
  · exact ByteStream.write_que_of_le hfits
  · simp [heof]

/-- What is done at the end of a stream. -/
structure Finished (way : Way) (s s' : Process CopyFd StreamCopy) : Prop where
  /-- The variables are the same. -/
  own : s'.own = s.own
  /-- The call has been made. -/
  calls : s'.calls = s.calls ++ [finishCall way]
  /-- An answer has been used up. -/
  answers : s'.answers = s.answers.tail
  /-- A descriptor at its end stays there. -/
  eof : ∀ fd, (s.fds fd).eof = true → (s'.fds fd).eof = true
  /-- The descriptor may have been written. -/
  count : (s'.fds way.sink).writeCount = (s.fds way.sink).writeCount ∨
    (s'.fds way.sink).writeCount = (s.fds way.sink).writeCount + 1

theorem finish_outcome (way : Way) (s : Process CopyFd StreamCopy) :
    Outcome (fun _ s' => Finished way s s') (fun e s' => e.FromKernel ∧ Untouched s s') (finish way s) := by
  cases way with
  | outbound =>
    refine (FileDescriptor.shutdown_outcome CopyFd.socket s).mono ?_ fun _ _ he => he
    rintro - s' rfl
    refine ⟨rfl, rfl, rfl, fun fd heof => ?_, Or.inr ?_⟩
    · by_cases hfd : fd = .socket
      · subst hfd
        simpa [FileDescriptor.afterShutdown] using heof
      · simpa [FileDescriptor.afterShutdown, hfd] using heof
    · simp [FileDescriptor.afterShutdown, Way.sink]
  | inbound =>
    refine (FileDescriptor.close_outcome CopyFd.output s).mono ?_ fun _ _ he => he
    rintro - s' rfl
    refine ⟨rfl, rfl, rfl, fun fd heof => ?_, Or.inl ?_⟩
    · by_cases hfd : fd = .output
      · subst hfd
        simp [FileDescriptor.afterClose]
      · simpa [FileDescriptor.afterClose, hfd] using heof
    · simp [FileDescriptor.afterClose, Way.sink]

/-- Bytes have been written and popped. -/
theorem drained_of {len n : ℕ} (hn : n ≤ ((s.own.stream way).peekOutput len).length) :
    Drained way s { FileDescriptor.afterWrites s way.sink ((s.own.stream way).peekOutput len) [n] with
      own := { s.own with stream := Function.update s.own.stream way ((s.own.stream way).popOutput n) } } := by
  have hwritten := fun w : Way => FileDescriptor.written_writes way.sink w.sink
    (show [n].sum ≤ ((s.own.stream way).peekOutput len).length by simpa using hn)
  have hfinish : ∀ w, finishCall w ∈ s.calls ++ FileDescriptor.writes way.sink ((s.own.stream way).peekOutput len) [n] ↔
      finishCall w ∈ s.calls := fun w => by simp [finishCall_not_mem_writes]
  rw [ByteStream.peekOutput, List.length_take] at hn
  have htake : ((s.own.stream way).peekOutput len).take n = (s.own.stream way).que.take n := by
    rw [ByteStream.peekOutput, List.take_take, Nat.min_eq_left (by omega)]
  refine ⟨⟨fun w hw => ⟨Function.update_of_ne hw .., rfl, ?_, ?_, hfinish w⟩, fun fd heof => ?_, ?_⟩,
    fun hflow => ⟨?_, ?_, ?_, ?_, fun hshut => ?_⟩, fun hshut => Or.inl hshut, ?_, ?_⟩
  · simp
  · rw [FileDescriptor.afterWrites_calls, written_append, hwritten, if_neg (by rw [sink_injective]; exact Ne.symm hw),
      List.append_nil]
  · by_cases hfd : fd = way.sink
    · subst hfd
      simpa [FileDescriptor.afterWrites_fds_self] using heof
    · rwa [FileDescriptor.afterWrites_fds_of_ne _ _ _ hfd]
  · exact List.drop_suffix _ _
  · simp only [Function.update_self, FileDescriptor.afterWrites_calls, received_append, written_append,
      FileDescriptor.received_writes, hwritten, if_true, List.sum_singleton, List.append_nil, hflow.bytes,
      List.append_assoc, ByteStream.popOutput_que, htake]
    rw [Nat.min_eq_left (by omega), List.take_append_drop]
  · simp only [Function.update_self, ByteStream.popOutput_error, hflow.error]
  · simp only [Function.update_self, ByteStream.popOutput_maximumcapacity, hflow.room]
  · rw [FileDescriptor.afterWrites_calls, hfinish, hflow.told]
  · obtain ⟨hended, hempty⟩ := (ByteStream.eof_iff _).mp (hflow.done hshut)
    simp [ByteStream.eof_iff, hended, hempty]
  · simp only [Function.update_self, ByteStream.popOutput_inputEnded]
  · simp [FileDescriptor.afterWrites_fds_self]

/-- The end has been passed on. -/
theorem Drained.finished {s₁ s₂ : Process CopyFd StreamCopy} (h : Drained way s s₁)
    (heof : (s₁.own.stream way).eof = true)
    (hfinish : Finished way s₁ s₂) (hcount : (s₁.fds way.sink).writeCount = (s.fds way.sink).writeCount + 1) :
    Drained way s { s₂ with own := { s₂.own with shutdown := Function.update s₂.own.shutdown way true } } := by
  have hreceived : ∀ fd, received fd s₂.calls = received fd s₁.calls := fun fd => by
    rw [hfinish.calls, received_append]
    cases way <;> simp [received, finishCall, SysCall.received]
  have hwritten : ∀ fd, written fd s₂.calls = written fd s₁.calls := fun fd => by
    rw [hfinish.calls, written_append]
    cases way <;> simp [written, finishCall, SysCall.written]
  refine ⟨⟨fun w hw => ⟨?_, ?_, ?_, ?_, ?_⟩, fun fd hend => hfinish.eof fd (h.eof fd hend), ?_⟩,
    fun hflow => ⟨?_, ?_, ?_, ?_, fun _ => ?_⟩, fun _ => Or.inr ?_, ?_, ?_⟩
  · rw [← (h.aside w hw).stream, hfinish.own]
  · simp only [Function.update_of_ne hw, hfinish.own, (h.aside w hw).shutdown]
  · rw [← (h.aside w hw).received]
    exact hreceived _
  · rw [← (h.aside w hw).written]
    exact hwritten _
  · rw [← (h.aside w hw).finish, hfinish.calls]
    cases w <;> cases way <;> simp [finishCall] at hw ⊢
  · rw [hfinish.answers]
    exact (List.tail_suffix _).trans h.answers
  · have hbytes := (h.flow hflow).bytes
    simp only [hreceived, hwritten, hfinish.own, hbytes]
  · simp only [hfinish.own, (h.flow hflow).error]
  · simp only [hfinish.own, (h.flow hflow).room]
  · simp [hfinish.calls]
  · simpa only [hfinish.own] using heof
  · rw [← h.ended]
    exact ((ByteStream.eof_iff _).mp heof).1
  · simp only [hfinish.own, h.ended]
  · rcases hfinish.count with hsame | hmore
    · simp [hsame, hcount]
    · simp only [hmore, hcount, UInt32.add_assoc]
      simp

/-- A direction is faithful whatever becomes of the variables. -/
theorem Faithful.untouched (h : Faithful s.calls way) (h' : Untouched s s') : Faithful s'.calls way := by rwa [h'.calls]

theorem Drained.flow_all (h : Drained way s s') (hflow : ∀ w, Flow s w) (w : Way) : Flow s' w := by
  by_cases hw : w = way
  · subst hw
    exact h.flow (hflow w)
  · exact (hflow w).aside (h.aside w hw)

/-- **Draining** a stream. -/
theorem drainRule_outcome (way : Way) {s : Process CopyFd StreamCopy} (hflow : ∀ w, Flow s w) :
    Outcome (fun _ s' => Drained way s s') (fun e s' => e.FromKernel ∧ ∀ w, Faithful s'.calls w)
      ((drainRule way).callback s) := by
  simp only [drainRule, outcome_bind, outcome_get]
  refine (FileDescriptor.write_outcome ..).mono ?_ ?_
  · rintro n s₁ ⟨counts, hw⟩
    obtain rfl := hw.once rfl
    obtain rfl := hw.after
    have hle := hw.le
    rw [BufferViewList.bytes_ofString] at hle ⊢
    have hdrained := drained_of hle
    simp only [outcome_onStream, outcome_ite, outcome_pure, outcome_bind, outcome_modify,
      FileDescriptor.afterWrites_own]
    refine ⟨fun heof => ?_, fun _ => hdrained⟩
    refine (finish_outcome way _).mono ?_ ?_
    · rintro - s₂ hfinish
      exact hdrained.finished heof hfinish (by simp [FileDescriptor.afterWrites_fds_self])
    · rintro e s₂ ⟨he, huntouched⟩
      exact ⟨he, fun w => (hdrained.flow_all hflow w).faithful.untouched huntouched⟩
  · rintro e s₁ ⟨he, counts, hbroken⟩
    exact ⟨he, fun w => (hflow w).faithful.untouched hbroken.untouched⟩

/-! ### The rules that are left -/

theorem mem_rules {r : Rule CopyFd StreamCopy} : r ∈ rules ↔ ∃ way, r = fillRule way ∨ r = drainRule way := by
  simp only [rules, rule1, rule2, rule3, rule4, List.mem_cons, List.not_mem_nil, or_false]
  constructor
  · rintro (rfl | rfl | rfl | rfl)
    · exact ⟨_, Or.inl rfl⟩
    · exact ⟨_, Or.inr rfl⟩
    · exact ⟨_, Or.inl rfl⟩
    · exact ⟨_, Or.inr rfl⟩
  · rintro ⟨way, rfl | rfl⟩ <;> cases way <;> simp

theorem fillRule_ne_drainRule (w w' : Way) : fillRule w ≠ drainRule w' := by
  intro h
  have hdirection := congrArg Rule.direction h
  cases hdirection

theorem fillRule_injective {w w' : Way} : fillRule w = fillRule w' ↔ w = w' :=
  ⟨fun h => source_injective.mp (congrArg Rule.fd h), fun h => by rw [h]⟩

/-- The place of a rule among the four. -/
def place (r : Rule CopyFd StreamCopy) : ℕ :=
  match r.fd, r.direction with
  | .input, .In => 1
  | .socket, .Out => 2
  | .socket, .In => 3
  | _, _ => 4

theorem rules_pairwise : rules.Pairwise (place · < place ·) := by
  simp [rules, rule1, rule2, rule3, rule4, fillRule, drainRule, place, Way.source, Way.sink]

/-- **The invariant** of the copy, with the rules that are `present`. -/
structure Copying (answers : List Answer) (present : List (Rule CopyFd StreamCopy)) (s : Process CopyFd StreamCopy) :
    Prop where
  /-- The rules are some of the four, in order. -/
  rules : present.Sublist rules
  /-- Both directions are at work. -/
  flow : ∀ way, Flow s way
  /-- A stream that has ended and is drained is not filled: its descriptor is at the end. -/
  fed : ∀ way, (s.own.stream way).inputEnded = true → fillRule way ∈ present → drainRule way ∈ present →
    (s.fds way.source).eof = true
  /-- Nor is one that has been shut down. -/
  shut : ∀ way, s.own.shutdown way = true → fillRule way ∈ present → (s.fds way.source).eof = true
  /-- A stream has ended when it cannot be filled any more. -/
  gone : ∀ way, fillRule way ∉ present → (s.own.stream way).inputEnded = true
  /-- The answers are used up in order. -/
  answers : s.answers <:+ answers

namespace Copying

variable {answers : List Answer} {present kept rest : List (Rule CopyFd StreamCopy)} {r : Rule CopyFd StreamCopy}

/-- What has been done for one direction does not concern the other. -/
theorem next (h : Copying answers present s) (hframe : Frame way s s') (hflow : Flow s' way)
    (hfed : (s'.own.stream way).inputEnded = true → fillRule way ∈ present → drainRule way ∈ present →
      (s'.fds way.source).eof = true)
    (hshut : s'.own.shutdown way = true → fillRule way ∈ present → (s'.fds way.source).eof = true)
    (hended : (s.own.stream way).inputEnded = true → (s'.own.stream way).inputEnded = true) :
    Copying answers present s' := by
  have hcases : ∀ w, w = way ∨ Aside s s' w := fun w => (eq_or_ne w way).imp_right (hframe.aside w)
  refine ⟨h.rules, fun w => ?_, fun w => ?_, fun w => ?_, fun w hgone => ?_, hframe.answers.trans h.answers⟩
  all_goals obtain rfl | haside := hcases w
  · exact hflow
  · exact (h.flow w).aside haside
  · exact hfed
  · rw [haside.stream]
    exact fun hend hfill hdrain => hframe.eof _ (h.fed w hend hfill hdrain)
  · exact hshut
  · rw [haside.shutdown]
    exact fun hend hfill => hframe.eof _ (h.shut w hend hfill)
  · exact hended (h.gone w hgone)
  · rw [haside.stream]
    exact h.gone w hgone

/-- A stream is filled. -/
theorem filled (h : Copying answers present s) (hshut : s.own.shutdown way = false) (h' : Filled way s s') :
    Copying answers present s' := by
  refine h.next h'.toFrame (h'.flow hshut (h.flow way)) (fun hended hfill hdrain => ?_) (fun hshut' => ?_)
    fun hended => h'.ended.mpr (Or.inl hended)
  · rcases h'.ended.mp hended with hbefore | hnow
    · exact h'.eof _ (h.fed way hbefore hfill hdrain)
    · exact hnow
  · rw [h'.shutdown, hshut] at hshut'
    cases hshut'

/-- A stream is drained. -/
theorem drained (h : Copying answers present s) (hdrain : drainRule way ∈ present) (h' : Drained way s s') :
    Copying answers present s' := by
  refine h.next h'.toFrame (h'.flow (h.flow way)) (fun hended hfill _ => ?_) (fun hshut hfill => ?_) fun hended => ?_
  · rw [h'.ended] at hended
    exact h'.eof _ (h.fed way hended hfill hdrain)
  · refine h'.eof _ ?_
    rcases h'.shutdown hshut with hbefore | hended
    · exact h.shut way hbefore hfill
    · exact h.fed way hended hfill hdrain
  · rwa [h'.ended]

/-- The rules have their places. -/
theorem places (h : Copying answers (kept ++ r :: rest) s) :
    (∀ r' ∈ kept, place r' < place r) ∧ ∀ r' ∈ rest, place r < place r' := by
  have hpairwise := List.pairwise_append.mp (List.Pairwise.sublist h.rules rules_pairwise)
  exact ⟨fun r' hr' => hpairwise.2.2 r' hr' r List.mem_cons_self, (List.pairwise_cons.mp hpairwise.2.1).1⟩

/-- A rule is cancelled, and its stream ends. What the rules before it would answer does not change.
-/
theorem cancel (h : Copying answers (kept ++ r :: rest) s) :
    Outcome (fun _ s' => Copying answers (kept ++ rest) s' ∧ s'.own.shutdown = s.own.shutdown ∧
        ∀ r' ∈ kept, r'.interest s' = r'.interest s)
      (fun e s' => e.FromKernel ∧ ∀ w, Faithful s'.calls w) (r.cancel s) := by
  obtain ⟨hbefore, hafter⟩ := h.places
  have hsub : (kept ++ rest).Sublist (kept ++ r :: rest) := List.Sublist.append_left (List.sublist_cons_self _ _) _
  have hnot : r ∉ kept ++ rest := by
    rw [List.mem_append, not_or]
    exact ⟨fun hr => Nat.lt_irrefl _ (hbefore r hr), fun hr => Nat.lt_irrefl _ (hafter r hr)⟩
  have hkeep : ∀ r' ≠ r, r' ∈ kept ++ r :: rest → r' ∈ kept ++ rest := by
    intro r' hne hmem
    simpa [hne] using hmem
  obtain ⟨way, hr⟩ := mem_rules.mp (h.rules.subset (List.mem_append_right _ List.mem_cons_self))
  have hcancel : r.cancel = onStream way ByteStream.endInput := by rcases hr with rfl | rfl <;> rfl
  have hother : ∀ w ≠ way, Function.update s.own.stream way (s.own.stream way).endInput w = s.own.stream w :=
    fun w hw => Function.update_of_ne hw ..
  rw [hcancel, outcome_onStream]
  refine ⟨⟨hsub.trans h.rules, fun w => ?_, fun w hended hfill hdrain => ?_, fun w hshut hfill =>
    h.shut w hshut (hsub.subset hfill), fun w hgone => ?_, h.answers⟩, rfl, fun r' hr' => ?_⟩
  · by_cases hw : w = way
    · subst hw
      obtain ⟨hbytes, herror, hroom, htold, hdone⟩ := h.flow w
      refine ⟨?_, ?_, ?_, htold, fun hshut => ?_⟩
      all_goals simp only [Function.update_self]
      · exact hbytes
      · exact herror
      · exact hroom
      · have hempty := ((ByteStream.eof_iff _).mp (hdone hshut)).2
        exact (ByteStream.eof_iff _).mpr ⟨rfl, hempty⟩
    · exact (h.flow w).aside ⟨hother w hw, rfl, rfl, rfl, Iff.rfl⟩
  · -- one of the two rules of the stream is missing now
    have hw : w ≠ way := by
      rintro rfl
      rcases hr with rfl | rfl
      · exact hnot hfill
      · exact hnot hdrain
    replace hended : (Function.update s.own.stream way (s.own.stream way).endInput w).inputEnded = true := hended
    rw [hother w hw] at hended
    exact h.fed w hended (hsub.subset hfill) (hsub.subset hdrain)
  · by_cases hw : w = way
    · subst hw
      simp only [Function.update_self, ByteStream.endInput_inputEnded]
    · simp only [hother w hw]
      refine h.gone w fun hmem => hgone (hkeep _ ?_ hmem)
      rcases hr with rfl | rfl
      · rwa [Ne, fillRule_injective]
      · exact fillRule_ne_drainRule _ _
  · have hplace := hbefore r' hr'
    obtain ⟨w, rfl | rfl⟩ := mem_rules.mp (h.rules.subset (List.mem_append_left _ hr'))
    · -- whether to fill a stream does not depend on its end
      have hsame : ∀ v, (Function.update s.own.stream way (s.own.stream way).endInput v).error =
          (s.own.stream v).error ∧
          (Function.update s.own.stream way (s.own.stream way).endInput v).remainingCapacity =
            (s.own.stream v).remainingCapacity := by
        intro v
        by_cases hv : v = way
        · subst hv
          simp
        · rw [hother v hv]
          exact ⟨rfl, rfl⟩
      simp only [fillRule, hsame]
    · -- and the rule that drains the stream comes last
      have hw : w ≠ way := by
        rintro rfl
        rcases hr with rfl | rfl
        · cases w <;> simp [place, fillRule, drainRule, Way.source, Way.sink] at hplace
        · exact Nat.lt_irrefl _ hplace
      simp only [drainRule, hother w hw]

theorem answered (h : Copying answers present s) : Copying answers present s.answered :=
  ⟨h.rules, fun w => (h.flow w).aside ⟨rfl, rfl, rfl, rfl, Iff.rfl⟩, h.fed, h.shut, h.gone,
    (List.tail_suffix _).trans h.answers⟩

theorem faithful (h : Copying answers present s) (way : Way) : Faithful s.calls way := (h.flow way).faithful

/-- When no rule has anything to do, a direction is done if there was anybody left to write to. -/
theorem idle (h : Copying answers present s) (hidle : ∀ rule ∈ present, rule.interest s = false)
    (hsink : drainRule way ∈ present ∨ s.own.shutdown way = true) :
    (s.own.stream way).eof = true ∧ finishCall way ∈ s.calls := by
  obtain ⟨hbytes, herror, hroom, htold, hdone⟩ := h.flow way
  suffices hshut : s.own.shutdown way = true from ⟨hdone hshut, htold.mpr hshut⟩
  refine hsink.elim (fun hdrain => ?_) id
  have hnone := hidle _ hdrain
  simp only [drainRule, Bool.or_eq_false_iff, Bool.not_eq_false', Bool.and_eq_false_iff] at hnone
  obtain ⟨hempty, hover⟩ := hnone
  -- there is room in the stream, and nothing to fill it with
  have hlength := (s.own.stream way).room
  have hcapacity : (s.own.stream way).capacity = bufferSize := by
    rw [← hroom]
    exact beq_iff_eq.mp hempty
  have hgone : fillRule way ∉ present := by
    intro hfill
    have hnone := hidle _ hfill
    simp [fillRule, herror, (h.flow way.other).error, ByteStream.remainingCapacity, hcapacity, bufferSize] at hnone
  have hque : (s.own.stream way).que = [] := List.eq_nil_of_length_eq_zero (by omega)
  have heof := (ByteStream.eof_iff _).mpr ⟨h.gone way hgone, hque⟩
  rw [heof] at hover
  simpa using hover

end Copying

/-! ### Passes -/

/-- The first loop. -/
structure SettingUp (answers : List Answer) (kept : List (Rule CopyFd StreamCopy × Bool))
    (rest : List (Rule CopyFd StreamCopy)) (s : Process CopyFd StreamCopy) : Prop where
  /-- The copy is at work. -/
  copying : Copying answers (kept.map Prod.fst ++ rest) s
  /-- The rules that have been asked would answer the same again. -/
  interest : ∀ x ∈ kept, x.2 = x.1.interest s
  /-- A stream that has been shut down will not be filled. -/
  opened : ∀ way, fillRule way ∈ kept.map Prod.fst → s.own.shutdown way = false

/-- The second loop. -/
structure Dispatching (answers : List Answer) (kept : List (Rule CopyFd StreamCopy))
    (rest : List (Rule CopyFd StreamCopy × Bool)) (s : Process CopyFd StreamCopy) : Prop where
  /-- The copy is at work. -/
  copying : Copying answers (kept ++ rest.map Prod.fst) s
  /-- A stream that has been shut down will not be filled. -/
  opened : ∀ way, fillRule way ∈ rest.map Prod.fst → s.own.shutdown way = false

section Pass

variable {answers : List Answer} {r : Rule CopyFd StreamCopy}

section

variable {kept : List (Rule CopyFd StreamCopy × Bool)} {rest : List (Rule CopyFd StreamCopy)}

/-- A rule is kept. -/
theorem SettingUp.keep (h : SettingUp answers kept (r :: rest) s) (hfresh : r.stale s = false) :
    SettingUp answers (kept ++ [(r, r.interest s)]) rest s := by
  refine ⟨?_, List.forall_mem_append.mpr ⟨h.interest, by simp⟩, fun way hmem => ?_⟩
  · rw [List.map_append, List.append_assoc]
    exact h.copying
  · rw [List.map_append, List.mem_append] at hmem
    refine hmem.elim (h.opened way) fun hr => ?_
    obtain rfl : fillRule way = r := List.mem_singleton.mp hr
    by_contra hshut
    have heof := h.copying.shut way (Bool.not_eq_false _ ▸ hshut) (List.mem_append_right _ List.mem_cons_self)
    simp [Rule.stale, fillRule, heof] at hfresh

/-- A rule is erased. -/
theorem SettingUp.erase (h : SettingUp answers kept (r :: rest) s) :
    Outcome (fun _ s' => SettingUp answers kept rest s') (fun e s' => e.FromKernel ∧ ∀ w, Faithful s'.calls w)
      (r.cancel s) := by
  refine h.copying.cancel.mono ?_ fun _ _ he => he
  rintro - s' ⟨hcopying, hshut, hsame⟩
  refine ⟨hcopying, fun x hx => ?_, fun way hmem => ?_⟩
  · rw [hsame x.1 (List.mem_map_of_mem hx)]
    exact h.interest x hx
  · rw [hshut]
    exact h.opened way hmem

/-- The kernel has answered, and the second loop begins. -/
theorem SettingUp.poll (h : SettingUp answers kept [] s) : Dispatching answers [] kept s.answered := by
  refine ⟨?_, h.opened⟩
  have hcopying := h.copying.answered
  rwa [List.append_nil] at hcopying

end

variable {kept : List (Rule CopyFd StreamCopy)} {rest : List (Rule CopyFd StreamCopy × Bool)}

/-- A rule is skipped. -/
theorem Dispatching.skip {b : Bool} (h : Dispatching answers kept ((r, b) :: rest) s) :
    Dispatching answers (kept ++ [r]) rest s := by
  refine ⟨?_, fun way hmem => h.opened way (List.mem_cons_of_mem _ hmem)⟩
  rw [List.append_assoc]
  exact h.copying

/-- A rule is called. -/
theorem Dispatching.call (h : Dispatching answers kept ((r, true) :: rest) s) :
    Outcome (fun _ s' => Dispatching answers (kept ++ [r]) rest s' ∧
        (r.serviceCount s' = r.serviceCount s → r.interest s' = false))
      (fun e s' => e.FromKernel ∧ ∀ w, Faithful s'.calls w) (r.callback s) := by
  have hmem : r ∈ kept ++ r :: rest.map Prod.fst := List.mem_append_right _ List.mem_cons_self
  obtain ⟨way, rfl | rfl⟩ := mem_rules.mp (h.copying.rules.subset hmem)
  · have hshut := h.opened way List.mem_cons_self
    refine (fillRule_outcome way s).mono ?_ ?_
    · rintro - s' hfilled
      refine ⟨⟨?_, fun w hw => ?_⟩, fun hsame => ?_⟩
      · rw [List.append_assoc]
        exact h.copying.filled hshut hfilled
      · by_cases hway : w = way
        · rw [hway, hfilled.shutdown, hshut]
        · rw [(hfilled.aside w hway).shutdown]
          exact h.opened w (List.mem_cons_of_mem _ hw)
      · replace hsame : (s'.fds way.source).readCount = (s.fds way.source).readCount := hsame
        simp [hfilled.count] at hsame
    · rintro e s' ⟨he, huntouched⟩
      exact ⟨he, fun w => (h.copying.faithful w).untouched huntouched⟩
  · refine (drainRule_outcome way h.copying.flow).mono ?_ fun _ _ he => he
    rintro - s' hdrained
    refine ⟨⟨?_, fun w hw => ?_⟩, fun hsame => absurd hsame hdrained.count⟩
    · rw [List.append_assoc]
      exact h.copying.drained hmem hdrained
    · -- a stream is filled before it is drained
      have hway : w ≠ way := by
        rintro rfl
        have hplace := h.copying.places.2 _ hw
        cases w <;> simp [place, fillRule, drainRule, Way.source, Way.sink] at hplace
      rw [(hdrained.aside w hway).shutdown]
      exact h.opened w (List.mem_cons_of_mem _ hw)

/-- A rule is cancelled. -/
theorem Dispatching.cancel (h : Dispatching answers kept ((r, true) :: rest) s) :
    Outcome (fun _ s' => Dispatching answers kept rest s') (fun e s' => e.FromKernel ∧ ∀ w, Faithful s'.calls w)
      (r.cancel s) := by
  refine h.copying.cancel.mono ?_ fun _ _ he => he
  rintro - s' ⟨hcopying, hshut, -⟩
  refine ⟨hcopying, fun way hmem => ?_⟩
  rw [hshut]
  exact h.opened way (List.mem_cons_of_mem _ hmem)

/-- **A pass** keeps the invariant; it is the last if a signal was caught, or no rule has anything
to do. -/
theorem pass_outcome {present : List (Rule CopyFd StreamCopy)} (h : Copying answers present s) :
    Outcome (fun r s' => Copying answers r.2 s' ∧ (r.1 = .exit →
        (∃ a ∈ answers, a.errno = some .eintr) ∨ ∀ rule ∈ r.2, rule.interest s' = false))
      (fun e s' => e.FromKernel ∧ ∀ w, Faithful s'.calls w) (EventLoop.waitNextEvent present s) := by
  refine (EventLoop.waitNextEvent_outcome (C := SettingUp answers) (D := Dispatching answers) SettingUp.keep
    (fun h _ => h.erase) SettingUp.poll Dispatching.skip Dispatching.call Dispatching.cancel
    (fun h => ⟨by simp [Failure.FromKernel], h.copying.faithful⟩) ⟨h, by simp, by simp⟩).mono ?_ fun _ _ he => he
  rintro - s' (⟨hset, hnone⟩ | ⟨hset, heintr⟩ | hset | hdone)
  · have hcopying := hset.copying
    rw [List.append_nil] at hcopying
    refine ⟨hcopying, fun _ => Or.inr (List.forall_mem_map.mpr fun x hx => ?_)⟩
    rw [← hset.interest x hx, hnone x hx]
  · have hcopying := hset.copying
    rw [List.append_nil] at hcopying
    refine ⟨hcopying.answered, fun _ => Or.inl ?_⟩
    rename_i s _
    cases hanswers : s.answers with
    | nil => simp [Process.next, hanswers] at heintr
    | cons a more =>
      refine ⟨a, hcopying.answers.subset (by simp [hanswers]), ?_⟩
      simpa [Process.next, hanswers] using heintr
  · have hcopying := hset.copying
    rw [List.append_nil] at hcopying
    exact ⟨hcopying.answered, by simp⟩
  · have hcopying := hdone.copying
    rw [List.map_nil, List.append_nil] at hcopying
    exact ⟨hcopying, by simp⟩

end Pass

/-- What the function has done that has returned, with the rules that are left. -/
structure Copied (answers : List Answer) (left : List (Rule CopyFd StreamCopy)) (s : Process CopyFd StreamCopy)
    (way : Way) : Prop extends Faithful s.calls way where
  /-- A direction whose receiver is still there is done, unless a signal was caught. -/
  done : (∀ a ∈ answers, a.errno ≠ some .eintr) → drainRule way ∈ left ∨ s.own.shutdown way = true →
    written way.sink s.calls = received way.source s.calls ∧ (s.own.stream way).eof = true ∧ finishCall way ∈ s.calls

/-- The loop keeps the invariant. -/
theorem copyLoop_outcome {answers : List Answer} {passes : ℕ} {present : List (Rule CopyFd StreamCopy)}
    (h : Copying answers present s) :
    Outcome (fun left s' => ∀ way, Copied answers left s' way)
      (fun e s' => (e.FromKernel ∨ e = .outOfSteps) ∧ ∀ way, Faithful s'.calls way) (copyLoop passes present s) := by
  induction passes generalizing present s with
  | zero => exact ⟨Or.inr rfl, h.faithful⟩
  | succ passes ih =>
    simp only [copyLoop, outcome_bind]
    refine (pass_outcome h).mono ?_ fun e s' he => ⟨Or.inl he.1, he.2⟩
    rintro ⟨result, left⟩ s' ⟨hcopying, hexit⟩
    simp only [outcome_ite, outcome_pure]
    refine ⟨fun hlast way => ⟨hcopying.faithful way, fun hsignal hsink => ?_⟩, fun _ => ih hcopying⟩
    rcases hexit (beq_iff_eq.mp hlast) with ⟨a, ha, heintr⟩ | hidle
    · exact absurd heintr (hsignal a ha)
    · obtain ⟨heof, hfinish⟩ := hcopying.idle hidle hsink
      exact ⟨(hcopying.faithful way).complete hfinish, heof, hfinish⟩

theorem copying_start (answers : List Answer) : Copying answers rules { Process.start start with answers } := by
  refine ⟨.refl _, fun way => ⟨rfl, rfl, rfl, ?_, ?_⟩, ?_, ?_, fun way hgone => ?_, List.suffix_refl _⟩
  · simp [Process.start, start]
  · simp [Process.start, start]
  · simp [Process.start, start]
  · simp [Process.start, start]
  · exact absurd (mem_rules.mpr ⟨way, Or.inl rfl⟩) hgone

/-- **The copy is faithful.** Whatever the kernel answers, and however many passes have been made:
what has been written are the first bytes of what has been read, and the end is passed on only when
everything else has been. When the function returns it is done, unless a signal or a receiver that
has gone away has ended it early. It throws nothing but errors of system calls. -/
theorem bidirectionalStreamCopy_outcome (passes : ℕ) (answers : List Answer) :
    Outcome (fun left s => ∀ way, Copied answers left s way)
      (fun e s => (e.FromKernel ∨ e = .outOfSteps) ∧ ∀ way, Faithful s.calls way)
      (bidirectionalStreamCopy passes { Process.start start with answers }) :=
  copyLoop_outcome (copying_start answers)

/-- A kernel from which two bytes can be read at each end, then the end, and that takes whatever is
written. -/
def obliging : List Answer :=
  [{ count := 2, revents := [pollIn, 0, pollIn, 0] }, { bytes := [104, 105] }, { bytes := [121, 111] },
    { count := 4, revents := [pollIn, pollOut, pollIn, pollOut] }, {}, { count := 2 }, {}, {}, { count := 2 }, {}]

/-- There the function returns in the third pass, and both directions are done. -/
theorem bidirectionalStreamCopy_obliging :
    ∃ left s, bidirectionalStreamCopy 3 { Process.start start with answers := obliging } = .ok left s ∧
      ∀ way, written way.sink s.calls = received way.source s.calls ∧ finishCall way ∈ s.calls := by
  have hreturned : (match bidirectionalStreamCopy 3 { Process.start start with answers := obliging } with
      | .ok _ s => s.own.shutdown .outbound && s.own.shutdown .inbound
      | .error _ _ => false) = true := by decide +kernel
  have houtcome := bidirectionalStreamCopy_outcome 3 obliging
  cases hrun : bidirectionalStreamCopy 3 { Process.start start with answers := obliging } with
  | ok left s =>
    rw [hrun] at hreturned houtcome
    refine ⟨left, s, rfl, fun way => ?_⟩
    have hshut : s.own.shutdown way = true := by
      cases way <;> simp_all
    obtain ⟨hall, -, hfinish⟩ := (houtcome way).done (by decide) (Or.inr hshut)
    exact ⟨hall, hfinish⟩
  | error e s =>
    rw [hrun] at hreturned
    cases hreturned

end StreamCopy

end Sponge
