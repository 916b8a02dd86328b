import Sponge.Library.Programs
import Sponge.Wire.Adapter
import Sponge.Wire.Views

/-!
# Descriptors

Whatever a program exchanges with the world passes through a file descriptor. `FileDescriptor` wraps
the system calls: it turns their errors into exceptions, checks what they return, remembers the end
of the file and counts reads and writes, which is how the event loop tells a callback that works
from one that does not.

## The model

A program runs in a `Process`: its descriptors, its own variables, the answers that the kernel will
give to its calls, and the calls it has made. Nothing is assumed of the answers; what is proved
holds for every kernel, and a kernel that runs out of answers fails every call. Copies of a
`FileDescriptor` share one `FDWrapper`, so a descriptor is a name and its wrapper is part of the
process. The number of a descriptor, and `set_blocking`, are left out.

## What is proved

* `FileDescriptor.read_outcome` — a read returns what the kernel gave, at most as much as was asked
  for.
* `FileDescriptor.write_outcome` — a write hands over a prefix of the buffer, in order and without
  gaps, all of it if asked to, and says how much; its loop ends.
-/

namespace Sponge

/-- `errno`, as far as the code looks at it. -/
inductive Errno where
  | eintr
  | other
  deriving DecidableEq

/-- What a program throws. -/
inductive Failure where
  /-- `unix_error`: a system call has failed. -/
  | unixError (attempt : String) (errno : Errno)
  /-- An exception of the standard library. -/
  | exception (e : Exception)
  /-- The program has no defined behaviour from here. -/
  | undefined
  /-- A loop has not ended within the steps it was given. -/
  | outOfSteps
  deriving DecidableEq

/-- The exceptions that only a system call can cause: it fails, or what it returns makes no sense.
-/
def Failure.FromKernel : Failure → Prop
  | .unixError _ _ => True
  | .exception (.runtimeError what) => what ∈
    ["read() read more than requested", "write returned 0 given non-empty input buffer",
      "write wrote more than length of input buffer", "recvfrom (oversized datagram)",
      "datagram payload too big for sendmsg()", "EventLoop: error on polled file descriptor"]
  | _ => False

/-- What the kernel answers to a system call. -/
structure Answer where
  /-- The error, if the call fails. -/
  errno : Option Errno := none
  /-- What a call returns that writes or waits. -/
  count : ℕ := 0
  /-- What a call that reads has put into the buffer. -/
  bytes : Bytes := []
  /-- Where a datagram comes from. -/
  source : Address := ⟨0, 0⟩
  /-- The events that `poll` reports, descriptor by descriptor. -/
  revents : List UInt16 := []
  deriving DecidableEq

/-- How a socket is shut down. -/
inductive How where
  | rd
  | wr
  | rdwr
  deriving DecidableEq

/-- A system call that a program has made and gone on from. -/
inductive SysCall (δ : Type) where
  /-- Bytes have been read. -/
  | read (fd : δ) (bytes : Bytes)
  /-- Bytes have been offered, and the kernel has taken the first `count` of them. -/
  | write (fd : δ) (offered : Bytes) (count : ℕ)
  /-- A datagram has been received. -/
  | recvfrom (fd : δ) (source : Address) (payload : Bytes)
  /-- A datagram has been sent. -/
  | sendmsg (fd : δ) (destination : Address) (payload : Bytes)
  /-- A socket has been shut down. -/
  | shutdown (fd : δ) (how : How)
  /-- A descriptor has been closed. -/
  | close (fd : δ)
  deriving DecidableEq

/-- `FDWrapper`. -/
structure FDWrapper where
  /-- The descriptor is at its end. -/
  eof : Bool := false
  /-- The descriptor has been closed. -/
  closed : Bool := false
  /-- How often it has been read. -/
  readCount : UInt32 := 0
  /-- How often it has been written. -/
  writeCount : UInt32 := 0
  deriving DecidableEq

/-- A program's surroundings and its own variables. -/
structure Process (δ τ : Type) where
  /-- The descriptors. -/
  fds : δ → FDWrapper
  /-- The answers to the calls to come. -/
  answers : List Answer
  /-- The calls so far. -/
  calls : List (SysCall δ)
  /-- The variables. -/
  own : τ

/-- A program. -/
abbrev Prog (δ τ α : Type) := EStateM Failure (Process δ τ) α

variable {δ τ α : Type}

/-- A process that has done nothing yet. -/
def Process.start (own : τ) : Process δ τ where
  fds := fun _ => {}
  answers := []
  calls := []
  own := own

/-- The kernel's next answer. -/
def Process.next (s : Process δ τ) : Answer := s.answers.headD { errno := some .other }

/-- The process when the kernel has answered. -/
def Process.answered (s : Process δ τ) : Process δ τ := { s with answers := s.answers.tail }

/-- `SystemCall`: the kernel answers, and an error is thrown. -/
def systemCall (attempt : String) : Prog δ τ Answer := do
  let answer := (← get).next
  modify Process.answered
  match answer.errno with
  | some errno => throw (.unixError attempt errno)
  | none => return answer

/-- A call is noted. -/
def note (call : SysCall δ) : Prog δ τ Unit := modify fun s => { s with calls := s.calls ++ [call] }

/-- What may throw an exception of the standard library. -/
def orThrow : Except Exception α → Prog δ τ α
  | .ok a => pure a
  | .error e => throw (.exception e)

/-- The views of a string: there is one. -/
def BufferViewList.ofString (str : Bytes) : BufferViewList := ⟨[str]⟩

@[simp] theorem BufferViewList.bytes_ofString (str : Bytes) : (ofString str).bytes = str := List.append_nil str

namespace FileDescriptor

variable [DecidableEq δ]

/-- The wrapper of a descriptor is changed. -/
def modifyFd (fd : δ) (f : FDWrapper → FDWrapper) : Prog δ τ Unit :=
  modify fun s => { s with fds := Function.update s.fds fd (f (s.fds fd)) }

/-- `register_read`. -/
def registerRead (fd : δ) : Prog δ τ Unit := modifyFd fd fun w => { w with readCount := w.readCount + 1 }

/-- `register_write`. -/
def registerWrite (fd : δ) : Prog δ τ Unit := modifyFd fd fun w => { w with writeCount := w.writeCount + 1 }

/-- `BUFFER_SIZE`: the most that is read at a time. -/
def bufferSize : ℕ := 1024 * 1024

/-- `read`. -/
def read (fd : δ) (limit : ℕ) : Prog δ τ Bytes := do
  let sizeToRead := min bufferSize limit
  let answer ← systemCall "read"
  if limit > 0 && answer.bytes.length == 0 then
    modifyFd fd fun w => { w with eof := true }
  if answer.bytes.length > sizeToRead then
    throw (.exception (.runtimeError "read() read more than requested"))
  registerRead fd
  note (.read fd answer.bytes)
  return answer.bytes

/-- A round of the loop of `write`: how much was written, and the rest of the buffer. -/
def writeRound (fd : δ) (buffer : BufferViewList) : Prog δ τ (ℕ × BufferViewList) := do
  let answer ← systemCall "writev"
  let bytesWritten := answer.count
  if bytesWritten == 0 && buffer.size != 0 then
    throw (.exception (.runtimeError "write returned 0 given non-empty input buffer"))
  if bytesWritten > buffer.size then
    throw (.exception (.runtimeError "write wrote more than length of input buffer"))
  registerWrite fd
  note (.write fd buffer.bytes bytesWritten)
  let buffer ← orThrow (buffer.removePrefix bytesWritten)
  return (bytesWritten, buffer)

/-- The loop of `write`: it goes on until everything is written if `writeAll` says so. -/
def writeLoop (fd : δ) (writeAll : Bool) : ℕ → BufferViewList → ℕ → Prog δ τ ℕ
  | 0, _, _ => throw .outOfSteps
  | steps + 1, buffer, totalBytesWritten => do
    let (bytesWritten, buffer) ← writeRound fd buffer
    if writeAll && buffer.size != 0 then
      writeLoop fd writeAll steps buffer (totalBytesWritten + bytesWritten)
    else
      return totalBytesWritten + bytesWritten

/-- `write`. Every round of the loop but the last writes at least one byte. -/
def write (fd : δ) (buffer : BufferViewList) (writeAll : Bool) : Prog δ τ ℕ :=
  writeLoop fd writeAll (buffer.size + 1) buffer 0

/-- `close`. -/
def close (fd : δ) : Prog δ τ Unit := do
  let _ ← systemCall "close"
  modifyFd fd fun w => { w with eof := true, closed := true }
  note (.close fd)

/-- `Socket::shutdown`. -/
def shutdown (fd : δ) (how : How) : Prog δ τ Unit := do
  let _ ← systemCall "shutdown"
  match how with
  | .rd => registerRead fd
  | .wr => registerWrite fd
  | .rdwr => registerRead fd; registerWrite fd
  note (.shutdown fd how)

end FileDescriptor

/-! ### What has passed -/

section

variable [DecidableEq δ] (fd : δ)

/-- The bytes that a call has read from a descriptor. -/
def SysCall.received : SysCall δ → Bytes
  | .read fd' bytes => if fd' = fd then bytes else []
  | _ => []

/-- The bytes that the kernel has taken from a descriptor at a call. -/
def SysCall.written : SysCall δ → Bytes
  | .write fd' offered count => if fd' = fd then offered.take count else []
  | _ => []

/-- The bytes that have been read from a descriptor. -/
def received (calls : List (SysCall δ)) : Bytes := calls.flatMap (SysCall.received fd)

/-- The bytes that the kernel has taken from a descriptor. -/
def written (calls : List (SysCall δ)) : Bytes := calls.flatMap (SysCall.written fd)

@[simp] theorem received_append (l l' : List (SysCall δ)) :
    received fd (l ++ l') = received fd l ++ received fd l' := List.flatMap_append

@[simp] theorem written_append (l l' : List (SysCall δ)) :
    written fd (l ++ l') = written fd l ++ written fd l' := List.flatMap_append

end

/-! ### What each does -/

section

variable {Q : α → Process δ τ → Prop} {E : Failure → Process δ τ → Prop} {s : Process δ τ}

@[simp] theorem answered_fds : s.answered.fds = s.fds := rfl
@[simp] theorem answered_calls : s.answered.calls = s.calls := rfl
@[simp] theorem answered_own : s.answered.own = s.own := rfl

@[simp] theorem outcome_systemCall {Q : Answer → Process δ τ → Prop} {attempt : String} :
    Outcome Q E (systemCall attempt s) ↔
      (∀ errno, s.next.errno = some errno → E (.unixError attempt errno) s.answered) ∧
        (s.next.errno = none → Q s.next s.answered) := by
  simp only [systemCall, outcome_bind, outcome_get, outcome_modify]
  cases h : s.next.errno <;> simp

@[simp] theorem outcome_note {Q : PUnit → Process δ τ → Prop} {call : SysCall δ} :
    Outcome Q E (note call s) ↔ Q ⟨⟩ { s with calls := s.calls ++ [call] } := Iff.rfl

@[simp] theorem outcome_orThrow_ok {a : α} : Outcome Q E (orThrow (.ok a) s) ↔ Q a s := Iff.rfl

end

/-- A call has failed: no variable has changed, and no call has been noted. -/
structure Untouched (s₀ s : Process δ τ) : Prop where
  /-- The variables are the same. -/
  own : s.own = s₀.own
  /-- The calls are the same. -/
  calls : s.calls = s₀.calls

namespace FileDescriptor

variable [DecidableEq δ]

@[simp] theorem outcome_modifyFd {Q : PUnit → Process δ τ → Prop} {E : Failure → Process δ τ → Prop}
    {fd : δ} {f : FDWrapper → FDWrapper} {s : Process δ τ} :
    Outcome Q E (modifyFd fd f s) ↔ Q ⟨⟩ { s with fds := Function.update s.fds fd (f (s.fds fd)) } := Iff.rfl

/-- The process after a read. -/
def afterRead (s : Process δ τ) (fd : δ) (limit : ℕ) (bytes : Bytes) : Process δ τ where
  fds := Function.update s.fds fd
    { s.fds fd with
      eof := (s.fds fd).eof || (limit != 0 && bytes.isEmpty)
      readCount := (s.fds fd).readCount + 1 }
  answers := s.answers.tail
  calls := s.calls ++ [.read fd bytes]
  own := s.own

section

variable (s : Process δ τ) (fd : δ) (limit : ℕ) (bytes : Bytes)

@[simp] theorem afterRead_own : (afterRead s fd limit bytes).own = s.own := rfl

@[simp] theorem afterRead_calls : (afterRead s fd limit bytes).calls = s.calls ++ [.read fd bytes] := rfl

theorem afterRead_fds_self : (afterRead s fd limit bytes).fds fd =
    { s.fds fd with
      eof := (s.fds fd).eof || (limit != 0 && bytes.isEmpty)
      readCount := (s.fds fd).readCount + 1 } := Function.update_self ..

variable {fd} in
theorem afterRead_fds_of_ne {fd' : δ} (h : fd' ≠ fd) : (afterRead s fd limit bytes).fds fd' = s.fds fd' :=
  Function.update_of_ne h ..

end

/-- **A read** returns what the kernel gave, at most as much as was asked for. -/
theorem read_outcome (fd : δ) (limit : ℕ) (s : Process δ τ) :
    Outcome (fun bytes s' => s' = afterRead s fd limit bytes ∧ bytes.length ≤ min bufferSize limit)
      (fun e s' => e.FromKernel ∧ Untouched s s') (read fd limit s) := by
  simp only [read, registerRead, outcome_bind, outcome_systemCall, outcome_ite, outcome_throw, outcome_modifyFd,
    outcome_note, outcome_pure, answered_fds, answered_calls, answered_own, Function.update_self,
    Function.update_idem]
  refine ⟨fun errno _ => ⟨trivial, rfl, rfl⟩, fun _ => ⟨fun hend => ?_, fun hmore => ?_⟩⟩
  · refine ⟨fun _ => ⟨by simp [Failure.FromKernel], rfl, rfl⟩, fun hle => ⟨?_, Nat.not_lt.mp hle⟩⟩
    have hend : limit ≠ 0 ∧ s.next.bytes = [] := by simpa [Nat.pos_iff_ne_zero] using hend
    have hlimit : (limit != 0) = true := bne_iff_ne.mpr hend.1
    simp [afterRead, hend.2, hlimit, Process.answered]
  · refine ⟨fun _ => ⟨by simp [Failure.FromKernel], rfl, rfl⟩, fun hle => ⟨?_, Nat.not_lt.mp hle⟩⟩
    have hmore : (limit != 0 && List.isEmpty s.next.bytes) = false := by simpa [Nat.pos_iff_ne_zero] using hmore
    simp [afterRead, hmore, Process.answered]

/-! ### Writing -/

/-- The calls by which bytes are written in pieces. -/
def writes (fd : δ) : Bytes → List ℕ → List (SysCall δ)
  | _, [] => []
  | bytes, count :: counts => .write fd bytes count :: writes fd (bytes.drop count) counts

/-- Pieces that fit are the first bytes, and nothing has passed elsewhere. -/
theorem written_writes (fd fd' : δ) {bytes : Bytes} {counts : List ℕ} (h : counts.sum ≤ bytes.length) :
    written fd' (writes fd bytes counts) = if fd = fd' then bytes.take counts.sum else [] := by
  induction counts generalizing bytes with
  | nil => simp [writes, written]
  | cons count counts ih =>
    rw [List.sum_cons] at h
    have hrest : counts.sum ≤ (bytes.drop count).length := by
      rw [List.length_drop]
      omega
    rw [writes, written, List.flatMap_cons, ← written, ih hrest, SysCall.written]
    split_ifs
    · rw [List.sum_cons, List.take_add]
    · rfl

@[simp] theorem received_writes (fd fd' : δ) (bytes : Bytes) (counts : List ℕ) :
    received fd' (writes fd bytes counts) = [] := by
  induction counts generalizing bytes with
  | nil => rfl
  | cons count counts ih =>
    rw [writes, received, List.flatMap_cons, ← received, ih]
    rfl

/-- The process after some calls have been made for a write. -/
def afterWrites (s : Process δ τ) (fd : δ) (bytes : Bytes) (counts : List ℕ) : Process δ τ where
  fds := Function.update s.fds fd
    { s.fds fd with writeCount := (s.fds fd).writeCount + UInt32.ofNat counts.length }
  answers := s.answers.drop counts.length
  calls := s.calls ++ writes fd bytes counts
  own := s.own

section

variable (s : Process δ τ) (fd : δ) (bytes : Bytes) (counts : List ℕ)

@[simp] theorem afterWrites_own : (afterWrites s fd bytes counts).own = s.own := rfl

@[simp] theorem afterWrites_calls : (afterWrites s fd bytes counts).calls = s.calls ++ writes fd bytes counts := rfl

theorem afterWrites_fds_self : (afterWrites s fd bytes counts).fds fd =
    { s.fds fd with writeCount := (s.fds fd).writeCount + UInt32.ofNat counts.length } := Function.update_self ..

variable {fd} in
theorem afterWrites_fds_of_ne {fd' : δ} (h : fd' ≠ fd) : (afterWrites s fd bytes counts).fds fd' = s.fds fd' :=
  Function.update_of_ne h ..

end

theorem afterWrites_cons (s : Process δ τ) (fd : δ) (bytes : Bytes) (count : ℕ) (counts : List ℕ) :
    afterWrites s fd bytes (count :: counts) =
      afterWrites (afterWrites s fd bytes [count]) fd (bytes.drop count) counts := by
  have hcount : UInt32.ofNat (counts.length + 1) = 1 + UInt32.ofNat counts.length := by
    rw [Nat.add_comm, UInt32.ofNat_add]
    rfl
  simp only [afterWrites, writes, List.length_cons, List.length_nil, Function.update_self, Function.update_idem,
    List.append_assoc, List.cons_append, List.nil_append, List.drop_drop, Process.mk.injEq, and_true, hcount,
    ← UInt32.add_assoc]
  exact ⟨rfl, by rw [Nat.add_comm]⟩

/-- What a write has done that has returned `total`. -/
structure Written (s : Process δ τ) (fd : δ) (bytes : Bytes) (writeAll : Bool) (total : ℕ) (counts : List ℕ)
    (s' : Process δ τ) : Prop where
  /-- The bytes have been handed over in pieces. -/
  after : s' = afterWrites s fd bytes counts
  /-- As many as it says. -/
  sum : counts.sum = total
  /-- No more than there are. -/
  le : total ≤ bytes.length
  /-- All, if asked to. -/
  all : writeAll = true → total = bytes.length
  /-- At once, if not. -/
  once : writeAll = false → counts = [total]
  /-- There is at least one call. -/
  ne_nil : counts ≠ []
  /-- No call is in vain. -/
  pos : bytes ≠ [] → ∀ n ∈ counts, n ≠ 0

/-- What a write has done that has thrown: some pieces may have been handed over. -/
structure Broken (s : Process δ τ) (fd : δ) (bytes : Bytes) (writeAll : Bool) (counts : List ℕ) (s' : Process δ τ) :
    Prop where
  /-- The variables are the same. -/
  own : s'.own = s.own
  /-- The pieces that have been handed over. -/
  calls : s'.calls = s.calls ++ writes fd bytes counts
  /-- No more than there are. -/
  le : counts.sum ≤ bytes.length
  /-- No call was in vain. -/
  pos : bytes ≠ [] → ∀ n ∈ counts, n ≠ 0
  /-- There are none, if the loop makes only one call. -/
  once : writeAll = false → counts = []

omit [DecidableEq δ] in
theorem broken_of_untouched {s s' : Process δ τ} (h : Untouched s s') (fd : δ) (bytes : Bytes) (writeAll : Bool) :
    Broken s fd bytes writeAll [] s' :=
  ⟨h.own, by rw [h.calls, writes, List.append_nil], Nat.zero_le _, by simp, fun _ => rfl⟩

omit [DecidableEq δ] in
/-- A write that is not repeated and has thrown has done nothing. -/
theorem Broken.untouched {s s' : Process δ τ} {fd : δ} {bytes : Bytes} {counts : List ℕ}
    (h : Broken s fd bytes false counts s') : Untouched s s' := by
  obtain rfl := h.once rfl
  exact ⟨h.own, by rw [h.calls, writes, List.append_nil]⟩

/-- **One round** writes a piece, and not an empty one unless there is nothing to write. -/
theorem writeRound_outcome (fd : δ) (buffer : BufferViewList) (s : Process δ τ) :
    Outcome (fun r s' => s' = afterWrites s fd buffer.bytes [r.1] ∧ r.1 ≤ buffer.bytes.length ∧
        (buffer.bytes ≠ [] → r.1 ≠ 0) ∧ r.2.bytes = buffer.bytes.drop r.1)
      (fun e s' => e.FromKernel ∧ Untouched s s') (writeRound fd buffer s) := by
  simp only [writeRound, registerWrite, outcome_bind, outcome_systemCall, outcome_ite, outcome_throw,
    outcome_modifyFd, outcome_note, answered_fds, answered_calls, answered_own]
  refine ⟨fun errno _ => ⟨trivial, rfl, rfl⟩, fun _ =>
    ⟨fun _ => ⟨by simp [Failure.FromKernel], rfl, rfl⟩, fun hpos =>
      ⟨fun _ => ⟨by simp [Failure.FromKernel], rfl, rfl⟩, fun hle => ?_⟩⟩⟩
  replace hle := Nat.not_lt.mp hle
  rw [BufferViewList.removePrefix_ok hle, outcome_orThrow_ok, outcome_pure]
  rw [BufferViewList.size_eq] at hle hpos
  refine ⟨by simp [afterWrites, writes, Process.answered], hle, fun hne hzero => hpos ?_, flatten_dropPieces ..⟩
  replace hzero : s.next.count = 0 := hzero
  simp [hzero, hne]

/-- The loop ends, and what has been written are the first bytes of the buffer. -/
theorem writeLoop_outcome {fd : δ} {writeAll : Bool} {steps : ℕ} {buffer : BufferViewList} {total : ℕ}
    {s : Process δ τ} (h : buffer.bytes.length < steps) :
    Outcome (fun n s' => ∃ k counts, n = total + k ∧ Written s fd buffer.bytes writeAll k counts s')
      (fun e s' => e.FromKernel ∧ ∃ counts, Broken s fd buffer.bytes writeAll counts s')
      (writeLoop fd writeAll steps buffer total s) := by
  induction steps generalizing buffer total s with
  | zero => exact absurd h (Nat.not_lt_zero _)
  | succ steps ih =>
    simp only [writeLoop, outcome_bind]
    refine (writeRound_outcome fd buffer s).mono ?_ fun e s' he => ⟨he.1, [], broken_of_untouched he.2 fd _ _⟩
    rintro ⟨count, rest⟩ s₁ ⟨rfl, hle, hpos, hrest⟩
    simp only [outcome_ite, outcome_pure, BufferViewList.size_eq, hrest]
    refine ⟨fun hmore => ?_, fun hdone => ?_⟩
    · obtain ⟨rfl, hmore⟩ : writeAll = true ∧ count < buffer.bytes.length := by
        simpa [Nat.sub_ne_zero_iff_lt] using hmore
      have hne : buffer.bytes ≠ [] := List.ne_nil_of_length_pos (by omega)
      have hcount := hpos hne
      have hleft : buffer.bytes.drop count ≠ [] := by
        rw [Ne, List.drop_eq_nil_iff]
        omega
      have hlength : rest.bytes.length < steps := by
        rw [hrest, List.length_drop]
        omega
      refine (ih hlength).mono ?_ ?_
      · rintro n s' ⟨k, counts, rfl, hw⟩
        rw [hrest] at hw
        have hall := hw.all rfl
        have hlek := hw.le
        rw [List.length_drop] at hall hlek
        refine ⟨count + k, count :: counts, Nat.add_assoc .., ?_, ?_, by omega, fun _ => by omega, by simp, by simp, ?_⟩
        · rw [afterWrites_cons]
          exact hw.after
        · rw [List.sum_cons, hw.sum]
        · exact fun _ => List.forall_mem_cons.mpr ⟨hcount, hw.pos hleft⟩
      · rintro e s' ⟨he, counts, hown, hcalls, hsum, hnonzero, -⟩
        rw [hrest] at hcalls hsum hnonzero
        rw [List.length_drop] at hsum
        refine ⟨he, count :: counts, hown, ?_, ?_, fun _ => ?_, by simp⟩
        · rw [hcalls, afterWrites, writes, writes, List.append_assoc]
          rfl
        · rw [List.sum_cons]
          omega
        · exact List.forall_mem_cons.mpr ⟨hcount, hnonzero hleft⟩
    · refine ⟨count, [count], rfl, rfl, by simp, hle, fun hall => ?_, fun _ => rfl, by simp, ?_⟩
      · simp only [hall, Bool.true_and, bne_iff_ne, ne_eq, Decidable.not_not, List.length_drop] at hdone
        omega
      · intro hne n hn
        rw [List.mem_singleton.mp hn]
        exact hpos hne

/-- **A write** hands over the first bytes of the buffer, all of them if asked to, and says how
many. -/
theorem write_outcome (fd : δ) (buffer : BufferViewList) (writeAll : Bool) (s : Process δ τ) :
    Outcome (fun n s' => ∃ counts, Written s fd buffer.bytes writeAll n counts s')
      (fun e s' => e.FromKernel ∧ ∃ counts, Broken s fd buffer.bytes writeAll counts s')
      (write fd buffer writeAll s) := by
  refine (writeLoop_outcome (by rw [buffer.size_eq]; exact Nat.lt_succ_self _)).mono ?_ fun _ _ he => he
  rintro n s' ⟨k, counts, rfl, hw⟩
  rw [Nat.zero_add]
  exact ⟨counts, hw⟩

/-! ### Closing -/

/-- The process after a descriptor has been closed. -/
def afterClose (s : Process δ τ) (fd : δ) : Process δ τ where
  fds := Function.update s.fds fd { s.fds fd with eof := true, closed := true }
  answers := s.answers.tail
  calls := s.calls ++ [.close fd]
  own := s.own

theorem close_outcome (fd : δ) (s : Process δ τ) :
    Outcome (fun _ s' => s' = afterClose s fd) (fun e s' => e.FromKernel ∧ Untouched s s') (close fd s) := by
  simp only [close, outcome_bind, outcome_systemCall, outcome_modifyFd, outcome_note]
  exact ⟨fun errno _ => ⟨trivial, rfl, rfl⟩, fun _ => rfl⟩

/-- The process after a socket has been shut down for writing. -/
def afterShutdown (s : Process δ τ) (fd : δ) : Process δ τ where
  fds := Function.update s.fds fd { s.fds fd with writeCount := (s.fds fd).writeCount + 1 }
  answers := s.answers.tail
  calls := s.calls ++ [.shutdown fd .wr]
  own := s.own

theorem shutdown_outcome (fd : δ) (s : Process δ τ) :
    Outcome (fun _ s' => s' = afterShutdown s fd) (fun e s' => e.FromKernel ∧ Untouched s s')
      (shutdown fd .wr s) := by
  simp only [shutdown, registerWrite, outcome_bind, outcome_systemCall, outcome_modifyFd, outcome_note]
  exact ⟨fun errno _ => ⟨trivial, rfl, rfl⟩, fun _ => rfl⟩

/-- Shutting down a socket for reading and writing. -/
theorem shutdown_rdwr_outcome (fd : δ) (s : Process δ τ) :
    Outcome (fun _ s' => s'.own = s.own ∧ s'.calls = s.calls ++ [.shutdown fd .rdwr])
      (fun e s' => e.FromKernel ∧ Untouched s s') (shutdown fd .rdwr s) := by
  simp only [shutdown, registerRead, registerWrite, outcome_bind, outcome_systemCall, outcome_modifyFd, outcome_note]
  exact ⟨fun errno _ => ⟨trivial, rfl, rfl⟩, fun _ => ⟨rfl, rfl⟩⟩

end FileDescriptor

end Sponge
