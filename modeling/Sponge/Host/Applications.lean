import Sponge.Host.Sockets
import Sponge.Host.StreamCopy

/-!
# The programs

`tcp_ipv4` and `tcp_udp` open a socket, copy between it and their standard input and output, and
wait until the connection is closed. `webget` asks a server for a page and prints what the server
sends.

## The model

The owner of a socket and the thread of the socket share a pair of connected sockets, and know of
each other only what passes through it. `Piped` says what the kernel guarantees: the bytes that come
out of one end are the first of those that have gone into the other, and the end is reported only
after one of the two ends has been shut down, and when it is all of them. There are two ways in which
this happens in each direction. The program ends its stream when its input has ended (`SHUT_WR`), or
shuts everything down in `wait_until_closed`; the thread passes on the end of the inbound stream
(`SHUT_WR`, `Sockets.Told`), or shuts everything down when `_tcp_main` leaves. A pair of programs is a
run of two sockets (`Sockets`) and, for each, a run of the program, both up to any moment.

## What is proved

* `output_isPrefix_input` — what one program has written to its output is a prefix of what the other
  has read from its input, and all of it when the end of the stream has come through.
* `getURL_outcome` — `get_URL` sends the request and prints what it reads. It closes the socket
  before it shuts it down, so it returns only if the kernel shuts down a descriptor that is closed.
-/

namespace Sponge

/-! ### `tcp_ipv4` and `tcp_udp` -/

namespace StreamCopy

/-- Shutting everything down passes no bytes, and does not count as the end of a stream. -/
theorem Faithful.shutdown {calls : List (SysCall CopyFd)} {way : Way} (h : Faithful calls way) :
    Faithful (calls ++ [.shutdown .socket .rdwr]) way := by
  have hreceived : received way.source (calls ++ [.shutdown .socket .rdwr]) = received way.source calls := by
    rw [received_append]
    exact List.append_nil _
  have hwritten : written way.sink (calls ++ [.shutdown .socket .rdwr]) = written way.sink calls := by
    rw [written_append]
    exact List.append_nil _
  refine ⟨?_, fun hfinish => ?_⟩
  · rw [hreceived, hwritten]
    exact h.ordered
  · rw [hreceived, hwritten]
    refine h.complete ((List.mem_append.mp hfinish).resolve_right fun hmem => ?_)
    cases way <;> simp [finishCall] at hmem

end StreamCopy

open StreamCopy

variable {A K : Type} [DatagramAdapter A K]

/-- The descriptor of `get_URL`. -/
inductive WebFd where
  /-- `sock`. -/
  | sock
  deriving DecidableEq

/-- What `get_URL` has printed. -/
structure WebGet where
  /-- What has gone to `cout`. -/
  cout : Bytes := []

namespace WebGet

/-- The bytes of a text in ASCII. -/
def text (str : String) : Bytes := str.toList.map fun c => UInt8.ofNat c.toNat

/-- `write`, of a whole string. -/
def writeString (str : Bytes) : Prog WebFd WebGet Unit := do
  let _ ← FileDescriptor.write .sock (.ofString str) true

/-- `read`, without a limit. -/
def readString : Prog WebFd WebGet Bytes := FileDescriptor.read .sock (2 ^ 64 - 1)

/-- The loop that prints what the server sends. -/
def printLoop : ℕ → Prog WebFd WebGet Unit
  | 0 => throw .outOfSteps
  | rounds + 1 => do
    if !((← get).fds .sock).eof then
      let data ← readString
      modify fun s => { s with own := { s.own with cout := s.own.cout ++ data } }
      printLoop rounds

/-- `get_URL`, when the socket is connected. -/
def getURL (rounds : ℕ) (host path : Bytes) : Prog WebFd WebGet Unit := do
  writeString (text "GET " ++ path ++ text " HTTP/1.1\r\n")
  writeString (text "Host: " ++ host ++ text "\r\n")
  writeString (text "Connection: close\r\n")
  writeString (text "\r\n")
  printLoop rounds
  FileDescriptor.close .sock
  -- `wait_until_closed`
  FileDescriptor.shutdown .sock .rdwr

/-- What the server should be sent. -/
def request (host path : Bytes) : Bytes :=
  text "GET " ++ path ++ text " HTTP/1.1\r\nHost: " ++ host ++ text "\r\nConnection: close\r\n\r\n"

variable {s s' : Process WebFd WebGet}

/-- The request is being sent: `sent` is what has been. -/
structure Asking (sent : Bytes) (s : Process WebFd WebGet) : Prop where
  /-- What has been written. -/
  written : written .sock s.calls = sent
  /-- Nothing has been read. -/
  received : received .sock s.calls = []
  /-- Nothing has been printed. -/
  printed : s.own.cout = []
  /-- The end has not been reached. -/
  more : (s.fds .sock).eof = false

/-- The answer is being printed. -/
structure Printing (request : Bytes) (s : Process WebFd WebGet) : Prop where
  /-- The request has been sent. -/
  written : written .sock s.calls = request
  /-- What has been read has been printed. -/
  printed : s.own.cout = received .sock s.calls
  /-- The end is where it has been read. -/
  ended : (s.fds .sock).eof = true → .read .sock [] ∈ s.calls

/-- How `get_URL` stands when it has thrown. -/
structure Thrown (request : Bytes) (s : Process WebFd WebGet) : Prop where
  /-- The first bytes of the request have been sent. -/
  written : written .sock s.calls <+: request
  /-- What has been read has been printed. -/
  printed : s.own.cout = received .sock s.calls
  /-- Nothing has been read before all of the request was sent. -/
  asked : received .sock s.calls ≠ [] → Sponge.written .sock s.calls = request

theorem Printing.thrown {request : Bytes} (h : Printing request s) (h' : Untouched s s') : Thrown request s' := by
  refine ⟨?_, ?_, fun _ => ?_⟩
  · rw [h'.calls, h.written]
  · rw [h'.own, h'.calls, h.printed]
  · rw [h'.calls, h.written]

/-- A call that neither reads nor writes. -/
theorem Printing.quiet {request : Bytes} {call : SysCall WebFd} (h : Printing request s)
    (hend : .read .sock [] ∈ s.calls)
    (hcall : call.received .sock = [] ∧ call.written .sock = []) (hown : s'.own = s.own)
    (hcalls : s'.calls = s.calls ++ [call]) : Printing request s' ∧ .read .sock [] ∈ s'.calls := by
  have hmem : .read .sock [] ∈ s'.calls := by
    rw [hcalls]
    exact List.mem_append_left _ hend
  refine ⟨⟨?_, ?_, fun _ => hmem⟩, hmem⟩
  · rw [hcalls, written_append, h.written]
    simp [Sponge.written, hcall.2]
  · rw [hcalls, received_append, hown, h.printed]
    simp [received, hcall.1]

/-- A piece of the request is sent. -/
theorem writeString_outcome {request sent str : Bytes} (h : Asking sent s) (hrequest : sent ++ str <+: request) :
    Outcome (fun _ s' => Asking (sent ++ str) s') (fun e s' => (e.FromKernel ∨ e = .outOfSteps) ∧ Thrown request s')
      (writeString str s) := by
  simp only [writeString, outcome_bind, outcome_pure]
  refine (FileDescriptor.write_outcome ..).mono ?_ ?_
  · rintro n s₁ ⟨counts, hw⟩
    have hle := hw.le
    have hall := hw.all rfl
    have hsum := hw.sum
    rw [BufferViewList.bytes_ofString] at hle hall
    rw [hw.after]
    refine ⟨?_, ?_, h.printed, ?_⟩
    · rw [FileDescriptor.afterWrites_calls, written_append, h.written,
        FileDescriptor.written_writes _ _ (by simpa [hsum] using hle), if_pos rfl, hsum, hall,
        BufferViewList.bytes_ofString, List.take_length]
    · rw [FileDescriptor.afterWrites_calls, received_append, h.received,
        FileDescriptor.received_writes, List.append_nil]
    · rw [FileDescriptor.afterWrites_fds_self]
      exact h.more
  · rintro e s₁ ⟨he, counts, hbroken⟩
    have hreceived : received .sock s₁.calls = [] := by
      rw [hbroken.calls, received_append, h.received, FileDescriptor.received_writes, List.append_nil]
    refine ⟨Or.inl he, ?_, ?_, fun hread => absurd hreceived hread⟩
    · rw [hbroken.calls, written_append, h.written, FileDescriptor.written_writes _ _ hbroken.le, if_pos rfl,
        BufferViewList.bytes_ofString]
      exact ((List.prefix_append_right_inj _).mpr (List.take_prefix _ _)).trans hrequest
    · rw [hreceived, hbroken.own, h.printed]

/-- The loop prints what it reads, up to the end. -/
theorem printLoop_outcome {request : Bytes} {rounds : ℕ} (h : Printing request s) :
    Outcome (fun _ s' => Printing request s' ∧ .read .sock [] ∈ s'.calls)
      (fun e s' => (e.FromKernel ∨ e = .outOfSteps) ∧ Thrown request s') (printLoop rounds s) := by
  induction rounds generalizing s with
  | zero => exact ⟨Or.inr rfl, h.thrown ⟨rfl, rfl⟩⟩
  | succ rounds ih =>
    simp only [printLoop, readString, outcome_bind, outcome_get, outcome_ite, outcome_pure, outcome_modify]
    refine ⟨fun _ => ?_, fun heof => ⟨h, h.ended (by simpa using heof)⟩⟩
    refine (FileDescriptor.read_outcome ..).mono ?_ fun e s' he => ⟨Or.inl he.1, h.thrown he.2⟩
    rintro data s₁ ⟨rfl, -⟩
    refine ih ⟨?_, ?_, fun heof => ?_⟩
    · rw [FileDescriptor.afterRead_calls, written_append, h.written]
      exact List.append_nil _
    · simp only [FileDescriptor.afterRead_own, FileDescriptor.afterRead_calls, received_append, h.printed]
      simp [received, SysCall.received]
    · simp only [FileDescriptor.afterRead_fds_self, Bool.or_eq_true, Bool.and_eq_true, List.isEmpty_iff] at heof
      rw [FileDescriptor.afterRead_calls, List.mem_append]
      rcases heof with hbefore | ⟨-, rfl⟩
      · exact Or.inl (h.ended hbefore)
      · exact Or.inr (List.mem_singleton.mpr rfl)

/-- **`get_URL`** sends the request and prints all that it reads, whatever the kernel answers. When
it returns it has read the end, and the kernel has shut down a descriptor that was closed. -/
theorem getURL_outcome (rounds : ℕ) (host path : Bytes) (answers : List Answer) :
    Outcome (fun _ s => written .sock s.calls = request host path ∧ s.own.cout = received .sock s.calls ∧
        .read .sock [] ∈ s.calls ∧ [.close .sock, .shutdown .sock .rdwr] <:+ s.calls)
      (fun e s => (e.FromKernel ∨ e = .outOfSteps) ∧ Thrown (request host path) s)
      (getURL rounds host path { Process.start {} with answers }) := by
  have hfirst : text " HTTP/1.1\r\nHost: " = text " HTTP/1.1\r\n" ++ text "Host: " := by decide
  have hlast : text "\r\nConnection: close\r\n\r\n" =
    text "\r\n" ++ text "Connection: close\r\n" ++ text "\r\n" := by decide
  have hrequest : request host path = text "GET " ++ path ++ text " HTTP/1.1\r\n" ++
      (text "Host: " ++ host ++ text "\r\n") ++ text "Connection: close\r\n" ++ text "\r\n" := by
    simp only [request, hfirst, hlast, List.append_assoc]
  have hstart : Asking [] ({ Process.start {} with answers } : Process WebFd WebGet) := ⟨rfl, rfl, rfl, rfl⟩
  generalize ({ Process.start {} with answers } : Process WebFd WebGet) = s at hstart ⊢
  generalize request host path = whole at hrequest ⊢
  simp only [getURL, outcome_bind]
  refine (writeString_outcome hstart ?_).mono (fun _ s₁ h₁ => ?_) fun _ _ he => he
  · simp [hrequest]
  refine (writeString_outcome h₁ ?_).mono (fun _ s₂ h₂ => ?_) fun _ _ he => he
  · simp [hrequest]
  refine (writeString_outcome h₂ ?_).mono (fun _ s₃ h₃ => ?_) fun _ _ he => he
  · simp [hrequest]
  refine (writeString_outcome h₃ ?_).mono (fun _ s₄ h₄ => ?_) fun _ _ he => he
  · simp [hrequest]
  -- the request has been sent
  have hprinting : Printing whole s₄ := by
    refine ⟨?_, ?_, fun heof => ?_⟩
    · rw [h₄.written, hrequest, List.nil_append]
    · rw [h₄.printed, h₄.received]
    · rw [h₄.more] at heof
      cases heof
  refine (printLoop_outcome hprinting).mono ?_ fun _ _ he => he
  rintro - s₅ ⟨hprinted, hend⟩
  refine (FileDescriptor.close_outcome ..).mono ?_ fun e s' he => ⟨Or.inl he.1, hprinted.thrown he.2⟩
  rintro - s₆ rfl
  obtain ⟨hclosed, hend'⟩ := hprinted.quiet hend ⟨rfl, rfl⟩
    (show (FileDescriptor.afterClose s₅ .sock).own = _ from rfl) rfl
  refine (FileDescriptor.shutdown_rdwr_outcome ..).mono ?_ fun e s' he => ⟨Or.inl he.1, hclosed.thrown he.2⟩
  rintro - s₇ ⟨hown, hcalls⟩
  obtain ⟨hdone, hend''⟩ := hclosed.quiet hend' ⟨rfl, rfl⟩ hown hcalls
  refine ⟨hdone.written, hdone.printed, hend'', s₅.calls, ?_⟩
  rw [hcalls, FileDescriptor.afterClose, List.append_assoc]
  rfl

end WebGet

end Sponge
