import Sponge.Network.Moves
import Sponge.Wire.Buffer

/-!
# The benchmark

`tcp_benchmark` runs two connections in one process. One of them is given a long string to send, and
the loop takes the segments out of each connection and hands them to the other, in order or in
reverse, until all has been received. It throws if the connection has not accepted what it had room
for, or if the string that is received is not the one that was sent.

## The model

The connections, what is left to send and what has been received are the variables of `main_loop`.
The inner loop writes at least one byte in every round, so it is given as many rounds as there are
bytes (`writeInput_stops`). Whether the outer loops end depends on the connections; they are given a
number of rounds, and come back with nothing when these are not enough.

The string is any string that is short enough for the sequence numbers, and the configuration is
any; the program takes the default configuration and 100 MiB. Measuring and printing the time is
left out.

## What is proved

* `Reached.left`, `Reached.right` — what one of the two connections does in the loop is a run of the
  two and a network.
* `Follows.loop` — a round of the loop throws nothing.
* `mainLoop_safe` — the benchmark does not throw, with or without reordering, whatever the string
  and however many rounds it takes.
-/

namespace Sponge

/-- The variables of `main_loop`. -/
structure Benchmark where
  /-- The connection that sends. -/
  x : TCPConnection
  /-- The connection that receives. -/
  y : TCPConnection
  /-- What is left to send. -/
  bytesToSend : Bytes
  /-- The stream of `x` has been ended. -/
  xClosed : Bool
  /-- What has been received. -/
  stringReceived : Bytes

namespace Benchmark

/-- `move_segments`: the two connections afterwards. -/
def moveSegments (x y : TCPConnection) (reorder : Bool) : TCPConnection × TCPConnection :=
  let segments := x.segmentsOut
  ({ x with segmentsOut := [] },
    (if reorder then segments.reverse else segments).foldl TCPConnection.segmentReceived y)

/-- The loop that writes input into `x`: the connection afterwards, and what is left to send. -/
def writeInput : ℕ → TCPConnection → Bytes → Except Exception (TCPConnection × Bytes)
  | 0, x, bytesToSend => return (x, bytesToSend)
  | rounds + 1, x, bytesToSend => do
    if bytesToSend.length ≠ 0 ∧ x.remainingOutboundCapacity ≠ 0 then
      let want := min x.remainingOutboundCapacity bytesToSend.length
      let (written, x) := x.write (bytesToSend.take want)
      if want ≠ written then
        throw (.runtimeError ("want = " ++ toString want ++ ", written = " ++ toString written))
      writeInput rounds x (bytesToSend.drop written)
    else
      return (x, bytesToSend)

/-- The stream of `x` is ended when all has been written: the connection afterwards, and whether the
stream has been ended. -/
def closeInput (x : TCPConnection) (bytesToSend : Bytes) (xClosed : Bool) : TCPConnection × Bool :=
  if bytesToSend.length == 0 && !xClosed then (x.endInputStream, true) else (x, xClosed)

/-- All that `y` has received is read. -/
def readOutput (y : TCPConnection) : Bytes × TCPConnection :=
  let availableOutput := y.inboundStream.bufferSize
  if availableOutput > 0 then y.readInbound availableOutput else ([], y)

/-- The body of the loops. -/
def loop (reorder : Bool) (b : Benchmark) : Except Exception Benchmark := do
  let (x, bytesToSend) ← writeInput b.bytesToSend.length b.x b.bytesToSend
  let (x, xClosed) := closeInput x bytesToSend b.xClosed
  let (x, y) := moveSegments x b.y reorder
  let (y, x) := moveSegments y x false
  let (output, y) := readOutput y
  return { x := x.tick 1000, y := y.tick 1000, bytesToSend, xClosed, stringReceived := b.stringReceived ++ output }

/-- A loop that goes on while `condition` holds, for at most some rounds; nothing, if these are not
enough. -/
def whileLoop (condition : Benchmark → Bool) (reorder : Bool) : ℕ → Benchmark → Except Exception (Option Benchmark)
  | 0, b => return if condition b then none else some b
  | rounds + 1, b => do
    if condition b then
      whileLoop condition reorder rounds (← b.loop reorder)
    else
      return some b

/-- The variables before the first loop. -/
def start (config : TCPConfig) (random : Side → WrappingInt32) (stringToSend : Bytes) : Benchmark where
  x := (TCPConnection.make config (random .a)).connect
  y := (TCPConnection.make config (random .b)).endInputStream
  bytesToSend := stringToSend
  xClosed := false
  stringReceived := []

/-- `main_loop`: the variables at the end. -/
def mainLoop (config : TCPConfig) (random : Side → WrappingInt32) (reorder : Bool) (stringToSend : Bytes)
    (rounds : ℕ) : Except Exception (Option Benchmark) := do
  let some b ← whileLoop (fun b => !b.y.inboundStream.eof) reorder rounds (start config random stringToSend)
    | return none
  if b.stringReceived ≠ stringToSend then
    throw (.runtimeError "strings sent vs. received don't match")
  whileLoop (fun b => b.x.active || b.y.active) reorder rounds b

end Benchmark

/-! ### Two connections and nothing else -/

/-- The two sides. -/
def pair (p q : Peer) : World
  | .a => p
  | .b => q

/-- A run of two new connections leads to these sides. -/
def Reached (config : TCPConfig) (random : Side → WrappingInt32) (p q : Peer) : Prop :=
  ∃ es, World.Allowed (fun _ => config) random es ∧ World.after (fun _ => config) random es = pair p q

section

variable {config : TCPConfig} {random : Side → WrappingInt32} {p p' q q' : Peer}

theorem reached_start (config : TCPConfig) (random : Side → WrappingInt32) :
    Reached config random (Peer.start config (random .a)) (Peer.start config (random .b)) :=
  ⟨[], trivial, funext fun s => by cases s <;> rfl⟩

/-- One of the two does something. -/
theorem Reached.moves (h : Reached config random p q) {s : Side} {r : Peer}
    (hm : Moves (· ∈ (pair p q s.other).wire) (pair p q s) r) (heq : Function.update (pair p q) s r = pair p' q') :
    Reached config random p' q' := by
  obtain ⟨es, hallowed, hafter⟩ := h
  obtain ⟨es', hlegal, hruns⟩ := World.moves hm
  have hbefore : runs World.step (World.start (fun _ => config) random) es = pair p q := hafter
  refine ⟨es ++ es', (along_append _ _ _).mpr ⟨hallowed, ?_⟩, ?_⟩
  · rw [hbefore]
    exact hlegal
  · rw [World.after, runs_append, hbefore, hruns, heq]

theorem Reached.left (h : Reached config random p q) (hm : Moves (· ∈ q.wire) p p') : Reached config random p' q :=
  h.moves (s := .a) hm (funext fun s => by cases s <;> rfl)

theorem Reached.right (h : Reached config random p q) (hm : Moves (· ∈ p.wire) q q') : Reached config random p q' :=
  h.moves (s := .b) hm (funext fun s => by cases s <;> rfl)

/-- Before and after an operation of an application that writes nothing. -/
theorem Reached.run_left (h : Reached config random p q) (op : Op) (hop : ∀ data, op ≠ .write data) :
    Reached config random (p.run op) q := h.left (.single (.run op fun data heq => absurd heq (hop data)))

theorem Reached.run_right (h : Reached config random p q) (op : Op) (hop : ∀ data, op ≠ .write data) :
    Reached config random p (q.run op) := h.right (.single (.run op fun data heq => absurd heq (hop data)))

end

/-! ### Segments are moved -/

section

variable {N : TCPSegment → Prop}

/-- The side when some segments have been received. -/
def Peer.receiveAll (p : Peer) (segs : List TCPSegment) : Peer :=
  { p with conn := segs.foldl TCPConnection.segmentReceived p.conn }

theorem moves_receiveAll (p : Peer) {segs : List TCPSegment} (h : ∀ seg ∈ segs, N seg) :
    Moves N p (p.receiveAll segs) := by
  induction segs generalizing p with
  | nil => exact .refl
  | cons seg segs ih =>
    obtain ⟨hseg, hsegs⟩ := List.forall_mem_cons.mp h
    exact Relation.ReflTransGen.head (.receive hseg) (ih (p.receive seg) hsegs)

theorem receiveAll_inputEnded (p : Peer) (segs : List TCPSegment) :
    (p.receiveAll segs).sender.stream.inputEnded = p.sender.stream.inputEnded := by
  induction segs generalizing p with
  | nil => rfl
  | cons seg segs ih => exact (ih (p.receive seg)).trans (p.conn.segmentReceived_inputEnded seg)

end

namespace Benchmark

variable {config : TCPConfig} {random : Side → WrappingInt32} {p q : Peer}

/-- **Moving segments** is sending all and receiving all. -/
theorem reached_moveSegments (h : Reached config random p q) (reorder : Bool) :
    ∃ segs, moveSegments p.conn q.conn reorder = (p.sendAll.conn, (q.receiveAll segs).conn) ∧
      Reached config random p.sendAll (q.receiveAll segs) := by
  refine ⟨if reorder then p.conn.segmentsOut.reverse else p.conn.segmentsOut, rfl, ?_⟩
  refine (h.left (moves_sendAll p)).right (moves_receiveAll q fun seg hseg => List.mem_append_right _ ?_)
  split_ifs at hseg
  · exact List.mem_reverse.mp hseg
  · exact hseg

theorem reached_moveSegments_back (h : Reached config random p q) :
    ∃ segs, moveSegments q.conn p.conn false = (q.sendAll.conn, (p.receiveAll segs).conn) ∧
      Reached config random (p.receiveAll segs) q.sendAll :=
  ⟨q.conn.segmentsOut, rfl,
    (h.right (moves_sendAll q)).left (moves_receiveAll p fun _ hseg => List.mem_append_right _ hseg)⟩

/-! ### Writing -/

theorem write_fst (x : TCPConnection) (data : Bytes) :
    (x.write data).1 = min x.remainingOutboundCapacity data.length := rfl

/-- What the connection has room for is accepted. -/
theorem write_want (x : TCPConnection) (bytesToSend : Bytes) :
    (x.write (bytesToSend.take (min x.remainingOutboundCapacity bytesToSend.length))).1 =
      min x.remainingOutboundCapacity bytesToSend.length := by
  rw [write_fst, List.length_take]
  omega

/-- One round of the loop. -/
theorem writeInput_succ (rounds : ℕ) (x : TCPConnection) (bytesToSend : Bytes) :
    writeInput (rounds + 1) x bytesToSend =
      if bytesToSend.length ≠ 0 ∧ x.remainingOutboundCapacity ≠ 0 then
        writeInput rounds (x.write (bytesToSend.take (min x.remainingOutboundCapacity bytesToSend.length))).2
          (bytesToSend.drop (min x.remainingOutboundCapacity bytesToSend.length))
      else .ok (x, bytesToSend) := by
  rw [writeInput]
  split_ifs
  · simp only [write_want, ne_eq, not_true_eq_false, if_false]
  · rfl

/-- **Writing input** throws nothing, and what is not left to send has been accepted. -/
theorem reached_writeInput (rounds : ℕ) {bytesToSend : Bytes} (h : Reached config random p q)
    (hopen : bytesToSend ≠ [] → p.sender.stream.inputEnded = false) :
    ∃ p' rest, writeInput rounds p.conn bytesToSend = .ok (p'.conn, rest) ∧ Reached config random p' q ∧
      p'.accepted ++ rest = p.accepted ++ bytesToSend ∧
      p'.sender.stream.inputEnded = p.sender.stream.inputEnded ∧ (bytesToSend = [] → rest = []) := by
  induction rounds generalizing p bytesToSend with
  | zero => exact ⟨p, bytesToSend, rfl, h, rfl, rfl, id⟩
  | succ rounds ih =>
    rw [writeInput_succ]
    split_ifs with hgo
    · have hne : bytesToSend ≠ [] := List.ne_nil_of_length_pos (Nat.pos_of_ne_zero hgo.1)
      have hwrite := p.conn.write_inputEnded
        (bytesToSend.take (min p.conn.remainingOutboundCapacity bytesToSend.length))
      have hwritten := write_want p.conn bytesToSend
      generalize hwant : min p.conn.remainingOutboundCapacity bytesToSend.length = want at *
      have hmove := h.left (.single (.run (.write (bytesToSend.take want)) fun _ _ => hopen hne))
      have hstill : bytesToSend.drop want ≠ [] →
          (p.conn.write (bytesToSend.take want)).2.sender.stream.inputEnded = false := fun _ => hwrite.trans (hopen hne)
      obtain ⟨p', rest, hrun, hreached, haccepted, hended, -⟩ := ih hmove hstill
      refine ⟨p', rest, hrun, hreached, ?_, hended.trans hwrite, fun hnil => absurd hnil hne⟩
      rw [haccepted]
      show p.accepted ++ (bytesToSend.take want).take (p.conn.write (bytesToSend.take want)).1 ++ _ = _
      rw [hwritten, List.take_take, Nat.min_self, List.append_assoc, List.take_append_drop]
    · exact ⟨p, bytesToSend, rfl, h, rfl, rfl, id⟩

/-- As many rounds as there are bytes are enough: then all has been written, or there is no room. -/
theorem writeInput_stops {rounds : ℕ} {x x' : TCPConnection} {bytesToSend rest : Bytes}
    (h : writeInput rounds x bytesToSend = .ok (x', rest)) (hrounds : bytesToSend.length ≤ rounds) :
    rest = [] ∨ x'.remainingOutboundCapacity = 0 := by
  induction rounds generalizing x bytesToSend with
  | zero =>
    obtain ⟨-, rfl⟩ := Prod.mk.inj (Except.ok.inj h)
    exact Or.inl (List.eq_nil_of_length_eq_zero (Nat.le_zero.mp hrounds))
  | succ rounds ih =>
    rw [writeInput_succ] at h
    split_ifs at h with hgo
    · refine ih h ?_
      rw [List.length_drop]
      omega
    · obtain ⟨rfl, rfl⟩ := Prod.mk.inj (Except.ok.inj h)
      rw [not_and_or, not_not, not_not, List.length_eq_zero_iff] at hgo
      exact hgo

/-! ### A round -/

/-- The variables are those of a run of two connections. -/
structure Follows (config : TCPConfig) (random : Side → WrappingInt32) (stringToSend : Bytes) (b : Benchmark)
    (p q : Peer) : Prop where
  /-- The two sides can be reached. -/
  reached : Reached config random p q
  /-- The connection that sends. -/
  x : p.conn = b.x
  /-- The connection that receives. -/
  y : q.conn = b.y
  /-- What has been accepted and what is left to send make up the string. -/
  accepted : p.accepted ++ b.bytesToSend = stringToSend
  /-- The other side sends nothing. -/
  nothing : q.accepted = []
  /-- What has been read has been received. -/
  taken : q.taken = b.stringReceived
  /-- The stream has ended only after all of it has been written. -/
  closed : p.sender.stream.inputEnded = true → b.xClosed = true ∧ b.bytesToSend = []

theorem follows_start (config : TCPConfig) (random : Side → WrappingInt32) (stringToSend : Bytes) :
    ∃ p q, Follows config random stringToSend (start config random stringToSend) p q := by
  refine ⟨_, _, ((reached_start config random).run_left .connect (by simp)).run_right
    .endInputStream (by simp), rfl, rfl, rfl, rfl, rfl, fun hended => ?_⟩
  have hopen : (TCPConnection.make config (random .a)).connect.sender.stream.inputEnded = false :=
    TCPConnection.fillWindow_inputEnded _
  exact absurd (hended.symm.trans hopen) Bool.noConfusion

variable {stringToSend : Bytes} {b : Benchmark}

theorem reached_closeInput (h : Reached config random p q) (rest : Bytes) (xClosed : Bool)
    (hclosed : p.sender.stream.inputEnded = true → xClosed = true ∧ rest = []) :
    ∃ p' : Peer, ∃ xClosed', closeInput p.conn rest xClosed = (p'.conn, xClosed') ∧ Reached config random p' q ∧
      p'.accepted = p.accepted ∧ (p'.sender.stream.inputEnded = true → xClosed' = true ∧ rest = []) := by
  unfold closeInput
  split_ifs with hnow
  · refine ⟨p.run .endInputStream, true, rfl, h.run_left _ (by simp), rfl, fun _ => ⟨rfl, ?_⟩⟩
    rw [Bool.and_eq_true, beq_iff_eq, List.length_eq_zero_iff] at hnow
    exact hnow.1
  · exact ⟨p, xClosed, rfl, h, rfl, hclosed⟩

theorem reached_readOutput (h : Reached config random p q) :
    ∃ q' : Peer, ∃ output, readOutput q.conn = (output, q'.conn) ∧ Reached config random p q' ∧
      q'.accepted = q.accepted ∧
      q'.taken = q.taken ++ output := by
  simp only [readOutput]
  split_ifs
  · exact ⟨q.run (.read q.conn.inboundStream.bufferSize), _, rfl, h.run_right _ (by simp), rfl, rfl⟩
  · exact ⟨q, [], rfl, h, rfl, (List.append_nil _).symm⟩

/-- **A round of the loop** throws nothing. -/
theorem Follows.loop (h : Follows config random stringToSend b p q) (reorder : Bool) :
    ∃ b' p' q', b.loop reorder = .ok b' ∧ Follows config random stringToSend b' p' q' ∧
      b.stringReceived <+: b'.stringReceived := by
  have hopen : b.bytesToSend ≠ [] → p.sender.stream.inputEnded = false := by
    intro hne
    rw [← Bool.not_eq_true]
    exact fun hended => hne (h.closed hended).2
  obtain ⟨p₁, rest, hwrite, h₁, haccepted, hended, hnil⟩ := reached_writeInput b.bytesToSend.length h.reached hopen
  obtain ⟨p₂, xClosed, hclose, h₂, haccepted₂, hclosed⟩ := reached_closeInput h₁ rest b.xClosed fun hend =>
    (h.closed (hended ▸ hend)).imp_right hnil
  obtain ⟨segs, hmove, h₃⟩ := reached_moveSegments h₂ reorder
  obtain ⟨segs', hmove', h₄⟩ := reached_moveSegments_back h₃
  obtain ⟨q₅, output, hread, h₅, haccepted₅, htaken⟩ := reached_readOutput h₄
  refine ⟨⟨(p₂.sendAll.receiveAll segs').conn.tick 1000, q₅.conn.tick 1000, rest, xClosed, b.stringReceived ++ output⟩,
    (p₂.sendAll.receiveAll segs').run (.tick 1000), q₅.run (.tick 1000), ?_, ?_, List.prefix_append _ _⟩
  · rw [h.x] at hwrite
    rw [h.y] at hmove
    simp only [Benchmark.loop, hwrite, bind, Except.bind, hclose, hmove, hmove', hread]
    rfl
  · refine ⟨(h₅.run_left _ (by simp)).run_right _ (by simp), rfl, rfl, ?_, ?_, ?_, fun hend => hclosed ?_⟩
    · show p₂.accepted ++ rest = stringToSend
      rw [haccepted₂, haccepted, h.accepted]
    · exact haccepted₅.trans h.nothing
    · show q₅.taken = b.stringReceived ++ output
      rw [htaken, ← h.taken]
      rfl
    · have htick := (p₂.sendAll.receiveAll segs').conn.tick_inputEnded 1000
      exact (receiveAll_inputEnded p₂.sendAll segs').symm.trans (htick.symm.trans hend)

/-- Any number of rounds throws nothing. -/
theorem Follows.whileLoop (h : Follows config random stringToSend b p q) (condition : Benchmark → Bool) (reorder : Bool)
    (rounds : ℕ) : ∃ r, whileLoop condition reorder rounds b = .ok r ∧
      ∀ b', r = some b' → condition b' = false ∧ b.stringReceived <+: b'.stringReceived ∧
        ∃ p' q', Follows config random stringToSend b' p' q' := by
  induction rounds generalizing b p q with
  | zero =>
    refine ⟨_, rfl, fun b' hb' => ?_⟩
    split_ifs at hb' with hcondition
    obtain rfl := Option.some.inj hb'
    exact ⟨Bool.not_eq_true _ ▸ hcondition, List.prefix_rfl, p, q, h⟩
  | succ rounds ih =>
    rw [Benchmark.whileLoop]
    split_ifs with hcondition
    · obtain ⟨b₁, p₁, q₁, hloop, h₁, hmore⟩ := h.loop reorder
      obtain ⟨r, hrest, hend⟩ := ih h₁
      refine ⟨r, ?_, fun b' hb' => ?_⟩
      · rw [hloop]
        exact hrest
      · obtain ⟨hcondition', hmore', hfollows⟩ := hend b' hb'
        exact ⟨hcondition', hmore.trans hmore', hfollows⟩
    · refine ⟨some b, rfl, fun b' hb' => ?_⟩
      obtain rfl := Option.some.inj hb'
      exact ⟨Bool.not_eq_true _ ▸ hcondition, List.prefix_rfl, p, q, h⟩

/-- What has been received is a part of the string, and all of it when the inbound stream of `y` is
at its end. -/
theorem Follows.received (h : Follows config random stringToSend b p q) (hshort : stringToSend.length < 2 ^ 31 - 2) :
    b.stringReceived <+: stringToSend ∧ (b.y.inboundStream.eof = true → b.stringReceived = stringToSend) := by
  obtain ⟨es, hallowed, hafter⟩ := h.reached
  have hboth := World.both hallowed
  rw [hafter] at hboth
  have hp : p.Short := by
    refine lt_of_le_of_lt ?_ hshort
    rw [← h.accepted, List.length_append]
    exact Nat.le_add_right _ _
  have hq : q.Short := by
    rw [Peer.Short, h.nothing]
    decide
  obtain ⟨hassembled, hall⟩ := ((hboth .a).2 hp hq).1.assembled (hboth .a).1
  rw [← h.taken, ← h.accepted, ← h.y]
  refine ⟨((List.prefix_append _ _).trans hassembled).trans (List.prefix_append _ _), fun heof => ?_⟩
  obtain ⟨hended, hque⟩ := (ByteStream.eof_iff _).mp heof
  obtain ⟨hclosed, heq⟩ := hall hended
  have hassembled' : q.assembled = q.taken := by rw [Peer.assembled, hque, List.append_nil]
  rw [(h.closed hclosed).2, List.append_nil]
  exact hassembled'.symm.trans heq

/-- **The benchmark does not throw**, whether segments are reordered or not, whatever the string,
which has to be short enough for the sequence numbers, and however many rounds it takes. If the
rounds are enough, the string has been received and both connections are dead. -/
theorem mainLoop_safe (config : TCPConfig) (random : Side → WrappingInt32) (reorder : Bool) (stringToSend : Bytes)
    (rounds : ℕ) (hshort : stringToSend.length < 2 ^ 31 - 2) :
    ∃ r, mainLoop config random reorder stringToSend rounds = .ok r ∧ ∀ b, r = some b →
      b.stringReceived = stringToSend ∧ b.x.active = false ∧ b.y.active = false := by
  obtain ⟨p, q, hstart⟩ := follows_start config random stringToSend
  obtain ⟨r, hfirst, hend⟩ := hstart.whileLoop (fun b => !b.y.inboundStream.eof) reorder rounds
  simp only [mainLoop, hfirst, bind, Except.bind]
  cases r with
  | none => exact ⟨none, rfl, fun b hb => absurd hb (by simp)⟩
  | some b =>
    obtain ⟨heof, -, p₁, q₁, h₁⟩ := hend b rfl
    have hreceived := (h₁.received hshort).2 (by simpa using heof)
    obtain ⟨r, hsecond, hend'⟩ := h₁.whileLoop (fun b => b.x.active || b.y.active) reorder rounds
    refine ⟨r, ?_, fun b' hb' => ?_⟩
    · simpa only [hreceived, ne_eq, not_true_eq_false, if_false] using hsecond
    · obtain ⟨hdead, hmore, p₂, q₂, h₂⟩ := hend' b' hb'
      rw [Bool.or_eq_false_iff] at hdead
      rw [hreceived] at hmore
      exact ⟨(h₂.received hshort).1.eq_of_length_le hmore.length_le, hdead⟩

/-- Buffers for two bytes. -/
def narrow : TCPConfig := { recvCapacity := 2, sendCapacity := 2 }

/-- Seven bytes go through buffers for two, the segments of each round in reverse, and both
connections close. -/
theorem mainLoop_safe_seven :
    ∃ b, mainLoop narrow (fun _ => ⟨0⟩) true [1, 2, 3, 4, 5, 6, 7] 10 = .ok (some b) ∧
      b.stringReceived = [1, 2, 3, 4, 5, 6, 7] ∧ b.x.active = false ∧ b.y.active = false := by
  obtain ⟨r, hrun, hall⟩ := mainLoop_safe narrow (fun _ => ⟨0⟩) true [1, 2, 3, 4, 5, 6, 7] 10 (by decide)
  have hends : ((mainLoop narrow (fun _ => ⟨0⟩) true [1, 2, 3, 4, 5, 6, 7] 10).map Option.isSome).toOption =
      some true := by decide +kernel
  rw [hrun] at hends ⊢
  obtain ⟨b, rfl⟩ := Option.isSome_iff_exists.mp (Option.some.inj hends)
  exact ⟨b, rfl, hall b rfl⟩

end Benchmark

end Sponge
