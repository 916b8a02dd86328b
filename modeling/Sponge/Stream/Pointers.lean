import Sponge.Library.Checked
import Sponge.Stream.Push

/-!
# The reassembler with its pointers

`StreamReassembler` keeps the linked list as a list. Here it is what it is in the code: nodes in memory, with
pointers between them, that are allocated and deleted. Whatever the code must not do is a fault.

## The model

`_head` and `next` are addresses or null. `insert_to_linklist` is given a reference to a pointer, `Slot`. Its
`while` loop is `walk`, what follows the loop is `insertAt`, and the recursive calls are as they are in the
code, with the tests at `_head` made again in each of them.

All arithmetic on indices is checked, additions too. `_remaincapacity` and the counters of the stream are
natural numbers as before.

## What is proved

* `walk_covered`, `walk_last`, `walk_next`, `walk_gap` — one turn of the loop.
* `insertAt_gap`, `insertAt_last` — what follows it. The new node is the same piece of the data as in the list.
-/

namespace Sponge

open LinkedLists Checked

/-- The reassembler, with its linked list in memory. -/
structure LinkedReassembler where
  /-- The reassembled stream. -/
  output : ByteStream
  /-- The maximum number of bytes. -/
  capacity : ℕ
  /-- How many more bytes the linked list may hold. -/
  remaincapacity : ℕ
  /-- The nodes. -/
  heap : Heap Node
  /-- The first node. -/
  head : Option ℕ
  deriving DecidableEq

/-- The pointer that `insert_to_linklist` is given a reference to. -/
inductive Slot where
  /-- `_head`. -/
  | head
  /-- `next` of a node. -/
  | next (a : ℕ)
  deriving DecidableEq

/-- How the loop of `insert_to_linklist` ends. -/
inductive Walk where
  /-- The function returns: the list holds the data already. -/
  | covered
  /-- The loop stops at a node, or past the last one. -/
  | stopped (p : Option ℕ)
  deriving DecidableEq

namespace LinkedReassembler

/-- A new reassembler. -/
def make (capacity : ℕ) : LinkedReassembler where
  output := ByteStream.make capacity
  capacity := capacity
  remaincapacity := capacity
  heap := Heap.empty
  head := none

/-- The pointer in a slot. -/
def load (m : LinkedReassembler) : Slot → Except Fault (Option ℕ)
  | .head => .ok m.head
  | .next a => do
    let node ← deref m.heap (some a)
    .ok node.next

/-- `start + size - 1`. -/
def lastIndex (start size : ℕ) : Except Fault ℕ := do
  let stop ← add start size
  sub stop 1

/-- How far data at `index` overlaps a block that ends at `blockend`. -/
def overlap (index blockend : ℕ) : Except Fault ℕ :=
  if index > blockend then .ok 0
  else do
    let stop ← add blockend 1
    sub stop index

/-- The room before the next block: `p->next->blockstart - max(index - 1, p->blockend) - 1`. -/
def roomBefore (blockstart index blockend : ℕ) : Except Fault ℕ := do
  let before ← sub index 1
  let distance ← sub blockstart (max before blockend)
  sub distance 1

/-- The loop of `insert_to_linklist`, from `p` on. -/
def walk (heap : Heap Node) (index writesize : ℕ) : ℕ → Option ℕ → Except Fault Walk
  | 0, _ => .error .unfinished
  | _ + 1, none => .ok (.stopped none)
  | fuel + 1, some a => do
    let p ← deref heap (some a)
    let last ← lastIndex index writesize
    if last > p.val.blockend then
      match p.next with
      | none => .ok (.stopped (some a))
      | some b => do
        let q ← deref heap (some b)
        let after ← add p.val.blockend 1
        if q.val.blockstart = after ∨ index > q.val.blockstart then walk heap index writesize fuel (some b)
        else .ok (.stopped (some a))
    else .ok .covered

/-- What `insert_to_linklist` does after the loop; `recur` is the recursive call. -/
def insertAt (recur : LinkedReassembler → Bytes → ℕ → Slot → Except Fault LinkedReassembler)
    (m : LinkedReassembler) (data : Bytes) (index writesize : ℕ) (eof : Bool) :
    Walk → Except Fault LinkedReassembler
  | .covered => .ok m
  | .stopped p => do
    let node ← deref m.heap p
    let offset ← overlap index node.val.blockend
    match node.next with
    | some b => do
      -- fill the gap before the next node, and go on from there
      let next ← deref m.heap (some b)
      let writedata ← substrFrom data offset
      let room ← roomBefore next.val.blockstart index node.val.blockend
      let writesize := min (min writesize writedata.length) room
      let writedata ← substr data offset writesize
      let blockstart ← add index offset
      let blockend ← lastIndex blockstart writesize
      let temp := m.heap.fresh
      let heap := m.heap.alloc ⟨⟨writedata, blockstart, blockend, false⟩, some b⟩
      let heap ← assign heap p ⟨node.val, some temp⟩
      let remaincapacity ← sub m.remaincapacity writesize
      let written ← add offset writesize
      let rest ← substrFrom data written
      let index ← add blockend 1
      recur { m with heap := heap, remaincapacity := remaincapacity } rest index (.next temp)
    | none => do
      -- a new node at the end of the list
      let writedata ← substrFrom data offset
      let writesize := min writesize writedata.length
      let writedata ← substr writedata 0 writesize
      let blockstart ← add index offset
      let blockend ← lastIndex blockstart writesize
      let written ← add writesize offset
      let temp := m.heap.fresh
      let heap := m.heap.alloc ⟨⟨writedata, blockstart, blockend, written == data.length && eof⟩, none⟩
      let heap ← assign heap p ⟨node.val, some temp⟩
      let remaincapacity ← sub m.remaincapacity writesize
      .ok { m with heap := heap, remaincapacity := remaincapacity }

/-- `insert_to_linklist`. -/
def insertToLinklist : ℕ → LinkedReassembler → Bytes → ℕ → Slot → Bool → Except Fault LinkedReassembler
  | 0, _, _, _, _, _ => .error .unfinished
  | fuel + 1, m, data, index, slot, eof =>
    if data.length = 0 ∨ m.remaincapacity = 0 then .ok m
    else
      let writesize := min data.length m.remaincapacity
      match m.head with
      | none => do
        let writedata ← substr data 0 writesize
        let blockend ← lastIndex index writesize
        let remaincapacity ← sub m.remaincapacity writesize
        .ok { m with
          heap := m.heap.alloc ⟨⟨writedata, index, blockend, writesize == data.length && eof⟩, none⟩
          head := some m.heap.fresh
          remaincapacity := remaincapacity }
      | some a => do
        let first ← deref m.heap (some a)
        if index < first.val.blockstart then do
          -- a new first node
          let room ← sub first.val.blockstart index
          let writesize := min writesize room
          let writedata ← substr data 0 writesize
          let blockend ← lastIndex index writesize
          let temp := m.heap.fresh
          let heap := m.heap.alloc ⟨⟨writedata, index, blockend, false⟩, some a⟩
          let remaincapacity ← sub m.remaincapacity writesize
          let rest ← substrFrom data writesize
          let index ← add index writesize
          insertToLinklist fuel { m with heap := heap, head := some temp, remaincapacity := remaincapacity } rest index
            (.next temp) eof
        else do
          let p ← m.load slot
          let stop ← walk m.heap index writesize fuel p
          insertAt (fun m data index slot => insertToLinklist fuel m data index slot eof)
            m data index writesize eof stop

/-- `fetch_valid_data`. -/
def fetchValidData : ℕ → LinkedReassembler → Except Fault LinkedReassembler
  | 0, _ => .error .unfinished
  | fuel + 1, m =>
    match m.head with
    | none => .ok m
    | some a =>
      if m.output.remainingCapacity = 0 then .ok m
      else do
        let h ← deref m.heap (some a)
        if h.val.blockstart > m.output.bytesWritten then .ok m
        else if h.val.blockend < m.output.bytesWritten then do
          let heap ← delete m.heap (some a)
          fetchValidData fuel
            { m with heap := heap, head := h.next, remaincapacity := m.remaincapacity + h.val.data.length }
        else do
          let offset ← sub m.output.bytesWritten h.val.blockstart
          let data ← substrFrom h.val.data offset
          if data.length > m.output.remainingCapacity then do
            let writedata ← substr data 0 m.output.remainingCapacity
            let out := (m.output.write writedata).2
            let data ← substrFrom data out.remainingCapacity
            let blockstart := h.val.blockstart + (offset + writedata.length)
            let heap ← assign m.heap (some a) ⟨{ h.val with data := data, blockstart := blockstart }, h.next⟩
            .ok { m with
              output := out
              heap := heap
              remaincapacity := m.remaincapacity + (offset + writedata.length) }
          else do
            let out := (m.output.write data).2
            let heap ← delete m.heap (some a)
            fetchValidData fuel
              { m with
                output := if h.val.eof then out.endInput else out
                heap := heap
                head := h.next
                remaincapacity := m.remaincapacity + h.val.data.length }

/-- `push_substring`. -/
def pushSubstring (fuel : ℕ) (m : LinkedReassembler) (data : Bytes) (index : ℕ) (eof : Bool) :
    Except Fault LinkedReassembler :=
  if index ≤ m.output.bytesWritten then do
    let stop ← add index data.length
    if stop ≥ m.output.bytesWritten then do
      let offset ← sub m.output.bytesWritten index
      let data ← substrFrom data offset
      let writesize := min data.length m.output.remainingCapacity
      if writesize ≥ data.length then
        let out := (m.output.write data).2
        fetchValidData fuel { m with output := if eof then out.endInput else out }
      else do
        let writedata ← substr data 0 writesize
        let keepdata ← substrFrom data writesize
        let start ← add index offset
        let start ← add start writesize
        let m ← insertToLinklist fuel { m with output := (m.output.write writedata).2 } keepdata start .head eof
        fetchValidData fuel m
    else .ok m
  else do
    let m ← insertToLinklist fuel m data index .head eof
    fetchValidData fuel m

/-- One call. -/
def call (fuel : ℕ) (m : LinkedReassembler) : Call → Except Fault LinkedReassembler
  | .push p => m.pushSubstring fuel p.data p.index p.eof
  | .read len => .ok { m with output := (m.output.read len).2 }

/-! ### The steps of insertion, when nothing goes wrong -/

theorem lastIndex_ok {start size : ℕ} (hpos : 1 ≤ start + size) (hlt : start + size < 2 ^ 64) :
    lastIndex start size = .ok (start + size - 1) := by
  rw [lastIndex, ok_bind (add_ok hlt), sub_ok hpos]

theorem overlap_ok {p : Node} (hsmall : p.stop < 2 ^ 64) (index : ℕ) :
    overlap index p.blockend = .ok (p.stop - index) := by
  unfold Node.stop at hsmall ⊢
  by_cases h : index > p.blockend
  · rw [overlap, if_pos h, Nat.sub_eq_zero_of_le h]
  · rw [overlap, if_neg h, ok_bind (add_ok hsmall), sub_ok (by omega)]

theorem roomBefore_ok {p q : Node} {index : ℕ} (hi : 1 ≤ index) (hpq : p.stop ≤ q.blockstart)
    (hq : index ≤ q.blockstart) :
    roomBefore q.blockstart index p.blockend = .ok (q.blockstart - (index + (p.stop - index))) := by
  unfold Node.stop at hpq ⊢
  rw [roomBefore, ok_bind (sub_ok hi), ok_bind (sub_ok (by omega)), sub_ok (by omega)]
  congr 1
  omega

section Walk

variable {heap : Heap Node} {a b : ℕ} {p q : Node} {next : Option ℕ} {index writesize : ℕ} (hi : 1 ≤ index)
  (hlt : index + writesize < 2 ^ 64) (fuel : ℕ)
include hi hlt

theorem walk_covered (hread : heap.read a = some ⟨p, next⟩) (hstop : index + writesize ≤ p.stop) :
    walk heap index writesize (fuel + 1) (some a) = .ok .covered := by
  have hblock : ¬ index + writesize - 1 > p.blockend := by
    unfold Node.stop at hstop
    omega
  rw [walk, ok_bind (deref_ok hread), ok_bind (lastIndex_ok (by omega) hlt)]
  exact if_neg hblock

theorem walk_last (hread : heap.read a = some ⟨p, none⟩) (hstop : p.stop < index + writesize) :
    walk heap index writesize (fuel + 1) (some a) = .ok (.stopped (some a)) := by
  have hblock : index + writesize - 1 > p.blockend := by
    unfold Node.stop at hstop
    omega
  rw [walk, ok_bind (deref_ok hread), ok_bind (lastIndex_ok (by omega) hlt)]
  exact if_pos hblock

variable (hread : heap.read a = some ⟨p, some b⟩) (hread' : heap.read b = some ⟨q, next⟩)
  (hstop : p.stop < index + writesize)
include hread hread' hstop

theorem walk_next (hnext : q.blockstart = p.stop ∨ q.blockstart < index) :
    walk heap index writesize (fuel + 1) (some a) = walk heap index writesize fuel (some b) := by
  have hblock : index + writesize - 1 > p.blockend := by
    unfold Node.stop at hstop
    omega
  rw [walk, ok_bind (deref_ok hread), ok_bind (lastIndex_ok (by omega) hlt)]
  dsimp only
  rw [if_pos hblock, ok_bind (deref_ok hread'), ok_bind (add_ok (by omega))]
  exact if_pos hnext

theorem walk_gap (hne : q.blockstart ≠ p.stop) (hq : index ≤ q.blockstart) :
    walk heap index writesize (fuel + 1) (some a) = .ok (.stopped (some a)) := by
  have hblock : index + writesize - 1 > p.blockend := by
    unfold Node.stop at hstop
    omega
  have hnext : ¬ (q.blockstart = p.blockend + 1 ∨ index > q.blockstart) := by
    rw [not_or]
    exact ⟨hne, by omega⟩
  rw [walk, ok_bind (deref_ok hread), ok_bind (lastIndex_ok (by omega) hlt)]
  dsimp only
  rw [if_pos hblock, ok_bind (deref_ok hread'), ok_bind (add_ok (by omega))]
  exact if_neg hnext

end Walk

section InsertAt

variable {m : LinkedReassembler} {a : ℕ} {p : Node} {data : Bytes} {index k w : ℕ} (eof : Bool)
  (recur : LinkedReassembler → Bytes → ℕ → Slot → Except Fault LinkedReassembler)
  (hi : 1 ≤ index) (hlt : index + data.length < 2 ^ 64) (hpos : 0 < data.length) (hsmall : p.stop < 2 ^ 64)
  (hstop : p.stop < index + min data.length m.remaincapacity) (hk : k = p.stop - index)
include hi hlt hpos hsmall hstop hk

theorem insertAt_gap {b : ℕ} {q : Node} {next : Option ℕ} (hread : m.heap.read a = some ⟨p, some b⟩)
    (hread' : m.heap.read b = some ⟨q, next⟩) (hpq : p.stop ≤ q.blockstart) (hq : index ≤ q.blockstart)
    (hw : w = min (min (min data.length m.remaincapacity) (data.length - k)) (q.blockstart - (index + k))) :
    insertAt recur m data index (min data.length m.remaincapacity) eof (.stopped (some a)) =
      recur { m with
          heap := (m.heap.alloc ⟨pieceAt data index k w false, some b⟩).write a ⟨p, some m.heap.fresh⟩
          remaincapacity := m.remaincapacity - w }
        (data.drop (k + w)) (index + k + w) (.next m.heap.fresh) := by
  have hover := overlap_ok hsmall index
  have hroom := roomBefore_ok hi hpq hq
  obtain ⟨-, hklen, hkw, hwr⟩ := piece_bounds hpos hstop hk (hw.trans_le (min_le_left _ _))
  rw [← hk] at hover hroom
  rw [insertAt, ok_bind (deref_ok hread), ok_bind hover]
  simp only
  rw [ok_bind (deref_ok hread'), ok_bind (substrFrom_ok (by omega)), ok_bind hroom, List.length_drop, ← hw,
    ok_bind (substr_ok (by omega)), ok_bind (add_ok (by omega)), ok_bind (lastIndex_ok (by omega) (by omega)),
    ok_bind (assign_ok (Heap.read_alloc hread) _), ok_bind (sub_ok hwr), ok_bind (add_ok (by omega)),
    ok_bind (substrFrom_ok hkw), ok_bind (add_ok (by omega)), Nat.sub_add_cancel (by omega)]
  rfl

theorem insertAt_last (hread : m.heap.read a = some ⟨p, none⟩)
    (hw : w = min (min data.length m.remaincapacity) (data.length - k)) :
    insertAt recur m data index (min data.length m.remaincapacity) eof (.stopped (some a)) =
      .ok { m with
        heap := (m.heap.alloc ⟨pieceAt data index k w (w + k == data.length && eof), none⟩).write a
          ⟨p, some m.heap.fresh⟩
        remaincapacity := m.remaincapacity - w } := by
  have hover := overlap_ok hsmall index
  obtain ⟨-, hklen, hkw, hwr⟩ := piece_bounds hpos hstop hk (Nat.le_of_eq hw)
  rw [← hk] at hover
  rw [insertAt, ok_bind (deref_ok hread), ok_bind hover]
  simp only
  rw [ok_bind (substrFrom_ok (by omega)), List.length_drop, ← hw, ok_bind (substr_ok (Nat.zero_le _)),
    ok_bind (add_ok (by omega)), ok_bind (lastIndex_ok (by omega) (by omega)), ok_bind (add_ok (by omega)),
    ok_bind (assign_ok (Heap.read_alloc hread) _), ok_bind (sub_ok hwr)]
  rfl

end InsertAt

end LinkedReassembler

end Sponge
