import Sponge.Stream.Pointers
import Sponge.Stream.Safety

/-!
# Nothing goes wrong with the pointers

The reassembler with its pointers does what the one with a list does, and it always can: whatever is pushed, and
whatever state the blocks are in after a partial drain, every call comes to its end without a fault.

The proof goes along the list. When insertion has come to a node, the nodes from there on are in order, and
those before it do not change; `Ready` says where it stands, and the induction is on the nodes after that one.
The loop passes one of them with each unit of fuel, and a recursive call starts at the one after the gap it
has filled.

## What is proved

* `Ready.insertFrom`, `Represents.insertToLinklist` — insertion.
* `fetchValidData_ok` — draining.
* `runs_without_fault` — every sequence of calls.
-/

namespace Sponge

open LinkedLists Checked StreamReassembler

namespace LinkedReassembler

/-! ### Insertion from a node on -/

/-- The list in memory, with `(a, p)` the node that insertion has come to. -/
structure Ready (m : LinkedReassembler) (pre : List (ℕ × Node)) (a : ℕ) (p : Node) (rest : List (ℕ × Node))
    (data : Bytes) (index : ℕ) : Prop where
  /-- The nodes in memory. -/
  linked : Linked m.heap m.head (pre ++ (a, p) :: rest)
  /-- From here on the blocks are in order. -/
  spaced : Spaced (p :: rest.map Prod.snd)
  /-- Their indices fit into 64 bits. -/
  small : ∀ n ∈ p :: rest.map Prod.snd, n.stop < 2 ^ 64
  /-- The first byte of the stream is never kept. -/
  pos : 1 ≤ index
  /-- The indices of the data fit into 64 bits. -/
  fits : index + data.length < 2 ^ 64
  /-- The data does not start before the list. -/
  first : ∀ c ∈ (pre ++ [(a, p)]).head?, c.2.blockstart ≤ index

/-- The result is what `insertAfter` says. -/
def Inserted (eof : Bool) (m : LinkedReassembler) (pre : List (ℕ × Node)) (a : ℕ) (p : Node)
    (rest : List (ℕ × Node)) (data : Bytes) (index : ℕ) (result : Except Fault LinkedReassembler) : Prop :=
  ∃ heap rest', Linked heap m.head (pre ++ (a, p) :: rest') ∧
    p :: rest'.map Prod.snd = (insertAfter m.remaincapacity (p :: rest.map Prod.snd) data index eof).1 ∧
    result = .ok { m with
      heap := heap
      remaincapacity := (insertAfter m.remaincapacity (p :: rest.map Prod.snd) data index eof).2 }

/-- The loop from the node at `a` on, and what follows it. -/
def insertFrom (fuel wfuel : ℕ) (m : LinkedReassembler) (data : Bytes) (index : ℕ) (eof : Bool) (a : ℕ) :
    Except Fault LinkedReassembler := do
  let stop ← walk m.heap index (min data.length m.remaincapacity) wfuel (some a)
  insertAt (fun m data index slot => insertToLinklist fuel m data index slot eof) m data index
    (min data.length m.remaincapacity) eof stop

section Insert

variable {m : LinkedReassembler} {pre rest : List (ℕ × Node)} {a : ℕ} {p : Node} {data : Bytes} {index : ℕ}
  {eof : Bool}

/-- Nothing is done. -/
theorem Ready.unchanged (h : Ready m pre a p rest data index)
    (heq : insertAfter m.remaincapacity (p :: rest.map Prod.snd) data index eof =
      (p :: rest.map Prod.snd, m.remaincapacity)) : Inserted eof m pre a p rest data index (.ok m) := by
  refine ⟨m.heap, rest, h.linked, ?_, ?_⟩
  · rw [heq]
  · rw [heq]

/-- A call with the pointer to a node goes on from that node. -/
theorem Ready.insertToLinklist (h : Ready m pre a p rest data index) {slot : Slot} (hslot : m.load slot = .ok (some a))
    {fuel : ℕ} (hfrom : 0 < data.length → 0 < m.remaincapacity →
      Inserted eof m pre a p rest data index (insertFrom fuel fuel m data index eof a)) :
    Inserted eof m pre a p rest data index (m.insertToLinklist (fuel + 1) data index slot eof) := by
  rw [LinkedReassembler.insertToLinklist]
  by_cases hdone : data.length = 0 ∨ m.remaincapacity = 0
  · rw [if_pos hdone]
    exact h.unchanged (insertAfter_done eof hdone)
  -- the first node of the list, where the tests at `_head` are made
  obtain ⟨b, n, l, hlist⟩ : ∃ b n l, pre ++ (a, p) :: rest = (b, n) :: l := by
    cases pre with
    | nil => exact ⟨a, p, rest, rfl⟩
    | cons c pre => exact ⟨c.1, c.2, pre ++ (a, p) :: rest, rfl⟩
  have hfirst : n.blockstart ≤ index := by
    refine h.first (b, n) ?_
    rw [← List.head?_append_of_ne_nil _ (by simp), List.append_assoc, List.singleton_append, hlist]
    rfl
  have hlinked := h.linked
  rw [hlist] at hlinked
  obtain ⟨hhead, next, hread, -⟩ := Linked.cell_iff.mp hlinked
  rw [if_neg hdone, hhead]
  dsimp only
  rw [ok_bind (deref_ok hread)]
  dsimp only
  rw [if_neg (Nat.not_lt.mpr hfirst), ok_bind hslot]
  exact hfrom (by omega) (by omega)

/-- After a node has been put in behind this one, insertion goes on from the next one. -/
theorem Ready.fill {b : ℕ} {q : Node} (h : Ready m pre a p ((b, q) :: rest) data index)
    (hread : m.heap.read a = some ⟨p, some b⟩) (n : Node) (remain : ℕ) {o : ℕ} (ho : o ≤ data.length) :
    Ready { m with
        heap := (m.heap.alloc ⟨n, some b⟩).write a ⟨p, some m.heap.fresh⟩
        remaincapacity := remain }
      (pre ++ [(a, p), (m.heap.fresh, n)]) b q rest (data.drop o) (index + o) ∧
    load { m with
        heap := (m.heap.alloc ⟨n, some b⟩).write a ⟨p, some m.heap.fresh⟩
        remaincapacity := remain } (.next m.heap.fresh) = .ok (some b) := by
  have hlinked := h.linked.insert hread n
  have hi := h.pos
  have hfits := h.fits
  constructor
  · refine ⟨?_, (List.pairwise_cons.mp h.spaced).2, fun c hc => h.small c (List.mem_cons_of_mem p hc), by omega, ?_,
      fun c hc => Nat.le_trans (h.first c ?_) (Nat.le_add_right index o)⟩
    · rw [List.append_assoc]
      exact hlinked
    · rw [List.length_drop]
      omega
    · cases pre with
      | nil => exact hc
      | cons d pre => exact hc
  · rw [List.append_cons] at hlinked
    obtain ⟨-, next, hnew, hnext⟩ := Linked.cell_iff.mp hlinked.drop
    obtain ⟨rfl, -⟩ := Linked.cell_iff.mp hnext
    rw [load, ok_bind (deref_ok hnew)]

/-- The list holds what there is room for: nothing is done. -/
theorem Ready.insertFrom_covered (h : Ready m pre a p rest data index) (fuel wfuel : ℕ)
    (hstop : index + min data.length m.remaincapacity ≤ p.stop) :
    Inserted eof m pre a p rest data index (insertFrom fuel (wfuel + 1) m data index eof a) := by
  obtain ⟨-, next, hread, -⟩ := Linked.cell_iff.mp h.linked.drop
  have hfits := h.fits
  rw [LinkedReassembler.insertFrom, ok_bind (walk_covered h.pos (by omega) wfuel hread hstop)]
  exact h.unchanged (insertAfter_covered eof hstop)

section Passes

variable (hpos : 0 < data.length) (hremain : 0 < m.remaincapacity)
  (hstop : p.stop < index + min data.length m.remaincapacity)
include hpos hremain hstop

/-- The last node: a new one is put after it. -/
theorem Ready.insertFrom_last (h : Ready m pre a p [] data index) (fuel wfuel : ℕ) :
    Inserted eof m pre a p [] data index (insertFrom fuel (wfuel + 1) m data index eof a) := by
  obtain ⟨-, next, hread, hrest⟩ := Linked.cell_iff.mp h.linked.drop
  obtain rfl := Linked.nil_iff.mp hrest
  have hfits := h.fits
  obtain ⟨k, hk⟩ : ∃ k, k = p.stop - index := ⟨_, rfl⟩
  obtain ⟨w, hw⟩ : ∃ w, w = min (min data.length m.remaincapacity) (data.length - k) := ⟨_, rfl⟩
  rw [LinkedReassembler.insertFrom, ok_bind (walk_last h.pos (by omega) wfuel hread hstop),
    insertAt_last eof _ h.pos hfits hpos (h.small p List.mem_cons_self) hstop hk hread hw]
  have heq := insertAfter_last eof hpos hremain hstop h.pos hk hw
  refine ⟨_, [(m.heap.fresh, pieceAt data index k w (w + k == data.length && eof))],
    h.linked.insert hread (pieceAt data index k w (w + k == data.length && eof)), ?_, ?_⟩
  · rw [List.map_nil, heq]
    rfl
  · rw [List.map_nil, heq]

variable {b : ℕ} {q : Node} (h : Ready m pre a p ((b, q) :: rest) data index)
include h

/-- The loop goes on to the next node. -/
theorem Ready.insertFrom_walk (hwalk : q.blockstart = p.stop ∨ q.blockstart < index) {fuel wfuel : ℕ}
    (hnext : Ready m (pre ++ [(a, p)]) b q rest data index →
      Inserted eof m (pre ++ [(a, p)]) b q rest data index (insertFrom fuel wfuel m data index eof b)) :
    Inserted eof m pre a p ((b, q) :: rest) data index (insertFrom fuel (wfuel + 1) m data index eof a) := by
  obtain ⟨-, next, hread, hrest⟩ := Linked.cell_iff.mp h.linked.drop
  obtain ⟨rfl, next', hread', -⟩ := Linked.cell_iff.mp hrest
  have hfits := h.fits
  have hready : Ready m (pre ++ [(a, p)]) b q rest data index := by
    refine ⟨?_, (List.pairwise_cons.mp h.spaced).2, fun n hn => h.small n (List.mem_cons_of_mem p hn), h.pos, hfits, ?_⟩
    · rw [List.append_assoc]
      exact h.linked
    · rw [List.head?_append_of_ne_nil _ (by simp)]
      exact h.first
  obtain ⟨heap, rest', hlinked, hlist, hresult⟩ := hnext hready
  have heq : insertAfter m.remaincapacity (p :: q :: rest.map Prod.snd) data index eof = _ :=
    insertAfter_walk eof hpos hremain hstop hwalk
  rw [List.append_assoc] at hlinked
  refine ⟨heap, (b, q) :: rest', hlinked, ?_, ?_⟩
  · rw [List.map_cons, List.map_cons, heq, ← hlist]
  · rw [List.map_cons, heq, ← hresult, LinkedReassembler.insertFrom,
      walk_next h.pos (by omega) wfuel hread hread' hstop hwalk]
    rfl

/-- The gap before the next node is filled, and the function calls itself. -/
theorem Ready.insertFrom_gap (hne : q.blockstart ≠ p.stop) (hq : index ≤ q.blockstart) {fuel wfuel : ℕ}
    (hnext : ∀ {pre : List (ℕ × Node)} {m : LinkedReassembler} {data : Bytes} {index : ℕ},
      Ready m pre b q rest data index → 0 < data.length → 0 < m.remaincapacity →
        Inserted eof m pre b q rest data index (insertFrom fuel fuel m data index eof b)) :
    Inserted eof m pre a p ((b, q) :: rest) data index (insertFrom (fuel + 1) (wfuel + 1) m data index eof a) := by
  obtain ⟨-, next, hread, hrest⟩ := Linked.cell_iff.mp h.linked.drop
  obtain ⟨rfl, next', hread', -⟩ := Linked.cell_iff.mp hrest
  have hpq := (List.pairwise_cons.mp h.spaced).1 q List.mem_cons_self
  have hfits := h.fits
  obtain ⟨k, hk⟩ : ∃ k, k = p.stop - index := ⟨_, rfl⟩
  obtain ⟨w, hw⟩ : ∃ w, w =
    min (min (min data.length m.remaincapacity) (data.length - k)) (q.blockstart - (index + k)) := ⟨_, rfl⟩
  obtain ⟨-, -, hkw, -⟩ := piece_bounds hpos hstop hk (hw.trans_le (min_le_left _ _))
  obtain ⟨hready, hslot⟩ := h.fill hread (pieceAt data index k w false) (m.remaincapacity - w) hkw
  rw [← Nat.add_assoc] at hready
  obtain ⟨heap, rest', hlinked, hlist, hresult⟩ := hready.insertToLinklist hslot (hnext hready)
  have heq : insertAfter m.remaincapacity (p :: q :: rest.map Prod.snd) data index eof = _ :=
    insertAfter_gap eof hpos hremain hstop h.pos (by omega) hq hk hw
  rw [List.append_assoc] at hlinked
  refine ⟨heap, (m.heap.fresh, pieceAt data index k w false) :: (b, q) :: rest', hlinked, ?_, ?_⟩
  · rw [List.map_cons, List.map_cons, List.map_cons, heq, ← hlist]
  · rw [List.map_cons, heq, LinkedReassembler.insertFrom,
      ok_bind (walk_gap h.pos (by omega) wfuel hread hread' hstop hne hq),
      insertAt_gap eof _ h.pos hfits hpos (h.small p List.mem_cons_self) hstop hk hread hread' hpq hq hw]
    exact hresult

end Passes

/-- **Insertion from a node on** ends, without a fault, and does what `insertAfter` says. -/
theorem Ready.insertFrom : ∀ {pre : List (ℕ × Node)} {a : ℕ} {p : Node} {m : LinkedReassembler} {data : Bytes}
    {index fuel wfuel : ℕ}, Ready m pre a p rest data index → 0 < data.length → 0 < m.remaincapacity →
      rest.length < fuel → rest.length < wfuel →
        Inserted eof m pre a p rest data index (insertFrom fuel wfuel m data index eof a) := by
  induction rest with
  | nil =>
    intro pre a p m data index fuel wfuel h hpos hremain hfuel hwfuel
    obtain ⟨wfuel, rfl⟩ := Nat.exists_eq_add_one.mpr hwfuel
    by_cases hstop : p.stop < index + min data.length m.remaincapacity
    · exact h.insertFrom_last hpos hremain hstop fuel wfuel
    · exact h.insertFrom_covered fuel wfuel (Nat.not_lt.mp hstop)
  | cons c rest ih =>
    obtain ⟨b, q⟩ := c
    intro pre a p m data index fuel wfuel h hpos hremain hfuel hwfuel
    obtain ⟨wfuel, rfl⟩ := Nat.exists_eq_add_one.mpr (Nat.zero_lt_of_lt hwfuel)
    obtain ⟨fuel, rfl⟩ := Nat.exists_eq_add_one.mpr (Nat.zero_lt_of_lt hfuel)
    rw [List.length_cons] at hfuel hwfuel
    by_cases hstop : p.stop < index + min data.length m.remaincapacity
    · by_cases hwalk : q.blockstart = p.stop ∨ q.blockstart < index
      · exact h.insertFrom_walk hpos hremain hstop hwalk fun hready =>
          ih hready hpos hremain (by omega) (by omega)
      · rw [not_or, Nat.not_lt] at hwalk
        exact h.insertFrom_gap hpos hremain hstop hwalk.1 hwalk.2 fun hready hpos hremain =>
          ih hready hpos hremain (by omega) (by omega)
    · exact h.insertFrom_covered (fuel + 1) wfuel (Nat.not_lt.mp hstop)

end Insert

/-! ### Insertion at the head of the list -/

/-- The list in memory is that of `r`, and so is everything else. -/
structure Represents (m : LinkedReassembler) (r : StreamReassembler) : Prop where
  /-- The stream. -/
  output : m.output = r.output
  /-- The capacity. -/
  capacity : m.capacity = r.capacity
  /-- The remaining capacity. -/
  remaincapacity : m.remaincapacity = r.remaincapacity
  /-- The nodes. -/
  linked : ∃ l, Linked m.heap m.head l ∧ l.map Prod.snd = r.head

section AtHead

variable {m : LinkedReassembler} {data : Bytes} {index fuel : ℕ} {eof : Bool}

/-- The reassembler that a linked one represents. -/
theorem Represents.exists_eq {r : StreamReassembler} (h : Represents m r) :
    ∃ l, Linked m.heap m.head l ∧ r = ⟨m.output, m.capacity, m.remaincapacity, l.map Prod.snd⟩ := by
  obtain ⟨houtput, hcapacity, hremain, l, hlinked, hlist⟩ := h
  refine ⟨l, hlinked, ?_⟩
  rw [houtput, hcapacity, hremain, hlist]

/-- What was inserted from a node on is represented. -/
theorem Inserted.represents {pre rest : List (ℕ × Node)} {a : ℕ} {p : Node}
    {result : Except Fault LinkedReassembler} (h : Inserted eof m pre a p rest data index result) :
    ∃ m', result = .ok m' ∧ m'.Represents
      ⟨m.output, m.capacity, (insertAfter m.remaincapacity (p :: rest.map Prod.snd) data index eof).2,
        pre.map Prod.snd ++ (insertAfter m.remaincapacity (p :: rest.map Prod.snd) data index eof).1⟩ := by
  obtain ⟨heap, rest', hlinked, hlist, hresult⟩ := h
  refine ⟨_, hresult, rfl, rfl, rfl, _, hlinked, ?_⟩
  rw [List.map_append, List.map_cons, hlist]

/-- The list is empty: the data becomes its first node. -/
theorem insertToLinklist_nil (hdone : ¬ (data.length = 0 ∨ m.remaincapacity = 0)) (hhead : m.head = none)
    (hfits : index + data.length < 2 ^ 64) :
    ∃ m', m.insertToLinklist (fuel + 1) data index .head eof = .ok m' ∧ m'.Represents
      (StreamReassembler.insertToLinklist ⟨m.output, m.capacity, m.remaincapacity, []⟩ data index eof) := by
  rw [insertToLinklist, if_neg hdone, hhead]
  dsimp only
  rw [ok_bind (substr_ok (Nat.zero_le _)), ok_bind (lastIndex_ok (by omega) (by omega)), ok_bind (sub_ok (by omega)),
    StreamReassembler.insertToLinklist, insertHead, if_neg hdone]
  exact ⟨_, rfl, rfl, rfl, rfl, _, Linked.nil.cons _, rfl⟩

/-- The data starts before the list: a new first node, and then the rest. -/
theorem insertToLinklist_before {a : ℕ} {p : Node} {rest : List (ℕ × Node)} {next : Option ℕ}
    (hdone : ¬ (data.length = 0 ∨ m.remaincapacity = 0)) (hlinked : Linked m.heap m.head ((a, p) :: rest))
    (hread : m.heap.read a = some ⟨p, next⟩) (hbefore : index < p.blockstart)
    (hspaced : Spaced (p :: rest.map Prod.snd))
    (hsmall : ∀ n ∈ p :: rest.map Prod.snd, n.stop < 2 ^ 64) (hi : 1 ≤ index) (hfits : index + data.length < 2 ^ 64)
    (hfuel : rest.length + 1 < fuel) :
    ∃ m', m.insertToLinklist (fuel + 1) data index .head eof = .ok m' ∧ m'.Represents
      (StreamReassembler.insertToLinklist ⟨m.output, m.capacity, m.remaincapacity, p :: rest.map Prod.snd⟩ data index
        eof) := by
  obtain ⟨fuel, rfl⟩ := Nat.exists_eq_add_one.mpr (Nat.zero_lt_of_lt hfuel)
  obtain ⟨hhead, -⟩ := Linked.cell_iff.mp hlinked
  obtain ⟨w, hw⟩ : ∃ w, w = min (min data.length m.remaincapacity) (p.blockstart - index) := ⟨_, rfl⟩
  rw [hhead] at hlinked
  have hlinked' := hlinked.cons (pieceAt data index 0 w false)
  have hready : Ready { m with
        heap := m.heap.alloc ⟨pieceAt data index 0 w false, some a⟩
        head := some m.heap.fresh
        remaincapacity := m.remaincapacity - w }
      [(m.heap.fresh, pieceAt data index 0 w false)] a p rest (data.drop w) (index + w) := by
    refine ⟨hlinked', hspaced, hsmall, by omega, ?_, fun c hc => ?_⟩
    · rw [List.length_drop]
      omega
    · obtain rfl := Option.mem_some_iff.mp hc
      exact Nat.le_add_right index w
  have hslot : load { m with
        heap := m.heap.alloc ⟨pieceAt data index 0 w false, some a⟩
        head := some m.heap.fresh
        remaincapacity := m.remaincapacity - w } (.next m.heap.fresh) = .ok (some a) := by
    rw [load, ok_bind (deref_ok (Heap.read_alloc_fresh _ _))]
  have hins : Inserted eof _ _ a p rest _ _ _ := hready.insertToLinklist hslot fun hpos hremain =>
    hready.insertFrom hpos hremain (by omega : rest.length < fuel) (by omega)
  obtain ⟨m', hresult, hm'⟩ := hins.represents
  refine ⟨m', ?_, ?_⟩
  · rw [insertToLinklist, if_neg hdone, hhead]
    dsimp only
    rw [ok_bind (deref_ok hread)]
    dsimp only
    rw [if_pos hbefore, ok_bind (sub_ok (Nat.le_of_lt hbefore)), ← hw, ok_bind (substr_ok (Nat.zero_le _)),
      ok_bind (lastIndex_ok (by omega) (by omega)), ok_bind (sub_ok (by omega)), ok_bind (substrFrom_ok (by omega)),
      ok_bind (add_ok (by omega))]
    exact hresult
  · rw [StreamReassembler.insertToLinklist, insertHead_before eof hdone hbefore hw]
    exact hm'

/-- **Insertion** ends, without a fault, and does what it does to the list. -/
theorem Represents.insertToLinklist {r : StreamReassembler} (h : Represents m r) (hspaced : Spaced r.head)
    (hsmall : ∀ n ∈ r.head, n.stop < 2 ^ 64) (hi : 1 ≤ index ∨ r.remaincapacity = 0)
    (hfits : index + data.length < 2 ^ 64) (hfuel : r.head.length + 2 ≤ fuel) :
    ∃ m', m.insertToLinklist fuel data index .head eof = .ok m' ∧
      m'.Represents (r.insertToLinklist data index eof) := by
  obtain ⟨l, hlinked, rfl⟩ := h.exists_eq
  obtain ⟨fuel, rfl⟩ := Nat.exists_eq_add_one.mpr (Nat.zero_lt_of_lt hfuel)
  dsimp only at hspaced hsmall hi hfuel
  rw [List.length_map] at hfuel
  by_cases hdone : data.length = 0 ∨ m.remaincapacity = 0
  · rw [LinkedReassembler.insertToLinklist, if_pos hdone, StreamReassembler.insertToLinklist, insertHead, if_pos hdone]
    exact ⟨m, rfl, h⟩
  cases l with
  | nil => exact insertToLinklist_nil hdone (Linked.nil_iff.mp hlinked) hfits
  | cons c rest =>
    obtain ⟨a, p⟩ := c
    rw [List.length_cons] at hfuel
    obtain ⟨hhead, next, hread, -⟩ := Linked.cell_iff.mp hlinked
    by_cases hbefore : index < p.blockstart
    · exact insertToLinklist_before hdone hlinked hread hbefore hspaced hsmall (by omega) hfits (by omega)
    · have hready : Ready m [] a p rest data index := by
        refine ⟨hlinked, hspaced, hsmall, by omega, hfits, fun c hc => ?_⟩
        obtain rfl := Option.mem_some_iff.mp hc
        exact Nat.not_lt.mp hbefore
      have hslot : m.load .head = .ok (some a) := by rw [load, hhead]
      have hins : Inserted eof m [] a p rest data index _ := hready.insertToLinklist hslot fun hpos hremain =>
        hready.insertFrom hpos hremain (by omega : rest.length < fuel) (by omega)
      obtain ⟨m', hresult, hm'⟩ := hins.represents
      refine ⟨m', hresult, ?_⟩
      rw [StreamReassembler.insertToLinklist, List.map_cons, insertHead_after eof (Nat.not_lt.mp hbefore)]
      exact hm'

end AtHead

/-! ### Draining -/

/-- **Draining** ends, without a fault, and does what it does to the list. -/
theorem fetchValidData_ok {l : List (ℕ × Node)} : ∀ {m : LinkedReassembler} {fuel : ℕ}, Linked m.heap m.head l →
    (∀ n ∈ l.map Prod.snd, n.stop ≤ n.blockstart + n.data.length) → l.length < fuel →
      ∃ m', m.fetchValidData fuel = .ok m' ∧ m'.Represents
        (StreamReassembler.fetchValidData ⟨m.output, m.capacity, m.remaincapacity, l.map Prod.snd⟩) := by
  induction l with
  | nil =>
    intro m fuel hlinked _ hfuel
    obtain ⟨fuel, rfl⟩ := Nat.exists_eq_add_one.mpr hfuel
    rw [fetchValidData, Linked.nil_iff.mp hlinked]
    exact ⟨m, rfl, rfl, rfl, rfl, [], hlinked, rfl⟩
  | cons c l ih =>
    obtain ⟨a, p⟩ := c
    intro m fuel hlinked hstop hfuel
    obtain ⟨fuel, rfl⟩ := Nat.exists_eq_add_one.mpr (Nat.zero_lt_of_lt hfuel)
    rw [List.length_cons] at hfuel
    obtain ⟨hhead, next, hread, -⟩ := Linked.cell_iff.mp hlinked
    have hpop := hlinked.pop hread
    have hp := hstop p List.mem_cons_self
    have htail : ∀ n ∈ l.map Prod.snd, n.stop ≤ n.blockstart + n.data.length :=
      fun n hn => hstop n (List.mem_cons_of_mem p hn)
    rw [fetchValidData, hhead]
    simp only [StreamReassembler.fetchValidData, List.map_cons, fetchLoop]
    by_cases hfull : m.output.remainingCapacity = 0
    · rw [if_pos hfull, if_pos hfull]
      exact ⟨m, rfl, rfl, rfl, rfl, _, hlinked, rfl⟩
    rw [if_neg hfull, if_neg hfull, ok_bind (deref_ok hread)]
    dsimp only
    by_cases hgap : p.blockstart > m.output.bytesWritten
    · rw [if_pos hgap, if_pos hgap]
      exact ⟨m, rfl, rfl, rfl, rfl, _, hlinked, rfl⟩
    rw [if_neg hgap, if_neg hgap]
    by_cases hold : p.blockend < m.output.bytesWritten
    · rw [if_pos hold, if_pos hold, ok_bind (delete_ok hread)]
      exact ih hpop htail (by omega)
    have hoffset : m.output.bytesWritten - p.blockstart ≤ p.data.length := by
      unfold Node.stop at hp
      omega
    rw [if_neg hold, if_neg hold, ok_bind (sub_ok (Nat.not_lt.mp hgap)), ok_bind (substrFrom_ok hoffset)]
    by_cases hlong : (p.data.drop (m.output.bytesWritten - p.blockstart)).length > m.output.remainingCapacity
    · -- the block is cut; what is left to write is less than there was room for
      have hless : (m.output.write ((p.data.drop (m.output.bytesWritten - p.blockstart)).take
          m.output.remainingCapacity)).2.remainingCapacity ≤
            (p.data.drop (m.output.bytesWritten - p.blockstart)).length := by
        rw [ByteStream.write_remainingCapacity]
        omega
      rw [if_pos hlong, if_pos hlong, ok_bind (substr_ok (Nat.zero_le _)), List.drop_zero,
        ok_bind (substrFrom_ok hless),
        ok_bind (assign_ok hread _)]
      rw [hhead] at hlinked
      exact ⟨_, rfl, rfl, rfl, rfl, (a, _) :: l, hlinked.set hread _, rfl⟩
    · rw [if_neg hlong, if_neg hlong, ok_bind (delete_ok hread)]
      exact ih hpop htail (by omega)

/-! ### Calls -/

section Calls

variable {m : LinkedReassembler} {r : StreamReassembler}

theorem Represents.fetchValidData (h : Represents m r) (hsafe : Safe r) {fuel : ℕ} (hfuel : r.head.length < fuel) :
    ∃ m', m.fetchValidData fuel = .ok m' ∧ m'.Represents r.fetchValidData := by
  obtain ⟨l, hlinked, rfl⟩ := h.exists_eq
  rw [List.length_map] at hfuel
  exact fetchValidData_ok hlinked (fun n hn => hsafe.stored.stop_le hn) hfuel

/-- Writing to the output. -/
theorem Represents.write (h : Represents m r) (out : ByteStream) :
    Represents { m with output := out } { r with output := out } :=
  ⟨rfl, h.capacity, h.remaincapacity, h.linked⟩

/-- Keeping data, and draining. -/
theorem Represents.keep (h : Represents m r) (hsafe : Safe r) {data : Bytes} {index fuel : ℕ} {eof : Bool}
    (hw : r.output.bytesWritten ≤ index) (hi : 1 ≤ index ∨ r.remaincapacity = 0)
    (hfits : index + data.length < 2 ^ 64)
    (hfuel : r.head.length + (r.insertToLinklist data index eof).head.length + 2 ≤ fuel) :
    ∃ m', (m.insertToLinklist fuel data index .head eof >>= fun m => m.fetchValidData fuel) = .ok m' ∧
      m'.Represents (r.insertToLinklist data index eof).fetchValidData := by
  obtain ⟨m', hins, hm'⟩ : ∃ m', m.insertToLinklist fuel data index .head eof = .ok m' ∧ _ :=
    h.insertToLinklist hsafe.stored.spaced hsafe.stored.small hi hfits (by omega)
  rw [ok_bind hins]
  exact hm'.fetchValidData (hsafe.insertToLinklist hw hi hfits) (by omega)

/-- **A push** ends, without a fault, and does what it does to the list. -/
theorem pushSubstring_ok (hsafe : Safe r) {data : Bytes} {index : ℕ} (eof : Bool)
    (hfits : index + data.length < 2 ^ 64) :
    ∃ n, ∀ fuel ≥ n, ∀ m : LinkedReassembler, m.Represents r →
      ∃ m', m.pushSubstring fuel data index eof = .ok m' ∧ m'.Represents (r.pushSubstring data index eof) := by
  by_cases h1 : index ≤ r.output.bytesWritten
  · by_cases h2 : index + data.length ≥ r.output.bytesWritten
    · obtain ⟨offset, hoffset⟩ : ∃ offset, offset = r.output.bytesWritten - index := ⟨_, rfl⟩
      obtain ⟨writesize, hwritesize⟩ : ∃ writesize,
        writesize = min (data.drop offset).length r.output.remainingCapacity := ⟨_, rfl⟩
      simp only [pushSubstring, StreamReassembler.pushSubstring]
      rw [if_pos h1, if_pos h2, ← hoffset, ← hwritesize]
      by_cases hfit : writesize ≥ (data.drop offset).length
      · refine ⟨r.head.length + 1, fun fuel hfuel m hm => ?_⟩
        rw [hm.output, if_pos h1, ok_bind (add_ok hfits), if_pos h2, ok_bind (sub_ok h1), ← hoffset,
          ok_bind (substrFrom_ok (by omega)), ← hwritesize, if_pos hfit, if_pos hfit]
        have hgrows := ByteStream.Grows.ite_endInput r.output (data.drop offset) eof
        exact (hm.write _).fetchValidData (hsafe.write hgrows (ByteStream.put_maximumcapacity _ _ _)) hfuel
      · obtain ⟨hw, hi, hlt⟩ := hsafe.keep h1 hfits hoffset hwritesize hfit
        obtain ⟨out, hout⟩ : ∃ out, out = (r.output.write ((data.drop offset).take writesize)).2 := ⟨_, rfl⟩
        have hsafe' : Safe { r with output := out } := by
          rw [hout]
          exact hsafe.write (.write _ _) rfl
        rw [← hout] at hw
        refine ⟨r.head.length + (StreamReassembler.insertToLinklist { r with output := out }
          ((data.drop offset).drop writesize) (index + offset + writesize) eof).head.length + 2,
            fun fuel hfuel m hm => ?_⟩
        rw [hm.output, if_pos h1, ok_bind (add_ok hfits), if_pos h2, ok_bind (sub_ok h1), ← hoffset,
          ok_bind (substrFrom_ok (by omega)), ← hwritesize, if_neg hfit, if_neg hfit,
          ok_bind (substr_ok (Nat.zero_le _)), List.drop_zero, ok_bind (substrFrom_ok (Nat.le_of_not_le hfit)),
          ok_bind (add_ok (by omega)), ok_bind (add_ok (by omega)), ← hout]
        exact (hm.write out).keep hsafe' hw hi hlt hfuel
    · refine ⟨0, fun fuel _ m hm => ⟨m, ?_, ?_⟩⟩
      · rw [pushSubstring, hm.output, if_pos h1, ok_bind (add_ok hfits), if_neg h2]
      · rw [StreamReassembler.pushSubstring, if_pos h1, if_neg h2]
        exact hm
  · refine ⟨r.head.length + (r.insertToLinklist data index eof).head.length + 2, fun fuel hfuel m hm => ?_⟩
    rw [pushSubstring, hm.output, if_neg h1, StreamReassembler.pushSubstring, if_neg h1]
    exact hm.keep hsafe (by omega) (by omega) hfits hfuel

/-- **Every call terminates, and none goes wrong**: whatever is pushed and read, no null pointer and no pointer
to a deleted node is followed, no substring starts past the end of its string, and no subtraction underflows. What
comes out is what `StreamReassembler` says. -/
theorem runs_without_fault (capacity : ℕ) (calls : List Call) (h : ∀ p, .push p ∈ calls → p.stop < 2 ^ 64) :
    ∃ n, ∀ fuel ≥ n, ∃ m, calls.foldlM (call fuel) (make capacity) = .ok m ∧
      m.Represents (runs Session.step (Session.start capacity) calls).reassembler := by
  have hstep : ∀ (t : Session) (c : Call), Safe t.reassembler → (∀ p, c = .push p → p.stop < 2 ^ 64) →
      ∃ n, ∀ fuel ≥ n, ∀ m : LinkedReassembler, m.Represents t.reassembler →
        ∃ m', m.call fuel c = .ok m' ∧ m'.Represents (t.step c).reassembler := by
    intro t c hsafe hc
    cases c with
    | push p => exact pushSubstring_ok hsafe p.eof (hc p rfl)
    | read len =>
      refine ⟨0, fun fuel _ m hm => ⟨_, rfl, ?_⟩⟩
      rw [hm.output]
      exact hm.write _
  have hsafe : Safe (Session.start capacity).reassembler := Safe.make capacity
  obtain ⟨n, hn⟩ := exists_fuel (fun _ _ hsafe hc => hsafe.step hc) hstep calls hsafe fun c hc p hp => h p (hp ▸ hc)
  refine ⟨n, fun fuel hfuel => hn fuel hfuel (make capacity) ?_⟩
  exact ⟨rfl, rfl, rfl, [], .nil, rfl⟩

/-- A block is cut when it is drained, and data of another stream is put after what is left of it and then over it. -/
theorem runs_without_fault_cut :
    let calls : List Call := [.push ⟨[98, 99], 1, false⟩, .push ⟨[97], 0, false⟩, .push ⟨[1, 2, 3], 3, true⟩, .read 2,
      .push ⟨[4], 2, false⟩]
    ∃ n, ∀ fuel ≥ n, ∃ m, calls.foldlM (call fuel) (make 2) = .ok m ∧
      m.Represents (runs Session.step (Session.start 2) calls).reassembler := by
  intro calls
  exact runs_without_fault 2 calls (by simp [calls, Push.stop])

end Calls

end LinkedReassembler

end Sponge
