/-
TcpConnection::send(Buffer &).

The request takes the blocks of the Buffer over and lists their readable ranges for
libuv.  A Buffer without content has none, and one without blocks leaves the request
with an iterator of another list.
-/

import Uvcpp.Buffer.SpecialMembers

namespace Uvcpp

open LinkedList

namespace TcpConnection

/-- `uv_buf_t`: `base` is the byte at `offset` in the block at `address`. -/
structure UvBuf where
  address : Address
  offset : Nat
  len : Nat
deriving DecidableEq

/-- A WriteContext of the kind BUF_BUFFER. -/
structure WriteContext where
  bufs : List UvBuf
  buffer : Buffer

def UvBuf.ofPair (pair : Span) : UvBuf :=
  { address := pair.address
    offset := pair.offset
    len := pair.bytes.length }

/-- `WriteContext(conn, Buffer &)`: the request, and what it leaves of the Buffer.
`owner` is the list object in the request. -/
def WriteContext.ofBuffer (buf : Buffer) (owner : Nat) :
    Except Fault (WriteContext × Buffer) := do
  let (buffer, rest) := buf.moveConstruct owner
  let pairBufs ← buffer.all
  pure
    ({ bufs := pairBufs.map UvBuf.ofPair
       buffer := buffer },
     rest)

/-- The bytes libuv finds at `base`. -/
def UvBuf.read (b : Buffer) (buf : UvBuf) : Except Fault (List Byte) := do
  let value ← b.block (.node buf.address)
  if buf.offset + buf.len ≤ value.capacity then
    .ok (Region.window value.buffer buf.offset (buf.offset + buf.len))
  else .error .outOfBounds

/-- The bytes of the buffers one after another, read where the request keeps them. -/
def readAll (b : Buffer) : List UvBuf → Except Fault (List Byte)
  | [] => .ok []
  | buf :: rest => do
      let bytes ← buf.read b
      let more ← readAll b rest
      pure (bytes ++ more)

/-- `send(Buffer &)`: the request, whose `bufs` the closure on the loop gives to
`uv_write`, and what is left of the Buffer. -/
def sendBuffer (buffer : Buffer) (owner : Nat) : Except Fault (WriteContext × Buffer) :=
  WriteContext.ofBuffer buffer owner

def WriteContext.transmitted (context : WriteContext) : Except Fault (List Byte) :=
  readAll context.buffer context.bufs

/-! ### What the request refers to -/

theorem spans_mem {past last : Position} (nodes : List (Node DataBlock)) :
    ∀ {found : List Span}, Buffer.spans past last nodes = .ok found →
      ∀ span ∈ found, ∃ node ∈ nodes, span ∈ Buffer.spanOf node := by
  induction nodes with
  | nil =>
      intro found hSpans span member
      unfold Buffer.spans at hSpans
      split at hSpans
      · cases hSpans
        cases member
      · cases hSpans
  | cons node rest ih =>
      intro found hSpans span member
      unfold Buffer.spans at hSpans
      split at hSpans
      · cases hSpans
        exact ⟨node, List.mem_cons_self, member⟩
      · rcases ok_of_bind hSpans with ⟨more, hMore, hSpans⟩
        cases hSpans
        rcases List.mem_append.mp member with here | later
        · exact ⟨node, List.mem_cons_self, here⟩
        · rcases ih hMore span later with ⟨other, inRest, inSpan⟩
          exact ⟨other, List.mem_cons_of_mem _ inRest, inSpan⟩

/-- Every pair `all` reports is the readable range of a block in the list. -/
theorem all_mem {b : Buffer} {content : List Byte} (represents : Represents b content)
    {found : List Span} (hAll : b.all = .ok found) :
    ∀ span ∈ found, ∃ node ∈ b.list.nodes, span ∈ Buffer.spanOf node := by
  rw [Buffer.all, represents.walk_first.1] at hAll
  exact spans_mem b.list.nodes hAll

theorem read_ofPair {b : Buffer} {span : Span} {node : Node DataBlock}
    (member : node ∈ b.list.nodes) (inSpan : span ∈ Buffer.spanOf node) :
    (UvBuf.ofPair span).read b = .ok span.bytes := by
  rcases List.append_of_mem member with ⟨before, after, split⟩
  have reached : b.block (.node node.address) = .ok node.value := by
    rw [Buffer.block, Chain.value?_node split]
    rfl
  unfold Buffer.spanOf at inSpan
  split at inSpan
  · cases List.mem_singleton.mp inSpan
    have ordered := node.value.ordered
    have inside : node.value.write ≤ node.value.capacity := node.value.fits
    have ends : node.value.read + node.value.data.length = node.value.write := by
      rw [DataBlock.data_length, DataBlock.readableBytes]
      omega
    simp only [UvBuf.read, UvBuf.ofPair, reached, ok_bind, ends]
    rw [if_pos inside]
    rfl
  · cases inSpan

theorem readAll_ofPair {b : Buffer} (found : List Span)
    (every : ∀ span ∈ found, (UvBuf.ofPair span).read b = .ok span.bytes) :
    readAll b (found.map UvBuf.ofPair) = .ok (Buffer.spanBytes found) := by
  induction found with
  | nil => rfl
  | cons span rest ih =>
      have later := ih fun other member => every other (List.mem_cons_of_mem _ member)
      rw [List.map_cons, readAll, every span List.mem_cons_self, later]
      rfl

/-! ### Sending -/

section Send

variable {b : Buffer} {content : List Byte} {owner : Nat}

theorem emptied_represents (b : Buffer) (owner : Nat) :
    Represents (b.moveConstruct owner).2 [] :=
  .vacant rfl rfl rfl rfl rfl

/-- With blocks the moved Buffer stands for the content, and its pairs are read back. -/
theorem sendBuffer_occupied (represents : Represents b content) (some : b.list.nodes ≠ [])
    (owner : Nat) :
    ∃ context, sendBuffer b owner = .ok (context, (b.moveConstruct owner).2) ∧
      context.buffer = (b.moveConstruct owner).1 ∧ Represents context.buffer content ∧
      context.transmitted = .ok content ∧ (context.bufs = [] ↔ content = []) := by
  have moved := Buffer.adopted_represents represents some (Chain.empty owner)
  rcases Buffer.all_spec moved with ⟨found, hAll, bytes, nonempty⟩
  have readBack : ∀ span ∈ found, (UvBuf.ofPair span).read (b.moveConstruct owner).1 =
      .ok span.bytes := by
    intro span member
    rcases all_mem moved hAll span member with ⟨node, inList, inSpan⟩
    exact read_ofPair inList inSpan
  have read := readAll_ofPair found readBack
  have none : found = [] ↔ content = [] := by
    rw [← bytes]
    cases found with
    | nil => exact iff_of_true rfl rfl
    | cons span rest => simp [Buffer.spanBytes, nonempty span List.mem_cons_self]
  have hSend : sendBuffer b owner = .ok (⟨found.map UvBuf.ofPair, (b.moveConstruct owner).1⟩,
      (b.moveConstruct owner).2) := by
    rw [sendBuffer, WriteContext.ofBuffer]
    dsimp only
    have hMoved : (b.moveConstruct owner).1.all = .ok found := hAll
    rw [hMoved]
    rfl
  refine ⟨_, hSend, rfl, moved, ?_, ?_⟩
  · rw [← bytes]
    exact read
  · rw [← none]
    exact List.map_eq_nil_iff

/-- Without blocks the moved Buffer keeps the end iterator of the list it came from. -/
theorem sendBuffer_vacant (represents : Represents b content) (none : b.list.nodes = [])
    (foreign : owner ≠ b.list.owner) : sendBuffer b owner = .error .badIterator := by
  have first : b.firstWithData = .past b.list.owner := by
    rw [represents.first_eq_start, Chain.start, none]
    rfl
  have lost : (b.moveConstruct owner).1.list.walk (b.moveConstruct owner).1.firstWithData =
      Option.none := by
    have kept : (b.moveConstruct owner).1.firstWithData = .past b.list.owner := first
    rw [kept]
    exact if_neg (Ne.symm foreign)
  rw [sendBuffer, WriteContext.ofBuffer]
  dsimp only
  rw [Buffer.all, lost]
  rfl

end Send

end TcpConnection

/-- **Sending a Buffer.** Whatever its history, `send` hands libuv at least one buffer,
the buffers hold the content, and the Buffer is left empty and usable without a block of
the request, if and only if there is content. -/
theorem send_transmits_iff {owner object : Nat} (fresh : object ≠ owner)
    {state : Session × List Byte}
    (reachable : Transition.Reachable (Session.system owner) state) :
    (∃ context rest, TcpConnection.sendBuffer state.1.buffer object = .ok (context, rest) ∧
        0 < context.bufs.length ∧ context.transmitted = .ok state.2 ∧
        Usable (context.buffer, rest) (state.2, [])) ↔
      state.2 ≠ [] := by
  have holds := Session.reachable_represents reachable
  have own := Session.reachable_evolves reachable
  by_cases none : state.1.buffer.list.nodes = []
  · have foreign : object ≠ state.1.buffer.list.owner := by
      rw [own.owner]
      exact fresh
    have failed := TcpConnection.sendBuffer_vacant holds none foreign
    have empty : state.2 = [] := by
      rw [← holds.walk_first.2, none]
      rfl
    rw [failed, empty]
    simp
  · rcases TcpConnection.sendBuffer_occupied holds none object with
      ⟨context, hSend, moved, represents, transmitted, unbuffered⟩
    have apart : (Chain.empty object).Apart state.1.buffer.list :=
      .of_owners fresh (Chain.Evolves.refl _) own
    constructor
    · rintro ⟨other, rest, hOther, buffers, _bytes, _usable⟩ empty
      rw [hSend] at hOther
      cases hOther
      rw [unbuffered.mpr empty] at buffers
      exact Nat.lt_irrefl 0 buffers
    · intro some
      refine ⟨context, _, hSend, ?_, transmitted, ?_⟩
      · rw [List.length_pos_iff]
        exact fun unfilled => some (unbuffered.mp unfilled)
      · apply usable_of_represents represents (TcpConnection.emptied_represents _ object)
        rw [moved]
        exact apart.exchange

/-- Two appended bytes are sent, and the Buffer is empty again. -/
theorem send_transmits_iff_append :
    ∃ s, (Session.new 0).perform (.append [104, 105]) = .ok s ∧
      ∃ context rest, TcpConnection.sendBuffer s.buffer 1 = .ok (context, rest) ∧
        0 < context.bufs.length ∧ context.transmitted = .ok [104, 105] ∧
        Usable (context.buffer, rest) ([104, 105], []) := by
  have start : Transition.Reachable (Session.system 0) (Session.new 0, []) := .start rfl
  have legal : (Session.new 0).Legal (.append [104, 105]) := ⟨by decide, trivial⟩
  obtain ⟨s, hPerform, _sound⟩ :=
    Session.perform_spec (Session.start_sound (Session.new_represents 0)) legal
  have appended : Transition.Reachable (Session.system 0) (s, [104, 105]) :=
    .next start ⟨legal, hPerform, rfl⟩
  exact ⟨s, hPerform, (send_transmits_iff (by decide) appended).mpr (by simp)⟩

/-- A Buffer never written to makes `all` dereference the end of its old list; one that
was drained hands libuv no buffer at all. -/
theorem send_empty_transmits_nothing :
    TcpConnection.sendBuffer (Buffer.new 0) 1 = .error .badIterator ∧
      ((do
        let b ← (Buffer.new 0).append [104]
        let b ← b.discard 1
        let (context, _rest) ← TcpConnection.sendBuffer b 1
        pure context.bufs) : Except Fault (List TcpConnection.UvBuf)) = .ok [] ∧
      ¬ ∀ state, Transition.Reachable (Session.system 0) state →
        ∃ context rest, TcpConnection.sendBuffer state.1.buffer 1 = .ok (context, rest) ∧
          0 < context.bufs.length ∧ context.transmitted = .ok state.2 ∧
          Usable (context.buffer, rest) (state.2, []) := by
  have failed : TcpConnection.sendBuffer (Buffer.new 0) 1 = .error .badIterator := rfl
  refine ⟨failed, ?_, ?_⟩
  · decide +kernel
  · intro every
    have start : Transition.Reachable (Session.system 0) (Session.new 0, []) := .start rfl
    obtain ⟨context, rest, hSend, _others⟩ := every _ start
    have same : (Session.new 0).buffer = Buffer.new 0 := rfl
    rw [same, failed] at hSend
    cases hSend

end Uvcpp
