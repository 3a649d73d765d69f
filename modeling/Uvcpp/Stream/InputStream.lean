/-
Reading a Buffer through a `BufferInputStream`.

`Next` hands out the first readable block and then moves `firstWithData_` and
`readableBytes_` of the Buffer itself.  It leaves the read position of the block
alone, so the bytes it handed out are still readable in their block.
-/

import Uvcpp.Buffer.Integer
import Uvcpp.Buffer.SpecialMembers

namespace Uvcpp

open LinkedList

/-- Addition of `size_t` values. -/
def sizeAdd (left right : Nat) : Nat := (left + right) % 18446744073709551616

/-- Subtraction of `size_t` values. -/
def sizeSub (left right : Nat) : Nat :=
  (left + 18446744073709551616 - right) % 18446744073709551616

structure BufferInputStream where
  buffer : Buffer
  originalSize : Nat
  bytes : Nat

/-- What a successful `Next` hands out: the readable range of a block and the
length it reports, an `int`. -/
structure Chunk where
  span : Span
  size : Int

/-- The bytes a client may read from a chunk. -/
def Chunk.bytes (chunk : Chunk) : List Byte := chunk.span.bytes.take chunk.size.toNat

/-- An `int` measures a short block exactly. -/
theorem take_measured {bytes : List Byte} (small : bytes.length < 2147483648) :
    bytes.take (int32 bytes.length).toNat = bytes := by
  rw [int32_of_small (by omega) (by omega), Int.toNat_natCast, List.take_length]

namespace BufferInputStream

def new (buffer : Buffer) (len : Nat) : BufferInputStream :=
  { buffer := buffer
    originalSize := buffer.readableBytes
    bytes := len }

/-- The stream and its Buffer after a range of `second` bytes has been handed out. -/
def passOver (s : BufferInputStream) (following : Position) (second : Nat) :
    BufferInputStream :=
  { buffer :=
      { list := s.buffer.list
        firstWithData := following
        lastWithData := s.buffer.lastWithData
        readableBytes := sizeSub s.buffer.readableBytes (sizeT (int32 second))
        capacity := s.buffer.capacity }
    originalSize := s.originalSize
    bytes := sizeSub s.bytes second }

/-- `Next`; no chunk stands for the return value `false`. -/
def next (s : BufferInputStream) : Except Fault (Option Chunk × BufferInputStream) :=
  if s.bytes = 0 then .ok (none, s)
  else if 0 < s.buffer.readableBytes then do
    let bufs ← s.buffer.all
    match bufs with
    | [] => .error .outOfBounds
    | front :: _ =>
        let following ← s.buffer.advance s.buffer.firstWithData
        pure (some ⟨front, int32 front.bytes.length⟩, s.passOver following front.bytes.length)
  else .error .assertion

/-- The stream and its Buffer after `BackUp` has moved the read position of `first`. -/
def backTo (s : BufferInputStream) (first : Position) (moved : DataBlock) (count : Int) :
    BufferInputStream :=
  { buffer :=
      { list := (s.buffer.setBlock first moved).list
        firstWithData := first
        lastWithData := s.buffer.lastWithData
        readableBytes := sizeAdd s.buffer.readableBytes (sizeT count)
        capacity := s.buffer.capacity }
    originalSize := s.originalSize
    bytes := s.bytes }

/-- `BackUp`. -/
def backUp (s : BufferInputStream) (count : Int) : Except Fault BufferInputStream := do
  let first ← Buffer.orBadIterator (s.buffer.list.before? s.buffer.firstWithData)
  let value ← s.buffer.block first
  let moved ← value.setReadPosition (sizeSub value.read (sizeT count))
  pure (s.backTo first moved count)

/-- `Skip` does nothing and says that it succeeded. -/
def skip (s : BufferInputStream) (_count : Int) : Bool × BufferInputStream := (true, s)

/-- `ByteCount`. -/
def byteCount (s : BufferInputStream) : Int :=
  int64 (sizeSub s.originalSize s.buffer.readableBytes)

/-- A run of successful calls of `Next`, with the chunks they hand out. -/
inductive Calls : BufferInputStream → List Chunk → BufferInputStream → Prop where
  | done (s : BufferInputStream) : Calls s [] s
  | call {s s' s'' : BufferInputStream} {chunk : Chunk} {chunks : List Chunk}
      (first : s.next = .ok (some chunk, s')) (rest : Calls s' chunks s'') :
      Calls s (chunk :: chunks) s''

end BufferInputStream

/-- The bytes some chunks deliver. -/
def delivered (chunks : List Chunk) : List Byte := chunks.flatMap Chunk.bytes

namespace BufferInputStream

/-- What a successful `Next` changes in the Buffer: the blocks and
`lastWithData_` stay, and `firstWithData_` moves on by one block. -/
theorem next_moves {s s' : BufferInputStream} {chunk : Chunk}
    (hNext : s.next = .ok (some chunk, s')) :
    s'.buffer.list = s.buffer.list ∧ s'.buffer.lastWithData = s.buffer.lastWithData ∧
      s.buffer.list.after? s.buffer.firstWithData = some s'.buffer.firstWithData ∧
      ∃ more, s.buffer.all = .ok (chunk.span :: more) ∧
        chunk.size = int32 chunk.span.bytes.length := by
  unfold next at hNext
  split at hNext
  · cases hNext
  · split at hNext
    · rcases ok_of_bind hNext with ⟨bufs, hAll, hNext⟩
      cases bufs with
      | nil =>
          cases hNext
      | cons front more =>
          rcases ok_of_bind hNext with ⟨following, hAdvance, hNext⟩
          cases hNext
          refine ⟨rfl, rfl, ?_, more, hAll, rfl⟩
          unfold Buffer.advance at hAdvance
          cases hAfter : s.buffer.list.after? s.buffer.firstWithData with
          | none =>
              rw [hAfter] at hAdvance
              cases hAdvance
          | some position =>
              rw [hAfter] at hAdvance
              cases hAdvance
              rfl
    · cases hNext

end BufferInputStream

/-! ### What is left when the stream is gone -/

namespace Op

/-- Appending, prepending and discarding. -/
def Plain : Op → Prop
  | .append _ => True
  | .prepend _ => True
  | .discard _ => True
  | _ => False

end Op

/-- The Buffer behaves as `content`: after any later appends, prepends and
discards, every query and every copy of it answers as the resulting byte string,
and the next such call completes. -/
def Behaves (b : Buffer) (content : List Byte) : Prop :=
  ∀ state, Transition.Reachable
      ((Session.systemFrom b content).restrict fun _ op => op.Plain) state →
    state.1.buffer.Reads state.2 ∧
      (∀ op : Op, op.Plain → state.1.Legal op → ∃ s', state.1.perform op = .ok s') ∧
      ∀ owner, ∃ c, state.1.buffer.copyConstruct owner = .ok c ∧ c.Reads state.2

theorem behaves_of_represents {b : Buffer} {content : List Byte}
    (represents : Represents b content) : Behaves b content := by
  intro state reachable
  have sound := Session.reachable_sound represents reachable.of_restrict
  refine ⟨Buffer.represents_reads sound.1, ?_, ?_⟩
  · intro op _plain legal
    rcases Session.perform_spec sound legal with ⟨s', hPerform, _sound⟩
    exact ⟨s', hPerform⟩
  · intro owner
    rcases Buffer.copyConstruct_spec sound.1 owner with ⟨c, hCopy, holds, _list⟩
    exact ⟨c, hCopy, Buffer.represents_reads holds⟩

/-- The Buffer behaves as what is left of `content` behind the delivered bytes. -/
def LeavesRemainder (b : Buffer) (content : List Byte) (chunks : List Chunk) : Prop :=
  ∃ rest, content = delivered chunks ++ rest ∧ Behaves b rest

/-- Discarding nothing moves `firstWithData_` to the first readable block of the
list, wherever it was before. -/
theorem Buffer.discard_zero {b : Buffer} {nodes : List (Node DataBlock)}
    (walked : b.list.walk b.firstWithData = some nodes) {list : Chain DataBlock}
    {first : Position}
    (hErase : Buffer.eraseDrained b.list b.lastWithData b.list.nodes = .ok (list, first)) :
    b.discard 0 = .ok
      { list := list
        firstWithData := first
        lastWithData := b.lastWithData
        readableBytes := b.readableBytes
        capacity := b.capacity } := by
  have drained : Buffer.drain b.list nodes 0 = .ok b.list := by
    cases nodes <;> rfl
  unfold Buffer.discard
  rw [if_pos (Nat.zero_le _), walked]
  simp only [Buffer.orBadIterator, ok_bind, drained, hErase]
  rfl

/-- Two Buffers on the same blocks list the same ranges once nothing is discarded. -/
theorem Buffer.discard_zero_all {b b' x : Buffer} {nodes nodes' : List (Node DataBlock)}
    (sameList : b'.list = b.list) (sameLast : b'.lastWithData = b.lastWithData)
    (walked : b.list.walk b.firstWithData = some nodes)
    (walked' : b'.list.walk b'.firstWithData = some nodes') (hDiscard : b.discard 0 = .ok x) :
    ∃ x', b'.discard 0 = .ok x' ∧ x'.all = x.all := by
  cases hErase : Buffer.eraseDrained b.list b.lastWithData b.list.nodes with
  | error fault =>
      have drained : Buffer.drain b.list nodes 0 = .ok b.list := by
        cases nodes <;> rfl
      rw [Buffer.discard, if_pos (Nat.zero_le _), walked] at hDiscard
      simp only [Buffer.orBadIterator, ok_bind, drained, hErase] at hDiscard
      cases hDiscard
  | ok result =>
      have atFirst := Buffer.discard_zero walked hErase
      rw [← sameList, ← sameLast] at hErase
      have atOther := Buffer.discard_zero walked' hErase
      rw [hDiscard] at atFirst
      refine ⟨_, atOther, ?_⟩
      rw [Except.ok.inj atFirst]
      unfold Buffer.all
      rw [sameLast]

namespace BufferInputStream

/-- Whatever `Next` does, the blocks and `lastWithData_` stay and `firstWithData_`
is a position of the list. -/
theorem calls_keep_list {s s' : BufferInputStream} {chunks : List Chunk}
    (calls : Calls s chunks s') :
    s'.buffer.list = s.buffer.list ∧ s'.buffer.lastWithData = s.buffer.lastWithData ∧
      ∀ nodes, s.buffer.list.walk s.buffer.firstWithData = some nodes →
        ∃ nodes', s'.buffer.list.walk s'.buffer.firstWithData = some nodes' := by
  induction calls with
  | done s =>
      exact ⟨rfl, rfl, fun nodes walked => ⟨nodes, walked⟩⟩
  | call first _rest ih =>
      rcases next_moves first with ⟨sameList, sameLast, moved, _chunk⟩
      rcases ih with ⟨laterList, laterLast, laterWalk⟩
      refine ⟨laterList.trans sameList, laterLast.trans sameLast, ?_⟩
      intro nodes _walked
      rcases Chain.walk_after? moved with ⟨after, walked⟩
      rw [← sameList] at walked
      exact laterWalk after walked

/-- Delivered bytes become readable again as soon as anything is discarded. -/
theorem delivered_eq_nil {b : Buffer} {content : List Byte} (represents : Represents b content)
    {len : Nat} {chunks : List Chunk} {s' : BufferInputStream}
    (calls : Calls (new b len) chunks s')
    (leaves : LeavesRemainder s'.buffer content chunks) : delivered chunks = [] := by
  rcases leaves with ⟨rest, contentEq, behaves⟩
  rcases calls_keep_list calls with ⟨sameList, sameLast, walks⟩
  have walked := represents.walk_first.1
  rcases walks _ walked with ⟨nodes', walked'⟩
  rcases Buffer.discard_spec represents (Nat.zero_le _) with ⟨x, hDiscard, holds, _trimmed⟩
  rcases Buffer.all_spec holds with ⟨found, hAll, foundBytes, _nonempty⟩
  rcases Buffer.discard_zero_all sameList sameLast walked walked' hDiscard with
    ⟨x', hDiscard', sameAll⟩
  have legal : (Session.start s'.buffer).Legal (.discard 0) :=
    ⟨Nat.two_pow_pos 63, Nat.zero_le _⟩
  have later : Transition.Reachable
      ((Session.systemFrom s'.buffer rest).restrict fun _ op => op.Plain)
      ({ buffer := x', window := none, spent := 0 }, rest) := by
    have hPerform : (Session.start s'.buffer).perform (.discard 0) =
        .ok { buffer := x', window := none, spent := 0 } := by
      simp only [Session.perform, Session.run, Session.start, hDiscard', ok_bind]
      rfl
    have taken : Op.Plain (.discard 0) ∧ Session.Step (Session.start s'.buffer, rest)
        (.discard 0) ({ buffer := x', window := none, spent := 0 }, rest) :=
      ⟨trivial, legal, hPerform, rfl⟩
    exact .next (.start rfl) taken
  rcases (behaves _ later).1.listed with ⟨found', hAll', restBytes⟩
  rw [sameAll, hAll] at hAll'
  rw [← Except.ok.inj hAll', foundBytes, List.drop_zero] at restBytes
  have restBytes : content = rest := restBytes
  have sameLength := congrArg List.length contentEq
  rw [restBytes, List.length_append] at sameLength
  apply List.eq_nil_of_length_eq_zero
  omega

/-- A chunk that an `int` can measure is not empty. -/
theorem delivered_ne_nil {b : Buffer} {content : List Byte} (represents : Represents b content)
    {len : Nat} {chunk : Chunk} {chunks : List Chunk} {s' : BufferInputStream}
    (calls : Calls (new b len) (chunk :: chunks) s')
    (small : ∀ found, b.all = .ok found → ∀ span ∈ found, span.bytes.length < 2147483648) :
    delivered (chunk :: chunks) ≠ [] := by
  cases calls with
  | call first rest =>
      rcases next_moves first with ⟨_list, _last, _moved, more, hAll, sizeEq⟩
      rcases Buffer.all_spec represents with ⟨found, hFound, _bytes, nonempty⟩
      have member : chunk.span ∈ chunk.span :: more := List.mem_cons_self
      have fits := small _ hAll chunk.span member
      have someBytes : chunk.span.bytes ≠ [] := by
        rw [show (new b len).buffer = b from rfl, hFound] at hAll
        rw [← Except.ok.inj hAll] at member
        exact nonempty chunk.span member
      intro none
      have noBytes : chunk.bytes = [] := (List.append_eq_nil_iff.mp none).1
      rw [Chunk.bytes, sizeEq, take_measured fits] at noBytes
      exact someBytes noBytes

end BufferInputStream

/-- **Reading through a stream.** The Buffer behaves as the remainder exactly
when no `Next` succeeded.  A successful `Next` that delivers a byte always leaves
the Buffer broken; for readable ranges that an `int` can measure every successful
`Next` delivers one. -/
theorem stream_leaves_remainder_iff {owner : Nat} {state : Session × List Byte}
    (reachable : Transition.Reachable (Session.system owner) state) {len : Nat}
    (_within : len ≤ state.2.length) {chunks : List Chunk} {s' : BufferInputStream}
    (calls : BufferInputStream.Calls (.new state.1.buffer len) chunks s') :
    (chunks = [] → LeavesRemainder s'.buffer state.2 chunks) ∧
      (LeavesRemainder s'.buffer state.2 chunks → delivered chunks = []) ∧
      ((∀ found, state.1.buffer.all = .ok found →
          ∀ span ∈ found, span.bytes.length < 2147483648) →
        (LeavesRemainder s'.buffer state.2 chunks ↔ chunks = [])) := by
  have represents := Session.reachable_represents reachable
  have untouched : chunks = [] → LeavesRemainder s'.buffer state.2 chunks := by
    intro none
    rw [none] at calls ⊢
    cases calls with
    | done =>
        exact ⟨state.2, rfl, behaves_of_represents represents⟩
  refine ⟨untouched, BufferInputStream.delivered_eq_nil represents calls, ?_⟩
  intro small
  constructor
  · intro leaves
    have noBytes := BufferInputStream.delivered_eq_nil represents calls leaves
    cases chunks with
    | nil =>
        rfl
    | cons chunk rest =>
        exact absurd noBytes (BufferInputStream.delivered_ne_nil represents calls small)
  · exact untouched

/-- On a Buffer of two bytes a stream that was never asked leaves both of them, and after one
`Next` it does not leave what it should. -/
theorem stream_leaves_remainder_iff_asked :
    ∃ s', (Session.new 0).perform (.append [104, 105]) = .ok s' ∧
      LeavesRemainder s'.buffer [104, 105] [] ∧
        ∃ chunk s, (BufferInputStream.new s'.buffer 2).next = .ok (some chunk, s) ∧
          chunk.bytes = [104, 105] ∧ ¬ LeavesRemainder s.buffer [104, 105] [chunk] := by
  have legal : (Session.new 0).Legal (.append [104, 105]) := ⟨by decide, trivial⟩
  rcases Session.appended_reachable legal with ⟨s', hPerform, appended⟩
  have within : 2 ≤ ([104, 105] : List Byte).length := Nat.le_refl _
  have leaves := stream_leaves_remainder_iff appended within (.done _)
  refine ⟨s', hPerform, leaves.1 rfl, ?_⟩
  have handed : (do
      let s' ← (Session.new 0).perform (.append [104, 105])
      let (chunk, _) ← (BufferInputStream.new s'.buffer 2).next
      pure (chunk.map Chunk.bytes)) = .ok (some [104, 105]) := by decide +kernel
  rw [hPerform, ok_bind] at handed
  obtain ⟨⟨chunk, s⟩, hNext, handed⟩ := ok_of_bind handed
  obtain ⟨chunk, rfl, bytes⟩ := Option.map_eq_some_iff.mp (Except.ok.inj handed)
  refine ⟨chunk, s, hNext, bytes, fun still => ?_⟩
  have asked := stream_leaves_remainder_iff appended within (.call hNext (.done s))
  have nothing := asked.2.1 still
  rw [delivered, List.flatMap_singleton, bytes] at nothing
  cases nothing

/-- One `Next` on a Buffer of two bytes: an appended byte cannot be read back,
and what the Buffer stands for is not the remainder. -/
theorem next_breaks_buffer :
    (do let b ← (Buffer.new 0).append [104, 105]
        let (_, s) ← (BufferInputStream.new b 2).next
        let b ← s.buffer.append [33]
        b.toString) = .error .badIterator ∧
      ∃ b chunk s', (Buffer.new 0).append [104, 105] = .ok b ∧
        (BufferInputStream.new b 2).next = .ok (some chunk, s') ∧
        chunk.bytes = [104, 105] ∧ ¬ LeavesRemainder s'.buffer [104, 105] [chunk] := by
  constructor
  · decide +kernel
  · have handed : (do
        let b ← (Buffer.new 0).append [104, 105]
        let (chunk, _) ← (BufferInputStream.new b 2).next
        pure (chunk.map Chunk.bytes)) = .ok (some [104, 105]) := by decide +kernel
    rcases ok_of_bind handed with ⟨b, hAppend, handed⟩
    rcases ok_of_bind handed with ⟨⟨chunk, s'⟩, hNext, handed⟩
    cases chunk with
    | none =>
        cases handed
    | some chunk =>
        have bytesEq : chunk.bytes = [104, 105] := by
          simpa using Except.ok.inj handed
        refine ⟨b, chunk, s', hAppend, hNext, bytesEq, ?_⟩
        intro leaves
        rcases Buffer.append_spec (Session.new_represents 0) [104, 105] (by decide) with
          ⟨b', hSame, represents⟩
        rw [hAppend] at hSame
        rw [← Except.ok.inj hSame] at represents
        have noBytes := BufferInputStream.delivered_eq_nil represents
          (.call hNext (.done s')) leaves
        rw [delivered, List.flatMap_singleton, bytesEq] at noBytes
        cases noBytes

end Uvcpp
