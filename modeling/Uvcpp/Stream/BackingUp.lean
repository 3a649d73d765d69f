/-
BackUp and Skip against the contract of a zero-copy stream.

Next leaves the read position of the block it hands out alone, and BackUp moves that
position back.  So the bytes that come again are those in front of the handed-out ones,
and Skip, which does nothing, is right for no bytes only.
-/

import Uvcpp.Stream.Moved

namespace Uvcpp

open LinkedList

namespace Buffer

/-- The ranges that `all` lists from a block on, and what another value there changes. -/
theorem spans_cons {past last : Position} {node : Node DataBlock} {rest : List (Node DataBlock)}
    {found : List Span} (listed : spans past last (node :: rest) = .ok found) :
    ∃ tail, found = spanOf node ++ tail ∧ ∀ value,
      spans past last (⟨node.address, value⟩ :: rest) =
        .ok (spanOf ⟨node.address, value⟩ ++ tail) := by
  unfold spans at listed
  split at listed
  · rename_i atLast
    cases listed
    refine ⟨[], (List.append_nil _).symm, ?_⟩
    intro value
    rw [spans, if_pos atLast, List.append_nil]
  · rename_i different
    rcases ok_of_bind listed with ⟨tail, hTail, listed⟩
    cases listed
    refine ⟨tail, rfl, ?_⟩
    intro value
    rw [spans, if_neg different, hTail]
    rfl

end Buffer

/-! ### Runs of a stream -/

inductive StreamCall where
  | next
  | backUp (count : Int)
  | skip (count : Int)

namespace BufferInputStream

/-- One call, with the chunk the call before it has returned, if that was `Next`.  A client
backs up directly after `Next` and not by more than that has returned. -/
def perform : BufferInputStream × Option Chunk → StreamCall →
    Option (BufferInputStream × Option Chunk)
  | (s, _), .next =>
      match s.next with
      | .ok (chunk, s') => some (s', chunk)
      | .error _ => none
  | (s, some chunk), .backUp count =>
      if 0 ≤ count ∧ count ≤ chunk.size then
        match s.backUp count with
        | .ok s' => some (s', none)
        | .error _ => none
      else none
  | (_, none), .backUp _ => none
  | (s, _), .skip count => some ((s.skip count).2, none)

/-- Streams on the Buffers a session reaches. -/
def system (owner : Nat) :
    Transition.System (BufferInputStream × Option Chunk) StreamCall :=
  Transition.System.executed
    (fun state => ∃ session len, Transition.Reachable (Session.system owner) session ∧
      len ≤ session.2.length ∧ state = (new session.1.buffer len, none))
    perform

/-- A chunk in the state is the one `Next` has just returned. -/
theorem just_returned {owner : Nat} {s : BufferInputStream} {chunk : Chunk}
    (reachable : Transition.Reachable (system owner) (s, some chunk)) :
    ∃ before, next before = .ok (some chunk, s) := by
  cases reachable with
  | start begins =>
      obtain ⟨_session, _len, _reached, _within, impossible⟩ := begins
      cases impossible
  | @next state _ call before taken =>
      obtain ⟨earlier, last⟩ := state
      cases call with
      | next =>
          have taken : perform (earlier, last) .next = some (s, some chunk) := taken
          simp only [perform] at taken
          split at taken
          · rename_i hNext
            cases taken
            exact ⟨earlier, hNext⟩
          · cases taken
      | backUp count =>
          have taken : perform (earlier, last) (.backUp count) = some (s, some chunk) := taken
          cases last with
          | none => cases taken
          | some handed =>
              simp only [perform] at taken
              split at taken
              · split at taken
                · cases taken
                · cases taken
              · cases taken
      | skip count => cases taken

/-! ### The contract -/

/-- BackUp gives back `count` bytes: it returns, ByteCount falls by `count`, and the next
chunk is made of those bytes. -/
def BacksUp (s : BufferInputStream) (bytes : List Byte) (count : Nat) : Prop :=
  ∃ s', s.backUp count = .ok s' ∧ s'.byteCount = int64 (s.byteCount - count) ∧
    ∃ chunk s'', s'.next = .ok (some chunk, s'') ∧ chunk.bytes = bytes

/-- Skip reads `count` bytes and drops them: ByteCount grows by `count`, and what comes
later comes from the old stream behind `count` bytes. -/
def Skips (s : BufferInputStream) (count : Nat) : Prop :=
  (s.skip count).2.byteCount = int64 (s.byteCount + count) ∧
    ∀ chunks s', Calls (s.skip count).2 chunks s' →
      ∃ dropped chunks' s'', dropped.length = count ∧ Calls s chunks' s'' ∧
        delivered chunks' = dropped ++ delivered chunks

/-- The block behind the iterator is drained, and the last `count` of the bytes that were
once read from it happen to be `bytes`; the counters of the stream let it go on. -/
structure Leftover (s : BufferInputStream) (bytes : List Byte) (count : Nat) : Prop where
  asked : s.bytes ≠ 0
  counted : sizeAdd s.buffer.readableBytes count ≠ 0
  again : ∃ position value, s.buffer.list.before? s.buffer.firstWithData = some position ∧
    s.buffer.block position = .ok value ∧ value.data = [] ∧ count ≤ value.read ∧
      Region.window value.buffer (value.read - count) value.read = bytes

/-! ### Skip -/

/-- Skip is right for no bytes only. -/
theorem skips_iff {s : BufferInputStream} {count : Nat} (small : count < 2147483648) :
    Skips s count ↔ count = 0 := by
  constructor
  · intro skips
    have counted : s.byteCount = int64 (s.byteCount + count) := skips.1
    unfold byteCount int64 at counted
    omega
  · intro none
    subst none
    constructor
    · change s.byteCount = int64 (s.byteCount + (0 : Nat))
      unfold byteCount int64
      omega
    · exact fun chunks s' calls => ⟨[], chunks, s', rfl, calls, rfl⟩

/-! ### BackUp -/

section BackUp

variable {s s' : BufferInputStream} {chunk : Chunk} {before after : List (Node DataBlock)}
  {node : Node DataBlock}

/-- The block in front of which `Next` stood, and the ranges it saw from there. -/
theorem next_block (hNext : s.next = .ok (some chunk, s')) :
    ∃ before node after more tail, s'.buffer.list.nodes = before ++ node :: after ∧
      s'.buffer.firstWithData = first s'.buffer.list.past after ∧
      chunk.span :: more = Buffer.spanOf node ++ tail ∧
      ∀ value, Buffer.spans s'.buffer.list.past s'.buffer.lastWithData
        (⟨node.address, value⟩ :: after) =
          .ok (Buffer.spanOf ⟨node.address, value⟩ ++ tail) := by
  obtain ⟨sameList, sameLast, moved, more, hAll, _size⟩ := next_moves hNext
  rw [← sameList] at moved
  obtain ⟨before, node, after, blocks, stood, here⟩ := Chain.after?_split moved
  rw [Buffer.all, ← sameList, stood, Chain.walk_node blocks, ← sameLast] at hAll
  obtain ⟨tail, found, others⟩ := Buffer.spans_cons hAll
  exact ⟨before, node, after, more, tail, blocks, here, found, others⟩

/-- BackUp widens the block behind the iterator towards its front. -/
theorem backUp_exposes (blocks : s.buffer.list.nodes = before ++ node :: after)
    (here : s.buffer.firstWithData = first s.buffer.list.past after) {count : Nat}
    (small : count < 2147483648) (enough : count ≤ node.value.read) :
    ∃ moved : DataBlock, s.backUp count = .ok (s.backTo (.node node.address) moved count) ∧
      moved.data = Region.window node.value.buffer (node.value.read - count) node.value.write := by
  have previous := Chain.before?_rest blocks
  rw [← here] at previous
  have reached := Buffer.block_node blocks
  have ordered := node.value.ordered
  have fits := node.value.fits
  have bounded : node.value.buffer.length ≤ 9223372036854775808 := node.value.sized.2
  have sizeEq : sizeT (count : Int) = count := sizeT_of_nat (by omega)
  have target : sizeSub node.value.read count = node.value.read - count :=
    sizeSub_of_le (by omega) enough
  rcases node.value.setReadPosition_spec (node.value.read - count) (by omega) with
    ⟨moved, hMoved, dataEq, _buffer⟩
  refine ⟨moved, ?_, dataEq⟩
  rw [backUp, previous, Buffer.orBadIterator, ok_bind, reached, ok_bind, sizeEq, target, hMoved]
  rfl

/-- The ranges from the widened block on. -/
theorem backTo_all {count : Nat} {moved : DataBlock} {tail : List Span}
    (blocks : s.buffer.list.nodes = before ++ node :: after)
    (others : ∀ value, Buffer.spans s.buffer.list.past s.buffer.lastWithData
      (⟨node.address, value⟩ :: after) = .ok (Buffer.spanOf ⟨node.address, value⟩ ++ tail)) :
    (s.backTo (.node node.address) moved count).buffer.all =
      .ok (Buffer.spanOf ⟨node.address, moved⟩ ++ tail) := by
  have blocks' : (s.backTo (.node node.address) moved count).buffer.list.nodes =
      before ++ ⟨node.address, moved⟩ :: after := Chain.assign_nodes blocks moved
  have walked := Chain.walk_node blocks'
  unfold Buffer.all
  rw [show (s.backTo (.node node.address) moved count).buffer.firstWithData =
    .node (⟨node.address, moved⟩ : Node DataBlock).address from rfl, walked]
  exact others moved

/-- The first range of a widened block. -/
theorem spanOf_widened {address : Address} {moved : DataBlock} (some : moved.data ≠ []) :
    Buffer.spanOf ⟨address, moved⟩ = [⟨address, moved.read, moved.data⟩] :=
  Buffer.spanOf_readable some

/-- What comes after BackUp is the widened block, as far as an `int` can measure it. -/
theorem next_backTo {count : Nat} {moved : DataBlock} {tail : List Span} {again : Chunk}
    {s'' : BufferInputStream} (blocks : s.buffer.list.nodes = before ++ node :: after)
    (others : ∀ value, Buffer.spans s.buffer.list.past s.buffer.lastWithData
      (⟨node.address, value⟩ :: after) = .ok (Buffer.spanOf ⟨node.address, value⟩ ++ tail))
    (readable : moved.data ≠ [])
    (hAgain : (s.backTo (.node node.address) moved count).next = .ok (some again, s'')) :
    again.bytes = moved.data.take (int32 moved.data.length).toNat := by
  obtain ⟨_list, _last, _moved, more, hAll, size⟩ := next_moves hAgain
  rw [backTo_all blocks others, spanOf_widened readable] at hAll
  have span : (⟨node.address, moved.read, moved.data⟩ : Span) = again.span :=
    (List.cons.inj (Except.ok.inj hAll)).1
  rw [Chunk.bytes, size, ← span]

/-- A `Next` that is asked and counted hands out the widened block. -/
theorem next_backTo_ok {count : Nat} {moved : DataBlock} {tail : List Span}
    (blocks : s.buffer.list.nodes = before ++ node :: after)
    (others : ∀ value, Buffer.spans s.buffer.list.past s.buffer.lastWithData
      (⟨node.address, value⟩ :: after) = .ok (Buffer.spanOf ⟨node.address, value⟩ ++ tail))
    (readable : moved.data ≠ []) (asked : s.bytes ≠ 0)
    (counted : 0 < sizeAdd s.buffer.readableBytes (sizeT count)) :
    ∃ again s'', (s.backTo (.node node.address) moved count).next = .ok (some again, s'') := by
  have blocks' : (s.backTo (.node node.address) moved count).buffer.list.nodes =
      before ++ ⟨node.address, moved⟩ :: after := Chain.assign_nodes blocks moved
  have hAll : (s.backTo (.node node.address) moved count).buffer.all = _ :=
    backTo_all blocks others
  rw [spanOf_widened readable] at hAll
  have step : (s.backTo (.node node.address) moved count).buffer.advance
      (.node (⟨node.address, moved⟩ : Node DataBlock).address) = _ := Buffer.advance_node blocks'
  exact ⟨_, _, next_eq asked counted hAll step⟩

theorem byteCount_backTo {position : Position} {moved : DataBlock} {count : Nat}
    (inRange : s.buffer.readableBytes < 18446744073709551616) :
    (s.backTo position moved count).byteCount = int64 (s.byteCount - count) := by
  change int64 (sizeSub s.originalSize (sizeAdd s.buffer.readableBytes (sizeT count))) = _
  unfold byteCount int64 sizeSub sizeAdd sizeT
  omega

end BackUp

/-- A block of which an `int` measures at least `count` bytes is never measured as `count`
when it is wider by `count`. -/
theorem int32_widened {held count : Nat} (positive : 0 < count)
    (within : (count : Int) ≤ int32 held) :
    min (int32 ((held + count : Nat) : Int)).toNat (held + count) ≠ count := by
  unfold int32 at within ⊢
  omega

/-- A chunk of which `count` bytes can be given back holds as many bytes as it says. -/
theorem chunk_length {s s' : BufferInputStream} {chunk : Chunk} {count : Nat}
    (hNext : s.next = .ok (some chunk, s')) (within : (count : Int) ≤ chunk.size) :
    (chunk.bytes.drop (chunk.bytes.length - count)).length = count := by
  obtain ⟨_list, _last, _moved, _more, _all, size⟩ := next_moves hNext
  have held : chunk.size.toNat ≤ chunk.span.bytes.length := by
    rw [size]
    unfold int32
    omega
  rw [List.length_drop, Chunk.bytes, List.length_take]
  omega

/-- A `Next` that hands something out was asked for it. -/
theorem next_asked {s s' : BufferInputStream} {chunk : Chunk}
    (hNext : s.next = .ok (some chunk, s')) : s.bytes ≠ 0 ∧ 0 < s.buffer.readableBytes := by
  unfold next at hNext
  split at hNext
  · cases hNext
  · rename_i asked
    split at hNext
    · rename_i readable
      exact ⟨asked, readable⟩
    · cases hNext

/-- BackUp does what it is for only by luck, when a drained block lies behind the iterator. -/
theorem backsUp_iff {before s : BufferInputStream} {chunk : Chunk} {count : Nat}
    (hNext : before.next = .ok (some chunk, s)) (positive : 0 < count)
    (within : (count : Int) ≤ chunk.size) :
    BacksUp s (chunk.bytes.drop (chunk.bytes.length - count)) count ↔
      Leftover s (chunk.bytes.drop (chunk.bytes.length - count)) count := by
  have length := chunk_length hNext within
  obtain ⟨_list, _last, _moved, _more, _all, size⟩ := next_moves hNext
  have small : count < 2147483648 := by
    have := int32_range chunk.span.bytes.length
    omega
  have sizeEq : sizeT (count : Int) = count := sizeT_of_nat (by omega)
  have inRange : s.buffer.readableBytes < 18446744073709551616 := by
    rw [next_readable hNext]
    unfold sizeSub
    omega
  obtain ⟨front, node, after, more, tail, blocks, here, found, others⟩ := next_block hNext
  have previous := Chain.before?_rest blocks
  rw [← here] at previous
  have reached := Buffer.block_node blocks
  have widened (moved : DataBlock) (data : moved.data =
      Region.window node.value.buffer (node.value.read - count) node.value.write)
      (enough : count ≤ node.value.read) :
      moved.data.length = node.value.data.length + count ∧ moved.data ≠ [] := by
    have ordered := node.value.ordered
    have wider : moved.data.length = node.value.data.length + count := by
      rw [data, Region.window_length_of_le node.value.fits, DataBlock.data_length,
        DataBlock.readableBytes]
      omega
    exact ⟨wider, List.length_pos_iff.mp (by omega)⟩
  constructor
  · rintro ⟨s', hBackUp, _counted, again, s'', hAgain, same⟩
    have behind : Behind s ⟨node.address, node.value.read, node.value.data⟩ :=
      ⟨front, node, after, blocks, here, rfl⟩
    have enough : count ≤ node.value.read := by
      by_contra tooMany
      have fails := (backUp_behind behind small).2 (Nat.lt_of_not_le tooMany)
      rw [fails] at hBackUp
      cases hBackUp
    obtain ⟨moved, hMoved, data⟩ := backUp_exposes blocks here small enough
    rw [hMoved] at hBackUp
    cases hBackUp
    obtain ⟨wider, readable⟩ := widened moved data enough
    obtain ⟨asked, counted⟩ := next_asked hAgain
    have counted : 0 < sizeAdd s.buffer.readableBytes (sizeT count) := counted
    rw [sizeEq] at counted
    have handed := next_backTo blocks others readable hAgain
    have measured := congrArg List.length handed
    rw [same, length, List.length_take, wider] at measured
    have drained : node.value.data = [] := by
      by_contra some
      rw [Buffer.spanOf_readable some] at found
      have span := (List.cons.inj found).1
      rw [span] at size
      exact int32_widened positive (size ▸ within) measured.symm
    have atEnd := node.value.data_eq_nil_iff.mp drained
    refine ⟨asked, ?_, .node node.address, node.value, previous, reached, drained, enough, ?_⟩
    · exact Nat.ne_of_gt counted
    · rw [drained, List.length_nil, Nat.zero_add] at wider
      rw [take_measured (wider ▸ small), data, ← atEnd] at handed
      exact handed.symm.trans same
  · intro leftover
    obtain ⟨position, value, standing, held, drained, enough, again⟩ := leftover.again
    rw [previous] at standing
    cases standing
    rw [reached] at held
    cases held
    obtain ⟨moved, hMoved, data⟩ := backUp_exposes blocks here small enough
    obtain ⟨wider, readable⟩ := widened moved data enough
    have counted : 0 < sizeAdd s.buffer.readableBytes (sizeT count) := by
      rw [sizeEq]
      exact Nat.pos_of_ne_zero leftover.counted
    obtain ⟨handed, s'', hAgain⟩ :=
      next_backTo_ok (s := s) blocks others readable leftover.asked counted
    refine ⟨_, hMoved, byteCount_backTo inRange, handed, s'', hAgain, ?_⟩
    have atEnd := node.value.data_eq_nil_iff.mp drained
    rw [next_backTo blocks others readable hAgain]
    rw [drained, List.length_nil, Nat.zero_add] at wider
    rw [take_measured (wider ▸ small), data, ← atEnd, again]

end BufferInputStream

open BufferInputStream in
/-- **BackUp and Skip.** After any calls, BackUp gives back the last bytes of the chunk just
returned exactly when a drained block in front of them happens to end in the same bytes and
the counters let the stream go on; Skip is right exactly for no bytes. -/
theorem stream_contract_iff {owner : Nat} {s : BufferInputStream} {last : Option Chunk}
    (reachable : Transition.Reachable (system owner) (s, last)) :
    (∀ (chunk : Chunk) (count : Nat), last = some chunk → 0 < count → (count : Int) ≤ chunk.size →
      (BacksUp s (chunk.bytes.drop (chunk.bytes.length - count)) count ↔
        Leftover s (chunk.bytes.drop (chunk.bytes.length - count)) count)) ∧
      ∀ count, count ≤ s.bytes → count < 2147483648 → (Skips s count ↔ count = 0) := by
  constructor
  · intro chunk count returned positive within
    subst returned
    obtain ⟨before, hNext⟩ := just_returned reachable
    exact backsUp_iff hNext positive within
  · exact fun count _left small => skips_iff small

/-- A stream on a Buffer of two bytes, and what the first `Next` makes of it. -/
theorem BufferInputStream.handed_reachable : ∃ b chunk s,
    (Buffer.new 0).append [104, 105] = .ok b ∧
      Transition.Reachable (system 0) (.new b 2, none) ∧ (BufferInputStream.new b 2).next =
        .ok (some chunk, s) ∧ Transition.Reachable (system 0) (s, some chunk) ∧
          chunk.size = 2 ∧ chunk.bytes = [104, 105] := by
  have start : Transition.Reachable (Session.system 0) (Session.new 0, []) := .start rfl
  have legal : (Session.new 0).Legal (.append [104, 105]) := ⟨by decide, trivial⟩
  have handed : (do
      let b ← (Buffer.new 0).append [104, 105]
      let found ← (BufferInputStream.new b 2).next
      pure (found.1.map fun chunk : Chunk => (chunk.size, chunk.bytes))) =
        .ok (some (2, [104, 105])) := by decide +kernel
  obtain ⟨b, hAppend, handed⟩ := ok_of_bind handed
  obtain ⟨⟨chunk, s⟩, hNext, handed⟩ := ok_of_bind handed
  have performed : (Session.new 0).perform (.append [104, 105]) =
      .ok { buffer := b, window := none, spent := 2 } := by
    simp only [Session.perform, Session.run, Session.new, Session.start, hAppend, ok_bind]
    rfl
  have appended : Transition.Reachable (Session.system 0)
      ({ buffer := b, window := none, spent := 2 }, [104, 105]) :=
    start.next ⟨legal, performed, rfl⟩
  have fresh : Transition.Reachable (system 0) (.new b 2, none) :=
    .start ⟨_, 2, appended, Nat.le_refl _, rfl⟩
  cases chunk with
  | none => cases handed
  | some chunk =>
      have values : (chunk.size, chunk.bytes) = (2, [104, 105]) :=
        Option.some.inj (Except.ok.inj handed)
      obtain ⟨size, bytes⟩ := Prod.mk.inj values
      have taken : perform (.new b 2, none) .next = some (s, some chunk) := by
        simp only [perform, hNext]
      exact ⟨b, chunk, s, hAppend, fresh, hNext, fresh.next taken, size, bytes⟩

/-- `BackUp(1)` after the first `Next` of a stream gives back the last byte of a long chunk. -/
def Buffer.GivesBack (b : Buffer) (len : Nat) : Prop :=
  ∃ found ∈ (BufferInputStream.new b len).next.toOption, ∃ chunk ∈ found.1, 1 ≤ chunk.size ∧
    ∃ s ∈ (found.2.backUp 1).toOption, s.byteCount = int64 (found.2.byteCount - 1) ∧
      ∃ again ∈ s.next.toOption, ∃ last ∈ again.1,
        last.bytes = chunk.bytes.drop (chunk.bytes.length - 1)

instance (b : Buffer) (len : Nat) : Decidable (b.GivesBack len) :=
  inferInstanceAs (Decidable (∃ _ ∈ _, _))

theorem Session.legal_append {s : Session} {bytes : List Byte}
    (within : s.spent + bytes.length < Buffer.maxLength) : s.Legal (.append bytes) :=
  ⟨within, trivial⟩

/-- A whole block. -/
def sevens : List Byte := List.replicate 1024 7

theorem sevens_length : sevens.length = 1024 := List.length_replicate

/-- Behind a drained block that ends in the byte 7 there is a full one that does too. -/
theorem Session.exists_leftover : ∃ s, Transition.Reachable (Session.system 0)
    (s, sevens ++ [7]) ∧ s.buffer.GivesBack 1025 := by
  have played : ∃ s1 ∈ ((Session.new 0).perform (.append sevens)).toOption,
      s1.spent = 1024 ∧ 1024 ≤ s1.buffer.readableBytes ∧
      ∃ s2 ∈ (s1.perform (.discard 1024)).toOption, s2.spent = 2048 ∧
      ∃ s3 ∈ (s2.perform .next).toOption, s3.spent = 2048 ∧
      (∃ window ∈ s3.window, 1024 ≤ window.length) ∧
      ∃ s4 ∈ (s3.perform (.extend sevens)).toOption, s4.spent = 3072 ∧
      ∃ s5 ∈ (s4.perform (.append [7])).toOption, s5.buffer.GivesBack 1025 := by
    decide +kernel
  obtain ⟨s1, first, spent1, readable, s2, second, spent2, s3, third, spent3,
    ⟨window, given, room⟩, s4, fourth, spent4, s5, fifth, found⟩ := played
  have begins : Transition.Reachable (Session.system 0) (Session.new 0, []) := .start rfl
  have appended : Transition.Reachable (Session.system 0) (s1, sevens) := by
    have within : (Session.new 0).spent + sevens.length < Buffer.maxLength := by
      rw [sevens_length]
      decide
    have legal : (Session.new 0).Legal (.append sevens) := Session.legal_append within
    exact begins.next ⟨legal, ok_of_toOption first, rfl⟩
  have drained : Transition.Reachable (Session.system 0) (s2, []) := by
    have legal : s1.Legal (.discard 1024) := ⟨by rw [spent1]; decide, readable⟩
    have nothing : [] = sevens.drop 1024 :=
      (List.drop_of_length_le (Nat.le_of_eq sevens_length)).symm
    exact appended.next ⟨legal, ok_of_toOption second, nothing⟩
  have opened : Transition.Reachable (Session.system 0) (s3, []) := by
    have legal : s2.Legal .next := ⟨by rw [spent2]; decide, trivial⟩
    exact drained.next ⟨legal, ok_of_toOption third, rfl⟩
  have extended : Transition.Reachable (Session.system 0) (s4, sevens) := by
    have within : s3.spent + sevens.length < Buffer.maxLength := by
      rw [spent3, sevens_length]
      decide
    have fits : sevens.length ≤ window.length := sevens_length ▸ room
    have legal : s3.Legal (.extend sevens) := And.intro within ⟨window, given, fits⟩
    exact opened.next ⟨legal, ok_of_toOption fourth, rfl⟩
  have within : s4.spent + [(7 : Byte)].length < Buffer.maxLength := by
    rw [spent4]
    decide
  exact ⟨s5, extended.next ⟨Session.legal_append within, ok_of_toOption fifth, rfl⟩, found⟩

theorem BufferInputStream.leftover_reachable : ∃ chunk s, 1 ≤ chunk.size ∧
    Transition.Reachable (system 0) (s, some chunk) ∧
      BacksUp s (chunk.bytes.drop (chunk.bytes.length - 1)) 1 := by
  obtain ⟨session, full, found⟩ := Session.exists_leftover
  obtain ⟨⟨_, s⟩, hNext, chunk, rfl, size, s', hBackUp, counted, ⟨_, s''⟩, hAgain, last, rfl,
    ending⟩ := found
  have fresh : Transition.Reachable (system 0) (.new session.buffer 1025, none) := by
    refine .start ⟨_, 1025, full, ?_, rfl⟩
    rw [List.length_append, sevens_length]
    exact Nat.le_refl _
  have taken : perform (.new session.buffer 1025, none) .next = some (s, some chunk) := by
    simp only [perform, ok_of_toOption hNext]
  exact ⟨chunk, s, size, fresh.next taken, s', ok_of_toOption hBackUp, counted, last, s'',
    ok_of_toOption hAgain, ending⟩

open BufferInputStream in
theorem stream_contract_iff_handed :
    (∃ s chunk, Transition.Reachable (system 0) (s, some chunk) ∧ chunk.bytes = [104, 105] ∧
      (BacksUp s [105] 1 ↔ Leftover s [105] 1)) ∧
    ∃ s chunk, Transition.Reachable (system 0) (s, some chunk) ∧
      BacksUp s (chunk.bytes.drop (chunk.bytes.length - 1)) 1 ∧
        Leftover s (chunk.bytes.drop (chunk.bytes.length - 1)) 1 := by
  constructor
  · obtain ⟨_b, chunk, s, _append, _fresh, _next, reachable, size, bytes⟩ := handed_reachable
    have contract :=
      (stream_contract_iff reachable).1 chunk 1 rfl Nat.one_pos (by rw [size]; decide)
    rw [bytes] at contract
    exact ⟨s, chunk, reachable, bytes, contract⟩
  · obtain ⟨chunk, s, size, reachable, backsUp⟩ := leftover_reachable
    have contract := (stream_contract_iff reachable).1 chunk 1 rfl Nat.one_pos size
    exact ⟨s, chunk, reachable, backsUp, contract.mp backsUp⟩

open BufferInputStream in
/-- After a `Next` that returned two bytes an assert of `BackUp(1)` fails, and `Skip(1)` on
a fresh stream of two bytes leaves ByteCount alone. -/
theorem stream_contract_broken : ∃ s chunk fresh,
    Transition.Reachable (system 0) (s, some chunk) ∧ chunk.size = 2 ∧
      s.backUp 1 = .error .assertion ∧
        ¬ BacksUp s (chunk.bytes.drop (chunk.bytes.length - 1)) 1 ∧
      Transition.Reachable (system 0) (fresh, none) ∧ fresh.bytes = 2 ∧ ¬ Skips fresh 1 := by
  obtain ⟨b, chunk, s, hAppend, fresh, hNext, reachable, size, _bytes⟩ := handed_reachable
  have fails : (do
      let b ← (Buffer.new 0).append [104, 105]
      let found ← (BufferInputStream.new b 2).next
      let _ ← found.2.backUp 1
      pure ()) = .error .assertion := by decide +kernel
  rw [hAppend, ok_bind, hNext, ok_bind] at fails
  have stopped : s.backUp 1 = .error .assertion := by
    cases backedUp : s.backUp 1 with
    | ok s' =>
        simp only [backedUp] at fails
        cases fails
    | error fault =>
        simp only [backedUp] at fails
        cases fails
        rfl
  refine ⟨s, chunk, .new b 2, reachable, size, stopped, ?_, fresh, rfl, ?_⟩
  · rintro ⟨s', hBackUp, _more⟩
    rw [show ((1 : Nat) : Int) = 1 from rfl, stopped] at hBackUp
    cases hBackUp
  · rw [skips_iff (by decide)]
    decide

end Uvcpp
