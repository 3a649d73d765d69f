/-
Buffers whose first iterator a stream has moved.

Next moves firstWithData_ past blocks that are still full, and BackUp moves it back and
widens the block there.  The next discard looks for the first readable block from the
start of the list again, so such a Buffer behaves as a byte string only when no block is
left in front of the iterator.
-/

import Uvcpp.Stream.Reading

namespace Uvcpp

open LinkedList

/-- The iterator is in front of the blocks `live` and `last`, and full blocks lie before it. -/
structure Parted (b : Buffer) (before live : List (Node DataBlock)) (last : Node DataBlock)
    (spare : List (Node DataBlock)) : Prop where
  blocks : b.list.nodes = before ++ (live ++ last :: spare)
  here : b.firstWithData = first b.list.past (live ++ last :: spare)
  lastAt : b.lastWithData = .node last.address
  full : ∀ node ∈ before ++ live, node.value.data ≠ []

/-- The iterator is past the last used block. -/
structure Beyond (b : Buffer) (gone : List (Node DataBlock)) (last : Node DataBlock)
    (rest : List (Node DataBlock)) : Prop where
  blocks : b.list.nodes = gone ++ last :: rest
  here : b.firstWithData = first b.list.past rest
  lastAt : b.lastWithData = .node last.address

namespace Parted

variable {b : Buffer} {before live spare : List (Node DataBlock)} {last : Node DataBlock}

theorem walk (parted : Parted b before live last spare) :
    b.list.walk b.firstWithData = some (live ++ last :: spare) := by
  rw [parted.here]
  exact Chain.walk_rest parted.blocks

theorem all (parted : Parted b before live last spare) :
    b.all = .ok (Buffer.spansOf (live ++ [last])) := by
  have split : b.list.nodes = (before ++ live) ++ last :: spare := by
    rw [parted.blocks, List.append_assoc]
  have absent := Chain.absent_before split
  rw [Buffer.all, parted.walk, parted.lastAt]
  exact Buffer.spans_spec _ fun node member => absent node (List.mem_append_right _ member)

/-- Discarding nothing moves the iterator to the start of the list. -/
theorem discard_zero (parted : Parted b before live last spare) :
    b.discard 0 = .ok { b with firstWithData := b.list.start } := by
  have erased : Buffer.eraseDrained b.list b.lastWithData b.list.nodes =
      .ok (b.list, b.list.start) := by
    have split : b.list.nodes = (before ++ live) ++ last :: spare := by
      rw [parted.blocks, List.append_assoc]
    have absent := Chain.absent_before split
    have full := parted.full
    unfold Chain.start
    rw [parted.lastAt, split]
    cases nodes : before ++ live with
    | nil =>
        simp [Buffer.eraseDrained, first]
    | cons node rest =>
        rw [nodes] at absent full
        have different := absent node List.mem_cons_self
        have readable : 0 < node.value.readableBytes := by
          rw [← DataBlock.data_length]
          exact List.length_pos_iff.mpr (full node List.mem_cons_self)
        simp [Buffer.eraseDrained, first, different, readable]
  rw [Buffer.discard_zero parted.walk erased]

/-- Back at the start of the list. -/
theorem restarted (parted : Parted b before live last spare) :
    Parted { b with firstWithData := b.list.start } [] (before ++ live) last spare where
  blocks := by
    rw [List.nil_append, List.append_assoc]
    exact parted.blocks
  here := by
    rw [List.append_assoc, ← parted.blocks]
    rfl
  lastAt := parted.lastAt
  full := parted.full

end Parted

/-- The Buffer behaves as something only when the iterator is at the start of the list. -/
theorem parted_of_behaves {b : Buffer} {before live spare : List (Node DataBlock)}
    {last : Node DataBlock} {content : List Byte} (parted : Parted b before live last spare)
    (behaves : Behaves b content) :
    before = [] ∧ b.readableBytes = (bytesOf (live ++ [last])).length := by
  have now : Transition.Reachable
      ((Session.systemFrom b content).restrict fun _ op => op.Plain)
      (Session.start b, content) := .start rfl
  have hPerform : (Session.start b).perform (.discard 0) =
      .ok { buffer := { b with firstWithData := b.list.start }, window := none, spent := 0 } := by
    simp only [Session.perform, Session.run, Session.start, parted.discard_zero, ok_bind]
    rfl
  have legal : (Session.start b).Legal (.discard 0) := ⟨Nat.two_pow_pos 63, Nat.zero_le _⟩
  have later : Transition.Reachable
      ((Session.systemFrom b content).restrict fun _ op => op.Plain)
      ({ buffer := { b with firstWithData := b.list.start }, window := none, spent := 0 },
        content) := by
    have taken : Op.Plain (.discard 0) ∧ Session.Step (Session.start b, content) (.discard 0)
        ({ buffer := { b with firstWithData := b.list.start }, window := none, spent := 0 },
          content) :=
      ⟨trivial, legal, hPerform, rfl⟩
    exact now.next taken
  obtain ⟨found, hAll, foundBytes⟩ := (behaves _ now).1.listed
  obtain ⟨found', hAll', foundBytes'⟩ := (behaves _ later).1.listed
  have hAll : b.all = .ok found := hAll
  have hAll' : ({ b with firstWithData := b.list.start } : Buffer).all = .ok found' := hAll'
  have foundBytes' : Buffer.spanBytes found' = content := foundBytes'
  have foundBytes : Buffer.spanBytes found = content := foundBytes
  rw [parted.all] at hAll
  rw [parted.restarted.all] at hAll'
  rw [← Except.ok.inj hAll, Buffer.spanBytes_spansOf] at foundBytes
  rw [← Except.ok.inj hAll', Buffer.spanBytes_spansOf, List.append_assoc, bytesOf_append,
    foundBytes] at foundBytes'
  have counted : b.readableBytes = content.length := (behaves _ now).1.counted
  refine ⟨?_, by rw [counted, foundBytes]⟩
  have none : bytesOf before = [] := List.append_left_eq_self.mp foundBytes'
  cases before with
  | nil => rfl
  | cons node rest =>
      have empty := (List.append_eq_nil_iff.mp none).1
      exact absurd empty (parted.full node List.mem_cons_self)

theorem not_behaves_of_beyond {b : Buffer} {gone rest : List (Node DataBlock)}
    {last : Node DataBlock} (beyond : Beyond b gone last rest) (content : List Byte) :
    ¬Behaves b content := by
  intro behaves
  have now : Transition.Reachable
      ((Session.systemFrom b content).restrict fun _ op => op.Plain)
      (Session.start b, content) := .start rfl
  obtain ⟨found, hAll, _foundBytes⟩ := (behaves _ now).1.listed
  have split : b.list.nodes = (gone ++ [last]) ++ rest := by
    rw [beyond.blocks]
    simp
  have absent := Chain.absent_after beyond.blocks
  have fails : b.all = .error .badIterator := by
    rw [Buffer.all, beyond.here, Chain.walk_rest split, beyond.lastAt]
    refine Buffer.spans_foreign Position.noConfusion _ ?_
    intro node member same
    exact absent node member (Position.node.inj same)
  have hAll : b.all = .ok found := hAll
  rw [fails] at hAll
  cases hAll

/-! ### One call of the stream -/

namespace BufferInputStream

variable {s s' : BufferInputStream} {before live spare : List (Node DataBlock)}
  {last : Node DataBlock} {chunk : Chunk}

/-- A successful `Next` steps over the block in front of the iterator. -/
theorem next_parted (parted : Parted s.buffer before live last spare)
    (hNext : s.next = .ok (some chunk, s')) :
    (∃ node rest, live = node :: rest ∧ Parted s'.buffer (before ++ [node]) rest last spare) ∨
      live = [] ∧ Beyond s'.buffer before last spare := by
  rcases next_moves hNext with ⟨sameList, sameLast, moved, _more, _all, _size⟩
  rw [parted.here] at moved
  cases live with
  | nil =>
      have blocks : s.buffer.list.nodes = before ++ last :: spare := parted.blocks
      have moved : s.buffer.list.after? (.node last.address) =
          some s'.buffer.firstWithData := moved
      rw [Chain.after?_node blocks] at moved
      refine .inr ⟨rfl, ?_, ?_, ?_⟩
      · rw [sameList]
        exact blocks
      · rw [sameList]
        exact (Option.some.inj moved).symm
      · rw [sameLast]
        exact parted.lastAt
  | cons node rest =>
      have blocks : s.buffer.list.nodes = before ++ node :: (rest ++ last :: spare) :=
        parted.blocks
      have moved : s.buffer.list.after? (.node node.address) =
          some s'.buffer.firstWithData := moved
      rw [Chain.after?_node blocks] at moved
      refine .inl ⟨node, rest, rfl, ?_, ?_, ?_, ?_⟩
      · rw [sameList, blocks]
        simp
      · rw [sameList]
        exact (Option.some.inj moved).symm
      · rw [sameLast]
        exact parted.lastAt
      · rw [List.append_assoc]
        exact parted.full

theorem next_beyond {gone rest : List (Node DataBlock)} (beyond : Beyond s.buffer gone last rest)
    (asked : s.bytes ≠ 0) : ∃ fault, s.next = .error fault :=
  next_behind_last beyond.blocks beyond.here beyond.lastAt asked

theorem next_none (hNext : s.next = .ok (none, s')) :
    s.bytes = 0 ∧ s' = s := by
  unfold next at hNext
  split at hNext
  · rename_i done
    cases hNext
    exact ⟨done, rfl⟩
  · split at hNext
    · rcases ok_of_bind hNext with ⟨bufs, _hAll, hNext⟩
      cases bufs with
      | nil =>
          cases hNext
      | cons front more =>
          rcases ok_of_bind hNext with ⟨following, _hAdvance, hNext⟩
          cases hNext
    · cases hNext

theorem next_readable (hNext : s.next = .ok (some chunk, s')) :
    s'.buffer.readableBytes = sizeSub s.buffer.readableBytes (sizeT chunk.size) := by
  unfold next at hNext
  split at hNext
  · cases hNext
  · split at hNext
    · rcases ok_of_bind hNext with ⟨bufs, _hAll, hNext⟩
      cases bufs with
      | nil =>
          cases hNext
      | cons front more =>
          rcases ok_of_bind hNext with ⟨following, _hAdvance, hNext⟩
          cases hNext
          rfl
    · cases hNext

/-- A block whose read position moved back. -/
theorem moved_back {value moved : DataBlock} {count : Nat} (small : count < 2147483648)
    (hMoved : value.setReadPosition (sizeSub value.read (sizeT count)) = .ok moved) :
    moved.data.length = value.data.length + count := by
  have ordered := value.ordered
  have fits := value.fits
  have bounded : value.buffer.length ≤ 9223372036854775808 := value.sized.2
  rw [sizeT_of_nat (by omega)] at hMoved
  by_cases enough : count ≤ value.read
  · rw [sizeSub_of_le (by omega) enough] at hMoved
    rcases value.setReadPosition_spec (value.read - count) (by omega) with
      ⟨moved', hMoved', dataEq, _buffer⟩
    rw [hMoved] at hMoved'
    rw [Except.ok.inj hMoved', dataEq, Region.window_length_of_le fits, DataBlock.data_length,
      DataBlock.readableBytes]
    omega
  · have inRange : value.write ≤ 9223372036854775808 := by omega
    have wrapped := sizeSub_wraps inRange (Nat.lt_of_not_le enough) small
    rw [DataBlock.setReadPosition, dif_neg (by omega)] at hMoved
    cases hMoved

/-- `BackUp` behind a block: the block is wider, and the iterator is in front of it. -/
theorem backUp_block {node : Node DataBlock} {after : List (Node DataBlock)} {count : Nat}
    {s'' : BufferInputStream} (blocks : s'.buffer.list.nodes = before ++ node :: after)
    (here : s'.buffer.firstWithData = first s'.buffer.list.past after)
    (small : count < 2147483648) (hBackUp : s'.backUp count = .ok s'') :
    ∃ moved : DataBlock, moved.data.length = node.value.data.length + count ∧
      s''.buffer.list.nodes = before ++ ⟨node.address, moved⟩ :: after ∧
      s''.buffer.firstWithData = .node node.address ∧
      s''.buffer.lastWithData = s'.buffer.lastWithData ∧
      s''.buffer.readableBytes = sizeAdd s'.buffer.readableBytes (sizeT count) := by
  have previous := Chain.before?_rest blocks
  rw [← here] at previous
  have reached := Buffer.block_node blocks
  rw [backUp, previous, Buffer.orBadIterator, ok_bind, reached, ok_bind] at hBackUp
  rcases ok_of_bind hBackUp with ⟨moved, hMoved, hBackUp⟩
  cases hBackUp
  exact ⟨moved, moved_back small hMoved, Chain.assign_nodes blocks moved, rfl, rfl, rfl⟩

/-- A `Next` that is backed up stands where it stood, with more bytes in front of it. -/
theorem backUp_parted {s'' : BufferInputStream} {count : Nat}
    (parted : Parted s.buffer before live last spare)
    (hNext : s.next = .ok (some chunk, s')) (positive : 0 < count) (small : count < 2147483648)
    (hBackUp : s'.backUp count = .ok s'') :
    ∃ live' last', Parted s''.buffer before live' last' spare ∧
      (bytesOf (live' ++ [last'])).length = (bytesOf (live ++ [last])).length + count ∧
      s''.buffer.readableBytes =
        sizeAdd (sizeSub s.buffer.readableBytes (sizeT chunk.size)) (sizeT count) := by
  have readable := next_readable hNext
  rcases next_parted parted hNext with ⟨node, rest, liveEq, onward⟩ | ⟨none, beyond⟩
  · subst liveEq
    have blocks : s'.buffer.list.nodes = before ++ node :: (rest ++ last :: spare) := by
      rw [onward.blocks]
      simp
    rcases backUp_block blocks onward.here small hBackUp with
      ⟨moved, wider, blocks', here', lastAt', readable'⟩
    refine ⟨⟨node.address, moved⟩ :: rest, last, ⟨?_, ?_, ?_, ?_⟩, ?_, ?_⟩
    · rw [blocks']
      rfl
    · rw [here']
      rfl
    · rw [lastAt', onward.lastAt]
    · intro other member
      have full := parted.full
      rcases List.mem_append.mp member with old | new
      · exact full other (List.mem_append_left _ old)
      · rcases List.mem_cons.mp new with rfl | old
        · exact List.length_pos_iff.mp (by rw [wider]; omega)
        · exact full other (List.mem_append_right _ (List.mem_cons_of_mem _ old))
    · simp only [List.cons_append, bytesOf_cons, List.length_append, wider]
      omega
    · rw [readable', readable]
  · subst none
    rcases backUp_block beyond.blocks beyond.here small hBackUp with
      ⟨moved, wider, blocks', here', lastAt', readable'⟩
    refine ⟨[], ⟨last.address, moved⟩, ⟨?_, ?_, ?_, ?_⟩, ?_, ?_⟩
    · exact blocks'
    · exact here'
    · rw [lastAt', beyond.lastAt]
    · exact parted.full
    · simp only [List.nil_append, bytesOf_cons, bytesOf_nil, List.append_nil, wider]
    · rw [readable', readable]

end BufferInputStream

end Uvcpp
