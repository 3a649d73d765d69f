/-
`append` and `prepend` on a represented Buffer.

Both may fill a block and go on with a new one.  The recursion of `append` runs
over the spare blocks behind the last used one and ends in a new block; the
recursion of `prepend` fills the first block and then makes one new block.
-/

import Uvcpp.Buffer.Invariant

namespace Uvcpp

open LinkedList

namespace Buffer

/-- The longest request a block can be made for. -/
def maxLength : Nat := 2 ^ 63

theorem growBack_spec {b : Buffer} (len : Nat) (small : len ≤ maxLength)
    (first : b.firstWithData = b.list.start) :
    ∃ b' value, b.growBack len = .ok b' ∧
      b'.list.nodes = b.list.nodes ++ [⟨b.list.fresh, value⟩] ∧
      b'.firstWithData = b'.list.start ∧ b'.lastWithData = .node b.list.fresh ∧
      b'.readableBytes = b.readableBytes ∧
      len ≤ value.capacity ∧ value.read = 0 ∧ value.write = 0 := by
  obtain ⟨value, hValue, covers, readZero, writeZero⟩ := DataBlock.ofLength_spec len small
  refine
    ⟨{ list := b.list.pushBack value
       firstWithData := if (b.list.pushBack value).nodes.length = 1 then
         .node b.list.fresh else b.firstWithData
       lastWithData := .node b.list.fresh
       readableBytes := b.readableBytes
       capacity := b.capacity + value.capacity },
      value, ?_, rfl, ?_, rfl, rfl, covers, readZero, writeZero⟩
  · simp only [growBack, hValue, ok_bind, Chain.before?_pushBack, orBadIterator]
    rfl
  · simp only [Chain.nodes_pushBack, List.length_append, List.length_singleton]
    rw [Chain.start_pushBack, first]
    by_cases none : b.list.nodes = []
    · rw [none]
      rfl
    · have several : b.list.nodes.length + 1 ≠ 1 := by
        have positive := List.length_pos_of_ne_nil none
        omega
      rw [if_neg several]
      exact first_of_ne_nil _ _ none

/-- One round of `append` on a last block with enough space in it. -/
theorem appendRounds_fits {b : Buffer} {front spare : List (Node DataBlock)}
    {last : Node DataBlock} {bytes : List Byte} (rounds : Nat)
    (blocks : b.list.nodes = front ++ last :: spare)
    (first : b.firstWithData = b.list.start) (lastAt : b.lastWithData = .node last.address)
    (layout : Layout front last spare)
    (readable : b.readableBytes = (bytesOf (front ++ [last])).length)
    (room : bytes.length ≤ last.value.totalSpace) :
    ∃ b', appendRounds (rounds + 1) b bytes = .ok b' ∧
      Represents b' (bytesOf (front ++ [last]) ++ bytes) := by
  have notPast : b.lastWithData ≠ b.list.past := by
    rw [lastAt]
    exact Position.noConfusion
  have reached : b.block b.lastWithData = .ok last.value := by
    rw [lastAt, block_node blocks]
  simp only [bytesOf_append, bytesOf_cons, bytesOf_nil, List.append_nil,
    List.append_assoc] at readable ⊢
  by_cases fits : bytes.length ≤ last.value.writeableBytes
  · obtain ⟨stored, hStored, dataEq, _capacity, _full, unshifted⟩ :=
      last.value.store_spec bytes fits
    refine ⟨b.writeBlock b.lastWithData stored (b.readableBytes + bytes.length), ?_, ?_⟩
    · simp only [appendRounds, ensureLast, if_neg notPast, reached, ok_bind, if_pos fits,
        hStored]
      rfl
    · rw [← dataEq]
      apply Represents.store_last blocks first lastAt layout stored unshifted
      rw [readable, dataEq]
      simp only [List.length_append]
      omega
  · obtain ⟨moved, hMoved, movedData, _movedCapacity, movedRead, movedSpace⟩ :=
      last.value.realign_spec
    obtain ⟨stored, hStored, dataEq, _capacity, _full, unshifted⟩ :=
      moved.store_spec bytes (by rw [movedSpace]; exact room)
    refine ⟨b.writeBlock b.lastWithData stored (b.readableBytes + bytes.length), ?_, ?_⟩
    · simp only [appendRounds, ensureLast, if_neg notPast, reached, ok_bind, if_neg fits,
        if_pos room, hMoved, hStored]
      rfl
    · rw [← movedData, ← dataEq]
      apply Represents.store_last blocks first lastAt layout stored
        (fun _ => unshifted movedRead)
      rw [readable, dataEq, movedData]
      simp only [List.length_append]
      omega

/-- `append` past the last block: a new block is made and takes all bytes. -/
theorem appendRounds_at_end {b : Buffer} (bytes : List Byte) (rounds : Nat)
    (small : bytes.length ≤ maxLength) (first : b.firstWithData = b.list.start)
    (lastPast : b.lastWithData = b.list.past)
    (full : ∀ node ∈ b.list.nodes, node.value.write = node.value.capacity)
    (unshifted : ∀ node ∈ b.list.nodes.tail, node.value.read = 0)
    (readable : b.readableBytes = (bytesOf b.list.nodes).length) :
    ∃ b', appendRounds (rounds + 1) b bytes = .ok b' ∧
      Represents b' (bytesOf b.list.nodes ++ bytes) := by
  obtain ⟨grown, value, hGrown, blocks, grownFirst, grownLast, grownReadable, covers,
    readZero, writeZero⟩ := growBack_spec _ small first
  have noData : value.data = [] := by
    rw [DataBlock.data_eq_nil_iff, readZero, writeZero]
  have sameRound : appendRounds (rounds + 1) b bytes =
      appendRounds (rounds + 1) grown bytes := by
    have notPast : grown.lastWithData ≠ grown.list.past := by
      rw [grownLast]
      exact Position.noConfusion
    simp only [appendRounds, ensureLast, if_pos lastPast, if_neg notPast, hGrown, ok_bind]
  have layout : Layout b.list.nodes ⟨b.list.fresh, value⟩ [] :=
    { full := full
      unshifted := by
        intro node member
        rcases mem_tail_append_singleton member with old | rfl
        · exact unshifted node old
        · exact readZero
      unused := by intro node member; cases member }
  have space : bytes.length ≤ value.totalSpace := by
    unfold DataBlock.totalSpace DataBlock.writeableBytes
    unfold DataBlock.capacity at covers
    omega
  have appended := appendRounds_fits rounds blocks grownFirst grownLast layout
    (by simp [grownReadable, readable, noData]) space
  rw [sameRound]
  simpa [noData] using appended

/-- One round of `append` on a last block that is too small: the block is
written to its end and the rest is left for the next block. -/
theorem appendRounds_spills {b : Buffer} {front spare : List (Node DataBlock)}
    {last : Node DataBlock} {bytes : List Byte} (rounds : Nat)
    (blocks : b.list.nodes = front ++ last :: spare) (lastAt : b.lastWithData = .node last.address)
    (tooLong : last.value.totalSpace < bytes.length) :
    ∃ b' filled, appendRounds (rounds + 1) b bytes =
        appendRounds rounds b' (bytes.drop last.value.writeableBytes) ∧
      b'.list.nodes = front ++ ⟨last.address, filled⟩ :: spare ∧
      b'.firstWithData = b.firstWithData ∧ b'.list.start = b.list.start ∧
      b'.lastWithData = first b'.list.past spare ∧
      b'.readableBytes = b.readableBytes + last.value.writeableBytes ∧
      filled.data = last.value.data ++ bytes.take last.value.writeableBytes ∧
      filled.write = filled.capacity ∧ (last.value.read = 0 → filled.read = 0) := by
  have notPast : b.lastWithData ≠ b.list.past := by
    rw [lastAt]
    exact Position.noConfusion
  have reached : b.block b.lastWithData = .ok last.value := by
    rw [lastAt, block_node blocks]
  have notFits : ¬bytes.length ≤ last.value.writeableBytes := by
    unfold DataBlock.totalSpace at tooLong
    omega
  have prefixLength : (bytes.take last.value.writeableBytes).length =
      last.value.writeableBytes := by
    rw [List.length_take]
    omega
  obtain ⟨filled, hFilled, dataEq, full, unshifted⟩ : ∃ filled : DataBlock,
      fillUp last.value bytes = .ok filled ∧
        filled.data = last.value.data ++ bytes.take last.value.writeableBytes ∧
        filled.write = filled.capacity ∧ (last.value.read = 0 → filled.read = 0) := by
    by_cases some : 0 < last.value.writeableBytes
    · obtain ⟨filled, hFilled, dataEq, _capacity, full, unshifted⟩ :=
        last.value.store_spec _ (Nat.le_of_eq prefixLength)
      exact ⟨filled, by rw [fillUp, if_pos some, hFilled], dataEq, full prefixLength, unshifted⟩
    · have none : last.value.writeableBytes = 0 := by omega
      have fits := last.value.fits
      refine ⟨last.value, by rw [fillUp, if_neg some], by simp [none], ?_, fun same => same⟩
      unfold DataBlock.writeableBytes at none
      unfold DataBlock.capacity
      omega
  have nodesEq := writeBlock_nodes blocks filled
    (b.readableBytes + last.value.writeableBytes)
  have moved := advance_node nodesEq
  refine ⟨{ b.writeBlock (.node last.address) filled
      (b.readableBytes + last.value.writeableBytes) with
      lastWithData := LinkedList.first b.list.past spare },
    filled, ?_, nodesEq, rfl, writeBlock_start b _ filled 0, rfl, rfl, dataEq, full, unshifted⟩
  rw [lastAt] at notPast reached
  simp only [appendRounds, ensureLast, lastAt, if_neg notPast, reached, ok_bind,
    if_neg notFits, if_neg (Nat.not_le.mpr tooLong), hFilled, writeBlock_lastWithData, moved,
    writeBlock_past]

private theorem spilledReadable_eq {b spilled : Buffer} {front : List (Node DataBlock)}
    {last : Node DataBlock} {filled : DataBlock} {bytes : List Byte}
    (readable : b.readableBytes = (bytesOf (front ++ [last])).length)
    (spilledReadable : spilled.readableBytes = b.readableBytes + last.value.writeableBytes)
    (dataEq : filled.data = last.value.data ++ bytes.take last.value.writeableBytes)
    (room : ¬bytes.length ≤ last.value.totalSpace) :
    spilled.readableBytes =
      (bytesOf (front ++ [(⟨last.address, filled⟩ : Node DataBlock)])).length := by
  have taken : (bytes.take last.value.writeableBytes).length = last.value.writeableBytes := by
    unfold DataBlock.totalSpace at room
    rw [List.length_take]
    omega
  rw [spilledReadable, readable]
  simp only [bytesOf_append, bytesOf_cons, bytesOf_nil, List.append_nil, List.length_append,
    dataEq, taken]
  omega

/-- The recursion of `append` over the spare blocks. -/
theorem appendRounds_spec {spare : List (Node DataBlock)} :
    ∀ {b : Buffer} {front : List (Node DataBlock)} {last : Node DataBlock}
      {bytes : List Byte} (rounds : Nat), spare.length + 2 ≤ rounds →
      bytes.length ≤ maxLength → b.list.nodes = front ++ last :: spare →
      b.firstWithData = b.list.start → b.lastWithData = .node last.address →
      Layout front last spare → b.readableBytes = (bytesOf (front ++ [last])).length →
      ∃ b', appendRounds rounds b bytes = .ok b' ∧
        Represents b' (bytesOf (front ++ [last]) ++ bytes) := by
  induction spare with
  | nil =>
      intro b front last bytes rounds enough small blocks first lastAt layout readable
      obtain ⟨rounds, rfl⟩ : ∃ fewer, rounds = fewer + 2 := ⟨rounds - 2, by omega⟩
      by_cases room : bytes.length ≤ last.value.totalSpace
      · exact appendRounds_fits (rounds + 1) blocks first lastAt layout readable room
      · obtain ⟨spilled, filled, sameResult, nodesEq, sameFirst, sameStart, lastNext,
          spilledReadable, dataEq, full, unshifted⟩ :=
          appendRounds_spills (rounds + 1) blocks lastAt (Nat.not_le.mp room)
        have replaced : Layout front ⟨last.address, filled⟩ [] :=
          layout.replace_last unshifted
        have allFull : ∀ node ∈ spilled.list.nodes,
            node.value.write = node.value.capacity := by
          intro node member
          rw [nodesEq] at member
          rcases List.mem_append.mp member with old | new
          · exact layout.full node old
          · rw [List.mem_singleton.mp new]
            exact full
        obtain ⟨b', hAppend, represents⟩ := appendRounds_at_end (b := spilled)
          (bytes.drop last.value.writeableBytes) rounds
          (by rw [List.length_drop]; omega) (by rw [sameFirst, first, sameStart]) lastNext
          allFull (by rw [nodesEq]; exact replaced.unshifted)
          (by rw [nodesEq]; exact spilledReadable_eq readable spilledReadable dataEq room)
        refine ⟨b', by rw [sameResult, hAppend], ?_⟩
        simpa [nodesEq, dataEq] using represents
  | cons next rest ih =>
      intro b front last bytes rounds enough small blocks first lastAt layout readable
      obtain ⟨rounds, rfl⟩ : ∃ fewer, rounds = fewer + 1 := ⟨rounds - 1, by omega⟩
      by_cases room : bytes.length ≤ last.value.totalSpace
      · exact appendRounds_fits rounds blocks first lastAt layout readable room
      · obtain ⟨spilled, filled, sameResult, nodesEq, sameFirst, sameStart, lastNext,
          spilledReadable, dataEq, full, unshifted⟩ :=
          appendRounds_spills rounds blocks lastAt (Nat.not_le.mp room)
        have noData : next.value.data = [] := by
          obtain ⟨readZero, writeZero⟩ := layout.unused next List.mem_cons_self
          rw [DataBlock.data_eq_nil_iff, readZero, writeZero]
        have advanced : Layout (front ++ [⟨last.address, filled⟩]) next rest :=
          layout.advance full unshifted
        have nextNodes : spilled.list.nodes =
            (front ++ [⟨last.address, filled⟩]) ++ next :: rest := by
          rw [nodesEq]
          simp
        have shorter : (bytes.drop last.value.writeableBytes).length ≤ maxLength := by
          rw [List.length_drop]
          omega
        obtain ⟨b', hAppend, represents⟩ := ih rounds
          (by rw [List.length_cons] at enough; omega) shorter nextNodes
          (by rw [sameFirst, first, sameStart]) lastNext advanced
          (by
            have counted := spilledReadable_eq readable spilledReadable dataEq room
            simpa [noData] using counted)
        refine ⟨b', by rw [sameResult, hAppend], ?_⟩
        simpa [noData, dataEq] using represents

theorem append_spec {b : Buffer} {content : List Byte}
    (represents : Represents b content) (bytes : List Byte) (small : bytes.length ≤ maxLength) :
    ∃ b', b.append bytes = .ok b' ∧ Represents b' (content ++ bytes) := by
  unfold append
  cases represents with
  | vacant noBlocks first last readable empty =>
      subst empty
      have appended := appendRounds_at_end (b := b) bytes (b.list.nodes.length + 1) small
        (by rw [first, Chain.start, noBlocks]; rfl) last
        (by rw [noBlocks]; intro node member; cases member)
        (by rw [noBlocks]; intro node member; cases member)
        (by rw [noBlocks, readable]; rfl)
      simpa [noBlocks] using appended
  | occupied front last spare blocks first lastAt layout held readable =>
      subst held
      refine appendRounds_spec _ ?_ small blocks first lastAt layout readable
      rw [blocks, List.length_append, List.length_cons]
      omega

/-! ### Prepending -/

theorem growFront_spec {b : Buffer} {bytes : List Byte} (small : bytes.length ≤ maxLength) :
    ∃ b' value, b.growFront bytes = .ok b' ∧
      b'.list.nodes = ⟨b.list.fresh, value⟩ :: b.list.nodes ∧
      b'.firstWithData = b'.list.start ∧ b'.lastWithData = b.lastWithData ∧
      b'.readableBytes = b.readableBytes + bytes.length ∧
      value.data = bytes ∧ value.write = value.capacity := by
  obtain ⟨empty, hEmpty, covers, _readZero, _writeZero⟩ := DataBlock.ofLength_spec _ small
  obtain ⟨value, hValue, dataEq, _capacityEq, full⟩ := empty.storeAtEnd_spec bytes covers
  refine
    ⟨{ list := b.list.pushFront value
       firstWithData := (b.list.pushFront value).start
       lastWithData := b.lastWithData
       readableBytes := b.readableBytes + bytes.length
       capacity := b.capacity + empty.capacity },
      value, ?_, rfl, rfl, rfl, rfl, dataEq, full⟩
  simp only [growFront, hEmpty, ok_bind, hValue]
  rfl

/-- A new block in front of blocks that are all read from their start. -/
theorem prepend_grows {b : Buffer} {front spare : List (Node DataBlock)}
    {last : Node DataBlock} (bytes : List Byte) (small : bytes.length ≤ maxLength)
    (blocks : b.list.nodes = front ++ last :: spare) (lastAt : b.lastWithData = .node last.address)
    (layout : Layout front last spare)
    (atStart : ∀ node ∈ front ++ [last], node.value.read = 0)
    (readable : b.readableBytes = (bytesOf (front ++ [last])).length) :
    ∃ b', b.growFront bytes = .ok b' ∧
      Represents b' (bytes ++ bytesOf (front ++ [last])) := by
  obtain ⟨b', value, hGrown, nodesEq, firstEq, lastEq, readableEq, dataEq, full⟩ :=
    growFront_spec (b := b) small
  refine ⟨b', hGrown, .occupied (⟨b.list.fresh, value⟩ :: front) last spare ?_ firstEq
    (lastEq.trans lastAt) ?_ (by simp [dataEq]) ?_⟩
  · rw [nodesEq, blocks]
    rfl
  · exact
      { full := by
          intro node member
          rcases List.mem_cons.mp member with rfl | old
          · exact full
          · exact layout.full node old
        unshifted := atStart
        unused := layout.unused }
  · rw [readableEq, readable, List.length_append]
    omega

/-- Replacing the first block by one that holds more in front. -/
theorem replace_first {front spare rest : List (Node DataBlock)} {last head : Node DataBlock}
    (layout : Layout front last spare) (headed : front ++ [last] = head :: rest)
    (value : DataBlock) (full : head.value.write = head.value.capacity →
      value.write = value.capacity) :
    ∃ front' last', front' ++ [last'] = ⟨head.address, value⟩ :: rest ∧
      last'.address = last.address ∧ Layout front' last' spare := by
  cases front with
  | nil =>
      obtain ⟨rfl, rfl⟩ : last = head ∧ rest = [] := by simpa using headed
      refine ⟨[], ⟨last.address, value⟩, rfl, rfl, ?_⟩
      exact
        { full := layout.full
          unshifted := by intro node member; simp at member
          unused := layout.unused }
  | cons node others =>
      obtain ⟨rfl, rfl⟩ : node = head ∧ others ++ [last] = rest := by simpa using headed
      refine ⟨⟨node.address, value⟩ :: others, last, rfl, rfl, ?_⟩
      exact
        { full := by
            intro other member
            rcases List.mem_cons.mp member with rfl | old
            · exact full (layout.full node List.mem_cons_self)
            · exact layout.full other (List.mem_cons_of_mem _ old)
          unshifted := layout.unshifted
          unused := layout.unused }

/-- Storing in front of the first block's readable bytes. -/
theorem prepend_stores {b : Buffer} {front spare rest : List (Node DataBlock)}
    {last head : Node DataBlock} {bytes : List Byte}
    (blocks : b.list.nodes = [] ++ head :: (rest ++ spare))
    (lastAt : b.lastWithData = .node last.address)
    (layout : Layout front last spare) (headed : front ++ [last] = head :: rest)
    (readable : b.readableBytes = (bytesOf (front ++ [last])).length)
    (room : bytes.length ≤ head.value.prependableBytes) :
    ∃ stored front' last', head.value.storeBefore bytes = .ok stored ∧
      (bytes.length = head.value.prependableBytes → stored.read = 0) ∧
      front' ++ [last'] = ⟨head.address, stored⟩ :: rest ∧
      (b.writeBlock (.node head.address) stored
        (b.readableBytes + bytes.length)).list.nodes = front' ++ last' :: spare ∧
      b.lastWithData = .node last'.address ∧ Layout front' last' spare ∧
      bytesOf (front' ++ [last']) = bytes ++ bytesOf (front ++ [last]) ∧
      b.readableBytes + bytes.length = (bytesOf (front' ++ [last'])).length := by
  obtain ⟨stored, hStored, dataEq, _capacityEq, full, exhausted⟩ :=
    head.value.storeBefore_spec bytes room
  obtain ⟨front', last', joined, sameAddress, layout'⟩ :=
    replace_first layout headed stored full
  have held : bytesOf (front' ++ [last']) = bytes ++ bytesOf (front ++ [last]) := by
    rw [joined, headed, bytesOf_cons, bytesOf_cons, dataEq, List.append_assoc]
  refine ⟨stored, front', last', hStored, exhausted, joined, ?_, ?_, layout', held, ?_⟩
  · have regrouped : front' ++ last' :: spare = (front' ++ [last']) ++ spare := by simp
    rw [writeBlock_nodes blocks, regrouped, joined]
    rfl
  · rw [lastAt, sameAddress]
  · rw [readable, held, List.length_append]
    omega

/-- The first block of a represented Buffer. -/
theorem first_block {b : Buffer} {front spare : List (Node DataBlock)} {last : Node DataBlock}
    (blocks : b.list.nodes = front ++ last :: spare)
    (first : b.firstWithData = b.list.start) (layout : Layout front last spare) :
    ∃ head rest, front ++ [last] = head :: rest ∧
      b.list.nodes = [] ++ head :: (rest ++ spare) ∧
      b.firstWithData = .node head.address ∧ ∀ node ∈ rest, node.value.read = 0 := by
  obtain ⟨head, rest, headed⟩ : ∃ head rest, front ++ [last] = head :: rest := by
    cases front with
    | nil =>
        exact ⟨last, [], rfl⟩
    | cons node others =>
        exact ⟨node, others ++ [last], rfl⟩
  have regrouped : b.list.nodes = [] ++ head :: (rest ++ spare) := by
    have joined : front ++ last :: spare = (front ++ [last]) ++ spare := by simp
    rw [blocks, joined, headed]
    rfl
  refine ⟨head, rest, headed, regrouped, ?_, ?_⟩
  · rw [first, Chain.start, regrouped]
    rfl
  · intro node member
    apply layout.unshifted node
    rw [headed]
    exact member

/-- Reading from the start of the first block as well. -/
theorem all_unshifted {nodes rest : List (Node DataBlock)} {head : Node DataBlock}
    (headed : nodes = head :: rest) (readZero : head.value.read = 0)
    (tailStart : ∀ node ∈ rest, node.value.read = 0) :
    ∀ node ∈ nodes, node.value.read = 0 := by
  rw [headed]
  intro node member
  rcases List.mem_cons.mp member with rfl | inRest
  · exact readZero
  · exact tailStart node inRest

theorem prepend_occupied {b : Buffer} {front spare : List (Node DataBlock)}
    {last : Node DataBlock} {bytes : List Byte} (small : bytes.length ≤ maxLength)
    (blocks : b.list.nodes = front ++ last :: spare)
    (first : b.firstWithData = b.list.start) (lastAt : b.lastWithData = .node last.address)
    (layout : Layout front last spare)
    (readable : b.readableBytes = (bytesOf (front ++ [last])).length) :
    ∃ b', b.prepend bytes = .ok b' ∧
      Represents b' (bytes ++ bytesOf (front ++ [last])) := by
  obtain ⟨head, rest, headed, regrouped, firstAt, tailStart⟩ :=
    first_block blocks first layout
  have notPast : (.node head.address : Position) ≠ b.list.past := Position.noConfusion
  have reached : b.block (.node head.address) = .ok head.value :=
    block_node regrouped
  by_cases fits : bytes.length ≤ head.value.prependableBytes
  · obtain ⟨stored, front', last', hStored, _atStart, _joined, nodesEq, lastEq, layout',
      held, counted⟩ := prepend_stores regrouped lastAt layout headed readable fits
    refine ⟨b.writeBlock (.node head.address) stored (b.readableBytes + bytes.length), ?_,
      .occupied front' last' spare nodesEq ?_ ?_ layout' held.symm ?_⟩
    · simp only [prepend, prependRounds, firstAt, if_neg notPast, reached, ok_bind,
        if_pos fits, hStored]
      rfl
    · rw [writeBlock_firstWithData, writeBlock_start, first]
    · rw [writeBlock_lastWithData, lastEq]
    · rw [writeBlock_readableBytes, counted, held]
  · by_cases some : 0 < head.value.prependableBytes
    · -- the first block takes the end of the bytes, a new block the rest
      have suffixLength :
          (bytes.drop (bytes.length - head.value.prependableBytes)).length =
            head.value.prependableBytes := by
        rw [List.length_drop]
        omega
      obtain ⟨stored, front', last', hStored, atStart, joined, nodesEq, lastEq, layout',
        held, counted⟩ :=
        prepend_stores regrouped lastAt layout headed readable (Nat.le_of_eq suffixLength)
      have noSpace : stored.prependableBytes = 0 := atStart suffixLength
      rw [suffixLength] at counted nodesEq
      obtain ⟨b', hGrown, represents⟩ := prepend_grows
        (bytes.take (bytes.length - head.value.prependableBytes))
        (by rw [List.length_take]; omega) nodesEq
        (by rw [writeBlock_lastWithData, lastEq]) layout'
        (all_unshifted joined noSpace tailStart) counted
      have reachedStored := block_node (writeBlock_nodes regrouped stored
        (b.readableBytes + head.value.prependableBytes))
      have stillLong : ¬(bytes.take (bytes.length - head.value.prependableBytes)).length ≤ 0 := by
        rw [List.length_take]
        omega
      refine ⟨b', ?_, ?_⟩
      · simp only [prepend, prependRounds, firstAt, if_neg notPast, reached, ok_bind,
          if_neg fits, if_pos some, hStored, writeBlock_firstWithData, writeBlock_past,
          reachedStored, noSpace, if_neg stillLong, if_neg (Nat.lt_irrefl 0), hGrown]
      · rw [held, ← List.append_assoc, List.take_append_drop] at represents
        exact represents
    · have readZero : head.value.read = 0 := by
        unfold DataBlock.prependableBytes at some
        omega
      obtain ⟨b', hGrown, represents⟩ := prepend_grows bytes small blocks lastAt layout
        (all_unshifted headed readZero tailStart) readable
      refine ⟨b', ?_, represents⟩
      simp only [prepend, prependRounds, firstAt, if_neg notPast, reached, ok_bind,
        if_neg fits, if_neg some, hGrown]

theorem prepend_vacant {b : Buffer} {bytes : List Byte} (small : bytes.length ≤ maxLength)
    (noBlocks : b.list.nodes = []) (first : b.firstWithData = b.list.past)
    (readable : b.readableBytes = 0) :
    ∃ b', b.prepend bytes = .ok b' ∧ Represents b' bytes := by
  obtain ⟨grown, value, hGrown, nodesEq, firstEq, _lastEq, readableEq, dataEq, _full⟩ :=
    growFront_spec (b := b) small
  refine ⟨{ grown with lastWithData := grown.firstWithData }, ?_,
    .occupied [] ⟨b.list.fresh, value⟩ [] ?_ firstEq ?_ ?_ (by simp [dataEq]) ?_⟩
  · simp only [prepend, prependRounds, if_pos first, hGrown, ok_bind]
    rfl
  · rw [nodesEq, noBlocks]
    rfl
  · simp only [firstEq, Chain.start, nodesEq, LinkedList.first]
  · exact
      { full := by intro node member; cases member
        unshifted := by intro node member; simp at member
        unused := by intro node member; cases member }
  · rw [readableEq, readable, Nat.zero_add]

theorem prepend_spec {b : Buffer} {content : List Byte}
    (represents : Represents b content) (bytes : List Byte) (small : bytes.length ≤ maxLength) :
    ∃ b', b.prepend bytes = .ok b' ∧ Represents b' (bytes ++ content) := by
  cases represents with
  | vacant noBlocks first last readable empty =>
      subst empty
      rw [List.append_nil]
      exact prepend_vacant small noBlocks first readable
  | occupied front last spare blocks first lastAt layout held readable =>
      subst held
      exact prepend_occupied small blocks first lastAt layout readable

end Buffer

end Uvcpp
