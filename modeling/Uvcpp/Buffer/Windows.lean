/-
Writing through windows: `next`, the bytes its caller writes, `extend`, and the
taking back of written bytes by `unwrite`.
-/

import Uvcpp.Buffer.Appending

namespace Uvcpp

open LinkedList

/-- The state directly after `next`: the window is the free space of the last
used block or, when that is full, of the spare block behind it. -/
inductive Offers (b : Buffer) (window : Window) (content : List Byte) : Prop where
  | inLast (front : List (Node DataBlock)) (last : Node DataBlock)
      (spare : List (Node DataBlock))
      (blocks : b.list.nodes = front ++ last :: spare)
      (first : b.firstWithData = b.list.start)
      (lastAt : b.lastWithData = .node last.address)
      (layout : Layout front last spare)
      (held : content = bytesOf (front ++ [last]))
      (readable : b.readableBytes = content.length)
      (free : 0 < last.value.writeableBytes)
      (here : window = ⟨last.address, last.value.write, last.value.writeableBytes⟩)
  | inSpare (front : List (Node DataBlock)) (last next : Node DataBlock)
      (rest : List (Node DataBlock))
      (blocks : b.list.nodes = front ++ last :: next :: rest)
      (first : b.firstWithData = b.list.start)
      (lastAt : b.lastWithData = .node last.address)
      (layout : Layout front last (next :: rest))
      (held : content = bytesOf (front ++ [last]))
      (readable : b.readableBytes = content.length)
      (full : last.value.writeableBytes = 0)
      (here : window = ⟨next.address, next.value.write, next.value.writeableBytes⟩)

theorem Offers.represents {b : Buffer} {window : Window} {content : List Byte}
    (offers : Offers b window content) : Represents b content := by
  cases offers with
  | inLast front last spare blocks first lastAt layout held readable free here =>
      exact .occupied front last spare blocks first lastAt layout held readable
  | inSpare front last next rest blocks first lastAt layout held readable full here =>
      exact .occupied front last (next :: rest) blocks first lastAt layout held readable

theorem DataBlock.writeable_of_unwritten {block : DataBlock} (writeZero : block.write = 0) :
    0 < block.writeableBytes := by
  have positive := block.capacity_pos
  unfold DataBlock.writeableBytes
  unfold DataBlock.capacity at positive
  omega

/-- A new block is all free space. -/
theorem DataBlock.ofLength_free {len size : Nat} {block : DataBlock}
    (hSize : growSize len 64 minBufferSize = .ok size)
    (hBlock : DataBlock.ofLength len = .ok block) : block.writeableBytes = size := by
  simp only [DataBlock.ofLength, hSize, ok_bind] at hBlock
  split at hBlock
  · rw [← Except.ok.inj hBlock, DataBlock.writeableBytes, DataBlock.place_buffer,
      (DataBlock.place_at_start rfl).2, List.length_replicate]
    rfl
  · cases hBlock

theorem Offers.length_pos {b : Buffer} {window : Window} {content : List Byte}
    (offers : Offers b window content) : 0 < window.length := by
  cases offers with
  | inLast front last spare blocks first lastAt layout held readable free here =>
      rw [here]
      exact free
  | inSpare front last next rest blocks first lastAt layout held readable full here =>
      rw [here]
      exact DataBlock.writeable_of_unwritten (layout.unused next List.mem_cons_self).2

namespace Buffer

/-- The free space that `next` hands out: that of the last used block, moved together when
that pays, or of the block behind it. -/
def freeSpace (b : Buffer) : Nat :=
  match b.block b.lastWithData with
  | .ok last =>
      if last.writeableBytes = 0 then
        match b.advance b.lastWithData >>= b.block with
        | .ok spare => spare.writeableBytes
        | .error _ => minBufferSize
      else if last.capacity / 2 ≤ last.prependableBytes then last.totalSpace
      else last.writeableBytes
  | .error _ => minBufferSize

/-! ### Handing out a window -/

private theorem next_eq {b b' : Buffer} {front spare : List (Node DataBlock)}
    {node : Node DataBlock} (blocks : b'.list.nodes = front ++ node :: spare)
    (chosen : b.nextBlock = .ok (b', .node node.address)) :
    b.next = .ok (b', ⟨node.address, node.value.write, node.value.writeableBytes⟩) := by
  unfold next
  rw [chosen]
  simp only [ok_bind, block_node blocks]
  rfl

/-- The block that `growBack` adds is a new one. -/
theorem growBack_value {b b' : Buffer} {len : Nat} {node : Node DataBlock}
    (hGrown : b.growBack len = .ok b') (nodesEq : b'.list.nodes = b.list.nodes ++ [node]) :
    DataBlock.ofLength len = .ok node.value := by
  unfold growBack at hGrown
  obtain ⟨value, hValue, hGrown⟩ := ok_of_bind hGrown
  obtain ⟨last, _last, hGrown⟩ := ok_of_bind hGrown
  cases hGrown
  rw [Chain.nodes_pushBack] at nodesEq
  have same := List.append_cancel_left nodesEq
  rw [hValue, ← (List.cons.inj same).1]

theorem next_vacant {b : Buffer} (noBlocks : b.list.nodes = [])
    (first : b.firstWithData = b.list.past) (last : b.lastWithData = b.list.past)
    (readable : b.readableBytes = 0) :
    ∃ b' window, b.next = .ok (b', window) ∧ Offers b' window [] ∧
      window.length = b.freeSpace := by
  obtain ⟨grown, value, hGrown, nodesEq, firstEq, lastEq, readableEq, _covers, readZero,
    writeZero⟩ := growBack_spec (b := b) minBufferSize (by decide)
      (by rw [first, Chain.start, noBlocks]; rfl)
  have smallest := DataBlock.ofLength_free rfl (growBack_value hGrown nodesEq)
  have noLast : b.block b.lastWithData = .error .badIterator := by
    rw [block, last, Chain.value?, Chain.walk_past]
    rfl
  rw [noBlocks] at nodesEq
  have noData : value.data = [] := by
    rw [DataBlock.data_eq_nil_iff, readZero, writeZero]
  refine ⟨grown, _, next_eq nodesEq ?_, .inLast [] ⟨b.list.fresh, value⟩ []
    nodesEq firstEq lastEq ?_ (by simp [noData]) (by rw [readableEq, readable]; rfl)
    (DataBlock.writeable_of_unwritten writeZero) rfl, ?_⟩
  · simp only [nextBlock, if_pos last, hGrown, ok_bind, lastEq]
    rfl
  · exact
      { full := List.forall_mem_nil _
        unshifted := List.forall_mem_nil _
        unused := List.forall_mem_nil _ }
  · rw [freeSpace, noLast]
    exact smallest

theorem next_occupied {b : Buffer} {front spare : List (Node DataBlock)}
    {last : Node DataBlock} (blocks : b.list.nodes = front ++ last :: spare)
    (first : b.firstWithData = b.list.start) (lastAt : b.lastWithData = .node last.address)
    (layout : Layout front last spare)
    (readable : b.readableBytes = (bytesOf (front ++ [last])).length) :
    ∃ b' window, b.next = .ok (b', window) ∧
      Offers b' window (bytesOf (front ++ [last])) ∧ window.length = b.freeSpace := by
  have notPast : (.node last.address : Position) ≠ b.list.past := Position.noConfusion
  have reached := block_node blocks
  have moved := advance_node blocks
  by_cases full : last.value.writeableBytes = 0
  · cases spare with
    | cons next rest =>
        have nextNode : b.list.nodes = (front ++ [last]) ++ next :: rest := by
          rw [blocks]
          simp
        have notEnd : (.node next.address : Position) ≠ b.list.past := Position.noConfusion
        refine ⟨b, _, next_eq nextNode ?_, .inSpare front last next rest blocks first lastAt
          layout rfl readable full rfl, ?_⟩
        · simp only [nextBlock, lastAt, if_neg notPast, reached, ok_bind, if_pos full, moved,
            LinkedList.first, if_neg notEnd]
          rfl
        · simp only [freeSpace, lastAt, reached, if_pos full, moved, ok_bind, LinkedList.first,
            block_node nextNode]
    | nil =>
        obtain ⟨value, hValue, _covers, readZero, writeZero⟩ :=
          DataBlock.ofLength_spec minBufferSize (by decide)
        have grownNodes : (b.list.pushBack value).nodes =
            front ++ last :: [⟨b.list.fresh, value⟩] := by
          rw [Chain.nodes_pushBack, blocks]
          simp
        have newNode : (b.list.pushBack value).nodes =
            (front ++ [last]) ++ ⟨b.list.fresh, value⟩ :: [] := by
          rw [grownNodes]
          simp
        refine ⟨{ b with
            list := b.list.pushBack value
            capacity := b.capacity + value.capacity }, _, next_eq newNode ?_,
          .inSpare front last ⟨b.list.fresh, value⟩ [] grownNodes ?_ lastAt ?_ rfl readable
            full rfl, ?_⟩
        · simp only [nextBlock, lastAt, if_neg notPast, reached, ok_bind, if_pos full, moved,
            LinkedList.first, hValue, Chain.before?_pushBack, orBadIterator, if_true]
          rfl
        · have some : b.list.nodes ≠ [] := by simp [blocks]
          rw [Chain.start_pushBack, first]
          exact first_of_ne_nil _ _ some
        · exact
            { full := layout.full
              unshifted := layout.unshifted
              unused := by
                intro node member
                rw [List.mem_singleton.mp member]
                exact ⟨readZero, writeZero⟩ }
        · have noNext : b.block b.list.past = .error .badIterator := by
            rw [block, Chain.value?, Chain.walk_past]
            rfl
          simp only [freeSpace, lastAt, reached, if_pos full, moved, ok_bind, LinkedList.first,
            noNext]
          exact DataBlock.ofLength_free rfl hValue
  · by_cases half : last.value.capacity / 2 ≤ last.value.prependableBytes
    · obtain ⟨aligned, hAligned, dataEq, _capacityEq, readZero, space⟩ :=
        last.value.realign_spec
      have nodesEq := writeBlock_nodes blocks aligned b.readableBytes
      have sameData : bytesOf (front ++ [last]) =
          bytesOf (front ++ [(⟨last.address, aligned⟩ : Node DataBlock)]) := by
        simp [dataEq]
      refine ⟨b.writeBlock (.node last.address) aligned b.readableBytes, _,
        next_eq nodesEq ?_, .inLast front ⟨last.address, aligned⟩ spare nodesEq ?_ ?_
          (layout.replace_last fun _ => readZero) sameData readable ?_ rfl, ?_⟩
      · simp only [nextBlock, lastAt, if_neg notPast, reached, ok_bind, if_neg full,
          if_pos half, hAligned]
        rfl
      · rw [writeBlock_firstWithData, writeBlock_start, first]
      · rw [writeBlock_lastWithData, lastAt]
      · rw [space]
        unfold DataBlock.totalSpace
        omega
      · simp only [freeSpace, lastAt, reached, if_neg full, if_pos half, space]
    · refine ⟨b, _, next_eq blocks ?_, .inLast front last spare blocks first lastAt layout
        rfl readable (Nat.pos_of_ne_zero full) rfl, ?_⟩
      · simp only [nextBlock, lastAt, if_neg notPast, reached, ok_bind, if_neg full,
          if_neg half]
        rfl
      · simp only [freeSpace, lastAt, reached, if_neg full, if_neg half]

/-- What `next` hands out, and how much of it. -/
theorem next_offers {b : Buffer} {content : List Byte} (represents : Represents b content) :
    ∃ b' window, b.next = .ok (b', window) ∧ Offers b' window content ∧
      window.length = b.freeSpace := by
  cases represents with
  | vacant noBlocks first last readable empty =>
      subst empty
      exact next_vacant noBlocks first last readable
  | occupied front last spare blocks first lastAt layout held readable =>
      subst held
      exact next_occupied blocks first lastAt layout readable

theorem next_spec {b : Buffer} {content : List Byte} (represents : Represents b content) :
    ∃ b' window, b.next = .ok (b', window) ∧ Offers b' window content := by
  obtain ⟨b', window, hNext, offers, _length⟩ := next_offers represents
  exact ⟨b', window, hNext, offers⟩

/-! ### Committing written bytes -/

/-- Writing into the free space and advancing the write position afterwards is
the same as storing. -/
private theorem memcpy_then_set (block : DataBlock) {bytes : List Byte}
    (room : bytes.length ≤ block.writeableBytes) :
    ∃ copied stored, block.memcpy block.write bytes = .ok copied ∧
      copied.setWritePosition (copied.write + bytes.length) = .ok stored ∧
      copied.writeableBytes = block.writeableBytes ∧ stored.data = block.data ++ bytes ∧
      (block.read = 0 → stored.read = 0) := by
  have fits := block.fits
  obtain ⟨stored, hStored, dataEq, _capacityEq, _full, unshifted⟩ := block.store_spec bytes room
  have inRange : block.write + bytes.length ≤ block.buffer.length := by
    unfold DataBlock.writeableBytes at room
    omega
  obtain ⟨copied, hCopied, _bufferEq, capacityEq, _readEq, writeEq⟩ :=
    block.memcpy_spec _ bytes inRange
  unfold DataBlock.store at hStored
  rw [hCopied, ok_bind] at hStored
  refine ⟨copied, stored, hCopied, by rw [writeEq, hStored], ?_, dataEq, unshifted⟩
  unfold DataBlock.writeableBytes
  unfold DataBlock.capacity at capacityEq
  rw [capacityEq, writeEq]

/-- The block a window lies in.  A Buffer that differs in that block only is extended there,
and stands for more once the block holds more. -/
structure Target (b : Buffer) (window : Window) (content : List Byte)
    (before : List (Node DataBlock)) (node : Node DataBlock) (after : List (Node DataBlock)) :
    Prop where
  blocks : b.list.nodes = before ++ node :: after
  here : window = ⟨node.address, node.value.write, node.value.writeableBytes⟩
  reaches : ∀ (other : Buffer) (value : DataBlock),
    other.list.nodes = before ++ ⟨node.address, value⟩ :: after →
      other.lastWithData = b.lastWithData → value.writeableBytes = node.value.writeableBytes →
        other.extendPosition = .ok (.node node.address)
  commits : ∀ (b' : Buffer) (stored : DataBlock) (bytes : List Byte),
    b'.list.nodes = before ++ ⟨node.address, stored⟩ :: after → b'.list.start = b.list.start →
      b'.firstWithData = b.firstWithData → b'.lastWithData = .node node.address →
        b'.readableBytes = b.readableBytes + bytes.length →
          stored.data = node.value.data ++ bytes → (node.value.read = 0 → stored.read = 0) →
            Represents b' (content ++ bytes)

theorem offers_target {b : Buffer} {window : Window} {content : List Byte}
    (offers : Offers b window content) :
    ∃ before node after, Target b window content before node after := by
  cases offers with
  | inLast front last spare blocks first lastAt layout held readable free here =>
      subst held
      refine ⟨front, last, spare, blocks, here, ?_, ?_⟩
      · intro other value otherNodes sameLast sameSpace
        have reached := block_node otherNodes
        have notFull : value.writeableBytes ≠ 0 := by omega
        unfold extendPosition
        rw [sameLast, lastAt, reached, ok_bind, if_neg notFull]
      · intro b' stored bytes nodesEq startEq firstEq lastEq readableEq dataEq unshifted
        refine .occupied front ⟨last.address, stored⟩ spare nodesEq
          (by rw [firstEq, startEq, first]) lastEq (layout.replace_last unshifted)
          (by simp [dataEq]) ?_
        rw [readableEq, readable, List.length_append]
  | inSpare front last next rest blocks first lastAt layout held readable full here =>
      subst held
      have fits := last.value.fits
      have atEnd : last.value.write = last.value.capacity := by
        unfold DataBlock.writeableBytes at full
        unfold DataBlock.capacity
        omega
      obtain ⟨readZero, writeZero⟩ := layout.unused next List.mem_cons_self
      have noData : next.value.data = [] := by
        rw [DataBlock.data_eq_nil_iff, readZero, writeZero]
      have nextNode : b.list.nodes = (front ++ [last]) ++ next :: rest := by
        rw [blocks]
        simp
      refine ⟨front ++ [last], next, rest, nextNode, here, ?_, ?_⟩
      · intro other value otherNodes sameLast _sameSpace
        have split : other.list.nodes = front ++ last :: (⟨next.address, value⟩ :: rest) := by
          rw [otherNodes]
          simp
        unfold extendPosition
        rw [sameLast, lastAt, block_node split, ok_bind, if_pos full, advance_node split]
        rfl
      · intro b' stored bytes nodesEq startEq firstEq lastEq readableEq dataEq unshifted
        have storedStart : (⟨next.address, stored⟩ : Node DataBlock).value.read = 0 :=
          unshifted readZero
        refine .occupied (front ++ [last]) ⟨next.address, stored⟩ rest nodesEq
          (by rw [firstEq, startEq, first]) lastEq
          ((layout.advance atEnd fun same => same).replace_last fun _ => storedStart)
          (by simp [dataEq, noData]) ?_
        rw [readableEq, readable, List.length_append]

theorem extend_spec {b : Buffer} {window : Window} {content bytes : List Byte}
    (offers : Offers b window content) (room : bytes.length ≤ window.length) :
    ∃ filled b', b.fillWindow window bytes = .ok filled ∧
      filled.extend bytes.length = .ok b' ∧ Represents b' (content ++ bytes) := by
  obtain ⟨before, node, after, target⟩ := offers_target offers
  rw [target.here] at room ⊢
  obtain ⟨copied, stored, hCopied, hStored, sameSpace, dataEq, unshifted⟩ :=
    memcpy_then_set node.value room
  have filledNodes := writeBlock_nodes target.blocks copied b.readableBytes
  have position := target.reaches (b.writeBlock (.node node.address) copied b.readableBytes)
    copied filledNodes (writeBlock_lastWithData ..) sameSpace
  have reached := block_node filledNodes
  let written : Buffer :=
    { (b.writeBlock (.node node.address) copied b.readableBytes).writeBlock
        (.node node.address) stored (b.readableBytes + bytes.length) with
      lastWithData := .node node.address }
  have writtenNodes : written.list.nodes = before ++ ⟨node.address, stored⟩ :: after :=
    writeBlock_nodes filledNodes stored 0
  refine ⟨b.writeBlock (.node node.address) copied b.readableBytes, written, ?_, ?_, ?_⟩
  · unfold fillWindow
    simp only [block_node target.blocks, ok_bind, hCopied]
    rfl
  · unfold extend
    simp only [position, ok_bind, reached, hStored]
    rfl
  · apply target.commits written stored bytes writtenNodes _ rfl rfl rfl dataEq unshifted
    exact (writeBlock_start _ (.node node.address) stored 0).trans
      (writeBlock_start b (.node node.address) copied 0)

/-- Bytes that are written into a window and not committed are not part of the content. -/
theorem fill_spec {b : Buffer} {window : Window} {content bytes : List Byte}
    (offers : Offers b window content) (room : bytes.length ≤ window.length) :
    ∃ filled, b.fillWindow window bytes = .ok filled ∧ Represents filled content := by
  have fill {before after : List (Node DataBlock)} {node : Node DataBlock}
      (blocks : b.list.nodes = before ++ node :: after)
      (here : window = ⟨node.address, node.value.write, node.value.writeableBytes⟩) :
      ∃ copied, b.fillWindow window bytes =
          .ok (b.writeBlock (.node node.address) copied b.readableBytes) ∧
        copied.data = node.value.data ∧ copied.read = node.value.read ∧
          copied.write = node.value.write := by
    rw [here] at room ⊢
    have inRange : node.value.write + bytes.length ≤ node.value.buffer.length := by
      have fits := node.value.fits
      unfold DataBlock.writeableBytes at room
      dsimp only at room
      omega
    obtain ⟨copied, hCopied, bufferEq, _capacity, readEq, writeEq⟩ :=
      node.value.memcpy_spec _ bytes inRange
    refine ⟨copied, ?_, ?_, readEq, writeEq⟩
    · unfold fillWindow
      simp only [block_node blocks, ok_bind, hCopied]
      rfl
    · rw [DataBlock.data, bufferEq, readEq, writeEq,
        Region.window_overwrite_before inRange (Nat.le_refl _), DataBlock.data]
  cases offers with
  | inLast front last spare blocks first lastAt layout held readable free here =>
      obtain ⟨copied, hFill, dataEq, readEq, _writeEq⟩ := fill blocks here
      refine ⟨_, hFill, ?_⟩
      have same : content = bytesOf front ++ copied.data := by
        rw [held, dataEq]
        simp
      rw [same, ← lastAt]
      apply Represents.store_last blocks first lastAt layout copied
        (fun start => readEq.trans start)
      rw [readable, same]
  | inSpare front last next rest blocks first lastAt layout held readable full here =>
      have nextNode : b.list.nodes = (front ++ [last]) ++ next :: rest := by
        rw [blocks]
        simp
      obtain ⟨copied, hFill, _dataEq, readEq, writeEq⟩ := fill nextNode here
      have nodesEq := writeBlock_nodes nextNode copied b.readableBytes
      rw [List.append_assoc, List.singleton_append] at nodesEq
      refine ⟨_, hFill, .occupied front last (⟨next.address, copied⟩ :: rest) nodesEq ?_ ?_ ?_
        held readable⟩
      · rw [writeBlock_firstWithData, writeBlock_start, first]
      · rw [writeBlock_lastWithData, lastAt]
      · exact
          { full := layout.full
            unshifted := layout.unshifted
            unused := by
              intro node member
              rcases List.mem_cons.mp member with rfl | later
              · have unused := layout.unused next List.mem_cons_self
                exact ⟨readEq.trans unused.1, writeEq.trans unused.2⟩
              · exact layout.unused node (List.mem_cons_of_mem _ later) }

/-- Advancing the write position to the end of the block and writing the bytes afterwards
is the same as storing them. -/
private theorem set_then_memcpy (block : DataBlock) {bytes : List Byte}
    (whole : bytes.length = block.writeableBytes) :
    ∃ committed stored, block.setWritePosition (block.write + block.writeableBytes) =
        .ok committed ∧ committed.memcpy block.write bytes = .ok stored ∧
      stored.data = block.data ++ bytes ∧ stored.read = block.read := by
  have ordered := block.ordered
  have fits := block.fits
  have atEnd : block.write + block.writeableBytes = block.buffer.length := by
    unfold DataBlock.writeableBytes
    omega
  rw [atEnd]
  obtain ⟨committed, hCommitted, _dataEq, bufferEq, full, _atStart⟩ :=
    block.setWritePosition_spec block.buffer.length ⟨by omega, Nat.le_refl _⟩
  obtain ⟨written, kept⟩ := full rfl
  have room : block.write + bytes.length ≤ committed.buffer.length := by
    rw [bufferEq]
    omega
  obtain ⟨stored, hStored, overwritten, _capacity, readEq, writeEq⟩ :=
    committed.memcpy_spec _ bytes room
  refine ⟨committed, stored, hCommitted, hStored, ?_, by rw [readEq, kept]⟩
  have writtenTo : stored.write = block.write + bytes.length := by
    rw [writeEq, written, DataBlock.capacity, bufferEq]
    omega
  rw [DataBlock.data, overwritten, writtenTo, readEq, kept,
    Region.window_overwrite_left room ordered, bufferEq, DataBlock.data]

/-- A whole window that is extended over before its bytes are written. -/
theorem extend_fill_spec {b : Buffer} {window : Window} {content bytes : List Byte}
    (offers : Offers b window content) (whole : bytes.length = window.length) :
    ∃ extended b', b.extend window.length = .ok extended ∧
      extended.fillWindow window bytes = .ok b' ∧ Represents b' (content ++ bytes) ∧
        ∃ value, b'.block b'.lastWithData = .ok value ∧ bytes.length ≤ value.readableBytes := by
  obtain ⟨before, node, after, target⟩ := offers_target offers
  rw [target.here] at whole ⊢
  obtain ⟨committed, stored, hCommitted, hStored, dataEq, readEq⟩ :=
    set_then_memcpy node.value whole
  have position := target.reaches b node.value target.blocks rfl rfl
  let extended : Buffer :=
    { b.writeBlock (.node node.address) committed (b.readableBytes + node.value.writeableBytes)
      with lastWithData := .node node.address }
  have extendedNodes : extended.list.nodes = before ++ ⟨node.address, committed⟩ :: after :=
    writeBlock_nodes target.blocks committed 0
  have reached : extended.block (.node node.address) = .ok committed := block_node extendedNodes
  have storedNodes := writeBlock_nodes extendedNodes stored extended.readableBytes
  refine ⟨extended, extended.writeBlock (.node node.address) stored extended.readableBytes,
    ?_, ?_, ?_, stored, block_node storedNodes, ?_⟩
  · unfold extend
    simp only [position, ok_bind, block_node target.blocks, hCommitted]
    rfl
  · unfold fillWindow
    simp only [reached, ok_bind, hStored]
    rfl
  · apply target.commits _ stored bytes storedNodes _ rfl rfl _ dataEq
    · exact fun start => readEq.trans start
    · exact (writeBlock_start extended (.node node.address) stored 0).trans
        (writeBlock_start b (.node node.address) committed 0)
    · rw [whole]
      rfl
  · rw [← DataBlock.data_length, dataEq, List.length_append]
    omega

theorem extend_readable {b b' : Buffer} {len : Nat} (hExtend : b.extend len = .ok b') :
    b'.readableBytes = b.readableBytes + len := by
  unfold extend at hExtend
  obtain ⟨position, _position, hExtend⟩ := ok_of_bind hExtend
  obtain ⟨value, _value, hExtend⟩ := ok_of_bind hExtend
  obtain ⟨written, _written, hExtend⟩ := ok_of_bind hExtend
  cases hExtend
  rfl

theorem fillWindow_readable {b b' : Buffer} {window : Window} {bytes : List Byte}
    (hFill : b.fillWindow window bytes = .ok b') : b'.readableBytes = b.readableBytes := by
  unfold fillWindow at hFill
  obtain ⟨value, _value, hFill⟩ := ok_of_bind hFill
  obtain ⟨filled, _filled, hFill⟩ := ok_of_bind hFill
  cases hFill
  rfl

/-! ### Taking bytes back -/

theorem unwrite_spec {b : Buffer} {content : List Byte} (represents : Represents b content)
    {value : DataBlock} (reached : b.block b.lastWithData = .ok value) {len : Nat}
    (enough : len ≤ value.readableBytes) :
    ∃ b', b.unwrite len = .ok b' ∧ Represents b' (content.take (content.length - len)) := by
  cases represents with
  | vacant noBlocks first last readable empty =>
      rw [last, block, Chain.value?, Chain.walk_past] at reached
      cases reached
  | occupied front last spare blocks first lastAt layout held readable =>
      subst held
      obtain rfl : last.value = value := by
        rw [lastAt, block_node blocks] at reached
        exact Except.ok.inj reached
      have ordered := last.value.ordered
      have fits := last.value.fits
      have dataLength : last.value.data.length = last.value.write - last.value.read :=
        last.value.data_length
      have inside : len ≤ last.value.write - last.value.read := enough
      obtain ⟨written, hWritten, dataEq, _bufferEq, _full, atStart⟩ :=
        last.value.setWritePosition_spec (last.value.write - len)
          ⟨by omega, by omega⟩
      have kept : written.data =
          last.value.data.take (last.value.data.length - len) := by
        rw [dataEq, DataBlock.data, Region.window_take]
        congr 1
        rw [DataBlock.data] at dataLength
        omega
      have taken : (bytesOf (front ++ [last])).take
            ((bytesOf (front ++ [last])).length - len) = bytesOf front ++ written.data := by
        rw [kept]
        simp only [bytesOf_append, bytesOf_cons, bytesOf_nil, List.append_nil,
          List.length_append]
        rw [List.take_append, List.take_of_length_le (by omega)]
        congr 2
        omega
      refine ⟨b.writeBlock b.lastWithData written (b.readableBytes - len), ?_, ?_⟩
      · unfold unwrite
        rw [reached, ok_bind, if_pos enough, hWritten]
        rfl
      · rw [taken]
        apply Represents.store_last blocks first lastAt layout written
          (fun same => (atStart same).1)
        rw [← taken, readable, List.length_take]
        omega

end Buffer

end Uvcpp
