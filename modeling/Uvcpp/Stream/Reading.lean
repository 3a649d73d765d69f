/-
What a stream hands out while it moves over a Buffer.

On a Buffer whose first block is readable the chunks of a stream are exactly the
readable ranges that `all` lists, one after the other.  Behind the last one a
further `Next` fails.
-/

import Uvcpp.Stream.InputStream

namespace Uvcpp

open LinkedList

/-- Past the last used block the loop of `all` runs into the end of the list. -/
theorem Buffer.spans_foreign {past last : Position} (notPast : past ≠ last)
    (nodes : List (Node DataBlock))
    (absent : ∀ node ∈ nodes, (.node node.address : Position) ≠ last) :
    Buffer.spans past last nodes = .error .badIterator := by
  induction nodes with
  | nil =>
      rw [Buffer.spans, if_neg notPast]
  | cons node rest ih =>
      rw [Buffer.spans, if_neg (absent node List.mem_cons_self),
        ih fun other member => absent other (List.mem_cons_of_mem _ member)]
      rfl

theorem sizeSub_of_le {left right : Nat} (small : left < 18446744073709551616)
    (le : right ≤ left) : sizeSub left right = left - right := by
  unfold sizeSub
  omega

/-- Subtracting too much wraps around to the upper end of the range. -/
theorem sizeSub_wraps {left right limit : Nat} (inside : limit ≤ 9223372036854775808)
    (less : left < right) (small : right < 2147483648) : ¬ sizeSub left right ≤ limit := by
  unfold sizeSub
  omega

/-- The narrowed length of a range keeps `readableBytes_` between the bytes that
are left and the `size_t` range. -/
theorem narrowed_readable {readable left len : Nat} (enough : left + len ≤ readable)
    (room : readable + (left + len) < 18446744073709551616) :
    left ≤ sizeSub readable (sizeT (int32 len)) ∧
      sizeSub readable (sizeT (int32 len)) + left < 18446744073709551616 := by
  unfold sizeSub sizeT int32
  omega

namespace BufferInputStream

/-- The ranges `found` are what the stream is going to hand out.  It stands on a
block, with no drained block before the last used one, or it cannot go on. -/
inductive Ahead (s : BufferInputStream) (found : List Span) : Prop where
  | standing (before live : List (Node DataBlock)) (last : Node DataBlock)
      (spare : List (Node DataBlock))
      (blocks : s.buffer.list.nodes = before ++ (live ++ last :: spare))
      (here : s.buffer.firstWithData = first s.buffer.list.past (live ++ last :: spare))
      (lastAt : s.buffer.lastWithData = .node last.address)
      (readable : ∀ node ∈ live, node.value.data ≠ [])
      (listed : found = Buffer.spansOf (live ++ [last]))
      (enough : (bytesOf (live ++ [last])).length ≤ s.buffer.readableBytes)
      (room : s.buffer.readableBytes + (bytesOf (live ++ [last])).length <
        18446744073709551616)
  | stuck (none : found = []) (fails : s.bytes ≠ 0 → ∃ fault, s.next = .error fault)

/-- The stream stands directly behind the block that `span` was handed out from. -/
def Behind (s : BufferInputStream) (span : Span) : Prop :=
  ∃ before node after, s.buffer.list.nodes = before ++ node :: after ∧
    s.buffer.firstWithData = first s.buffer.list.past after ∧
    span = ⟨node.address, node.value.read, node.value.data⟩

section Standing

variable {s : BufferInputStream} {before live spare : List (Node DataBlock)}
  {last : Node DataBlock}

theorem all_standing (blocks : s.buffer.list.nodes = before ++ (live ++ last :: spare))
    (here : s.buffer.firstWithData = first s.buffer.list.past (live ++ last :: spare))
    (lastAt : s.buffer.lastWithData = .node last.address) :
    s.buffer.all = .ok (Buffer.spansOf (live ++ [last])) := by
  have split : s.buffer.list.nodes = (before ++ live) ++ last :: spare := by
    rw [blocks, List.append_assoc]
  have absent := Chain.absent_before split
  rw [Buffer.all, here, Chain.walk_rest blocks, lastAt]
  exact Buffer.spans_spec _ fun node member => absent node (List.mem_append_right _ member)

/-- What `next` returns when it is asked for more and the Buffer lists a range. -/
theorem next_eq {span : Span} {more : List Span} {following : Position}
    (asked : s.bytes ≠ 0) (readable : 0 < s.buffer.readableBytes)
    (hAll : s.buffer.all = .ok (span :: more))
    (hAdvance : s.buffer.advance s.buffer.firstWithData = .ok following) :
    s.next = .ok (some ⟨span, int32 span.bytes.length⟩,
      s.passOver following span.bytes.length) := by
  rw [next, if_neg asked, if_pos readable, hAll]
  simp only [ok_bind, hAdvance]
  rfl

/-- Behind the last used block `next` fails: the assertion stops it or `all`
leaves the list. -/
theorem next_behind_last {gone rest : List (Node DataBlock)}
    (blocks : s.buffer.list.nodes = gone ++ last :: rest)
    (here : s.buffer.firstWithData = first s.buffer.list.past rest)
    (lastAt : s.buffer.lastWithData = .node last.address) (asked : s.bytes ≠ 0) :
    ∃ fault, s.next = .error fault := by
  by_cases some : 0 < s.buffer.readableBytes
  · have split : s.buffer.list.nodes = (gone ++ [last]) ++ rest := by
      rw [blocks]
      simp
    have absent := Chain.absent_after blocks
    have fails : s.buffer.all = .error .badIterator := by
      rw [Buffer.all, here, Chain.walk_rest split, lastAt]
      apply Buffer.spans_foreign Position.noConfusion
      intro node member same
      exact absent node member (Position.node.inj same)
    exact ⟨.badIterator, by rw [next, if_neg asked, if_pos some, fails]; rfl⟩
  · exact ⟨.assertion, by rw [next, if_neg asked, if_neg some]⟩

end Standing

theorem next_nil {s : BufferInputStream} (ahead : Ahead s []) (asked : s.bytes ≠ 0) :
    ∃ fault, s.next = .error fault := by
  cases ahead with
  | stuck none fails =>
      exact fails asked
  | standing before live last spare blocks here lastAt readable listed enough room =>
      have hAll := all_standing blocks here lastAt
      rw [← listed] at hAll
      by_cases some : 0 < s.buffer.readableBytes
      · exact ⟨.outOfBounds, by rw [next, if_neg asked, if_pos some, hAll]; rfl⟩
      · exact ⟨.assertion, by rw [next, if_neg asked, if_neg some]⟩

/-- One `Next` hands out the first range ahead and stands behind its block. -/
theorem next_cons {s : BufferInputStream} {span : Span} {rest : List Span}
    (ahead : Ahead s (span :: rest)) (asked : s.bytes ≠ 0) :
    ∃ s', s.next = .ok (some ⟨span, int32 span.bytes.length⟩, s') ∧ Ahead s' rest ∧
      Behind s' span ∧ s'.bytes = sizeSub s.bytes span.bytes.length := by
  cases ahead with
  | stuck none fails =>
      cases none
  | standing before live last spare blocks here lastAt readable listed enough room =>
      have hAll := all_standing blocks here lastAt
      rw [← listed] at hAll
      cases live with
      | nil =>
          rw [List.nil_append] at blocks here listed enough room
          have lastReadable : last.value.data ≠ [] := by
            intro none
            rw [Buffer.spansOf_drained (by simpa using none)] at listed
            cases listed
          rw [Buffer.spansOf, List.flatMap_singleton, Buffer.spanOf_readable lastReadable]
            at listed
          obtain ⟨spanEq, restEq⟩ := List.cons.inj listed
          have some : 0 < s.buffer.readableBytes := by
            have positive := List.length_pos_iff.mpr lastReadable
            rw [bytesOf_cons, List.length_append] at enough
            omega
          have hAdvance : s.buffer.advance s.buffer.firstWithData =
              .ok (first s.buffer.list.past spare) := by
            rw [here]
            exact Buffer.advance_node blocks
          have behindLast := next_behind_last
            (s := s.passOver (first s.buffer.list.past spare) span.bytes.length) blocks rfl lastAt
          exact ⟨s.passOver (first s.buffer.list.past spare) span.bytes.length,
            next_eq asked some hAll hAdvance, .stuck restEq behindLast,
            ⟨before, last, spare, blocks, rfl, spanEq⟩, rfl⟩
      | cons node others =>
          have nodeReadable := readable node List.mem_cons_self
          rw [List.cons_append] at blocks here listed enough room
          rw [Buffer.spansOf_cons, Buffer.spanOf_readable nodeReadable] at listed
          obtain ⟨spanEq, restEq⟩ := List.cons.inj listed
          have spanLength : span.bytes.length = node.value.data.length := by rw [spanEq]
          rw [bytesOf_cons, List.length_append] at enough room
          have some : 0 < s.buffer.readableBytes := by
            have positive := List.length_pos_iff.mpr nodeReadable
            omega
          have hAdvance : s.buffer.advance s.buffer.firstWithData =
              .ok (first s.buffer.list.past (others ++ last :: spare)) := by
            rw [here]
            exact Buffer.advance_node blocks
          have covered : (bytesOf (others ++ [last])).length + span.bytes.length ≤
              s.buffer.readableBytes := by omega
          have counted := narrowed_readable covered (by omega)
          have passed : s.buffer.list.nodes = (before ++ [node]) ++ (others ++ last :: spare) := by
            rw [blocks]
            simp
          exact ⟨s.passOver (first s.buffer.list.past (others ++ last :: spare))
              span.bytes.length, next_eq asked some hAll hAdvance,
            .standing (before ++ [node]) others last spare passed rfl lastAt
              (fun other member => readable other (List.mem_cons_of_mem _ member)) restEq
              counted.1 counted.2,
            ⟨before, node, others ++ last :: spare, blocks, rfl, spanEq⟩, rfl⟩

/-! ### Backing up -/

/-- A block can be backed up as far as its read position allows. -/
theorem backUp_behind {s : BufferInputStream} {span : Span} (behind : Behind s span)
    {count : Nat} (small : count < 2147483648) :
    (count ≤ span.offset → ∃ s', s.backUp count = .ok s') ∧
      (span.offset < count → s.backUp count = .error .assertion) := by
  rcases behind with ⟨before, node, after, blocks, here, spanEq⟩
  have offsetEq : span.offset = node.value.read := by rw [spanEq]
  have previous := Chain.before?_rest blocks
  rw [← here] at previous
  have reached := Buffer.block_node blocks
  have ordered := node.value.ordered
  have fits := node.value.fits
  have bounded : node.value.buffer.length ≤ 9223372036854775808 := node.value.sized.2
  have sizeEq : sizeT (count : Int) = count := sizeT_of_nat (by omega)
  rw [offsetEq]
  constructor
  · intro enough
    have target : sizeSub node.value.read count = node.value.read - count :=
      sizeSub_of_le (by omega) enough
    rcases node.value.setReadPosition_spec (node.value.read - count) (by omega) with
      ⟨moved, hMoved, _dataEq⟩
    refine ⟨s.backTo (.node node.address) moved count, ?_⟩
    rw [backUp, previous, Buffer.orBadIterator, ok_bind, reached, ok_bind, sizeEq, target,
      hMoved]
    rfl
  · intro tooMany
    have inRange : node.value.write ≤ 9223372036854775808 := by omega
    have wrapped := sizeSub_wraps inRange tooMany small
    rw [backUp, previous, Buffer.orBadIterator, ok_bind, reached, ok_bind, sizeEq,
      DataBlock.setReadPosition, dif_neg wrapped]
    rfl

/-! ### The start of a stream -/

/-- A new stream on a represented Buffer without drained leading blocks. -/
theorem ahead_new {b : Buffer} {content : List Byte} (represents : Represents b content)
    (trimmed : b.Trimmed) (small : content.length < Buffer.maxLength) {found : List Span}
    (hAll : b.all = .ok found) (len : Nat) : Ahead (new b len) found := by
  cases represents with
  | vacant noBlocks first last readable empty =>
      rw [Buffer.all_vacant first last] at hAll
      apply Ahead.stuck (Except.ok.inj hAll).symm
      intro asked
      have none : ¬ 0 < (new b len).buffer.readableBytes := by
        rw [show (new b len).buffer = b from rfl, readable]
        exact Nat.lt_irrefl 0
      exact ⟨.assertion, by rw [next, if_neg asked, if_neg none]⟩
  | occupied front last spare blocks first lastAt layout held readable =>
      rw [Buffer.all_occupied blocks first lastAt] at hAll
      have here : b.firstWithData = LinkedList.first b.list.past (front ++ last :: spare) := by
        rw [first, Chain.start, blocks]
      unfold Buffer.Trimmed at trimmed
      rw [Buffer.frontBlocks_eq blocks lastAt] at trimmed
      unfold Buffer.maxLength at small
      rw [held] at small readable
      exact .standing [] front last spare blocks here lastAt trimmed
        (Except.ok.inj hAll).symm (Nat.le_of_eq readable.symm)
        (by rw [show (new b len).buffer = b from rfl, readable]; omega)

end BufferInputStream

end Uvcpp
