/-
The budget of a stream.

Next takes the whole of a block off the budget, however little of it is left, and moves the
iterator on by one block, also when it has found its range behind a drained one.  So the
budget is delivered when it ends with a block, and with the first one if the Buffer starts
with a drained block.
-/

import Uvcpp.Stream.Moved

namespace Uvcpp

open LinkedList

namespace BufferInputStream

/-- Calls of `Next` that the budget covers, down to one that returns false. -/
inductive Exhausts : BufferInputStream → List Chunk → Prop where
  | done {s s' : BufferInputStream} (stops : s.next = .ok (none, s')) : Exhausts s []
  | call {s s' : BufferInputStream} {chunk : Chunk} {chunks : List Chunk}
      (first : s.next = .ok (some chunk, s')) (covered : chunk.span.bytes.length ≤ s.bytes)
      (rest : Exhausts s' chunks) : Exhausts s (chunk :: chunks)

/-- The windows up to the end of the stream hold the first `len` bytes, and no two of them
are of one block. -/
def Delivers (b : Buffer) (content : List Byte) (len : Nat) : Prop :=
  ∃ chunks, Exhausts (new b len) chunks ∧ delivered chunks = content.take len ∧
    (chunks.map fun chunk => chunk.span.address).Nodup

/-- The budget is what some first ranges hold.  An `int` measures each of them, and behind a
drained block there is one at most. -/
def Aligned (b : Buffer) (len : Nat) : Prop :=
  ∃ taken rest, b.all = .ok (taken ++ rest) ∧ (Buffer.spanBytes taken).length = len ∧
    (∀ span ∈ taken, span.bytes.length < 2147483648) ∧ (taken.length ≤ 1 ∨ b.Trimmed)

end BufferInputStream

/-! ### Windows and ranges -/

/-- The length a `Next` has reported is the narrowed one of the range. -/
def Chunk.Reported (chunk : Chunk) : Prop := chunk.size = int32 chunk.span.bytes.length

/-- A window is its range exactly when an `int` measures it. -/
theorem Chunk.Reported.bytes_length {chunk : Chunk} (reported : chunk.Reported) :
    chunk.bytes.length ≤ chunk.span.bytes.length ∧
      (chunk.bytes.length = chunk.span.bytes.length ↔
        chunk.span.bytes.length < 2147483648) := by
  have narrowed : chunk.bytes.length =
      min (int32 chunk.span.bytes.length).toNat chunk.span.bytes.length := by
    rw [Chunk.bytes, List.length_take, reported]
  have range := int32_range chunk.span.bytes.length
  rw [narrowed]
  refine ⟨Nat.min_le_right _ _, ?_⟩
  constructor
  · intro whole
    omega
  · intro small
    rw [int32_of_small (by omega) (by omega), Int.toNat_natCast, Nat.min_self]

theorem Chunk.Reported.bytes_eq {chunk : Chunk} (reported : chunk.Reported)
    (small : chunk.span.bytes.length < 2147483648) : chunk.bytes = chunk.span.bytes := by
  rw [Chunk.bytes, reported, take_measured small]

theorem delivered_eq {chunks : List Chunk} (reported : ∀ chunk ∈ chunks, chunk.Reported)
    (small : ∀ span ∈ chunks.map Chunk.span, span.bytes.length < 2147483648) :
    delivered chunks = Buffer.spanBytes (chunks.map Chunk.span) := by
  induction chunks with
  | nil => rfl
  | cons chunk rest ih =>
      have head := (reported chunk List.mem_cons_self).bytes_eq (small _ List.mem_cons_self)
      have tail := ih (fun other member => reported other (List.mem_cons_of_mem _ member))
        (fun span member => small span (List.mem_cons_of_mem _ member))
      rw [delivered] at tail
      rw [delivered, List.flatMap_cons, head, tail]
      rfl

/-- Windows never hold more than their ranges, and less as soon as one of these is too long
for an `int`. -/
theorem delivered_length {chunks : List Chunk} (reported : ∀ chunk ∈ chunks, chunk.Reported) :
    (delivered chunks).length ≤ (Buffer.spanBytes (chunks.map Chunk.span)).length ∧
      ((delivered chunks).length = (Buffer.spanBytes (chunks.map Chunk.span)).length →
        ∀ span ∈ chunks.map Chunk.span, span.bytes.length < 2147483648) := by
  induction chunks with
  | nil => exact ⟨Nat.le_refl _, fun _ => List.forall_mem_nil _⟩
  | cons chunk rest ih =>
      have head := (reported chunk List.mem_cons_self).bytes_length
      have tail := ih fun other member => reported other (List.mem_cons_of_mem _ member)
      have splitDelivered : (delivered (chunk :: rest)).length =
          chunk.bytes.length + (delivered rest).length := List.length_append
      have splitSpans := Buffer.spanBytes_cons_length chunk.span (rest.map Chunk.span)
      rw [splitDelivered, List.map_cons, splitSpans]
      refine ⟨Nat.add_le_add head.1 tail.1, ?_⟩
      intro whole span member
      rcases List.mem_cons.mp member with rfl | later
      · exact head.2.mp (by omega)
      · exact tail.2 (by omega) span later

namespace Buffer

theorem spansOf_addresses (nodes : List (Node DataBlock)) :
    ((spansOf nodes).map Span.address).Sublist (nodes.map Node.address) := by
  induction nodes with
  | nil => exact List.Sublist.refl _
  | cons node rest ih =>
      rw [spansOf_cons, List.map_append, List.map_cons]
      by_cases none : node.value.data = []
      · rw [spanOf_drained none]
        exact ih.cons _
      · rw [spanOf_readable none]
        exact ih.cons_cons _

/-- No block is listed twice. -/
theorem all_distinct {b : Buffer} {content : List Byte} (represents : Represents b content)
    {found : List Span} (hAll : b.all = .ok found) : (found.map Span.address).Nodup := by
  cases represents with
  | vacant noBlocks first last readable empty =>
      rw [all_vacant first last] at hAll
      cases hAll
      exact List.nodup_nil
  | occupied front last spare blocks first lastAt layout held readable =>
      rw [all_occupied blocks first lastAt] at hAll
      cases hAll
      have used : ((front ++ [last]).map Node.address).Sublist (b.list.nodes.map Node.address) := by
        have split : front ++ last :: spare = (front ++ [last]) ++ spare := by simp
        rw [blocks, split]
        exact (List.sublist_append_left _ _).map _
      exact ((spansOf_addresses _).trans used).nodup b.list.distinct

end Buffer

namespace BufferInputStream

/-! ### Runs over the ranges ahead -/

theorem asked_of_next {s s' : BufferInputStream} {chunk : Chunk}
    (hNext : s.next = .ok (some chunk, s')) : s.bytes ≠ 0 := by
  intro none
  rw [next, if_pos none] at hNext
  cases hNext

/-- A run hands out the first ranges ahead, and the budget is what they hold. -/
theorem Exhausts.ranges {s : BufferInputStream} {chunks : List Chunk}
    (exhausts : Exhausts s chunks) :
    ∀ {found : List Span}, Ahead s found → s.bytes < 18446744073709551616 →
      ∃ rest, found = chunks.map Chunk.span ++ rest ∧
        s.bytes = (Buffer.spanBytes (chunks.map Chunk.span)).length ∧
        ∀ chunk ∈ chunks, chunk.Reported := by
  induction exhausts with
  | done stops =>
      intro found _ahead _bounded
      exact ⟨found, rfl, (next_none stops).1, List.forall_mem_nil _⟩
  | @call s s' chunk chunks first covered _rest ih =>
      intro found ahead bounded
      have asked := asked_of_next first
      cases found with
      | nil =>
          rcases next_nil ahead asked with ⟨fault, fails⟩
          rw [first] at fails
          cases fails
      | cons span later =>
          rcases next_cons ahead asked with ⟨following, hNext, onward, _behind, left⟩
          rw [first] at hNext
          cases hNext
          rw [sizeSub_of_le bounded covered] at left
          have left : s'.bytes = s.bytes - span.bytes.length := left
          rcases ih onward (by omega) with ⟨rest, found, budget, reported⟩
          refine ⟨rest, by rw [found]; rfl, ?_, ?_⟩
          · have covered : span.bytes.length ≤ s.bytes := covered
            show s.bytes = (Buffer.spanBytes (span :: chunks.map Chunk.span)).length
            rw [Buffer.spanBytes_cons_length]
            omega
          · intro other member
            rcases List.mem_cons.mp member with rfl | later
            · rfl
            · exact reported other later

/-- Conversely, a budget that some first ranges hold is handed out as these ranges. -/
theorem exhausts_of_ranges (taken : List Span) {rest : List Span} :
    ∀ {s : BufferInputStream}, Ahead s (taken ++ rest) →
      (∀ span ∈ taken, span.bytes ≠ []) → s.bytes = (Buffer.spanBytes taken).length →
      s.bytes < 18446744073709551616 →
      ∃ chunks, Exhausts s chunks ∧ chunks.map Chunk.span = taken ∧
        ∀ chunk ∈ chunks, chunk.Reported := by
  induction taken with
  | nil =>
      intro s _ahead _nonempty none _bounded
      exact ⟨[], .done (if_pos none), rfl, List.forall_mem_nil _⟩
  | cons span later ih =>
      intro s ahead nonempty budget bounded
      have whole := Buffer.spanBytes_cons_length span later
      have positive := List.length_pos_iff.mpr (nonempty span List.mem_cons_self)
      rcases next_cons ahead (by omega) with ⟨s', hNext, onward, _behind, left⟩
      rw [sizeSub_of_le bounded (by omega)] at left
      rcases ih onward (fun other member => nonempty other (List.mem_cons_of_mem _ member))
        (by omega) (by omega) with ⟨chunks, exhausts, spans, reported⟩
      have covered : span.bytes.length ≤ s.bytes := by omega
      refine ⟨_, .call hNext covered exhausts, by rw [List.map_cons, spans], ?_⟩
      intro other member
      rcases List.mem_cons.mp member with rfl | more
      · rfl
      · exact reported other more

/-! ### The first call -/

section First

variable {b : Buffer} {content : List Byte}

/-- A drained block in front of the last used one is the first of the list. -/
theorem drained_head (represents : Represents b content) (drained : ¬b.Trimmed) :
    ∃ head rest last spare, b.list.nodes = head :: (rest ++ last :: spare) ∧
      b.lastWithData = .node last.address ∧ head.value.data = [] := by
  cases represents with
  | vacant noBlocks first last readable empty =>
      refine absurd ?_ drained
      intro node member
      rw [Buffer.frontBlocks, noBlocks] at member
      cases member
  | occupied front last spare blocks first lastAt layout held readable =>
      cases front with
      | nil =>
          refine absurd ?_ drained
          intro node member
          rw [Buffer.frontBlocks_eq blocks lastAt] at member
          cases member
      | cons head rest =>
          refine ⟨head, rest, last, spare, blocks, lastAt, ?_⟩
          by_contra readable
          refine drained ?_
          unfold Buffer.Trimmed
          rw [Buffer.frontBlocks_eq blocks lastAt]
          apply Buffer.layout_nonempty layout
          intro node same
          rw [← Option.some.inj same]
          exact readable

/-- The first `Next` hands out the first range.  Behind a drained block the next one would
hand it out again. -/
theorem next_first (represents : Represents b content) {span : Span} {more : List Span}
    (hAll : b.all = .ok (span :: more)) {len : Nat} (asked : len ≠ 0) :
    ∃ s', (new b len).next = .ok (some ⟨span, int32 span.bytes.length⟩, s') ∧
      s'.bytes = sizeSub len span.bytes.length ∧
      (¬b.Trimmed → s'.buffer.all = .ok (span :: more)) := by
  have readable : 0 < b.readableBytes := by
    rcases Buffer.all_spec represents with ⟨found, hSame, bytesEq, nonempty⟩
    rw [hAll] at hSame
    cases hSame
    have positive := List.length_pos_iff.mpr (nonempty span List.mem_cons_self)
    rw [represents.readable_eq, ← bytesEq, Buffer.spanBytes_cons_length]
    omega
  have start := represents.first_eq_start
  obtain ⟨node, after, nodes⟩ : ∃ node after, b.list.nodes = node :: after := by
    cases represents with
    | vacant noBlocks first last readable empty =>
        rw [Buffer.all_vacant first last] at hAll
        cases hAll
    | occupied front last spare blocks first lastAt layout held readable =>
        rw [blocks]
        cases front with
        | nil => exact ⟨last, spare, rfl⟩
        | cons head rest => exact ⟨head, rest ++ last :: spare, rfl⟩
  have split : b.list.nodes = [] ++ node :: after := nodes
  have hAdvance : b.advance b.firstWithData = .ok (first b.list.past after) := by
    rw [start, Chain.start, nodes]
    exact Buffer.advance_node split
  refine ⟨(new b len).passOver (first b.list.past after) span.bytes.length,
    next_eq asked readable hAll hAdvance, rfl, ?_⟩
  intro drained
  obtain ⟨head, rest, last, spare, blocks, lastAt, empty⟩ :=
    drained_head represents drained
  rw [nodes] at blocks
  obtain ⟨rfl, rfl⟩ := List.cons.inj blocks
  have passed : b.list.nodes = [node] ++ (rest ++ last :: spare) := nodes
  have here : b.list.nodes = [] ++ ((node :: rest) ++ last :: spare) := nodes
  have standing : b.firstWithData = first b.list.past ((node :: rest) ++ last :: spare) := by
    rw [start, Chain.start, nodes]
    rfl
  have before := all_standing (s := new b len) here standing lastAt
  have behind := all_standing (s := (new b len).passOver
    (first b.list.past (rest ++ last :: spare)) span.bytes.length) passed rfl lastAt
  rw [behind, ← hAll]
  have before : b.all = _ := before
  rw [before, List.cons_append, Buffer.spansOf_cons, Buffer.spanOf_drained empty,
    List.nil_append]

/-- Behind a drained block a run without repetition stops after its first range. -/
theorem Exhausts.drained (represents : Represents b content) (drained : ¬b.Trimmed)
    {found : List Span} (hAll : b.all = .ok found) {len : Nat}
    (bounded : len < 18446744073709551616) {chunks : List Chunk}
    (exhausts : Exhausts (new b len) chunks)
    (apart : (chunks.map fun chunk => chunk.span.address).Nodup) :
    ∃ rest, found = chunks.map Chunk.span ++ rest ∧
      len = (Buffer.spanBytes (chunks.map Chunk.span)).length ∧
      (∀ chunk ∈ chunks, chunk.Reported) ∧ chunks.length ≤ 1 := by
  cases exhausts with
  | done stops =>
      exact ⟨found, rfl, (next_none stops).1, List.forall_mem_nil _, Nat.zero_le _⟩
  | @call _ s' chunk chunks first covered rest =>
      obtain ⟨_list, _last, _moved, more, hFound, reported⟩ := next_moves first
      have hFound : b.all = .ok (chunk.span :: more) := hFound
      rw [hFound] at hAll
      cases hAll
      have asked : len ≠ 0 := asked_of_next first
      obtain ⟨following, hNext, left, again⟩ := next_first represents hFound asked
      rw [first] at hNext
      obtain ⟨_chunk, rfl⟩ := Prod.mk.inj (Except.ok.inj hNext)
      cases rest with
      | done stops =>
          have none := (next_none stops).1
          have covered : chunk.span.bytes.length ≤ len := covered
          rw [sizeSub_of_le bounded covered] at left
          refine ⟨more, rfl, ?_, ?_, Nat.le_refl _⟩
          · show len = (Buffer.spanBytes [chunk.span]).length
            rw [Buffer.spanBytes_singleton]
            omega
          · intro other member
            rw [List.mem_singleton.mp member]
            exact reported
      | @call _ s'' repeated chunks second _covered rest =>
          obtain ⟨_list, _last, _moved, later, hAgain, _reported⟩ := next_moves second
          rw [again drained] at hAgain
          have same : chunk.span = repeated.span := (List.cons.inj (Except.ok.inj hAgain)).1
          have once : chunk.span.address ∉
              (repeated :: chunks).map fun chunk => chunk.span.address :=
            (List.nodup_cons.mp apart).1
          rw [List.map_cons, same] at once
          exact absurd List.mem_cons_self once

/-- A single range is handed out whatever is in front of it. -/
theorem exhausts_of_first (represents : Represents b content) {span : Span} {rest : List Span}
    (hAll : b.all = .ok (span :: rest)) (nonempty : span.bytes ≠ [])
    (bounded : span.bytes.length < 18446744073709551616) :
    Exhausts (new b span.bytes.length) [⟨span, int32 span.bytes.length⟩] := by
  have positive := List.length_pos_iff.mpr nonempty
  obtain ⟨s', hNext, left, _again⟩ := next_first represents hAll (Nat.ne_of_gt positive)
  rw [sizeSub_of_le bounded (Nat.le_refl _), Nat.sub_self] at left
  exact .call hNext (Nat.le_refl _) (.done (if_pos left))

end First

/-! ### Budgets -/

theorem delivers_iff {b : Buffer} {content : List Byte} (represents : Represents b content)
    (small : content.length < Buffer.maxLength) {len : Nat} (within : len ≤ content.length) :
    Delivers b content len ↔ Aligned b len := by
  obtain ⟨found, hAll, bytesEq, nonempty⟩ := Buffer.all_spec represents
  have bounded : len < 18446744073709551616 := by
    unfold Buffer.maxLength at small
    omega
  constructor
  · rintro ⟨chunks, exhausts, held, apart⟩
    obtain ⟨rest, listed, budget, reported, alone⟩ : ∃ rest,
        found = chunks.map Chunk.span ++ rest ∧
          len = (Buffer.spanBytes (chunks.map Chunk.span)).length ∧
          (∀ chunk ∈ chunks, chunk.Reported) ∧ (chunks.length ≤ 1 ∨ b.Trimmed) := by
      by_cases trimmed : b.Trimmed
      · obtain ⟨rest, listed, budget, reported⟩ :=
          exhausts.ranges (ahead_new represents trimmed small hAll len) bounded
        exact ⟨rest, listed, budget, reported, .inr trimmed⟩
      · obtain ⟨rest, listed, budget, reported, single⟩ :=
          exhausts.drained represents trimmed hAll bounded apart
        exact ⟨rest, listed, budget, reported, .inl single⟩
    have whole : (delivered chunks).length = len := by
      rw [held, List.length_take_of_le within]
    refine ⟨chunks.map Chunk.span, rest, by rw [← listed]; exact hAll, budget.symm,
      (delivered_length reported).2 (whole.trans budget), ?_⟩
    rw [List.length_map]
    exact alone
  · rintro ⟨taken, rest, hTaken, budget, measured, alone⟩
    rw [hTaken] at hAll
    cases hAll
    have some : ∀ span ∈ taken, span.bytes ≠ [] :=
      fun span member => nonempty span (List.mem_append_left _ member)
    obtain ⟨chunks, exhausts, spans, reported⟩ : ∃ chunks, Exhausts (new b len) chunks ∧
        chunks.map Chunk.span = taken ∧ ∀ chunk ∈ chunks, chunk.Reported := by
      by_cases trimmed : b.Trimmed
      · exact exhausts_of_ranges taken (ahead_new represents trimmed small hTaken len) some
          budget.symm bounded
      · have single := alone.resolve_right trimmed
        cases taken with
        | nil => exact ⟨[], .done (if_pos budget.symm), rfl, List.forall_mem_nil _⟩
        | cons span others =>
            have none : others = [] := by
              rw [List.length_cons] at single
              exact List.eq_nil_of_length_eq_zero (by omega)
            rw [none] at hTaken budget ⊢
            have whole : span.bytes.length = len := by
              rw [← budget, Buffer.spanBytes_singleton]
            rw [← whole] at bounded ⊢
            have readable := some span List.mem_cons_self
            refine ⟨_, exhausts_of_first represents hTaken readable bounded, rfl, ?_⟩
            intro chunk member
            rw [List.mem_singleton.mp member]
            rfl
    refine ⟨chunks, exhausts, ?_, ?_⟩
    · have split : content = Buffer.spanBytes taken ++ Buffer.spanBytes rest := by
        rw [← bytesEq]
        exact List.flatMap_append
      rw [delivered_eq reported (by rw [spans]; exact measured), spans, split,
        List.take_left' budget]
    · have addresses : (chunks.map fun chunk => chunk.span.address) =
          taken.map Span.address := by
        rw [← spans, List.map_map]
        rfl
      have distinct := Buffer.all_distinct represents hTaken
      rw [List.map_append] at distinct
      rw [addresses]
      exact (List.nodup_append.mp distinct).1

end BufferInputStream

/-- **Budgets.** A stream over a reachable Buffer delivers its budget exactly when some
first readable ranges hold it, none of them too long for an `int`, and when there is one of
them at most or the Buffer does not start with a drained block. -/
theorem stream_delivers_iff {owner : Nat} {state : Session × List Byte}
    (reachable : Transition.Reachable (Session.system owner) state) {len : Nat}
    (within : len ≤ state.2.length) :
    BufferInputStream.Delivers state.1.buffer state.2 len ↔
      BufferInputStream.Aligned state.1.buffer len := by
  have holds := Session.reachable_represents reachable
  have spent := Session.reachable_small reachable
  exact BufferInputStream.delivers_iff holds (Nat.lt_of_le_of_lt spent.1 spent.2) within

/-- The single block of a Buffer of two bytes. -/
theorem two_bytes_reachable : ∃ s span,
    Transition.Reachable (Session.system 0) (s, [104, 105]) ∧ s.buffer.all = .ok [span] ∧
      span.bytes = [104, 105] := by
  have legal : (Session.new 0).Legal (.append [104, 105]) := ⟨by decide, trivial⟩
  obtain ⟨s, hPerform, reachable⟩ := Session.appended_reachable legal
  have listed : (do
      let s ← (Session.new 0).perform (.append [104, 105])
      let found ← s.buffer.all
      pure (found.map Span.bytes)) = .ok [[104, 105]] := by decide +kernel
  rw [hPerform, ok_bind] at listed
  obtain ⟨found, hAll, values⟩ := ok_of_bind listed
  obtain ⟨span, rfl, bytes⟩ := List.map_eq_singleton_iff.mp (Except.ok.inj values)
  exact ⟨s, span, reachable, hAll, bytes⟩

/-- A budget of both bytes is delivered. -/
theorem stream_delivers_iff_both : ∃ s,
    Transition.Reachable (Session.system 0) (s, [104, 105]) ∧
      BufferInputStream.Delivers s.buffer [104, 105] 2 := by
  obtain ⟨s, span, reachable, hAll, bytes⟩ := two_bytes_reachable
  have within : 2 ≤ ([104, 105] : List Byte).length := Nat.le_refl _
  refine ⟨s, reachable, (stream_delivers_iff reachable within).mpr ⟨[span], [], hAll, ?_⟩⟩
  refine ⟨?_, ?_, .inl (Nat.le_refl _)⟩
  · rw [Buffer.spanBytes_singleton, bytes]
    rfl
  · intro other member
    rw [List.mem_singleton.mp member, bytes]
    decide

/-- A budget of one byte is not: the block has two. -/
theorem stream_delivers_too_much : ∃ s,
    Transition.Reachable (Session.system 0) (s, [104, 105]) ∧
      ¬BufferInputStream.Delivers s.buffer [104, 105] 1 := by
  obtain ⟨s, span, reachable, hAll, bytes⟩ := two_bytes_reachable
  refine ⟨s, reachable, ?_⟩
  have holds := Session.reachable_represents reachable
  have small : ([104, 105] : List Byte).length < Buffer.maxLength := by decide
  have within : 1 ≤ ([104, 105] : List Byte).length := by decide
  rw [BufferInputStream.delivers_iff holds small within]
  rintro ⟨taken, rest, hTaken, budget, _measured, _alone⟩
  rw [hAll] at hTaken
  have listed : [span] = taken ++ rest := Except.ok.inj hTaken
  cases taken with
  | nil => cases budget
  | cons front others =>
      obtain ⟨rfl, none⟩ := List.cons.inj listed
      rw [(List.append_eq_nil_iff.mp none.symm).1, Buffer.spanBytes_singleton, bytes] at budget
      cases budget

end Uvcpp
