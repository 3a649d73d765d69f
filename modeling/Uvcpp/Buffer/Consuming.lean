/-
Reading a represented Buffer: `toString`, `all` and the discarding operations.
-/

import Uvcpp.Buffer.Invariant

namespace Uvcpp

open LinkedList

theorem bytesOf_cons_length (node : Node DataBlock) (rest : List (Node DataBlock)) :
    (bytesOf (node :: rest)).length = node.value.readableBytes + (bytesOf rest).length := by
  rw [bytesOf_cons, List.length_append, DataBlock.data_length]

/-- Blocks that were never written add nothing. -/
theorem bytesOf_spare {front spare : List (Node DataBlock)} {last : Node DataBlock}
    (layout : Layout front last spare) : bytesOf spare = [] := by
  apply List.flatMap_eq_nil_iff.mpr
  intro node member
  obtain ⟨readZero, writeZero⟩ := layout.unused node member
  rw [DataBlock.data_eq_nil_iff, readZero, writeZero]

/-- The nodes a walk from `firstWithData_` meets hold the content, whether or
not there are blocks at all. -/
theorem Represents.walk_first {b : Buffer} {content : List Byte}
    (represents : Represents b content) :
    b.list.walk b.firstWithData = some b.list.nodes ∧ bytesOf b.list.nodes = content := by
  refine ⟨by rw [represents.first_eq_start, Chain.walk_start], ?_⟩
  cases represents with
  | vacant noBlocks first last readable empty =>
      rw [noBlocks, empty]
      rfl
  | occupied front last spare blocks first lastAt layout held readable =>
      rw [blocks, held]
      simp [bytesOf_spare layout]

namespace Buffer

/-! ### Converting to a string -/

theorem gather_spec (nodes : List (Node DataBlock)) :
    ∀ len, len ≤ (bytesOf nodes).length →
      gather nodes len = .ok ((bytesOf nodes).take len) := by
  induction nodes with
  | nil =>
      intro len enough
      have none : len = 0 := Nat.le_zero.mp enough
      simp [gather, none]
  | cons node rest ih =>
      intro len enough
      have lengthEq := bytesOf_cons_length node rest
      unfold gather
      by_cases none : len = 0
      · simp [none]
      · rw [if_neg none]
        by_cases inside : len ≤ node.value.readableBytes
        · rw [if_pos inside, bytesOf_cons, List.take_append_of_le_length]
          rw [DataBlock.data_length]
          exact inside
        · rw [if_neg inside]
          have taken : (bytesOf (node :: rest)).take len =
              node.value.data ++ (bytesOf rest).take (len - node.value.readableBytes) := by
            rw [bytesOf_cons, List.take_append, DataBlock.data_length,
              List.take_of_length_le (by rw [DataBlock.data_length]; omega)]
          by_cases some : 0 < node.value.readableBytes
          · rw [if_pos some, ih _ (by omega), ok_bind, taken]
            rfl
          · have drained : node.value.readableBytes = 0 := by omega
            have noData : node.value.data = [] := by
              rw [← List.length_eq_zero_iff, DataBlock.data_length]
              exact drained
            rw [if_neg some, ih len (by omega), taken, noData, drained]
            rfl

theorem toStringLen_spec {b : Buffer} {content : List Byte} (represents : Represents b content)
    {len : Nat} (enough : len ≤ content.length) :
    b.toStringLen len = .ok (content.take len) := by
  obtain ⟨walked, held⟩ := represents.walk_first
  have gathered := gather_spec b.list.nodes len (by rw [held]; exact enough)
  rw [held] at gathered
  unfold toStringLen
  rw [if_pos (by rw [represents.readable_eq]; exact enough), walked]
  exact gathered

theorem toString_spec {b : Buffer} {content : List Byte} (represents : Represents b content) :
    b.toString = .ok content := by
  unfold toString
  rw [represents.readable_eq, toStringLen_spec represents (Nat.le_refl _), List.take_length]

/-! ### Listing the readable ranges -/

/-- The bytes of a list of ranges. -/
def spanBytes (found : List Span) : List Byte := found.flatMap Span.bytes

theorem spanBytes_cons_length (span : Span) (rest : List Span) :
    (spanBytes (span :: rest)).length = span.bytes.length + (spanBytes rest).length :=
  List.length_append

theorem spanBytes_singleton (span : Span) : spanBytes [span] = span.bytes :=
  List.flatMap_singleton ..

/-- The readable ranges of consecutive blocks. -/
def spansOf (nodes : List (Node DataBlock)) : List Span := nodes.flatMap spanOf

theorem spanOf_readable {node : Node DataBlock} (some : node.value.data ≠ []) :
    spanOf node = [⟨node.address, node.value.read, node.value.data⟩] := by
  rw [← List.length_pos_iff, DataBlock.data_length] at some
  rw [spanOf, if_pos some]

theorem spanOf_drained {node : Node DataBlock} (none : node.value.data = []) :
    spanOf node = [] := by
  rw [← List.length_eq_zero_iff, DataBlock.data_length] at none
  rw [spanOf, if_neg (by omega)]

theorem spansOf_drained {nodes : List (Node DataBlock)}
    (none : ∀ node ∈ nodes, node.value.data = []) : spansOf nodes = [] :=
  List.flatMap_eq_nil_iff.mpr fun node member => spanOf_drained (none node member)

theorem spansOf_append (left right : List (Node DataBlock)) :
    spansOf (left ++ right) = spansOf left ++ spansOf right := List.flatMap_append

theorem spansOf_cons (node : Node DataBlock) (rest : List (Node DataBlock)) :
    spansOf (node :: rest) = spanOf node ++ spansOf rest := List.flatMap_cons

theorem spanBytes_spansOf (nodes : List (Node DataBlock)) :
    spanBytes (spansOf nodes) = bytesOf nodes := by
  induction nodes with
  | nil =>
      rfl
  | cons node rest ih =>
      have head : (spanOf node).flatMap Span.bytes = node.value.data := by
        by_cases none : node.value.data = []
        · rw [spanOf_drained none, none]
          rfl
        · simp [spanOf_readable none]
      rw [spansOf_cons, spanBytes, List.flatMap_append, head, bytesOf_cons]
      exact congrArg (node.value.data ++ ·) ih

theorem spansOf_nonempty (nodes : List (Node DataBlock)) :
    ∀ span ∈ spansOf nodes, span.bytes ≠ [] := by
  intro span member
  rcases List.mem_flatMap.mp member with ⟨node, _inNodes, inSpan⟩
  by_cases none : node.value.data = []
  · rw [spanOf_drained none] at inSpan
    cases inSpan
  · rw [spanOf_readable none] at inSpan
    rw [List.mem_singleton.mp inSpan]
    exact none

theorem spans_spec (past : Position) {front spare : List (Node DataBlock)}
    {last : Node DataBlock} (absent : ∀ node ∈ front, node.address ≠ last.address) :
    spans past (.node last.address) (front ++ last :: spare) =
      .ok (spansOf (front ++ [last])) := by
  induction front with
  | nil =>
      rw [List.nil_append, spans, if_pos rfl, List.nil_append, spansOf, List.flatMap_singleton]
  | cons node rest ih =>
      have different : (.node node.address : Position) ≠ .node last.address := by
        intro same
        exact absent node List.mem_cons_self (Position.node.inj same)
      have later := ih fun other member => absent other (List.mem_cons_of_mem _ member)
      rw [List.cons_append, spans, if_neg different, later]
      rfl

theorem all_occupied {b : Buffer} {front spare : List (Node DataBlock)}
    {last : Node DataBlock} (blocks : b.list.nodes = front ++ last :: spare)
    (first : b.firstWithData = b.list.start) (lastAt : b.lastWithData = .node last.address) :
    b.all = .ok (spansOf (front ++ [last])) := by
  rw [all, first, Chain.walk_start, blocks, lastAt]
  exact spans_spec b.list.past (Chain.absent_before blocks)

theorem all_vacant {b : Buffer} (first : b.firstWithData = b.list.past)
    (last : b.lastWithData = b.list.past) : b.all = .ok [] := by
  rw [all, first, Chain.walk_past]
  simp [orBadIterator, spans, last]

theorem all_spec {b : Buffer} {content : List Byte} (represents : Represents b content) :
    ∃ found, b.all = .ok found ∧ spanBytes found = content ∧
      ∀ span ∈ found, span.bytes ≠ [] := by
  cases represents with
  | vacant noBlocks first last readable empty =>
      exact ⟨[], all_vacant first last, by rw [empty]; rfl, List.forall_mem_nil _⟩
  | occupied front last spare blocks first lastAt layout held readable =>
      exact ⟨_, all_occupied blocks first lastAt, by rw [spanBytes_spansOf, held],
        spansOf_nonempty _⟩

/-- The readable ranges behind the first `len` readable bytes. -/
def skipSpans : Nat → List Span → List Span
  | _, [] => []
  | len, span :: rest =>
      if len < span.bytes.length then
        ⟨span.address, span.offset + len, span.bytes.drop len⟩ :: rest
      else skipSpans (len - span.bytes.length) rest

theorem skipSpans_zero {found : List Span} (nonempty : ∀ span ∈ found, span.bytes ≠ []) :
    skipSpans 0 found = found := by
  cases found with
  | nil =>
      rfl
  | cons span rest =>
      have some := List.length_pos_iff.mpr (nonempty span List.mem_cons_self)
      rw [skipSpans, if_pos some]
      rfl

theorem spanBytes_skipSpans (len : Nat) (found : List Span) :
    spanBytes (skipSpans len found) = (spanBytes found).drop len := by
  induction found generalizing len with
  | nil =>
      simp [skipSpans, spanBytes]
  | cons span rest ih =>
      unfold skipSpans
      by_cases inside : len < span.bytes.length
      · rw [if_pos inside]
        simp only [spanBytes, List.flatMap_cons]
        rw [List.drop_append_of_le_length (Nat.le_of_lt inside)]
      · rw [if_neg inside, ih]
        have passed : span.bytes.drop len = [] := List.drop_eq_nil_of_le (by omega)
        simp only [spanBytes, List.flatMap_cons]
        rw [List.drop_append, passed, List.nil_append]

/-! ### Discarding -/

/-- Advancing the read position inside one block. -/
theorem advanceRead_spec (block : DataBlock) {len : Nat} (inside : len ≤ block.readableBytes) :
    ∃ block', block.setReadPosition (block.read + len) = .ok block' ∧
      block'.data = block.data.drop len ∧
      (block.write = block.capacity → block'.write = block'.capacity) ∧
      (len < block.readableBytes → block'.read = block.read + len) := by
  have ordered := block.ordered
  unfold DataBlock.readableBytes at inside ⊢
  obtain ⟨block', hBlock, dataEq, _bufferEq, full, _atStart, partly⟩ :=
    block.setReadPosition_spec (block.read + len) (by omega)
  refine ⟨block', hBlock, ?_, fun atEnd => (full atEnd).1, fun less => partly (by omega)⟩
  rw [dataEq, DataBlock.data, Region.window_drop]

/-- Advancing the read position of a block skips over its readable range. -/
theorem spanOf_advanced {node : Node DataBlock} {read : DataBlock} {len : Nat}
    {more : List Span} (nonempty : ∀ span ∈ more, span.bytes ≠ []) (some : 0 < len)
    (inside : len ≤ node.value.readableBytes) (dataEq : read.data = node.value.data.drop len)
    (moved : len < node.value.readableBytes → read.read = node.value.read + len) :
    spanOf ⟨node.address, read⟩ ++ more = skipSpans len (spanOf node ++ more) := by
  have lengthEq := node.value.data_length
  have readable : node.value.data ≠ [] := by
    rw [← List.length_pos_iff, lengthEq]
    omega
  rw [spanOf_readable readable, List.singleton_append, skipSpans]
  by_cases partly : len < node.value.readableBytes
  · have left : read.data ≠ [] := by
      rw [← List.length_pos_iff, dataEq, List.length_drop, lengthEq]
      omega
    rw [if_pos (by rw [lengthEq]; exact partly), spanOf_readable left, dataEq, moved partly]
    rfl
  · have drained : read.data = [] := by
      rw [dataEq, List.drop_eq_nil_of_le (by omega)]
    have exhausted : len - node.value.data.length = 0 := by omega
    have outside : ¬ len < node.value.data.length := by omega
    rw [if_neg outside, spanOf_drained drained, exhausted, skipSpans_zero nonempty]
    rfl

theorem skipSpans_passed {node : Node DataBlock} {len : Nat}
    (covered : node.value.readableBytes ≤ len) (more : List Span) :
    skipSpans len (spanOf node ++ more) = skipSpans (len - node.value.readableBytes) more := by
  have lengthEq := node.value.data_length
  by_cases none : node.value.data = []
  · have drained : node.value.readableBytes = 0 := by
      rw [← lengthEq, none]
      rfl
    rw [spanOf_drained none, drained]
    rfl
  · have outside : ¬ len < node.value.data.length := by omega
    rw [spanOf_readable none, List.singleton_append, skipSpans, if_neg outside, lengthEq]

/-- What the first loop of `discard` makes of the blocks up to the last used one: it leaves
the ones it passes without data, and the others hold the rest of the readable ranges. -/
structure Drains (front : List (Node DataBlock)) (last : Node DataBlock)
    (spare : List (Node DataBlock)) (len : Nat) (dead live : List (Node DataBlock))
    (last' : Node DataBlock) : Prop where
  empty : ∀ node ∈ dead, node.value.data = []
  address : last'.address = last.address
  layout : Layout live last' spare
  spans : spansOf (live ++ [last']) = skipSpans len (spansOf (front ++ [last]))

section Drains

variable {front rest spare dead live : List (Node DataBlock)}
  {node node' last last' : Node DataBlock} {len : Nat}

theorem Drains.untouched (layout : Layout front last spare) (none : len = 0) :
    Drains front last spare len [] front last where
  empty := List.forall_mem_nil _
  address := rfl
  layout := layout
  spans := by rw [none, skipSpans_zero (spansOf_nonempty _)]

/-- A block the loop passes. -/
theorem Drains.cons (covered : node.value.readableBytes ≤ len) (emptied : node'.value.data = [])
    (later : Drains rest last spare (len - node.value.readableBytes) dead live last') :
    Drains (node :: rest) last spare len (node' :: dead) live last' where
  empty := by
    intro other member
    rcases List.mem_cons.mp member with rfl | old
    · exact emptied
    · exact later.empty other old
  address := later.address
  layout := later.layout
  spans := by
    rw [later.spans, List.cons_append, spansOf_cons]
    exact (skipSpans_passed covered _).symm

end Drains

/-- The first loop of `discard`: it ends, and what remains has the shape of a Buffer again. -/
theorem drain_spec {front : List (Node DataBlock)} :
    ∀ {list : Chain DataBlock} {before : List (Node DataBlock)} {last : Node DataBlock}
      {spare : List (Node DataBlock)} {len : Nat},
      list.nodes = before ++ (front ++ last :: spare) → Layout front last spare →
      len ≤ (bytesOf (front ++ [last])).length →
      ∃ list' dead live last', drain list (front ++ last :: spare) len = .ok list' ∧
        list'.nodes = before ++ (dead ++ (live ++ last' :: spare)) ∧
        Drains front last spare len dead live last' := by
  induction front with
  | nil =>
      intro list before last spare len blocks layout enough
      by_cases none : len = 0
      · exact ⟨list, [], [], last, by rw [List.nil_append, drain, if_pos none], blocks,
          .untouched layout none⟩
      · have inside : len ≤ last.value.readableBytes := by
          rw [List.nil_append, bytesOf_cons_length] at enough
          exact enough
        obtain ⟨read, hRead, dataEq, _full, moved⟩ := advanceRead_spec last.value inside
        refine ⟨list.assign last.address read, [], [], ⟨last.address, read⟩, ?_,
          Chain.assign_nodes blocks read, List.forall_mem_nil _, rfl, ?_, ?_⟩
        · rw [List.nil_append, drain, if_neg none, if_pos inside, hRead]
          rfl
        · exact
            { full := layout.full
              unshifted := by intro node member; simp at member
              unused := layout.unused }
        · exact spanOf_advanced (List.forall_mem_nil _) (Nat.pos_of_ne_zero none) inside
            dataEq moved
  | cons node rest ih =>
      intro list before last spare len blocks layout enough
      have lengthEq := bytesOf_cons_length node (rest ++ [last])
      rw [← List.cons_append] at lengthEq
      rw [lengthEq] at enough
      by_cases none : len = 0
      · exact ⟨list, [], node :: rest, last, by rw [List.cons_append, drain, if_pos none],
          blocks, .untouched layout none⟩
      · by_cases inside : len ≤ node.value.readableBytes
        · obtain ⟨read, hRead, dataEq, full, moved⟩ := advanceRead_spec node.value inside
          refine ⟨list.assign node.address read, [], ⟨node.address, read⟩ :: rest, last, ?_,
            Chain.assign_nodes blocks read, List.forall_mem_nil _, rfl, ?_, ?_⟩
          · rw [List.cons_append, drain, if_neg none, if_pos inside, hRead]
            rfl
          · exact
              { full := by
                  intro other member
                  rcases List.mem_cons.mp member with rfl | old
                  · exact full (layout.full node List.mem_cons_self)
                  · exact layout.full other (List.mem_cons_of_mem _ old)
                unshifted := layout.unshifted
                unused := layout.unused }
          · exact spanOf_advanced (spansOf_nonempty _) (Nat.pos_of_ne_zero none) inside
              dataEq moved
        · have covered : node.value.readableBytes ≤ len := by omega
          have fewer : len - node.value.readableBytes ≤ (bytesOf (rest ++ [last])).length := by
            omega
          by_cases some : 0 < node.value.readableBytes
          · obtain ⟨read, hRead, dataEq, _full, _moved⟩ :=
              advanceRead_spec node.value (Nat.le_refl node.value.readableBytes)
            have emptied : read.data = [] := by
              rw [dataEq, List.drop_eq_nil_of_le]
              exact Nat.le_of_eq (DataBlock.data_length _)
            have assignedNodes : (list.assign node.address read).nodes =
                (before ++ [⟨node.address, read⟩]) ++ (rest ++ last :: spare) := by
              rw [Chain.assign_nodes blocks read]
              simp
            obtain ⟨list', dead, live, last', hDrain, nodesEq, later⟩ :=
              ih assignedNodes layout.of_cons fewer
            refine ⟨list', ⟨node.address, read⟩ :: dead, live, last', ?_,
              by rw [nodesEq]; simp, later.cons covered emptied⟩
            rw [List.cons_append, drain, if_neg none, if_neg inside, if_pos some, hRead]
            exact hDrain
          · have drained : node.value.readableBytes = 0 := by omega
            have noData : node.value.data = [] := by
              rw [← List.length_eq_zero_iff, DataBlock.data_length]
              exact drained
            have sameNodes : list.nodes = (before ++ [node]) ++ (rest ++ last :: spare) := by
              rw [blocks]
              simp
            obtain ⟨list', dead, live, last', hDrain, nodesEq, later⟩ :=
              ih sameNodes layout.of_cons fewer
            refine ⟨list', node :: dead, live, last', ?_, by rw [nodesEq]; simp,
              later.cons covered noData⟩
            rw [drained, Nat.sub_zero] at hDrain
            rw [List.cons_append, drain, if_neg none, if_neg inside, if_neg some]
            exact hDrain

/-- The second loop of `discard` erases the leading empty blocks. -/
theorem eraseDrained_spec {front : List (Node DataBlock)} :
    ∀ {list : Chain DataBlock} {last : Node DataBlock} {spare : List (Node DataBlock)},
      list.nodes = front ++ last :: spare →
      ∃ list' gone kept, eraseDrained list (.node last.address) (front ++ last :: spare) =
          .ok (list', list'.start) ∧
        front = gone ++ kept ∧ list'.nodes = kept ++ last :: spare ∧
        list'.past = list.past ∧ (∀ node ∈ gone, node.value.data = []) ∧
        ∀ node ∈ kept.head?, node.value.data ≠ [] := by
  induction front with
  | nil =>
      intro list last spare blocks
      refine ⟨list, [], [], ?_, rfl, blocks, rfl, List.forall_mem_nil _, by simp⟩
      rw [List.nil_append, eraseDrained, if_pos rfl, Chain.start, blocks]
      rfl
  | cons node rest ih =>
      intro list last spare blocks
      have different : (.node node.address : Position) ≠ .node last.address := by
        intro same
        exact Chain.absent_before blocks node List.mem_cons_self (Position.node.inj same)
      by_cases some : 0 < node.value.readableBytes
      · refine ⟨list, [], node :: rest, ?_, rfl, blocks, rfl,
          List.forall_mem_nil _, ?_⟩
        · rw [List.cons_append, eraseDrained, if_neg different, if_pos some, Chain.start,
            blocks]
          rfl
        · intro other member none
          obtain rfl : node = other := by simpa using member
          rw [← DataBlock.data_length, none] at some
          exact Nat.lt_irrefl 0 some
      · have noData : node.value.data = [] := by
          rw [← List.length_eq_zero_iff, DataBlock.data_length]
          omega
        have headed : list.nodes = [] ++ node :: (rest ++ last :: spare) := blocks
        have erased : (list.erase node.address).nodes = rest ++ last :: spare := by
          rw [Chain.erase_nodes headed]
          rfl
        obtain ⟨list', gone, kept, hErase, frontEq, nodesEq, pastEq, goneEmpty, keptHead⟩ :=
          ih erased
        refine ⟨list', node :: gone, kept, ?_, by rw [frontEq]; rfl, nodesEq, pastEq, ?_,
          keptHead⟩
        · rw [List.cons_append, eraseDrained, if_neg different, if_neg some, hErase]
        · intro other member
          rcases List.mem_cons.mp member with rfl | old
          · exact noData
          · exact goneEmpty other old

/-- The blocks in front of `lastWithData_`. -/
def frontBlocks (b : Buffer) : List (Node DataBlock) :=
  b.list.nodes.takeWhile fun node => (.node node.address : Position) ≠ b.lastWithData

/-- No block in front of the last used one is empty. -/
def Trimmed (b : Buffer) : Prop := ∀ node ∈ b.frontBlocks, node.value.data ≠ []

theorem frontBlocks_eq {b : Buffer} {front spare : List (Node DataBlock)}
    {last : Node DataBlock} (blocks : b.list.nodes = front ++ last :: spare)
    (lastAt : b.lastWithData = .node last.address) : b.frontBlocks = front := by
  have absent := Chain.absent_before blocks
  unfold frontBlocks
  rw [blocks, lastAt, List.takeWhile_append_of_pos]
  · simp
  · intro node member
    simpa using absent node member

/-- Blocks behind a written first block are read from their start, so only the
first one can be empty. -/
theorem layout_nonempty {front spare : List (Node DataBlock)} {last : Node DataBlock}
    (layout : Layout front last spare) (head : ∀ node ∈ front.head?, node.value.data ≠ []) :
    ∀ node ∈ front, node.value.data ≠ [] := by
  cases front with
  | nil =>
      exact List.forall_mem_nil _
  | cons first rest =>
      intro node member
      rcases List.mem_cons.mp member with rfl | inRest
      · exact head node rfl
      · intro none
        have readZero := layout.unshifted node (by simp [inRest])
        have full := layout.full node member
        have positive := node.value.capacity_pos
        have samePositions := (DataBlock.data_eq_nil_iff _).mp none
        omega

theorem Layout.of_append {gone front spare : List (Node DataBlock)} {last : Node DataBlock}
    (layout : Layout (gone ++ front) last spare) : Layout front last spare := by
  induction gone with
  | nil =>
      exact layout
  | cons node rest ih =>
      exact ih layout.of_cons

theorem discard_occupied {b : Buffer} {front spare : List (Node DataBlock)}
    {last : Node DataBlock} {len : Nat} (blocks : b.list.nodes = front ++ last :: spare)
    (first : b.firstWithData = b.list.start) (lastAt : b.lastWithData = .node last.address)
    (layout : Layout front last spare)
    (readable : b.readableBytes = (bytesOf (front ++ [last])).length)
    (enough : len ≤ (bytesOf (front ++ [last])).length) :
    ∃ b', b.discard len = .ok b' ∧ Represents b' ((bytesOf (front ++ [last])).drop len) ∧
      b'.Trimmed ∧ b'.all = .ok (skipSpans len (spansOf (front ++ [last]))) := by
  have whole : b.list.nodes = [] ++ (front ++ last :: spare) := blocks
  obtain ⟨drained, dead, live, last', hDrain, drainedNodes, deadEmpty, sameAddress,
    liveLayout, held⟩ := drain_spec whole layout enough
  rw [List.nil_append, ← List.append_assoc] at drainedNodes
  obtain ⟨list, gone, kept, hErase, splitEq, nodesEq, _pastEq, goneEmpty, keptHead⟩ :=
    eraseDrained_spec drainedNodes
  rw [sameAddress, ← drainedNodes] at hErase
  -- the loop cannot stop among the blocks that were just drained
  obtain ⟨passed, liveEq, passedEmpty⟩ : ∃ passed, live = passed ++ kept ∧
      ∀ node ∈ passed, node.value.data = [] := by
    rcases List.append_eq_append_iff.mp splitEq with ⟨more, goneEq, liveEq⟩ | ⟨more, deadEq, keptEq⟩
    · refine ⟨more, liveEq, fun node member => goneEmpty node ?_⟩
      rw [goneEq]
      exact List.mem_append_right _ member
    · cases more with
      | nil =>
          exact ⟨[], by rw [keptEq]; rfl, List.forall_mem_nil _⟩
      | cons node rest =>
          have atHead : node ∈ kept.head? := by
            rw [keptEq]
            rfl
          have empty : node.value.data = [] := by
            apply deadEmpty
            rw [deadEq]
            exact List.mem_append_right _ List.mem_cons_self
          exact absurd empty (keptHead node atHead)
  rw [liveEq] at liveLayout held
  have keptLayout := Layout.of_append liveLayout
  have keptSpans : spansOf (kept ++ [last']) = skipSpans len (spansOf (front ++ [last])) := by
    rw [← held, List.append_assoc, spansOf_append passed, spansOf_drained passedEmpty,
      List.nil_append]
  have keptHeld : bytesOf (kept ++ [last']) = (bytesOf (front ++ [last])).drop len := by
    rw [← spanBytes_spansOf, keptSpans, spanBytes_skipSpans, spanBytes_spansOf]
  have lastAddress : b.lastWithData = .node last'.address := by
    rw [lastAt, sameAddress]
  refine ⟨{ list := list
            firstWithData := list.start
            lastWithData := b.lastWithData
            readableBytes := b.readableBytes - len
            capacity := b.capacity }, ?_, ?_, ?_, ?_⟩
  · unfold discard
    rw [if_pos (by rw [readable]; exact enough), first, Chain.walk_start, blocks, lastAt]
    simp only [orBadIterator, ok_bind, hDrain, hErase]
    rfl
  · refine .occupied kept last' spare nodesEq rfl lastAddress keptLayout keptHeld.symm ?_
    simp only [readable, List.length_drop]
  · unfold Trimmed
    rw [frontBlocks_eq nodesEq (by exact lastAddress)]
    exact layout_nonempty keptLayout keptHead
  · rw [← keptSpans]
    exact all_occupied nodesEq rfl lastAddress

theorem discard_spec {b : Buffer} {content : List Byte} (represents : Represents b content)
    {len : Nat} (enough : len ≤ content.length) :
    ∃ b', b.discard len = .ok b' ∧ Represents b' (content.drop len) ∧ b'.Trimmed ∧
      ∀ found, b.all = .ok found → b'.all = .ok (skipSpans len found) := by
  cases represents with
  | vacant noBlocks first last readable empty =>
      subst empty
      obtain rfl : len = 0 := Nat.le_zero.mp enough
      have walked : b.list.walk b.firstWithData = some [] := by
        rw [first, Chain.walk_past]
      refine ⟨{ b with firstWithData := b.list.past }, ?_,
        .vacant noBlocks rfl last readable rfl, ?_, ?_⟩
      · unfold discard
        rw [if_pos (Nat.zero_le _), walked]
        simp only [orBadIterator, ok_bind, drain, noBlocks, eraseDrained, last, if_true]
        rfl
      · unfold Trimmed frontBlocks
        rw [noBlocks]
        exact List.forall_mem_nil _
      · intro found hAll
        rw [all_vacant first last] at hAll
        rw [← Except.ok.inj hAll]
        exact all_vacant rfl last
  | occupied front last spare blocks first lastAt layout held readable =>
      subst held
      rcases discard_occupied blocks first lastAt layout readable enough with
        ⟨b', hDiscard, represents, trimmed, allEq⟩
      refine ⟨b', hDiscard, represents, trimmed, ?_⟩
      intro found hAll
      rw [all_occupied blocks first lastAt] at hAll
      rw [← Except.ok.inj hAll]
      exact allEq

theorem discardAll_spec (b : Buffer) : Represents b.discardAll [] :=
  .vacant rfl rfl rfl rfl rfl

theorem retrieveAsString_spec {b : Buffer} {content : List Byte}
    (represents : Represents b content) {len : Nat} (enough : len ≤ content.length) :
    ∃ b', b.retrieveAsString len = .ok (content.take len, b') ∧
      Represents b' (content.drop len) ∧ b'.Trimmed ∧
      ∀ found, b.all = .ok found → b'.all = .ok (skipSpans len found) := by
  obtain ⟨b', hDiscard, rest⟩ := discard_spec represents enough
  refine ⟨b', ?_, rest⟩
  unfold retrieveAsString
  rw [if_pos (by rw [represents.readable_eq]; exact enough),
    toStringLen_spec represents enough]
  simp only [ok_bind, hDiscard]
  rfl

/-- A Buffer answers every query as the byte string `content`. -/
structure Reads (b : Buffer) (content : List Byte) : Prop where
  whole : b.toString = .ok content
  counted : b.readableBytes = content.length
  listed : ∃ found, b.all = .ok found ∧ spanBytes found = content

theorem represents_reads {b : Buffer} {content : List Byte} (represents : Represents b content) :
    b.Reads content := by
  rcases all_spec represents with ⟨found, hAll, bytesEq, _nonempty⟩
  constructor
  · exact toString_spec represents
  · exact represents.readable_eq
  · exact ⟨found, hAll, bytesEq⟩

end Buffer

end Uvcpp
