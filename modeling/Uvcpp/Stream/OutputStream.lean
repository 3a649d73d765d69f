/-
Writing into a Buffer through a `BufferOutputStream`.

`Next` commits the whole free space of a block before the client has written into it, and
reports its length as an `int`.  `BackUp` takes the end of it back.
-/

import Uvcpp.Stream.InputStream

namespace Uvcpp

open LinkedList

structure BufferOutputStream where
  buffer : Buffer
  originalSize : Nat

namespace BufferOutputStream

def new (buffer : Buffer) : BufferOutputStream :=
  { buffer := buffer
    originalSize := buffer.readableBytes }

/-- `Next`: the window with the size it reports.  It always returns `true`. -/
def next (s : BufferOutputStream) : Except Fault (Window × Int × BufferOutputStream) := do
  let (b, window) ← s.buffer.next
  let b ← b.extend window.length
  pure (window, int32 window.length, { s with buffer := b })

/-- `BackUp`. -/
def backUp (s : BufferOutputStream) (count : Int) : Except Fault BufferOutputStream := do
  let b ← s.buffer.unwrite (sizeT count)
  pure { s with buffer := b }

/-- `ByteCount`. -/
def byteCount (s : BufferOutputStream) : Int :=
  int64 (sizeSub s.buffer.readableBytes s.originalSize)

/-! ### Runs of a stream -/

inductive Call where
  | next (bytes : List Byte)
  | backUp (count : Nat)

/-- A stream with the bytes its client has written: into the window of a `Next` just before,
and into the earlier windows, as far as they were kept. -/
structure Writing where
  stream : BufferOutputStream
  handed : Option (List Byte)
  kept : List Byte

def start (b : Buffer) : Writing :=
  { stream := .new b
    handed := none
    kept := [] }

/-- Everything written and not taken back. -/
def Writing.written (w : Writing) : List Byte := w.kept ++ w.handed.getD []

/-- One call; `none` when it is not the client's to make, or fails.  The client fills all
of a window, and backs up directly after `Next` and not by more than that has returned. -/
def perform (w : Writing) : Call → Option Writing
  | .next bytes =>
      match w.stream.next with
      | .ok (window, size, s) =>
          if bytes.length = size.toNat then
            match s.buffer.fillWindow window bytes with
            | .ok b =>
                some
                  { stream := { s with buffer := b }
                    handed := some bytes
                    kept := w.written }
            | .error _ => none
          else none
      | .error _ => none
  | .backUp count =>
      match w.handed with
      | some bytes =>
          if count ≤ bytes.length then
            match w.stream.backUp count with
            | .ok s =>
                some
                  { stream := s
                    handed := none
                    kept := w.kept ++ bytes.take (bytes.length - count) }
            | .error _ => none
          else none
      | none => none

def system (b : Buffer) : Transition.System Writing Call :=
  Transition.System.executed (fun w => w = start b) perform

/-- No window is longer than an `int` can say. -/
def Measured (w : Writing) : Call → Prop
  | .next _ => w.stream.buffer.freeSpace < 2147483648
  | .backUp _ => True

/-- The Buffer holds what it held before and what was written since, ByteCount says how
much that is, and a BackUp completes. -/
structure Holds (content : List Byte) (w : Writing) : Prop where
  reads : w.stream.buffer.Reads (content ++ w.written)
  counted : w.stream.byteCount = int64 w.written.length
  backs : ∀ bytes count, w.handed = some bytes → count ≤ bytes.length →
    ∃ w', perform w (.backUp count) = some w'

/-- A `Next` returns a window of some size, and whatever the client writes into it is
appended. -/
def Extends (content : List Byte) (w : Writing) : Prop :=
  ∃ window size s, w.stream.next = .ok (window, size, s) ∧ 0 < size ∧
    ∀ bytes, bytes.length = size.toNat →
      ∃ w', perform w (.next bytes) = some w' ∧ Holds content w'

/-! ### Steps -/

/-- The invariant of a stream on a Buffer that stood for `content`. -/
structure Tracks (content : List Byte) (w : Writing) : Prop where
  represents : Represents w.stream.buffer (content ++ w.written)
  original : w.stream.originalSize = content.length
  last : ∀ bytes, w.handed = some bytes → ∃ value,
    w.stream.buffer.block w.stream.buffer.lastWithData = .ok value ∧
      bytes.length ≤ value.readableBytes

theorem start_tracks {b : Buffer} {content : List Byte} (represents : Represents b content) :
    Tracks content (start b) := by
  constructor
  · simpa [start, Writing.written, new] using represents
  · exact represents.readable_eq
  · intro bytes impossible
    cases impossible

/-- A window that an `int` can measure takes the client's bytes. -/
theorem Tracks.next {content : List Byte} {w : Writing} (tracks : Tracks content w)
    (measured : w.stream.buffer.freeSpace < 2147483648) :
    ∃ window size s, w.stream.next = .ok (window, size, s) ∧ 0 < size ∧
      ∀ bytes, bytes.length = size.toNat →
        ∃ w', perform w (.next bytes) = some w' ∧ Tracks content w' := by
  obtain ⟨b, window, hNext, offers, length⟩ := Buffer.next_offers tracks.represents
  have size : int32 window.length = window.length := int32_of_small (by omega) (by omega)
  have positive := offers.length_pos
  have filled (bytes : List Byte) (whole : bytes.length = window.length) :=
    Buffer.extend_fill_spec offers whole
  obtain ⟨extended, _b', hExtend, _fill⟩ :=
    filled (List.replicate window.length 0) List.length_replicate
  have handsOut : w.stream.next =
      .ok (window, int32 window.length, { w.stream with buffer := extended }) := by
    simp only [BufferOutputStream.next, hNext, ok_bind, hExtend]
    rfl
  refine ⟨window, int32 window.length, _, handsOut, by omega, ?_⟩
  intro bytes whole
  have whole' : bytes.length = window.length := by omega
  obtain ⟨extended', b', hExtend', hFill, represents, last⟩ := filled bytes whole'
  rw [hExtend] at hExtend'
  cases hExtend'
  refine ⟨{ stream := { w.stream with buffer := b' }, handed := some bytes, kept := w.written },
    ?_, ?_, tracks.original, ?_⟩
  · simp only [perform, handsOut, if_pos whole, hFill]
  · simpa [Writing.written] using represents
  · intro others same
    cases same
    exact last

/-- Taking back the end of the bytes just written. -/
theorem Tracks.backUp {content bytes : List Byte} {w : Writing} (tracks : Tracks content w)
    (returned : w.handed = some bytes) {count : Nat} (within : count ≤ bytes.length) :
    ∃ w', perform w (.backUp count) = some w' ∧ Tracks content w' := by
  obtain ⟨value, reached, room⟩ := tracks.last bytes returned
  have bounded : value.buffer.length ≤ 9223372036854775808 := value.sized.2
  have fits := value.fits
  have enough : count ≤ value.readableBytes := Nat.le_trans within room
  have sizeEq : sizeT (count : Int) = count := by
    apply sizeT_of_nat
    unfold DataBlock.readableBytes at enough
    omega
  obtain ⟨b', hUnwrite, represents⟩ := Buffer.unwrite_spec tracks.represents reached enough
  have takesBack : w.stream.backUp count = .ok { w.stream with buffer := b' } := by
    simp only [BufferOutputStream.backUp, sizeEq, hUnwrite, ok_bind]
    rfl
  refine ⟨{ stream := { w.stream with buffer := b' }, handed := none,
            kept := w.kept ++ bytes.take (bytes.length - count) }, ?_, ?_, tracks.original, ?_⟩
  · simp only [perform, returned, if_pos within, takesBack]
  · have kept : (content ++ w.written).take ((content ++ w.written).length - count) =
        content ++ (w.kept ++ bytes.take (bytes.length - count)) := by
      have whole : content ++ w.written = (content ++ w.kept) ++ bytes := by
        simp [Writing.written, returned]
      have total : ((content ++ w.kept) ++ bytes).length =
          (content ++ w.kept).length + bytes.length := List.length_append
      rw [whole, List.take_append, List.take_of_length_le (by omega), List.append_assoc]
      congr 3
      omega
    rw [kept] at represents
    simpa [Writing.written] using represents
  · intro others impossible
    cases impossible

theorem Tracks.holds {content : List Byte} {w : Writing} (tracks : Tracks content w) :
    Holds content w := by
  constructor
  · exact Buffer.represents_reads tracks.represents
  · have readable := tracks.represents.readable_eq
    rw [byteCount, readable, tracks.original, List.length_append]
    unfold int64 sizeSub
    omega
  · intro bytes count returned within
    obtain ⟨w', performed, _tracks⟩ := tracks.backUp returned within
    exact ⟨w', performed⟩

theorem Tracks.step {content : List Byte} {w w' : Writing} {call : Call}
    (tracks : Tracks content w) (measured : Measured w call)
    (performed : perform w call = some w') : Tracks content w' := by
  cases call with
  | next bytes =>
      obtain ⟨window, size, s, hNext, _positive, fills⟩ := tracks.next measured
      have whole : bytes.length = size.toNat := by
        by_contra other
        simp only [perform, hNext, if_neg other] at performed
        cases performed
      obtain ⟨other, found, after⟩ := fills bytes whole
      rw [performed] at found
      rw [Option.some.inj found]
      exact after
  | backUp count =>
      cases returned : w.handed with
      | none =>
          simp only [perform, returned] at performed
          cases performed
      | some bytes =>
          have within : count ≤ bytes.length := by
            by_contra other
            simp only [perform, returned, if_neg other] at performed
            cases performed
          obtain ⟨other, found, after⟩ := tracks.backUp returned within
          rw [performed] at found
          rw [Option.some.inj found]
          exact after

theorem perform_next {w w' : Writing} {bytes : List Byte}
    (performed : perform w (.next bytes) = some w') :
    ∃ window size s b, w.stream.next = .ok (window, size, s) ∧ bytes.length = size.toNat ∧
      s.buffer.fillWindow window bytes = .ok b ∧ w'.stream.buffer = b ∧
        w'.written = w.written ++ bytes := by
  simp only [perform] at performed
  split at performed
  · rename_i window size s hNext
    split at performed
    · rename_i whole
      split at performed
      · rename_i b hFill
        cases performed
        exact ⟨window, size, s, b, hNext, whole, hFill, rfl, rfl⟩
      · cases performed
    · cases performed
  · cases performed

/-- Of a longer window `Next` commits more than the client is told. -/
theorem Tracks.overcommits {content : List Byte} {w : Writing} (tracks : Tracks content w)
    (wide : ¬ w.stream.buffer.freeSpace < 2147483648) : ¬ Extends content w := by
  rintro ⟨_window, size, _s, hNext, _positive, fills⟩
  obtain ⟨w', performed, holds⟩ := fills (List.replicate size.toNat 0) List.length_replicate
  obtain ⟨window, size', s, b', hNext', whole, hFill, same, written⟩ := perform_next performed
  rw [hNext] at hNext'
  cases hNext'
  obtain ⟨b, window', hWindow, offers, length⟩ := Buffer.next_offers tracks.represents
  rw [BufferOutputStream.next, hWindow, ok_bind] at hNext
  obtain ⟨extended, hExtend, hNext⟩ := ok_of_bind hNext
  obtain ⟨windowEq, rest⟩ := Prod.mk.inj (Except.ok.inj hNext)
  obtain ⟨sizeEq, streamEq⟩ := Prod.mk.inj rest
  subst windowEq sizeEq streamEq
  have committed := Buffer.extend_readable hExtend
  have filled := Buffer.fillWindow_readable hFill
  have told := holds.reads.counted
  rw [same, written, List.length_append, List.length_append, whole] at told
  have before := offers.represents.readable_eq
  rw [List.length_append] at before
  have narrowed := (int32_range window'.length).2
  have held : b'.readableBytes = b.readableBytes + window'.length := filled.trans committed
  omega

/-! ### Runs -/

theorem reachable_tracks {b : Buffer} {content : List Byte} (represents : Represents b content)
    {w : Writing} (run : Transition.Reachable ((system b).restrict Measured) w) :
    Tracks content w := by
  induction run with
  | start begins =>
      cases begins
      exact start_tracks represents
  | next _before taken ih => exact ih.step taken.1 taken.2

end BufferOutputStream

open BufferOutputStream in
/-- **Writing through a stream.** In every run whose windows an `int` can measure, the Buffer
holds its old content and what the client wrote and kept, and ByteCount says how much; the
next `Next` appends as it should exactly when its window can be measured as well. -/
theorem output_stream_appends_iff {owner : Nat} {state : Session × List Byte}
    (reachable : Transition.Reachable (Session.system owner) state) {w : Writing}
    (run : Transition.Reachable ((system state.1.buffer).restrict Measured) w) :
    Holds state.2 w ∧ (Extends state.2 w ↔ w.stream.buffer.freeSpace < 2147483648) := by
  have represents := Session.reachable_represents reachable
  have tracks := reachable_tracks represents run
  refine ⟨tracks.holds, ?_, ?_⟩
  · intro appended
    by_contra wide
    exact tracks.overcommits wide appended
  · intro measured
    obtain ⟨window, size, s, hNext, positive, fills⟩ := tracks.next measured
    refine ⟨window, size, s, hNext, positive, ?_⟩
    intro bytes whole
    obtain ⟨w', performed, after⟩ := fills bytes whole
    exact ⟨w', performed, after.holds⟩

/-! ### A long block -/

/-- The first append makes one block. -/
theorem Buffer.append_new (owner : Nat) (bytes : List Byte) (small : bytes.length ≤ maxLength)
    {size : Nat} (hSize : growSize bytes.length 64 minBufferSize = .ok size) :
    ∃ b' node, (Buffer.new owner).append bytes = .ok b' ∧ b'.list.nodes = [node] ∧
      b'.firstWithData = .node node.address ∧ b'.lastWithData = .node node.address ∧
      b'.readableBytes = bytes.length ∧ node.value.read = 0 ∧
      node.value.write = bytes.length ∧ node.value.capacity = size := by
  obtain ⟨grown, value, hGrown, nodesEq, firstEq, lastEq, readableEq, covers, readZero,
    writeZero⟩ := growBack_spec (b := Buffer.new owner) bytes.length small rfl
  have free : value.writeableBytes = size :=
    DataBlock.ofLength_free hSize (growBack_value hGrown nodesEq)
  have whole : value.capacity = size := by
    rw [← free, DataBlock.writeableBytes, writeZero, Nat.sub_zero]
    rfl
  have room : bytes.length ≤ value.writeableBytes := by omega
  obtain ⟨stored, hStored, dataEq, capacityEq, _full, unshifted⟩ := value.store_spec bytes room
  have alone : grown.list.nodes = [] ++ ⟨(Buffer.new owner).list.fresh, value⟩ :: [] := nodesEq
  have readEq := unshifted readZero
  have written : stored.write = bytes.length := by
    have noData : value.data = [] := by
      rw [DataBlock.data_eq_nil_iff, readZero, writeZero]
    have length := congrArg List.length dataEq
    rw [noData, List.nil_append, DataBlock.data_length, DataBlock.readableBytes, readEq] at length
    exact length
  have start : grown.firstWithData = .node (Buffer.new owner).list.fresh := by
    rw [firstEq, Chain.start, alone]
    rfl
  refine ⟨grown.writeBlock grown.lastWithData stored (grown.readableBytes + bytes.length),
    ⟨(Buffer.new owner).list.fresh, stored⟩, ?_, ?_, ?_, ?_, ?_, readEq, written,
    capacityEq.trans whole⟩
  · have atEnd : (Buffer.new owner).lastWithData = (Buffer.new owner).list.past := rfl
    have ensured : (Buffer.new owner).ensureLast bytes.length = .ok grown := by
      rw [ensureLast, if_pos atEnd, hGrown]
    rw [append, appendRounds, ensured, ok_bind, lastEq, block_node alone, ok_bind, if_pos room,
      hStored]
    rfl
  · rw [lastEq]
    exact writeBlock_nodes alone stored _
  · rw [writeBlock_firstWithData, start]
  · rw [writeBlock_lastWithData, lastEq]
  · rw [writeBlock_readableBytes, readableEq]
    exact Nat.zero_add _

/-- Discarding all of the only block, which was not written to its end, frees it. -/
theorem Buffer.discard_only {b : Buffer} {node : Node DataBlock} (blocks : b.list.nodes = [node])
    (first : b.firstWithData = .node node.address) (last : b.lastWithData = .node node.address)
    (readable : b.readableBytes = node.value.write) (readZero : node.value.read = 0)
    (some : node.value.write ≠ 0) (unfilled : node.value.write ≠ node.value.capacity) :
    ∃ b', b.discard node.value.write = .ok b' ∧ b'.freeSpace = node.value.capacity := by
  have alone : b.list.nodes = [] ++ node :: [] := blocks
  have walked : b.list.walk b.firstWithData = .some [node] := by
    rw [first]
    exact Chain.walk_node alone
  obtain ⟨drained, hDrained, capacityEq, readEq, writeEq⟩ :
      ∃ drained, node.value.setReadPosition node.value.write = .ok drained ∧
        drained.capacity = node.value.capacity ∧ drained.read = 0 ∧ drained.write = 0 := by
    rw [DataBlock.setReadPosition, dif_pos (Nat.le_refl _)]
    refine ⟨_, rfl, DataBlock.place_capacity, ?_, ?_⟩
    · rw [DataBlock.place, dif_pos ⟨rfl, unfilled⟩]
    · rw [DataBlock.place, dif_pos ⟨rfl, unfilled⟩]
  have drains : drain b.list [node] node.value.write =
      .ok (b.list.assign node.address drained) := by
    have covered : node.value.write ≤ node.value.readableBytes := by
      unfold DataBlock.readableBytes
      omega
    rw [drain, if_neg some, if_pos covered, readZero, Nat.zero_add, hDrained]
    rfl
  have drainedNodes : (b.list.assign node.address drained).nodes =
      [] ++ ⟨node.address, drained⟩ :: [] := Chain.assign_nodes alone drained
  have erased : eraseDrained (b.list.assign node.address drained) b.lastWithData
      (b.list.assign node.address drained).nodes =
        .ok (b.list.assign node.address drained, .node node.address) := by
    rw [drainedNodes, List.nil_append, eraseDrained, if_pos last.symm]
  refine ⟨{ list := b.list.assign node.address drained, firstWithData := .node node.address,
            lastWithData := b.lastWithData, readableBytes := b.readableBytes - node.value.write,
            capacity := b.capacity }, ?_, ?_⟩
  · unfold discard
    rw [if_pos (Nat.le_of_eq readable.symm), walked, orBadIterator, ok_bind, drains, ok_bind,
      erased]
    rfl
  · have positive := drained.capacity_pos
    have space : drained.writeableBytes = drained.capacity := by
      rw [DataBlock.writeableBytes, writeEq]
      rfl
    have notFull : drained.writeableBytes ≠ 0 := by omega
    have large : 2 ≤ drained.capacity := Nat.le_trans (by decide) drained.sized.1
    have noRoom : ¬ drained.capacity / 2 ≤ drained.prependableBytes := by
      rw [DataBlock.prependableBytes, readEq]
      omega
    have reached := Buffer.block_node (b := ⟨b.list.assign node.address drained,
      .node node.address, b.lastWithData, b.readableBytes - node.value.write, b.capacity⟩)
      drainedNodes
    simp only [freeSpace, last] at reached ⊢
    rw [reached]
    simp only [if_neg notFull, if_neg noRoom]
    rw [space, capacityEq]

/-- 2 GiB and one byte, appended and discarded again, leave a block with 4 GiB of free space. -/
theorem wide_reachable : ∃ state, Transition.Reachable (Session.system 0) state ∧
    state.2 = [] ∧ state.1.buffer.freeSpace = 4294967296 := by
  obtain ⟨bytes, length⟩ : ∃ bytes : List Byte, bytes.length = 2147483649 :=
    ⟨List.replicate 2147483649 0, List.length_replicate⟩
  have fits : bytes.length ≤ Buffer.maxLength := by
    rw [length]
    decide
  have hSize : growSize bytes.length 64 minBufferSize = .ok 4294967296 := by
    rw [length]
    decide +kernel
  obtain ⟨b, node, hAppend, blocks, first, last, readable, readZero, written, capacity⟩ :=
    Buffer.append_new 0 bytes fits hSize
  have start : Transition.Reachable (Session.system 0) (Session.new 0, []) := .start rfl
  have appended : Transition.Reachable (Session.system 0)
      ({ buffer := b, window := none, spent := bytes.length }, bytes) := by
    have legal : (Session.new 0).Legal (.append bytes) := by
      refine ⟨?_, trivial⟩
      change 0 + bytes.length < Buffer.maxLength
      rw [length]
      decide
    have performed : (Session.new 0).perform (.append bytes) =
        .ok { buffer := b, window := none, spent := bytes.length } := by
      simp only [Session.perform, Session.run, Session.new, Session.start, hAppend, ok_bind]
      rw [Nat.zero_add]
      rfl
    exact start.next ⟨legal, performed, rfl⟩
  obtain ⟨b', hDiscard, freed⟩ := Buffer.discard_only blocks first last
    (readable.trans written.symm) readZero (by omega) (by omega)
  rw [written] at hDiscard
  have discarded : Transition.Reachable (Session.system 0)
      ({ buffer := b', window := none, spent := bytes.length + bytes.length },
        bytes.drop bytes.length) := by
    have legal : Session.Legal { buffer := b, window := none, spent := bytes.length }
        (.discard bytes.length) := by
      refine ⟨?_, Nat.le_of_eq readable.symm⟩
      change bytes.length + bytes.length < Buffer.maxLength
      rw [length]
      decide
    have performed : Session.perform { buffer := b, window := none, spent := bytes.length }
        (.discard bytes.length) =
          .ok { buffer := b', window := none, spent := bytes.length + bytes.length } := by
      simp only [Session.perform, Session.run, hDiscard, ok_bind]
      rfl
    exact appended.next ⟨legal, performed, rfl⟩
  exact ⟨_, discarded, List.drop_of_length_le (Nat.le_refl _), freed.trans capacity⟩

open BufferOutputStream in
/-- Behind two bytes the client writes two more into a window of 1022 and takes back the rest. -/
theorem output_stream_appends_iff_backed_up :
    ∃ state w, Transition.Reachable (Session.system 0) state ∧ state.2 = [104, 105] ∧
      Transition.Reachable ((system state.1.buffer).restrict Measured) w ∧
        w.written = [111, 107] ∧ Holds state.2 w ∧ Extends state.2 w := by
  let check : Writing → Call → Bool := fun w _ => w.stream.buffer.freeSpace < 2147483648
  let calls : List Call := [.next (111 :: 107 :: List.replicate 1020 0), .backUp 1020]
  have found : ∃ s ∈ ((Session.new 0).perform (.append [104, 105])).toOption,
      ∃ w ∈ Transition.execute (Transition.checked check perform) (start s.buffer) calls,
        w.written = [111, 107] ∧ w.stream.buffer.freeSpace < 2147483648 := by
    decide +kernel
  obtain ⟨s, appended, found⟩ := found
  have begins : Transition.Reachable (Session.system 0) (Session.new 0, []) := .start rfl
  have legal : (Session.new 0).Legal (.append [104, 105]) := ⟨by decide, trivial⟩
  have reachable : Transition.Reachable (Session.system 0) (s, [104, 105]) :=
    begins.next ⟨legal, ok_of_toOption appended, rfl⟩
  have sound : ∀ w call, Transition.Reachable ((system s.buffer).restrict Measured) w →
      check w call = true → Measured w call := by
    intro w call _before checked
    cases call with
    | next bytes =>
        change w.stream.buffer.freeSpace < 2147483648
        exact of_decide_eq_true checked
    | backUp count => trivial
  obtain ⟨w, run, written, measured⟩ := Transition.exists_reachable_within sound found
  obtain ⟨holds, goesOn⟩ := output_stream_appends_iff reachable run
  exact ⟨(s, [104, 105]), w, reachable, rfl, run, written, holds, goesOn.mpr measured⟩

open BufferOutputStream in
/-- `Next` returns a window of size 0 and ByteCount says 4294967296. -/
theorem output_stream_hides_window : ∃ state, Transition.Reachable (Session.system 0) state ∧
    state.2 = [] ∧ (∃ window s, (BufferOutputStream.new state.1.buffer).next =
      .ok (window, 0, s) ∧ s.byteCount = 4294967296) ∧
        ¬ Extends state.2 (start state.1.buffer) := by
  obtain ⟨state, reachable, empty, wide⟩ := wide_reachable
  have represents := Session.reachable_represents reachable
  have tracks := start_tracks represents
  refine ⟨state, reachable, empty, ?_, tracks.overcommits ?_⟩
  · obtain ⟨b, window, hNext, offers, length⟩ := Buffer.next_offers represents
    obtain ⟨extended, _b', hExtend, _fill⟩ :=
      Buffer.extend_fill_spec offers (List.length_replicate (a := (0 : Byte)))
    refine ⟨window, { buffer := extended, originalSize := state.1.buffer.readableBytes }, ?_, ?_⟩
    · simp only [BufferOutputStream.next, BufferOutputStream.new, hNext, ok_bind, hExtend]
      rw [length, wide]
      rfl
    · have committed := Buffer.extend_readable hExtend
      have before := offers.represents.readable_eq
      have original := represents.readable_eq
      rw [empty] at before original
      change int64 (sizeSub extended.readableBytes state.1.buffer.readableBytes) = 4294967296
      rw [committed, before, original, length, wide]
      decide
  · change ¬ state.1.buffer.freeSpace < 2147483648
    rw [wide]
    decide

end Uvcpp
