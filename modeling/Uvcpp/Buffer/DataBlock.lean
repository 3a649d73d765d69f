/-
The fixed-size blocks a Buffer is made of.

A block is a byte region with a read and a write position.  The positions are
ordered and inside the region, and a drained block has both at the start or
both at the end of the region: the structure carries these facts, which the two
position setters establish by their assertions and their reset.
-/

import Mathlib.Algebra.Group.Nat.Defs
import Uvcpp.Library.Region

namespace Uvcpp

abbrev Byte := UInt8

/-- The ways in which a run leaves the behaviour the source defines. -/
inductive Fault where
  /-- An `assert` fails. -/
  | assertion
  /-- An iterator that is no element of the list is dereferenced or moved. -/
  | badIterator
  /-- A copy leaves the memory of its block. -/
  | outOfBounds
  /-- A loop or a recursion does not end. -/
  | divergence
deriving DecidableEq, Repr

instance instDecidableEqExcept {ε α : Type} [DecidableEq ε] [DecidableEq α] :
    DecidableEq (Except ε α)
  | .ok _, .ok _ => decidable_of_iff _ (Except.ok.injEq _ _).symm.to_iff
  | .error _, .error _ => decidable_of_iff _ (Except.error.injEq _ _).symm.to_iff
  | .ok _, .error _ => isFalse (fun impossible => by cases impossible)
  | .error _, .ok _ => isFalse (fun impossible => by cases impossible)

@[simp] theorem ok_bind {α β : Type} (value : α) (next : α → Except Fault β) :
    (Except.ok value >>= next) = next value := rfl

@[simp] theorem error_bind {α β : Type} (fault : Fault) (next : α → Except Fault β) :
    (Except.error fault >>= next) = .error fault := rfl

theorem ok_of_toOption {α : Type} {result : Except Fault α} {value : α}
    (completed : result.toOption = some value) : result = .ok value := by
  cases result with
  | error fault => cases completed
  | ok found =>
      cases completed
      rfl

/-- A computation that completes has completed its first part. -/
theorem ok_of_bind {α β : Type} {computation : Except Fault α} {next : α → Except Fault β}
    {result : β} (completes : (computation >>= next) = .ok result) :
    ∃ value, computation = .ok value ∧ next value = .ok result := by
  cases computation with
  | error fault =>
      cases completes
  | ok value =>
      exact ⟨value, rfl, completes⟩

/-- One more than the largest `size_t`. -/
def sizeModulus : Nat := 2 ^ 64

def minBufferSize : Nat := 1024

/-- `while (realSize < len) realSize *= 2;` in `size_t`.  Past 2^63 the product
wraps to zero and stays there, so a loop of 64 rounds never ends. -/
def growSize (len : Nat) : Nat → Nat → Except Fault Nat
  | 0, _ => .error .divergence
  | rounds + 1, realSize =>
      if realSize < len then growSize len rounds (realSize * 2 % sizeModulus)
      else .ok realSize

/-- The sizes a constructor can choose: the doubling starts at `MIN_BUFFER_SIZE`
and ends at the largest power of two that is a `size_t`. -/
def Sized (length : Nat) : Prop := minBufferSize ≤ length ∧ length ≤ 2 ^ 63

instance (length : Nat) : Decidable (Sized length) :=
  inferInstanceAs (Decidable (minBufferSize ≤ length ∧ length ≤ 2 ^ 63))

structure DataBlock where
  buffer : List Byte
  read : Nat
  write : Nat
  sized : Sized buffer.length
  ordered : read ≤ write
  fits : write ≤ buffer.length
  drained : read = write → write = 0 ∨ write = buffer.length
deriving DecidableEq

namespace DataBlock

/-- The state both position setters leave: a drained block restarts at zero
unless it was written to its very end. -/
def place (buffer : List Byte) (read write : Nat) (sized : Sized buffer.length)
    (ordered : read ≤ write) (fits : write ≤ buffer.length) : DataBlock :=
  if settled : read = write ∧ read ≠ buffer.length then
    { buffer := buffer
      read := 0
      write := 0
      sized := sized
      ordered := Nat.le_refl 0
      fits := Nat.zero_le _
      drained := fun _ => Or.inl rfl }
  else
    { buffer := buffer
      read := read
      write := write
      sized := sized
      ordered := ordered
      fits := fits
      drained := fun same => by
        right
        by_cases full : write = buffer.length
        · exact full
        · exact absurd ⟨same, same ▸ full⟩ settled }

/-- `DataBlock(size_t len)`. -/
def ofLength (len : Nat) : Except Fault DataBlock := do
  let realSize ← growSize len 64 minBufferSize
  if sized : Sized realSize then
    .ok (place (List.replicate realSize 0) 0 0 (by simpa using sized)
      (Nat.le_refl 0) (Nat.zero_le _))
  else
    .error .divergence

def capacity (block : DataBlock) : Nat := block.buffer.length

def readableBytes (block : DataBlock) : Nat := block.write - block.read

def writeableBytes (block : DataBlock) : Nat := block.buffer.length - block.write

def prependableBytes (block : DataBlock) : Nat := block.read

def totalSpace (block : DataBlock) : Nat := block.writeableBytes + block.prependableBytes

/-- The readable bytes themselves. -/
def data (block : DataBlock) : List Byte :=
  Region.window block.buffer block.read block.write

def setReadPosition (block : DataBlock) (pos : Nat) : Except Fault DataBlock :=
  if valid : pos ≤ block.write then
    .ok (place block.buffer pos block.write block.sized valid block.fits)
  else .error .assertion

def setWritePosition (block : DataBlock) (pos : Nat) : Except Fault DataBlock :=
  if valid : block.read ≤ pos ∧ pos ≤ block.buffer.length then
    .ok (place block.buffer block.read pos block.sized valid.1 valid.2)
  else .error .assertion

/-- `memcpy(peek() + offset, bytes, len)`. -/
def memcpy (block : DataBlock) (offset : Nat) (bytes : List Byte) : Except Fault DataBlock :=
  if room : offset + bytes.length ≤ block.buffer.length then
    .ok
      { buffer := Region.overwrite block.buffer offset bytes
        read := block.read
        write := block.write
        sized := by rw [Region.overwrite_length room]; exact block.sized
        ordered := block.ordered
        fits := by rw [Region.overwrite_length room]; exact block.fits
        drained := by rw [Region.overwrite_length room]; exact block.drained }
  else .error .outOfBounds

/-- The byte-moving loop of `realign`. -/
def moveToFront (block : DataBlock) : DataBlock :=
  { buffer := Region.moveDown block.buffer block.read 0 (block.write - block.read)
    read := block.read
    write := block.write
    sized := by rw [Region.moveDown_length]; exact block.sized
    ordered := block.ordered
    fits := by rw [Region.moveDown_length]; exact block.fits
    drained := by rw [Region.moveDown_length]; exact block.drained }

def realign (block : DataBlock) : Except Fault DataBlock :=
  if 0 < block.read then do
    let moved ← block.moveToFront.setReadPosition 0
    moved.setWritePosition block.readableBytes
  else .ok block

/-- Copy behind the written bytes and advance the write position. -/
def store (block : DataBlock) (bytes : List Byte) : Except Fault DataBlock := do
  let copied ← block.memcpy block.write bytes
  copied.setWritePosition (block.write + bytes.length)

/-- Copy in front of the readable bytes and move the read position back. -/
def storeBefore (block : DataBlock) (bytes : List Byte) : Except Fault DataBlock := do
  let copied ← block.memcpy (block.read - bytes.length) bytes
  copied.setReadPosition (block.read - bytes.length)

/-- Copy to the end of an empty block, as `prepend` does with a new one. -/
def storeAtEnd (block : DataBlock) (bytes : List Byte) : Except Fault DataBlock := do
  let offset := block.capacity - bytes.length
  let copied ← block.memcpy offset bytes
  let written ← copied.setWritePosition block.capacity
  written.setReadPosition offset

/-! ### Block size -/

theorem growSize_of_pow (len : Nat) (small : len ≤ 2 ^ 63) (rounds exponent : Nat)
    (enough : 64 ≤ rounds + exponent) (inRange : exponent ≤ 63) :
    ∃ size, growSize len rounds (2 ^ exponent) = .ok size ∧
      len ≤ size ∧ 2 ^ exponent ≤ size ∧ size ≤ 2 ^ 63 := by
  induction rounds generalizing exponent with
  | zero =>
      omega
  | succ rounds ih =>
      unfold growSize
      by_cases short : 2 ^ exponent < len
      · have below : exponent < 63 := by
          have bound : 2 ^ exponent < 2 ^ 63 := Nat.lt_of_lt_of_le short small
          exact (Nat.pow_lt_pow_iff_right (by decide)).mp bound
        have doubled : 2 ^ exponent * 2 % sizeModulus = 2 ^ (exponent + 1) := by
          rw [← Nat.pow_succ]
          apply Nat.mod_eq_of_lt
          exact Nat.pow_lt_pow_right (by decide) (by omega)
        obtain ⟨size, hSize, covers, grown, bounded⟩ := ih (exponent + 1) (by omega) (by omega)
        refine ⟨size, ?_, covers, ?_, bounded⟩
        · rw [if_pos short, doubled, hSize]
        · exact Nat.le_trans (Nat.pow_le_pow_right (by decide) (Nat.le_succ _)) grown
      · have bounded : 2 ^ exponent ≤ 2 ^ 63 := Nat.pow_le_pow_right (by decide) inRange
        exact ⟨2 ^ exponent, by rw [if_neg short], by omega, Nat.le_refl _, bounded⟩

/-! ### Positions -/

theorem data_length (block : DataBlock) : block.data.length = block.readableBytes :=
  Region.window_length_of_le block.fits

theorem capacity_pos (block : DataBlock) : 0 < block.capacity :=
  Nat.lt_of_lt_of_le (by decide) block.sized.1

section Place

variable {buffer : List Byte} {read write : Nat} {sized : Sized buffer.length}
  {ordered : read ≤ write} {fits : write ≤ buffer.length}

@[simp] theorem place_buffer :
    (place buffer read write sized ordered fits).buffer = buffer := by
  unfold place
  split <;> rfl

@[simp] theorem place_capacity :
    (place buffer read write sized ordered fits).capacity = buffer.length := by
  simp [capacity]

@[simp] theorem place_data :
    (place buffer read write sized ordered fits).data = Region.window buffer read write := by
  unfold place data
  split
  · rename_i settled
    rw [← settled.1, Region.window_self, Region.window_self]
  · rfl

theorem place_at_start (atStart : read = 0) :
    (place buffer read write sized ordered fits).read = 0 ∧
      (place buffer read write sized ordered fits).write = write := by
  unfold place
  split
  · rename_i settled
    exact ⟨rfl, atStart.symm.trans settled.1⟩
  · exact ⟨atStart, rfl⟩

theorem place_write_full (full : write = buffer.length) :
    (place buffer read write sized ordered fits).write = buffer.length ∧
      (place buffer read write sized ordered fits).read = read := by
  unfold place
  split
  · rename_i settled
    exact absurd (settled.1.trans full) settled.2
  · exact ⟨full, rfl⟩

theorem place_of_lt (unread : read < write) :
    (place buffer read write sized ordered fits).read = read := by
  unfold place
  rw [dif_neg (by omega)]

end Place

/-- A block whose positions are equal holds nothing; one that holds nothing
has equal positions. -/
theorem data_eq_nil_iff (block : DataBlock) : block.data = [] ↔ block.read = block.write := by
  have ordered := block.ordered
  rw [← List.length_eq_zero_iff, data_length, readableBytes]
  omega

/-! ### What each block operation does -/

theorem ofLength_spec (len : Nat) (small : len ≤ 2 ^ 63) :
    ∃ block, ofLength len = .ok block ∧ len ≤ block.capacity ∧
      block.read = 0 ∧ block.write = 0 := by
  obtain ⟨size, hSize, covers, grown, bounded⟩ :=
    growSize_of_pow len small 64 10 (by decide) (by decide)
  have start : 2 ^ 10 = minBufferSize := rfl
  rw [start] at hSize grown
  have sized : Sized size := ⟨grown, bounded⟩
  refine ⟨place (List.replicate size 0) 0 0 (by simpa using sized) (Nat.le_refl 0)
    (Nat.zero_le _), ?_, ?_, place_at_start rfl⟩
  · simp only [ofLength, hSize, ok_bind, dif_pos sized]
  · simpa using covers

theorem setReadPosition_spec (block : DataBlock) (pos : Nat) (valid : pos ≤ block.write) :
    ∃ block', block.setReadPosition pos = .ok block' ∧
      block'.data = Region.window block.buffer pos block.write ∧
      block'.buffer = block.buffer ∧
      (block.write = block.capacity → block'.write = block'.capacity ∧ block'.read = pos) ∧
      (pos = 0 → block'.read = 0 ∧ block'.write = block.write) ∧
      (pos < block.write → block'.read = pos) := by
  refine ⟨place block.buffer pos block.write block.sized valid block.fits,
    by rw [setReadPosition, dif_pos valid], place_data, place_buffer, ?_, place_at_start,
    place_of_lt⟩
  intro full
  rw [place_capacity]
  exact place_write_full full

theorem setWritePosition_spec (block : DataBlock) (pos : Nat)
    (valid : block.read ≤ pos ∧ pos ≤ block.buffer.length) :
    ∃ block', block.setWritePosition pos = .ok block' ∧
      block'.data = Region.window block.buffer block.read pos ∧
      block'.buffer = block.buffer ∧
      (pos = block.capacity → block'.write = block'.capacity ∧ block'.read = block.read) ∧
      (block.read = 0 → block'.read = 0 ∧ block'.write = pos) := by
  refine ⟨place block.buffer block.read pos block.sized valid.1 valid.2,
    by rw [setWritePosition, dif_pos valid], place_data, place_buffer, ?_, place_at_start⟩
  intro full
  rw [place_capacity]
  exact place_write_full full

theorem memcpy_spec (block : DataBlock) (offset : Nat) (bytes : List Byte)
    (room : offset + bytes.length ≤ block.buffer.length) :
    ∃ block', block.memcpy offset bytes = .ok block' ∧
      block'.buffer = Region.overwrite block.buffer offset bytes ∧
      block'.capacity = block.capacity ∧
      block'.read = block.read ∧ block'.write = block.write := by
  unfold memcpy
  rw [dif_pos room]
  exact ⟨_, rfl, rfl, Region.overwrite_length room, rfl, rfl⟩

theorem store_spec (block : DataBlock) (bytes : List Byte)
    (room : bytes.length ≤ block.writeableBytes) :
    ∃ block', block.store bytes = .ok block' ∧
      block'.data = block.data ++ bytes ∧ block'.capacity = block.capacity ∧
      (bytes.length = block.writeableBytes → block'.write = block'.capacity) ∧
      (block.read = 0 → block'.read = 0) := by
  have ordered := block.ordered
  have fits := block.fits
  have inRange : block.write + bytes.length ≤ block.buffer.length := by
    unfold writeableBytes at room
    omega
  obtain ⟨copied, hCopied, copiedBuffer, copiedCapacity, copiedRead, _copiedWrite⟩ :=
    block.memcpy_spec _ bytes inRange
  obtain ⟨block', hBlock, dataEq, bufferEq, full, atStart⟩ :=
    copied.setWritePosition_spec (block.write + bytes.length)
      ⟨by rw [copiedRead]; omega, by
        rw [copiedBuffer, Region.overwrite_length inRange]
        exact inRange⟩
  have capacityEq : block'.capacity = block.capacity := by
    rw [← copiedCapacity, capacity, bufferEq]
    rfl
  rw [copiedRead] at atStart
  refine ⟨block', ?_, ?_, capacityEq, ?_, fun unshifted => (atStart unshifted).1⟩
  · rw [store, hCopied, ok_bind, hBlock]
  · rw [dataEq, copiedBuffer, copiedRead, Region.window_overwrite_left inRange ordered]
    rfl
  · intro filled
    apply (full _).1
    rw [copiedCapacity]
    unfold writeableBytes at filled
    unfold capacity
    omega

theorem storeBefore_spec (block : DataBlock) (bytes : List Byte)
    (room : bytes.length ≤ block.prependableBytes) :
    ∃ block', block.storeBefore bytes = .ok block' ∧
      block'.data = bytes ++ block.data ∧ block'.capacity = block.capacity ∧
      (block.write = block.capacity → block'.write = block'.capacity) ∧
      (bytes.length = block.prependableBytes → block'.read = 0) := by
  have ordered := block.ordered
  have fits := block.fits
  unfold prependableBytes at room
  have restored : block.read - bytes.length + bytes.length = block.read := by omega
  have inRange : block.read - bytes.length + bytes.length ≤ block.buffer.length := by
    omega
  obtain ⟨copied, hCopied, copiedBuffer, copiedCapacity, _copiedRead, copiedWrite⟩ :=
    block.memcpy_spec _ bytes inRange
  obtain ⟨block', hBlock, dataEq, bufferEq, full, atStart⟩ :=
    copied.setReadPosition_spec (block.read - bytes.length)
      (by rw [copiedWrite]; omega)
  have capacityEq : block'.capacity = block.capacity := by
    rw [← copiedCapacity, capacity, bufferEq]
    rfl
  rw [copiedWrite, copiedCapacity] at full
  refine ⟨block', ?_, ?_, capacityEq, fun atEnd => (full atEnd).1, ?_⟩
  · rw [storeBefore, hCopied, ok_bind, hBlock]
  · rw [dataEq, copiedBuffer, copiedWrite,
      Region.window_overwrite_right inRange (by omega), restored]
    rfl
  · intro exhausted
    unfold prependableBytes at exhausted
    exact (atStart.1 (by omega)).1

theorem storeAtEnd_spec (block : DataBlock) (bytes : List Byte)
    (room : bytes.length ≤ block.capacity) :
    ∃ block', block.storeAtEnd bytes = .ok block' ∧ block'.data = bytes ∧
      block'.capacity = block.capacity ∧ block'.write = block'.capacity := by
  have ordered := block.ordered
  have fits := block.fits
  have restored : block.capacity - bytes.length + bytes.length = block.capacity := by
    omega
  have inRange : block.capacity - bytes.length + bytes.length ≤ block.buffer.length :=
    Nat.le_of_eq restored
  obtain ⟨copied, hCopied, copiedBuffer, copiedCapacity, copiedRead, _copiedWrite⟩ :=
    block.memcpy_spec _ bytes inRange
  obtain ⟨written, hWritten, _writtenData, writtenBuffer, writtenFull, _atStart⟩ :=
    copied.setWritePosition_spec block.capacity
      ⟨by rw [copiedRead]; exact Nat.le_trans ordered fits, by
        rw [copiedBuffer, Region.overwrite_length inRange]
        exact Nat.le_refl _⟩
  have capacityEq : written.capacity = block.capacity := by
    rw [← copiedCapacity, capacity, writtenBuffer]
    rfl
  have writeEq : written.write = written.capacity :=
    (writtenFull copiedCapacity.symm).1
  obtain ⟨block', hBlock, dataEq, bufferEq, full, _atZero⟩ :=
    written.setReadPosition_spec (block.capacity - bytes.length)
      (by rw [writeEq, capacityEq]; omega)
  have sameCapacity : block'.capacity = written.capacity := by
    rw [capacity, bufferEq]
    rfl
  refine ⟨block', ?_, ?_, by rw [sameCapacity, capacityEq], (full writeEq).1⟩
  · simp only [storeAtEnd, hCopied, ok_bind, hWritten, hBlock]
  · rw [dataEq, writtenBuffer, copiedBuffer, writeEq, capacityEq,
      Region.window_overwrite_right inRange (Nat.le_of_eq restored), restored,
      Region.window_self, List.append_nil]

theorem realign_spec (block : DataBlock) :
    ∃ block', block.realign = .ok block' ∧ block'.data = block.data ∧
      block'.capacity = block.capacity ∧ block'.read = 0 ∧
      block'.writeableBytes = block.totalSpace := by
  have ordered := block.ordered
  have fits := block.fits
  unfold realign
  by_cases shifted : 0 < block.read
  · have movedLength : block.moveToFront.buffer.length = block.buffer.length :=
      Region.moveDown_length ..
    obtain ⟨reset, hReset, _resetData, resetBuffer, _resetFull, resetStart⟩ :=
      setReadPosition_spec block.moveToFront 0 (Nat.zero_le _)
    obtain ⟨readZero, _writeSame⟩ := resetStart.1 rfl
    obtain ⟨block', hBlock, dataEq, bufferEq, _full, atStart⟩ :=
      setWritePosition_spec reset block.readableBytes
        ⟨by rw [readZero]; exact Nat.zero_le _, by
          rw [resetBuffer, movedLength, readableBytes]
          omega⟩
    obtain ⟨readEq, writeEq⟩ := atStart readZero
    have lengthEq : block'.buffer.length = block.buffer.length := by
      rw [bufferEq, resetBuffer, movedLength]
    refine ⟨block', ?_, ?_, lengthEq, readEq, ?_⟩
    · rw [if_pos shifted, hReset, ok_bind, hBlock]
    · -- the moved bytes end where the read bytes began to be counted
      have upper : block.read + block.readableBytes = block.write := by
        rw [readableBytes]
        omega
      have inRange : block.read + block.readableBytes ≤ block.buffer.length := by
        rw [upper]
        exact fits
      have carried :=
        Region.window_moveDown block.buffer block.readableBytes (Nat.zero_le _) inRange
      rw [Nat.zero_add, upper] at carried
      rw [dataEq, readZero, resetBuffer]
      exact carried
    · unfold totalSpace prependableBytes writeableBytes
      rw [lengthEq, writeEq, readableBytes]
      omega
  · have atStart : block.read = 0 := by omega
    refine ⟨block, by rw [if_neg shifted], rfl, rfl, atStart, ?_⟩
    simp [totalSpace, prependableBytes, atStart]

/-! ### The size of a block never changes -/

section Capacity

variable {block block' : DataBlock} {pos : Nat} {bytes : List Byte}

theorem setReadPosition_capacity (hSet : block.setReadPosition pos = .ok block') :
    block'.capacity = block.capacity := by
  unfold setReadPosition at hSet
  split at hSet
  · cases hSet
    exact place_capacity
  · cases hSet

theorem setWritePosition_capacity (hSet : block.setWritePosition pos = .ok block') :
    block'.capacity = block.capacity := by
  unfold setWritePosition at hSet
  split at hSet
  · cases hSet
    exact place_capacity
  · cases hSet

theorem memcpy_capacity (hCopy : block.memcpy pos bytes = .ok block') :
    block'.capacity = block.capacity := by
  unfold memcpy at hCopy
  split at hCopy
  · rename_i room
    cases hCopy
    exact Region.overwrite_length room
  · cases hCopy

theorem realign_capacity (hRealign : block.realign = .ok block') :
    block'.capacity = block.capacity := by
  rcases block.realign_spec with ⟨aligned, hAligned, _data, same, _read, _space⟩
  rw [hAligned] at hRealign
  cases hRealign
  exact same

theorem store_capacity (hStore : block.store bytes = .ok block') :
    block'.capacity = block.capacity := by
  rcases ok_of_bind hStore with ⟨copied, hCopy, hSet⟩
  rw [setWritePosition_capacity hSet, memcpy_capacity hCopy]

theorem storeBefore_capacity (hStore : block.storeBefore bytes = .ok block') :
    block'.capacity = block.capacity := by
  rcases ok_of_bind hStore with ⟨copied, hCopy, hSet⟩
  rw [setReadPosition_capacity hSet, memcpy_capacity hCopy]

theorem storeAtEnd_capacity (hStore : block.storeAtEnd bytes = .ok block') :
    block'.capacity = block.capacity := by
  rcases ok_of_bind hStore with ⟨copied, hCopy, hStore⟩
  rcases ok_of_bind hStore with ⟨written, hWrite, hSet⟩
  rw [setReadPosition_capacity hSet, setWritePosition_capacity hWrite, memcpy_capacity hCopy]

end Capacity

end DataBlock

end Uvcpp
