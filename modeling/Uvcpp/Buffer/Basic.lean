/-
The Buffer: a list of blocks, two iterators into it and two counters.

The operations follow the source statement by statement.  A loop that walks the
list with an iterator is a recursion over the nodes the iterator meets; the
recursive calls of `append` and `prepend` carry a round counter, and running out
of rounds is a fault of its own.  Counters are natural numbers: the total length
of all operations on a Buffer stays below 2^63, so `size_t` never wraps.
-/

import Uvcpp.Library.LinkedList
import Uvcpp.Buffer.DataBlock

namespace Uvcpp

open LinkedList

structure Buffer where
  list : Chain DataBlock
  firstWithData : Position
  lastWithData : Position
  readableBytes : Nat
  capacity : Nat

/-- A readable range of a block, as `all` reports it. -/
structure Span where
  address : Address
  offset : Nat
  bytes : List Byte
deriving DecidableEq

/-- The writable range that `next` returns. -/
structure Window where
  address : Address
  offset : Nat
  length : Nat
deriving DecidableEq

namespace Buffer

/-- `Buffer()`, an object with the given identity. -/
def new (owner : Nat) : Buffer :=
  { list := Chain.empty owner
    firstWithData := (Chain.empty owner : Chain DataBlock).start
    lastWithData := (Chain.empty owner : Chain DataBlock).past
    readableBytes := 0
    capacity := 0 }

def orBadIterator {α : Type} : Option α → Except Fault α
  | some value => .ok value
  | none => .error .badIterator

/-- Dereference an iterator. -/
def block (b : Buffer) (position : Position) : Except Fault DataBlock :=
  orBadIterator (b.list.value? position)

/-- Increment an iterator. -/
def advance (b : Buffer) (position : Position) : Except Fault Position :=
  orBadIterator (b.list.after? position)

/-- Store through an iterator. -/
def setBlock (b : Buffer) (position : Position) (value : DataBlock) : Buffer :=
  match position with
  | .node address => { b with list := b.list.assign address value }
  | .past _ => b

/-- Store through an iterator and set `readableBytes_`. -/
def writeBlock (b : Buffer) (position : Position) (value : DataBlock) (readable : Nat) :
    Buffer :=
  { b.setBlock position value with readableBytes := readable }

/-- A new block behind the others, with `lastWithData_` on it. -/
def growBack (b : Buffer) (len : Nat) : Except Fault Buffer := do
  let value ← DataBlock.ofLength len
  let list := b.list.pushBack value
  let last ← orBadIterator (list.before? list.past)
  pure
    { list := list
      firstWithData := if list.nodes.length = 1 then last else b.firstWithData
      lastWithData := last
      readableBytes := b.readableBytes
      capacity := b.capacity + value.capacity }

/-- A new block in front of the others, filled from its end. -/
def growFront (b : Buffer) (bytes : List Byte) : Except Fault Buffer := do
  let value ← DataBlock.ofLength bytes.length
  let placed ← value.storeAtEnd bytes
  let list := b.list.pushFront placed
  pure
    { list := list
      firstWithData := list.start
      lastWithData := b.lastWithData
      readableBytes := b.readableBytes + bytes.length
      capacity := b.capacity + value.capacity }

/-- The first lines of `append`: past the last block, make a new one. -/
def ensureLast (b : Buffer) (len : Nat) : Except Fault Buffer :=
  if b.lastWithData = b.list.past then b.growBack len else .ok b

/-- Write a block to its end; one that has no room is not touched.  `store`
leaves the write position at `capacity()`. -/
def fillUp (value : DataBlock) (bytes : List Byte) : Except Fault DataBlock :=
  if 0 < value.writeableBytes then value.store (bytes.take value.writeableBytes)
  else .ok value

def appendRounds : Nat → Buffer → List Byte → Except Fault Buffer
  | 0, _, _ => .error .divergence
  | rounds + 1, b, bytes => do
      let b ← b.ensureLast bytes.length
      let last ← b.block b.lastWithData
      if bytes.length ≤ last.writeableBytes then do
        let stored ← last.store bytes
        pure (b.writeBlock b.lastWithData stored (b.readableBytes + bytes.length))
      else if bytes.length ≤ last.totalSpace then do
        let moved ← last.realign
        let stored ← moved.store bytes
        pure (b.writeBlock b.lastWithData stored (b.readableBytes + bytes.length))
      else do
        let nwrite := last.writeableBytes
        let filled ← fillUp last bytes
        let b := b.writeBlock b.lastWithData filled (b.readableBytes + nwrite)
        let next ← b.advance b.lastWithData
        appendRounds rounds { b with lastWithData := next } (bytes.drop nwrite)

def append (b : Buffer) (bytes : List Byte) : Except Fault Buffer :=
  appendRounds (b.list.nodes.length + 2) b bytes

def prependRounds : Nat → Buffer → List Byte → Except Fault Buffer
  | 0, _, _ => .error .divergence
  | rounds + 1, b, bytes =>
      if b.firstWithData = b.list.past then do
        let b ← b.growFront bytes
        pure { b with lastWithData := b.firstWithData }
      else do
        let first ← b.block b.firstWithData
        if bytes.length ≤ first.prependableBytes then do
          let stored ← first.storeBefore bytes
          pure (b.writeBlock b.firstWithData stored (b.readableBytes + bytes.length))
        else if 0 < first.prependableBytes then do
          let remain := first.prependableBytes
          let stored ← first.storeBefore (bytes.drop (bytes.length - remain))
          prependRounds rounds
            (b.writeBlock b.firstWithData stored (b.readableBytes + remain))
            (bytes.take (bytes.length - remain))
        else
          b.growFront bytes

def prepend (b : Buffer) (bytes : List Byte) : Except Fault Buffer :=
  prependRounds 2 b bytes

/-- The loop of `toString`. -/
def gather : List (Node DataBlock) → Nat → Except Fault (List Byte)
  | [], len => if len = 0 then .ok [] else .error .badIterator
  | node :: rest, len =>
      if len = 0 then .ok []
      else if len ≤ node.value.readableBytes then .ok (node.value.data.take len)
      else if 0 < node.value.readableBytes then do
        let more ← gather rest (len - node.value.readableBytes)
        pure (node.value.data ++ more)
      else gather rest len

def toStringLen (b : Buffer) (len : Nat) : Except Fault (List Byte) :=
  if len ≤ b.readableBytes then do
    let nodes ← orBadIterator (b.list.walk b.firstWithData)
    gather nodes len
  else .error .assertion

def toString (b : Buffer) : Except Fault (List Byte) :=
  b.toStringLen b.readableBytes

/-- The first loop of `discard`: advance read positions over `len` bytes. -/
def drain (list : Chain DataBlock) :
    List (Node DataBlock) → Nat → Except Fault (Chain DataBlock)
  | [], len => if len = 0 then .ok list else .error .badIterator
  | node :: rest, len =>
      if len = 0 then .ok list
      else if len ≤ node.value.readableBytes then do
        let read ← node.value.setReadPosition (node.value.read + len)
        pure (list.assign node.address read)
      else if 0 < node.value.readableBytes then do
        let read ← node.value.setReadPosition (node.value.read + node.value.readableBytes)
        drain (list.assign node.address read) rest (len - node.value.readableBytes)
      else drain list rest len

/-- The second loop of `discard`: erase drained blocks up to `last`.  It returns
the list and the iterator at which the loop stops. -/
def eraseDrained (list : Chain DataBlock) (last : Position) :
    List (Node DataBlock) → Except Fault (Chain DataBlock × Position)
  | [] => if list.past = last then .ok (list, list.past) else .error .badIterator
  | node :: rest =>
      if .node node.address = last then .ok (list, .node node.address)
      else if 0 < node.value.readableBytes then .ok (list, .node node.address)
      else eraseDrained (list.erase node.address) last rest

def discard (b : Buffer) (len : Nat) : Except Fault Buffer :=
  if len ≤ b.readableBytes then do
    let nodes ← orBadIterator (b.list.walk b.firstWithData)
    let drained ← drain b.list nodes len
    let (list, first) ← eraseDrained drained b.lastWithData drained.nodes
    pure
      { list := list
        firstWithData := first
        lastWithData := b.lastWithData
        readableBytes := b.readableBytes - len
        capacity := b.capacity }
  else .error .assertion

def discardAll (b : Buffer) : Buffer :=
  { list := b.list.clear
    firstWithData := b.list.clear.start
    lastWithData := b.list.clear.past
    readableBytes := 0
    capacity := 0 }

def retrieveAsString (b : Buffer) (len : Nat) : Except Fault (List Byte × Buffer) :=
  if len ≤ b.readableBytes then do
    let str ← b.toStringLen len
    let rest ← b.discard len
    pure (str, rest)
  else .error .assertion

/-- What `all` reports for one block: its readable range, if it has one. -/
def spanOf (node : Node DataBlock) : List Span :=
  if 0 < node.value.readableBytes then
    [⟨node.address, node.value.read, node.value.data⟩]
  else []

/-- The loop of `all`; `past` is `list_.end()`. -/
def spans (past last : Position) : List (Node DataBlock) → Except Fault (List Span)
  | [] => if past = last then .ok [] else .error .badIterator
  | node :: rest =>
      if .node node.address = last then .ok (spanOf node)
      else do
        let more ← spans past last rest
        pure (spanOf node ++ more)

def all (b : Buffer) : Except Fault (List Span) := do
  let nodes ← orBadIterator (b.list.walk b.firstWithData)
  spans b.list.past b.lastWithData nodes

/-- The branches of `next`: the Buffer and the iterator of the block whose free
space is handed out. -/
def nextBlock (b : Buffer) : Except Fault (Buffer × Position) :=
  if b.lastWithData = b.list.past then do
    let b ← b.growBack minBufferSize
    pure (b, b.lastWithData)
  else do
    let last ← b.block b.lastWithData
    if last.writeableBytes = 0 then do
      let it ← b.advance b.lastWithData
      if it = b.list.past then do
        let value ← DataBlock.ofLength minBufferSize
        let list := b.list.pushBack value
        let it ← orBadIterator (list.before? list.past)
        pure ({ b with list := list, capacity := b.capacity + value.capacity }, it)
      else pure (b, it)
    else if last.capacity / 2 ≤ last.prependableBytes then do
      let moved ← last.realign
      pure (b.setBlock b.lastWithData moved, b.lastWithData)
    else pure (b, b.lastWithData)

def next (b : Buffer) : Except Fault (Buffer × Window) := do
  let (b, it) ← b.nextBlock
  let value ← b.block it
  match it with
  | .node address => pure (b, ⟨address, value.write, value.writeableBytes⟩)
  | .past _ => .error .badIterator

/-- The owner of a window writes `bytes` at its start. -/
def fillWindow (b : Buffer) (window : Window) (bytes : List Byte) : Except Fault Buffer := do
  let value ← b.block (.node window.address)
  let filled ← value.memcpy window.offset bytes
  pure (b.setBlock (.node window.address) filled)

/-- The iterator at which `extend` writes. -/
def extendPosition (b : Buffer) : Except Fault Position := do
  let last ← b.block b.lastWithData
  if last.writeableBytes = 0 then b.advance b.lastWithData
  else .ok b.lastWithData

def extend (b : Buffer) (len : Nat) : Except Fault Buffer := do
  let position ← b.extendPosition
  let value ← b.block position
  let written ← value.setWritePosition (value.write + len)
  pure { b.writeBlock position written (b.readableBytes + len) with lastWithData := position }

def unwrite (b : Buffer) (len : Nat) : Except Fault Buffer := do
  let last ← b.block b.lastWithData
  if len ≤ last.readableBytes then do
    let written ← last.setWritePosition (last.write - len)
    pure (b.writeBlock b.lastWithData written (b.readableBytes - len))
  else .error .assertion

end Buffer

end Uvcpp
