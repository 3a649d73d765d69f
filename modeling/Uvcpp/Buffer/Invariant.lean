/-
The representation invariant of a Buffer and what each operation does under it.

`Represents b content` says which byte string a Buffer stands for.  The blocks
up to `lastWithData_` hold the content in order, every block before it is
written to its end, every block but the first is read from its start, and the
blocks behind it were never written.  Each operation has one lemma: under the
invariant it completes without a fault and the invariant holds again.
-/

import Uvcpp.Buffer.Basic

namespace Uvcpp

open LinkedList

/-- The readable bytes of consecutive blocks. -/
def bytesOf (nodes : List (Node DataBlock)) : List Byte :=
  nodes.flatMap fun node => node.value.data

@[simp] theorem bytesOf_nil : bytesOf [] = [] := rfl

@[simp] theorem bytesOf_cons (node : Node DataBlock) (rest : List (Node DataBlock)) :
    bytesOf (node :: rest) = node.value.data ++ bytesOf rest := rfl

@[simp] theorem bytesOf_append (left right : List (Node DataBlock)) :
    bytesOf (left ++ right) = bytesOf left ++ bytesOf right := by
  simp [bytesOf]

/-- The shape of the blocks of a Buffer: those before the last used one, that
block itself, and the spare ones behind it. -/
structure Layout (front : List (Node DataBlock)) (last : Node DataBlock)
    (spare : List (Node DataBlock)) : Prop where
  full : ∀ node ∈ front, node.value.write = node.value.capacity
  unshifted : ∀ node ∈ (front ++ [last]).tail, node.value.read = 0
  unused : ∀ node ∈ spare, node.value.read = 0 ∧ node.value.write = 0

inductive Represents (b : Buffer) (content : List Byte) : Prop where
  | vacant
      (noBlocks : b.list.nodes = [])
      (first : b.firstWithData = b.list.past)
      (last : b.lastWithData = b.list.past)
      (readable : b.readableBytes = 0)
      (empty : content = [])
  | occupied (front : List (Node DataBlock)) (last : Node DataBlock)
      (spare : List (Node DataBlock))
      (blocks : b.list.nodes = front ++ last :: spare)
      (first : b.firstWithData = b.list.start)
      (lastAt : b.lastWithData = .node last.address)
      (layout : Layout front last spare)
      (held : content = bytesOf (front ++ [last]))
      (readable : b.readableBytes = content.length)

theorem Represents.readable_eq {b : Buffer} {content : List Byte}
    (represents : Represents b content) : b.readableBytes = content.length := by
  cases represents with
  | vacant noBlocks first last readable empty =>
      rw [readable, empty]
      rfl
  | occupied front last spare blocks first lastAt layout held readable =>
      exact readable

theorem Represents.first_eq_start {b : Buffer} {content : List Byte}
    (represents : Represents b content) : b.firstWithData = b.list.start := by
  cases represents with
  | vacant noBlocks first last readable empty =>
      rw [first, Chain.start, noBlocks]
      rfl
  | occupied front last spare blocks first lastAt layout held readable =>
      exact first

theorem Layout.of_cons {node last : Node DataBlock} {front spare : List (Node DataBlock)}
    (layout : Layout (node :: front) last spare) : Layout front last spare where
  full other member := layout.full other (List.mem_cons_of_mem _ member)
  unshifted other member := layout.unshifted other (List.mem_of_mem_tail member)
  unused := layout.unused

/-- Replacing the last used block by one that is read from the same place. -/
theorem Layout.replace_last {front spare : List (Node DataBlock)} {last last' : Node DataBlock}
    (layout : Layout front last spare)
    (unshifted : last.value.read = 0 → last'.value.read = 0) :
    Layout front last' spare where
  full := layout.full
  unshifted node member := by
    cases front with
    | nil =>
        simp at member
    | cons head rest =>
        simp only [List.cons_append, List.tail_cons, List.mem_append,
          List.mem_singleton] at member
        rcases member with inRest | rfl
        · exact layout.unshifted node (by simp [inRest])
        · exact unshifted (layout.unshifted last (by simp))
  unused := layout.unused

/-- Membership in the tail of a list that is extended at its end. -/
theorem mem_tail_append_singleton {front : List (Node DataBlock)} {last node : Node DataBlock}
    (member : node ∈ (front ++ [last]).tail) : node ∈ front.tail ∨ node = last := by
  cases front with
  | nil =>
      simp at member
  | cons head rest =>
      simpa using member

/-- Moving on from a last block that is written to its end. -/
theorem Layout.advance {front rest : List (Node DataBlock)} {last last' next : Node DataBlock}
    (layout : Layout front last (next :: rest))
    (filled : last'.value.write = last'.value.capacity)
    (unshifted : last.value.read = 0 → last'.value.read = 0) :
    Layout (front ++ [last']) next rest where
  full node member := by
    rcases List.mem_append.mp member with old | new
    · exact layout.full node old
    · rw [List.mem_singleton.mp new]
      exact filled
  unshifted node member := by
    rcases mem_tail_append_singleton member with old | rfl
    · exact (layout.replace_last unshifted).unshifted node old
    · exact (layout.unused node List.mem_cons_self).1
  unused node member := layout.unused node (List.mem_cons_of_mem _ member)

/-! ### Addressing the last block -/

namespace Buffer

@[simp] theorem writeBlock_firstWithData (b : Buffer) (position : Position)
    (value : DataBlock) (readable : Nat) :
    (b.writeBlock position value readable).firstWithData = b.firstWithData := by
  cases position <;> rfl

@[simp] theorem writeBlock_lastWithData (b : Buffer) (position : Position)
    (value : DataBlock) (readable : Nat) :
    (b.writeBlock position value readable).lastWithData = b.lastWithData := by
  cases position <;> rfl

@[simp] theorem writeBlock_past (b : Buffer) (position : Position) (value : DataBlock)
    (readable : Nat) : (b.writeBlock position value readable).list.past = b.list.past := by
  cases position <;> rfl

@[simp] theorem writeBlock_readableBytes (b : Buffer) (position : Position)
    (value : DataBlock) (readable : Nat) :
    (b.writeBlock position value readable).readableBytes = readable := rfl

section Last

variable {b : Buffer} {front spare : List (Node DataBlock)} {last : Node DataBlock}

theorem block_node (blocks : b.list.nodes = front ++ last :: spare) :
    b.block (.node last.address) = .ok last.value := by
  rw [block, Chain.value?_node blocks]
  rfl

theorem advance_node (blocks : b.list.nodes = front ++ last :: spare) :
    b.advance (.node last.address) = .ok (first b.list.past spare) := by
  rw [advance, Chain.after?_node blocks]
  rfl

theorem writeBlock_nodes (blocks : b.list.nodes = front ++ last :: spare)
    (value : DataBlock) (readable : Nat) :
    (b.writeBlock (.node last.address) value readable).list.nodes =
      front ++ ⟨last.address, value⟩ :: spare :=
  Chain.assign_nodes blocks value

end Last

theorem writeBlock_start (b : Buffer) (position : Position) (value : DataBlock)
    (readable : Nat) :
    (b.writeBlock position value readable).list.start = b.list.start := by
  cases position with
  | node address =>
      exact first_congr (assignAt_addresses _ _ _)
  | past owner =>
      rfl

end Buffer

/-- Storing a new value in the last block of a represented Buffer. -/
theorem Represents.store_last {b : Buffer} {front spare : List (Node DataBlock)}
    {last : Node DataBlock} (blocks : b.list.nodes = front ++ last :: spare)
    (first : b.firstWithData = b.list.start) (lastAt : b.lastWithData = .node last.address)
    (layout : Layout front last spare) (value : DataBlock)
    (unshifted : last.value.read = 0 → value.read = 0) (readable : Nat)
    (counted : readable = (bytesOf front ++ value.data).length) :
    Represents (b.writeBlock b.lastWithData value readable) (bytesOf front ++ value.data) := by
  rw [lastAt]
  refine .occupied front ⟨last.address, value⟩ spare (Buffer.writeBlock_nodes blocks value _)
    ?_ ?_ (layout.replace_last unshifted) (by simp) counted
  · rw [Buffer.writeBlock_firstWithData, Buffer.writeBlock_start, first]
  · rw [Buffer.writeBlock_lastWithData, lastAt]

end Uvcpp
