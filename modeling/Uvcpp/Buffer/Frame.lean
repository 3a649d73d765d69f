/-
What the operations of a Buffer touch.

Whatever an operation does, it works on the list object of its own Buffer: the
nodes of the result are old nodes of that list or were allocated by it.  All of them
but the discards keep every block, with its size, and count the ones they add.
-/

import Uvcpp.Buffer.Basic

namespace Uvcpp

open LinkedList

namespace Buffer

/-- `firstWithData_` is the begin of the list, when there is a block. -/
def Headed (b : Buffer) : Prop := b.list.nodes ≠ [] → b.firstWithData = b.list.start

/-- What the operations that erase nothing are made of. -/
inductive Edits : Buffer → Buffer → Prop where
  | same {b b' : Buffer} (list : b'.list = b.list) (first : b'.firstWithData = b.firstWithData)
      (capacity : b'.capacity = b.capacity) : Edits b b'
  | store {b b' : Buffer} {position : Position} {value stored : DataBlock}
      (reached : b.block position = .ok value) (sized : stored.capacity = value.capacity)
      (list : b'.list = (b.setBlock position stored).list)
      (first : b'.firstWithData = b.firstWithData) (capacity : b'.capacity = b.capacity) :
      Edits b b'
  | back {b b' : Buffer} (value : DataBlock) (list : b'.list = b.list.pushBack value)
      (headed : b.Headed → b'.Headed) (capacity : b'.capacity = b.capacity + value.capacity) :
      Edits b b'
  | front {b b' : Buffer} (value : DataBlock) (list : b'.list = b.list.pushFront value)
      (first : b'.firstWithData = b'.list.start)
      (capacity : b'.capacity = b.capacity + value.capacity) : Edits b b'
  | trans {b middle b' : Buffer} (left : Edits b middle) (right : Edits middle b') : Edits b b'

theorem Edits.refl (b : Buffer) : Edits b b := .same rfl rfl rfl

section Store

variable {b : Buffer} {position : Position} {value stored : DataBlock}

theorem Edits.setBlock (reached : b.block position = .ok value)
    (sized : stored.capacity = value.capacity) : Edits b (b.setBlock position stored) := by
  refine .store reached sized rfl ?_ ?_
  · cases position <;> rfl
  · cases position <;> rfl

theorem Edits.writeBlock (reached : b.block position = .ok value)
    (sized : stored.capacity = value.capacity) (readable : Nat) :
    Edits b (b.writeBlock position stored readable) :=
  (Edits.setBlock reached sized).trans (.same rfl rfl rfl)

end Store

theorem Edits.evolves {b b' : Buffer} (edits : Edits b b') : b.list.Evolves b'.list := by
  induction edits with
  | same list first capacity =>
      rw [list]
      exact Chain.Evolves.refl _
  | @store b b' position value stored reached sized list first capacity =>
      rw [list]
      cases position with
      | node address => exact Chain.evolves_assign b.list address stored
      | past owner => exact Chain.Evolves.refl b.list
  | back value list headed capacity =>
      rw [list]
      exact Chain.evolves_pushBack _ value
  | front value list first capacity =>
      rw [list]
      exact Chain.evolves_pushFront _ value
  | trans left right ihLeft ihRight => exact ihLeft.trans ihRight

/-- A Buffer of which a block can be reached has a block. -/
theorem nodes_of_block {b : Buffer} {position : Position} {value : DataBlock}
    (reached : b.block position = .ok value) : b.list.nodes ≠ [] := by
  unfold block at reached
  cases held : b.list.value? position with
  | none =>
      rw [held] at reached
      cases reached
  | some other =>
      rcases Chain.value?_split held with ⟨before, node, after, split, _here, _value⟩
      simp [split]

theorem growBack_edits {b b' : Buffer} {len : Nat} (hGrow : b.growBack len = .ok b') :
    Edits b b' := by
  rcases ok_of_bind hGrow with ⟨value, _, hGrow⟩
  rcases ok_of_bind hGrow with ⟨last, hLast, hGrow⟩
  rw [Chain.before?_pushBack] at hLast
  cases hLast
  cases hGrow
  refine .back value rfl ?_ rfl
  intro headed _some
  simp only [Chain.nodes_pushBack, List.length_append, List.length_singleton]
  rw [Chain.start_pushBack]
  by_cases none : b.list.nodes = []
  · rw [none]
    rfl
  · have several : b.list.nodes.length + 1 ≠ 1 := by
      have positive := List.length_pos_of_ne_nil none
      omega
    rw [if_neg several, headed none]
    exact first_of_ne_nil _ _ none

theorem growFront_edits {b b' : Buffer} {bytes : List Byte}
    (hGrow : b.growFront bytes = .ok b') : Edits b b' := by
  rcases ok_of_bind hGrow with ⟨value, _, hGrow⟩
  rcases ok_of_bind hGrow with ⟨placed, hPlaced, hGrow⟩
  cases hGrow
  refine .front placed rfl rfl ?_
  rw [DataBlock.storeAtEnd_capacity hPlaced]

theorem ensureLast_edits {b b' : Buffer} {len : Nat} (hEnsure : b.ensureLast len = .ok b') :
    Edits b b' := by
  unfold ensureLast at hEnsure
  split at hEnsure
  · exact growBack_edits hEnsure
  · cases hEnsure
    exact .refl _

theorem fillUp_capacity {value filled : DataBlock} {bytes : List Byte}
    (hFill : fillUp value bytes = .ok filled) : filled.capacity = value.capacity := by
  unfold fillUp at hFill
  split at hFill
  · exact DataBlock.store_capacity hFill
  · cases hFill
    rfl

theorem appendRounds_edits (rounds : Nat) :
    ∀ {b b' : Buffer} {bytes : List Byte}, appendRounds rounds b bytes = .ok b' →
      Edits b b' := by
  induction rounds with
  | zero =>
      intro b b' bytes hAppend
      cases hAppend
  | succ rounds ih =>
      intro b b' bytes hAppend
      rcases ok_of_bind hAppend with ⟨grown, hGrown, hAppend⟩
      apply (ensureLast_edits hGrown).trans
      rcases ok_of_bind hAppend with ⟨last, reached, hAppend⟩
      split at hAppend
      · rcases ok_of_bind hAppend with ⟨stored, hStored, hAppend⟩
        cases hAppend
        exact .writeBlock reached (DataBlock.store_capacity hStored) _
      · split at hAppend
        · rcases ok_of_bind hAppend with ⟨moved, hMoved, hAppend⟩
          rcases ok_of_bind hAppend with ⟨stored, hStored, hAppend⟩
          cases hAppend
          have sized := DataBlock.store_capacity hStored
          exact .writeBlock reached (sized.trans (DataBlock.realign_capacity hMoved)) _
        · rcases ok_of_bind hAppend with ⟨filled, hFilled, hAppend⟩
          rcases ok_of_bind hAppend with ⟨next, _, hAppend⟩
          have onward := ih hAppend
          have filledIn := Edits.writeBlock reached (fillUp_capacity hFilled)
            (grown.readableBytes + last.writeableBytes)
          apply filledIn.trans
          refine Edits.trans ?_ onward
          exact .same rfl rfl rfl

theorem append_edits {b b' : Buffer} {bytes : List Byte} (hAppend : b.append bytes = .ok b') :
    Edits b b' :=
  appendRounds_edits _ hAppend

theorem prependRounds_edits (rounds : Nat) :
    ∀ {b b' : Buffer} {bytes : List Byte}, prependRounds rounds b bytes = .ok b' →
      Edits b b' := by
  induction rounds with
  | zero =>
      intro b b' bytes hPrepend
      cases hPrepend
  | succ rounds ih =>
      intro b b' bytes hPrepend
      unfold prependRounds at hPrepend
      split at hPrepend
      · rcases ok_of_bind hPrepend with ⟨grown, hGrown, hPrepend⟩
        cases hPrepend
        exact (growFront_edits hGrown).trans (.same rfl rfl rfl)
      · rcases ok_of_bind hPrepend with ⟨first, reached, hPrepend⟩
        split at hPrepend
        · rcases ok_of_bind hPrepend with ⟨stored, hStored, hPrepend⟩
          cases hPrepend
          exact .writeBlock reached (DataBlock.storeBefore_capacity hStored) _
        · split at hPrepend
          · rcases ok_of_bind hPrepend with ⟨stored, hStored, hPrepend⟩
            apply (Edits.writeBlock reached (DataBlock.storeBefore_capacity hStored) _).trans
            exact ih hPrepend
          · exact growFront_edits hPrepend

theorem prepend_edits {b b' : Buffer} {bytes : List Byte}
    (hPrepend : b.prepend bytes = .ok b') : Edits b b' :=
  prependRounds_edits _ hPrepend

theorem drain_evolves (nodes : List (Node DataBlock)) :
    ∀ {list list' : Chain DataBlock} {len : Nat}, drain list nodes len = .ok list' →
      list.Evolves list' := by
  induction nodes with
  | nil =>
      intro list list' len hDrain
      unfold drain at hDrain
      split at hDrain
      · cases hDrain
        exact Chain.Evolves.refl _
      · cases hDrain
  | cons node rest ih =>
      intro list list' len hDrain
      unfold drain at hDrain
      split at hDrain
      · cases hDrain
        exact Chain.Evolves.refl _
      · split at hDrain
        · rcases ok_of_bind hDrain with ⟨read, _, hDrain⟩
          cases hDrain
          exact Chain.evolves_assign _ _ _
        · split at hDrain
          · rcases ok_of_bind hDrain with ⟨read, _, hDrain⟩
            exact (Chain.evolves_assign _ _ _).trans (ih hDrain)
          · exact ih hDrain

theorem eraseDrained_evolves {last : Position} (nodes : List (Node DataBlock)) :
    ∀ {list : Chain DataBlock} {result : Chain DataBlock × Position},
      eraseDrained list last nodes = .ok result → list.Evolves result.1 := by
  induction nodes with
  | nil =>
      intro list result hErase
      unfold eraseDrained at hErase
      split at hErase
      · cases hErase
        exact Chain.Evolves.refl _
      · cases hErase
  | cons node rest ih =>
      intro list result hErase
      unfold eraseDrained at hErase
      split at hErase
      · cases hErase
        exact Chain.Evolves.refl _
      · split at hErase
        · cases hErase
          exact Chain.Evolves.refl _
        · exact (Chain.evolves_erase _ _).trans (ih hErase)

theorem discard_evolves {b b' : Buffer} {len : Nat} (hDiscard : b.discard len = .ok b') :
    b.list.Evolves b'.list := by
  unfold discard at hDiscard
  split at hDiscard
  · rcases ok_of_bind hDiscard with ⟨nodes, _, hDiscard⟩
    rcases ok_of_bind hDiscard with ⟨drained, hDrain, hDiscard⟩
    rcases ok_of_bind hDiscard with ⟨⟨list, first⟩, hErase, hDiscard⟩
    cases hDiscard
    exact (drain_evolves nodes hDrain).trans (eraseDrained_evolves drained.nodes hErase)
  · cases hDiscard

theorem retrieveAsString_discard {b b' : Buffer} {len : Nat} {str : List Byte}
    (hRetrieve : b.retrieveAsString len = .ok (str, b')) : b.discard len = .ok b' := by
  unfold retrieveAsString at hRetrieve
  split at hRetrieve
  · rcases ok_of_bind hRetrieve with ⟨found, _, hRetrieve⟩
    rcases ok_of_bind hRetrieve with ⟨rest, hDiscard, hRetrieve⟩
    cases hRetrieve
    exact hDiscard
  · cases hRetrieve

theorem nextBlock_edits {b b' : Buffer} {position : Position}
    (hNext : b.nextBlock = .ok (b', position)) : Edits b b' := by
  unfold nextBlock at hNext
  split at hNext
  · rcases ok_of_bind hNext with ⟨grown, hGrown, hNext⟩
    cases hNext
    exact growBack_edits hGrown
  · rcases ok_of_bind hNext with ⟨last, reached, hNext⟩
    split at hNext
    · rcases ok_of_bind hNext with ⟨following, _, hNext⟩
      split at hNext
      · rcases ok_of_bind hNext with ⟨value, _, hNext⟩
        rcases ok_of_bind hNext with ⟨back, _, hNext⟩
        cases hNext
        refine .back value rfl ?_ rfl
        intro headed _some
        have some := nodes_of_block reached
        rw [Chain.start_pushBack]
        exact (headed some).trans (first_of_ne_nil _ _ some)
      · cases hNext
        exact .refl _
    · split at hNext
      · rcases ok_of_bind hNext with ⟨moved, hMoved, hNext⟩
        cases hNext
        exact .setBlock reached (DataBlock.realign_capacity hMoved)
      · cases hNext
        exact .refl _

theorem next_edits {b b' : Buffer} {window : Window} (hNext : b.next = .ok (b', window)) :
    Edits b b' := by
  rcases ok_of_bind hNext with ⟨⟨chosen, position⟩, hChosen, hNext⟩
  rcases ok_of_bind hNext with ⟨value, _, hNext⟩
  cases position with
  | node address =>
      cases hNext
      exact nextBlock_edits hChosen
  | past owner =>
      cases hNext

theorem fillWindow_edits {b b' : Buffer} {window : Window} {bytes : List Byte}
    (hFill : b.fillWindow window bytes = .ok b') : Edits b b' := by
  rcases ok_of_bind hFill with ⟨value, reached, hFill⟩
  rcases ok_of_bind hFill with ⟨filled, hFilled, hFill⟩
  cases hFill
  exact .setBlock reached (DataBlock.memcpy_capacity hFilled)

theorem extend_edits {b b' : Buffer} {len : Nat} (hExtend : b.extend len = .ok b') :
    Edits b b' := by
  rcases ok_of_bind hExtend with ⟨position, _, hExtend⟩
  rcases ok_of_bind hExtend with ⟨value, reached, hExtend⟩
  rcases ok_of_bind hExtend with ⟨written, hWritten, hExtend⟩
  cases hExtend
  apply (Edits.writeBlock reached (DataBlock.setWritePosition_capacity hWritten) 0).trans
  exact .same rfl rfl rfl

theorem unwrite_edits {b b' : Buffer} {len : Nat} (hUnwrite : b.unwrite len = .ok b') :
    Edits b b' := by
  rcases ok_of_bind hUnwrite with ⟨last, reached, hUnwrite⟩
  split at hUnwrite
  · rcases ok_of_bind hUnwrite with ⟨written, hWritten, hUnwrite⟩
    cases hUnwrite
    exact .writeBlock reached (DataBlock.setWritePosition_capacity hWritten) _
  · cases hUnwrite

end Buffer

end Uvcpp
