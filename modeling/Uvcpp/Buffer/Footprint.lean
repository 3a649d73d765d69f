/-
The memory of a Buffer.

No operation makes a block larger than twice what it was asked to hold, blocks between the
first and the last used one are full, and at most one block lies behind the last used one.
So a Buffer takes no more memory than its readable bytes and three blocks, whatever
`capacity()` says.
-/

import Uvcpp.Buffer.Capacity
import Uvcpp.Buffer.Refinement

namespace Uvcpp

open LinkedList

/-- The largest block that is made for `longest` bytes. -/
def blockLimit (longest : Nat) : Nat :=
  if longest ≤ minBufferSize then minBufferSize else 2 * longest

theorem blockLimit_mono {len longest : Nat} (shorter : len ≤ longest) :
    blockLimit len ≤ blockLimit longest := by
  unfold blockLimit
  split <;> split <;> omega

theorem blockLimit_least (longest : Nat) : blockLimit minBufferSize ≤ blockLimit longest := by
  unfold blockLimit
  split <;> split <;> omega

theorem growSize_le {len : Nat} (rounds : Nat) :
    ∀ {realSize size : Nat}, growSize len rounds realSize = .ok size →
      size ≤ if len ≤ realSize then realSize else 2 * len := by
  induction rounds with
  | zero =>
      intro realSize size hGrow
      cases hGrow
  | succ rounds ih =>
      intro realSize size hGrow
      unfold growSize at hGrow
      split at hGrow
      · have grown := ih hGrow
        have wrapped : realSize * 2 % sizeModulus ≤ realSize * 2 := Nat.mod_le _ _
        rw [if_neg (by omega)]
        split at grown <;> omega
      · cases hGrow
        exact Nat.le_of_eq (if_pos (by omega)).symm

namespace DataBlock

theorem ofLength_capacity {len : Nat} {block : DataBlock} (hBlock : ofLength len = .ok block) :
    block.capacity ≤ blockLimit len := by
  obtain ⟨size, hSize, hBlock⟩ := ok_of_bind hBlock
  have bounded := growSize_le 64 hSize
  split at hBlock
  · cases hBlock
    rw [place_capacity, List.length_replicate]
    exact bounded
  · cases hBlock

end DataBlock

theorem capacityOf_le {limit : Nat} {nodes : List (Node DataBlock)}
    (sized : ∀ node ∈ nodes, node.value.capacity ≤ limit) :
    capacityOf nodes ≤ nodes.length * limit := by
  induction nodes with
  | nil => exact Nat.zero_le _
  | cons node rest ih =>
      have here := sized node List.mem_cons_self
      have later := ih fun other member => sized other (List.mem_cons_of_mem _ member)
      rw [capacityOf_cons, List.length_cons, Nat.succ_mul]
      omega

theorem bytesOf_le (nodes : List (Node DataBlock)) :
    (bytesOf nodes).length ≤ capacityOf nodes := by
  induction nodes with
  | nil => exact Nat.le_refl 0
  | cons node rest ih =>
      have held : node.value.readableBytes ≤ node.value.capacity :=
        Nat.le_trans (Nat.sub_le _ _) node.value.fits
      rw [bytesOf_cons_length, capacityOf_cons]
      exact Nat.add_le_add held ih

/-! ### Stores -/

/-- The blocks of a list without what is in them. -/
def shape (nodes : List (Node DataBlock)) : List (Address × Nat) :=
  nodes.map fun node => (node.address, node.value.capacity)

/-- `later` is `list` after stores into its blocks. -/
structure Keeps (list later : Chain DataBlock) : Prop where
  owner : later.owner = list.owner
  same : shape later.nodes = shape list.nodes

theorem Keeps.refl (list : Chain DataBlock) : Keeps list list := ⟨rfl, rfl⟩

theorem Keeps.trans {list middle later : Chain DataBlock} (left : Keeps list middle)
    (right : Keeps middle later) : Keeps list later :=
  ⟨right.owner.trans left.owner, right.same.trans left.same⟩

theorem keeps_assign {list : Chain DataBlock} {before after : List (Node DataBlock)}
    {node : Node DataBlock} (split : list.nodes = before ++ node :: after) {value : DataBlock}
    (sized : value.capacity = node.value.capacity) :
    Keeps list (list.assign node.address value) := by
  refine ⟨rfl, ?_⟩
  rw [Chain.assign_nodes split, split, shape, shape, List.map_append, List.map_cons,
    List.map_append, List.map_cons, sized]

theorem suffixAt_shape {address : Address} {nodes : List (Node DataBlock)} :
    ∀ {others found : List (Node DataBlock)}, shape others = shape nodes →
      suffixAt address nodes = some found →
      ∃ found', suffixAt address others = some found' ∧ shape found' = shape found := by
  induction nodes with
  | nil =>
      intro others found _same hFound
      cases hFound
  | cons node rest ih =>
      intro others found same hFound
      cases others with
      | nil => cases same
      | cons other more =>
          obtain ⟨heads, tails⟩ := List.cons.inj same
          have addresses : other.address = node.address := (Prod.mk.inj heads).1
          unfold suffixAt at hFound ⊢
          rw [addresses]
          split at hFound
          · cases hFound
            rw [if_pos ‹_›]
            exact ⟨other :: more, rfl, same⟩
          · rw [if_neg ‹_›]
            exact ih tails hFound

theorem Keeps.walk {list later : Chain DataBlock} (keeps : Keeps list later)
    {position : Position} {found : List (Node DataBlock)}
    (walked : list.walk position = some found) :
    ∃ found', later.walk position = some found' ∧ shape found' = shape found := by
  cases position with
  | node address => exact suffixAt_shape keeps.same walked
  | past owner =>
      unfold Chain.walk at walked ⊢
      rw [keeps.owner]
      exact ⟨found, walked, rfl⟩

theorem Keeps.sized {list later : Chain DataBlock} (keeps : Keeps list later) {limit : Nat}
    (sized : ∀ node ∈ list.nodes, node.value.capacity ≤ limit) :
    ∀ node ∈ later.nodes, node.value.capacity ≤ limit := by
  intro node member
  have here : (node.address, node.value.capacity) ∈ shape later.nodes :=
    List.mem_map_of_mem member
  rw [keeps.same] at here
  obtain ⟨original, old, same⟩ := List.mem_map.mp here
  rw [← (Prod.mk.inj same).2]
  exact sized original old

namespace Buffer

/-- No block is larger than `limit`, and at most one lies behind the last used one. -/
structure Slim (limit : Nat) (b : Buffer) : Prop where
  sized : ∀ node ∈ b.list.nodes, node.value.capacity ≤ limit
  spare : ∃ found, b.list.walk b.lastWithData = some found ∧ found.length ≤ 2

section Slim

variable {limit : Nat} {b b' : Buffer}

theorem Slim.keeps (slim : Slim limit b) (keeps : Keeps b.list b'.list)
    (last : b'.lastWithData = b.lastWithData) : Slim limit b' := by
  obtain ⟨found, walked, few⟩ := slim.spare
  obtain ⟨found', walked', same⟩ := keeps.walk walked
  refine ⟨keeps.sized slim.sized, found', by rw [last, walked'], ?_⟩
  have lengths := congrArg List.length same
  rw [shape, shape, List.length_map, List.length_map] at lengths
  omega

theorem slim_of_vacant (noBlocks : b.list.nodes = []) (last : b.lastWithData = b.list.past) :
    Slim limit b := by
  refine ⟨?_, [], by rw [last, Chain.walk_past], Nat.zero_le _⟩
  rw [noBlocks]
  exact List.forall_mem_nil _

/-- The last iterator moves on. -/
theorem Slim.advance (slim : Slim limit b) {position : Position}
    (moved : b.advance b.lastWithData = .ok position) :
    Slim limit { b with lastWithData := position } := by
  obtain ⟨found, walked, few⟩ := slim.spare
  unfold Buffer.advance at moved
  cases following : b.list.after? b.lastWithData with
  | none =>
      rw [following] at moved
      cases moved
  | some other =>
      rw [following] at moved
      cases moved
      obtain ⟨before, node, after, split, here, next⟩ := Chain.after?_split following
      rw [here, Chain.walk_node split] at walked
      cases walked
      have behind : b.list.nodes = (before ++ [node]) ++ after := by
        rw [split]
        simp
      rw [List.length_cons] at few
      refine ⟨slim.sized, after, ?_, by omega⟩
      rw [next, Chain.walk_rest behind]

/-- An iterator that moves on to the end was on the last block. -/
theorem last_of_advance (b : Buffer) {position following : Position}
    (moved : b.advance position = .ok following) (past : following = b.list.past) :
    ∃ before node, b.list.nodes = before ++ [node] ∧ position = .node node.address := by
  unfold Buffer.advance at moved
  cases found : b.list.after? position with
  | none =>
      rw [found] at moved
      cases moved
  | some other =>
      rw [found] at moved
      cases moved
      obtain ⟨before, node, after, split, here, next⟩ := Chain.after?_split found
      cases after with
      | nil => exact ⟨before, node, split, here⟩
      | cons later rest =>
          rw [past] at next
          cases next

theorem keeps_setBlock {position : Position} {value stored : DataBlock}
    (reached : b.block position = .ok value) (sized : stored.capacity = value.capacity) :
    Keeps b.list (b.setBlock position stored).list := by
  unfold block at reached
  cases held : b.list.value? position with
  | none =>
      rw [held] at reached
      cases reached
  | some other =>
      rw [held] at reached
      cases reached
      obtain ⟨before, node, after, split, here, rfl⟩ := Chain.value?_split held
      rw [here]
      exact keeps_assign split sized

@[simp] theorem setBlock_lastWithData (b : Buffer) (position : Position) (value : DataBlock) :
    (b.setBlock position value).lastWithData = b.lastWithData := by
  cases position <;> rfl

theorem Slim.setBlock (slim : Slim limit b) {position : Position} {value stored : DataBlock}
    (reached : b.block position = .ok value) (sized : stored.capacity = value.capacity) :
    Slim limit (b.setBlock position stored) :=
  slim.keeps (keeps_setBlock reached sized) (setBlock_lastWithData b position stored)

theorem Slim.writeBlock (slim : Slim limit b) {position : Position} {value stored : DataBlock}
    (reached : b.block position = .ok value) (sized : stored.capacity = value.capacity)
    (readable : Nat) : Slim limit (b.writeBlock position stored readable) :=
  (slim.setBlock reached sized).keeps (Keeps.refl _) rfl

/-! ### New blocks -/

theorem sized_pushBack (slim : Slim limit b) {value : DataBlock} (small : value.capacity ≤ limit) :
    ∀ node ∈ (b.list.pushBack value).nodes, node.value.capacity ≤ limit := by
  intro node member
  rcases List.mem_append.mp member with old | new
  · exact slim.sized node old
  · rw [List.mem_singleton.mp new]
    exact small

theorem growBack_slim (slim : Slim limit b) {len : Nat} (room : blockLimit len ≤ limit)
    (hGrow : b.growBack len = .ok b') : Slim limit b' := by
  obtain ⟨value, hValue, hGrow⟩ := ok_of_bind hGrow
  obtain ⟨last, hLast, hGrow⟩ := ok_of_bind hGrow
  rw [Chain.before?_pushBack] at hLast
  cases hLast
  cases hGrow
  have small := Nat.le_trans (DataBlock.ofLength_capacity hValue) room
  exact ⟨sized_pushBack slim small, _, Chain.walk_node (Chain.nodes_pushBack b.list value),
    by simp⟩

/-- A block in front is not met on the way from the last used one. -/
theorem growFront_slim (slim : Slim limit b) {bytes : List Byte}
    (room : blockLimit bytes.length ≤ limit) (hGrow : b.growFront bytes = .ok b') :
    Slim limit b' := by
  obtain ⟨value, hValue, hGrow⟩ := ok_of_bind hGrow
  obtain ⟨placed, hPlaced, hGrow⟩ := ok_of_bind hGrow
  cases hGrow
  have small := Nat.le_trans (DataBlock.ofLength_capacity hValue) room
  obtain ⟨found, walked, few⟩ := slim.spare
  refine ⟨?_, found, ?_, few⟩
  · intro node member
    rcases List.mem_cons.mp member with rfl | old
    · exact Nat.le_trans (Nat.le_of_eq (DataBlock.storeAtEnd_capacity hPlaced)) small
    · exact slim.sized node old
  · cases last : b.lastWithData with
    | past owner =>
        rw [last] at walked
        exact walked
    | node address =>
        rw [last] at walked
        obtain ⟨before, node, after, split, foundEq, same⟩ := suffixAt_eq_some walked
        have old : node ∈ b.list.nodes := by simp [split]
        have different : b.list.fresh ≠ address := by
          rw [← same]
          exact (b.list.fresh_absent node old).symm
        change suffixAt address (_ :: b.list.nodes) = some found
        unfold suffixAt
        rw [if_neg different]
        exact walked

theorem ensureLast_slim (slim : Slim limit b) {len : Nat} (room : blockLimit len ≤ limit)
    (hEnsure : b.ensureLast len = .ok b') : Slim limit b' := by
  unfold ensureLast at hEnsure
  split at hEnsure
  · exact growBack_slim slim room hEnsure
  · cases hEnsure
    exact slim

/-! ### The operations -/

theorem appendRounds_slim (rounds : Nat) :
    ∀ {b b' : Buffer} {bytes : List Byte}, Slim limit b → blockLimit bytes.length ≤ limit →
      appendRounds rounds b bytes = .ok b' → Slim limit b' := by
  induction rounds with
  | zero =>
      intro b b' bytes slim room hAppend
      cases hAppend
  | succ rounds ih =>
      intro b b' bytes slim room hAppend
      obtain ⟨grown, hGrown, hAppend⟩ := ok_of_bind hAppend
      have slimmer := ensureLast_slim slim room hGrown
      obtain ⟨last, reached, hAppend⟩ := ok_of_bind hAppend
      split at hAppend
      · obtain ⟨stored, hStored, hAppend⟩ := ok_of_bind hAppend
        cases hAppend
        exact slimmer.writeBlock reached (DataBlock.store_capacity hStored) _
      · split at hAppend
        · obtain ⟨moved, hMoved, hAppend⟩ := ok_of_bind hAppend
          obtain ⟨stored, hStored, hAppend⟩ := ok_of_bind hAppend
          cases hAppend
          have sized := DataBlock.store_capacity hStored
          exact slimmer.writeBlock reached (sized.trans (DataBlock.realign_capacity hMoved)) _
        · obtain ⟨filled, hFilled, hAppend⟩ := ok_of_bind hAppend
          obtain ⟨next, moved, hAppend⟩ := ok_of_bind hAppend
          have written := slimmer.writeBlock reached (fillUp_capacity hFilled)
            (grown.readableBytes + last.writeableBytes)
          apply ih (written.advance moved) _ hAppend
          rw [List.length_drop]
          exact Nat.le_trans (blockLimit_mono (Nat.sub_le _ _)) room

/-- An iterator at the end of a list that it starts means that there is no block. -/
theorem Headed.vacant (headed : b.Headed) (past : b.firstWithData = b.list.past) :
    b.list.nodes = [] := by
  by_cases none : b.list.nodes = []
  · exact none
  · have atStart := headed none
    rw [past, Chain.start] at atStart
    cases blocks : b.list.nodes with
    | nil => rfl
    | cons node rest =>
        rw [blocks] at atStart
        cases atStart

theorem prependRounds_slim (rounds : Nat) :
    ∀ {b b' : Buffer} {bytes : List Byte}, Slim limit b → b.Headed →
      blockLimit bytes.length ≤ limit → prependRounds rounds b bytes = .ok b' →
      Slim limit b' := by
  induction rounds with
  | zero =>
      intro b b' bytes slim headed room hPrepend
      cases hPrepend
  | succ rounds ih =>
      intro b b' bytes slim headed room hPrepend
      unfold prependRounds at hPrepend
      split at hPrepend
      · rename_i past
        obtain ⟨grown, hGrown, hPrepend⟩ := ok_of_bind hPrepend
        cases hPrepend
        have sized := (growFront_slim slim room hGrown).sized
        obtain ⟨value, _hValue, hGrown⟩ := ok_of_bind hGrown
        obtain ⟨placed, _hPlaced, hGrown⟩ := ok_of_bind hGrown
        cases hGrown
        refine ⟨sized, _, Chain.walk_start _, ?_⟩
        change (_ :: b.list.nodes).length ≤ 2
        rw [headed.vacant past]
        exact Nat.le_succ 1
      · obtain ⟨first, reached, hPrepend⟩ := ok_of_bind hPrepend
        split at hPrepend
        · obtain ⟨stored, hStored, hPrepend⟩ := ok_of_bind hPrepend
          cases hPrepend
          exact slim.writeBlock reached (DataBlock.storeBefore_capacity hStored) _
        · split at hPrepend
          · obtain ⟨stored, hStored, hPrepend⟩ := ok_of_bind hPrepend
            have sized := DataBlock.storeBefore_capacity hStored
            have written := slim.writeBlock reached sized
              (b.readableBytes + first.prependableBytes)
            apply ih written ((Edits.writeBlock reached sized _).headed headed) _ hPrepend
            rw [List.length_take]
            exact Nat.le_trans (blockLimit_mono (Nat.min_le_right _ _)) room
          · exact growFront_slim slim room hPrepend

theorem drain_keeps (nodes : List (Node DataBlock)) :
    ∀ {list drained : Chain DataBlock} {before : List (Node DataBlock)} {len : Nat},
      list.nodes = before ++ nodes → drain list nodes len = .ok drained →
      Keeps list drained := by
  induction nodes with
  | nil =>
      intro list drained before len split hDrain
      unfold drain at hDrain
      split at hDrain
      · cases hDrain
        exact Keeps.refl _
      · cases hDrain
  | cons node rest ih =>
      intro list drained before len split hDrain
      have passed (value : DataBlock) : (list.assign node.address value).nodes =
          (before ++ [⟨node.address, value⟩]) ++ rest := by
        rw [Chain.assign_nodes split]
        simp
      unfold drain at hDrain
      split at hDrain
      · cases hDrain
        exact Keeps.refl _
      · split at hDrain
        · obtain ⟨read, hRead, hDrain⟩ := ok_of_bind hDrain
          cases hDrain
          exact keeps_assign split (DataBlock.setReadPosition_capacity hRead)
        · split at hDrain
          · obtain ⟨read, hRead, hDrain⟩ := ok_of_bind hDrain
            have here := keeps_assign split (DataBlock.setReadPosition_capacity hRead)
            exact here.trans (ih (passed read) hDrain)
          · have onward : list.nodes = (before ++ [node]) ++ rest := by
              rw [split]
              simp
            exact ih onward hDrain

/-- The erasing loop stops at the last used block at the latest. -/
theorem eraseDrained_walk {last : Position} (nodes : List (Node DataBlock)) :
    ∀ {list list' : Chain DataBlock} {first : Position}, list.nodes = nodes →
      eraseDrained list last nodes = .ok (list', first) →
      list'.walk last = list.walk last := by
  induction nodes with
  | nil =>
      intro list list' first blocks hErase
      unfold eraseDrained at hErase
      split at hErase
      · cases hErase
        rfl
      · cases hErase
  | cons node rest ih =>
      intro list list' first blocks hErase
      unfold eraseDrained at hErase
      split at hErase
      · cases hErase
        rfl
      · rename_i different
        split at hErase
        · cases hErase
          rfl
        · have front : list.nodes = [] ++ node :: rest := blocks
          have erased : (list.erase node.address).nodes = rest := Chain.erase_nodes front
          rw [ih erased hErase]
          cases last with
          | past owner => rfl
          | node address =>
              have other : node.address ≠ address := by
                intro same
                exact different (congrArg Position.node same)
              unfold Chain.walk
              rw [erased, blocks]
              exact (if_neg other).symm

theorem discard_slim (slim : Slim limit b) (headed : b.Headed) {len : Nat}
    (hDiscard : b.discard len = .ok b') : Slim limit b' := by
  unfold discard at hDiscard
  split at hDiscard
  · obtain ⟨nodes, hWalk, hDiscard⟩ := ok_of_bind hDiscard
    obtain ⟨drained, hDrain, hDiscard⟩ := ok_of_bind hDiscard
    obtain ⟨⟨list, first⟩, hErase, hDiscard⟩ := ok_of_bind hDiscard
    cases hDiscard
    rw [headed.walk hWalk] at hDrain
    have whole : b.list.nodes = [] ++ b.list.nodes := rfl
    have keeps := drain_keeps b.list.nodes whole hDrain
    have drainedSlim : Slim limit { b with list := drained } := slim.keeps keeps rfl
    obtain ⟨_atStart, gone, split, _⟩ := eraseDrained_prefix drained.nodes rfl hErase
    constructor
    · intro node member
      apply drainedSlim.sized node
      change node ∈ drained.nodes
      rw [split]
      exact List.mem_append_right gone member
    · obtain ⟨found, walked, few⟩ := drainedSlim.spare
      exact ⟨found, (eraseDrained_walk drained.nodes rfl hErase).trans walked, few⟩
  · cases hDiscard

/-- A window needs a new block only where none is left behind the last used one. -/
theorem nextBlock_slim (slim : Slim limit b) (room : blockLimit minBufferSize ≤ limit)
    {position : Position} (hNext : b.nextBlock = .ok (b', position)) : Slim limit b' := by
  unfold nextBlock at hNext
  split at hNext
  · obtain ⟨grown, hGrown, hNext⟩ := ok_of_bind hNext
    cases hNext
    exact growBack_slim slim room hGrown
  · obtain ⟨last, reached, hNext⟩ := ok_of_bind hNext
    split at hNext
    · obtain ⟨following, moved, hNext⟩ := ok_of_bind hNext
      split at hNext
      · rename_i past
        obtain ⟨value, hValue, hNext⟩ := ok_of_bind hNext
        obtain ⟨back, _hBack, hNext⟩ := ok_of_bind hNext
        cases hNext
        have small := Nat.le_trans (DataBlock.ofLength_capacity hValue) room
        obtain ⟨before, node, split, here⟩ := b.last_of_advance moved past
        have grown : (b.list.pushBack value).nodes =
            before ++ node :: [⟨b.list.fresh, value⟩] := by
          rw [Chain.nodes_pushBack, split, List.append_assoc]
          rfl
        have walked := Chain.walk_node grown
        rw [← here] at walked
        exact ⟨sized_pushBack slim small, _, walked, Nat.le_refl 2⟩
      · cases hNext
        exact slim
    · split at hNext
      · obtain ⟨moved, hMoved, hNext⟩ := ok_of_bind hNext
        cases hNext
        exact slim.setBlock reached (DataBlock.realign_capacity hMoved)
      · cases hNext
        exact slim

theorem next_slim (slim : Slim limit b) (room : blockLimit minBufferSize ≤ limit) {window : Window}
    (hNext : b.next = .ok (b', window)) : Slim limit b' := by
  obtain ⟨⟨chosen, position⟩, hChosen, hNext⟩ := ok_of_bind hNext
  obtain ⟨value, _, hNext⟩ := ok_of_bind hNext
  cases position with
  | node address =>
      cases hNext
      exact nextBlock_slim slim room hChosen
  | past owner => cases hNext

theorem fillWindow_slim (slim : Slim limit b) {window : Window} {bytes : List Byte}
    (hFill : b.fillWindow window bytes = .ok b') : Slim limit b' := by
  obtain ⟨value, reached, hFill⟩ := ok_of_bind hFill
  obtain ⟨filled, hFilled, hFill⟩ := ok_of_bind hFill
  cases hFill
  exact slim.setBlock reached (DataBlock.memcpy_capacity hFilled)

theorem extend_slim (slim : Slim limit b) {len : Nat} (hExtend : b.extend len = .ok b') :
    Slim limit b' := by
  obtain ⟨position, hPosition, hExtend⟩ := ok_of_bind hExtend
  obtain ⟨value, reached, hExtend⟩ := ok_of_bind hExtend
  obtain ⟨written, hWritten, hExtend⟩ := ok_of_bind hExtend
  cases hExtend
  have moved : Slim limit { b with lastWithData := position } := by
    obtain ⟨last, _reached, hPosition⟩ := ok_of_bind hPosition
    split at hPosition
    · exact slim.advance hPosition
    · cases hPosition
      exact slim
  have sized := DataBlock.setWritePosition_capacity hWritten
  exact moved.keeps (keeps_setBlock reached sized) rfl

theorem unwrite_slim (slim : Slim limit b) {len : Nat} (hUnwrite : b.unwrite len = .ok b') :
    Slim limit b' := by
  obtain ⟨last, reached, hUnwrite⟩ := ok_of_bind hUnwrite
  split at hUnwrite
  · obtain ⟨written, hWritten, hUnwrite⟩ := ok_of_bind hUnwrite
    cases hUnwrite
    exact slim.writeBlock reached (DataBlock.setWritePosition_capacity hWritten) _
  · cases hUnwrite

end Slim

/-! ### What the blocks take -/

/-- Between the first and the last used block nothing is wasted. -/
theorem capacityOf_front {front spare : List (Node DataBlock)} {last : Node DataBlock}
    (layout : Layout front last spare) {limit : Nat}
    (sized : ∀ node ∈ front, node.value.capacity ≤ limit) :
    capacityOf front ≤ (bytesOf front).length + limit := by
  cases front with
  | nil => exact Nat.zero_le _
  | cons head rest =>
      have filled : capacityOf rest = (bytesOf rest).length := by
        have full : ∀ node ∈ rest, node.value.data.length = node.value.capacity := by
          intro node member
          have readZero := layout.unshifted node (by simp [member])
          have written := layout.full node (List.mem_cons_of_mem _ member)
          rw [DataBlock.data_length, DataBlock.readableBytes, readZero, written, Nat.sub_zero]
        rw [bytesOf, List.length_flatMap, capacityOf]
        exact congrArg List.sum (List.map_congr_left fun node member => (full node member).symm)
      have here := sized head List.mem_cons_self
      rw [capacityOf_cons, bytesOf_cons_length, filled]
      omega

theorem footprint {b : Buffer} {content : List Byte} (represents : Represents b content)
    {limit : Nat} (slim : Slim limit b) :
    capacityOf b.list.nodes ≤ b.readableBytes + 3 * limit := by
  cases represents with
  | vacant noBlocks first last readable empty =>
      rw [noBlocks]
      exact Nat.zero_le _
  | occupied front last spare blocks first lastAt layout held readable =>
      obtain ⟨found, walked, few⟩ := slim.spare
      rw [lastAt, Chain.walk_node blocks] at walked
      cases walked
      have sized := slim.sized
      rw [blocks] at sized
      have inFront := capacityOf_front layout fun node member =>
        sized node (List.mem_append_left _ member)
      have inLast := sized last (by simp)
      have behind := capacityOf_le fun node (member : node ∈ spare) => sized node (by simp [member])
      have single : spare.length * limit ≤ 1 * limit := by
        apply Nat.mul_le_mul_right
        rw [List.length_cons] at few
        omega
      rw [blocks, capacityOf_append, capacityOf_cons, readable, held, bytesOf_append,
        List.length_append]
      omega

theorem headed_of_represents {b : Buffer} {content : List Byte}
    (represents : Represents b content) : b.Headed := fun _ => represents.first_eq_start

end Buffer

/-- A call puts at most `longest` bytes into new blocks. -/
def Op.Within (longest : Nat) : Op → Prop
  | .append bytes => bytes.length ≤ longest
  | .prepend bytes => bytes.length ≤ longest
  | _ => True

namespace Session

open Buffer

theorem run_slim {s : Session} {content : List Byte} (represents : Represents s.buffer content)
    {longest : Nat} (slim : Slim (blockLimit longest) s.buffer) {op : Op}
    (within : op.Within longest) {buffer : Buffer} {window : Option Window}
    (hRun : s.run op = .ok (buffer, window)) : Slim (blockLimit longest) buffer := by
  have headed := headed_of_represents represents
  cases op with
  | append bytes =>
      obtain ⟨b, hAppend, hRun⟩ := ok_of_bind hRun
      cases hRun
      exact appendRounds_slim _ slim (blockLimit_mono within) hAppend
  | prepend bytes =>
      obtain ⟨b, hPrepend, hRun⟩ := ok_of_bind hRun
      cases hRun
      exact prependRounds_slim _ slim headed (blockLimit_mono within) hPrepend
  | discard len =>
      obtain ⟨b, hDiscard, hRun⟩ := ok_of_bind hRun
      cases hRun
      exact discard_slim slim headed hDiscard
  | retrieveAsString len =>
      obtain ⟨⟨str, b⟩, hRetrieve, hRun⟩ := ok_of_bind hRun
      cases hRun
      exact discard_slim slim headed (retrieveAsString_discard hRetrieve)
  | discardAll =>
      cases hRun
      exact slim_of_vacant rfl rfl
  | next =>
      obtain ⟨⟨b, offered⟩, hNext, hRun⟩ := ok_of_bind hRun
      cases hRun
      exact next_slim slim (blockLimit_least longest) hNext
  | extend bytes =>
      unfold run at hRun
      cases hWindow : s.window with
      | none =>
          rw [hWindow] at hRun
          cases hRun
      | some offered =>
          rw [hWindow] at hRun
          obtain ⟨filled, hFill, hRun⟩ := ok_of_bind hRun
          obtain ⟨b, hExtend, hRun⟩ := ok_of_bind hRun
          cases hRun
          exact extend_slim (fillWindow_slim slim hFill) hExtend
  | unwrite len =>
      obtain ⟨b, hUnwrite, hRun⟩ := ok_of_bind hRun
      cases hRun
      exact unwrite_slim slim hUnwrite

theorem reachable_slim {owner longest : Nat} {state : Session × List Byte}
    (reachable : Transition.Reachable
      ((system owner).restrict fun _ op => op.Within longest) state) :
    Slim (blockLimit longest) state.1.buffer := by
  induction reachable with
  | start begins =>
      rw [begins]
      exact slim_of_vacant rfl rfl
  | next before taken ih =>
      obtain ⟨within, _legal, performed, _effect⟩ := taken
      obtain ⟨⟨buffer, window⟩, hRun, performed⟩ := ok_of_bind performed
      rw [← Except.ok.inj performed]
      exact run_slim (reachable_represents before.of_restrict) ih within hRun

end Session

/-- **Footprint.** Along any run of legal calls that append or prepend at most `longest` bytes
at a time, all blocks of the Buffer together are no larger than its readable bytes and three
blocks, each of the least size or twice as long as such a request. -/
theorem footprint_bounded {owner longest : Nat} {state : Session × List Byte}
    (reachable : Transition.Reachable
      ((Session.system owner).restrict fun _ op => op.Within longest) state) :
    state.2.length ≤ capacityOf state.1.buffer.list.nodes ∧
      capacityOf state.1.buffer.list.nodes ≤ state.2.length + 3 * blockLimit longest := by
  have represents := Session.reachable_represents reachable.of_restrict
  have bound := Buffer.footprint represents (Session.reachable_slim reachable)
  rw [represents.readable_eq] at bound
  refine ⟨?_, bound⟩
  rw [← represents.walk_first.2]
  exact bytesOf_le _

/-- Two bytes in a block of 1024. -/
theorem footprint_bounded_append :
    ∃ s', (Session.new 0).perform (.append [104, 105]) = .ok s' ∧
      [104, 105].length ≤ capacityOf s'.buffer.list.nodes ∧
      capacityOf s'.buffer.list.nodes ≤ [104, 105].length + 3 * blockLimit 2 := by
  have start : Transition.Reachable ((Session.system 0).restrict fun _ op => op.Within 2)
      (Session.new 0, []) := .start rfl
  have legal : (Session.new 0).Legal (.append [104, 105]) := ⟨by decide, trivial⟩
  obtain ⟨s', hPerform, _reachable⟩ := Session.appended_reachable legal
  have within : (Op.append [104, 105]).Within 2 := Nat.le_refl 2
  have appended : Transition.Reachable ((Session.system 0).restrict fun _ op => op.Within 2)
      (s', [104, 105]) := .next start ⟨within, legal, hPerform, rfl⟩
  exact ⟨s', hPerform, footprint_bounded appended⟩

end Uvcpp
