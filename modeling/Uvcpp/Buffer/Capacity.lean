/-
The capacity counter of a Buffer.

Every operation that adds a block adds its size to the counter, and nothing but
discardAll and a move takes anything out of it.  A discard that erases drained blocks
leaves their sizes in the counter.
-/

import Mathlib.Algebra.GroupWithZero.Nat
import Uvcpp.Buffer.SpecialMembers

namespace Uvcpp

open LinkedList

/-- The sizes of some blocks together. -/
def capacityOf (nodes : List (Node DataBlock)) : Nat :=
  (nodes.map fun node => node.value.capacity).sum

@[simp] theorem capacityOf_nil : capacityOf [] = 0 := rfl

@[simp] theorem capacityOf_cons (node : Node DataBlock) (rest : List (Node DataBlock)) :
    capacityOf (node :: rest) = node.value.capacity + capacityOf rest := rfl

@[simp] theorem capacityOf_append (left right : List (Node DataBlock)) :
    capacityOf (left ++ right) = capacityOf left + capacityOf right := by
  simp [capacityOf]

theorem capacityOf_eq_zero {nodes : List (Node DataBlock)} :
    capacityOf nodes = 0 ↔ nodes = [] := by
  cases nodes with
  | nil => simp
  | cons node rest =>
      have positive := node.value.capacity_pos
      simp only [capacityOf_cons, reduceCtorEq, iff_false]
      omega

theorem capacityOf_congr {nodes others : List (Node DataBlock)}
    (same : nodes.map Node.value = others.map Node.value) :
    capacityOf nodes = capacityOf others := by
  have byValue (list : List (Node DataBlock)) :
      capacityOf list = ((list.map Node.value).map DataBlock.capacity).sum := by
    rw [capacityOf, List.map_map]
    rfl
  rw [byValue, byValue, same]

namespace Buffer

/-- `capacity()` counts the blocks in the list, all of them and nothing else. -/
def Accounted (b : Buffer) : Prop := b.capacity = capacityOf b.list.nodes

theorem Accounted.eq_zero_iff {b : Buffer} (accounted : b.Accounted) :
    b.capacity = 0 ↔ b.list.nodes = [] := by
  rw [accounted, capacityOf_eq_zero]

/-! ### Adding blocks -/

theorem Edits.headed {b b' : Buffer} (edits : Edits b b') (headed : b.Headed) : b'.Headed := by
  induction edits with
  | same list first capacity =>
      unfold Headed at headed ⊢
      rw [list, first]
      exact headed
  | @store b b' position value stored reached sized list first capacity =>
      intro _some
      rw [list, first, headed (nodes_of_block reached)]
      exact (writeBlock_start b position stored 0).symm
  | back value list kept capacity => exact kept headed
  | front value list first capacity => exact fun _some => first
  | trans left right ihLeft ihRight => exact ihRight (ihLeft headed)

/-- What an edit adds to the list it adds to the counter. -/
theorem Edits.counted {b b' : Buffer} (edits : Edits b b') :
    b'.capacity + capacityOf b.list.nodes = b.capacity + capacityOf b'.list.nodes := by
  induction edits with
  | same list first capacity => rw [list, capacity]
  | @store b b' position value stored reached sized list first capacity =>
      rw [list, capacity]
      unfold block at reached
      cases held : b.list.value? position with
      | none =>
          rw [held] at reached
          cases reached
      | some other =>
          rw [held] at reached
          cases reached
          rcases Chain.value?_split held with ⟨before, node, after, split, here, valueEq⟩
          have stored_nodes : (b.setBlock position stored).list.nodes =
              before ++ ⟨node.address, stored⟩ :: after := by
            rw [here]
            exact Chain.assign_nodes split stored
          rw [stored_nodes, split, capacityOf_append, capacityOf_append, capacityOf_cons,
            capacityOf_cons, sized, valueEq]
  | back value list kept capacity =>
      rw [list, capacity, Chain.nodes_pushBack, capacityOf_append, capacityOf_cons,
        capacityOf_nil]
      dsimp only
      omega
  | @front b b' value list first capacity =>
      have pushed : (b.list.pushFront value).nodes = ⟨b.list.fresh, value⟩ :: b.list.nodes := rfl
      rw [list, capacity, pushed, capacityOf_cons]
      dsimp only
      omega
  | trans left right ihLeft ihRight => omega

theorem Edits.accounted_iff {b b' : Buffer} (edits : Edits b b') :
    b'.Accounted ↔ b.Accounted := by
  have counted := edits.counted
  unfold Accounted
  omega

/-! ### Discarding -/

/-- Nothing is erased by discarding `len` bytes: the first block is the last used one, or
it holds more than `len` bytes. -/
def Spares (b : Buffer) (len : Nat) : Prop :=
  ∀ node ∈ b.list.nodes.head?,
    .node node.address = b.lastWithData ∨ len < node.value.readableBytes

instance (b : Buffer) (len : Nat) : Decidable (b.Spares len) :=
  inferInstanceAs (Decidable (∀ node ∈ b.list.nodes.head?,
    .node node.address = b.lastWithData ∨ len < node.value.readableBytes))

theorem setReadPosition_readable {value read : DataBlock} {pos : Nat}
    (hSet : value.setReadPosition pos = .ok read) : read.readableBytes = value.write - pos := by
  have data : read.data = Region.window value.buffer pos value.write := by
    unfold DataBlock.setReadPosition at hSet
    split at hSet
    · cases hSet
      exact DataBlock.place_data
    · cases hSet
  rw [← DataBlock.data_length, data, Region.window_length_of_le value.fits]

/-- `nodes'` are `nodes` after a discard of `len` bytes moved read positions. -/
structure Drained (nodes nodes' : List (Node DataBlock)) (len : Nat) : Prop where
  sizes : capacityOf nodes' = capacityOf nodes
  head : (nodes'.head?.map fun node => (node.address, node.value.readableBytes)) =
    nodes.head?.map fun node => (node.address, node.value.readableBytes - len)

section Drained

variable {nodes nodes' rest rest' : List (Node DataBlock)} {node : Node DataBlock}
  {read : DataBlock} {len : Nat}

theorem Drained.untouched (none : len = 0) : Drained nodes nodes len := by
  rw [none]
  exact ⟨rfl, rfl⟩

theorem Drained.cons (sized : read.capacity = node.value.capacity)
    (left : read.readableBytes = node.value.readableBytes - len)
    (sizes : capacityOf rest' = capacityOf rest) :
    Drained (node :: rest) (⟨node.address, read⟩ :: rest') len where
  sizes := by
    rw [capacityOf_cons, capacityOf_cons, sizes]
    exact congrArg (· + capacityOf rest) sized
  head := congrArg (fun readable => some (node.address, readable)) left

/-- The first block has bytes left exactly when it held more than `len`. -/
theorem Drained.spared (drained : Drained nodes nodes' len) (last : Position) :
    (∀ node ∈ nodes'.head?, .node node.address = last ∨ 0 < node.value.readableBytes) ↔
      ∀ node ∈ nodes.head?, .node node.address = last ∨ len < node.value.readableBytes := by
  have head := drained.head
  cases nodes with
  | nil =>
      cases nodes' with
      | nil => simp
      | cons node' rest' => cases head
  | cons node rest =>
      cases nodes' with
      | nil => cases head
      | cons node' rest' =>
          obtain ⟨address, readable⟩ := Prod.mk.inj (Option.some.inj head)
          simp only [List.head?_cons, Option.mem_def, Option.some.injEq, forall_eq']
          rw [address, readable, Nat.sub_pos_iff_lt]

end Drained

theorem drain_drained (nodes : List (Node DataBlock)) :
    ∀ {list drained : Chain DataBlock} {before : List (Node DataBlock)} {len : Nat},
      list.nodes = before ++ nodes → drain list nodes len = .ok drained →
      ∃ nodes', drained.nodes = before ++ nodes' ∧ Drained nodes nodes' len := by
  induction nodes with
  | nil =>
      intro list drained before len split hDrain
      unfold drain at hDrain
      split at hDrain
      · cases hDrain
        exact ⟨[], split, .untouched ‹_›⟩
      · cases hDrain
  | cons node rest ih =>
      intro list drained before len split hDrain
      unfold drain at hDrain
      split at hDrain
      · cases hDrain
        exact ⟨node :: rest, split, .untouched ‹_›⟩
      · split at hDrain
        · rcases ok_of_bind hDrain with ⟨read, hRead, hDrain⟩
          cases hDrain
          have left : read.readableBytes = node.value.readableBytes - len := by
            rw [setReadPosition_readable hRead, DataBlock.readableBytes]
            omega
          exact ⟨⟨node.address, read⟩ :: rest, Chain.assign_nodes split read,
            .cons (DataBlock.setReadPosition_capacity hRead) left rfl⟩
        · rename_i more
          split at hDrain
          · rcases ok_of_bind hDrain with ⟨read, hRead, hDrain⟩
            have moved : (list.assign node.address read).nodes =
                (before ++ [⟨node.address, read⟩]) ++ rest := by
              rw [Chain.assign_nodes split]
              simp
            have left : read.readableBytes = node.value.readableBytes - len := by
              rw [setReadPosition_readable hRead]
              unfold DataBlock.readableBytes at more ⊢
              omega
            rcases ih moved hDrain with ⟨nodes', drainedNodes, later⟩
            refine ⟨⟨node.address, read⟩ :: nodes', by rw [drainedNodes]; simp, ?_⟩
            exact .cons (DataBlock.setReadPosition_capacity hRead) left later.sizes
          · have passed : list.nodes = (before ++ [node]) ++ rest := by
              rw [split]
              simp
            rcases ih passed hDrain with ⟨nodes', drainedNodes, later⟩
            refine ⟨node :: nodes', by rw [drainedNodes]; simp, ?_⟩
            exact .cons rfl (by omega) later.sizes

/-- What is erased is a prefix of the list, and the iterator ends at the begin of the rest. -/
theorem eraseDrained_prefix {last : Position} (nodes : List (Node DataBlock)) :
    ∀ {list list' : Chain DataBlock} {first : Position}, list.nodes = nodes →
      eraseDrained list last nodes = .ok (list', first) →
      first = list'.start ∧ ∃ gone, nodes = gone ++ list'.nodes ∧
        (gone = [] ↔ ∀ node ∈ nodes.head?,
          .node node.address = last ∨ 0 < node.value.readableBytes) := by
  induction nodes with
  | nil =>
      intro list list' first blocks hErase
      unfold eraseDrained at hErase
      split at hErase
      · cases hErase
        refine ⟨?_, [], blocks.symm, by simp⟩
        rw [Chain.start, blocks]
        rfl
      · cases hErase
  | cons node rest ih =>
      intro list list' first blocks hErase
      have start : list.start = .node node.address := by
        rw [Chain.start, blocks]
        rfl
      unfold eraseDrained at hErase
      split at hErase
      · rename_i atLast
        cases hErase
        refine ⟨start.symm, [], blocks.symm, ?_⟩
        simpa using Or.inl atLast
      · rename_i different
        split at hErase
        · rename_i readable
          cases hErase
          refine ⟨start.symm, [], blocks.symm, ?_⟩
          simpa using Or.inr readable
        · rename_i drained
          have split : list.nodes = [] ++ node :: rest := blocks
          have erased : (list.erase node.address).nodes = rest := Chain.erase_nodes split
          rcases ih erased hErase with ⟨atStart, gone, restEq, _spared⟩
          refine ⟨atStart, node :: gone, by rw [restEq]; rfl, ?_⟩
          simp only [reduceCtorEq, false_iff]
          intro spared
          rcases spared node rfl with atLast | readable
          · exact different atLast
          · exact drained readable

theorem Headed.walk {b : Buffer} (headed : b.Headed) {nodes : List (Node DataBlock)}
    (hWalk : orBadIterator (b.list.walk b.firstWithData) = .ok nodes) :
    nodes = b.list.nodes := by
  cases found : b.list.walk b.firstWithData with
  | none =>
      rw [found] at hWalk
      cases hWalk
  | some others =>
      rw [found] at hWalk
      cases hWalk
      by_cases none : b.list.nodes = []
      · cases nodes with
        | nil => exact none.symm
        | cons node rest =>
            rcases Chain.walk_split found with ⟨before, split, _here⟩
            rw [none] at split
            simp at split
      · rw [headed none, Chain.walk_start] at found
        exact (Option.some.inj found).symm

/-- A discard leaves the counter alone, and takes from the list what it erases. -/
theorem discard_counted {b b' : Buffer} {len : Nat} (headed : b.Headed)
    (hDiscard : b.discard len = .ok b') :
    b'.Headed ∧ b'.capacity = b.capacity ∧ ∃ erased,
      capacityOf b.list.nodes = capacityOf erased + capacityOf b'.list.nodes ∧
        (erased = [] ↔ b.Spares len) := by
  unfold discard at hDiscard
  split at hDiscard
  · rcases ok_of_bind hDiscard with ⟨nodes, hWalk, hDiscard⟩
    rcases ok_of_bind hDiscard with ⟨drained, hDrain, hDiscard⟩
    rcases ok_of_bind hDiscard with ⟨⟨list, first⟩, hErase, hDiscard⟩
    cases hDiscard
    rw [headed.walk hWalk] at hDrain
    have split : b.list.nodes = [] ++ b.list.nodes := rfl
    rcases drain_drained b.list.nodes split hDrain with ⟨nodes', drainedNodes, read⟩
    rcases eraseDrained_prefix drained.nodes rfl hErase with ⟨atStart, gone, goneEq, spared⟩
    rw [List.nil_append] at drainedNodes
    refine ⟨fun _some => atStart, rfl, gone, ?_, ?_⟩
    · rw [← read.sizes, ← drainedNodes, goneEq, capacityOf_append]
    · rw [spared, drainedNodes]
      exact read.spared b.lastWithData
  · cases hDiscard

theorem discard_accounted_iff {b b' : Buffer} {len : Nat} (headed : b.Headed)
    (accounted : b.Accounted) (hDiscard : b.discard len = .ok b') :
    b'.Accounted ↔ b.Spares len := by
  rcases discard_counted headed hDiscard with ⟨_headed, capacity, erased, split, spared⟩
  rw [← spared, ← capacityOf_eq_zero]
  unfold Accounted at accounted ⊢
  omega

/-! ### Copies, moves and exchanges -/

/-- Behind the first used block of the source the first iterator stays as found. -/
theorem matchIterators_first {source : Buffer} {past : Position}
    (its : List (Node DataBlock)) :
    ∀ {mits : List (Node DataBlock)} {first last first' last' : Position},
      (∀ it ∈ its, (.node it.address : Position) ≠ source.firstWithData) →
      matchIterators source past its mits first last = .ok (first', last') → first' = first := by
  induction its with
  | nil =>
      intro mits first last first' last' _absent found
      cases found
      rfl
  | cons it rest ih =>
      intro mits first last first' last' absent found
      cases mits with
      | nil => cases found
      | cons mit others =>
          unfold matchIterators at found
          rw [if_neg (absent it List.mem_cons_self)] at found
          exact ih (fun other member => absent other (List.mem_cons_of_mem _ member)) found

theorem copyConstruct_counted {b c : Buffer} {owner : Nat} (headed : b.Headed)
    (hCopy : b.copyConstruct owner = .ok c) :
    c.Headed ∧ (c.Accounted ↔ b.Accounted) := by
  have values := b.list.copy_values owner
  rcases ok_of_bind hCopy with ⟨nodes, hWalk, hCopy⟩
  rcases ok_of_bind hCopy with ⟨⟨first, last⟩, hMatch, hCopy⟩
  cases hCopy
  have sizes := capacityOf_congr values
  refine ⟨?_, by unfold Accounted; rw [sizes]⟩
  intro copied
  rw [headed.walk hWalk] at hMatch
  cases source : b.list.nodes with
  | nil =>
      rw [source] at values
      exact absurd (List.map_eq_nil_iff.mp values) copied
  | cons it its =>
      have atFirst : b.firstWithData = .node it.address := by
        rw [headed (by rw [source]; simp), Chain.start, source]
        rfl
      have split : b.list.nodes = [] ++ it :: its := source
      have behind : ∀ other ∈ its, (.node other.address : Position) ≠ b.firstWithData := by
        intro other member same
        rw [atFirst] at same
        exact Chain.absent_after split other member (Position.node.inj same)
      cases copies : (b.list.copy owner).nodes with
      | nil => exact absurd copies copied
      | cons mit mits =>
          rw [source, copies] at hMatch
          unfold matchIterators at hMatch
          rw [if_pos atFirst.symm] at hMatch
          have kept := matchIterators_first its behind hMatch
          rw [kept, Chain.start, copies]
          rfl

theorem moveConstruct_counted {b : Buffer} (owner : Nat) (headed : b.Headed) :
    (b.moveConstruct owner).1.Headed ∧ (b.moveConstruct owner).2.Headed ∧
      ((b.moveConstruct owner).1.Accounted ↔ b.Accounted) ∧
        (b.moveConstruct owner).2.Accounted := by
  refine ⟨?_, fun _ => rfl, Iff.rfl, rfl⟩
  intro some
  exact (headed some).trans (first_of_ne_nil _ _ some)

theorem swap_counted {a b : Buffer} (left : a.Headed) (right : b.Headed) :
    (a.swap b).1.Headed ∧ (a.swap b).2.Headed ∧
      ((a.swap b).1.Accounted ↔ b.Accounted) ∧ ((a.swap b).2.Accounted ↔ a.Accounted) := by
  refine ⟨?_, ?_, Iff.rfl, Iff.rfl⟩
  · exact fun some => (right some).trans (first_of_ne_nil _ _ some)
  · exact fun some => (left some).trans (first_of_ne_nil _ _ some)

end Buffer

end Uvcpp
