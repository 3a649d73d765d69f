/-
Any, the type of the data of an EventLoop.

An Any points to a node with a value of some type.  Copies clone the node and the exchange
of two Anys exchanges their pointers.  Assigning a value overwrites the pointer without
deleting what it pointed to.
-/

import Uvcpp.Library.OwnedHeap
import Uvcpp.Library.Transition

namespace Uvcpp

/-- `AnyNode<ValueType>`: what `typeid` says of its value, and the value. -/
structure AnyNode {Tag : Type} (ValueType : Tag → Type) where
  type : Tag
  value : ValueType type

namespace Any

/-- The pointer `value` of an Any, by the number of its object, or of the temporary in
`operator=(const Any &)`. -/
inductive Slot where
  | object (index : Nat)
  | temporary
deriving DecidableEq

inductive Failure where
  | nullPointer
  | deletedNode
deriving DecidableEq

variable {Tag : Type} {ValueType : Tag → Type}

/-- All Anys of a program. -/
structure World (ValueType : Tag → Type) where
  heap : OwnedHeap Slot (AnyNode ValueType)
  made : Nat
  destroyed : List Nat

inductive Call (ValueType : Tag → Type) where
  | construct
  | constructOf (node : AnyNode ValueType)
  | copyConstruct (source : Nat)
  | assignValue (target : Nat) (node : AnyNode ValueType)
  | assign (target source : Nat)
  | swap (target source : Nat)
  | destroy (index : Nat)

namespace World

def empty : World ValueType :=
  { heap := .empty
    made := 0
    destroyed := [] }

def Live (w : World ValueType) (index : Nat) : Prop := index < w.made ∧ index ∉ w.destroyed

/-- `*value` -/
def dereference (w : World ValueType) (slot : Slot) : Except Failure (AnyNode ValueType) :=
  match w.heap.holds slot with
  | none => .error .nullPointer
  | some address =>
      if address ∈ w.heap.deleted then .error .deletedNode
      else
        match w.heap.nodes[address]? with
        | some node => .ok node
        | none => .error .deletedNode

/-- `Any(const Any &operand)` with the pointer at `slot`. -/
def copyTo (w : World ValueType) (slot source : Slot) : Except Failure (World ValueType) :=
  match w.heap.holds source with
  | none => .ok w
  | some _ => do
      let node ← w.dereference source
      pure { w with heap := w.heap.allocate slot node }

def perform (w : World ValueType) : Call ValueType → Except Failure (World ValueType)
  | .construct => .ok { w with made := w.made + 1 }
  | .constructOf node =>
      .ok
        { w with
          heap := w.heap.allocate (.object w.made) node
          made := w.made + 1 }
  | .copyConstruct source => do
      let w ← w.copyTo (.object w.made) (.object source)
      pure { w with made := w.made + 1 }
  | .assignValue target node => .ok { w with heap := w.heap.allocate (.object target) node }
  -- `EventLoop::setData` does the same with the Any it is given
  | .assign target source => do
      let w ← w.copyTo .temporary (.object source)
      pure { w with heap := (w.heap.exchange .temporary (.object target)).delete .temporary }
  | .swap target source => .ok { w with heap := w.heap.exchange (.object target) (.object source) }
  | .destroy index =>
      .ok
        { w with
          heap := w.heap.delete (.object index)
          destroyed := index :: w.destroyed }

/-- Calls are made on objects that exist. -/
def Legal (w : World ValueType) : Call ValueType → Prop
  | .construct => True
  | .constructOf _ => True
  | .copyConstruct source => w.Live source
  | .assignValue target _ => w.Live target
  | .assign target source => w.Live target ∧ w.Live source
  | .swap target source => w.Live target ∧ w.Live source
  | .destroy index => w.Live index

/-- `castTo`: the value, or none for the result -1. -/
def castTo [DecidableEq Tag] (w : World ValueType) (index : Nat) (type : Tag) :
    Except Failure (Option (ValueType type)) := do
  let node ← w.dereference (.object index)
  if same : node.type = type then pure (some (same ▸ node.value)) else pure none

def isEmpty (w : World ValueType) (index : Nat) : Bool := (w.heap.holds (.object index)).isNone

/-- The node whose pointer `operator=(const ValueType &)` overwrites. -/
def overwrites (w : World ValueType) : Call ValueType → List Nat
  | .assignValue target _ => (w.heap.holds (.object target)).toList
  | _ => []

end World

/-! ### What an Any is for -/

/-- Every Any as a value or nothing, how many objects there have been, and how many values
were overwritten by an assigned value. -/
structure Values (ValueType : Tag → Type) where
  value : Nat → Option (AnyNode ValueType)
  made : Nat
  overwritten : Nat

namespace Values

def empty : Values ValueType :=
  { value := fun _ => none
    made := 0
    overwritten := 0 }

/-- One more object. -/
def create (v : Values ValueType) (value : Option (AnyNode ValueType)) : Values ValueType :=
  { v with
    value := Function.update v.value v.made value
    made := v.made + 1 }

def effect (v : Values ValueType) : Call ValueType → Values ValueType
  | .construct => v.create none
  | .constructOf node => v.create (some node)
  | .copyConstruct source => v.create (v.value source)
  | .assignValue target node =>
      { v with
        value := Function.update v.value target (some node)
        overwritten := v.overwritten + (v.value target).toList.length }
  | .assign target source => { v with value := Function.update v.value target (v.value source) }
  | .swap target source =>
      { v with
        value := Function.update (Function.update v.value target (v.value source)) source
          (v.value target) }
  | .destroy index => { v with value := Function.update v.value index none }

end Values

/-- The calls of a program, paired with what they mean. -/
def system : Transition.System (World ValueType × Values ValueType) (Call ValueType) where
  initial state := state = (.empty, .empty)
  step state call after :=
    state.1.Legal call ∧ state.1.perform call = .ok after.1 ∧ after.2 = state.2.effect call

/-- Each object has a node of its own with its value, or none; only overwritten values are
lost. -/
structure Refines (w : World ValueType) (v : Values ValueType) : Prop where
  sound : w.heap.Sound
  contents : ∀ index, w.heap.content (.object index) = v.value index
  temporary : w.heap.holds .temporary = none
  made : w.made = v.made
  unmade : ∀ index, w.made ≤ index → v.value index = none
  lost : w.heap.lost.length = v.overwritten

namespace World

variable {w : World ValueType}

theorem dereference_ok (sound : w.heap.Sound) {slot : Slot} {node : AnyNode ValueType}
    (found : w.heap.content slot = some node) : w.dereference slot = .ok node := by
  obtain ⟨address, held, stored⟩ := Option.bind_eq_some_iff.mp found
  have kept : address ∉ w.heap.deleted := fun member =>
    sound.apart slot address held (List.mem_append_left _ member)
  simp only [dereference, held, if_neg kept, stored]

theorem dereference_null {slot : Slot} (empty : w.heap.holds slot = none) :
    w.dereference slot = .error .nullPointer := by
  simp only [dereference, empty]

/-- A copy into a pointer that is null. -/
theorem copyTo_spec (sound : w.heap.Sound) {slot : Slot} (free : w.heap.holds slot = none)
    (source : Slot) :
    ∃ heap, w.copyTo slot source = .ok { w with heap := heap } ∧ heap.Sound ∧
      heap.content = Function.update w.heap.content slot (w.heap.content source) ∧
      heap.lost = w.heap.lost := by
  have some := sound.content_isSome source
  cases held : w.heap.holds source with
  | none =>
      rw [held, Option.isSome_none, Option.isSome_eq_false_iff, Option.isNone_iff_eq_none] at some
      refine ⟨w.heap, by simp only [copyTo, held], sound, ?_, rfl⟩
      rw [some]
      have nothing : w.heap.content slot = none := by simp [OwnedHeap.content, free]
      rw [← nothing, Function.update_eq_self]
  | some address =>
      rw [held, Option.isSome_some, Option.isSome_iff_exists] at some
      obtain ⟨node, found⟩ := some
      refine ⟨w.heap.allocate slot node, ?_, sound.allocate slot node, ?_, ?_⟩
      · simp only [copyTo, held, dereference_ok sound found]
        rfl
      · rw [found, sound.content_allocate]
      · simp [OwnedHeap.allocate, free]

end World

theorem start_refines : Refines (.empty : World ValueType) .empty where
  sound := OwnedHeap.empty_sound
  contents _ := rfl
  temporary := rfl
  made := rfl
  unmade _ _ := rfl
  lost := rfl

section Refines

variable {w : World ValueType} {v : Values ValueType}

theorem Refines.holds_none (refines : Refines w v) {index : Nat}
    (nothing : v.value index = none) : w.heap.holds (.object index) = none := by
  have some := refines.sound.content_isSome (.object index)
  rw [refines.contents, nothing] at some
  simpa using some.symm

/-- Another value for one object, or for a new one. -/
theorem Refines.update (refines : Refines w v) {heap : OwnedHeap Slot (AnyNode ValueType)}
    (sound : heap.Sound) {index made overwritten : Nat} {value : Option (AnyNode ValueType)}
    (contents : ∀ other, heap.content (.object other) =
      if other = index then value else w.heap.content (.object other))
    (temporary : heap.content .temporary = none) (inside : index < made) (grown : w.made ≤ made)
    (lost : heap.lost.length = overwritten) (destroyed : List Nat) :
    Refines { heap := heap, made := made, destroyed := destroyed }
      { value := Function.update v.value index value
        made := made
        overwritten := overwritten } where
  sound := sound
  contents other := by
    rw [contents]
    dsimp only
    by_cases same : other = index
    · rw [same, if_pos rfl, Function.update_self]
    · rw [if_neg same, Function.update_of_ne same, refines.contents]
  temporary := by
    have some := sound.content_isSome .temporary
    rw [temporary] at some
    simpa using some.symm
  made := rfl
  unmade other above := by
    dsimp only at above ⊢
    have different : other ≠ index := by
      rintro rfl
      omega
    rw [Function.update_of_ne different]
    exact refines.unmade other (by omega)
  lost := lost

theorem Refines.temporary_content (refines : Refines w v) :
    w.heap.content .temporary = none := by
  simp [OwnedHeap.content, refines.temporary]

/-- Every legal call completes and has its effect. -/
theorem Refines.perform (refines : Refines w v) {call : Call ValueType} (legal : w.Legal call) :
    ∃ after, w.perform call = .ok after ∧ Refines after (v.effect call) := by
  have made := refines.made
  have free : w.heap.holds (.object w.made) = none :=
    refines.holds_none (refines.unmade w.made (Nat.le_refl _))
  cases call with
  | construct =>
      refine ⟨_, rfl, ?_⟩
      rw [Values.effect, Values.create, ← made]
      apply refines.update refines.sound _ refines.temporary_content (Nat.lt_succ_self _)
        (Nat.le_succ _) refines.lost
      intro other
      by_cases same : other = w.made
      · rw [same, if_pos rfl, refines.contents]
        exact refines.unmade w.made (Nat.le_refl _)
      · rw [if_neg same]
  | constructOf node =>
      refine ⟨_, rfl, ?_⟩
      rw [Values.effect, Values.create, ← made]
      have contents := refines.sound.content_allocate (.object w.made) node
      apply refines.update (refines.sound.allocate _ node) _ _ (Nat.lt_succ_self _)
        (Nat.le_succ _)
      · simpa [OwnedHeap.allocate, free] using refines.lost
      · intro other
        rw [contents, Function.update_apply]
        simp
      · rw [contents, Function.update_of_ne Slot.noConfusion, refines.temporary_content]
  | copyConstruct source =>
      obtain ⟨heap, copied, sound, contents, lost⟩ :=
        World.copyTo_spec refines.sound free (.object source)
      refine ⟨{ heap := heap, made := w.made + 1, destroyed := w.destroyed }, ?_, ?_⟩
      · simp only [World.perform, copied]
        rfl
      · rw [Values.effect, Values.create, ← made]
        apply refines.update sound _ _ (Nat.lt_succ_self _) (Nat.le_succ _)
        · rw [lost, refines.lost]
        · intro other
          rw [contents, Function.update_apply, refines.contents]
          simp
        · rw [contents, Function.update_of_ne Slot.noConfusion, refines.temporary_content]
  | assignValue target node =>
      refine ⟨_, rfl, ?_⟩
      rw [Values.effect, ← made]
      have contents := refines.sound.content_allocate (.object target) node
      apply refines.update (refines.sound.allocate _ node) _ _ legal.1 (Nat.le_refl _)
      · have some := refines.sound.content_isSome (.object target)
        rw [refines.contents] at some
        simp only [OwnedHeap.allocate, List.length_append, refines.lost]
        cases held : w.heap.holds (.object target) <;> cases kept : v.value target <;>
          simp_all
      · intro other
        rw [contents, Function.update_apply]
        simp
      · rw [contents, Function.update_of_ne Slot.noConfusion, refines.temporary_content]
  | assign target source =>
      obtain ⟨heap, copied, sound, contents, lost⟩ :=
        World.copyTo_spec refines.sound refines.temporary (.object source)
      refine ⟨{ w with
        heap := (heap.exchange .temporary (.object target)).delete .temporary }, ?_, ?_⟩
      · simp only [World.perform, copied]
        rfl
      · rw [Values.effect, ← made]
        apply refines.update ((sound.exchange _ _).delete _) _ _ legal.1.1 (Nat.le_refl _)
        · change heap.lost.length = _
          rw [lost, refines.lost]
        · intro other
          rw [OwnedHeap.content_delete, Function.update_of_ne Slot.noConfusion,
            OwnedHeap.content_exchange, Function.update_apply, contents, Function.update_self,
            refines.contents]
          by_cases same : other = target
          · simp [same]
          · simp [same, Function.update_of_ne]
        · rw [OwnedHeap.content_delete, Function.update_self]
  | swap target source =>
      refine ⟨_, rfl, ?_⟩
      have contents := w.heap.content_exchange (.object target) (.object source)
      constructor
      · exact refines.sound.exchange _ _
      · intro other
        simp only [Values.effect, contents, Function.update_apply, refines.contents,
          Slot.object.injEq]
      · have nothing := refines.temporary
        rw [OwnedHeap.exchange_holds, if_neg Slot.noConfusion, if_neg Slot.noConfusion]
        exact nothing
      · exact made
      · intro other above
        have notTarget : other ≠ target := by
          rintro rfl
          exact absurd legal.1.1 (Nat.not_lt.mpr above)
        have notSource : other ≠ source := by
          rintro rfl
          exact absurd legal.2.1 (Nat.not_lt.mpr above)
        simp only [Values.effect, Function.update_of_ne notSource,
          Function.update_of_ne notTarget]
        exact refines.unmade other above
      · exact refines.lost
  | destroy index =>
      refine ⟨_, rfl, ?_⟩
      rw [Values.effect, ← made]
      have contents := w.heap.content_delete (.object index)
      apply refines.update (refines.sound.delete _) _ _ legal.1 (Nat.le_refl _) refines.lost
      · intro other
        rw [contents, Function.update_apply]
        simp
      · rw [contents, Function.update_of_ne Slot.noConfusion, refines.temporary_content]

/-- Nothing else overwrites a pointer to a node. -/
theorem Refines.lost_perform (refines : Refines w v) {call : Call ValueType}
    {after : World ValueType} (performed : w.perform call = .ok after) :
    after.heap.lost = w.heap.lost ++ w.overwrites call := by
  have free : w.heap.holds (.object w.made) = none :=
    refines.holds_none (refines.unmade w.made (Nat.le_refl _))
  cases call with
  | copyConstruct source =>
      obtain ⟨heap, copied, _sound, _contents, lost⟩ :=
        World.copyTo_spec refines.sound free (.object source)
      simp only [World.perform, copied] at performed
      cases performed
      exact lost.trans (List.append_nil _).symm
  | assign target source =>
      obtain ⟨heap, copied, _sound, _contents, lost⟩ :=
        World.copyTo_spec refines.sound refines.temporary (.object source)
      simp only [World.perform, copied] at performed
      cases performed
      exact lost.trans (List.append_nil _).symm
  | constructOf node =>
      cases performed
      simp [World.overwrites, OwnedHeap.allocate, free]
  | assignValue target node =>
      cases performed
      rfl
  | construct | swap | destroy =>
      cases performed
      exact (List.append_nil _).symm

theorem reachable_refines {state : World ValueType × Values ValueType}
    (reachable : Transition.Reachable system state) : Refines state.1 state.2 := by
  induction reachable with
  | start begins =>
      rw [begins]
      exact start_refines
  | next _before taken ih =>
      obtain ⟨legal, performed, effect⟩ := taken
      obtain ⟨after, same, refines⟩ := ih.perform legal
      rw [performed] at same
      rw [effect, Except.ok.inj same]
      exact refines

end Refines

/-- **Values.** After any calls on any number of Anys each of them stands for a value of its
own or for nothing, as if it held it itself: castTo finds it exactly at its own type, and
dereferences a null pointer just when there is none.  Every further call completes.  A node is
deleted at most once and never while an Any points to it; a node is not deleted just when an
Any still points to it or it was overwritten by an assigned value. -/
theorem any_holds_values [DecidableEq Tag] {state : World ValueType × Values ValueType}
    (reachable : Transition.Reachable system state) :
    (∀ index, state.1.isEmpty index = (state.2.value index).isNone) ∧
      (∀ index type, state.1.castTo index type =
        match state.2.value index with
        | none => .error .nullPointer
        | some node =>
            .ok (if same : node.type = type then some (same ▸ node.value) else none)) ∧
      (∀ call, state.1.Legal call → ∃ after, state.1.perform call = .ok after ∧
        after.heap.lost = state.1.heap.lost ++ state.1.overwrites call) ∧
      state.1.heap.deleted.Nodup ∧
      (∀ index address, state.1.heap.holds (.object index) = some address →
        address ∉ state.1.heap.deleted) ∧
      (∀ address < state.1.heap.nodes.length, address ∉ state.1.heap.deleted ↔
        address ∈ state.1.heap.lost ∨ ∃ index, state.1.heap.holds (.object index) = some address) ∧
      state.1.heap.lost.length = state.2.overwritten ∧
      ((∀ index, state.2.value index = none) →
        state.1.heap.deleted.length + state.2.overwritten = state.1.heap.nodes.length) := by
  have refines := reachable_refines reachable
  have sound := refines.sound
  have pointers (index : Nat) := sound.content_isSome (.object index)
  refine ⟨?_, ?_, ?_, ?_, ?_, ?_, refines.lost, ?_⟩
  · intro index
    have some := pointers index
    rw [refines.contents] at some
    rw [World.isEmpty, ← Option.not_isSome, ← Option.not_isSome, some]
  · intro index type
    cases found : state.2.value index with
    | none =>
        rw [World.castTo, World.dereference_null (refines.holds_none found)]
        rfl
    | some node =>
        rw [← refines.contents] at found
        rw [World.castTo, World.dereference_ok sound found]
        dsimp only [bind, Except.bind]
        split <;> rfl
  · intro call legal
    obtain ⟨after, performed, _refines⟩ := refines.perform legal
    exact ⟨after, performed, refines.lost_perform performed⟩
  · exact (List.nodup_append.mp sound.once).1
  · intro index address held member
    exact sound.apart _ address held (List.mem_append_left _ member)
  · intro address made
    rw [sound.not_deleted_iff made]
    constructor
    · rintro (lost | ⟨slot, held⟩)
      · exact .inl lost
      · cases slot with
        | object index => exact .inr ⟨index, held⟩
        | temporary =>
            rw [refines.temporary] at held
            cases held
    · exact fun kept => kept.imp_right fun ⟨index, held⟩ => ⟨.object index, held⟩
  · intro nothing
    rw [← refines.lost]
    apply sound.gone_length
    intro slot
    cases slot with
    | object index => exact refines.holds_none (nothing index)
    | temporary => exact refines.temporary

/-- An Any that is assigned a second value and destroyed: the first one stays behind. -/
theorem any_holds_values_assigned :
    ∃ state : World (fun _ : Unit => Nat) × Values fun _ : Unit => Nat,
      Transition.Reachable system state ∧ state.1.heap.deleted = [1] ∧
        0 ∈ state.1.heap.lost ∧ state.1.heap.lost.length = 1 := by
  have begins : Transition.Reachable system
      ((.empty, .empty) : World (fun _ : Unit => Nat) × Values fun _ : Unit => Nat) := .start rfl
  have constructed := begins.next
    (show system.step _ (.constructOf ⟨(), 7⟩) (_, _) from ⟨trivial, rfl, rfl⟩)
  have assigned := constructed.next
    (show system.step _ (.assignValue 0 ⟨(), 8⟩) (_, _) from
      ⟨⟨Nat.zero_lt_one, List.not_mem_nil⟩, rfl, rfl⟩)
  have destroyed := assigned.next
    (show system.step _ (.destroy 0) (_, _) from
      ⟨⟨Nat.zero_lt_one, List.not_mem_nil⟩, rfl, rfl⟩)
  obtain ⟨_, _, _, _, _, kept, lost, _⟩ := any_holds_values destroyed
  have first := (kept 0 (show 0 < 2 from Nat.zero_lt_two)).mp (show 0 ∉ [1] by decide)
  refine ⟨_, destroyed, rfl, first.resolve_right ?_, lost⟩
  rintro ⟨index, held⟩
  simp [OwnedHeap.delete, OwnedHeap.allocate, World.empty, OwnedHeap.empty] at held

end Any

end Uvcpp
