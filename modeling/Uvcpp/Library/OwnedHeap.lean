/-
Heaps in which every node has one owner.

A slot points to a node or to nothing.  A node is allocated into a slot and deleted through
it, or it is lost when the pointer to it is overwritten.  As long as pointers are exchanged
and not copied no two slots share a node, so a store through one is seen through no other.
-/

import Mathlib.Data.List.Nodup
import Mathlib.Data.List.Perm.Basic
import Mathlib.Logic.Function.Basic

/-- `deleted` and `lost` are history. -/
structure OwnedHeap (Slot α : Type) where
  nodes : List α
  holds : Slot → Option Nat
  deleted : List Nat
  lost : List Nat

namespace OwnedHeap

variable {Slot α : Type}

def empty : OwnedHeap Slot α :=
  { nodes := []
    holds := fun _ => none
    deleted := []
    lost := [] }

/-- What is found through a slot. -/
def content (h : OwnedHeap Slot α) (slot : Slot) : Option α :=
  (h.holds slot).bind fun node => h.nodes[node]?

/-- The nodes that no slot holds any more. -/
def gone (h : OwnedHeap Slot α) : List Nat := h.deleted ++ h.lost

section Operations

variable [DecidableEq Slot]

/-- A new node; the pointer that the slot held before is overwritten. -/
def allocate (h : OwnedHeap Slot α) (slot : Slot) (value : α) : OwnedHeap Slot α :=
  { h with
    nodes := h.nodes ++ [value]
    holds := Function.update h.holds slot (some h.nodes.length)
    lost := h.lost ++ (h.holds slot).toList }

/-- Deleting through an empty slot does nothing. -/
def delete (h : OwnedHeap Slot α) (slot : Slot) : OwnedHeap Slot α :=
  { h with
    holds := Function.update h.holds slot none
    deleted := h.deleted ++ (h.holds slot).toList }

def exchange (h : OwnedHeap Slot α) (left right : Slot) : OwnedHeap Slot α :=
  { h with
    holds := Function.update (Function.update h.holds left (h.holds right)) right (h.holds left) }

end Operations

/-- A store through a slot. -/
def modify (h : OwnedHeap Slot α) (slot : Slot) (use : α → α) : OwnedHeap Slot α :=
  { h with
    nodes :=
      match h.holds slot with
      | some node => h.nodes.modify node use
      | none => h.nodes }

/-- Every node is held by one slot, or was deleted or lost, once. -/
structure Sound (h : OwnedHeap Slot α) : Prop where
  single : ∀ slot other node, h.holds slot = some node → h.holds other = some node →
    slot = other
  once : h.gone.Nodup
  apart : ∀ slot node, h.holds slot = some node → node ∉ h.gone
  placed : ∀ node, node < h.nodes.length ↔ node ∈ h.gone ∨ ∃ slot, h.holds slot = some node

theorem empty_sound : (empty : OwnedHeap Slot α).Sound where
  single slot other node impossible := nomatch impossible
  once := List.nodup_nil
  apart slot node impossible := nomatch impossible
  placed node := by simp [empty, gone]

section Sound

variable {h : OwnedHeap Slot α}

theorem Sound.within (sound : h.Sound) {slot : Slot} {node : Nat}
    (held : h.holds slot = some node) : node < h.nodes.length :=
  (sound.placed node).mpr (.inr ⟨slot, held⟩)

theorem Sound.content_isSome (sound : h.Sound) (slot : Slot) :
    (h.content slot).isSome = (h.holds slot).isSome := by
  cases held : h.holds slot with
  | none => simp [content, held]
  | some node => simp [content, held, List.getElem?_eq_getElem (sound.within held)]

/-- A node that is not deleted is lost, or some slot holds it. -/
theorem Sound.not_deleted_iff (sound : h.Sound) {node : Nat} (made : node < h.nodes.length) :
    node ∉ h.deleted ↔ node ∈ h.lost ∨ ∃ slot, h.holds slot = some node := by
  constructor
  · intro kept
    rcases (sound.placed node).mp made with gone | held
    · exact .inl ((List.mem_append.mp gone).resolve_left kept)
    · exact .inr held
  · rintro (lost | ⟨slot, held⟩) member
    · exact (List.nodup_append.mp sound.once).2.2 node member node lost rfl
    · exact sound.apart slot node held (List.mem_append_left _ member)

/-- Once no slot holds a node, all of them are gone. -/
theorem Sound.gone_length (sound : h.Sound) (idle : ∀ slot, h.holds slot = none) :
    h.deleted.length + h.lost.length = h.nodes.length := by
  have all : h.gone.Perm (List.range h.nodes.length) := by
    apply (List.perm_ext_iff_of_nodup sound.once List.nodup_range).mpr
    intro node
    rw [List.mem_range, sound.placed]
    simp [idle]
  have lengths := all.length_eq
  rw [gone, List.length_append, List.length_range] at lengths
  exact lengths

variable [DecidableEq Slot]

/-- A slot gives up its node, for another or for nothing. -/
theorem Sound.leave (sound : h.Sound) {after : OwnedHeap Slot α} {slot : Slot}
    (next : Option Nat) (holds : after.holds = Function.update h.holds slot next)
    (gone : after.gone.Perm (h.gone ++ (h.holds slot).toList))
    (nodes : ∀ node, node < after.nodes.length ↔ node < h.nodes.length ∨ next = some node)
    (fresh : ∀ node, next = some node → h.nodes.length ≤ node) : after.Sound := by
  have others {other : Slot} {node : Nat} (held : after.holds other = some node) :
      (other = slot ∧ next = some node) ∨ (other ≠ slot ∧ h.holds other = some node) := by
    rw [holds] at held
    by_cases same : other = slot
    · rw [same, Function.update_self] at held
      exact .inl ⟨same, held⟩
    · rw [Function.update_of_ne same] at held
      exact .inr ⟨same, held⟩
  have member (node : Nat) : node ∈ after.gone ↔ node ∈ h.gone ∨ h.holds slot = some node := by
    rw [gone.mem_iff, List.mem_append, Option.mem_toList]
  constructor
  · intro left right node atLeft atRight
    rcases others atLeft with ⟨rfl, new⟩ | ⟨apartLeft, oldLeft⟩
    · rcases others atRight with ⟨rfl, _⟩ | ⟨_, old⟩
      · rfl
      · have above := fresh node new
        have below := sound.within old
        omega
    · rcases others atRight with ⟨rfl, new⟩ | ⟨_, oldRight⟩
      · have above := fresh node new
        have below := sound.within oldLeft
        omega
      · exact sound.single left right node oldLeft oldRight
  · rw [gone.nodup_iff, List.nodup_append]
    refine ⟨sound.once, ?_, ?_⟩
    · cases h.holds slot <;> simp
    · intro node old other new
      rintro rfl
      exact sound.apart slot node (Option.mem_toList.mp new) old
  · intro other node held
    rw [member]
    rintro (old | own)
    · rcases others held with ⟨rfl, new⟩ | ⟨_, kept⟩
      · have above := fresh node new
        have below := (sound.placed node).mpr (.inl old)
        omega
      · exact sound.apart other node kept old
    · rcases others held with ⟨rfl, new⟩ | ⟨different, kept⟩
      · have above := fresh node new
        have below := sound.within own
        omega
      · exact different (sound.single other slot node kept own)
  · intro node
    rw [nodes, member, sound.placed, holds]
    constructor
    · rintro ((old | ⟨other, held⟩) | new)
      · exact .inl (.inl old)
      · by_cases same : other = slot
        · rw [same] at held
          exact .inl (.inr held)
        · exact .inr ⟨other, by rw [Function.update_of_ne same, held]⟩
      · exact .inr ⟨slot, by rw [Function.update_self, new]⟩
    · rintro ((old | own) | ⟨other, held⟩)
      · exact .inl (.inl old)
      · exact .inl (.inr ⟨slot, own⟩)
      · by_cases same : other = slot
        · rw [same, Function.update_self] at held
          exact .inr held
        · rw [Function.update_of_ne same] at held
          exact .inl (.inr ⟨other, held⟩)

theorem Sound.allocate (sound : h.Sound) (slot : Slot) (value : α) :
    (h.allocate slot value).Sound := by
  apply sound.leave (some h.nodes.length) rfl
  · rw [gone, gone, List.append_assoc]
    rfl
  · intro node
    simp only [OwnedHeap.allocate, List.length_append, List.length_singleton,
      Option.some.injEq]
    omega
  · intro node same
    exact Nat.le_of_eq (Option.some.inj same)

theorem Sound.delete (sound : h.Sound) (slot : Slot) : (h.delete slot).Sound := by
  apply sound.leave none rfl
  · simp only [gone, OwnedHeap.delete, List.append_assoc]
    exact List.perm_append_comm.append_left h.deleted
  · simp [OwnedHeap.delete]
  · intro node impossible
    cases impossible

theorem exchange_holds (h : OwnedHeap Slot α) (left right slot : Slot) :
    (h.exchange left right).holds slot =
      h.holds (if slot = right then left else if slot = left then right else slot) := by
  unfold exchange
  dsimp only
  by_cases atRight : slot = right
  · rw [atRight, Function.update_self, if_pos rfl]
  · rw [Function.update_of_ne atRight, if_neg atRight]
    by_cases atLeft : slot = left
    · rw [atLeft, Function.update_self, if_pos rfl]
    · rw [Function.update_of_ne atLeft, if_neg atLeft]

theorem Sound.exchange (sound : h.Sound) (left right : Slot) :
    (h.exchange left right).Sound := by
  constructor
  · intro slot other node held kept
    rw [exchange_holds] at held kept
    have same := sound.single _ _ node held kept
    grind
  · exact sound.once
  · intro slot node held
    rw [exchange_holds] at held
    exact sound.apart _ node held
  · intro node
    apply (sound.placed node).trans
    apply or_congr Iff.rfl
    constructor
    · rintro ⟨slot, held⟩
      refine ⟨if slot = right then left else if slot = left then right else slot, ?_⟩
      rw [exchange_holds, ← held]
      grind
    · rintro ⟨slot, held⟩
      rw [exchange_holds] at held
      exact ⟨_, held⟩

omit [DecidableEq Slot] in
theorem Sound.modify (sound : h.Sound) (slot : Slot) (use : α → α) :
    (h.modify slot use).Sound where
  single := sound.single
  once := sound.once
  apart := sound.apart
  placed node := by
    have lengths : (h.modify slot use).nodes.length = h.nodes.length := by
      unfold OwnedHeap.modify
      dsimp only
      split
      · exact List.length_modify ..
      · rfl
    rw [lengths]
    exact sound.placed node

/-! ### What is found through the slots -/

theorem Sound.content_allocate (sound : h.Sound) (slot : Slot) (value : α) :
    (h.allocate slot value).content = Function.update h.content slot (some value) := by
  funext other
  by_cases same : other = slot
  · simp [content, OwnedHeap.allocate, same]
  · rw [Function.update_of_ne same]
    simp only [content, OwnedHeap.allocate, Function.update_of_ne same]
    cases held : h.holds other with
    | none => rfl
    | some node => exact List.getElem?_append_left (sound.within held)

theorem content_delete (h : OwnedHeap Slot α) (slot : Slot) :
    (h.delete slot).content = Function.update h.content slot none := by
  funext other
  by_cases same : other = slot
  · simp [content, delete, same]
  · simp [content, delete, same]

theorem content_exchange (h : OwnedHeap Slot α) (left right : Slot) :
    (h.exchange left right).content =
      Function.update (Function.update h.content left (h.content right)) right
        (h.content left) := by
  funext slot
  rw [content, exchange_holds]
  by_cases atRight : slot = right
  · rw [if_pos atRight, atRight, Function.update_self]
    rfl
  · rw [if_neg atRight, Function.update_of_ne atRight]
    by_cases atLeft : slot = left
    · rw [if_pos atLeft, atLeft, Function.update_self]
      rfl
    · rw [if_neg atLeft, Function.update_of_ne atLeft]
      rfl

theorem Sound.content_modify (sound : h.Sound) (slot : Slot) (use : α → α) :
    (h.modify slot use).content =
      Function.update h.content slot ((h.content slot).map use) := by
  funext other
  cases held : h.holds slot with
  | none =>
      have unchanged : (h.modify slot use).content other = h.content other := by
        simp [content, OwnedHeap.modify, held]
      rw [unchanged]
      by_cases same : other = slot
      · simp [same, content, held]
      · rw [Function.update_of_ne same]
  | some node =>
      by_cases same : other = slot
      · simp [content, OwnedHeap.modify, same, held]
      · rw [Function.update_of_ne same]
        simp only [content, OwnedHeap.modify, held]
        cases kept : h.holds other with
        | none => rfl
        | some found =>
            have different : node ≠ found := by
              rintro rfl
              exact same (sound.single other slot node kept held)
            simp [List.getElem?_modify, different]

end Sound

end OwnedHeap
