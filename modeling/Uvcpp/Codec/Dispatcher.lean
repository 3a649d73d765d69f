/-
Dispatcher.h: which callback a message is given to.

The descriptors come from the generated pool, a parameter.  A name that the pool does not
know gives the null pointer, and callbackMap then keeps the callback under it.
-/

import Mathlib.Data.List.Induction
import Mathlib.Logic.Function.Basic
import Uvcpp.Codec.Basic

namespace Uvcpp

/-- The generated pool as far as the dispatcher uses it; `none` is the null pointer. -/
structure DescriptorPool (Message Descriptor : Type) where
  findMessageTypeByName : List Byte → Option Descriptor
  getDescriptor : Message → Descriptor

/-- The pool finds a generated type under its name and under no other. -/
structure DescriptorPool.Lawful {Message Descriptor : Type}
    (pool : DescriptorPool Message Descriptor) (pb : Protobuf Message) : Prop where
  finds : ∀ name message, pb.knows (pb.getTypeName message) = true →
    (pool.findMessageTypeByName name = some (pool.getDescriptor message) ↔
      name = pb.getTypeName message)

/-- A pool in which the names are the descriptors. -/
def DescriptorPool.named {Message : Type} (pb : Protobuf Message) :
    DescriptorPool Message (List Byte) :=
  { findMessageTypeByName := fun name => if pb.knows name then some name else none
    getDescriptor := pb.getTypeName }

theorem DescriptorPool.named_lawful {Message : Type} (pb : Protobuf Message) :
    (DescriptorPool.named pb).Lawful pb := by
  constructor
  intro name message known
  constructor
  · intro found
    simp only [named, Option.ite_none_right_eq_some, Option.some.injEq] at found
    exact found.2
  · rintro rfl
    exact if_pos known

/-- A callback is an std::function; `none` is the empty one. -/
structure Dispatcher (Descriptor Callback : Type) where
  callbackMap : Option Descriptor → Option (Option Callback)
  defaultCallback : Option Callback

namespace Dispatcher

variable {Message Descriptor Callback : Type}

/-- What `onMessage` does; an empty std::function throws when it is called. -/
inductive Reply (Callback : Type) where
  | called (callback : Callback)
  | ignored
  | threw
deriving DecidableEq

inductive Registration (Callback : Type) where
  | setDefaultCallback (callback : Option Callback)
  | registerMessageCallback (typeName : List Byte) (callback : Option Callback)
deriving DecidableEq

def new : Dispatcher Descriptor Callback :=
  { callbackMap := fun _ => none
    defaultCallback := none }

def onMessage (pool : DescriptorPool Message Descriptor)
    (d : Dispatcher Descriptor Callback) (message : Message) : Reply Callback :=
  match d.callbackMap (some (pool.getDescriptor message)) with
  | some (some callback) => .called callback
  | some none => .threw
  | none =>
      match d.defaultCallback with
      | some callback => .called callback
      | none => .ignored

def register [DecidableEq Descriptor] (pool : DescriptorPool Message Descriptor)
    (d : Dispatcher Descriptor Callback) : Registration Callback → Dispatcher Descriptor Callback
  | .setDefaultCallback callback => { d with defaultCallback := callback }
  | .registerMessageCallback typeName callback =>
      { d with
        callbackMap := Function.update d.callbackMap (pool.findMessageTypeByName typeName)
          (some callback) }

def registerAll [DecidableEq Descriptor] (pool : DescriptorPool Message Descriptor)
    (registrations : List (Registration Callback)) : Dispatcher Descriptor Callback :=
  registrations.foldl (register pool) new

/-! ### Which callback that is -/

/-- The callback that is registered under the name. -/
def Registration.under (name : List Byte) : Registration Callback → Option (Option Callback)
  | .setDefaultCallback _ => none
  | .registerMessageCallback typeName callback => if typeName = name then some callback else none

def Registration.default? : Registration Callback → Option (Option Callback)
  | .setDefaultCallback callback => some callback
  | .registerMessageCallback _ _ => none

/-- What the registrations say about a type: the last callback under its name counts, or the
last default. -/
def wanted (name : List Byte) (registrations : List (Registration Callback)) : Reply Callback :=
  match (registrations.filterMap (Registration.under name)).getLast? with
  | some (some callback) => .called callback
  | some none => .threw
  | none =>
      match (registrations.filterMap Registration.default?).getLast? with
      | some (some callback) => .called callback
      | _ => .ignored

section Spec

variable [DecidableEq Descriptor] {pool : DescriptorPool Message Descriptor} {pb : Protobuf Message}

theorem registerAll_append (registrations : List (Registration Callback))
    (registration : Registration Callback) :
    registerAll pool (registrations ++ [registration]) =
      (registerAll pool registrations).register pool registration := by
  rw [registerAll, List.foldl_append]
  rfl

theorem callbackMap_registerAll (lawful : pool.Lawful pb) {message : Message}
    (known : pb.knows (pb.getTypeName message) = true)
    (registrations : List (Registration Callback)) :
    (registerAll pool registrations).callbackMap (some (pool.getDescriptor message)) =
      (registrations.filterMap (Registration.under (pb.getTypeName message))).getLast? := by
  induction registrations using List.reverseRecOn with
  | nil => rfl
  | append_singleton before registration ih =>
      rw [registerAll_append, List.filterMap_append]
      cases registration with
      | setDefaultCallback callback =>
          simpa [register, Registration.under] using ih
      | registerMessageCallback typeName callback =>
          have found := lawful.finds typeName message known
          by_cases same : typeName = pb.getTypeName message
          · have hit := found.mpr same
            simp [register, Registration.under, hit, if_pos same]
          · have other : some (pool.getDescriptor message) ≠ pool.findMessageTypeByName typeName :=
              fun hit => same (found.mp hit.symm)
            simpa [register, Registration.under, same, Function.update_of_ne other] using ih

theorem defaultCallback_registerAll (registrations : List (Registration Callback)) :
    (registerAll pool registrations).defaultCallback =
      (registrations.filterMap Registration.default?).getLast?.join := by
  induction registrations using List.reverseRecOn with
  | nil => rfl
  | append_singleton before registration ih =>
      rw [registerAll_append, List.filterMap_append]
      cases registration with
      | setDefaultCallback callback => simp [register, Registration.default?]
      | registerMessageCallback typeName callback =>
          simpa [register, Registration.default?] using ih

theorem onMessage_registerAll (lawful : pool.Lawful pb) {message : Message}
    (known : pb.knows (pb.getTypeName message) = true)
    (registrations : List (Registration Callback)) :
    (registerAll pool registrations).onMessage pool message =
      wanted (pb.getTypeName message) registrations := by
  rw [onMessage, wanted, callbackMap_registerAll lawful known, defaultCallback_registerAll]
  split
  · rfl
  · rfl
  · cases (registrations.filterMap Registration.default?).getLast? with
    | none => rfl
    | some callback => cases callback <;> rfl

end Spec

end Dispatcher

end Uvcpp
