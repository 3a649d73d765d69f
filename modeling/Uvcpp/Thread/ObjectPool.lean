/-
ObjectPool.

allocate takes an object out of the list and then overwrites the pointer to it with a new
one.  So a pooled object is never handed out again: it is lost.
-/

import Mathlib.Data.List.Count
import Uvcpp.Library.Transition

namespace Uvcpp

/-- Objects are numbered as they are created. -/
structure ObjectPool where
  poolSize : Nat
  objPoolList : List Nat
deriving DecidableEq

namespace ObjectPool

def new (poolSize : Nat) : ObjectPool :=
  { poolSize := poolSize
    objPoolList := [] }

/-- The locked part of `allocate`: `obj` behind it, and the pool. -/
def takeFront (pool : ObjectPool) : Option Nat × ObjectPool :=
  match pool.objPoolList with
  | [] => (none, pool)
  | obj :: rest => (some obj, { pool with objPoolList := rest })

/-- `allocate`, where `fresh` is the object that `new T()` makes. -/
def allocate (pool : ObjectPool) (fresh : Nat) : Nat × ObjectPool :=
  let (_obj, pool) := pool.takeFront
  let obj := fresh
  (obj, pool)

/-- `release`: `delObj`, and the pool. -/
def release (pool : ObjectPool) (obj : Nat) : Option Nat × ObjectPool :=
  if pool.objPoolList.length ≥ pool.poolSize then (some obj, pool)
  else (none, { pool with objPoolList := pool.objPoolList ++ [obj] })

/-- The loop of the destructor, with what has been deleted. -/
def deleteAll : List Nat → List Nat → List Nat
  | [], deleted => deleted
  | obj :: rest, deleted => deleteAll rest (deleted ++ [obj])

/-- A pool and what has become of the objects. -/
structure Ledger where
  pool : ObjectPool
  created : Nat
  handedOut : List Nat
  deleted : List Nat
  destroyed : Bool
deriving DecidableEq

inductive Event where
  | allocate
  | release (obj : Nat)
  | destroy
deriving DecidableEq

namespace Ledger

def empty (poolSize : Nat) : Ledger :=
  { pool := .new poolSize
    created := 0
    handedOut := []
    deleted := []
    destroyed := false }

/-- One call.  Only objects that are handed out are released, and the pool is destroyed
once. -/
def step (w : Ledger) : Event → Option Ledger
  | .allocate =>
      if w.destroyed then none
      else
        let (obj, pool) := w.pool.allocate w.created
        some
          { w with
            pool := pool
            created := w.created + 1
            handedOut := obj :: w.handedOut }
  | .release obj =>
      if w.destroyed = false ∧ obj ∈ w.handedOut then
        let (delObj, pool) := w.pool.release obj
        some
          { w with
            pool := pool
            handedOut := w.handedOut.erase obj
            deleted := w.deleted ++ delObj.toList }
      else none
  | .destroy =>
      if w.destroyed then none
      else
        some
          { w with
            pool := { w.pool with objPoolList := [] }
            deleted := deleteAll w.pool.objPoolList w.deleted
            destroyed := true }

def system (poolSize : Nat) : Transition.System Ledger Event :=
  .executed (fun w => w = empty poolSize) step

/-- In how many places an object is: with a caller, in the list, among the deleted. -/
def places (w : Ledger) (obj : Nat) : Nat :=
  w.handedOut.count obj + w.pool.objPoolList.count obj + w.deleted.count obj

/-- Every object is in one place, and the list is no longer than the pool is large. -/
structure Conserved (w : Ledger) : Prop where
  placed : ∀ obj, w.places obj = if obj < w.created then 1 else 0
  bounded : w.pool.objPoolList.length ≤ w.pool.poolSize

/-- `allocate` is called with nothing in the list only. -/
def Exhausted (w : Ledger) (event : Event) : Prop :=
  event = .allocate → w.pool.objPoolList = []

instance (w : Ledger) (event : Event) : Decidable (w.Exhausted event) :=
  inferInstanceAs (Decidable (event = .allocate → w.pool.objPoolList = []))

end Ledger

/-! ### One call -/

theorem allocate_eq (pool : ObjectPool) (fresh : Nat) :
    pool.allocate fresh = (fresh, { pool with objPoolList := pool.objPoolList.tail }) := by
  rcases pool with ⟨poolSize, objPoolList⟩
  cases objPoolList <;> rfl

theorem deleteAll_eq (objects deleted : List Nat) :
    deleteAll objects deleted = deleted ++ objects := by
  induction objects generalizing deleted with
  | nil =>
      rw [deleteAll, List.append_nil]
  | cons obj rest ih =>
      rw [deleteAll, ih, List.append_assoc]
      rfl

namespace Ledger

variable {w after : Ledger}

/-- A call of `allocate` adds the new object and loses the front of the list. -/
theorem step_allocate (taken : w.step .allocate = some after) :
    (∀ obj, after.places obj + w.pool.objPoolList.head?.toList.count obj =
        w.places obj + if obj = w.created then 1 else 0) ∧
      after.created = w.created + 1 ∧ after.pool.poolSize = w.pool.poolSize ∧
      after.pool.objPoolList = w.pool.objPoolList.tail := by
  rw [step, allocate_eq] at taken
  obtain ⟨_alive, taken⟩ := Option.ite_none_left_eq_some.mp taken
  cases taken
  refine ⟨?_, rfl, rfl, rfl⟩
  intro obj
  have parted : w.pool.objPoolList.count obj =
      w.pool.objPoolList.head?.toList.count obj + w.pool.objPoolList.tail.count obj := by
    cases w.pool.objPoolList with
    | nil => rfl
    | cons front rest =>
        rw [← List.singleton_append, List.count_append]
        rfl
  have added : (w.created :: w.handedOut).count obj =
      w.handedOut.count obj + if obj = w.created then 1 else 0 := by
    simp only [List.count_cons, beq_iff_eq, eq_comm (a := w.created)]
  simp only [places, added, parted]
  omega

/-- The other calls move objects and lose none. -/
theorem step_moves {event : Event} (taken : w.step event = some after)
    (other : event ≠ .allocate) :
    (∀ obj, after.places obj = w.places obj) ∧ after.created = w.created ∧
      after.pool.poolSize = w.pool.poolSize ∧
      (w.pool.objPoolList.length ≤ w.pool.poolSize →
        after.pool.objPoolList.length ≤ after.pool.poolSize) := by
  cases event with
  | allocate => exact absurd rfl other
  | release released =>
      rw [step] at taken
      obtain ⟨⟨_alive, handed⟩, taken⟩ := Option.ite_none_right_eq_some.mp taken
      have erased : ∀ obj, w.handedOut.count obj =
          (w.handedOut.erase released).count obj + [released].count obj := by
        intro obj
        rw [(List.perm_cons_erase handed).count_eq, ← List.singleton_append, List.count_append]
        omega
      by_cases full : w.pool.objPoolList.length ≥ w.pool.poolSize
      · rw [release, if_pos full] at taken
        cases taken
        refine ⟨?_, rfl, rfl, id⟩
        intro obj
        simp only [places, Option.toList_some, List.count_append, erased]
        omega
      · rw [release, if_neg full] at taken
        cases taken
        refine ⟨?_, rfl, rfl, ?_⟩
        · intro obj
          simp only [places, Option.toList_none, List.append_nil, List.count_append, erased]
          omega
        · intro _bounded
          rw [List.length_append]
          exact Nat.lt_of_not_le full
  | destroy =>
      rw [step, deleteAll_eq] at taken
      obtain ⟨_alive, taken⟩ := Option.ite_none_left_eq_some.mp taken
      cases taken
      refine ⟨?_, rfl, rfl, fun _ => Nat.zero_le _⟩
      intro obj
      simp only [places, List.count_append, List.count_nil]
      omega

/-! ### Runs -/

/-- On any run an object is lost at worst: it is never in two places. -/
theorem reachable_placed {poolSize : Nat}
    (reachable : Transition.Reachable (system poolSize) w) :
    (∀ obj, w.places obj ≤ if obj < w.created then 1 else 0) ∧
      w.pool.objPoolList.length ≤ w.pool.poolSize ∧ w.pool.poolSize = poolSize := by
  induction reachable with
  | start begins =>
      cases begins
      exact ⟨fun _ => Nat.zero_le _, Nat.zero_le _, rfl⟩
  | @next w after event _before taken ih =>
      obtain ⟨once, bounded, size⟩ := ih
      by_cases allocates : event = .allocate
      · rw [allocates] at taken
        obtain ⟨added, created, kept, list⟩ := step_allocate taken
        refine ⟨?_, ?_, kept.trans size⟩
        · intro obj
          have before := once obj
          have behind := added obj
          rw [created]
          split at before <;> split at behind <;> split <;> omega
        · rw [list, kept, List.length_tail]
          exact Nat.le_trans (Nat.sub_le _ 1) bounded
      · obtain ⟨moved, created, kept, list⟩ := step_moves taken allocates
        refine ⟨?_, list bounded, kept.trans size⟩
        intro obj
        rw [moved, created]
        exact once obj

/-- A call keeps every object exactly when it loses none out of the list. -/
theorem step_conserved {event : Event} (conserved : w.Conserved)
    (taken : w.step event = some after) : after.Conserved ↔ w.Exhausted event := by
  by_cases allocates : event = .allocate
  · rw [allocates] at taken
    obtain ⟨added, created, kept, list⟩ := step_allocate taken
    have exhausted : w.Exhausted event ↔ w.pool.objPoolList = [] :=
      ⟨fun called => called allocates, fun none _ => none⟩
    rw [exhausted]
    constructor
    · intro whole
      cases front : w.pool.objPoolList with
      | nil => rfl
      | cons obj rest =>
          -- the front of the list has lost its place
          have counted := added obj
          have before := conserved.placed obj
          have behind := whole.placed obj
          rw [front, List.head?_cons, Option.toList_some, List.count_singleton_self] at counted
          rw [created] at behind
          split at counted <;> split at before <;> split at behind <;> omega
    · intro none
      constructor
      · intro obj
        have counted := added obj
        have before := conserved.placed obj
        rw [none, List.head?_nil, Option.toList_none, List.count_nil] at counted
        rw [created]
        split at counted <;> split at before <;> split <;> omega
      · rw [list, none]
        exact Nat.zero_le _
  · obtain ⟨moved, created, kept, list⟩ := step_moves taken allocates
    refine iff_of_true ⟨?_, list conserved.bounded⟩ fun called => absurd called allocates
    intro obj
    rw [moved, created]
    exact conserved.placed obj

theorem reachable_conserved {poolSize : Nat}
    (run : Transition.Reachable ((system poolSize).restrict Exhausted) w) : w.Conserved := by
  induction run with
  | start begins =>
      cases begins
      exact ⟨fun _ => rfl, Nat.zero_le _⟩
  | next _before taken ih =>
      exact (step_conserved ih taken.2).mpr taken.1

/-- Only `allocate` creates, and it does so whatever the list holds. -/
theorem creates_iff {event : Event} (taken : w.step event = some after) :
    (w.created < after.created → w.pool.objPoolList = []) ↔ w.Exhausted event := by
  by_cases allocates : event = .allocate
  · rw [allocates] at taken
    have created := (step_allocate taken).2.1
    have more : w.created < after.created := by omega
    exact ⟨fun none _ => none more, fun called _ => called allocates⟩
  · have created := (step_moves taken allocates).2.1
    refine iff_of_true ?_ fun called => absurd called allocates
    intro more
    omega

end Ledger

end ObjectPool

/-- **Conservation.** Along the runs that call `allocate` with an empty list only, every
object is with a caller, in the list or deleted, once and in one of them, and the list
keeps its bound.  The first call with something in the list ends that, and creates an
object all the same. -/
theorem pool_conserves_iff_exhausted {poolSize : Nat} {w : ObjectPool.Ledger}
    (run : Transition.Reachable
      ((ObjectPool.Ledger.system poolSize).restrict ObjectPool.Ledger.Exhausted) w) :
    w.Conserved ∧ w.pool.poolSize = poolSize ∧
      ∀ event after, (ObjectPool.Ledger.system poolSize).step w event after →
        (after.Conserved ↔ w.Exhausted event) ∧
          ((w.created < after.created → w.pool.objPoolList = []) ↔ w.Exhausted event) := by
  have conserved := ObjectPool.Ledger.reachable_conserved run
  have reachable := run.of_restrict
  refine ⟨conserved, (ObjectPool.Ledger.reachable_placed reachable).2.2, ?_⟩
  intro event after taken
  exact ⟨ObjectPool.Ledger.step_conserved conserved taken, ObjectPool.Ledger.creates_iff taken⟩

/-- A pool of one object that is handed out, comes back, and is deleted with the pool. -/
theorem pool_conserves_iff_exhausted_once :
    ∃ w, Transition.Reachable
        ((ObjectPool.Ledger.system 1).restrict ObjectPool.Ledger.Exhausted) w ∧
      w.deleted = [0] ∧ w.Conserved := by
  have found : ∃ w ∈ Transition.execute
      (Transition.checked (fun w event => decide (w.Exhausted event)) ObjectPool.Ledger.step)
        (.empty 1) [.allocate, .release 0, .destroy], w.deleted = [0] := by
    decide
  obtain ⟨w, run, deleted⟩ := Transition.exists_reachable_within
    (fun _ _ _ passed => of_decide_eq_true passed) found
  exact ⟨w, run, deleted, (pool_conserves_iff_exhausted run).1⟩

/-- The same object, asked for again: another one is created, and it is gone. -/
theorem pool_loses_pooled_object :
    ∃ w, Transition.Reachable (ObjectPool.Ledger.system 1) w ∧ w.created = 2 ∧
      w.handedOut = [1] ∧ w.places 0 = 0 ∧ ¬w.Conserved := by
  have found : ∃ w ∈ Transition.execute ObjectPool.Ledger.step (.empty 1)
      [.allocate, .release 0, .allocate],
      w.created = 2 ∧ w.handedOut = [1] ∧ w.places 0 = 0 := by
    decide
  obtain ⟨w, reachable, created, handedOut, lost⟩ := Transition.exists_reachable found
  refine ⟨w, reachable, created, handedOut, lost, ?_⟩
  intro conserved
  have placed := conserved.placed 0
  rw [lost, created] at placed
  cases placed

end Uvcpp
