/-
The Buffers of a program.

Buffers are constructed empty, used through their calls, copied, moved, assigned and
exchanged in any order.  The capacity counters of all of them agree with their lists as
long as no discard erases a block.
-/

import Mathlib.Data.List.Basic
import Uvcpp.Buffer.Capacity

namespace Uvcpp

/-- Every Buffer with the window it handed out last, and how many list objects there
have been so far. -/
structure World where
  objects : List Session
  lists : Nat

namespace World

inductive Call where
  | construct
  | perform (index : Nat) (op : Op)
  | copyConstruct (source : Nat)
  | moveConstruct (source : Nat)
  | assign (target source : Nat)
  | swap (target source : Nat)

def empty : World :=
  { objects := []
    lists := 0 }

/-- One more Buffer, on a list object of its own. -/
def create (w : World) (s : Session) : World :=
  { objects := w.objects ++ [s]
    lists := w.lists + 1 }

def put (w : World) (index : Nat) (s : Session) : World :=
  { w with objects := w.objects.set index s }

/-- The calls that complete.  A window follows the blocks it is in. -/
def step (w : World) : Call → Option World
  | .construct => some (w.create (Session.new w.lists))
  | .perform index op => do
      let s ← w.objects[index]?
      let s' ← (s.perform op).toOption
      pure (w.put index s')
  | .copyConstruct source => do
      let s ← w.objects[source]?
      let b ← (s.buffer.copyConstruct w.lists).toOption
      pure (w.create (Session.start b))
  | .moveConstruct source => do
      let s ← w.objects[source]?
      let (b, rest) := s.buffer.moveConstruct w.lists
      pure ((w.put source (Session.start rest)).create { s with buffer := b })
  | .assign target source => do
      let left ← w.objects[target]?
      let right ← w.objects[source]?
      let b ← (left.buffer.assign right.buffer w.lists).toOption
      -- the temporary takes the old blocks with it
      pure { w.put target (Session.start b) with lists := w.lists + 1 }
  | .swap target source => do
      let left ← w.objects[target]?
      let right ← w.objects[source]?
      -- exchanging a list with itself does nothing
      if target = source then
        pure w
      else
        let (a, b) := left.buffer.swap right.buffer
        pure ((w.put target { right with buffer := a }).put source { left with buffer := b })

def system : Transition.System World Call :=
  Transition.System.executed (fun w => w = empty) step

/-- The call erases no block. -/
def Spared (w : World) : Call → Prop
  | .perform index op =>
      ∀ len ∈ op.discards, ∀ s ∈ w.objects[index]?, s.buffer.Spares len
  | _ => True

instance (w : World) : (call : Call) → Decidable (w.Spared call)
  | .perform index op =>
      inferInstanceAs (Decidable
        (∀ len ∈ op.discards, ∀ s ∈ w.objects[index]?, s.buffer.Spares len))
  | .construct | .copyConstruct _ | .moveConstruct _ | .assign _ _ | .swap _ _ =>
      inferInstanceAs (Decidable True)

/-! ### One call -/

section Objects

variable {w : World} {index : Nat} {old new : Session} {holds : Session → Prop}

theorem forall_create :
    (∀ s ∈ (w.create new).objects, holds s) ↔ (∀ s ∈ w.objects, holds s) ∧ holds new := by
  simp [create, or_imp, forall_and]

/-- Replacing one of the Buffers leaves the others as they are. -/
theorem forall_put (all : ∀ s ∈ w.objects, holds s) (found : w.objects[index]? = some old) :
    (∀ s ∈ (w.put index new).objects, holds s) ↔ holds new := by
  rcases List.getElem?_eq_some_iff.mp found with ⟨inside, _same⟩
  constructor
  · intro every
    exact every new (List.mem_set inside new)
  · intro here s member
    rcases List.mem_or_eq_of_mem_set member with kept | rfl
    · exact all s kept
    · exact here

end Objects

def Headed (w : World) : Prop := ∀ s ∈ w.objects, s.buffer.Headed

def Accounted (w : World) : Prop := ∀ s ∈ w.objects, s.buffer.Accounted

/-- One call on one Buffer. -/
theorem perform_counted {s s' : Session} {op : Op} (headed : s.buffer.Headed)
    (accounted : s.buffer.Accounted) (hPerform : s.perform op = .ok s') :
    s'.buffer.Headed ∧
      (s'.buffer.Accounted ↔ ∀ len ∈ op.discards, s.buffer.Spares len) := by
  rcases ok_of_bind hPerform with ⟨⟨buffer, window⟩, hRun, hPerform⟩
  cases hPerform
  rcases Session.run_cases hRun with ⟨none, edits⟩ | ⟨len, discards, hDiscard⟩ | ⟨none, same⟩
  · refine ⟨edits.headed headed, ?_⟩
    rw [edits.accounted_iff, none]
    exact iff_of_true accounted (by simp)
  · refine ⟨(Buffer.discard_counted headed hDiscard).1, ?_⟩
    rw [Buffer.discard_accounted_iff headed accounted hDiscard, discards]
    simp
  · rw [none, same]
    exact ⟨fun some => absurd rfl some, iff_of_true rfl (by simp)⟩

/-- The counters agree after a call exactly when it erased nothing. -/
theorem step_counted {w after : World} {call : Call} (headed : w.Headed)
    (accounted : w.Accounted) (taken : w.step call = some after) :
    after.Headed ∧ (after.Accounted ↔ w.Spared call) := by
  have both {index : Nat} {s : Session} (found : w.objects[index]? = some s) :
      s.buffer.Headed ∧ s.buffer.Accounted :=
    ⟨headed s (List.mem_of_getElem? found), accounted s (List.mem_of_getElem? found)⟩
  unfold Headed Accounted
  cases call with
  | construct =>
      cases taken
      rw [forall_create, forall_create]
      exact ⟨⟨headed, fun some => absurd rfl some⟩, iff_of_true ⟨accounted, rfl⟩ trivial⟩
  | perform index op =>
      obtain ⟨s, found, taken⟩ := Option.bind_eq_some_iff.mp taken
      obtain ⟨s', performed, taken⟩ := Option.bind_eq_some_iff.mp taken
      cases taken
      rcases both found with ⟨sHeaded, sAccounted⟩
      have counted := perform_counted sHeaded sAccounted (ok_of_toOption performed)
      rw [forall_put headed found, forall_put accounted found, counted.2, Spared, found]
      refine ⟨counted.1, ?_⟩
      simp
  | copyConstruct source =>
      obtain ⟨s, found, taken⟩ := Option.bind_eq_some_iff.mp taken
      obtain ⟨b, copied, taken⟩ := Option.bind_eq_some_iff.mp taken
      cases taken
      rcases both found with ⟨sHeaded, sAccounted⟩
      rcases Buffer.copyConstruct_counted sHeaded (ok_of_toOption copied) with
        ⟨bHeaded, bAccounted⟩
      rw [forall_create, forall_create]
      exact ⟨⟨headed, bHeaded⟩, iff_of_true ⟨accounted, bAccounted.mpr sAccounted⟩ trivial⟩
  | moveConstruct source =>
      obtain ⟨s, found, taken⟩ := Option.bind_eq_some_iff.mp taken
      cases taken
      rcases both found with ⟨sHeaded, sAccounted⟩
      rcases Buffer.moveConstruct_counted w.lists sHeaded with
        ⟨movedHeaded, restHeaded, movedAccounted, restAccounted⟩
      rw [forall_create, forall_create, forall_put headed found, forall_put accounted found]
      exact ⟨⟨restHeaded, movedHeaded⟩,
        iff_of_true ⟨restAccounted, movedAccounted.mpr sAccounted⟩ trivial⟩
  | assign target source =>
      obtain ⟨left, foundLeft, taken⟩ := Option.bind_eq_some_iff.mp taken
      obtain ⟨right, foundRight, taken⟩ := Option.bind_eq_some_iff.mp taken
      obtain ⟨b, assigned, taken⟩ := Option.bind_eq_some_iff.mp taken
      cases taken
      rcases ok_of_bind (ok_of_toOption assigned) with ⟨c, copied, swapped⟩
      cases swapped
      rcases both foundRight with ⟨rightHeaded, rightAccounted⟩
      rcases Buffer.copyConstruct_counted rightHeaded copied with ⟨cHeaded, copyAccounted⟩
      have cAccounted := copyAccounted.mpr rightAccounted
      rcases Buffer.swap_counted (both foundLeft).1 cHeaded with
        ⟨bHeaded, _temporary, bAccounted, _gone⟩
      refine ⟨(forall_put headed foundLeft).mpr bHeaded, ?_⟩
      exact iff_of_true ((forall_put accounted foundLeft).mpr (bAccounted.mpr cAccounted)) trivial
  | swap target source =>
      obtain ⟨left, foundLeft, taken⟩ := Option.bind_eq_some_iff.mp taken
      obtain ⟨right, foundRight, taken⟩ := Option.bind_eq_some_iff.mp taken
      split at taken
      · cases taken
        exact ⟨headed, iff_of_true accounted trivial⟩
      · rename_i different
        cases taken
        rcases both foundLeft with ⟨leftHeaded, leftAccounted⟩
        rcases both foundRight with ⟨rightHeaded, rightAccounted⟩
        rcases Buffer.swap_counted leftHeaded rightHeaded with
          ⟨aHeaded, bHeaded, aAccounted, bAccounted⟩
        have there {s : Session} : (w.put target s).objects[source]? = some right := by
          rw [← foundRight]
          exact List.getElem?_set_ne different
        let a : Session := { right with buffer := (left.buffer.swap right.buffer).1 }
        have halfHeaded : (w.put target a).Headed := (forall_put headed foundLeft).mpr aHeaded
        have halfAccounted : (w.put target a).Accounted :=
          (forall_put accounted foundLeft).mpr (aAccounted.mpr rightAccounted)
        refine ⟨(forall_put halfHeaded there).mpr bHeaded, ?_⟩
        exact iff_of_true ((forall_put halfAccounted there).mpr (bAccounted.mpr leftAccounted))
          trivial

theorem reachable_counted {w : World}
    (run : Transition.Reachable (system.restrict Spared) w) : w.Headed ∧ w.Accounted := by
  induction run with
  | start begins =>
      cases begins
      exact ⟨by simp [Headed, empty], by simp [Accounted, empty]⟩
  | next _before taken ih =>
      have counted := step_counted ih.1 ih.2 taken.2
      exact ⟨counted.1, counted.2.mpr taken.1⟩

end World

/-- **Capacity accounting.** Along the runs in which no discard erases a block
`capacity()` is the sum of the sizes of the blocks in `list_`, so 0 just for an empty
list; and the first call that erases a block ends that. -/
theorem capacity_counts_iff_spared {w : World}
    (run : Transition.Reachable (World.system.restrict World.Spared) w) :
    (∀ s ∈ w.objects, s.buffer.capacity = capacityOf s.buffer.list.nodes ∧
        (s.buffer.capacity = 0 ↔ s.buffer.list.nodes = [])) ∧
      ∀ call after, World.system.step w call after →
        ((∀ s ∈ after.objects, s.buffer.capacity = capacityOf s.buffer.list.nodes) ↔
          w.Spared call) := by
  rcases World.reachable_counted run with ⟨headed, accounted⟩
  constructor
  · intro s member
    exact ⟨accounted s member, (accounted s member).eq_zero_iff⟩
  · intro call after taken
    exact (World.step_counted headed accounted taken).2

/-- Two appended bytes of which one is discarded again, and a copy: the copy counts
the one block it has. -/
theorem capacity_counts_iff_spared_copied :
    ∃ w, Transition.Reachable (World.system.restrict World.Spared) w ∧
      w.objects.map (fun s => (s.buffer.capacity, s.buffer.list.nodes.length)) =
        [(1024, 1), (1024, 1)] ∧
      ∀ s ∈ w.objects, s.buffer.capacity = capacityOf s.buffer.list.nodes := by
  have found : ∃ w ∈ Transition.execute
      (Transition.checked (fun w call => decide (w.Spared call)) World.step) World.empty
        [.construct, .perform 0 (.append [104, 105]), .perform 0 (.discard 1),
          .copyConstruct 0],
      w.objects.map (fun s => (s.buffer.capacity, s.buffer.list.nodes.length)) =
        [(1024, 1), (1024, 1)] := by
    decide +kernel
  obtain ⟨w, run, sizes⟩ := Transition.exists_reachable_within
    (fun _ _ _ passed => of_decide_eq_true passed) found
  exact ⟨w, run, sizes, fun s member => ((capacity_counts_iff_spared run).1 s member).1⟩

/-- A byte in front of another, in a block of its own, and discarded again: that block
is erased and still counted. -/
theorem capacity_counts_erased_block :
    ∃ w, Transition.Reachable World.system w ∧
      w.objects.map (fun s => (s.buffer.capacity, capacityOf s.buffer.list.nodes)) =
        [(2048, 1024)] ∧
      ¬ ∀ s ∈ w.objects, s.buffer.capacity = capacityOf s.buffer.list.nodes := by
  have found : ∃ w ∈ Transition.execute World.step World.empty
      [.construct, .perform 0 (.append [104]), .perform 0 (.prepend [105]),
        .perform 0 (.discard 1)],
      w.objects.map (fun s => (s.buffer.capacity, capacityOf s.buffer.list.nodes)) =
        [(2048, 1024)] := by
    decide +kernel
  obtain ⟨w, run, counted⟩ := Transition.exists_reachable found
  refine ⟨w, run, counted, ?_⟩
  intro every
  obtain ⟨s, member, sizes⟩ := List.mem_map.mp (counted ▸ List.mem_singleton_self _)
  have same := every s member
  simp only [Prod.mk.injEq] at sizes
  omega

end Uvcpp
