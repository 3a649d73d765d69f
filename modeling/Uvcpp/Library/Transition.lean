/-
Labelled transition systems and what holds along all of their runs.

A system is a set of initial states and a step relation labelled with events.
A restricted system allows only the steps whose source state and event meet a
condition; its runs are runs of the full system.  A recorded system keeps what an
observer sees of its steps, which the steps themselves know nothing of.
-/

import Mathlib.Data.List.Basic

namespace Transition

universe u v

variable {State : Type u} {Event : Type v}

structure System (State : Type u) (Event : Type v) where
  initial : State → Prop
  step : State → Event → State → Prop

/-- The states some finite run reaches. -/
inductive Reachable (system : System State Event) : State → Prop where
  | start {state : State} (begins : system.initial state) : Reachable system state
  | next {state after : State} {event : Event} (before : Reachable system state)
      (taken : system.step state event after) : Reachable system after

/-- The system whose steps all meet `condition`. -/
def System.restrict (system : System State Event) (condition : State → Event → Prop) :
    System State Event where
  initial := system.initial
  step state event after := condition state event ∧ system.step state event after

theorem Reachable.of_restrict {system : System State Event}
    {condition : State → Event → Prop} {state : State}
    (reachable : Reachable (system.restrict condition) state) : Reachable system state := by
  induction reachable with
  | start begins =>
      exact .start begins
  | next _before taken ih =>
      exact .next ih taken.2

/-- The same steps from one state. -/
def System.startingAt (system : System State Event) (state : State) : System State Event where
  initial := fun first => first = state
  step := system.step

theorem Reachable.trans {system : System State Event} {state after : State}
    (reachable : Reachable system state) (later : Reachable (system.startingAt state) after) :
    Reachable system after := by
  induction later with
  | start begins =>
      cases begins
      exact reachable
  | next _before taken ih =>
      exact ih.next taken

/-- A map that turns every step into a step or into no change turns runs into runs. -/
theorem Reachable.simulate {State' : Type u} {Event' : Type v} {concrete : System State Event}
    {abstract : System State' Event'} (map : State → State')
    (begins : ∀ state, concrete.initial state → abstract.initial (map state))
    (steps : ∀ state event after, Reachable concrete state → concrete.step state event after →
      map after = map state ∨ ∃ event', abstract.step (map state) event' (map after))
    {state : State} (reachable : Reachable concrete state) : Reachable abstract (map state) := by
  induction reachable with
  | start first =>
      exact .start (begins _ first)
  | next before taken ih =>
      rcases steps _ _ _ before taken with same | ⟨event', taken'⟩
      · rw [same]
        exact ih
      · exact ih.next taken'

/-! ### Executable systems -/

/-- The system of an executable step function. -/
def System.executed (initial : State → Prop) (step : State → Event → Option State) :
    System State Event where
  initial := initial
  step state event after := step state event = some after

/-- The state after a list of events. -/
def execute (step : State → Event → Option State) : State → List Event → Option State
  | state, [] => some state
  | state, event :: events => (step state event).bind fun after => execute step after events

theorem Reachable.execute {initial : State → Prop} {step : State → Event → Option State}
    {state after : State} {events : List Event}
    (reachable : Reachable (System.executed initial step) state)
    (executed : Transition.execute step state events = some after) :
    Reachable (System.executed initial step) after := by
  induction events generalizing state with
  | nil =>
      cases executed
      exact reachable
  | cons event events ih =>
      obtain ⟨middle, taken, rest⟩ := Option.bind_eq_some_iff.mp executed
      exact ih (reachable.next taken) rest

/-- The last state of a run that was executed is reachable. -/
theorem exists_reachable {first : State} {step : State → Event → Option State}
    {events : List Event} {property : State → Prop}
    (found : ∃ state ∈ execute step first events, property state) :
    ∃ state, Reachable (System.executed (fun s => s = first) step) state ∧ property state := by
  obtain ⟨state, executed, holds⟩ := found
  have begins : Reachable (System.executed (fun s => s = first) step) first := .start rfl
  exact ⟨state, begins.execute executed, holds⟩

/-- The step function without the steps that fail a check. -/
def checked (check : State → Event → Bool) (step : State → Event → Option State)
    (state : State) (event : Event) : Option State :=
  if check state event then step state event else none

/-- A step function that checks the condition runs inside the restricted system. -/
theorem Reachable.of_checked {initial : State → Prop} {step : State → Event → Option State}
    {condition : State → Event → Prop} {check : State → Event → Bool}
    (sound : ∀ state event, Reachable ((System.executed initial step).restrict condition) state →
      check state event = true → condition state event) {state : State}
    (reachable : Reachable (System.executed initial (checked check step)) state) :
    Reachable ((System.executed initial step).restrict condition) state := by
  induction reachable with
  | start begins =>
      exact .start begins
  | next _before taken ih =>
      obtain ⟨passed, taken⟩ := Option.ite_none_right_eq_some.mp taken
      exact ih.next ⟨sound _ _ ih passed, taken⟩

theorem exists_reachable_within {first : State} {step : State → Event → Option State}
    {condition : State → Event → Prop} {check : State → Event → Bool}
    (sound : ∀ state event,
      Reachable ((System.executed (fun s => s = first) step).restrict condition) state →
        check state event = true → condition state event)
    {events : List Event} {property : State → Prop}
    (found : ∃ state ∈ execute (checked check step) first events, property state) :
    ∃ state, Reachable ((System.executed (fun s => s = first) step).restrict condition) state ∧
      property state := by
  obtain ⟨state, reachable, holds⟩ := exists_reachable found
  exact ⟨state, reachable.of_checked sound, holds⟩

/-! ### Records -/

section Recorded

variable {Deed : Type v} {step : State → Event → Option State}
variable {observe : State → Event → State → List Deed}

/-- The step function together with what is seen of each step. -/
def recorded (observe : State → Event → State → List Deed) (step : State → Event → Option State)
    (record : State × List Deed) (event : Event) : Option (State × List Deed) :=
  (step record.1 event).map fun after => (after, record.2 ++ observe record.1 event after)

theorem recorded_taken {before after : State × List Deed} {event : Event}
    (taken : recorded observe step before event = some after) :
    step before.1 event = some after.1 ∧ after.2 = before.2 ++ observe before.1 event after.1 := by
  obtain ⟨state, moved, same⟩ := Option.map_eq_some_iff.mp taken
  subst same
  exact ⟨moved, rfl⟩

/-- The runs that are recorded are the runs of the system. -/
theorem Reachable.of_recorded {first : State} {record : State × List Deed}
    (reachable : Reachable (System.executed (fun r => r = (first, [])) (recorded observe step))
      record) :
    Reachable (System.executed (fun s => s = first) step) record.1 := by
  induction reachable with
  | start begins =>
      cases begins
      exact .start rfl
  | next _before taken ih =>
      exact ih.next (recorded_taken taken).1

theorem Reachable.exists_record {first state : State}
    (reachable : Reachable (System.executed (fun s => s = first) step) state) :
    ∃ record, Reachable (System.executed (fun r => r = (first, [])) (recorded observe step))
      (state, record) := by
  induction reachable with
  | start begins =>
      cases begins
      exact ⟨[], .start rfl⟩
  | @next before after event _earlier taken ih =>
      obtain ⟨record, recorded⟩ := ih
      have taken' : Transition.recorded observe step (before, record) event =
          some (after, record ++ observe before event after) := by
        rw [Transition.recorded, show step before event = some after from taken]
        rfl
      exact ⟨_, recorded.next taken'⟩

end Recorded

end Transition
