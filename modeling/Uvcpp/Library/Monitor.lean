/-
Programs over a monitor: a mutex, its condition variables and the shared data.

A thread executes one instruction at a time.  A thread that waits on a condition
gives the mutex back and sleeps until it is notified or wakes spuriously; it then
needs the mutex again before it goes on.
-/

import Mathlib.Logic.Function.Basic
import Uvcpp.Library.Transition

namespace Monitor

variable {Thread Cond Shared Local Choice : Type}

/-- `act` is one atomic action on the shared data; the scheduler's choice selects
among its outcomes, and without an outcome the thread is blocked. -/
inductive Instr (Cond Shared Local Choice : Type) where
  | lock (next : Local)
  | unlock (next : Local)
  | wait (cond : Cond) (next : Local)
  | notifyAll (cond : Cond) (next : Local)
  | act (run : Choice → Shared → Option (Shared × Local))

/-- The code of every thread at each of its locations. -/
abbrev Program (Thread Cond Shared Local Choice : Type) :=
  Thread → Local → Instr Cond Shared Local Choice

inductive Standing (Cond : Type) where
  | running
  | asleep (cond : Cond)
  | woken
deriving DecidableEq

structure State (Thread Cond Shared Local : Type) where
  owner : Option Thread
  standing : Thread → Standing Cond
  location : Thread → Local
  shared : Shared

inductive Event (Thread Choice : Type) where
  | run (thread : Thread) (choice : Choice)
  | wake (thread : Thread)

/-! ### Steps -/

section Step

variable [DecidableEq Thread]

def State.moveTo (s : State Thread Cond Shared Local) (t : Thread) (next : Local) :
    State Thread Cond Shared Local :=
  { s with location := Function.update s.location t next }

def State.stand (s : State Thread Cond Shared Local) (t : Thread) (standing : Standing Cond) :
    State Thread Cond Shared Local :=
  { s with standing := Function.update s.standing t standing }

@[simp] theorem State.moveTo_self (s : State Thread Cond Shared Local) (t : Thread)
    (next : Local) : (s.moveTo t next).location t = next := by
  simp [State.moveTo]

theorem State.moveTo_other (s : State Thread Cond Shared Local) {t u : Thread} (next : Local)
    (other : u ≠ t) : (s.moveTo t next).location u = s.location u := by
  simp [State.moveTo, other]

@[simp] theorem State.stand_self (s : State Thread Cond Shared Local) (t : Thread)
    (standing : Standing Cond) : (s.stand t standing).standing t = standing := by
  simp [State.stand]

theorem State.stand_other (s : State Thread Cond Shared Local) {t u : Thread}
    (standing : Standing Cond) (other : u ≠ t) :
    (s.stand t standing).standing u = s.standing u := by
  simp [State.stand, other]

variable [DecidableEq Cond]

def State.notify (s : State Thread Cond Shared Local) (cond : Cond) :
    State Thread Cond Shared Local :=
  { s with standing := fun t => if s.standing t = .asleep cond then .woken else s.standing t }

/-- One step of the whole system; `none` when the event cannot happen. -/
def step (p : Program Thread Cond Shared Local Choice) (s : State Thread Cond Shared Local) :
    Event Thread Choice → Option (State Thread Cond Shared Local)
  | .wake t =>
      match s.standing t with
      | .asleep _ => some (s.stand t .woken)
      | _ => none
  | .run t choice =>
      match s.standing t, p t (s.location t) with
      | .asleep _, _ => none
      | .woken, .wait _ next =>
          if s.owner = none then
            some { (s.moveTo t next).stand t .running with owner := some t }
          else none
      | .woken, _ => none
      | .running, .lock next =>
          if s.owner = none then some { s.moveTo t next with owner := some t } else none
      | .running, .unlock next =>
          if s.owner = some t then some { s.moveTo t next with owner := none } else none
      | .running, .wait cond _ =>
          if s.owner = some t then some { s.stand t (.asleep cond) with owner := none }
          else none
      | .running, .notifyAll cond next => some ((s.notify cond).moveTo t next)
      | .running, .act run =>
          (run choice s.shared).map fun result =>
            { s.moveTo t result.2 with shared := result.1 }

/-- Everything a step can do. -/
inductive Effect (p : Program Thread Cond Shared Local Choice)
    (s : State Thread Cond Shared Local) :
    Event Thread Choice → State Thread Cond Shared Local → Prop where
  | wakes {t : Thread} {cond : Cond} (asleep : s.standing t = .asleep cond) :
      Effect p s (.wake t) (s.stand t .woken)
  | resumes {t : Thread} {choice : Choice} {cond : Cond} {next : Local}
      (woken : s.standing t = .woken) (code : p t (s.location t) = .wait cond next)
      (free : s.owner = none) :
      Effect p s (.run t choice) { (s.moveTo t next).stand t .running with owner := some t }
  | locks {t : Thread} {choice : Choice} {next : Local} (running : s.standing t = .running)
      (code : p t (s.location t) = .lock next) (free : s.owner = none) :
      Effect p s (.run t choice) { s.moveTo t next with owner := some t }
  | unlocks {t : Thread} {choice : Choice} {next : Local} (running : s.standing t = .running)
      (code : p t (s.location t) = .unlock next) (owned : s.owner = some t) :
      Effect p s (.run t choice) { s.moveTo t next with owner := none }
  | waits {t : Thread} {choice : Choice} {cond : Cond} {next : Local}
      (running : s.standing t = .running) (code : p t (s.location t) = .wait cond next)
      (owned : s.owner = some t) :
      Effect p s (.run t choice) { s.stand t (.asleep cond) with owner := none }
  | notifies {t : Thread} {choice : Choice} {cond : Cond} {next : Local}
      (running : s.standing t = .running)
      (code : p t (s.location t) = .notifyAll cond next) :
      Effect p s (.run t choice) ((s.notify cond).moveTo t next)
  | acts {t : Thread} {choice : Choice} {run : Choice → Shared → Option (Shared × Local)}
      {shared : Shared} {next : Local} (running : s.standing t = .running)
      (code : p t (s.location t) = .act run)
      (result : run choice s.shared = some (shared, next)) :
      Effect p s (.run t choice) { s.moveTo t next with shared := shared }

theorem step_effect {p : Program Thread Cond Shared Local Choice}
    {s s' : State Thread Cond Shared Local} {event : Event Thread Choice}
    (taken : step p s event = some s') : Effect p s event s' := by
  cases event with
  | wake t =>
      simp only [step] at taken
      split at taken
      · cases taken
        exact .wakes ‹_›
      · cases taken
  | run t choice =>
      simp only [step] at taken
      split at taken
      · cases taken
      · split at taken
        · cases taken
          exact .resumes ‹_› ‹_› ‹_›
        · cases taken
      · cases taken
      · split at taken
        · cases taken
          exact .locks ‹_› ‹_› ‹_›
        · cases taken
      · split at taken
        · cases taken
          exact .unlocks ‹_› ‹_› ‹_›
        · cases taken
      · split at taken
        · cases taken
          exact .waits ‹_› ‹_› ‹_›
        · cases taken
      · cases taken
        exact .notifies ‹_› ‹_›
      · obtain ⟨⟨shared, next⟩, result, same⟩ := Option.map_eq_some_iff.mp taken
        cases same
        exact .acts ‹_› ‹_› result

def system (p : Program Thread Cond Shared Local Choice)
    (initial : State Thread Cond Shared Local → Prop) :
    Transition.System (State Thread Cond Shared Local) (Event Thread Choice) :=
  Transition.System.executed initial (step p)

end Step

end Monitor
