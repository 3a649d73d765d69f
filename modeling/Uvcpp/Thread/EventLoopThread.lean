/-
EventLoopThread.cpp: startLoop as a program over a monitor.

The new thread stores its loop and notifies without taking the mutex that the caller
holds between its test of the loop and its wait.
-/

import Uvcpp.Library.MonitorRules

namespace Uvcpp.EventLoopThread

open Monitor

inductive Thread where
  | starter
  | worker
deriving DecidableEq

/-- `thread` says whether `thread_` is set, `loop` whether `loop_` is. -/
structure Shared where
  thread : Bool
  loop : Bool
deriving DecidableEq

inductive StarterAt where
  | creating
  | locking
  | testing
  | waiting
  | unlocking
  | started
deriving DecidableEq

inductive WorkerAt where
  | unborn
  | constructing
  | publishing
  | notifying
  | looping
deriving DecidableEq

inductive Local where
  | starter (place : StarterAt)
  | worker (place : WorkerAt)
deriving DecidableEq

abbrev Code := Instr Unit Shared Local Unit

/-- startLoop(), whose assert needs `thread_` to be unset. -/
def starter : StarterAt → Code
  | .creating => .act fun _ sh =>
      if sh.thread then none else some ({ sh with thread := true }, .starter .locking)
  | .locking => .lock (.starter .testing)
  | .testing => .act fun _ sh =>
      some (sh, .starter (if sh.loop then .unlocking else .waiting))
  | .waiting => .wait () (.starter .testing)
  | .unlocking => .unlock (.starter .started)
  | .started => .act fun _ _ => none

/-- The body of the new thread; its loop runs until it is asked to stop. -/
def worker : WorkerAt → Code
  | .unborn => .act fun _ sh => if sh.thread then some (sh, .worker .constructing) else none
  | .constructing => .act fun _ sh => some (sh, .worker .publishing)
  | .publishing => .act fun _ sh => some ({ sh with loop := true }, .worker .notifying)
  | .notifying => .notifyAll () (.worker .looping)
  | .looping => .act fun _ _ => none

def code : Program Thread Unit Shared Local Unit
  | .starter, .starter place => starter place
  | .worker, .worker place => worker place
  | _, _ => .act fun _ _ => none

abbrev Startup := State Thread Unit Shared Local

def new : Startup :=
  { owner := none
    standing := fun _ => .running
    location := fun t =>
      match t with
      | .starter => .starter .creating
      | .worker => .worker .unborn
    shared :=
      { thread := false
        loop := false } }

def system : Transition.System Startup (Event Thread Unit) :=
  Monitor.system code (fun s => s = new)

/-! ### Actions -/

inductive Moves : Thread → Local → Shared → Shared → Local → Prop where
  | create {sh : Shared} (unset : sh.thread = false) :
      Moves .starter (.starter .creating) sh { sh with thread := true } (.starter .locking)
  | found {sh : Shared} (set : sh.loop = true) :
      Moves .starter (.starter .testing) sh sh (.starter .unlocking)
  | missing {sh : Shared} (unset : sh.loop = false) :
      Moves .starter (.starter .testing) sh sh (.starter .waiting)
  | birth {sh : Shared} (created : sh.thread = true) :
      Moves .worker (.worker .unborn) sh sh (.worker .constructing)
  | construct {sh : Shared} :
      Moves .worker (.worker .constructing) sh sh (.worker .publishing)
  | publish {sh : Shared} :
      Moves .worker (.worker .publishing) sh { sh with loop := true } (.worker .notifying)

theorem starter_moves {place : StarterAt} {next : Local}
    {action : Unit → Shared → Option (Shared × Local)} {choice : Unit} {sh sh' : Shared}
    (acts : starter place = .act action) (result : action choice sh = some (sh', next)) :
    Moves .starter (.starter place) sh sh' next := by
  cases place <;> cases acts
  all_goals (try dsimp only at result)
  case creating =>
    split at result
    · cases result
    · cases result
      exact .create (Bool.eq_false_iff.mpr ‹_›)
  case testing =>
    cases set : sh.loop
    · simp only [set] at result
      cases result
      exact .missing set
    · simp only [set, if_true] at result
      cases result
      exact .found set
  case started =>
    cases result

theorem worker_moves {place : WorkerAt} {next : Local}
    {action : Unit → Shared → Option (Shared × Local)} {choice : Unit} {sh sh' : Shared}
    (acts : worker place = .act action) (result : action choice sh = some (sh', next)) :
    Moves .worker (.worker place) sh sh' next := by
  cases place <;> cases acts
  all_goals (try dsimp only at result)
  case unborn =>
    split at result
    · cases result
      exact .birth ‹_›
    · cases result
  case constructing =>
    cases result
    exact .construct
  case publishing =>
    cases result
    exact .publish
  case looping =>
    cases result

theorem moves {t : Thread} {l next : Local} {action : Unit → Shared → Option (Shared × Local)}
    {choice : Unit} {sh sh' : Shared} (acts : code t l = .act action)
    (result : action choice sh = some (sh', next)) : Moves t l sh sh' next := by
  unfold code at acts
  split at acts
  · exact starter_moves acts result
  · exact worker_moves acts result
  · cases acts
    cases result

theorem code_lock {t : Thread} {l next : Local} (same : code t l = .lock next) :
    t = .starter ∧ l = .starter .locking ∧ next = .starter .testing := by
  unfold code at same
  split at same
  · rename_i place
    cases place <;> cases same
    exact ⟨rfl, rfl, rfl⟩
  · rename_i place
    cases place <;> cases same
  · cases same

theorem code_unlock {t : Thread} {l next : Local} (same : code t l = .unlock next) :
    t = .starter ∧ l = .starter .unlocking ∧ next = .starter .started := by
  unfold code at same
  split at same
  · rename_i place
    cases place <;> cases same
    exact ⟨rfl, rfl, rfl⟩
  · rename_i place
    cases place <;> cases same
  · cases same

theorem code_wait {t : Thread} {l next : Local} {cond : Unit}
    (same : code t l = .wait cond next) :
    t = .starter ∧ l = .starter .waiting ∧ next = .starter .testing := by
  unfold code at same
  split at same
  · rename_i place
    cases place <;> cases same
    exact ⟨rfl, rfl, rfl⟩
  · rename_i place
    cases place <;> cases same
  · cases same

theorem code_notifyAll {t : Thread} {l next : Local} {cond : Unit}
    (same : code t l = .notifyAll cond next) :
    t = .worker ∧ l = .worker .notifying ∧ next = .worker .looping := by
  unfold code at same
  split at same
  · rename_i place
    cases place <;> cases same
  · rename_i place
    cases place <;> cases same
    exact ⟨rfl, rfl, rfl⟩
  · cases same

def inside : Thread → Local → Prop
  | .starter, .starter place =>
      match place with
      | .testing | .waiting | .unlocking => True
      | _ => False
  | _, _ => False

theorem locking : Locking code inside := by
  constructor
  · intro t l next same
    obtain ⟨rfl, rfl, rfl⟩ := code_lock same
    exact ⟨id, trivial⟩
  · intro t l next same
    obtain ⟨rfl, rfl, rfl⟩ := code_unlock same
    exact ⟨trivial, id⟩
  · intro t l cond next same
    obtain ⟨rfl, rfl, rfl⟩ := code_wait same
    exact ⟨trivial, trivial⟩
  · intro t l cond next same
    obtain ⟨rfl, rfl, rfl⟩ := code_notifyAll same
    exact Iff.rfl
  · intro t l action choice sh sh' next acts result
    cases moves acts result <;> exact Iff.rfl

end Uvcpp.EventLoopThread
