/-
EventLoopThreadPool.cpp as a program over a monitor.

start creates the threads and waits until every one has registered its loop; the
destructor then stops and joins by position.  A loop is named by the thread that
runs it.
-/

import Uvcpp.Library.MonitorRules

namespace Uvcpp.EventLoopThreadPool

open Monitor

inductive Thread where
  | starter
  | worker (index : Nat)
deriving DecidableEq

/-- `threadNum` to `initSuc` are the members of the class and the counter of start;
`stopped` says which loops were asked to stop and `exited` is what join observes. -/
structure Shared where
  threadNum : Nat
  threads : Nat
  loops : List Nat
  initSuc : Nat
  stopped : Nat → Bool
  exited : Nat → Bool

inductive OwnerAt where
  | spawning
  | locking
  | testing
  | waiting
  | unlocking
  | started
  | stopping (index : Nat)
  | joining (index : Nat)
  | destroyed
deriving DecidableEq

inductive WorkerAt where
  | unborn
  | constructing
  | locking
  | registering
  | unlocking
  | notifying
  | looping
  | exited
deriving DecidableEq

inductive Local where
  | owner (place : OwnerAt)
  | worker (place : WorkerAt)
deriving DecidableEq

abbrev Code := Instr Unit Shared Local Unit

/-- start(), and from `started` on ~EventLoopThreadPool(). -/
def owner : OwnerAt → Code
  | .spawning => .act fun _ sh =>
      if sh.threads < sh.threadNum then
        some ({ sh with threads := sh.threads + 1 }, .owner .spawning)
      else some (sh, .owner .locking)
  | .locking => .lock (.owner .testing)
  | .testing => .act fun _ sh =>
      some (sh, .owner (if sh.initSuc = sh.threadNum then .unlocking else .waiting))
  | .waiting => .wait () (.owner .testing)
  | .unlocking => .unlock (.owner .started)
  | .started => .act fun _ sh => some (sh, .owner (.stopping 0))
  | .stopping index => .act fun _ sh =>
      match sh.loops[index]? with
      | some loop =>
          some ({ sh with stopped := Function.update sh.stopped loop true },
            .owner (.joining index))
      | none => some (sh, .owner .destroyed)
  | .joining index => .act fun _ sh =>
      if sh.exited index then some (sh, .owner (.stopping (index + 1))) else none
  | .destroyed => .act fun _ _ => none

/-- The body of thread `index`.  Its loop runs until it is asked to stop. -/
def worker (index : Nat) : WorkerAt → Code
  | .unborn => .act fun _ sh =>
      if index < sh.threads then some (sh, .worker .constructing) else none
  | .constructing => .act fun _ sh => some (sh, .worker .locking)
  | .locking => .lock (.worker .registering)
  | .registering => .act fun _ sh =>
      some ({ sh with loops := sh.loops ++ [index], initSuc := sh.initSuc + 1 },
        .worker .unlocking)
  | .unlocking => .unlock (.worker .notifying)
  | .notifying => .notifyAll () (.worker .looping)
  | .looping => .act fun _ sh =>
      if sh.stopped index then
        some ({ sh with exited := Function.update sh.exited index true }, .worker .exited)
      else none
  | .exited => .act fun _ _ => none

def code : Program Thread Unit Shared Local Unit
  | .starter, .owner place => owner place
  | .worker index, .worker place => worker index place
  | _, _ => .act fun _ _ => none

abbrev Pool := State Thread Unit Shared Local

def new (threadNum : Nat) : Pool :=
  { owner := none
    standing := fun _ => .running
    location := fun t =>
      match t with
      | .starter => .owner .spawning
      | .worker _ => .worker .unborn
    shared :=
      { threadNum := threadNum
        threads := 0
        loops := []
        initSuc := 0
        stopped := fun _ => false
        exited := fun _ => false } }

def system (threadNum : Nat) : Transition.System Pool (Event Thread Unit) :=
  Monitor.system code (fun s => s = new threadNum)

/-! ### Actions -/

inductive Moves : Thread → Local → Shared → Shared → Local → Prop where
  | spawn {sh : Shared} (missing : sh.threads < sh.threadNum) :
      Moves .starter (.owner .spawning) sh { sh with threads := sh.threads + 1 }
        (.owner .spawning)
  | spawned {sh : Shared} (enough : sh.threadNum ≤ sh.threads) :
      Moves .starter (.owner .spawning) sh sh (.owner .locking)
  | complete {sh : Shared} (all : sh.initSuc = sh.threadNum) :
      Moves .starter (.owner .testing) sh sh (.owner .unlocking)
  | missing {sh : Shared} (missing : sh.initSuc ≠ sh.threadNum) :
      Moves .starter (.owner .testing) sh sh (.owner .waiting)
  | destroy {sh : Shared} : Moves .starter (.owner .started) sh sh (.owner (.stopping 0))
  | stop {sh : Shared} {index loop : Nat} (present : sh.loops[index]? = some loop) :
      Moves .starter (.owner (.stopping index)) sh
        { sh with stopped := Function.update sh.stopped loop true } (.owner (.joining index))
  | done {sh : Shared} {index : Nat} (absent : sh.loops[index]? = none) :
      Moves .starter (.owner (.stopping index)) sh sh (.owner .destroyed)
  | join {sh : Shared} {index : Nat} (exited : sh.exited index = true) :
      Moves .starter (.owner (.joining index)) sh sh (.owner (.stopping (index + 1)))
  | birth {sh : Shared} {index : Nat} (created : index < sh.threads) :
      Moves (.worker index) (.worker .unborn) sh sh (.worker .constructing)
  | construct {sh : Shared} {index : Nat} :
      Moves (.worker index) (.worker .constructing) sh sh (.worker .locking)
  | register {sh : Shared} {index : Nat} :
      Moves (.worker index) (.worker .registering) sh
        { sh with loops := sh.loops ++ [index], initSuc := sh.initSuc + 1 } (.worker .unlocking)
  | exit {sh : Shared} {index : Nat} (stopped : sh.stopped index = true) :
      Moves (.worker index) (.worker .looping) sh
        { sh with exited := Function.update sh.exited index true } (.worker .exited)

theorem owner_moves {place : OwnerAt} {next : Local}
    {action : Unit → Shared → Option (Shared × Local)} {choice : Unit} {sh sh' : Shared}
    (acts : owner place = .act action) (result : action choice sh = some (sh', next)) :
    Moves .starter (.owner place) sh sh' next := by
  cases place <;> cases acts
  all_goals (try dsimp only at result)
  case spawning =>
    split at result
    · cases result
      exact .spawn ‹_›
    · cases result
      exact .spawned (Nat.le_of_not_lt ‹_›)
  case testing =>
    by_cases all : sh.initSuc = sh.threadNum
    · simp only [all, if_true] at result
      cases result
      exact .complete all
    · simp only [all, if_false] at result
      cases result
      exact .missing all
  case started =>
    cases result
    exact .destroy
  case stopping index =>
    split at result
    · cases result
      exact .stop ‹_›
    · cases result
      exact .done ‹_›
  case joining index =>
    split at result
    · cases result
      exact .join ‹_›
    · cases result
  case destroyed =>
    cases result

theorem worker_moves {index : Nat} {place : WorkerAt} {next : Local}
    {action : Unit → Shared → Option (Shared × Local)} {choice : Unit} {sh sh' : Shared}
    (acts : worker index place = .act action) (result : action choice sh = some (sh', next)) :
    Moves (.worker index) (.worker place) sh sh' next := by
  cases place <;> cases acts
  all_goals (try dsimp only at result)
  case unborn =>
    split at result
    · cases result
      exact .birth ‹_›
    · cases result
  case constructing =>
    cases result
    exact .construct
  case registering =>
    cases result
    exact .register
  case looping =>
    split at result
    · cases result
      exact .exit ‹_›
    · cases result
  case exited =>
    cases result

/-- The only actions are these. -/
theorem moves {t : Thread} {l next : Local} {action : Unit → Shared → Option (Shared × Local)}
    {choice : Unit} {sh sh' : Shared} (acts : code t l = .act action)
    (result : action choice sh = some (sh', next)) : Moves t l sh sh' next := by
  unfold code at acts
  split at acts
  · exact owner_moves acts result
  · exact worker_moves acts result
  · cases acts
    cases result

/-- The locations between taking the mutex and giving it back. -/
def inside : Thread → Local → Prop
  | .starter, .owner place =>
      match place with
      | .testing | .waiting | .unlocking => True
      | _ => False
  | .worker _, .worker place =>
      match place with
      | .registering | .unlocking => True
      | _ => False
  | _, _ => False

theorem code_lock {t : Thread} {l next : Local} (same : code t l = .lock next) :
    (t = .starter ∧ l = .owner .locking ∧ next = .owner .testing) ∨
      ∃ index, t = .worker index ∧ l = .worker .locking ∧ next = .worker .registering := by
  unfold code at same
  split at same
  · rename_i place
    cases place <;> cases same
    exact .inl ⟨rfl, rfl, rfl⟩
  · rename_i index place
    cases place <;> cases same
    exact .inr ⟨index, rfl, rfl, rfl⟩
  · cases same

theorem code_unlock {t : Thread} {l next : Local} (same : code t l = .unlock next) :
    (t = .starter ∧ l = .owner .unlocking ∧ next = .owner .started) ∨
      ∃ index, t = .worker index ∧ l = .worker .unlocking ∧ next = .worker .notifying := by
  unfold code at same
  split at same
  · rename_i place
    cases place <;> cases same
    exact .inl ⟨rfl, rfl, rfl⟩
  · rename_i index place
    cases place <;> cases same
    exact .inr ⟨index, rfl, rfl, rfl⟩
  · cases same

theorem code_wait {t : Thread} {l next : Local} {cond : Unit}
    (same : code t l = .wait cond next) :
    t = .starter ∧ l = .owner .waiting ∧ next = .owner .testing := by
  unfold code at same
  split at same
  · rename_i place
    cases place <;> cases same
    exact ⟨rfl, rfl, rfl⟩
  · rename_i index place
    cases place <;> cases same
  · cases same

theorem code_notifyAll {t : Thread} {l next : Local} {cond : Unit}
    (same : code t l = .notifyAll cond next) :
    ∃ index, t = .worker index ∧ l = .worker .notifying ∧ next = .worker .looping := by
  unfold code at same
  split at same
  · rename_i place
    cases place <;> cases same
  · rename_i index place
    cases place <;> cases same
    exact ⟨index, rfl, rfl, rfl⟩
  · cases same

theorem locking : Locking code inside := by
  constructor
  · intro t l next same
    rcases code_lock same with ⟨rfl, rfl, rfl⟩ | ⟨_, rfl, rfl, rfl⟩ <;> simp [inside]
  · intro t l next same
    rcases code_unlock same with ⟨rfl, rfl, rfl⟩ | ⟨_, rfl, rfl, rfl⟩ <;> simp [inside]
  · intro t l cond next same
    obtain ⟨rfl, rfl, rfl⟩ := code_wait same
    simp [inside]
  · intro t l cond next same
    obtain ⟨_, rfl, rfl, rfl⟩ := code_notifyAll same
    simp [inside]
  · intro t l action choice sh sh' next acts result
    cases moves acts result <;> simp [inside]

end Uvcpp.EventLoopThreadPool
