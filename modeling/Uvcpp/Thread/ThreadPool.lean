/-
ThreadPool.cpp as a program over a monitor.

One controller calls start and later stop, any number of producers call run, and
the workers execute threadFunc.  Reads and writes of `running_` outside the mutex,
task execution and thread exit are steps of their own.
-/

import Uvcpp.Library.Monitor

namespace Uvcpp.ThreadPool

open Monitor

variable {Body : Type}

inductive Thread where
  | controller
  | producer (index : Nat)
  | worker (index : Nat)
deriving DecidableEq

inductive Cond where
  | notEmpty
  | notFull
deriving DecidableEq

/-- A pushed task.  An empty std::function has no body; the ticket counts the pushes. -/
structure Job (Body : Type) where
  ticket : Nat
  task : Option Body
deriving DecidableEq

inductive Stage where
  | idle
  | started
  | stopping
  | stopped
deriving DecidableEq

/-- `maxSize` to `threads` are the members of the class; `exited` is what join
observes.  The rest is history: the progress of start and stop, the threads ever
created, and the tasks in the order in which they were pushed, dequeued, dropped by
stop, discarded for want of a body, begun and finished. -/
structure Shared (Body : Type) where
  maxSize : Nat
  running : Bool
  queue : List (Job Body)
  activeThreadNum : Nat
  threads : Nat
  exited : Nat → Bool
  stage : Stage
  spawned : Nat
  pushed : List (Job Body)
  dequeued : List (Job Body)
  dropped : List (Job Body)
  discarded : List (Job Body)
  begun : List (Job Body)
  finished : List (Job Body)

inductive Choice (Body : Type) where
  | proceed
  | start (threadNum : Nat)
  | stop
  | run (task : Option Body)

/-! ### Locations -/

inductive ControlAt where
  | created
  | spawning (threadNum : Nat)
  | publishing (threadNum : Nat)
  | started (threadNum : Nat)
  | locking
  | turningOff
  | notifying
  | joining (index : Nat)
  | dropping
  | unlocking
  | stopped
deriving DecidableEq

inductive RunAt (Body : Type) where
  | outside
  | locking (task : Option Body)
  | testing (task : Option Body)
  | waiting (task : Option Body)
  | checking (task : Option Body)
  | notifying
  | unlocking
deriving DecidableEq

inductive FuncAt (Body : Type) where
  | unborn
  | initializing
  | testing
  | locking
  | looking
  | waiting
  | taking
  | notifying (job : Job Body)
  | unlocking (job : Option (Job Body))
  | holding (job : Option (Job Body))
  | counted (job : Job Body)
  | calling (job : Job Body)
  | called (job : Job Body)
  | leaving
  | exited
deriving DecidableEq

inductive Local (Body : Type) where
  | control (place : ControlAt)
  | run (place : RunAt Body)
  | func (place : FuncAt Body)
deriving DecidableEq

/-! ### Code -/

abbrev Code (Body : Type) := Instr Cond (Shared Body) (Local Body) (Choice Body)

/-- start(threadNum), then stop(). -/
def control : ControlAt → Code Body
  | .created => .act fun choice sh =>
      match choice with
      | .start threadNum =>
          -- a failed assert ends the program
          if sh.running = false ∧ 0 < threadNum ∧ 0 < sh.maxSize then
            some ({ sh with activeThreadNum := 0 }, .control (.spawning threadNum))
          else none
      | _ => none
  | .spawning threadNum => .act fun _ sh =>
      if sh.threads < threadNum then
        some ({ sh with threads := sh.threads + 1, spawned := sh.spawned + 1 },
          .control (.spawning threadNum))
      else some (sh, .control (.publishing threadNum))
  | .publishing threadNum => .act fun _ sh =>
      some ({ sh with running := true, stage := .started }, .control (.started threadNum))
  | .started _ => .act fun choice sh =>
      match choice with
      | .stop => some (sh, .control .locking)
      | _ => none
  | .locking => .lock (.control .turningOff)
  | .turningOff => .act fun _ sh =>
      some ({ sh with running := false, stage := .stopping }, .control .notifying)
  | .notifying => .notifyAll .notEmpty (.control (.joining 0))
  | .joining index => .act fun _ sh =>
      if index < sh.threads then
        if sh.exited index then some (sh, .control (.joining (index + 1))) else none
      else some ({ sh with threads := 0 }, .control .dropping)
  | .dropping => .act fun _ sh =>
      match sh.queue with
      | [] => some ({ sh with stage := .stopped }, .control .unlocking)
      | job :: rest =>
          some ({ sh with queue := rest, dropped := sh.dropped ++ [job] },
            .control .dropping)
  | .unlocking => .unlock (.control .stopped)
  | .stopped => .act fun _ _ => none

/-- run(task), any number of times. -/
def run : RunAt Body → Code Body
  | .outside => .act fun choice sh =>
      match choice with
      | .run task => some (sh, .run (.locking task))
      | _ => none
  | .locking task => .lock (.run (.testing task))
  | .testing task => .act fun _ sh =>
      if sh.maxSize ≤ sh.queue.length ∧ sh.running = true then some (sh, .run (.waiting task))
      else some (sh, .run (.checking task))
  | .waiting task => .wait .notFull (.run (.testing task))
  | .checking task => .act fun _ sh =>
      if sh.running then
        let job := ⟨sh.pushed.length, task⟩
        some ({ sh with queue := sh.queue ++ [job], pushed := sh.pushed ++ [job] },
          .run .notifying)
      else some (sh, .run .unlocking)
  | .notifying => .notifyAll .notEmpty (.run .unlocking)
  | .unlocking => .unlock (.run .outside)

/-- The body of worker `index`. -/
def threadFunc (index : Nat) : FuncAt Body → Code Body
  | .unborn => .act fun _ sh =>
      if index < sh.spawned then some (sh, .func .initializing) else none
  | .initializing => .act fun _ sh => some (sh, .func .testing)
  | .testing => .act fun _ sh =>
      some (sh, if sh.running then .func .locking else .func .leaving)
  | .locking => .lock (.func .looking)
  | .looking => .act fun _ sh =>
      match sh.queue with
      | [] => some (sh, .func .waiting)
      | _ :: _ => some (sh, .func .taking)
  | .waiting => .wait .notEmpty (.func .taking)
  | .taking => .act fun _ sh =>
      match sh.queue with
      | [] => some (sh, .func (.unlocking none))
      | job :: rest =>
          some ({ sh with queue := rest, dequeued := sh.dequeued ++ [job] },
            .func (.notifying job))
  | .notifying job => .notifyAll .notFull (.func (.unlocking (some job)))
  | .unlocking job => .unlock (.func (.holding job))
  | .holding job => .act fun _ sh =>
      match job with
      | none => some (sh, .func .testing)
      | some job =>
          match job.task with
          | none => some ({ sh with discarded := sh.discarded ++ [job] }, .func .testing)
          | some _ =>
              some ({ sh with activeThreadNum := sh.activeThreadNum + 1 }, .func (.counted job))
  | .counted job => .act fun _ sh =>
      some ({ sh with begun := sh.begun ++ [job] }, .func (.calling job))
  | .calling job => .act fun _ sh =>
      some ({ sh with finished := sh.finished ++ [job] }, .func (.called job))
  | .called _ => .act fun _ sh =>
      some ({ sh with activeThreadNum := sh.activeThreadNum - 1 }, .func .testing)
  | .leaving => .act fun _ sh =>
      some ({ sh with exited := Function.update sh.exited index true }, .func .exited)
  | .exited => .act fun _ _ => none

def code : Program Thread Cond (Shared Body) (Local Body) (Choice Body)
  | .controller, .control place => control place
  | .producer _, .run place => run place
  | .worker index, .func place => threadFunc index place
  | _, _ => .act fun _ _ => none

/-! ### States -/

abbrev Pool (Body : Type) := State Thread Cond (Shared Body) (Local Body)

/-- ThreadPool() followed by setMaxQueueSize(maxSize). -/
def Shared.new (maxSize : Nat) : Shared Body :=
  { maxSize := maxSize
    running := false
    queue := []
    activeThreadNum := 0
    threads := 0
    exited := fun _ => false
    stage := .idle
    spawned := 0
    pushed := []
    dequeued := []
    dropped := []
    discarded := []
    begun := []
    finished := [] }

def new (maxSize : Nat) : Pool Body :=
  { owner := none
    standing := fun _ => .running
    location := fun t =>
      match t with
      | .controller => .control .created
      | .producer _ => .run .outside
      | .worker _ => .func .unborn
    shared := .new maxSize }

def system (Body : Type) (maxSize : Nat) :
    Transition.System (Pool Body) (Event Thread (Choice Body)) :=
  Monitor.system code (fun s => s = new maxSize)

/-- The locations between taking the mutex and giving it back. -/
def inside : Thread → Local Body → Prop
  | .controller, .control place =>
      match place with
      | .turningOff | .notifying | .joining _ | .dropping | .unlocking => True
      | _ => False
  | .producer _, .run place =>
      match place with
      | .testing _ | .waiting _ | .checking _ | .notifying | .unlocking => True
      | _ => False
  | .worker _, .func place =>
      match place with
      | .looking | .waiting | .taking | .notifying _ | .unlocking _ => True
      | _ => False
  | _, _ => False

end Uvcpp.ThreadPool
