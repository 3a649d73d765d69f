/-
EventLoop.cpp: run, stop and runInLoopThread, with uv_run below them.

run calls uv_run as long as run_ is set.  An iteration of uv_run takes over the async
handles that were sent so far and calls them back, in between with the other handlers that
are ready.  libuv documents no order between async handles, so any of them may come next.  The
signal handle of the constructor stays active, so in the default mode uv_run returns only
when uv_stop was called.  mutex_ covers the initialization and the sending of an async
handle, which are one step.
-/

import Uvcpp.Thread.EventLoop

namespace Uvcpp

namespace LoopRun

/-- What an async handle carries: a callback, by number, or the closure of stop. -/
inductive Closure where
  | call (number : Nat)
  | stop
deriving DecidableEq

/-- uv_run_mode. -/
inductive Mode where
  | default
  | once
  | nowait
deriving DecidableEq

/-- The loop thread before it calls run, at the condition of run, and in uv_run at its
condition or in an iteration. -/
inductive Phase where
  | preparing
  | testing
  | polling
  | handling
  | exited
deriving DecidableEq

end LoopRun

open LoopRun (Closure Mode Phase) in
/-- `posted` are the handles sent, `batch` those the iteration has taken over and `others`
the number of other handlers it still has to call.  `stopping` counts the calls of stop
that have cleared `run` and not yet posted.  `sent`, `executed`, `stops` (the calls of stop
that are back) and `entered` (whether uv_run was ever called) are histories. -/
structure LoopRun where
  mode : Mode
  run : Bool
  stopFlag : Bool
  phase : Phase
  posted : List Closure
  batch : List Closure
  others : Nat
  inCallback : Bool
  stopping : Nat
  made : Nat
  sent : List Closure
  executed : List (EventLoop.Thread × Closure)
  stops : Nat
  entered : Bool
deriving DecidableEq

namespace LoopRun

/-- The effect of a closure; uv_stop sets a flag that uv_run reads. -/
def execute (s : LoopRun) (thread : EventLoop.Thread) (closure : Closure) : LoopRun :=
  { s with
    executed := s.executed ++ [(thread, closure)]
    stopFlag := s.stopFlag || closure = .stop }

def runInLoopThread (s : LoopRun) (thread : EventLoop.Thread) (closure : Closure) : LoopRun :=
  match thread with
  | .loop => s.execute .loop closure
  | .other =>
      { s with
        posted := s.posted ++ [closure]
        sent := s.sent ++ [closure] }

/-- runInLoopThread with a new callback. -/
def call (s : LoopRun) (thread : EventLoop.Thread) : LoopRun :=
  { s with made := s.made + 1 }.runInLoopThread thread (.call s.made)

/-- stop() up to its runInLoopThread, which another thread does later. -/
def stop (s : LoopRun) (thread : EventLoop.Thread) : LoopRun :=
  match thread with
  | .loop => { s with run := false, stops := s.stops + 1 }.runInLoopThread .loop .stop
  | .other => { s with run := false, stopping := s.stopping + 1 }

/-- The rest of stop() on another thread. -/
def post (s : LoopRun) : LoopRun :=
  { s with stopping := s.stopping - 1, stops := s.stops + 1 }.runInLoopThread .other .stop

/-- The condition of run. -/
def test (s : LoopRun) : LoopRun :=
  if s.run then { s with phase := .polling, entered := true } else { s with phase := .exited }

def poll (s : LoopRun) (others : Nat) : LoopRun :=
  { s with
    phase := .handling
    posted := []
    batch := s.posted
    others := others }

/-- The callback runs until `returned`. -/
def asyncCallback (s : LoopRun) (closure : Closure) : LoopRun :=
  { s with batch := s.batch.erase closure, inCallback := true }.execute .other closure

/-- The end of an iteration: another one in the default mode, else uv_run returns. -/
def iterated (s : LoopRun) : LoopRun :=
  match s.mode with
  | .default => { s with phase := .polling }
  | .once | .nowait => { s with phase := .testing, stopFlag := false }

/-- uv_run returns and clears its flag. -/
def leave (s : LoopRun) : LoopRun :=
  { s with phase := .testing, stopFlag := false }

/-! ### Runs -/

inductive Event where
  | call (thread : EventLoop.Thread)
  | stop (thread : EventLoop.Thread)
  | post
  | enter
  | test
  | poll (others : Nat)
  | asyncCallback (closure : Closure)
  | handle
  | returned
  | iterated
  | leave
deriving DecidableEq

/-- The loop thread runs user code: a callback, or what comes before run. -/
def userCode (s : LoopRun) : Bool :=
  s.inCallback || s.phase = .preparing

/-- One step; `none` when the event cannot happen.  Polling blocks, except in the mode
nowait, until there is something to handle. -/
def step (s : LoopRun) : Event → Option LoopRun
  | .call .other => some (s.call .other)
  | .call .loop => if s.userCode then some (s.call .loop) else none
  | .stop .other => some (s.stop .other)
  | .stop .loop => if s.userCode then some (s.stop .loop) else none
  | .post => if 0 < s.stopping then some s.post else none
  | .enter => if s.phase = .preparing then some { s with phase := .testing } else none
  | .test => if s.phase = .testing then some s.test else none
  | .poll others =>
      if s.phase = .polling ∧ s.stopFlag = false ∧
          (s.posted ≠ [] ∨ 0 < others ∨ s.mode = .nowait) then
        some (s.poll others)
      else none
  | .asyncCallback closure =>
      if s.inCallback = false ∧ closure ∈ s.batch then some (s.asyncCallback closure) else none
  | .handle =>
      if s.inCallback = false ∧ 0 < s.others then
        some { s with others := s.others - 1, inCallback := true }
      else none
  | .returned => if s.inCallback then some { s with inCallback := false } else none
  | .iterated =>
      if s.phase = .handling ∧ s.inCallback = false ∧ s.batch = [] ∧ s.others = 0 then
        some s.iterated
      else none
  | .leave => if s.phase = .polling ∧ s.stopFlag = true then some s.leave else none

/-- After the constructor, on the thread that will call run(mode). -/
def start (mode : Mode) : LoopRun :=
  { mode := mode
    run := true
    stopFlag := false
    phase := .preparing
    posted := []
    batch := []
    others := 0
    inCallback := false
    stopping := 0
    made := 0
    sent := []
    executed := []
    stops := 0
    entered := false }

def system (mode : Mode) : Transition.System LoopRun Event :=
  Transition.System.executed (fun s => s = start mode) step

/-- What the loop thread does by itself; calls made by user code are not among it. -/
def Proceeds : Event → Prop
  | .enter | .test | .poll _ | .asyncCallback _ | .handle | .returned | .iterated | .leave => True
  | .call _ | .stop _ | .post => False

/-- The posted closures that were executed. -/
def ran (s : LoopRun) : List Closure :=
  (s.executed.filter fun entry => entry.1 = .other).map Prod.snd

end LoopRun

end Uvcpp
