/-
EventLoop.cpp: the timers as a transition system.

A timer is made on any thread; its initialization and its cancellation run on the loop
thread, at once or as posted closures.  libuv stops an expired timer that does not repeat
before it calls the callback.  What is done with a timer is kept as its history; time is
left out, so any running timer may expire.
-/

import Mathlib.Data.List.Basic
import Mathlib.Logic.Function.Basic
import Uvcpp.Library.Transition

namespace Uvcpp

namespace EventLoop

inductive Action where
  | init
  | start
  | call
  | getRepeat
  | cancel
  | stop
  | deleteData
  | freeTimer
deriving DecidableEq

/-- A uv_timer_t.  `active` says whether libuv has it among the running timers. -/
structure Timer where
  interval : Nat
  initialized : Bool
  active : Bool
  log : List Action
deriving DecidableEq

/-- The threads, as runInLoopThread tells them apart. -/
inductive Thread where
  | loop
  | other
deriving DecidableEq

inductive Closure where
  | init (timer : Nat)
  | cancel (timer : Nat)
deriving DecidableEq

end EventLoop

open EventLoop in
/-- Timers are numbered in the order of their creation; `running` is the one whose callback
the loop is in. -/
structure EventLoop where
  made : Nat
  timers : Nat → Timer
  posted : List Closure
  running : Option Nat

namespace EventLoop

def setTimer (s : EventLoop) (timer : Nat) (record : Timer) : EventLoop :=
  { s with timers := Function.update s.timers timer record }

@[simp] theorem timers_setTimer_self (s : EventLoop) (timer : Nat) (record : Timer) :
    (s.setTimer timer record).timers timer = record :=
  Function.update_self ..

theorem timers_setTimer_of_ne {s : EventLoop} {timer other : Nat} (different : other ≠ timer)
    (record : Timer) : (s.setTimer timer record).timers other = s.timers other :=
  Function.update_of_ne different ..

/-- The closure of timerRunImpl. -/
def init (s : EventLoop) (timer : Nat) : EventLoop :=
  s.setTimer timer
    { s.timers timer with
      initialized := true
      active := true
      log := (s.timers timer).log ++ [.init, .start] }

/-- The closure of cancel. -/
def cancelled (s : EventLoop) (timer : Nat) : EventLoop :=
  s.setTimer timer
    { s.timers timer with
      active := false
      log := (s.timers timer).log ++ [.cancel, .stop, .deleteData, .freeTimer] }

def execute (s : EventLoop) : Closure → EventLoop
  | .init timer => s.init timer
  | .cancel timer => s.cancelled timer

def runInLoopThread (s : EventLoop) (thread : Thread) (closure : Closure) : EventLoop :=
  match thread with
  | .loop => s.execute closure
  | .other => { s with posted := s.posted ++ [closure] }

/-- malloc and new; the pointer is not known to anybody else yet. -/
def create (s : EventLoop) (interval : Nat) : EventLoop :=
  { s.setTimer s.made
      { interval := interval
        initialized := false
        active := false
        log := [] } with
    made := s.made + 1 }

/-- `cb` says whether there is a callback. -/
def timerRunImpl (s : EventLoop) (thread : Thread) (interval : Nat) (cb : Bool) : EventLoop :=
  if cb then (s.create interval).runInLoopThread thread (.init s.made) else s

def runAt (s : EventLoop) (thread : Thread) (cb : Bool) : EventLoop :=
  s.timerRunImpl thread 0 cb

def runAfter (s : EventLoop) (thread : Thread) (cb : Bool) : EventLoop :=
  s.timerRunImpl thread 0 cb

def runEvery (s : EventLoop) (thread : Thread) (interval : Nat) (cb : Bool) : EventLoop :=
  s.timerRunImpl thread interval cb

def cancel (s : EventLoop) (thread : Thread) (timer : Nat) : EventLoop :=
  s.runInLoopThread thread (.cancel timer)

/-- libuv calls timerCallback, which calls the callback. -/
def timerCallback (s : EventLoop) (timer : Nat) : EventLoop :=
  { s.setTimer timer
      { s.timers timer with
        active := (s.timers timer).interval ≠ 0
        log := (s.timers timer).log ++ [.call] } with
    running := some timer }

/-- The rest of timerCallback, once the callback is back. -/
def called (s : EventLoop) (timer : Nat) : EventLoop :=
  { s.setTimer timer
      (if (s.timers timer).interval = 0 then
        { s.timers timer with
          active := false
          log := (s.timers timer).log ++ [.getRepeat, .stop, .deleteData, .freeTimer] }
      else { s.timers timer with log := (s.timers timer).log ++ [.getRepeat] }) with
    running := none }

/-! ### Runs -/

inductive Event where
  | runAt (thread : Thread) (cb : Bool)
  | runAfter (thread : Thread) (cb : Bool)
  | runEvery (thread : Thread) (interval : Nat) (cb : Bool)
  | cancel (thread : Thread) (timer : Nat)
  | run (closure : Closure)
  | expire (timer : Nat)
  | finish
deriving DecidableEq

/-- One step; `none` when the event cannot happen.  The loop runs closures and expired timers
outside of callbacks.  libuv documents no order between async handles, so any posted closure
may come next. -/
def step (s : EventLoop) : Event → Option EventLoop
  | .runAt thread cb => some (s.runAt thread cb)
  | .runAfter thread cb => some (s.runAfter thread cb)
  | .runEvery thread interval cb => some (s.runEvery thread interval cb)
  | .cancel thread timer => if timer < s.made then some (s.cancel thread timer) else none
  | .run closure =>
      if s.running = none ∧ closure ∈ s.posted then
        some ({ s with posted := s.posted.erase closure }.execute closure)
      else none
  | .expire timer =>
      if s.running = none ∧ (s.timers timer).active = true then some (s.timerCallback timer)
      else none
  | .finish => s.running.map s.called

def start : EventLoop :=
  { made := 0
    timers := fun _ =>
      { interval := 0
        initialized := false
        active := false
        log := [] }
    posted := []
    running := none }

def system : Transition.System EventLoop Event :=
  Transition.System.executed (fun s => s = start) step

end EventLoop

end Uvcpp
