/-
BoundedBlockingQueue.h: put and take as programs over a monitor, and as critical
sections.

Any number of threads call put and take.  The program executes one statement at a
time; in the system of sections a thread that gets the mutex executes its critical
section up to the return or the wait.
-/

import Uvcpp.Library.MonitorRules

namespace Uvcpp.BoundedBlockingQueue

open Monitor

variable {Thread Elem : Type}

inductive Cond where
  | notFull
  | notEmpty
deriving DecidableEq

inductive Call (Elem : Type) where
  | put (elem : Elem)
  | take
deriving DecidableEq

/-- The condition a call waits on. -/
def Call.awaits : Call Elem → Cond
  | .put _ => .notFull
  | .take => .notEmpty

/-- The condition a call notifies when it is done. -/
def Call.signals : Call Elem → Cond
  | .put _ => .notEmpty
  | .take => .notFull

structure Shared (Elem : Type) where
  maxSize : Nat
  queue : List Elem

def Shared.new (maxSize : Nat) : Shared Elem :=
  { maxSize := maxSize
    queue := [] }

namespace Shared

/-- `queue_.size() == maxSize_` for put, `queue_.empty()` for take. -/
def blocks (sh : Shared Elem) : Call Elem → Bool
  | .put _ => sh.queue.length = sh.maxSize
  | .take => sh.queue.isEmpty

/-- `queue_.push(elem)`, or `queue_.front()` and `queue_.pop()`, with the local variable
that take returns. -/
def change (sh : Shared Elem) : Call Elem → Option (Shared Elem × Option Elem)
  | .put elem => some ({ sh with queue := sh.queue ++ [elem] }, none)
  | .take =>
      match sh.queue with
      | [] => none
      | elem :: rest => some ({ sh with queue := rest }, some elem)

end Shared

/-! ### Statements -/

/-- `returned` is what the call will return; outside, what the last one has. -/
inductive Local (Elem : Type) where
  | outside (returned : Option Elem)
  | locking (call : Call Elem)
  | testing (call : Call Elem)
  | waiting (call : Call Elem)
  | changing (call : Call Elem)
  | notifying (call : Call Elem) (returned : Option Elem)
  | unlocking (call : Call Elem) (returned : Option Elem)
deriving DecidableEq

def code (_ : Thread) : Local Elem → Instr Cond (Shared Elem) (Local Elem) (Call Elem)
  | .outside _ => .act fun call sh => some (sh, .locking call)
  | .locking call => .lock (.testing call)
  | .testing call => .act fun _ sh =>
      some (sh, if sh.blocks call then .waiting call else .changing call)
  | .waiting call => .wait call.awaits (.testing call)
  | .changing call => .act fun _ sh =>
      (sh.change call).map fun changed => (changed.1, .notifying call changed.2)
  | .notifying call returned => .notifyAll call.signals (.unlocking call returned)
  | .unlocking _ returned => .unlock (.outside returned)

def new (maxSize : Nat) : State Thread Cond (Shared Elem) (Local Elem) :=
  { owner := none
    standing := fun _ => .running
    location := fun _ => .outside none
    shared := .new maxSize }

def program (Thread Elem : Type) [DecidableEq Thread] (maxSize : Nat) :
    Transition.System (State Thread Cond (Shared Elem) (Local Elem)) (Event Thread (Call Elem)) :=
  system code (fun s => s = new maxSize)

/-! ### Sections -/

/-- Outside, on its way to the mutex, or asleep and not notified. -/
inductive Status (Elem : Type) where
  | outside (returned : Option Elem)
  | entering (call : Call Elem)
  | asleep (call : Call Elem)

structure Sections (Thread Elem : Type) where
  shared : Shared Elem
  status : Thread → Status Elem

/-- notify_all sends the sleepers of the condition to the mutex. -/
def Status.notified (cond : Cond) : Status Elem → Status Elem
  | .asleep call => if call.awaits = cond then .entering call else .asleep call
  | status => status

inductive SectionEvent (Thread Elem : Type) where
  | call (thread : Thread) (call : Call Elem)
  | enter (thread : Thread)
  | wake (thread : Thread)

namespace Sections

variable [DecidableEq Thread]

def new (maxSize : Nat) : Sections Thread Elem :=
  { shared := .new maxSize
    status := fun _ => .outside none }

def turn (s : Sections Thread Elem) (t : Thread) (status : Status Elem) :
    Sections Thread Elem :=
  { s with status := Function.update s.status t status }

/-- The critical section of a call, from the mutex to the return or the wait. -/
def enter (s : Sections Thread Elem) (t : Thread) (call : Call Elem) :
    Option (Sections Thread Elem) :=
  if s.shared.blocks call then some (s.turn t (.asleep call))
  else
    (s.shared.change call).map fun changed =>
      { shared := changed.1
        status := Function.update (fun u => (s.status u).notified call.signals) t
          (.outside changed.2) }

def step (s : Sections Thread Elem) : SectionEvent Thread Elem → Option (Sections Thread Elem)
  | .call t call =>
      match s.status t with
      | .outside _ => some (s.turn t (.entering call))
      | _ => none
  | .enter t =>
      match s.status t with
      | .entering call => s.enter t call
      | _ => none
  | .wake t =>
      match s.status t with
      | .asleep call => some (s.turn t (.entering call))
      | _ => none

end Sections

/-! ### Completed calls -/

/-- A call that is back, with what it returned. -/
abbrev Deed (Elem : Type) := Call Elem × Option Elem

/-- The elements given to the calls of put, in order. -/
def puts (deeds : List (Deed Elem)) : List Elem :=
  deeds.filterMap fun deed =>
    match deed.1 with
    | .put elem => some elem
    | .take => none

/-- What the calls of take have returned, in order. -/
def takes (deeds : List (Deed Elem)) : List (Option Elem) :=
  deeds.filterMap fun deed =>
    match deed.1 with
    | .put _ => none
    | .take => some deed.2

/-- The call that a section has completed. -/
def Sections.completes (s : Sections Thread Elem) (event : SectionEvent Thread Elem)
    (s' : Sections Thread Elem) : List (Deed Elem) :=
  match event with
  | .call _ _ => []
  | .enter t =>
      match s.status t, s'.status t with
      | .entering call, .outside returned => [(call, returned)]
      | _, _ => []
  | .wake _ => []

/-- The call that gives the mutex back and returns. -/
def completes (s : State Thread Cond (Shared Elem) (Local Elem))
    (event : Event Thread (Call Elem)) (s' : State Thread Cond (Shared Elem) (Local Elem)) :
    List (Deed Elem) :=
  match event with
  | .run t _ =>
      match s.location t, s'.location t with
      | .unlocking call _, .outside returned => [(call, returned)]
      | _, _ => []
  | .wake _ => []

/-- The sections with the calls they have completed. -/
def recordedSections (Thread Elem : Type) [DecidableEq Thread] (maxSize : Nat) :
    Transition.System (Sections Thread Elem × List (Deed Elem)) (SectionEvent Thread Elem) :=
  Transition.System.executed (fun r => r = (.new maxSize, []))
    (Transition.recorded Sections.completes Sections.step)

/-- The program with the calls that are back. -/
def recordedProgram (Thread Elem : Type) [DecidableEq Thread] (maxSize : Nat) :
    Transition.System (State Thread Cond (Shared Elem) (Local Elem) × List (Deed Elem))
      (Event Thread (Call Elem)) :=
  Transition.System.executed (fun r => r = (new maxSize, []))
    (Transition.recorded completes (step code))

/-! ### The queue under its sections -/

/-- The caller has nothing to wait for. -/
def Shared.ready (sh : Shared Elem) : Cond → Prop
  | .notFull => sh.queue.length < sh.maxSize
  | .notEmpty => sh.queue ≠ []

/-- What take has returned, then the queue, is what was given to put. -/
def Fifo (deeds : List (Deed Elem)) (queue : List Elem) : Prop :=
  takes deeds ++ queue.map some = (puts deeds).map some

theorem Shared.change_take {sh : Shared Elem} {changed : Shared Elem × Option Elem}
    (taken : sh.change .take = some changed) :
    ∃ elem rest, sh.queue = elem :: rest ∧ changed = ({ sh with queue := rest }, some elem) := by
  simp only [change] at taken
  split at taken
  · cases taken
  · cases taken
    exact ⟨_, _, ‹_›, rfl⟩

theorem Shared.change_maxSize {sh : Shared Elem} {call : Call Elem}
    {changed : Shared Elem × Option Elem} (taken : sh.change call = some changed) :
    changed.1.maxSize = sh.maxSize := by
  cases call with
  | put elem =>
      cases taken
      rfl
  | take =>
      obtain ⟨elem, rest, _front, rfl⟩ := Shared.change_take taken
      rfl

theorem Fifo.change {deeds : List (Deed Elem)} {sh : Shared Elem} {call : Call Elem}
    {changed : Shared Elem × Option Elem} (fifo : Fifo deeds sh.queue)
    (taken : sh.change call = some changed) :
    Fifo (deeds ++ [(call, changed.2)]) changed.1.queue := by
  unfold Fifo at *
  cases call with
  | put elem =>
      cases taken
      simp [takes, puts] at fifo ⊢
      rw [← fifo, List.append_assoc]
  | take =>
      obtain ⟨elem, rest, front, rfl⟩ := Shared.change_take taken
      rw [front] at fifo
      simpa [takes, puts] using fifo

theorem Shared.change_bound {sh : Shared Elem} {call : Call Elem}
    {changed : Shared Elem × Option Elem} (bound : sh.queue.length ≤ sh.maxSize)
    (room : sh.blocks call = false) (taken : sh.change call = some changed) :
    changed.1.queue.length ≤ sh.maxSize := by
  cases call with
  | put elem =>
      cases taken
      have space : sh.queue.length ≠ sh.maxSize := by simpa [blocks] using room
      rw [List.length_append, List.length_singleton]
      omega
  | take =>
      obtain ⟨elem, rest, front, rfl⟩ := Shared.change_take taken
      rw [front] at bound
      exact Nat.le_of_succ_le bound

/-- A change makes ready at most what its call signals. -/
theorem Shared.change_ready {sh : Shared Elem} {call : Call Elem} {cond : Cond}
    {changed : Shared Elem × Option Elem} (taken : sh.change call = some changed)
    (after : changed.1.ready cond) (other : call.signals ≠ cond) : sh.ready cond := by
  cases call with
  | put elem =>
      cases taken
      cases cond with
      | notFull =>
          have room : (sh.queue ++ [elem]).length < sh.maxSize := after
          rw [List.length_append] at room
          exact Nat.lt_of_le_of_lt (Nat.le_add_right _ _) room
      | notEmpty => exact absurd rfl other
  | take =>
      obtain ⟨elem, rest, front, rfl⟩ := Shared.change_take taken
      cases cond with
      | notFull => exact absurd rfl other
      | notEmpty => simp [ready, front]

theorem Shared.blocks_unready {sh : Shared Elem} {call : Call Elem}
    (full : sh.blocks call = true) : ¬ sh.ready call.awaits := by
  cases call with
  | put elem =>
      have same : sh.queue.length = sh.maxSize := by simpa [blocks] using full
      simp [ready, Call.awaits, same]
  | take =>
      have empty : sh.queue = [] := by simpa [blocks] using full
      simp [ready, Call.awaits, empty]

/-- The queue is a bounded FIFO, and nobody sleeps through what he waits for. -/
structure Sections.Sound (maxSize : Nat) (s : Sections Thread Elem)
    (deeds : List (Deed Elem)) : Prop where
  size : s.shared.maxSize = maxSize
  bound : s.shared.queue.length ≤ maxSize
  fifo : Fifo deeds s.shared.queue
  awake : ∀ t call, s.status t = .asleep call → ¬ s.shared.ready call.awaits

section Sound

variable [DecidableEq Thread]

theorem Status.notified_asleep {cond : Cond} {status : Status Elem} {call : Call Elem}
    (asleep : status.notified cond = .asleep call) :
    status = .asleep call ∧ call.awaits ≠ cond := by
  cases status with
  | outside => cases asleep
  | entering other => cases asleep
  | asleep other =>
      by_cases same : other.awaits = cond
      · simp [notified, same] at asleep
      · simp only [notified, if_neg same] at asleep
        cases asleep
        exact ⟨rfl, same⟩

theorem Sections.Sound.enter {maxSize : Nat} {s s' : Sections Thread Elem}
    {deeds : List (Deed Elem)} {t : Thread} {call : Call Elem} (sound : s.Sound maxSize deeds)
    (place : s.status t = .entering call) (entered : s.enter t call = some s') :
    s'.Sound maxSize (deeds ++ s.completes (.enter t) s') := by
  unfold Sections.enter at entered
  split at entered
  · rename_i full
    cases entered
    have nothing : s.completes (.enter t) (s.turn t (.asleep call)) = [] := by
      simp [completes, place, turn]
    rw [nothing, List.append_nil]
    constructor
    · exact sound.size
    · exact sound.bound
    · exact sound.fifo
    · intro u other asleep
      by_cases same : u = t
      · subst same
        simp only [turn, Function.update_self, Status.asleep.injEq] at asleep
        subst asleep
        exact Shared.blocks_unready full
      · simp only [turn, Function.update_of_ne same] at asleep
        exact sound.awake u other asleep
  · rename_i room
    obtain ⟨changed, taken, same⟩ := Option.map_eq_some_iff.mp entered
    subst same
    have size := sound.size
    have bound := sound.bound
    rw [← size] at bound
    constructor
    · exact (Shared.change_maxSize taken).trans size
    · rw [← size]
      exact Shared.change_bound bound (Bool.eq_false_iff.mpr room) taken
    · simpa [completes, place] using sound.fifo.change taken
    · intro u other asleep isReady
      by_cases same : u = t
      · subst same
        simp at asleep
      · simp only [Function.update_of_ne same] at asleep
        obtain ⟨before, apart⟩ := Status.notified_asleep asleep
        exact sound.awake u other before (Shared.change_ready taken isReady apart.symm)

theorem Sections.Sound.turn {maxSize : Nat} {s : Sections Thread Elem}
    {deeds : List (Deed Elem)} {t : Thread} {call : Call Elem} (sound : s.Sound maxSize deeds) :
    (s.turn t (.entering call)).Sound maxSize deeds := by
  constructor
  · exact sound.size
  · exact sound.bound
  · exact sound.fifo
  · intro u other asleep
    by_cases same : u = t
    · subst same
      simp [Sections.turn] at asleep
    · simp only [Sections.turn, Function.update_of_ne same] at asleep
      exact sound.awake u other asleep

theorem Sections.Sound.step {maxSize : Nat} {s s' : Sections Thread Elem}
    {deeds : List (Deed Elem)} {event : SectionEvent Thread Elem} (sound : s.Sound maxSize deeds)
    (taken : s.step event = some s') : s'.Sound maxSize (deeds ++ s.completes event s') := by
  cases event with
  | call t call =>
      simp only [Sections.step] at taken
      split at taken
      · cases taken
        rw [completes, List.append_nil]
        exact sound.turn
      · cases taken
  | enter t =>
      simp only [Sections.step] at taken
      split at taken
      · exact sound.enter ‹_› taken
      · cases taken
  | wake t =>
      simp only [Sections.step] at taken
      split at taken
      · cases taken
        rw [completes, List.append_nil]
        exact sound.turn
      · cases taken

theorem sections_sound {maxSize : Nat} {r : Sections Thread Elem × List (Deed Elem)}
    (reachable : Transition.Reachable (recordedSections Thread Elem maxSize) r) :
    r.1.Sound maxSize r.2 := by
  induction reachable with
  | start begins =>
      cases begins
      constructor
      · rfl
      · exact Nat.zero_le _
      · rfl
      · intro t call asleep
        cases asleep
  | next _before taken ih =>
      obtain ⟨moved, recorded⟩ := Transition.recorded_taken taken
      rw [recorded]
      exact ih.step moved

end Sound

end Uvcpp.BoundedBlockingQueue
