/-
TcpServer::getAllConnection as a transition system.

A call posts one closure to every loop and then takes one value for each from its own
queue; on its own loop runInLoopThread runs the closure at once.  A loop runs what was
posted to it only outside of callbacks, and a callback that is in getAllConnection keeps
its loop until the call is back.  put and take are single steps here.
-/

import Mathlib.Data.Finset.Card
import Mathlib.Data.List.Nodup
import Uvcpp.Library.Transition

namespace Uvcpp.GetAllConnection

variable {Conn : Type}

/-- connectionMap_ of one loop. -/
abbrev ConnectionMap (Conn : Type) := Std.TreeMap Nat Conn

/-- A callback on a loop or a thread that runs none of the loops. -/
inductive Caller where
  | loop (index : Nat)
  | thread (index : Nat)
deriving DecidableEq

inductive Place where
  | posting (index : Nat)
  | taking (count : Nat)
  | returned
deriving DecidableEq

structure Call (Conn : Type) where
  caller : Caller
  place : Place
  que : List (String × List Conn)
  results : String → Option (List Conn)

/-- `eventLoopThreadPool` is the number of loops of the pool if there is one; without it
loop 0 is the main loop.  Calls are numbered in their order, and `posted` has those whose
closure a loop still has to run.  `served` is the history of the closures that have run:
on which loop, and its map at that moment. -/
structure Server (Conn : Type) where
  eventLoopThreadPool : Option Nat
  connectionMap : Nat → ConnectionMap Conn
  inCallback : Nat → Bool
  posted : Nat → List Nat
  made : Nat
  calls : Nat → Call Conn
  served : Nat → List (Nat × ConnectionMap Conn)

def getConnection (name : String) (cmap : ConnectionMap Conn) : String × List Conn :=
  (name, cmap.foldl (fun conns _ conn => conns ++ [conn]) [])

namespace Server

def loops (s : Server Conn) : Nat :=
  s.eventLoopThreadPool.getD 1

def name (s : Server Conn) (index : Nat) : String :=
  match s.eventLoopThreadPool with
  | none => "MainLoop"
  | some _ => "ChildLoop_" ++ toString index

def setCall (s : Server Conn) (call : Nat) (record : Call Conn) : Server Conn :=
  { s with calls := Function.update s.calls call record }

def setPlace (s : Server Conn) (call : Nat) (place : Place) : Server Conn :=
  s.setCall call { s.calls call with place := place }

@[simp] theorem loops_setCall (s : Server Conn) (call : Nat) (record : Call Conn) :
    (s.setCall call record).loops = s.loops := rfl

theorem calls_setCall (s : Server Conn) (call other : Nat) (record : Call Conn) :
    (s.setCall call record).calls other = if other = call then record else s.calls other :=
  Function.update_apply ..

@[simp] theorem loops_setPlace (s : Server Conn) (call : Nat) (place : Place) :
    (s.setPlace call place).loops = s.loops := rfl

def setMap (s : Server Conn) (index : Nat) (cmap : ConnectionMap Conn) : Server Conn :=
  { s with connectionMap := Function.update s.connectionMap index cmap }

def setCallback (s : Server Conn) (index : Nat) (inside : Bool) : Server Conn :=
  { s with inCallback := Function.update s.inCallback index inside }

def setPosted (s : Server Conn) (index : Nat) (calls : List Nat) : Server Conn :=
  { s with posted := Function.update s.posted index calls }

@[simp] theorem loops_setPosted (s : Server Conn) (index : Nat) (calls : List Nat) :
    (s.setPosted index calls).loops = s.loops := rfl

/-- Whether a call of this caller is not back yet. -/
def calling (s : Server Conn) (caller : Caller) : Bool :=
  (List.range s.made).any fun call =>
    (s.calls call).caller == caller && (s.calls call).place != .returned

/-- The closure of a call on the loop that runs it. -/
def answer (s : Server Conn) (index call : Nat) : Server Conn :=
  let cmap := s.connectionMap index
  { s.setCall call
      { s.calls call with
        que := (s.calls call).que ++ [getConnection (s.name index) cmap] } with
    served := Function.update s.served call (s.served call ++ [(index, cmap)]) }

@[simp] theorem loops_answer (s : Server Conn) (index call : Nat) :
    (s.answer index call).loops = s.loops := rfl

theorem calls_answer (s : Server Conn) (index call other : Nat) :
    (s.answer index call).calls other =
      if other = call then
        { s.calls call with
          que := (s.calls call).que ++ [getConnection (s.name index) (s.connectionMap index)] }
      else s.calls other :=
  Function.update_apply ..

def runInLoopThread (s : Server Conn) (index call : Nat) : Server Conn :=
  if (s.calls call).caller = .loop index then s.answer index call
  else s.setPosted index (s.posted index ++ [call])

def getAllConnection (s : Server Conn) (caller : Caller) : Server Conn :=
  { s.setCall s.made
      { caller := caller
        place := .posting 0
        que := []
        results := fun _ => none } with
    made := s.made + 1 }

@[simp] theorem loops_getAllConnection (s : Server Conn) (caller : Caller) :
    (s.getAllConnection caller).loops = s.loops := rfl

theorem calls_getAllConnection (s : Server Conn) (caller : Caller) (other : Nat) :
    (s.getAllConnection caller).calls other =
      if other = s.made then
        { caller := caller
          place := .posting 0
          que := []
          results := fun _ => none }
      else s.calls other :=
  Function.update_apply ..

/-- The next step of a call; `none` when it is blocked or back. -/
def proceed (s : Server Conn) (call : Nat) : Option (Server Conn) :=
  match (s.calls call).place with
  | .posting index =>
      if index < s.loops then
        some ((s.runInLoopThread index call).setPlace call (.posting (index + 1)))
      else some (s.setPlace call (.taking 0))
  | .taking count =>
      if count < s.loops then
        match (s.calls call).que with
        | [] => none
        | value :: rest =>
            some (s.setCall call
              { s.calls call with
                place := .taking (count + 1)
                que := rest
                results := Function.update (s.calls call).results value.1 (some value.2) })
      else some (s.setPlace call .returned)
  | .returned => none

end Server

/-! ### Runs -/

inductive Event (Conn : Type) where
  | enter (index : Nat)
  | leave (index : Nat)
  | insert (index id : Nat) (conn : Conn)
  | erase (index id : Nat)
  | call (caller : Caller)
  | proceed (call : Nat)
  | run (index call : Nat)

/-- One step; `none` when the event cannot happen.  Callbacks change the map of their own
loop.  libuv documents no order between async handles, so any posted closure may come next. -/
def step (s : Server Conn) : Event Conn → Option (Server Conn)
  | .enter index =>
      if index < s.loops ∧ s.inCallback index = false then some (s.setCallback index true)
      else none
  | .leave index =>
      if s.inCallback index = true ∧ s.calling (.loop index) = false then
        some (s.setCallback index false)
      else none
  | .insert index id conn =>
      if s.inCallback index = true ∧ s.calling (.loop index) = false then
        some (s.setMap index ((s.connectionMap index).insert id conn))
      else none
  | .erase index id =>
      if s.inCallback index = true ∧ s.calling (.loop index) = false then
        some (s.setMap index ((s.connectionMap index).erase id))
      else none
  | .call (.loop index) =>
      if s.inCallback index = true ∧ s.calling (.loop index) = false then
        some (s.getAllConnection (.loop index))
      else none
  | .call (.thread index) =>
      if s.calling (.thread index) = false then some (s.getAllConnection (.thread index))
      else none
  | .proceed call => if call < s.made then s.proceed call else none
  | .run index call =>
      if s.inCallback index = false ∧ call ∈ s.posted index then
        some ((s.setPosted index ((s.posted index).erase call)).answer index call)
      else none

def start (eventLoopThreadPool : Option Nat) : Server Conn :=
  { eventLoopThreadPool := eventLoopThreadPool
    connectionMap := fun _ => ∅
    inCallback := fun _ => false
    posted := fun _ => []
    made := 0
    calls := fun _ =>
      { caller := .thread 0
        place := .posting 0
        que := []
        results := fun _ => none }
    served := fun _ => [] }

def system (Conn : Type) (eventLoopThreadPool : Option Nat) :
    Transition.System (Server Conn) (Event Conn) :=
  Transition.System.executed (fun s => s = start eventLoopThreadPool) step

theorem calling_eq_false {s : Server Conn} {caller : Caller} :
    s.calling caller = false ↔
      ∀ call < s.made, (s.calls call).place ≠ .returned → (s.calls call).caller ≠ caller := by
  simp only [Server.calling, List.any_eq_false, List.mem_range, Bool.and_eq_true, beq_iff_eq,
    bne_iff_ne, not_and]
  constructor
  · intro free call made active same
    exact free call made same active
  · intro free call made same active
    exact free call made active same

/-! ### Steps -/

/-- What a step does. -/
inductive Moves (s : Server Conn) : Event Conn → Server Conn → Prop where
  | enter {index : Nat} (bound : index < s.loops) :
      Moves s (.enter index) (s.setCallback index true)
  | leave {index : Nat} (free : s.calling (.loop index) = false) :
      Moves s (.leave index) (s.setCallback index false)
  | insert {index id : Nat} {conn : Conn} :
      Moves s (.insert index id conn) (s.setMap index ((s.connectionMap index).insert id conn))
  | erase {index id : Nat} :
      Moves s (.erase index id) (s.setMap index ((s.connectionMap index).erase id))
  | call {caller : Caller} (free : s.calling caller = false)
      (inside : ∀ index, caller = .loop index → s.inCallback index = true) :
      Moves s (.call caller) (s.getAllConnection caller)
  | inline {call index : Nat} (made : call < s.made)
      (place : (s.calls call).place = .posting index) (bound : index < s.loops)
      (own : (s.calls call).caller = .loop index) :
      Moves s (.proceed call) ((s.answer index call).setPlace call (.posting (index + 1)))
  | post {call index : Nat} (made : call < s.made)
      (place : (s.calls call).place = .posting index) (bound : index < s.loops)
      (other : (s.calls call).caller ≠ .loop index) :
      Moves s (.proceed call)
        ((s.setPosted index (s.posted index ++ [call])).setPlace call (.posting (index + 1)))
  | posted {call index : Nat} (made : call < s.made)
      (place : (s.calls call).place = .posting index) (bound : s.loops ≤ index) :
      Moves s (.proceed call) (s.setPlace call (.taking 0))
  | take {call count : Nat} {value : String × List Conn} {rest : List (String × List Conn)}
      (made : call < s.made) (place : (s.calls call).place = .taking count)
      (bound : count < s.loops) (front : (s.calls call).que = value :: rest) :
      Moves s (.proceed call)
        (s.setCall call
          { s.calls call with
            place := .taking (count + 1)
            que := rest
            results := Function.update (s.calls call).results value.1 (some value.2) })
  | giveBack {call count : Nat} (made : call < s.made)
      (place : (s.calls call).place = .taking count) (bound : s.loops ≤ count) :
      Moves s (.proceed call) (s.setPlace call .returned)
  | run {index call : Nat} (outside : s.inCallback index = false)
      (pending : call ∈ s.posted index) :
      Moves s (.run index call)
        ((s.setPosted index ((s.posted index).erase call)).answer index call)

theorem proceed_moves {s after : Server Conn} {call : Nat} (made : call < s.made)
    (taken : s.proceed call = some after) : Moves s (.proceed call) after := by
  unfold Server.proceed at taken
  split at taken
  · rename_i index place
    split at taken
    · rename_i bound
      cases taken
      unfold Server.runInLoopThread
      split
      · exact .inline made place bound ‹_›
      · exact .post made place bound ‹_›
    · cases taken
      exact .posted made place (Nat.le_of_not_lt ‹_›)
  · rename_i count place
    split at taken
    · rename_i bound
      split at taken
      · cases taken
      · cases taken
        exact .take made place bound ‹_›
    · cases taken
      exact .giveBack made place (Nat.le_of_not_lt ‹_›)
  · cases taken

theorem moves {s after : Server Conn} {event : Event Conn} (taken : step s event = some after) :
    Moves s event after := by
  unfold step at taken
  split at taken
  case h_7 call =>
    obtain ⟨made, taken⟩ := Option.ite_none_right_eq_some.mp taken
    exact proceed_moves made taken
  all_goals
    obtain ⟨enabled, result⟩ := Option.ite_none_right_eq_some.mp taken
    cases result
  case h_1 => exact .enter enabled.1
  case h_2 => exact .leave enabled.2
  case h_3 => exact .insert
  case h_4 => exact .erase
  case h_5 index =>
    refine .call enabled.2 ?_
    intro other same
    cases same
    exact enabled.1
  case h_6 => exact .call enabled nofun
  case h_8 => exact .run enabled.1 enabled.2

end Uvcpp.GetAllConnection
