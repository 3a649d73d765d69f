/-
A TcpServer together with its TcpConnections.

The model of the server counts the references to a connection without saying who holds them,
and the model of a connection knows the map only as one more reference.  Here the handlers of
the server and all of its connections run on the same loops.
-/

import Uvcpp.Tcp.ConnectionReferences
import Uvcpp.Tcp.ServerMoves

namespace Uvcpp.TcpServer

open Server

/-- The connections are numbered like their clients.  The `users` of a client's record are
the references outside of the map. -/
structure Serving where
  server : Server
  connections : Nat → Option TcpConnection

inductive ServingEvent where
  | accept (ret : Bool)
  | run (loop : Loop) (client : Nat) (ret : Bool)
  | tick (loop : Loop)
  | release (loop : Loop) (client : Nat)
  | ticked (loop : Loop)
  | connection (client : Nat) (event : TcpConnection.Event)
deriving DecidableEq

/-- The record with another count of references. -/
def Server.count (s : Server) (client users : Nat) : Server :=
  s.setClient client { s.clients client with users := users }

namespace Serving

/-- Whether a loop is inside a tick or a callback of one of its connections. -/
def inside (v : Serving) (loop : Loop) : Bool :=
  (v.server.releasing loop).isSome ||
    (List.range v.server.accepted).any fun client =>
      (v.server.clients client).loop == loop &&
        ((v.connections client).bind TcpConnection.frame).isSome

def put (v : Serving) (client : Nat) (c : TcpConnection) : Serving :=
  { server := v.server.count client c.outside
    connections := Function.update v.connections client (some c) }

/-- Another connection loses its place in the map when that is assigned to or erased. -/
def displace (v : Serving) (loop : Loop) (id client : Nat) : Serving :=
  match v.server.connectionMap loop id with
  | none => v
  | some old =>
      if old = client then v
      else
        match v.connections old with
        | none => v
        | some c => v.put old (c.removeConnection.settle .loop)

/-- The set-up closure, up to the user's connection callback. -/
def setUp (v : Serving) (loop : Loop) (client : Nat) (ret : Bool) : Serving :=
  if ret then
    let v := v.displace loop (v.server.clients client).id client
    { v with server := v.server.setUp loop client true }.put client .accepted
  else { v with server := v.server.setUp loop client false }

/-- newConnectionCallback for one client. -/
def newConnectionCallback (v : Serving) (ret : Bool) : Option Serving :=
  match v.server.pool with
  | some threads =>
      (getLoop threads v.server.connectionId).map fun loop =>
        { v with server := v.server.accept.post loop v.server.accepted }
  | none => some ({ v with server := v.server.accept }.setUp .main v.server.accepted ret)

/-- One entry of a bucket; ~Entry keeps the connection that it locks for the idle callback,
which drops it. -/
def release (v : Serving) (loop : Loop) (bucket : List Nat) (client : Nat) : Serving :=
  let server := { v.server with
    releasing := Function.update v.server.releasing loop (some (bucket.erase client)) }
  if server.entryAlive client then { v with server := server }
  else
    match v.connections client with
    | none => { v with server := server }
    | some c =>
        if c.destroyed then { v with server := server }
        else
          { v with server := { server with idle := server.idle ++ [client] } }.put client
            { c with users := c.users + 1 }

/-- What an event of a connection does to the server: updateConnectionCallback_ before the
user's callback, closeCallback_ after it. -/
def handle (v : Serving) (client : Nat) (c : TcpConnection) : TcpConnection.Event → Serving
  | .read .data =>
      if c.destroyed then v else { v with server := v.server.readCallback client .data }
  | .read .error =>
      if c.destroyed then v else { v with server := v.server.readCallback client .error }
  | .finish =>
      if c.frame = some .ended then
        let record := v.server.clients client
        let v := v.displace record.loop record.id client
        { v with server := v.server.readCallback client .eof }
      else v
  | _ => v

/-- One step; `none` when the event cannot happen. -/
def step (v : Serving) : ServingEvent → Option Serving
  | .accept ret => if v.inside .main then none else v.newConnectionCallback ret
  | .run loop client ret =>
      if v.inside loop = false ∧ client ∈ v.server.posted loop then
        some ({ v with server := v.server.unpost loop client }.setUp loop client ret)
      else none
  | .tick loop =>
      if 0 < v.server.timeout ∧ v.inside loop = false then
        (v.server.checkConnection loop).map fun server => { v with server := server }
      else none
  | .release loop client =>
      match v.server.releasing loop with
      | some bucket => if client ∈ bucket then some (v.release loop bucket client) else none
      | none => none
  | .ticked loop =>
      if v.server.releasing loop = some [] then some { v with server := v.server.checked loop }
      else none
  | .connection client event =>
      match v.connections client with
      | none => none
      | some c =>
          if event.begins && v.inside (v.server.clients client).loop then none
          else (TcpConnection.step c event).map fun c' => (v.handle client c event).put client c'

def start (timeout : Int) (pool : Option (List Nat)) : Serving :=
  { server := TcpServer.start timeout pool
    connections := fun _ => none }

def system (timeout : Int) (pool : Option (List Nat)) :
    Transition.System Serving ServingEvent :=
  Transition.System.executed (fun v => v = start timeout pool) step

end Serving

/-! ### Effects -/

/-- Everything a step can do. -/
inductive ServingEffect (v : Serving) : ServingEvent → Serving → Prop where
  | posts {ret : Bool} {threads : List Nat} {loop : Loop} (free : v.inside .main = false)
      (pool : v.server.pool = some threads)
      (target : getLoop threads v.server.connectionId = some loop) :
      ServingEffect v (.accept ret)
        { v with server := v.server.accept.post loop v.server.accepted }
  | accepts {ret : Bool} (free : v.inside .main = false) (alone : v.server.pool = none) :
      ServingEffect v (.accept ret)
        ({ v with server := v.server.accept }.setUp .main v.server.accepted ret)
  | runs {loop : Loop} {client : Nat} {ret : Bool} (free : v.inside loop = false)
      (waits : client ∈ v.server.posted loop) :
      ServingEffect v (.run loop client ret)
        ({ v with server := v.server.unpost loop client }.setUp loop client ret)
  | ticks {loop : Loop} {server : Server} (timed : 0 < v.server.timeout)
      (free : v.inside loop = false) (popped : v.server.checkConnection loop = some server) :
      ServingEffect v (.tick loop) { v with server := server }
  | releases {loop : Loop} {bucket : List Nat} {client : Nat}
      (inside : v.server.releasing loop = some bucket) (member : client ∈ bucket) :
      ServingEffect v (.release loop client) (v.release loop bucket client)
  | ticked {loop : Loop} (finished : v.server.releasing loop = some []) :
      ServingEffect v (.ticked loop) { v with server := v.server.checked loop }
  | moves {client : Nat} {event : TcpConnection.Event} {c c' : TcpConnection}
      (present : v.connections client = some c)
      (free : event.begins = true → v.inside (v.server.clients client).loop = false)
      (taken : TcpConnection.step c event = some c') :
      ServingEffect v (.connection client event) ((v.handle client c event).put client c')

theorem serving_effect {v v' : Serving} {event : ServingEvent}
    (taken : v.step event = some v') : ServingEffect v event v' := by
  unfold Serving.step at taken
  cases event
  all_goals dsimp only at taken
  case accept ret =>
    split at taken
    · cases taken
    · have free : v.inside .main = false := Bool.eq_false_iff.mpr ‹_›
      unfold Serving.newConnectionCallback at taken
      cases pool : v.server.pool with
      | none =>
          simp only [pool, Option.some.injEq] at taken
          subst taken
          exact .accepts free pool
      | some threads =>
          simp only [pool] at taken
          obtain ⟨loop, target, rfl⟩ := Option.map_eq_some_iff.mp taken
          exact .posts free pool target
  case run loop client ret =>
    split at taken
    · obtain ⟨free, waits⟩ := ‹v.inside loop = false ∧ client ∈ v.server.posted loop›
      cases taken
      exact .runs free waits
    · cases taken
  case tick loop =>
    split at taken
    · obtain ⟨timed, free⟩ := ‹0 < v.server.timeout ∧ v.inside loop = false›
      obtain ⟨server, popped, rfl⟩ := Option.map_eq_some_iff.mp taken
      exact .ticks timed free popped
    · cases taken
  case release loop client =>
    split at taken
    · split at taken
      · cases taken
        exact .releases ‹_› ‹_›
      · cases taken
    · cases taken
  case ticked loop =>
    split at taken
    · cases taken
      exact .ticked ‹_›
    · cases taken
  case connection client event =>
    split at taken
    · cases taken
    · split at taken
      · cases taken
      · rename_i present blocked
        obtain ⟨c', moved, rfl⟩ := Option.map_eq_some_iff.mp taken
        exact .moves present (by simpa using blocked) moved

section Accepted

variable (v : Serving) (client : Nat)

theorem displace_accepted (loop : Loop) (id : Nat) :
    (v.displace loop id client).server.accepted = v.server.accepted := by
  unfold Serving.displace
  split
  · rfl
  · split_ifs
    · rfl
    · split <;> rfl

theorem serving_setUp_accepted (loop : Loop) (ret : Bool) :
    (v.setUp loop client ret).server.accepted = v.server.accepted := by
  cases ret with
  | false => exact setUp_accepted v.server loop client false
  | true => exact (setUp_accepted _ loop client true).trans (displace_accepted v client loop _)

theorem release_accepted (loop : Loop) (bucket : List Nat) :
    (v.release loop bucket client).server.accepted = v.server.accepted := by
  unfold Serving.release
  dsimp only
  split_ifs
  · rfl
  · split
    · rfl
    · split_ifs <;> rfl

theorem readCallback_accepted (s : Server) (nread : Nread) :
    (s.readCallback client nread).accepted = s.accepted := by
  cases nread with
  | data =>
      unfold Server.readCallback
      dsimp only
      split_ifs <;> rfl
  | _ => rfl

theorem handle_accepted (c : TcpConnection) (event : TcpConnection.Event) :
    (v.handle client c event).server.accepted = v.server.accepted := by
  unfold Serving.handle
  split
  · split_ifs
    · rfl
    · exact readCallback_accepted client v.server .data
  · split_ifs <;> rfl
  · split_ifs
    · exact (readCallback_accepted client _ .eof).trans (displace_accepted v client _ _)
    · rfl
  · rfl

theorem serving_grows {v v' : Serving} {event : ServingEvent}
    (effect : ServingEffect v event v') : v.server.accepted ≤ v'.server.accepted := by
  cases effect with
  | posts free pool target => exact Nat.le_succ _
  | accepts free alone =>
      rw [serving_setUp_accepted]
      exact Nat.le_succ _
  | runs free waits =>
      rw [serving_setUp_accepted]
      exact Nat.le_refl _
  | @ticks loop server timed free popped =>
      apply Nat.le_of_eq
      unfold checkConnection at popped
      split at popped
      · cases popped
      · cases popped
        rfl
  | releases inside member =>
      apply Nat.le_of_eq
      rw [release_accepted]
  | ticked finished => exact Nat.le_refl _
  | moves present free taken => exact Nat.le_of_eq (handle_accepted v _ _ _).symm

end Accepted

end Uvcpp.TcpServer
