/-
TcpServer.cpp as a transition system.

The main loop accepts, and sets the connection up itself or posts that to a loop of the
pool.  connectionMap_ and whell_ are thread-local: a handler reads and writes those of
the loop it runs on.  libuv delivers the read events of a client on the loop that the
client's `loop` field names.
-/

import Mathlib.Algebra.Group.Nat.Defs
import Uvcpp.Library.Wheel
import Uvcpp.Tcp.TcpConnection

namespace Uvcpp.TcpServer

inductive Loop where
  | main
  | child (thread : Nat)
deriving DecidableEq

/-- A uv_tcp_t with its connection, once that is set up.  `users` counts the references
outside of the map; `activity` is the number of ticks at the last activity. -/
structure Client where
  id : Nat
  loop : Loop
  ready : Bool
  reading : Bool
  users : Nat
  ended : Bool
  failed : Bool
  activity : Nat
deriving DecidableEq

/-- `pool` is loops_ of the thread pool if there is one, by thread.  Clients, and with
them connections and entries, are numbered in the order of their acceptance; `posted`
are the set-up closures.  `releasing` is the bucket a tick is destroying, and `idle` the
history of the idle callbacks. -/
structure Server where
  timeout : Int
  pool : Option (List Nat)
  connectionId : Nat
  accepted : Nat
  clients : Nat → Client
  posted : Loop → List Nat
  connectionMap : Loop → Nat → Option Nat
  whell : Loop → List (List Nat)
  releasing : Loop → Option (List Nat)
  ticks : Loop → Nat
  idle : List Nat

namespace Server

def setClient (s : Server) (client : Nat) (record : Client) : Server :=
  { s with clients := Function.update s.clients client record }

def setMap (s : Server) (loop : Loop) (id : Nat) (connection : Option Nat) : Server :=
  { s with
    connectionMap := Function.update s.connectionMap loop
      (Function.update (s.connectionMap loop) id connection) }

def setWhell (s : Server) (loop : Loop) (whell : List (List Nat)) : Server :=
  { s with whell := Function.update s.whell loop whell }

def loops (s : Server) : List Loop :=
  .main :: (s.pool.getD []).map .child

def getLoop (threads : List Nat) (index : Nat) : Option Loop :=
  threads[index % threads.length]?.map .child

def registered (s : Server) (client : Nat) : Bool :=
  s.loops.any fun loop => s.connectionMap loop (s.clients client).id == some client

/-- Whether the TcpConnection object exists. -/
def referenced (s : Server) (client : Nat) : Bool :=
  s.registered client || 0 < (s.clients client).users

/-- Whether a shared_ptr to the client's Entry is left in any bucket. -/
def entryAlive (s : Server) (client : Nat) : Bool :=
  s.loops.any fun loop =>
    (s.whell loop).any (fun bucket => bucket.contains client) ||
      ((s.releasing loop).getD []).contains client

/-! ### Handlers -/

/-- The set-up closure on the loop that runs it; `ret` is the result of startRead. -/
def setUp (s : Server) (loop : Loop) (client : Nat) (ret : Bool) : Server :=
  let record := { s.clients client with loop := loop }
  if ret then
    let s₁ := (s.setClient client
      { record with ready := true, reading := true, activity := s.ticks loop }).setMap loop
        record.id (some client)
    if 0 < s.timeout then s₁.setWhell loop (Wheel.insertBack (s.whell loop) client) else s₁
  else s.setClient client record

/-- The client a successful uv_accept makes; its handle belongs to the main loop. -/
def accept (s : Server) : Server :=
  { s with
    accepted := s.accepted + 1
    connectionId := (s.connectionId + 1) % 2 ^ 64 }.setClient s.accepted
      { id := s.connectionId
        loop := .main
        ready := false
        reading := false
        users := 0
        ended := false
        failed := false
        activity := 0 }

def post (s : Server) (loop : Loop) (client : Nat) : Server :=
  { s with posted := Function.update s.posted loop (s.posted loop ++ [client]) }

/-- The set-up closure of the client is run or about to be. -/
def unpost (s : Server) (loop : Loop) (client : Nat) : Server :=
  { s with posted := Function.update s.posted loop ((s.posted loop).erase client) }

/-- newConnectionCallback for one client. -/
def newConnectionCallback (s : Server) (ret : Bool) : Option Server :=
  match s.pool with
  | some threads =>
      (getLoop threads s.connectionId).map fun loop => s.accept.post loop s.accepted
  | none => some (s.accept.setUp .main s.accepted ret)

def removeConnection (s : Server) (loop : Loop) (client : Nat) : Server :=
  s.setMap loop (s.clients client).id none

/-- The entry goes into the last bucket of the executing loop. -/
def updateConnection (s : Server) (loop : Loop) (client : Nat) : Server :=
  (s.setWhell loop (Wheel.insertBack (s.whell loop) client)).setClient client
    { s.clients client with activity := s.ticks loop }

/-- TcpConnection::readCallback as far as it concerns the server.  The entry exists only
with a timeout. -/
def readCallback (s : Server) (client : Nat) (nread : Nread) : Server :=
  let record := s.clients client
  match nread with
  | .data => if s.entryAlive client then s.updateConnection record.loop client else s
  | .eof =>
      (s.setClient client { record with reading := false, ended := true }).removeConnection
        record.loop client
  | .error => s.setClient client { record with reading := false, failed := true }

/-- The first half of checkConnection: pop. -/
def checkConnection (s : Server) (loop : Loop) : Option Server :=
  match s.whell loop with
  | [] => none
  | bucket :: rest =>
      some { s.setWhell loop rest with
        releasing := Function.update s.releasing loop (some bucket)
        ticks := Function.update s.ticks loop (s.ticks loop + 1) }

/-- One entry of the popped bucket; ~Entry runs when it was the last pointer to it. -/
def release (s : Server) (loop : Loop) (bucket : List Nat) (client : Nat) : Server :=
  let s₁ := { s with
    releasing := Function.update s.releasing loop (some (bucket.erase client)) }
  if s₁.entryAlive client then s₁
  else if s₁.referenced client then { s₁ with idle := s₁.idle ++ [client] }
  else s₁

/-- The second half of checkConnection: push. -/
def checked (s : Server) (loop : Loop) : Server :=
  { s.setWhell loop (s.whell loop ++ [[]]) with
    releasing := Function.update s.releasing loop none }

end Server

/-! ### Runs -/

inductive Event where
  | accept (ret : Bool)
  | run (loop : Loop) (client : Nat) (ret : Bool)
  | read (client : Nat) (nread : Nread)
  | tick (loop : Loop)
  | release (loop : Loop) (client : Nat)
  | ticked (loop : Loop)
  | copy (client : Nat)
  | drop (client : Nat)
deriving DecidableEq

/-- One step; `none` when the event cannot happen.  A loop that is inside a tick handles
nothing else, but the idle callbacks may take and drop references.  libuv documents no order
between async handles, so any posted closure may come next. -/
def step (s : Server) : Event → Option Server
  | .accept ret => if s.releasing .main = none then s.newConnectionCallback ret else none
  | .run loop client ret =>
      if s.releasing loop = none ∧ client ∈ s.posted loop then
        some ((s.unpost loop client).setUp loop client ret)
      else none
  | .read client nread =>
      if s.releasing (s.clients client).loop = none ∧ (s.clients client).reading = true ∧
          s.referenced client = true then
        some (s.readCallback client nread)
      else none
  | .tick loop =>
      if 0 < s.timeout ∧ s.releasing loop = none then s.checkConnection loop else none
  | .release loop client =>
      match s.releasing loop with
      | some bucket => if client ∈ bucket then some (s.release loop bucket client) else none
      | none => none
  | .ticked loop => if s.releasing loop = some [] then some (s.checked loop) else none
  | .copy client =>
      if s.referenced client then
        some (s.setClient client
          { s.clients client with users := (s.clients client).users + 1 })
      else none
  | .drop client =>
      if 0 < (s.clients client).users then
        some (s.setClient client
          { s.clients client with users := (s.clients client).users - 1 })
      else none

/-- After start(): every loop has its wheel when there is a timeout. -/
def start (timeout : Int) (pool : Option (List Nat)) : Server :=
  { timeout := timeout
    pool := pool
    connectionId := 0
    accepted := 0
    clients := fun _ =>
      { id := 0
        loop := .main
        ready := false
        reading := false
        users := 0
        ended := false
        failed := false
        activity := 0 }
    posted := fun _ => []
    connectionMap := fun _ _ => none
    whell := fun _ => List.replicate timeout.toNat []
    releasing := fun _ => none
    ticks := fun _ => 0
    idle := [] }

def system (timeout : Int) (pool : Option (List Nat)) : Transition.System Server Event :=
  Transition.System.executed (fun s => s = start timeout pool) step

end Uvcpp.TcpServer
