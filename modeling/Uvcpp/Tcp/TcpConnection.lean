/-
TcpConnection.cpp as a transition system.

One connection, the loop it lives on, and any number of user threads.  A reference
to the connection is held by the server's map, by users, by the loop thread inside a
callback and by every WriteContext; the destructor runs with the last of them.

libuv documents no order between async handles, and the loops leave it open between the
closures of different connections.  Those of one connection are assumed to run in the order
in which they were posted.
-/

import Uvcpp.Library.Transition

namespace Uvcpp

/-- On the thread of the connection's loop, or on another. -/
inductive Thread where
  | loop
  | user
deriving DecidableEq

/-! ### The handle -/

/-- What the closures given to runInLoopThread ask of libuv.  A shutdown carries
whether `req->data` is the client, which its callback then closes. -/
inductive Request where
  | write (context : Nat)
  | shutdown (client : Bool)
  | close
deriving DecidableEq

/-- The uv_tcp_t with the closures posted for it.  `writes` and `shutdowns` are accepted
and not yet reported; `executed` is the history of the requests made on the handle. -/
structure UvTcp where
  posted : List Request
  executed : List Request
  writes : List Nat
  shutdowns : List Bool
  reading : Bool
deriving DecidableEq

namespace UvTcp

/-- A connected handle that is being read. -/
def new : UvTcp :=
  { posted := []
    executed := []
    writes := []
    shutdowns := []
    reading := true }

/-- libuv may refuse a write, and then never reports it. -/
def write (h : UvTcp) (context : Nat) (ret : Bool) : UvTcp :=
  { h with
    executed := h.executed ++ [.write context]
    writes := if ret then h.writes ++ [context] else h.writes }

def shutdown (h : UvTcp) (client : Bool) : UvTcp :=
  { h with
    executed := h.executed ++ [.shutdown client]
    shutdowns := h.shutdowns ++ [client] }

def readStop (h : UvTcp) : UvTcp :=
  { h with reading := false }

def close (h : UvTcp) : UvTcp :=
  { h with
    executed := h.executed ++ [.close]
    reading := false }

def execute (h : UvTcp) (request : Request) (ret : Bool) : UvTcp :=
  match request with
  | .write context => h.write context ret
  | .shutdown client => h.shutdown client
  | .close => h.close

def runInLoopThread (h : UvTcp) (thread : Thread) (request : Request) (ret : Bool) : UvTcp :=
  match thread with
  | .loop => h.execute request ret
  | .user => { h with posted := h.posted ++ [request] }

end UvTcp

/-! ### The connection -/

inductive ConnectionState where
  | connected
  | finWait
  | closeWait
  | closed
deriving DecidableEq

/-- The callback the loop thread is in. -/
inductive Frame where
  | setUp
  | read
  | ended
  | written (context : Nat)
deriving DecidableEq

inductive Nread where
  | data
  | eof
  | error
deriving DecidableEq

/-- `contexts` are the live WriteContexts and `released` the deleted ones, by number.
`shutting` is a call of shutdown() that has set the state and not yet posted. -/
structure TcpConnection where
  client : UvTcp
  state : ConnectionState
  registered : Bool
  users : Nat
  shutting : Bool
  created : Nat
  contexts : List Nat
  released : List Nat
  frame : Option Frame
  destroyed : Bool
  aborted : Bool
deriving DecidableEq

/-- References held by the callback itself; a write callback uses its context's. -/
def Frame.holds : Frame → Nat
  | .written _ => 0
  | _ => 1

namespace TcpConnection

def holders (c : TcpConnection) : Nat :=
  c.registered.toNat + c.users + c.contexts.length + (c.frame.map Frame.holds).getD 0

def runInLoopThread (c : TcpConnection) (thread : Thread) (request : Request) (ret : Bool) :
    TcpConnection :=
  { c with client := c.client.runInLoopThread thread request ret }

def shutdownWrite (c : TcpConnection) (thread : Thread) : TcpConnection :=
  { c with state := .closed }.runInLoopThread thread (.shutdown true) true

/-- ~TcpConnection. -/
def destructor (c : TcpConnection) (thread : Thread) : TcpConnection :=
  if c.state = .closeWait then { c with destroyed := true }.shutdownWrite thread
  else { c with destroyed := true, state := .closed }.runInLoopThread thread .close true

/-- The last reference takes the connection with it. -/
def settle (c : TcpConnection) (thread : Thread) : TcpConnection :=
  if c.holders = 0 then c.destructor thread else c

def abort (c : TcpConnection) : TcpConnection :=
  { c with aborted := true }

/-- readCallback up to the user's callback; `finish` is the rest.  After an error libuv
stops reading. -/
def readCallback (c : TcpConnection) (nread : Nread) : TcpConnection :=
  if c.destroyed then c.abort
  else
    match nread with
    | .eof =>
        if c.state = .closed ∨ c.state = .closeWait then c.abort
        else
          { c with
            state := if c.state = .connected then .closeWait else .closed
            frame := some .ended }
    | .data => { c with frame := some .read }
    | .error => { c with client := c.client.readStop }

def shutdownCallback (c : TcpConnection) (client : Bool) : TcpConnection :=
  if client then { c with client := c.client.close } else c

/-- shutdown() up to the posting of its closure, which a user thread does later. -/
def shutdown (c : TcpConnection) (thread : Thread) : TcpConnection :=
  if c.state = .connected then
    match thread with
    | .loop => { c with state := .finWait }.runInLoopThread .loop (.shutdown false) true
    | .user => { c with state := .finWait, shutting := true }
  else c

def deleteContext (c : TcpConnection) (context : Nat) : TcpConnection :=
  { c with
    contexts := c.contexts.erase context
    released := c.released ++ [context] }

/-- writeCallback up to the user's callback, which only a success has. -/
def writeCallback (c : TcpConnection) (context : Nat) (status : Bool) : TcpConnection :=
  if status then { c with frame := some (.written context) }
  else (c.deleteContext context).settle .loop

/-- Every overload of send. -/
def send (c : TcpConnection) (thread : Thread) (ret : Bool) : TcpConnection :=
  { c with
    created := c.created + 1
    contexts := c.contexts ++ [c.created] }.runInLoopThread thread (.write c.created) ret

/-- closeCallback_, which is TcpServer::removeConnection. -/
def removeConnection (c : TcpConnection) : TcpConnection :=
  { c with registered := false }

/-- What a callback does after the user's. -/
def finish (c : TcpConnection) (frame : Frame) : TcpConnection :=
  match frame with
  | .setUp => { c with frame := none }.settle .loop
  | .read => { c with frame := none }.settle .loop
  | .ended =>
      { c.removeConnection with client := c.client.readStop, frame := none }.settle .loop
  | .written context => ({ c with frame := none }.deleteContext context).settle .loop

/-! ### Runs -/

/-- The events of user code on any thread, and those of the loop. -/
inductive Event where
  | send (thread : Thread) (ret : Bool)
  | shutdown (thread : Thread)
  | post
  | copy
  | drop (thread : Thread)
  | run (ret : Bool)
  | read (nread : Nread)
  | written (context : Nat) (status : Bool)
  | shutDown
  | finish
deriving DecidableEq

/-- Who can call a member function: the owner of a reference, or the user's callback. -/
def callable (c : TcpConnection) (thread : Thread) : Bool :=
  0 < c.users || (thread == .loop && c.frame.isSome)

/-- One step; `none` when the event cannot happen.  A reference is not dropped while a
call is made through it, and the loop takes up nothing while it is in a callback. -/
def step (c : TcpConnection) (event : Event) : Option TcpConnection :=
  if c.aborted then none
  else
    match event with
    | .send thread ret => if c.callable thread then some (c.send thread ret) else none
    | .shutdown thread => if c.callable thread then some (c.shutdown thread) else none
    | .post =>
        if c.shutting then
          some ({ c with shutting := false }.runInLoopThread .user (.shutdown false) true)
        else none
    | .copy => if 0 < c.holders then some { c with users := c.users + 1 } else none
    | .drop thread =>
        if c.shutting.toNat < c.users then
          some ({ c with users := c.users - 1 }.settle thread)
        else none
    | .run ret =>
        match c.frame, c.client.posted with
        | none, request :: rest =>
            some { c with client := { c.client with posted := rest }.execute request ret }
        | _, _ => none
    | .read nread =>
        if c.frame = none ∧ c.client.reading = true then some (c.readCallback nread) else none
    | .written context status =>
        if c.frame = none ∧ context ∈ c.client.writes then
          some ({ c with client := { c.client with writes := c.client.writes.erase context }
            }.writeCallback context status)
        else none
    | .shutDown =>
        match c.frame, c.client.shutdowns with
        | none, client :: rest =>
            some ({ c with client := { c.client with shutdowns := rest } }.shutdownCallback client)
        | _, _ => none
    | .finish => c.frame.map c.finish

/-- A connection that TcpServer has set up, in the user's connection callback. -/
def accepted : TcpConnection :=
  { client := .new
    state := .connected
    registered := true
    users := 0
    shutting := false
    created := 0
    contexts := []
    released := []
    frame := some .setUp
    destroyed := false
    aborted := false }

def system : Transition.System TcpConnection Event :=
  Transition.System.executed (fun c => c = accepted) step

end TcpConnection

end Uvcpp
