/-
TcpClient.cpp as a transition system.

One client, the loop it lives on, and the thread that calls and destroys it.  Each
connectImpl makes a handle; all attempts share the member client_.  A connection is
referred to by connectionPtr_ and by the callback that the loop is in.  Of the posted
closures only those of one connection are assumed to run in the order of their posting.
-/

import Uvcpp.Tcp.TcpConnection

namespace Uvcpp

namespace UvTcp

/-- A handle after uv_tcp_init. -/
def init : UvTcp :=
  { posted := []
    executed := []
    writes := []
    shutdowns := []
    reading := false }

def readStart (h : UvTcp) : UvTcp :=
  { h with reading := true }

/-- Whether libuv reports reads on the handle. -/
def active (h : UvTcp) : Bool :=
  h.reading && !h.executed.contains .close

end UvTcp

namespace TcpClient

/-- A TcpConnection of the client, with the number of its handle. -/
structure Connection where
  client : Nat
  state : ConnectionState
  destroyed : Bool
deriving DecidableEq

/-- A readCallback up to its end; `conn` is its own reference. -/
structure Reading where
  stream : Nat
  conn : Nat
  ended : Bool
deriving DecidableEq

/-- After `closedClient` the client itself has been passed to uv_close. -/
inductive Failure where
  | nullPointer
  | destroyedClient
  | closedClient
  | assertion
deriving DecidableEq

end TcpClient

open TcpClient (Connection Reading Failure) in
/-- Handles and connections are numbered in the order of their creation; an attempt has
the number of its handle.  `posted` are the closures that call uv_tcp_connect, `connecting`
the requests not yet completed, `timers` the retry timers that run.  `data` is the
connection that a handle's data points to. -/
structure TcpClient where
  alive : Bool
  client : Option Nat
  connectionPtr : Option Nat
  retryNum : Nat
  curr : Nat
  created : Nat
  handles : Nat → UvTcp
  data : Nat → Option Nat
  made : Nat
  connections : Nat → Connection
  posted : List Nat
  connecting : List Nat
  timers : Nat
  frame : Option Reading
  fault : Option Failure

namespace TcpClient

def fail (s : TcpClient) (fault : Failure) : TcpClient :=
  { s with fault := some fault }

def setHandle (s : TcpClient) (handle : Nat) (h : UvTcp) : TcpClient :=
  { s with handles := Function.update s.handles handle h }

def setConnection (s : TcpClient) (conn : Nat) (record : Connection) : TcpClient :=
  { s with connections := Function.update s.connections conn record }

def runInLoopThread (s : TcpClient) (thread : Thread) (handle : Nat) (request : Request) :
    TcpClient :=
  s.setHandle handle ((s.handles handle).runInLoopThread thread request true)

/-! ### Connections -/

/-- What ~TcpConnection asks of the handle. -/
def Connection.lastRequest (conn : Connection) : Request :=
  if conn.state = .closeWait then .shutdown true else .close

/-- ~TcpConnection. -/
def destroyConnection (s : TcpClient) (conn : Nat) (thread : Thread) : TcpClient :=
  let record := s.connections conn
  (s.setConnection conn { record with state := .closed, destroyed := true }).runInLoopThread
    thread record.client record.lastRequest

def held (s : TcpClient) (conn : Nat) : Bool :=
  s.connectionPtr == some conn || s.frame.any fun reading => reading.conn == conn

/-- The last reference takes the connection with it. -/
def settle (s : TcpClient) (conn : Nat) (thread : Thread) : TcpClient :=
  if s.held conn then s else s.destroyConnection conn thread

/-- The release of what a pointer held before. -/
def release (s : TcpClient) (old : Option Nat) (thread : Thread) : TcpClient :=
  match old with
  | some conn => s.settle conn thread
  | none => s

/-- TcpConnection::shutdown. -/
def shutdown (s : TcpClient) (conn : Nat) (thread : Thread) : TcpClient :=
  let record := s.connections conn
  if record.state = .connected then
    (s.setConnection conn { record with state := .finWait }).runInLoopThread thread record.client
      (.shutdown false)
  else s

/-- data.first.lock() -/
def lock (s : TcpClient) (handle : Nat) : Option Nat :=
  (s.data handle).filter fun conn => !(s.connections conn).destroyed

/-- TcpConnection::readCallback up to the user's callback; `finish` is the rest. -/
def readCallback (s : TcpClient) (stream : Nat) (nread : Nread) : TcpClient :=
  match s.lock stream with
  | none => s.fail .assertion
  | some conn =>
      match nread with
      | .eof =>
          let record := s.connections conn
          if record.state = .closed ∨ record.state = .closeWait then s.fail .assertion
          else
            { s.setConnection conn
                { record with state := if record.state = .connected then .closeWait else .closed }
              with frame := some { stream := stream, conn := conn, ended := true } }
      | .data => { s with frame := some { stream := stream, conn := conn, ended := false } }
      | .error => s.setHandle stream (s.handles stream).readStop

def finish (s : TcpClient) (reading : Reading) : TcpClient :=
  let s₁ :=
    if reading.ended then s.setHandle reading.stream (s.handles reading.stream).readStop else s
  { s₁ with frame := none }.settle reading.conn .loop

def shutdownCallback (s : TcpClient) (handle : Nat) (client : Bool) : TcpClient :=
  if client then s.setHandle handle (s.handles handle).close else s

/-! ### Attempts -/

/-- libuv may refuse the attempt, and then never reports it. -/
def uvTcpConnect (s : TcpClient) (handle : Nat) (ret : Bool) : TcpClient :=
  { s with connecting := if ret then s.connecting ++ [handle] else s.connecting }

def connectImpl (s : TcpClient) (thread : Thread) (ret : Bool) : TcpClient :=
  let s₁ :=
    { s with
      client := some s.created
      created := s.created + 1 }
  match thread with
  | .loop => s₁.uvTcpConnect s.created ret
  | .user => { s₁ with posted := s₁.posted ++ [s.created] }

def connect (s : TcpClient) (thread : Thread) (ret : Bool) : TcpClient :=
  { s with curr := 0 }.connectImpl thread ret

/-- connectionPtr_ = make_shared<TcpConnection>(...), and the data of the handle. -/
def makeShared (s : TcpClient) (client : Nat) : TcpClient :=
  let s₁ :=
    { s.setConnection s.made { client := client, state := .connected, destroyed := false } with
      connectionPtr := some s.made
      made := s.made + 1 }.release s.connectionPtr .loop
  { s₁ with data := Function.update s₁.data client (some s.made) }

/-- ++curr_ <= retryNum_ starts a timer. -/
def retry (s : TcpClient) : TcpClient :=
  { s with
    curr := s.curr + 1
    timers := if s.curr + 1 ≤ s.retryNum then s.timers + 1 else s.timers }

/-- `status` is whether the attempt succeeds, `ret` whether uv_read_start then does.  The
handle is the one that client_ names now. -/
def connectionCallback (s : TcpClient) (status ret : Bool) : TcpClient :=
  if s.alive then
    match s.client with
    | none => s.fail .nullPointer
    | some client =>
        if status then
          if ret then
            (s.setHandle client (s.handles client).readStart).makeShared client
          else s.fail .closedClient
        else (s.setHandle client (s.handles client).close).retry
  else s.fail .destroyedClient

/-- The closure of the retry timer. -/
def timerCallback (s : TcpClient) (ret : Bool) : TcpClient :=
  if s.alive then s.connectImpl .loop ret else s.fail .destroyedClient

/-! ### The destructor -/

/-- The end of ~TcpClient, which destroys connectionPtr_. -/
def releaseMembers (s : TcpClient) (thread : Thread) : TcpClient :=
  { s with connectionPtr := none }.release s.connectionPtr thread

/-- ~TcpClient.  The loop handles nothing before its end on the loop thread; on another
thread the members are released later. -/
def destructor (s : TcpClient) (thread : Thread) : TcpClient :=
  let s₁ := { s with alive := false }
  match s.connectionPtr with
  | none => s₁.fail .nullPointer
  | some conn =>
      match thread with
      | .loop => (s₁.shutdown conn .loop).releaseMembers .loop
      | .user => s₁.shutdown conn .user

/-! ### Runs -/

inductive Event where
  | connect (thread : Thread) (ret : Bool)
  | setRetryNum (num : Nat)
  | start (handle : Nat) (ret : Bool)
  | complete (handle : Nat) (status ret : Bool)
  | timer (ret : Bool)
  | read (handle : Nat) (nread : Nread)
  | finish
  | run (handle : Nat)
  | shutDown (handle : Nat)
  | release
deriving DecidableEq

/-- One step; `none` when the event cannot happen.  Nothing is defined after a fault, and
the loop takes up nothing while it is in a callback. -/
def step (s : TcpClient) (event : Event) : Option TcpClient :=
  if s.fault.isSome then none
  else
    match event with
    | .connect thread ret => if s.alive then some (s.connect thread ret) else none
    | .setRetryNum num => if s.alive then some { s with retryNum := num } else none
    | .start handle ret =>
        if s.frame = none ∧ handle ∈ s.posted then
          some ({ s with posted := s.posted.erase handle }.uvTcpConnect handle ret)
        else none
    | .complete handle status ret =>
        if s.frame = none ∧ handle ∈ s.connecting then
          some ({ s with connecting := s.connecting.erase handle }.connectionCallback status ret)
        else none
    | .timer ret =>
        if s.frame = none ∧ 0 < s.timers then
          some ({ s with timers := s.timers - 1 }.timerCallback ret)
        else none
    | .read handle nread =>
        if s.frame = none ∧ (s.handles handle).active = true then
          some (s.readCallback handle nread)
        else none
    | .finish => s.frame.map s.finish
    | .run handle =>
        match s.frame, (s.handles handle).posted with
        | none, request :: rest =>
            some (s.setHandle handle
              ({ s.handles handle with posted := rest }.execute request true))
        | _, _ => none
    | .shutDown handle =>
        match s.frame, (s.handles handle).shutdowns with
        | none, client :: rest =>
            some ((s.setHandle handle { s.handles handle with shutdowns := rest }).shutdownCallback
              handle client)
        | _, _ => none
    | .release =>
        if s.alive = false ∧ s.connectionPtr.isSome = true then some (s.releaseMembers .user)
        else none

/-- After the constructor. -/
def start : TcpClient :=
  { alive := true
    client := none
    connectionPtr := none
    retryNum := 3
    curr := 0
    created := 0
    handles := fun _ => .init
    data := fun _ => none
    made := 0
    connections := fun _ => { client := 0, state := .closed, destroyed := true }
    posted := []
    connecting := []
    timers := 0
    frame := none
    fault := none }

def system : Transition.System TcpClient Event :=
  Transition.System.executed (fun s => s = start) step

end TcpClient

end Uvcpp
