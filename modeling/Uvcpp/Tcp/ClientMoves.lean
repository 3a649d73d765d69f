/-
The steps of a TcpClient.
-/

import Mathlib.Data.Bool.Basic
import Uvcpp.Tcp.TcpClient

namespace Uvcpp.TcpClient

/-! ### Fields -/

section Fields

variable (s : TcpClient) (handle conn : Nat) (h : UvTcp) (thread : Thread)

@[simp] theorem setHandle_self : (s.setHandle handle h).handles handle = h := by
  simp [setHandle]

theorem setHandle_of_ne {other : Nat} (apart : other ≠ handle) :
    (s.setHandle handle h).handles other = s.handles other := by
  simp [setHandle, apart]

theorem destroyConnection_own :
    (s.destroyConnection conn thread).handles (s.connections conn).client =
      (s.handles (s.connections conn).client).runInLoopThread thread
        (s.connections conn).lastRequest true := by
  simp [destroyConnection, runInLoopThread, setHandle, setConnection]

theorem destroyConnection_of_ne {other : Nat} (apart : other ≠ (s.connections conn).client) :
    (s.destroyConnection conn thread).handles other = s.handles other := by
  simp [destroyConnection, runInLoopThread, setHandle, setConnection, apart]

theorem destroyConnection_connections (other : Nat) :
    (s.destroyConnection conn thread).connections other =
      if other = conn then { s.connections conn with state := .closed, destroyed := true }
      else s.connections other := by
  by_cases same : other = conn
  · subst same
    simp [destroyConnection, runInLoopThread, setHandle, setConnection]
  · simp [destroyConnection, runInLoopThread, setHandle, setConnection, same]

end Fields

/-! ### Effects -/

/-- Everything a step can do. -/
inductive Effect (s : TcpClient) : Event → TcpClient → Prop where
  | connects {thread : Thread} {ret : Bool} (alive : s.alive = true) :
      Effect s (.connect thread ret) (s.connect thread ret)
  | sets {num : Nat} (alive : s.alive = true) :
      Effect s (.setRetryNum num) { s with retryNum := num }
  | starts {handle : Nat} {ret : Bool} (idle : s.frame = none) (member : handle ∈ s.posted) :
      Effect s (.start handle ret)
        ({ s with posted := s.posted.erase handle }.uvTcpConnect handle ret)
  | completes {handle : Nat} {status ret : Bool} (idle : s.frame = none)
      (member : handle ∈ s.connecting) :
      Effect s (.complete handle status ret)
        ({ s with connecting := s.connecting.erase handle }.connectionCallback status ret)
  | fires {ret : Bool} (idle : s.frame = none) (running : 0 < s.timers) :
      Effect s (.timer ret) ({ s with timers := s.timers - 1 }.timerCallback ret)
  | misses {handle : Nat} {nread : Nread} (idle : s.frame = none)
      (active : (s.handles handle).active = true) (gone : s.lock handle = none) :
      Effect s (.read handle nread) (s.fail .assertion)
  | repeats {handle conn : Nat} (idle : s.frame = none)
      (active : (s.handles handle).active = true) (locked : s.lock handle = some conn)
      (finished : (s.connections conn).state = .closed ∨ (s.connections conn).state = .closeWait) :
      Effect s (.read handle .eof) (s.fail .assertion)
  | ends {handle conn : Nat} (idle : s.frame = none)
      (active : (s.handles handle).active = true) (locked : s.lock handle = some conn) :
      Effect s (.read handle .eof)
        { s.setConnection conn
            { s.connections conn with
              state := if (s.connections conn).state = .connected then .closeWait else .closed }
          with frame := some { stream := handle, conn := conn, ended := true } }
  | reads {handle conn : Nat} (idle : s.frame = none)
      (active : (s.handles handle).active = true) (locked : s.lock handle = some conn) :
      Effect s (.read handle .data)
        { s with frame := some { stream := handle, conn := conn, ended := false } }
  | errors {handle : Nat} (idle : s.frame = none)
      (active : (s.handles handle).active = true) :
      Effect s (.read handle .error) (s.setHandle handle (s.handles handle).readStop)
  | finishes {reading : Reading} (running : s.frame = some reading) :
      Effect s .finish (s.finish reading)
  | runs {handle : Nat} {request : Request} {rest : List Request} (idle : s.frame = none)
      (next : (s.handles handle).posted = request :: rest) :
      Effect s (.run handle)
        (s.setHandle handle ({ s.handles handle with posted := rest }.execute request true))
  | shutDowns {handle : Nat} {client : Bool} {rest : List Bool} (idle : s.frame = none)
      (next : (s.handles handle).shutdowns = client :: rest) :
      Effect s (.shutDown handle)
        ((s.setHandle handle { s.handles handle with shutdowns := rest }).shutdownCallback handle
          client)
  | releases (gone : s.alive = false) (kept : s.connectionPtr.isSome = true) :
      Effect s .release (s.releaseMembers .user)

theorem step_effect {s s' : TcpClient} {event : Event} (taken : step s event = some s') :
    s.fault = none ∧ Effect s event s' := by
  unfold step at taken
  split at taken
  · cases taken
  · have sound : s.fault = none := by simpa using ‹¬ s.fault.isSome = true›
    refine ⟨sound, ?_⟩
    cases event
    all_goals dsimp only at taken
    case connect thread ret =>
      split at taken
      · cases taken
        exact .connects ‹_›
      · cases taken
    case setRetryNum num =>
      split at taken
      · cases taken
        exact .sets ‹_›
      · cases taken
    case start handle ret =>
      split at taken
      · obtain ⟨idle, member⟩ := ‹s.frame = none ∧ handle ∈ s.posted›
        cases taken
        exact .starts idle member
      · cases taken
    case complete handle status ret =>
      split at taken
      · obtain ⟨idle, member⟩ := ‹s.frame = none ∧ handle ∈ s.connecting›
        cases taken
        exact .completes idle member
      · cases taken
    case timer ret =>
      split at taken
      · obtain ⟨idle, running⟩ := ‹s.frame = none ∧ 0 < s.timers›
        cases taken
        exact .fires idle running
      · cases taken
    case read handle nread =>
      split at taken
      · obtain ⟨idle, active⟩ := ‹s.frame = none ∧ (s.handles handle).active = true›
        cases taken
        unfold readCallback
        split
        · exact .misses idle active ‹_›
        · cases nread
          all_goals dsimp only
          case data => exact .reads idle active ‹_›
          case error => exact .errors idle active
          case eof =>
            split
            · exact .repeats idle active ‹_› ‹_›
            · exact .ends idle active ‹_›
      · cases taken
    case finish =>
      obtain ⟨reading, running, same⟩ := Option.map_eq_some_iff.mp taken
      cases same
      exact .finishes running
    case run handle =>
      split at taken
      · cases taken
        exact .runs ‹_› ‹_›
      · cases taken
    case shutDown handle =>
      split at taken
      · cases taken
        exact .shutDowns ‹_› ‹_›
      · cases taken
    case release =>
      split at taken
      · obtain ⟨gone, kept⟩ := ‹s.alive = false ∧ s.connectionPtr.isSome = true›
        cases taken
        exact .releases gone kept
      · cases taken

/-- ~TcpConnection runs when nothing holds the connection. -/
theorem settle_cases (s : TcpClient) (conn : Nat) (thread : Thread) :
    (s.held conn = true ∧ s.settle conn thread = s) ∨
      (s.held conn = false ∧ s.settle conn thread = s.destroyConnection conn thread) := by
  unfold settle
  cases held : s.held conn
  · exact .inr ⟨rfl, rfl⟩
  · exact .inl ⟨rfl, rfl⟩

theorem release_cases (s : TcpClient) (old : Option Nat) (thread : Thread) :
    s.release old thread = s ∨
      ∃ conn, old = some conn ∧ s.held conn = false ∧
        s.release old thread = s.destroyConnection conn thread := by
  cases old with
  | none => exact .inl rfl
  | some conn =>
      rcases settle_cases s conn thread with ⟨_held, same⟩ | ⟨unheld, same⟩
      · exact .inl same
      · exact .inr ⟨conn, rfl, unheld, same⟩

theorem held_eq_true {s : TcpClient} {conn : Nat} :
    s.held conn = true ↔
      s.connectionPtr = some conn ∨ ∃ reading, s.frame = some reading ∧ reading.conn = conn := by
  simp [held, Option.any_eq_true]

theorem connectionCallback_eq {s : TcpClient} {client : Nat} (alive : s.alive = true)
    (named : s.client = some client) (status ret : Bool) :
    s.connectionCallback status ret =
      if status then
        if ret then (s.setHandle client (s.handles client).readStart).makeShared client
        else s.fail .closedClient
      else (s.setHandle client (s.handles client).close).retry := by
  simp [connectionCallback, alive, named]

theorem lock_eq_some {s : TcpClient} {handle conn : Nat} :
    s.lock handle = some conn ↔
      s.data handle = some conn ∧ (s.connections conn).destroyed = false := by
  simp [lock, Option.filter_eq_some_iff]

/-! ### What stays -/

theorem release_eq (s : TcpClient) (old : Option Nat) (thread : Thread) :
    ∃ handles connections,
      s.release old thread = { s with handles := handles, connections := connections } := by
  rcases release_cases s old thread with same | ⟨conn, _was, _unheld, same⟩
  · exact ⟨_, _, same⟩
  · exact ⟨_, _, same⟩

theorem shutdown_eq (s : TcpClient) (conn : Nat) (thread : Thread) :
    ∃ handles connections,
      s.shutdown conn thread = { s with handles := handles, connections := connections } := by
  unfold shutdown
  dsimp only
  split_ifs <;> exact ⟨_, _, rfl⟩

theorem finish_eq (s : TcpClient) (reading : Reading) :
    ∃ handles connections,
      s.finish reading =
        { s with handles := handles, connections := connections, frame := none } := by
  unfold finish
  split_ifs
  · obtain ⟨handles, connections, same⟩ := release_eq
      { s.setHandle reading.stream (s.handles reading.stream).readStop with frame := none }
      (some reading.conn) .loop
    exact ⟨handles, connections, same⟩
  · obtain ⟨handles, connections, same⟩ := release_eq { s with frame := none }
      (some reading.conn) .loop
    exact ⟨handles, connections, same⟩

theorem destructor_loop {s : TcpClient} {conn : Nat} (pointed : s.connectionPtr = some conn) :
    s.destructor .loop = ({ s with alive := false }.shutdown conn .loop).releaseMembers .loop := by
  cases s
  cases pointed
  rfl

theorem destructor_user {s : TcpClient} {conn : Nat} (pointed : s.connectionPtr = some conn) :
    s.destructor .user = { s with alive := false }.shutdown conn .user := by
  cases s
  cases pointed
  rfl

theorem destructor_eq {s : TcpClient} {conn : Nat} (pointed : s.connectionPtr = some conn)
    (thread : Thread) :
    ∃ pointer handles connections,
      s.destructor thread =
        { s with
          alive := false
          connectionPtr := pointer
          handles := handles
          connections := connections } := by
  cases thread with
  | loop =>
      obtain ⟨handles, connections, shut⟩ := shutdown_eq { s with alive := false } conn .loop
      obtain ⟨handles', connections', released⟩ := release_eq
        { s with
          alive := false
          connectionPtr := none
          handles := handles
          connections := connections } s.connectionPtr .loop
      refine ⟨none, handles', connections', ?_⟩
      rw [destructor_loop pointed, shut]
      exact released
  | user =>
      obtain ⟨handles, connections, shut⟩ := shutdown_eq { s with alive := false } conn .user
      exact ⟨s.connectionPtr, handles, connections, (destructor_user pointed).trans shut⟩

theorem connectImpl_alive (s : TcpClient) (thread : Thread) (ret : Bool) :
    (s.connectImpl thread ret).alive = s.alive := by
  cases thread <;> rfl

theorem release_alive (s : TcpClient) (old : Option Nat) (thread : Thread) :
    (s.release old thread).alive = s.alive := by
  obtain ⟨handles, connections, same⟩ := release_eq s old thread
  rw [same]

theorem connectionCallback_alive (s : TcpClient) (status ret : Bool) :
    (s.connectionCallback status ret).alive = s.alive := by
  unfold connectionCallback
  split
  · split
    · rfl
    · split_ifs
      · exact release_alive _ _ _
      · rfl
      · rfl
  · rfl

/-- Only the destructor ends the client. -/
theorem step_alive {s s' : TcpClient} {event : Event} (effect : Effect s event s') :
    s'.alive = s.alive := by
  cases effect with
  | connects alive => exact connectImpl_alive _ _ _
  | completes idle member => exact connectionCallback_alive _ _ _
  | fires idle running =>
      unfold timerCallback
      split_ifs
      · exact connectImpl_alive _ _ _
      · rfl
  | @finishes reading running =>
      obtain ⟨handles, connections, same⟩ := finish_eq s reading
      rw [same]
  | @shutDowns handle client rest idle next => cases client <;> rfl
  | releases gone kept => exact release_alive _ _ _
  | _ => rfl

theorem reachable_alive {s : TcpClient} (reachable : Transition.Reachable system s) :
    s.alive = true := by
  induction reachable with
  | start begins =>
      cases begins
      rfl
  | next _before taken ih =>
      rw [step_alive (step_effect taken).2]
      exact ih

/-! ### A new connection -/

section NewConnection

variable {s : TcpClient} (client : Nat)

/-- `makeShared` up to the release of the connection that the pointer held before. -/
def newConnection (s : TcpClient) (client : Nat) : TcpClient :=
  { s.setConnection s.made { client := client, state := .connected, destroyed := false } with
    connectionPtr := some s.made
    made := s.made + 1 }

theorem newConnection_new : (s.newConnection client).connections s.made =
    { client := client, state := .connected, destroyed := false } := by
  simp [newConnection, setConnection]

theorem newConnection_older {conn : Nat} (below : conn < s.made) :
    (s.newConnection client).connections conn = s.connections conn := by
  simp [newConnection, setConnection, Nat.ne_of_lt below]

theorem makeShared_eq (s : TcpClient) (client : Nat) :
    s.makeShared client =
      { (s.newConnection client).release s.connectionPtr .loop with
        data := Function.update s.data client (some s.made) } := by
  obtain ⟨handles, connections, same⟩ :=
    release_eq (s.newConnection client) s.connectionPtr .loop
  have unfolded : s.makeShared client =
      { (s.newConnection client).release s.connectionPtr .loop with
        data := Function.update ((s.newConnection client).release s.connectionPtr .loop).data client
          (some s.made) } := rfl
  rw [unfolded, same]
  rfl

/-- What becomes of the pointer, of the new connection and of the handles that the replaced
one does not own. -/
structure Replaced (s s' : TcpClient) (client : Nat) : Prop where
  fault : s'.fault = s.fault
  pointer : s'.connectionPtr = some s.made
  data : s'.data = Function.update s.data client (some s.made)
  connection : s'.connections s.made = { client := client, state := .connected, destroyed := false }
  others : ∀ other, (∀ old, s.connectionPtr = some old → (s.connections old).client ≠ other) →
    s'.handles other = s.handles other

theorem makeShared_replaced (older : ∀ old, s.connectionPtr = some old → old < s.made) :
    Replaced s (s.makeShared client) client := by
  rw [makeShared_eq]
  rcases release_cases (s.newConnection client) s.connectionPtr .loop with
    same | ⟨old, was, _unheld, same⟩
  · rw [same]
    exact ⟨rfl, rfl, rfl, newConnection_new client, fun _ _ => rfl⟩
  · rw [same]
    have below := older old was
    constructor
    · rfl
    · rfl
    · rfl
    · show ((s.newConnection client).destroyConnection old .loop).connections s.made = _
      rw [destroyConnection_connections, if_neg (Nat.ne_of_gt below)]
      exact newConnection_new client
    · intro other unowned
      apply destroyConnection_of_ne (s.newConnection client) old .loop
      rw [newConnection_older client below]
      exact (unowned old was).symm

end NewConnection

end Uvcpp.TcpClient
