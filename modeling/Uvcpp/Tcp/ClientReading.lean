/-
The handles that a TcpClient reads.

As long as the client exists only the handle of its connection is read, because a
connection that is replaced goes on the loop thread and closes its handle at once.
-/

import Uvcpp.Tcp.ClientMoves

namespace Uvcpp

/-! ### Handles that are read -/

namespace UvTcp

theorem active_execute (h : UvTcp) (request : Request) (ret : Bool)
    (active : (h.execute request ret).active = true) : h.active = true := by
  cases request <;> simp_all [execute, write, shutdown, close, UvTcp.active]

theorem active_runInLoopThread (h : UvTcp) (thread : Thread) (request : Request) (ret : Bool)
    (active : (h.runInLoopThread thread request ret).active = true) : h.active = true := by
  cases thread with
  | loop => exact active_execute h request ret active
  | user => exact active

@[simp] theorem active_close (h : UvTcp) : h.close.active = false := by
  simp [close, active]

@[simp] theorem active_readStop (h : UvTcp) : h.readStop.active = false := by
  simp [readStop, active]

end UvTcp

namespace TcpClient

/-- Nothing but a new attempt makes a handle active. -/
theorem active_setHandle {s : TcpClient} {handle other : Nat} {h : UvTcp}
    (less : h.active = true → (s.handles handle).active = true)
    (active : ((s.setHandle handle h).handles other).active = true) :
    (s.handles other).active = true := by
  by_cases same : other = handle
  · subst same
    apply less
    rwa [setHandle_self] at active
  · rwa [setHandle_of_ne s handle h same] at active

/-- A handle that is still read after another was stopped. -/
theorem active_stopped {s : TcpClient} {stream handle : Nat}
    (active : ((s.setHandle stream (s.handles stream).readStop).handles handle).active = true) :
    handle ≠ stream ∧ (s.handles handle).active = true := by
  by_cases same : handle = stream
  · subst same
    simp at active
  · rw [setHandle_of_ne s stream _ same] at active
    exact ⟨same, active⟩

theorem active_settle {s : TcpClient} {conn handle : Nat} {thread : Thread}
    (active : ((s.settle conn thread).handles handle).active = true) :
    (s.handles handle).active = true := by
  rcases settle_cases s conn thread with ⟨_held, same⟩ | ⟨_unheld, same⟩
  · rw [same] at active
    exact active
  · rw [same] at active
    exact active_setHandle
      (s := s.setConnection conn
        { s.connections conn with state := .closed, destroyed := true })
      (UvTcp.active_runInLoopThread _ thread _ true) active

theorem active_release {s : TcpClient} {old : Option Nat} {handle : Nat} {thread : Thread}
    (active : ((s.release old thread).handles handle).active = true) :
    (s.handles handle).active = true := by
  cases old with
  | none => exact active
  | some conn => exact active_settle active

theorem active_shutdown {s : TcpClient} {conn handle : Nat} {thread : Thread}
    (active : ((s.shutdown conn thread).handles handle).active = true) :
    (s.handles handle).active = true := by
  unfold shutdown at active
  dsimp only at active
  split_ifs at active
  · exact active_setHandle
      (s := s.setConnection conn { s.connections conn with state := .finWait })
      (UvTcp.active_runInLoopThread _ thread _ true) active
  · exact active

/-- A connection that goes on the loop thread takes its handle with it, unless its EOF has
been read. -/
theorem settle_inactive {s : TcpClient} {conn : Nat} (unheld : s.held conn = false)
    (state : (s.connections conn).state ≠ .closeWait) :
    ((s.settle conn .loop).handles (s.connections conn).client).active = false := by
  have last : (s.connections conn).lastRequest = .close := if_neg state
  have destroyed : s.settle conn .loop = s.destroyConnection conn .loop := by
    simp [settle, unheld]
  rw [destroyed, destroyConnection_own, last]
  exact UvTcp.active_close _

/-! ### A client in use -/

/-- Only the handle of the client's connection is read, and after its EOF only up to the
end of the callback. -/
structure Live (s : TcpClient) : Prop where
  made : ∀ conn, s.connectionPtr = some conn → conn < s.made
  running : ∀ reading, s.frame = some reading →
    s.connectionPtr = some reading.conn ∧ (s.connections reading.conn).client = reading.stream ∧
      (reading.ended = false → (s.connections reading.conn).state = .connected)
  active : ∀ handle, (s.handles handle).active = true →
    ∃ conn, s.connectionPtr = some conn ∧ s.data handle = some conn ∧
      (s.connections conn).client = handle ∧
      ((s.connections conn).state = .connected ∨
        ∃ reading, s.frame = some reading ∧ reading.ended = true)

theorem start_live : Live start := by
  constructor <;> simp [start, UvTcp.active, UvTcp.init]

/-- A request makes no handle active. -/
theorem Live.asks {s : TcpClient} (live : Live s) {handle : Nat} {h : UvTcp}
    (less : h.active = true → (s.handles handle).active = true) :
    Live (s.setHandle handle h) := by
  constructor
  · exact live.made
  · exact live.running
  · intro other active
    exact live.active other (active_setHandle less active)

theorem Live.connectImpl {s : TcpClient} (live : Live s) (thread : Thread) (ret : Bool) :
    Live (s.connectImpl thread ret) := by
  cases thread with
  | loop => exact { live with }
  | user => exact { live with }

/-- The connection that is replaced closes the handle that was read. -/
theorem Live.makeShared {s : TcpClient} {client : Nat} (idle : s.frame = none)
    (made : ∀ conn, s.connectionPtr = some conn → conn < s.made)
    (active : ∀ handle, handle ≠ client → (s.handles handle).active = true →
      ∃ conn, s.connectionPtr = some conn ∧ (s.connections conn).client = handle ∧
        (s.connections conn).state = .connected) : Live (s.makeShared client) := by
  have replaced := makeShared_replaced client made
  have kept : (s.makeShared client).frame = none ∧ (s.makeShared client).made = s.made + 1 := by
    obtain ⟨handles, connections, same⟩ :=
      release_eq (s.newConnection client) s.connectionPtr .loop
    rw [makeShared_eq, same]
    exact ⟨idle, rfl⟩
  constructor
  · intro conn pointed
    rw [replaced.pointer] at pointed
    cases pointed
    rw [kept.2]
    exact Nat.lt_succ_self _
  · intro reading running
    rw [kept.1] at running
    cases running
  · intro handle reads
    by_cases own : handle = client
    · subst own
      refine ⟨s.made, replaced.pointer, ?_, ?_, .inl ?_⟩
      · rw [replaced.data, Function.update_self]
      · rw [replaced.connection]
      · rw [replaced.connection]
    · rw [makeShared_eq] at reads
      have before : (s.handles handle).active = true :=
        active_release (s := s.newConnection client) reads
      obtain ⟨conn, was, owns, connected⟩ := active handle own before
      have below := made conn was
      have older := newConnection_older client below
      have unheld : (s.newConnection client).held conn = false := by
        simp [held, newConnection, setConnection, idle, Nat.ne_of_gt below]
      have gone := settle_inactive unheld (by rw [older, connected]; decide)
      rw [older, owns] at gone
      have still : (((s.newConnection client).settle conn .loop).handles handle).active = true := by
        rw [was] at reads
        exact reads
      rw [gone] at still
      cases still

theorem Live.connectionCallback {s : TcpClient} (live : Live s) (alive : s.alive = true)
    (idle : s.frame = none) (status ret : Bool) : Live (s.connectionCallback status ret) := by
  have reads : ∀ handle, (s.handles handle).active = true →
      ∃ conn, s.connectionPtr = some conn ∧ (s.connections conn).client = handle ∧
        (s.connections conn).state = .connected := by
    intro handle active
    obtain ⟨conn, pointed, _data, owns, connected | ⟨reading, running, _ended⟩⟩ :=
      live.active handle active
    · exact ⟨conn, pointed, owns, connected⟩
    · rw [idle] at running
      cases running
  cases named : s.client with
  | none =>
      simp only [TcpClient.connectionCallback, alive, named, if_true]
      exact { live with }
  | some client =>
      rw [connectionCallback_eq alive named]
      cases status with
      | false =>
          have closed : Live (s.setHandle client (s.handles client).close) := live.asks (by simp)
          exact { closed with }
      | true =>
          cases ret with
          | false => exact { live with }
          | true =>
              show Live ((s.setHandle client (s.handles client).readStart).makeShared client)
              apply Live.makeShared
              · exact idle
              · exact live.made
              intro handle apart active
              rw [setHandle_of_ne s client _ apart] at active
              exact reads handle active

theorem Live.finish {s : TcpClient} (live : Live s) {reading : Reading}
    (running : s.frame = some reading) : Live (s.finish reading) := by
  obtain ⟨pointed, owns, connected⟩ := live.running reading running
  have held : ∀ handles : Nat → UvTcp,
      { s with handles := handles, frame := none }.held reading.conn = true :=
    fun handles => held_eq_true.mpr (.inl pointed)
  cases ended : reading.ended with
  | false =>
      have same : s.finish reading = { s with frame := none } := by
        simp [TcpClient.finish, settle, ended, held s.handles]
      rw [same]
      constructor
      · exact live.made
      · intro other absent
        cases absent
      · intro handle active
        obtain ⟨conn, pointer, data, theirs, _state⟩ := live.active handle active
        have only : conn = reading.conn := Option.some.inj (pointer.symm.trans pointed)
        exact ⟨conn, pointer, data, theirs, .inl (by rw [only]; exact connected ended)⟩
  | true =>
      have same : s.finish reading =
          { s.setHandle reading.stream (s.handles reading.stream).readStop with
            frame := none } := by
        simp [TcpClient.finish, settle, setHandle, ended, held]
      rw [same]
      constructor
      · exact live.made
      · intro other absent
        cases absent
      · intro handle active
        obtain ⟨apart, before⟩ := active_stopped active
        obtain ⟨conn, pointer, _data, theirs, _state⟩ := live.active handle before
        have only : conn = reading.conn := Option.some.inj (pointer.symm.trans pointed)
        rw [only, owns] at theirs
        exact absurd theirs.symm apart

theorem Live.step {s s' : TcpClient} {event : Event} (live : Live s) (alive : s.alive = true)
    (effect : Effect s event s') : Live s' := by
  cases effect with
  | connects alive => exact Live.connectImpl (s := { s with curr := 0 }) { live with } _ _
  | sets alive => exact { live with }
  | starts idle member => exact { live with }
  | @completes handle status ret idle member =>
      exact Live.connectionCallback (s := { s with connecting := s.connecting.erase handle })
        { live with } alive idle status ret
  | fires idle running =>
      unfold timerCallback
      split_ifs
      · exact Live.connectImpl (s := { s with timers := s.timers - 1 }) { live with } _ _
      · exact { live with }
  | misses idle active gone => exact { live with }
  | repeats idle active locked finished => exact { live with }
  | @ends handle conn idle active locked =>
      obtain ⟨conn', pointed, data, owns, _state⟩ := live.active handle active
      cases Option.some.inj ((lock_eq_some.mp locked).1.symm.trans data)
      constructor
      · exact live.made
      · intro reading running
        cases running
        refine ⟨pointed, ?_, fun still => by cases still⟩
        simpa [setConnection] using owns
      · intro other reads
        obtain ⟨theirs, pointer, points, client, _state⟩ := live.active other reads
        cases Option.some.inj (pointer.symm.trans pointed)
        refine ⟨conn, pointer, points, ?_, .inr ⟨_, rfl, rfl⟩⟩
        simpa [setConnection] using client
  | @reads handle conn idle active locked =>
      have state : ∀ other, (s.handles other).active = true →
          ∃ theirs, s.connectionPtr = some theirs ∧ s.data other = some theirs ∧
            (s.connections theirs).client = other ∧
              (s.connections theirs).state = .connected := by
        intro other reads
        obtain ⟨theirs, pointer, points, client, connected | ⟨reading, running, _ended⟩⟩ :=
          live.active other reads
        · exact ⟨theirs, pointer, points, client, connected⟩
        · rw [idle] at running
          cases running
      obtain ⟨conn', pointed, data, owns, connected⟩ := state handle active
      cases Option.some.inj ((lock_eq_some.mp locked).1.symm.trans data)
      constructor
      · exact live.made
      · intro reading running
        cases running
        exact ⟨pointed, owns, fun _ => connected⟩
      · intro other reads
        obtain ⟨theirs, pointer, points, client, still⟩ := state other reads
        exact ⟨theirs, pointer, points, client, .inl still⟩
  | errors idle active => exact live.asks (by simp)
  | finishes running => exact live.finish running
  | runs idle next => exact live.asks (UvTcp.active_execute _ _ true)
  | @shutDowns handle client rest idle next =>
      have shorter : Live (s.setHandle handle { s.handles handle with shutdowns := rest }) :=
        live.asks id
      cases client with
      | false => exact shorter
      | true => exact shorter.asks (by simp)
  | releases gone kept =>
      rw [alive] at gone
      cases gone

theorem reachable_live {s : TcpClient} (reachable : Transition.Reachable system s) : Live s := by
  induction reachable with
  | start begins =>
      cases begins
      exact start_live
  | next before taken ih =>
      exact ih.step (reachable_alive before) (step_effect taken).2

end TcpClient

end Uvcpp
