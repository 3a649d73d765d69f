/-
The destructor of a TcpClient.

It is safe with a connection, without an attempt or a retry timer left, and on the loop
thread or when the connection is not read any more.
-/

import Uvcpp.Tcp.ClientReading

namespace Uvcpp.TcpClient

/-- Nothing goes wrong in the destructor or in any run after its start. -/
def Safe (s : TcpClient) (thread : Thread) : Prop :=
  ∀ s', Transition.Reachable (system.startingAt (s.destructor thread)) s' → s'.fault = none

/-- Whether the loop may report another read for the connection. -/
def stillRead (s : TcpClient) (conn : Nat) : Bool :=
  (s.handles (s.connections conn).client).active && !s.frame.any Reading.ended

/-- When the destructor may run. -/
structure Destructible (s : TcpClient) (thread : Thread) : Prop where
  sound : s.fault = none
  unposted : s.posted = []
  unconnected : s.connecting = []
  untimed : s.timers = 0
  connected : ∃ conn, s.connectionPtr = some conn ∧
    (thread = .loop ∨ s.stillRead conn = false)

/-! ### Destroyed at a safe point -/

/-- Nothing is left that would use the client, and no handle is read after the callback. -/
structure Settled (s : TcpClient) : Prop where
  sound : s.fault = none
  gone : s.alive = false
  unposted : s.posted = []
  unconnected : s.connecting = []
  untimed : s.timers = 0
  active : ∀ handle, (s.handles handle).active = true →
    ∃ reading, s.frame = some reading ∧ reading.stream = handle ∧
      (reading.ended = true ∨
        (s.connectionPtr = none ∧ (s.connections reading.conn).client = handle ∧
          (s.connections reading.conn).state ≠ .closeWait))

theorem Settled.unread {s : TcpClient} (settled : Settled s) (idle : s.frame = none)
    (handle : Nat) : (s.handles handle).active = false := by
  apply Bool.eq_false_iff.mpr
  intro active
  obtain ⟨reading, running, _⟩ := settled.active handle active
  rw [idle] at running
  cases running

theorem Settled.asks {s : TcpClient} (settled : Settled s) (idle : s.frame = none) {handle : Nat}
    {h : UvTcp} (less : h.active = true → (s.handles handle).active = true) :
    Settled (s.setHandle handle h) := by
  have active : ∀ other, ((s.setHandle handle h).handles other).active ≠ true := by
    intro other active
    have before := active_setHandle less active
    rw [settled.unread idle] at before
    cases before
  exact { settled with active := fun other reads => absurd reads (active other) }

theorem Settled.finish {s : TcpClient} (settled : Settled s) {reading : Reading}
    (running : s.frame = some reading) : Settled (s.finish reading) := by
  have unread : ∀ handle, ((s.finish reading).handles handle).active = false := by
    intro handle
    apply Bool.eq_false_iff.mpr
    intro active
    cases ended : reading.ended with
    | true =>
        simp only [TcpClient.finish, ended, if_true] at active
        obtain ⟨apart, before⟩ := active_stopped (active_settle (s := { s.setHandle reading.stream
          (s.handles reading.stream).readStop with frame := none }) active)
        obtain ⟨other, same, stream, _⟩ := settled.active handle before
        cases Option.some.inj (running.symm.trans same)
        exact apart stream.symm
    | false =>
        simp only [TcpClient.finish, ended, Bool.false_eq_true, if_false] at active
        have before : (s.handles handle).active = true :=
          active_settle (s := { s with frame := none }) active
        obtain ⟨other, same, _stream, late | ⟨released, owns, state⟩⟩ :=
          settled.active handle before
        · cases Option.some.inj (running.symm.trans same)
          rw [ended] at late
          cases late
        · cases Option.some.inj (running.symm.trans same)
          have unheld : { s with frame := none }.held reading.conn = false := by
            simp [held, released]
          have closed := settle_inactive unheld state
          rw [owns] at closed
          rw [closed] at active
          cases active
  obtain ⟨handles, connections, same⟩ := finish_eq s reading
  rw [same] at unread ⊢
  refine ⟨settled.sound, settled.gone, settled.unposted, settled.unconnected, settled.untimed, ?_⟩
  intro handle active
  rw [unread handle] at active
  cases active

theorem Settled.step {s s' : TcpClient} {event : Event} (settled : Settled s)
    (effect : Effect s event s') : Settled s' := by
  cases effect with
  | connects alive | sets alive =>
      rw [settled.gone] at alive
      cases alive
  | starts idle member =>
      rw [settled.unposted] at member
      cases member
  | completes idle member =>
      rw [settled.unconnected] at member
      cases member
  | fires idle running =>
      rw [settled.untimed] at running
      cases running
  | misses idle active | repeats idle active | ends idle active | reads idle active
  | errors idle active =>
      rw [settled.unread idle] at active
      cases active
  | finishes running => exact settled.finish running
  | runs idle next => exact settled.asks idle (UvTcp.active_execute _ _ true)
  | @shutDowns handle client rest idle next =>
      have shorter : Settled (s.setHandle handle { s.handles handle with shutdowns := rest }) :=
        settled.asks idle id
      cases client with
      | false => exact shorter
      | true => exact shorter.asks idle (by simp)
  | releases gone kept =>
      have active : ∀ handle, ((s.releaseMembers .user).handles handle).active = true →
          ∃ reading, s.frame = some reading ∧ reading.stream = handle ∧ reading.ended = true := by
        intro handle active
        have before := active_release (s := { s with connectionPtr := none }) active
        obtain ⟨reading, running, stream, late | ⟨released, _⟩⟩ := settled.active handle before
        · exact ⟨reading, running, stream, late⟩
        · rw [released] at kept
          cases kept
      obtain ⟨handles, connections, same⟩ :=
        release_eq { s with connectionPtr := none } s.connectionPtr .user
      rw [show s.releaseMembers .user = _ from same] at active ⊢
      refine ⟨settled.sound, settled.gone, settled.unposted, settled.unconnected,
        settled.untimed, ?_⟩
      intro handle reads
      obtain ⟨reading, running, stream, late⟩ := active handle reads
      exact ⟨reading, running, stream, .inl late⟩

theorem shutdown_connection (s : TcpClient) (conn : Nat) (thread : Thread) :
    (s.shutdown conn thread).connections conn =
      { s.connections conn with
        state := if (s.connections conn).state = .connected then .finWait
          else (s.connections conn).state } := by
  unfold shutdown
  dsimp only
  split_ifs with connected
  · simp [runInLoopThread, setHandle, setConnection]
  · rfl

/-- On the loop thread the connection's handle is closed at once or at the end of the
callback. -/
theorem destructor_closes {s : TcpClient} {conn handle : Nat} (live : Live s)
    (pointed : s.connectionPtr = some conn)
    (active : ((s.destructor .loop).handles handle).active = true) :
    ∃ reading, s.frame = some reading ∧ reading.stream = handle ∧
      (reading.ended = true ∨
        ((s.destructor .loop).connectionPtr = none ∧
          ((s.destructor .loop).connections reading.conn).client = handle ∧
          ((s.destructor .loop).connections reading.conn).state ≠ .closeWait)) := by
  obtain ⟨t, shut⟩ : ∃ t, { s with alive := false }.shutdown conn .loop = t := ⟨_, rfl⟩
  have kept : t.frame = s.frame ∧ t.connectionPtr = some conn := by
    obtain ⟨handles, connections, same⟩ := shutdown_eq { s with alive := false } conn .loop
    rw [← shut, same]
    exact ⟨rfl, pointed⟩
  have connection := shutdown_connection { s with alive := false } conn .loop
  rw [shut] at connection
  have leaves : (s.connections conn).state = .connected →
      (t.connections conn).state ≠ .closeWait := by
    intro connected
    rw [connection, if_pos connected]
    simp
  have released : s.destructor .loop = { t with connectionPtr := none }.settle conn .loop := by
    rw [destructor_loop pointed, shut, releaseMembers, kept.2]
    rfl
  have before : (s.handles handle).active = true := by
    rw [released] at active
    have during := active_settle (s := { t with connectionPtr := none }) active
    rw [← shut] at during
    exact active_shutdown (s := { s with alive := false }) during
  obtain ⟨own, pointer, _data, owns, state⟩ := live.active handle before
  cases Option.some.inj (pointed.symm.trans pointer)
  have client : (t.connections conn).client = handle := by
    rw [connection]
    exact owns
  cases running : s.frame with
  | none =>
      have connected : (s.connections conn).state = .connected := by
        rcases state with connected | ⟨reading, inside, _ended⟩
        · exact connected
        · rw [running] at inside
          cases inside
      have unheld : { t with connectionPtr := none }.held conn = false := by
        simp [held, kept.1, running]
      have closed : (({ t with connectionPtr := none }.settle conn .loop).handles
          (t.connections conn).client).active = false :=
        settle_inactive unheld (leaves connected)
      rw [released, ← client, closed] at active
      cases active
  | some reading =>
      obtain ⟨same, stream, connected⟩ := live.running reading running
      cases Option.some.inj (pointed.symm.trans same)
      have held : { t with connectionPtr := none }.held reading.conn = true :=
        held_eq_true.mpr (.inr ⟨reading, kept.1.trans running, rfl⟩)
      have waits : s.destructor .loop = { t with connectionPtr := none } := by
        rw [released, settle, if_pos held]
      refine ⟨reading, rfl, stream.symm.trans owns, ?_⟩
      cases ended : reading.ended with
      | true => exact .inl rfl
      | false =>
          rw [waits]
          exact .inr ⟨rfl, client, leaves (connected ended)⟩

/-- The destructor on the loop thread closes the connection, in a callback at its end; on
another thread it only posts. -/
theorem Destructible.settled {s : TcpClient} {thread : Thread} (live : Live s)
    (safe : Destructible s thread) : Settled (s.destructor thread) := by
  obtain ⟨sound, unposted, unconnected, untimed, conn, pointed, place⟩ := safe
  have active : ∀ handle, ((s.destructor thread).handles handle).active = true →
      ∃ reading, s.frame = some reading ∧ reading.stream = handle ∧
        (reading.ended = true ∨
          ((s.destructor thread).connectionPtr = none ∧
            ((s.destructor thread).connections reading.conn).client = handle ∧
            ((s.destructor thread).connections reading.conn).state ≠ .closeWait)) := by
    intro handle active
    cases thread with
    | user =>
        rw [destructor_user pointed] at active
        have before : (s.handles handle).active = true :=
          active_shutdown (s := { s with alive := false }) active
        obtain ⟨own, pointer, _data, owns, _state⟩ := live.active handle before
        cases Option.some.inj (pointed.symm.trans pointer)
        have unread : s.stillRead conn = false := by
          rcases place with onLoop | unread
          · cases onLoop
          · exact unread
        have late : s.frame.any Reading.ended = true := by
          simpa [stillRead, owns, before] using unread
        obtain ⟨reading, running, ended⟩ := (Option.any_eq_true _ _).mp late
        obtain ⟨same, stream, _⟩ := live.running reading running
        cases Option.some.inj (pointed.symm.trans same)
        exact ⟨reading, running, stream.symm.trans owns, .inl ended⟩
    | loop => exact destructor_closes live pointed active
  obtain ⟨pointer, handles, connections, same⟩ := destructor_eq pointed thread
  rw [same] at active ⊢
  exact ⟨sound, rfl, unposted, unconnected, untimed, active⟩


theorem Settled.safe {s s' : TcpClient} (settled : Settled s)
    (later : Transition.Reachable (system.startingAt s) s') : s'.fault = none := by
  have stays : Settled s' := by
    induction later with
    | start begins =>
        cases begins
        exact settled
    | next _before taken ih =>
        exact ih.step (step_effect taken).2
  exact stays.sound

/-! ### Destroyed elsewhere -/

section Faults

variable {first s : TcpClient}

/-- After the end of its callback the loop takes up the next event. -/
theorem idle_later (sound : first.fault = none) :
    ∃ s, Transition.Reachable (system.startingAt first) s ∧ s.frame = none ∧
      s.alive = first.alive ∧ s.posted = first.posted ∧ s.connecting = first.connecting ∧
      s.timers = first.timers := by
  cases running : first.frame with
  | none => exact ⟨first, .start rfl, running, rfl, rfl, rfl, rfl⟩
  | some reading =>
      have taken : step first .finish = some (first.finish reading) := by
        simp [step, sound, running]
      obtain ⟨handles, connections, same⟩ := finish_eq first reading
      refine ⟨first.finish reading, .next (.start rfl) taken, ?_⟩
      rw [same]
      exact ⟨rfl, rfl, rfl, rfl, rfl⟩

/-- An attempt that completes reads client_. -/
theorem no_attempt
    (safe : ∀ s', Transition.Reachable (system.startingAt first) s' → s'.fault = none)
    (later : Transition.Reachable (system.startingAt first) s) (idle : s.frame = none)
    (gone : s.alive = false) : s.connecting = [] := by
  apply List.eq_nil_iff_forall_not_mem.mpr
  intro handle member
  have taken : step s (.complete handle false true) =
      some ({ s with connecting := s.connecting.erase handle }.fail .destroyedClient) := by
    simp [step, safe s later, idle, member, connectionCallback, gone]
  cases safe _ (later.next taken)

theorem no_posted (safe : ∀ s', Transition.Reachable (system.startingAt first) s' → s'.fault = none)
    (later : Transition.Reachable (system.startingAt first) s) (idle : s.frame = none)
    (gone : s.alive = false) : s.posted = [] := by
  apply List.eq_nil_iff_forall_not_mem.mpr
  intro handle member
  have taken : step s (.start handle true) =
      some ({ s with posted := s.posted.erase handle }.uvTcpConnect handle true) := by
    simp [step, safe s later, idle, member]
  have connecting := no_attempt safe (later.next taken) idle gone
  simp [uvTcpConnect] at connecting

theorem no_timer (safe : ∀ s', Transition.Reachable (system.startingAt first) s' → s'.fault = none)
    (later : Transition.Reachable (system.startingAt first) s) (idle : s.frame = none)
    (gone : s.alive = false) : s.timers = 0 := by
  by_contra running
  have taken : step s (.timer true) =
      some ({ s with timers := s.timers - 1 }.fail .destroyedClient) := by
    simp [step, safe s later, idle, Nat.pos_of_ne_zero running, timerCallback, gone]
  cases safe _ (later.next taken)

/-- When another thread releases the connection, the loop may read before it closes. -/
theorem no_read (safe : ∀ s', Transition.Reachable (system.startingAt first) s' → s'.fault = none)
    (later : Transition.Reachable (system.startingAt first) s) (idle : s.frame = none)
    (gone : s.alive = false) {conn handle : Nat} (pointed : s.connectionPtr = some conn)
    (owns : (s.connections conn).client = handle) (data : s.data handle = some conn) :
    (s.handles handle).active = false := by
  apply Bool.eq_false_iff.mpr
  intro active
  let s₁ : TcpClient := { s with connectionPtr := none }.destroyConnection conn .user
  have unheld : { s with connectionPtr := none }.held conn = false := by
    simp [held, idle]
  have members : s.releaseMembers .user = s₁ := by
    rw [releaseMembers, pointed]
    exact if_neg (by rw [unheld]; decide)
  have released : step s .release = some s₁ := by
    simp [step, safe s later, gone, pointed, members]
  have stays : (s₁.handles handle).active = true := by
    have posts := destroyConnection_own { s with connectionPtr := none } conn .user
    rw [← owns] at active ⊢
    exact (congrArg UvTcp.active posts).trans active
  have lost : s₁.lock handle = none := by
    have destroyed : (s₁.connections conn).destroyed = true := by
      simp [s₁, destroyConnection_connections]
    have points : s₁.data handle = some conn := data
    simp [lock, points, destroyed]
  have quiet : s₁.frame = none := idle
  have taken : step s₁ (.read handle .data) = some (s₁.fail .assertion) := by
    simp [step, safe _ (later.next released), quiet, stays, readCallback, lost]
  cases safe _ ((later.next released).next taken)

end Faults

theorem shutdown_user_active (s : TcpClient) (conn handle : Nat) :
    ((s.shutdown conn .user).handles handle).active = (s.handles handle).active := by
  unfold shutdown
  dsimp only
  split_ifs
  · by_cases same : handle = (s.connections conn).client
    · subst same
      simp [runInLoopThread, setHandle, setConnection, UvTcp.runInLoopThread, UvTcp.active]
    · simp [runInLoopThread, setHandle, setConnection, same]
  · rfl

/-- Off the loop thread the destructor leaves the pointer until it releases the members. -/
theorem Safe.unread {s : TcpClient} {conn : Nat} (live : Live s) (safe : Safe s .user)
    (pointed : s.connectionPtr = some conn) : s.stillRead conn = false := by
  apply Bool.eq_false_iff.mpr
  intro still
  obtain ⟨active, early⟩ := Bool.and_eq_true_iff.mp still
  obtain ⟨own, pointer, points, _owns, _state⟩ := live.active _ active
  cases Option.some.inj (pointed.symm.trans pointer)
  obtain ⟨first, begins⟩ : ∃ first, s.destructor .user = first := ⟨_, rfl⟩
  have shut : { s with alive := false }.shutdown conn .user = first := by
    rw [← destructor_user pointed]
    exact begins
  obtain ⟨gone, frame, ptr, data⟩ : first.alive = false ∧ first.frame = s.frame ∧
      first.connectionPtr = some conn ∧ first.data = s.data := by
    obtain ⟨handles, connections, same⟩ := shutdown_eq { s with alive := false } conn .user
    rw [← shut, same]
    exact ⟨rfl, rfl, pointed, rfl⟩
  have owns : (first.connections conn).client = (s.connections conn).client := by
    rw [← shut, shutdown_connection]
  have reads : (first.handles (s.connections conn).client).active = true := by
    rw [← shut, shutdown_user_active]
    exact active
  rw [← data] at points
  unfold Safe at safe
  rw [begins] at safe
  have sound : first.fault = none := safe _ (.start rfl)
  cases running : s.frame with
  | none =>
      have unread := no_read safe (.start rfl) (frame.trans running) gone ptr owns points
      rw [reads] at unread
      cases unread
  | some reading =>
      obtain ⟨mine, _stream, _state⟩ := live.running reading running
      cases Option.some.inj (pointed.symm.trans mine)
      have inside : reading.ended = false := by
        simpa [running] using early
      have held : { first with frame := none }.held reading.conn = true :=
        held_eq_true.mpr (.inl ptr)
      have finished : first.finish reading = { first with frame := none } := by
        simp only [TcpClient.finish, inside, Bool.false_eq_true, if_false]
        exact if_pos held
      have taken : step first .finish = some { first with frame := none } := by
        simp [step, sound, frame, running, finished]
      have unread := no_read safe (.next (.start rfl) taken) rfl gone ptr owns points
      rw [show _ = true from reads] at unread
      cases unread

theorem Safe.destructible {s : TcpClient} {thread : Thread} (live : Live s)
    (safe : Safe s thread) : Destructible s thread := by
  cases pointed : s.connectionPtr with
  | none =>
      have null : (s.destructor thread).fault = some .nullPointer := by
        simp [destructor, pointed, fail]
      have sound := safe _ (.start rfl)
      rw [null] at sound
      cases sound
  | some conn =>
      have sound : (s.destructor thread).fault = none := safe _ (.start rfl)
      obtain ⟨last, later, idle, alive, posted, connecting, timers⟩ := idle_later sound
      obtain ⟨pointer, handles, connections, same⟩ := destructor_eq pointed thread
      rw [same] at sound alive posted connecting timers
      constructor
      · exact sound
      · exact posted.symm.trans (no_posted safe later idle alive)
      · exact connecting.symm.trans (no_attempt safe later idle alive)
      · exact timers.symm.trans (no_timer safe later idle alive)
      · refine ⟨conn, pointed, ?_⟩
        cases thread with
        | loop => exact .inl rfl
        | user => exact .inr (safe.unread live pointed)

/-- The destructor is safe exactly with a connection, without an attempt or a timer left,
and on the loop thread or when the connection is not read any more. -/
theorem destructor_safe_iff {s : TcpClient} (reachable : Transition.Reachable system s)
    (thread : Thread) : Safe s thread ↔ Destructible s thread := by
  have live := reachable_live reachable
  constructor
  · exact Safe.destructible live
  · intro safe s' later
    exact (safe.settled live).safe later

/-- The client connects. -/
def connects : List Event :=
  [.connect .user true, .start 0 true, .complete 0 true true]

theorem destructor_safe_connected :
    ∃ s, Transition.Reachable system s ∧ s.connectionPtr = some 0 ∧ Safe s .loop := by
  have found : ∃ s ∈ Transition.execute step start connects,
      s.fault = none ∧ s.posted = [] ∧ s.connecting = [] ∧ s.timers = 0 ∧
        s.connectionPtr = some 0 := by
    decide
  obtain ⟨s, reachable, sound, unposted, unconnected, untimed, pointed⟩ :=
    Transition.exists_reachable found
  exact ⟨s, reachable, pointed, (destructor_safe_iff reachable .loop).mpr
    ⟨sound, unposted, unconnected, untimed, 0, pointed, .inl rfl⟩⟩

theorem unsafe_of_run {s : TcpClient} {thread : Thread} {events : List Event}
    (faults : ∃ s' ∈ Transition.execute step (s.destructor thread) events,
      s'.fault.isSome = true) : ¬ Safe s thread := by
  intro safe
  obtain ⟨s', later, fault⟩ := Transition.exists_reachable faults
  rw [safe s' later] at fault
  cases fault

/-- Without a connection the destructor calls shutdown() on a null pointer; an attempt in
flight completes with the destroyed client; and off the loop thread a read comes before
the close. -/
theorem destructor_unsafe :
    ¬ Safe start .loop ∧
    (∃ s, Transition.Reachable system s ∧ s.connectionPtr = some 0 ∧ s.connecting = [1] ∧
      ¬ Safe s .loop) ∧
    ∃ s, Transition.Reachable system s ∧ s.connectionPtr = some 0 ∧ s.connecting = [] ∧
      ¬ Safe s .user := by
  refine ⟨?_, ?_, ?_⟩
  · exact @unsafe_of_run start .loop [] (by decide)
  · have found : ∃ s ∈ Transition.execute step start (connects ++ [.connect .loop true]),
        s.connectionPtr = some 0 ∧ s.connecting = [1] ∧
          ∃ s' ∈ Transition.execute step (s.destructor .loop) [.complete 1 false true],
            s'.fault.isSome = true := by
      decide
    obtain ⟨s, reachable, pointed, connecting, faults⟩ := Transition.exists_reachable found
    exact ⟨s, reachable, pointed, connecting, unsafe_of_run faults⟩
  · have found : ∃ s ∈ Transition.execute step start connects,
        s.connectionPtr = some 0 ∧ s.connecting = [] ∧
          ∃ s' ∈ Transition.execute step (s.destructor .user) [.release, .read 0 .data],
            s'.fault.isSome = true := by
      decide
    obtain ⟨s, reachable, pointed, connecting, faults⟩ := Transition.exists_reachable found
    exact ⟨s, reachable, pointed, connecting, unsafe_of_run faults⟩

end Uvcpp.TcpClient
