/-
The two half closes of a TcpConnection that a user keeps.

shutdown() acts in the state CONNECTED only, so after the EOF it asks for nothing:
which half is closed first decides where the connection ends.
-/

import Uvcpp.Tcp.ConnectionPhases

namespace Uvcpp.TcpConnection

/-- The shutdowns asked for, with the one a call of shutdown() is about to post. -/
def asked (c : TcpConnection) : Nat :=
  c.client.requests.countP Request.isShutdown + c.shutting.toNat

/-- Neither half is closed by the event, and it leaves a user with a reference. -/
def quiet (c : TcpConnection) : Event → Bool
  | .shutdown _ => false
  | .read .eof => false
  | .drop _ => 1 < c.users
  | _ => true

def quietly (c : TcpConnection) (events : List Event) : Option TcpConnection :=
  Transition.execute (Transition.checked quiet step) c events

/-- Both half closes, with quiet events around them. -/
def halfCloses (c : TcpConnection) (before : List Event) (first : Event) (between : List Event)
    (second : Event) (after : List Event) : Option TcpConnection := do
  let c ← quietly c before
  let c ← step c first
  let c ← quietly c between
  let c ← step c second
  quietly c after

/-- Two connections that ended alike, each with one uv_shutdown. -/
def ClosedAlike (a b : TcpConnection) : Prop :=
  a.state = b.state ∧ a.asked = 1 ∧ b.asked = 1

instance (a b : TcpConnection) : Decidable (ClosedAlike a b) :=
  inferInstanceAs (Decidable (_ ∧ _ ∧ _))

/-! ### Quiet events -/

/-- What quiet events leave as it was. -/
structure Kept (c c' : TcpConnection) : Prop where
  state : c'.state = c.state
  asked : c'.asked = c.asked
  held : 0 < c'.users

theorem settle_held {c : TcpConnection} (held : 0 < c.users) (thread : Thread) :
    c.settle thread = c := by
  rcases settle_cases c thread with ⟨_, same⟩ | ⟨unheld, _⟩
  · exact same
  · unfold holders at unheld
    omega

theorem Kept.step {c c' : TcpConnection} {event : Event} (effect : Effect c event c')
    (held : 0 < c.users) (still : c.quiet event = true) : Kept c c' := by
  cases effect with
  | sends callable =>
      refine ⟨rfl, ?_, held⟩
      simp [TcpConnection.asked, send, runInLoopThread, UvTcp.countP_runInLoopThread,
        Request.isShutdown]
  | keeps other => exact ⟨rfl, rfl, held⟩
  | shuts callable connected => cases still
  | tests callable connected => cases still
  | posts shutting =>
      refine ⟨rfl, ?_, held⟩
      simp [TcpConnection.asked, runInLoopThread, UvTcp.countP_runInLoopThread,
        Request.isShutdown, shutting]
  | copies alive => exact ⟨rfl, rfl, Nat.succ_pos _⟩
  | drops own =>
      have others : 1 < c.users := of_decide_eq_true still
      have kept : 0 < c.users - 1 := by omega
      rw [settle_held (by exact kept)]
      exact ⟨rfl, rfl, kept⟩
  | runs idle next =>
      refine ⟨rfl, ?_, held⟩
      simp [TcpConnection.asked, UvTcp.requests_run _ _ next]
  | misses reading dead => exact ⟨rfl, rfl, held⟩
  | repeats idle reading finished => cases still
  | ends idle reading alive state => cases still
  | reads idle reading alive => exact ⟨rfl, rfl, held⟩
  | fails reading => exact ⟨rfl, rfl, held⟩
  | completes idle flying => exact ⟨rfl, rfl, held⟩
  | cancels idle flying =>
      rw [settle_held (by exact held)]
      exact ⟨rfl, rfl, held⟩
  | @shutDowns client rest idle next =>
      cases client with
      | false => exact ⟨rfl, rfl, held⟩
      | true =>
          refine ⟨rfl, ?_, held⟩
          simp [TcpConnection.asked, shutdownCallback, UvTcp.close, UvTcp.requests,
            List.countP_append, Request.isShutdown]
  | @finishes frame running =>
      rw [finish_eq]
      have kept : 0 < (c.ending frame).users := by
        cases frame <;> exact held
      rw [settle_held kept]
      refine ⟨?_, ?_, kept⟩
      · cases frame <;> rfl
      · cases frame <;> rfl

theorem Kept.run {c c' : TcpConnection} {events : List Event}
    (reachable : Transition.Reachable system c) (held : 0 < c.users)
    (ran : c.quietly events = some c') : Transition.Reachable system c' ∧ Kept c c' := by
  induction events generalizing c with
  | nil =>
      cases ran
      exact ⟨reachable, rfl, rfl, held⟩
  | cons event events ih =>
      obtain ⟨middle, taken, rest⟩ := Option.bind_eq_some_iff.mp ran
      obtain ⟨still, taken⟩ := Option.ite_none_right_eq_some.mp taken
      have first := Kept.step (step_effect taken) held still
      obtain ⟨reached, later⟩ := ih (reachable.next taken) first.held rest
      exact ⟨reached, later.state.trans first.state, later.asked.trans first.asked, later.held⟩

/-! ### The half closes -/

/-- No assert fails, so the EOF moves the state on. -/
theorem eof_moves {c c' : TcpConnection} (reachable : Transition.Reachable system c)
    (held : 0 < c.users) (taken : step c (.read .eof) = some c') :
    c'.state = (if c.state = .connected then .closeWait else .closed) ∧ c'.asked = c.asked ∧
      0 < c'.users := by
  have going := reachable_asserts (reachable.next taken)
  cases step_effect taken with
  | misses reading dead => cases going
  | repeats idle reading finished => cases going
  | ends idle reading alive state => exact ⟨rfl, rfl, held⟩

theorem shutdown_asks {c c' : TcpConnection} {thread : Thread}
    (held : 0 < c.users) (connected : c.state = .connected)
    (taken : step c (.shutdown thread) = some c') (fresh : c.asked = 0) :
    c'.state = .finWait ∧ c'.asked = 1 ∧ 0 < c'.users := by
  unfold asked at fresh
  cases step_effect taken with
  | keeps other => exact absurd connected other
  | shuts callable connected =>
      refine ⟨rfl, ?_, held⟩
      simp only [asked, runInLoopThread, UvTcp.countP_runInLoopThread, Request.isShutdown,
        Bool.toNat_true]
      omega
  | tests callable connected =>
      refine ⟨rfl, ?_, held⟩
      simp only [asked, Bool.toNat_true]
      omega

/-- After the EOF shutdown() is ignored. -/
theorem shutdown_ignored {c c' : TcpConnection} {thread : Thread} (other : c.state ≠ .connected)
    (taken : step c (.shutdown thread) = some c') : c' = c := by
  cases step_effect taken with
  | keeps => rfl
  | shuts callable connected => exact absurd connected other
  | tests callable connected => exact absurd connected other

theorem connected_asked {c : TcpConnection} (reachable : Transition.Reachable system c)
    (connected : c.state = .connected) : c.asked = 0 :=
  (reachable_sound reachable).1.asked.unshut (.inl connected)

theorem shutdown_first {c a : TcpConnection} {thread : Thread} {before between after : List Event}
    (reachable : Transition.Reachable system c) (connected : c.state = .connected)
    (held : 0 < c.users)
    (ran : c.halfCloses before (.shutdown thread) between (.read .eof) after = some a) :
    a.state = .closed ∧ a.asked = 1 := by
  obtain ⟨c₁, ran, rest⟩ := Option.bind_eq_some_iff.mp ran
  obtain ⟨reached, start⟩ := Kept.run reachable held ran
  obtain ⟨c₂, taken, rest⟩ := Option.bind_eq_some_iff.mp rest
  have fresh := start.asked.trans (connected_asked reachable connected)
  obtain ⟨finWait, once, held⟩ :=
    shutdown_asks start.held (start.state.trans connected) taken fresh
  obtain ⟨c₃, ran, rest⟩ := Option.bind_eq_some_iff.mp rest
  obtain ⟨reached, middle⟩ := Kept.run (reached.next taken) held ran
  obtain ⟨c₄, taken, ran⟩ := Option.bind_eq_some_iff.mp rest
  obtain ⟨moved, same, held⟩ := eof_moves reached middle.held taken
  obtain ⟨_, last⟩ := Kept.run (reached.next taken) held ran
  constructor
  · rw [last.state, moved, middle.state, finWait]
    rfl
  · rw [last.asked, same, middle.asked, once]

theorem eof_first {c b : TcpConnection} {thread : Thread} {before between after : List Event}
    (reachable : Transition.Reachable system c) (connected : c.state = .connected)
    (held : 0 < c.users)
    (ran : c.halfCloses before (.read .eof) between (.shutdown thread) after = some b) :
    b.state = .closeWait ∧ b.asked = 0 := by
  obtain ⟨c₁, ran, rest⟩ := Option.bind_eq_some_iff.mp ran
  obtain ⟨reached, start⟩ := Kept.run reachable held ran
  obtain ⟨c₂, taken, rest⟩ := Option.bind_eq_some_iff.mp rest
  obtain ⟨moved, same, held⟩ := eof_moves reached start.held taken
  rw [start.state, connected, if_pos rfl] at moved
  obtain ⟨c₃, ran, rest⟩ := Option.bind_eq_some_iff.mp rest
  obtain ⟨reached, middle⟩ := Kept.run (reached.next taken) held ran
  obtain ⟨c₄, taken, rest⟩ := Option.bind_eq_some_iff.mp rest
  have waits := middle.state.trans moved
  have ignored : c₄ = c₃ := shutdown_ignored (by simp [waits]) taken
  rw [ignored] at rest
  obtain ⟨_, last⟩ := Kept.run reached middle.held rest
  constructor
  · rw [last.state, waits]
  · rw [last.asked, middle.asked, same, start.asked, connected_asked reachable connected]

/-- With the shutdown first the connection is CLOSED with one uv_shutdown, with the EOF
first it stays in CLOSE_WAIT with none, whatever else happens. -/
theorem half_closes_differ {c a b : TcpConnection} {thread thread' : Thread}
    {before between after before' between' after' : List Event}
    (reachable : Transition.Reachable system c) (connected : c.state = .connected)
    (held : 0 < c.users)
    (shutFirst : c.halfCloses before (.shutdown thread) between (.read .eof) after = some a)
    (endFirst : c.halfCloses before' (.read .eof) between' (.shutdown thread') after' = some b) :
    ¬ ClosedAlike a b ∧ (a.state = .closed ∧ a.asked = 1) ∧ b.state = .closeWait ∧ b.asked = 0 := by
  have closed := shutdown_first reachable connected held shutFirst
  have waits := eof_first reachable connected held endFirst
  refine ⟨?_, closed, waits⟩
  intro alike
  have := alike.2.2
  omega

/-- A connection a user keeps, out of the connection callback. -/
def keptByUser : TcpConnection :=
  { accepted with users := 1, frame := none }

theorem keptByUser_reachable : Transition.Reachable system keptByUser := by
  have begins : Transition.Reachable system accepted := .start rfl
  have copied : Transition.execute step accepted [.copy, .finish] = some keptByUser := rfl
  exact begins.execute copied

/-- Nothing but the half closes and the end of the EOF's callback. -/
theorem half_closes_differ_kept : ∃ a b,
    keptByUser.halfCloses [] (.shutdown .loop) [] (.read .eof) [.finish] = some a ∧
      keptByUser.halfCloses [] (.read .eof) [] (.shutdown .loop) [.finish] = some b ∧
        ¬ ClosedAlike a b := by
  have shutFirst : ∃ a,
      keptByUser.halfCloses [] (.shutdown .loop) [] (.read .eof) [.finish] = some a := ⟨_, rfl⟩
  have endFirst : ∃ b,
      keptByUser.halfCloses [] (.read .eof) [] (.shutdown .loop) [.finish] = some b := ⟨_, rfl⟩
  obtain ⟨a, shutFirst⟩ := shutFirst
  obtain ⟨b, endFirst⟩ := endFirst
  have differ := half_closes_differ keptByUser_reachable rfl Nat.one_pos shutFirst endFirst
  exact ⟨a, b, shutFirst, endFirst, differ.1⟩

/-- The same with data and a send before, a send between and one after. -/
theorem half_closes_order_matters :
    ∃ c, Transition.Reachable system c ∧ c.state = .connected ∧ 0 < c.users ∧
      ∃ before between after a b,
        c.halfCloses before (.shutdown .loop) between (.read .eof) after = some a ∧
          c.halfCloses before (.read .eof) between (.shutdown .loop) after = some b ∧
            ¬ (a.state = b.state ∧ a.asked = 1 ∧ b.asked = 1) := by
  refine ⟨keptByUser, keptByUser_reachable, rfl, by decide,
    [.send .user true, .read .data, .finish], [.send .loop true],
    [.finish, .send .user true, .run true], _, _, rfl, rfl, ?_⟩
  decide

end Uvcpp.TcpConnection
