/-
The life cycle of a TcpConnection.

The map refers to the connection until its EOF, the EOF moves the state on, and the
destructor runs only when nothing refers to the connection any more.
-/

import Uvcpp.Tcp.ConnectionContexts

namespace Uvcpp

def Request.isShutdown : Request → Bool
  | .shutdown _ => true
  | _ => false

/-- Whether the handle is closed with the request or with its callback. -/
def Request.isFinal : Request → Bool
  | .close => true
  | .shutdown client => client
  | _ => false

namespace UvTcp

/-- Everything asked for so far. -/
def requests (h : UvTcp) : List Request :=
  h.executed ++ h.posted

/-- The closes asked for, with those that the callback of a shutdown will ask for. -/
def closings (h : UvTcp) : Nat :=
  h.requests.count .close + h.posted.count (.shutdown true) + h.shutdowns.count true

theorem execute_executed (h : UvTcp) (request : Request) (ret : Bool) :
    (h.execute request ret).executed = h.executed ++ [request] := by
  cases request <;> rfl

theorem execute_posted (h : UvTcp) (request : Request) (ret : Bool) :
    (h.execute request ret).posted = h.posted := by
  cases request <;> rfl

theorem requests_perm (h : UvTcp) (thread : Thread) (request : Request) (ret : Bool) :
    (h.runInLoopThread thread request ret).requests.Perm (request :: h.requests) := by
  cases thread with
  | loop =>
      simp only [runInLoopThread, requests, execute_executed, execute_posted, List.append_assoc]
      exact List.perm_middle
  | user =>
      simp only [runInLoopThread, requests, ← List.append_assoc]
      exact List.perm_append_singleton ..

theorem requests_run (h : UvTcp) {request : Request} {rest : List Request} (ret : Bool)
    (next : h.posted = request :: rest) :
    ({ h with posted := rest }.execute request ret).requests = h.requests := by
  simp [requests, execute_executed, execute_posted, next]

theorem countP_runInLoopThread (h : UvTcp) (thread : Thread) (request : Request) (ret : Bool) :
    (h.runInLoopThread thread request ret).requests.countP Request.isShutdown =
      h.requests.countP Request.isShutdown + request.isShutdown.toNat := by
  rw [(requests_perm h thread request ret).countP_eq, List.countP_cons]
  cases request.isShutdown <;> rfl

theorem mem_runInLoopThread (h : UvTcp) (thread : Thread) (request other : Request) (ret : Bool) :
    other ∈ (h.runInLoopThread thread request ret).requests ↔
      other = request ∨ other ∈ h.requests := by
  rw [(requests_perm h thread request ret).mem_iff, List.mem_cons]

theorem reading_execute (h : UvTcp) (request : Request) (ret : Bool)
    (reading : (h.execute request ret).reading = true) : h.reading = true := by
  cases request <;> simp_all [execute, write, shutdown, close]

theorem reading_runInLoopThread (h : UvTcp) (thread : Thread) (request : Request) (ret : Bool)
    (reading : (h.runInLoopThread thread request ret).reading = true) : h.reading = true := by
  cases thread with
  | loop => exact reading_execute h request ret reading
  | user => exact reading

theorem reported_execute (h : UvTcp) (request : Request) (ret : Bool)
    (reported : ∀ client ∈ h.shutdowns, Request.shutdown client ∈ h.executed) :
    ∀ client ∈ (h.execute request ret).shutdowns,
      Request.shutdown client ∈ (h.execute request ret).executed := by
  intro client member
  rw [execute_executed]
  cases request with
  | shutdown other =>
      rcases List.mem_append.mp member with earlier | last
      · exact List.mem_append_left _ (reported client earlier)
      · cases List.mem_singleton.mp last
        simp
  | write context => exact List.mem_append_left _ (reported client member)
  | close => exact List.mem_append_left _ (reported client member)

theorem reported_runInLoopThread (h : UvTcp) (thread : Thread) (request : Request) (ret : Bool)
    (reported : ∀ client ∈ h.shutdowns, Request.shutdown client ∈ h.executed) :
    ∀ client ∈ (h.runInLoopThread thread request ret).shutdowns,
      Request.shutdown client ∈ (h.runInLoopThread thread request ret).executed := by
  cases thread with
  | loop => exact reported_execute h request ret reported
  | user => exact reported

theorem closings_runInLoopThread (h : UvTcp) (thread : Thread) (request : Request) (ret : Bool) :
    (h.runInLoopThread thread request ret).closings = h.closings + request.isFinal.toNat := by
  have more := (requests_perm h thread request ret).count_eq .close
  unfold closings
  rw [more]
  cases thread with
  | loop =>
      cases request with
      | write context =>
          simp [runInLoopThread, execute, write, Request.isFinal]
      | shutdown client =>
          cases client <;> simp [runInLoopThread, execute, shutdown, Request.isFinal]
          omega
      | close =>
          simp [runInLoopThread, execute, close, Request.isFinal]
          omega
  | user =>
      cases request with
      | write context => simp [runInLoopThread, Request.isFinal]
      | shutdown client =>
          cases client <;> simp [runInLoopThread, Request.isFinal]
          omega
      | close =>
          simp [runInLoopThread, Request.isFinal]
          omega

theorem closings_run (h : UvTcp) {request : Request} {rest : List Request} (ret : Bool)
    (next : h.posted = request :: rest) :
    ({ h with posted := rest }.execute request ret).closings = h.closings := by
  unfold closings
  rw [requests_run h ret next, execute_posted, next]
  cases request with
  | write context => simp [execute, write]
  | shutdown client =>
      cases client <;> simp [execute, shutdown]
      omega
  | close => simp [execute, close]

theorem closings_report (h : UvTcp) {rest : List Bool} (next : h.shutdowns = true :: rest) :
    ({ h with shutdowns := rest }.close).closings = h.closings := by
  simp [closings, requests, close, next, List.count_append]
  omega

end UvTcp

namespace TcpConnection

/-- At most one shutdown, none before FIN_WAIT or from CLOSE_WAIT, and one close by the
destructor. -/
structure Asked (h : UvTcp) (state : ConnectionState) (shutting destroyed : Bool) : Prop where
  shutdowns : h.requests.countP Request.isShutdown + shutting.toNat ≤ 1
  unshut : state = .connected ∨ state = .closeWait →
    h.requests.countP Request.isShutdown + shutting.toNat = 0
  closings : h.closings = destroyed.toNat
  reported : ∀ client ∈ h.shutdowns, Request.shutdown client ∈ h.executed
  final : ∀ request ∈ h.requests, request.isFinal = true → destroyed = true

/-- `dead` is an implication only, so that all of it holds while references are being
given up. -/
structure Sound (c : TcpConnection) : Prop where
  dead : c.destroyed = true → c.holders = 0
  reading : c.client.reading = true → c.registered = true
  open_ : c.registered = true → c.frame ≠ some .ended → c.state = .connected ∨ c.state = .finWait
  past : c.registered = false ∨ c.frame = some .ended → c.state = .closeWait ∨ c.state = .closed
  calling : c.shutting = true → 0 < c.users
  asked : Asked c.client c.state c.shutting c.destroyed

theorem accepted_sound : Sound accepted := by
  constructor
  case asked => constructor <;> simp [accepted, UvTcp.new, UvTcp.requests, UvTcp.closings]
  all_goals simp [accepted, UvTcp.new]

/-! ### Requests -/

section Asked

variable {h : UvTcp} {state : ConnectionState} {shutting destroyed : Bool}

/-- Writes in flight and reading do not matter. -/
theorem Asked.congr {h' : UvTcp} (asked : Asked h state shutting destroyed)
    (posted : h'.posted = h.posted) (executed : h'.executed = h.executed)
    (shutdowns : h'.shutdowns = h.shutdowns) : Asked h' state shutting destroyed := by
  have requests : h'.requests = h.requests := by
    rw [UvTcp.requests, UvTcp.requests, posted, executed]
  constructor
  · rw [requests]
    exact asked.shutdowns
  · rw [requests]
    exact asked.unshut
  · rw [UvTcp.closings, requests, posted, shutdowns]
    exact asked.closings
  · rw [shutdowns, executed]
    exact asked.reported
  · rw [requests]
    exact asked.final

theorem Asked.write (asked : Asked h state shutting destroyed) (thread : Thread) (context : Nat)
    (ret : Bool) :
    Asked (h.runInLoopThread thread (.write context) ret) state shutting destroyed := by
  constructor
  · simpa [UvTcp.countP_runInLoopThread, Request.isShutdown] using asked.shutdowns
  · simpa [UvTcp.countP_runInLoopThread, Request.isShutdown] using asked.unshut
  · simpa [UvTcp.closings_runInLoopThread, Request.isFinal] using asked.closings
  · exact h.reported_runInLoopThread thread _ ret asked.reported
  · intro request member isFinal
    rcases (h.mem_runInLoopThread _ _ _ _).mp member with rfl | earlier
    · cases isFinal
    · exact asked.final request earlier isFinal

/-- The call of shutdown() that has set the state asks for it. -/
theorem Asked.shutdown (asked : Asked h state true destroyed) (thread : Thread) (ret : Bool) :
    Asked (h.runInLoopThread thread (.shutdown false) ret) state false destroyed := by
  constructor
  · simpa [UvTcp.countP_runInLoopThread, Request.isShutdown] using asked.shutdowns
  · simpa [UvTcp.countP_runInLoopThread, Request.isShutdown] using asked.unshut
  · simpa [UvTcp.closings_runInLoopThread, Request.isFinal] using asked.closings
  · exact h.reported_runInLoopThread thread _ ret asked.reported
  · intro request member isFinal
    rcases (h.mem_runInLoopThread _ _ _ _).mp member with rfl | earlier
    · cases isFinal
    · exact asked.final request earlier isFinal

theorem Asked.test (asked : Asked h .connected shutting destroyed) :
    Asked h .finWait true destroyed := by
  have fresh := asked.unshut (.inl rfl)
  constructor
  · simp only [Bool.toNat_true]
    omega
  · simp
  · exact asked.closings
  · exact asked.reported
  · exact asked.final

theorem Asked.end (asked : Asked h state shutting destroyed)
    (before : state = .connected ∨ state = .finWait) :
    Asked h (if state = .connected then .closeWait else .closed) shutting destroyed := by
  constructor
  · exact asked.shutdowns
  · intro _ended
    rcases before with rfl | rfl
    · exact asked.unshut (.inl rfl)
    · simp_all
  · exact asked.closings
  · exact asked.reported
  · exact asked.final

theorem Asked.run (asked : Asked h state shutting destroyed) {request : Request}
    {rest : List Request} (ret : Bool) (next : h.posted = request :: rest) :
    Asked ({ h with posted := rest }.execute request ret) state shutting destroyed := by
  have requests := h.requests_run ret next
  constructor
  · rw [requests]
    exact asked.shutdowns
  · rw [requests]
    exact asked.unshut
  · rw [h.closings_run ret next]
    exact asked.closings
  · exact UvTcp.reported_execute { h with posted := rest } request ret asked.reported
  · rw [requests]
    exact asked.final

/-- The callback of the user's shutdown only frees the request; that of the destructor
asks for the close. -/
theorem Asked.report (asked : Asked h state shutting destroyed) {client : Bool}
    {rest : List Bool} (next : h.shutdowns = client :: rest) :
    Asked (if client then { h with shutdowns := rest }.close else { h with shutdowns := rest })
      state shutting destroyed := by
  cases client with
  | false =>
      constructor
      · exact asked.shutdowns
      · exact asked.unshut
      · simpa [UvTcp.closings, UvTcp.requests, next] using asked.closings
      · intro client member
        apply asked.reported client
        rw [next]
        exact List.mem_cons_of_mem _ member
      · exact asked.final
  | true =>
      have dead : destroyed = true := by
        have owed : 0 < h.closings := by
          simp only [UvTcp.closings, next, List.count_cons_self]
          omega
        have := asked.closings
        cases destroyed
        · simp at this
          omega
        · rfl
      have requests :
          ({ h with shutdowns := rest }.close).requests.Perm (.close :: h.requests) := by
        simp only [UvTcp.close, UvTcp.requests, List.append_assoc]
        exact List.perm_middle
      have counted : ({ h with shutdowns := rest }.close).requests.countP Request.isShutdown =
          h.requests.countP Request.isShutdown := by
        rw [requests.countP_eq]
        simp [Request.isShutdown]
      simp only [if_true]
      constructor
      · rw [counted]
        exact asked.shutdowns
      · rw [counted]
        exact asked.unshut
      · rw [h.closings_report next]
        exact asked.closings
      · intro client member
        apply List.mem_append_left
        apply asked.reported client
        rw [next]
        exact List.mem_cons_of_mem _ member
      · exact fun _ _ _ => dead

/-- The destructor's shutdown is the first one. -/
theorem Asked.shutdownWrite (asked : Asked h .closeWait shutting false) (thread : Thread)
    (ret : Bool) :
    Asked (h.runInLoopThread thread (.shutdown true) ret) .closed shutting true := by
  have fresh := asked.unshut (.inr rfl)
  constructor
  · simp only [UvTcp.countP_runInLoopThread, Request.isShutdown, Bool.toNat_true]
    omega
  · simp
  · simpa [UvTcp.closings_runInLoopThread, Request.isFinal] using asked.closings
  · exact h.reported_runInLoopThread thread _ ret asked.reported
  · exact fun _ _ _ => rfl

theorem Asked.close (asked : Asked h state shutting false) (thread : Thread) (ret : Bool) :
    Asked (h.runInLoopThread thread .close ret) .closed shutting true := by
  constructor
  · simpa [UvTcp.countP_runInLoopThread, Request.isShutdown] using asked.shutdowns
  · simp
  · simpa [UvTcp.closings_runInLoopThread, Request.isFinal] using asked.closings
  · exact h.reported_runInLoopThread thread _ ret asked.reported
  · exact fun _ _ _ => rfl

end Asked

/-! ### Steps -/

theorem holders_written {c : TcpConnection} {context : Nat} (live : context ∈ c.contexts) :
    0 < c.holders := by
  have := List.length_pos_of_mem live
  unfold holders
  omega

theorem holders_frame {c : TcpConnection} {leaked : List Nat} {frame : Frame}
    (books : Books c leaked) (running : c.frame = some frame) : 0 < c.holders := by
  cases frame with
  | written context =>
      have live : context ∈ c.contexts := by
        rw [books.live.mem_iff]
        simp [pending, running, Frame.context?]
      exact holders_written live
  | _ => simp [holders, running, Frame.holds]

theorem holders_callable {c : TcpConnection} {thread : Thread} {leaked : List Nat}
    (books : Books c leaked) (owned : c.callable thread = true) : 0 < c.holders := by
  unfold callable at owned
  cases running : c.frame with
  | none =>
      simp only [running, Option.isSome_none, Bool.and_false, Bool.or_false,
        decide_eq_true_eq] at owned
      unfold holders
      omega
  | some frame => exact holders_frame books running

theorem holders_flying {c : TcpConnection} {leaked : List Nat} {context : Nat}
    (books : Books c leaked) (flying : context ∈ c.client.writes) : 0 < c.holders := by
  have live : context ∈ c.contexts := by
    rw [books.live.mem_iff]
    simp [pending, UvTcp.pending, flying]
  exact holders_written live

theorem holders_own {c : TcpConnection} (own : c.shutting.toNat < c.users) : 0 < c.holders := by
  unfold holders
  omega

theorem Sound.alive {c : TcpConnection} (sound : Sound c) (held : 0 < c.holders) :
    c.destroyed = false := by
  by_contra dead
  have := sound.dead (by simpa using dead)
  omega

/-- The destructor finds the state moved on by the EOF. -/
theorem Sound.settle {c : TcpConnection} (sound : Sound c) (alive : c.destroyed = false)
    (thread : Thread) : Sound (c.settle thread) := by
  rcases settle_cases c thread with ⟨_, same⟩ | ⟨unheld, same⟩
  · rw [same]
    exact sound
  · rw [same]
    have gone : c.registered = false := by
      cases registered : c.registered
      · rfl
      · simp [holders, registered] at unheld
    have asked := sound.asked
    rw [alive] at asked
    unfold destructor
    split_ifs with waits
    · rw [waits] at asked
      constructor
      · exact fun _ => unheld
      · exact fun reading => sound.reading (c.client.reading_runInLoopThread _ _ _ reading)
      · simp [shutdownWrite, runInLoopThread, gone]
      · exact fun _ => .inr rfl
      · exact sound.calling
      · exact asked.shutdownWrite thread true
    · constructor
      · exact fun _ => unheld
      · exact fun reading => sound.reading (c.client.reading_runInLoopThread _ _ _ reading)
      · simp [runInLoopThread, gone]
      · exact fun _ => .inr rfl
      · exact sound.calling
      · exact asked.close thread true

/-- A callback that leaves the registration alone comes to its end. -/
theorem Sound.leave {c : TcpConnection} (sound : Sound c) (alive : c.destroyed = false)
    (other : c.frame ≠ some .ended) : Sound { c with frame := none } := by
  constructor
  · simp [alive]
  · exact sound.reading
  · exact fun registered _ => sound.open_ registered other
  · simpa using fun gone => sound.past (.inl gone)
  · exact sound.calling
  · exact sound.asked

theorem Sound.delete {c : TcpConnection} (sound : Sound c) (alive : c.destroyed = false)
    (context : Nat) : Sound (c.deleteContext context) := by
  constructor
  · simp [deleteContext, alive]
  · exact sound.reading
  · exact sound.open_
  · exact sound.past
  · exact sound.calling
  · exact sound.asked

/-- On the loop thread shutdown() asks at once. -/
theorem Sound.shut {c : TcpConnection} (sound : Sound c) (connected : c.state = .connected) :
    Sound ({ c with state := .finWait }.runInLoopThread .loop (.shutdown false) true) := by
  have asked := sound.asked
  rw [connected] at asked
  constructor
  · exact sound.dead
  · exact fun reading => sound.reading (c.client.reading_runInLoopThread _ _ _ reading)
  · exact fun _ _ => .inr rfl
  · intro finished
    have := sound.past finished
    simp [connected] at this
  · exact sound.calling
  · have idle : c.shutting = false := by
      have := asked.unshut (.inl rfl)
      cases shutting : c.shutting
      · rfl
      · simp [shutting] at this
    simpa [runInLoopThread, idle] using asked.test.shutdown .loop true

theorem Sound.test {c : TcpConnection} (sound : Sound c) (callable : c.callable .user = true)
    (connected : c.state = .connected) :
    Sound { c with state := .finWait, shutting := true } := by
  have asked := sound.asked
  rw [connected] at asked
  constructor
  · exact sound.dead
  · exact sound.reading
  · exact fun _ _ => .inr rfl
  · intro finished
    have := sound.past finished
    simp [connected] at this
  · intro _shutting
    simpa [TcpConnection.callable] using callable
  · exact asked.test

@[simp] theorem ending_requests (c : TcpConnection) (frame : Frame) :
    (c.ending frame).client.requests = c.client.requests := by
  cases frame <;> rfl

theorem Sound.ending {c : TcpConnection} {frame : Frame} (sound : Sound c)
    (alive : c.destroyed = false) (running : c.frame = some frame) : Sound (c.ending frame) := by
  cases frame with
  | setUp => exact sound.leave alive (by simp [running])
  | read => exact sound.leave alive (by simp [running])
  | ended =>
      constructor
      · simp [alive]
      · simp [TcpConnection.ending, UvTcp.readStop]
      · simp [TcpConnection.ending, removeConnection]
      · exact fun _ => sound.past (.inr running)
      · exact sound.calling
      · exact sound.asked.congr rfl rfl rfl
  | written context =>
      apply Sound.delete
      · exact sound.leave alive (by simp [running])
      · exact alive

theorem Sound.step {c c' : TcpConnection} {event : Event} {leaked : List Nat}
    (effect : Effect c event c') (books : Books c leaked) (sound : Sound c) : Sound c' := by
  cases effect with
  | @sends thread ret callable =>
      have alive := sound.alive (holders_callable books callable)
      constructor
      · simp [send, runInLoopThread, alive]
      · exact fun reading => sound.reading (c.client.reading_runInLoopThread _ _ _ reading)
      · exact sound.open_
      · exact sound.past
      · exact sound.calling
      · exact sound.asked.write thread c.created ret
  | keeps other => exact sound
  | shuts callable connected => exact sound.shut connected
  | tests callable connected => exact sound.test callable connected
  | posts shutting =>
      have asked := sound.asked
      rw [shutting] at asked
      constructor
      · exact sound.dead
      · exact sound.reading
      · exact sound.open_
      · exact sound.past
      · intro impossible
        cases impossible
      · exact asked.shutdown .user true
  | copies held =>
      have alive := sound.alive held
      constructor
      · simp [alive]
      · exact sound.reading
      · exact sound.open_
      · exact sound.past
      · exact fun _ => Nat.succ_pos _
      · exact sound.asked
  | drops own =>
      have alive := sound.alive (holders_own own)
      apply Sound.settle
      · constructor
        · simp [alive]
        · exact sound.reading
        · exact sound.open_
        · exact sound.past
        · intro shutting
          simp only at shutting
          simp only [shutting, Bool.toNat_true] at own ⊢
          omega
        · exact sound.asked
      · exact alive
  | @runs ret request rest idle next =>
      constructor
      · exact sound.dead
      · intro reading
        exact sound.reading (UvTcp.reading_execute { c.client with posted := rest } _ _ reading)
      · exact sound.open_
      · exact sound.past
      · exact sound.calling
      · exact sound.asked.run ret next
  | misses reading dead =>
      exact ⟨sound.dead, sound.reading, sound.open_, sound.past, sound.calling, sound.asked⟩
  | repeats idle reading finished =>
      exact ⟨sound.dead, sound.reading, sound.open_, sound.past, sound.calling, sound.asked⟩
  | ends idle reading alive state =>
      constructor
      · simp [alive]
      · exact sound.reading
      · simp
      · intro _over
        rcases state with connected | finWait
        · simp [connected]
        · simp [finWait]
      · exact sound.calling
      · exact sound.asked.end state
  | reads idle reading alive =>
      have registered := sound.reading reading
      constructor
      · simp [alive]
      · exact sound.reading
      · exact fun _ _ => sound.open_ registered (by simp [idle])
      · simp [registered]
      · exact sound.calling
      · exact sound.asked
  | fails reading =>
      constructor
      · exact sound.dead
      · simp [UvTcp.readStop]
      · exact sound.open_
      · exact sound.past
      · exact sound.calling
      · exact sound.asked.congr rfl rfl rfl
  | completes idle flying =>
      constructor
      · intro dead
        have := sound.dead dead
        simpa [holders, idle, Frame.holds] using this
      · exact sound.reading
      · exact fun registered _ => sound.open_ registered (by simp [idle])
      · simpa using fun gone => sound.past (.inl gone)
      · exact sound.calling
      · exact sound.asked.congr rfl rfl rfl
  | @cancels context idle flying =>
      have alive := sound.alive (holders_flying books flying)
      apply Sound.settle
      · apply Sound.delete
        · exact ⟨sound.dead, sound.reading, sound.open_, sound.past, sound.calling,
            sound.asked.congr rfl rfl rfl⟩
        · exact alive
      · exact alive
  | @shutDowns client rest idle next =>
      have asked := sound.asked.report next
      cases client with
      | false =>
          exact ⟨sound.dead, sound.reading, sound.open_, sound.past, sound.calling, asked⟩
      | true =>
          constructor
          · exact sound.dead
          · simp [shutdownCallback, UvTcp.close]
          · exact sound.open_
          · exact sound.past
          · exact sound.calling
          · exact asked
  | finishes running =>
      have alive := sound.alive (holders_frame books running)
      rw [finish_eq]
      apply Sound.settle
      · exact sound.ending alive running
      · simpa using alive

/-! ### Runs -/

theorem accepted_books : Books accepted [] := by
  constructor <;> simp [accepted, pending, UvTcp.pending, UvTcp.new, Frame.context?]

theorem reachable_sound {c : TcpConnection} (reachable : Transition.Reachable system c) :
    Sound c ∧ ∃ leaked, Books c leaked := by
  induction reachable with
  | start begins =>
      cases begins
      exact ⟨accepted_sound, [], accepted_books⟩
  | next _before taken ih =>
      obtain ⟨sound, leaked, books⟩ := ih
      have effect := step_effect taken
      exact ⟨sound.step effect books, _, books.step effect⟩

/-- The moves of the state that the class documents. -/
inductive Advances : ConnectionState → ConnectionState → Prop where
  | stays (state : ConnectionState) : Advances state state
  | shutdown : Advances .connected .finWait
  | eof : Advances .connected .closeWait
  | eofAfter : Advances .finWait .closed
  | destroy : Advances .closeWait .closed

theorem settle_advances {c : TcpConnection} {state : ConnectionState} (thread : Thread)
    (before : c.state = state)
    (past : c.registered = false → state = .closeWait ∨ state = .closed) :
    Advances state (c.settle thread).state := by
  subst before
  rcases settle_cases c thread with ⟨_, same⟩ | ⟨unheld, same⟩
  · rw [same]
    exact .stays _
  · rw [same]
    have gone : c.registered = false := by
      cases registered : c.registered
      · rfl
      · simp [holders, registered] at unheld
    unfold destructor
    rcases past gone with waits | finished
    · simp only [waits, if_true]
      exact .destroy
    · simp only [finished]
      exact .stays _

theorem step_advances {c c' : TcpConnection} {event : Event} (effect : Effect c event c')
    (sound : Sound c) : Advances c.state c'.state := by
  cases effect with
  | shuts callable connected =>
      rw [connected]
      exact .shutdown
  | tests callable connected =>
      rw [connected]
      exact .shutdown
  | ends idle reading alive state =>
      rcases state with connected | finWait
      · simp only [connected, if_true]
        exact .eof
      · simp only [finWait]
        exact .eofAfter
  | drops own => exact settle_advances _ rfl fun gone => sound.past (.inl gone)
  | cancels idle flying => exact settle_advances _ rfl fun gone => sound.past (.inl gone)
  | @shutDowns client rest idle next => cases client <;> exact .stays _
  | @finishes frame running =>
      cases frame with
      | setUp => exact settle_advances _ rfl fun gone => sound.past (.inl gone)
      | read => exact settle_advances _ rfl fun gone => sound.past (.inl gone)
      | ended => exact settle_advances _ rfl fun _ => sound.past (.inr running)
      | written context => exact settle_advances _ rfl fun gone => sound.past (.inl gone)
  | _ => exact .stays _

theorem settle_aborted (c : TcpConnection) (thread : Thread) :
    (c.settle thread).aborted = c.aborted := by
  unfold settle destructor
  split_ifs <;> rfl

/-- The asserts of readCallback: reads come only while the map holds the connection. -/
theorem step_asserts {c c' : TcpConnection} {event : Event} (effect : Effect c event c')
    (sound : Sound c) (going : c.aborted = false) : c'.aborted = false := by
  cases effect with
  | misses reading dead =>
      have registered := sound.reading reading
      have unheld := sound.dead dead
      simp [holders, registered] at unheld
  | repeats idle reading finished =>
      have registered := sound.reading reading
      rcases sound.open_ registered (by simp [idle]) with connected | finWait
      · simp [connected] at finished
      · simp [finWait] at finished
  | drops own => exact (settle_aborted _ _).trans going
  | cancels idle flying => exact (settle_aborted _ _).trans going
  | @shutDowns client rest idle next => cases client <;> exact going
  | @finishes frame running => cases frame <;> exact (settle_aborted _ _).trans going
  | _ => exact going

theorem reachable_asserts {c : TcpConnection} (reachable : Transition.Reachable system c) :
    c.aborted = false := by
  induction reachable with
  | start begins =>
      cases begins
      rfl
  | next before taken ih =>
      exact step_asserts (step_effect taken) (reachable_sound before).1 ih

/-- Once the handle is to be closed, every send has had its callback. -/
theorem final_released {c : TcpConnection} {leaked : List Nat} (sound : Sound c)
    (books : Books c leaked) {request : Request} (asked : request ∈ c.client.requests)
    (isFinal : request.isFinal = true) :
    c.contexts = [] ∧ c.released.Perm (List.range c.created) := by
  have unheld := sound.dead (sound.asked.final request asked isFinal)
  have none_left : c.contexts = [] := by
    apply List.eq_nil_of_length_eq_zero
    unfold holders at unheld
    omega
  constructor
  · exact none_left
  · simpa [none_left] using books.accounted

/-- The states only move forward, no assert fails, libuv is asked for at most one
shutdown and one close, and for the close, or the shutdown that leads to it, only when
every send has been completed. -/
theorem connection_life_cycle {c : TcpConnection} (reachable : Transition.Reachable system c) :
    (∀ event c', step c event = some c' → Advances c.state c'.state) ∧ c.aborted = false ∧
      c.client.requests.countP Request.isShutdown ≤ 1 ∧ c.client.requests.count .close ≤ 1 ∧
        ∀ request ∈ c.client.requests, request.isFinal = true →
          c.contexts = [] ∧ c.released.Perm (List.range c.created) := by
  obtain ⟨sound, leaked, books⟩ := reachable_sound reachable
  refine ⟨?_, reachable_asserts reachable, ?_, ?_, ?_⟩
  · exact fun event c' taken => step_advances (step_effect taken) sound
  · have := sound.asked.shutdowns
    omega
  · have := sound.asked.closings
    have := Bool.toNat_le c.destroyed
    unfold UvTcp.closings at *
    omega
  · exact fun request asked isFinal => final_released sound books asked isFinal

/-- A send and a shutdown, the EOF, and the completions. -/
def wholeLife : List Event :=
  [.send .loop true, .shutdown .loop, .finish, .read .eof, .finish, .written 0 true, .finish]

theorem connection_life_cycle_closed :
    ∃ c, Transition.Reachable system c ∧ Request.close ∈ c.client.requests ∧ c.contexts = [] := by
  have found : ∃ c ∈ Transition.execute step accepted wholeLife,
      Request.close ∈ c.client.executed := by
    decide
  obtain ⟨c, reachable, closed⟩ := Transition.exists_reachable found
  have asked : Request.close ∈ c.client.requests := List.mem_append_left _ closed
  have whole := connection_life_cycle reachable
  exact ⟨c, reachable, asked, (whole.2.2.2.2 .close asked rfl).1⟩

end TcpConnection

end Uvcpp
