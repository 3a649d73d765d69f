/-
What a step of a TcpConnection does to what its server sees of it.

The server sees the reference in its map, the number of all others, whether the handle is
being read, and whether the loop is in a callback of the connection.
-/

import Uvcpp.Tcp.ConnectionClose

namespace Uvcpp.TcpConnection

/-- The references outside of the server's map. -/
def outside (c : TcpConnection) : Nat :=
  c.users + c.contexts.length + (c.frame.map Frame.holds).getD 0

/-- The events that the loop takes up between two callbacks. -/
def Event.begins : Event → Bool
  | .run _ => true
  | .read _ => true
  | .written _ _ => true
  | .shutDown => true
  | _ => false

theorem holders_outside (c : TcpConnection) : c.holders = c.registered.toNat + c.outside := by
  unfold holders outside
  omega

section Settle

variable (c : TcpConnection) (thread : Thread)

@[simp] theorem settle_registered : (c.settle thread).registered = c.registered := by
  unfold settle destructor
  split_ifs <;> rfl

@[simp] theorem settle_frame : (c.settle thread).frame = c.frame := by
  unfold settle destructor
  split_ifs <;> rfl

@[simp] theorem settle_outside : (c.settle thread).outside = c.outside := by
  unfold settle destructor
  split_ifs <;> rfl

/-- The destructor comes after the handle has been stopped. -/
theorem settle_reading {c : TcpConnection} {thread : Thread}
    (held : c.client.reading = true → c.registered = true) :
    (c.settle thread).client.reading = c.client.reading := by
  rcases settle_cases c thread with ⟨_, same⟩ | ⟨unheld, same⟩
  · rw [same]
  · have stopped : c.client.reading = false := by
      by_contra reading
      have registered := held (by simpa using reading)
      simp [holders, registered] at unheld
    rw [same, stopped]
    apply Bool.eq_false_iff.mpr
    intro reading
    unfold destructor at reading
    split_ifs at reading
    · have before := c.client.reading_runInLoopThread _ _ _ reading
      rw [stopped] at before
      cases before
    · have before := c.client.reading_runInLoopThread _ _ _ reading
      rw [stopped] at before
      cases before

end Settle

section Ending

variable (c : TcpConnection) (frame : Frame)

@[simp] theorem ending_frame : (c.ending frame).frame = none := by
  cases frame <;> rfl

theorem ending_registered (other : frame ≠ .ended) :
    (c.ending frame).registered = c.registered := by
  cases frame with
  | ended => exact absurd rfl other
  | _ => rfl

theorem ending_reading (other : frame ≠ .ended) :
    (c.ending frame).client.reading = c.client.reading := by
  cases frame with
  | ended => exact absurd rfl other
  | _ => rfl

end Ending

/-! ### Steps -/

section Step

variable {c c' : TcpConnection} {event : Event}

/-- Only the end of the callback for the EOF takes the connection out of the map. -/
theorem registered_step (effect : Effect c event c')
    (other : event = .finish → c.frame ≠ some .ended) : c'.registered = c.registered := by
  cases effect with
  | drops own => simp
  | cancels idle flying => simp [deleteContext]
  | @shutDowns client rest idle next => cases client <;> rfl
  | @finishes frame running =>
      rw [finish_eq, settle_registered, ending_registered]
      rintro rfl
      exact other rfl running
  | _ => rfl

/-- A callback begins when the loop is in no other. -/
theorem frame_step (effect : Effect c event c') (begun : c'.frame.isSome = true) :
    c.frame.isSome = true ∨ event.begins = true := by
  cases effect with
  | drops own =>
      rw [settle_frame] at begun
      exact .inl begun
  | finishes running =>
      rw [finish_eq, settle_frame, ending_frame] at begun
      cases begun
  | runs idle next => exact .inr rfl
  | misses reading dead => exact .inr rfl
  | repeats idle reading finished => exact .inr rfl
  | ends idle reading alive state => exact .inr rfl
  | reads idle reading alive => exact .inr rfl
  | fails reading => exact .inr rfl
  | completes idle flying => exact .inr rfl
  | cancels idle flying => exact .inr rfl
  | shutDowns idle next => exact .inr rfl
  | _ => exact .inl begun

/-- References are made from references. -/
theorem outside_step (reachable : Transition.Reachable system c) (effect : Effect c event c') :
    c'.outside ≤ c.outside ∨ 0 < c.holders := by
  obtain ⟨sound, leaked, books⟩ := reachable_sound reachable
  have held : c.destroyed = false → 0 < c.holders := by
    intro alive
    apply Nat.pos_of_ne_zero
    intro unheld
    rw [reachable_settled reachable unheld] at alive
    cases alive
  cases effect with
  | sends callable => exact .inr (holders_callable books callable)
  | copies alive => exact .inr alive
  | ends idle reading alive state => exact .inr (held alive)
  | reads idle reading alive => exact .inr (held alive)
  | completes idle flying => exact .inr (holders_flying books flying)
  | cancels idle flying => exact .inr (holders_flying books flying)
  | drops own => exact .inr (holders_own own)
  | @shutDowns client rest idle next =>
      left
      cases client <;> exact Nat.le_of_eq rfl
  | finishes running => exact .inr (holders_frame books running)
  | _ => exact .inl (Nat.le_of_eq rfl)

/-- A destroyed connection is not read from. -/
theorem reading_alive (sound : Sound c) (reading : c.client.reading = true) :
    c.destroyed = false := by
  have registered := sound.reading reading
  apply sound.alive
  rw [holders_outside, registered, Bool.toNat_true]
  omega

theorem reading_run (h : UvTcp) {request : Request} (ret : Bool)
    (stopped : request = .close → h.reading = false) :
    (h.execute request ret).reading = h.reading := by
  cases request with
  | close => exact (stopped rfl).symm
  | write context => rfl
  | shutdown client => rfl

/-- The reading ends with the EOF or an error, and no close comes before that. -/
theorem reading_step (sound : Sound c) (effect : Effect c event c')
    (going : event ≠ .read .error) (other : event = .finish → c.frame ≠ some .ended) :
    c'.client.reading = c.client.reading := by
  have stopped : c.destroyed = true → c.client.reading = false := by
    intro dead
    by_contra reading
    rw [reading_alive sound (by simpa using reading)] at dead
    cases dead
  cases effect with
  | @sends thread ret callable => cases thread <;> rfl
  | drops own => exact settle_reading sound.reading
  | @runs ret request rest idle next =>
      apply reading_run { c.client with posted := rest }
      rintro rfl
      apply stopped
      apply sound.asked.final .close
      · simp [UvTcp.requests, next]
      · rfl
  | fails reading => exact absurd rfl going
  | cancels idle flying => exact settle_reading sound.reading
  | @shutDowns client rest idle next =>
      cases client with
      | false => rfl
      | true =>
          have executed : Request.shutdown true ∈ c.client.executed := by
            apply sound.asked.reported
            rw [next]
            exact List.mem_cons_self
          have dead : c.destroyed = true :=
            sound.asked.final _ (List.mem_append_left _ executed) rfl
          exact (stopped dead).symm
  | @finishes frame running =>
      have kept : frame ≠ .ended := by
        rintro rfl
        exact other rfl running
      rw [finish_eq, settle_reading, ending_reading c frame kept]
      rw [ending_reading c frame kept, ending_registered c frame kept]
      exact sound.reading
  | _ => rfl

end Step

/-- A read needs a loop that is in no callback of the connection. -/
theorem read_idle {c c' : TcpConnection} {nread : Nread}
    (taken : step c (.read nread) = some c') : c.frame = none ∧ c.client.reading = true := by
  unfold step at taken
  split at taken
  · cases taken
  · dsimp only at taken
    split at taken
    · assumption
    · cases taken

theorem ended_step {c c' : TcpConnection} {event : Event} (effect : Effect c event c')
    (ended : c'.frame = some .ended) : event = .read .eof ∨ c.frame = some .ended := by
  cases effect with
  | drops own =>
      rw [settle_frame] at ended
      exact .inr ended
  | cancels idle flying =>
      rw [settle_frame] at ended
      exact .inr ended
  | @shutDowns client rest idle next => cases client <;> exact .inr ended
  | finishes running =>
      rw [finish_eq, settle_frame, ending_frame] at ended
      cases ended
  | ends idle reading alive state => exact .inl rfl
  | reads idle reading alive => cases ended
  | completes idle flying => cases ended
  | _ => exact .inr ended

/-- The handle is stopped after the user's callback for the EOF. -/
theorem ended_reading {c : TcpConnection} (reachable : Transition.Reachable system c) :
    c.frame = some .ended → c.client.reading = true := by
  induction reachable with
  | start begins =>
      cases begins
      intro impossible
      cases impossible
  | @next c c' event before taken ih =>
      intro ended
      have effect := step_effect taken
      have going : event ≠ .read .error := by
        rintro rfl
        rcases ended_step effect ended with impossible | already
        · cases impossible
        · rw [(read_idle taken).1] at already
          cases already
      have other : event = .finish → c.frame ≠ some .ended := by
        rintro rfl running
        cases effect with
        | finishes running =>
            rw [finish_eq, settle_frame, ending_frame] at ended
            cases ended
      rw [reading_step (reachable_sound before).1 effect going other]
      rcases ended_step effect ended with rfl | already
      · exact (read_idle taken).2
      · exact ih already

end Uvcpp.TcpConnection
