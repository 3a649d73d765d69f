/-
What can go wrong with a TcpConnection.

The closure of shutdown() holds no reference: a destructor on the loop thread closes
the handle before the closure runs.  A context whose write is refused is never deleted
and holds the connection for ever.
-/

import Uvcpp.Tcp.ConnectionPhases

namespace Uvcpp.TcpConnection

/-! ### Nothing after the close -/

/-- No write and no shutdown comes after a close. -/
def NothingAfterClose (requests : List Request) : Prop :=
  requests.Pairwise fun earlier later => earlier = .close → later = .close

/-- The references that are given up on the loop thread. -/
def givesUp (c : TcpConnection) : Event → Nat
  | .drop .loop => 1
  | .written _ false => 1
  | .finish =>
      match c.frame with
      | some .ended => 1 + c.registered.toNat
      | some _ => 1
      | none => 0
  | _ => 0

/-- The last references are not given up on the loop thread while the closure of
shutdown() is still to run. -/
def InTime (c : TcpConnection) (event : Event) : Prop :=
  0 < c.givesUp event → c.holders = c.givesUp event → .shutdown false ∉ c.client.posted

theorem nothingAfterClose_of_absent {requests : List Request} (absent : .close ∉ requests) :
    NothingAfterClose requests := by
  apply List.pairwise_of_forall_mem_list
  intro earlier member later _member closing
  rw [closing] at member
  exact absurd member absent

/-- A close that is executed at once must not overtake posted requests. -/
theorem nothingAfterClose_runInLoopThread {h : UvTcp} {thread : Thread} {request : Request}
    {ret : Bool} (absent : .close ∉ h.requests)
    (last : request = .close → thread = .loop → h.posted = []) :
    NothingAfterClose (h.runInLoopThread thread request ret).requests := by
  by_cases closing : request = .close
  · have front : ∃ before, (h.runInLoopThread thread request ret).requests = before ++ [.close] ∧
        .close ∉ before := by
      cases thread with
      | loop =>
          refine ⟨h.executed, ?_, fun member => absent (List.mem_append_left _ member)⟩
          simp [UvTcp.runInLoopThread, UvTcp.requests, UvTcp.execute_executed,
            UvTcp.execute_posted, last closing rfl, closing]
      | user =>
          refine ⟨h.requests, ?_, absent⟩
          simp [UvTcp.runInLoopThread, UvTcp.requests, closing]
    obtain ⟨before, same, fresh⟩ := front
    rw [same]
    apply List.pairwise_append.mpr
    refine ⟨nothingAfterClose_of_absent fresh, List.pairwise_singleton .., ?_⟩
    intro earlier _member later member _closing
    exact List.mem_singleton.mp member
  · apply nothingAfterClose_of_absent
    rw [UvTcp.mem_runInLoopThread]
    rintro (same | earlier)
    · exact closing same.symm
    · exact absent earlier

/-- A dead connection has no write posted. -/
theorem unwritten {c : TcpConnection} {leaked : List Nat} (books : Books c leaked)
    (unheld : c.holders = 0) (context : Nat) : Request.write context ∉ c.client.posted := by
  intro posted
  have live : context ∈ c.contexts := by
    have listed : context ∈ c.client.posted.filterMap Request.context? :=
      List.mem_filterMap.mpr ⟨_, posted, rfl⟩
    rw [books.live.mem_iff]
    exact List.mem_append_left _ (List.mem_append_left _ (List.mem_append_left _ listed))
  have := holders_written live
  omega

theorem posted_eq_nil {h : UvTcp} (writes : ∀ context, Request.write context ∉ h.posted)
    (shutdowns : ∀ client, Request.shutdown client ∉ h.posted)
    (closes : Request.close ∉ h.posted) : h.posted = [] := by
  apply List.eq_nil_iff_forall_not_mem.mpr
  intro request
  cases request with
  | write context => exact writes context
  | shutdown client => exact shutdowns client
  | close => exact closes

theorem settle_ordered {c : TcpConnection} {leaked : List Nat} {thread : Thread}
    (books : Books c leaked) (alive : ∀ request ∈ c.client.requests, request.isFinal = false)
    (inTime : thread = .loop → c.holders = 0 → .shutdown false ∉ c.client.posted) :
    NothingAfterClose (c.settle thread).client.requests := by
  have absent : .close ∉ c.client.requests := fun asked => nomatch alive _ asked
  rcases settle_cases c thread with ⟨_, same⟩ | ⟨unheld, same⟩
  · rw [same]
    exact nothingAfterClose_of_absent absent
  · rw [same]
    unfold destructor
    split_ifs
    · apply nothingAfterClose_runInLoopThread absent
      intro impossible
      cases impossible
    · apply nothingAfterClose_runInLoopThread absent
      intro _closing onLoop
      apply posted_eq_nil
      · exact unwritten books unheld
      · intro client posted
        cases client with
        | false => exact inTime onLoop unheld posted
        | true => exact nomatch alive _ (List.mem_append_right _ posted)
      · exact fun posted => absent (List.mem_append_right _ posted)

/-- When the callback of the destructor's shutdown runs, nothing is posted. -/
theorem report_last {c : TcpConnection} {leaked : List Nat} {rest : List Bool} (sound : Sound c)
    (books : Books c leaked) (next : c.client.shutdowns = true :: rest) :
    Request.close ∉ c.client.requests ∧ c.client.posted = [] := by
  have executed : Request.shutdown true ∈ c.client.executed :=
    sound.asked.reported true (by rw [next]; exact List.mem_cons_self)
  have dead : c.destroyed = true :=
    sound.asked.final _ (List.mem_append_left _ executed) rfl
  have absent : Request.close ∉ c.client.requests := by
    intro asked
    have counted := List.count_pos_iff.mpr asked
    have closings := sound.asked.closings
    simp only [UvTcp.closings, next, List.count_cons_self, dead, Bool.toNat_true] at closings
    omega
  refine ⟨absent, posted_eq_nil (unwritten books (sound.dead dead)) ?_ ?_⟩
  · intro client posted
    have first : 0 < c.client.executed.countP Request.isShutdown :=
      List.countP_pos_iff.mpr ⟨_, executed, rfl⟩
    have second : 0 < c.client.posted.countP Request.isShutdown :=
      List.countP_pos_iff.mpr ⟨_, posted, rfl⟩
    have single := sound.asked.shutdowns
    rw [UvTcp.requests, List.countP_append] at single
    omega
  · exact fun posted => absent (List.mem_append_right _ posted)

/-- The end of a callback gives up what `givesUp` counts. -/
theorem holders_ending {c : TcpConnection} {leaked : List Nat} {frame : Frame}
    (books : Books c leaked) (running : c.frame = some frame) :
    0 < c.givesUp .finish ∧ c.holders = (c.ending frame).holders + c.givesUp .finish := by
  cases frame with
  | written context =>
      have live : context ∈ c.contexts := by
        rw [books.live.mem_iff]
        simp [pending, running, Frame.context?]
      have shorter := List.length_erase_of_mem live
      have some_left := List.length_pos_of_mem live
      simp only [ending, holders, givesUp, running, Frame.holds, deleteContext, shorter,
        Option.map_some, Option.map_none, Option.getD_some, Option.getD_none]
      omega
  | setUp => simp [ending, holders, givesUp, running, Frame.holds]
  | read => simp [ending, holders, givesUp, running, Frame.holds]
  | ended =>
      simp only [ending, holders, givesUp, running, Frame.holds, removeConnection,
        Option.map_some, Option.map_none, Option.getD_some, Option.getD_none, Bool.toNat_false]
      omega

theorem ordered_step {c c' : TcpConnection} {event : Event} {leaked : List Nat}
    (effect : Effect c event c') (sound : Sound c) (books : Books c leaked)
    (inTime : InTime c event) (ordered : NothingAfterClose c.client.requests) :
    NothingAfterClose c'.client.requests := by
  have after := books.step effect
  have fresh : 0 < c.holders → ∀ request ∈ c.client.requests, request.isFinal = false := by
    intro held request asked
    by_contra isFinal
    have dead := sound.asked.final request asked (by simpa using isFinal)
    rw [sound.alive held] at dead
    cases dead
  have absent : 0 < c.holders → .close ∉ c.client.requests :=
    fun held asked => nomatch fresh held _ asked
  cases effect with
  | sends callable =>
      apply nothingAfterClose_runInLoopThread (absent (holders_callable books callable))
      intro impossible
      cases impossible
  | shuts callable connected =>
      apply nothingAfterClose_runInLoopThread (absent (holders_callable books callable))
      intro impossible
      cases impossible
  | posts shutting =>
      have held : 0 < c.holders := by
        have := sound.calling shutting
        unfold holders
        omega
      apply nothingAfterClose_runInLoopThread (absent held)
      intro impossible
      cases impossible
  | runs idle next =>
      simp only [UvTcp.requests_run _ _ next]
      exact ordered
  | drops own =>
      have held := holders_own own
      apply settle_ordered (books_settle.mp after) (fresh held)
      rintro rfl unheld
      apply inTime (by simp [givesUp])
      simp only [holders, givesUp] at unheld held ⊢
      omega
  | @cancels context idle flying =>
      have held := holders_flying books flying
      apply settle_ordered (books_settle.mp after) (fresh held)
      intro _onLoop unheld
      apply inTime (by simp [givesUp])
      have shorter := List.length_erase_of_mem
        (show context ∈ c.contexts by
          rw [books.live.mem_iff]
          simp [pending, UvTcp.pending, flying])
      simp only [holders, givesUp, deleteContext, shorter] at unheld held ⊢
      omega
  | @shutDowns client rest idle next =>
      cases client with
      | false => exact ordered
      | true =>
          obtain ⟨absent, none_posted⟩ := report_last sound books next
          exact @nothingAfterClose_runInLoopThread { c.client with shutdowns := rest } .loop .close
            true absent (fun _ _ => none_posted)
  | @finishes frame running =>
      obtain ⟨given, balance⟩ := holders_ending books running
      have held := holders_frame books running
      rw [finish_eq] at after ⊢
      apply settle_ordered (books_settle.mp after)
      · rw [ending_requests]
        exact fresh held
      · intro _onLoop unheld
        rw [ending_posted]
        apply inTime given
        omega
  | _ => exact ordered

/-- In runs that never give up the last references on the loop thread while the closure
of shutdown() is queued, no write or shutdown is executed after the close. -/
theorem nothing_after_close {c : TcpConnection}
    (reachable : Transition.Reachable (system.restrict InTime) c) :
    NothingAfterClose c.client.executed := by
  have ordered : NothingAfterClose c.client.requests := by
    induction reachable with
    | start begins =>
        cases begins
        exact List.Pairwise.nil
    | next before taken ih =>
        obtain ⟨sound, leaked, books⟩ := reachable_sound before.of_restrict
        exact ordered_step (step_effect taken.2) sound books taken.1 ih
  exact (List.pairwise_append.mp ordered).1

instance (c : TcpConnection) (event : Event) : Decidable (InTime c event) :=
  inferInstanceAs (Decidable (_ → _ → _))

/-- A user shuts the connection down and drops it after the loop has run the closure. -/
def shutdownInTime : List Event :=
  [.copy, .finish, .shutdown .user, .post, .run true, .read .eof, .finish, .drop .user, .run true]

theorem nothing_after_close_in_time :
    ∃ c, Transition.Reachable (system.restrict InTime) c ∧ Request.close ∈ c.client.executed ∧
      NothingAfterClose c.client.executed := by
  have sound : ∀ c event, Transition.Reachable (system.restrict InTime) c →
      decide (InTime c event) = true → InTime c event := by
    intro c event _before inTime
    exact of_decide_eq_true inTime
  have found : ∃ c ∈ Transition.execute
      (Transition.checked (fun c event => decide (InTime c event)) step) accepted shutdownInTime,
      Request.close ∈ c.client.executed := by
    decide
  obtain ⟨c, within, closed⟩ := Transition.exists_reachable_within sound found
  exact ⟨c, within, closed, nothing_after_close within⟩

/-- The user drops the connection at once; the EOF is handled before the closure. -/
def shutdownTooLate : List Event :=
  [.copy, .finish, .shutdown .user, .post, .drop .user, .read .eof, .finish, .run true]

theorem shutdown_after_close :
    ∃ c, Transition.Reachable system c ∧ ¬ NothingAfterClose c.client.executed := by
  have found : ∃ c ∈ Transition.execute step accepted shutdownTooLate,
      c.client.executed = [.close, .shutdown false] := by
    decide
  obtain ⟨c, reachable, executed⟩ := Transition.exists_reachable found
  refine ⟨c, reachable, ?_⟩
  rw [executed]
  simp [NothingAfterClose]

/-! ### Contexts that are never deleted -/

/-- The live contexts are those of pending writes, every context is live or was deleted
once, and a connection that nobody holds and that has no write pending is destroyed,
with its handle closed as soon as the loop has done what was posted. -/
structure Conserved (c : TcpConnection) : Prop where
  live : c.contexts.Perm c.pending
  once : (c.contexts ++ c.released).Perm (List.range c.created)
  closed : c.registered = false → c.users = 0 → c.frame = none → c.pending = [] →
    c.destroyed = true ∧
      (c.client.posted = [] → c.client.shutdowns = [] → Request.close ∈ c.client.executed)

/-- No uv_write that is executed returns an error. -/
def Accepted (c : TcpConnection) (event : Event) : Prop :=
  c.lost event = []

theorem settle_settled {c : TcpConnection} {thread : Thread}
    (unheld : (c.settle thread).holders = 0) : (c.settle thread).destroyed = true := by
  rcases settle_cases c thread with ⟨held, same⟩ | ⟨_, same⟩
  · rw [same] at unheld
    exact absurd unheld held
  · rw [same]
    unfold destructor
    split_ifs <;> rfl

/-- The destructor does not wait. -/
theorem settled_step {c c' : TcpConnection} {event : Event} (effect : Effect c event c')
    (settled : c.holders = 0 → c.destroyed = true) : c'.holders = 0 → c'.destroyed = true := by
  cases effect with
  | drops own => exact settle_settled
  | cancels idle flying => exact settle_settled
  | finishes running =>
      rw [finish_eq]
      exact settle_settled
  | sends callable =>
      intro unheld
      simp [send, runInLoopThread, holders] at unheld
  | copies held =>
      intro unheld
      simp [holders] at unheld
  | ends idle reading alive state =>
      intro unheld
      simp [holders, Frame.holds] at unheld
  | reads idle reading alive =>
      intro unheld
      simp [holders, Frame.holds] at unheld
  | completes idle flying =>
      intro unheld
      apply settled
      simpa [holders, idle, Frame.holds] using unheld
  | @shutDowns client rest idle next => cases client <;> exact settled
  | _ => exact settled

theorem reachable_settled {c : TcpConnection} (reachable : Transition.Reachable system c) :
    c.holders = 0 → c.destroyed = true := by
  induction reachable with
  | start begins =>
      cases begins
      decide
  | next _before taken ih =>
      exact settled_step (step_effect taken) ih

theorem accepted_runs {c : TcpConnection}
    (reachable : Transition.Reachable (system.restrict Accepted) c) : Books c [] := by
  induction reachable with
  | start begins =>
      cases begins
      exact accepted_books
  | next _before taken ih =>
      have after := ih.step (step_effect taken.2)
      rw [taken.1] at after
      exact after

theorem contexts_conserved {c : TcpConnection}
    (reachable : Transition.Reachable (system.restrict Accepted) c) : Conserved c := by
  have books := accepted_runs reachable
  obtain ⟨sound, _⟩ := reachable_sound reachable.of_restrict
  have live : c.contexts.Perm c.pending := by simpa using books.live
  constructor
  · exact live
  · exact books.accounted
  · intro gone unused idle none_pending
    have dead : c.destroyed = true := by
      apply reachable_settled reachable.of_restrict
      rw [none_pending] at live
      simp [holders, gone, unused, idle, live.eq_nil]
    refine ⟨dead, fun none_posted none_shut => ?_⟩
    have closings := sound.asked.closings
    rw [dead] at closings
    apply List.count_pos_iff.mp
    simp [UvTcp.closings, UvTcp.requests, none_posted, none_shut] at closings
    omega

theorem contexts_conserved_whole_life :
    ∃ c, Transition.Reachable (system.restrict Accepted) c ∧ c.released = [0] ∧ Conserved c := by
  have sound : ∀ c event, Transition.Reachable (system.restrict Accepted) c →
      decide (c.lost event = []) = true → Accepted c event := by
    intro c event _before accepts
    have nothing_lost : c.lost event = [] := of_decide_eq_true accepts
    exact nothing_lost
  have found : ∃ c ∈ Transition.execute
      (Transition.checked (fun c event => decide (c.lost event = [])) step) accepted wholeLife,
      c.released = [0] := by
    decide
  obtain ⟨c, within, released⟩ := Transition.exists_reachable_within sound found
  exact ⟨c, within, released, contexts_conserved within⟩

/-- A send after shutdown() is refused by libuv; the EOF and the end of the callback
follow. -/
def refusedSend : List Event :=
  [.shutdown .loop, .send .loop false, .finish, .read .eof, .finish]

/-- Its context stays, and the connection with it. -/
theorem refused_send_leaks : ∃ c, Transition.Reachable system c ∧ ¬ Conserved c := by
  have found : ∃ c ∈ Transition.execute step accepted refusedSend,
      c.registered = false ∧ c.users = 0 ∧ c.frame = none ∧ c.client.writes = [] ∧
        c.client.posted = [] ∧ c.destroyed = false := by
    decide
  obtain ⟨c, reachable, gone, unused, idle, none_flying, none_posted, alive⟩ :=
    Transition.exists_reachable found
  refine ⟨c, reachable, fun conserved => ?_⟩
  have none_pending : c.pending = [] := by
    simp [pending, UvTcp.pending, none_flying, none_posted, idle]
  have dead := (conserved.closed gone unused idle none_pending).1
  rw [alive] at dead
  cases dead

end Uvcpp.TcpConnection
