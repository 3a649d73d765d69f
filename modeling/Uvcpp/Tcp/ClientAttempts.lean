/-
The attempts of a TcpClient.

The completion of an attempt finds its handle through client_, which the next connectImpl
overwrites, and closes the client itself when uv_read_start fails.
-/

import Uvcpp.Tcp.ClientOwnership

namespace Uvcpp.TcpClient

/-! ### What a completion acts on -/

/-- A success makes the attempt's handle that of the new connection; only the handle of the
connection replaced may change with it.  Otherwise that handle is closed, and nothing
else. -/
def ActsOnOwn (s s' : TcpClient) (handle : Nat) (success : Bool) : Prop :=
  s'.fault = none ∧
    if success then
      s'.connectionPtr = some s.made ∧
        s'.connections s.made = { client := handle, state := .connected, destroyed := false } ∧
        s'.data handle = some s.made ∧ s'.handles handle = (s.handles handle).readStart ∧
        ∀ other, other ≠ handle →
          (∀ old, s.connectionPtr = some old → (s.connections old).client ≠ other) →
          s'.handles other = s.handles other
    else s'.handles = Function.update s.handles handle (s.handles handle).close

/-- The handle that client_ names now is not the attempt's own unless it is the latest. -/
theorem inTurn_of_acts {s : TcpClient} {handle : Nat} {status ret : Bool} (owned : Owned s)
    (alive : s.alive = true) (member : handle ∈ s.connecting)
    (acts : ActsOnOwn s
      ({ s with connecting := s.connecting.erase handle }.connectionCallback status ret) handle
      (status && ret)) : InTurn s (.complete handle status ret) := by
  have made := owned.made handle (List.mem_append_right _ member)
  obtain ⟨last, latest⟩ : ∃ last, last + 1 = s.created := ⟨s.created - 1, by omega⟩
  rw [connectionCallback_eq (s := { s with connecting := s.connecting.erase handle }) alive
    (owned.current last latest)] at acts
  obtain ⟨sound, acts⟩ := acts
  have own : last = handle := by
    cases status with
    | false =>
        by_contra apart
        have changed : Function.update s.handles last (s.handles last).close handle =
            Function.update s.handles handle (s.handles handle).close handle :=
          congrFun acts handle
        rw [Function.update_of_ne (Ne.symm apart), Function.update_self] at changed
        have longer := congrArg UvTcp.executed changed
        simp [UvTcp.close] at longer
    | true =>
        cases ret with
        | false => cases sound
        | true =>
            have older : ∀ old, s.connectionPtr = some old → old < s.made :=
              fun old was => (owned.held old (held_eq_true.mpr (.inl was))).1
            have connection := (makeShared_replaced (s := { s with
              connecting := s.connecting.erase handle }.setHandle last
                (s.handles last).readStart) last older).connection
            have theirs := acts.2.1
            exact congrArg Connection.client (connection.symm.trans theirs)
  refine ⟨by omega, ?_⟩
  rintro rfl
  cases ret with
  | false => cases sound
  | true => rfl

theorem acts_of_inTurn {s : TcpClient} {handle : Nat} {status ret : Bool} (owned : Owned s)
    (alive : s.alive = true) (sound : s.fault = none) (member : handle ∈ s.connecting)
    (inTurn : InTurn s (.complete handle status ret)) :
    ActsOnOwn s
      ({ s with connecting := s.connecting.erase handle }.connectionCallback status ret) handle
      (status && ret) := by
  obtain ⟨latest, started⟩ := inTurn
  have unowned := owned.unowned handle (List.mem_append_right _ member)
  rw [connectionCallback_eq (s := { s with connecting := s.connecting.erase handle }) alive
    (owned.current handle latest)]
  cases status with
  | false => exact ⟨sound, rfl⟩
  | true =>
      cases started rfl
      have older : ∀ old, s.connectionPtr = some old → old < s.made :=
        fun old was => (owned.held old (held_eq_true.mpr (.inl was))).1
      have replaced := makeShared_replaced (s := { s with
        connecting := s.connecting.erase handle }.setHandle handle
          (s.handles handle).readStart) handle older
      refine ⟨replaced.fault.trans sound, replaced.pointer, replaced.connection, ?_, ?_, ?_⟩
      · exact (congrFun replaced.data handle).trans (Function.update_self ..)
      · apply (replaced.others handle fun old was => unowned old (older old was)).trans
        exact Function.update_self ..
      · intro other apart theirs
        apply (replaced.others other theirs).trans
        exact Function.update_of_ne apart _ _

/-- In runs in which only the latest attempt completes, and uv_read_start does not fail,
every handle is closed at most once; and there a completion acts on its own handle
exactly when it keeps to this. -/
theorem attempts_act_on_own {s : TcpClient}
    (reachable : Transition.Reachable (system.restrict InTurn) s) :
    (∀ handle, (s.handles handle).executed.count .close ≤ 1) ∧
    ∀ handle status ret s', step s (.complete handle status ret) = some s' →
      (ActsOnOwn s s' handle (status && ret) ↔ InTurn s (.complete handle status ret)) := by
  have owned := inTurn_owned reachable
  constructor
  · intro handle
    have closings := owned.once handle
    rw [UvTcp.closings, UvTcp.requests, List.count_append] at closings
    omega
  · intro handle status ret s' taken
    have alive := reachable_alive reachable.of_restrict
    obtain ⟨sound, effect⟩ := step_effect taken
    cases effect with
    | completes idle member =>
        constructor
        · exact inTurn_of_acts owned alive member
        · exact acts_of_inTurn owned alive sound member

instance (s : TcpClient) : DecidablePred (InTurn s)
  | .complete handle status ret =>
      inferInstanceAs (Decidable (handle + 1 = s.created ∧ (status = true → ret = true)))
  | .connect .. | .setRetryNum .. | .start .. | .timer .. | .read .. | .finish | .run ..
  | .shutDown .. | .release => isTrue trivial

/-- A failure, and the retry that succeeds. -/
def retried : List Event :=
  [.connect .user true, .start 0 true, .complete 0 false true, .timer true, .complete 1 true true]

theorem attempts_act_on_own_retried :
    ∃ s, Transition.Reachable (system.restrict InTurn) s ∧
      (s.handles 0).executed.count .close = 1 ∧ s.connectionPtr = some 0 ∧
      ∀ handle, (s.handles handle).executed.count .close ≤ 1 := by
  have sound : ∀ s event, Transition.Reachable (system.restrict InTurn) s →
      decide (InTurn s event) = true → InTurn s event := by
    intro s event _before inTurn
    exact of_decide_eq_true inTurn
  have found : ∃ s ∈ Transition.execute
      (Transition.checked (fun s event => decide (InTurn s event)) step) start retried,
      (s.handles 0).executed.count .close = 1 ∧ s.connectionPtr = some 0 := by
    decide
  obtain ⟨s, within, closed, pointed⟩ := Transition.exists_reachable_within sound found
  exact ⟨s, within, closed, pointed, (attempts_act_on_own within).1⟩

/-- Two attempts at once, which both fail. -/
def overlapping : List Event :=
  [.connect .loop true, .connect .loop true, .complete 0 false true, .complete 1 false true]

/-- The second handle is closed twice and the first never.  A failing uv_read_start closes
the client. -/
theorem attempts_mix_handles :
    (∃ s, Transition.Reachable system s ∧ (s.handles 0).executed = [] ∧
      (s.handles 1).executed = [.close, .close]) ∧
    ∃ s, Transition.Reachable system s ∧ (s.handles 0).executed = [] ∧
      s.fault = some .closedClient := by
  constructor
  · have found : ∃ s ∈ Transition.execute step start overlapping,
        (s.handles 0).executed = [] ∧ (s.handles 1).executed = [.close, .close] := by
      decide
    exact Transition.exists_reachable found
  · have found : ∃ s ∈ Transition.execute step start
        [.connect .loop true, .complete 0 true false],
        (s.handles 0).executed = [] ∧ s.fault = some .closedClient := by
      decide
    exact Transition.exists_reachable found

end Uvcpp.TcpClient
