/-
The program of BoundedBlockingQueue refines its critical sections.

A section takes effect at its wait or at its change of the queue.  From the change
to the notification the sleepers it concerns count as notified, and until the mutex is
given back its call counts as completed, since only the owner of the mutex could tell the
difference.
-/

import Uvcpp.Thread.BoundedBlockingQueue

namespace Uvcpp.BoundedBlockingQueue

open Monitor

variable {Thread Elem : Type}

/-! ### The program -/

inductive Moves : Local Elem → Shared Elem → Shared Elem → Local Elem → Prop where
  | call {sh : Shared Elem} {returned : Option Elem} {call : Call Elem} :
      Moves (.outside returned) sh sh (.locking call)
  | full {sh : Shared Elem} {call : Call Elem} (blocks : sh.blocks call = true) :
      Moves (.testing call) sh sh (.waiting call)
  | room {sh : Shared Elem} {call : Call Elem} (blocks : sh.blocks call = false) :
      Moves (.testing call) sh sh (.changing call)
  | change {sh : Shared Elem} {call : Call Elem} {changed : Shared Elem × Option Elem}
      (taken : sh.change call = some changed) :
      Moves (.changing call) sh changed.1 (.notifying call changed.2)

theorem moves {t : Thread} {l next : Local Elem}
    {action : Call Elem → Shared Elem → Option (Shared Elem × Local Elem)}
    {choice : Call Elem} {sh sh' : Shared Elem} (acts : code t l = .act action)
    (result : action choice sh = some (sh', next)) : Moves l sh sh' next := by
  cases l <;> cases acts
  case outside =>
    cases result
    exact .call
  case testing call =>
    by_cases blocks : sh.blocks call = true
    · simp only [blocks, if_true] at result
      cases result
      exact .full blocks
    · simp only [blocks] at result
      cases result
      exact .room (Bool.eq_false_iff.mpr blocks)
  case changing call =>
    obtain ⟨changed, taken, same⟩ := Option.map_eq_some_iff.mp result
    cases same
    exact .change taken

def inside (_ : Thread) : Local Elem → Prop
  | .outside _ => False
  | .locking _ => False
  | _ => True

/-- Between the test and what follows it the queue does not change. -/
def assertion (_ : Thread) (l : Local Elem) (sh : Shared Elem) : Prop :=
  match l with
  | .waiting call => sh.blocks call = true
  | .changing call => sh.blocks call = false
  | _ => True

theorem new_exclusive {maxSize : Nat} :
    Exclusive code inside (new maxSize : State Thread Cond (Shared Elem) (Local Elem)) :=
  .fresh ⟨rfl, fun _ => rfl⟩ fun _ => id

theorem locking : Locking (@code Thread Elem) inside := by
  constructor
  · intro t l next same
    cases l <;> cases same
    exact ⟨id, trivial⟩
  · intro t l next same
    cases l <;> cases same
    exact ⟨trivial, id⟩
  · intro t l cond next same
    cases l <;> cases same
    exact ⟨trivial, trivial⟩
  · intro t l cond next same
    cases l <;> cases same
    exact Iff.rfl
  · intro t l action choice sh sh' next acts result
    cases moves acts result <;> exact Iff.rfl

theorem outline : Outline (@code Thread Elem) inside (fun _ => True) assertion
    (fun _ _ _ => True) := by
  constructor
  · intro t l next sh same _free _holds
    cases l <;> cases same
    trivial
  · intro t l next sh same _holds
    cases l <;> cases same
    exact ⟨trivial, trivial⟩
  · intro t l cond next sh _same _holds
    exact ⟨trivial, trivial⟩
  · intro t l cond next sh same _free _rests
    cases l <;> cases same
    trivial
  · intro t l cond next sh same _holds
    cases l <;> cases same
    trivial
  · intro t l action choice sh sh' next acts result holds
    refine ⟨?_, fun _ _ => trivial⟩
    cases moves acts result with
    | call => trivial
    | full blocks => exact blocks
    | room blocks => exact blocks
    | change taken => trivial
  · intro t l action choice sh sh' next acts result _holds u k _other apart keeps
    cases moves acts result with
    | call => exact keeps
    | full blocks => exact keeps
    | room blocks => exact keeps
    | change taken =>
        cases k
        case waiting | changing => exact absurd ⟨trivial, trivial⟩ apart
        all_goals trivial
  · intro t l action choice sh sh' next _acts _result _holds u k _other _rests
    trivial

section Reachable

variable [DecidableEq Thread]
variable {maxSize : Nat} {s : State Thread Cond (Shared Elem) (Local Elem)}

theorem exclusive (reachable : Transition.Reachable (program Thread Elem maxSize) s) :
    Exclusive code inside s := by
  apply locking.exclusive _ reachable
  rintro s rfl
  exact new_exclusive

theorem annotated (reachable : Transition.Reachable (program Thread Elem maxSize) s) :
    Annotated (fun _ => True) assertion (fun _ _ _ => True) s := by
  apply outline.annotated locking _ reachable
  rintro s rfl
  exact ⟨new_exclusive, fun _ => trivial, fun _ _ => trivial, fun _ _ => trivial⟩

end Reachable

/-! ### The view of a state -/

/-- The condition whose waiters the owner of the mutex is about to notify. -/
def owed (s : State Thread Cond (Shared Elem) (Local Elem)) : Option Cond :=
  match s.owner.map s.location with
  | some (.notifying call _) => some call.signals
  | _ => none

/-- The call that has changed the queue and has still to return. -/
@[simp] def Local.done : Local Elem → List (Deed Elem)
  | .notifying call returned => [(call, returned)]
  | .unlocking call returned => [(call, returned)]
  | _ => []

/-- The call that the owner of the mutex is about to return from. -/
def returning (s : State Thread Cond (Shared Elem) (Local Elem)) : List (Deed Elem) :=
  (s.owner.map fun t => (s.location t).done).getD []

def statusAt (owed : Option Cond) (l : Local Elem) (standing : Standing Cond) : Status Elem :=
  match l, standing with
  | .outside returned, _ => .outside returned
  | .locking call, _ => .entering call
  | .testing call, _ => .entering call
  | .waiting call, .asleep _ =>
      if owed = some call.awaits then .entering call else .asleep call
  | .waiting call, _ => .entering call
  | .changing call, _ => .entering call
  | .notifying _ returned, _ => .outside returned
  | .unlocking _ returned, _ => .outside returned

def view (s : State Thread Cond (Shared Elem) (Local Elem)) : Sections Thread Elem :=
  { shared := s.shared
    status := fun t => statusAt (owed s) (s.location t) (s.standing t) }

/-! ### The view of a step -/

theorem statusAt_owed (cond : Cond) (l : Local Elem) (standing : Standing Cond) :
    statusAt (some cond) l standing = (statusAt none l standing).notified cond := by
  cases l with
  | waiting call =>
      cases standing with
      | asleep other =>
          by_cases same : call.awaits = cond
          · simp [statusAt, Status.notified, same]
          · have apart : cond ≠ call.awaits := fun equal => same equal.symm
            simp [statusAt, Status.notified, same, apart]
      | running => rfl
      | woken => rfl
  | _ => rfl

section Step

variable {s s' : State Thread Cond (Shared Elem) (Local Elem)}

theorem view_same (shared : s'.shared = s.shared)
    (status : ∀ t, (view s').status t = (view s).status t) : view s' = view s := by
  unfold view at status ⊢
  rw [shared]
  congr 1
  exact funext status

theorem returning_owner {t : Thread} (owned : s.owner = some t) :
    returning s = (s.location t).done := by
  simp [returning, owned]

theorem returning_free (free : s.owner = none) : returning s = [] := by
  rw [returning, free]
  rfl

variable [DecidableEq Thread]

/-- A thread keeps its status, and nobody owes a notification. -/
theorem view_still {t : Thread} (shared : s'.shared = s.shared) (before : owed s = none)
    (after : owed s' = none) (own : (view s').status t = (view s).status t)
    (others : ∀ u, u ≠ t → s'.location u = s.location u ∧ s'.standing u = s.standing u) :
    view s' = view s := by
  apply view_same shared
  intro u
  by_cases same : u = t
  · rw [same]
    exact own
  · obtain ⟨location, standing⟩ := others u same
    simp only [view, before, after, location, standing]

theorem view_turn {t : Thread} (shared : s'.shared = s.shared)
    (others : ∀ u, u ≠ t → (view s').status u = (view s).status u) :
    view s' = (view s).turn t ((view s').status t) := by
  unfold Sections.turn
  have status : (view s').status = Function.update (view s).status t ((view s').status t) := by
    funext u
    by_cases same : u = t
    · subst same
      rw [Function.update_self]
    · rw [Function.update_of_ne same]
      exact others u same
  rw [← status]
  simp only [view, shared]

theorem view_wakes {t : Thread} {cond : Cond} (exclusive : Exclusive code inside s)
    (asleep : s.standing t = .asleep cond) :
    view (s.stand t .woken) = view s ∨
      (view s).step (.wake t) = some (view (s.stand t .woken)) := by
  have others : ∀ u, u ≠ t → (view (s.stand t .woken)).status u = (view s).status u := by
    intro u other
    simp only [view, State.stand_other s _ other]
    rfl
  obtain ⟨next, waits⟩ := exclusive.sleeps t cond asleep
  obtain ⟨call, place⟩ : ∃ call, s.location t = .waiting call := by
    generalize s.location t = l at waits
    cases l <;> cases waits
    exact ⟨_, rfl⟩
  have after : (view (s.stand t .woken)).status t = .entering call := by
    simp only [view, State.stand_self]
    rw [show (s.stand t .woken).location t = .waiting call from place]
    rfl
  have turned : view (s.stand t .woken) =
      (view s).turn t ((view (s.stand t .woken)).status t) := view_turn rfl others
  rw [after] at turned
  by_cases debt : owed s = some call.awaits
  · left
    apply view_same
    · rfl
    · intro u
      by_cases same : u = t
      · subst same
        rw [after]
        simp [view, place, asleep, statusAt, debt]
      · exact others u same
  · right
    have before : (view s).status t = .asleep call := by
      simp [view, place, asleep, statusAt, debt]
    simp only [Sections.step, before]
    rw [turned]

/-- A thread that waits enters its section and finds it blocked. -/
theorem view_waits {t : Thread} {call : Call Elem} (running : s.standing t = .running)
    (place : s.location t = .waiting call) (owned : s.owner = some t)
    (blocks : s.shared.blocks call = true) :
    (view s).step (.enter t) =
      some (view { s.stand t (.asleep call.awaits) with owner := none }) := by
  have debt : owed s = none := by simp [owed, owned, place]
  have before : (view s).status t = .entering call := by
    simp [view, place, running, statusAt]
  have turned : view { s.stand t (.asleep call.awaits) with owner := none } =
      (view s).turn t ((view { s.stand t (.asleep call.awaits) with owner := none }).status t) := by
    apply view_turn
    · rfl
    · intro u other
      simp [view, owed, State.stand, other, owned, place]
  have after : (view { s.stand t (.asleep call.awaits) with owner := none }).status t =
      .asleep call := by
    simp [view, owed, State.stand, place, statusAt]
  rw [after] at turned
  simp only [Sections.step, before, Sections.enter]
  rw [if_pos (show (view s).shared.blocks call = true from blocks), turned]

/-- Before its notification the sleepers already count as notified. -/
theorem view_notifies {t : Thread} {call : Call Elem} {returned : Option Elem}
    (exclusive : Exclusive code inside s) (place : s.location t = .notifying call returned)
    (owned : s.owner = some t) :
    view ((s.notify call.signals).moveTo t (.unlocking call returned)) = view s := by
  have debt : owed s = some call.signals := by simp [owed, owned, place]
  have paid : owed ((s.notify call.signals).moveTo t (.unlocking call returned)) = none := by
    simp [owed, State.moveTo, State.notify, owned]
  apply view_same
  · rfl
  · intro u
    simp only [view, debt, paid]
    by_cases same : u = t
    · subst same
      simp [State.moveTo, State.notify, place, statusAt]
    · have kept : ((s.notify call.signals).moveTo t (.unlocking call returned)).location u =
          s.location u :=
        Function.update_of_ne same _ _
      rw [kept, statusAt_owed]
      simp only [State.moveTo, State.notify]
      by_cases asleep : s.standing u = .asleep call.signals
      · obtain ⟨next, waits⟩ := exclusive.sleeps u _ asleep
        rw [if_pos asleep, asleep]
        generalize s.location u = l at waits
        cases l with
        | waiting other =>
            have awaits : other.awaits = call.signals := by
              injection waits
            simp [statusAt, Status.notified, awaits]
        | _ => cases waits
      · rw [if_neg asleep]
        cases standing : s.standing u with
        | asleep cond =>
            obtain ⟨next, waits⟩ := exclusive.sleeps u _ standing
            generalize s.location u = l at waits
            cases l with
            | waiting other =>
                have awaits : other.awaits = cond := by
                  injection waits
                have apart : other.awaits ≠ call.signals := by
                  rintro equal
                  rw [standing, ← awaits, equal] at asleep
                  exact asleep rfl
                simp [statusAt, Status.notified, apart]
            | _ => cases waits
        | running => cases s.location u <;> rfl
        | woken => cases s.location u <;> rfl

/-- The change of the queue is the section of its call. -/
theorem view_change {t : Thread} {call : Call Elem} {changed : Shared Elem × Option Elem}
    (running : s.standing t = .running) (place : s.location t = .changing call)
    (owned : s.owner = some t) (room : s.shared.blocks call = false)
    (taken : s.shared.change call = some changed) :
    (view s).step (.enter t) =
      some (view { s.moveTo t (.notifying call changed.2) with shared := changed.1 }) := by
  have debt : owed s = none := by simp [owed, owned, place]
  have before : (view s).status t = .entering call := by
    simp [view, place, running, statusAt]
  have status :
      (view { s.moveTo t (.notifying call changed.2) with shared := changed.1 }).status =
        Function.update (fun u => ((view s).status u).notified call.signals) t
          (.outside changed.2) := by
    funext u
    by_cases same : u = t
    · subst same
      simp [view, State.moveTo, statusAt]
    · simp [view, owed, State.moveTo, same, owned, place, statusAt_owed]
  have blocked : (view s).shared.blocks call = false := room
  have after : (view s).shared.change call = some changed := taken
  simp only [Sections.step, before, Sections.enter, blocked, after, Bool.false_eq_true, if_false,
    Option.map_some, ← status]
  rfl

theorem view_call {t : Thread} {call : Call Elem} {returned : Option Elem} {sh : Shared Elem}
    (place : s.location t = .outside returned) (unchanged : s.shared = sh)
    (outside : s.owner ≠ some t) :
    (view s).step (.call t call) =
      some (view { s.moveTo t (.locking call) with shared := sh }) := by
  have debt : owed { s.moveTo t (.locking call) with shared := sh } = owed s := by
    unfold owed
    congr 1
    simp only [State.moveTo]
    cases owner : s.owner with
    | none => rfl
    | some u =>
        have other : u ≠ t := by
          rintro rfl
          exact outside owner
        simp [other]
  have before : (view s).status t = .outside returned := by
    simp [view, place, statusAt]
  have turned : view { s.moveTo t (.locking call) with shared := sh } =
      (view s).turn t ((view { s.moveTo t (.locking call) with shared := sh }).status t) := by
    apply view_turn
    · exact unchanged.symm
    · intro u other
      simp only [view, debt]
      simp [State.moveTo, other]
  have after : (view { s.moveTo t (.locking call) with shared := sh }).status t =
      .entering call := by
    simp [view, State.moveTo, statusAt]
  rw [after] at turned
  simp only [Sections.step, before, turned]

/-- What a step of the program is to the sections, whose completed calls are those that are
back and the one about to return. -/
def Refined (s : State Thread Cond (Shared Elem) (Local Elem)) (event : Event Thread (Call Elem))
    (s' : State Thread Cond (Shared Elem) (Local Elem)) : Prop :=
  (view s' = view s ∧ completes s event s' ++ returning s' = returning s) ∨
    ∃ event', (view s).step event' = some (view s') ∧
      completes s event s' ++ returning s' =
        returning s ++ (view s).completes event' (view s')

/-- Nothing is completed in the view of a step. -/
theorem Refined.quiet {event : Event Thread (Call Elem)}
    (seen : view s' = view s ∨
      ∃ event', (view s).step event' = some (view s') ∧
        (view s).completes event' (view s') = [])
    (completed : completes s event s' = []) (same : returning s' = returning s) :
    Refined s event s' := by
  rcases seen with unseen | ⟨event', taken, nothing⟩
  · left
    rw [completed, same]
    exact ⟨unseen, rfl⟩
  · right
    refine ⟨event', taken, ?_⟩
    rw [completed, same, nothing, List.nil_append, List.append_nil]

theorem refined_waits {t : Thread} {choice : Call Elem} {call : Call Elem}
    (running : s.standing t = .running) (place : s.location t = .waiting call)
    (owned : s.owner = some t) (blocks : s.shared.blocks call = true) :
    Refined s (.run t choice) { s.stand t (.asleep call.awaits) with owner := none } := by
  apply Refined.quiet
  · right
    refine ⟨.enter t, view_waits running place owned blocks, ?_⟩
    simp [Sections.completes, view, owed, statusAt, State.stand, place]
  · simp [completes, place]
  · rw [returning_free rfl, returning_owner owned, place]
    rfl

theorem refined_notifies {t : Thread} {choice : Call Elem} {call : Call Elem}
    {returned : Option Elem} (exclusive : Exclusive code inside s)
    (place : s.location t = .notifying call returned) (owned : s.owner = some t) :
    Refined s (.run t choice) ((s.notify call.signals).moveTo t (.unlocking call returned)) := by
  apply Refined.quiet
  · exact .inl (view_notifies exclusive place owned)
  · simp [completes, place]
  · have kept : ((s.notify call.signals).moveTo t (.unlocking call returned)).owner = some t :=
      owned
    rw [returning_owner kept, returning_owner owned, State.moveTo_self, place]
    rfl

theorem refined_change {t : Thread} {choice : Call Elem} {call : Call Elem}
    {changed : Shared Elem × Option Elem} (running : s.standing t = .running)
    (place : s.location t = .changing call) (owned : s.owner = some t)
    (room : s.shared.blocks call = false) (taken : s.shared.change call = some changed) :
    Refined s (.run t choice)
      { s.moveTo t (.notifying call changed.2) with shared := changed.1 } := by
  right
  refine ⟨.enter t, view_change running place owned room taken, ?_⟩
  have kept : ({ s.moveTo t (.notifying call changed.2) with shared := changed.1 } :
      State Thread Cond (Shared Elem) (Local Elem)).owner = some t := owned
  rw [returning_owner kept, returning_owner owned, place]
  simp [completes, Sections.completes, view, statusAt, State.moveTo, place, running]

theorem refined_unlocks {t : Thread} {choice : Call Elem} {call : Call Elem}
    {returned : Option Elem} (place : s.location t = .unlocking call returned)
    (owned : s.owner = some t) :
    Refined s (.run t choice) { s.moveTo t (.outside returned) with owner := none } := by
  left
  constructor
  · apply view_still (t := t)
    · rfl
    · simp [owed, owned, place]
    · rfl
    · simp [view, statusAt, State.moveTo, place]
    · intro u other
      simp [State.moveTo, other]
  · rw [returning_free rfl, returning_owner owned, place]
    simp [completes, State.moveTo, place]

/-- A waiter that was woken takes the mutex. -/
theorem refined_resumes {t : Thread} {choice : Call Elem} {call : Call Elem}
    (woken : s.standing t = .woken) (place : s.location t = .waiting call)
    (free : s.owner = none) :
    Refined s (.run t choice)
      { (s.stand t .running).moveTo t (.testing call) with owner := some t } := by
  apply Refined.quiet
  · left
    apply view_still (t := t)
    · rfl
    · simp [owed, free]
    · simp [owed, State.moveTo]
    · simp [view, statusAt, State.moveTo, State.stand, place, woken]
    · intro u other
      simp [State.moveTo, State.stand, other]
  · simp [completes, place]
  · rw [returning_free free, returning_owner rfl]
    simp [State.moveTo, State.stand]

theorem refined_locks {t : Thread} {choice : Call Elem} {call : Call Elem}
    (place : s.location t = .locking call) (free : s.owner = none) :
    Refined s (.run t choice) { s.moveTo t (.testing call) with owner := some t } := by
  apply Refined.quiet
  · left
    apply view_still (t := t)
    · rfl
    · simp [owed, free]
    · simp [owed, State.moveTo]
    · simp [view, statusAt, State.moveTo, place]
    · intro u other
      simp [State.moveTo, other]
  · simp [completes, place]
  · rw [returning_free free, returning_owner rfl]
    simp [State.moveTo]

/-- The condition is tested; the call will wait or change the queue. -/
theorem refined_tests {t : Thread} {choice : Call Elem} {call : Call Elem} {next : Local Elem}
    {sh : Shared Elem} (running : s.standing t = .running)
    (place : s.location t = .testing call) (owned : s.owner = some t)
    (unchanged : s.shared = sh) (goes : next = .waiting call ∨ next = .changing call) :
    Refined s (.run t choice) { s.moveTo t next with shared := sh } := by
  apply Refined.quiet
  · left
    apply view_still (t := t)
    · exact unchanged.symm
    · simp [owed, owned, place]
    · rcases goes with rfl | rfl <;> simp [owed, State.moveTo, owned]
    · rcases goes with rfl | rfl <;> simp [view, statusAt, State.moveTo, place, running]
    · intro u other
      simp [State.moveTo, other]
  · simp [completes, place]
  · rcases goes with rfl | rfl <;> simp [returning, State.moveTo, owned, place]

/-- A call of another thread does not concern the owner of the mutex. -/
theorem refined_call {t : Thread} {choice : Call Elem} {call : Call Elem}
    {returned : Option Elem} {sh : Shared Elem} (place : s.location t = .outside returned)
    (unchanged : s.shared = sh) (outside : s.owner ≠ some t) :
    Refined s (.run t choice) { s.moveTo t (.locking call) with shared := sh } := by
  apply Refined.quiet
  · exact .inr ⟨.call t call, view_call place unchanged outside, rfl⟩
  · simp [completes, place]
  · unfold returning
    cases owner : s.owner with
    | none => simp [State.moveTo, owner]
    | some u =>
        have other : u ≠ t := by
          rintro rfl
          exact outside owner
        simp [State.moveTo, owner, other]

/-- A step of the program is a section, an event of the sections, or no change. -/
theorem view_step {event : Event Thread (Call Elem)} (effect : Effect code s event s')
    (exclusive : Exclusive code inside s)
    (annotated : Annotated (fun _ => True) assertion (fun _ _ _ => True) s) :
    Refined s event s' := by
  cases effect with
  | @wakes t cond asleep =>
      apply Refined.quiet
      · rcases view_wakes exclusive asleep with same | taken
        · exact .inl same
        · exact .inr ⟨.wake t, taken, rfl⟩
      · rfl
      · rfl
  | @resumes t choice cond next woken waits free =>
      generalize place : s.location t = l at waits
      cases l <;> cases waits
      exact refined_resumes woken place free
  | @locks t choice next running locks free =>
      generalize place : s.location t = l at locks
      cases l <;> cases locks
      exact refined_locks place free
  | @unlocks t choice next running unlocks owned =>
      generalize place : s.location t = l at unlocks
      cases l <;> cases unlocks
      exact refined_unlocks place owned
  | @waits t choice cond next running waits owned =>
      have holds := annotated.running t running
      generalize place : s.location t = l at waits holds
      cases l <;> cases waits
      exact refined_waits running place owned holds
  | @notifies t choice cond next running notifies =>
      have owned := exclusive.holds t
      generalize place : s.location t = l at notifies owned
      cases l <;> cases notifies
      exact refined_notifies exclusive place (owned.2 ⟨running, trivial⟩)
  | @acts t choice action sh next running acts result =>
      have owned := exclusive.holds t
      have holds := annotated.running t running
      have move := moves acts result
      generalize place : s.location t = l at move owned holds
      generalize unchanged : s.shared = before at move holds
      cases move with
      | @call _ returned call =>
          have outside : s.owner ≠ some t := fun owner => (owned.1 owner).2
          exact refined_call place unchanged outside
      | full blocks =>
          have owner := owned.2 ⟨running, trivial⟩
          exact refined_tests running place owner unchanged (.inl rfl)
      | room blocks =>
          have owner := owned.2 ⟨running, trivial⟩
          exact refined_tests running place owner unchanged (.inr rfl)
      | change taken =>
          subst unchanged
          exact refined_change running place (owned.2 ⟨running, trivial⟩) holds taken

end Step

section Refines

variable [DecidableEq Thread]
variable {maxSize : Nat} {s : State Thread Cond (Shared Elem) (Local Elem)}

/-- The program with its record makes runs of the sections with theirs. -/
theorem program_refines_sections {deeds : List (Deed Elem)}
    (reachable : Transition.Reachable (recordedProgram Thread Elem maxSize) (s, deeds)) :
    Transition.Reachable (recordedSections Thread Elem maxSize)
      (view s, deeds ++ returning s) := by
  apply reachable.simulate fun r => (view r.1, r.2 ++ returning r.1)
  · rintro r rfl
    rfl
  · rintro ⟨s, deeds⟩ event ⟨s', deeds'⟩ before taken
    obtain ⟨moved, recorded⟩ := Transition.recorded_taken taken
    have reachable := before.of_recorded
    dsimp only at moved recorded reachable
    subst recorded
    rcases view_step (step_effect moved) (exclusive reachable) (annotated reachable) with
      ⟨same, records⟩ | ⟨event', seen, records⟩
    · left
      rw [List.append_assoc, records, same]
    · right
      refine ⟨event', ?_⟩
      change (Sections.step _ _).map _ = _
      rw [seen, List.append_assoc, records, ← List.append_assoc]
      rfl

theorem program_sound (reachable : Transition.Reachable (program Thread Elem maxSize) s) :
    ∃ deeds, (view s).Sound maxSize deeds := by
  obtain ⟨deeds, recorded⟩ := reachable.exists_record
  exact ⟨_, sections_sound (program_refines_sections recorded)⟩

/-- Who sleeps while his condition is ready is about to be notified. -/
theorem program_watchful (reachable : Transition.Reachable (program Thread Elem maxSize) s)
    {t : Thread} {cond : Cond} (asleep : s.standing t = .asleep cond)
    (isReady : s.shared.ready cond) : owed s = some cond := by
  obtain ⟨deeds, sound⟩ := program_sound reachable
  obtain ⟨next, waits⟩ := (exclusive reachable).sleeps t cond asleep
  generalize place : s.location t = l at waits
  cases l <;> cases waits
  rename_i call
  by_contra undue
  have status : (view s).status t = .asleep call := by
    simp [view, place, asleep, statusAt, undue]
  exact sound.awake t call status isReady

end Refines

/-- Between critical sections the queue is a bounded FIFO of what the completed calls put and
returned, and nobody sleeps through a ready condition.  Inside one, the call that is about to
return counts too, and only its own notification may be outstanding. -/
theorem bounded_fifo_watchful (Thread Elem : Type) [DecidableEq Thread] (maxSize : Nat) :
    (∀ s deeds, Transition.Reachable (recordedSections Thread Elem maxSize) (s, deeds) →
        s.Sound maxSize deeds) ∧
      ∀ s deeds, Transition.Reachable (recordedProgram Thread Elem maxSize) (s, deeds) →
        s.shared.queue.length ≤ maxSize ∧ Fifo (deeds ++ returning s) s.shared.queue ∧
          (s.owner = none → Fifo deeds s.shared.queue) ∧ s.shared.maxSize = maxSize ∧
            ∀ t cond, s.standing t = .asleep cond → s.shared.ready cond →
              owed s = some cond := by
  constructor
  · intro s deeds reachable
    exact sections_sound reachable
  · intro s deeds reachable
    have sound := sections_sound (program_refines_sections reachable)
    refine ⟨sound.bound, sound.fifo, ?_, sound.size, ?_⟩
    · intro free
      have fifo := sound.fifo
      rwa [returning_free free, List.append_nil] at fifo
    · intro t cond asleep isReady
      exact program_watchful reachable.of_recorded asleep isReady

/-- A consumer waits on the empty queue, is woken by a put and returns its element. -/
def handOver : List (Event Nat (Call Nat)) :=
  List.replicate 4 (.run 0 .take) ++ List.replicate 6 (.run 1 (.put 7)) ++
    List.replicate 5 (.run 0 .take)

theorem bounded_fifo_watchful_hand_over :
    ∃ s deeds, Transition.Reachable (recordedProgram Nat Nat 1) (s, deeds) ∧
      deeds = [(.put 7, none), (.take, some 7)] ∧ s.shared.queue = [] ∧
        s.location 0 = .outside (some 7) ∧ Fifo deeds s.shared.queue := by
  have found : ∃ r ∈ Transition.execute (Transition.recorded completes (step code)) (new 1, [])
      handOver, r.1.owner = none ∧ r.2 = [(.put 7, none), (.take, some 7)] ∧
        r.1.shared.queue = [] ∧ r.1.location 0 = .outside (some 7) := by
    decide
  obtain ⟨⟨s, deeds⟩, reachable, free, record, empty, back⟩ := Transition.exists_reachable found
  have program := (bounded_fifo_watchful Nat Nat 1).2 s deeds reachable
  exact ⟨s, deeds, reachable, record, empty, back, program.2.2.1 free⟩

end Uvcpp.BoundedBlockingQueue
