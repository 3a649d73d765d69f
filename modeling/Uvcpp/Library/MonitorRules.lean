/-
Proof rules for programs over a monitor.

`Locking` states at which locations a thread holds the mutex; `Outline` annotates
the locations with assertions about the shared data that no other thread can
falsify; `Signals` says that whoever makes a condition ready notifies its waiters
before it gives the mutex back.
-/

import Uvcpp.Library.Monitor

namespace Monitor

variable {Thread Cond Shared Local Choice : Type}
variable {p : Program Thread Cond Shared Local Choice}

/-- Nobody holds the mutex and nobody waits. -/
structure Fresh (s : State Thread Cond Shared Local) : Prop where
  owner : s.owner = none
  standing : ∀ t, s.standing t = .running

/-! ### Mutual exclusion -/

structure Locking (p : Program Thread Cond Shared Local Choice)
    (inside : Thread → Local → Prop) : Prop where
  lock : ∀ {t l next}, p t l = .lock next → ¬ inside t l ∧ inside t next
  unlock : ∀ {t l next}, p t l = .unlock next → inside t l ∧ ¬ inside t next
  wait : ∀ {t l cond next}, p t l = .wait cond next → inside t l ∧ inside t next
  notifyAll : ∀ {t l cond next}, p t l = .notifyAll cond next → (inside t next ↔ inside t l)
  act : ∀ {t l run choice shared shared' next}, p t l = .act run →
    run choice shared = some (shared', next) → (inside t next ↔ inside t l)

/-- The mutex is held by the one running thread inside, and who does not run waits. -/
structure Exclusive (p : Program Thread Cond Shared Local Choice)
    (inside : Thread → Local → Prop) (s : State Thread Cond Shared Local) : Prop where
  holds : ∀ t, s.owner = some t ↔ s.standing t = .running ∧ inside t (s.location t)
  waits : ∀ t, s.standing t ≠ .running → ∃ cond next, p t (s.location t) = .wait cond next
  sleeps : ∀ t cond, s.standing t = .asleep cond → ∃ next, p t (s.location t) = .wait cond next

theorem Exclusive.fresh {inside : Thread → Local → Prop} {s : State Thread Cond Shared Local}
    (fresh : Fresh s) (outside : ∀ t, ¬ inside t (s.location t)) : Exclusive p inside s := by
  constructor
  · intro t
    simp [fresh.owner, outside t]
  · intro t stopped
    exact absurd (fresh.standing t) stopped
  · intro t cond asleep
    rw [fresh.standing t] at asleep
    cases asleep

variable [DecidableEq Thread] [DecidableEq Cond]
variable {initial : State Thread Cond Shared Local → Prop}

/-- A step of one thread leaves the others where they were, except that a
notification wakes sleepers. -/
theorem Effect.others {s s' : State Thread Cond Shared Local} {t u : Thread} {choice : Choice}
    (effect : Effect p s (.run t choice) s') (other : u ≠ t) :
    s'.location u = s.location u ∧
      (s'.standing u = .running ↔ s.standing u = .running) ∧
      ∀ cond, s'.standing u = .asleep cond → s.standing u = .asleep cond := by
  cases effect with
  | resumes => simp [State.moveTo, State.stand, other]
  | locks => simp [State.moveTo, other]
  | unlocks => simp [State.moveTo, other]
  | waits => simp [State.stand, other]
  | notifies =>
      simp only [State.moveTo, State.notify, Function.update_of_ne other, true_and]
      split
      · simp [*]
      · simp
  | acts => simp [State.moveTo, other]

omit [DecidableEq Cond] in
/-- It is enough to look at the thread that moves. -/
theorem Exclusive.move {inside : Thread → Local → Prop} {s s' : State Thread Cond Shared Local}
    {t : Thread} (exclusive : Exclusive p inside s)
    (others : ∀ u, u ≠ t → s'.location u = s.location u ∧
      (s'.standing u = .running ↔ s.standing u = .running) ∧
      ∀ cond, s'.standing u = .asleep cond → s.standing u = .asleep cond)
    (owners : ∀ u, u ≠ t → (s'.owner = some u ↔ s.owner = some u))
    (holds : s'.owner = some t ↔ s'.standing t = .running ∧ inside t (s'.location t))
    (waits : s'.standing t ≠ .running →
      ∃ cond next, p t (s'.location t) = .wait cond next)
    (sleeps : ∀ cond, s'.standing t = .asleep cond →
      ∃ next, p t (s'.location t) = .wait cond next) : Exclusive p inside s' := by
  constructor
  · intro u
    by_cases same : u = t
    · subst same
      exact holds
    · rw [owners u same, (others u same).1, (others u same).2.1]
      exact exclusive.holds u
  · intro u stopped
    by_cases same : u = t
    · subst same
      exact waits stopped
    · rw [(others u same).1]
      exact exclusive.waits u (fun runs => stopped ((others u same).2.1.2 runs))
  · intro u cond asleep
    by_cases same : u = t
    · subst same
      exact sleeps cond asleep
    · rw [(others u same).1]
      exact exclusive.sleeps u cond ((others u same).2.2 cond asleep)

theorem Locking.preserves {inside : Thread → Local → Prop} (locking : Locking p inside)
    {s s' : State Thread Cond Shared Local} {event : Event Thread Choice}
    (effect : Effect p s event s') (exclusive : Exclusive p inside s) :
    Exclusive p inside s' := by
  have others : ∀ {t : Thread} {choice : Choice}, event = .run t choice → ∀ u, u ≠ t →
      s'.location u = s.location u ∧
        (s'.standing u = .running ↔ s.standing u = .running) ∧
        ∀ cond, s'.standing u = .asleep cond → s.standing u = .asleep cond := by
    intro t choice same u other
    subst same
    exact effect.others other
  cases effect with
  | @wakes t cond asleep =>
      have stopped : s.standing t ≠ .running := by simp [asleep]
      apply exclusive.move (t := t)
      · intro u other
        simp [State.stand, other]
      · intro u _other
        rfl
      · simp [State.stand, exclusive.holds t, stopped]
      · intro _stopped
        exact exclusive.waits t stopped
      · simp [State.stand]
  | @resumes t choice cond next woken code free =>
      apply exclusive.move (others rfl)
      · intro u other
        simp [free, other.symm]
      · simp [State.stand, State.moveTo, (locking.wait code).2]
      · simp [State.stand]
      · simp [State.stand]
  | @locks t choice next running code free =>
      apply exclusive.move (others rfl)
      · intro u other
        simp [free, other.symm]
      · simp [State.moveTo, running, (locking.lock code).2]
      · simp [State.moveTo, running]
      · simp [State.moveTo, running]
  | @unlocks t choice next running code owned =>
      apply exclusive.move (others rfl)
      · intro u other
        simp [owned, other.symm]
      · simp [State.moveTo, (locking.unlock code).2]
      · simp [State.moveTo, running]
      · simp [State.moveTo, running]
  | @waits t choice cond next running code owned =>
      apply exclusive.move (others rfl)
      · intro u other
        simp [owned, other.symm]
      · simp [State.stand]
      · intro _stopped
        exact ⟨cond, next, code⟩
      · intro other asleep
        simp only [State.stand, Function.update_self, Standing.asleep.injEq] at asleep
        subst asleep
        exact ⟨next, code⟩
  | @notifies t choice cond next running code =>
      apply exclusive.move (others rfl)
      · intro u _other
        rfl
      · simp [State.moveTo, State.notify, running, exclusive.holds t, locking.notifyAll code]
      · simp [State.moveTo, State.notify, running]
      · simp [State.moveTo, State.notify, running]
  | @acts t choice run shared next running code result =>
      apply exclusive.move (others rfl)
      · intro u _other
        rfl
      · simp [State.moveTo, running, exclusive.holds t, locking.act code result]
      · simp [State.moveTo, running]
      · simp [State.moveTo, running]

theorem Locking.exclusive {inside : Thread → Local → Prop} (locking : Locking p inside)
    (begins : ∀ s, initial s → Exclusive p inside s) {s : State Thread Cond Shared Local}
    (reachable : Transition.Reachable (system p initial) s) : Exclusive p inside s := by
  induction reachable with
  | start first =>
      exact begins _ first
  | next _before taken ih =>
      exact locking.preserves (step_effect taken) ih

/-! ### Assertions -/

/-- `free` holds of the shared data while nobody has the mutex, `assertion` while a
thread runs at a location, and `resting` while it waits there.  An action keeps the
assertions of the threads that can be active at the same time. -/
structure Outline (p : Program Thread Cond Shared Local Choice)
    (inside : Thread → Local → Prop) (free : Shared → Prop)
    (assertion resting : Thread → Local → Shared → Prop) : Prop where
  lock : ∀ {t l next shared}, p t l = .lock next → free shared → assertion t l shared →
    assertion t next shared
  unlock : ∀ {t l next shared}, p t l = .unlock next → assertion t l shared →
    free shared ∧ assertion t next shared
  wait : ∀ {t l cond next shared}, p t l = .wait cond next → assertion t l shared →
    free shared ∧ resting t l shared
  resume : ∀ {t l cond next shared}, p t l = .wait cond next → free shared →
    resting t l shared → assertion t next shared
  notifyAll : ∀ {t l cond next shared}, p t l = .notifyAll cond next →
    assertion t l shared → assertion t next shared
  act : ∀ {t l run choice shared shared' next}, p t l = .act run →
    run choice shared = some (shared', next) → assertion t l shared →
    assertion t next shared' ∧ (¬ inside t l → free shared → free shared')
  stable : ∀ {t l run choice shared shared' next}, p t l = .act run →
    run choice shared = some (shared', next) → assertion t l shared →
    ∀ u k, u ≠ t → ¬ (inside t l ∧ inside u k) → assertion u k shared →
      assertion u k shared'
  stableResting : ∀ {t l run choice shared shared' next}, p t l = .act run →
    run choice shared = some (shared', next) → assertion t l shared →
    ∀ u k, u ≠ t → resting u k shared → resting u k shared'

/-- The annotations that apply in a state are true there. -/
structure Annotated (free : Shared → Prop) (assertion resting : Thread → Local → Shared → Prop)
    (s : State Thread Cond Shared Local) : Prop where
  free : s.owner = none → free s.shared
  running : ∀ t, s.standing t = .running → assertion t (s.location t) s.shared
  waiting : ∀ t, s.standing t ≠ .running → resting t (s.location t) s.shared

omit [DecidableEq Cond] in
theorem Annotated.move {free : Shared → Prop} {assertion resting : Thread → Local → Shared → Prop}
    {s s' : State Thread Cond Shared Local} {t : Thread}
    (annotated : Annotated free assertion resting s) (same : s'.shared = s.shared)
    (others : ∀ u, u ≠ t → s'.location u = s.location u ∧
      (s'.standing u = .running ↔ s.standing u = .running))
    (frees : s'.owner = none → free s.shared)
    (running : s'.standing t = .running → assertion t (s'.location t) s.shared)
    (waiting : s'.standing t ≠ .running → resting t (s'.location t) s.shared) :
    Annotated free assertion resting s' := by
  constructor
  · rw [same]
    exact frees
  · intro u runs
    rw [same]
    by_cases own : u = t
    · subst own
      exact running runs
    · rw [(others u own).1]
      exact annotated.running u ((others u own).2.1 runs)
  · intro u stopped
    rw [same]
    by_cases own : u = t
    · subst own
      exact waiting stopped
    · rw [(others u own).1]
      exact annotated.waiting u (fun runs => stopped ((others u own).2.2 runs))

section Outline

variable {inside : Thread → Local → Prop} {free : Shared → Prop}
variable {assertion resting : Thread → Local → Shared → Prop}

theorem Outline.preserves (outline : Outline p inside free assertion resting)
    {s s' : State Thread Cond Shared Local} {event : Event Thread Choice}
    (effect : Effect p s event s') (exclusive : Exclusive p inside s)
    (annotated : Annotated free assertion resting s) :
    Annotated free assertion resting s' := by
  have others : ∀ {t : Thread} {choice : Choice}, event = .run t choice → ∀ u, u ≠ t →
      s'.location u = s.location u ∧
        (s'.standing u = .running ↔ s.standing u = .running) := by
    intro t choice same u other
    subst same
    exact ⟨(effect.others other).1, (effect.others other).2.1⟩
  cases effect with
  | @wakes t cond asleep =>
      apply annotated.move (t := t)
      · rfl
      · intro u other
        simp [State.stand, other]
      · exact annotated.free
      · simp [State.stand]
      · intro _stopped
        exact annotated.waiting t (by simp [asleep])
  | @resumes t choice cond next woken code unowned =>
      have rests := annotated.waiting t (by simp [woken])
      apply annotated.move (t := t)
      · rfl
      · exact others rfl
      · simp
      · intro _running
        simpa [State.moveTo, State.stand] using
          outline.resume code (annotated.free unowned) rests
      · simp [State.stand]
  | @locks t choice next running code unowned =>
      apply annotated.move (t := t)
      · rfl
      · exact others rfl
      · simp
      · intro _running
        simpa [State.moveTo] using
          outline.lock code (annotated.free unowned) (annotated.running t running)
      · simp [State.moveTo, running]
  | @unlocks t choice next running code owned =>
      have leaves := outline.unlock code (annotated.running t running)
      apply annotated.move (t := t)
      · rfl
      · exact others rfl
      · intro _unowned
        exact leaves.1
      · intro _running
        simpa [State.moveTo] using leaves.2
      · simp [State.moveTo, running]
  | @waits t choice cond next running code owned =>
      have sleeps := outline.wait code (annotated.running t running)
      apply annotated.move (t := t)
      · rfl
      · exact others rfl
      · intro _unowned
        exact sleeps.1
      · simp [State.stand]
      · intro _stopped
        exact sleeps.2
  | @notifies t choice cond next running code =>
      apply annotated.move (t := t)
      · rfl
      · exact others rfl
      · exact annotated.free
      · intro _running
        simpa [State.moveTo] using outline.notifyAll code (annotated.running t running)
      · simp [State.moveTo, State.notify, running]
  | @acts t choice run shared next running code result =>
      have own := annotated.running t running
      have acted := outline.act code result own
      constructor
      · intro unowned
        apply acted.2
        · intro within
          have owned := (exclusive.holds t).2 ⟨running, within⟩
          simp [State.moveTo, owned] at unowned
        · exact annotated.free unowned
      · intro u runs
        by_cases same : u = t
        · subst same
          simpa [State.moveTo] using acted.1
        · have apart : ¬ (inside t (s.location t) ∧ inside u (s.location u)) := by
            rintro ⟨left, right⟩
            have first := (exclusive.holds t).2 ⟨running, left⟩
            have second := (exclusive.holds u).2 ⟨runs, right⟩
            exact same (Option.some.inj (second.symm.trans first))
          simpa [State.moveTo, same] using
            outline.stable code result own u _ same apart (annotated.running u runs)
      · intro u stopped
        by_cases same : u = t
        · subst same
          exact absurd running stopped
        · simpa [State.moveTo, same] using
            outline.stableResting code result own u _ same (annotated.waiting u stopped)

theorem Outline.annotated (outline : Outline p inside free assertion resting)
    (locking : Locking p inside) (begins : ∀ s, initial s →
      Exclusive p inside s ∧ Annotated free assertion resting s)
    {s : State Thread Cond Shared Local}
    (reachable : Transition.Reachable (system p initial) s) :
    Annotated free assertion resting s := by
  induction reachable with
  | start first =>
      exact (begins _ first).2
  | next before taken ih =>
      have exclusive := locking.exclusive (fun s first => (begins s first).1) before
      exact outline.preserves (step_effect taken) exclusive ih

end Outline

/-! ### Wake-ups -/

/-- Nobody sleeps on the condition while it is ready, unless the owner of the mutex
still owes the notification. -/
def Watchful (cond : Cond) (ready : Shared → Prop) (owes : Thread → Local → Prop)
    (s : State Thread Cond Shared Local) : Prop :=
  ∀ t, s.standing t = .asleep cond → ready s.shared →
    ∃ u, s.owner = some u ∧ owes u (s.location u)

/-- A thread goes to sleep only while the condition is not ready, pays what it owes
by a notification before it gives the mutex back, and an action that makes the
condition ready either runs into that debt or finds no sleeper. -/
structure Signals (p : Program Thread Cond Shared Local Choice)
    (inside : Thread → Local → Prop) (cond : Cond) (ready : Shared → Prop)
    (owes : Thread → Local → Prop) (s : State Thread Cond Shared Local)
    (event : Event Thread Choice) : Prop where
  sleeps : ∀ {t next}, s.owner = some t → p t (s.location t) = .wait cond next →
    ¬ ready s.shared
  lock : ∀ {t l next}, p t l = .lock next → ¬ owes t l
  unlock : ∀ {t l next}, p t l = .unlock next → ¬ owes t l
  wait : ∀ {t l other next}, p t l = .wait other next → ¬ owes t l
  notifyAll : ∀ {t l other next}, p t l = .notifyAll other next → other ≠ cond →
    owes t l → owes t next
  act : ∀ {t choice run shared next}, event = .run t choice → s.standing t = .running →
    p t (s.location t) = .act run → run choice s.shared = some (shared, next) →
    ready shared →
    (ready s.shared ∧ (owes t (s.location t) → owes t next)) ∨
      (inside t (s.location t) ∧ owes t next) ∨ ∀ u, s.standing u ≠ .asleep cond

theorem Signals.watchful {inside : Thread → Local → Prop} {cond : Cond}
    {ready : Shared → Prop} {owes : Thread → Local → Prop}
    {s s' : State Thread Cond Shared Local} {event : Event Thread Choice}
    (signals : Signals p inside cond ready owes s event)
    (effect : Effect p s event s') (exclusive : Exclusive p inside s)
    (watchful : Watchful cond ready owes s) : Watchful cond ready owes s' := by
  intro sleeper asleep isReady
  cases effect with
  | @wakes t other wasAsleep =>
      by_cases same : sleeper = t
      · subst same
        simp [State.stand] at asleep
      · rw [s.stand_other _ same] at asleep
        exact watchful sleeper asleep isReady
  | @resumes t choice other next woken code free =>
      have wasAsleep : s.standing sleeper = .asleep cond := by
        by_cases same : sleeper = t
        · subst same
          simp [State.stand] at asleep
        · simpa [State.stand, State.moveTo, same] using asleep
      obtain ⟨u, owned, _⟩ := watchful sleeper wasAsleep isReady
      rw [free] at owned
      cases owned
  | @locks t choice next running code free =>
      obtain ⟨u, owned, _⟩ := watchful sleeper asleep isReady
      rw [free] at owned
      cases owned
  | @unlocks t choice next running code owned =>
      obtain ⟨u, owner, debt⟩ := watchful sleeper asleep isReady
      cases owned.symm.trans owner
      exact absurd debt (signals.unlock code)
  | @waits t choice other next running code owned =>
      by_cases same : sleeper = t
      · subst same
        simp only [State.stand, Function.update_self, Standing.asleep.injEq] at asleep
        subst asleep
        exact absurd isReady (signals.sleeps owned code)
      · rw [show ({ s.stand t (.asleep other) with owner := none } :
            State Thread Cond Shared Local).standing sleeper = s.standing sleeper from
            s.stand_other _ same] at asleep
        obtain ⟨u, owner, debt⟩ := watchful sleeper asleep isReady
        cases owned.symm.trans owner
        exact absurd debt (signals.wait code)
  | @notifies t choice other next running code =>
      simp only [State.moveTo, State.notify] at asleep
      split at asleep
      · cases asleep
      · rename_i different
        have distinct : other ≠ cond := by
          intro equal
          subst equal
          exact different asleep
        obtain ⟨u, owner, debt⟩ := watchful sleeper asleep isReady
        refine ⟨u, owner, ?_⟩
        by_cases same : u = t
        · subst same
          simpa [State.moveTo] using signals.notifyAll code distinct debt
        · simpa [State.moveTo, State.notify, same] using debt
  | @acts t choice run shared next running code result =>
      rcases signals.act rfl running code result isReady with wasReady | indebted | nobody
      · obtain ⟨u, owner, debt⟩ := watchful sleeper asleep wasReady.1
        refine ⟨u, owner, ?_⟩
        by_cases same : u = t
        · subst same
          simpa [State.moveTo] using wasReady.2 debt
        · simpa [State.moveTo, same] using debt
      · refine ⟨t, (exclusive.holds t).2 ⟨running, indebted.1⟩, ?_⟩
        simpa [State.moveTo] using indebted.2
      · exact absurd asleep (nobody sleeper)

/-! ### Notifications after the mutex is given back -/

/-- Nobody sleeps on the condition while it is ready, unless some thread still owes the
notification. -/
def Attended (cond : Cond) (ready : Shared → Prop) (owes : Thread → Local → Prop)
    (s : State Thread Cond Shared Local) : Prop :=
  ∀ t, s.standing t = .asleep cond → ready s.shared → ∃ u, owes u (s.location u)

/-- Who makes the condition ready owes a notification until he gives it, and nobody goes
to sleep on a ready condition unless somebody owes one. -/
structure LateSignals (p : Program Thread Cond Shared Local Choice) (cond : Cond)
    (ready : Shared → Prop) (owes : Thread → Local → Prop)
    (s : State Thread Cond Shared Local) : Prop where
  sleeps : ∀ {t next}, s.owner = some t → s.standing t = .running →
    p t (s.location t) = .wait cond next → ready s.shared → ∃ u, owes u (s.location u)
  lock : ∀ {t l next}, p t l = .lock next → owes t l → owes t next
  unlock : ∀ {t l next}, p t l = .unlock next → owes t l → owes t next
  wait : ∀ {t l other next}, p t l = .wait other next → ¬ owes t l
  notifyAll : ∀ {t l other next}, p t l = .notifyAll other next → other ≠ cond →
    owes t l → owes t next
  act : ∀ {t l run choice shared shared' next}, p t l = .act run →
    run choice shared = some (shared', next) →
    (owes t l → owes t next) ∧ (ready shared' → ready shared ∨ owes t next)

omit [DecidableEq Cond] in
/-- A debt survives a step that keeps it for the thread that moves. -/
theorem Attended.owed {owes : Thread → Local → Prop} {s s' : State Thread Cond Shared Local}
    {t : Thread} (others : ∀ u, u ≠ t → s'.location u = s.location u)
    (own : owes t (s.location t) → owes t (s'.location t))
    (owed : ∃ u, owes u (s.location u)) : ∃ u, owes u (s'.location u) := by
  obtain ⟨u, debt⟩ := owed
  refine ⟨u, ?_⟩
  by_cases same : u = t
  · subst same
    exact own debt
  · rw [others u same]
    exact debt

theorem LateSignals.attended {cond : Cond} {ready : Shared → Prop}
    {owes : Thread → Local → Prop} {s s' : State Thread Cond Shared Local}
    {event : Event Thread Choice} (signals : LateSignals p cond ready owes s)
    (effect : Effect p s event s') (attended : Attended cond ready owes s) :
    Attended cond ready owes s' := by
  intro sleeper asleep isReady
  cases effect with
  | @wakes t other wasAsleep =>
      by_cases same : sleeper = t
      · subst same
        simp [State.stand] at asleep
      · rw [s.stand_other _ same] at asleep
        exact attended sleeper asleep isReady
  | @resumes t choice other next woken code free =>
      have wasAsleep : s.standing sleeper = .asleep cond := by
        by_cases same : sleeper = t
        · subst same
          simp [State.stand] at asleep
        · simpa [State.stand, State.moveTo, same] using asleep
      apply Attended.owed (t := t) _ _ (attended sleeper wasAsleep isReady)
      · intro u other
        exact s.moveTo_other next other
      · intro debt
        exact absurd debt (signals.wait code)
  | @locks t choice next running code free =>
      apply Attended.owed (t := t) _ _ (attended sleeper asleep isReady)
      · intro u other
        exact s.moveTo_other next other
      · intro debt
        rw [show ({ s.moveTo t next with owner := some t } :
          State Thread Cond Shared Local).location t = next from s.moveTo_self t next]
        exact signals.lock code debt
  | @unlocks t choice next running code owned =>
      apply Attended.owed (t := t) _ _ (attended sleeper asleep isReady)
      · intro u other
        exact s.moveTo_other next other
      · intro debt
        rw [show ({ s.moveTo t next with owner := none } :
          State Thread Cond Shared Local).location t = next from s.moveTo_self t next]
        exact signals.unlock code debt
  | @waits t choice other next running code owned =>
      by_cases same : sleeper = t
      · subst same
        simp only [State.stand, Function.update_self, Standing.asleep.injEq] at asleep
        subst asleep
        exact signals.sleeps owned running code isReady
      · rw [show ({ s.stand t (.asleep other) with owner := none } :
            State Thread Cond Shared Local).standing sleeper = s.standing sleeper from
            s.stand_other _ same] at asleep
        exact attended sleeper asleep isReady
  | @notifies t choice other next running code =>
      simp only [State.moveTo, State.notify] at asleep
      split at asleep
      · cases asleep
      · rename_i different
        have distinct : other ≠ cond := by
          intro equal
          subst equal
          exact different asleep
        apply Attended.owed (t := t) _ _ (attended sleeper asleep isReady)
        · intro u apart
          exact (s.notify other).moveTo_other next apart
        · intro debt
          rw [State.moveTo_self]
          exact signals.notifyAll code distinct debt
  | @acts t choice run shared next running code result =>
      obtain ⟨keeps, makes⟩ := signals.act code result
      have moved : ({ s.moveTo t next with shared := shared } :
          State Thread Cond Shared Local).location t = next := s.moveTo_self t next
      rcases makes isReady with wasReady | debt
      · apply Attended.owed (t := t) _ _ (attended sleeper asleep wasReady)
        · intro u other
          exact s.moveTo_other next other
        · intro debt
          rw [moved]
          exact keeps debt
      · refine ⟨t, ?_⟩
        rw [moved]
        exact debt

end Monitor
