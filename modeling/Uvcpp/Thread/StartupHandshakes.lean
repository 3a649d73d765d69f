/-
The handshakes between a starter and the threads it creates.

EventLoopThreadPool counts its threads under the mutex and cannot miss the last
notification.  EventLoopThread stores its loop without the mutex, and the starter that
has found no loop may go to sleep after the only notification.
-/

import Uvcpp.Thread.EventLoopThread
import Uvcpp.Thread.PoolDestructor

namespace Uvcpp

open Monitor

namespace EventLoopThreadPool

/-- Every worker has registered its loop and notified, and the starter sleeps. -/
def Oversleeps (s : Pool) : Prop :=
  (∀ index < s.shared.threadNum, s.location (.worker index) = .worker .looping ∨
    s.location (.worker index) = .worker .exited) ∧
  s.standing .starter = .asleep ()

/-- All loops are registered. -/
def AllRegistered (sh : Shared) : Prop :=
  sh.initSuc = sh.threadNum

/-- A worker that has registered its loop has still to notify. -/
def owes : Thread → Local → Prop
  | .worker _, .worker .unlocking => True
  | .worker _, .worker .notifying => True
  | _, _ => False

/-- Between its test and its wait the starter has the mutex and a loop is missing. -/
def stillMissing (t : Thread) (l : Local) (sh : Shared) : Prop :=
  match t, l with
  | .starter, .owner .waiting => ¬ AllRegistered sh
  | _, _ => True

theorem Moves.stillMissing {t : Thread} {l next : Local} {sh sh' : Shared}
    (move : Moves t l sh sh' next) : stillMissing t next sh' := by
  cases move with
  | missing missing => exact missing
  | _ => trivial

theorem Moves.keepsMissing {t : Thread} {l next : Local} {sh sh' : Shared}
    (move : Moves t l sh sh' next) {u : Thread} {k : Local} (apart : ¬ (inside t l ∧ inside u k))
    (keeps : EventLoopThreadPool.stillMissing u k sh) :
    EventLoopThreadPool.stillMissing u k sh' := by
  unfold EventLoopThreadPool.stillMissing at *
  split at keeps
  · cases move with
    | register => exact absurd ⟨trivial, trivial⟩ apart
    | _ => exact keeps
  · trivial

theorem missing_outline : Outline code inside (fun _ => True) stillMissing
    (fun _ _ _ => True) := by
  constructor
  · intro t l next sh same _free _holds
    rcases code_lock same with ⟨rfl, rfl, rfl⟩ | ⟨_, rfl, rfl, rfl⟩ <;> trivial
  · intro t l next sh same _holds
    rcases code_unlock same with ⟨rfl, rfl, rfl⟩ | ⟨_, rfl, rfl, rfl⟩ <;>
      exact ⟨trivial, trivial⟩
  · intro t l cond next sh _same _holds
    exact ⟨trivial, trivial⟩
  · intro t l cond next sh same _free _rests
    obtain ⟨rfl, rfl, rfl⟩ := code_wait same
    trivial
  · intro t l cond next sh same _holds
    obtain ⟨_, rfl, rfl, rfl⟩ := code_notifyAll same
    trivial
  · intro t l action choice sh sh' next acts result _holds
    exact ⟨(moves acts result).stillMissing, fun _ _ => trivial⟩
  · intro t l action choice sh sh' next acts result _holds u k _other apart keeps
    exact (moves acts result).keepsMissing apart keeps
  · intro t l action choice sh sh' next _acts _result _holds u k _other _rests
    trivial

/-- Only a registration can complete the loops, and it leaves a debt. -/
theorem Moves.completes {t : Thread} {l next : Local} {sh sh' : Shared}
    (move : Moves t l sh sh' next) :
    ¬ owes t l ∧ (AllRegistered sh' → AllRegistered sh ∨ owes t next) := by
  cases move with
  | register => exact ⟨id, fun _ => .inr trivial⟩
  | _ => exact ⟨id, fun all => .inl all⟩

section Reachable

variable {threadNum : Nat} {s : Pool}

theorem missing_annotated (reachable : Transition.Reachable (system threadNum) s) :
    Annotated (fun _ => True) stillMissing (fun _ _ _ => True) s := by
  apply missing_outline.annotated locking _ reachable
  rintro s rfl
  refine ⟨.fresh ⟨rfl, fun _ => rfl⟩ fun t => ?_, fun _ => trivial, fun t _running => ?_,
    fun _ _ => trivial⟩
  · cases t <;> exact id
  · cases t <;> trivial

theorem registration_signals
    (annotated : Annotated (fun _ => True) stillMissing (fun _ _ _ => True) s) :
    LateSignals code () AllRegistered owes s := by
  constructor
  · intro t next _owned running same all
    have holds := annotated.running t running
    obtain ⟨rfl, place, _⟩ := code_wait same
    rw [place] at holds
    exact absurd all holds
  · intro t l next same debt
    rcases code_lock same with ⟨rfl, rfl, rfl⟩ | ⟨_, rfl, rfl, rfl⟩ <;> cases debt
  · intro t l next same debt
    rcases code_unlock same with ⟨rfl, rfl, rfl⟩ | ⟨_, rfl, rfl, rfl⟩
    · cases debt
    · trivial
  · intro t l other next same debt
    obtain ⟨rfl, rfl, rfl⟩ := code_wait same
    cases debt
  · intro t l other next _same apart
    exact absurd rfl apart
  · intro t l action choice sh sh' next acts result
    obtain ⟨solvent, completes⟩ := (moves acts result).completes
    exact ⟨fun debt => absurd debt solvent, completes⟩

theorem reachable_attended (reachable : Transition.Reachable (system threadNum) s) :
    Attended () AllRegistered owes s := by
  induction reachable with
  | start begins =>
      cases begins
      intro t asleep
      cases asleep
  | next before taken ih =>
      exact (registration_signals (missing_annotated before)).attended (step_effect taken) ih

/-- While the starter sleeps the registered loops are counted right. -/
theorem asleep_sound (reachable : Transition.Reachable (system threadNum) s)
    (asleep : s.standing .starter = .asleep ()) : Sound s.shared := by
  have annotated := annotated reachable
  cases owned : s.owner with
  | none => exact annotated.free owned
  | some t =>
      obtain ⟨running, within⟩ := ((exclusive reachable).holds t).mp owned
      have holds := annotated.running t running
      cases t with
      | starter =>
          rw [asleep] at running
          cases running
      | worker index =>
          cases place : s.location (.worker index) with
          | owner =>
              rw [place] at within
              cases within
          | worker at_place =>
              rw [place] at holds within
              cases at_place
              case registering => exact holds.2.2
              case unlocking => exact holds.2
              all_goals cases within

theorem Sound.allRegistered {sh : Shared} (sound : Sound sh)
    (registered : ∀ index < sh.threadNum, index ∈ sh.loops) : AllRegistered sh := by
  have enough : sh.threadNum ≤ sh.loops.length := by
    have within : List.range sh.threadNum ⊆ sh.loops := by
      intro index member
      exact registered index (List.mem_range.mp member)
    simpa using (List.nodup_range.subperm within).length_le
  have few : sh.loops.length ≤ sh.threadNum := by
    have within : sh.loops ⊆ List.range sh.threadNum := by
      intro index member
      exact List.mem_range.mpr (Nat.lt_of_lt_of_le (sound.created index member) sound.within)
    simpa using (sound.distinct.subperm within).length_le
  rw [AllRegistered, ← sound.counted]
  exact Nat.le_antisymm few enough

theorem never_oversleeps (reachable : Transition.Reachable (system threadNum) s) :
    ¬ Oversleeps s := by
  rintro ⟨done, asleep⟩
  have annotated := annotated reachable
  have sound := asleep_sound reachable asleep
  have registered : ∀ index < s.shared.threadNum, index ∈ s.shared.loops := by
    intro index within
    have holds := annotated.running _ (worker_running reachable index)
    rcases done index within with looping | exited
    · rw [looping] at holds
      exact holds
    · rw [exited] at holds
      exact holds
  obtain ⟨u, debt⟩ := reachable_attended reachable .starter asleep (sound.allRegistered registered)
  cases u with
  | starter => cases place : s.location .starter <;> rw [place] at debt <;> cases debt
  | worker index =>
      have holds := annotated.running _ (worker_running reachable index)
      have member : index ∈ s.shared.loops := by
        cases place : s.location (.worker index) with
        | owner =>
            rw [place] at debt
            cases debt
        | worker at_place =>
            rw [place] at holds debt
            cases at_place
            case unlocking => exact holds.1
            case notifying => exact holds
            all_goals cases debt
      have within := Nat.lt_of_lt_of_le (sound.created index member) sound.within
      rcases done index within with looping | exited
      · rw [looping] at debt
        cases debt
      · rw [exited] at debt
        cases debt

end Reachable

end EventLoopThreadPool

namespace EventLoopThread

/-- The worker has stored its loop and notified, and the starter sleeps. -/
def Oversleeps (s : Startup) : Prop :=
  s.location .worker = .worker .looping ∧ s.standing .starter = .asleep ()

/-- The starter has found no loop and does not sleep yet. -/
def Between (s : Startup) : Prop :=
  s.location .starter = .starter .waiting ∧ s.standing .starter = .running

/-- The worker does not notify while the starter is between its test and its wait. -/
def NotifiesInTime (s : Startup) : Event Thread Unit → Prop
  | .run .worker _ => s.location .worker = .worker .notifying → ¬ Between s
  | _ => True

/-- The worker has stored its loop and has still to notify. -/
def owes : Thread → Local → Prop
  | .worker, .worker .notifying => True
  | _, _ => False

/-- A loop stored while the starter is between its test and its wait is still to be
notified. -/
def Covered (s : Startup) : Prop :=
  Between s → s.shared.loop = true → s.location .worker = .worker .notifying

theorem covered_acts {s : Startup} {t : Thread} {next : Local} {shared : Shared}
    (move : Moves t (s.location t) s.shared shared next) (covered : Covered s) :
    Covered { s.moveTo t next with shared := shared } := by
  rintro ⟨place, running⟩ set
  generalize at_place : s.location t = l at move
  generalize same : s.shared = sh at move
  cases move with
  | missing unset =>
      rw [unset] at set
      cases set
  | publish => exact s.moveTo_self .worker _
  | create unset => cases (s.moveTo_self .starter _).symm.trans place
  | found found => cases (s.moveTo_self .starter _).symm.trans place
  | birth created =>
      have before : s.location .starter = .starter .waiting := place
      rw [covered ⟨before, running⟩ (same ▸ set)] at at_place
      cases at_place
  | construct =>
      have before : s.location .starter = .starter .waiting := place
      rw [covered ⟨before, running⟩ (same ▸ set)] at at_place
      cases at_place

theorem covered_step {s s' : Startup} {event : Event Thread Unit}
    (effect : Effect code s event s') (inTime : NotifiesInTime s event) (covered : Covered s) :
    Covered s' := by
  cases effect with
  | @wakes t cond asleep =>
      rintro ⟨place, running⟩ set
      cases t with
      | starter => cases (s.stand_self .starter _).symm.trans running
      | worker => exact covered ⟨place, running⟩ set
  | resumes woken same free =>
      obtain ⟨rfl, _, rfl⟩ := code_wait same
      rintro ⟨place, _⟩
      cases (s.moveTo_self .starter _).symm.trans place
  | locks running same free =>
      obtain ⟨rfl, _, rfl⟩ := code_lock same
      rintro ⟨place, _⟩
      cases (s.moveTo_self .starter _).symm.trans place
  | unlocks running same owned =>
      obtain ⟨rfl, _, rfl⟩ := code_unlock same
      rintro ⟨place, _⟩
      cases (s.moveTo_self .starter _).symm.trans place
  | waits running same owned =>
      obtain ⟨rfl, _, rfl⟩ := code_wait same
      rintro ⟨_, runs⟩
      cases (s.stand_self .starter _).symm.trans runs
  | @notifies t choice cond next running same =>
      obtain ⟨rfl, notifying, rfl⟩ := code_notifyAll same
      rintro ⟨place, runs⟩
      refine absurd ⟨place, ?_⟩ (inTime notifying)
      by_contra stopped
      simp only [State.moveTo, State.notify] at runs
      split at runs
      · cases runs
      · exact stopped runs
  | acts running acting result => exact covered_acts (moves acting result) covered

theorem startup_signals {s : Startup} (covered : Covered s) :
    LateSignals code () (fun sh => sh.loop = true) owes s := by
  constructor
  · intro t next _owned running same set
    obtain ⟨rfl, place, _⟩ := code_wait same
    refine ⟨.worker, ?_⟩
    rw [covered ⟨place, running⟩ set]
    trivial
  · intro t l next same debt
    obtain ⟨rfl, rfl, rfl⟩ := code_lock same
    cases debt
  · intro t l next same debt
    obtain ⟨rfl, rfl, rfl⟩ := code_unlock same
    cases debt
  · intro t l other next same debt
    obtain ⟨rfl, rfl, rfl⟩ := code_wait same
    cases debt
  · intro t l other next _same apart
    exact absurd rfl apart
  · intro t l action choice sh sh' next acts result
    cases moves acts result with
    | publish => exact ⟨fun debt => absurd debt id, fun _ => .inr trivial⟩
    | _ => exact ⟨fun debt => absurd debt id, fun set => .inl set⟩

/-- A worker past its notification has stored its loop. -/
def Published (s : Startup) : Prop :=
  s.location .worker = .worker .notifying ∨ s.location .worker = .worker .looping →
    s.shared.loop = true

section Reachable

variable {s : Startup}

theorem reachable_covered (reachable : Transition.Reachable (system.restrict NotifiesInTime) s) :
    Covered s ∧ Attended () (fun sh => sh.loop = true) owes s := by
  induction reachable with
  | start begins =>
      cases begins
      constructor
      · rintro ⟨impossible, _⟩
        cases impossible
      · intro t asleep
        cases asleep
  | next before taken ih =>
      obtain ⟨covered, attended⟩ := ih
      have effect := step_effect taken.2
      exact ⟨covered_step effect taken.1 covered,
        (startup_signals covered).attended effect attended⟩

theorem published_step {s' : Startup} {event : Event Thread Unit}
    (effect : Effect code s event s') (published : Published s) : Published s' := by
  cases effect with
  | wakes asleep => exact published
  | resumes woken same free =>
      obtain ⟨rfl, _, rfl⟩ := code_wait same
      exact published
  | locks running same free =>
      obtain ⟨rfl, _, rfl⟩ := code_lock same
      exact published
  | unlocks running same owned =>
      obtain ⟨rfl, _, rfl⟩ := code_unlock same
      exact published
  | waits running same owned => exact published
  | notifies running same =>
      obtain ⟨rfl, notifying, rfl⟩ := code_notifyAll same
      exact fun _ => published (.inl notifying)
  | @acts t choice run shared next running acting result =>
      have move := moves acting result
      generalize at_place : s.location t = l at move
      generalize before : s.shared = sh at move
      cases move with
      | publish => exact fun _ => rfl
      | birth created =>
          intro past
          simp [State.moveTo] at past
      | construct =>
          intro past
          simp [State.moveTo] at past
      | create unset =>
          subst before
          exact published
      | found set =>
          subst before
          exact published
      | missing unset =>
          subst before
          exact published

theorem reachable_published (reachable : Transition.Reachable system s) : Published s := by
  induction reachable with
  | start begins =>
      cases begins
      intro past
      rcases past with impossible | impossible <;> cases impossible
  | next _before taken ih =>
      exact published_step (step_effect taken) ih

theorem never_oversleeps
    (reachable : Transition.Reachable (system.restrict NotifiesInTime) s) : ¬ Oversleeps s := by
  rintro ⟨looping, asleep⟩
  have set := reachable_published reachable.of_restrict (.inr looping)
  obtain ⟨u, debt⟩ := (reachable_covered reachable).2 .starter asleep set
  cases u with
  | starter => cases place : s.location .starter <;> rw [place] at debt <;> cases debt
  | worker =>
      rw [looping] at debt
      cases debt

theorem exclusive (reachable : Transition.Reachable system s) : Exclusive code inside s := by
  apply locking.exclusive _ reachable
  rintro s rfl
  refine .fresh ⟨rfl, fun _ => rfl⟩ fun t => ?_
  cases t <;> exact id

/-- The starter that was not asleep in time goes to sleep for ever. -/
theorem oversleeps_next (reachable : Transition.Reachable system s) {s' : Startup}
    {event : Event Thread Unit} (taken : step code s event = some s')
    (late : ¬ NotifiesInTime s event) :
    ∃ s'', step code s' (.run .starter ()) = some s'' ∧ Oversleeps s'' := by
  unfold NotifiesInTime at late
  split at late
  · rw [Classical.not_imp, not_not] at late
    obtain ⟨notifying, waiting, running⟩ := late
    have owned : s.owner = some .starter := by
      apply ((exclusive reachable).holds .starter).mpr
      rw [waiting]
      exact ⟨running, trivial⟩
    cases step_effect taken with
    | @notifies _ _ cond next active same =>
        obtain ⟨_, _, rfl⟩ := code_notifyAll same
        refine ⟨{ ((s.notify cond).moveTo .worker (.worker .looping)).stand .starter (.asleep ())
          with owner := none }, ?_, ?_, ?_⟩
        · simp [step, State.moveTo, State.notify, State.stand, running, waiting, code, starter,
            owned]
        · simp [State.stand, State.moveTo]
        · simp [State.stand]
    | resumes woken same free =>
        obtain ⟨impossible, _⟩ := code_wait same
        cases impossible
    | locks active same free =>
        obtain ⟨impossible, _⟩ := code_lock same
        cases impossible
    | unlocks active same owned =>
        obtain ⟨impossible, _⟩ := code_unlock same
        cases impossible
    | waits active same owned =>
        obtain ⟨impossible, _⟩ := code_wait same
        cases impossible
    | acts active acting result =>
        rw [notifying] at acting
        cases acting
  · exact absurd trivial late

end Reachable

end EventLoopThread

/-- In the pool the starter never sleeps when every worker has registered and notified; with
a single thread it does not in runs in which the worker notifies in time, and any other
notification sends it to sleep too late. -/
theorem startup_handshakes (threadNum : Nat) :
    (∀ s, Transition.Reachable (EventLoopThreadPool.system threadNum) s →
      ¬ EventLoopThreadPool.Oversleeps s) ∧
    ∀ s, Transition.Reachable
        (EventLoopThread.system.restrict EventLoopThread.NotifiesInTime) s →
      ¬ EventLoopThread.Oversleeps s ∧
      ∀ event s', step EventLoopThread.code s event = some s' →
        ¬ EventLoopThread.NotifiesInTime s event →
        ∃ s'', step EventLoopThread.code s' (.run .starter ()) = some s'' ∧
          EventLoopThread.Oversleeps s'' := by
  constructor
  · intro s reachable
    exact EventLoopThreadPool.never_oversleeps reachable
  · intro s reachable
    constructor
    · exact EventLoopThread.never_oversleeps reachable
    · intro event s' taken late
      exact EventLoopThread.oversleeps_next reachable.of_restrict taken late

/-- The starter sleeps before the worker stores its loop. -/
def notifiesSleeper : List (Event EventLoopThread.Thread Unit) :=
  List.replicate 4 (.run .starter ()) ++ List.replicate 4 (.run .worker ())

theorem startup_handshakes_sleeper :
    ∃ s, Transition.Reachable
        (EventLoopThread.system.restrict EventLoopThread.NotifiesInTime) s ∧
      s.location .worker = .worker .looping ∧ ¬ EventLoopThread.Oversleeps s := by
  let check : EventLoopThread.Startup → Event EventLoopThread.Thread Unit → Bool := fun s _ =>
    s.location .worker = .worker .notifying → s.standing .starter ≠ .running
  have sound : ∀ s event, Transition.Reachable
      (EventLoopThread.system.restrict EventLoopThread.NotifiesInTime) s →
        check s event = true → EventLoopThread.NotifiesInTime s event := by
    intro s event _before checked
    unfold EventLoopThread.NotifiesInTime
    split
    · intro notifying between
      exact of_decide_eq_true checked notifying between.2
    · trivial
  have found : ∃ s ∈ Transition.execute
      (Transition.checked check (step EventLoopThread.code)) EventLoopThread.new
      notifiesSleeper, s.location .worker = .worker .looping := by
    decide
  obtain ⟨s, within, looping⟩ := Transition.exists_reachable_within sound found
  exact ⟨s, within, looping, ((startup_handshakes 1).2 s within).1⟩

/-- The worker stores its loop and notifies between the test and the wait of the starter. -/
def notifiesNobody : List (Event EventLoopThread.Thread Unit) :=
  List.replicate 3 (.run .starter ()) ++ List.replicate 4 (.run .worker ()) ++
    [.run .starter ()]

theorem startLoop_oversleeps :
    ∃ s, Transition.Reachable EventLoopThread.system s ∧ EventLoopThread.Oversleeps s := by
  have found : ∃ s ∈ Transition.execute (step EventLoopThread.code) EventLoopThread.new
      notifiesNobody,
      s.location .worker = .worker .looping ∧ s.standing .starter = .asleep () := by
    decide
  exact Transition.exists_reachable found

end Uvcpp
