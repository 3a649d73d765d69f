/-
When the workers of ThreadPool leave.

start publishes `running_` only after it has spawned the workers, so a worker that
tests it early leaves at once; stop joins the workers while it holds the mutex, so a
worker that still needs the mutex never leaves.
-/

import Uvcpp.Thread.PoolOutline

namespace Uvcpp.ThreadPool

open Monitor

variable {Body : Type}

/-! ### Progress of start and stop -/

theorem Moves.stage {t : Thread} {l next : Local Body} {sh sh' : Shared Body}
    (move : Moves t l sh sh' next) (holds : assertion t l sh) :
    sh'.stage = sh.stage ∨ (sh.stage = .idle ∧ sh'.stage = .started) ∨
      (t = .controller ∧ l = .control .turningOff ∧ sh'.stage = .stopping) ∨
      (sh.stage = .stopping ∧ sh'.stage = .stopped) := by
  cases move
  case publish => exact .inr (.inl ⟨holds.2.1, rfl⟩)
  case turnOff => exact .inr (.inr (.inl ⟨rfl, rfl, rfl⟩))
  case drained => exact .inr (.inr (.inr ⟨holds.2.2.1, rfl⟩))
  all_goals exact .inl rfl

/-- stop has turned `running_` off. -/
def Closing (s : Pool Body) : Prop :=
  s.shared.stage = .stopping ∨ s.shared.stage = .stopped

theorem closing_step {s s' : Pool Body} {event : Event Thread (Choice Body)}
    (effect : Effect code s event s') (annotated : Annotated Calm assertion resting s)
    (closing : Closing s') : Closing s ∨
      (s.location .controller = .control .turningOff ∧
        ∃ choice, event = .run .controller choice) := by
  cases effect with
  | @acts t choice action sh next running acts result =>
      have move := moves acts result
      have holds := annotated.running t running
      rcases move.stage holds with same | ⟨_, started⟩ | ⟨rfl, off, _⟩ | ⟨stopping, _⟩
      · left
        unfold Closing at closing ⊢
        rwa [← same]
      · rcases closing with stopping | stopped
        · exact absurd (started.symm.trans stopping) (by simp)
        · exact absurd (started.symm.trans stopped) (by simp)
      · exact .inr ⟨off, choice, rfl⟩
      · exact .inl (.inl stopping)
  | _ => exact .inl closing

theorem Moves.closing {t : Thread} {l next : Local Body} {sh sh' : Shared Body}
    (move : Moves t l sh sh' next) (holds : assertion t l sh)
    (closing : sh.stage = .stopping ∨ sh.stage = .stopped) :
    sh'.stage = .stopping ∨ sh'.stage = .stopped := by
  rcases move.stage holds with same | ⟨idle, _⟩ | ⟨_, _, stopping⟩ | ⟨_, stopped⟩
  · rwa [same]
  · simp [idle] at closing
  · exact .inl stopping
  · exact .inr stopped

/-! ### Joining under the mutex -/

/-- The worker is about to take the mutex, or waits and has to get it back. -/
def NeedsMutex (s : Pool Body) (index : Nat) : Prop :=
  s.location (.worker index) = .func .locking ∨ s.standing (.worker index) ≠ .running

/-- stop holds the mutex and is blocked in the join of a worker that needs it. -/
def Deadlocked (s : Pool Body) : Prop :=
  s.owner = some .controller ∧ ∃ index, s.location .controller = .control (.joining index) ∧
    index < s.shared.threads ∧ NeedsMutex s index

/-- When stop turns `running_` off, no worker needs the mutex. -/
def NobodyNeeds (s : Pool Body) : Event Thread (Choice Body) → Prop
  | .run .controller _ =>
      s.location .controller = .control .turningOff → ∀ index, ¬ NeedsMutex s index
  | _ => True

theorem NeedsMutex.other {s s' : Pool Body} {t : Thread} {choice : Choice Body} {index : Nat}
    (effect : Effect code s (.run t choice) s') (other : .worker index ≠ t)
    (needs : NeedsMutex s' index) : NeedsMutex s index := by
  have stays := effect.others other
  unfold NeedsMutex at needs ⊢
  rwa [stays.1, Ne, stays.2.1] at needs

/-- A worker comes to need the mutex only while the pool is started. -/
theorem needs_step {s s' : Pool Body} {event : Event Thread (Choice Body)}
    (effect : Effect code s event s') (annotated : Annotated Calm assertion resting s)
    {index : Nat} (needs : NeedsMutex s' index) :
    NeedsMutex s index ∨ s'.shared.stage = .started := by
  cases event with
  | wake t =>
      left
      cases effect with
      | wakes asleep =>
          by_cases same : .worker index = t
          · subst same
            exact .inr (by simp [asleep])
          · unfold NeedsMutex at needs ⊢
            rwa [s.stand_other _ same] at needs
  | run t choice =>
      by_cases same : .worker index = t
      · subst same
        cases effect with
        | resumes woken waits free =>
            exact .inl (.inr (by simp [woken]))
        | locks running locks free =>
            rcases code_lock locks with ⟨impossible, _⟩ | ⟨_, _, impossible, _⟩ | ⟨_, _, before, _⟩
            · cases impossible
            · cases impossible
            · exact .inl (.inl before)
        | unlocks running unlocks owned =>
            rcases code_unlock unlocks with ⟨impossible, _⟩ | ⟨_, impossible, _⟩ |
              ⟨_, _, _, before, rfl⟩
            · cases impossible
            · cases impossible
            · simp [NeedsMutex, State.moveTo, running] at needs
        | waits running waits owned =>
            have holds := annotated.running _ running
            rcases code_wait waits with ⟨_, _, impossible, _⟩ | ⟨_, _, before, _⟩
            · cases impossible
            · rw [before] at holds
              exact .inr holds.2.2.2.1
        | notifies running notifies =>
            rcases code_notifyAll notifies with ⟨impossible, _⟩ | ⟨_, impossible, _⟩ |
              ⟨_, _, _, before, _, rfl⟩
            · cases impossible
            · cases impossible
            · simp [NeedsMutex, State.moveTo, State.notify, running] at needs
        | @acts _ _ action sh next running acts result =>
            have holds := annotated.running _ running
            have move := moves acts result
            have moved : next = .func .locking := by
              simpa [NeedsMutex, State.moveTo, running] using needs
            subst moved
            generalize s.location (.worker index) = l at holds move
            cases move with
            | enter on => exact .inr (holds.1.1 on)
      · exact .inl (needs.other effect same)

section Reachable

variable {maxSize : Nat} {s : Pool Body}

theorem closing_unneeded
    (reachable : Transition.Reachable ((system Body maxSize).restrict NobodyNeeds) s)
    (closing : Closing s) (index : Nat) : ¬ NeedsMutex s index := by
  induction reachable with
  | start begins =>
      cases begins
      rcases closing with stopping | stopped
      · cases stopping
      · cases stopped
  | @next s event s' before taken ih =>
      intro needs
      have effect := step_effect taken.2
      have annotated := annotated before.of_restrict
      have needed : NeedsMutex s index := by
        rcases needs_step effect annotated needs with earlier | started
        · exact earlier
        · simp [Closing, started] at closing
      rcases closing_step effect annotated closing with earlier | ⟨off, choice, rfl⟩
      · exact ih earlier needed
      · exact taken.1 off index needed

theorem needs_created (reachable : Transition.Reachable (system Body maxSize) s) {index : Nat}
    (needs : NeedsMutex s index) : index < s.shared.spawned := by
  have holds := annotated reachable
  by_cases running : s.standing (.worker index) = .running
  · rcases needs with before | stopped
    · have own := holds.running _ running
      rw [before] at own
      exact own.2.1.created
    · exact absurd running stopped
  · have rests := holds.waiting _ running
    obtain ⟨cond, next, waits⟩ := (exclusive reachable).waits _ running
    rcases code_wait waits with ⟨_, _, impossible, _⟩ | ⟨_, _, before, _⟩
    · cases impossible
    · rw [before] at rests
      exact rests.2.1.created

/-- In every run in which no worker needs the mutex when stop turns `running_` off,
stop never joins a worker that does. -/
theorem stop_never_deadlocks
    (reachable : Transition.Reachable ((system Body maxSize).restrict NobodyNeeds) s) :
    ¬ Deadlocked s := by
  rintro ⟨owned, index, joining, _within, needs⟩
  have full := reachable.of_restrict
  have running := (((exclusive full).holds .controller).1 owned).1
  have holds := (annotated full).running .controller running
  rw [joining] at holds
  exact closing_unneeded reachable (.inl holds.2.2.1) index needs

end Reachable

/-- start(1), one task pushed and begun by the worker, and stop up to its join. -/
def busyStop : List (Event Thread (Choice Unit)) :=
  [.run .controller (.start 1)] ++
  List.replicate 3 (.run .controller .proceed) ++
  [.run (.producer 0) (.run (some ()))] ++
  List.replicate 5 (.run (.producer 0) .proceed) ++
  List.replicate 10 (.run (.worker 0) .proceed) ++
  [.run .controller .stop] ++
  List.replicate 3 (.run .controller .proceed)

/-- start(1), and stop up to its join while the worker waits for a task. -/
def idleStop : List (Event Thread (Choice Unit)) :=
  [.run .controller (.start 1)] ++
  List.replicate 3 (.run .controller .proceed) ++
  List.replicate 6 (.run (.worker 0) .proceed) ++
  [.run .controller .stop] ++
  List.replicate 3 (.run .controller .proceed)

theorem stop_never_deadlocks_busy :
    ∃ s, Transition.Reachable ((system Unit 1).restrict NobodyNeeds) s ∧
      s.location .controller = .control (.joining 0) ∧ ¬ Deadlocked s := by
  let check : Pool Unit → Event Thread (Choice Unit) → Bool := fun s _ =>
    s.location .controller = .control .turningOff →
      s.shared.spawned ≤ 1 ∧ s.location (.worker 0) ≠ .func .locking ∧
        s.standing (.worker 0) = .running
  have sound : ∀ s event, Transition.Reachable ((system Unit 1).restrict NobodyNeeds) s →
      check s event = true → NobodyNeeds s event := by
    intro s event before checked
    unfold NobodyNeeds
    split
    · intro off index needs
      obtain ⟨few, elsewhere, running⟩ := of_decide_eq_true checked off
      have created := needs_created before.of_restrict needs
      obtain rfl : index = 0 := by omega
      rcases needs with locking | stopped
      · exact elsewhere locking
      · exact stopped running
    · trivial
  have found : ∃ s ∈ Transition.execute (Transition.checked check (step code)) (new 1) busyStop,
      s.location .controller = .control (.joining 0) := by
    decide
  obtain ⟨s, within, joining⟩ := Transition.exists_reachable_within sound found
  exact ⟨s, within, joining, stop_never_deadlocks within⟩

/-- stop deadlocks with a worker that waits for a task. -/
theorem stop_deadlocks : ∃ s, Transition.Reachable (system Unit 1) s ∧ Deadlocked s := by
  have found : ∃ s ∈ Transition.execute (step code) (new 1) idleStop,
      s.owner = some .controller ∧ s.location .controller = .control (.joining 0) ∧
        0 < s.shared.threads ∧ s.standing (.worker 0) = .woken := by
    decide
  obtain ⟨s, reachable, owned, joining, within, woken⟩ := Transition.exists_reachable found
  exact ⟨s, reachable, owned, 0, joining, within, .inr (by simp [woken])⟩

/-! ### Testing before start has finished -/

/-- The worker has left the loop of threadFunc. -/
def HasLeft (s : Pool Body) (index : Nat) : Prop :=
  s.location (.worker index) = .func .leaving ∨ s.location (.worker index) = .func .exited

/-- The worker was created and has not left. -/
def Serves (s : Pool Body) (index : Nat) : Prop :=
  index < s.shared.spawned ∧ ¬ HasLeft s index

/-- start has returned for this number of threads, and stop was not called. -/
def Started (s : Pool Body) (threadNum : Nat) : Prop :=
  s.location .controller = .control (.started threadNum)

def StopCalled (s : Pool Body) : Prop :=
  match s.location .controller with
  | .control .created => False
  | .control (.spawning _) => False
  | .control (.publishing _) => False
  | .control (.started _) => False
  | _ => True

/-- Nobody leaves before stop is called, and between start and stop exactly the
threads that start was asked for serve the queue. -/
def Working (s : Pool Body) : Prop :=
  (∀ index, HasLeft s index → StopCalled s) ∧
    ∀ threadNum, Started s threadNum → ∀ index, Serves s index ↔ index < threadNum

/-- A worker tests `running_` only after start has set it. -/
def TestsLate (s : Pool Body) : Event Thread (Choice Body) → Prop
  | .run (.worker index) _ =>
      s.location (.worker index) = .func .testing → s.shared.stage ≠ .idle
  | _ => True

theorem closing_preserved {s s' : Pool Body} {event : Event Thread (Choice Body)}
    (effect : Effect code s event s') (annotated : Annotated Calm assertion resting s)
    (closing : Closing s) : Closing s' := by
  cases effect with
  | acts running acts result =>
      exact (moves acts result).closing (annotated.running _ running) closing
  | _ => exact closing

/-- A worker leaves only by reading that `running_` is off. -/
theorem left_step {s s' : Pool Body} {event : Event Thread (Choice Body)}
    (effect : Effect code s event s') {index : Nat} (left : HasLeft s' index) :
    HasLeft s index ∨ (s.shared.running = false ∧ s.location (.worker index) = .func .testing ∧
      s.standing (.worker index) = .running ∧ ∃ choice, event = .run (.worker index) choice) := by
  cases event with
  | wake t =>
      cases effect with
      | wakes asleep => exact .inl left
  | run t choice =>
      by_cases same : .worker index = t
      · subst same
        cases effect with
        | resumes woken waits free =>
            rcases code_wait waits with ⟨_, _, impossible, _⟩ | ⟨_, _, _, _, rfl⟩
            · cases impossible
            · simp [HasLeft, State.moveTo, State.stand] at left
        | locks running locks free =>
            rcases code_lock locks with ⟨impossible, _⟩ | ⟨_, _, impossible, _⟩ | ⟨_, _, _, rfl⟩
            · cases impossible
            · cases impossible
            · simp [HasLeft, State.moveTo] at left
        | unlocks running unlocks owned =>
            rcases code_unlock unlocks with ⟨impossible, _⟩ | ⟨_, impossible, _⟩ |
              ⟨_, _, _, _, rfl⟩
            · cases impossible
            · cases impossible
            · simp [HasLeft, State.moveTo] at left
        | waits running waits owned => exact .inl left
        | notifies running notifies =>
            rcases code_notifyAll notifies with ⟨impossible, _⟩ | ⟨_, impossible, _⟩ |
              ⟨_, _, _, _, _, rfl⟩
            · cases impossible
            · cases impossible
            · simp [HasLeft, State.moveTo] at left
        | @acts _ _ action sh next running acts result =>
            have move := moves acts result
            have moved : next = .func .leaving ∨ next = .func .exited := by
              simpa [HasLeft, State.moveTo] using left
            generalize before : s.location (.worker index) = l at move
            cases move with
            | leave off => exact .inr ⟨off, rfl, running, choice, rfl⟩
            | exit => exact .inl (.inl before)
            | _ => simp at moved
      · left
        unfold HasLeft at left ⊢
        rwa [(effect.others same).1] at left

section Reachable

variable {maxSize : Nat} {s : Pool Body}

theorem control_annotated (reachable : Transition.Reachable (system Body maxSize) s) :
    assertion .controller (s.location .controller) s.shared := by
  by_cases running : s.standing .controller = .running
  · exact (annotated reachable).running .controller running
  · exact ((annotated reachable).waiting .controller running).2.elim

theorem left_closing
    (reachable : Transition.Reachable ((system Body maxSize).restrict TestsLate) s)
    {index : Nat} (left : HasLeft s index) : Closing s := by
  induction reachable with
  | start begins =>
      cases begins
      rcases left with leaving | exited
      · cases leaving
      · cases exited
  | @next s event s' before taken ih =>
      have effect := step_effect taken.2
      have annotated := annotated before.of_restrict
      apply closing_preserved effect annotated
      rcases left_step effect left with earlier | ⟨off, testing, running, choice, rfl⟩
      · exact ih earlier
      · have tied := (annotated.running _ running).1
        have begun : s.shared.stage ≠ .idle := taken.1 testing
        have unstarted : s.shared.stage ≠ .started := by
          intro started
          rw [tied.2 started] at off
          cases off
        cases progress : s.shared.stage with
        | idle => exact absurd progress begun
        | started => exact absurd progress unstarted
        | stopping => exact .inl progress
        | stopped => exact .inr progress

theorem stop_was_called (reachable : Transition.Reachable (system Body maxSize) s)
    (closing : Closing s) : StopCalled s := by
  have holds := (control_annotated reachable).2
  unfold StopCalled
  split
  · rename_i place
    rw [place] at holds
    simp [Closing, holds.1] at closing
  · rename_i place
    rw [place] at holds
    simp [Closing, holds.1] at closing
  · rename_i place
    rw [place] at holds
    simp [Closing, holds.1] at closing
  · rename_i place
    rw [place] at holds
    simp [Closing, holds.1] at closing
  · trivial

/-- In every run in which the workers first test `running_` after start has set it,
start yields a working pool. -/
theorem start_works
    (reachable : Transition.Reachable ((system Body maxSize).restrict TestsLate) s) :
    Working s := by
  have full := reachable.of_restrict
  constructor
  · intro index left
    exact stop_was_called full (left_closing reachable left)
  · intro threadNum started index
    have holds := (control_annotated full).2
    rw [started] at holds
    obtain ⟨begun, _, created⟩ := holds
    unfold Serves
    rw [created]
    constructor
    · exact fun serves => serves.1
    · intro within
      refine ⟨within, ?_⟩
      intro left
      have closing := left_closing reachable left
      simp [Closing, begun] at closing

end Reachable

/-- start(1) returns, and then the worker runs until it waits. -/
def lateWorker : List (Event Thread (Choice Unit)) :=
  [.run .controller (.start 1)] ++
  List.replicate 3 (.run .controller .proceed) ++
  List.replicate 6 (.run (.worker 0) .proceed)

/-- The worker tests `running_` before start returns. -/
def earlyWorker : List (Event Thread (Choice Unit)) :=
  [.run .controller (.start 1), .run .controller .proceed] ++
  List.replicate 3 (.run (.worker 0) .proceed) ++
  List.replicate 2 (.run .controller .proceed)

/-- What makes `TestsLate` hold, to be evaluated. -/
def lateTest (s : Pool Unit) (event : Event Thread (Choice Unit)) : Bool :=
  match event with
  | .run (.worker _) _ => s.shared.stage ≠ .idle
  | _ => true

theorem start_works_late :
    ∃ s, Transition.Reachable ((system Unit 1).restrict TestsLate) s ∧
      Started s 1 ∧ s.standing (.worker 0) = .asleep .notEmpty ∧ Working s := by
  have sound : ∀ s event, Transition.Reachable ((system Unit 1).restrict TestsLate) s →
      lateTest s event = true → TestsLate s event := by
    intro s event _before checked
    unfold TestsLate
    split
    · intro _testing
      exact of_decide_eq_true checked
    · trivial
  have found : ∃ s ∈ Transition.execute (Transition.checked lateTest (step code)) (new 1)
      lateWorker, s.location .controller = .control (.started 1) ∧
        s.standing (.worker 0) = .asleep .notEmpty := by
    decide
  obtain ⟨s, within, started, asleep⟩ := Transition.exists_reachable_within sound found
  exact ⟨s, within, started, asleep, start_works within⟩

/-- A worker that is quicker than start leaves, and start returns an empty pool. -/
theorem start_loses_worker : ∃ s, Transition.Reachable (system Unit 1) s ∧ ¬ Working s := by
  have found : ∃ s ∈ Transition.execute (step code) (new 1) earlyWorker,
      s.location .controller = .control (.started 1) ∧
        s.location (.worker 0) = .func .leaving := by
    decide
  obtain ⟨s, reachable, started, leaving⟩ := Transition.exists_reachable found
  refine ⟨s, reachable, ?_⟩
  rintro ⟨called, _⟩
  have stopped := called 0 (.inl leaving)
  simp [StopCalled, started] at stopped

end Uvcpp.ThreadPool
