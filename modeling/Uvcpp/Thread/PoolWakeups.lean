/-
Wake-ups in ThreadPool.

Every push notifies the workers and every pop the producers, but stop notifies only
the workers: a producer that sleeps when stop turns `running_` off is forgotten.
-/

import Uvcpp.Thread.PoolOutline

namespace Uvcpp.ThreadPool

open Monitor

variable {Body : Type}

/-! ### Readiness and debts -/

/-- The waiters of a condition have nothing to wait for. -/
def ready : Cond → Shared Body → Prop
  | .notFull, sh => sh.queue.length < sh.maxSize ∨ sh.running = false
  | .notEmpty, sh => sh.queue ≠ [] ∨ sh.running = false

/-- The locations between a change of the queue or of `running_` and its notification. -/
def owes : Cond → Thread → Local Body → Prop
  | .notEmpty, .controller, .control .notifying => True
  | .notEmpty, .producer _, .run .notifying => True
  | .notFull, .worker _, .func (.notifying _) => True
  | _, _, _ => False

/-- The mutex is free and somebody sleeps through a condition that is ready. -/
def Oversleeps (s : Pool Body) : Prop :=
  s.owner = none ∧ ∃ t cond, s.standing t = .asleep cond ∧ ready cond s.shared

/-- When stop turns `running_` off, no producer sleeps un-notified. -/
def NobodySleeps (s : Pool Body) : Event Thread (Choice Body) → Prop
  | .run .controller _ =>
      s.location .controller = .control .turningOff →
        ∀ t, s.standing t ≠ .asleep .notFull
  | _ => True

theorem Moves.notEmpty {t : Thread} {l next : Local Body} {sh sh' : Shared Body}
    (move : Moves t l sh sh' next) (after : ready .notEmpty sh') :
    (ready .notEmpty sh ∧ (owes .notEmpty t l → owes .notEmpty t next)) ∨
      (inside t l ∧ owes .notEmpty t next) := by
  cases move
  case push => exact .inr ⟨trivial, trivial⟩
  case turnOff => exact .inr ⟨trivial, trivial⟩
  case publish => exact .inl ⟨.inl (by simpa [ready] using after), False.elim⟩
  case drop front => exact .inl ⟨.inl (by simp [front]), False.elim⟩
  case take front => exact .inl ⟨.inl (by simp [front]), False.elim⟩
  all_goals exact .inl ⟨after, False.elim⟩

theorem Moves.notFull {t : Thread} {l next : Local Body} {sh sh' : Shared Body}
    (move : Moves t l sh sh' next) (holds : assertion t l sh) (after : ready .notFull sh') :
    (ready .notFull sh ∧ (owes .notFull t l → owes .notFull t next)) ∨
      (inside t l ∧ owes .notFull t next) ∨
      (t = .controller ∧ l = .control .turningOff) := by
  cases move
  case take => exact .inr (.inl ⟨trivial, trivial⟩)
  case turnOff => exact .inr (.inr ⟨rfl, rfl⟩)
  case publish => exact .inl ⟨.inl (by simpa [ready] using after), False.elim⟩
  case push =>
    refine .inl ⟨?_, False.elim⟩
    rcases after with room | off
    · exact .inl (Nat.lt_of_succ_lt (by simpa using room))
    · exact .inr off
  case drop =>
    have off : sh.running = false := by
      have tied := holds.1
      simpa [Tied, holds.2.2.1] using tied
    exact .inl ⟨.inr off, False.elim⟩
  all_goals exact .inl ⟨after, False.elim⟩

/-! ### Signals -/

section Signals

variable {maxSize : Nat} {s : Pool Body}

/-- A thread waits only while its condition is not ready. -/
theorem sleeps (reachable : Transition.Reachable (system Body maxSize) s) {t : Thread}
    {cond : Cond} {next : Local Body} (owned : s.owner = some t)
    (waits : code t (s.location t) = .wait cond next) : ¬ ready cond s.shared := by
  have running := ((exclusive reachable).holds t).1 owned
  have holds := (annotated reachable).running t running.1
  have cases := code_wait waits
  generalize s.location t = l at holds cases
  rcases cases with ⟨_, _, rfl, rfl, rfl, rfl⟩ | ⟨_, rfl, rfl, rfl, rfl⟩
  · obtain ⟨_, _, on, full⟩ := holds
    simp [ready, on, Nat.not_lt_of_le full]
  · obtain ⟨tied, _, _, started, empty⟩ := holds
    simp [ready, empty, tied.2 started]

theorem signals (reachable : Transition.Reachable (system Body maxSize) s) (cond : Cond)
    {event : Event Thread (Choice Body)} (nobody : NobodySleeps s event) :
    Signals code inside cond (ready cond) (owes cond) s event := by
  constructor
  · exact sleeps reachable
  · intro t l next same
    rcases code_lock same with ⟨rfl, rfl, rfl⟩ | ⟨_, _, rfl, rfl, rfl⟩ | ⟨_, rfl, rfl, rfl⟩ <;>
      cases cond <;> simp [owes]
  · intro t l next same
    rcases code_unlock same with ⟨rfl, rfl, rfl⟩ | ⟨_, rfl, rfl, rfl⟩ | ⟨_, _, rfl, rfl, rfl⟩ <;>
      cases cond <;> simp [owes]
  · intro t l other next same
    rcases code_wait same with ⟨_, _, rfl, rfl, rfl, rfl⟩ | ⟨_, rfl, rfl, rfl, rfl⟩ <;>
      cases cond <;> simp [owes]
  · intro t l other next same different
    rcases code_notifyAll same with ⟨rfl, rfl, rfl, rfl⟩ | ⟨_, rfl, rfl, rfl, rfl⟩ |
      ⟨_, _, rfl, rfl, rfl, rfl⟩ <;> cases cond <;> simp_all [owes]
  · intro t choice action sh next same running acts result after
    have move := moves acts result
    cases cond with
    | notEmpty =>
        rcases move.notEmpty after with before | debt
        · exact .inl before
        · exact .inr (.inl debt)
    | notFull =>
        have holds := (annotated reachable).running t running
        rcases move.notFull holds after with before | debt | ⟨rfl, off⟩
        · exact .inl before
        · exact .inr (.inl debt)
        · subst same
          exact .inr (.inr (nobody off))

/-- In every run in which stop finds no sleeping producer, nobody oversleeps. -/
theorem watchful (cond : Cond)
    (reachable : Transition.Reachable ((system Body maxSize).restrict NobodySleeps) s) :
    Watchful cond (ready cond) (owes cond) s := by
  induction reachable with
  | start begins =>
      cases begins
      intro t asleep
      cases asleep
  | next before taken ih =>
      have full := before.of_restrict
      exact (signals full cond taken.1).watchful (step_effect taken.2) (exclusive full) ih

end Signals

/-! ### Nobody oversleeps -/

/-- start(1), one task pushed and begun, a second one queued, and a producer asleep. -/
def fullQueue : List (Event Thread (Choice Unit)) :=
  [.run .controller (.start 1)] ++
  List.replicate 3 (.run .controller .proceed) ++
  [.run (.producer 0) (.run (some ()))] ++
  List.replicate 5 (.run (.producer 0) .proceed) ++
  List.replicate 10 (.run (.worker 0) .proceed) ++
  [.run (.producer 0) (.run (some ()))] ++
  List.replicate 5 (.run (.producer 0) .proceed) ++
  [.run (.producer 1) (.run (some ()))] ++
  List.replicate 3 (.run (.producer 1) .proceed)

/-- stop, while the worker finishes its task and leaves. -/
def stopping : List (Event Thread (Choice Unit)) :=
  [.run .controller .stop] ++
  List.replicate 3 (.run .controller .proceed) ++
  List.replicate 4 (.run (.worker 0) .proceed) ++
  List.replicate 5 (.run .controller .proceed)

/-- In every run in which stop finds no sleeping producer, a free mutex means that
no sleeper's condition is ready. -/
theorem no_lost_wakeup {maxSize : Nat} {s : Pool Body}
    (reachable : Transition.Reachable ((system Body maxSize).restrict NobodySleeps) s) :
    ¬ Oversleeps s := by
  rintro ⟨free, t, cond, asleep, isReady⟩
  obtain ⟨owner, owned, _⟩ := watchful cond reachable t asleep isReady
  rw [free] at owned
  cases owned

theorem no_lost_wakeup_full :
    ∃ s, Transition.Reachable ((system Unit 1).restrict NobodySleeps) s ∧
      s.standing (.producer 1) = .asleep .notFull ∧ ¬ Oversleeps s := by
  let check : Pool Unit → Event Thread (Choice Unit) → Bool :=
    fun s _ => s.location .controller ≠ .control .turningOff
  have sound : ∀ s event, Transition.Reachable ((system Unit 1).restrict NobodySleeps) s →
      check s event = true → NobodySleeps s event := by
    intro s event _before checked
    unfold NobodySleeps
    split
    · intro off
      exact absurd off (of_decide_eq_true checked)
    · trivial
  have found : ∃ s ∈ Transition.execute (Transition.checked check (step code)) (new 1) fullQueue,
      s.standing (.producer 1) = .asleep .notFull := by
    decide
  obtain ⟨s, within, asleep⟩ := Transition.exists_reachable_within sound found
  exact ⟨s, within, asleep, no_lost_wakeup within⟩

/-- A producer that slept on a full queue when stop was called sleeps for ever. -/
theorem producer_oversleeps : ∃ s, Transition.Reachable (system Unit 1) s ∧ Oversleeps s := by
  have found : ∃ s ∈ Transition.execute (step code) (new 1) (fullQueue ++ stopping),
      s.owner = none ∧ s.standing (.producer 1) = .asleep .notFull ∧
        s.shared.running = false := by
    decide
  obtain ⟨s, reachable, free, asleep, off⟩ := Transition.exists_reachable found
  exact ⟨s, reachable, free, .producer 1, .notFull, asleep, .inr off⟩

end Uvcpp.ThreadPool
