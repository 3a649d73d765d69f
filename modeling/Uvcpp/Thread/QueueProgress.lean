/-
The queues come to rest.

However the calls interleave, they pay for a bounded number of steps, and when no call can
go on by itself, those that have not returned wait for what only another call can give.
-/

import Mathlib.Tactic.FinCases
import Uvcpp.Library.MonitorProgress
import Uvcpp.Thread.BlockingQueue
import Uvcpp.Thread.BoundedQueueRefinement

namespace Uvcpp

open Monitor

namespace BoundedBlockingQueue

variable {Thread Elem : Type}

/-- A thread that makes no call need not make one. -/
def idle (_ : Thread) : Local Elem → Prop
  | .outside _ => True
  | _ => False

theorem idle_outside {t : Thread} {l : Local Elem} (idles : idle t l) : ¬inside t l := by
  cases l <;> cases idles
  exact id

def weights (threads : Nat) : Weights Thread (Shared Elem) (Local Elem) where
  cost _ l _ :=
    match l with
    | .outside _ => 0
    | .locking _ => 5
    | .testing _ => 4
    | .waiting _ => 1
    | .changing _ => 3
    | .notifying _ _ => 2
    | .unlocking _ _ => 1
  debts
    | .outside _ => 0
    | .unlocking _ _ => 0
    | _ => threads * 5 + 1
  stock _ := 0
  wake := 5
  call := 5 * threads + 6

theorem weights_fit [Fintype Thread] : Weights.Fit (weights (Fintype.card Thread))
    (@code Thread Elem) inside idle (fun _ _ _ => True) Finset.univ := by
  constructor
  · intro t l next same
    cases l <;> cases same
    simp [weights]
  · intro t l next same
    cases l <;> cases same
    simp [weights]
  · intro t l cond next same
    cases l <;> cases same
    simp [weights]
  · intro t l cond next same
    cases l <;> cases same
    simp [weights, Weights.notice]
  · intro t l action choice sh sh' next acts result _holds
    cases moves acts result with
    | call =>
        refine ⟨fun busy => absurd trivial busy, fun _ => ?_⟩
        simp only [weights]
        omega
    | full | room | change =>
        refine ⟨fun _ => ?_, fun idles => absurd idles id⟩
        simp [weights]
  · intro t l action choice sh sh' next _acts _result u k _other _apart
    exact Nat.le_refl _
  · intro t l idles
    cases l <;> cases idles
    exact ⟨_, rfl⟩

section Reachable

variable [DecidableEq Thread] {maxSize : Nat} {s : State Thread Cond (Shared Elem) (Local Elem)}

/-- Who has found room or an element can use it. -/
theorem change_isSome {call : Call Elem} {sh : Shared Elem} (room : sh.blocks call = false) :
    (sh.change call).isSome := by
  cases call with
  | put elem => rfl
  | take =>
      have filled : sh.queue.isEmpty = false := room
      cases front : sh.queue with
      | nil =>
          rw [front] at filled
          cases filled
      | cons elem rest => simp [Shared.change, front]

theorem responsive (reachable : Transition.Reachable (program Thread Elem maxSize) s) :
    Responsive code inside idle s := by
  constructor
  · exact fun idles => idle_outside idles
  · intro t action running busy acts
    have holds := (annotated reachable).running t running
    cases place : s.location t <;> rw [place] at acts busy holds <;> cases acts
    · exact absurd trivial busy
    · exact ⟨.take, rfl⟩
    · exact ⟨.take, by simpa using change_isSome holds⟩

/-- At rest a call waits, and its condition does not hold. -/
theorem rests (reachable : Transition.Reachable (program Thread Elem maxSize) s)
    (rest : AtRest code idle s) (t : Thread) :
    (∃ returned, s.location t = .outside returned) ∨
      ∃ call, s.location t = .waiting call ∧ s.standing t = .asleep call.awaits ∧
        s.shared.blocks call = true := by
  have : Nonempty (Call Elem) := ⟨.take⟩
  obtain ⟨free, asleep⟩ := rest.asleep locking (exclusive reachable) (responsive reachable)
  by_cases idles : idle t (s.location t)
  · left
    cases place : s.location t <;> rw [place] at idles <;> cases idles
    exact ⟨_, rfl⟩
  · right
    obtain ⟨cond, sleeps⟩ := asleep t idles
    obtain ⟨next, waits⟩ := (exclusive reachable).sleeps t cond sleeps
    cases place : s.location t <;> rw [place] at waits <;> cases waits
    rename_i call
    refine ⟨call, rfl, sleeps, ?_⟩
    have unready : ¬s.shared.ready call.awaits := by
      intro ready
      have due := program_watchful reachable sleeps ready
      simp [owed, free] at due
    obtain ⟨deeds, sound⟩ := program_sound reachable
    have bound : s.shared.queue.length ≤ s.shared.maxSize := sound.size ▸ sound.bound
    cases call with
    | put elem =>
        have full : ¬s.shared.queue.length < s.shared.maxSize := unready
        have size : s.shared.queue.length = s.shared.maxSize := Nat.le_antisymm bound (by omega)
        simpa [Shared.blocks] using size
    | take =>
        have empty : ¬s.shared.queue ≠ [] := unready
        simpa [Shared.blocks] using not_not.mp empty

end Reachable

/-- **Progress of the bounded queue.** In a run of `calls` calls of put and take with `wakes`
spurious wake-ups the threads make boundedly many steps, in whatever order.  If none of them
can go on without a further call, then those that have not returned are puts that wait on a
full queue or takes that wait on an empty one, and not both if the queue has room at all. -/
theorem put_take_progress (Thread Elem : Type) [DecidableEq Thread] [Fintype Thread]
    (maxSize : Nat) :
    (∀ r : Tally Thread Cond (Shared Elem) (Local Elem),
        Tallies code idle (fun s => s = new maxSize) r →
          r.steps ≤ r.calls * (5 * Fintype.card Thread + 6) + r.wakes * 5) ∧
      ∀ s, Transition.Reachable (program Thread Elem maxSize) s → AtRest code idle s →
        (∀ t, (∃ returned, s.location t = .outside returned) ∨
            ∃ call, s.location t = .waiting call ∧ s.standing t = .asleep call.awaits ∧
              s.shared.blocks call = true) ∧
          (0 < maxSize →
            ¬∃ t u elem, s.location t = .waiting (.put elem) ∧ s.location u = .waiting .take) := by
  constructor
  · intro r tallies
    have begins : ∀ s : State Thread Cond (Shared Elem) (Local Elem), s = new maxSize →
        Exclusive code inside s ∧
          (weights (Fintype.card Thread)).rank Finset.univ s ≤ 0 := by
      rintro s rfl
      refine ⟨new_exclusive, ?_⟩
      simp [Weights.rank, Weights.share, Weights.load, new, weights]
    have paid :=
      weights_fit.steps_le locking idle_outside (fun _ _ => Finset.mem_univ _) begins
        (fun _ _ _ _ => trivial) tallies
    simp only [weights, Nat.zero_add] at paid
    exact Nat.le_trans (Nat.le_add_right _ _) paid
  · intro s reachable rest
    have waits := rests reachable rest
    refine ⟨waits, ?_⟩
    rintro room ⟨t, u, elem, puts, takes⟩
    have full : s.shared.blocks (.put elem) = true := by
      rcases waits t with ⟨_, idles⟩ | ⟨call, place, _, blocks⟩
      · rw [puts] at idles
        cases idles
      · rw [puts] at place
        cases place
        exact blocks
    have empty : s.shared.blocks .take = true := by
      rcases waits u with ⟨_, idles⟩ | ⟨call, place, _, blocks⟩
      · rw [takes] at idles
        cases idles
      · rw [takes] at place
        cases place
        exact blocks
    have size : s.shared.queue.length = s.shared.maxSize := by simpa [Shared.blocks] using full
    have none : s.shared.queue = [] := by simpa [Shared.blocks] using empty
    obtain ⟨deeds, sound⟩ := program_sound reachable
    have fixed : s.shared.maxSize = maxSize := sound.size
    rw [none, fixed] at size
    exact Nat.ne_of_lt room size

/-- A take waits alone on the empty queue. -/
theorem put_take_progress_waiting :
    ∃ s, Transition.Reachable (program (Fin 2) Nat 1) s ∧ AtRest code idle s ∧
      s.location 0 = .waiting .take ∧
      ¬∃ t u elem, s.location t = .waiting (.put elem) ∧ s.location u = .waiting .take := by
  have found : ∃ s ∈ Transition.execute (step code) (new 1)
      (List.replicate 4 (.run (0 : Fin 2) (.take : Call Nat))),
      s.standing 0 = .asleep .notEmpty ∧ s.location 0 = .waiting .take ∧
        s.location 1 = .outside none := by
    decide
  obtain ⟨s, reachable, asleep, waits, idles⟩ := Transition.exists_reachable found
  have rest : AtRest code idle s := by
    intro t choice busy
    fin_cases t
    · simp [step, asleep]
    · have idle : idle (1 : Fin 2) (s.location 1) := by
        rw [idles]
        trivial
      exact absurd idle busy
  obtain ⟨_, stops⟩ := put_take_progress (Fin 2) Nat 1
  exact ⟨s, reachable, rest, waits, (stops s reachable rest).2 Nat.one_pos⟩

end BoundedBlockingQueue

namespace BlockingQueue

variable {Thread Elem : Type}

def idle (_ : Thread) : Local Elem → Prop
  | .outside => True
  | _ => False

theorem idle_outside {t : Thread} {l : Local Elem} (idles : idle t l) : ¬inside t l := by
  cases l <;> cases idles
  exact id

def weights (threads : Nat) : Weights Thread (Shared Elem) (Local Elem) where
  cost _ l _ :=
    match l with
    | .outside => 0
    | .entering _ => 4
    | .pushing _ => 3
    | .releasing => 2
    | .notifying => 1
    | .locking _ => 5
    | .testing _ => 4
    | .waiting _ => 1
    | .judging => 5
    | .popping => 2
    | .leaving _ => 1
  debts
    | .entering _ => threads * 6 + 1
    | .pushing _ => threads * 6 + 1
    | .releasing => threads * 6 + 1
    | .notifying => threads * 6 + 1
    | _ => 0
  stock _ := 0
  wake := 6
  call := 6 * threads + 6

theorem weights_fit [Fintype Thread] : Weights.Fit (weights (Fintype.card Thread))
    (@code Thread Elem) inside idle (fun _ _ _ => True) Finset.univ := by
  constructor
  · intro t l next same
    cases l <;> cases same <;> simp [weights]
  · intro t l next same
    cases l <;> cases same <;> simp [weights]
  · intro t l cond next same
    cases l <;> cases same
    rename_i timed
    cases timed <;> simp [weights]
  · intro t l cond next same
    cases l <;> cases same
    simp [weights, Weights.notice]
  · intro t l action choice sh sh' next acts result _holds
    cases moves acts result with
    | put | consume =>
        refine ⟨fun busy => absurd trivial busy, fun _ => ?_⟩
        simp only [weights]
        omega
    | _ =>
        refine ⟨fun _ => ?_, fun idles => absurd idles id⟩
        simp [weights]
  · intro t l action choice sh sh' next _acts _result u k _other _apart
    exact Nat.le_refl _
  · intro t l idles
    cases l <;> cases idles
    exact ⟨_, rfl⟩

/-- From the test to the pop the queue is not empty. -/
def filled (_ : Thread) (l : Local Elem) (sh : Shared Elem) : Prop :=
  match l with
  | .popping => sh.queue ≠ []
  | _ => True

theorem filled_outline : Outline (@code Thread Elem) inside (fun _ => True) filled
    (fun _ _ _ => True) := by
  constructor
  · intro t l next sh same _free _holds
    cases l <;> cases same
    all_goals trivial
  · intro t l next sh same _holds
    cases l <;> cases same
    all_goals exact ⟨trivial, trivial⟩
  · intro t l cond next sh _same _holds
    exact ⟨trivial, trivial⟩
  · intro t l cond next sh same _free _rests
    cases l <;> cases same
    rename_i timed
    cases timed <;> trivial
  · intro t l cond next sh same _holds
    cases l <;> cases same
    trivial
  · intro t l action choice sh sh' next acts result _holds
    refine ⟨?_, fun _ _ => trivial⟩
    cases moves acts result with
    | serves filled => exact filled
    | _ => trivial
  · intro t l action choice sh sh' next acts result _holds u k _other apart keeps
    cases k
    case popping =>
      cases moves acts result with
      | push => exact absurd ⟨trivial, trivial⟩ apart
      | pop front => exact absurd ⟨trivial, trivial⟩ apart
      | _ => exact keeps
    all_goals trivial
  · intro t l action choice sh sh' next _acts _result _holds u k _other _rests
    trivial

section Reachable

variable [DecidableEq Thread] {s : State Thread Unit (Shared Elem) (Local Elem)}

theorem responsive (reachable : Transition.Reachable (program Thread Elem) s) :
    Responsive code inside idle s := by
  constructor
  · exact fun idles => idle_outside idles
  · intro t action running busy acts
    have full : Annotated (fun _ => True) filled (fun _ _ _ => True) s := by
      apply filled_outline.annotated locking _ reachable
      rintro s rfl
      refine ⟨.fresh ⟨rfl, fun _ => rfl⟩ fun _ => id, ?_⟩
      exact ⟨fun _ => trivial, fun _ _ => trivial, fun _ _ => trivial⟩
    have holds := full.running t running
    cases place : s.location t <;> rw [place] at acts busy holds <;> cases acts
    · exact absurd trivial busy
    · exact ⟨.status true, rfl⟩
    · exact ⟨.status true, rfl⟩
    · exact ⟨.status true, rfl⟩
    · refine ⟨.status true, ?_⟩
      cases front : s.shared.queue with
      | nil => exact absurd front holds
      | cons elem rest => simp [Shared.pop, front]

/-- At rest nobody puts, and who takes or polls sleeps on the empty queue. -/
theorem rests (reachable : Transition.Reachable (program Thread Elem) s)
    (rest : AtRest code idle s) (t : Thread) :
    s.location t = .outside ∨ ∃ timed, s.location t = .waiting timed ∧
      s.standing t = .asleep () ∧ s.shared.queue = [] := by
  have : Nonempty (Choice Elem) := ⟨.status true⟩
  obtain ⟨_free, asleep⟩ := rest.asleep locking (exclusive reachable) (responsive reachable)
  have place (u : Thread) : s.location u = .outside ∨
      ∃ timed, s.location u = .waiting timed ∧ s.standing u = .asleep () := by
    by_cases idles : idle u (s.location u)
    · left
      cases place : s.location u <;> rw [place] at idles <;> cases idles
    · right
      obtain ⟨cond, sleeps⟩ := asleep u idles
      obtain ⟨next, waits⟩ := (exclusive reachable).sleeps u cond sleeps
      cases place : s.location u <;> rw [place] at waits <;> cases waits
      exact ⟨_, rfl, sleeps⟩
  rcases place t with outside | ⟨timed, waits, sleeps⟩
  · exact .inl outside
  · refine .inr ⟨timed, waits, sleeps, ?_⟩
    by_contra filled
    obtain ⟨u, debt⟩ := reachable_attended reachable t sleeps filled
    rcases place u with outside | ⟨other, waits, _⟩
    · rw [outside] at debt
      exact debt
    · rw [waits] at debt
      exact debt

end Reachable

/-- **Progress of the queue.** In a run of `calls` calls of put, take and poll with `wakes`
wake-ups that nobody notified, among them the timeouts of poll, the threads make boundedly
many steps.  If none can go on without a further call or wake-up, then every put has returned,
and takes and polls wait only if the queue is empty. -/
theorem put_take_poll_progress (Thread Elem : Type) [DecidableEq Thread] [Fintype Thread] :
    (∀ r : Tally Thread Unit (Shared Elem) (Local Elem), Tallies code idle (fun s => s = new) r →
        r.steps ≤ r.calls * (6 * Fintype.card Thread + 6) + r.wakes * 6) ∧
      ∀ s, Transition.Reachable (program Thread Elem) s → AtRest code idle s →
        ∀ t, s.location t = .outside ∨ ∃ timed, s.location t = .waiting timed ∧
          s.standing t = .asleep () ∧ s.shared.queue = [] := by
  constructor
  · intro r tallies
    have begins : ∀ s : State Thread Unit (Shared Elem) (Local Elem), s = new →
        Exclusive code inside s ∧
          (weights (Fintype.card Thread)).rank Finset.univ s ≤ 0 := by
      rintro s rfl
      refine ⟨.fresh ⟨rfl, fun _ => rfl⟩ fun _ => id, ?_⟩
      simp [Weights.rank, Weights.share, Weights.load, new, weights]
    have paid :=
      weights_fit.steps_le locking idle_outside (fun _ _ => Finset.mem_univ _) begins
        (fun _ _ _ _ => trivial) tallies
    simp only [weights, Nat.zero_add] at paid
    exact Nat.le_trans (Nat.le_add_right _ _) paid
  · intro s reachable rest t
    exact rests reachable rest t

/-- A take that waits on the empty queue. -/
theorem put_take_poll_progress_waiting :
    ∃ r, Tallies code idle (fun s => s = (new : State (Fin 1) Unit (Shared Nat) (Local Nat))) r ∧
      AtRest code idle r.state ∧ r.state.standing 0 = .asleep () ∧
      r.steps ≤ r.calls * (6 * Fintype.card (Fin 1) + 6) + r.wakes * 6 ∧
      (r.state.location 0 = .outside ∨ ∃ timed, r.state.location 0 = .waiting timed ∧
        r.state.standing 0 = .asleep () ∧ r.state.shared.queue = []) := by
  have found : ∃ s ∈ Transition.execute (step code) new
      (List.replicate 4 (.run (0 : Fin 1) (.call (.take : Call Nat)))),
      s.standing 0 = .asleep () := by
    decide
  obtain ⟨s, reachable, asleep⟩ := Transition.exists_reachable found
  obtain ⟨r, tallies, rfl⟩ := exists_tallies reachable
  have rest : AtRest code idle r.state := by
    intro t choice _busy
    rw [Subsingleton.elim t 0]
    simp [step, asleep]
  obtain ⟨bounded, stops⟩ := put_take_poll_progress (Fin 1) Nat
  exact ⟨r, tallies, rest, asleep, bounded r tallies, stops r.state reachable rest 0⟩

end BlockingQueue

end Uvcpp
