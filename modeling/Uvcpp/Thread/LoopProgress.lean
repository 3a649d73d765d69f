/-
A loop thread that is allowed to go on executes what was posted and comes to an end when
it is stopped, however much the other threads go on posting.
-/

import Mathlib.Data.Prod.Lex
import Uvcpp.Library.Liveness
import Uvcpp.Thread.LoopDelivery

namespace Uvcpp.LoopRun

open Transition

variable {mode : Mode} {target : Closure} {s : LoopRun}

/-! ### A closure that the loop comes to -/

/-- The loop thread cannot get past the closure `target` and stay in uv_run. -/
def Awaited (target : Closure) (s : LoopRun) : Prop :=
  match s.phase with
  | .exited => True
  | .preparing | .testing => s.run = false ∨ target ∈ s.posted
  | .polling | .handling => s.stopFlag = true ∨ target ∈ s.pending

/-- What is left of the iteration. -/
def work (s : LoopRun) : Nat :=
  2 * (s.batch.length + s.others) + s.inCallback.toNat

/-- The iteration ends behind the closure. -/
def soon (target : Closure) (s : LoopRun) : Bool :=
  s.stopFlag || target ∈ s.batch

/-- First the iteration that goes on without the closure, then the way to the next one,
then that iteration, last the way out. -/
def rank (target : Closure) (s : LoopRun) : Nat ×ₗ Nat :=
  match s.phase with
  | .exited => toLex (0, 0)
  | .testing => if s.run then toLex (2, 1) else toLex (0, 1)
  | .preparing => if s.run then toLex (2, 2) else toLex (0, 2)
  | .polling => if s.stopFlag then toLex (0, 2) else toLex (2, 0)
  | .handling => if s.soon target then toLex (1, s.work) else toLex (3, s.work)

theorem Sound.awaited (sound : Sound mode s) (sent : target ∈ s.sent) :
    target ∈ s.ran ∨ s.Awaited target := by
  obtain ⟨polled, split, same⟩ := sound.posts
  have known : target ∈ s.ran ∨ target ∈ s.pending := by
    rw [← split, List.mem_append, ← same.mem_iff, List.mem_append] at sent
    rw [pending, List.mem_append]
    exact or_assoc.mp sent
  refine known.imp_right fun waits => ?_
  unfold Awaited
  split
  case h_1 => trivial
  case h_4 | h_5 => exact .inr waits
  case h_2 | h_3 =>
    have empty : s.batch = [] := (sound.idle (by simp [*])).1
    rw [pending, empty] at waits
    exact .inr waits

/-- The loop thread is never stuck while something is awaited. -/
theorem Sound.enabled (sound : Sound mode s) (awaited : s.Awaited target)
    (inside : s.phase ≠ .exited) : (system mode).Enabled Proceeds s := by
  have moves (event : Event) {after : LoopRun} (own : Proceeds event)
      (taken : LoopRun.step s event = some after) :
      (system mode).Enabled Proceeds s :=
    ⟨event, after, own, taken⟩
  cases place : s.phase with
  | exited => exact absurd place inside
  | preparing => exact moves .enter trivial (if_pos place)
  | testing => exact moves .test trivial (if_pos place)
  | polling =>
      cases flag : s.stopFlag with
      | true => exact moves .leave trivial (if_pos ⟨place, flag⟩)
      | false =>
          have empty : s.batch = [] := (sound.idle (by simp [place])).1
          have waits : s.posted ≠ [] := by
            have member : target ∈ s.posted := by
              simpa [Awaited, place, flag, pending, empty] using awaited
            exact List.ne_nil_of_mem member
          exact moves (.poll 0) trivial (if_pos ⟨place, flag, .inl waits⟩)
  | handling =>
      cases callback : s.inCallback with
      | true => exact moves .returned trivial (if_pos callback)
      | false =>
          cases batch : s.batch with
          | cons closure rest =>
              have waits : closure ∈ s.batch := by simp [batch]
              exact moves (.asyncCallback closure) trivial (if_pos ⟨callback, waits⟩)
          | nil =>
              by_cases ready : 0 < s.others
              · exact moves .handle trivial (if_pos ⟨callback, ready⟩)
              · have none : s.others = 0 := Nat.eq_zero_of_not_pos ready
                exact moves .iterated trivial (if_pos ⟨place, callback, batch, none⟩)

/-! ### One step -/

/-- What a step owes to a closure that is awaited. -/
def Approaches (target : Closure) (s : LoopRun) (event : Event) (after : LoopRun) : Prop :=
  (target ≠ .stop ∧ target ∈ after.ran) ∨
    after.Awaited target ∧ after.rank target ≤ s.rank target ∧
      (Proceeds event → after.rank target < s.rank target)

/-- A move of the loop thread. -/
theorem Approaches.lower {event : Event} {after : LoopRun} (awaited : after.Awaited target)
    (lower : after.rank target < s.rank target) : Approaches target s event after :=
  .inr ⟨awaited, le_of_lt lower, fun _ => lower⟩

/-- A move of somebody else. -/
theorem Approaches.stay {event : Event} {after : LoopRun} (awaited : after.Awaited target)
    (bounded : after.rank target ≤ s.rank target) (other : ¬Proceeds event) :
    Approaches target s event after :=
  .inr ⟨awaited, bounded, fun own => absurd own other⟩

/-- Another thread posts. -/
theorem Awaited.posted (awaited : s.Awaited target) (made stopping stops : Nat)
    (closure : Closure) :
    ({ s with made := made, stopping := stopping, stops := stops }.runInLoopThread .other
      closure).Awaited target := by
  have more {earlier : List Closure} (member : target ∈ earlier) (later : List Closure) :
      target ∈ earlier ++ later :=
    List.mem_append_left later member
  unfold Awaited at awaited ⊢
  cases place : s.phase <;> simp only [runInLoopThread, place] at awaited ⊢
  case preparing | testing => exact awaited.imp_right (more · _)
  case polling | handling =>
    refine awaited.imp_right fun member => ?_
    rw [pending, ← List.append_assoc]
    exact more member _

/-- A closure of the batch is called. -/
theorem approaches_called (sound : Sound mode s) (awaited : s.Awaited target)
    {closure : Closure} (free : s.inCallback = false) (waits : closure ∈ s.batch) :
    Approaches target s (.asyncCallback closure) (s.asyncCallback closure) := by
  have place := sound.handling_of_batch waits
  have shorter : (s.asyncCallback closure).work < s.work := by
    have fewer := List.length_erase_of_mem waits
    have some := List.length_pos_of_mem waits
    simp only [work, asyncCallback, execute, free, Bool.toNat_true, Bool.toNat_false]
    omega
  have placed : (s.asyncCallback closure).phase = .handling := place
  by_cases reached : closure = target ∧ target ≠ .stop
  · left
    refine ⟨reached.2, ?_⟩
    simp [asyncCallback, ran, execute, reached.1]
  · -- The closure stays in the batch, or it is the one of stop and has set the flag.
    have kept : target ∈ s.batch →
        (s.asyncCallback closure).stopFlag = true ∨ target ∈ s.batch.erase closure := by
      intro member
      by_cases same : closure = target
      · subst same
        have stops : closure = .stop := by
          by_contra other
          exact reached ⟨rfl, other⟩
        left
        simp [asyncCallback, execute, stops]
      · exact .inr ((List.mem_erase_of_ne (Ne.symm same)).mpr member)
    have flagged : s.stopFlag = true → (s.asyncCallback closure).stopFlag = true := by
      intro flag
      simp [asyncCallback, execute, flag]
    apply Approaches.lower
    · unfold Awaited at awaited ⊢
      rw [place] at awaited
      rw [placed]
      rcases awaited with flag | member
      · exact .inl (flagged flag)
      · rcases List.mem_append.mp member with inside | later
        · exact (kept inside).imp_right (List.mem_append_left _)
        · exact .inr (List.mem_append_right _ later)
    · have close : s.soon target = true → (s.asyncCallback closure).soon target = true := by
        simp only [soon, Bool.or_eq_true, decide_eq_true_eq]
        rintro (flag | member)
        · exact .inl (flagged flag)
        · exact kept member
      unfold rank
      simp only [place, placed]
      cases before : s.soon target with
      | true => simp [close before, Prod.Lex.toLex_lt_toLex, shorter]
      | false =>
          split
          · simp [Prod.Lex.toLex_lt_toLex]
          · simp [Prod.Lex.toLex_lt_toLex, shorter]

theorem approaches_iterated (sound : Sound mode s) (awaited : s.Awaited target)
    (place : s.phase = .handling) (batch : s.batch = []) :
    Approaches target s .iterated s.iterated := by
  have waits : s.stopFlag = true ∨ target ∈ s.posted := by
    simpa [Awaited, place, pending, batch] using awaited
  have off : s.stopFlag = true → s.run = false := sound.off_of_flag
  have close : s.soon target = s.stopFlag := by simp [soon, batch]
  apply Approaches.lower
  · unfold iterated
    split
    · simpa [Awaited, pending, batch] using waits
    all_goals exact waits.imp_left off
  · unfold iterated
    split
    · cases flag : s.stopFlag <;> simp [rank, place, close, flag, Prod.Lex.toLex_lt_toLex]
    all_goals
      cases flag : s.stopFlag with
      | true => simp [rank, place, close, flag, off flag, Prod.Lex.toLex_lt_toLex]
      | false =>
          cases s.run <;> simp [rank, place, close, flag, Prod.Lex.toLex_lt_toLex]

/-- stop() clears run_, and on the loop thread sets the flag of uv_run as well. -/
theorem approaches_stopped (sound : Sound mode s) (awaited : s.Awaited target)
    {thread : EventLoop.Thread} (user : thread = .loop → s.userCode = true) :
    Approaches target s (.stop thread) (s.stop thread) := by
  cases thread with
  | other =>
      apply Approaches.stay
      · unfold Awaited at awaited ⊢
        cases place : s.phase <;> simp_all [stop, pending]
      · unfold rank
        cases place : s.phase <;> cases s.run <;>
          simp [stop, place, soon, work, Prod.Lex.toLex_le_toLex]
      · exact id
  | loop =>
      have ready := user rfl
      apply Approaches.stay
      · unfold Awaited at awaited ⊢
        cases place : s.phase <;> simp_all [stop, runInLoopThread, execute]
      · unfold rank
        cases place : s.phase with
        | exited => simp [stop, runInLoopThread, execute, place]
        | preparing | testing =>
            cases s.run <;>
              simp [stop, runInLoopThread, execute, place, Prod.Lex.toLex_le_toLex]
        | handling =>
            cases s.soon target <;>
              simp [stop, runInLoopThread, execute, place, soon, work, Prod.Lex.toLex_le_toLex]
        | polling =>
            -- No user code runs there.
            have free := (sound.idle (by simp [place])).2.2
            simp [userCode, place, free] at ready
      · exact id

/-- One step brings the loop thread closer to what is awaited. -/
theorem Sound.approaches (sound : Sound mode s) (awaited : s.Awaited target)
    {event : Event} {after : LoopRun} (taken : LoopRun.step s event = some after) :
    Approaches target s event after := by
  cases step_effect taken with
  | posts => exact .stay (awaited.posted (s.made + 1) s.stopping s.stops _) le_rfl id
  | finishes begun => exact .stay (awaited.posted s.made (s.stopping - 1) (s.stops + 1) _) le_rfl id
  | calls user =>
      have flag : (s.call .loop).stopFlag = s.stopFlag := by
        simp [call, runInLoopThread, execute]
      apply Approaches.stay
      · unfold Awaited at awaited ⊢
        rw [flag]
        exact awaited
      · unfold rank soon
        rw [flag]
        exact le_rfl
      · exact id
  | clears =>
      apply approaches_stopped sound awaited
      intro impossible
      cases impossible
  | stops user => exact approaches_stopped sound awaited fun _ => user
  | enters preparing =>
      apply Approaches.lower
      · simpa [Awaited, preparing] using awaited
      · cases run : s.run <;> simp [rank, preparing, run, Prod.Lex.toLex_lt_toLex]
  | goesOn testing run =>
      have flag := (sound.on run).1
      have empty := (sound.idle (by simp [testing])).1
      apply Approaches.lower
      · simpa [Awaited, testing, run, flag, pending, empty] using awaited
      · simp [rank, testing, run, flag, Prod.Lex.toLex_lt_toLex]
  | exits testing run =>
      apply Approaches.lower
      · trivial
      · simp [rank, testing, run, Prod.Lex.toLex_lt_toLex]
  | polls polling flag =>
      have empty := (sound.idle (by simp [polling])).1
      have waits : target ∈ s.posted := by
        simpa [Awaited, polling, flag, pending, empty] using awaited
      apply Approaches.lower
      · simp [Awaited, poll, pending, waits]
      · simp [rank, poll, polling, flag, soon, waits, Prod.Lex.toLex_lt_toLex]
  | calledBack free waits => exact approaches_called sound awaited free waits
  | handles free ready =>
      have place := sound.handling_of_others ready
      have fewer : 2 * (s.batch.length + (s.others - 1)) + 1 < 2 * (s.batch.length + s.others) := by
        omega
      apply Approaches.lower
      · simpa [Awaited, place, pending] using awaited
      · cases close : s.soon target <;>
          simp_all [rank, soon, work, Prod.Lex.toLex_lt_toLex]
  | returns callback =>
      have place := sound.handling_of_inCallback callback
      apply Approaches.lower
      · simpa [Awaited, place, pending] using awaited
      · cases close : s.soon target <;>
          simp_all [rank, soon, work, Prod.Lex.toLex_lt_toLex]
  | iterates handling free batch others => exact approaches_iterated sound awaited handling batch
  | leaves polling flag =>
      have off := sound.off_of_flag flag
      apply Approaches.lower
      · exact .inl off
      · simp [rank, leave, polling, flag, off, Prod.Lex.toLex_lt_toLex]

/-! ### Runs -/

/-- A call of stop that is back is awaited from then on. -/
theorem awaited_of_stops (reachable : Reachable (system mode) s) (stopped : 0 < s.stops) :
    s.Awaited .stop := by
  induction reachable with
  | start begins =>
      cases begins
      exact absurd stopped (Nat.lt_irrefl 0)
  | @next s after event before taken ih =>
      have sound := reachable_sound before
      by_cases earlier : 0 < s.stops
      · rcases sound.approaches (ih earlier) taken with ⟨impossible, _⟩ | ⟨awaited, _⟩
        · exact absurd rfl impossible
        · exact awaited
      · -- It is this step that completes the call.
        cases step_effect taken with
        | stops user =>
            unfold Awaited
            cases place : s.phase <;> simp [stop, runInLoopThread, execute, place]
        | finishes begun =>
            have off := sound.off_of_stopping begun
            unfold Awaited
            cases place : s.phase <;> simp [post, runInLoopThread, place, off, pending]
        | iterates handling free batch others =>
            unfold iterated at stopped
            split at stopped <;> exact absurd stopped earlier
        | _ => exact absurd stopped earlier

/-- The loop thread is on its way to the closure until it has run it or is out of run. -/
theorem ranked (mode : Mode) (target : Closure) :
    Ranked (system mode) Proceeds (fun s => Sound mode s ∧ s.Awaited target)
      (fun s => s.phase = .exited ∨ target ≠ .stop ∧ target ∈ s.ran) (rank target) := by
  constructor
  · rintro s ⟨sound, awaited⟩ away
    exact sound.enabled awaited fun exited => away (.inl exited)
  · rintro s event after ⟨sound, awaited⟩ _away taken
    rcases sound.approaches awaited taken with ran | ⟨still, bounded, falls⟩
    · exact .inl (.inr ran)
    · exact .inr ⟨⟨sound.step taken, still⟩, bounded, falls⟩

/-- **Progress.** In a run that lets the loop thread go on, every posted closure is executed
unless run returns before that, and run returns once a call of stop is back. -/
theorem loop_thread_progresses {mode : Mode} (run : Run (system mode))
    (begins : Reachable (system mode) (run.state 0)) (fair : run.Fair Proceeds) (n : Nat) :
    (∀ closure ∈ (run.state n).sent, ∃ m, n ≤ m ∧
        (closure ∈ (run.state m).ran ∨ (run.state m).phase = .exited)) ∧
      (0 < (run.state n).stops → ∃ m, n ≤ m ∧ (run.state m).phase = .exited) := by
  have reachable := run.reachable begins n
  have sound := reachable_sound reachable
  constructor
  · intro closure sent
    rcases sound.awaited sent with ran | awaited
    · exact ⟨n, Nat.le_refl n, .inl ran⟩
    · obtain ⟨m, later, exited | ⟨_, ran⟩⟩ :=
        (ranked mode closure).reaches run fair ⟨sound, awaited⟩
      · exact ⟨m, later, .inr exited⟩
      · exact ⟨m, later, .inl ran⟩
  · intro stopped
    obtain ⟨m, later, exited | ⟨impossible, _⟩⟩ :=
      (ranked mode .stop).reaches run fair ⟨sound, awaited_of_stops reachable stopped⟩
    · exact ⟨m, later, exited⟩
    · exact absurd rfl impossible

/-- A callback is posted and called, then another thread stops the loop. -/
def served : List Event :=
  [.enter, .test, .call .other, .poll 0, .asyncCallback (.call 0), .returned, .iterated,
    .stop .other, .post, .poll 0, .asyncCallback .stop, .returned, .iterated, .leave, .test]

theorem loop_thread_progresses_served :
    ∃ run : Run (system .default), run.Fair Proceeds ∧ run.state 0 = start .default ∧
      (run.state 9).sent = [.call 0, .stop] ∧
      (∃ m, 9 ≤ m ∧ ((.call 0) ∈ (run.state m).ran ∨ (run.state m).phase = .exited)) ∧
      ∃ m, 9 ≤ m ∧ (run.state m).phase = .exited := by
  have ends : ∃ last ∈ Transition.execute step (start .default) served,
      last.phase = .exited ∧ last.inCallback = false ∧ last.batch = [] ∧ last.others = 0 := by
    decide
  obtain ⟨last, executed, exited, free, batch, others⟩ := ends
  have stuck : ¬(system .default).Enabled Proceeds last := by
    rintro ⟨event, after, own, taken⟩
    cases step_effect taken <;> simp_all [Proceeds]
  have found : ∃ run : Run (system .default), run.Fair Proceeds ∧
      ∀ n, Transition.execute step (start .default) (served.take n) = some (run.state n) :=
    exists_fair_run executed stuck
  obtain ⟨run, fair, states⟩ := found
  have first : run.state 0 = start .default := (Option.some.inj (states 0)).symm
  have ninth : (Transition.execute step (start .default) (served.take 9)).map
      (fun s => (s.sent, s.stops)) = some ([.call 0, .stop], 1) := by
    decide
  rw [states 9] at ninth
  obtain ⟨sent, stops⟩ := Prod.mk.inj (Option.some.inj ninth)
  have progress := loop_thread_progresses run (.start first) fair 9
  refine ⟨run, fair, first, sent, ?_, ?_⟩
  · exact progress.1 (.call 0) (sent ▸ List.mem_cons_self)
  · exact progress.2 (by omega)

end Uvcpp.LoopRun
