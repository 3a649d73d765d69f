/-
What becomes of the closures posted to a loop, and of the loop when it is stopped.

Every closure runs once or is still waiting, in whatever order an iteration calls them.  run
returns after a call of stop and for no other reason; in the default mode what was posted in
front of the stop has run by then, and what is still posted is never run.
-/

import Mathlib.Data.List.Perm.Basic
import Mathlib.Data.List.Perm.Subperm
import Uvcpp.Thread.LoopRun

namespace Uvcpp.LoopRun

open Transition

/-! ### Steps -/

/-- Everything a step can do. -/
inductive Effect (s : LoopRun) : Event → LoopRun → Prop where
  | posts : Effect s (.call .other) (s.call .other)
  | calls (user : s.userCode = true) : Effect s (.call .loop) (s.call .loop)
  | clears : Effect s (.stop .other) (s.stop .other)
  | stops (user : s.userCode = true) : Effect s (.stop .loop) (s.stop .loop)
  | finishes (begun : 0 < s.stopping) : Effect s .post s.post
  | enters (preparing : s.phase = .preparing) : Effect s .enter { s with phase := .testing }
  | goesOn (testing : s.phase = .testing) (run : s.run = true) :
      Effect s .test { s with phase := .polling, entered := true }
  | exits (testing : s.phase = .testing) (run : s.run = false) :
      Effect s .test { s with phase := .exited }
  | polls {others : Nat} (polling : s.phase = .polling) (flag : s.stopFlag = false) :
      Effect s (.poll others) (s.poll others)
  | calledBack {closure : Closure} (free : s.inCallback = false)
      (waits : closure ∈ s.batch) :
      Effect s (.asyncCallback closure) (s.asyncCallback closure)
  | handles (free : s.inCallback = false) (ready : 0 < s.others) :
      Effect s .handle { s with others := s.others - 1, inCallback := true }
  | returns (inside : s.inCallback = true) : Effect s .returned { s with inCallback := false }
  | iterates (handling : s.phase = .handling) (free : s.inCallback = false)
      (batch : s.batch = []) (others : s.others = 0) : Effect s .iterated s.iterated
  | leaves (polling : s.phase = .polling) (flag : s.stopFlag = true) : Effect s .leave s.leave

theorem step_effect {s after : LoopRun} {event : Event} (taken : step s event = some after) :
    Effect s event after := by
  cases event with
  | call thread =>
      cases thread with
      | other =>
          cases taken
          exact .posts
      | loop =>
          obtain ⟨user, result⟩ := Option.ite_none_right_eq_some.mp taken
          cases result
          exact .calls user
  | stop thread =>
      cases thread with
      | other =>
          cases taken
          exact .clears
      | loop =>
          obtain ⟨user, result⟩ := Option.ite_none_right_eq_some.mp taken
          cases result
          exact .stops user
  | post =>
      obtain ⟨begun, result⟩ := Option.ite_none_right_eq_some.mp taken
      cases result
      exact .finishes begun
  | enter =>
      obtain ⟨preparing, result⟩ := Option.ite_none_right_eq_some.mp taken
      cases result
      exact .enters preparing
  | test =>
      obtain ⟨testing, result⟩ := Option.ite_none_right_eq_some.mp taken
      cases result
      unfold test
      split
      · exact .goesOn testing ‹_›
      · exact .exits testing (Bool.eq_false_iff.mpr ‹_›)
  | poll others =>
      obtain ⟨⟨polling, flag, _ready⟩, result⟩ := Option.ite_none_right_eq_some.mp taken
      cases result
      exact .polls polling flag
  | asyncCallback closure =>
      obtain ⟨⟨free, waits⟩, result⟩ := Option.ite_none_right_eq_some.mp taken
      cases result
      exact .calledBack free waits
  | handle =>
      obtain ⟨⟨free, ready⟩, result⟩ := Option.ite_none_right_eq_some.mp taken
      cases result
      exact .handles free ready
  | returned =>
      obtain ⟨inside, result⟩ := Option.ite_none_right_eq_some.mp taken
      cases result
      exact .returns inside
  | iterated =>
      obtain ⟨⟨handling, free, batch, others⟩, result⟩ := Option.ite_none_right_eq_some.mp taken
      cases result
      exact .iterates handling free batch others
  | leave =>
      obtain ⟨⟨polling, flag⟩, result⟩ := Option.ite_none_right_eq_some.mp taken
      cases result
      exact .leaves polling flag

/-! ### Parts of a state -/

/-- Taken over or still waiting. -/
def pending (s : LoopRun) : List Closure :=
  s.batch ++ s.posted

@[simp] theorem ran_execute_loop (s : LoopRun) (closure : Closure) :
    (s.execute .loop closure).ran = s.ran := by
  simp [ran, execute]

@[simp] theorem ran_execute_other (s : LoopRun) (closure : Closure) :
    (s.execute .other closure).ran = s.ran ++ [closure] := by
  simp [ran, execute]

/-- A closure of stop was executed, as a posted one or at once. -/
def StopExecuted (s : LoopRun) : Prop :=
  ∃ thread, (thread, .stop) ∈ s.executed

theorem StopExecuted.execute {s : LoopRun} (executed : s.StopExecuted) (thread : EventLoop.Thread)
    (closure : Closure) : (s.execute thread closure).StopExecuted := by
  obtain ⟨earlier, member⟩ := executed
  exact ⟨earlier, List.mem_append_left _ member⟩

theorem stopExecuted_of_flag {s : LoopRun} {thread : EventLoop.Thread} {closure : Closure}
    (before : s.stopFlag = true → s.StopExecuted)
    (flag : (s.execute thread closure).stopFlag = true) :
    (s.execute thread closure).StopExecuted := by
  rcases Bool.or_eq_true_iff.mp flag with earlier | now
  · exact (before earlier).execute thread closure
  · have same : closure = .stop := of_decide_eq_true now
    subst same
    exact ⟨thread, List.mem_append_right _ (List.mem_singleton_self _)⟩

/-! ### The invariant -/

/-- What holds between the closures, the flags and the place of the loop thread. -/
structure Sound (mode : Mode) (s : LoopRun) : Prop where
  mode : s.mode = mode
  posts : ∃ polled, polled ++ s.posted = s.sent ∧ (s.ran ++ s.batch).Perm polled
  on : s.run = true → s.stopFlag = false ∧ s.stopping = 0 ∧ s.stops = 0
  halting : .stop ∈ s.sent → s.run = false
  off : s.run = false → 0 < s.stopping + s.stops
  gone : s.phase = .exited → s.run = false
  idle : s.phase ≠ .handling → s.batch = [] ∧ s.others = 0 ∧ s.inCallback = false
  fresh : s.entered = false → s.ran = [] ∧ s.phase ≠ .polling ∧ s.phase ≠ .handling
  flagged : s.stopFlag = true → s.StopExecuted
  prepared : s.phase = .preparing → s.entered = false
  left : s.mode = .default → s.entered = true → s.phase = .testing ∨ s.phase = .exited →
    s.StopExecuted

section Sound

variable {mode : Mode} {s : LoopRun}

theorem start_sound (mode : Mode) : Sound mode (start mode) := by
  constructor
  case left => exact fun _ impossible => Bool.noConfusion impossible
  all_goals simp [start, ran]

theorem Sound.handling_of_batch (sound : Sound mode s) {closure : Closure}
    (waits : closure ∈ s.batch) : s.phase = .handling := by
  by_contra outside
  rw [(sound.idle outside).1] at waits
  cases waits

theorem Sound.handling_of_others (sound : Sound mode s) (ready : 0 < s.others) :
    s.phase = .handling := by
  by_contra outside
  rw [(sound.idle outside).2.1] at ready
  exact Nat.lt_irrefl 0 ready

theorem Sound.handling_of_inCallback (sound : Sound mode s) (callback : s.inCallback = true) :
    s.phase = .handling := by
  by_contra outside
  rw [(sound.idle outside).2.2] at callback
  cases callback

theorem Sound.off_of_stopping (sound : Sound mode s) (begun : 0 < s.stopping) :
    s.run = false := by
  by_contra run
  rw [(sound.on (Bool.of_not_eq_false run)).2.1] at begun
  exact Nat.lt_irrefl 0 begun

theorem Sound.off_of_flag (sound : Sound mode s) (flag : s.stopFlag = true) :
    s.run = false := by
  by_contra run
  rw [(sound.on (Bool.of_not_eq_false run)).1] at flag
  cases flag

/-- While run_ is set no closure of stop is executed. -/
theorem Sound.on_execute (sound : Sound mode s) (thread : EventLoop.Thread) {closure : Closure}
    (off : closure = .stop → s.run = false) (run : s.run = true) :
    (s.execute thread closure).stopFlag = false ∧ s.stopping = 0 ∧ s.stops = 0 := by
  obtain ⟨flag, stopping, stops⟩ := sound.on run
  have other : closure ≠ .stop := by
    intro same
    exact Bool.noConfusion ((off same).symm.trans run)
  refine ⟨?_, stopping, stops⟩
  simp [execute, flag, other]

/-- Another thread posts a closure. -/
theorem Sound.posted (sound : Sound mode s) {closure : Closure}
    (off : closure = .stop → s.run = false) :
    Sound mode (s.runInLoopThread .other closure) := by
  constructor
  case halting =>
    intro member
    rcases List.mem_append.mp member with earlier | now
    · exact sound.halting earlier
    · exact off (List.mem_singleton.mp now).symm
  case posts =>
    obtain ⟨polled, sent, same⟩ := sound.posts
    refine ⟨polled, ?_, same⟩
    change polled ++ (s.posted ++ [closure]) = s.sent ++ [closure]
    rw [← sent, List.append_assoc]
  case mode => exact sound.mode
  case on => exact sound.on
  case off => exact sound.off
  case gone => exact sound.gone
  case idle => exact sound.idle
  case fresh => exact sound.fresh
  case flagged => exact sound.flagged
  case prepared => exact sound.prepared
  case left => exact sound.left

/-- User code on the loop thread runs a closure at once. -/
theorem Sound.inline (sound : Sound mode s) {closure : Closure}
    (off : closure = .stop → s.run = false) :
    Sound mode (s.runInLoopThread .loop closure) := by
  constructor
  case posts =>
    change ∃ polled, polled ++ s.posted = s.sent ∧
      ((s.execute .loop closure).ran ++ s.batch).Perm polled
    rw [ran_execute_loop]
    exact sound.posts
  case mode => exact sound.mode
  case on => exact sound.on_execute .loop off
  case halting => exact sound.halting
  case off => exact sound.off
  case gone => exact sound.gone
  case idle => exact sound.idle
  case fresh =>
    change s.entered = false → (s.execute .loop closure).ran = [] ∧ _
    rw [ran_execute_loop]
    exact sound.fresh
  case flagged => exact stopExecuted_of_flag sound.flagged
  case prepared => exact sound.prepared
  case left =>
    intro default entered outside
    exact (sound.left default entered outside).execute .loop closure

/-- stop() has cleared run_. -/
theorem Sound.cleared (sound : Sound mode s) (stopping stops : Nat)
    (some : 0 < stopping + stops) :
    Sound mode { s with run := false, stopping := stopping, stops := stops } := by
  constructor
  case mode => exact sound.mode
  case posts => exact sound.posts
  case on => exact fun impossible => Bool.noConfusion impossible
  case halting => exact fun _ => rfl
  case off => exact fun _ => some
  case gone => exact fun _ => rfl
  case idle => exact sound.idle
  case fresh => exact sound.fresh
  case flagged => exact sound.flagged
  case prepared => exact sound.prepared
  case left => exact sound.left

theorem Sound.sent_of_batch (sound : Sound mode s) {closure : Closure}
    (waits : closure ∈ s.batch) : closure ∈ s.sent := by
  obtain ⟨polled, sent, same⟩ := sound.posts
  rw [← sent]
  exact List.mem_append_left _ (same.subset (List.mem_append_right _ waits))

/-- The loop calls a closure of its batch. -/
theorem Sound.asyncCallback (sound : Sound mode s) {closure : Closure}
    (waits : closure ∈ s.batch) : Sound mode (s.asyncCallback closure) := by
  have off : closure = .stop → s.run = false := by
    rintro rfl
    exact sound.halting (sound.sent_of_batch waits)
  have handling := sound.handling_of_batch waits
  constructor
  case mode => exact sound.mode
  case posts =>
    obtain ⟨polled, sent, same⟩ := sound.posts
    refine ⟨polled, sent, .trans ?_ same⟩
    change (({ s with batch := s.batch.erase closure, inCallback := true }.execute .other
      closure).ran ++ s.batch.erase closure).Perm _
    rw [ran_execute_other, List.append_assoc]
    exact (List.perm_cons_erase waits).symm.append_left _
  case on => exact sound.on_execute .other off
  case halting => exact sound.halting
  case off => exact sound.off
  case gone => exact sound.gone
  case idle => exact fun outside => absurd handling outside
  case fresh =>
    intro fresh
    exact absurd handling (sound.fresh fresh).2.2
  case flagged => exact stopExecuted_of_flag sound.flagged
  case prepared => exact sound.prepared
  case left =>
    intro default entered outside
    exact (sound.left default entered outside).execute .other closure

theorem Sound.renumbered (sound : Sound mode s) (made : Nat) :
    Sound mode { s with made := made } :=
  { sound with }

/-- The loop thread goes on in its callback or comes back from it. -/
theorem Sound.handling (sound : Sound mode s) (handling : s.phase = .handling) (others : Nat)
    (inCallback : Bool) : Sound mode { s with others := others, inCallback := inCallback } :=
  { sound with idle := fun outside => absurd handling outside }

theorem Sound.polls (sound : Sound mode s) (polling : s.phase = .polling) (others : Nat) :
    Sound mode (s.poll others) := by
  obtain ⟨batch, _others, _free⟩ := sound.idle (by simp [polling])
  have entered : s.entered = true := by
    by_contra fresh
    exact (sound.fresh (Bool.eq_false_iff.mpr fresh)).2.1 polling
  refine { sound with
    posts := ?_, gone := ?_, idle := ?_, fresh := ?_, prepared := ?_, left := ?_ }
  · obtain ⟨polled, sent, same⟩ := sound.posts
    rw [batch, List.append_nil] at same
    refine ⟨polled ++ s.posted, ?_, same.append_right s.posted⟩
    change polled ++ s.posted ++ [] = s.sent
    rw [List.append_nil, sent]
  · exact fun impossible => by cases impossible
  · exact fun outside => absurd rfl outside
  · exact fun fresh => absurd fresh (by simp [poll, entered])
  · exact fun impossible => by cases impossible
  · rintro _default _entered (impossible | impossible) <;> cases impossible

/-- uv_run goes on or returns; it has nothing left to handle. -/
theorem Sound.iterated (sound : Sound mode s) (handling : s.phase = .handling)
    (free : s.inCallback = false) (batch : s.batch = []) (others : s.others = 0) :
    Sound mode s.iterated := by
  have entered : s.entered = true := by
    by_contra fresh
    exact (sound.fresh (Bool.eq_false_iff.mpr fresh)).2.2 handling
  have notFresh : s.entered ≠ false := by simp [entered]
  have again : Sound mode { s with phase := .polling } := by
    refine { sound with gone := ?_, idle := ?_, fresh := ?_, prepared := ?_, left := ?_ }
    · exact fun impossible => by cases impossible
    · exact fun _ => ⟨batch, others, free⟩
    · exact fun fresh => absurd fresh notFresh
    · exact fun impossible => by cases impossible
    · rintro _default _entered (impossible | impossible) <;> cases impossible
  have back (kind : s.mode ≠ .default) :
      Sound mode { s with phase := .testing, stopFlag := false } := by
    refine { sound with on := ?_, gone := ?_, idle := ?_, fresh := ?_, flagged := ?_,
                        prepared := ?_, left := ?_ }
    · exact fun run => ⟨rfl, (sound.on run).2⟩
    · exact fun impossible => by cases impossible
    · exact fun _ => ⟨batch, others, free⟩
    · exact fun fresh => absurd fresh notFresh
    · exact fun impossible => Bool.noConfusion impossible
    · exact fun impossible => by cases impossible
    · exact fun default => absurd default kind
  unfold LoopRun.iterated
  split
  · exact again
  · exact back (by simp [*])
  · exact back (by simp [*])

theorem Sound.leaves (sound : Sound mode s) (polling : s.phase = .polling)
    (flag : s.stopFlag = true) : Sound mode s.leave := by
  have idle := sound.idle (by simp [polling])
  have executed := sound.flagged flag
  refine { sound with on := ?_, gone := ?_, idle := ?_, fresh := ?_, flagged := ?_,
                      prepared := ?_, left := ?_ }
  · exact fun run => ⟨rfl, (sound.on run).2⟩
  · exact fun impossible => by cases impossible
  · exact fun _ => idle
  · exact fun fresh => absurd polling (sound.fresh fresh).2.1
  · exact fun impossible => Bool.noConfusion impossible
  · exact fun impossible => by cases impossible
  · exact fun _default _entered _outside => executed

/-- The condition of run is evaluated. -/
theorem Sound.tested (sound : Sound mode s) (testing : s.phase = .testing) :
    Sound mode s.test := by
  have idle := sound.idle (by simp [testing])
  unfold test
  split
  · refine { sound with gone := ?_, idle := ?_, fresh := ?_, prepared := ?_, left := ?_ }
    · exact fun impossible => by cases impossible
    · exact fun _ => idle
    · exact fun impossible => Bool.noConfusion impossible
    · exact fun impossible => by cases impossible
    · rintro _default _entered (impossible | impossible) <;> cases impossible
  · rename_i run
    have off : s.run = false := Bool.eq_false_iff.mpr run
    refine { sound with gone := ?_, idle := ?_, fresh := ?_, prepared := ?_, left := ?_ }
    · exact fun _ => off
    · exact fun _ => idle
    · intro fresh
      exact ⟨(sound.fresh fresh).1, by simp, by simp⟩
    · exact fun impossible => by cases impossible
    · exact fun default entered _outside => sound.left default entered (.inl testing)

theorem Sound.step {after : LoopRun} {event : Event} (sound : Sound mode s)
    (taken : step s event = some after) : Sound mode after := by
  cases step_effect taken with
  | posts => exact (sound.renumbered _).posted (by simp)
  | calls user => exact (sound.renumbered _).inline (by simp)
  | clears => exact sound.cleared (s.stopping + 1) s.stops (by omega)
  | stops user => exact (sound.cleared s.stopping (s.stops + 1) (by omega)).inline fun _ => rfl
  | finishes begun =>
      have off := sound.off_of_stopping begun
      have cleared := sound.cleared (s.stopping - 1) (s.stops + 1) (by omega)
      rw [← off] at cleared
      exact cleared.posted fun _ => off
  | enters preparing =>
      have idle := sound.idle (by simp [preparing])
      refine { sound with gone := ?_, idle := ?_, fresh := ?_, prepared := ?_, left := ?_ }
      · exact fun impossible => by cases impossible
      · exact fun _ => idle
      · intro fresh
        exact ⟨(sound.fresh fresh).1, by simp, by simp⟩
      · exact fun impossible => by cases impossible
      · intro _default entered
        rw [sound.prepared preparing] at entered
        cases entered
  | goesOn testing run =>
      have tested := sound.tested testing
      rwa [test, if_pos run] at tested
  | exits testing run =>
      have tested := sound.tested testing
      rwa [test, if_neg (by simp [run])] at tested
  | polls polling flag => exact sound.polls polling _
  | calledBack free waits => exact sound.asyncCallback waits
  | handles free ready => exact sound.handling (sound.handling_of_others ready) _ _
  | returns inside => exact sound.handling (sound.handling_of_inCallback inside) _ _
  | iterates handling free batch others => exact sound.iterated handling free batch others
  | leaves polling flag => exact sound.leaves polling flag

theorem reachable_sound (reachable : Reachable (system mode) s) : Sound mode s := by
  induction reachable with
  | start begins =>
      cases begins
      exact start_sound mode
  | next _before taken ih => exact ih.step taken

end Sound

/-! ### Conservation -/

/-- The closures of the calls of runInLoopThread and of those of stop that are back. -/
def calls (s : LoopRun) : List Closure :=
  (List.range s.made).map .call ++ List.replicate s.stops .stop

/-- Executed, taken over or posted. -/
def known (s : LoopRun) : List Closure :=
  s.executed.map Prod.snd ++ s.batch ++ s.posted

theorem calls_made {s : LoopRun} :
    ({ s with made := s.made + 1 } : LoopRun).calls.Perm (.call s.made :: s.calls) := by
  simp only [calls, List.range_succ, List.map_append, List.map_cons, List.map_nil,
    List.append_assoc, List.singleton_append]
  exact List.perm_middle

theorem calls_stops {s : LoopRun} :
    ({ s with stops := s.stops + 1 } : LoopRun).calls.Perm (.stop :: s.calls) := by
  simp only [calls, List.replicate_succ]
  exact List.perm_middle

@[simp] theorem calls_runInLoopThread (s : LoopRun) (thread : EventLoop.Thread)
    (closure : Closure) : (s.runInLoopThread thread closure).calls = s.calls := by
  cases thread <;> rfl

theorem known_runInLoopThread (s : LoopRun) (thread : EventLoop.Thread) (closure : Closure) :
    (s.runInLoopThread thread closure).known.Perm (closure :: s.known) := by
  cases thread with
  | loop =>
      simp only [runInLoopThread, execute, known, List.map_append, List.map_cons, List.map_nil,
        List.append_assoc, List.singleton_append]
      exact List.perm_middle
  | other =>
      simp only [runInLoopThread, known, ← List.append_assoc]
      exact List.perm_append_singleton _ _

theorem known_asyncCallback {s : LoopRun} {closure : Closure} (waits : closure ∈ s.batch) :
    (s.asyncCallback closure).known.Perm s.known := by
  simp only [asyncCallback, execute, known, List.map_append, List.map_cons, List.map_nil]
  apply List.Perm.append_right
  rw [List.append_assoc]
  exact (List.perm_cons_erase waits).symm.append_left _

/-- A closure that is posted or run at once is that of a new call. -/
theorem known_called {s called : LoopRun} {thread : EventLoop.Thread} {closure : Closure}
    (conserved : s.known.Perm s.calls) (same : called.known = s.known)
    (new : called.calls.Perm (closure :: s.calls)) :
    (called.runInLoopThread thread closure).known.Perm
      (called.runInLoopThread thread closure).calls := by
  rw [calls_runInLoopThread]
  have added := known_runInLoopThread called thread closure
  rw [same] at added
  exact added.trans ((conserved.cons closure).trans new.symm)

theorem conserved_step {mode : Mode} {s after : LoopRun} {event : Event} (sound : Sound mode s)
    (conserved : s.known.Perm s.calls) (taken : step s event = some after) :
    after.known.Perm after.calls := by
  cases step_effect taken with
  | posts => exact known_called conserved rfl calls_made
  | calls user => exact known_called conserved rfl calls_made
  | stops user => exact known_called conserved rfl calls_stops
  | finishes begun => exact known_called conserved rfl calls_stops
  | calledBack free waits => exact (known_asyncCallback waits).trans conserved
  | @polls others polling flag =>
      have empty : s.batch = [] := (sound.idle (by simp [polling])).1
      have same : (s.poll others).known = s.known := by simp [known, poll, empty]
      rw [same]
      exact conserved
  | iterates handling free batch others =>
      unfold iterated
      split <;> exact conserved
  | _ => exact conserved

theorem reachable_conserved {mode : Mode} {s : LoopRun}
    (reachable : Reachable (system mode) s) : s.known.Perm s.calls := by
  induction reachable with
  | start begins =>
      cases begins
      exact .refl []
  | next before taken ih => exact conserved_step (reachable_sound before) ih taken

/-! ### The end of run -/

/-- The closures posted in front of the first one of stop. -/
def beforeStop (s : LoopRun) : List Closure :=
  s.sent.takeWhile (· ≠ .stop)

/-- When a stop closure was taken over, so was everything in front of the first one. -/
theorem beforeStop_prefix {s : LoopRun} {polled : List Closure} (sent : polled ++ s.posted = s.sent)
    (stopped : .stop ∈ polled) : s.beforeStop <+: polled := by
  obtain ⟨before, after, split, first⟩ := List.eq_append_cons_of_mem stopped
  have calls : ∀ closure ∈ before, decide (closure ≠ .stop) = true := by
    intro closure member
    exact decide_eq_true fun same => first (same ▸ member)
  have inside : s.beforeStop = before := by
    rw [beforeStop, ← sent, split, List.append_assoc, List.takeWhile_append_of_pos calls]
    simp
  rw [inside, split]
  exact List.prefix_append _ _

theorem ran_of_executed {s : LoopRun} {closure : Closure}
    (executed : (.other, closure) ∈ s.executed) : closure ∈ s.ran := by
  simpa [ran] using executed

/-- **The end of run.** Every call has its closure executed once or still waiting.  run returns
only when stop was called, and not inside an iteration: before uv_run if that was early enough,
and then nothing posted was executed; in the default mode else not before a stop closure was
executed and, unless the loop thread has called stop itself, all that was posted in front of the
first one. -/
theorem run_ends_by_stop {mode : Mode} {s : LoopRun} (reachable : Reachable (system mode) s) :
    (s.executed.map Prod.snd ++ s.batch ++ s.posted).Perm
        ((List.range s.made).map .call ++ List.replicate s.stops .stop) ∧
      (s.phase = .exited →
        0 < s.stopping + s.stops ∧ s.batch = [] ∧
        (s.entered = false → s.ran = []) ∧
        (mode = .default → s.entered = true →
          (∃ thread, (thread, .stop) ∈ s.executed) ∧
          ((.loop, .stop) ∉ s.executed → s.beforeStop.Subperm s.ran))) := by
  have sound := reachable_sound reachable
  refine ⟨reachable_conserved reachable, fun exited => ?_⟩
  have empty : s.batch = [] := (sound.idle (by simp [exited])).1
  refine ⟨sound.off (sound.gone exited), empty, ?_, fun default entered => ?_⟩
  · exact fun fresh => (sound.fresh fresh).1
  · have executed := sound.left (sound.mode.trans default) entered (.inr exited)
    refine ⟨executed, fun others => ?_⟩
    obtain ⟨thread, stopped⟩ := executed
    cases thread with
    | loop => exact absurd stopped others
    | other =>
        obtain ⟨polled, sent, same⟩ := sound.posts
        rw [empty, List.append_nil] at same
        have early := beforeStop_prefix sent (same.subset (ran_of_executed stopped))
        exact early.sublist.subperm.trans same.symm.subperm

/-- Two callbacks are posted, another thread stops the loop, and the iteration calls all three
back in the opposite order. -/
def reversed : List Event :=
  [.enter, .test, .call .other, .call .other, .stop .other, .post, .poll 0,
    .asyncCallback .stop, .returned, .asyncCallback (.call 1), .returned,
    .asyncCallback (.call 0), .returned, .iterated, .leave, .test]

theorem run_ends_by_stop_reversed :
    ∃ s, Reachable (system .default) s ∧ s.phase = .exited ∧
      s.ran = [.stop, .call 1, .call 0] ∧ s.beforeStop = [.call 0, .call 1] ∧
      (s.executed.map Prod.snd ++ s.batch ++ s.posted).Perm [.call 0, .call 1, .stop] ∧
      s.beforeStop.Subperm s.ran := by
  have found : ∃ s ∈ Transition.execute step (start .default) reversed,
      s.phase = .exited ∧ s.ran = [.stop, .call 1, .call 0] ∧
        s.beforeStop = [.call 0, .call 1] ∧ s.entered = true ∧
          (.loop, .stop) ∉ s.executed ∧ s.made = 2 ∧ s.stops = 1 := by
    decide
  obtain ⟨s, reachable, exited, ran, early, entered, others, made, stops⟩ :=
    exists_reachable found
  obtain ⟨conserved, ends⟩ := run_ends_by_stop reachable
  rw [made, stops] at conserved
  exact ⟨s, reachable, exited, ran, early, conserved, ((ends exited).2.2.2 rfl entered).2 others⟩

end Uvcpp.LoopRun
