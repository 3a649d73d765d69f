/-
The life of a timer.

timerCallback and cancel both release a timer, and neither records it.  As long as every
cancel finds a timer that is initialized, not released and not in its own callback, each
is released once and left alone from then on; any other cancel goes wrong, at once or when
the loop comes back to the timer.
-/

import Uvcpp.Thread.EventLoop

namespace Uvcpp.EventLoop

open Transition

/-! ### Histories -/

/-- Released at most once, not touched afterwards, and not called after a cancel. -/
structure Sound (log : List Action) : Prop where
  data : log.count .deleteData ≤ 1
  handle : log.count .freeTimer ≤ 1
  last : log.Pairwise fun earlier _ => earlier ≠ .freeTimer
  silent : log.Pairwise fun earlier later => earlier = .cancel → later ≠ .call

/-- Neither released nor cancelled. -/
structure Fresh (log : List Action) : Prop where
  data : .deleteData ∉ log
  handle : .freeTimer ∉ log
  cancel : .cancel ∉ log

theorem Fresh.append {log more : List Action} (fresh : Fresh log) (fresh' : Fresh more) :
    Fresh (log ++ more) := by
  constructor
  · simp [fresh.data, fresh'.data]
  · simp [fresh.handle, fresh'.handle]
  · simp [fresh.cancel, fresh'.cancel]

/-- What is sound after a fresh history. -/
theorem Fresh.sound_append {log more : List Action} (fresh : Fresh log) (sound : Sound more) :
    Sound (log ++ more) := by
  constructor
  · rw [List.count_append, List.count_eq_zero.mpr fresh.data, Nat.zero_add]
    exact sound.data
  · rw [List.count_append, List.count_eq_zero.mpr fresh.handle, Nat.zero_add]
    exact sound.handle
  · refine List.pairwise_append.mpr ⟨?_, sound.last, ?_⟩
    · refine List.pairwise_of_forall_mem_list ?_
      intro earlier member later _member same
      exact fresh.handle (same ▸ member)
    · intro earlier member later _member same
      exact fresh.handle (same ▸ member)
  · refine List.pairwise_append.mpr ⟨?_, sound.silent, ?_⟩
    · refine List.pairwise_of_forall_mem_list ?_
      intro earlier member later _member same
      exact absurd (same ▸ member) fresh.cancel
    · intro earlier member later _member same
      exact absurd (same ▸ member) fresh.cancel

theorem sound_nil : Sound [] :=
  ⟨Nat.zero_le _, Nat.zero_le _, .nil, .nil⟩

theorem Fresh.sound {log : List Action} (fresh : Fresh log) : Sound log := by
  simpa using fresh.sound_append sound_nil

theorem sound_cancelled : Sound [.cancel, .stop, .deleteData, .freeTimer] := by
  constructor <;> decide

theorem sound_called : Sound [.getRepeat, .stop, .deleteData, .freeTimer] := by
  constructor <;> decide

theorem not_sound_append {log more : List Action} (released : .freeTimer ∈ log)
    (further : more ≠ []) : ¬Sound (log ++ more) := by
  intro sound
  obtain ⟨action, rest, rfl⟩ := List.exists_cons_of_ne_nil further
  have apart := (List.pairwise_append.mp sound.last).2.2
  exact apart .freeTimer released action List.mem_cons_self rfl

/-! ### Stages -/

/-- A timer waits for its initialization, lives, or is over. -/
inductive Stage (s : EventLoop) (timer : Nat) : Prop where
  | waiting (initialized : (s.timers timer).initialized = false)
      (active : (s.timers timer).active = false) (log : (s.timers timer).log = [])
      (outside : s.running ≠ some timer)
      (pending : s.posted.count (.init timer) = if timer < s.made then 1 else 0)
  | living (made : timer < s.made) (initialized : (s.timers timer).initialized = true)
      (fresh : Fresh (s.timers timer).log) (pending : .init timer ∉ s.posted)
  | ended (made : timer < s.made) (initialized : (s.timers timer).initialized = true)
      (active : (s.timers timer).active = false) (released : .freeTimer ∈ (s.timers timer).log)
      (sound : Sound (s.timers timer).log) (outside : s.running ≠ some timer)
      (pending : .init timer ∉ s.posted)

theorem Stage.sound {s : EventLoop} {timer : Nat} (stage : Stage s timer) :
    Sound (s.timers timer).log := by
  cases stage with
  | waiting _initialized _active log _outside _pending =>
      rw [log]
      exact sound_nil
  | living _made _initialized fresh _pending => exact fresh.sound
  | ended _made _initialized _active _released sound _outside _pending => exact sound

/-- The stage of a timer that a step leaves alone. -/
theorem Stage.congr {s after : EventLoop} {timer : Nat} (stage : Stage s timer)
    (record : after.timers timer = s.timers timer)
    (pending : after.posted.count (.init timer) = s.posted.count (.init timer))
    (inside : after.running = some timer → s.running = some timer)
    (made : timer < after.made ↔ timer < s.made) : Stage after timer := by
  have posted : Closure.init timer ∈ after.posted ↔ .init timer ∈ s.posted := by
    rw [← List.count_pos_iff, pending, List.count_pos_iff]
  cases stage with
  | waiting initialized active log outside pending' =>
      refine .waiting ?_ ?_ ?_ (outside ∘ inside) ?_
      · rw [record, initialized]
      · rw [record, active]
      · rw [record, log]
      · rw [pending, pending']
        simp only [made]
  | living known initialized fresh pending' =>
      refine .living (made.mpr known) ?_ ?_ (pending' ∘ posted.mp)
      · rw [record, initialized]
      · rwa [record]
  | ended known initialized active released sound outside pending' =>
      refine .ended (made.mpr known) ?_ ?_ ?_ ?_ (outside ∘ inside) (pending' ∘ posted.mp)
      · rw [record, initialized]
      · rw [record, active]
      · rwa [record]
      · rwa [record]

/-- The loop cancels a timer only when it is initialized, not yet released and not in its own
callback. -/
def Cancels (s : EventLoop) (timer : Nat) : Prop :=
  (s.timers timer).initialized = true ∧ .freeTimer ∉ (s.timers timer).log ∧
    s.running ≠ some timer

/-- Whenever a cancel is executed on the loop. -/
def InTime (s : EventLoop) : Event → Prop
  | .cancel .loop timer => Cancels s timer
  | .run (.cancel timer) => Cancels s timer
  | _ => True

theorem stage_start (timer : Nat) : Stage start timer :=
  .waiting rfl rfl rfl nofun (if_neg (Nat.not_lt_zero timer)).symm

theorem stage_unmade {s : EventLoop} (stage : Stage s s.made) :
    s.running ≠ some s.made ∧ s.posted.count (.init s.made) = 0 := by
  cases stage with
  | waiting initialized active log outside pending =>
      rw [if_neg (Nat.lt_irrefl _)] at pending
      exact ⟨outside, pending⟩
  | living made initialized fresh pending => exact absurd made (Nat.lt_irrefl _)
  | ended made initialized active released sound outside pending =>
      exact absurd made (Nat.lt_irrefl _)

/-- The initialization of a timer that nothing was done with. -/
theorem stage_init {s : EventLoop} {timer : Nat} (made : timer < s.made)
    (log : (s.timers timer).log = []) (absent : .init timer ∉ s.posted) :
    Stage (s.init timer) timer := by
  refine .living made ?_ ?_ absent
  · simp [EventLoop.init]
  · simp only [EventLoop.init, EventLoop.timers_setTimer_self, log]
    constructor <;> decide

theorem count_concat_of_ne {posted : List Closure} {closure other : Closure}
    (different : other ≠ closure) : (posted ++ [closure]).count other = posted.count other := by
  rw [List.count_append, List.count_eq_zero.mpr (mt List.mem_singleton.mp different),
    Nat.add_zero]

theorem stage_timerRunImpl {s : EventLoop} (stages : ∀ timer, Stage s timer) (thread : Thread)
    (interval : Nat) (cb : Bool) (timer : Nat) :
    Stage (s.timerRunImpl thread interval cb) timer := by
  unfold EventLoop.timerRunImpl
  cases cb with
  | false => exact stages timer
  | true =>
      obtain ⟨outside, absent⟩ := stage_unmade (stages s.made)
      have fresh : (s.create interval).timers s.made =
          { interval := interval
            initialized := false
            active := false
            log := [] } := s.timers_setTimer_self s.made _
      by_cases same : timer = s.made
      · subst same
        cases thread with
        | loop =>
            refine stage_init (Nat.lt_succ_self _) ?_ (List.count_eq_zero.mp absent)
            rw [fresh]
        | other =>
            refine .waiting ?_ ?_ ?_ outside ?_
            · exact congrArg Timer.initialized fresh
            · exact congrArg Timer.active fresh
            · exact congrArg Timer.log fresh
            · change (s.posted ++ [Closure.init s.made]).count (.init s.made) =
                if s.made < s.made + 1 then 1 else 0
              rw [List.count_append, absent, if_pos (Nat.lt_succ_self _)]
              simp
      · have made : timer < s.made + 1 ↔ timer < s.made := by omega
        have kept : (s.create interval).timers timer = s.timers timer :=
          s.timers_setTimer_of_ne same _
        cases thread with
        | loop =>
            refine (stages timer).congr ?_ rfl id made
            rw [← kept]
            exact EventLoop.timers_setTimer_of_ne same _
        | other =>
            refine (stages timer).congr kept ?_ id made
            refine count_concat_of_ne ?_
            intro equal
            cases equal
            exact same rfl

/-- A cancel in time. -/
theorem stage_cancelled {s : EventLoop} {timer : Nat} (stages : ∀ timer, Stage s timer)
    (cancels : Cancels s timer) (other : Nat) : Stage (s.cancelled timer) other := by
  by_cases same : other = timer
  · subst same
    have record : (s.cancelled other).timers other =
        { s.timers other with
          active := false
          log := (s.timers other).log ++ [.cancel, .stop, .deleteData, .freeTimer] } :=
      s.timers_setTimer_self other _
    cases stages other with
    | waiting initialized active log outside pending =>
        rw [cancels.1] at initialized
        cases initialized
    | living made initialized fresh pending =>
        refine .ended made ?_ ?_ ?_ ?_ cancels.2.2 pending
        · rw [record, initialized]
        · rw [record]
        · rw [record]
          simp
        · rw [record]
          exact fresh.sound_append sound_cancelled
    | ended made initialized active released sound outside pending =>
        exact absurd released cancels.2.1
  · exact (stages other).congr (s.timers_setTimer_of_ne same _) rfl id Iff.rfl

theorem stage_run {s : EventLoop} {closure : Closure} (stages : ∀ timer, Stage s timer)
    (member : closure ∈ s.posted) (intime : InTime s (.run closure)) (timer : Nat) :
    Stage ({ s with posted := s.posted.erase closure }.execute closure) timer := by
  cases closure with
  | init target =>
      by_cases same : timer = target
      · subst same
        cases stages timer with
        | waiting initialized active log outside pending =>
            have positive : 0 < s.posted.count (.init timer) := List.count_pos_iff.mpr member
            have made : timer < s.made := by
              by_contra unmade
              rw [pending, if_neg unmade] at positive
              exact Nat.lt_irrefl 0 positive
            refine stage_init made log ?_
            rw [← List.count_eq_zero]
            change (s.posted.erase (Closure.init timer)).count _ = 0
            rw [List.count_erase_self, pending, if_pos made]
        | living made initialized fresh pending => exact absurd member pending
        | ended made initialized active released sound outside pending =>
            exact absurd member pending
      · refine (stages timer).congr (EventLoop.timers_setTimer_of_ne same _) ?_ id Iff.rfl
        refine List.count_erase_of_ne ?_
        intro equal
        cases equal
        exact same rfl
  | cancel target =>
      have kept (other : Nat) :
          Stage { s with posted := s.posted.erase (.cancel target) } other := by
        refine (stages other).congr rfl ?_ id Iff.rfl
        have different : Closure.init other ≠ .cancel target := nofun
        exact List.count_erase_of_ne different
      exact stage_cancelled kept intime timer

theorem stage_expire {s : EventLoop} {target : Nat} (stages : ∀ timer, Stage s timer)
    (active : (s.timers target).active = true) (timer : Nat) :
    Stage (s.timerCallback target) timer := by
  by_cases same : timer = target
  · subst same
    cases stages timer with
    | waiting initialized stopped log outside pending =>
        rw [active] at stopped
        cases stopped
    | living made initialized fresh pending =>
        refine .living made ?_ ?_ pending
        · simpa [EventLoop.timerCallback, EventLoop.setTimer] using initialized
        · have calling : Fresh [Action.call] := by
            constructor <;> decide
          simpa [EventLoop.timerCallback, EventLoop.setTimer] using fresh.append calling
    | ended made initialized stopped released sound outside pending =>
        rw [active] at stopped
        cases stopped
  · refine (stages timer).congr (s.timers_setTimer_of_ne same _) rfl ?_ Iff.rfl
    intro inside
    cases inside
    exact absurd rfl same

theorem stage_finish {s : EventLoop} {target : Nat} (stages : ∀ timer, Stage s timer)
    (inside : s.running = some target) (timer : Nat) : Stage (s.called target) timer := by
  by_cases same : timer = target
  · subst same
    cases stages timer with
    | waiting initialized active log outside pending => exact absurd inside outside
    | living made initialized fresh pending =>
        by_cases once : (s.timers timer).interval = 0
        · refine .ended made ?_ ?_ ?_ ?_ nofun pending
          · simpa [EventLoop.called, EventLoop.setTimer, once] using initialized
          · simp [EventLoop.called, EventLoop.setTimer, once]
          · simp [EventLoop.called, EventLoop.setTimer, once]
          · simpa [EventLoop.called, EventLoop.setTimer, once] using
              fresh.sound_append sound_called
        · refine .living made ?_ ?_ pending
          · simpa [EventLoop.called, EventLoop.setTimer, once] using initialized
          · have reading : Fresh [Action.getRepeat] := by
              constructor <;> decide
            simpa [EventLoop.called, EventLoop.setTimer, once] using fresh.append reading
    | ended made initialized active released sound outside pending =>
        exact absurd inside outside
  · exact (stages timer).congr (s.timers_setTimer_of_ne same _) rfl nofun Iff.rfl

theorem stage_step {s after : EventLoop} {event : Event} (stages : ∀ timer, Stage s timer)
    (intime : InTime s event) (taken : step s event = some after) (timer : Nat) :
    Stage after timer := by
  unfold step at taken
  split at taken
  · cases taken
    exact stage_timerRunImpl stages _ _ _ timer
  · cases taken
    exact stage_timerRunImpl stages _ _ _ timer
  · cases taken
    exact stage_timerRunImpl stages _ _ _ timer
  · rename_i thread target
    obtain ⟨_made, result⟩ := Option.ite_none_right_eq_some.mp taken
    cases result
    cases thread with
    | loop => exact stage_cancelled stages intime timer
    | other =>
        refine (stages timer).congr rfl ?_ id Iff.rfl
        exact count_concat_of_ne nofun
  · obtain ⟨enabled, result⟩ := Option.ite_none_right_eq_some.mp taken
    cases result
    exact stage_run stages enabled.2 intime timer
  · obtain ⟨enabled, result⟩ := Option.ite_none_right_eq_some.mp taken
    cases result
    exact stage_expire stages enabled.2 timer
  · obtain ⟨target, inside, result⟩ := Option.map_eq_some_iff.mp taken
    cases result
    exact stage_finish stages inside timer

theorem stage_of_reachable {s : EventLoop} (reachable : Reachable (system.restrict InTime) s)
    (timer : Nat) : Stage s timer := by
  induction reachable generalizing timer with
  | start begins =>
      cases begins
      exact stage_start timer
  | next _before taken ih =>
      exact stage_step ih taken.1 taken.2 timer

/-! ### Cancels that are not in time -/

theorem known_timerRunImpl {s : EventLoop}
    (known : ∀ timer, .cancel timer ∈ s.posted → timer < s.made)
    (thread : Thread) (interval : Nat) (cb : Bool) {timer : Nat}
    (posted : .cancel timer ∈ (s.timerRunImpl thread interval cb).posted) :
    timer < (s.timerRunImpl thread interval cb).made := by
  cases cb with
  | false => exact known timer posted
  | true =>
      cases thread with
      | loop => exact Nat.lt_succ_of_lt (known timer posted)
      | other =>
          rcases List.mem_append.mp posted with old | new
          · exact Nat.lt_succ_of_lt (known timer old)
          · cases List.mem_singleton.mp new

theorem known_step {s after : EventLoop} {event : Event}
    (known : ∀ timer, .cancel timer ∈ s.posted → timer < s.made)
    (taken : step s event = some after) (timer : Nat) (posted : .cancel timer ∈ after.posted) :
    timer < after.made := by
  unfold step at taken
  split at taken
  · cases taken
    exact known_timerRunImpl known _ _ _ posted
  · cases taken
    exact known_timerRunImpl known _ _ _ posted
  · cases taken
    exact known_timerRunImpl known _ _ _ posted
  · rename_i thread target
    obtain ⟨made, result⟩ := Option.ite_none_right_eq_some.mp taken
    cases result
    cases thread with
    | loop => exact known timer posted
    | other =>
        rcases List.mem_append.mp posted with old | new
        · exact known timer old
        · cases List.mem_singleton.mp new
          exact made
  · rename_i closure
    obtain ⟨_enabled, result⟩ := Option.ite_none_right_eq_some.mp taken
    cases result
    cases closure with
    | init target => exact known timer (List.mem_of_mem_erase posted)
    | cancel target => exact known timer (List.mem_of_mem_erase posted)
  · obtain ⟨_enabled, result⟩ := Option.ite_none_right_eq_some.mp taken
    cases result
    exact known timer posted
  · obtain ⟨target, _inside, result⟩ := Option.map_eq_some_iff.mp taken
    cases result
    exact known timer posted

/-- Only timers that exist are cancelled. -/
theorem known_of_reachable {s : EventLoop} (reachable : Reachable system s) (timer : Nat)
    (posted : .cancel timer ∈ s.posted) : timer < s.made := by
  induction reachable generalizing timer with
  | start begins =>
      cases begins
      cases posted
  | next _before taken ih => exact known_step ih taken timer posted

theorem reachable_finish {s later : EventLoop} {timer : Nat}
    (reachable : Reachable ((system.restrict InTime).startingAt s) later)
    (inside : later.running = some timer) :
    Reachable ((system.restrict InTime).startingAt s) (later.called timer) := by
  have taken : step later .finish = some (later.called timer) :=
    Option.map_eq_some_iff.mpr ⟨timer, inside, rfl⟩
  have intime : InTime later .finish := trivial
  exact reachable.next ⟨intime, taken⟩

theorem reachable_init {s later : EventLoop} {timer : Nat}
    (reachable : Reachable ((system.restrict InTime).startingAt s) later)
    (outside : later.running = none) (posted : .init timer ∈ later.posted) :
    Reachable ((system.restrict InTime).startingAt s)
      (({ later with posted := later.posted.erase (.init timer) } : EventLoop).init timer) := by
  have taken : step later (.run (.init timer)) =
      some (({ later with posted := later.posted.erase (.init timer) } : EventLoop).init timer) :=
    if_pos ⟨outside, posted⟩
  have intime : InTime later (.run (.init timer)) := trivial
  exact reachable.next ⟨intime, taken⟩

theorem released_cancelled (s : EventLoop) (timer : Nat) :
    .freeTimer ∈ ((s.cancelled timer).timers timer).log := by
  simp [EventLoop.cancelled]

/-- The callback of a released timer comes back. -/
theorem not_sound_called {s : EventLoop} {timer : Nat}
    (released : .freeTimer ∈ (s.timers timer).log) :
    ¬Sound ((s.called timer).timers timer).log := by
  by_cases once : (s.timers timer).interval = 0
  · simpa [EventLoop.called, EventLoop.setTimer, once] using
      not_sound_append released (List.cons_ne_nil _ _)
  · simpa [EventLoop.called, EventLoop.setTimer, once] using
      not_sound_append released (List.cons_ne_nil _ _)

/-- A released timer is initialized. -/
theorem not_sound_init {s : EventLoop} {timer : Nat}
    (released : .freeTimer ∈ (s.timers timer).log) :
    ¬Sound ((s.init timer).timers timer).log := by
  simpa [EventLoop.init] using not_sound_append released (List.cons_ne_nil _ _)

/-- Where a cancel leads that is not in time. -/
theorem not_sound_cancelled {s : EventLoop} {timer : Nat} (stage : Stage s timer)
    (made : timer < s.made) (late : ¬Cancels s timer) :
    ∃ later, Reachable ((system.restrict InTime).startingAt (s.cancelled timer)) later ∧
      ¬Sound (later.timers timer).log := by
  have released := released_cancelled s timer
  have begins : Reachable ((system.restrict InTime).startingAt (s.cancelled timer))
      (s.cancelled timer) := .start rfl
  cases stage with
  | waiting initialized active log outside pending =>
      rw [if_pos made] at pending
      have posted : .init timer ∈ s.posted := List.count_pos_iff.mp (by omega)
      cases inside : s.running with
      | none => exact ⟨_, reachable_init begins inside posted, not_sound_init released⟩
      | some other =>
          -- The callback the loop is in comes back first.
          have different : timer ≠ other := by
            intro same
            exact outside (same ▸ inside)
          have kept : ((s.cancelled timer).called other).timers timer =
              (s.cancelled timer).timers timer :=
            EventLoop.timers_setTimer_of_ne different _
          refine ⟨_, reachable_init (reachable_finish begins inside) rfl posted,
            not_sound_init ?_⟩
          exact kept ▸ released
  | living known initialized fresh pending =>
      have inside : s.running = some timer := by
        by_contra outside
        exact late ⟨initialized, fresh.handle, outside⟩
      exact ⟨_, reachable_finish begins inside, not_sound_called released⟩
  | ended known initialized active released' sound outside pending =>
      refine ⟨_, begins, ?_⟩
      simpa [EventLoop.cancelled] using not_sound_append released' (List.cons_ne_nil _ _)

/-- In runs that cancel in time every history is sound; it stays so, whatever follows in time,
exactly after a step in time. -/
theorem sound_iff_inTime {s : EventLoop} (reachable : Reachable (system.restrict InTime) s) :
    (∀ timer, Sound (s.timers timer).log) ∧
    ∀ event after, step s event = some after →
      ((∀ later, Reachable ((system.restrict InTime).startingAt after) later →
        ∀ timer, Sound (later.timers timer).log) ↔ InTime s event) := by
  constructor
  · exact fun timer => (stage_of_reachable reachable timer).sound
  · intro event after taken
    constructor
    · intro always
      by_contra late
      unfold InTime at late
      split at late
      · rename_i timer
        obtain ⟨made, result⟩ := Option.ite_none_right_eq_some.mp taken
        cases result
        obtain ⟨later, rest, unsound⟩ :=
          not_sound_cancelled (stage_of_reachable reachable timer) made late
        exact unsound (always later rest timer)
      · rename_i timer
        obtain ⟨enabled, result⟩ := Option.ite_none_right_eq_some.mp taken
        cases result
        have made := known_of_reachable reachable.of_restrict timer enabled.2
        have different : Closure.init timer ≠ .cancel timer := nofun
        have stage : Stage { s with posted := s.posted.erase (.cancel timer) } timer :=
          (stage_of_reachable reachable timer).congr rfl (List.count_erase_of_ne different) id
            Iff.rfl
        obtain ⟨later, rest, unsound⟩ := not_sound_cancelled stage made late
        exact unsound (always later rest timer)
      · exact late trivial
    · intro intime later rest timer
      have now := reachable.next ⟨intime, taken⟩
      exact (stage_of_reachable (now.trans rest) timer).sound

instance (s : EventLoop) (timer : Nat) : Decidable (Cancels s timer) :=
  inferInstanceAs (Decidable (_ ∧ _ ∧ _))

instance (s : EventLoop) : DecidablePred (InTime s)
  | .cancel .loop timer | .run (.cancel timer) => inferInstanceAs (Decidable (Cancels s timer))
  | .cancel .other _ | .run (.init _) | .runAt .. | .runAfter .. | .runEvery .. | .expire _
  | .finish => isTrue trivial

/-- A repeating timer that another thread cancels, and one that fires once. -/
def repeats : List Event :=
  [.runEvery .other 1000 true, .runAfter .loop true, .run (.init 0), .expire 0, .finish,
    .cancel .other 0, .expire 1, .finish, .run (.cancel 0)]

theorem sound_iff_inTime_repeats :
    ∃ s, Reachable (system.restrict InTime) s ∧ .freeTimer ∈ (s.timers 0).log ∧
      .freeTimer ∈ (s.timers 1).log ∧ ∀ timer, Sound (s.timers timer).log := by
  have sound : ∀ s event, Reachable (system.restrict InTime) s →
      decide (InTime s event) = true → InTime s event := by
    intro s event _before inTime
    exact of_decide_eq_true inTime
  have found : ∃ s ∈ Transition.execute
      (checked (fun s event => decide (InTime s event)) step) start repeats,
      .freeTimer ∈ (s.timers 0).log ∧ .freeTimer ∈ (s.timers 1).log := by
    decide
  obtain ⟨s, within, first, second⟩ := exists_reachable_within sound found
  exact ⟨s, within, first, second, (sound_iff_inTime within).1⟩

/-- A timer is cancelled after it has fired; another one is cancelled by its own callback. -/
theorem cancel_releases_twice :
    (∃ s, Reachable system s ∧ (s.timers 0).log.count .freeTimer = 2) ∧
    ∃ s, Reachable system s ∧
      (s.timers 0).log = [.init, .start, .call] ++ [.cancel, .stop, .deleteData, .freeTimer] ++
        [.getRepeat] := by
  constructor
  · have found : ∃ s ∈ Transition.execute step start
        [.runAfter .loop true, .expire 0, .finish, .cancel .loop 0],
        (s.timers 0).log.count .freeTimer = 2 := by
      decide
    exact exists_reachable found
  · have found : ∃ s ∈ Transition.execute step start
        [.runEvery .loop 1000 true, .expire 0, .cancel .loop 0, .finish],
        (s.timers 0).log = [.init, .start, .call] ++
          [.cancel, .stop, .deleteData, .freeTimer] ++ [.getRepeat] := by
      decide
    exact exists_reachable found

end Uvcpp.EventLoop
