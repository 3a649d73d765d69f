/-
ThreadPool comes to rest with its work done.

After start and before stop, whatever the producers and the workers do, the calls of run pay
for a bounded number of steps.  When no thread can go on by itself, every call has returned,
the queue is empty and every task has been executed.
-/

import Mathlib.Data.Finset.Image
import Uvcpp.Library.MonitorProgress
import Uvcpp.Thread.PoolAccounting
import Uvcpp.Thread.PoolLifetime
import Uvcpp.Thread.PoolWakeups

namespace Uvcpp.ThreadPool

open Monitor

variable {Body : Type}

/-- A pool whose threads have not run yet, while the controller is inside start. -/
def controlled (place : ControlAt) (sh : Shared Body) : Pool Body :=
  { owner := none
    standing := fun _ => .running
    location := fun t =>
      match t with
      | .controller => .control place
      | .producer _ => .run .outside
      | .worker _ => .func .unborn
    shared := sh }

/-- A pool after start(threadNum), whose threads have not run yet. -/
def working (maxSize threadNum : Nat) : Pool Body :=
  controlled (.started threadNum)
    { Shared.new maxSize with
      running := true
      threads := threadNum
      stage := .started
      spawned := threadNum }

/-- Who runs between start and stop. -/
def crew (producers workers : Nat) : Finset Thread :=
  (Finset.range producers).image .producer ∪ (Finset.range workers).image .worker

/-- A thread that does not call run need not call it. -/
def idle : Thread → Local Body → Prop
  | .producer _, .run .outside => True
  | _, _ => False

/-- The runs of a pool between start and stop. -/
abbrev between (Body : Type) (maxSize producers workers : Nat) :
    Transition.System (Pool Body) (Event Thread (Choice Body)) :=
  Monitor.system (only (crew producers workers) code) (fun s => s = working maxSize workers)

theorem idle_outside {t : Thread} {l : Local Body} (idles : idle t l) : ¬inside t l := by
  unfold idle at idles
  split at idles
  · exact id
  · exact idles.elim

@[simp] theorem mem_crew_producer {producers workers index : Nat} :
    .producer index ∈ crew producers workers ↔ index < producers := by
  simp [crew]

@[simp] theorem mem_crew_worker {producers workers index : Nat} :
    .worker index ∈ crew producers workers ↔ index < workers := by
  simp [crew]

@[simp] theorem controller_not_mem_crew {producers workers : Nat} :
    .controller ∉ crew producers workers := by
  simp [crew]

/-- A sum over the crew. -/
theorem sum_crew (producers workers : Nat) (f : Thread → Nat) : ∑ t ∈ crew producers workers, f t =
    ∑ index ∈ Finset.range producers, f (.producer index) +
      ∑ index ∈ Finset.range workers, f (.worker index) := by
  have apart : Disjoint ((Finset.range producers).image Thread.producer)
      ((Finset.range workers).image Thread.worker) := by
    rw [Finset.disjoint_left]
    simp
  rw [crew, Finset.sum_union apart, Finset.sum_image (by simp), Finset.sum_image (by simp)]

theorem card_crew (producers workers : Nat) : (crew producers workers).card =
    producers + workers := by
  rw [Finset.card_eq_sum_ones, sum_crew]
  simp

/-! ### The pool was started -/

theorem controlled_step {place next : ControlAt} {sh sh' : Shared Body} {choice : Choice Body}
    {run : Choice Body → Shared Body → Option (Shared Body × Local Body)}
    (code : control place = .act run) (result : run choice sh = some (sh', .control next)) :
    step ThreadPool.code (controlled place sh) (.run .controller choice) =
      some (controlled next sh') := by
  have instr : ThreadPool.code .controller ((controlled place sh).location .controller) =
      .act run := code
  have moved : ((controlled place sh).moveTo .controller (.control next)).location =
      (controlled next sh').location := by
    funext t
    cases t with
    | controller => exact (controlled place sh).moveTo_self .controller _
    | producer index => exact (controlled place sh).moveTo_other _ (by simp)
    | worker index => exact (controlled place sh).moveTo_other _ (by simp)
  have running : (controlled place sh).standing .controller = .running := rfl
  have outcome : run choice (controlled place sh).shared = some (sh', .control next) := result
  simp only [step, running, instr, outcome, Option.map_some, Option.some.injEq]
  change ({ controlled place sh with
    location := ((controlled place sh).moveTo .controller (.control next)).location
    shared := sh' } : Pool Body) = controlled next sh'
  rw [moved]
  rfl

/-- start creates its threads one after another. -/
theorem spawning_reachable {maxSize threadNum : Nat} (room : 0 < maxSize) (threads : 0 < threadNum)
    (count : Nat) (few : count ≤ threadNum) : Transition.Reachable (system Body maxSize)
      (controlled (.spawning threadNum)
        { Shared.new maxSize with
          threads := count
          spawned := count }) := by
  induction count with
  | zero =>
      have begins : Transition.Reachable (system Body maxSize)
          (controlled .created (Shared.new maxSize)) := .start rfl
      have starts : step code (controlled .created (Shared.new maxSize))
          (.run .controller (.start threadNum : Choice Body)) =
          some (controlled (.spawning threadNum) (Shared.new maxSize)) := by
        apply controlled_step rfl
        simp only [Shared.new, threads, room, and_self, if_true]
      exact begins.next starts
  | succ count ih =>
      have more : count < threadNum := few
      have spawns : step code (controlled (.spawning threadNum)
          { Shared.new maxSize with
            threads := count
            spawned := count }) (.run .controller (.proceed : Choice Body)) =
          some (controlled (.spawning threadNum)
            { Shared.new maxSize with
              threads := count + 1
              spawned := count + 1 }) := by
        apply controlled_step rfl
        simp only [more, if_true]
      exact (ih (Nat.le_of_lt more)).next spawns

theorem working_reachable {maxSize threadNum : Nat} (room : 0 < maxSize)
    (threads : 0 < threadNum) :
    Transition.Reachable (system Body maxSize) (working maxSize threadNum) := by
  have spawned : Transition.Reachable (system Body maxSize)
      (controlled (.spawning threadNum)
        { Shared.new maxSize with
          threads := threadNum
          spawned := threadNum }) :=
    spawning_reachable room threads threadNum (Nat.le_refl _)
  have completes : step code (controlled (.spawning threadNum)
      { Shared.new maxSize with
        threads := threadNum
        spawned := threadNum }) (.run .controller (.proceed : Choice Body)) =
      some (controlled (.publishing threadNum)
        { Shared.new maxSize with
          threads := threadNum
          spawned := threadNum }) := by
    apply controlled_step rfl
    simp
  have publishes : step code (controlled (.publishing threadNum)
      { Shared.new maxSize with
        threads := threadNum
        spawned := threadNum }) (.run .controller (.proceed : Choice Body)) =
      some (working maxSize threadNum) :=
    controlled_step rfl rfl
  exact (spawned.next completes).next publishes

theorem Moves.maxSize_eq {t : Thread} {l next : Local Body} {sh sh' : Shared Body}
    (move : Moves t l sh sh' next) : sh'.maxSize = sh.maxSize := by
  cases move <;> rfl

theorem maxSize_eq {maxSize : Nat} {s : Pool Body}
    (reachable : Transition.Reachable (system Body maxSize) s) :
    s.shared.maxSize = maxSize := by
  induction reachable with
  | start begins =>
      cases begins
      rfl
  | next _before taken ih =>
      cases step_effect taken with
      | acts _running acts result => exact (moves acts result).maxSize_eq.trans ih
      | _ => exact ih

/-- Until stop turns `running_` off it has found nobody asleep. -/
theorem open_reachable {maxSize : Nat} {s : Pool Body}
    (reachable : Transition.Reachable (system Body maxSize) s) (opened : ¬Closing s) :
    Transition.Reachable ((system Body maxSize).restrict NobodySleeps) s := by
  induction reachable with
  | start begins => exact .start begins
  | @next s s' event before taken ih =>
      have effect := step_effect taken
      have earlier : ¬Closing s := fun closing =>
        opened (closing_preserved effect (annotated before) closing)
      refine (ih earlier).next ⟨?_, taken⟩
      unfold NobodySleeps
      split
      · intro off
        exfalso
        cases effect with
        | resumes _ code _ | locks _ code _ | unlocks _ code _ | waits _ code _
        | notifies _ code =>
            rw [off] at code
            cases code
        | @acts _ _ action sh next _ acts result =>
            have move := moves acts result
            rw [off] at move
            cases move
            exact opened (.inl rfl)
      · trivial

/-! ### Between start and stop -/

section Between

variable {maxSize producers workers : Nat} {s : Pool Body}

/-- The pool stays started. -/
structure Open (maxSize workers : Nat) (s : Pool Body) : Prop where
  reachable : Transition.Reachable (system Body maxSize) s
  control : s.location .controller = .control (.started workers)
  stage : s.shared.stage = .started
  running : s.shared.running = true
  spawned : s.shared.spawned = workers

theorem between_open (room : 0 < maxSize) (threads : 0 < workers)
    (reachable : Transition.Reachable (between Body maxSize producers workers) s) :
    Open maxSize workers s := by
  have full : Transition.Reachable (system Body maxSize) s :=
    (working_reachable room threads).trans (reachable_of_only reachable)
  have control : s.location .controller = .control (.started workers) :=
    only_stays reachable controller_not_mem_crew
  obtain ⟨tied, holds⟩ := control_annotated full
  rw [control] at holds
  obtain ⟨stage, same, spawned⟩ := holds
  exact ⟨full, control, stage, tied.mpr stage, spawned⟩

theorem Open.wakeful (opened : Open maxSize workers s) : ¬Oversleeps s := by
  apply no_lost_wakeup
  apply open_reachable opened.reachable
  rintro (stopping | stopped)
  · rw [opened.stage] at stopping
    cases stopping
  · rw [opened.stage] at stopped
    cases stopped

/-- No worker leaves. -/
theorem between_kept (room : 0 < maxSize) (threads : 0 < workers)
    (reachable : Transition.Reachable (between Body maxSize producers workers) s) (index : Nat) :
    ¬HasLeft s index := by
  induction reachable with
  | start begins =>
      cases begins
      rintro (leaving | exited)
      · cases leaving
      · cases exited
  | @next s s' event before taken ih =>
      intro left
      rcases left_step (step_effect (step_of_only taken)) left with earlier | ⟨off, _⟩
      · exact ih earlier
      · rw [(between_open room threads before).running] at off
        cases off

theorem run_isSome {place : RunAt Body} {sh : Shared Body}
    {action : Choice Body → Shared Body → Option (Shared Body × Local Body)}
    (acts : run place = .act action) (busy : place ≠ .outside) :
    ∃ choice, (action choice sh).isSome := by
  refine ⟨.proceed, ?_⟩
  cases place <;> cases acts
  case outside => exact absurd rfl busy
  all_goals
    dsimp only
    split_ifs <;> rfl

theorem threadFunc_isSome {index : Nat} {place : FuncAt Body} {sh : Shared Body}
    {action : Choice Body → Shared Body → Option (Shared Body × Local Body)}
    (acts : threadFunc index place = .act action) (created : index < sh.spawned)
    (busy : place ≠ .exited) : ∃ choice, (action choice sh).isSome := by
  refine ⟨.proceed, ?_⟩
  cases place <;> cases acts
  case unborn => simp [created]
  case exited => exact absurd rfl busy
  case looking | taking =>
    dsimp only
    split <;> rfl
  case holding job =>
    rcases job with _ | ⟨ticket, task⟩
    · rfl
    · cases task <;> rfl
  all_goals rfl

/-- Whoever is not idle has something to do. -/
theorem Open.responsive (opened : Open maxSize workers s)
    (stays : ∀ t, t ∉ crew producers workers → s.location t = (working maxSize workers).location t)
    (kept : ∀ index, ¬HasLeft s index) :
    Responsive code inside (fun t l => idle t l ∨ t ∉ crew producers workers) s := by
  constructor
  · rintro t (idles | other)
    · exact idle_outside idles
    · rw [stays t other]
      cases t <;> exact id
  · intro t action running busy acts
    obtain ⟨busy, member⟩ : ¬idle t (s.location t) ∧ t ∈ crew producers workers := by
      simpa using busy
    have holds := (annotated opened.reachable).running t running
    cases t with
    | controller => exact absurd member controller_not_mem_crew
    | producer index =>
        cases place : s.location (.producer index) <;> rw [place] at acts busy holds
        case run here =>
          apply run_isSome acts
          rintro rfl
          exact busy trivial
        all_goals exact holds.2.elim
    | worker index =>
        have created : index < s.shared.spawned := by
          rw [opened.spawned]
          exact mem_crew_worker.mp member
        cases place : s.location (.worker index) <;> rw [place] at acts holds
        case func here =>
          apply threadFunc_isSome acts created
          rintro rfl
          exact kept index (.inr place)
        all_goals exact holds.2.elim

/-- At rest every producer is outside and every worker waits for a task. -/
theorem between_rests (room : 0 < maxSize) (threads : 0 < workers)
    (reachable : Transition.Reachable (between Body maxSize producers workers) s)
    (rest : AtRest (only (crew producers workers) code) idle s) :
    (∀ index, s.location (.producer index) = .run .outside) ∧
      (∀ index < workers, s.location (.worker index) = .func .waiting ∧
        s.standing (.worker index) = .asleep .notEmpty) ∧ s.shared.queue = [] := by
  have : Nonempty (Choice Body) := ⟨.proceed⟩
  have opened := between_open room threads reachable
  have stays (t : Thread) (other : t ∉ crew producers workers) :
      s.location t = (working maxSize workers).location t :=
    only_stays reachable other
  have rest : AtRest code (fun t l => idle t l ∨ t ∉ crew producers workers) s := by
    intro t choice busy
    obtain ⟨busy, member⟩ : ¬idle t (s.location t) ∧ t ∈ crew producers workers := by
      simpa using busy
    rw [← step_only_eq member]
    exact rest t choice busy
  have exclusive := exclusive opened.reachable
  obtain ⟨free, asleep⟩ := rest.asleep locking exclusive
    (opened.responsive stays (between_kept room threads reachable))
  have sleeps (t : Thread) (cond : Cond) (standing : s.standing t = .asleep cond) :
      ¬ready cond s.shared := fun isReady =>
    opened.wakeful ⟨free, t, cond, standing, isReady⟩
  have waits (index : Nat) (within : index < workers) :
      s.location (.worker index) = .func .waiting ∧
        s.standing (.worker index) = .asleep .notEmpty := by
    have busy : ¬(idle (.worker index) (s.location (.worker index)) ∨
        .worker index ∉ crew producers workers) := by
      rintro (idles | other)
      · exact idles
      · exact other (mem_crew_worker.mpr within)
    obtain ⟨cond, standing⟩ := asleep _ busy
    obtain ⟨next, code⟩ := exclusive.sleeps _ cond standing
    rcases code_wait code with ⟨_, _, impossible, _⟩ | ⟨_, _, place, rfl, _⟩
    · cases impossible
    · exact ⟨place, standing⟩
  have empty : s.shared.queue = [] := by
    by_contra some
    exact sleeps _ _ (waits 0 threads).2 (.inl some)
  refine ⟨?_, waits, empty⟩
  intro index
  by_cases idles : idle (.producer index) (s.location (.producer index)) ∨
      .producer index ∉ crew producers workers
  · rcases idles with idles | other
    · unfold idle at idles
      split at idles
      · assumption
      · exact idles.elim
    · exact stays _ other
  · obtain ⟨cond, standing⟩ := asleep _ idles
    obtain ⟨next, code⟩ := exclusive.sleeps _ cond standing
    rcases code_wait code with ⟨_, _, _, place, rfl, _⟩ | ⟨_, impossible, _⟩
    · have unready := sleeps _ _ standing
      have size := maxSize_eq opened.reachable
      exact absurd (.inl (by rw [empty, size]; exact room)) unready
    · cases impossible

end Between

/-! ### What the calls pay for -/

/-- What a notification is worth. -/
def notice (threads : Nat) : Nat := threads * 8 + 1

/-- What a queued task is worth: a worker takes it, notifies and comes back. -/
def jobWorth (threads : Nat) : Nat := notice threads + 9

/-- A woken worker may find the queue empty and has to go round to wait again; one that has
looked does not. -/
def weights (threads : Nat) : Weights Thread (Shared Body) (Local Body) where
  cost t l sh :=
    match l with
    | .control _ => 0
    | .run .outside => 0
    | .run (.locking _) => 4
    | .run (.testing _) => 3
    | .run (.waiting _) => 1
    | .run (.checking _) => 2
    | .run .notifying => 1
    | .run .unlocking => 1
    | .func .unborn => 6
    | .func .initializing => 5
    | .func .testing => 4
    | .func .locking => 3
    | .func .looking => 2
    | .func .waiting => 1
    | .func .taking =>
        match t with
        | .worker _ => if sh.queue = [] then 7 else 1
        | _ => 7
    | .func (.notifying _) => 9
    | .func (.unlocking none) => 6
    | .func (.unlocking (some _)) => 9
    | .func (.holding none) => 5
    | .func (.holding (some _)) => 8
    | .func (.counted _) => 7
    | .func (.calling _) => 6
    | .func (.called _) => 5
    | .func .leaving => 1
    | .func .exited => 0
  debts
    | .run (.locking _) => notice threads + jobWorth threads
    | .run (.testing _) => notice threads + jobWorth threads
    | .run (.waiting _) => notice threads + jobWorth threads
    | .run (.checking _) => notice threads + jobWorth threads
    | .run .notifying => notice threads
    | .func (.notifying _) => notice threads
    | _ => 0
  stock sh := sh.queue.length * jobWorth threads
  wake := 8
  call := 16 * threads + 15

section Fit

variable {producers workers : Nat}

theorem act_weighs {threads : Nat} {t : Thread} {l next : Local Body} {sh sh' : Shared Body}
    (move : Moves t l sh sh' next) (working : t ≠ .controller) (busy : ¬idle t l) :
    (weights threads).cost t next sh' + (weights threads).debts next + (weights threads).stock sh' <
      (weights threads).cost t l sh + (weights threads).debts l + (weights threads).stock sh := by
  cases move
  case start | spawn | complete | publish | stop | turnOff | join | joined | drop | drained =>
    exact absurd rfl working
  case call => exact absurd trivial busy
  case push =>
    simp only [weights, List.length_append, List.length_singleton, Nat.add_mul, Nat.one_mul]
    omega
  case take front =>
    simp only [weights, front, List.length_cons, Nat.add_mul, Nat.one_mul, jobWorth]
    simp
    omega
  case present present => simp [weights, present]
  case nothing empty => simp [weights, empty]
  all_goals
    simp only [weights]
    omega

/-- No step of a worker or a producer makes another's way longer. -/
theorem others_weigh {threads : Nat} {t : Thread} {l next : Local Body} {sh sh' : Shared Body}
    (move : Moves t l sh sh' next) {u : Thread} {k : Local Body}
    (apart : ¬(inside t l ∧ inside u k)) :
    (weights threads).cost u k sh' ≤ (weights threads).cost u k sh := by
  have shrinks (outside : ¬inside t l) (filled : sh.queue ≠ []) : sh'.queue ≠ [] := by
    cases move
    case take | drop => exact absurd trivial outside
    case push => simp
    all_goals exact filled
  cases k with
  | control place => exact Nat.le_refl _
  | run place => cases place <;> exact Nat.le_refl _
  | func place =>
      cases place
      case unlocking job | holding job => cases job <;> exact Nat.le_refl _
      case taking =>
        cases u with
        | controller => exact Nat.le_refl _
        | producer index => exact Nat.le_refl _
        | worker index =>
            have outside : ¬inside t l := fun within => apart ⟨within, trivial⟩
            simp only [weights]
            split_ifs with after before
            · exact Nat.le_refl _
            · exact absurd after (shrinks outside before)
            · omega
            · exact Nat.le_refl _
      all_goals exact Nat.le_refl _

theorem weights_fit : Weights.Fit (weights (producers + workers))
    (only (crew producers workers) (@code Body)) inside idle (fun _ _ _ => True)
    (crew producers workers) := by
  have acts {t : Thread} {l next : Local Body} {sh sh' : Shared Body} {choice : Choice Body}
      {run : Choice Body → Shared Body → Option (Shared Body × Local Body)}
      (same : only (crew producers workers) code t l = .act run)
      (result : run choice sh = some (sh', next)) :
      t ≠ .controller ∧ Moves t l sh sh' next := by
    rcases of_only same with ⟨member, same⟩ | none
    · refine ⟨?_, moves same result⟩
      rintro rfl
      exact controller_not_mem_crew member
    · cases none
      cases result
  constructor
  · intro t l next same
    rcases of_only same with ⟨_, same⟩ | impossible
    · rcases code_lock same with ⟨rfl, _, _⟩ | ⟨_, _, rfl, rfl, rfl⟩ | ⟨_, rfl, rfl, rfl⟩
      · exact absurd ‹_› controller_not_mem_crew
      · simp [weights]
      · simp [weights]
    · cases impossible
  · intro t l next same
    rcases of_only same with ⟨_, same⟩ | impossible
    · rcases code_unlock same with ⟨rfl, _, _⟩ | ⟨_, rfl, rfl, rfl⟩ | ⟨_, job, rfl, rfl, rfl⟩
      · exact absurd ‹_› controller_not_mem_crew
      · simp [weights]
      · cases job <;> simp [weights]
    · cases impossible
  · intro t l cond next same
    rcases of_only same with ⟨_, same⟩ | impossible
    · rcases code_wait same with ⟨_, _, rfl, rfl, rfl, rfl⟩ | ⟨_, rfl, rfl, rfl, rfl⟩
      · simp [weights]
      · refine ⟨fun sh => ⟨Nat.one_pos, ?_⟩, Nat.le_refl _⟩
        simp only [weights]
        split_ifs <;> omega
    · cases impossible
  · intro t l cond next same
    rcases of_only same with ⟨_, same⟩ | impossible
    · rcases code_notifyAll same with ⟨rfl, _⟩ | ⟨_, rfl, rfl, rfl, rfl⟩ |
        ⟨_, _, rfl, rfl, rfl, rfl⟩
      · exact absurd ‹_› controller_not_mem_crew
      · simp [weights, Weights.notice, card_crew, notice]
      · simp [weights, Weights.notice, card_crew, notice]
    · cases impossible
  · intro t l run choice sh sh' next same result _holds
    obtain ⟨working, move⟩ := acts same result
    refine ⟨act_weighs move working, ?_⟩
    intro idles
    cases move
    case call =>
      simp only [weights, jobWorth, notice]
      omega
    all_goals exact absurd idles id
  · intro t l run choice sh sh' next same result u k _other apart
    exact others_weigh (acts same result).2 apart
  · intro t l idles
    by_cases member : t ∈ crew producers workers
    · rw [only_of_mem member]
      unfold idle at idles
      split at idles
      · exact ⟨_, rfl⟩
      · exact idles.elim
    · exact ⟨_, if_neg member⟩

end Fit

/-- **Progress of the pool.** Between start and stop, with some producers and at least one
worker, a run of `calls` calls of run with `wakes` spurious wake-ups has boundedly many steps,
in whatever order they are made.  When no thread can go on without a further call, every call
has returned, the queue is empty, every task has been executed, once, or discarded for want of
a body, and every worker waits for the next. -/
theorem pool_progress (Body : Type) {maxSize producers workers : Nat} (room : 0 < maxSize)
    (threads : 0 < workers) :
    (∀ r : Tally Thread Cond (Shared Body) (Local Body),
        Tallies (only (crew producers workers) code) idle
            (fun s => s = working maxSize workers) r →
          r.steps ≤ 6 * workers + r.calls * (16 * (producers + workers) + 15) + r.wakes * 8) ∧
      ∀ s, Transition.Reachable (between Body maxSize producers workers) s →
        AtRest (only (crew producers workers) code) idle s →
          (∀ index, s.location (.producer index) = .run .outside) ∧
          (∀ index < workers, s.location (.worker index) = .func .waiting ∧
            s.standing (.worker index) = .asleep .notEmpty) ∧
          s.shared.queue = [] ∧ s.shared.activeThreadNum = 0 ∧ s.shared.begun.Nodup ∧
          ∀ job ∈ s.shared.pushed,
            job ∈ s.shared.finished ∨ job ∈ s.shared.discarded ∧ job.task = none := by
  constructor
  · intro r tallies
    have begins : ∀ s : Pool Body, s = working maxSize workers →
        Exclusive (only (crew producers workers) code) inside s ∧
          (weights (producers + workers)).rank (crew producers workers) s ≤ 6 * workers := by
      rintro s rfl
      refine ⟨.fresh ⟨rfl, fun _ => rfl⟩ (fun t => by cases t <;> exact id), ?_⟩
      rw [Weights.rank, sum_crew]
      simp [Weights.share, Weights.load, working, controlled, weights, Shared.new]
      omega
    have paid := weights_fit.steps_le (locking.only _) idle_outside
      (fun _ => mem_of_step_only) begins (fun _ _ _ _ => trivial) tallies
    exact Nat.le_trans (Nat.le_add_right _ _) paid
  · intro s reachable rest
    have opened := between_open room threads reachable
    obtain ⟨outside, waits, empty⟩ := between_rests room threads reachable rest
    have sound := sound opened.reachable
    have books := books opened.reachable
    have idles (index : Nat) : (s.location (.worker index)).held = none ∧
        (s.location (.worker index)).active = false := by
      by_cases within : index < workers
      · rw [(waits index within).1]
        exact ⟨rfl, rfl⟩
      · have place : s.location (.worker index) = .func .unborn :=
          only_stays reachable (fun member => within (mem_crew_worker.mp member))
        rw [place]
        exact ⟨rfl, rfl⟩
    refine ⟨outside, waits, empty, ?_, books.once, ?_⟩
    · rw [counted opened.reachable, Finset.card_eq_zero, busy]
      simp [(idles _).2]
    · intro job pushed
      rw [← sound.order, sound.kept (.inr opened.stage), empty, List.append_nil,
        List.append_nil] at pushed
      rcases books.covered pushed with ⟨index, holds⟩ | finished | discarded
      · rw [hand, (idles index).1] at holds
        cases holds
      · exact .inl finished
      · exact .inr ⟨discarded, (books.thrown discarded).2⟩

/-- The only worker waits, executes the task of a call of run and waits again. -/
def oneTask : List (Event Thread (Choice Unit)) :=
  List.replicate 6 (.run (.worker 0) .proceed) ++
  [.run (.producer 0) (.run (some ()))] ++
  List.replicate 5 (.run (.producer 0) .proceed) ++
  List.replicate 12 (.run (.worker 0) .proceed)

theorem pool_progress_one :
    ∃ r : Tally Thread Cond (Shared Unit) (Local Unit),
      Tallies (only (crew 1 1) code) idle (fun s => s = working 1 1) r ∧
      AtRest (only (crew 1 1) code) idle r.state ∧
      r.state.shared.pushed = [⟨0, some ()⟩] ∧
      r.steps ≤ 6 * 1 + r.calls * (16 * (1 + 1) + 15) + r.wakes * 8 ∧
      r.state.shared.queue = [] ∧ ⟨0, some ()⟩ ∈ r.state.shared.finished := by
  have found : ∃ s ∈ Transition.execute (step (only (crew 1 1) code)) (working 1 1) oneTask,
      (∀ t ∈ crew 1 1, s.standing t = .asleep .notEmpty ∨ s.location t = .run .outside) ∧
        s.shared.pushed = [⟨0, some ()⟩] := by
    decide
  obtain ⟨s, reachable, stopped, pushed⟩ := Transition.exists_reachable found
  obtain ⟨r, tallies, rfl⟩ := exists_tallies reachable
  have rest : AtRest (only (crew 1 1) code) idle r.state := by
    intro t choice busy
    by_cases member : t ∈ crew 1 1
    · rcases stopped t member with asleep | outside
      · simp [step, asleep]
      · cases t with
        | controller => exact absurd member controller_not_mem_crew
        | producer index =>
            rw [outside] at busy
            exact absurd trivial busy
        | worker index =>
            rw [step_only_eq member]
            cases standing : r.state.standing (.worker index) <;>
              simp [step, standing, outside, code]
    · exact Option.eq_none_iff_forall_not_mem.mpr fun _ taken => member (mem_of_step_only taken)
  obtain ⟨bounded, stops⟩ := @pool_progress Unit 1 1 1 Nat.one_pos Nat.one_pos
  obtain ⟨_, _, empty, _, _, executed⟩ := stops r.state reachable rest
  refine ⟨r, tallies, rest, pushed, bounded r tallies, empty, ?_⟩
  rcases executed ⟨0, some ()⟩ (by simp [pushed]) with finished | ⟨_, impossible⟩
  · exact finished
  · cases impossible

end Uvcpp.ThreadPool
