/-
start and the destructor of an EventLoopThreadPool come to an end.

Whatever the starter and the threads do, they make boundedly many steps.  When nothing can
go on, every thread has registered its loop, and the destructor either has joined all of them
or is at the first thread whose loop is not at its own position, and will stay there.
-/

import Uvcpp.Library.MonitorProgress
import Uvcpp.Thread.PoolJoins
import Uvcpp.Thread.StartupHandshakes

namespace Uvcpp.EventLoopThreadPool

open Monitor

/-! ### What the destructor has done -/

/-- How many of the `count` loops the destructor has stopped. -/
def OwnerAt.stops (count : Nat) : OwnerAt → Nat
  | .stopping index => index
  | .joining index => index + 1
  | .destroyed => count
  | _ => 0

/-- How many threads it has joined. -/
def OwnerAt.joins (count : Nat) : OwnerAt → Nat
  | .stopping index => index
  | .joining index => index
  | .destroyed => count
  | _ => 0

def Pool.stopped (s : Pool) : List Nat :=
  match s.location .starter with
  | .owner place => s.shared.loops.take (place.stops s.shared.loops.length)
  | .worker _ => []

def Pool.joined (s : Pool) : Nat :=
  match s.location .starter with
  | .owner place => place.joins s.shared.loops.length
  | .worker _ => 0

/-- The stopped loops are those at the positions the destructor has passed, a thread that has
ended was stopped, and each joined thread had its loop at its own position. -/
structure Tracked (s : Pool) : Prop where
  asked : ∀ index, s.shared.stopped index = true ↔ index ∈ s.stopped
  ended : ∀ index, s.shared.exited index = true ↔
    s.location (.worker index) = .worker .exited
  obeyed : ∀ index, s.shared.exited index = true → s.shared.stopped index = true
  ordered : s.shared.loops.take s.joined = List.range s.joined
  born : ∀ index, s.location (.worker index) ≠ .worker .unborn → index < s.shared.threads

section Tracked

variable {threadNum : Nat} {s s' : Pool}

theorem new_tracked (threadNum : Nat) : Tracked (new threadNum) := by
  constructor
  · intro index
    simp [new, Pool.stopped, OwnerAt.stops]
  · intro index
    simp [new]
  · intro index exited
    cases exited
  · rfl
  · intro index other
    exact absurd rfl other

/-- A step of the starter that stops and joins nobody. -/
theorem Tracked.starter (tracked : Tracked s) {place next : OwnerAt}
    (before : s.location .starter = .owner place)
    (goes : s'.location = (s.moveTo .starter (.owner next)).location)
    (loops : s'.shared.loops = s.shared.loops) (stopped : s'.shared.stopped = s.shared.stopped)
    (exited : s'.shared.exited = s.shared.exited) (threads : s.shared.threads ≤ s'.shared.threads)
    (stops : next.stops s.shared.loops.length = place.stops s.shared.loops.length)
    (joins : next.joins s.shared.loops.length = place.joins s.shared.loops.length) :
    Tracked s' := by
  have after : s'.location .starter = .owner next := by
    rw [goes, State.moveTo_self]
  have workers (index : Nat) : s'.location (.worker index) = s.location (.worker index) := by
    rw [goes, s.moveTo_other _ (by simp)]
  have sameStops : s'.stopped = s.stopped := by
    simp only [Pool.stopped, before, after, loops, stops]
  have sameJoins : s'.joined = s.joined := by
    simp only [Pool.joined, before, after, loops, joins]
  constructor
  · intro index
    rw [stopped, sameStops]
    exact tracked.asked index
  · intro index
    rw [exited, workers]
    exact tracked.ended index
  · intro index
    rw [exited, stopped]
    exact tracked.obeyed index
  · rw [sameJoins, loops]
    exact tracked.ordered
  · intro index other
    rw [workers] at other
    exact Nat.lt_of_lt_of_le (tracked.born index other) threads

/-- A step of a worker that leaves the shared data alone. -/
theorem Tracked.worker (tracked : Tracked s) {index : Nat} {next : WorkerAt}
    (shared : s'.shared = s.shared)
    (goes : s'.location = (s.moveTo (.worker index) (.worker next)).location)
    (alive : s.location (.worker index) ≠ .worker .exited) (stays : next ≠ .exited)
    (created : index < s.shared.threads) : Tracked s' := by
  have starter : s'.location .starter = s.location .starter := by
    rw [goes, s.moveTo_other _ (by simp)]
  have after : s'.location (.worker index) = .worker next := by
    rw [goes, State.moveTo_self]
  have others (other : Nat) (apart : other ≠ index) :
      s'.location (.worker other) = s.location (.worker other) := by
    rw [goes, s.moveTo_other _ (by simpa using apart)]
  have sameStops : s'.stopped = s.stopped := by
    simp only [Pool.stopped, starter, shared]
  have sameJoins : s'.joined = s.joined := by
    simp only [Pool.joined, starter, shared]
  constructor
  · intro other
    rw [shared, sameStops]
    exact tracked.asked other
  · intro other
    rw [shared, tracked.ended]
    by_cases own : other = index
    · subst own
      rw [after]
      constructor
      · intro ended
        exact absurd ended alive
      · intro ended
        cases ended
        exact absurd rfl stays
    · rw [others other own]
  · intro other
    rw [shared]
    exact tracked.obeyed other
  · rw [sameJoins, shared]
    exact tracked.ordered
  · intro other elsewhere
    rw [shared]
    by_cases own : other = index
    · rw [own]
      exact created
    · rw [others other own] at elsewhere
      exact tracked.born other elsewhere

theorem Tracked.stop (tracked : Tracked s) {index loop : Nat}
    (place : s.location .starter = .owner (.stopping index))
    (present : s.shared.loops[index]? = some loop) :
    Tracked { s.moveTo .starter (.owner (.joining index)) with
      shared := { s.shared with stopped := Function.update s.shared.stopped loop true } } := by
  have passed : s.stopped = s.shared.loops.take index := by
    simp only [Pool.stopped, place, OwnerAt.stops]
  have joined : s.joined = index := by
    simp only [Pool.joined, place, OwnerAt.joins]
  have workers (other : Nat) : (s.moveTo .starter (.owner (.joining index))).location
      (.worker other) = s.location (.worker other) := s.moveTo_other _ (by simp)
  constructor
  · intro other
    simp only [Pool.stopped, State.moveTo_self, OwnerAt.stops]
    rw [List.take_add_one, present, List.mem_append, ← passed, ← tracked.asked other]
    by_cases own : other = loop
    · simp [own]
    · simp [own]
  · intro other
    simp only [workers]
    exact tracked.ended other
  · intro other exited
    have earlier := tracked.obeyed other exited
    by_cases own : other = loop
    · simp [own]
    · simpa [own] using earlier
  · simp only [Pool.joined, State.moveTo_self, OwnerAt.joins]
    rw [← joined]
    exact tracked.ordered
  · intro other elsewhere
    simp only [workers] at elsewhere
    exact tracked.born other elsewhere

/-- Past the last loop every thread was joined. -/
theorem Tracked.done (tracked : Tracked s) {index : Nat}
    (place : s.location .starter = .owner (.stopping index))
    (absent : s.shared.loops[index]? = none) :
    Tracked (s.moveTo .starter (.owner .destroyed)) := by
  have past : s.shared.loops.length ≤ index := List.getElem?_eq_none_iff.mp absent
  have ordered : s.shared.loops.take index = List.range index := by
    have ordered := tracked.ordered
    simpa only [Pool.joined, place, OwnerAt.joins] using ordered
  have all : s.shared.loops.length = index := by
    have same := congrArg List.length ordered
    rw [List.length_take, List.length_range] at same
    omega
  exact tracked.starter place rfl rfl rfl rfl (Nat.le_refl _) all all

/-- A joined thread has ended, so its loop is among those stopped, and the earlier ones are
those of earlier threads. -/
theorem Tracked.join (tracked : Tracked s) {index loop : Nat}
    (place : s.location .starter = .owner (.joining index))
    (present : s.shared.loops[index]? = some loop) (exited : s.shared.exited index = true) :
    Tracked (s.moveTo .starter (.owner (.stopping (index + 1)))) := by
  have workers (other : Nat) : (s.moveTo .starter (.owner (.stopping (index + 1)))).location
      (.worker other) = s.location (.worker other) := s.moveTo_other _ (by simp)
  have ordered : s.shared.loops.take index = List.range index := by
    have ordered := tracked.ordered
    simpa only [Pool.joined, place, OwnerAt.joins] using ordered
  have passed : s.stopped = List.range index ++ [loop] := by
    simp only [Pool.stopped, place, OwnerAt.stops]
    rw [List.take_add_one, present, ordered]
    rfl
  have own : loop = index := by
    have asked := (tracked.asked index).mp (tracked.obeyed index exited)
    rw [passed] at asked
    simpa [eq_comm] using asked
  constructor
  · intro other
    have same : Pool.stopped (s.moveTo .starter (.owner (.stopping (index + 1)))) =
        s.stopped := by
      simp only [Pool.stopped, State.moveTo_self, place, OwnerAt.stops]
      rfl
    rw [same]
    exact tracked.asked other
  · intro other
    rw [workers]
    exact tracked.ended other
  · exact tracked.obeyed
  · have joined : Pool.joined (s.moveTo .starter (.owner (.stopping (index + 1)))) =
        index + 1 := by
      simp only [Pool.joined, State.moveTo_self, OwnerAt.joins]
    rw [joined, List.range_succ]
    change s.shared.loops.take (index + 1) = _
    rw [List.take_add_one, present, ordered, own]
    rfl
  · intro other elsewhere
    rw [workers] at elsewhere
    exact tracked.born other elsewhere

/-- A loop is registered before anything is stopped. -/
theorem Tracked.register (tracked : Tracked s) {index : Nat} {place : OwnerAt}
    (starter : s.location .starter = .owner place) (early : place.late = false)
    (here : s.location (.worker index) = .worker .registering) :
    Tracked { s.moveTo (.worker index) (.worker .unlocking) with
      shared := { s.shared with
        loops := s.shared.loops ++ [index]
        initSuc := s.shared.initSuc + 1 } } := by
  have stops (count : Nat) : place.stops count = 0 := by
    cases place <;> cases early <;> rfl
  have joins (count : Nat) : place.joins count = 0 := by
    cases place <;> cases early <;> rfl
  have stays : (s.moveTo (.worker index) (.worker .unlocking)).location .starter =
      .owner place := (s.moveTo_other _ (by simp)).trans starter
  constructor
  · intro other
    rw [tracked.asked]
    simp only [Pool.stopped, stays, starter, stops, List.take_zero]
  · intro other
    rw [tracked.ended]
    by_cases own : other = index
    · simp [own, here]
    · simp [State.moveTo, own]
  · exact tracked.obeyed
  · simp only [Pool.joined, stays, joins]
    rfl
  · intro other elsewhere
    by_cases own : other = index
    · rw [own]
      exact tracked.born index (by simp [here])
    · apply tracked.born other
      simpa [State.moveTo, own] using elsewhere

/-- A thread ends when its loop was stopped. -/
theorem Tracked.exit (tracked : Tracked s) {index : Nat}
    (here : s.location (.worker index) = .worker .looping)
    (stopped : s.shared.stopped index = true) :
    Tracked { s.moveTo (.worker index) (.worker .exited) with
      shared := { s.shared with exited := Function.update s.shared.exited index true } } := by
  have stays : (s.moveTo (.worker index) (.worker .exited)).location .starter =
      s.location .starter := s.moveTo_other _ (by simp)
  constructor
  · intro other
    rw [tracked.asked]
    simp only [Pool.stopped, stays]
  · intro other
    by_cases own : other = index
    · simp [own]
    · simpa [State.moveTo, own] using tracked.ended other
  · intro other exited
    by_cases own : other = index
    · rw [own]
      exact stopped
    · apply tracked.obeyed other
      simpa [own] using exited
  · simp only [Pool.joined, stays]
    exact tracked.ordered
  · intro other elsewhere
    by_cases own : other = index
    · rw [own]
      exact tracked.born index (by simp [here])
    · apply tracked.born other
      simpa [State.moveTo, own] using elsewhere

theorem starter_location (reachable : Transition.Reachable (system threadNum) s) :
    ∃ place, s.location .starter = .owner place := by
  cases place : s.location .starter with
  | owner at_place => exact ⟨at_place, rfl⟩
  | worker _ =>
      have annotated := annotated reachable
      by_cases running : s.standing .starter = .running
      · have holds := annotated.running _ running
        rw [place] at holds
        exact holds.elim
      · have rests := annotated.waiting _ running
        rw [place] at rests
        exact rests.elim

/-- While a loop is missing start() has not returned. -/
theorem registering_early (reachable : Transition.Reachable (system threadNum) s) {index : Nat}
    {place : OwnerAt} (starter : s.location .starter = .owner place)
    (here : s.location (.worker index) = .worker .registering) : place.late = false := by
  rw [Bool.eq_false_iff]
  intro late
  obtain ⟨fresh, created, _⟩ := worker_assertion reachable here
  have complete := Late.complete reachable ⟨place, starter, late⟩
  exact fresh (complete.member created)

theorem Tracked.acts (tracked : Tracked s) (reachable : Transition.Reachable (system threadNum) s)
    {t : Thread} {sh : Shared} {next : Local} (move : Moves t (s.location t) s.shared sh next) :
    Tracked { s.moveTo t next with shared := sh } := by
  generalize place : s.location t = l at move
  generalize same : s.shared = before at move
  cases move with
  | spawn missing =>
      subst same
      exact tracked.starter place rfl rfl rfl rfl (Nat.le_succ _) rfl rfl
  | spawned | complete | missing | destroy =>
      subst same
      exact tracked.starter place rfl rfl rfl rfl (Nat.le_refl _) rfl rfl
  | stop present =>
      subst same
      exact tracked.stop place present
  | done absent =>
      subst same
      exact tracked.done place absent
  | join exited =>
      subst same
      obtain ⟨_, loop, present, _⟩ := starter_assertion reachable place (by simp)
      exact tracked.join place present exited
  | birth created =>
      subst same
      exact tracked.worker rfl rfl (by simp [place]) (by simp) created
  | construct =>
      subst same
      exact tracked.worker rfl rfl (by simp [place]) (by simp) (tracked.born _ (by simp [place]))
  | register =>
      subst same
      obtain ⟨_, starter⟩ := starter_location reachable
      exact tracked.register starter (registering_early reachable starter place) place
  | exit stopped =>
      subst same
      exact tracked.exit place stopped

theorem tracked_step (reachable : Transition.Reachable (system threadNum) s)
    {event : Event Thread Unit} (effect : Effect code s event s') (tracked : Tracked s) :
    Tracked s' := by
  cases effect with
  | wakes asleep => exact { tracked with }
  | waits running code owned => exact { tracked with }
  | resumes woken code free =>
      obtain ⟨rfl, place, rfl⟩ := code_wait code
      exact tracked.starter place rfl rfl rfl rfl (Nat.le_refl _) rfl rfl
  | locks running code free =>
      rcases code_lock code with ⟨rfl, place, rfl⟩ | ⟨index, rfl, place, rfl⟩
      · exact tracked.starter place rfl rfl rfl rfl (Nat.le_refl _) rfl rfl
      · exact tracked.worker rfl rfl (by simp [place]) (by simp) (tracked.born _ (by simp [place]))
  | unlocks running code owned =>
      rcases code_unlock code with ⟨rfl, place, rfl⟩ | ⟨index, rfl, place, rfl⟩
      · exact tracked.starter place rfl rfl rfl rfl (Nat.le_refl _) rfl rfl
      · exact tracked.worker rfl rfl (by simp [place]) (by simp) (tracked.born _ (by simp [place]))
  | @notifies _ _ cond next running code =>
      obtain ⟨index, rfl, place, rfl⟩ := code_notifyAll code
      exact tracked.worker rfl rfl (by simp [place]) (by simp) (tracked.born _ (by simp [place]))
  | acts running code result => exact tracked.acts reachable (moves code result)

theorem tracked (reachable : Transition.Reachable (system threadNum) s) : Tracked s := by
  induction reachable with
  | start begins =>
      cases begins
      exact new_tracked threadNum
  | next before taken ih => exact tracked_step before (step_effect taken) ih

theorem threads_le (reachable : Transition.Reachable (system threadNum) s) :
    s.shared.threads ≤ threadNum := by
  rw [← threadNum_eq reachable]
  induction reachable with
  | start begins =>
      cases begins
      exact Nat.zero_le _
  | @next s s' event _before taken ih =>
      rcases effect_shared (step_effect taken) with same | ⟨t, choice, next, _, move⟩
      · rw [same]
        exact ih
      · generalize s.location t = l at move
        generalize s'.shared = after at move ⊢
        cases move with
        | spawn missing => exact missing
        | _ => exact ih

end Tracked

/-! ### Where the run ends -/

/-- The places of a thread that waits for another one without the mutex, or has ended. -/
def blocks : Thread → Local → Prop
  | .starter, .owner (.joining _) => True
  | .starter, .owner .destroyed => True
  | .worker _, .worker .unborn => True
  | .worker _, .worker .looping => True
  | .worker _, .worker .exited => True
  | _, _ => False

section Rest

variable {threadNum : Nat} {s : Pool}

theorem owner_isSome {place : OwnerAt} {sh : Shared}
    {action : Unit → Shared → Option (Shared × Local)} (acts : owner place = .act action)
    (busy : ¬blocks .starter (.owner place)) : (action () sh).isSome := by
  cases place <;> cases acts
  case spawning | stopping =>
    dsimp only
    split <;> rfl
  case joining | destroyed => exact absurd trivial busy
  all_goals rfl

theorem worker_isSome {index : Nat} {place : WorkerAt} {sh : Shared}
    {action : Unit → Shared → Option (Shared × Local)} (acts : worker index place = .act action)
    (busy : ¬blocks (.worker index) (.worker place)) : (action () sh).isSome := by
  cases place <;> cases acts
  case unborn | looping | exited => exact absurd trivial busy
  all_goals rfl

theorem responsive (reachable : Transition.Reachable (system threadNum) s) :
    Responsive code inside blocks s := by
  constructor
  · intro t blocked within
    unfold blocks at blocked
    split at blocked
    all_goals first
      | exact blocked
      | (rename_i place; rw [place] at within; exact within)
  · intro t run running busy acts
    cases t with
    | starter =>
        obtain ⟨place, here⟩ := starter_location reachable
        rw [here] at acts busy
        exact ⟨(), owner_isSome acts busy⟩
    | worker index =>
        obtain ⟨place, here⟩ := worker_location reachable index
        rw [here] at acts busy
        exact ⟨(), worker_isSome acts busy⟩

/-- No thread can do anything. -/
abbrev Stuck (s : Pool) : Prop :=
  AtRest code (fun _ _ => False) s

theorem Stuck.worker_at (stuck : Stuck s) (reachable : Transition.Reachable (system threadNum) s)
    (index : Nat) : s.location (.worker index) = .worker .unborn ∨
      s.location (.worker index) = .worker .looping ∨
        s.location (.worker index) = .worker .exited := by
  have rest : AtRest code blocks s := fun t choice _ => stuck t choice id
  have asleep := (rest.asleep locking (exclusive reachable) (responsive reachable)).2
  have blocked : blocks (.worker index) (s.location (.worker index)) := by
    by_contra busy
    obtain ⟨cond, sleeps⟩ := asleep _ busy
    rw [worker_running reachable index] at sleeps
    cases sleeps
  obtain ⟨place, here⟩ := worker_location reachable index
  rw [here] at blocked ⊢
  cases place <;> simp [blocks] at blocked ⊢

/-- A thread that was created has its loop, or has left it. -/
theorem Stuck.created (stuck : Stuck s) (reachable : Transition.Reachable (system threadNum) s)
    {index : Nat} (created : index < s.shared.threads) :
    s.location (.worker index) = .worker .looping ∨
      s.location (.worker index) = .worker .exited := by
  rcases stuck.worker_at reachable index with unborn | ended
  · have nothing := stuck (.worker index) () id
    simp [step, worker_running reachable index, unborn, code, worker, created] at nothing
  · exact ended

/-- Who was stopped has ended. -/
theorem Stuck.ended (stuck : Stuck s) (reachable : Transition.Reachable (system threadNum) s)
    {index : Nat} (created : index < s.shared.threads) :
    s.location (.worker index) =
      .worker (if s.shared.stopped index = true then .exited else .looping) := by
  have tracked := tracked reachable
  rcases stuck.created reachable created with looping | exited
  · have nothing := stuck (.worker index) () id
    have going : s.shared.stopped index = false := by
      by_contra stopped
      simp [step, worker_running reachable index, looping, code, worker, stopped] at nothing
    simp [looping, going]
  · have stopped := tracked.obeyed index ((tracked.ended index).mpr exited)
    simp [exited, stopped]

/-- The starter is in the destructor, and either it waits for a thread or all is done. -/
theorem Stuck.starter_at (stuck : Stuck s) (reachable : Transition.Reachable (system threadNum) s) :
    s.location .starter = .owner .destroyed ∨
      ∃ index, s.location .starter = .owner (.joining index) := by
  have rest : AtRest code blocks s := fun t choice _ => stuck t choice id
  have asleep := (rest.asleep locking (exclusive reachable) (responsive reachable)).2
  by_cases blocked : blocks .starter (s.location .starter)
  · obtain ⟨place, here⟩ := starter_location reachable
    rw [here] at blocked ⊢
    cases place <;> simp [blocks] at blocked ⊢
  · -- asleep in start(), it would miss a thread that has no loop yet
    exfalso
    obtain ⟨cond, sleeps⟩ := asleep _ blocked
    refine never_oversleeps reachable ⟨?_, sleeps⟩
    intro index within
    apply stuck.created reachable
    have stopped : s.standing .starter ≠ .running := by
      rw [sleeps]
      intro impossible
      cases impossible
    have rests := (annotated reachable).waiting _ stopped
    obtain ⟨place, here⟩ := starter_location reachable
    rw [here] at rests
    rw [show s.shared.threads = s.shared.threadNum from rests]
    exact within

theorem Stuck.complete (stuck : Stuck s) (reachable : Transition.Reachable (system threadNum) s) :
    Complete s.shared := by
  apply Late.complete reachable
  rcases stuck.starter_at reachable with destroyed | ⟨index, joining⟩
  · exact ⟨_, destroyed, rfl⟩
  · exact ⟨_, joining, rfl⟩

/-- At the end of the destructor the loops were in order. -/
theorem Stuck.destroyed (reachable : Transition.Reachable (system threadNum) s)
    (complete : Complete s.shared) (destroyed : s.location .starter = .owner .destroyed) :
    s.shared.loops = List.range threadNum := by
  have ordered := (tracked reachable).ordered
  simp only [Pool.joined, destroyed, OwnerAt.joins, List.take_length] at ordered
  rw [ordered, complete.registered.length_eq, List.length_range, threadNum_eq reachable]

/-- The destructor waits for a thread whose loop it has not stopped. -/
theorem Stuck.joining (stuck : Stuck s) (reachable : Transition.Reachable (system threadNum) s)
    {index : Nat} (joining : s.location .starter = .owner (.joining index)) :
    index < threadNum ∧ s.shared.loops.take index = List.range index ∧
      s.shared.loops[index]? ≠ some index := by
  have tracked := tracked reachable
  obtain ⟨complete, loop, present, stopped⟩ := starter_assertion reachable joining (by simp)
  have within : index < threadNum := by
    have inside := (List.getElem?_eq_some_iff.mp present).1
    rwa [complete.registered.length_eq, List.length_range, threadNum_eq reachable] at inside
  have ordered := tracked.ordered
  simp only [Pool.joined, joining, OwnerAt.joins] at ordered
  refine ⟨within, ordered, ?_⟩
  intro own
  -- the thread would have ended, and the destructor could join it
  have created : index < s.shared.threads := by
    rw [complete.created, threadNum_eq reachable]
    exact within
  have ended := stuck.ended reachable created
  cases present.symm.trans own
  rw [if_pos stopped, ← tracked.ended] at ended
  have nothing := stuck .starter () id
  have running := starter_running reachable joining (by simp)
  simp [step, running, joining, code, owner, ended] at nothing

end Rest

/-! ### What the steps cost -/

/-- The starter and its threads. -/
def crew (threadNum : Nat) : Finset Thread :=
  insert .starter ((Finset.range threadNum).image .worker)

theorem mem_crew_worker {threadNum index : Nat} :
    .worker index ∈ crew threadNum ↔ index < threadNum := by
  simp [crew]

theorem sum_crew (threadNum : Nat) (f : Thread → Nat) : ∑ t ∈ crew threadNum, f t =
    f .starter + ∑ index ∈ Finset.range threadNum, f (.worker index) := by
  rw [crew, Finset.sum_insert (by simp), Finset.sum_image (by simp)]

theorem card_crew (threadNum : Nat) : (crew threadNum).card = threadNum + 1 := by
  rw [Finset.card_eq_sum_ones, sum_crew]
  simp [Nat.add_comm]

/-- A thread has at most six steps and pays for its notification; the starter pays for the
destructor while it is in start(). -/
def weights (threadNum : Nat) : Weights Thread Shared Local where
  cost _ l sh :=
    match l with
    | .owner .spawning => sh.threadNum - sh.threads + 4
    | .owner .locking => 3
    | .owner .testing => 2
    | .owner .waiting => 1
    | .owner .unlocking => 1
    | .owner .started => 0
    | .owner (.stopping index) => 2 * (threadNum - index) + 1
    | .owner (.joining index) => 2 * (threadNum - index)
    | .owner .destroyed => 0
    | .worker .unborn => 6
    | .worker .constructing => 5
    | .worker .locking => 4
    | .worker .registering => 3
    | .worker .unlocking => 2
    | .worker .notifying => 1
    | .worker .looping => 1
    | .worker .exited => 0
  debts
    | .owner (.stopping _) => 0
    | .owner (.joining _) => 0
    | .owner .destroyed => 0
    | .owner _ => 2 * threadNum + 2
    | .worker .looping => 0
    | .worker .exited => 0
    | .worker _ => 3 * (threadNum + 1) + 1
  stock _ := 0
  wake := 3
  call := 0

theorem weights_fit (threadNum : Nat) : Weights.Fit (weights threadNum) code inside
    (fun _ _ => False) (fun t l sh => assertion t l sh ∧ sh.threadNum = threadNum)
    (crew threadNum) := by
  constructor
  · intro t l next same
    rcases code_lock same with ⟨rfl, rfl, rfl⟩ | ⟨index, rfl, rfl, rfl⟩ <;> simp [weights]
  · intro t l next same
    rcases code_unlock same with ⟨rfl, rfl, rfl⟩ | ⟨index, rfl, rfl, rfl⟩ <;> simp [weights]
  · intro t l cond next same
    obtain ⟨rfl, rfl, rfl⟩ := code_wait same
    simp [weights]
  · intro t l cond next same
    obtain ⟨index, rfl, rfl, rfl⟩ := code_notifyAll same
    simp [weights, Weights.notice, card_crew]
    omega
  · intro t l run choice sh sh' next acts result holds
    refine ⟨fun _busy => ?_, fun impossible => impossible.elim⟩
    cases moves acts result with
    | spawn missing =>
        simp only [weights]
        omega
    | @join _ index exited =>
        obtain ⟨⟨complete, loop, present, _⟩, size⟩ := holds
        have within : index < threadNum := by
          have inside := (List.getElem?_eq_some_iff.mp present).1
          rwa [complete.registered.length_eq, List.length_range, size] at inside
        simp only [weights]
        omega
    | _ =>
        simp only [weights]
        omega
  · intro t l run choice sh sh' next acts result u k other _apart
    cases moves acts result with
    | spawn missing =>
        cases k with
        | owner place =>
            cases place <;> simp only [weights] <;> omega
        | worker place => cases place <;> exact Nat.le_refl _
    | _ =>
        cases k with
        | owner place => cases place <;> exact Nat.le_refl _
        | worker place => exact Nat.le_refl _
  · intro t l impossible
    exact impossible.elim

theorem steps_in_crew {threadNum : Nat} {s s' : Pool} {t : Thread} {choice : Unit}
    (reachable : Transition.Reachable (system threadNum) s)
    (taken : step code s (.run t choice) = some s') : t ∈ crew threadNum := by
  cases t with
  | starter => simp [crew]
  | worker index =>
      rw [mem_crew_worker]
      apply Nat.lt_of_lt_of_le _ (threads_le reachable)
      by_cases unborn : s.location (.worker index) = .worker .unborn
      · by_contra later
        simp [step, worker_running reachable index, unborn, code, worker, later] at taken
      · exact (tracked reachable).born index unborn

/-- **The end of the pool.** start and the destructor make boundedly many steps, in whatever
order the threads run.  When none of them can go on, either the loops are in the order of the
threads, the pool is destroyed and every thread has ended, or the destructor is at the first
thread whose loop is not at its own position, and exactly the threads whose loops it has
stopped have ended. -/
theorem pool_ends (threadNum : Nat) :
    (∀ r : Tally Thread Unit Shared Local,
        Tallies code (fun _ _ => False) (fun s => s = new threadNum) r →
          r.steps ≤ 3 * threadNum + 6 + threadNum * (3 * threadNum + 10) + r.wakes * 3) ∧
      ∀ s, Transition.Reachable (system threadNum) s → Stuck s →
        (s.shared.loops = List.range threadNum ∧ s.location .starter = .owner .destroyed ∧
          ∀ index < threadNum, s.location (.worker index) = .worker .exited) ∨
        ∃ index < threadNum, s.location .starter = .owner (.joining index) ∧
          s.shared.loops.take index = List.range index ∧ s.shared.loops[index]? ≠ some index ∧
          ∀ other < threadNum, s.location (.worker other) =
            .worker (if other ∈ s.shared.loops.take (index + 1) then .exited else .looping) := by
  constructor
  · intro r tallies
    have begins : ∀ s : Pool, s = new threadNum → Exclusive code inside s ∧
        (weights threadNum).rank (crew threadNum) s ≤
          3 * threadNum + 6 + threadNum * (3 * threadNum + 10) := by
      rintro s rfl
      refine ⟨new_exclusive threadNum, ?_⟩
      have each : 3 * (threadNum + 1) + 1 + 6 = 3 * threadNum + 10 := by omega
      rw [Weights.rank, sum_crew]
      simp [Weights.share, Weights.load, new, weights, each]
      omega
    have holds (s : Pool) (reachable : Transition.Reachable (system threadNum) s) (t : Thread)
        (running : s.standing t = .running) : assertion t (s.location t) s.shared ∧
          s.shared.threadNum = threadNum :=
      ⟨(annotated reachable).running t running, threadNum_eq reachable⟩
    have paid := (weights_fit threadNum).steps_le locking (fun impossible => impossible.elim)
      steps_in_crew begins holds tallies
    have free : (weights threadNum).call = 0 := rfl
    rw [free, Nat.mul_zero] at paid
    exact Nat.le_trans (Nat.le_add_right _ _) paid
  · intro s reachable stuck
    have complete := stuck.complete reachable
    have tracked := tracked reachable
    have ended (index : Nat) (within : index < threadNum) : s.location (.worker index) =
        .worker (if index ∈ s.stopped then .exited else .looping) := by
      have created : index < s.shared.threads := by
        rw [complete.created, threadNum_eq reachable]
        exact within
      rw [stuck.ended reachable created]
      simp only [tracked.asked]
    rcases stuck.starter_at reachable with destroyed | ⟨index, joining⟩
    · left
      have ordered := Stuck.destroyed reachable complete destroyed
      refine ⟨ordered, destroyed, ?_⟩
      intro index within
      have stopped : s.stopped = s.shared.loops := by
        simp only [Pool.stopped, destroyed, OwnerAt.stops, List.take_length]
      have listed : index ∈ s.stopped := by
        rw [stopped, ordered]
        exact List.mem_range.mpr within
      rw [ended index within, if_pos listed]
    · right
      obtain ⟨within, inOrder, different⟩ := stuck.joining reachable joining
      refine ⟨index, within, joining, inOrder, different, ?_⟩
      intro other within
      have stopped : s.stopped = s.shared.loops.take (index + 1) := by
        simp only [Pool.stopped, joining, OwnerAt.stops]
      rw [ended other within, stopped]

/-- The second thread registers its loop first; the destructor stops it and waits for the
first thread. -/
theorem pool_ends_two :
    ∃ r : Tally Thread Unit Shared Local,
      Tallies code (fun _ _ => False) (fun s => s = new 2) r ∧ Stuck r.state ∧
      r.state.shared.loops = [1, 0] ∧
      r.steps ≤ 3 * 2 + 6 + 2 * (3 * 2 + 10) + r.wakes * 3 ∧
      r.state.location .starter = .owner (.joining 0) := by
  have found : ∃ s ∈ Transition.execute (step code) (new 2)
      (startTwo 1 0 ++ List.replicate 2 (.run .starter ()) ++ [.run (.worker 1) ()]),
      (∀ t ∈ crew 2, (step code s (.run t ())).isNone = true) ∧ s.shared.loops = [1, 0] := by
    decide
  obtain ⟨s, reachable, stops, loops⟩ := Transition.exists_reachable found
  obtain ⟨r, tallies, rfl⟩ := exists_tallies reachable
  have stuck : Stuck r.state := by
    intro t choice _busy
    by_cases member : t ∈ crew 2
    · exact Option.isNone_iff_eq_none.mp (stops t member)
    · exact Option.eq_none_iff_forall_not_mem.mpr fun _ taken =>
        member (steps_in_crew reachable taken)
  obtain ⟨bounded, ends⟩ := pool_ends 2
  refine ⟨r, tallies, stuck, loops, bounded r tallies, ?_⟩
  rcases ends r.state reachable stuck with ⟨ordered, _⟩ | ⟨index, within, joining, first, _⟩
  · rw [loops] at ordered
    cases ordered
  · cases index with
    | zero => exact joining
    | succ index =>
        have last : index = 0 := by omega
        rw [loops, last] at first
        cases first

end Uvcpp.EventLoopThreadPool
