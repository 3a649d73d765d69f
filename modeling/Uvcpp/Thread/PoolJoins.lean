/-
Whom the destructor of an EventLoopThreadPool joins.

The loop at a position must be that of the thread at the position.  When it is not,
a run of the destructor joins a thread whose loop still runs.
-/

import Uvcpp.Thread.PoolDestructor

namespace Uvcpp.EventLoopThreadPool

open Monitor

/-! ### In order -/

/-- A worker registers its loop when the loops of all earlier threads are there. -/
def InOrder (s : Pool) : Event Thread Unit → Prop
  | .run (.worker index) _ =>
      s.location (.worker index) = .worker .registering → s.shared.loops.length = index
  | _ => True

theorem effect_shared {s s' : Pool} {event : Event Thread Unit} (effect : Effect code s event s') :
    s'.shared = s.shared ∨ ∃ t choice next, event = .run t choice ∧
      Moves t (s.location t) s.shared s'.shared next := by
  cases effect with
  | acts running acts result => exact .inr ⟨_, _, _, rfl, moves acts result⟩
  | _ => exact .inl rfl

theorem threadNum_eq {threadNum : Nat} {s : Pool}
    (reachable : Transition.Reachable (system threadNum) s) : s.shared.threadNum = threadNum := by
  induction reachable with
  | start begins =>
      cases begins
      rfl
  | @next s s' event _before taken ih =>
      rcases effect_shared (step_effect taken) with same | ⟨t, choice, next, _, move⟩
      · rw [same]
        exact ih
      · rw [← ih]
        generalize s.location t = l at move
        generalize s'.shared = shared' at move ⊢
        cases move <;> rfl

theorem starter_running {threadNum : Nat} {s : Pool}
    (reachable : Transition.Reachable (system threadNum) s) {place : OwnerAt}
    (at_place : s.location .starter = .owner place) (active : place ≠ .waiting) :
    s.standing .starter = .running := by
  by_contra stopped
  obtain ⟨cond, next, waits⟩ := (exclusive reachable).waits _ stopped
  obtain ⟨_, waiting, _⟩ := code_wait waits
  rw [at_place] at waiting
  cases waiting
  exact active rfl

theorem starter_assertion {threadNum : Nat} {s : Pool}
    (reachable : Transition.Reachable (system threadNum) s) {place : OwnerAt}
    (at_place : s.location .starter = .owner place) (active : place ≠ .waiting) :
    ownerAssertion s.shared place := by
  have holds := (annotated reachable).running _ (starter_running reachable at_place active)
  rw [at_place] at holds
  exact holds

theorem worker_assertion {threadNum : Nat} {s : Pool}
    (reachable : Transition.Reachable (system threadNum) s) {index : Nat} {place : WorkerAt}
    (at_place : s.location (.worker index) = .worker place) :
    workerAssertion index s.shared place := by
  have holds := (annotated reachable).running _ (worker_running reachable index)
  rw [at_place] at holds
  exact holds

theorem worker_location {threadNum : Nat} {s : Pool}
    (reachable : Transition.Reachable (system threadNum) s) (index : Nat) :
    ∃ place, s.location (.worker index) = .worker place := by
  have holds := (annotated reachable).running _ (worker_running reachable index)
  cases at_place : s.location (.worker index) with
  | worker place => exact ⟨place, rfl⟩
  | owner place =>
      rw [at_place] at holds
      exact holds.elim

/-- With the loops in creation order, the loop that was just stopped is the joined thread's. -/
theorem ordered_joins {threadNum : Nat} {s : Pool}
    (reachable : Transition.Reachable (system threadNum) s)
    (ordered : s.shared.loops = List.range s.shared.loops.length) : JoinsStopped s := by
  intro index joining
  obtain ⟨_, loop, present, stopped⟩ := starter_assertion reachable joining (by simp)
  rw [ordered] at present
  obtain ⟨within, same⟩ := List.getElem?_eq_some_iff.mp present
  rw [List.getElem_range] at same
  rw [same]
  exact stopped

theorem ordered_reachable {threadNum : Nat} {s : Pool}
    (reachable : Transition.Reachable ((system threadNum).restrict InOrder) s) :
    s.shared.loops = List.range s.shared.loops.length := by
  induction reachable with
  | start begins =>
      cases begins
      rfl
  | @next s s' event _before taken ih =>
      obtain ⟨inOrder, taken⟩ := taken
      rcases effect_shared (step_effect taken) with same | ⟨t, choice, next, rfl, move⟩
      · rw [same]
        exact ih
      · generalize place : s.location t = l at move
        generalize after : s'.shared = shared' at move ⊢
        cases move with
        | @register _ index =>
            have last : s.shared.loops.length = index := inOrder place
            simp only [List.length_append, List.length_singleton, List.range_succ]
            rw [← ih, last]
        | _ => exact ih

/-! ### The loops after start -/

/-- start() has returned; the destructor may have begun. -/
def OwnerAt.late : OwnerAt → Bool
  | .started => true
  | .stopping _ => true
  | .joining _ => true
  | .destroyed => true
  | _ => false

def Late (s : Pool) : Prop :=
  ∃ place : OwnerAt, s.location .starter = .owner place ∧ place.late = true

theorem Late.complete {threadNum : Nat} {s : Pool}
    (reachable : Transition.Reachable (system threadNum) s) (late : Late s) :
    Complete s.shared := by
  obtain ⟨place, at_place, isLate⟩ := late
  have holds := starter_assertion reachable at_place (by rintro rfl; cases isLate)
  cases place <;> cases isLate
  case joining => exact holds.1
  all_goals exact holds

theorem late_step {s s' : Pool} {event : Event Thread Unit} (effect : Effect code s event s')
    (late : Late s) : Late s' := by
  obtain ⟨place, before, isLate⟩ := late
  cases event with
  | wake t =>
      cases effect with
      | wakes asleep => exact ⟨place, before, isLate⟩
  | run t choice =>
      by_cases own : t = .starter
      · subst own
        cases effect with
        | resumes woken waits free =>
            obtain ⟨_, at_place, _⟩ := code_wait waits
            rw [before] at at_place
            cases at_place
            cases isLate
        | locks running locks free =>
            rcases code_lock locks with ⟨_, at_place, _⟩ | ⟨_, impossible, _⟩
            · rw [before] at at_place
              cases at_place
              cases isLate
            · cases impossible
        | unlocks running unlocks owned =>
            rcases code_unlock unlocks with ⟨_, at_place, _⟩ | ⟨_, impossible, _⟩
            · rw [before] at at_place
              cases at_place
              cases isLate
            · cases impossible
        | waits running waits owned => exact ⟨place, before, isLate⟩
        | notifies running notifies =>
            obtain ⟨_, impossible, _⟩ := code_notifyAll notifies
            cases impossible
        | acts running acts result =>
            have move := moves acts result
            rw [before] at move
            generalize s.shared = shared at move
            cases move <;> cases isLate
            all_goals exact ⟨_, by simp [State.moveTo]; rfl, rfl⟩
      · have stays := (effect.others (Ne.symm own)).1
        exact ⟨place, stays.trans before, isLate⟩

theorem late_loops {threadNum : Nat} {s s' : Pool}
    (reachable : Transition.Reachable (system threadNum) s) (late : Late s)
    (later : Transition.Reachable ((system threadNum).startingAt s) s') :
    Late s' ∧ s'.shared.loops = s.shared.loops := by
  induction later with
  | start begins =>
      cases begins
      exact ⟨late, rfl⟩
  | @next s₁ s₂ event before taken ih =>
      obtain ⟨lateNow, same⟩ := ih
      have now := reachable.trans before
      have effect := step_effect taken
      refine ⟨late_step effect lateNow, ?_⟩
      rw [← same]
      rcases effect_shared effect with unchanged | ⟨t, choice, next, _, move⟩
      · rw [unchanged]
      · generalize place : s₁.location t = l at move
        generalize after : s₂.shared = shared' at move ⊢
        cases move with
        | register =>
            obtain ⟨fresh, created, _⟩ := worker_assertion now place
            exact absurd ((lateNow.complete now).member created) fresh
        | _ => rfl

/-! ### Out of order -/

/-- The destructor is about to stop the loop at position `index`, and no thread
from there on was asked to stop. -/
structure Ready (s : Pool) (index : Nat) : Prop where
  stopping : s.location .starter = .owner (.stopping index)
  going : ∀ later, index ≤ later → s.shared.stopped later = false
  active : ∀ later, index ≤ later → later ∈ s.shared.loops →
    s.location (.worker later) = .worker .unlocking ∨
      s.location (.worker later) = .worker .notifying ∨
        s.location (.worker later) = .worker .looping

variable {threadNum : Nat} {s : Pool}

theorem started_ready (reachable : Transition.Reachable (system threadNum) s)
    (started : Started s) :
    ∃ s', Transition.Reachable ((system threadNum).startingAt s) s' ∧ Ready s' 0 := by
  have begins : Transition.Reachable ((system threadNum).startingAt s) s := .start rfl
  have clean := untouched reachable ⟨_, started, rfl⟩
  have runs := starter_running reachable started (by simp)
  have taken : step code s (.run .starter ()) =
      some (s.moveTo .starter (.owner (.stopping 0))) := by
    have at_started : s.location .starter = .owner .started := started
    simp only [step, runs, at_started, code, owner, Option.map_some]
    rfl
  refine ⟨_, begins.next taken, ?_⟩
  constructor
  · simp
  · exact fun later _ => clean.stopped later
  · intro later _ registered
    rw [State.moveTo_other _ _ (by simp)]
    obtain ⟨place, at_place⟩ := worker_location reachable later
    have holds := worker_assertion reachable at_place
    have alive := clean.alive later
    rw [at_place] at alive ⊢
    cases place
    case unborn => exact absurd registered holds
    case constructing | locking | registering => exact absurd registered holds.1
    case exited => exact absurd rfl alive
    all_goals simp

/-- A thread that has registered its loop gets to run it. -/
theorem gets_to_loop (reachable : Transition.Reachable (system threadNum) s) {index : Nat}
    (active : s.location (.worker index) = .worker .unlocking ∨
      s.location (.worker index) = .worker .notifying ∨
        s.location (.worker index) = .worker .looping) :
    ∃ s', Transition.Reachable ((system threadNum).startingAt s) s' ∧ s'.shared = s.shared ∧
      s'.location = Function.update s.location (.worker index) (.worker .looping) := by
  have begins : Transition.Reachable ((system threadNum).startingAt s) s := .start rfl
  rcases active with unlocking | notifying | looping
  · have runs := worker_running reachable index
    have owned : s.owner = some (.worker index) := by
      rw [(exclusive reachable).holds, unlocking]
      exact ⟨runs, trivial⟩
    let s₁ : Pool := { s.moveTo (.worker index) (.worker .notifying) with owner := none }
    have unlocks : step code s (.run (.worker index) ()) = some s₁ := by
      simp [step, runs, unlocking, code, worker, owned, s₁]
    have notifies : step code s₁ (.run (.worker index) ()) =
        some ((s₁.notify ()).moveTo (.worker index) (.worker .looping)) := by
      have runs₁ : s₁.standing (.worker index) = .running := runs
      have at₁ : s₁.location (.worker index) = .worker .notifying := by simp [s₁, State.moveTo]
      simp [step, runs₁, at₁, code, worker]
    refine ⟨_, (begins.next unlocks).next notifies, rfl, ?_⟩
    simp [s₁, State.moveTo, State.notify]
  · have runs := worker_running reachable index
    have notifies : step code s (.run (.worker index) ()) =
        some ((s.notify ()).moveTo (.worker index) (.worker .looping)) := by
      simp [step, runs, notifying, code, worker]
    exact ⟨_, begins.next notifies, rfl, rfl⟩
  · refine ⟨s, begins, rfl, ?_⟩
    rw [← looping, Function.update_eq_self]

/-- If the destructor never joins a running loop, the next position holds the loop
of its own thread, and the destructor gets past it. -/
theorem ready_next (reachable : Transition.Reachable (system threadNum) s) {index : Nat}
    (ready : Ready s index) (within : index < s.shared.loops.length)
    (joins : ∀ s', Transition.Reachable ((system threadNum).startingAt s) s' → JoinsStopped s') :
    s.shared.loops[index]? = some index ∧
      ∃ s', Transition.Reachable ((system threadNum).startingAt s) s' ∧ Ready s' (index + 1) := by
  have begins : Transition.Reachable ((system threadNum).startingAt s) s := .start rfl
  have runs := starter_running reachable ready.stopping (by simp)
  have present : s.shared.loops[index]? = some s.shared.loops[index] :=
    List.getElem?_eq_getElem within
  -- stop, then the loop that was stopped must be the one to be joined
  let stopped := Function.update s.shared.stopped s.shared.loops[index] true
  let s₁ : Pool := { s.moveTo .starter (.owner (.joining index)) with
    shared := { s.shared with stopped := stopped } }
  have stops : step code s (.run .starter ()) = some s₁ := by
    simp only [step, runs, ready.stopping, code, owner, present, Option.map_some]
    rfl
  have toJoin : Transition.Reachable ((system threadNum).startingAt s) s₁ := begins.next stops
  have asked : stopped index = true := joins s₁ toJoin index (by simp [s₁, State.moveTo])
  have same : s.shared.loops[index] = index := by
    by_contra different
    simp only [stopped, Function.update_of_ne (Ne.symm different)] at asked
    rw [ready.going index (Nat.le_refl _)] at asked
    cases asked
  refine ⟨present.trans (congrArg some same), ?_⟩
  have member : index ∈ s.shared.loops := by
    have listed := List.getElem_mem within
    rwa [same] at listed
  -- the thread runs its loop, sees the stop and ends
  have active := ready.active index (Nat.le_refl _) member
  have active₁ : s₁.location (.worker index) = .worker .unlocking ∨
      s₁.location (.worker index) = .worker .notifying ∨
        s₁.location (.worker index) = .worker .looping := by
    simpa [s₁, State.moveTo] using active
  obtain ⟨s₂, toLoop, shared₂, location₂⟩ := gets_to_loop (reachable.trans toJoin) active₁
  have to₂ : Transition.Reachable ((system threadNum).startingAt s) s₂ := toJoin.trans toLoop
  have asked₂ : s₂.shared.stopped index = true := by
    rw [shared₂]
    exact asked
  let s₃ : Pool := { s₂.moveTo (.worker index) (.worker .exited) with
    shared := { s₂.shared with exited := Function.update s₂.shared.exited index true } }
  have ends : step code s₂ (.run (.worker index) ()) = some s₃ := by
    have runs₂ := worker_running (reachable.trans to₂) index
    simp only [step, runs₂, location₂, Function.update_self, code, worker, asked₂, if_true,
      Option.map_some]
    rfl
  have to₃ := to₂.next ends
  -- and the destructor joins it
  have joins₃ : s₃.location .starter = .owner (.joining index) := by
    simp [s₃, State.moveTo, location₂, s₁]
  have exited₃ : s₃.shared.exited index = true := Function.update_self ..
  have joined : step code s₃ (.run .starter ()) =
      some (s₃.moveTo .starter (.owner (.stopping (index + 1)))) := by
    have runs₃ := starter_running (reachable.trans to₃) joins₃ (by simp)
    simp only [step, runs₃, joins₃, code, owner, exited₃, if_true, Option.map_some]
    rfl
  refine ⟨_, to₃.next joined, ?_⟩
  constructor
  · simp
  · intro later above
    have distinct : later ≠ index := Nat.ne_of_gt above
    have going := ready.going later (Nat.le_of_succ_le above)
    simpa [s₃, State.moveTo, shared₂, s₁, stopped, same, distinct] using going
  · intro later above registered
    have distinct : later ≠ index := Nat.ne_of_gt above
    have listed : later ∈ s.shared.loops := by
      simpa [s₃, State.moveTo, shared₂, s₁] using registered
    simpa [s₃, State.moveTo, location₂, s₁, distinct] using
      ready.active later (Nat.le_of_succ_le above) listed

theorem joins_in_order (reachable : Transition.Reachable (system threadNum) s)
    (started : Started s)
    (joins : ∀ s', Transition.Reachable ((system threadNum).startingAt s) s' → JoinsStopped s')
    {count : Nat} (within : count ≤ s.shared.loops.length) :
    (∀ index, index < count → s.shared.loops[index]? = some index) ∧
      ∃ s', Transition.Reachable ((system threadNum).startingAt s) s' ∧ Ready s' count := by
  have late : Late s := ⟨_, started, rfl⟩
  induction count with
  | zero => exact ⟨by simp, started_ready reachable started⟩
  | succ count ih =>
      obtain ⟨earlier, s₁, reached, ready⟩ := ih (Nat.le_of_succ_le within)
      have same := (late_loops reachable late reached).2
      obtain ⟨own, s₂, further, ready₂⟩ := ready_next (reachable.trans reached) ready
        (by rw [same]; exact within) (fun s' after => joins s' (reached.trans after))
      constructor
      · intro index below
        rcases Nat.lt_succ_iff_lt_or_eq.mp below with less | rfl
        · exact earlier index less
        · rw [← same]
          exact own
      · exact ⟨s₂, reached.trans further, ready₂⟩

/-! ### The destructor -/

/-- In runs that register in creation order the destructor only joins threads whose
loop was asked to stop.  After start() has returned, it does so in every
continuation if and only if the loops are in creation order. -/
theorem destructor_joins_stopped (threadNum : Nat) :
    (∀ s, Transition.Reachable ((system threadNum).restrict InOrder) s → JoinsStopped s) ∧
      ∀ s, Transition.Reachable (system threadNum) s → Started s →
        ((∀ s', Transition.Reachable ((system threadNum).startingAt s) s' → JoinsStopped s') ↔
          s.shared.loops = List.range threadNum) := by
  constructor
  · intro s reachable
    exact ordered_joins reachable.of_restrict (ordered_reachable reachable)
  · intro s reachable started
    have late : Late s := ⟨_, started, rfl⟩
    have count : s.shared.loops.length = threadNum := by
      rw [(late.complete reachable).registered.length_eq, List.length_range,
        threadNum_eq reachable]
    constructor
    · intro joins
      have inOrder := (joins_in_order reachable started joins (Nat.le_refl _)).1
      apply List.ext_getElem?
      intro index
      by_cases below : index < threadNum
      · rw [inOrder index (by rw [count]; exact below), List.getElem?_range below]
      · rw [List.getElem?_eq_none (by omega), List.getElem?_eq_none (by simp; omega)]
    · intro ordered s' later
      have same := (late_loops reachable late later).2
      apply ordered_joins (reachable.trans later)
      rw [same, count]
      exact ordered

/-- What the starter does up to the wait, the two workers in one order, and the
starter to the end of start(). -/
def startTwo (first second : Nat) : List (Event Thread Unit) :=
  List.replicate 3 (.run .starter ()) ++ List.replicate 6 (.run (.worker first) ()) ++
    List.replicate 6 (.run (.worker second) ()) ++ List.replicate 3 (.run .starter ())

theorem destructor_joins_stopped_two :
    ∃ s, Transition.Reachable (system 2) s ∧ Started s ∧
      ∀ s', Transition.Reachable ((system 2).startingAt s) s' → JoinsStopped s' := by
  have found : ∃ s ∈ Transition.execute (step code) (new 2) (startTwo 0 1),
      s.location .starter = .owner .started ∧ s.shared.loops = [0, 1] := by
    decide
  obtain ⟨s, reachable, started, ordered⟩ := Transition.exists_reachable found
  exact ⟨s, reachable, started, ((destructor_joins_stopped 2).2 s reachable started).mpr ordered⟩

/-- The second thread registers its loop first: the destructor stops that loop and
joins the first thread. -/
theorem destructor_joins_running :
    ∃ s, Transition.Reachable (system 2) s ∧ ¬ JoinsStopped s := by
  have found : ∃ s ∈ Transition.execute (step code) (new 2)
      (startTwo 1 0 ++ List.replicate 2 (.run .starter ())),
      s.location .starter = .owner (.joining 0) ∧ s.shared.stopped 0 = false := by
    decide
  obtain ⟨s, reachable, joining, going⟩ := Transition.exists_reachable found
  refine ⟨s, reachable, fun joins => ?_⟩
  rw [joins 0 joining] at going
  cases going

end Uvcpp.EventLoopThreadPool
