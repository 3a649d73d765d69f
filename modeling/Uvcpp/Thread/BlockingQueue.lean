/-
BlockingQueue.h: put, take and poll as a program over a monitor.

put notifies after it has given the mutex back.  The timed wait of poll returns with
the mutex and a status, which says timeout whenever the time is over by then; how long
a thread was away is up to the scheduler, and so is the status.
-/

import Uvcpp.Library.MonitorRules

namespace Uvcpp.BlockingQueue

open Monitor

variable {Thread Elem : Type}

inductive Call (Elem : Type) where
  | put (elem : Elem)
  | take
  | poll
deriving DecidableEq

/-- What the scheduler decides: the call a thread makes, or the status of its timed
wait. -/
inductive Choice (Elem : Type) where
  | call (call : Call Elem)
  | status (timeout : Bool)
deriving DecidableEq

structure Shared (Elem : Type) where
  queue : List Elem

def Shared.new : Shared Elem :=
  { queue := [] }

namespace Shared

/-- `queue_.push(elem)`. -/
def push (sh : Shared Elem) (elem : Elem) : Shared Elem :=
  { sh with queue := sh.queue ++ [elem] }

/-- `queue_.front()` and `queue_.pop()`. -/
def pop (sh : Shared Elem) : Option (Elem × Shared Elem) :=
  match sh.queue with
  | [] => none
  | elem :: rest => some (elem, { sh with queue := rest })

end Shared

/-- `timed` says whether the consumer is poll; who leaves returns `result`, with `none` for
the false of poll. -/
inductive Local (Elem : Type) where
  | outside
  | entering (elem : Elem)
  | pushing (elem : Elem)
  | releasing
  | notifying
  | locking (timed : Bool)
  | testing (timed : Bool)
  | waiting (timed : Bool)
  | judging
  | popping
  | leaving (result : Option Elem)
deriving DecidableEq

def code (_ : Thread) : Local Elem → Instr Unit (Shared Elem) (Local Elem) (Choice Elem)
  | .outside => .act fun choice sh =>
      match choice with
      | .call (.put elem) => some (sh, .entering elem)
      | .call .take => some (sh, .locking false)
      | .call .poll => some (sh, .locking true)
      | .status _ => none
  | .entering elem => .lock (.pushing elem)
  | .pushing elem => .act fun _ sh => some (sh.push elem, .releasing)
  | .releasing => .unlock .notifying
  | .notifying => .notifyAll () .outside
  | .locking timed => .lock (.testing timed)
  | .testing timed => .act fun _ sh =>
      some (sh, if sh.queue.isEmpty then .waiting timed else .popping)
  | .waiting timed => .wait () (if timed then .judging else .testing false)
  | .judging => .act fun choice sh =>
      match choice with
      | .status true => some (sh, .leaving none)
      | .status false => some (sh, .testing true)
      | .call _ => none
  | .popping => .act fun _ sh => sh.pop.map fun popped => (popped.2, .leaving (some popped.1))
  | .leaving _ => .unlock .outside

def new : State Thread Unit (Shared Elem) (Local Elem) :=
  { owner := none
    standing := fun _ => .running
    location := fun _ => .outside
    shared := .new }

def program (Thread Elem : Type) [DecidableEq Thread] :
    Transition.System (State Thread Unit (Shared Elem) (Local Elem))
      (Event Thread (Choice Elem)) :=
  system code (fun s => s = new)

/-! ### Deeds -/

/-- What a thread does to the queue, in the order of the critical sections. -/
inductive Deed (Elem : Type) where
  | put (elem : Elem)
  | returned (result : Option Elem)
deriving DecidableEq

/-- The elements that the calls of put were given, in order. -/
def puts (deeds : List (Deed Elem)) : List Elem :=
  deeds.filterMap fun deed =>
    match deed with
    | .put elem => some elem
    | .returned _ => none

/-- The elements that the calls of take and poll return, in order. -/
def returns (deeds : List (Deed Elem)) : List Elem :=
  deeds.filterMap fun deed =>
    match deed with
    | .put _ => none
    | .returned result => result

/-- A put is through with its `elem`, or a consumer comes to its return. -/
def Local.does (l next : Local Elem) : List (Deed Elem) :=
  match l, next with
  | .pushing elem, .releasing => [.put elem]
  | _, .leaving result => [.returned result]
  | _, _ => []

def does (s : State Thread Unit (Shared Elem) (Local Elem)) (event : Event Thread (Choice Elem))
    (s' : State Thread Unit (Shared Elem) (Local Elem)) : List (Deed Elem) :=
  match event with
  | .run t _ => (s.location t).does (s'.location t)
  | .wake _ => []

/-- The program with what its threads have done. -/
def recordedProgram (Thread Elem : Type) [DecidableEq Thread] :
    Transition.System (State Thread Unit (Shared Elem) (Local Elem) × List (Deed Elem))
      (Event Thread (Choice Elem)) :=
  Transition.System.executed (fun r => r = (new, [])) (Transition.recorded does (step code))

/-! ### Actions -/

inductive Moves : Local Elem → Shared Elem → Shared Elem → Local Elem → Prop where
  | put {sh : Shared Elem} {elem : Elem} : Moves .outside sh sh (.entering elem)
  | consume {sh : Shared Elem} {timed : Bool} : Moves .outside sh sh (.locking timed)
  | push {sh : Shared Elem} {elem : Elem} : Moves (.pushing elem) sh (sh.push elem) .releasing
  | blocks {sh : Shared Elem} {timed : Bool} (empty : sh.queue = []) :
      Moves (.testing timed) sh sh (.waiting timed)
  | serves {sh : Shared Elem} {timed : Bool} (filled : sh.queue ≠ []) :
      Moves (.testing timed) sh sh .popping
  | expires {sh : Shared Elem} : Moves .judging sh sh (.leaving none)
  | retries {sh : Shared Elem} : Moves .judging sh sh (.testing true)
  | pop {sh : Shared Elem} {elem : Elem} {rest : List Elem} (front : sh.queue = elem :: rest) :
      Moves .popping sh { sh with queue := rest } (.leaving (some elem))

theorem moves {t : Thread} {l next : Local Elem}
    {action : Choice Elem → Shared Elem → Option (Shared Elem × Local Elem)}
    {choice : Choice Elem} {sh sh' : Shared Elem} (acts : code t l = .act action)
    (result : action choice sh = some (sh', next)) : Moves l sh sh' next := by
  cases l <;> cases acts
  all_goals (try dsimp only at result)
  case outside =>
    split at result
    · cases result
      exact .put
    · cases result
      exact .consume
    · cases result
      exact .consume
    · cases result
  case pushing elem =>
    cases result
    exact .push
  case testing timed =>
    by_cases empty : sh.queue = []
    · simp only [empty, List.isEmpty_nil, if_true] at result
      cases result
      exact .blocks empty
    · simp only [List.isEmpty_iff, empty, if_false] at result
      cases result
      exact .serves empty
  case judging =>
    split at result
    · cases result
      exact .expires
    · cases result
      exact .retries
    · cases result
  case popping =>
    obtain ⟨⟨elem, after⟩, popped, same⟩ := Option.map_eq_some_iff.mp result
    cases same
    unfold Shared.pop at popped
    split at popped
    · cases popped
    · cases popped
      exact .pop ‹_›

/-- Only a timeout leads to the return of false. -/
theorem Moves.gives_up {l next : Local Elem} {sh sh' : Shared Elem} (move : Moves l sh sh' next)
    (here : next = .leaving none) : sh'.queue = sh.queue := by
  cases move with
  | expires => rfl
  | _ => cases here

theorem expires {t : Thread} {l : Local Elem}
    {action : Choice Elem → Shared Elem → Option (Shared Elem × Local Elem)}
    {choice : Choice Elem} {sh sh' : Shared Elem} (acts : code t l = .act action)
    (result : action choice sh = some (sh', .leaving none)) :
    l = .judging ∧ choice = .status true := by
  have move := moves acts result
  generalize here : (Local.leaving none : Local Elem) = next at move
  cases move with
  | expires =>
      cases acts
      dsimp only at result
      split at result
      · exact ⟨rfl, rfl⟩
      · simp at result
      · cases result
  | _ => cases here

def inside (_ : Thread) : Local Elem → Prop
  | .outside => False
  | .entering _ => False
  | .notifying => False
  | .locking _ => False
  | _ => True

theorem Moves.outside {t : Thread} {l next : Local Elem} {sh sh' : Shared Elem}
    (move : Moves l sh sh' next) (apart : ¬ inside t l) : sh' = sh := by
  cases move with
  | put => rfl
  | consume => rfl
  | _ => exact absurd trivial apart

theorem locking : Locking (@code Thread Elem) inside := by
  constructor
  · intro t l next same
    cases l <;> cases same
    all_goals exact ⟨id, trivial⟩
  · intro t l next same
    cases l <;> cases same
    all_goals exact ⟨trivial, id⟩
  · intro t l cond next same
    cases l <;> cases same
    rename_i timed
    cases timed <;> exact ⟨trivial, trivial⟩
  · intro t l cond next same
    cases l <;> cases same
    exact Iff.rfl
  · intro t l action choice sh sh' next acts result
    cases moves acts result <;> exact Iff.rfl

/-! ### What a run keeps -/

/-- Between its test and its wait a consumer has the mutex and the queue is empty. -/
def assertion (_ : Thread) (l : Local Elem) (sh : Shared Elem) : Prop :=
  match l with
  | .waiting _ => sh.queue = []
  | _ => True

theorem outline : Outline (@code Thread Elem) inside (fun _ => True) assertion
    (fun _ _ _ => True) := by
  constructor
  · intro t l next sh same _free _holds
    cases l <;> cases same
    all_goals trivial
  · intro t l next sh same _holds
    cases l <;> cases same
    all_goals exact ⟨trivial, trivial⟩
  · intro t l cond next sh _same _holds
    exact ⟨trivial, trivial⟩
  · intro t l cond next sh same _free _rests
    cases l <;> cases same
    rename_i timed
    cases timed <;> trivial
  · intro t l cond next sh same _holds
    cases l <;> cases same
    trivial
  · intro t l action choice sh sh' next acts result _holds
    refine ⟨?_, fun _ _ => trivial⟩
    cases moves acts result with
    | blocks empty => exact empty
    | _ => trivial
  · intro t l action choice sh sh' next acts result _holds u k _other apart keeps
    cases k
    case waiting timed =>
      cases moves acts result with
      | push => exact absurd ⟨trivial, trivial⟩ apart
      | pop front => exact absurd ⟨trivial, trivial⟩ apart
      | _ => exact keeps
    all_goals trivial
  · intro t l action choice sh sh' next _acts _result _holds u k _other _rests
    trivial

/-- The elements returned, then those in the queue, are those that were put. -/
def InOrder (deeds : List (Deed Elem)) (sh : Shared Elem) : Prop :=
  returns deeds ++ sh.queue = puts deeds

theorem Moves.inOrder {l next : Local Elem} {sh sh' : Shared Elem} {deeds : List (Deed Elem)}
    (move : Moves l sh sh' next) (ordered : InOrder deeds sh) :
    InOrder (deeds ++ l.does next) sh' := by
  unfold InOrder at *
  cases move with
  | @push _ elem =>
      have put : puts (deeds ++ [.put elem]) = puts deeds ++ [elem] := by simp [puts]
      have same : returns (deeds ++ [.put elem]) = returns deeds := by simp [returns]
      simp only [Local.does, Shared.push]
      rw [put, same, ← ordered, List.append_assoc]
  | expires => simpa [Local.does, puts, returns] using ordered
  | pop front => simpa [Local.does, puts, returns, front] using ordered
  | _ => simpa [Local.does] using ordered

/-- What put still owes to the sleepers. -/
def owes (_ : Thread) : Local Elem → Prop
  | .releasing => True
  | .notifying => True
  | _ => False

/-- A poll that returns false has found the queue empty. -/
def Honest (s : State Thread Unit (Shared Elem) (Local Elem)) : Prop :=
  ∀ t, s.location t = .leaving none → s.shared.queue = []

section Reachable

variable [DecidableEq Thread] {s s' : State Thread Unit (Shared Elem) (Local Elem)}

theorem exclusive (reachable : Transition.Reachable (program Thread Elem) s) :
    Exclusive code inside s := by
  apply locking.exclusive _ reachable
  rintro s rfl
  exact .fresh ⟨rfl, fun _ => rfl⟩ fun _ => id

theorem annotated (reachable : Transition.Reachable (program Thread Elem) s) :
    Annotated (fun _ => True) assertion (fun _ _ _ => True) s := by
  apply outline.annotated locking _ reachable
  rintro s rfl
  refine ⟨.fresh ⟨rfl, fun _ => rfl⟩ fun _ => id, ?_⟩
  exact ⟨fun _ => trivial, fun _ _ => trivial, fun _ _ => trivial⟩

omit [DecidableEq Thread] in
theorem signals (annotated : Annotated (fun _ => True) assertion (fun _ _ _ => True) s) :
    LateSignals code () (fun sh => sh.queue ≠ []) owes s := by
  constructor
  · intro t next _owned running same filled
    have holds := annotated.running t running
    cases place : s.location t <;> rw [place] at same holds <;> cases same
    exact absurd holds filled
  · intro t l next same debt
    cases l <;> cases same <;> exact debt
  · intro t l next same debt
    cases l <;> cases same <;> trivial
  · intro t l other next same debt
    cases l <;> cases same
    exact debt
  · intro t l other next _same apart
    exact absurd rfl apart
  · intro t l action choice sh sh' next acts result
    cases moves acts result with
    | push => exact ⟨fun debt => absurd debt id, fun _ => .inr trivial⟩
    | pop front => exact ⟨fun debt => absurd debt id, fun _ => .inl (by simp [front])⟩
    | _ => exact ⟨fun debt => absurd debt id, fun filled => .inl filled⟩

theorem reachable_attended (reachable : Transition.Reachable (program Thread Elem) s) :
    Attended () (fun sh => sh.queue ≠ []) owes s := by
  induction reachable with
  | start begins =>
      cases begins
      intro t asleep
      cases asleep
  | next before taken ih =>
      exact (signals (annotated before)).attended (step_effect taken) ih

/-- Nothing is done by taking or giving back the mutex, waiting and notifying. -/
theorem inOrder_step {event : Event Thread (Choice Elem)} {deeds : List (Deed Elem)}
    (effect : Effect code s event s') (ordered : InOrder deeds s.shared) :
    InOrder (deeds ++ does s event s') s'.shared := by
  have quiet : does s event s' = [] → s'.shared = s.shared →
      InOrder (deeds ++ does s event s') s'.shared := by
    intro nothing same
    rwa [nothing, List.append_nil, same]
  cases effect with
  | wakes asleep => exact quiet rfl rfl
  | @resumes t choice cond next woken same free =>
      refine quiet ?_ rfl
      cases place : s.location t <;> rw [place] at same <;> cases same
      rename_i timed
      cases timed <;> simp [does, Local.does, place, State.moveTo, State.stand]
  | @locks t choice next running same free =>
      refine quiet ?_ rfl
      cases place : s.location t <;> rw [place] at same <;> cases same
      all_goals simp [does, Local.does, place, State.moveTo]
  | @unlocks t choice next running same owned =>
      refine quiet ?_ rfl
      cases place : s.location t <;> rw [place] at same <;> cases same
      all_goals simp [does, Local.does, place, State.moveTo]
  | @waits t choice cond next running same owned =>
      refine quiet ?_ rfl
      cases place : s.location t <;> rw [place] at same <;> cases same
      simp [does, Local.does, place, State.stand]
  | @notifies t choice cond next running same =>
      refine quiet ?_ rfl
      cases place : s.location t <;> rw [place] at same <;> cases same
      simp [does, Local.does, place, State.moveTo]
  | @acts t choice run shared next running acting result =>
      have done : does s (.run t choice) { s.moveTo t next with shared := shared } =
          (s.location t).does next := by
        simp [does, State.moveTo]
      rw [done]
      exact (moves acting result).inOrder ordered

theorem recorded_inOrder {r : State Thread Unit (Shared Elem) (Local Elem) × List (Deed Elem)}
    (reachable : Transition.Reachable (recordedProgram Thread Elem) r) :
    InOrder r.2 r.1.shared := by
  induction reachable with
  | start begins =>
      cases begins
      rfl
  | next _before taken ih =>
      obtain ⟨moved, recorded⟩ := Transition.recorded_taken taken
      rw [recorded]
      exact inOrder_step (step_effect moved) ih

omit [DecidableEq Thread] in
/-- A thread that is about to return has the mutex. -/
theorem leaving_owner (exclusive : Exclusive code inside s) {t : Thread}
    {result : Option Elem} (place : s.location t = .leaving result) : s.owner = some t := by
  apply (exclusive.holds t).mpr
  constructor
  · by_contra stopped
    obtain ⟨cond, next, waits⟩ := exclusive.waits t stopped
    rw [place] at waits
    cases waits
  · rw [place]
    trivial

theorem Honest.moveTo {t : Thread} {next : Local Elem} (honest : Honest s)
    (other : next ≠ .leaving none) : Honest (s.moveTo t next) := by
  intro u place
  by_cases same : u = t
  · subst same
    rw [State.moveTo_self] at place
    exact absurd place other
  · rw [s.moveTo_other next same] at place
    exact honest u place

theorem honest_acts {t : Thread} {next : Local Elem} {shared : Shared Elem}
    (exclusive : Exclusive code inside s) (honest : Honest s)
    (running : s.standing t = .running) (move : Moves (s.location t) s.shared shared next)
    (expires : next = .leaving none → s.shared.queue = []) :
    Honest { s.moveTo t next with shared := shared } := by
  intro u place
  by_cases same : u = t
  · subst same
    have here : next = .leaving none := by simpa [State.moveTo] using place
    rw [move.gives_up here]
    exact expires here
  · have there : s.location u = .leaving none := by simpa [State.moveTo, same] using place
    have apart : ¬ inside t (s.location t) := by
      intro within
      have owned := (exclusive.holds t).mpr ⟨running, within⟩
      rw [leaving_owner exclusive there] at owned
      exact same (Option.some.inj owned)
    rw [move.outside apart]
    exact honest u there

/-- A timed wait that ends with a timeout finds the queue empty. -/
def ExpiresEmpty (s : State Thread Unit (Shared Elem) (Local Elem)) :
    Event Thread (Choice Elem) → Prop
  | .run t (.status true) => s.location t = .judging → s.shared.queue = []
  | _ => True

theorem honest_step {event : Event Thread (Choice Elem)}
    (effect : Effect code s event s') (exclusive : Exclusive code inside s) (honest : Honest s)
    (expires : ExpiresEmpty s event) : Honest s' := by
  cases effect with
  | wakes asleep => exact honest
  | @resumes t choice cond next woken same free =>
      apply Honest.moveTo honest
      cases place : s.location t <;> rw [place] at same <;> cases same
      rename_i timed
      cases timed <;> exact nofun
  | @locks t choice next running same free =>
      apply Honest.moveTo honest
      cases place : s.location t <;> rw [place] at same <;> cases same <;> exact nofun
  | @unlocks t choice next running same owned =>
      apply Honest.moveTo honest
      cases place : s.location t <;> rw [place] at same <;> cases same <;> exact nofun
  | waits running same owned => exact honest
  | @notifies t choice cond next running same =>
      apply Honest.moveTo honest
      cases place : s.location t <;> rw [place] at same <;> cases same
      exact nofun
  | @acts t choice run shared next running acting result =>
      apply honest_acts exclusive honest running (moves acting result)
      rintro rfl
      obtain ⟨judging, rfl⟩ := BlockingQueue.expires acting result
      exact expires judging

/-- What take and poll have returned and what the queue holds is what was put, in order;
nobody sleeps on elements unless a put has still to notify; and poll returns false only
when there is nothing. -/
structure Delivers (s : State Thread Unit (Shared Elem) (Local Elem))
    (deeds : List (Deed Elem)) : Prop where
  inOrder : InOrder deeds s.shared
  attended : Attended () (fun sh => sh.queue ≠ []) owes s
  honest : Honest s

/-- The runs in which no timed wait ends with a timeout while there are elements. -/
def recordedExpiring (Thread Elem : Type) [DecidableEq Thread] :
    Transition.System (State Thread Unit (Shared Elem) (Local Elem) × List (Deed Elem))
      (Event Thread (Choice Elem)) :=
  (recordedProgram Thread Elem).restrict fun r event => ExpiresEmpty r.1 event

theorem recorded_honest {r : State Thread Unit (Shared Elem) (Local Elem) × List (Deed Elem)}
    (reachable : Transition.Reachable (recordedExpiring Thread Elem) r) : Honest r.1 := by
  induction reachable with
  | start begins =>
      cases begins
      exact fun _ => nofun
  | next before taken ih =>
      obtain ⟨expires, taken⟩ := taken
      have moved := (Transition.recorded_taken taken).1
      exact honest_step (step_effect moved) (exclusive before.of_restrict.of_recorded) ih expires

/-- A timeout with elements in the queue makes poll return false in spite of them. -/
theorem expiresEmpty_of_honest {event : Event Thread (Choice Elem)}
    (effect : Effect code s event s') (honest : Honest s') : ExpiresEmpty s event := by
  unfold ExpiresEmpty
  split
  · intro judging
    cases effect with
    | @acts t choice run shared next running acting result =>
        rw [judging] at acting
        cases acting
        cases result
        exact honest _ (s.moveTo_self _ _)
    | resumes woken same free => rw [judging] at same; cases same
    | locks running same free => rw [judging] at same; cases same
    | unlocks running same owned => rw [judging] at same; cases same
    | waits running same owned => rw [judging] at same; cases same
    | notifies running same => rw [judging] at same; cases same
  · trivial

theorem recorded_delivers {r : State Thread Unit (Shared Elem) (Local Elem) × List (Deed Elem)}
    (reachable : Transition.Reachable (recordedExpiring Thread Elem) r) : Delivers r.1 r.2 := by
  constructor
  · exact recorded_inOrder reachable.of_restrict
  · exact reachable_attended reachable.of_restrict.of_recorded
  · exact recorded_honest reachable

/-- In runs in which no timed wait ends with a timeout while there are elements, put, take
and poll deliver; and any other step breaks this. -/
theorem delivers_iff_expires_empty (Thread Elem : Type) [DecidableEq Thread]
    (s : State Thread Unit (Shared Elem) (Local Elem)) (deeds : List (Deed Elem))
    (reachable : Transition.Reachable (recordedExpiring Thread Elem) (s, deeds)) :
    Delivers s deeds ∧ ∀ event s', step code s event = some s' →
      (Delivers s' (deeds ++ does s event s') ↔ ExpiresEmpty s event) := by
  refine ⟨recorded_delivers reachable, fun event s' taken => ?_⟩
  constructor
  · intro after
    exact expiresEmpty_of_honest (step_effect taken) after.honest
  · intro expires
    have recorded : Transition.recorded does (step code) (s, deeds) event =
        some (s', deeds ++ does s event s') := by
      simp only [Transition.recorded, taken, Option.map_some]
    exact recorded_delivers (reachable.next ⟨expires, recorded⟩)

end Reachable

/-- A poll finds nothing and gives up, a put, and a take of its element. -/
def pollsThenTakes : List (Event Nat (Choice Nat)) :=
  [.run 0 (.call .poll)] ++ List.replicate 3 (.run 0 (.status false)) ++
    [.wake 0, .run 0 (.status false), .run 0 (.status true), .run 0 (.status false),
      .run 1 (.call (.put 7))] ++ List.replicate 4 (.run 1 (.status false)) ++
    [.run 0 (.call .take)] ++ List.replicate 4 (.run 0 (.status false))

/-- No timeout with elements in the queue. -/
def expiresOnEmpty (r : State Nat Unit (Shared Nat) (Local Nat) × List (Deed Nat)) :
    Event Nat (Choice Nat) → Bool
  | .run _ (.status true) => r.1.shared.queue = []
  | _ => true

theorem expiresEmpty_of_check
    {r : State Nat Unit (Shared Nat) (Local Nat) × List (Deed Nat)}
    {event : Event Nat (Choice Nat)} (checked : expiresOnEmpty r event = true) :
    ExpiresEmpty r.1 event := by
  unfold ExpiresEmpty
  split
  · intro _judging
    exact of_decide_eq_true checked
  · trivial

theorem delivers_iff_expires_empty_polls_then_takes :
    ∃ s deeds, Transition.Reachable (recordedExpiring Nat Nat) (s, deeds) ∧
      deeds = [.returned none, .put 7, .returned (some 7)] ∧ s.location 0 = .outside ∧
        s.shared.queue = [] ∧ Delivers s deeds := by
  have found : ∃ r ∈ Transition.execute
      (Transition.checked expiresOnEmpty (Transition.recorded does (step code))) (new, [])
      pollsThenTakes, r.2 = [.returned none, .put 7, .returned (some 7)] ∧
        r.1.location 0 = .outside ∧ r.1.shared.queue = [] := by
    decide
  obtain ⟨⟨s, deeds⟩, within, record, back, empty⟩ :=
    Transition.exists_reachable_within (fun _ _ _ checked => expiresEmpty_of_check checked) found
  have delivers := (delivers_iff_expires_empty Nat Nat s deeds within).1
  exact ⟨s, deeds, within, record, back, empty, delivers⟩

/-- The time of a poll runs out, and a put comes before it has the mutex again. -/
def pollsLate : List (Event Nat (Choice Nat)) :=
  [.run 0 (.call .poll)] ++ List.replicate 3 (.run 0 (.status false)) ++
    [.wake 0, .run 1 (.call (.put 7))] ++ List.replicate 3 (.run 1 (.status false)) ++
    [.run 0 (.status false), .run 0 (.status true)]

/-- The poll returns false with the element in the queue. -/
theorem poll_overlooks :
    ∃ s deeds, Transition.Reachable (recordedProgram Nat Nat) (s, deeds) ∧
      deeds = [.put 7, .returned none] ∧ s.shared.queue = [7] ∧ ¬ Delivers s deeds := by
  have found : ∃ r ∈ Transition.execute (Transition.recorded does (step code)) (new, [])
      pollsLate, r.1.location 0 = .leaving none ∧ r.1.shared.queue = [7] ∧
        r.2 = [.put 7, .returned none] := by
    decide
  obtain ⟨⟨s, deeds⟩, reachable, leaving, filled, record⟩ := Transition.exists_reachable found
  refine ⟨s, deeds, reachable, record, filled, fun delivers => ?_⟩
  rw [delivers.honest 0 leaving] at filled
  cases filled

end Uvcpp.BlockingQueue
