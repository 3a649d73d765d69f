/-
Where the tasks of ThreadPool are.

A pushed task is queued, in the hands of one worker, executed, dropped by stop, or,
if it has no body, discarded by the worker that dequeued it.
-/

import Mathlib.Data.Finset.Card
import Mathlib.Data.List.Nodup
import Uvcpp.Thread.PoolOutline

namespace Uvcpp.ThreadPool

open Monitor

variable {Body : Type}

/-! ### Hands -/

/-- The task a worker has dequeued and not finished. -/
def Local.held : Local Body → Option (Job Body)
  | .func (.notifying job) => some job
  | .func (.unlocking job) => job
  | .func (.holding job) => job
  | .func (.counted job) => some job
  | .func (.calling job) => some job
  | _ => none

/-- The task a worker has dequeued and not begun. -/
def Local.pending : Local Body → Option (Job Body)
  | .func (.notifying job) => some job
  | .func (.unlocking job) => job
  | .func (.holding job) => job
  | .func (.counted job) => some job
  | _ => none

/-- The worker is between `++activeThreadNum_` and `--activeThreadNum_`. -/
def Local.active : Local Body → Bool
  | .func (.counted _) => true
  | .func (.calling _) => true
  | .func (.called _) => true
  | _ => false

def hand (s : Pool Body) (index : Nat) : Option (Job Body) :=
  (s.location (.worker index)).held

def pending (s : Pool Body) (index : Nat) : Option (Job Body) :=
  (s.location (.worker index)).pending

/-- The created workers between `++` and `--`. -/
def busy (s : Pool Body) : Finset Nat :=
  (Finset.range s.shared.spawned).filter fun index => (s.location (.worker index)).active

inductive Fate where
  | queued
  | executing (worker : Nat)
  | executed
  | discarded
  | dropped

def HasFate (s : Pool Body) (job : Job Body) : Fate → Prop
  | .queued => job ∈ s.shared.queue
  | .executing worker => hand s worker = some job
  | .executed => job ∈ s.shared.finished
  | .discarded => job ∈ s.shared.discarded ∧ job.task = none
  | .dropped => job ∈ s.shared.dropped

/-! ### The ledger -/

/-- What the workers' hands and the history agree on. -/
structure Ledger (hand pending : Nat → Option (Job Body))
    (dequeued begun finished discarded : List (Job Body)) : Prop where
  handed : ∀ {worker job}, hand worker = some job →
    job ∈ dequeued ∧ job ∉ finished ∧ job ∉ discarded
  alone : ∀ {left right job}, hand left = some job → hand right = some job → left = right
  covered : ∀ {job}, job ∈ dequeued →
    (∃ worker, hand worker = some job) ∨ job ∈ finished ∨ job ∈ discarded
  ended : ∀ {job}, job ∈ finished → job ∈ dequeued ∧ job ∉ discarded
  thrown : ∀ {job}, job ∈ discarded → job ∈ dequeued ∧ job.task = none
  once : begun.Nodup
  known : ∀ {job}, job ∈ begun → job ∈ dequeued
  waiting : ∀ {worker job}, pending worker = some job → hand worker = some job ∧ job ∉ begun

section Ledger

variable {hand pending : Nat → Option (Job Body)} {worker : Nat} {job : Job Body}
variable {dequeued begun finished discarded : List (Job Body)}

theorem update_some {hand : Nat → Option (Job Body)} {worker other : Nat}
    {value : Option (Job Body)} {job : Job Body}
    (holds : Function.update hand worker value other = some job) :
    (other = worker ∧ value = some job) ∨ (other ≠ worker ∧ hand other = some job) := by
  by_cases same : other = worker
  · subst same
    rw [Function.update_self] at holds
    exact .inl ⟨rfl, holds⟩
  · rw [Function.update_of_ne same] at holds
    exact .inr ⟨same, holds⟩

/-- A worker with empty hands takes the front of the queue. -/
theorem Ledger.take (ledger : Ledger hand pending dequeued begun finished discarded)
    (idle : hand worker = none) (fresh : job ∉ dequeued) :
    Ledger (Function.update hand worker (some job)) (Function.update pending worker (some job))
      (dequeued ++ [job]) begun finished discarded := by
  have unheld : ∀ other, hand other ≠ some job := fun other holds => fresh (ledger.handed holds).1
  constructor
  · intro other held holds
    rcases update_some holds with ⟨_, same⟩ | ⟨_, before⟩
    · cases same
      exact ⟨by simp, fun ended => fresh (ledger.ended ended).1,
        fun thrown => fresh (ledger.thrown thrown).1⟩
    · obtain ⟨member, rest⟩ := ledger.handed before
      exact ⟨List.mem_append_left _ member, rest⟩
  · intro left right held holdsLeft holdsRight
    rcases update_some holdsLeft with ⟨rfl, same⟩ | ⟨_, before⟩ <;>
      rcases update_some holdsRight with ⟨rfl, same'⟩ | ⟨_, before'⟩
    · rfl
    · cases same
      exact absurd before' (unheld right)
    · cases same'
      exact absurd before (unheld left)
    · exact ledger.alone before before'
  · intro held member
    rcases List.mem_append.mp member with earlier | last
    · rcases ledger.covered earlier with ⟨other, holds⟩ | ended
      · left
        refine ⟨other, ?_⟩
        have apart : other ≠ worker := by
          rintro rfl
          rw [idle] at holds
          cases holds
        rwa [Function.update_of_ne apart]
      · exact .inr ended
    · cases List.mem_singleton.mp last
      exact .inl ⟨worker, Function.update_self ..⟩
  · intro held ended
    exact ⟨List.mem_append_left _ (ledger.ended ended).1, (ledger.ended ended).2⟩
  · intro held thrown
    exact ⟨List.mem_append_left _ (ledger.thrown thrown).1, (ledger.thrown thrown).2⟩
  · exact ledger.once
  · intro held member
    exact List.mem_append_left _ (ledger.known member)
  · intro other held holds
    rcases update_some holds with ⟨rfl, same⟩ | ⟨apart, before⟩
    · cases same
      exact ⟨Function.update_self .., fun member => fresh (ledger.known member)⟩
    · rw [Function.update_of_ne apart]
      exact ledger.waiting before

/-- A worker begins the task in its hands. -/
theorem Ledger.begin (ledger : Ledger hand pending dequeued begun finished discarded)
    (waits : pending worker = some job) :
    Ledger hand (Function.update pending worker none) dequeued (begun ++ [job]) finished
      discarded := by
  obtain ⟨holds, fresh⟩ := ledger.waiting waits
  constructor
  · exact ledger.handed
  · exact ledger.alone
  · exact ledger.covered
  · exact ledger.ended
  · exact ledger.thrown
  · rw [List.nodup_append]
    refine ⟨ledger.once, by simp, ?_⟩
    intro left member right last
    cases List.mem_singleton.mp last
    rintro rfl
    exact fresh member
  · intro held member
    rcases List.mem_append.mp member with earlier | last
    · exact ledger.known earlier
    · cases List.mem_singleton.mp last
      exact (ledger.handed holds).1
  · intro other held others
    rcases update_some others with ⟨_, impossible⟩ | ⟨apart, before⟩
    · cases impossible
    · obtain ⟨holdsOther, unbegun⟩ := ledger.waiting before
      refine ⟨holdsOther, ?_⟩
      intro member
      rcases List.mem_append.mp member with earlier | last
      · exact unbegun earlier
      · cases List.mem_singleton.mp last
        exact apart (ledger.alone holdsOther holds)

/-- The task in a worker's hands comes to its end: it returned, or it has no body. -/
theorem Ledger.release (ledger : Ledger hand pending dequeued begun finished discarded)
    (holds : hand worker = some job) {finished' discarded' : List (Job Body)}
    (ends : (finished' = finished ++ [job] ∧ discarded' = discarded) ∨
      (finished' = finished ∧ discarded' = discarded ++ [job] ∧ job.task = none)) :
    Ledger (Function.update hand worker none) (Function.update pending worker none) dequeued
      begun finished' discarded' := by
  obtain ⟨member, unfinished, undiscarded⟩ := ledger.handed holds
  have ended : ∀ held, (held ∈ finished' ∨ held ∈ discarded') ↔
      held ∈ finished ∨ held ∈ discarded ∨ held = job := by
    intro held
    rcases ends with ⟨rfl, rfl⟩ | ⟨rfl, rfl, _⟩
    · simp only [List.mem_append, List.mem_singleton]
      tauto
    · simp only [List.mem_append, List.mem_singleton]
  have others : ∀ {other held}, other ≠ worker → hand other = some held → held ≠ job := by
    rintro other held apart keeps rfl
    exact apart (ledger.alone keeps holds)
  constructor
  · intro other held keeps
    rcases update_some keeps with ⟨_, impossible⟩ | ⟨apart, before⟩
    · cases impossible
    · obtain ⟨inside, notFinished, notDiscarded⟩ := ledger.handed before
      have neither : ¬ (held ∈ finished' ∨ held ∈ discarded') := by
        rw [ended]
        rintro (earlier | earlier | same)
        · exact notFinished earlier
        · exact notDiscarded earlier
        · exact others apart before same
      exact ⟨inside, fun h => neither (.inl h), fun h => neither (.inr h)⟩
  · intro left right held keepsLeft keepsRight
    rcases update_some keepsLeft with ⟨_, impossible⟩ | ⟨_, before⟩
    · cases impossible
    · rcases update_some keepsRight with ⟨_, impossible⟩ | ⟨_, before'⟩
      · cases impossible
      · exact ledger.alone before before'
  · intro held inside
    by_cases same : held = job
    · exact .inr ((ended held).2 (.inr (.inr same)))
    · rcases ledger.covered inside with ⟨other, keeps⟩ | earlier | earlier
      · left
        refine ⟨other, ?_⟩
        have apart : other ≠ worker := by
          rintro rfl
          rw [holds] at keeps
          cases keeps
          exact same rfl
        rwa [Function.update_of_ne apart]
      · exact .inr ((ended held).2 (.inl earlier))
      · exact .inr ((ended held).2 (.inr (.inl earlier)))
  · intro held done
    rcases ends with ⟨rfl, rfl⟩ | ⟨rfl, rfl, _⟩
    · rcases List.mem_append.mp done with earlier | last
      · exact ledger.ended earlier
      · cases List.mem_singleton.mp last
        exact ⟨member, undiscarded⟩
    · obtain ⟨inside, kept⟩ := ledger.ended done
      refine ⟨inside, ?_⟩
      intro thrown
      rcases List.mem_append.mp thrown with earlier | last
      · exact kept earlier
      · cases List.mem_singleton.mp last
        exact unfinished done
  · intro held thrown
    rcases ends with ⟨rfl, rfl⟩ | ⟨rfl, rfl, bodiless⟩
    · exact ledger.thrown thrown
    · rcases List.mem_append.mp thrown with earlier | last
      · exact ledger.thrown earlier
      · cases List.mem_singleton.mp last
        exact ⟨member, bodiless⟩
  · exact ledger.once
  · exact ledger.known
  · intro other held waits
    rcases update_some waits with ⟨_, impossible⟩ | ⟨apart, before⟩
    · cases impossible
    · rw [Function.update_of_ne apart]
      exact ledger.waiting before

end Ledger

/-! ### Freshness -/

theorem Sound.nodup {sh : Shared Body} (sound : Sound sh) : sh.pushed.Nodup := by
  apply List.Nodup.of_map Job.ticket
  rw [sound.numbered]
  exact List.nodup_range

theorem Sound.front_fresh {sh : Shared Body} {job : Job Body} {rest : List (Job Body)}
    (sound : Sound sh) (front : sh.queue = job :: rest) : job ∉ sh.dequeued := by
  have distinct := sound.nodup
  rw [← sound.order, front, List.append_assoc] at distinct
  intro member
  have apart := (List.nodup_append.mp distinct).2.2 job member job (by simp)
  exact apart rfl

theorem Ledger.empty : Ledger (fun _ => none) (fun _ => none) ([] : List (Job Body)) [] [] [] := by
  constructor <;> simp

/-! ### Steps -/

/-- The thread's move concerns no task. -/
structure Quiet (l next : Local Body) : Prop where
  held : next.held = l.held
  pending : next.pending = l.pending
  active : next.active = l.active

theorem Quiet.refl (l : Local Body) : Quiet l l :=
  ⟨rfl, rfl, rfl⟩

/-- A step concerns no task, or it is one of the actions. -/
theorem quiet_or_moves {s s' : Pool Body} {event : Event Thread (Choice Body)}
    (effect : Effect code s event s') :
    (s'.shared = s.shared ∧
      ∀ index, Quiet (s.location (.worker index)) (s'.location (.worker index))) ∨
    ∃ t next, s.standing t = .running ∧ Moves t (s.location t) s.shared s'.shared next ∧
      s'.location = Function.update s.location t next := by
  have moved : ∀ {t : Thread} {next : Local Body}, Quiet (s.location t) next →
      ∀ index, Quiet (s.location (.worker index))
        (Function.update s.location t next (.worker index)) := by
    intro t next quiet index
    by_cases same : .worker index = t
    · rw [same, Function.update_self]
      exact quiet
    · rw [Function.update_of_ne same]
      exact .refl _
  cases effect with
  | wakes asleep => exact .inl ⟨rfl, fun index => .refl _⟩
  | waits running waits owned => exact .inl ⟨rfl, fun index => .refl _⟩
  | resumes woken waits free =>
      refine .inl ⟨rfl, moved ?_⟩
      rcases code_wait waits with ⟨_, _, _, before, _, rfl⟩ | ⟨_, _, before, _, rfl⟩ <;>
        rw [before] <;> exact ⟨rfl, rfl, rfl⟩
  | locks running locks free =>
      refine .inl ⟨rfl, moved ?_⟩
      rcases code_lock locks with
        ⟨_, before, rfl⟩ | ⟨_, _, _, before, rfl⟩ | ⟨_, _, before, rfl⟩ <;>
        rw [before] <;> exact ⟨rfl, rfl, rfl⟩
  | unlocks running unlocks owned =>
      refine .inl ⟨rfl, moved ?_⟩
      rcases code_unlock unlocks with ⟨_, before, rfl⟩ | ⟨_, _, before, rfl⟩ |
        ⟨_, _, _, before, rfl⟩ <;> rw [before] <;> exact ⟨rfl, rfl, rfl⟩
  | notifies running notifies =>
      refine .inl ⟨rfl, moved ?_⟩
      rcases code_notifyAll notifies with ⟨_, before, _, rfl⟩ | ⟨_, _, before, _, rfl⟩ |
        ⟨_, _, _, before, _, rfl⟩ <;> rw [before] <;> exact ⟨rfl, rfl, rfl⟩
  | acts running acts result =>
      exact .inr ⟨_, _, running, moves acts result, rfl⟩

def Books (s : Pool Body) : Prop :=
  Ledger (hand s) (pending s) s.shared.dequeued s.shared.begun s.shared.finished
    s.shared.discarded

theorem hand_update {s s' : Pool Body} {index : Nat} {next : Local Body}
    (moved : s'.location = Function.update s.location (.worker index) next) :
    hand s' = Function.update (hand s) index next.held := by
  funext other
  unfold hand
  rw [moved]
  by_cases same : other = index
  · simp [same]
  · have apart : Thread.worker other ≠ Thread.worker index := by simp [same]
    simp [same]

theorem pending_update {s s' : Pool Body} {index : Nat} {next : Local Body}
    (moved : s'.location = Function.update s.location (.worker index) next) :
    pending s' = Function.update (pending s) index next.pending := by
  funext other
  unfold pending
  rw [moved]
  by_cases same : other = index
  · simp [same]
  · simp [same]

theorem update_same {hand : Nat → Option (Job Body)} {index : Nat} {value : Option (Job Body)}
    (own : hand index = value) : Function.update hand index value = hand := by
  rw [← own, Function.update_eq_self]

/-- The worker's own part of the books, for each of its actions. -/
theorem Ledger.moves {hand pending : Nat → Option (Job Body)} {sh sh' : Shared Body}
    {index : Nat} {l next : Local Body} (move : Moves (.worker index) l sh sh' next)
    (holds : assertion (.worker index) l sh)
    (ledger : Ledger hand pending sh.dequeued sh.begun sh.finished sh.discarded)
    (held : hand index = l.held) (waits : pending index = l.pending) :
    Ledger (Function.update hand index next.held) (Function.update pending index next.pending)
      sh'.dequeued sh'.begun sh'.finished sh'.discarded := by
  cases move with
  | take front =>
      exact ledger.take held (holds.2.2.1.front_fresh front)
  | begin =>
      have begins := ledger.begin waits
      rwa [← update_same held] at begins
  | finish =>
      exact ledger.release held (.inl ⟨rfl, rfl⟩)
  | discard bodiless =>
      exact ledger.release held (.inr ⟨rfl, rfl, bodiless⟩)
  | birth | prepare | enter | leave | empty | present | nothing | idle | count | uncount | exit =>
      have keepsHand := update_same held
      have keepsPending := update_same waits
      simp only [Local.held, Local.pending] at keepsHand keepsPending ⊢
      rw [keepsHand, keepsPending]
      exact ledger

theorem books_step {s s' : Pool Body} {event : Event Thread (Choice Body)}
    (effect : Effect code s event s') (annotated : Annotated Calm assertion resting s)
    (books : Books s) : Books s' := by
  have others : hand s' = hand s → pending s' = pending s →
      Ledger (hand s) (pending s) s'.shared.dequeued s'.shared.begun s'.shared.finished
        s'.shared.discarded → Books s' := by
    intro hands waits ledger
    unfold Books
    rwa [hands, waits]
  rcases quiet_or_moves effect with ⟨same, quiet⟩ | ⟨t, next, running, move, moved⟩
  · apply others
    · exact funext fun index => (quiet index).held
    · exact funext fun index => (quiet index).pending
    · rw [same]
      exact books
  · have holds := annotated.running t running
    cases t with
    | controller =>
        apply others
        · funext index
          simp [hand, moved]
        · funext index
          simp [pending, moved]
        · unfold Books at books
          generalize s.location .controller = l at move holds
          generalize s.shared = sh at move books
          generalize s'.shared = sh' at move
          cases move <;> exact books
    | producer producer =>
        apply others
        · funext index
          simp [hand, moved]
        · funext index
          simp [pending, moved]
        · unfold Books at books
          generalize s.location (.producer producer) = l at move holds
          generalize s.shared = sh at move books
          generalize s'.shared = sh' at move
          cases move <;> exact books
    | worker index =>
        unfold Books at books ⊢
        rw [hand_update moved, pending_update moved]
        exact books.moves move holds rfl rfl

/-! ### Counting the active workers -/

theorem card_gained {bound index : Nat} {before after : Nat → Bool} (within : index < bound)
    (others : ∀ other, other ≠ index → after other = before other)
    (off : before index = false) (on : after index = true) :
    ((Finset.range bound).filter fun other => after other).card =
      ((Finset.range bound).filter fun other => before other).card + 1 := by
  have absent : index ∉ (Finset.range bound).filter fun other => before other = true := by
    simp [off]
  rw [← Finset.card_insert_of_notMem absent]
  congr 1
  ext other
  by_cases same : other = index
  · subst same
    simp [on, within]
  · simp [same, others other same]

/-- Only a created worker is ever between `++` and `--`. -/
theorem active_created {s : Pool Body} (annotated : Annotated Calm assertion resting s)
    {index : Nat} (active : (s.location (.worker index)).active = true) :
    index < s.shared.spawned := by
  by_cases running : s.standing (.worker index) = .running
  · have holds := (annotated.running _ running).2
    generalize s.location (.worker index) = l at active holds
    cases l with
    | control place => cases active
    | run place => cases active
    | func place =>
        cases place
        case counted | calling | called => exact Alive.created holds
        all_goals cases active
  · have rests := (annotated.waiting _ running).2
    generalize s.location (.worker index) = l at active rests
    cases l with
    | control place => cases active
    | run place => cases active
    | func place => exact rests.1.created

/-- Counting further than the created workers counts the same. -/
theorem busy_within {s : Pool Body} (annotated : Annotated Calm assertion resting s) {bound : Nat}
    (enough : s.shared.spawned ≤ bound) :
    (Finset.range bound).filter (fun index => (s.location (.worker index)).active) = busy s := by
  ext index
  simp only [busy, Finset.mem_filter, Finset.mem_range]
  constructor
  · rintro ⟨_, active⟩
    exact ⟨active_created annotated active, active⟩
  · rintro ⟨created, active⟩
    exact ⟨Nat.lt_of_lt_of_le created enough, active⟩

theorem Moves.spawned {t : Thread} {l next : Local Body} {sh sh' : Shared Body}
    (move : Moves t l sh sh' next) : sh.spawned ≤ sh'.spawned := by
  cases move
  case spawn => exact Nat.le_succ _
  all_goals exact Nat.le_refl _

theorem busy_step {s s' : Pool Body} {event : Event Thread (Choice Body)}
    (effect : Effect code s event s') (annotated : Annotated Calm assertion resting s)
    (counted : s.shared.activeThreadNum = (busy s).card) :
    s'.shared.activeThreadNum = (busy s').card := by
  rcases quiet_or_moves effect with ⟨same, quiet⟩ | ⟨t, next, running, move, moved⟩
  · have unchanged : busy s' = busy s := by
      unfold busy
      rw [same]
      apply Finset.filter_congr
      intro index _within
      rw [(quiet index).active]
    rw [unchanged, same]
    exact counted
  · have holds := annotated.running t running
    rw [← busy_within annotated move.spawned] at counted
    have others : ∀ other, .worker other ≠ t →
        (s'.location (.worker other)).active = (s.location (.worker other)).active := by
      intro other apart
      rw [moved, Function.update_of_ne apart]
    have own : (s'.location t).active = next.active := by
      rw [moved, Function.update_self]
    have unchanged : s'.shared.activeThreadNum = s.shared.activeThreadNum →
        (∀ index, t = .worker index → next.active = (s.location t).active) →
        s'.shared.activeThreadNum = (busy s').card := by
      intro active quiet
      rw [active, counted]
      unfold busy
      congr 1
      apply Finset.filter_congr
      intro index _within
      by_cases same : .worker index = t
      · subst same
        rw [own, quiet index rfl]
      · rw [others index same]
    generalize before : s.location t = l at move holds unchanged
    generalize s.shared = sh at move holds counted unchanged
    generalize after : s'.shared = sh' at move counted unchanged ⊢
    cases move
    case start =>
      have nobody : sh.spawned = 0 := holds.2.2.2
      simp [busy, after, nobody]
    case count index job callable =>
      have created : index < sh.spawned := holds.2.created
      have gained := card_gained created (fun other apart => others other (by simpa using apart))
        (by rw [before]; rfl) own
      unfold busy
      rw [after]
      exact (congrArg (· + 1) counted).trans gained.symm
    case uncount index job =>
      have created : index < sh.spawned := holds.2.created
      have lost := card_gained created
        (fun other apart => (others other (by simpa using apart)).symm) own (by rw [before]; rfl)
      unfold busy
      rw [after]
      have total := counted.trans lost
      exact Nat.sub_eq_of_eq_add total
    all_goals exact unchanged rfl (fun _ _ => rfl)

/-! ### Task accounting -/

section Reachable

variable {maxSize : Nat} {s : Pool Body}

theorem books (reachable : Transition.Reachable (system Body maxSize) s) : Books s := by
  induction reachable with
  | start begins =>
      cases begins
      exact .empty
  | next before taken ih =>
      exact books_step (step_effect taken) (annotated before) ih

theorem counted (reachable : Transition.Reachable (system Body maxSize) s) :
    s.shared.activeThreadNum = (busy s).card := by
  induction reachable with
  | start begins =>
      cases begins
      rfl
  | next before taken ih =>
      exact busy_step (step_effect taken) (annotated before) ih

theorem sound (reachable : Transition.Reachable (system Body maxSize) s) : Sound s.shared := by
  have annotated := annotated reachable
  cases owned : s.owner with
  | none => exact (annotated.free owned).sound
  | some t =>
      obtain ⟨running, within⟩ := ((exclusive reachable).holds t).1 owned
      have holds := (annotated.running t running).2
      generalize s.location t = l at within holds
      cases t with
      | controller =>
          cases l with
          | control place => cases place <;> first | exact within.elim | exact holds.1
          | run place => exact within.elim
          | func place => exact within.elim
      | producer index =>
          cases l with
          | control place => exact within.elim
          | run place =>
              cases place
              case outside | locking => exact within.elim
              case waiting | checking => exact holds.1.sound
              all_goals exact Calm.sound holds
          | func place => exact within.elim
      | worker index =>
          cases l with
          | control place => exact within.elim
          | run place => exact within.elim
          | func place => cases place <;> first | exact within.elim | exact holds.2.1

/-- The pushed tasks in their order, each in one of the three lists. -/
theorem Sound.apart {sh : Shared Body} (sound : Sound sh) {job : Job Body} :
    (job ∈ sh.dequeued → job ∉ sh.dropped ∧ job ∉ sh.queue) ∧
      (job ∈ sh.dropped → job ∉ sh.queue) := by
  have distinct := sound.nodup
  rw [← sound.order] at distinct
  obtain ⟨_, _, later⟩ := List.nodup_append.mp distinct
  obtain ⟨_, _, earlier⟩ := List.nodup_append.mp (List.nodup_append.mp distinct).1
  constructor
  · intro dequeued
    exact ⟨fun dropped => earlier job dequeued job dropped rfl,
      fun queued => later job (List.mem_append_left _ dequeued) job queued rfl⟩
  · intro dropped queued
    exact later job (List.mem_append_right _ dropped) job queued rfl

/-- In the hands of a worker, executed or discarded, it was dequeued. -/
theorem fate_dequeued (books : Books s) {job : Job Body} {fate : Fate}
    (has : HasFate s job fate) : fate = .queued ∨ fate = .dropped ∨ job ∈ s.shared.dequeued := by
  cases fate with
  | queued => exact .inl rfl
  | dropped => exact .inr (.inl rfl)
  | executing worker => exact .inr (.inr (books.handed has).1)
  | executed => exact .inr (.inr (books.ended has).1)
  | discarded => exact .inr (.inr (books.thrown has.1).1)

/-- A dequeued task has one fate among the workers. -/
theorem dequeued_fate (reachable : Transition.Reachable (system Body maxSize) s)
    {job : Job Body} (dequeued : job ∈ s.shared.dequeued) : ∃! fate, HasFate s job fate := by
  have books := books reachable
  have apart := (sound reachable).apart.1 dequeued
  rcases books.covered dequeued with ⟨worker, holds⟩ | ended | thrown
  · refine ⟨.executing worker, holds, ?_⟩
    obtain ⟨_, unfinished, undiscarded⟩ := books.handed holds
    intro fate has
    cases fate with
    | queued => exact absurd has apart.2
    | executing other => rw [books.alone has holds]
    | executed => exact absurd has unfinished
    | discarded => exact absurd has.1 undiscarded
    | dropped => exact absurd has apart.1
  · refine ⟨.executed, ended, ?_⟩
    intro fate has
    cases fate with
    | queued => exact absurd has apart.2
    | executing other => exact absurd ended (books.handed has).2.1
    | executed => rfl
    | discarded => exact absurd has.1 (books.ended ended).2
    | dropped => exact absurd has apart.1
  · refine ⟨.discarded, ⟨thrown, (books.thrown thrown).2⟩, ?_⟩
    intro fate has
    cases fate with
    | queued => exact absurd has apart.2
    | executing other => exact absurd thrown (books.handed has).2.2
    | executed => exact absurd thrown (books.ended has).2
    | discarded => rfl
    | dropped => exact absurd has apart.1

/-- Every pushed task has exactly one fate. -/
theorem one_fate (reachable : Transition.Reachable (system Body maxSize) s) {job : Job Body}
    (pushed : job ∈ s.shared.pushed) : ∃! fate, HasFate s job fate := by
  have sound := sound reachable
  have books := books reachable
  rw [← sound.order, List.mem_append, List.mem_append] at pushed
  rcases pushed with (dequeued | dropped) | queued
  · exact dequeued_fate reachable dequeued
  · refine ⟨.dropped, dropped, ?_⟩
    intro fate has
    rcases fate_dequeued books has with rfl | rfl | dequeued
    · exact absurd has (sound.apart.2 dropped)
    · rfl
    · exact absurd dropped (sound.apart.1 dequeued).1
  · refine ⟨.queued, queued, ?_⟩
    intro fate has
    rcases fate_dequeued books has with rfl | rfl | dequeued
    · rfl
    · exact absurd queued (sound.apart.2 has)
    · exact absurd queued (sound.apart.1 dequeued).2

end Reachable

/-- The queue is bounded, tasks leave it in the order of their pushes, no task begins
twice, every pushed task has exactly one fate, and the count of active workers is
right. -/
structure Accounted (s : Pool Body) : Prop where
  bound : s.shared.queue.length ≤ s.shared.maxSize
  order : s.shared.dequeued ++ s.shared.dropped ++ s.shared.queue = s.shared.pushed
  distinct : s.shared.pushed.Nodup
  once : s.shared.begun.Nodup
  fate : ∀ job ∈ s.shared.pushed, ∃! fate, HasFate s job fate
  active : s.shared.activeThreadNum = (busy s).card

theorem tasks_accounted {maxSize : Nat} {s : Pool Body}
    (reachable : Transition.Reachable (system Body maxSize) s) : Accounted s := by
  have sound := sound reachable
  constructor
  · exact sound.bound
  · exact sound.order
  · exact sound.nodup
  · exact (books reachable).once
  · exact fun job pushed => one_fate reachable pushed
  · exact counted reachable

/-- start(1), and an empty std::function is pushed and dequeued. -/
def emptyTask : List (Event Thread (Choice Unit)) :=
  [.run .controller (.start 1)] ++
  List.replicate 3 (.run .controller .proceed) ++
  [.run (.producer 0) (.run none)] ++
  List.replicate 5 (.run (.producer 0) .proceed) ++
  List.replicate 9 (.run (.worker 0) .proceed)

theorem tasks_accounted_empty :
    ∃ s, Transition.Reachable (system Unit 1) s ∧ s.shared.pushed = [⟨0, none⟩] ∧
      Accounted s := by
  have found : ∃ s ∈ Transition.execute (step code) (new 1) emptyTask,
      s.shared.pushed = [⟨0, none⟩] := by
    decide
  obtain ⟨s, reachable, pushed⟩ := Transition.exists_reachable found
  exact ⟨s, reachable, pushed, tasks_accounted reachable⟩

/-- An empty task is neither queued, being executed, executed nor dropped. -/
theorem empty_task_unaccounted :
    ∃ s, Transition.Reachable (system Unit 1) s ∧ ∃ job ∈ s.shared.pushed,
      ∀ fate, HasFate s job fate → fate = .discarded := by
  have found : ∃ s ∈ Transition.execute (step code) (new 1) emptyTask,
      s.shared.pushed = [⟨0, none⟩] ∧ s.shared.discarded = [⟨0, none⟩] := by
    decide
  obtain ⟨s, reachable, pushed, discarded⟩ := Transition.exists_reachable found
  have member : (⟨0, none⟩ : Job Unit) ∈ s.shared.pushed := by simp [pushed]
  refine ⟨s, reachable, ⟨0, none⟩, member, ?_⟩
  intro fate has
  obtain ⟨only, _, same⟩ := one_fate reachable member
  have thrown : HasFate s ⟨0, none⟩ .discarded := ⟨by simp [discarded], rfl⟩
  exact (same fate has).trans (same _ thrown).symm

end Uvcpp.ThreadPool
