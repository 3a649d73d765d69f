/-
Destroying an EventLoopThreadPool.

The destructor stops the loop at a position and then joins the thread at that
position.  It is right exactly when the threads have registered their loops in the
order of their creation.
-/

import Mathlib.Data.Finset.Card
import Mathlib.Data.List.Perm.Basic
import Uvcpp.Thread.EventLoopThreadPool

namespace Uvcpp.EventLoopThreadPool

open Monitor

/-! ### The outline -/

/-- The registered loops are distinct, counted, and those of created threads. -/
structure Sound (sh : Shared) : Prop where
  distinct : sh.loops.Nodup
  counted : sh.loops.length = sh.initSuc
  created : ∀ loop ∈ sh.loops, loop < sh.threads
  within : sh.threads ≤ sh.threadNum

/-- Every thread was created and has registered its loop. -/
structure Complete (sh : Shared) : Prop where
  created : sh.threads = sh.threadNum
  registered : sh.loops.Perm (List.range sh.threadNum)

def ownerAssertion (sh : Shared) : OwnerAt → Prop
  | .spawning => sh.threads ≤ sh.threadNum
  | .locking => sh.threads = sh.threadNum
  | .testing => Sound sh ∧ sh.threads = sh.threadNum
  | .waiting => Sound sh ∧ sh.threads = sh.threadNum
  | .unlocking => Sound sh ∧ Complete sh
  | .joining index => Complete sh ∧ ∃ loop, sh.loops[index]? = some loop ∧ sh.stopped loop = true
  | _ => Complete sh

def workerAssertion (index : Nat) (sh : Shared) : WorkerAt → Prop
  | .unborn => index ∉ sh.loops
  | .constructing => index ∉ sh.loops ∧ index < sh.threads
  | .locking => index ∉ sh.loops ∧ index < sh.threads
  | .registering => index ∉ sh.loops ∧ index < sh.threads ∧ Sound sh
  | .unlocking => index ∈ sh.loops ∧ Sound sh
  | _ => index ∈ sh.loops

def assertion (t : Thread) (l : Local) (sh : Shared) : Prop :=
  match t, l with
  | .starter, .owner place => ownerAssertion sh place
  | .worker index, .worker place => workerAssertion index sh place
  | _, _ => False

def resting (t : Thread) (l : Local) (sh : Shared) : Prop :=
  match t, l with
  | .starter, .owner _ => sh.threads = sh.threadNum
  | _, _ => False

theorem Sound.complete {sh : Shared} (sound : Sound sh) (created : sh.threads = sh.threadNum)
    (all : sh.initSuc = sh.threadNum) : Complete sh := by
  constructor
  · exact created
  · rw [List.perm_ext_iff_of_nodup sound.distinct List.nodup_range]
    have within : sh.loops.toFinset ⊆ Finset.range sh.threadNum := by
      intro loop member
      rw [Finset.mem_range, ← created]
      exact sound.created loop (List.mem_toFinset.mp member)
    have full : sh.loops.toFinset = Finset.range sh.threadNum := by
      apply Finset.eq_of_subset_of_card_le within
      rw [Finset.card_range, List.toFinset_card_of_nodup sound.distinct, sound.counted, all]
    intro loop
    rw [← List.mem_toFinset, full, Finset.mem_range, List.mem_range]

theorem Complete.member {sh : Shared} (complete : Complete sh) {index : Nat}
    (created : index < sh.threads) : index ∈ sh.loops := by
  rw [complete.registered.mem_iff, List.mem_range, ← complete.created]
  exact created

theorem Complete.exit {sh : Shared} {exited : Nat → Bool} (complete : Complete sh) :
    Complete { sh with exited := exited } :=
  ⟨complete.created, complete.registered⟩

theorem Sound.register {sh : Shared} {index : Nat} (sound : Sound sh) (fresh : index ∉ sh.loops)
    (created : index < sh.threads) :
    Sound { sh with loops := sh.loops ++ [index], initSuc := sh.initSuc + 1 } := by
  constructor
  · rw [List.nodup_append]
    refine ⟨sound.distinct, List.nodup_singleton index, ?_⟩
    intro left member right last
    cases List.mem_singleton.mp last
    rintro rfl
    exact fresh member
  · simp [sound.counted]
  · intro loop member
    rcases List.mem_append.mp member with earlier | last
    · exact sound.created loop earlier
    · cases List.mem_singleton.mp last
      exact created
  · exact sound.within

theorem Sound.same {sh sh' : Shared} (sound : Sound sh) (loops : sh'.loops = sh.loops)
    (counter : sh'.initSuc = sh.initSuc) (threads : sh.threads ≤ sh'.threads)
    (within : sh'.threads ≤ sh'.threadNum) : Sound sh' := by
  constructor
  · rw [loops]
    exact sound.distinct
  · rw [loops, counter]
    exact sound.counted
  · rw [loops]
    exact fun loop member => Nat.lt_of_lt_of_le (sound.created loop member) threads
  · exact within

/-- What an action leaves for its own thread, and for a free mutex. -/
theorem Moves.own {t : Thread} {l next : Local} {sh sh' : Shared} (move : Moves t l sh sh' next)
    (holds : assertion t l sh) :
    assertion t next sh' ∧ (¬ inside t l → Sound sh → Sound sh') := by
  cases move with
  | spawn missing =>
      refine ⟨missing, fun _ sound => ?_⟩
      exact sound.same rfl rfl (Nat.le_succ _) missing
  | spawned enough =>
      exact ⟨Nat.le_antisymm holds enough, fun _ sound => sound⟩
  | complete all =>
      exact ⟨⟨holds.1, holds.1.complete holds.2 all⟩, fun _ sound => sound⟩
  | missing missing =>
      exact ⟨holds, fun _ sound => sound⟩
  | destroy =>
      exact ⟨holds, fun _ sound => sound⟩
  | stop present =>
      refine ⟨⟨⟨holds.created, holds.registered⟩, _, present, Function.update_self ..⟩, ?_⟩
      exact fun _ sound => sound.same rfl rfl (Nat.le_refl _) sound.within
  | done absent =>
      exact ⟨holds, fun _ sound => sound⟩
  | join exited =>
      exact ⟨holds.1, fun _ sound => sound⟩
  | birth created =>
      exact ⟨⟨holds, created⟩, fun _ sound => sound⟩
  | construct =>
      exact ⟨holds, fun _ sound => sound⟩
  | register =>
      obtain ⟨fresh, created, sound⟩ := holds
      exact ⟨⟨by simp, sound.register fresh created⟩, fun outside => absurd trivial outside⟩
  | exit stopped =>
      exact ⟨holds, fun _ sound => sound.same rfl rfl (Nat.le_refl _) sound.within⟩

theorem Moves.stable {t : Thread} {l next : Local} {sh sh' : Shared}
    (move : Moves t l sh sh' next) (holds : assertion t l sh) (u : Thread) (k : Local)
    (other : u ≠ t) (apart : ¬ (inside t l ∧ inside u k)) (keeps : assertion u k sh) :
    assertion u k sh' := by
  cases move
  case spawn missing =>
    unfold assertion at keeps ⊢
    split at keeps
    · exact absurd rfl other
    · rename_i index place
      have grows : index < sh.threads → index < sh.threads + 1 := Nat.lt_succ_of_lt
      cases place
      case constructing | locking => exact ⟨keeps.1, grows keeps.2⟩
      case registering =>
        exact ⟨keeps.1, grows keeps.2.1, keeps.2.2.same rfl rfl (Nat.le_succ _) missing⟩
      case unlocking => exact ⟨keeps.1, keeps.2.same rfl rfl (Nat.le_succ _) missing⟩
      all_goals exact keeps
    · exact keeps.elim
  case stop =>
    unfold assertion at keeps ⊢
    split at keeps
    · exact absurd rfl other
    · rename_i index place
      cases place
      case registering =>
        exact ⟨keeps.1, keeps.2.1, keeps.2.2.same rfl rfl (Nat.le_refl _) keeps.2.2.within⟩
      case unlocking =>
        exact ⟨keeps.1, keeps.2.same rfl rfl (Nat.le_refl _) keeps.2.within⟩
      all_goals exact keeps
    · exact keeps.elim
  case register index =>
    obtain ⟨fresh, created, _⟩ := holds
    unfold assertion at keeps ⊢
    split at keeps
    · rename_i place
      have incomplete : ¬ Complete sh := fun complete => fresh (complete.member created)
      cases place
      case spawning | locking => exact keeps
      case testing | waiting | unlocking => exact absurd ⟨trivial, trivial⟩ apart
      case joining => exact absurd keeps.1 incomplete
      all_goals exact absurd keeps incomplete
    · rename_i worker place
      have distinct : worker ≠ index := fun same => other (congrArg Thread.worker same)
      have absent : worker ∉ sh.loops → worker ∉ sh.loops ++ [index] := by
        intro unregistered
        simp [unregistered, distinct]
      cases place
      case unborn => exact absent keeps
      case constructing | locking => exact ⟨absent keeps.1, keeps.2⟩
      case registering | unlocking => exact absurd ⟨trivial, trivial⟩ apart
      all_goals exact List.mem_append_left _ keeps
    · exact keeps.elim
  case exit =>
    unfold assertion at keeps ⊢
    split at keeps
    · rename_i place
      cases place
      case testing | waiting =>
        exact ⟨keeps.1.same rfl rfl (Nat.le_refl _) keeps.1.within, keeps.2⟩
      case unlocking =>
        exact ⟨keeps.1.same rfl rfl (Nat.le_refl _) keeps.1.within, keeps.2.exit⟩
      case joining => exact ⟨keeps.1.exit, keeps.2⟩
      case spawning | locking => exact keeps
      all_goals exact Complete.exit keeps
    · rename_i index place
      cases place
      case registering =>
        exact ⟨keeps.1, keeps.2.1, keeps.2.2.same rfl rfl (Nat.le_refl _) keeps.2.2.within⟩
      case unlocking =>
        exact ⟨keeps.1, keeps.2.same rfl rfl (Nat.le_refl _) keeps.2.within⟩
      all_goals exact keeps
    · exact keeps.elim
  all_goals exact keeps

theorem outline : Outline code inside Sound assertion resting := by
  constructor
  · intro t l next sh same sound holds
    rcases code_lock same with ⟨rfl, rfl, rfl⟩ | ⟨_, rfl, rfl, rfl⟩
    · exact ⟨sound, holds⟩
    · exact ⟨holds.1, holds.2, sound⟩
  · intro t l next sh same holds
    rcases code_unlock same with ⟨rfl, rfl, rfl⟩ | ⟨_, rfl, rfl, rfl⟩
    · exact holds
    · exact ⟨holds.2, holds.1⟩
  · intro t l cond next sh same holds
    obtain ⟨rfl, rfl, rfl⟩ := code_wait same
    exact holds
  · intro t l cond next sh same sound rests
    obtain ⟨rfl, rfl, rfl⟩ := code_wait same
    exact ⟨sound, rests⟩
  · intro t l cond next sh same holds
    obtain ⟨_, rfl, rfl, rfl⟩ := code_notifyAll same
    exact holds
  · intro t l action choice sh sh' next acts result holds
    exact (moves acts result).own holds
  · intro t l action choice sh sh' next acts result holds
    exact (moves acts result).stable holds
  · intro t l action choice sh sh' next acts result holds u k other rests
    unfold resting at rests ⊢
    split at rests
    · cases moves acts result
      case spawn | spawned | complete | missing | destroy | stop | done | join =>
        exact absurd rfl other
      all_goals exact rests
    · exact rests.elim

section Reachable

variable {threadNum : Nat} {s : Pool}

theorem new_exclusive (threadNum : Nat) : Exclusive code inside (new threadNum) := by
  apply Exclusive.fresh
  · exact ⟨rfl, fun _ => rfl⟩
  · intro t
    cases t <;> simp [new, inside]

theorem new_annotated (threadNum : Nat) :
    Annotated Sound assertion resting (new threadNum) := by
  constructor
  · intro _free
    constructor <;> simp [new]
  · intro t _running
    cases t with
    | starter => exact Nat.zero_le _
    | worker index => exact List.not_mem_nil
  · intro t stopped
    exact absurd rfl stopped

theorem exclusive (reachable : Transition.Reachable (system threadNum) s) :
    Exclusive code inside s := by
  apply locking.exclusive _ reachable
  rintro s rfl
  exact new_exclusive threadNum

theorem annotated (reachable : Transition.Reachable (system threadNum) s) :
    Annotated Sound assertion resting s := by
  apply outline.annotated locking _ reachable
  rintro s rfl
  exact ⟨new_exclusive threadNum, new_annotated threadNum⟩

theorem worker_running (reachable : Transition.Reachable (system threadNum) s) (index : Nat) :
    s.standing (.worker index) = .running := by
  by_contra stopped
  obtain ⟨cond, next, waits⟩ := (exclusive reachable).waits _ stopped
  obtain ⟨impossible, _⟩ := code_wait waits
  cases impossible

end Reachable

/-! ### Before the destructor -/

/-- The destructor has not begun. -/
def OwnerAt.early : OwnerAt → Bool
  | .stopping _ => false
  | .joining _ => false
  | .destroyed => false
  | _ => true

def Early (s : Pool) : Prop :=
  ∃ place : OwnerAt, s.location .starter = .owner place ∧ place.early = true

/-- No loop was asked to stop, and no thread has ended. -/
structure Untouched (s : Pool) : Prop where
  stopped : ∀ index, s.shared.stopped index = false
  alive : ∀ index, s.location (.worker index) ≠ .worker .exited

/-- start() has returned. -/
def Started (s : Pool) : Prop :=
  s.location .starter = .owner .started

/-- Whenever the destructor joins a thread, its loop was asked to stop. -/
def JoinsStopped (s : Pool) : Prop :=
  ∀ index, s.location .starter = .owner (.joining index) → s.shared.stopped index = true

/-- The destructor never becomes a starter again, and only it stops a loop. -/
theorem early_before {s s' : Pool} {event : Event Thread Unit} (effect : Effect code s event s')
    (early : Early s') : Early s ∧ s'.shared.stopped = s.shared.stopped := by
  obtain ⟨place, after, isEarly⟩ := early
  cases event with
  | wake t =>
      cases effect with
      | wakes asleep => exact ⟨⟨place, after, isEarly⟩, rfl⟩
  | run t choice =>
      by_cases own : t = .starter
      · subst own
        cases effect with
        | resumes woken waits free =>
            obtain ⟨_, before, _⟩ := code_wait waits
            exact ⟨⟨_, before, rfl⟩, rfl⟩
        | locks running locks free =>
            rcases code_lock locks with ⟨_, before, _⟩ | ⟨_, impossible, _⟩
            · exact ⟨⟨_, before, rfl⟩, rfl⟩
            · cases impossible
        | unlocks running unlocks owned =>
            rcases code_unlock unlocks with ⟨_, before, _⟩ | ⟨_, impossible, _⟩
            · exact ⟨⟨_, before, rfl⟩, rfl⟩
            · cases impossible
        | waits running waits owned => exact ⟨⟨place, after, isEarly⟩, rfl⟩
        | notifies running notifies =>
            obtain ⟨_, impossible, _⟩ := code_notifyAll notifies
            cases impossible
        | @acts _ _ action sh next running acts result =>
            have move := moves acts result
            have same : next = .owner place := by simpa [State.moveTo] using after
            subst same
            generalize before : s.location .starter = l at move
            generalize s.shared = shared at move
            cases move
            case stop | done | destroy | join => cases isEarly
            all_goals exact ⟨⟨_, before, rfl⟩, rfl⟩
      · have stays := effect.others (Ne.symm own)
        rw [stays.1] at after
        refine ⟨⟨place, after, isEarly⟩, ?_⟩
        cases effect with
        | @acts _ _ action sh next running acts result =>
            have move := moves acts result
            generalize s.location t = l at move
            generalize s.shared = shared at move
            cases move
            case register | exit | birth | construct => rfl
            all_goals exact absurd rfl own
        | _ => rfl

theorem alive_step {s s' : Pool} {event : Event Thread Unit} (effect : Effect code s event s')
    (untouched : Untouched s) (index : Nat) : s'.location (.worker index) ≠ .worker .exited := by
  intro ended
  cases event with
  | wake t =>
      cases effect with
      | wakes asleep => exact untouched.alive index ended
  | run t choice =>
      by_cases own : .worker index = t
      · subst own
        cases effect with
        | resumes woken waits free =>
            obtain ⟨impossible, _⟩ := code_wait waits
            cases impossible
        | locks running locks free =>
            rcases code_lock locks with ⟨impossible, _⟩ | ⟨_, _, _, rfl⟩
            · cases impossible
            · simp [State.moveTo] at ended
        | unlocks running unlocks owned =>
            rcases code_unlock unlocks with ⟨impossible, _⟩ | ⟨_, _, _, rfl⟩
            · cases impossible
            · simp [State.moveTo] at ended
        | waits running waits owned => exact untouched.alive index ended
        | notifies running notifies =>
            obtain ⟨_, _, _, rfl⟩ := code_notifyAll notifies
            simp [State.moveTo] at ended
        | @acts _ _ action sh next running acts result =>
            have move := moves acts result
            have same : next = .worker .exited := by simpa [State.moveTo] using ended
            subst same
            generalize s.location (.worker index) = l at move
            have off := untouched.stopped index
            generalize s.shared = shared at move off
            cases move with
            | exit stopped =>
                rw [off] at stopped
                cases stopped
      · rw [(effect.others own).1] at ended
        exact untouched.alive index ended

theorem untouched {threadNum : Nat} {s : Pool}
    (reachable : Transition.Reachable (system threadNum) s) (early : Early s) : Untouched s := by
  induction reachable with
  | start begins =>
      cases begins
      constructor
      · exact fun _ => rfl
      · intro index ended
        cases ended
  | next _before taken ih =>
      have effect := step_effect taken
      obtain ⟨earlier, same⟩ := early_before effect early
      have untouched := ih earlier
      constructor
      · rw [same]
        exact untouched.stopped
      · exact alive_step effect untouched

end Uvcpp.EventLoopThreadPool
