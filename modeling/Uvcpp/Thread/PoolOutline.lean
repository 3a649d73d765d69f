/-
The proof outline of the ThreadPool program.

Only the controller writes `running_`, and while stop holds the mutex no worker can
be inside.  A worker that has seen `running_` set therefore finds the pool started
whenever it gets the mutex.
-/

import Uvcpp.Thread.PoolMoves

namespace Uvcpp.ThreadPool

open Monitor

variable {Body : Type}

/-! ### Assertions -/

/-- What the queue and its history satisfy in every state. -/
structure Sound (sh : Shared Body) : Prop where
  bound : sh.queue.length ≤ sh.maxSize
  order : sh.dequeued ++ sh.dropped ++ sh.queue = sh.pushed
  numbered : sh.pushed.map Job.ticket = List.range sh.pushed.length
  kept : sh.stage = .idle ∨ sh.stage = .started → sh.dropped = []
  unfilled : sh.stage = .idle ∨ sh.stage = .stopped → sh.queue = []

/-- `running_` follows the progress of start and stop. -/
def Tied (sh : Shared Body) : Prop :=
  sh.running = true ↔ sh.stage = .started

/-- What holds while nobody has the mutex. -/
structure Calm (sh : Shared Body) : Prop where
  sound : Sound sh
  settled : sh.stage ≠ .stopping

/-- The worker exists and has not ended. -/
structure Alive (index : Nat) (sh : Shared Body) : Prop where
  created : index < sh.spawned
  exited : sh.exited index = false

/-- start was completed and stop has not joined the workers. -/
def Serving (sh : Shared Body) : Prop :=
  sh.stage = .started ∨ sh.stage = .stopping

def controlAssertion (sh : Shared Body) : ControlAt → Prop
  | .created => sh.stage = .idle ∧ sh.threads = 0 ∧ sh.spawned = 0
  | .spawning threadNum =>
      sh.stage = .idle ∧ 0 < sh.maxSize ∧ sh.threads = sh.spawned ∧ sh.spawned ≤ threadNum
  | .publishing threadNum =>
      sh.stage = .idle ∧ 0 < sh.maxSize ∧ sh.threads = sh.spawned ∧ sh.spawned = threadNum
  | .started threadNum =>
      sh.stage = .started ∧ sh.threads = sh.spawned ∧ sh.spawned = threadNum
  | .locking => sh.stage = .started ∧ sh.threads = sh.spawned
  | .turningOff => Sound sh ∧ sh.stage = .started ∧ sh.threads = sh.spawned
  | .notifying => Sound sh ∧ sh.stage = .stopping ∧ sh.threads = sh.spawned
  | .joining index =>
      Sound sh ∧ sh.stage = .stopping ∧ sh.threads = sh.spawned ∧
        ∀ earlier < index, earlier < sh.spawned → sh.exited earlier = true
  | .dropping =>
      Sound sh ∧ sh.stage = .stopping ∧ ∀ index < sh.spawned, sh.exited index = true
  | .unlocking => Sound sh ∧ sh.stage = .stopped
  | .stopped => sh.stage = .stopped

def runAssertion (sh : Shared Body) : RunAt Body → Prop
  | .outside => True
  | .locking _ => True
  | .testing _ => Calm sh
  | .waiting _ => Calm sh ∧ sh.running = true ∧ sh.maxSize ≤ sh.queue.length
  | .checking _ => Calm sh ∧ (sh.stage = .started → sh.queue.length < sh.maxSize)
  | .notifying => Calm sh
  | .unlocking => Calm sh

def funcAssertion (index : Nat) (sh : Shared Body) : FuncAt Body → Prop
  | .unborn => sh.exited index = false
  | .locking => Alive index sh ∧ Serving sh
  | .looking => Alive index sh ∧ Sound sh ∧ sh.stage = .started
  | .waiting => Alive index sh ∧ Sound sh ∧ sh.stage = .started ∧ sh.queue = []
  | .taking => Alive index sh ∧ Sound sh ∧ sh.stage = .started
  | .notifying _ => Alive index sh ∧ Sound sh ∧ sh.stage = .started
  | .unlocking _ => Alive index sh ∧ Sound sh ∧ sh.stage = .started
  | .exited => sh.exited index = true
  | _ => Alive index sh

def assertion (t : Thread) (l : Local Body) (sh : Shared Body) : Prop :=
  Tied sh ∧
    match t, l with
    | .controller, .control place => controlAssertion sh place
    | .producer _, .run place => runAssertion sh place
    | .worker index, .func place => funcAssertion index sh place
    | _, _ => False

/-- A worker waits only after start and before stop has joined it. -/
def resting (t : Thread) (l : Local Body) (sh : Shared Body) : Prop :=
  Tied sh ∧
    match t, l with
    | .producer _, .run _ => True
    | .worker index, .func _ => Alive index sh ∧ Serving sh
    | _, _ => False

/-! ### Frames -/

/-- The step leaves the flag, the progress and the threads as they were. -/
structure Frame (sh sh' : Shared Body) : Prop where
  maxSize : sh'.maxSize = sh.maxSize
  running : sh'.running = sh.running
  stage : sh'.stage = sh.stage
  threads : sh'.threads = sh.threads
  spawned : sh'.spawned = sh.spawned
  exited : sh'.exited = sh.exited

/-- The step leaves the queue and its history as they were. -/
structure Unqueued (sh sh' : Shared Body) : Prop where
  queue : sh'.queue = sh.queue
  pushed : sh'.pushed = sh.pushed
  dequeued : sh'.dequeued = sh.dequeued
  dropped : sh'.dropped = sh.dropped

theorem Sound.frame {sh sh' : Shared Body} (sound : Sound sh) (frame : Frame sh sh')
    (unqueued : Unqueued sh sh') : Sound sh' := by
  constructor
  · rw [unqueued.queue, frame.maxSize]
    exact sound.bound
  · rw [unqueued.queue, unqueued.pushed, unqueued.dequeued, unqueued.dropped]
    exact sound.order
  · rw [unqueued.pushed]
    exact sound.numbered
  · rw [unqueued.dropped, frame.stage]
    exact sound.kept
  · rw [unqueued.queue, frame.stage]
    exact sound.unfilled

theorem Calm.frame {sh sh' : Shared Body} (calm : Calm sh) (frame : Frame sh sh')
    (unqueued : Unqueued sh sh') : Calm sh' := by
  constructor
  · exact calm.sound.frame frame unqueued
  · rw [frame.stage]
    exact calm.settled

theorem Tied.frame {sh sh' : Shared Body} (tied : Tied sh) (frame : Frame sh sh') : Tied sh' := by
  unfold Tied
  rw [frame.running, frame.stage]
  exact tied

theorem Alive.frame {index : Nat} {sh sh' : Shared Body} (alive : Alive index sh)
    (frame : Frame sh sh') : Alive index sh' := by
  constructor
  · rw [frame.spawned]
    exact alive.created
  · rw [frame.exited]
    exact alive.exited

theorem assertion_frame {t : Thread} {l : Local Body} {sh sh' : Shared Body}
    (frame : Frame sh sh') (unqueued : inside t l → Unqueued sh sh')
    (holds : assertion t l sh) : assertion t l sh' := by
  obtain ⟨tied, holds⟩ := holds
  refine ⟨tied.frame frame, ?_⟩
  split at holds
  · rename_i place
    cases place
    case turningOff | notifying | joining | dropping | unlocking =>
      obtain ⟨sound, rest⟩ := holds
      refine ⟨sound.frame frame (unqueued trivial), ?_⟩
      simpa only [frame.stage, frame.threads, frame.spawned, frame.exited] using rest
    all_goals
      simpa only [controlAssertion, frame.stage, frame.threads, frame.spawned, frame.maxSize]
        using holds
  · rename_i index place
    cases place
    case outside | locking => trivial
    case waiting | checking =>
      have same := unqueued trivial
      obtain ⟨calm, rest⟩ := holds
      refine ⟨calm.frame frame same, ?_⟩
      simpa only [frame.running, frame.stage, frame.maxSize, same.queue] using rest
    all_goals exact Calm.frame holds frame (unqueued trivial)
  · rename_i index place
    cases place
    case unborn | exited =>
      simpa only [funcAssertion, frame.exited] using holds
    case locking =>
      exact ⟨holds.1.frame frame, by simpa only [Serving, frame.stage] using holds.2⟩
    case looking | waiting | taking | notifying | unlocking =>
      have same := unqueued trivial
      obtain ⟨alive, sound, rest⟩ := holds
      refine ⟨alive.frame frame, sound.frame frame same, ?_⟩
      simpa only [frame.stage, same.queue] using rest
    all_goals exact Alive.frame holds frame
  · exact holds.elim

/-! ### What the actions establish -/

theorem Sound.push {sh : Shared Body} (sound : Sound sh) (started : sh.stage = .started)
    (room : sh.queue.length < sh.maxSize) (task : Option Body) :
    Sound { sh with
      queue := sh.queue ++ [⟨sh.pushed.length, task⟩]
      pushed := sh.pushed ++ [⟨sh.pushed.length, task⟩] } := by
  constructor
  · simpa [Nat.succ_le_iff] using room
  · simp [← sound.order]
  · simp [sound.numbered, List.range_succ]
  · exact sound.kept
  · simp [started]

theorem Sound.take {sh : Shared Body} {job : Job Body} {rest : List (Job Body)}
    (sound : Sound sh) (started : sh.stage = .started) (front : sh.queue = job :: rest) :
    Sound { sh with queue := rest, dequeued := sh.dequeued ++ [job] } := by
  have kept := sound.kept (.inr started)
  constructor
  · have bound := sound.bound
    rw [front, List.length_cons] at bound
    exact Nat.le_of_succ_le bound
  · have order := sound.order
    rw [front, kept] at order
    simpa [kept] using order
  · exact sound.numbered
  · exact sound.kept
  · simp [started]

theorem Sound.drop {sh : Shared Body} {job : Job Body} {rest : List (Job Body)}
    (sound : Sound sh) (stopping : sh.stage = .stopping) (front : sh.queue = job :: rest) :
    Sound { sh with queue := rest, dropped := sh.dropped ++ [job] } := by
  constructor
  · have bound := sound.bound
    rw [front, List.length_cons] at bound
    exact Nat.le_of_succ_le bound
  · have order := sound.order
    rw [front] at order
    simpa using order
  · exact sound.numbered
  · simp [stopping]
  · simp [stopping]

/-- The progress of start and stop concerns only what is kept and what is empty. -/
theorem Sound.restage {sh sh' : Shared Body} (sound : Sound sh) (size : sh'.maxSize = sh.maxSize)
    (unqueued : Unqueued sh sh')
    (kept : sh'.stage = .idle ∨ sh'.stage = .started → sh.dropped = [])
    (unfilled : sh'.stage = .idle ∨ sh'.stage = .stopped → sh.queue = []) : Sound sh' := by
  constructor
  · rw [unqueued.queue, size]
    exact sound.bound
  · rw [unqueued.queue, unqueued.pushed, unqueued.dequeued, unqueued.dropped]
    exact sound.order
  · rw [unqueued.pushed]
    exact sound.numbered
  · rw [unqueued.dropped]
    exact kept
  · rw [unqueued.queue]
    exact unfilled

theorem Sound.unstaged {sh sh' : Shared Body} (sound : Sound sh) (size : sh'.maxSize = sh.maxSize)
    (stage : sh'.stage = sh.stage) (unqueued : Unqueued sh sh') : Sound sh' := by
  apply sound.restage size unqueued
  · rw [stage]
    exact sound.kept
  · rw [stage]
    exact sound.unfilled

theorem Calm.publish {sh : Shared Body} (calm : Calm sh) (idle : sh.stage = .idle) :
    Calm { sh with running := true, stage := .started } := by
  constructor
  · apply Sound.restage calm.sound
    · rfl
    · exact ⟨rfl, rfl, rfl, rfl⟩
    · intro _stage
      exact calm.sound.kept (.inl idle)
    · simp
  · simp

theorem Calm.unstaged {sh sh' : Shared Body} (calm : Calm sh) (size : sh'.maxSize = sh.maxSize)
    (stage : sh'.stage = sh.stage) (unqueued : Unqueued sh sh') : Calm sh' := by
  constructor
  · exact calm.sound.unstaged size stage unqueued
  · rw [stage]
    exact calm.settled

theorem Moves.free {t : Thread} {l next : Local Body} {sh sh' : Shared Body}
    (move : Moves t l sh sh' next) (holds : assertion t l sh) (outside : ¬ inside t l)
    (calm : Calm sh) : Calm sh' := by
  cases move
  case publish => exact calm.publish holds.2.1
  case turnOff | join | joined | drop | drained | full | room | push | refuse | empty |
      present | nothing | take =>
    exact absurd trivial outside
  all_goals exact calm.unstaged rfl rfl ⟨rfl, rfl, rfl, rfl⟩

theorem Moves.control {l next : Local Body} {sh sh' : Shared Body}
    (move : Moves .controller l sh sh' next) (holds : assertion .controller l sh) :
    assertion .controller next sh' := by
  obtain ⟨tied, holds⟩ := holds
  cases move with
  | start off threads room =>
      exact ⟨tied, holds.1, room, holds.2.1.trans holds.2.2.symm, by simp [holds.2.2]⟩
  | spawn missing =>
      obtain ⟨idle, room, same, _⟩ := holds
      exact ⟨tied, idle, room, congrArg (· + 1) same,
        by simpa [← same, Nat.succ_le_iff] using missing⟩
  | complete enough =>
      obtain ⟨idle, room, same, within⟩ := holds
      exact ⟨tied, idle, room, same, Nat.le_antisymm within (same ▸ enough)⟩
  | publish =>
      exact ⟨by simp [Tied], rfl, holds.2.2⟩
  | stop =>
      exact ⟨tied, holds.1, holds.2.1⟩
  | turnOff =>
      obtain ⟨sound, started, same⟩ := holds
      refine ⟨by simp [Tied], ?_, rfl, same⟩
      apply Sound.restage sound
      · rfl
      · exact ⟨rfl, rfl, rfl, rfl⟩
      · simp
      · simp
  | @join _ index more exited =>
      obtain ⟨sound, stopping, same, earlier⟩ := holds
      refine ⟨tied, sound, stopping, same, ?_⟩
      intro before within created
      rcases Nat.lt_succ_iff_lt_or_eq.mp within with less | equal
      · exact earlier before less created
      · exact equal ▸ exited
  | joined all =>
      obtain ⟨sound, stopping, same, earlier⟩ := holds
      refine ⟨tied, sound.unstaged rfl rfl ⟨rfl, rfl, rfl, rfl⟩, stopping, ?_⟩
      intro index created
      exact earlier index (Nat.lt_of_lt_of_le created (same ▸ all)) created
  | drop front =>
      exact ⟨tied, holds.1.drop holds.2.1 front, holds.2⟩
  | drained empty =>
      obtain ⟨sound, stopping, _⟩ := holds
      refine ⟨?_, ?_, rfl⟩
      · unfold Tied at tied ⊢
        simp_all
      · apply Sound.restage sound
        · rfl
        · exact ⟨rfl, rfl, rfl, rfl⟩
        · simp
        · intro _stage
          exact empty

theorem Moves.run {index : Nat} {l next : Local Body} {sh sh' : Shared Body}
    (move : Moves (.producer index) l sh sh' next) (holds : assertion (.producer index) l sh) :
    assertion (.producer index) next sh' := by
  obtain ⟨tied, holds⟩ := holds
  cases move with
  | call =>
      exact ⟨tied, trivial⟩
  | full full on =>
      exact ⟨tied, holds, on, full⟩
  | room room =>
      exact ⟨tied, holds, fun started => room (tied.2 started)⟩
  | push on =>
      obtain ⟨calm, room⟩ := holds
      have started := tied.1 on
      exact ⟨tied, calm.sound.push started (room started) _, calm.settled⟩
  | refuse off =>
      exact ⟨tied, holds.1⟩

theorem Moves.func {index : Nat} {l next : Local Body} {sh sh' : Shared Body}
    (move : Moves (.worker index) l sh sh' next) (holds : assertion (.worker index) l sh) :
    assertion (.worker index) next sh' := by
  obtain ⟨tied, holds⟩ := holds
  cases move with
  | birth created =>
      exact ⟨tied, created, holds⟩
  | enter on =>
      exact ⟨tied, holds, .inl (tied.1 on)⟩
  | empty empty =>
      exact ⟨tied, holds.1, holds.2.1, holds.2.2, empty⟩
  | take front =>
      exact ⟨tied, ⟨holds.1.created, holds.1.exited⟩, holds.2.1.take holds.2.2 front, holds.2.2⟩
  | exit =>
      exact ⟨tied, Function.update_self ..⟩
  | prepare | leave | present | nothing | idle =>
      exact ⟨tied, holds⟩
  | discard | count | begin | finish | uncount =>
      exact ⟨tied, holds.created, holds.exited⟩

/-! ### What the actions keep for the other threads -/

theorem run_keeps (index : Nat) {place : RunAt Body} {sh sh' : Shared Body}
    (keeps : runAssertion sh place)
    (within : inside (.producer index) (.run place) → sh'.maxSize = sh.maxSize ∧
      sh'.stage = sh.stage ∧ sh'.running = sh.running ∧ Unqueued sh sh') :
    runAssertion sh' place := by
  cases place
  case outside | locking => trivial
  case waiting | checking =>
    obtain ⟨size, stage, running, unqueued⟩ := within trivial
    refine ⟨keeps.1.unstaged size stage unqueued, ?_⟩
    simpa only [size, stage, running, unqueued.queue] using keeps.2
  all_goals
    obtain ⟨size, stage, _, unqueued⟩ := within trivial
    exact Calm.unstaged keeps size stage unqueued

theorem func_keeps {index : Nat} {place : FuncAt Body} {sh sh' : Shared Body}
    (keeps : funcAssertion index sh place) (exited : sh'.exited index = sh.exited index)
    (created : index < sh.spawned → index < sh'.spawned)
    (serving : Alive index sh → Serving sh → Serving sh')
    (within : inside (.worker index) (.func place) → sh.stage = .started →
      sh'.maxSize = sh.maxSize ∧ sh'.stage = sh.stage ∧ Unqueued sh sh') :
    funcAssertion index sh' place := by
  have alive : Alive index sh → Alive index sh' :=
    fun alive => ⟨created alive.created, exited.trans alive.exited⟩
  cases place
  case unborn | exited => exact exited.trans keeps
  case locking => exact ⟨alive keeps.1, serving keeps.1 keeps.2⟩
  case waiting =>
    obtain ⟨lives, sound, started, empty⟩ := keeps
    obtain ⟨size, stage, unqueued⟩ := within trivial started
    exact ⟨alive lives, sound.unstaged size stage unqueued, stage.trans started,
      unqueued.queue.trans empty⟩
  case looking | taking | notifying | unlocking =>
    obtain ⟨lives, sound, started⟩ := keeps
    obtain ⟨size, stage, unqueued⟩ := within trivial started
    exact ⟨alive lives, sound.unstaged size stage unqueued, stage.trans started⟩
  all_goals exact alive keeps

theorem publish_keeps {place : RunAt Body} {sh : Shared Body} (idle : sh.stage = .idle)
    (off : sh.running = false) (size : 0 < sh.maxSize) (keeps : runAssertion sh place) :
    runAssertion { sh with running := true, stage := .started } place := by
  cases place
  case outside | locking => trivial
  case waiting =>
    obtain ⟨_, on, _⟩ := keeps
    rw [off] at on
    cases on
  case checking =>
    refine ⟨keeps.1.publish idle, ?_⟩
    intro _started
    simpa [keeps.1.sound.unfilled (.inl idle)] using size
  all_goals exact Calm.publish keeps idle

/-- The end of a worker only adds to what the controller has joined. -/
theorem exit_keeps {index : Nat} {place : ControlAt} {sh : Shared Body}
    (keeps : controlAssertion sh place) :
    controlAssertion { sh with exited := Function.update sh.exited index true } place := by
  have grows : ∀ worker, sh.exited worker = true →
      Function.update sh.exited index true worker = true := by
    intro worker ended
    by_cases same : worker = index
    · simp [same]
    · simpa [same] using ended
  cases place
  case joining position =>
    obtain ⟨sound, stopping, same, earlier⟩ := keeps
    refine ⟨sound.unstaged rfl rfl ⟨rfl, rfl, rfl, rfl⟩, stopping, same, ?_⟩
    intro worker before created
    exact grows worker (earlier worker before created)
  case dropping =>
    obtain ⟨sound, stopping, all⟩ := keeps
    refine ⟨sound.unstaged rfl rfl ⟨rfl, rfl, rfl, rfl⟩, stopping, ?_⟩
    intro worker created
    exact grows worker (all worker created)
  case turningOff | notifying | unlocking =>
    exact ⟨Sound.unstaged keeps.1 rfl rfl ⟨rfl, rfl, rfl, rfl⟩, keeps.2⟩
  all_goals exact keeps

theorem Moves.tied {t : Thread} {l next : Local Body} {sh sh' : Shared Body}
    (move : Moves t l sh sh' next) (holds : assertion t l sh) : Tied sh' := by
  cases t with
  | controller => exact (move.control holds).1
  | producer index => exact (move.run holds).1
  | worker index => exact (move.func holds).1

theorem Moves.stable {t : Thread} {l next : Local Body} {sh sh' : Shared Body}
    (move : Moves t l sh sh' next) (holds : assertion t l sh) (u : Thread) (k : Local Body)
    (other : u ≠ t) (apart : ¬ (inside t l ∧ inside u k)) (keeps : assertion u k sh) :
    assertion u k sh' := by
  have after := move.tied holds
  have framed : Frame sh sh' → (inside u k → Unqueued sh sh') → assertion u k sh' :=
    fun frame unqueued => assertion_frame frame unqueued keeps
  obtain ⟨tied, holds⟩ := holds
  obtain ⟨_, keeps⟩ := keeps
  cases move
  case push | take | drop =>
    exact framed ⟨rfl, rfl, rfl, rfl, rfl, rfl⟩ fun within => absurd ⟨trivial, within⟩ apart
  case spawn =>
    refine ⟨after, ?_⟩
    split at keeps
    · exact absurd rfl other
    · rename_i producer place
      apply run_keeps producer keeps
      intro _within
      exact ⟨rfl, rfl, rfl, rfl, rfl, rfl, rfl⟩
    · apply func_keeps keeps
      · rfl
      · intro created
        exact Nat.lt_succ_of_lt created
      · exact fun _ serving => serving
      · intro _within _started
        exact ⟨rfl, rfl, rfl, rfl, rfl, rfl⟩
    · exact keeps.elim
  case publish =>
    obtain ⟨idle, size, _⟩ := holds
    refine ⟨after, ?_⟩
    split at keeps
    · exact absurd rfl other
    · have off : sh.running = false := by
        simpa [Tied, idle] using tied
      exact publish_keeps idle off size keeps
    · apply func_keeps keeps
      · rfl
      · exact id
      · exact fun _ _ => .inl rfl
      · intro _within started
        rw [idle] at started
        cases started
    · exact keeps.elim
  case turnOff =>
    refine ⟨after, ?_⟩
    split at keeps
    · exact absurd rfl other
    · rename_i producer place
      apply run_keeps producer keeps
      intro within
      exact absurd ⟨trivial, within⟩ apart
    · apply func_keeps keeps
      · rfl
      · exact id
      · exact fun _ _ => .inr rfl
      · intro within
        exact absurd ⟨trivial, within⟩ apart
    · exact keeps.elim
  case joined =>
    refine ⟨after, ?_⟩
    split at keeps
    · exact absurd rfl other
    · rename_i producer place
      apply run_keeps producer keeps
      intro within
      exact absurd ⟨trivial, within⟩ apart
    · apply func_keeps keeps
      · rfl
      · exact id
      · exact fun _ serving => serving
      · intro within
        exact absurd ⟨trivial, within⟩ apart
    · exact keeps.elim
  case drained =>
    obtain ⟨_, _, ended⟩ := holds
    refine ⟨after, ?_⟩
    split at keeps
    · exact absurd rfl other
    · rename_i producer place
      apply run_keeps producer keeps
      intro within
      exact absurd ⟨trivial, within⟩ apart
    · apply func_keeps keeps
      · rfl
      · exact id
      · intro alive _serving
        have exited := ended _ alive.created
        rw [alive.exited] at exited
        cases exited
      · intro within
        exact absurd ⟨trivial, within⟩ apart
    · exact keeps.elim
  case exit =>
    refine ⟨after, ?_⟩
    split at keeps
    · exact exit_keeps keeps
    · rename_i producer place
      apply run_keeps producer keeps
      intro _within
      exact ⟨rfl, rfl, rfl, rfl, rfl, rfl, rfl⟩
    · apply func_keeps keeps
      · apply Function.update_of_ne
        intro same
        exact other (congrArg Thread.worker same)
      · exact id
      · exact fun _ serving => serving
      · intro _within _started
        exact ⟨rfl, rfl, rfl, rfl, rfl, rfl⟩
    · exact keeps.elim
  all_goals exact framed ⟨rfl, rfl, rfl, rfl, rfl, rfl⟩ fun _ => ⟨rfl, rfl, rfl, rfl⟩

theorem Moves.stableResting {t : Thread} {l next : Local Body} {sh sh' : Shared Body}
    (move : Moves t l sh sh' next) (holds : assertion t l sh) (u : Thread) (k : Local Body)
    (other : u ≠ t) (rests : resting u k sh) : resting u k sh' := by
  have after := move.tied holds
  obtain ⟨tied, holds⟩ := holds
  obtain ⟨_, rests⟩ := rests
  refine ⟨after, ?_⟩
  split at rests
  · trivial
  · rename_i worker place
    obtain ⟨alive, serving⟩ := rests
    cases move
    case spawn => exact ⟨⟨Nat.lt_succ_of_lt alive.created, alive.exited⟩, serving⟩
    case publish => exact ⟨⟨alive.created, alive.exited⟩, .inl rfl⟩
    case turnOff => exact ⟨⟨alive.created, alive.exited⟩, .inr rfl⟩
    case drained =>
      have exited := holds.2.2 worker alive.created
      rw [alive.exited] at exited
      cases exited
    case exit index =>
      have apart : worker ≠ index := fun same => other (congrArg Thread.worker same)
      refine ⟨⟨alive.created, ?_⟩, serving⟩
      rw [← alive.exited]
      exact Function.update_of_ne apart _ _
    all_goals exact ⟨⟨alive.created, alive.exited⟩, serving⟩
  · exact rests.elim

/-! ### The outline -/

theorem Calm.started {sh : Shared Body} (calm : Calm sh) (serving : Serving sh) :
    sh.stage = .started := by
  rcases serving with started | stopping
  · exact started
  · exact absurd stopping calm.settled

theorem outline : Outline (@code Body) inside Calm assertion resting := by
  constructor
  · intro t l next sh same calm holds
    rcases code_lock same with ⟨rfl, rfl, rfl⟩ | ⟨_, _, rfl, rfl, rfl⟩ | ⟨_, rfl, rfl, rfl⟩
    · exact ⟨holds.1, calm.sound, holds.2⟩
    · exact ⟨holds.1, calm⟩
    · exact ⟨holds.1, holds.2.1, calm.sound, calm.started holds.2.2⟩
  · intro t l next sh same holds
    rcases code_unlock same with ⟨rfl, rfl, rfl⟩ | ⟨_, rfl, rfl, rfl⟩ | ⟨_, _, rfl, rfl, rfl⟩
    · exact ⟨⟨holds.2.1, by simp [holds.2.2]⟩, holds.1, holds.2.2⟩
    · exact ⟨holds.2, holds.1, trivial⟩
    · exact ⟨⟨holds.2.2.1, by simp [holds.2.2.2]⟩, holds.1, holds.2.1⟩
  · intro t l cond next sh same holds
    rcases code_wait same with ⟨_, _, rfl, rfl, rfl, rfl⟩ | ⟨_, rfl, rfl, rfl, rfl⟩
    · exact ⟨holds.2.1, holds.1, trivial⟩
    · exact ⟨⟨holds.2.2.1, by simp [holds.2.2.2.1]⟩, holds.1, holds.2.1, .inl holds.2.2.2.1⟩
  · intro t l cond next sh same calm rests
    rcases code_wait same with ⟨_, _, rfl, rfl, rfl, rfl⟩ | ⟨_, rfl, rfl, rfl, rfl⟩
    · exact ⟨rests.1, calm⟩
    · exact ⟨rests.1, rests.2.1, calm.sound, calm.started rests.2.2⟩
  · intro t l cond next sh same holds
    rcases code_notifyAll same with ⟨rfl, rfl, rfl, rfl⟩ | ⟨_, rfl, rfl, rfl, rfl⟩ |
      ⟨_, _, rfl, rfl, rfl, rfl⟩
    · exact ⟨holds.1, holds.2.1, holds.2.2.1, holds.2.2.2, by simp⟩
    · exact holds
    · exact holds
  · intro t l action choice sh sh' next acts result holds
    have move := moves acts result
    refine ⟨?_, move.free holds⟩
    cases t with
    | controller => exact move.control holds
    | producer index => exact move.run holds
    | worker index => exact move.func holds
  · intro t l action choice sh sh' next acts result holds
    exact (moves acts result).stable holds
  · intro t l action choice sh sh' next acts result holds
    exact (moves acts result).stableResting holds

/-! ### Reachable states -/

theorem new_exclusive (maxSize : Nat) : Exclusive code inside (new maxSize : Pool Body) := by
  apply Exclusive.fresh
  · exact ⟨rfl, fun _ => rfl⟩
  · intro t
    cases t <;> simp [new, inside]

theorem new_annotated (maxSize : Nat) :
    Annotated Calm assertion resting (new maxSize : Pool Body) := by
  have tied : Tied (Shared.new maxSize : Shared Body) := by
    simp [Tied, Shared.new]
  constructor
  · intro _free
    constructor
    · constructor
      · simp [new, Shared.new]
      · simp [new, Shared.new]
      · simp [new, Shared.new]
      · intro _stage
        rfl
      · intro _stage
        rfl
    · simp [new, Shared.new]
  · intro t _running
    cases t with
    | controller => exact ⟨tied, rfl, rfl, rfl⟩
    | producer index => exact ⟨tied, trivial⟩
    | worker index => exact ⟨tied, rfl⟩
  · intro t stopped
    exact absurd rfl stopped

section Reachable

variable {maxSize : Nat} {s : Pool Body}

theorem exclusive (reachable : Transition.Reachable (system Body maxSize) s) :
    Exclusive code inside s := by
  apply locking.exclusive _ reachable
  rintro s rfl
  exact new_exclusive maxSize

theorem annotated (reachable : Transition.Reachable (system Body maxSize) s) :
    Annotated Calm assertion resting s := by
  apply outline.annotated locking _ reachable
  rintro s rfl
  exact ⟨new_exclusive maxSize, new_annotated maxSize⟩

end Reachable

end Uvcpp.ThreadPool
