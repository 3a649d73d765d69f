/-
What the actions of the ThreadPool program do, one case an outcome.
-/

import Uvcpp.Library.MonitorRules
import Uvcpp.Thread.ThreadPool

namespace Uvcpp.ThreadPool

open Monitor

variable {Body : Type}

/-- Every outcome of every action. -/
inductive Moves : Thread → Local Body → Shared Body → Shared Body → Local Body → Prop where
  | start {sh : Shared Body} {threadNum : Nat} (off : sh.running = false)
      (threads : 0 < threadNum) (room : 0 < sh.maxSize) :
      Moves .controller (.control .created) sh { sh with activeThreadNum := 0 }
        (.control (.spawning threadNum))
  | spawn {sh : Shared Body} {threadNum : Nat} (missing : sh.threads < threadNum) :
      Moves .controller (.control (.spawning threadNum)) sh
        { sh with threads := sh.threads + 1, spawned := sh.spawned + 1 }
        (.control (.spawning threadNum))
  | complete {sh : Shared Body} {threadNum : Nat} (enough : threadNum ≤ sh.threads) :
      Moves .controller (.control (.spawning threadNum)) sh sh (.control (.publishing threadNum))
  | publish {sh : Shared Body} {threadNum : Nat} :
      Moves .controller (.control (.publishing threadNum)) sh
        { sh with running := true, stage := .started } (.control (.started threadNum))
  | stop {sh : Shared Body} {threadNum : Nat} :
      Moves .controller (.control (.started threadNum)) sh sh (.control .locking)
  | turnOff {sh : Shared Body} :
      Moves .controller (.control .turningOff) sh
        { sh with running := false, stage := .stopping } (.control .notifying)
  | join {sh : Shared Body} {index : Nat} (more : index < sh.threads)
      (exited : sh.exited index = true) :
      Moves .controller (.control (.joining index)) sh sh (.control (.joining (index + 1)))
  | joined {sh : Shared Body} {index : Nat} (all : sh.threads ≤ index) :
      Moves .controller (.control (.joining index)) sh { sh with threads := 0 }
        (.control .dropping)
  | drop {sh : Shared Body} {job : Job Body} {rest : List (Job Body)}
      (front : sh.queue = job :: rest) :
      Moves .controller (.control .dropping) sh
        { sh with queue := rest, dropped := sh.dropped ++ [job] } (.control .dropping)
  | drained {sh : Shared Body} (empty : sh.queue = []) :
      Moves .controller (.control .dropping) sh { sh with stage := .stopped }
        (.control .unlocking)
  | call {sh : Shared Body} {index : Nat} {task : Option Body} :
      Moves (.producer index) (.run .outside) sh sh (.run (.locking task))
  | full {sh : Shared Body} {index : Nat} {task : Option Body}
      (full : sh.maxSize ≤ sh.queue.length) (on : sh.running = true) :
      Moves (.producer index) (.run (.testing task)) sh sh (.run (.waiting task))
  | room {sh : Shared Body} {index : Nat} {task : Option Body}
      (room : sh.running = true → sh.queue.length < sh.maxSize) :
      Moves (.producer index) (.run (.testing task)) sh sh (.run (.checking task))
  | push {sh : Shared Body} {index : Nat} {task : Option Body} (on : sh.running = true) :
      Moves (.producer index) (.run (.checking task)) sh
        { sh with
          queue := sh.queue ++ [⟨sh.pushed.length, task⟩]
          pushed := sh.pushed ++ [⟨sh.pushed.length, task⟩] }
        (.run .notifying)
  | refuse {sh : Shared Body} {index : Nat} {task : Option Body} (off : sh.running = false) :
      Moves (.producer index) (.run (.checking task)) sh sh (.run .unlocking)
  | birth {sh : Shared Body} {index : Nat} (created : index < sh.spawned) :
      Moves (.worker index) (.func .unborn) sh sh (.func .initializing)
  | prepare {sh : Shared Body} {index : Nat} :
      Moves (.worker index) (.func .initializing) sh sh (.func .testing)
  | enter {sh : Shared Body} {index : Nat} (on : sh.running = true) :
      Moves (.worker index) (.func .testing) sh sh (.func .locking)
  | leave {sh : Shared Body} {index : Nat} (off : sh.running = false) :
      Moves (.worker index) (.func .testing) sh sh (.func .leaving)
  | empty {sh : Shared Body} {index : Nat} (empty : sh.queue = []) :
      Moves (.worker index) (.func .looking) sh sh (.func .waiting)
  | present {sh : Shared Body} {index : Nat} (present : sh.queue ≠ []) :
      Moves (.worker index) (.func .looking) sh sh (.func .taking)
  | nothing {sh : Shared Body} {index : Nat} (empty : sh.queue = []) :
      Moves (.worker index) (.func .taking) sh sh (.func (.unlocking none))
  | take {sh : Shared Body} {index : Nat} {job : Job Body} {rest : List (Job Body)}
      (front : sh.queue = job :: rest) :
      Moves (.worker index) (.func .taking) sh
        { sh with queue := rest, dequeued := sh.dequeued ++ [job] }
        (.func (.notifying job))
  | idle {sh : Shared Body} {index : Nat} :
      Moves (.worker index) (.func (.holding none)) sh sh (.func .testing)
  | discard {sh : Shared Body} {index : Nat} {job : Job Body} (bodiless : job.task = none) :
      Moves (.worker index) (.func (.holding (some job))) sh
        { sh with discarded := sh.discarded ++ [job] } (.func .testing)
  | count {sh : Shared Body} {index : Nat} {job : Job Body} (callable : job.task.isSome) :
      Moves (.worker index) (.func (.holding (some job))) sh
        { sh with activeThreadNum := sh.activeThreadNum + 1 } (.func (.counted job))
  | begin {sh : Shared Body} {index : Nat} {job : Job Body} :
      Moves (.worker index) (.func (.counted job)) sh
        { sh with begun := sh.begun ++ [job] } (.func (.calling job))
  | finish {sh : Shared Body} {index : Nat} {job : Job Body} :
      Moves (.worker index) (.func (.calling job)) sh
        { sh with finished := sh.finished ++ [job] } (.func (.called job))
  | uncount {sh : Shared Body} {index : Nat} {job : Job Body} :
      Moves (.worker index) (.func (.called job)) sh
        { sh with activeThreadNum := sh.activeThreadNum - 1 } (.func .testing)
  | exit {sh : Shared Body} {index : Nat} :
      Moves (.worker index) (.func .leaving) sh
        { sh with exited := Function.update sh.exited index true } (.func .exited)

theorem control_moves {place : ControlAt}
    {action : Choice Body → Shared Body → Option (Shared Body × Local Body)} {choice : Choice Body}
    {sh sh' : Shared Body} {next : Local Body}
    (acts : control place = .act action) (result : action choice sh = some (sh', next)) :
    Moves .controller (.control place) sh sh' next := by
  cases place <;> cases acts
  all_goals (try dsimp only at result)
  case created =>
    split at result
    · split at result
      · rename_i allowed
        cases result
        exact .start allowed.1 allowed.2.1 allowed.2.2
      · cases result
    · cases result
  case spawning threadNum =>
    split at result
    · cases result
      exact .spawn ‹_›
    · cases result
      exact .complete (Nat.le_of_not_lt ‹_›)
  case publishing threadNum =>
    cases result
    exact .publish
  case started threadNum =>
    split at result
    · cases result
      exact .stop
    · cases result
  case turningOff =>
    cases result
    exact .turnOff
  case joining index =>
    split at result
    · split at result
      · cases result
        exact .join ‹_› ‹_›
      · cases result
    · cases result
      exact .joined (Nat.le_of_not_lt ‹_›)
  case dropping =>
    split at result
    · cases result
      exact .drained ‹_›
    · cases result
      exact .drop ‹_›
  case stopped =>
    cases result

theorem run_moves {index : Nat} {place : RunAt Body}
    {action : Choice Body → Shared Body → Option (Shared Body × Local Body)} {choice : Choice Body}
    {sh sh' : Shared Body} {next : Local Body}
    (acts : run place = .act action) (result : action choice sh = some (sh', next)) :
    Moves (.producer index) (.run place) sh sh' next := by
  cases place <;> cases acts
  case outside =>
    dsimp only at result
    split at result
    · cases result
      exact .call
    · cases result
  case testing task =>
    dsimp only at result
    split at result
    · rename_i full
      cases result
      exact .full full.1 full.2
    · rename_i room
      cases result
      apply Moves.room
      intro on
      exact Nat.lt_of_not_le (fun full => room ⟨full, on⟩)
  case checking task =>
    dsimp only at result
    split at result
    · cases result
      exact .push ‹_›
    · cases result
      exact .refuse (Bool.eq_false_iff.mpr ‹_›)

theorem threadFunc_moves {index : Nat} {place : FuncAt Body}
    {action : Choice Body → Shared Body → Option (Shared Body × Local Body)} {choice : Choice Body}
    {sh sh' : Shared Body} {next : Local Body}
    (acts : threadFunc index place = .act action) (result : action choice sh = some (sh', next)) :
    Moves (.worker index) (.func place) sh sh' next := by
  cases place <;> cases acts
  all_goals (try dsimp only at result)
  case unborn =>
    split at result
    · cases result
      exact .birth ‹_›
    · cases result
  case initializing =>
    cases result
    exact .prepare
  case testing =>
    split at result
    · cases result
      exact .enter ‹_›
    · cases result
      exact .leave (Bool.eq_false_iff.mpr ‹_›)
  case looking =>
    split at result
    · cases result
      exact .empty ‹_›
    · rename_i front
      cases result
      exact .present (by simp [front])
  case taking =>
    split at result
    · cases result
      exact .nothing ‹_›
    · cases result
      exact .take ‹_›
  case holding job =>
    split at result
    · cases result
      exact .idle
    · split at result
      · cases result
        exact .discard ‹_›
      · rename_i body callable
        cases result
        exact .count (by simp [callable])
  case counted job =>
    cases result
    exact .begin
  case calling job =>
    cases result
    exact .finish
  case called job =>
    cases result
    exact .uncount
  case leaving =>
    cases result
    exact .exit
  case exited =>
    cases result

/-- The only actions are these. -/
theorem moves {t : Thread} {l next : Local Body}
    {action : Choice Body → Shared Body → Option (Shared Body × Local Body)}
    {choice : Choice Body} {sh sh' : Shared Body} (acts : code t l = .act action)
    (result : action choice sh = some (sh', next)) : Moves t l sh sh' next := by
  unfold code at acts
  split at acts
  · exact control_moves acts result
  · exact run_moves acts result
  · exact threadFunc_moves acts result
  · cases acts
    cases result

/-! ### The other instructions -/

theorem code_lock {t : Thread} {l next : Local Body} (same : code t l = .lock next) :
    (t = .controller ∧ l = .control .locking ∧ next = .control .turningOff) ∨
      (∃ index task, t = .producer index ∧ l = .run (.locking task) ∧
        next = .run (.testing task)) ∨
      ∃ index, t = .worker index ∧ l = .func .locking ∧ next = .func .looking := by
  unfold code at same
  split at same
  · rename_i place
    cases place <;> cases same
    exact .inl ⟨rfl, rfl, rfl⟩
  · rename_i index place
    cases place <;> cases same
    exact .inr (.inl ⟨index, _, rfl, rfl, rfl⟩)
  · rename_i index place
    cases place <;> cases same
    exact .inr (.inr ⟨index, rfl, rfl, rfl⟩)
  · cases same

theorem code_unlock {t : Thread} {l next : Local Body} (same : code t l = .unlock next) :
    (t = .controller ∧ l = .control .unlocking ∧ next = .control .stopped) ∨
      (∃ index, t = .producer index ∧ l = .run .unlocking ∧ next = .run .outside) ∨
      ∃ index job, t = .worker index ∧ l = .func (.unlocking job) ∧
        next = .func (.holding job) := by
  unfold code at same
  split at same
  · rename_i place
    cases place <;> cases same
    exact .inl ⟨rfl, rfl, rfl⟩
  · rename_i index place
    cases place <;> cases same
    exact .inr (.inl ⟨index, rfl, rfl, rfl⟩)
  · rename_i index place
    cases place <;> cases same
    exact .inr (.inr ⟨index, _, rfl, rfl, rfl⟩)
  · cases same

theorem code_wait {t : Thread} {l next : Local Body} {cond : Cond}
    (same : code t l = .wait cond next) :
    (∃ index task, t = .producer index ∧ l = .run (.waiting task) ∧ cond = .notFull ∧
        next = .run (.testing task)) ∨
      ∃ index, t = .worker index ∧ l = .func .waiting ∧ cond = .notEmpty ∧
        next = .func .taking := by
  unfold code at same
  split at same
  · rename_i place
    cases place <;> cases same
  · rename_i index place
    cases place <;> cases same
    exact .inl ⟨index, _, rfl, rfl, rfl, rfl⟩
  · rename_i index place
    cases place <;> cases same
    exact .inr ⟨index, rfl, rfl, rfl, rfl⟩
  · cases same

theorem code_notifyAll {t : Thread} {l next : Local Body} {cond : Cond}
    (same : code t l = .notifyAll cond next) :
    (t = .controller ∧ l = .control .notifying ∧ cond = .notEmpty ∧
        next = .control (.joining 0)) ∨
      (∃ index, t = .producer index ∧ l = .run .notifying ∧ cond = .notEmpty ∧
        next = .run .unlocking) ∨
      ∃ index job, t = .worker index ∧ l = .func (.notifying job) ∧ cond = .notFull ∧
        next = .func (.unlocking (some job)) := by
  unfold code at same
  split at same
  · rename_i place
    cases place <;> cases same
    exact .inl ⟨rfl, rfl, rfl, rfl⟩
  · rename_i index place
    cases place <;> cases same
    exact .inr (.inl ⟨index, rfl, rfl, rfl, rfl⟩)
  · rename_i index place
    cases place <;> cases same
    exact .inr (.inr ⟨index, _, rfl, rfl, rfl, rfl⟩)
  · cases same

theorem locking : Locking (@code Body) inside := by
  constructor
  · intro t l next same
    rcases code_lock same with ⟨rfl, rfl, rfl⟩ | ⟨_, _, rfl, rfl, rfl⟩ | ⟨_, rfl, rfl, rfl⟩ <;>
      simp [inside]
  · intro t l next same
    rcases code_unlock same with ⟨rfl, rfl, rfl⟩ | ⟨_, rfl, rfl, rfl⟩ | ⟨_, _, rfl, rfl, rfl⟩ <;>
      simp [inside]
  · intro t l cond next same
    rcases code_wait same with ⟨_, _, rfl, rfl, rfl, rfl⟩ | ⟨_, rfl, rfl, rfl, rfl⟩ <;>
      simp [inside]
  · intro t l cond next same
    rcases code_notifyAll same with ⟨rfl, rfl, rfl, rfl⟩ | ⟨_, rfl, rfl, rfl, rfl⟩ |
      ⟨_, _, rfl, rfl, rfl, rfl⟩ <;> simp [inside]
  · intro t l action choice sh sh' next acts result
    cases moves acts result <;> simp [inside]

end Uvcpp.ThreadPool
