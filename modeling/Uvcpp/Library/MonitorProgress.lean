/-
Programs over a monitor that come to rest.

A thread is idle at the locations where it need not go on.  The steps of the others are
internal.  If no internal step is possible, then every thread that is not idle sleeps.
Weights bound the internal steps of a run by its calls and its wake-ups.
-/

import Mathlib.Algebra.BigOperators.Ring.Finset
import Mathlib.Algebra.Order.BigOperators.Group.Finset
import Uvcpp.Library.MonitorRules

namespace Monitor

variable {Thread Cond Shared Local Choice : Type}
variable {p : Program Thread Cond Shared Local Choice}
variable {inside idle : Thread → Local → Prop}
variable [DecidableEq Thread]

/-! ### Rest -/

section Rest

variable [DecidableEq Cond]

/-- No thread can step unless it is idle. -/
def AtRest (p : Program Thread Cond Shared Local Choice) (idle : Thread → Local → Prop)
    (s : State Thread Cond Shared Local) : Prop :=
  ∀ t choice, ¬idle t (s.location t) → step p s (.run t choice) = none

/-- Idle threads are outside, and an action of another thread has an outcome. -/
structure Responsive (p : Program Thread Cond Shared Local Choice)
    (inside idle : Thread → Local → Prop) (s : State Thread Cond Shared Local) : Prop where
  outside : ∀ {t}, idle t (s.location t) → ¬inside t (s.location t)
  act : ∀ {t run}, s.standing t = .running → ¬idle t (s.location t) →
    p t (s.location t) = .act run → ∃ choice, (run choice s.shared).isSome

variable {s : State Thread Cond Shared Local} [Nonempty Choice]

/-- Who runs and is not idle is about to take a mutex that somebody has. -/
theorem AtRest.locks (rest : AtRest p idle s) (locking : Locking p inside)
    (exclusive : Exclusive p inside s) (responsive : Responsive p inside idle s) {t : Thread}
    (running : s.standing t = .running) (busy : ¬idle t (s.location t)) :
    (∃ next, p t (s.location t) = .lock next) ∧ s.owner ≠ none := by
  obtain ⟨choice⟩ := ‹Nonempty Choice›
  have stuck := rest t choice busy
  have owns : inside t (s.location t) → s.owner = some t := by
    intro within
    exact (exclusive.holds t).mpr ⟨running, within⟩
  cases code : p t (s.location t) with
  | lock next =>
      refine ⟨⟨next, rfl⟩, ?_⟩
      intro free
      simp [step, running, code, free] at stuck
  | unlock next =>
      have owned := owns (locking.unlock code).1
      simp [step, running, code, owned] at stuck
  | wait cond next =>
      have owned := owns (locking.wait code).1
      simp [step, running, code, owned] at stuck
  | notifyAll cond next =>
      simp [step, running, code] at stuck
  | act run =>
      obtain ⟨other, outcome⟩ := responsive.act running busy code
      have stuck := rest t other busy
      simp only [step, running, code, Option.map_eq_none_iff] at stuck
      rw [stuck] at outcome
      cases outcome

/-- At rest the mutex is free, and who is not idle sleeps. -/
theorem AtRest.asleep (rest : AtRest p idle s) (locking : Locking p inside)
    (exclusive : Exclusive p inside s) (responsive : Responsive p inside idle s) :
    s.owner = none ∧ ∀ t, ¬idle t (s.location t) → ∃ cond, s.standing t = .asleep cond := by
  have free : s.owner = none := by
    cases owned : s.owner with
    | none => rfl
    | some t =>
        obtain ⟨running, within⟩ := (exclusive.holds t).mp owned
        have busy : ¬idle t (s.location t) := fun idles => responsive.outside idles within
        obtain ⟨⟨next, code⟩, _⟩ := rest.locks locking exclusive responsive running busy
        exact absurd within (locking.lock code).1
  refine ⟨free, ?_⟩
  intro t busy
  cases standing : s.standing t with
  | asleep cond => exact ⟨cond, rfl⟩
  | running =>
      obtain ⟨_, held⟩ := rest.locks locking exclusive responsive standing busy
      exact absurd free held
  | woken =>
      obtain ⟨choice⟩ := ‹Nonempty Choice›
      have stopped : s.standing t ≠ .running := by
        rw [standing]
        intro impossible
        cases impossible
      obtain ⟨cond, next, code⟩ := exclusive.waits t stopped
      have stuck := rest t choice busy
      simp [step, standing, code, free] at stuck

end Rest

/-- One thread runs on, and the others stay where they are. -/
structure Onwards (t : Thread) (next : Local) (s s' : State Thread Cond Shared Local) : Prop where
  location : s'.location t = next
  standing : s'.standing t = .running
  others : ∀ u, u ≠ t → s'.location u = s.location u ∧ s'.standing u = s.standing u

theorem Onwards.of_moveTo {s s' : State Thread Cond Shared Local} {t : Thread} {next : Local}
    (running : s.standing t = .running) (location : s'.location = (s.moveTo t next).location)
    (standing : s'.standing = s.standing) : Onwards t next s s' := by
  constructor
  · rw [location, State.moveTo_self]
  · rw [standing, running]
  · intro u other
    rw [location, standing, s.moveTo_other next other]
    exact ⟨rfl, rfl⟩

/-! ### Weights -/

/-- `cost` bounds the steps of a running thread until it is idle or sleeps, `debts` what it
owes to the threads it has still to notify, and `wake` the steps after a wake-up.  `stock` is
what the shared data can still give work for, and a call brings at most `call`. -/
structure Weights (Thread Shared Local : Type) where
  cost : Thread → Local → Shared → Nat
  debts : Local → Nat
  stock : Shared → Nat
  wake : Nat
  call : Nat

namespace Weights

variable (w : Weights Thread Shared Local)

/-- The steps a thread may take before it is idle or sleeps. -/
def load (s : State Thread Cond Shared Local) (t : Thread) : Nat :=
  match s.standing t with
  | .running => w.cost t (s.location t) s.shared
  | .asleep _ => 0
  | .woken => w.wake

def share (s : State Thread Cond Shared Local) (t : Thread) : Nat :=
  w.debts (s.location t) + w.load s t

def rank (who : Finset Thread) (s : State Thread Cond Shared Local) : Nat :=
  ∑ t ∈ who, w.share s t + w.stock s.shared

/-- What a notification is worth: it may wake everybody. -/
def notice (who : Finset Thread) : Nat := who.card * w.wake + 1

end Weights

/-- Each step of a thread that is not idle lowers what it has and the stock together; a
notification takes from its debts.  No action raises the cost of another thread.  `holds` is
what is true of a running thread. -/
structure Weights.Fit (w : Weights Thread Shared Local)
    (p : Program Thread Cond Shared Local Choice) (inside idle : Thread → Local → Prop)
    (holds : Thread → Local → Shared → Prop) (who : Finset Thread) : Prop where
  lock : ∀ {t l next}, p t l = .lock next →
    (∀ sh, w.cost t next sh < w.cost t l sh) ∧ w.debts next ≤ w.debts l
  unlock : ∀ {t l next}, p t l = .unlock next →
    (∀ sh, w.cost t next sh < w.cost t l sh) ∧ w.debts next ≤ w.debts l
  wait : ∀ {t l cond next}, p t l = .wait cond next →
    (∀ sh, 0 < w.cost t l sh ∧ w.cost t next sh < w.wake) ∧ w.debts next ≤ w.debts l
  notifyAll : ∀ {t l cond next}, p t l = .notifyAll cond next →
    (∀ sh, w.cost t next sh ≤ w.cost t l sh) ∧ w.debts next + w.notice who ≤ w.debts l
  act : ∀ {t l run choice sh sh' next}, p t l = .act run → run choice sh = some (sh', next) →
    holds t l sh → (¬idle t l → w.cost t next sh' + w.debts next + w.stock sh' <
        w.cost t l sh + w.debts l + w.stock sh) ∧
      (idle t l → w.cost t next sh' + w.debts next + w.stock sh' ≤ w.call + w.stock sh)
  others : ∀ {t l run choice sh sh' next}, p t l = .act run → run choice sh = some (sh', next) →
    ∀ u k, u ≠ t → ¬(inside t l ∧ inside u k) → w.cost u k sh' ≤ w.cost u k sh
  idle : ∀ {t l}, idle t l → ∃ run, p t l = .act run

namespace Weights

section Rank

variable {w : Weights Thread Shared Local} {who : Finset Thread}
variable {s s' : State Thread Cond Shared Local} {t : Thread}

omit [DecidableEq Thread] in
theorem share_same {u : Thread} (location : s'.location u = s.location u)
    (standing : s'.standing u = s.standing u) (shared : s'.shared = s.shared) :
    w.share s' u = w.share s u := by
  unfold share load
  rw [location, standing, shared]

omit [DecidableEq Thread] in
theorem share_running {t : Thread} (running : s.standing t = .running) :
    w.share s t = w.debts (s.location t) + w.cost t (s.location t) s.shared := by
  unfold share load
  rw [running]

/-- A step of one thread, after which each of the others has at most `each` more. -/
theorem rank_change (each less more : Nat) (member : t ∈ who)
    (others : ∀ u, u ≠ t → w.share s' u ≤ w.share s u + each)
    (own : w.share s' t + w.stock s'.shared + less ≤
      w.share s t + w.stock s.shared + more) :
    w.rank who s' + less ≤ w.rank who s + who.card * each + more := by
  have total (f : Thread → Nat) : ∑ u ∈ who, f u = f t + ∑ u ∈ who.erase t, f u :=
    (Finset.add_sum_erase _ f member).symm
  have rest : ∑ u ∈ who.erase t, w.share s' u ≤
      ∑ u ∈ who.erase t, w.share s u + who.card * each := by
    calc ∑ u ∈ who.erase t, w.share s' u
        ≤ ∑ u ∈ who.erase t, (w.share s u + each) :=
          Finset.sum_le_sum fun u member => others u (Finset.ne_of_mem_erase member)
      _ = ∑ u ∈ who.erase t, w.share s u + (who.erase t).card * each := by
          rw [Finset.sum_add_distrib, Finset.sum_const, nsmul_eq_mul, Nat.cast_id]
      _ ≤ ∑ u ∈ who.erase t, w.share s u + who.card * each := by
          gcongr
          exact Finset.erase_subset t who
  rw [rank, rank, total (w.share s'), total (w.share s)]
  omega

theorem rank_falls (member : t ∈ who) (others : ∀ u, u ≠ t → w.share s' u ≤ w.share s u)
    (own : w.share s' t + w.stock s'.shared < w.share s t + w.stock s.shared) :
    w.rank who s' < w.rank who s := by
  have change := rank_change 0 1 0 member others own
  omega

/-- A thread that runs on without touching the shared data. -/
theorem rank_onwards (member : t ∈ who) {next : Local} (onwards : Onwards t next s s')
    (shared : s'.shared = s.shared) (debts : w.debts next ≤ w.debts (s.location t))
    (cost : w.cost t next s.shared < w.load s t) : w.rank who s' < w.rank who s := by
  apply rank_falls member
  · intro u other
    obtain ⟨location, standing⟩ := onwards.others u other
    rw [share_same location standing shared]
  · rw [share_running onwards.standing, onwards.location, shared, share]
    omega

end Rank

section Steps

variable {w : Weights Thread Shared Local} {who : Finset Thread} [DecidableEq Cond]
variable {holds : Thread → Local → Shared → Prop}
variable {s s' : State Thread Cond Shared Local} {t : Thread} {choice : Choice}

omit [DecidableEq Cond] in
/-- What an action does to the others. -/
theorem Fit.act_others (fit : w.Fit p inside idle holds who) (exclusive : Exclusive p inside s)
    (running : s.standing t = .running) {run : Choice → Shared → Option (Shared × Local)}
    {shared : Shared} {next : Local} (code : p t (s.location t) = .act run)
    (result : run choice s.shared = some (shared, next)) :
    ∀ u, u ≠ t → w.share { s.moveTo t next with shared := shared } u ≤ w.share s u := by
  intro u other
  have location : (s.moveTo t next).location u = s.location u := s.moveTo_other next other
  unfold share load
  change w.debts ((s.moveTo t next).location u) + (match s.standing u with
    | .running => w.cost u ((s.moveTo t next).location u) shared
    | .asleep _ => 0
    | .woken => w.wake) ≤ _
  rw [location]
  cases standing : s.standing u with
  | running =>
      have apart : ¬(inside t (s.location t) ∧ inside u (s.location u)) := by
        rintro ⟨within, also⟩
        have mine := (exclusive.holds t).mpr ⟨running, within⟩
        have theirs := (exclusive.holds u).mpr ⟨standing, also⟩
        exact other (Option.some.inj (theirs.symm.trans mine))
      have cheaper := fit.others code result u (s.location u) other apart
      exact Nat.add_le_add_left cheaper _
  | asleep cond => exact Nat.le_refl _
  | woken => exact Nat.le_refl _

/-- An internal step lowers the rank. -/
theorem Fit.internal (fit : w.Fit p inside idle holds who) (exclusive : Exclusive p inside s)
    (annotated : s.standing t = .running → holds t (s.location t) s.shared)
    (member : t ∈ who) (busy : ¬idle t (s.location t)) (effect : Effect p s (.run t choice) s') :
    w.rank who s' < w.rank who s := by
  have runs (running : s.standing t = .running) :
      w.load s t = w.cost t (s.location t) s.shared := by
    rw [load, running]
  cases effect with
  | @resumes _ _ cond next woken code free =>
      obtain ⟨costs, debts⟩ := fit.wait code
      have onwards : Onwards t next s
          { (s.moveTo t next).stand t .running with owner := some t } := by
        constructor
        · exact s.moveTo_self t next
        · exact (s.moveTo t next).stand_self t .running
        · intro u other
          exact ⟨s.moveTo_other next other, (s.moveTo t next).stand_other .running other⟩
      apply rank_onwards member onwards rfl debts
      rw [load, woken]
      exact (costs s.shared).2
  | @locks _ _ next running code free =>
      obtain ⟨cost, debts⟩ := fit.lock code
      exact rank_onwards member (.of_moveTo running rfl rfl) rfl debts
        (runs running ▸ cost s.shared)
  | @unlocks _ _ next running code owned =>
      obtain ⟨cost, debts⟩ := fit.unlock code
      exact rank_onwards member (.of_moveTo running rfl rfl) rfl debts
        (runs running ▸ cost s.shared)
  | @waits _ _ cond next running code owned =>
      obtain ⟨costs, _⟩ := fit.wait code
      have positive := (costs s.shared).1
      apply rank_falls member
      · intro u other
        exact Nat.le_of_eq (share_same rfl (s.stand_other _ other) rfl)
      · have asleep : w.share { s.stand t (.asleep cond) with owner := none } t =
            w.debts (s.location t) := by
          simp [share, load, State.stand]
        rw [asleep, share_running running]
        change _ + w.stock s.shared < _
        omega
  | @notifies _ _ cond next running code =>
      obtain ⟨costs, debts⟩ := fit.notifyAll code
      have cost := costs s.shared
      have awake : ((s.notify cond).moveTo t next).standing t = .running := by
        simp [State.moveTo, State.notify, running]
      have others : ∀ u, u ≠ t →
          w.share ((s.notify cond).moveTo t next) u ≤ w.share s u + w.wake := by
        intro u other
        have location : ((s.notify cond).moveTo t next).location u = s.location u :=
          State.moveTo_other _ next other
        by_cases asleep : s.standing u = .asleep cond
        · have woken : ((s.notify cond).moveTo t next).standing u = .woken := by
            simp [State.moveTo, State.notify, asleep]
          unfold share load
          rw [location, woken, asleep]
          exact Nat.le_refl _
        · have same : ((s.notify cond).moveTo t next).standing u = s.standing u := by
            simp [State.moveTo, State.notify, asleep]
          rw [share_same location same rfl]
          exact Nat.le_add_right _ _
      have change := rank_change w.wake (w.notice who) 0 member others (by
        rw [share_running awake, share_running running, State.moveTo_self]
        change _ + w.cost t next s.shared + w.stock s.shared + _ ≤ _
        omega)
      unfold notice at change
      omega
  | @acts _ _ run shared next running code result =>
      have falls := (fit.act code result (annotated running)).1 busy
      have onwards : Onwards t next s { s.moveTo t next with shared := shared } :=
        .of_moveTo running rfl rfl
      apply rank_falls member (fit.act_others exclusive running code result)
      rw [share_running onwards.standing, onwards.location, share_running running]
      change w.debts next + w.cost t next shared + w.stock shared < _
      omega

/-- A call raises the rank by what a call can bring. -/
theorem Fit.begins (fit : w.Fit p inside idle holds who) (exclusive : Exclusive p inside s)
    (annotated : s.standing t = .running → holds t (s.location t) s.shared)
    (member : t ∈ who) (idles : idle t (s.location t)) (running : s.standing t = .running)
    (effect : Effect p s (.run t choice) s') : w.rank who s' ≤ w.rank who s + w.call := by
  obtain ⟨run, code⟩ := fit.idle idles
  cases effect with
  | resumes woken _ _ =>
      rw [running] at woken
      cases woken
  | locks _ other _ | unlocks _ other _ | waits _ other _ | notifies _ other =>
      rw [code] at other
      cases other
  | @acts _ _ _ shared next _ code result =>
      have rises := (fit.act code result (annotated running)).2 idles
      have onwards : Onwards t next s { s.moveTo t next with shared := shared } :=
        .of_moveTo running rfl rfl
      have others := fit.act_others exclusive running code result
      have change := rank_change 0 0 w.call member others (by
        rw [share_running onwards.standing, onwards.location]
        change w.debts next + w.cost t next shared + w.stock shared + 0 ≤ _
        omega)
      omega

omit [DecidableEq Cond] in
/-- A wake-up raises it by what follows a wake-up. -/
theorem wakes {cond : Cond} (asleep : s.standing t = .asleep cond) :
    w.rank who (s.stand t .woken) ≤ w.rank who s + w.wake := by
  have others : ∀ u, u ≠ t → w.share (s.stand t .woken) u = w.share s u :=
    fun u other => share_same rfl (s.stand_other _ other) rfl
  by_cases member : t ∈ who
  · have woken : w.share (s.stand t .woken) t = w.debts (s.location t) + w.wake := by
      simp [share, load, State.stand]
    have change := rank_change 0 0 w.wake member (fun u other => Nat.le_of_eq (others u other)) (by
      rw [woken, share, load, asleep]
      change _ + w.stock s.shared + 0 ≤ _
      omega)
    omega
  · have same : ∑ u ∈ who, w.share (s.stand t .woken) u = ∑ u ∈ who, w.share s u := by
      apply Finset.sum_congr rfl
      intro u within
      exact others u (fun equal => member (equal ▸ within))
    rw [rank, same]
    exact Nat.le_add_right _ _

end Steps

end Weights

/-! ### Runs -/

/-- A state with the calls, the spurious wake-ups and the internal steps that led to it. -/
structure Tally (Thread Cond Shared Local : Type) where
  state : State Thread Cond Shared Local
  calls : Nat
  wakes : Nat
  steps : Nat

section Tally

variable [DecidableEq Cond]

/-- Runs with their tally. -/
inductive Tallies (p : Program Thread Cond Shared Local Choice) (idle : Thread → Local → Prop)
    (initial : State Thread Cond Shared Local → Prop) : Tally Thread Cond Shared Local → Prop where
  | start {s : State Thread Cond Shared Local} (begins : initial s) :
      Tallies p idle initial ⟨s, 0, 0, 0⟩
  | call {r : Tally Thread Cond Shared Local} {s : State Thread Cond Shared Local} {t : Thread}
      {choice : Choice} (before : Tallies p idle initial r) (idles : idle t (r.state.location t))
      (taken : step p r.state (.run t choice) = some s) :
      Tallies p idle initial { r with state := s, calls := r.calls + 1 }
  | step {r : Tally Thread Cond Shared Local} {s : State Thread Cond Shared Local} {t : Thread}
      {choice : Choice} (before : Tallies p idle initial r) (busy : ¬idle t (r.state.location t))
      (taken : step p r.state (.run t choice) = some s) :
      Tallies p idle initial { r with state := s, steps := r.steps + 1 }
  | wake {r : Tally Thread Cond Shared Local} {s : State Thread Cond Shared Local} {t : Thread}
      (before : Tallies p idle initial r) (taken : step p r.state (.wake t) = some s) :
      Tallies p idle initial { r with state := s, wakes := r.wakes + 1 }

theorem Tallies.reachable {initial : State Thread Cond Shared Local → Prop}
    {r : Tally Thread Cond Shared Local} (tallies : Tallies p idle initial r) :
    Transition.Reachable (system p initial) r.state := by
  induction tallies with
  | start begins => exact .start begins
  | call _before _idles taken ih => exact ih.next taken
  | step _before _busy taken ih => exact ih.next taken
  | wake _before taken ih => exact ih.next taken

/-- Every run is tallied. -/
theorem exists_tallies {initial : State Thread Cond Shared Local → Prop}
    {s : State Thread Cond Shared Local}
    (reachable : Transition.Reachable (system p initial) s) :
    ∃ r, Tallies p idle initial r ∧ r.state = s := by
  induction reachable with
  | start begins => exact ⟨_, .start begins, rfl⟩
  | @next middle after event _before taken ih =>
      obtain ⟨r, tallies, rfl⟩ := ih
      cases event with
      | run t choice =>
          by_cases idles : idle t (r.state.location t)
          · exact ⟨_, tallies.call idles taken, rfl⟩
          · exact ⟨_, tallies.step idles taken, rfl⟩
      | wake t => exact ⟨_, tallies.wake taken, rfl⟩

/-- **Accounting.** What is there initially, the calls and the wake-ups of a run pay for its
internal steps. -/
theorem Weights.Fit.steps_le {w : Weights Thread Shared Local} {who : Finset Thread}
    {holds : Thread → Local → Shared → Prop} (fit : w.Fit p inside idle holds who)
    (locking : Locking p inside) (outside : ∀ {t l}, idle t l → ¬inside t l)
    {initial : State Thread Cond Shared Local → Prop} {base : Nat}
    (members : ∀ {s t choice s'}, Transition.Reachable (system p initial) s →
      step p s (.run t choice) = some s' → t ∈ who)
    (begins : ∀ s, initial s → Exclusive p inside s ∧ w.rank who s ≤ base)
    (annotated : ∀ s, Transition.Reachable (system p initial) s → ∀ t, s.standing t = .running →
      holds t (s.location t) s.shared)
    {r : Tally Thread Cond Shared Local} (tallies : Tallies p idle initial r) :
    r.steps + w.rank who r.state ≤ base + r.calls * w.call + r.wakes * w.wake := by
  have exclusive {r : Tally Thread Cond Shared Local} (before : Tallies p idle initial r) :
      Exclusive p inside r.state :=
    locking.exclusive (fun s first => (begins s first).1) before.reachable
  induction tallies with
  | start initially =>
      have few := (begins _ initially).2
      dsimp only
      omega
  | @call r s t choice before idles taken ih =>
      have running : r.state.standing t = .running := by
        by_contra stopped
        obtain ⟨cond, next, code⟩ := (exclusive before).waits t stopped
        exact outside idles (locking.wait code).1
      have member := members before.reachable taken
      have rises := fit.begins (exclusive before) (annotated _ before.reachable t) member idles
        running (step_effect taken)
      simp only [Nat.add_mul, Nat.one_mul]
      omega
  | @step r s t choice before busy taken ih =>
      have member := members before.reachable taken
      have falls := fit.internal (exclusive before) (annotated _ before.reachable t) member busy
        (step_effect taken)
      dsimp only
      omega
  | wake before taken ih =>
      cases step_effect taken with
      | wakes asleep =>
          have rises : w.rank who _ ≤ w.rank who _ + w.wake := Weights.wakes asleep
          simp only [Nat.add_mul, Nat.one_mul]
          omega

end Tally

/-! ### Some of the threads -/

/-- The program in which only these threads run. -/
def only (who : Finset Thread) (p : Program Thread Cond Shared Local Choice) :
    Program Thread Cond Shared Local Choice :=
  fun t l => if t ∈ who then p t l else .act fun _ _ => none

section Only

variable {who : Finset Thread} {t : Thread}

theorem only_of_mem (member : t ∈ who) (l : Local) : only who p t l = p t l :=
  if_pos member

/-- An instruction of the program is one of the whole program, or cannot be executed. -/
theorem of_only {l : Local} {instr : Instr Cond Shared Local Choice}
    (same : only who p t l = instr) :
    (t ∈ who ∧ p t l = instr) ∨ instr = .act fun _ _ => none := by
  by_cases member : t ∈ who
  · rw [only_of_mem member] at same
    exact .inl ⟨member, same⟩
  · exact .inr (same.symm.trans (if_neg member))

theorem Locking.only (locking : Locking p inside) (who : Finset Thread) :
    Locking (only who p) inside := by
  constructor
  · intro t l next same
    rcases of_only same with ⟨_, same⟩ | impossible
    · exact locking.lock same
    · cases impossible
  · intro t l next same
    rcases of_only same with ⟨_, same⟩ | impossible
    · exact locking.unlock same
    · cases impossible
  · intro t l cond next same
    rcases of_only same with ⟨_, same⟩ | impossible
    · exact locking.wait same
    · cases impossible
  · intro t l cond next same
    rcases of_only same with ⟨_, same⟩ | impossible
    · exact locking.notifyAll same
    · cases impossible
  · intro t l run choice shared shared' next same result
    rcases of_only same with ⟨_, same⟩ | none
    · exact locking.act same result
    · cases none
      cases result

variable [DecidableEq Cond] {s s' : State Thread Cond Shared Local} {choice : Choice}

theorem step_only_eq (member : t ∈ who) (choice : Choice) :
    step (only who p) s (.run t choice) = step p s (.run t choice) := by
  simp only [step, only_of_mem member]

theorem mem_of_step_only (taken : step (only who p) s (.run t choice) = some s') : t ∈ who := by
  by_contra other
  have code : only who p t (s.location t) = .act fun _ _ => none := if_neg other
  cases standing : s.standing t <;> simp [step, code, standing] at taken

/-- A step of some threads is a step of the whole program. -/
theorem step_of_only {event : Event Thread Choice} (taken : step (only who p) s event = some s') :
    step p s event = some s' := by
  cases event with
  | wake t => exact taken
  | run t choice => rwa [step_only_eq (mem_of_step_only taken)] at taken

theorem reachable_of_only {initial : State Thread Cond Shared Local → Prop}
    (reachable : Transition.Reachable (system (only who p) initial) s) :
    Transition.Reachable (system p initial) s := by
  induction reachable with
  | start begins => exact .start begins
  | next _before taken ih => exact ih.next (step_of_only taken)

/-- The others stay where they are. -/
theorem only_stays {first : State Thread Cond Shared Local}
    (reachable : Transition.Reachable (system (only who p) (fun s => s = first)) s)
    (other : t ∉ who) : s.location t = first.location t := by
  induction reachable with
  | start begins => rw [begins]
  | @next s s' event _before taken ih =>
      rw [← ih]
      cases event with
      | wake u =>
          cases step_effect taken with
          | wakes asleep => rfl
      | run u choice =>
          have apart : t ≠ u := fun same => other (same ▸ mem_of_step_only taken)
          exact ((step_effect taken).others apart).1

end Only

end Monitor
