/-
Infinite runs, and how to show that something happens in them.

A party of a system is a set of events.  A run is fair to the party when it takes one of
these events whenever one stays possible.  A rank that falls with every event of the party
and never rises brings a fair run to its goal.
-/

import Mathlib.Order.WellFounded
import Uvcpp.Library.Transition

namespace Transition

universe u v w

variable {State : Type u} {Event : Type v}

/-- At any point nothing may happen, so a run that stops is one that stutters. -/
structure Run (system : System State Event) where
  state : Nat → State
  event : Nat → Option Event
  rests : ∀ n, event n = none → state (n + 1) = state n
  taken : ∀ n moved, event n = some moved → system.step (state n) moved (state (n + 1))

/-- The party can move. -/
def System.Enabled (system : System State Event) (party : Event → Prop) (state : State) : Prop :=
  ∃ event after, party event ∧ system.step state event after

def Run.Fair {system : System State Event} (run : Run system) (party : Event → Prop) : Prop :=
  ∀ n, (∀ m, n ≤ m → system.Enabled party (run.state m)) →
    ∃ m, n ≤ m ∧ ∃ moved, run.event m = some moved ∧ party moved

theorem Run.reachable {system : System State Event} (run : Run system)
    (begins : Reachable system (run.state 0)) (n : Nat) : Reachable system (run.state n) := by
  induction n with
  | zero => exact begins
  | succ n ih =>
      cases happens : run.event n with
      | none =>
          rw [run.rests n happens]
          exact ih
      | some moved => exact ih.next (run.taken n moved happens)

/-! ### Ranks -/

/-- While `waiting` holds and the goal is not reached, the party can move, each of its moves
lowers the rank, and nobody else raises it. -/
structure Ranked {Rank : Type w} [Preorder Rank] (system : System State Event)
    (party : Event → Prop) (waiting goal : State → Prop) (rank : State → Rank) : Prop where
  enabled : ∀ {state}, waiting state → ¬goal state → system.Enabled party state
  moves : ∀ {state event after}, waiting state → ¬goal state → system.step state event after →
    goal after ∨
      waiting after ∧ rank after ≤ rank state ∧ (party event → rank after < rank state)

section Ranked

variable {Rank : Type w} [Preorder Rank] {system : System State Event} {party : Event → Prop}
variable {waiting goal : State → Prop} {rank : State → Rank}

/-- A run that does not reach the goal goes on waiting, and its rank does not rise. -/
theorem Ranked.waits (ranked : Ranked system party waiting goal rank) (run : Run system)
    {start : Nat} (begins : waiting (run.state start))
    (never : ∀ n, start ≤ n → ¬goal (run.state n)) (length : Nat) :
    waiting (run.state (start + length)) ∧
      rank (run.state (start + length)) ≤ rank (run.state start) := by
  induction length with
  | zero => exact ⟨begins, le_rfl⟩
  | succ length ih =>
      obtain ⟨waits, below⟩ := ih
      rw [← Nat.add_assoc]
      cases happens : run.event (start + length) with
      | none =>
          rw [run.rests _ happens]
          exact ⟨waits, below⟩
      | some moved =>
          have away := never (start + length) (Nat.le_add_right _ _)
          rcases ranked.moves waits away (run.taken _ moved happens) with
            reached | ⟨still, falls, _⟩
          · exact absurd reached (never _ (Nat.le_add_right _ (length + 1)))
          · exact ⟨still, le_trans falls below⟩

/-- **Ranking rule.** A run that is fair to the party reaches the goal. -/
theorem Ranked.reaches [WellFoundedLT Rank] (ranked : Ranked system party waiting goal rank)
    (run : Run system) (fair : run.Fair party) {start : Nat}
    (begins : waiting (run.state start)) : ∃ n, start ≤ n ∧ goal (run.state n) := by
  by_contra missed
  have never (n : Nat) (later : start ≤ n) : ¬goal (run.state n) := by
    intro reached
    exact missed ⟨n, later, reached⟩
  -- By induction on the rank there is no point from which the run only waits.
  have impossible : ∀ value : Rank, ∀ n, start ≤ n → waiting (run.state n) →
      rank (run.state n) = value → False := by
    intro value
    induction value using WellFoundedLT.induction with
    | ind value ih =>
        rintro n later waits rfl
        have stays (m : Nat) (after : n ≤ m) :
            waiting (run.state m) ∧ rank (run.state m) ≤ rank (run.state n) := by
          have further := ranked.waits run waits
            (fun k beyond => never k (Nat.le_trans later beyond)) (m - n)
          rwa [Nat.add_sub_cancel' after] at further
        have enabled (m : Nat) (after : n ≤ m) : system.Enabled party (run.state m) :=
          ranked.enabled (stays m after).1 (never m (Nat.le_trans later after))
        obtain ⟨m, after, moved, happens, own⟩ := fair n enabled
        obtain ⟨held, below⟩ := stays m after
        have away := never m (Nat.le_trans later after)
        have beyond := Nat.le_trans later (Nat.le_succ_of_le after)
        rcases ranked.moves held away (run.taken m moved happens) with reached | ⟨still, _, falls⟩
        · exact never (m + 1) beyond reached
        · exact ih _ (lt_of_lt_of_le (falls own) below) (m + 1) beyond still rfl
  exact impossible _ start (Nat.le_refl _) begins rfl

end Ranked

/-! ### Finite runs -/

section Finite

variable {initial : State → Prop} {step : State → Event → Option State} {party : Event → Prop}

/-- A run with a step in front. -/
def Run.cons (run : Run (System.executed initial step)) (first : State) (moved : Event)
    (taken : step first moved = some (run.state 0)) : Run (System.executed initial step) where
  state
    | 0 => first
    | n + 1 => run.state n
  event
    | 0 => some moved
    | n + 1 => run.event n
  rests
    | 0, happens => by cases happens
    | n + 1, happens => run.rests n happens
  taken
    | 0, _, happens => by
        cases happens
        exact taken
    | n + 1, other, happens => run.taken n other happens

theorem Run.Fair.cons {run : Run (System.executed initial step)} (fair : run.Fair party)
    {first : State} {moved : Event} (taken : step first moved = some (run.state 0)) :
    (run.cons first moved taken).Fair party := by
  intro n stays
  obtain ⟨m, after, other, happens, own⟩ := fair n fun m later => stays (m + 1) (by omega)
  exact ⟨m + 1, by omega, other, happens, own⟩

/-- An execution that ends where the party cannot move is a fair run. -/
theorem exists_fair_run {first last : State} {events : List Event}
    (executed : execute step first events = some last)
    (stuck : ¬(System.executed initial step).Enabled party last) :
    ∃ run : Run (System.executed initial step), run.Fair party ∧
      ∀ n, execute step first (events.take n) = some (run.state n) := by
  induction events generalizing first with
  | nil =>
      cases executed
      let run : Run (System.executed initial step) :=
        { state := fun _ => last
          event := fun _ => none
          rests := fun _ _ => rfl
          taken := fun _ _ happens => by cases happens }
      refine ⟨run, ?_, fun n => by rw [List.take_nil]; rfl⟩
      intro n stays
      exact absurd (stays n (Nat.le_refl n)) stuck
  | cons event events ih =>
      obtain ⟨middle, taken, rest⟩ := Option.bind_eq_some_iff.mp executed
      obtain ⟨run, fair, states⟩ := ih rest
      have begins : run.state 0 = middle := (Option.some.inj (states 0)).symm
      rw [← begins] at taken
      refine ⟨run.cons first event taken, fair.cons taken, ?_⟩
      intro n
      cases n with
      | zero => rfl
      | succ n =>
          rw [List.take_succ_cons, execute, taken, Option.bind_some, begins]
          exact states n

end Finite

end Transition
