/-
ThreadLocal, which holds the connections and the wheel of each loop thread.

A ThreadLocal has a key, under which each thread finds a pointer of its own: null until the
thread's first call of value(), which makes an object.  The destructor deletes the object of
the thread it runs on.
-/

import Uvcpp.Library.OwnedHeap
import Uvcpp.Library.Transition

namespace Uvcpp.ThreadLocal

/-- The pointer that `uv_key_get` finds under the key of a ThreadLocal on a thread. -/
structure Slot where
  key : Nat
  thread : Nat
deriving DecidableEq

/-- All ThreadLocals of one type, each with the thread that its destructor ran on, if it
did. -/
structure World (T : Type) where
  heap : OwnedHeap Slot T
  destroyedOn : List (Option Nat)

/-- `use` is what the caller does with the reference. -/
inductive Call (T : Type) where
  | construct
  | value (key thread : Nat) (use : T → T)
  | destroy (key thread : Nat)

variable {T : Type}

namespace World

def empty : World T :=
  { heap := .empty
    destroyedOn := [] }

def Live (w : World T) (key : Nat) : Prop := w.destroyedOn[key]? = some none

instance (w : World T) (key : Nat) : Decidable (w.Live key) :=
  inferInstanceAs (Decidable (w.destroyedOn[key]? = some none))

/-- `value()`, where `initial` is what `new T` makes. -/
def value (w : World T) (initial : T) (slot : Slot) : World T :=
  match w.heap.holds slot with
  | none => { w with heap := w.heap.allocate slot initial }
  | some _ => w

def step (initial : T) (w : World T) : Call T → Option (World T)
  | .construct => some { w with destroyedOn := w.destroyedOn ++ [none] }
  | .value key thread use =>
      if w.Live key then
        let w := w.value initial ⟨key, thread⟩
        some { w with heap := w.heap.modify ⟨key, thread⟩ use }
      else none
  | .destroy key thread =>
      if w.Live key then
        some
          { heap := w.heap.delete ⟨key, thread⟩
            destroyedOn := w.destroyedOn.set key (some thread) }
      else none

end World

/-! ### What a ThreadLocal is for -/

/-- What each thread has done with each ThreadLocal, in order. -/
abbrev Uses (T : Type) := List (Slot × (T → T))

/-- The object of one thread after all its uses, if there were any. -/
def replay (initial : T) (uses : Uses T) (slot : Slot) : Option T :=
  match (uses.filter fun entry => entry.1 = slot).map Prod.snd with
  | [] => none
  | use :: later => some (later.foldl (fun value use => use value) (use initial))

def effect (uses : Uses T) : Call T → Uses T
  | .value key thread use => uses ++ [(⟨key, thread⟩, use)]
  | _ => uses

def system (initial : T) : Transition.System (World T × Uses T) (Call T) where
  initial state := state = (.empty, [])
  step state call after :=
    state.1.step initial call = some after.1 ∧ after.2 = effect state.2 call

/-! ### One call -/

theorem replay_append (initial : T) (uses : Uses T) (slot other : Slot) (use : T → T) :
    replay initial (uses ++ [(slot, use)]) other =
      Function.update (replay initial uses) slot
        (some (use ((replay initial uses slot).getD initial))) other := by
  by_cases same : other = slot
  · subst same
    rw [Function.update_self]
    simp only [replay, List.filter_append, List.map_append, List.filter_cons, decide_true,
      if_true, List.filter_nil, List.map_cons, List.map_nil]
    cases (uses.filter fun entry => entry.1 = other).map Prod.snd with
    | nil => rfl
    | cons first later => simp
  · rw [Function.update_of_ne same]
    have apart : decide (slot = other) = false := decide_eq_false fun h => same h.symm
    simp [replay, List.filter_append, apart]

/-- Making the object on demand. -/
theorem value_content {w : World T} (sound : w.heap.Sound) (initial : T) (slot : Slot) :
    (w.value initial slot).heap.content =
      Function.update w.heap.content slot (some ((w.heap.content slot).getD initial)) := by
  have some := sound.content_isSome slot
  cases held : w.heap.holds slot with
  | none =>
      rw [held] at some
      have nothing : w.heap.content slot = none := by simpa using some
      simp only [World.value, held, sound.content_allocate, nothing, Option.getD_none]
  | some address =>
      rw [held] at some
      obtain ⟨found, same⟩ := Option.isSome_iff_exists.mp some
      simp only [World.value, held, same, Option.getD_some]
      rw [← same, Function.update_eq_self]

theorem value_sound {w : World T} (sound : w.heap.Sound) (initial : T) (slot : Slot) :
    (w.value initial slot).heap.Sound ∧
      (w.value initial slot).heap.lost = w.heap.lost ∧
      (w.value initial slot).heap.deleted = w.heap.deleted ∧
      (w.value initial slot).destroyedOn = w.destroyedOn := by
  unfold World.value
  split
  · rename_i free
    refine ⟨sound.allocate slot initial, ?_, rfl, rfl⟩
    simp [OwnedHeap.allocate, free]
  · exact ⟨sound, rfl, rfl, rfl⟩

/-- Each thread finds what it has made of its object, except under a key that it has
destroyed. -/
structure Isolates (initial : T) (w : World T) (uses : Uses T) : Prop where
  sound : w.heap.Sound
  lost : w.heap.lost = []
  contents : ∀ slot, w.heap.content slot =
    if w.destroyedOn[slot.key]? = some (some slot.thread) then none else replay initial uses slot
  unmade : ∀ slot, w.destroyedOn.length ≤ slot.key → replay initial uses slot = none

variable {initial : T} {w after : World T} {uses : Uses T}

theorem Isolates.use (isolates : Isolates initial w uses) {key thread : Nat} (live : w.Live key)
    (use : T → T) :
    Isolates initial
      { w.value initial ⟨key, thread⟩ with
        heap := (w.value initial ⟨key, thread⟩).heap.modify ⟨key, thread⟩ use }
      (uses ++ [(⟨key, thread⟩, use)]) := by
  obtain ⟨sound, lost, _deleted, destroyedOn⟩ := value_sound isolates.sound initial ⟨key, thread⟩
  constructor
  · exact sound.modify _ use
  · exact lost.trans isolates.lost
  · intro slot
    rw [sound.content_modify, value_content isolates.sound, replay_append]
    dsimp only
    rw [destroyedOn]
    have here := isolates.contents ⟨key, thread⟩
    rw [live, if_neg (by simp)] at here
    by_cases same : slot = ⟨key, thread⟩
    · subst same
      rw [live, if_neg (by simp)]
      simp only [Function.update_self, Option.map_some, here]
    · rw [Function.update_of_ne same, Function.update_of_ne same, Function.update_of_ne same]
      exact isolates.contents slot
  · intro slot above
    change (w.value initial ⟨key, thread⟩).destroyedOn.length ≤ slot.key at above
    rw [destroyedOn] at above
    obtain ⟨inside, _⟩ := List.getElem?_eq_some_iff.mp live
    have other : slot ≠ ⟨key, thread⟩ := by
      rintro rfl
      exact absurd inside (Nat.not_lt.mpr above)
    rw [replay_append, Function.update_of_ne other]
    exact isolates.unmade slot above

theorem Isolates.construct (isolates : Isolates initial w uses) :
    Isolates initial { w with destroyedOn := w.destroyedOn ++ [none] } uses where
  sound := isolates.sound
  lost := isolates.lost
  contents slot := by
    rw [isolates.contents]
    by_cases within : slot.key < w.destroyedOn.length
    · rw [List.getElem?_append_left within]
    · have nothing := isolates.unmade slot (Nat.le_of_not_lt within)
      rw [nothing]
      simp
  unmade slot above := by
    rw [List.length_append] at above
    exact isolates.unmade slot (by omega)

theorem Isolates.destroy (isolates : Isolates initial w uses) {key thread : Nat}
    (live : w.Live key) :
    Isolates initial
      { heap := w.heap.delete ⟨key, thread⟩
        destroyedOn := w.destroyedOn.set key (some thread) } uses where
  sound := isolates.sound.delete _
  lost := isolates.lost
  contents slot := by
    obtain ⟨inside, _⟩ := List.getElem?_eq_some_iff.mp live
    rw [OwnedHeap.content_delete]
    dsimp only
    by_cases same : slot.key = key
    · rw [same, List.getElem?_set_self inside]
      have before := isolates.contents slot
      rw [same, live, if_neg (by simp)] at before
      by_cases own : slot.thread = thread
      · have here : slot = ⟨key, thread⟩ := by
          rw [← same, ← own]
        rw [here, Function.update_self, if_pos rfl]
      · have other : slot ≠ ⟨key, thread⟩ := by
          rintro rfl
          exact own rfl
        rw [Function.update_of_ne other, before, if_neg]
        intro equal
        exact own (Option.some.inj (Option.some.inj equal)).symm
    · have other : slot ≠ ⟨key, thread⟩ := by
        rintro rfl
        exact same rfl
      rw [Function.update_of_ne other, List.getElem?_set_ne (Ne.symm same)]
      exact isolates.contents slot
  unmade slot above := by
    rw [List.length_set] at above
    exact isolates.unmade slot above

theorem Isolates.step (isolates : Isolates initial w uses) {call : Call T}
    (taken : w.step initial call = some after) : Isolates initial after (effect uses call) := by
  cases call with
  | construct =>
      cases taken
      exact isolates.construct
  | value key thread use =>
      obtain ⟨live, taken⟩ := Option.ite_none_right_eq_some.mp taken
      cases taken
      exact isolates.use live use
  | destroy key thread =>
      obtain ⟨live, taken⟩ := Option.ite_none_right_eq_some.mp taken
      cases taken
      exact isolates.destroy live

end Uvcpp.ThreadLocal
