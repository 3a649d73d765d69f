/-
Timing wheels.

A wheel is a queue of buckets.  An item is put into the last bucket, a turn takes the
first bucket away and then adds an empty one.  An item that was last put in after
`touched` turns stays until turn number `touched + span`.
-/

import Mathlib.Data.List.Nodup

namespace Wheel

variable {Item : Type}

/-- Where an item that was last touched after `touched` turns is, after `turns` turns:
in the bucket that leaves at turn `touched + span` and in no later one. -/
structure Due (wheel : List (List Item)) (turns span touched : Nat) (item : Item) : Prop where
  newest : turns < touched + span →
    ∃ bucket, wheel[touched + span - 1 - turns]? = some bucket ∧ item ∈ bucket
  older : ∀ index bucket, wheel[index]? = some bucket → item ∈ bucket →
    turns + index + 1 ≤ touched + span

section Due

variable {wheel : List (List Item)} {turns span touched : Nat} {item : Item}

/-- A turn takes the first bucket away. -/
theorem Due.turn {bucket : List Item} {rest : List (List Item)}
    (due : Due (bucket :: rest) turns span touched item) :
    Due rest (turns + 1) span touched item := by
  constructor
  · intro later
    obtain ⟨newest, present, member⟩ := due.newest (by omega)
    have place : touched + span - 1 - turns = touched + span - 1 - (turns + 1) + 1 := by omega
    rw [place, List.getElem?_cons_succ] at present
    exact ⟨newest, present, member⟩
  · intro index before present member
    have := due.older (index + 1) before (by rw [List.getElem?_cons_succ]; exact present) member
    omega

theorem Due.first {bucket : List Item} {rest : List (List Item)}
    (due : Due (bucket :: rest) turns span touched item) (member : item ∈ bucket) :
    turns + 1 ≤ touched + span :=
  due.older 0 bucket rfl member

theorem Due.push (due : Due wheel turns span touched item) :
    Due (wheel ++ [[]]) turns span touched item := by
  constructor
  · intro later
    obtain ⟨bucket, present, member⟩ := due.newest later
    obtain ⟨within, _⟩ := List.getElem?_eq_some_iff.mp present
    exact ⟨bucket, (List.getElem?_append_left within).trans present, member⟩
  · intro index bucket present member
    by_cases within : index < wheel.length
    · rw [List.getElem?_append_left within] at present
      exact due.older index bucket present member
    · rw [List.getElem?_append_right (by omega)] at present
      cases List.mem_singleton.mp (List.mem_of_getElem? present)
      cases member

/-- An item is on the wheel until its turn. -/
theorem Due.mem_iff (due : Due wheel turns span touched item) :
    (∃ bucket ∈ wheel, item ∈ bucket) ↔ turns < touched + span := by
  constructor
  · rintro ⟨bucket, listed, member⟩
    obtain ⟨index, present⟩ := List.mem_iff_getElem?.mp listed
    have := due.older index bucket present member
    omega
  · intro later
    obtain ⟨bucket, present, member⟩ := due.newest later
    exact ⟨bucket, List.mem_of_getElem? present, member⟩

end Due

/-! ### Insertion -/

variable [DecidableEq Item]

def insertBack (wheel : List (List Item)) (item : Item) : List (List Item) :=
  wheel.modify (wheel.length - 1) (List.insert item)

@[simp] theorem insertBack_length (wheel : List (List Item)) (item : Item) :
    (insertBack wheel item).length = wheel.length := by
  simp [insertBack]

theorem insertBack_getElem? (wheel : List (List Item)) (item : Item) (index : Nat) :
    (insertBack wheel item)[index]? =
      if index + 1 = wheel.length then wheel[index]?.map (List.insert item) else wheel[index]? := by
  unfold insertBack
  rw [List.getElem?_modify]
  cases present : wheel[index]? with
  | none => simp
  | some bucket =>
      obtain ⟨within, _⟩ := List.getElem?_eq_some_iff.mp present
      by_cases last : index + 1 = wheel.length
      · have same : wheel.length - 1 = index := by omega
        simp [last, same]
      · have other : wheel.length - 1 ≠ index := by omega
        simp [last, other]

theorem mem_insertBack {wheel : List (List Item)} {item other : Item} {index : Nat}
    {bucket : List Item} (present : (insertBack wheel item)[index]? = some bucket)
    (member : other ∈ bucket) :
    other = item ∨ ∃ before, wheel[index]? = some before ∧ other ∈ before := by
  rw [insertBack_getElem?] at present
  split at present
  · obtain ⟨before, listed, rfl⟩ := Option.map_eq_some_iff.mp present
    rcases List.mem_insert_iff.mp member with same | earlier
    · exact .inl same
    · exact .inr ⟨before, listed, earlier⟩
  · exact .inr ⟨bucket, present, member⟩

theorem insertBack_keeps {wheel : List (List Item)} (item : Item) {other : Item} {index : Nat}
    {bucket : List Item} (present : wheel[index]? = some bucket) (member : other ∈ bucket) :
    ∃ after, (insertBack wheel item)[index]? = some after ∧ other ∈ after := by
  rw [insertBack_getElem?, present]
  split
  · exact ⟨_, rfl, List.mem_insert_of_mem member⟩
  · exact ⟨bucket, rfl, member⟩

theorem insertBack_nodup {wheel : List (List Item)} {item : Item}
    (nodup : ∀ bucket ∈ wheel, bucket.Nodup) : ∀ bucket ∈ insertBack wheel item, bucket.Nodup := by
  intro bucket member
  obtain ⟨index, present⟩ := List.mem_iff_getElem?.mp member
  rw [insertBack_getElem?] at present
  split at present
  · obtain ⟨before, listed, rfl⟩ := Option.map_eq_some_iff.mp present
    exact List.Nodup.insert (nodup before (List.mem_of_getElem? listed))
  · exact nodup bucket (List.mem_of_getElem? present)

/-- An item put into the last bucket of a full wheel is due a whole span later. -/
theorem due_insertBack {wheel : List (List Item)} {turns span : Nat} {item : Item}
    (full : wheel.length = span) (positive : 0 < span) :
    Due (insertBack wheel item) turns span turns item := by
  constructor
  · intro _later
    have last : wheel.length - 1 < wheel.length := by omega
    have back : wheel.length - 1 + 1 = wheel.length := by omega
    have place : turns + span - 1 - turns = wheel.length - 1 := by omega
    refine ⟨List.insert item wheel[wheel.length - 1], ?_, List.mem_insert_self⟩
    rw [place, insertBack_getElem?, if_pos back, List.getElem?_eq_getElem last, Option.map_some]
  · intro index bucket present _member
    obtain ⟨within, _⟩ := List.getElem?_eq_some_iff.mp present
    rw [insertBack_length] at within
    omega

theorem Due.insert_other {wheel : List (List Item)} {turns span touched : Nat} {item other : Item}
    (due : Due wheel turns span touched item) (distinct : item ≠ other) :
    Due (insertBack wheel other) turns span touched item := by
  constructor
  · intro later
    obtain ⟨bucket, present, member⟩ := due.newest later
    exact insertBack_keeps other present member
  · intro index bucket present member
    rcases mem_insertBack present member with same | ⟨before, listed, earlier⟩
    · exact absurd same distinct
    · exact due.older index before listed earlier

end Wheel
