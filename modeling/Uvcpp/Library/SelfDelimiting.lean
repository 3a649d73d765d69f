/-
Codes whose words mark their own end.

Such a code can be written word after word: a sequence of words is read back in one way
only, and whoever has seen the front of one knows the front of what it stands for.
-/

import Mathlib.Data.List.Basic

variable {α β : Type}

/-- No word is the front of another, whatever follows them, and none is empty. -/
structure SelfDelimiting (valid : α → Prop) (code : α → List β) : Prop where
  nonempty : ∀ {item}, valid item → code item ≠ []
  separates : ∀ {item other left right}, valid item → valid other →
    code item ++ left = code other ++ right → item = other

namespace SelfDelimiting

variable {valid : α → Prop} {code : α → List β}

theorem prefix_of_flatMap (delimiting : SelfDelimiting valid code) {left right : List α}
    (leftValid : ∀ item ∈ left, valid item) (rightValid : ∀ item ∈ right, valid item)
    (front : left.flatMap code <+: right.flatMap code) : left <+: right := by
  induction left generalizing right with
  | nil => exact List.nil_prefix
  | cons item left ih =>
      have valid := leftValid item List.mem_cons_self
      obtain ⟨rest, split⟩ := front
      rw [List.flatMap_cons, List.append_assoc] at split
      cases right with
      | nil =>
          obtain ⟨empty, _⟩ := List.append_eq_nil_iff.mp split
          exact absurd empty (delimiting.nonempty valid)
      | cons other right =>
          rw [List.flatMap_cons] at split
          have same := delimiting.separates valid (rightValid other List.mem_cons_self) split
          subst same
          have front : left.flatMap code <+: right.flatMap code :=
            ⟨rest, List.append_cancel_left split⟩
          have later := ih (fun item member => leftValid item (List.mem_cons_of_mem _ member))
            (fun item member => rightValid item (List.mem_cons_of_mem _ member)) front
          exact (List.prefix_cons_inj item).mpr later

end SelfDelimiting
