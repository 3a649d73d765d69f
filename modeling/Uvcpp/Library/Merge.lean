/-
Merges of two lists.

`Merge left right merged` says that `merged` takes the elements of both lists, each list
in its order.  It grows at the end, as histories do.
-/

import Mathlib.Data.List.Basic

variable {α : Type}

inductive Merge : List α → List α → List α → Prop where
  | nil : Merge [] [] []
  | left {left right merged : List α} (before : Merge left right merged) (item : α) :
      Merge (left ++ [item]) right (merged ++ [item])
  | right {left right merged : List α} (before : Merge left right merged) (item : α) :
      Merge left (right ++ [item]) (merged ++ [item])

namespace Merge

variable {left right merged : List α}

/-- Nothing is lost and nothing is taken twice. -/
theorem perm (merge : Merge left right merged) : merged.Perm (left ++ right) := by
  induction merge with
  | nil => exact .nil
  | @left left right merged _before item ih =>
      rw [List.append_assoc]
      have moved : (merged ++ [item]).Perm (item :: merged) := List.perm_append_singleton _ _
      exact moved.trans ((ih.cons item).trans List.perm_middle.symm)
  | right _before item ih =>
      rw [← List.append_assoc]
      exact ih.append_right [item]

theorem left_sublist (merge : Merge left right merged) : left.Sublist merged := by
  induction merge with
  | nil => exact List.Sublist.refl _
  | left _before item ih => exact ih.append_right [item]
  | right _before item ih => exact ih.trans (List.sublist_append_left _ _)

theorem right_sublist (merge : Merge left right merged) : right.Sublist merged := by
  induction merge with
  | nil => exact List.Sublist.refl _
  | left _before item ih => exact ih.trans (List.sublist_append_left _ _)
  | right _before item ih => exact ih.append_right [item]

theorem eq_right (merge : Merge [] right merged) : merged = right :=
  (merge.right_sublist.eq_of_length (by simpa using merge.perm.length_eq.symm)).symm

theorem eq_left (merge : Merge left [] merged) : merged = left :=
  (merge.left_sublist.eq_of_length (by simpa using merge.perm.length_eq.symm)).symm

theorem append_left (merge : Merge left right merged) (items : List α) :
    Merge (left ++ items) right (merged ++ items) := by
  induction items generalizing left merged with
  | nil => simpa using merge
  | cons item rest ih => simpa using ih (merge.left item)

theorem append_right (merge : Merge left right merged) (items : List α) :
    Merge left (right ++ items) (merged ++ items) := by
  induction items generalizing right merged with
  | nil => simpa using merge
  | cons item rest ih => simpa using ih (merge.right item)

end Merge
