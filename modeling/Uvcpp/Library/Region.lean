/-
Memory regions of fixed length.

A region is a list of cells.  The module has the three accesses byte-moving
code makes (a window of the region, a block overwrite at an offset, and a
forward cell-by-cell move to a lower offset) and how windows read through them.
-/

import Mathlib.Data.List.Basic

namespace Region

universe u

variable {α : Type u}

/-- The cells with offsets in `[low, high)`. -/
def window (region : List α) (low high : Nat) : List α :=
  (region.take high).drop low

/-- Copy `cells` over the region, from `offset` on. -/
def overwrite (region : List α) (offset : Nat) (cells : List α) : List α :=
  region.take offset ++ cells ++ region.drop (offset + cells.length)

/-- Move `count` cells from `source` down to `target`, one cell at a time and
in ascending order; the two ranges may overlap. -/
def moveDown (region : List α) (source target : Nat) : Nat → List α
  | 0 => region
  | count + 1 =>
      match region[source]? with
      | some cell => moveDown (region.set target cell) (source + 1) (target + 1) count
      | none => region

/-! ### Windows -/

theorem window_length (region : List α) (low high : Nat) :
    (window region low high).length = min high region.length - low := by
  simp [window]

theorem window_length_of_le {region : List α} {low high : Nat}
    (inRange : high ≤ region.length) :
    (window region low high).length = high - low := by
  rw [window_length, Nat.min_eq_left inRange]

theorem window_eq_nil {region : List α} {low high : Nat} (reversed : high ≤ low) :
    window region low high = [] := by
  apply List.eq_nil_of_length_eq_zero
  rw [window_length]
  omega

@[simp] theorem window_self (region : List α) (offset : Nat) :
    window region offset offset = [] :=
  window_eq_nil (Nat.le_refl _)

theorem window_append {region : List α} {low middle high : Nat}
    (lower : low ≤ middle) (upper : middle ≤ high) :
    window region low middle ++ window region middle high = window region low high := by
  unfold window
  have firstPart : region.take middle = (region.take high).take middle := by
    rw [List.take_take, Nat.min_eq_left upper]
  rw [firstPart]
  by_cases short : middle ≤ (region.take high).length
  · conv_rhs => rw [← List.take_append_drop middle (region.take high)]
    rw [List.drop_append_of_le_length]
    rw [List.length_take, Nat.min_eq_left short]
    exact lower
  · have whole : (region.take high).take middle = region.take high :=
      List.take_of_length_le (by omega)
    have rest : (region.take high).drop middle = [] :=
      List.drop_eq_nil_of_le (by omega)
    rw [whole, rest, List.append_nil]

theorem window_take (region : List α) (low high count : Nat) :
    (window region low high).take count = window region low (min (low + count) high) := by
  unfold window
  rw [List.take_drop, List.take_take]

theorem window_drop (region : List α) (low high count : Nat) :
    (window region low high).drop count = window region (low + count) high := by
  unfold window
  rw [List.drop_drop]

/-! ### Overwriting -/

section Overwrite

variable {region cells : List α} {offset : Nat}

theorem overwrite_length (room : offset + cells.length ≤ region.length) :
    (overwrite region offset cells).length = region.length := by
  simp only [overwrite, List.length_append, List.length_take, List.length_drop]
  omega

theorem overwrite_take (room : offset + cells.length ≤ region.length) :
    (overwrite region offset cells).take (offset + cells.length) =
      region.take offset ++ cells := by
  unfold overwrite
  have firstPart : (region.take offset ++ cells).length = offset + cells.length := by
    rw [List.length_append, List.length_take]
    omega
  rw [← firstPart, List.take_left']
  rfl

/-- A window that ends before the copied cells. -/
theorem window_overwrite_before {low high : Nat}
    (room : offset + cells.length ≤ region.length) (before : high ≤ offset) :
    window (overwrite region offset cells) low high = window region low high := by
  have kept : (overwrite region offset cells).take high = region.take high := by
    have shorter : high ≤ offset + cells.length := by omega
    have inside : high ≤ (region.take offset).length := by
      rw [List.length_take]
      omega
    calc (overwrite region offset cells).take high
        = ((overwrite region offset cells).take (offset + cells.length)).take high := by
          rw [List.take_take, Nat.min_eq_left shorter]
      _ = (region.take offset).take high := by
          rw [overwrite_take room, List.take_append_of_le_length inside]
      _ = region.take high := by
          rw [List.take_take, Nat.min_eq_left before]
  unfold window
  rw [kept]

/-- A window that ends where the copied cells end. -/
theorem window_overwrite_left {low : Nat} (room : offset + cells.length ≤ region.length)
    (lower : low ≤ offset) :
    window (overwrite region offset cells) low (offset + cells.length) =
      window region low offset ++ cells := by
  unfold window
  rw [overwrite_take room, List.drop_append_of_le_length]
  rw [List.length_take]
  omega

/-- A window that starts where the copied cells start. -/
theorem window_overwrite_right {high : Nat} (room : offset + cells.length ≤ region.length)
    (upper : offset + cells.length ≤ high) :
    window (overwrite region offset cells) offset high =
      cells ++ window region (offset + cells.length) high := by
  rw [← window_append (Nat.le_add_right offset cells.length) upper,
    window_overwrite_left room (Nat.le_refl _), window_self, List.nil_append]
  congr 1
  unfold window
  have sameTail : (overwrite region offset cells).drop (offset + cells.length) =
      region.drop (offset + cells.length) := by
    have firstPart : (region.take offset ++ cells).length = offset + cells.length := by
      rw [List.length_append, List.length_take]
      omega
    unfold overwrite
    rw [List.drop_left' firstPart]
  rw [List.drop_take, List.drop_take, sameTail]

end Overwrite

/-! ### Moving down -/

theorem moveDown_getElem? (count : Nat) {region : List α} {source target : Nat}
    (down : target ≤ source) (inRange : source + count ≤ region.length) (index : Nat) :
    (moveDown region source target count)[index]? =
      if target ≤ index ∧ index < target + count then
        region[source + (index - target)]?
      else region[index]? := by
  induction count generalizing region source target with
  | zero =>
      have outside : ¬(target ≤ index ∧ index < target + 0) := by omega
      rw [if_neg outside]
      rfl
  | succ count ih =>
      have present : source < region.length := by omega
      simp only [moveDown, List.getElem?_eq_getElem present]
      rw [ih (by omega) (by rw [List.length_set]; omega)]
      by_cases atTarget : index = target
      · subst index
        rw [if_neg (by omega), if_pos (by omega), Nat.sub_self, Nat.add_zero,
          List.getElem?_set_self (by omega), List.getElem?_eq_getElem present]
      · by_cases inside : target ≤ index ∧ index < target + (count + 1)
        · rw [if_pos (by omega), if_pos inside, List.getElem?_set_ne (by omega)]
          congr 1
          omega
        · rw [if_neg (by omega), if_neg inside, List.getElem?_set_ne (by omega)]

theorem moveDown_length (count : Nat) (region : List α) (source target : Nat) :
    (moveDown region source target count).length = region.length := by
  induction count generalizing region source target with
  | zero =>
      rfl
  | succ count ih =>
      unfold moveDown
      cases region[source]? with
      | none =>
          rfl
      | some cell =>
          simp only [ih, List.length_set]

/-- A forward move to a lower offset carries the whole window along. -/
theorem window_moveDown (region : List α) (count : Nat) {source target : Nat}
    (down : target ≤ source) (inRange : source + count ≤ region.length) :
    window (moveDown region source target count) target (target + count) =
      window region source (source + count) := by
  apply List.ext_getElem?
  intro index
  unfold window
  rw [List.getElem?_drop, List.getElem?_drop, List.getElem?_take, List.getElem?_take]
  by_cases inside : index < count
  · rw [if_pos (by omega), if_pos (by omega), moveDown_getElem? count down inRange,
      if_pos (by omega)]
    congr 1
    omega
  · rw [if_neg (by omega), if_neg (by omega)]

end Region
