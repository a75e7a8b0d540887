import Mathlib.Data.List.Basic

namespace Extlib
namespace Memory

/-!
# Regions of memory

An allocated block as the list of its cells, with the two accesses a buffer
makes: reading a window of it and overwriting some cells in place.  The
lemmas say which windows an overwrite leaves alone and what it puts into the
others.
-/

variable {α : Type*}

/-- The `size` cells from `first` on. -/
def window (block : List α) (first size : Nat) : List α := (block.drop first).take size

/-- Store `cells` at `offset`. -/
def overwrite (block : List α) (offset : Nat) (cells : List α) : List α :=
  block.take offset ++ cells ++ block.drop (offset + cells.length)

@[simp] theorem window_zero (block : List α) (first : Nat) : window block first 0 = [] := List.take_zero

theorem length_window {block : List α} {first size : Nat} (inside : first + size ≤ block.length) :
    (window block first size).length = size := by
  simp only [window, List.length_take, List.length_drop]
  omega

/-- Two adjacent windows. -/
theorem window_append (block : List α) (first size more : Nat) :
    window block first size ++ window block (first + size) more = window block first (size + more) := by
  simp only [window]
  rw [← List.drop_drop, ← List.take_add]

theorem drop_window (block : List α) (first count size : Nat) :
    (window block first size).drop count = window block (first + count) (size - count) := by
  simp only [window, List.drop_take, List.drop_drop]

theorem length_overwrite {block cells : List α} {offset : Nat}
    (inside : offset + cells.length ≤ block.length) :
    (overwrite block offset cells).length = block.length := by
  simp only [overwrite, List.length_append, List.length_take, List.length_drop]
  omega

/-- An overwrite is not seen in front of it. -/
theorem window_overwrite_before {block cells : List α} {offset first size : Nat}
    (inside : offset ≤ block.length) (before : first + size ≤ offset) :
    window (overwrite block offset cells) first size = window block first size := by
  have front : (block.take offset).length = offset := by
    rw [List.length_take]
    omega
  simp only [window, overwrite, List.append_assoc]
  rw [List.drop_append_of_le_length (by omega), List.take_append_of_le_length (by
    rw [List.length_drop]
    omega), List.drop_take, List.take_take, Nat.min_eq_left (by omega)]

/-- The cells stored are the cells read back. -/
theorem window_overwrite_self {block cells : List α} {offset : Nat} (inside : offset ≤ block.length) :
    window (overwrite block offset cells) offset cells.length = cells := by
  have front : (block.take offset).length = offset := by
    rw [List.length_take]
    omega
  simp only [window, overwrite, List.append_assoc]
  rw [List.drop_left' front, List.take_left]

/-- Setting one cell is not seen in front of it. -/
theorem window_set_before (block : List α) (index : Nat) (cell : α) {first size : Nat}
    (before : first + size ≤ index) :
    window (block.set index cell) first size = window block first size := by
  have swap : ∀ cells : List α, window cells first size = (cells.take (first + size)).drop first := by
    intro cells
    rw [window, List.drop_take, Nat.add_sub_cancel_left]
  rw [swap, swap, List.take_set_of_le before]

end Memory
end Extlib
