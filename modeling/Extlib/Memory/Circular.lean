import Extlib.Memory.Region
import Mathlib.Data.List.Rotate

namespace Extlib
namespace Memory

/-!
# Blocks that are used as rings

Seen from an offset, a block goes on around its end: `rotate` is that view.  An
access of a ring is made in at most two pieces, up to the end of the block and
from its beginning; the lemmas say that the pieces are one access in the view.
-/

variable {α : Type*}

/-- The offset moved by at most a whole turn. -/
theorem wrap_eq {offset len size : Nat} (inside : offset < size) (fits : len ≤ size) :
    (offset + len) % size = if offset + len < size then offset + len else offset + len - size := by
  split
  case isTrue below => exact Nat.mod_eq_of_lt below
  case isFalse beyond =>
    rw [Nat.mod_eq_sub_mod (by omega)]
    apply Nat.mod_eq_of_lt
    omega

/-- Every place in a ring is reached from the offset in less than a turn. -/
theorem exists_wrap {offset place size : Nat} (inside : offset < size) (there : place < size) :
    ∃ i < size, place = (offset + i) % size := by
  by_cases before : place < offset
  · refine ⟨place + size - offset, by omega, ?_⟩
    rw [wrap_eq inside (by omega), if_neg (by omega)]
    omega
  · refine ⟨place - offset, by omega, ?_⟩
    rw [wrap_eq inside (by omega), if_pos (by omega)]
    omega

/-- A cell counted from the offset, in the view. -/
theorem getElem?_wrap {block : List α} {i : Nat} (offset : Nat) (inside : i < block.length) :
    block[(offset + i) % block.length]? = (block.rotate offset)[i]? := by
  rw [List.getElem?_rotate inside, Nat.add_comm]

/-- Store `cells` from `offset` on, and around the end of the block. -/
def wrapOverwrite (block : List α) (offset : Nat) (cells : List α) : List α :=
  overwrite (overwrite block offset (cells.take (block.length - offset))) 0 (cells.drop (block.length - offset))

@[simp] theorem overwrite_nil (block : List α) (offset : Nat) : overwrite block offset [] = block := by
  simp [overwrite]

/-- Cells that do not reach the end are one piece. -/
theorem wrapOverwrite_of_le {block cells : List α} {offset : Nat} (fits : cells.length ≤ block.length - offset) :
    wrapOverwrite block offset cells = overwrite block offset cells := by
  rw [wrapOverwrite, List.drop_eq_nil_of_le fits, overwrite_nil, List.take_of_length_le fits]

/-- A window that ends inside the block, in the view. -/
theorem window_eq_take_rotate {block : List α} {first size : Nat} (inside : first + size ≤ block.length) :
    window block first size = (block.rotate first).take size := by
  rw [window, List.rotate_eq_drop_append_take (by omega), List.take_append_of_le_length (by
    rw [List.length_drop]
    omega)]

/-- The rest of the block and a window at its beginning, in the view. -/
theorem window_append_eq_take_rotate {block : List α} {first size : Nat} (start : first ≤ block.length)
    (long : block.length - first ≤ size) (once : size ≤ block.length) :
    window block first (block.length - first) ++ window block 0 (size - (block.length - first)) =
      (block.rotate first).take size := by
  have rest : window block first (block.length - first) = block.drop first := by
    rw [window, List.take_of_length_le (Nat.le_of_eq List.length_drop)]
  have whole : (block.drop first).take size = block.drop first := by
    apply List.take_of_length_le
    rw [List.length_drop]
    exact long
  have beginning : (block.take first).take (size - (block.length - first)) =
      window block 0 (size - (block.length - first)) := by
    rw [List.take_take, Nat.min_eq_left (by omega), window, List.drop_zero]
  rw [rest, List.rotate_eq_drop_append_take start, List.take_append, List.length_drop, whole, beginning]

/-- In the view from the offset an overwrite replaces the cells at the front. -/
theorem rotate_wrapOverwrite {block cells : List α} {offset : Nat} (start : offset ≤ block.length)
    (once : cells.length ≤ block.length) :
    (wrapOverwrite block offset cells).rotate offset = cells ++ (block.rotate offset).drop cells.length ∧
      (wrapOverwrite block offset cells).length = block.length := by
  have front : (block.take offset).length = offset := List.length_take_of_le start
  rw [List.rotate_eq_drop_append_take start]
  by_cases fits : cells.length ≤ block.length - offset
  · have length : (overwrite block offset cells).length = block.length := length_overwrite (by omega)
    rw [wrapOverwrite_of_le fits]
    refine ⟨?_, length⟩
    rw [List.rotate_eq_drop_append_take (by omega), overwrite, List.append_assoc, List.drop_left' front,
      List.take_left' front, List.drop_append_of_le_length (by
        rw [List.length_drop]
        exact fits), List.drop_drop, List.append_assoc]
  · -- the first piece goes up to the end, the second is no longer than what lies in front of the offset
    have right : (cells.take (block.length - offset)).length = block.length - offset :=
      List.length_take_of_le (by omega)
    have left : (cells.drop (block.length - offset)).length = cells.length - (block.length - offset) :=
      List.length_drop
    have pieces : wrapOverwrite block offset cells =
        (cells.drop (block.length - offset) ++
          (block.take offset).drop (cells.length - (block.length - offset))) ++
          cells.take (block.length - offset) := by
      have first : overwrite block offset (cells.take (block.length - offset)) =
          block.take offset ++ cells.take (block.length - offset) := by
        rw [overwrite, right, List.drop_eq_nil_of_le (by omega), List.append_nil]
      rw [wrapOverwrite, first, overwrite, List.take_zero, List.nil_append, Nat.zero_add, left,
        List.drop_append_of_le_length (by omega), List.append_assoc]
    have beginning : (cells.drop (block.length - offset) ++
        (block.take offset).drop (cells.length - (block.length - offset))).length = offset := by
      rw [List.length_append, left, List.length_drop, front]
      omega
    have behind : (block.drop offset ++ block.take offset).drop cells.length =
        (block.take offset).drop (cells.length - (block.length - offset)) := by
      rw [List.drop_append, List.length_drop, List.drop_eq_nil_of_le (by
        rw [List.length_drop]
        omega), List.nil_append]
    have length : (wrapOverwrite block offset cells).length = block.length := by
      rw [pieces, List.length_append, beginning, right]
      omega
    refine ⟨?_, length⟩
    rw [List.rotate_eq_drop_append_take (by omega), pieces, List.drop_left' beginning,
      List.take_left' beginning, behind, ← List.append_assoc, List.take_append_drop]

end Memory
end Extlib
