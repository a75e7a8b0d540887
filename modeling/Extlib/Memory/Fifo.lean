import Mathlib.Data.List.Basic

namespace Extlib
namespace Memory

/-!
# Queues with their history

A first-in first-out queue that remembers everything it ever accepted.  What
is waiting is the accepted sequence without the part that left it, so that
"in order, nothing lost and nothing twice" is not a property to prove but the
way a value of the type is built.
-/

variable {α : Type*}

structure Fifo (α : Type*) where
  accepted : List α
  removed : Nat
  removedWereAccepted : removed ≤ accepted.length

namespace Fifo

def empty : Fifo α := ⟨[], 0, Nat.le_refl _⟩

/-- What is waiting. -/
def contents (queue : Fifo α) : List α := queue.accepted.drop queue.removed

def push (queue : Fifo α) (items : List α) : Fifo α where
  accepted := queue.accepted ++ items
  removed := queue.removed
  removedWereAccepted := by
    have := queue.removedWereAccepted
    rw [List.length_append]
    omega

/-- Remove the first `count` items, or all of them. -/
def skip (queue : Fifo α) (count : Nat) : Fifo α where
  accepted := queue.accepted
  removed := min (queue.removed + count) queue.accepted.length
  removedWereAccepted := Nat.min_le_right _ _

@[simp] theorem contents_empty : (empty : Fifo α).contents = [] := rfl

@[simp] theorem contents_push (queue : Fifo α) (items : List α) :
    (queue.push items).contents = queue.contents ++ items :=
  List.drop_append_of_le_length queue.removedWereAccepted

@[simp] theorem contents_skip (queue : Fifo α) (count : Nat) :
    (queue.skip count).contents = queue.contents.drop count := by
  simp only [contents, skip, List.drop_drop]
  rcases Nat.le_total (queue.removed + count) queue.accepted.length with within | beyond
  · rw [Nat.min_eq_left within]
  · rw [Nat.min_eq_right beyond, List.drop_length, List.drop_eq_nil_of_le beyond]

end Fifo

end Memory
end Extlib
