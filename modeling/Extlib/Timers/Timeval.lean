import Mathlib.Data.Nat.Basic

namespace Extlib
namespace Timers

/-!
# Times in seconds and microseconds

`struct timeval` with the macros of `sys/time.h`.  The macros compare field by
field and carry at most once, so that they agree with the time a value stands
for only while the microseconds stay below a million.
-/

structure Timeval where
  sec : Nat
  usec : Nat
  deriving DecidableEq, Repr

/-- What `gettimeofday` stores. -/
structure Timeofday extends Timeval where
  normalised : usec < 1000000

namespace Timeval

/-- The time in microseconds. -/
def micros (time : Timeval) : Nat := time.sec * 1000000 + time.usec

/-- `timerclear`. -/
def clear : Timeval := ⟨0, 0⟩

/-- `timerisset`. -/
def IsSet (time : Timeval) : Prop := time.sec ≠ 0 ∨ time.usec ≠ 0

instance (time : Timeval) : Decidable time.IsSet :=
  inferInstanceAs (Decidable (time.sec ≠ 0 ∨ time.usec ≠ 0))

/-- `timercmp` with `<`. -/
def Before (left right : Timeval) : Prop :=
  if left.sec = right.sec then left.usec < right.usec else left.sec < right.sec

instance (left right : Timeval) : Decidable (left.Before right) :=
  inferInstanceAs (Decidable (if left.sec = right.sec then left.usec < right.usec else left.sec < right.sec))

/-- `timeradd`. -/
def add (left right : Timeval) : Timeval :=
  if left.usec + right.usec ≥ 1000000 then ⟨left.sec + right.sec + 1, left.usec + right.usec - 1000000⟩
  else ⟨left.sec + right.sec, left.usec + right.usec⟩

theorem not_isSet_clear : ¬ clear.IsSet := by decide

/-- The carry changes the spelling of a time and not the time. -/
theorem micros_add (left right : Timeval) : (left.add right).micros = left.micros + right.micros := by
  unfold add micros
  split
  case isTrue carry =>
    dsimp only
    omega
  case isFalse =>
    dsimp only
    omega

theorem before_of_sec_lt {left right : Timeval} (earlier : left.sec < right.sec) : left.Before right := by
  unfold Before
  rw [if_neg (Nat.ne_of_lt earlier)]
  exact earlier

theorem not_before_of_sec_lt {left right : Timeval} (later : right.sec < left.sec) : ¬ left.Before right := by
  unfold Before
  rw [if_neg (Nat.ne_of_gt later)]
  exact Nat.lt_asymm later

/-- A time that is not later, field by field, than another is not later, as
long as its microseconds do not exceed a second. -/
theorem micros_le_of_not_before {deadline now : Timeval} (spelled : deadline.usec ≤ 1000000)
    (reached : ¬ now.Before deadline) : deadline.micros ≤ now.micros := by
  unfold Before at reached
  unfold micros
  split at reached <;> omega

theorem not_before_of_before {left right : Timeval} (before : left.Before right) : ¬ right.Before left := by
  unfold Before at before ⊢
  split at before <;> split <;> omega

theorem not_before_self (time : Timeval) : ¬ time.Before time := by
  unfold Before
  rw [if_pos rfl]
  exact Nat.lt_irrefl _

theorem not_before_of_before_of_not_before {time earlier bound : Timeval} (lower : earlier.Before bound)
    (above : ¬ time.Before bound) : ¬ time.Before earlier := by
  unfold Before at lower above ⊢
  split at lower <;> split at above <;> split <;> omega

/-- A bound on the microseconds that is no less than a second is kept when a
repeat time is added. -/
theorem usec_add_lt {left right : Timeval} {bound : Nat} (second : 1000000 ≤ bound) (bounded : left.usec < bound)
    (part : right.usec < 1000000) : (left.add right).usec < bound := by
  unfold add
  split
  case isTrue carry =>
    dsimp only
    omega
  case isFalse =>
    dsimp only
    omega

end Timeval

end Timers
end Extlib
