import Mathlib.Data.List.TakeWhile
import Mathlib.Data.List.Infix

namespace Extlib
namespace Text

/-!
# Terminated strings in memory

A C string is what a pointer shows up to the first NUL.  The library keeps
the two views apart: memory is a list of bytes, possibly with NULs in it and
with anything behind them, and a `CString` is a list of characters that has
no NUL at all.  `CString.ofMemory` reads the second out of the first.

Searching is by first occurrence, as `strstr` and `strchr` do.  The lemmas
say where an occurrence can be when the text is known piece by piece, and
that an occurrence found in a text stays the first one when the text grows.
-/

/-- The ASCII codes of a literal. -/
def ascii (literal : String) : List UInt8 :=
  literal.toList.map Char.toUInt8

/-- A string without its terminator.  The proof field is what makes `strlen`
and the comparison of two strings functions of `chars` alone. -/
structure CString where
  chars : List UInt8
  nulFree : (0 : UInt8) ∉ chars
  deriving DecidableEq, Repr

namespace CString

/-- `strlen`. -/
def length (text : CString) : Nat := text.chars.length

/-- The string as it lies in memory. -/
def stored (text : CString) : List UInt8 := text.chars ++ [0]

@[ext] theorem ext {left right : CString} (same : left.chars = right.chars) : left = right := by
  cases left
  cases right
  simp only [CString.mk.injEq]
  exact same

/-- The string a pointer to `memory` designates. -/
def ofMemory (memory : List UInt8) : CString where
  chars := memory.takeWhile (· != 0)
  nulFree := by
    intro member
    simpa using List.mem_takeWhile_imp member

/-- The characters from `start` on, at most `size` of them. -/
def slice (text : CString) (start size : Nat) : CString where
  chars := (text.chars.drop start).take size
  nulFree := fun member => text.nulFree (List.mem_of_mem_drop (List.mem_of_mem_take member))

@[simp] theorem slice_chars (text : CString) (start size : Nat) :
    (text.slice start size).chars = (text.chars.drop start).take size := rfl

@[simp] theorem length_stored (text : CString) : text.stored.length = text.length + 1 := by
  simp [stored, length]

/-- Whatever follows the first NUL is invisible through the pointer. -/
theorem ofMemory_terminated (chars rest : List UInt8) (nulFree : (0 : UInt8) ∉ chars) :
    ofMemory (chars ++ 0 :: rest) = ⟨chars, nulFree⟩ := by
  have visible : ∀ c ∈ chars, (c != 0) = true := by
    intro c member
    exact bne_iff_ne.mpr (fun zero => nulFree (zero ▸ member))
  ext1
  simp only [ofMemory]
  rw [List.takeWhile_append_of_pos visible]
  simp

@[simp] theorem ofMemory_stored (text : CString) (rest : List UInt8) :
    ofMemory (text.stored ++ rest) = text := by
  simp only [stored, List.append_assoc, List.singleton_append]
  exact ofMemory_terminated text.chars rest text.nulFree

/-- The string ends at any NUL at the latest. -/
theorem length_ofMemory_le (before rest : List UInt8) :
    (ofMemory (before ++ 0 :: rest)).length ≤ before.length := by
  unfold length
  induction before with
  | nil => simp [ofMemory]
  | cons head tail inductionHypothesis =>
      simp only [ofMemory, List.cons_append, List.takeWhile_cons] at inductionHypothesis ⊢
      split
      · simpa using inductionHypothesis
      · simp

/-- A terminated region is its string, the NUL, and the rest. -/
theorem ofMemory_split {memory : List UInt8} (terminated : (0 : UInt8) ∈ memory) :
    ∃ rest, memory = (ofMemory memory).chars ++ 0 :: rest := by
  have split := List.takeWhile_append_dropWhile (p := (· != (0 : UInt8))) (l := memory)
  cases tail : memory.dropWhile (· != (0 : UInt8)) with
  | nil =>
      rw [tail, List.append_nil] at split
      exact False.elim ((ofMemory memory).nulFree (by simpa only [ofMemory, split] using terminated))
  | cons head rest =>
      have stops : (head != 0) = false := by
        have := List.head?_dropWhile_not (· != (0 : UInt8)) memory
        simpa [tail] using this
      have zero : head = 0 := by simpa using stops
      exact ⟨rest, by rw [← zero, ← tail]; exact split.symm⟩

end CString

section Search

variable {α : Type*} [DecidableEq α]

/-- The offset of the first place where `needle` occurs. -/
def firstOccurrence (needle : List α) : List α -> Option Nat
  | [] => if needle = [] then some 0 else none
  | head :: tail =>
      if needle.isPrefixOf (head :: tail) then some 0
      else (firstOccurrence needle tail).map (· + 1)

/-- A reported offset is an occurrence. -/
theorem firstOccurrence_isPrefix {needle : List α} :
    ∀ {text : List α} {offset : Nat}, firstOccurrence needle text = some offset ->
      needle <+: text.drop offset
  | [], offset, found => by
      simp only [firstOccurrence] at found
      split at found
      · cases found
        simp_all
      · cases found
  | head :: tail, offset, found => by
      simp only [firstOccurrence] at found
      split at found
      case isTrue here =>
        cases found
        exact List.isPrefixOf_iff_prefix.mp here
      case isFalse =>
        rcases Option.map_eq_some_iff.mp found with ⟨earlier, inTail, rfl⟩
        change needle <+: tail.drop earlier
        exact firstOccurrence_isPrefix inTail

/-- Extending the text does not move its first occurrence. -/
theorem firstOccurrence_append {needle text : List α} {offset : Nat}
    (found : firstOccurrence needle text = some offset) (more : List α) :
    firstOccurrence needle (text ++ more) = some offset := by
  induction text generalizing offset with
  | nil =>
      have empty : needle = [] ∧ 0 = offset := by simpa [firstOccurrence] using found
      rcases empty with ⟨rfl, rfl⟩
      cases more <;> simp [firstOccurrence]
  | cons head tail inductionHypothesis =>
      simp only [List.cons_append, firstOccurrence] at found ⊢
      by_cases here : needle.isPrefixOf (head :: tail) = true
      · have longer : needle.isPrefixOf (head :: (tail ++ more)) = true :=
          List.isPrefixOf_iff_prefix.mpr
            ((List.isPrefixOf_iff_prefix.mp here).trans (List.prefix_append (head :: tail) more))
        simpa only [if_pos here, if_pos longer] using found
      · rw [if_neg here] at found
        rcases Option.map_eq_some_iff.mp found with ⟨earlier, inTail, rfl⟩
        have notHere : ¬ needle.isPrefixOf (head :: (tail ++ more)) = true := by
          intro longer
          -- the occurrence in the tail leaves room for the needle in the shorter text
          have room : needle.length ≤ (head :: tail).length := by
            have fits : needle.length ≤ (tail.drop earlier).length := (firstOccurrence_isPrefix inTail).length_le
            simp only [List.length_drop, List.length_cons] at fits ⊢
            omega
          exact here (List.isPrefixOf_iff_prefix.mpr
            (List.prefix_of_prefix_length_le (List.isPrefixOf_iff_prefix.mp longer)
              (List.prefix_append (head :: tail) more) room))
        rw [if_neg notHere, inductionHypothesis inTail]
        rfl

/-- A stretch without the needle's first character is skipped. -/
theorem firstOccurrence_skip (first : α) (needle before rest : List α) (absent : first ∉ before) :
    firstOccurrence (first :: needle) (before ++ rest) =
      (firstOccurrence (first :: needle) rest).map (· + before.length) := by
  induction before with
  | nil => simp
  | cons head tail inductionHypothesis =>
      have parts : first ≠ head ∧ first ∉ tail := by simpa using absent
      simp only [List.cons_append, firstOccurrence, List.isPrefixOf, beq_eq_false_iff_ne.mpr parts.1,
        Bool.false_and, Bool.false_eq_true, if_false, inductionHypothesis parts.2,
        Option.map_map, List.length_cons]
      congr 1

/-- No occurrence is in front of the first one. -/
theorem firstOccurrence_le {needle text : List α} {offset : Nat} (occurs : needle <+: text.drop offset) :
    ∃ first, firstOccurrence needle text = some first ∧ first ≤ offset := by
  induction text generalizing offset with
  | nil =>
      rw [List.drop_nil, List.prefix_nil] at occurs
      exact ⟨0, if_pos occurs, Nat.zero_le _⟩
  | cons head tail inductionHypothesis =>
      by_cases here : needle.isPrefixOf (head :: tail) = true
      · exact ⟨0, if_pos here, Nat.zero_le _⟩
      · cases offset with
        | zero => exact absurd (List.isPrefixOf_iff_prefix.mpr occurs) here
        | succ offset =>
            rcases inductionHypothesis occurs with ⟨first, found, below⟩
            refine ⟨first + 1, ?_, Nat.succ_le_succ below⟩
            rw [firstOccurrence, if_neg here, found, Option.map_some]

/-- What stands in front of a character that comes first here. -/
theorem takeWhile_ne {c : α} {before : List α} (absent : c ∉ before) (rest : List α) :
    (before ++ c :: rest).takeWhile (· ≠ c) = before := by
  have passed : ∀ other ∈ before, decide (other ≠ c) = true := by
    intro other member
    rw [decide_eq_true_iff]
    rintro rfl
    exact absent member
  rw [List.takeWhile_append_of_pos passed, List.takeWhile_cons_of_neg (by simp), List.append_nil]

theorem dropWhile_ne {c : α} {before : List α} (absent : c ∉ before) (rest : List α) :
    (before ++ c :: rest).dropWhile (· ≠ c) = c :: rest := by
  have split := List.takeWhile_append_dropWhile (p := (· ≠ c)) (l := before ++ c :: rest)
  rw [takeWhile_ne absent] at split
  exact List.append_cancel_left split

theorem takeWhile_ne_of_notMem {c : α} {text : List α} (absent : c ∉ text) : text.takeWhile (· ≠ c) = text := by
  rw [List.takeWhile_eq_self_iff]
  intro other member
  rw [decide_eq_true_iff]
  rintro rfl
  exact absent member

/-- What stands in front of the first such character decides itself. -/
theorem eq_of_append_cons {c : α} {left right rest rest' : List α} (absent : c ∉ left) (absent' : c ∉ right)
    (same : left ++ c :: rest = right ++ c :: rest') : left = right := by
  have front := congrArg (List.takeWhile (· ≠ c)) same
  rw [takeWhile_ne absent, takeWhile_ne absent'] at front
  exact front

/-- A single character is found where it stands first. -/
theorem firstOccurrence_char {c : α} {before : List α} (absent : c ∉ before) (rest : List α) :
    firstOccurrence [c] (before ++ c :: rest) = some before.length := by
  rw [firstOccurrence_skip c [] before (c :: rest) absent]
  simp [firstOccurrence]

theorem firstOccurrence_char_eq_none_iff {c : α} {text : List α} : firstOccurrence [c] text = none ↔ c ∉ text := by
  constructor
  · intro missed member
    rcases List.mem_iff_append.mp member with ⟨before, rest, rfl⟩
    have occurs : [c] <+: (before ++ c :: rest).drop before.length := by
      rw [List.drop_left]
      exact ⟨rest, rfl⟩
    rcases firstOccurrence_le occurs with ⟨first, found, _⟩
    rw [missed] at found
    cases found
  · intro absent
    have skipped := firstOccurrence_skip c [] text [] absent
    rw [List.append_nil] at skipped
    rw [skipped]
    simp [firstOccurrence]

/-- A delimiter of two different characters that does not occur in `before`
is found right behind it: an overlap would need the two to be equal. -/
theorem firstOccurrence_delimiter {first second : α} (different : first ≠ second)
    {before : List α} (absent : ¬ [first, second] <:+: before) (rest : List α) :
    firstOccurrence [first, second] (before ++ first :: second :: rest) = some before.length := by
  induction before with
  | nil => simp [firstOccurrence]
  | cons head tail inductionHypothesis =>
      have later := inductionHypothesis (fun inTail => absent (List.infix_cons inTail))
      have notHere : ¬ [first, second].isPrefixOf (head :: (tail ++ first :: second :: rest)) = true := by
        intro here
        cases tail with
        | nil => simp [List.isPrefixOf] at here; exact different here.2.symm
        | cons next tail =>
            have same : first = head ∧ second = next := by simpa [List.isPrefixOf] using here
            exact absent ⟨[], tail, by rw [same.1, same.2]; rfl⟩
      simp only [List.cons_append, firstOccurrence, if_neg notHere, later, Option.map_some,
        List.length_cons]

end Search

end Text
end Extlib
