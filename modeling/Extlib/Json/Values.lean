import Extlib.Json.Levels

namespace Extlib
namespace Json

open Text

/-!
# What stands where a value begins

Both readers run over a value to the first blank, comma or closing brace, and
then over blanks to a comma or a closing brace.  The integer is the digits up
to there, which are copied to an array of 32 characters.
-/

/-- Blanks, and then a comma or a closing brace. -/
def Closes (str : List UInt8) : Prop := ∃ c ∈ (str.dropWhile (· = 32)).head?, c = 44 ∨ c = 125

instance (str : List UInt8) : Decidable (Closes str) :=
  inferInstanceAs (Decidable (∃ c ∈ (str.dropWhile (· = 32)).head?, c = 44 ∨ c = 125))

section Scans

variable {plain : UInt8 -> Bool} {count found : Nat} {str word rest : List UInt8}

theorem closes_blank : Closes (32 :: str) ↔ Closes str := by
  unfold Closes
  rw [List.dropWhile_cons_of_pos (by decide)]

theorem closes_cons {c : UInt8} (other : c ≠ 32) : Closes (c :: str) ↔ c = 44 ∨ c = 125 := by
  unfold Closes
  rw [List.dropWhile_cons_of_neg (by simpa using other), List.head?_cons]
  simp

theorem closes_of_close {c : UInt8} (close : c = 44 ∨ c = 125) : Closes (c :: str) := by
  have other : c ≠ 32 := by
    rcases close with rfl | rfl <;> decide
  exact (closes_cons other).mpr close

theorem not_closes_nil : ¬ Closes [] := by decide

theorem Closes.head_cases {c : UInt8} (closes : Closes (c :: str)) : c = 32 ∨ c = 44 ∨ c = 125 := by
  by_cases blank : c = 32
  · exact Or.inl blank
  · exact Or.inr ((closes_cons blank).mp closes)

theorem Closes.head (closes : Closes str) : ∀ c ∈ str.head?, stringChar c = false := by
  rintro c first
  rcases List.head?_eq_some_iff.mp first with ⟨tail, rfl⟩
  rcases closes.head_cases with rfl | rfl | rfl <;> decide

theorem Closes.takeWhile_stringChar (closes : Closes str) : str.takeWhile stringChar = [] := by
  cases str with
  | nil => rfl
  | cons c str => exact List.takeWhile_cons_of_neg (by rw [closes.head c rfl]; exact Bool.false_ne_true)

/-- Behind `value_end` there is nothing but blanks. -/
theorem valueScan_ended_iff : valueScan plain true count str = .ok found ↔ Closes str ∧ found = count := by
  induction str with
  | nil => simp [valueScan, not_closes_nil]
  | cons c str inductionHypothesis =>
      rw [valueScan, if_neg (by simp)]
      by_cases blank : c = 32
      · rw [if_pos blank, inductionHypothesis, blank, closes_blank]
      · rw [if_neg blank, closes_cons blank]
        by_cases close : c = 44 ∨ c = 125
        · rw [if_pos close]
          simp [close, eq_comm]
        · rw [if_neg close]
          simp [close]

/-- A comma, a closing brace or a blank ends a value. -/
structure Ends (plain : UInt8 -> Bool) : Prop where
  blank : plain 32 = false
  comma : plain 44 = false
  brace : plain 125 = false

theorem ends_stringChar : Ends stringChar := ⟨by decide, by decide, by decide⟩

theorem ends_isDigit : Ends isDigit := ⟨by decide, by decide, by decide⟩

/-- A value is a run of its characters. -/
theorem valueScan_word (ends : Ends plain) (inside : ∀ c ∈ word, plain c = true) (closes : Closes rest) :
    ∀ count, valueScan plain false count (word ++ rest) = .ok (count + word.length) := by
  induction word with
  | nil =>
      intro count
      cases rest with
      | nil => exact absurd closes not_closes_nil
      | cons c rest =>
          rw [List.nil_append, valueScan]
          by_cases blank : c = 32
          · subst blank
            rw [if_neg (by simp [ends.blank]), if_pos rfl, valueScan_ended_iff]
            exact ⟨closes_blank.mp closes, rfl⟩
          · have close := (closes_cons blank).mp closes
            have stops : ¬ (false = false ∧ plain c = true) := by
              rcases close with rfl | rfl
              · simp [ends.comma]
              · simp [ends.brace]
            rw [if_neg stops, if_neg blank, if_pos close]
            rfl
  | cons c word inductionHypothesis =>
      intro count
      rw [List.cons_append, valueScan, if_pos ⟨rfl, inside c List.mem_cons_self⟩,
        inductionHypothesis fun other member => inside other (List.mem_cons_of_mem c member)]
      rw [List.length_cons]
      congr 1
      omega

/-- A scan that goes well has run over such a value. -/
theorem valueScan_ok : ∀ {count : Nat}, valueScan plain false count str = .ok found ->
    ∃ word rest, str = word ++ rest ∧ (∀ c ∈ word, plain c = true) ∧ Closes rest ∧ found = count + word.length := by
  induction str with
  | nil => exact fun scans => nomatch scans
  | cons c str inductionHypothesis =>
      intro count scans
      rw [valueScan] at scans
      split at scans
      case isTrue here =>
        rcases inductionHypothesis scans with ⟨word, rest, rfl, inside, closes, rfl⟩
        refine ⟨c :: word, rest, rfl, ?_, closes, ?_⟩
        · intro other member
          rcases List.mem_cons.mp member with rfl | later
          · exact here.2
          · exact inside other later
        · rw [List.length_cons]
          omega
      case isFalse =>
        refine ⟨[], c :: str, rfl, by simp, ?_⟩
        split at scans
        case isTrue blank =>
          subst blank
          rcases valueScan_ended_iff.mp scans with ⟨closes, rfl⟩
          exact ⟨closes_blank.mpr closes, rfl⟩
        case isFalse other =>
          split at scans
          case isTrue close =>
            cases scans
            exact ⟨(closes_cons other).mpr close, rfl⟩
          case isFalse => cases scans

end Scans

/-! ## Integers -/

/-- Digits, and where they end. -/
structure IntAt (walkIdx digits rest : List UInt8) : Prop where
  start : walkIdx.dropWhile isGap = digits ++ rest
  nonempty : digits ≠ []
  decimal : ∀ c ∈ digits, isDigit c = true
  closes : Closes rest

section Integers

variable {jo : JsonObject} {walkIdx digits rest : List UInt8} {value : Int32}

/-- A run of digits is read up to its end, or overruns `tmp`. -/
theorem getIntAt_digits (int : IntAt walkIdx digits rest) :
    getIntAt jo walkIdx value =
      if 32 ≤ digits.length then .overrun
      else .returned 0 jo.errno (signedWord false (magnitude 10 decimalValue digits)).toInt32 := by
  have scans := valueScan_word ends_isDigit int.decimal int.closes 0
  have read := @atoi_digits false digits [] int.nonempty int.decimal (fun _ first => nomatch first)
  have start := int.start
  obtain ⟨first, others, shape⟩ := List.exists_cons_of_ne_nil int.nonempty
  rw [List.append_nil, if_neg Bool.false_ne_true, List.nil_append] at read
  rw [← read, getIntAt, start]
  have whole : (first :: (others ++ rest)).take digits.length = digits := by
    rw [← List.cons_append, ← shape, List.take_left]
  rw [shape, List.cons_append] at scans ⊢
  dsimp only
  rw [if_neg (not_not.mpr (int.decimal first (by rw [shape]; exact List.mem_cons_self))), scans]
  dsimp only
  rw [Nat.zero_add, ← shape, whole]

/-- Anything else is refused. -/
theorem getIntAt_fails (none : ¬ ∃ digits rest, IntAt walkIdx digits rest) :
    ∃ errno, getIntAt jo walkIdx value = .returned (-1) errno value := by
  unfold getIntAt
  split
  case h_1 => exact ⟨_, rfl⟩
  case h_2 c str start =>
    split
    case isTrue => exact ⟨_, rfl⟩
    case isFalse digit =>
      split
      case h_1 => exact ⟨_, rfl⟩
      case h_2 count scans =>
        rcases valueScan_ok scans with ⟨word, rest, split, decimal, closes, _⟩
        refine absurd ⟨word, rest, start.trans split, ?_, decimal, closes⟩ none
        rintro rfl
        -- the digit stands where the value has ended
        rw [List.nil_append] at split
        rw [← split] at closes
        have isDigit : isDigit c = true := not_not.mp digit
        by_cases blank : c = 32
        · rw [blank] at isDigit
          revert isDigit
          decide
        · rcases (closes_cons blank).mp closes with rfl | rfl
          · revert isDigit
            decide
          · revert isDigit
            decide

/-- The number that stands there is returned, or it is refused because it does
not fit `int`. -/
def ReturnsNumber (jo : JsonObject) (path : CString) (value : Int32) (number : Nat) : Prop :=
  (∃ read : Int32, jsonGetInt jo path value = .returned 0 jo.errno read ∧ read.toInt = number) ∨
    2 ^ 31 ≤ number ∧ ∃ errno, jsonGetInt jo path value = .returned (-1) errno value

/-- Digits are returned as the number they write exactly when it fits `int` and
`tmp` has room for them. -/
theorem jsonGetInt_number_iff {path : CString}
    (found : jsonWalk (path.length + 1) jo.raw.chars path.chars = .found walkIdx) (int : IntAt walkIdx digits rest)
    (value : Int32) :
    ReturnsNumber jo path value (magnitude 10 decimalValue digits) ↔
      magnitude 10 decimalValue digits < 2 ^ 31 ∧ digits.length ≤ 31 := by
  unfold ReturnsNumber
  rw [jsonGetInt_found found, getIntAt_digits int]
  by_cases long : 32 ≤ digits.length
  · rw [if_pos long]
    refine iff_of_false ?_ fun fits => absurd long (Nat.not_le.mpr (Nat.lt_succ_of_le fits.2))
    rintro (⟨_, returned, _⟩ | ⟨_, _, returned⟩) <;> cases returned
  · rw [if_neg long]
    constructor
    · rintro (⟨read, _, same⟩ | ⟨_, _, returned⟩)
      · have below := read.toInt_lt
        rw [same] at below
        exact ⟨by exact_mod_cast below, Nat.le_of_lt_succ (Nat.not_le.mp long)⟩
      · cases returned
    · rintro ⟨fits, _⟩
      exact Or.inl ⟨_, rfl, toInt_signedWord_nat fits⟩

end Integers

private theorem letterPath_nulFree : (0 : UInt8) ∉ ascii "/a" := by decide

private def letterPath : CString := ⟨ascii "/a", letterPath_nulFree⟩

private theorem small_nulFree : (0 : UInt8) ∉ braced "a: 12 " := by decide

private theorem great_nulFree : (0 : UInt8) ∉ braced "a: 4294967297" := by decide

theorem jsonGetInt_number_iff_small :
    ReturnsNumber (jsonObjectNew ⟨braced "a: 12 ", small_nulFree⟩) letterPath 0 12 :=
  (@jsonGetInt_number_iff _ (ascii ": 12 " ++ [125]) (ascii "12") (ascii " " ++ [125]) letterPath (by decide +kernel)
    ⟨by decide, by decide, by decide +kernel, by decide⟩ 0).mpr (by decide)

/-- A number that does not fit is cut. -/
theorem greatNumber_cut : ¬ ∀ (jo : JsonObject) (path : CString) (walkIdx digits rest : List UInt8) (value : Int32),
    jsonWalk (path.length + 1) jo.raw.chars path.chars = .found walkIdx -> IntAt walkIdx digits rest ->
      ReturnsNumber jo path value (magnitude 10 decimalValue digits) := by
  intro always
  have returns := always (jsonObjectNew ⟨braced "a: 4294967297", great_nulFree⟩) letterPath
    (ascii ": 4294967297" ++ [125]) (ascii "4294967297") [125] 0 (by decide +kernel) ⟨by decide, by decide, by decide +kernel, by decide⟩
  have one : jsonGetInt (jsonObjectNew ⟨braced "a: 4294967297", great_nulFree⟩) letterPath 0 = .returned 0 .ok 1 := by
    decide +kernel
  rcases returns with ⟨read, returned, same⟩ | ⟨_, _, returned⟩
  · rw [one] at returned
    cases returned
    revert same
    decide
  · rw [one] at returned
    cases returned

end Json
end Extlib
