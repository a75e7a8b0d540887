import Extlib.Text.Scanning

namespace Extlib
namespace Text

/-!
# Lines and words

What a reader of configuration text needs beside the conversions of a line
protocol: `fgets`, the scan sets of `sscanf`, a comparison that ignores case,
`strtol` with the base taken from the text, and `atoi`.
-/

/-- `tolower` in the C locale. -/
def toLower (c : UInt8) : UInt8 := if 65 ≤ c && c ≤ 90 then c + 32 else c

/-- `strcasecmp` finds no difference. -/
def sameIgnoringCase (left right : CString) : Bool := left.chars.map toLower = right.chars.map toLower

/-- The bytes up to a newline, at most `room` of them, and what is left. -/
def upToNewline : Nat -> List UInt8 -> List UInt8 × List UInt8
  | 0, file => ([], file)
  | _, [] => ([], [])
  | room + 1, c :: rest =>
      if c = 10 then ([c], rest)
      else (c :: (upToNewline room rest).1, (upToNewline room rest).2)

/-- The strings that `fgets` with a buffer of `size` bytes puts there one after
the other.  Each call takes a byte at least. -/
def fileLines (size : Nat) : Nat -> List UInt8 -> List CString
  | 0, _ => []
  | _, [] => []
  | calls + 1, c :: file =>
      let (line, rest) := upToNewline (size - 1) (c :: file)
      CString.ofMemory (line ++ [0]) :: fileLines size calls rest

/-- `%width[^stop]`: a nonempty run of characters outside the set. -/
def scanUntil (width : Nat) (stop : UInt8 -> Bool) (input : List UInt8) : Option (CString × List UInt8) :=
  let run := (input.take width).takeWhile fun c => !stop c
  if run = [] then none else some (CString.ofMemory (run ++ [0]), input.drop run.length)

def octalValue (c : UInt8) : Option Nat := if 48 ≤ c && c ≤ 55 then some (c.toNat - 48) else none

/-- `strtol` with base 0, cut to `int`.  Without a digit behind it the `x` of a
prefix is not part of the number. -/
def strtol (text : List UInt8) : Int32 :=
  let (negative, _, digits) := scanSign none (text.dropWhile isSpace)
  let read (base : Nat) (value : UInt8 -> Option Nat) (digits : List UInt8) : Int32 :=
    (signedWord negative (magnitude base value (digits.takeWhile fun c => (value c).isSome))).toInt32
  match digits with
  | 48 :: x :: c :: rest =>
      if (x = 120 ∨ x = 88) ∧ (hexValue c).isSome then read 16 hexValue (c :: rest)
      else read 8 octalValue digits
  | 48 :: _ => read 8 octalValue digits
  | _ => read 10 decimalValue digits

/-- `atoi`: `strtol` with base 10, cut to `int`. -/
def atoi (text : List UInt8) : Int32 :=
  let (negative, _, digits) := scanSign none (text.dropWhile isSpace)
  (signedWord negative (magnitude 10 decimalValue (digits.takeWhile isDigit))).toInt32

/-- A letter, a digit or an underscore. -/
def isWordChar (c : UInt8) : Bool := isDigit c || (65 ≤ c && c ≤ 90) || (97 ≤ c && c ≤ 122) || c == 95

/-- A nonempty run of letters, digits and underscores that does not begin with
a digit. -/
structure IsIdentifier (name : List UInt8) : Prop where
  nonempty : name ≠ []
  word : ∀ c ∈ name, isWordChar c = true
  start : ∀ c ∈ name.head?, isDigit c = false

theorem isIdentifier_iff {name : List UInt8} :
    (!name.isEmpty && name.all isWordChar && name.head?.all fun c => !isDigit c) = true ↔ IsIdentifier name := by
  simp only [Bool.and_eq_true, Bool.not_eq_true', List.isEmpty_eq_false_iff, List.all_eq_true,
    Option.all_eq_true]
  exact ⟨fun ⟨⟨nonempty, word⟩, start⟩ => ⟨nonempty, word, start⟩,
    fun identifier => ⟨⟨identifier.nonempty, identifier.word⟩, identifier.start⟩⟩

instance (name : List UInt8) : Decidable (IsIdentifier name) := decidable_of_iff _ isIdentifier_iff

/-- `%d` of a number that is not negative. -/
def formatDecimal (value : Nat) : List UInt8 :=
  if value = 0 then [48] else (Nat.digits 10 value).reverse.map fun digit => UInt8.ofNat (48 + digit)

/-- `%d`. -/
def formatInt (value : Int32) : List UInt8 :=
  if value < 0 then 45 :: formatDecimal value.toInt.natAbs else formatDecimal value.toInt.natAbs

/-! ## Reading back a decimal number -/

private theorem decimalValue_digit {digit : Nat} (small : digit < 10) :
    decimalValue (UInt8.ofNat (48 + digit)) = some digit := by
  interval_cases digit <;> decide

/-- A number is written with its digits, most significant first. -/
private theorem formatDecimal_eq_map {value : Nat} (positive : value ≠ 0) :
    formatDecimal value = (Nat.digits 10 value).reverse.map fun digit => UInt8.ofNat (48 + digit) :=
  if_neg positive

private theorem reverse_digits_lt {value : Nat} : ∀ digit ∈ (Nat.digits 10 value).reverse, digit < 10 :=
  fun _ listed => Nat.digits_lt_base (by decide) (List.mem_reverse.mp listed)

theorem magnitude_formatDecimal (value : Nat) : magnitude 10 decimalValue (formatDecimal value) = value := by
  by_cases zero : value = 0
  · subst zero
    rfl
  · have spelled := fun digit listed => decimalValue_digit (@reverse_digits_lt value digit listed)
    rw [formatDecimal_eq_map zero, magnitude_map _ spelled, foldl_reverse_digits, Nat.ofDigits_digits]

theorem isDigit_formatDecimal (value : Nat) : ∀ c ∈ formatDecimal value, isDigit c = true := by
  by_cases zero : value = 0
  · subst zero
    decide +kernel
  · rw [formatDecimal_eq_map zero]
    intro c member
    rcases List.mem_map.mp member with ⟨digit, listed, rfl⟩
    have read := decimalValue_digit (reverse_digits_lt digit listed)
    unfold decimalValue at read
    by_contra other
    rw [if_neg other] at read
    cases read

theorem formatDecimal_ne_nil (value : Nat) : formatDecimal value ≠ [] := by
  by_cases zero : value = 0
  · subst zero
    decide
  · rw [formatDecimal_eq_map zero, Ne, List.map_eq_nil_iff, List.reverse_eq_nil_iff, Nat.digits_eq_nil_iff_eq_zero]
    exact zero

theorem length_formatDecimal_le {value room : Nat} (positive : 0 < room) (fits : value < 10 ^ room) :
    (formatDecimal value).length ≤ room := by
  by_cases zero : value = 0
  · subst zero
    exact positive
  · rw [formatDecimal_eq_map zero, List.length_map, List.length_reverse]
    exact (Nat.digits_length_le_iff (by decide) value).mpr fits

/-! ## Reading back lines and words -/

theorem ofMemory_nulFree {chars : List UInt8} (nulFree : (0 : UInt8) ∉ chars) :
    CString.ofMemory (chars ++ [0]) = ⟨chars, nulFree⟩ :=
  CString.ofMemory_terminated chars [] nulFree

/-- A line that fits is read to its newline. -/
theorem upToNewline_line {chars : List UInt8} (one_line : (10 : UInt8) ∉ chars) (rest : List UInt8) :
    ∀ {room : Nat}, chars.length < room ->
      upToNewline room (chars ++ 10 :: rest) = (chars ++ [10], rest) := by
  induction chars with
  | nil =>
      intro room fits
      cases room with
      | zero => cases fits
      | succ room =>
          rw [List.nil_append, upToNewline, if_pos rfl]
          rfl
  | cons c chars inductionHypothesis =>
      intro room fits
      cases room with
      | zero => cases fits
      | succ room =>
          have parts : (10 : UInt8) ≠ c ∧ (10 : UInt8) ∉ chars := by simpa using one_line
          have later := inductionHypothesis parts.2 (Nat.lt_of_succ_lt_succ fits)
          rw [List.cons_append, upToNewline, if_neg (Ne.symm parts.1), later]
          rfl

/-- A file of lines that fit is read line by line. -/
theorem fileLines_lines {size : Nat} (lines : List CString)
    (ended : ∀ line ∈ lines, ∃ chars, (10 : UInt8) ∉ chars ∧ line.chars = chars ++ [10] ∧ chars.length < size - 1) :
    ∀ {calls : Nat}, lines.length ≤ calls -> fileLines size calls (lines.flatMap (·.chars)) = lines := by
  induction lines with
  | nil =>
      intro calls _
      cases calls <;> rfl
  | cons line lines inductionHypothesis =>
      intro calls enough
      cases calls with
      | zero => cases enough
      | succ calls =>
          rcases ended line List.mem_cons_self with ⟨chars, one_line, shape, fits⟩
          have whole : (line :: lines).flatMap (·.chars) = chars ++ 10 :: lines.flatMap (·.chars) := by
            rw [List.flatMap_cons, shape, List.append_assoc, List.singleton_append]
          have later := inductionHypothesis (fun other member => ended other (List.mem_cons_of_mem _ member))
            (Nat.le_of_succ_le_succ enough)
          have read : CString.ofMemory (chars ++ [10] ++ [0]) = line := by
            rw [← shape]
            exact ofMemory_nulFree line.nulFree
          obtain ⟨first, others, start⟩ : ∃ first others, chars ++ 10 :: lines.flatMap (·.chars) = first :: others :=
            List.exists_cons_of_ne_nil (by simp)
          rw [whole, start, fileLines, ← start, upToNewline_line one_line _ fits]
          dsimp only
          rw [read, later]

/-- A word is read to the first character of the set. -/
theorem scanUntil_word {width : Nat} {stop : UInt8 -> Bool} {word : CString} {rest : List UInt8}
    (nonempty : word.chars ≠ []) (fits : word.chars.length ≤ width) (outside : ∀ c ∈ word.chars, stop c = false)
    (stops : ∀ c ∈ rest.head?, stop c = true) :
    scanUntil width stop (word.chars ++ rest) = some (word, rest) := by
  have run : ((word.chars ++ rest).take width).takeWhile (fun c => !stop c) = word.chars := by
    obtain ⟨more, rfl⟩ : ∃ more, width = word.chars.length + more := ⟨width - word.chars.length, by omega⟩
    rw [List.take_length_add_append, List.takeWhile_append_of_pos (fun c member => by rw [outside c member]; rfl)]
    cases rest with
    | nil => simp
    | cons head tail =>
        cases more with
        | zero => simp
        | succ more =>
            rw [List.take_succ_cons, List.takeWhile_cons_of_neg (by simp [stops head rfl]), List.append_nil]
  unfold scanUntil
  rw [run, if_neg nonempty, List.drop_left, ofMemory_nulFree word.nulFree]

/-- A magnitude with its sign. -/
def signedValue (negative : Bool) (value : Nat) : Int := if negative then -value else value

private theorem toInt32_ofInt (value : Int) : (UInt32.ofInt value).toInt32 = Int32.ofInt value := by
  apply Int32.toBitVec.inj
  change (UInt32.ofInt value).toBitVec = BitVec.ofInt 32 value
  apply BitVec.eq_of_toNat_eq
  simp only [UInt32.ofInt, UInt32.toBitVec_ofNat', BitVec.toNat_ofNat, BitVec.toNat_ofInt]
  omega

/-- A number that fits `int` is assigned as it is. -/
theorem toInt_signedWord {negative : Bool} {value : Nat} (low : -2 ^ 31 ≤ signedValue negative value)
    (high : signedValue negative value < 2 ^ 31) :
    (signedWord negative value).toInt32.toInt = signedValue negative value := by
  have word : signedWord negative value = UInt32.ofInt (signedValue negative value) := by
    cases negative with
    | true =>
        simp only [signedValue, if_true] at low
        have greatest : max (-2 ^ 63 : Int) (-value) = -value := by omega
        simp only [signedWord, signedValue, if_true, greatest]
    | false =>
        simp only [signedValue, Bool.false_eq_true, if_false] at high
        have least : min (2 ^ 63 - 1 : Int) value = value := by omega
        simp only [signedWord, signedValue, Bool.false_eq_true, if_false, least]
  rw [word, toInt32_ofInt, Int32.toInt_ofInt_of_le low high]

/-- The same for a number without a sign. -/
theorem toInt_signedWord_nat {value : Nat} (fits : value < 2 ^ 31) :
    (signedWord false value).toInt32.toInt = value := by
  have signed : signedValue false value = value := rfl
  rw [toInt_signedWord, signed]
  · omega
  · rw [signed]
    exact_mod_cast fits

/-- `atoi` reads a sign and the digits behind it. -/
theorem atoi_digits (negative : Bool) {digits rest : List UInt8} (nonempty : digits ≠ [])
    (decimal : ∀ c ∈ digits, isDigit c = true) (stops : ∀ c ∈ rest.head?, isDigit c = false) :
    atoi ((if negative then [45] else []) ++ digits ++ rest) =
      (signedWord negative (magnitude 10 decimalValue digits)).toInt32 := by
  have run : (digits ++ rest).takeWhile isDigit = digits := by
    rw [List.takeWhile_append_of_pos decimal]
    cases rest with
    | nil => rw [List.takeWhile_nil, List.append_nil]
    | cons head tail => rw [List.takeWhile_cons_of_neg (by simp [stops head rfl]), List.append_nil]
  cases negative with
  | true =>
      have signed : scanSign none ((45 :: (digits ++ rest)).dropWhile isSpace) = (true, none, digits ++ rest) := by
        rw [List.dropWhile_cons_of_neg (by decide)]
        rfl
      simp only [if_true, List.cons_append, List.nil_append, atoi, signed, run]
  | false =>
      have unsigned : scanSign none ((digits ++ rest).dropWhile isSpace) = (false, none, digits ++ rest) := by
        cases digits with
        | nil => exact absurd rfl nonempty
        | cons first digits =>
            have other := isDigit_other (decimal first List.mem_cons_self)
            rw [List.cons_append, List.dropWhile_cons_of_neg (by simp [other.1])]
            unfold scanSign
            split
            case h_1 same => exact absurd (List.cons.inj same).1 other.2.1
            case h_2 same => exact absurd (List.cons.inj same).1 other.2.2
            case h_3 => rfl
      simp only [Bool.false_eq_true, if_false, List.nil_append, atoi, unsigned, run]

/-- A character that is none of a word does not occur in an identifier. -/
theorem IsIdentifier.ne {name : List UInt8} (identifier : IsIdentifier name) {other : UInt8}
    (none : isWordChar other = false) : other ∉ name := by
  intro member
  have word := identifier.word other member
  rw [none] at word
  cases word

example : strtol (ascii "1024") = 1024 ∧ strtol (ascii " -0x1f") = -31 ∧ strtol (ascii "017") = 15 := by decide

end Text
end Extlib
