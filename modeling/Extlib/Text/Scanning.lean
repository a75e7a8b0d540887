import Mathlib.Data.Nat.Digits.Lemmas
import Extlib.Text.CString

namespace Extlib
namespace Text

/-!
# Formatted input and output

The conversions of `sscanf` and `printf` that a line protocol needs: single
characters, hexadecimal and decimal integers with an optional field width,
and literal characters.  `scan` returns the values assigned before the first
mismatch, so that its length is the count `sscanf` returns; a literal that
fails after the last conversion therefore goes unnoticed, as in C.

Integers follow `strtoul` and `strtol`: white space is skipped and not
counted against the width, a sign and a `0x` prefix are counted, and a
magnitude beyond 64 bits saturates before it is cut to the 32 bits of the
object assigned.
-/

/-- `isspace` in the C locale. -/
def isSpace (c : UInt8) : Bool := c == 32 || (9 ≤ c && c ≤ 13)

/-- `isdigit`. -/
def isDigit (c : UInt8) : Bool := 48 ≤ c && c ≤ 57

def decimalValue (c : UInt8) : Option Nat :=
  if isDigit c then some (c.toNat - 48) else none

def hexValue (c : UInt8) : Option Nat :=
  if isDigit c then some (c.toNat - 48)
  else if 97 ≤ c && c ≤ 102 then some (c.toNat - 87)
  else if 65 ≤ c && c ≤ 70 then some (c.toNat - 55)
  else none

/-- The characters a conversion of this field width may consume. -/
def clip (width : Option Nat) (input : List UInt8) : List UInt8 :=
  match width with
  | none => input
  | some count => input.take count

/-- The number written by a run of digits, most significant first. -/
def magnitude (base : Nat) (value : UInt8 -> Option Nat) (digits : List UInt8) : Nat :=
  digits.foldl (fun acc c => acc * base + (value c).getD 0) 0

/-- A nonempty run of digits within the field width. -/
def scanDigits (base : Nat) (value : UInt8 -> Option Nat) (width : Option Nat)
    (input : List UInt8) : Option (Nat × List UInt8) :=
  let digits := (clip width input).takeWhile (fun c => (value c).isSome)
  if digits = [] then none else some (magnitude base value digits, input.drop digits.length)

/-- An optional sign: whether it was a minus, and what is left of the width
and of the input. -/
def scanSign (width : Option Nat) (input : List UInt8) : Bool × Option Nat × List UInt8 :=
  match clip width input with
  | 43 :: _ => (false, width.map (· - 1), input.drop 1)
  | 45 :: _ => (true, width.map (· - 1), input.drop 1)
  | _ => (false, width, input)

/-- Digits with the optional `0x` of base sixteen.  A prefix with no digit
behind it is no number. -/
def scanHexDigits (width : Option Nat) (input : List UInt8) : Option (Nat × List UInt8) :=
  match clip width input with
  | 48 :: 120 :: _ => scanDigits 16 hexValue (width.map (· - 2)) (input.drop 2)
  | 48 :: 88 :: _ => scanDigits 16 hexValue (width.map (· - 2)) (input.drop 2)
  | _ => scanDigits 16 hexValue width input

/-- What `strtoul` returns, cut to `unsigned int`. -/
def unsignedWord (negative : Bool) (value : Nat) : UInt32 :=
  if 2 ^ 64 ≤ value then UInt32.ofNat (2 ^ 64 - 1)
  else if negative then UInt32.ofInt (-value) else UInt32.ofNat value

/-- What `strtol` returns, cut to `int`, as a bit pattern. -/
def signedWord (negative : Bool) (value : Nat) : UInt32 :=
  if negative then UInt32.ofInt (max (-2 ^ 63) (-value))
  else UInt32.ofInt (min (2 ^ 63 - 1) value)

/-- `%x`. -/
def scanHex (width : Option Nat) (input : List UInt8) : Option (UInt32 × List UInt8) :=
  let (negative, width, input) := scanSign width (input.dropWhile isSpace)
  (scanHexDigits width input).map fun (value, rest) => (unsignedWord negative value, rest)

/-- `%d`. -/
def scanDecimal (width : Option Nat) (input : List UInt8) : Option (UInt32 × List UInt8) :=
  let (negative, width, input) := scanSign width (input.dropWhile isSpace)
  (scanDigits 10 decimalValue width input).map fun (value, rest) => (signedWord negative value, rest)

inductive Directive where
  | char
  | hex (width : Option Nat)
  | decimal
  | literal (c : UInt8)
  deriving DecidableEq, Repr

inductive Field where
  | char (c : UInt8)
  | word (bits : UInt32)
  deriving DecidableEq, Repr

/-- The values `sscanf` assigns before the first directive that fails. -/
def scan : List Directive -> List UInt8 -> List Field
  | [], _ => []
  | .literal c :: format, input =>
      match input with
      | head :: tail => if head = c then scan format tail else []
      | [] => []
  | .char :: format, input =>
      match input with
      | head :: tail => .char head :: scan format tail
      | [] => []
  | .hex width :: format, input =>
      match scanHex width input with
      | some (bits, rest) => .word bits :: scan format rest
      | none => []
  | .decimal :: format, input =>
      match scanDecimal none input with
      | some (bits, rest) => .word bits :: scan format rest
      | none => []

/-- A lower-case hexadecimal digit. -/
def hexChar (digit : Nat) : UInt8 :=
  UInt8.ofNat (if digit < 10 then 48 + digit else 87 + digit)

/-- `%.Nx`: at least `precision` digits, padded with zeros. -/
def formatHex (precision value : Nat) : List UInt8 :=
  let digits := Nat.digits 16 value
  (List.replicate (precision - digits.length) 0 ++ digits.reverse).map hexChar

/-! ## Reading back a formatted number -/

theorem hexValue_hexChar {digit : Nat} (small : digit < 16) :
    hexValue (hexChar digit) = some digit := by
  interval_cases digit <;> decide

private theorem formatHex_digit {precision value : Nat} {c : UInt8}
    (member : c ∈ formatHex precision value) : ∃ digit, digit < 16 ∧ c = hexChar digit := by
  rcases List.mem_map.mp member with ⟨digit, listed, rfl⟩
  refine ⟨digit, ?_, rfl⟩
  rcases List.mem_append.mp listed with padding | digits
  · rw [List.eq_of_mem_replicate padding]
    decide
  · exact Nat.digits_lt_base (by decide) (List.mem_reverse.mp digits)

/-- A hexadecimal digit is neither a blank, a sign, an `x`, a NUL nor a
separator, so that none of them is found inside a formatted number. -/
theorem ne_of_mem_formatHex {precision value : Nat} {c other : UInt8}
    (member : c ∈ formatHex precision value) (unread : hexValue other = none) : c ≠ other := by
  rcases formatHex_digit member with ⟨digit, small, rfl⟩
  intro same
  rw [← same, hexValue_hexChar small] at unread
  cases unread

theorem length_formatHex {precision value : Nat} (fits : value < 16 ^ precision) :
    (formatHex precision value).length = precision := by
  have short : (Nat.digits 16 value).length ≤ precision :=
    (Nat.digits_length_le_iff (by decide) value).mpr fits
  simp only [formatHex, List.length_map, List.length_append, List.length_replicate,
    List.length_reverse]
  omega

/-- Digits are read as they have been spelled. -/
theorem magnitude_map {base : Nat} {value : UInt8 -> Option Nat} {spell : Nat -> UInt8} (digits : List Nat)
    (spelled : ∀ digit ∈ digits, value (spell digit) = some digit) :
    magnitude base value (digits.map spell) = digits.foldl (fun acc digit => acc * base + digit) 0 := by
  rw [magnitude, List.foldl_map]
  refine List.foldl_ext _ _ 0 ?_
  intro acc digit listed
  rw [spelled digit listed, Option.getD_some]

theorem foldl_reverse_digits (base : Nat) (digits : List Nat) :
    digits.reverse.foldl (fun acc digit => acc * base + digit) 0 = Nat.ofDigits base digits := by
  induction digits with
  | nil => rfl
  | cons digit digits inductionHypothesis =>
      rw [List.reverse_cons, List.foldl_append, inductionHypothesis, Nat.ofDigits_cons]
      simp only [List.foldl_cons, List.foldl_nil]
      rw [Nat.mul_comm, Nat.add_comm]

theorem magnitude_formatHex (precision value : Nat) :
    magnitude 16 hexValue (formatHex precision value) = value := by
  have small : ∀ digit ∈ List.replicate (precision - (Nat.digits 16 value).length) 0 ++
      (Nat.digits 16 value).reverse, digit < 16 := by
    intro digit member
    rcases List.mem_append.mp member with padding | digits
    · rw [List.eq_of_mem_replicate padding]
      decide
    · exact Nat.digits_lt_base (by decide) (List.mem_reverse.mp digits)
  have padding : ∀ count, (List.replicate count 0).foldl (fun acc digit => acc * 16 + digit) 0 = 0 := by
    intro count
    induction count with
    | zero => rfl
    | succ count inductionHypothesis =>
        simpa only [List.replicate_succ, List.foldl_cons, Nat.zero_mul, Nat.zero_add] using inductionHypothesis
  rw [formatHex, magnitude_map _ fun digit listed => hexValue_hexChar (small digit listed), List.foldl_append, padding,
    foldl_reverse_digits, Nat.ofDigits_digits]

private theorem hexValue_lt (c : UInt8) : (hexValue c).getD 0 < 16 := by
  simp only [hexValue, isDigit, UInt8.le_iff_toNat_le, Bool.and_eq_true, decide_eq_true_eq]
  have bounds : (57 : UInt8).toNat = 57 ∧ (102 : UInt8).toNat = 102 ∧ (70 : UInt8).toNat = 70 := ⟨rfl, rfl, rfl⟩
  split
  · simp only [Option.getD_some]
    omega
  · split
    · simp only [Option.getD_some]
      omega
    · split
      · simp only [Option.getD_some]
        omega
      · decide

/-- So many hexadecimal digits write no more than so large a number. -/
theorem magnitude_hex_lt (digits : List UInt8) : magnitude 16 hexValue digits < 16 ^ digits.length := by
  have general : ∀ (digits : List UInt8) (start : Nat),
      digits.foldl (fun acc c => acc * 16 + (hexValue c).getD 0) start < (start + 1) * 16 ^ digits.length := by
    intro digits
    induction digits with
    | nil =>
        intro start
        simp only [List.foldl_nil, List.length_nil, Nat.pow_zero, Nat.mul_one]
        exact Nat.lt_succ_self start
    | cons c digits inductionHypothesis =>
        intro start
        have digit := hexValue_lt c
        calc
          (c :: digits).foldl (fun acc c => acc * 16 + (hexValue c).getD 0) start <
              (start * 16 + (hexValue c).getD 0 + 1) * 16 ^ digits.length := inductionHypothesis _
          _ ≤ ((start + 1) * 16) * 16 ^ digits.length := Nat.mul_le_mul_right _ (by omega)
          _ = (start + 1) * 16 ^ (c :: digits).length := by
              rw [List.length_cons, Nat.pow_succ', Nat.mul_assoc]
  have bounded := general digits 0
  rw [Nat.zero_add, Nat.one_mul] at bounded
  exact bounded

/-- A hexadecimal digit is no white space. -/
private theorem isSpace_hex {c : UInt8} (hex : (hexValue c).isSome) : isSpace c = false := by
  rw [Bool.eq_false_iff]
  intro blank
  have small : ∀ bound : UInt8, bound.toNat < 48 -> c ≤ bound -> hexValue c = none := by
    intro bound low below
    have range : c.toNat < 48 := Nat.lt_of_le_of_lt (UInt8.le_iff_toNat_le.mp below) low
    simp only [hexValue, isDigit, UInt8.le_iff_toNat_le, Bool.and_eq_true, decide_eq_true_eq]
    have digits : (48 : UInt8).toNat = 48 ∧ (97 : UInt8).toNat = 97 ∧ (65 : UInt8).toNat = 65 := ⟨rfl, rfl, rfl⟩
    rw [if_neg (by omega), if_neg (by omega), if_neg (by omega)]
  have unread : hexValue c = none := by
    simp only [isSpace, Bool.or_eq_true, beq_iff_eq, Bool.and_eq_true, decide_eq_true_eq] at blank
    rcases blank with rfl | ⟨_, below⟩
    · decide
    · exact small 13 (by decide) below
  rw [unread] at hex
  cases hex

private theorem takeWhile_hex {digits rest : List UInt8} (hex : ∀ c ∈ digits, (hexValue c).isSome)
    (stops : ∀ c ∈ rest.head?, hexValue c = none) :
    (digits ++ rest).takeWhile (fun c => (hexValue c).isSome) = digits := by
  rw [List.takeWhile_append_of_pos hex]
  cases rest with
  | nil => simp
  | cons head tail => simp [stops head rfl]

private theorem hex_formatHex {precision value : Nat} : ∀ c ∈ formatHex precision value, (hexValue c).isSome := by
  intro c member
  rcases formatHex_digit member with ⟨digit, small, rfl⟩
  rw [hexValue_hexChar small]
  rfl

/-- The input a conversion sees when hexadecimal digits come next: nothing is
skipped, there is no sign and no prefix. -/
private theorem scanHex_plain (width : Option Nat) {digits : List UInt8} (nonempty : digits ≠ [])
    (hex : ∀ c ∈ digits, (hexValue c).isSome) (rest : List UInt8)
    (unprefixed : ∀ c ∈ rest.head?, c ≠ 120 ∧ c ≠ 88) :
    scanHex width (digits ++ rest) =
      (scanDigits 16 hexValue width (digits ++ rest)).map fun (value, rest) => (unsignedWord false value, rest) := by
  have other : ∀ c ∈ digits, ∀ d, hexValue d = none -> c ≠ d := by
    rintro c member d unread rfl
    have digit := hex c member
    rw [unread] at digit
    cases digit
  cases digits with
  | nil => exact absurd rfl nonempty
  | cons first digits =>
      have second : ∀ c ∈ (digits ++ rest).head?, c ≠ 120 ∧ c ≠ 88 := by
        intro c member
        cases digits with
        | nil => exact unprefixed c member
        | cons next digits =>
            have same : next = c := by simpa using member
            subst same
            have listed : next ∈ first :: next :: digits := List.mem_cons_of_mem _ List.mem_cons_self
            exact ⟨other next listed 120 (by decide), other next listed 88 (by decide)⟩
      have keep : (first :: digits ++ rest).dropWhile isSpace = first :: digits ++ rest :=
        List.dropWhile_cons_of_neg (by simp [isSpace_hex (hex first List.mem_cons_self)])
      -- what is visible within the width starts like the input
      have visible : clip width (first :: digits ++ rest) <+: first :: digits ++ rest := by
        cases width with
        | none => exact List.prefix_refl _
        | some count => exact List.take_prefix _ _
      have unsigned : scanSign width (first :: digits ++ rest) = (false, width, first :: digits ++ rest) := by
        unfold scanSign
        split
        case h_1 same =>
          rw [same] at visible
          exact absurd (List.cons_prefix_cons.mp visible).1.symm (other first List.mem_cons_self 43 (by decide))
        case h_2 same =>
          rw [same] at visible
          exact absurd (List.cons_prefix_cons.mp visible).1.symm (other first List.mem_cons_self 45 (by decide))
        case h_3 => rfl
      have notPrefix : ∀ c more, clip width (first :: digits ++ rest) = 48 :: c :: more -> c ≠ 120 ∧ c ≠ 88 := by
        intro c more same
        rw [same] at visible
        have tail : ∃ behind, c :: more ++ behind = digits ++ rest := (List.cons_prefix_cons.mp visible).2
        rcases tail with ⟨behind, tail⟩
        exact second c (by rw [← tail]; rfl)
      have plain : scanHexDigits width (first :: digits ++ rest) =
          scanDigits 16 hexValue width (first :: digits ++ rest) := by
        unfold scanHexDigits
        split
        case h_1 same => exact absurd rfl (notPrefix _ _ same).1
        case h_2 same => exact absurd rfl (notPrefix _ _ same).2
        case h_3 => rfl
      simp only [scanHex, keep, unsigned, plain]

private theorem scanDigits_eq {base : Nat} {value : UInt8 -> Option Nat} {width : Option Nat}
    {input digits : List UInt8}
    (run : (clip width input).takeWhile (fun c => (value c).isSome) = digits)
    (nonempty : digits ≠ []) :
    scanDigits base value width input = some (magnitude base value digits, input.drop digits.length) := by
  subst run
  simp only [scanDigits, if_neg nonempty]

theorem unsignedWord_small {value : Nat} (word : value < 2 ^ 32) :
    unsignedWord false value = UInt32.ofNat value := by
  have small : ¬ 2 ^ 64 ≤ value := by omega
  simp only [unsignedWord, if_neg small, Bool.false_eq_true, if_false]

/-- The digits that are visible within the width are read as the number they
write. -/
private theorem scanHex_run {width : Option Nat} {digits rest : List UInt8} (nonempty : digits ≠ [])
    (hex : ∀ c ∈ digits, (hexValue c).isSome)
    (run : (clip width (digits ++ rest)).takeWhile (fun c => (hexValue c).isSome) = digits)
    (unprefixed : ∀ c ∈ rest.head?, c ≠ 120 ∧ c ≠ 88) :
    scanHex width (digits ++ rest) = some (unsignedWord false (magnitude 16 hexValue digits), rest) := by
  rw [scanHex_plain width nonempty hex rest unprefixed, scanDigits_eq run nonempty, List.drop_left]
  rfl

/-- A run of hexadecimal digits no longer than the width is read to its end. -/
theorem scanHex_digits {width : Option Nat} {digits : List UInt8} (nonempty : digits ≠ [])
    (hex : ∀ c ∈ digits, (hexValue c).isSome) (fits : ∀ count ∈ width, digits.length ≤ count) (rest : List UInt8)
    (unprefixed : ∀ c ∈ rest.head?, c ≠ 120 ∧ c ≠ 88) (stops : ∀ c ∈ rest.head?, hexValue c = none) :
    scanHex width (digits ++ rest) = some (unsignedWord false (magnitude 16 hexValue digits), rest) := by
  refine scanHex_run nonempty hex ?_ unprefixed
  cases width with
  | none => exact takeWhile_hex hex stops
  | some count =>
      rw [clip, List.take_append, List.take_of_length_le (fits count rfl)]
      apply takeWhile_hex hex
      intro c member
      rw [List.head?_take] at member
      split at member
      · cases member
      · exact stops c member

/-- A number formatted to the width of the conversion is read back, whatever
follows it. -/
theorem scanHex_formatHex {precision value : Nat} (two : 2 ≤ precision)
    (fits : value < 16 ^ precision) (word : value < 2 ^ 32) (rest : List UInt8)
    (unprefixed : ∀ c ∈ rest.head?, c ≠ 120 ∧ c ≠ 88) :
    scanHex (some precision) (formatHex precision value ++ rest) =
      some (UInt32.ofNat value, rest) := by
  have size := length_formatHex fits
  have nonempty : formatHex precision value ≠ [] := List.ne_nil_of_length_pos (by omega)
  have digits : (clip (some precision) (formatHex precision value ++ rest)).takeWhile
      (fun c => (hexValue c).isSome) = formatHex precision value := by
    have clipped : clip (some precision) (formatHex precision value ++ rest) =
        formatHex precision value ++ [] := by
      rw [List.append_nil]
      exact List.take_left' size
    rw [clipped]
    exact takeWhile_hex hex_formatHex (by simp)
  rw [scanHex_run nonempty hex_formatHex digits unprefixed, magnitude_formatHex, unsignedWord_small word]

/-- Without a width the conversion needs a character behind the number that
is no hexadecimal digit. -/
theorem scanHex_formatHex_stop {precision value : Nat} (two : 2 ≤ precision)
    (fits : value < 16 ^ precision) (word : value < 2 ^ 32) (rest : List UInt8)
    (unprefixed : ∀ c ∈ rest.head?, c ≠ 120 ∧ c ≠ 88)
    (stops : ∀ c ∈ rest.head?, hexValue c = none) :
    scanHex none (formatHex precision value ++ rest) = some (UInt32.ofNat value, rest) := by
  have size := length_formatHex fits
  have nonempty : formatHex precision value ≠ [] := List.ne_nil_of_length_pos (by omega)
  rw [scanHex_digits nonempty hex_formatHex (by simp) rest unprefixed stops, magnitude_formatHex,
    unsignedWord_small word]

/-- A digit is neither white space nor a sign. -/
theorem isDigit_other {c : UInt8} (digit : isDigit c = true) : isSpace c = false ∧ c ≠ 43 ∧ c ≠ 45 := by
  have range : 48 ≤ c.toNat ∧ c.toNat ≤ 57 := by
    simpa [isDigit, UInt8.le_iff_toNat_le] using digit
  have other : ∀ small : UInt8, small.toNat < 48 -> c ≠ small := by
    rintro small below rfl
    omega
  refine ⟨?_, other 43 (by decide), other 45 (by decide)⟩
  simp only [isSpace, Bool.or_eq_false_iff, beq_eq_false_iff_ne, Bool.and_eq_false_iff, decide_eq_false_iff_not,
    UInt8.le_iff_toNat_le]
  refine ⟨other 32 (by decide), Or.inr ?_⟩
  have thirteen : (13 : UInt8).toNat = 13 := rfl
  omega

/-- A run of decimal digits is read to its end as the number it writes. -/
theorem scanDecimal_digits {digits rest : List UInt8} (nonempty : digits ≠ [])
    (decimal : ∀ c ∈ digits, isDigit c = true) (small : magnitude 10 decimalValue digits < 2 ^ 32)
    (stops : ∀ c ∈ rest.head?, isDigit c = false) :
    scanDecimal none (digits ++ rest) = some (UInt32.ofNat (magnitude 10 decimalValue digits), rest) := by
  have isSome : ∀ c, (decimalValue c).isSome = isDigit c := by
    intro c
    unfold decimalValue
    split <;> simp_all
  have run : (clip none (digits ++ rest)).takeWhile (fun c => (decimalValue c).isSome) = digits := by
    simp only [isSome]
    rw [show clip none (digits ++ rest) = digits ++ rest from rfl, List.takeWhile_append_of_pos decimal]
    cases rest with
    | nil => rw [List.takeWhile_nil, List.append_nil]
    | cons head tail =>
        rw [List.takeWhile_cons_of_neg (by simpa using stops head rfl), List.append_nil]
  have word : signedWord false (magnitude 10 decimalValue digits) =
      UInt32.ofNat (magnitude 10 decimalValue digits) := by
    have least : min (2 ^ 63 - 1 : Int) (magnitude 10 decimalValue digits) = magnitude 10 decimalValue digits := by
      omega
    simp only [signedWord, Bool.false_eq_true, if_false, least]
    apply UInt32.toNat_inj.mp
    simp only [UInt32.ofInt, UInt32.toNat_ofNat']
    omega
  cases digits with
  | nil => exact absurd rfl nonempty
  | cons first digits =>
      have other := isDigit_other (decimal first List.mem_cons_self)
      have keep : (first :: digits ++ rest).dropWhile isSpace = first :: digits ++ rest :=
        List.dropWhile_cons_of_neg (by simp [other.1])
      have unsigned : scanSign none (first :: digits ++ rest) = (false, none, first :: digits ++ rest) := by
        unfold scanSign
        split
        case h_1 same => exact absurd (List.cons.inj same).1 other.2.1
        case h_2 same => exact absurd (List.cons.inj same).1 other.2.2
        case h_3 => rfl
      simp only [scanDecimal, keep, unsigned]
      rw [scanDigits_eq run nonempty, List.drop_left, Option.map_some, word]

example : scan [.char, .hex none, .literal 44, .char, .literal 44, .hex (some 4)]
    (ascii ">0,$,0024:/x") = [.char 62, .word 0, .char 36, .word 36] := by decide

end Text
end Extlib
