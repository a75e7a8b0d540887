import Extlib.Json.Strings

namespace Extlib
namespace Json

open Text

/-!
# The member a key finds

The key is compared with what stands at every place of an object, without a
look at where a name or a string begins or ends.  It leads to the first member
whose name or string has its characters in it, and what is read there is the
value of that member when its name ends with them, and no value otherwise.
-/

inductive MemberValue where
  | int (number : Nat)
  | string (quote : UInt8) (chars : List UInt8)
  deriving DecidableEq, Repr

namespace MemberValue

def text : MemberValue -> List UInt8
  | .int number => formatDecimal number
  | .string quote chars => quote :: (chars ++ [quote])

/-- What a string has no place for: blanks, commas, braces and quotes. -/
def reserved : List UInt8 := [32, 44, 123, 125, 39, 34]

/-- A number that fits `int`, or a string without blanks, commas, braces and
quotes between two quotes. -/
def Valid : MemberValue -> Prop
  | .int number => number < 2 ^ 31
  | .string quote chars => (quote = 39 ∨ quote = 34) ∧ ∀ c ∈ reserved, c ∉ chars

instance : DecidablePred Valid
  | .int number => inferInstanceAs (Decidable (number < 2 ^ 31))
  | .string quote chars => inferInstanceAs (Decidable ((quote = 39 ∨ quote = 34) ∧ ∀ c ∈ reserved, c ∉ chars))

/-- The first value is read as the second: the same number, or the same
characters if they can be read. -/
def ReadAs : MemberValue -> MemberValue -> Prop
  | .int number, .int other => number = other
  | .string _ chars, .string _ other => chars = other ∧ ∀ c ∈ chars, isPrint c = true
  | _, _ => False

end MemberValue

structure Member where
  key : List UInt8
  value : MemberValue
  deriving DecidableEq, Repr

def Member.text (member : Member) : List UInt8 := member.key ++ 58 :: 32 :: member.value.text

/-- What stands behind the opening brace. -/
def membersText : List Member -> List UInt8
  | [] => [125]
  | [member] => member.text ++ [125]
  | member :: next :: members => member.text ++ 44 :: 32 :: membersText (next :: members)

/-- `{k1: v1, ..., kn: vn}`. -/
def objectText (members : List Member) : List UInt8 := 123 :: membersText members

/-- The members of a flat object. -/
structure FlatObject (members : List Member) : Prop where
  names : ∀ member ∈ members, IsIdentifier member.key
  distinct : (members.map (·.key)).Nodup
  values : ∀ member ∈ members, member.value.Valid

/-- The value is returned: the number as it is, and the string in every buffer
that has room for it. -/
def Returns (getInt : Int32 -> JsonOutcome Int32) (getString : List UInt8 -> JsonOutcome (List UInt8)) :
    MemberValue -> Prop
  | .int number => ∀ value : Int32, ∃ errno read, getInt value = .returned 0 errno read ∧ read.toInt = number
  | .string _ chars =>
      ∀ value : List UInt8, chars.length < value.length ->
        ∃ errno behind, getString value = .returned 0 errno (chars ++ 0 :: behind)

/-- The characters of the key occur in the name or in the string. -/
def Member.mentions (key : List UInt8) (member : Member) : Bool :=
  (firstOccurrence key member.key).isSome ||
    match member.value with
    | .int _ => false
    | .string _ chars => (firstOccurrence key chars).isSome

/-- The first member in which the key occurs has a name that ends with this
occurrence, and a value that is read as the one of the key. -/
def Leads (members : List Member) (member : Member) : Prop :=
  ∃ first, members.find? (Member.mentions member.key) = some first ∧
    firstOccurrence member.key first.key = some (first.key.length - member.key.length) ∧
    first.value.ReadAs member.value

/-! ## Scanning -/

section Scanning

variable {key rest : List UInt8} {c : UInt8}

/-- A character that is no brace and none of the key is passed over. -/
theorem keyScan_pass (opening : c ≠ 123) (closing : c ≠ 125) (absent : c ∉ key) (braceCnt : Int) :
    keyScan key braceCnt (c :: rest) = keyScan key braceCnt rest := by
  rw [keyScan, if_neg opening, if_neg closing, if_neg fun here => absent (List.mem_of_mem_head? here.2.1)]

/-- A key does not reach over a character that it does not have. -/
theorem isPrefixOf_append_cons (absent : c ∉ key) (piece : List UInt8) :
    key.isPrefixOf (piece ++ c :: rest) = key.isPrefixOf piece := by
  rw [Bool.eq_iff_iff, List.isPrefixOf_iff_prefix, List.isPrefixOf_iff_prefix]
  constructor
  · intro longer
    have ended : piece ++ [c] <+: piece ++ c :: rest := ⟨rest, by rw [List.append_assoc]; rfl⟩
    rcases List.prefix_or_prefix_of_prefix longer ended with shorter | reaches
    · rcases List.prefix_concat_iff.mp shorter with rfl | here
      · exact absurd (List.mem_append_right _ List.mem_cons_self) absent
      · exact here
    · exact absurd (reaches.subset (List.mem_append_right _ List.mem_cons_self)) absent
  · exact fun here => here.trans (List.prefix_append _ _)

/-- Between two braces the key is found where it occurs first. -/
theorem keyScan_piece (nonempty : key ≠ []) (absent : c ∉ key) {piece : List UInt8} (opening : 123 ∉ piece)
    (closing : 125 ∉ piece) :
    keyScan key 1 (piece ++ c :: rest) =
      match firstOccurrence key piece with
      | some offset => some (piece.drop (offset + key.length) ++ c :: rest)
      | none => keyScan key 1 (c :: rest) := by
  induction piece with
  | nil => rw [firstOccurrence, if_neg nonempty, List.nil_append]
  | cons first piece inductionHypothesis =>
      rcases not_or.mp (mt List.mem_cons.mpr opening) with ⟨notOpening, opening⟩
      rcases not_or.mp (mt List.mem_cons.mpr closing) with ⟨notClosing, closing⟩
      have whole := @isPrefixOf_append_cons key rest c absent (first :: piece)
      rw [List.cons_append] at whole ⊢
      rw [keyScan, if_neg (Ne.symm notOpening), if_neg (Ne.symm notClosing), whole, firstOccurrence]
      by_cases here : key.isPrefixOf (first :: piece) = true
      · have head : key.head? = some first := by
          obtain ⟨own, others, rfl⟩ := List.exists_cons_of_ne_nil nonempty
          rw [List.head?_cons, (List.cons_prefix_cons.mp (List.isPrefixOf_iff_prefix.mp here)).1]
        have short := (List.isPrefixOf_iff_prefix.mp here).length_le
        rw [if_pos ⟨rfl, head, here⟩, if_pos here]
        dsimp only
        rw [Nat.zero_add, ← List.cons_append, List.drop_append_of_le_length short]
      · rw [if_neg fun found => here found.2.2, if_neg here, inductionHypothesis opening closing]
        cases firstOccurrence key piece with
        | none => rfl
        | some offset =>
            rw [Option.map_some]
            dsimp only
            rw [Nat.add_right_comm, List.drop_succ_cons]

end Scanning

/-- What is left of a member behind the first place of the key, in front of
this. -/
def Member.left (key : List UInt8) (member : Member) (behind : List UInt8) : Option (List UInt8) :=
  match firstOccurrence key member.key with
  | some offset => some (member.key.drop (offset + key.length) ++ 58 :: 32 :: (member.value.text ++ behind))
  | none =>
      match member.value with
      | .int _ => none
      | .string quote chars =>
          (firstOccurrence key chars).map fun offset => chars.drop (offset + key.length) ++ quote :: behind

section Members

variable {key : List UInt8} {member : Member} {members : List Member} {c : UInt8}

theorem isSome_left (behind : List UInt8) : (member.left key behind).isSome = member.mentions key := by
  unfold Member.left Member.mentions
  cases firstOccurrence key member.key with
  | some offset => rfl
  | none =>
      cases member.value with
      | int number => rfl
      | string quote chars => exact Option.isSome_map

/-- An identifier has no character that ends a name or a value. -/
theorem notMem_identifier (identifier : IsIdentifier key) : ∀ c ∈ 58 :: MemberValue.reserved, c ∉ key := by
  intro c member
  refine identifier.ne ?_
  revert member c
  decide +kernel

/-- A name does not occur in digits. -/
theorem firstOccurrence_digits (identifier : IsIdentifier key) {digits : List UInt8}
    (decimal : ∀ c ∈ digits, isDigit c = true) : firstOccurrence key digits = none := by
  cases found : firstOccurrence key digits with
  | none => rfl
  | some offset =>
      obtain ⟨first, others, rfl⟩ := List.exists_cons_of_ne_nil identifier.nonempty
      have occurs := firstOccurrence_isPrefix found
      have digit := decimal first (List.mem_of_mem_drop (occurs.subset List.mem_cons_self))
      rw [identifier.start first rfl] at digit
      cases digit

theorem FlatObject.tail (flat : FlatObject (member :: members)) : FlatObject members :=
  ⟨fun other listed => flat.names other (List.mem_cons_of_mem _ listed), (List.nodup_cons.mp flat.distinct).2,
    fun other listed => flat.values other (List.mem_cons_of_mem _ listed)⟩

/-- The key is looked for in the name, in the string, and behind the member. -/
theorem keyScan_member (identifier : IsIdentifier key) (name : IsIdentifier member.key) (valid : member.value.Valid)
    (close : c = 44 ∨ c = 125) (rest : List UInt8) :
    keyScan key 1 (member.text ++ c :: rest) = (member.left key (c :: rest)).or (keyScan key 1 (c :: rest)) := by
  have absent := notMem_identifier identifier
  have noOpening := notMem_identifier name 123 (by decide)
  have noClosing := notMem_identifier name 125 (by decide)
  rw [Member.text, List.append_assoc, List.cons_append, List.cons_append,
    keyScan_piece identifier.nonempty (absent 58 (by decide)) noOpening noClosing]
  unfold Member.left
  cases firstOccurrence key member.key with
  | some offset => rfl
  | none =>
      dsimp only
      rw [keyScan_pass (by decide) (by decide) (absent 58 (by decide)),
        keyScan_pass (by decide) (by decide) (absent 32 (by decide))]
      have notClose : c ∉ key := by
        rcases close with rfl | rfl
        · exact absent 44 (by decide)
        · exact absent 125 (by decide)
      cases value : member.value with
      | int number =>
          have decimal := isDigit_formatDecimal number
          have unbraced : ∀ brace : UInt8, isDigit brace = false -> brace ∉ formatDecimal number := by
            intro brace other listed
            rw [decimal brace listed] at other
            cases other
          rw [MemberValue.text, keyScan_piece identifier.nonempty notClose (unbraced 123 (by decide))
            (unbraced 125 (by decide)), firstOccurrence_digits identifier decimal]
          rfl
      | string quote chars =>
          rw [value] at valid
          rcases valid with ⟨isQuote, valid⟩
          have notQuote : quote ≠ 123 ∧ quote ≠ 125 ∧ quote ∉ key := by
            rcases isQuote with rfl | rfl
            · exact ⟨by decide, by decide, absent 39 (by decide)⟩
            · exact ⟨by decide, by decide, absent 34 (by decide)⟩
          rw [MemberValue.text, List.cons_append, List.append_assoc, List.singleton_append,
            keyScan_pass notQuote.1 notQuote.2.1 notQuote.2.2,
            keyScan_piece identifier.nonempty notQuote.2.2 (valid 123 (by decide)) (valid 125 (by decide))]
          dsimp only
          cases firstOccurrence key chars with
          | some offset => rfl
          | none => exact keyScan_pass notQuote.1 notQuote.2.1 notQuote.2.2 1

/-- The walk ends in the first member that mentions the key. -/
theorem keyScan_members (identifier : IsIdentifier key) (flat : FlatObject members) {first : Member}
    (mentions : members.find? (Member.mentions key) = some first) :
    ∃ c behind, (c = 44 ∨ c = 125) ∧ keyScan key 1 (membersText members) = first.left key (c :: behind) := by
  induction members with
  | nil => cases mentions
  | cons member members inductionHypothesis =>
      have name := flat.names member List.mem_cons_self
      have valid := flat.values member List.mem_cons_self
      rw [List.find?_cons] at mentions
      cases here : member.mentions key with
      | true =>
          rw [here] at mentions
          obtain rfl : member = first := Option.some.inj mentions
          have found : ∀ behind other, (member.left key behind).or other = member.left key behind := by
            intro behind other
            exact Option.or_eq_left_of_isSome ((isSome_left behind).trans here)
          cases members with
          | nil =>
              refine ⟨125, [], Or.inr rfl, ?_⟩
              rw [membersText, keyScan_member identifier name valid (Or.inr rfl), found]
          | cons next members =>
              refine ⟨44, 32 :: membersText (next :: members), Or.inl rfl, ?_⟩
              rw [membersText, keyScan_member identifier name valid (Or.inl rfl), found]
      | false =>
          rw [here] at mentions
          cases members with
          | nil => cases mentions
          | cons next members =>
              have absent := notMem_identifier identifier
              have missed : ∀ behind, member.left key behind = none := by
                intro behind
                rw [← Option.not_isSome_iff_eq_none, isSome_left, here]
                exact Bool.false_ne_true
              rw [membersText, keyScan_member identifier name valid (Or.inl rfl), missed, Option.none_or,
                keyScan_pass (by decide) (by decide) (absent 44 (by decide)),
                keyScan_pass (by decide) (by decide) (absent 32 (by decide))]
              exact inductionHypothesis flat.tail mentions

end Members

/-! ## Reading -/

section Reading

variable {jo : JsonObject} {walkIdx piece rest behind : List UInt8} {c q : UInt8} {value : MemberValue}

theorem not_returns_int (refused : ¬ ∃ digits rest, IntAt walkIdx digits rest) (number : Nat) :
    ¬ Returns (getIntAt jo walkIdx) (getStringAt jo walkIdx) (.int number) := by
  intro returns
  rcases returns 0 with ⟨_, _, returned, _⟩
  rcases getIntAt_fails refused with ⟨_, failed⟩
  rw [failed] at returned
  cases returned

theorem not_returns_string (refused : ¬ ∃ q inner rest, StringAt walkIdx q inner rest) (quote : UInt8)
    (chars : List UInt8) : ¬ Returns (getIntAt jo walkIdx) (getStringAt jo walkIdx) (.string quote chars) := by
  intro returns
  rcases returns (List.replicate (chars.length + 1) 0) (by simp) with ⟨_, _, returned⟩
  rcases getStringAt_fails refused with ⟨_, failed⟩
  rw [failed] at returned
  cases returned

/-- Digits that run up to another character are refused. -/
theorem not_intAt (start : walkIdx.dropWhile isGap = piece ++ c :: rest)
    (unclosed : ∀ close : UInt8, close = 32 ∨ close = 44 ∨ close = 125 -> close ∉ piece ++ [c])
    (other : isDigit c = false) : ¬ ∃ digits rest, IntAt walkIdx digits rest := by
  rintro ⟨digits, after, int⟩
  have split := int.start.symm.trans start
  rcases List.append_eq_append_iff.mp split with ⟨more, shape, tail⟩ | ⟨more, shape, tail⟩
  · have closes := int.closes
    rw [tail] at closes
    cases more with
    | nil => exact unclosed c closes.head_cases (List.mem_append_right _ List.mem_cons_self)
    | cons first more =>
        refine unclosed first closes.head_cases (List.mem_append_left _ ?_)
        rw [shape]
        exact List.mem_append_right _ List.mem_cons_self
  · cases more with
    | nil =>
        have closes := int.closes
        rw [List.nil_append] at tail
        rw [← tail] at closes
        exact unclosed c closes.head_cases (List.mem_append_right _ List.mem_cons_self)
    | cons first more =>
        have same := (List.cons.inj tail).1
        have digit := int.decimal first (by rw [shape]; exact List.mem_append_right _ List.mem_cons_self)
        rw [← same, other] at digit
        cases digit

theorem not_stringAt (start : walkIdx.dropWhile isGap = c :: rest) (single : c ≠ 39) (double : c ≠ 34) :
    ¬ ∃ q inner rest, StringAt walkIdx q inner rest := by
  rintro ⟨q, inner, after, string⟩
  have same := (List.cons.inj (string.start.symm.trans start)).1
  rcases string.quote with rfl | rfl
  · exact single same.symm
  · exact double same.symm

private theorem unclosed_of_reserved (clear : ∀ c ∈ MemberValue.reserved, c ∉ piece)
    (other : ¬ (c = 32 ∨ c = 44 ∨ c = 125)) :
    ∀ close : UInt8, close = 32 ∨ close = 44 ∨ close = 125 -> close ∉ piece ++ [c] := by
  intro close closes member
  rcases List.mem_append.mp member with inside | last
  · rcases closes with rfl | rfl | rfl
    · exact clear 32 (by decide) inside
    · exact clear 44 (by decide) inside
    · exact clear 125 (by decide) inside
  · rw [List.mem_singleton.mp last] at closes
    exact other closes

private theorem dropWhile_isGap_append (other : isGap c = false) :
    (piece ++ c :: rest).dropWhile isGap = piece.dropWhile isGap ++ c :: rest := by
  have stops : (c :: rest).dropWhile isGap = c :: rest :=
    List.dropWhile_cons_of_neg (by rw [other]; exact Bool.false_ne_true)
  rw [List.dropWhile_append, stops]
  split
  case isTrue empty => rw [List.isEmpty_iff.mp empty, List.nil_append]
  case isFalse => rfl

/-- No value begins inside of a name. -/
theorem not_returns_name (nonempty : piece ≠ []) (word : ∀ c ∈ 58 :: MemberValue.reserved, c ∉ piece) :
    ¬ Returns (getIntAt jo (piece ++ 58 :: rest)) (getStringAt jo (piece ++ 58 :: rest)) value := by
  obtain ⟨first, others, rfl⟩ := List.exists_cons_of_ne_nil nonempty
  have ne : ∀ c ∈ 58 :: MemberValue.reserved, first ≠ c := fun c listed same =>
    word c listed (same ▸ List.mem_cons_self)
  have start : (first :: others ++ 58 :: rest).dropWhile isGap = first :: others ++ 58 :: rest := by
    rw [List.cons_append, List.dropWhile_cons_of_neg]
    simp [isGap, ne 32 (by decide), ne 58 (by decide)]
  cases value with
  | int number =>
      refine not_returns_int (not_intAt start ?_ (by decide)) number
      exact unclosed_of_reserved (fun c listed => word c (List.mem_cons_of_mem _ listed)) (by decide)
  | string quote chars =>
      exact not_returns_string (not_stringAt start (ne 39 (by decide)) (ne 34 (by decide))) quote chars

/-- Nor inside of a string. -/
theorem not_returns_inside (clear : ∀ c ∈ MemberValue.reserved, c ∉ piece) (quote : q = 39 ∨ q = 34)
    (close : c = 44 ∨ c = 125) (valid : value.Valid) :
    ¬ Returns (getIntAt jo (piece ++ q :: c :: rest)) (getStringAt jo (piece ++ q :: c :: rest)) value := by
  have other : isGap q = false ∧ isDigit q = false ∧ ¬ (q = 32 ∨ q = 44 ∨ q = 125) := by
    rcases quote with rfl | rfl <;> decide
  have start := @dropWhile_isGap_append piece (c :: rest) q other.1
  have clear' : ∀ c ∈ MemberValue.reserved, c ∉ piece.dropWhile isGap := fun c listed member =>
    clear c listed ((List.dropWhile_suffix _).subset member)
  cases value with
  | int number => exact not_returns_int (not_intAt start (unclosed_of_reserved clear' other.2.2) other.2.1) number
  | string quote' chars =>
      cases shape : piece.dropWhile isGap with
      | cons first others =>
          have ne : ∀ c ∈ MemberValue.reserved, first ≠ c := by
            rintro c listed rfl
            rw [shape] at clear'
            exact clear' first listed List.mem_cons_self
          rw [shape, List.cons_append] at start
          exact not_returns_string (not_stringAt start (ne 39 (by decide)) (ne 34 (by decide))) quote' chars
      | nil =>
          -- the closing quote is taken for a value, and what follows the string is copied
          rw [shape, List.nil_append] at start
          have string : StringAt (piece ++ q :: c :: rest) q [] (c :: rest) :=
            ⟨start, quote, rfl, fun _ member => absurd member List.not_mem_nil, closes_of_close close⟩
          intro returns
          have room : chars.length < (List.replicate (chars.length + 2) (0 : UInt8)).length := by simp
          rcases returns _ room with ⟨errno, behind, returned⟩
          rw [getStringAt_copies string, List.length_nil, List.nil_append, copyString_lone (by simp)] at returned
          split at returned
          case isTrue => cases returned
          case isFalse =>
            rw [List.length_replicate, Nat.add_sub_cancel_right (chars.length + 1) 1, List.cons_append,
              List.take_succ_cons, List.cons_append] at returned
            have same := (JsonOutcome.returned.inj returned).2.2
            cases chars with
            | nil =>
                have zero := (List.cons.inj same).1
                rw [zero] at close
                revert close
                decide
            | cons first chars =>
                have first := (List.cons.inj same).1
                rcases close with rfl | rfl
                · exact valid.2 44 (by decide) (first ▸ List.mem_cons_self)
                · exact valid.2 125 (by decide) (first ▸ List.mem_cons_self)

/-- Where a number begins it is the number that is read. -/
theorem returns_int_iff {number : Nat} (int : IntAt walkIdx (formatDecimal number) rest) (fits : number < 2 ^ 31)
    (other : Nat) : Returns (getIntAt jo walkIdx) (getStringAt jo walkIdx) (.int other) ↔ number = other := by
  have short := length_formatDecimal_le (by decide) (Nat.lt_of_lt_of_le fits (by decide : 2 ^ 31 ≤ 10 ^ 10))
  have reads : ∀ value : Int32, getIntAt jo walkIdx value =
      .returned 0 jo.errno (signedWord false number).toInt32 := by
    intro value
    rw [getIntAt_digits int, if_neg (by omega), magnitude_formatDecimal]
  constructor
  · intro returns
    rcases returns 0 with ⟨errno, read, returned, same⟩
    rw [reads] at returned
    cases returned
    rw [toInt_signedWord_nat fits] at same
    exact_mod_cast same
  · rintro rfl value
    exact ⟨_, _, reads value, toInt_signedWord_nat fits⟩

/-- Where a string begins it is the string that is read, if it can be read. -/
theorem returns_string_iff {chars other : List UInt8} (delimited : Delimited walkIdx q chars rest)
    (clear : ∀ c ∈ MemberValue.reserved, c ∉ chars) (nulFree : 0 ∉ chars) (nulFree' : 0 ∉ other) (quote : UInt8) :
    Returns (getIntAt jo walkIdx) (getStringAt jo walkIdx) (.string quote other) ↔
      chars = other ∧ ∀ c ∈ chars, isPrint c = true := by
  constructor
  · intro returns
    have string : ∃ q inner rest, StringAt walkIdx q inner rest :=
      not_not.mp fun refused => not_returns_string refused quote other returns
    rcases string with ⟨first, inner, after, string⟩
    rcases (delimited.stringAt_iff.mp string).2 with ⟨plain, _⟩ | ⟨closes, _⟩
    · refine ⟨?_, fun c member => ?_⟩
      · -- a buffer that has room for both tells them apart
        have room : other.length < (List.replicate (chars.length + other.length + 1) (0 : UInt8)).length := by
          rw [List.length_replicate]
          omega
        rcases returns _ room with ⟨errno, behind, returned⟩
        rw [delimited.copies plain (by simp), List.length_replicate, Nat.add_sub_cancel,
          List.take_of_length_le (Nat.le_add_right _ _)] at returned
        exact eq_of_append_cons nulFree nulFree' (JsonOutcome.returned.inj returned).2.2
      · have printable := plain c member
        simp only [stringChar, Bool.and_eq_true] at printable
        exact printable.1.1.1
    · cases chars with
      | nil => exact absurd closes not_closes_nil
      | cons first chars =>
          rcases closes.head_cases with rfl | rfl | rfl
          · exact absurd List.mem_cons_self (clear 32 (by decide))
          · exact absurd List.mem_cons_self (clear 44 (by decide))
          · exact absurd List.mem_cons_self (clear 125 (by decide))
  · rintro ⟨rfl, printable⟩ value room
    have plain : ∀ c ∈ chars, stringChar c = true := by
      intro c member
      have ne : ∀ other ∈ MemberValue.reserved, c ≠ other :=
        fun other listed same => clear other listed (same ▸ member)
      simp [stringChar, printable c member, ne 32 (by decide), ne 44 (by decide), ne 125 (by decide)]
    have sized : value ≠ [] := List.ne_nil_of_length_pos (Nat.lt_of_le_of_lt (Nat.zero_le _) room)
    have copies := @Delimited.copies jo walkIdx rest q value chars delimited plain sized
    rw [List.take_of_length_le (Nat.le_sub_one_of_lt room)] at copies
    exact ⟨_, _, copies⟩

/-- Where a value begins it is what is read. -/
theorem returns_value_iff {first : MemberValue} (start : walkIdx.dropWhile isGap = first.text ++ c :: rest)
    (close : c = 44 ∨ c = 125) (valid : first.Valid) (nulFree : 0 ∉ first.text) (nulFree' : 0 ∉ value.text) :
    Returns (getIntAt jo walkIdx) (getStringAt jo walkIdx) value ↔ first.ReadAs value := by
  have closes : Closes (c :: rest) := closes_of_close close
  cases first with
  | int number =>
      have decimal := isDigit_formatDecimal number
      cases value with
      | int other => exact returns_int_iff ⟨start, formatDecimal_ne_nil number, decimal, closes⟩ valid other
      | string quote chars =>
          obtain ⟨digit, others, shape⟩ := List.exists_cons_of_ne_nil (formatDecimal_ne_nil number)
          have isDigit := decimal digit (shape ▸ List.mem_cons_self)
          rw [MemberValue.text, shape, List.cons_append] at start
          refine iff_of_false (not_returns_string (not_stringAt start ?_ ?_) quote chars) id
          · rintro rfl
            revert isDigit
            decide
          · rintro rfl
            revert isDigit
            decide
  | string quote chars =>
      rcases valid with ⟨isQuote, clear⟩
      have shape : walkIdx.dropWhile isGap = quote :: (chars ++ quote :: c :: rest) := by
        rw [start, MemberValue.text, List.cons_append, List.append_assoc, List.singleton_append]
      cases value with
      | int other =>
          have unread : isDigit quote = false ∧ ¬ (quote = 32 ∨ quote = 44 ∨ quote = 125) := by
            rcases isQuote with rfl | rfl <;> decide
          have clear : ∀ c ∈ MemberValue.reserved, c ∉ ([] : List UInt8) := fun _ _ => List.not_mem_nil
          have unclosed := @unclosed_of_reserved [] quote clear unread.2
          exact iff_of_false (not_returns_int (not_intAt shape unclosed unread.1) other) id
      | string quote' other =>
          have unquoted : quote ∉ chars := by
            rcases isQuote with rfl | rfl
            · exact clear 39 (by decide)
            · exact clear 34 (by decide)
          have inside : ∀ {quote : UInt8} {chars : List UInt8}, 0 ∉ quote :: (chars ++ [quote]) -> 0 ∉ chars :=
            fun absent member => absent (List.mem_cons_of_mem _ (List.mem_append_left _ member))
          exact returns_string_iff ⟨shape, isQuote, unquoted, closes⟩ clear (inside nulFree) (inside nulFree') quote'

end Reading

/-! ## Looking up a member -/

section LookUp

variable {members : List Member} {member : Member}

theorem text_subset_membersText (listed : member ∈ members) : member.value.text ⊆ membersText members := by
  have own : member.value.text ⊆ member.text := fun c inside =>
    List.mem_append_right _ (List.mem_cons_of_mem _ (List.mem_cons_of_mem _ inside))
  induction members with
  | nil => cases listed
  | cons first members inductionHypothesis =>
      cases members with
      | nil =>
          cases List.mem_singleton.mp listed
          exact fun c inside => List.mem_append_left _ (own inside)
      | cons next members =>
          rcases List.mem_cons.mp listed with rfl | later
          · exact fun c inside => List.mem_append_left _ (own inside)
          · exact fun c inside => List.mem_append_right _
              (List.mem_cons_of_mem _ (List.mem_cons_of_mem _ (inductionHypothesis later inside)))

/-- A value does not begin with what is passed over in front of it. -/
theorem dropWhile_isGap_text {value : MemberValue} (valid : value.Valid) (behind : List UInt8) :
    (58 :: 32 :: (value.text ++ behind)).dropWhile isGap = value.text ++ behind := by
  obtain ⟨first, others, shape, unpassed⟩ :
      ∃ first others, value.text = first :: others ∧ isGap first = false := by
    cases value with
    | int number =>
        obtain ⟨digit, others, shape⟩ := List.exists_cons_of_ne_nil (formatDecimal_ne_nil number)
        have isDigit := isDigit_formatDecimal number digit (shape ▸ List.mem_cons_self)
        refine ⟨digit, others, shape, ?_⟩
        rw [← Bool.not_eq_true]
        intro gap
        simp only [isGap, Bool.or_eq_true, beq_iff_eq] at gap
        rcases gap with rfl | rfl
        · revert isDigit
          decide
        · revert isDigit
          decide
    | string quote chars =>
        refine ⟨quote, chars ++ [quote], rfl, ?_⟩
        rcases valid.1 with rfl | rfl <;> decide
  rw [shape, List.dropWhile_cons_of_pos (by decide), List.dropWhile_cons_of_pos (by decide), List.cons_append,
    List.dropWhile_cons_of_neg (by rw [unpassed]; exact Bool.false_ne_true)]

/-- The value that is read behind the first place of the key in a member. -/
theorem returns_left_iff {jo : JsonObject} {key walkIdx behind : List UInt8} {c : UInt8} {first : Member}
    {value : MemberValue} (identifier : IsIdentifier key) (name : IsIdentifier first.key) (valid : first.value.Valid)
    (valid' : value.Valid) (nulFree : 0 ∉ first.value.text) (nulFree' : 0 ∉ value.text) (close : c = 44 ∨ c = 125)
    (left : first.left key (c :: behind) = some walkIdx) :
    Returns (getIntAt jo walkIdx) (getStringAt jo walkIdx) value ↔
      firstOccurrence key first.key = some (first.key.length - key.length) ∧ first.value.ReadAs value := by
  unfold Member.left at left
  cases inName : firstOccurrence key first.key with
  | some offset =>
      rw [inName] at left
      cases left
      rw [Option.some_inj]
      have room := (firstOccurrence_isPrefix inName).length_le
      rw [List.length_drop] at room
      have positive := List.length_pos_iff.mpr identifier.nonempty
      by_cases ends : offset + key.length = first.key.length
      · have start : (first.key.drop (offset + key.length) ++
            58 :: 32 :: (first.value.text ++ c :: behind)).dropWhile isGap = first.value.text ++ c :: behind := by
          rw [List.drop_of_length_le (Nat.le_of_eq ends.symm), List.nil_append, dropWhile_isGap_text valid]
        rw [returns_value_iff start close valid nulFree nulFree']
        exact ⟨fun readAs => ⟨by omega, readAs⟩, fun found => found.2⟩
      · refine iff_of_false (not_returns_name ?_ ?_) ?_
        · intro empty
          have short := List.drop_eq_nil_iff.mp empty
          omega
        · intro c reserved member
          exact notMem_identifier name c reserved (List.mem_of_mem_drop member)
        · rintro ⟨atEnd, _⟩
          omega
  | none =>
      rw [inName] at left
      cases string : first.value with
      | int number =>
          rw [string] at left
          cases left
      | string quote chars =>
          rw [string] at left valid
          rcases Option.map_eq_some_iff.mp left with ⟨offset, _, rfl⟩
          refine iff_of_false (not_returns_inside ?_ valid.1 close valid') ?_
          · exact fun c reserved member => valid.2 c reserved (List.mem_of_mem_drop member)
          · rintro ⟨atEnd, _⟩
            cases atEnd

/-- A member mentions its own name. -/
theorem mentions_own (member : Member) : member.mentions member.key = true := by
  rcases @firstOccurrence_le _ _ member.key member.key 0 (List.prefix_refl _) with ⟨offset, found, _⟩
  rw [Member.mentions, found]
  rfl

/-- The walk through a flat object ends in the first member that mentions the
key. -/
theorem jsonWalk_flat {jo : JsonObject} {path : CString} {key : List UInt8} {first : Member} (flat : FlatObject members)
    (whole : jo.raw.chars = objectText members) (identifier : IsIdentifier key) (spelled : path.chars = 47 :: key)
    (mentions : members.find? (Member.mentions key) = some first) :
    ∃ c behind walkIdx, (c = 44 ∨ c = 125) ∧ first.left key (c :: behind) = some walkIdx ∧
      jsonWalk (path.length + 1) jo.raw.chars path.chars = .found walkIdx := by
  rcases keyScan_members identifier flat mentions with ⟨c, behind, close, scan⟩
  obtain ⟨walkIdx, left⟩ : ∃ walkIdx, first.left key (c :: behind) = some walkIdx := by
    rw [← Option.isSome_iff_exists, isSome_left]
    exact List.find?_some mentions
  have keys : PathKeys [key] := by
    refine ⟨List.cons_ne_nil _ _, fun other same => ?_⟩
    rw [List.mem_singleton.mp same]
    exact ⟨identifier.nonempty, identifier.ne (by decide)⟩
  have text : path.chars = pathText [key] := by
    rw [spelled]
    exact (List.append_nil _).symm
  have opened : keyScan key 0 (objectText members) = keyScan key 1 (membersText members) := by
    rw [objectText, keyScan, if_pos rfl]
    rfl
  refine ⟨c, behind, walkIdx, close, left, ?_⟩
  rw [jsonWalk_path text keys, whole, walkKeys, opened, scan, left]

/-- A member is found exactly when its key leads to it, or to the same value. -/
theorem jsonGet_member_iff {jo : JsonObject} {path : CString} (flat : FlatObject members)
    (whole : jo.raw.chars = objectText members) (listed : member ∈ members) (spelled : path.chars = 47 :: member.key) :
    Returns (jsonGetInt jo path) (jsonGetString jo path) member.value ↔ Leads members member := by
  have identifier := flat.names member listed
  obtain ⟨first, mentions⟩ : ∃ first, members.find? (Member.mentions member.key) = some first := by
    rw [← Option.isSome_iff_exists, List.find?_isSome]
    exact ⟨member, listed, mentions_own member⟩
  have there := List.mem_of_find?_eq_some mentions
  have nulFree : ∀ {other : Member}, other ∈ members -> 0 ∉ other.value.text := by
    intro other listed inside
    apply jo.raw.nulFree
    rw [whole]
    exact List.mem_cons_of_mem _ (text_subset_membersText listed inside)
  rcases jsonWalk_flat flat whole identifier spelled mentions with ⟨c, behind, walkIdx, close, left, walk⟩
  rw [jsonGetInt_found walk, jsonGetString_found walk,
    returns_left_iff identifier (flat.names first there) (flat.values first there) (flat.values member listed)
      (nulFree there) (nulFree listed) close left]
  constructor
  · exact fun ends => ⟨first, mentions, ends⟩
  · rintro ⟨other, same, ends⟩
    cases mentions.symm.trans same
    exact ends

end LookUp

private def secondPath (key : String) : CString := CString.ofMemory (47 :: ascii key ++ [0])

private def twoMembers (first second : String) : List Member :=
  [⟨ascii first, .int 1⟩, ⟨ascii second, .int 2⟩]

private theorem shortMember_nulFree : (0 : UInt8) ∉ objectText (twoMembers "b" "ab") := by decide +kernel

private theorem longMember_nulFree : (0 : UInt8) ∉ objectText (twoMembers "ab" "b") := by decide +kernel

/-- `{b: 1, ab: 2}` -/
private def shortFirst : JsonObject := jsonObjectNew ⟨objectText (twoMembers "b" "ab"), shortMember_nulFree⟩

/-- `{ab: 1, b: 2}` -/
private def longFirst : JsonObject := jsonObjectNew ⟨objectText (twoMembers "ab" "b"), longMember_nulFree⟩

theorem jsonGet_member_iff_second :
    Returns (jsonGetInt shortFirst (secondPath "ab")) (jsonGetString shortFirst (secondPath "ab")) (.int 2) := by
  have flat : FlatObject (twoMembers "b" "ab") := ⟨by decide +kernel, by decide, by decide +kernel⟩
  have second : ⟨ascii "ab", .int 2⟩ ∈ twoMembers "b" "ab" := by decide
  refine (@jsonGet_member_iff _ _ shortFirst (secondPath "ab") flat rfl second (by decide)).mpr ?_
  exact ⟨⟨ascii "ab", .int 2⟩, by decide, by decide, rfl⟩

/-- A key is found in the end of a longer one. -/
theorem longerKey_found : ¬ ∀ (members : List Member) (member : Member) (jo : JsonObject) (path : CString),
    FlatObject members -> jo.raw.chars = objectText members -> member ∈ members -> path.chars = 47 :: member.key ->
      Returns (jsonGetInt jo path) (jsonGetString jo path) member.value := by
  intro always
  have flat : FlatObject (twoMembers "ab" "b") := ⟨by decide +kernel, by decide, by decide +kernel⟩
  have second : ⟨ascii "b", .int 2⟩ ∈ twoMembers "ab" "b" := by decide
  have returns := always (twoMembers "ab" "b") ⟨ascii "b", .int 2⟩ longFirst (secondPath "b") flat rfl second
    (by decide)
  rcases returns 0 with ⟨errno, read, returned, two⟩
  have one : jsonGetInt longFirst (secondPath "b") 0 = .returned 0 .ok 1 := by decide +kernel
  rw [one] at returned
  cases returned
  revert two
  decide

end Json
end Extlib
