import Extlib.Text.Lines

namespace Extlib
namespace Modules

open Text

/-!
# Parameters of a module

`param_get_int` and `param_get_string` of `posix/module.c` look for a name in
the text of the parameters with `strstr`, and for the `=` from there on with
`strchr`.  A name is found wherever its characters stand, in another name or in
a value, and the `=` is then the next one, whatever it belongs to.

What they return is compared with the items the text is made of.
-/

/-- The text behind the first `=` at or behind the first place of the name. -/
def paramStart (name param : List UInt8) : Option (List UInt8) :=
  (firstOccurrence name param).bind fun found =>
    (firstOccurrence [61] (param.drop found)).map fun equals => (param.drop found).drop (equals + 1)

/-- The value returned, and `*value`. -/
def paramGetInt (name : CString) (value : Int32) (param : Option CString) : Int × Int32 :=
  match param with
  | none => (-1, value)
  | some param =>
      match paramStart name.chars param.chars with
      | none => (-1, value)
      | some start => (0, atoi (start.takeWhile (· ≠ 32)))

/-- The characters from `start` to `end`.  A quote needs another one. -/
def paramChars : List UInt8 -> Option (List UInt8)
  | 34 :: start => if 34 ∈ start then some (start.takeWhile (· ≠ 34)) else none
  | start => some (start.takeWhile (· ≠ 32))

/-- The buffer after `memset` and `memcpy`. -/
def filled (size : Nat) (chars : List UInt8) : List UInt8 :=
  chars.take (size - 1) ++ List.replicate (size - (chars.take (size - 1)).length) 0

/-- The value returned, and the buffer.  Its size is asserted not to be 0. -/
def paramGetString (name : CString) (buf : List UInt8) (param : Option CString) : Option (Int × List UInt8) :=
  if buf = [] then none
  else
    match param with
    | none => some (-1, buf)
    | some param =>
        match paramStart name.chars param.chars with
        | none => some (-1, buf)
        | some start =>
            match paramChars start with
            | none => some (-1, buf)
            | some chars => some (0, filled buf.length chars)

/-! ## Parameter texts -/

/-- A value as it is written: a number, a word, or a text in quotes. -/
inductive ParamValue where
  | int (negative : Bool) (digits : List UInt8)
  | word (chars : List UInt8)
  | quoted (chars : List UInt8)
  deriving DecidableEq, Repr

namespace ParamValue

/-- The string that is meant. -/
def chars : ParamValue -> List UInt8
  | int negative digits => (if negative then [45] else []) ++ digits
  | word chars => chars
  | quoted chars => chars

def text : ParamValue -> List UInt8
  | quoted chars => 34 :: chars ++ [34]
  | value => value.chars

/-- The number that is meant. -/
def number : ParamValue -> Option Int
  | int negative digits => some (signedValue negative (magnitude 10 decimalValue digits))
  | _ => none

theorem chars_subset (value : ParamValue) : value.chars ⊆ value.text := by
  cases value with
  | quoted chars => exact fun c member => List.mem_cons_of_mem _ (List.mem_append_left _ member)
  | _ => exact List.Subset.refl _

/-- A number fits `int`, a word has neither blanks nor quotes, and a text in
quotes has none inside. -/
def Valid : ParamValue -> Prop
  | int negative digits =>
      digits ≠ [] ∧ (∀ c ∈ digits, isDigit c = true) ∧
        -2 ^ 31 ≤ signedValue negative (magnitude 10 decimalValue digits) ∧
        signedValue negative (magnitude 10 decimalValue digits) < 2 ^ 31
  | word chars => 32 ∉ chars ∧ 34 ∉ chars
  | quoted chars => 34 ∉ chars

instance : (value : ParamValue) -> Decidable value.Valid
  | int negative digits =>
      inferInstanceAs (Decidable (digits ≠ [] ∧ (∀ c ∈ digits, isDigit c = true) ∧
        -2 ^ 31 ≤ signedValue negative (magnitude 10 decimalValue digits) ∧
        signedValue negative (magnitude 10 decimalValue digits) < 2 ^ 31))
  | word chars => inferInstanceAs (Decidable (32 ∉ chars ∧ 34 ∉ chars))
  | quoted chars => inferInstanceAs (Decidable (34 ∉ chars))

end ParamValue

structure ParamItem where
  name : List UInt8
  value : ParamValue
  deriving DecidableEq, Repr

def ParamItem.text (item : ParamItem) : List UInt8 := item.name ++ 61 :: item.value.text

/-- The items, each with the blanks behind it, and the blanks in front. -/
def paramText (lead : Nat) (params : List (ParamItem × Nat)) : List UInt8 :=
  List.replicate lead 32 ++ params.flatMap fun (item, gap) => item.text ++ List.replicate gap 32

/-- Distinct identifiers bound to values, with blanks between. -/
structure WellFormed (params : List (ParamItem × Nat)) : Prop where
  names : ∀ param ∈ params, IsIdentifier param.1.name
  values : ∀ param ∈ params, param.1.value.Valid
  distinct : (params.map (·.1.name)).Nodup
  separated : ∀ param ∈ params.dropLast, 0 < param.2

/-! ## What is asked of the look-up -/

/-- Both functions return 0 and the value: the string up to the size of the
buffer, with a NUL behind it, and the number if it is one. -/
structure Returns (name : CString) (value : ParamValue) (param : CString) : Prop where
  string : ∀ buf : List UInt8, buf ≠ [] ->
    ∃ rest, paramGetString name buf (some param) = some (0, value.chars.take (buf.length - 1) ++ 0 :: rest) ∧
      (value.chars.take (buf.length - 1) ++ 0 :: rest).length = buf.length
  int : ∀ number ∈ value.number, ∀ old, ∃ read : Int32, paramGetInt name old (some param) = (0, read) ∧
    read.toInt = number

/-- Both return -1 and leave everything as it was. -/
structure Missing (name : CString) (param : CString) : Prop where
  string : ∀ buf : List UInt8, buf ≠ [] -> paramGetString name buf (some param) = some (-1, buf)
  int : ∀ old, paramGetInt name old (some param) = (-1, old)

/-- The answer for a name is the value bound to it, or that there is none. -/
structure Answers (params : List (ParamItem × Nat)) (name param : CString) : Prop where
  bound : ∀ item ∈ params, item.1.name = name.chars -> Returns name item.1.value param
  unbound : (∀ item ∈ params, item.1.name ≠ name.chars) -> Missing name param

/-- The string that stands here, in quotes or up to a blank or the end. -/
def Spells (chars start : List UInt8) : Prop :=
  start.head? ≠ some 34 ∧ start.takeWhile (· ≠ 32) = chars ∨ 34 ∉ chars ∧ ∃ rest, start = 34 :: chars ++ 34 :: rest

/-- The same string stands here, and the same number if the value is one. -/
def ReadsAs (value : ParamValue) (start : List UInt8) : Prop :=
  Spells value.chars start ∧ ∀ number ∈ value.number, (atoi (start.takeWhile (· ≠ 32))).toInt = number

/-- An `=` stands between the first place of the name and the end of this text. -/
def FoundIn (name param front : List UInt8) : Prop :=
  ∃ found, firstOccurrence name param = some found ∧ 61 ∈ front.drop found

/-- The name does not lead to an `=` in front of the item it names, unless the
same value stands there; and if it names none, to no `=` at all. -/
structure Unredirected (lead : Nat) (params : List (ParamItem × Nat)) (name param : CString) : Prop where
  bound : ∀ earlier item later, params = earlier ++ item :: later -> item.1.name = name.chars ->
    FoundIn name.chars param.chars (paramText lead earlier) ->
      ∀ start ∈ paramStart name.chars param.chars, ReadsAs item.1.value start
  unbound : (∀ item ∈ params, item.1.name ≠ name.chars) -> ¬ FoundIn name.chars param.chars param.chars

/-! ## The look-up -/

section LookUp

variable {name param : CString} {start chars : List UInt8}

theorem paramChars_eq_some_iff : paramChars start = some chars ↔ Spells chars start := by
  unfold paramChars Spells
  split
  case h_1 start =>
    rw [List.head?_cons]
    constructor
    · intro closed
      split at closed
      case isTrue member =>
        cases closed
        rcases List.eq_append_cons_of_mem member with ⟨before, rest, rfl, absent⟩
        rw [takeWhile_ne absent]
        exact Or.inr ⟨absent, rest, rfl⟩
      case isFalse => cases closed
    · rintro (⟨unquoted, _⟩ | ⟨absent, rest, same⟩)
      · exact absurd rfl unquoted
      · have tail := (List.cons.inj same).2
        rw [tail, List.append_eq, if_pos (List.mem_append_right chars List.mem_cons_self), takeWhile_ne absent]
  case h_2 unquoted =>
    have other : start.head? ≠ some 34 := by
      intro quote
      rcases List.head?_eq_some_iff.mp quote with ⟨tail, rfl⟩
      exact unquoted tail rfl
    rw [Option.some_inj]
    constructor
    · exact fun same => Or.inl ⟨other, same⟩
    · rintro (⟨_, same⟩ | ⟨_, rest, same⟩)
      · exact same
      · exact absurd same (unquoted _)

/-- Nothing is found that is not in the text. -/
theorem paramStart_suffix (found : paramStart name.chars param.chars = some start) : start <:+ param.chars := by
  rcases Option.bind_eq_some_iff.mp found with ⟨offset, _, later⟩
  rcases Option.map_eq_some_iff.mp later with ⟨equals, _, rfl⟩
  exact (List.drop_suffix _ _).trans (List.drop_suffix _ _)

theorem paramChars_subset (read : paramChars start = some chars) : chars ⊆ start := by
  rcases paramChars_eq_some_iff.mp read with ⟨_, rfl⟩ | ⟨_, rest, rfl⟩
  · exact (List.takeWhile_prefix _).subset
  · exact fun c member => List.mem_append_left _ (List.mem_cons_of_mem _ member)

theorem filled_eq {size : Nat} (nonempty : 0 < size) (chars : List UInt8) :
    ∃ rest, filled size chars = chars.take (size - 1) ++ 0 :: rest ∧ (filled size chars).length = size := by
  have room : (chars.take (size - 1)).length ≤ size - 1 := List.length_take_le _ _
  obtain ⟨zeros, split⟩ : ∃ zeros, size - (chars.take (size - 1)).length = zeros + 1 :=
    ⟨size - (chars.take (size - 1)).length - 1, by omega⟩
  refine ⟨List.replicate zeros 0, ?_, ?_⟩
  · rw [filled, split, List.replicate_succ]
  · rw [filled, List.length_append, List.length_replicate]
    omega

/-- Whatever the buffer, the string found is the one returned. -/
theorem returns_string_iff (value : ParamValue) (nulFree : (0 : UInt8) ∉ value.chars) :
    (∀ buf : List UInt8, buf ≠ [] ->
      ∃ rest, paramGetString name buf (some param) = some (0, value.chars.take (buf.length - 1) ++ 0 :: rest) ∧
        (value.chars.take (buf.length - 1) ++ 0 :: rest).length = buf.length) ↔
      ∃ start, paramStart name.chars param.chars = some start ∧ Spells value.chars start := by
  constructor
  · intro every
    cases found : paramStart name.chars param.chars with
    | none =>
        rcases every [0] (List.cons_ne_nil 0 []) with ⟨rest, returned, _⟩
        rw [paramGetString, if_neg (List.cons_ne_nil 0 [])] at returned
        rw [found] at returned
        cases returned
    | some start =>
        refine ⟨start, rfl, ?_⟩
        rw [← paramChars_eq_some_iff]
        cases read : paramChars start with
        | none =>
            rcases every [0] (List.cons_ne_nil 0 []) with ⟨rest, returned, _⟩
            rw [paramGetString, if_neg (List.cons_ne_nil 0 [])] at returned
            rw [found] at returned
            dsimp only at returned
            rw [read] at returned
            cases returned
        | some chars =>
            -- a buffer that has room for both strings tells them apart
            have room : 0 < chars.length + value.chars.length + 1 := Nat.succ_pos _
            have nonempty : List.replicate (chars.length + value.chars.length + 1) (0 : UInt8) ≠ [] :=
              List.cons_ne_nil _ _
            rcases every _ nonempty with ⟨rest, returned, _⟩
            rcases filled_eq room chars with ⟨zeros, stored, _⟩
            rw [paramGetString, if_neg nonempty] at returned
            rw [found] at returned
            dsimp only at returned
            rw [read] at returned
            dsimp only at returned
            rw [List.length_replicate, stored, Nat.add_sub_cancel, List.take_of_length_le (Nat.le_add_right _ _),
              List.take_of_length_le (Nat.le_add_left _ _)] at returned
            have unterminated : (0 : UInt8) ∉ chars := fun member =>
              param.nulFree ((paramStart_suffix found).subset (paramChars_subset read member))
            rw [eq_of_append_cons unterminated nulFree (Prod.mk.inj (Option.some.inj returned)).2]
  · rintro ⟨start, found, spells⟩ buf nonempty
    have read := paramChars_eq_some_iff.mpr spells
    rcases filled_eq (List.length_pos_iff.mpr nonempty) value.chars with ⟨rest, stored, whole⟩
    refine ⟨rest, ?_, by rw [← stored]; exact whole⟩
    rw [paramGetString, if_neg nonempty]
    rw [found]
    dsimp only
    rw [read]
    dsimp only
    rw [stored]

/-- A value is returned exactly when it stands behind the `=` that is found. -/
theorem returns_iff (value : ParamValue) (nulFree : (0 : UInt8) ∉ value.chars) :
    Returns name value param ↔ ∃ start, paramStart name.chars param.chars = some start ∧ ReadsAs value start := by
  constructor
  · intro returns
    rcases (returns_string_iff value nulFree).mp returns.string with ⟨start, found, spells⟩
    refine ⟨start, found, spells, ?_⟩
    intro number meant
    rcases returns.int number meant 0 with ⟨read, returned, same⟩
    rw [paramGetInt] at returned
    rw [found] at returned
    rw [← same, ← (Prod.mk.inj returned).2]
  · rintro ⟨start, found, spells, numbers⟩
    refine ⟨(returns_string_iff value nulFree).mpr ⟨start, found, spells⟩, ?_⟩
    intro number meant old
    refine ⟨_, ?_, numbers number meant⟩
    rw [paramGetInt]
    rw [found]

/-- Nothing is returned exactly when there is no `=` to find. -/
theorem missing_iff : Missing name param ↔ paramStart name.chars param.chars = none := by
  constructor
  · intro missing
    cases found : paramStart name.chars param.chars with
    | none => rfl
    | some start =>
        have returned := missing.int 0
        rw [paramGetInt] at returned
        rw [found] at returned
        cases (Prod.mk.inj returned).1
  · intro absent
    constructor
    · intro buf nonempty
      rw [paramGetString, if_neg nonempty]
      rw [absent]
    · intro old
      rw [paramGetInt]
      rw [absent]

theorem paramStart_eq_none_iff :
    paramStart name.chars param.chars = none ↔ ¬ FoundIn name.chars param.chars param.chars := by
  unfold paramStart FoundIn
  cases firstOccurrence name.chars param.chars with
  | none => simp
  | some found =>
      rw [Option.bind_some, Option.map_eq_none_iff, firstOccurrence_char_eq_none_iff]
      simp

end LookUp

/-! ## The item itself -/

section Items

variable {lead : Nat} {params : List (ParamItem × Nat)} {name param : CString}

/-- A valid value stands behind its own `=`. -/
theorem readsAs_text {value : ParamValue} (valid : value.Valid) {rest : List UInt8}
    (separated : ∀ c ∈ rest.head?, c = 32) : ReadsAs value (value.text ++ rest) := by
  have blank : ∀ {chars : List UInt8}, 32 ∉ chars -> (chars ++ rest).takeWhile (· ≠ 32) = chars := by
    intro chars absent
    cases rest with
    | nil => rw [List.append_nil, takeWhile_ne_of_notMem absent]
    | cons c rest =>
        cases separated c rfl
        exact takeWhile_ne absent rest
  have unquoted : ∀ {chars : List UInt8}, 34 ∉ chars -> (chars ++ rest).head? ≠ some 34 := by
    intro chars absent quote
    cases chars with
    | nil => cases separated 34 quote
    | cons first chars =>
        rw [List.cons_append, List.head?_cons, Option.some_inj] at quote
        exact absent (quote ▸ List.mem_cons_self)
  cases value with
  | int negative digits =>
      rcases valid with ⟨nonempty, decimal, low, high⟩
      have other : ∀ c : UInt8, c ≠ 45 -> isDigit c = false -> c ∉ (if negative then [45] else []) ++ digits := by
        intro c minus digit member
        rcases List.mem_append.mp member with sign | inside
        · split at sign
          · exact minus (List.mem_singleton.mp sign)
          · cases sign
        · have decimalDigit := decimal c inside
          rw [digit] at decimalDigit
          cases decimalDigit
      have here := blank (other 32 (by decide) (by decide))
      refine ⟨Or.inl ⟨unquoted (other 34 (by decide) (by decide)), here⟩, ?_⟩
      rintro number ⟨⟩
      have read := @atoi_digits negative digits [] nonempty decimal (fun _ first => nomatch first)
      rw [List.append_nil] at read
      have shape : (ParamValue.int negative digits).text = (if negative then [45] else []) ++ digits := rfl
      rw [shape, here, read, toInt_signedWord low high]
  | word chars => exact ⟨Or.inl ⟨unquoted valid.2, blank valid.1⟩, by rintro number ⟨⟩⟩
  | quoted chars =>
      refine ⟨Or.inr ⟨valid, rest, ?_⟩, by rintro number ⟨⟩⟩
      rw [ParamValue.text, ParamValue.chars]
      simp

/-- The text around an item: its value is followed by a blank or by the end. -/
theorem paramText_split (lead : Nat) (wellFormed : WellFormed params) {earlier later : List (ParamItem × Nat)}
    {item : ParamItem × Nat} (split : params = earlier ++ item :: later) :
    ∃ rest, (∀ c ∈ rest.head?, c = 32) ∧
      paramText lead params = paramText lead earlier ++ (item.1.name ++ 61 :: (item.1.value.text ++ rest)) := by
  refine ⟨List.replicate item.2 32 ++ later.flatMap fun (item, gap) => item.text ++ List.replicate gap 32, ?_, ?_⟩
  · intro c first
    cases later with
    | nil =>
        rw [List.flatMap_nil, List.append_nil] at first
        exact List.eq_of_mem_replicate (List.mem_of_mem_head? first)
    | cons next later =>
        have between : item ∈ params.dropLast := by
          rw [split, List.dropLast_append_of_ne_nil (List.cons_ne_nil _ _), List.dropLast_cons_cons]
          exact List.mem_append_right _ List.mem_cons_self
        obtain ⟨more, gap⟩ : ∃ more, item.2 = more + 1 :=
          ⟨item.2 - 1, (Nat.succ_pred (Nat.ne_of_gt (wellFormed.separated item between))).symm⟩
        rw [gap, List.replicate_succ, List.cons_append, List.head?_cons] at first
        exact (Option.some_inj.mp first).symm
  · rw [split, paramText, paramText, List.flatMap_append, List.flatMap_cons]
    simp only [ParamItem.text, List.append_assoc, List.cons_append]

/-- Unless the name leads to an `=` in front, it leads to the one of its item. -/
theorem paramStart_own {front rest : List UInt8} (spelled : param.chars = front ++ (name.chars ++ 61 :: rest))
    (identifier : IsIdentifier name.chars) (unredirected : ¬ FoundIn name.chars param.chars front) :
    paramStart name.chars param.chars = some rest := by
  have occurs : name.chars <+: param.chars.drop front.length := by
    rw [spelled, List.drop_left]
    exact List.prefix_append _ _
  rcases firstOccurrence_le occurs with ⟨found, first, before⟩
  have clear : 61 ∉ front.drop found ++ name.chars := by
    rw [List.mem_append, not_or]
    exact ⟨fun member => unredirected ⟨found, first, member⟩, identifier.ne (by decide)⟩
  have behind : param.chars.drop found = (front.drop found ++ name.chars) ++ 61 :: rest := by
    rw [spelled, List.drop_append_of_le_length before, List.append_assoc]
  rw [paramStart, first, Option.bind_some, behind, firstOccurrence_char clear, Option.map_some,
    ← List.drop_drop, List.drop_left]
  rfl

/-- The answers are right for exactly the names that are not redirected. -/
theorem params_answer_iff (wellFormed : WellFormed params) (spelled : param.chars = paramText lead params)
    (name : CString) : Answers params name param ↔ Unredirected lead params name param := by
  have nulFree : ∀ item ∈ params, (0 : UInt8) ∉ item.1.value.chars := by
    intro item listed member
    rcases List.mem_iff_append.mp listed with ⟨earlier, later, split⟩
    rcases paramText_split lead wellFormed split with ⟨rest, _, whole⟩
    apply param.nulFree
    rw [spelled, whole]
    simp only [List.mem_append, List.mem_cons]
    exact Or.inr (Or.inr (Or.inr (Or.inl (item.1.value.chars_subset member))))
  have absent_iff : Missing name param ↔ ¬ FoundIn name.chars param.chars param.chars :=
    missing_iff.trans paramStart_eq_none_iff
  constructor
  · intro answers
    refine ⟨?_, fun unbound => absent_iff.mp (answers.unbound unbound)⟩
    intro earlier item later split own _ start found
    have listed : item ∈ params := by
      rw [split]
      exact List.mem_append_right _ List.mem_cons_self
    rcases (returns_iff _ (nulFree item listed)).mp (answers.bound item listed own) with ⟨other, same, reads⟩
    rw [Option.mem_def.mp found] at same
    cases same
    exact reads
  · intro unredirected
    refine ⟨?_, fun unbound => absent_iff.mpr (unredirected.unbound unbound)⟩
    intro item listed own
    rw [returns_iff _ (nulFree item listed)]
    rcases List.mem_iff_append.mp listed with ⟨earlier, later, split⟩
    rcases paramText_split lead wellFormed split with ⟨rest, separated, whole⟩
    rw [own, ← spelled] at whole
    by_cases foreign : FoundIn name.chars param.chars (paramText lead earlier)
    · have anywhere : FoundIn name.chars param.chars param.chars := by
        rcases foreign with ⟨found, first, inFront⟩
        refine ⟨found, first, ?_⟩
        rw [whole, List.drop_append]
        exact List.mem_append_left _ inFront
      cases found : paramStart name.chars param.chars with
      | none => exact absurd anywhere (paramStart_eq_none_iff.mp found)
      | some start => exact ⟨start, rfl, unredirected.bound earlier item later split own foreign start found⟩
    · refine ⟨_, paramStart_own whole (own ▸ wellFormed.names item listed) foreign, ?_⟩
      exact readsAs_text (wellFormed.values item listed) separated

end Items

private theorem letter_nulFree : (0 : UInt8) ∉ ascii "a" := by decide

private def letter : CString := ⟨ascii "a", letter_nulFree⟩

/-- Two parameters, of which one name is part of the other. -/
private def twoParams (first second : String) : List (ParamItem × Nat) :=
  [(⟨ascii first, .int false (ascii "1")⟩, 1), (⟨ascii second, .int false (ascii "2")⟩, 0)]

private theorem shortFirst_nulFree : (0 : UInt8) ∉ ascii "a=1 xa=2" := by decide

private theorem longFirst_nulFree : (0 : UInt8) ∉ ascii "xa=1 a=2" := by decide

theorem params_answer_iff_first :
    Answers (twoParams "a" "xa") letter ⟨ascii "a=1 xa=2", shortFirst_nulFree⟩ := by
  have wellFormed : WellFormed (twoParams "a" "xa") := ⟨by decide +kernel, by decide +kernel, by decide, by decide⟩
  have spelled : ascii "a=1 xa=2" = paramText 0 (twoParams "a" "xa") := by decide
  refine (params_answer_iff wellFormed spelled letter).mpr ⟨?_, ?_⟩
  · intro earlier item later split own
    cases earlier with
    | nil =>
        rintro ⟨found, _, member⟩
        cases List.mem_of_mem_drop member
    | cons first earlier =>
        -- the second name is another one
        have member : item ∈ (twoParams "a" "xa").tail := by
          rw [split]
          exact List.mem_append_right earlier List.mem_cons_self
        have other : ∀ item ∈ (twoParams "a" "xa").tail, item.1.name ≠ letter.chars := by decide
        exact absurd own (other item member)
  · intro unbound
    exact absurd rfl (unbound _ List.mem_cons_self)

/-- The name is found in the longer one in front of it. -/
theorem longerParam_answers : ¬ ∀ (lead : Nat) (params : List (ParamItem × Nat)) (param name : CString),
    WellFormed params -> param.chars = paramText lead params -> Answers params name param := by
  intro always
  have answers := always 0 (twoParams "xa" "a") ⟨ascii "xa=1 a=2", longFirst_nulFree⟩ letter
    ⟨by decide +kernel, by decide +kernel, by decide, by decide⟩ (by decide)
  have listed : (⟨ascii "a", .int false (ascii "2")⟩, 0) ∈ twoParams "xa" "a" := by decide
  rcases (answers.bound _ listed rfl).int 2 rfl 0 with ⟨read, returned, two⟩
  have one : paramGetInt letter 0 (some ⟨ascii "xa=1 a=2", longFirst_nulFree⟩) = (0, 1) := by decide +kernel
  rw [one] at returned
  rw [← (Prod.mk.inj returned).2] at two
  revert two
  decide

end Modules
end Extlib
