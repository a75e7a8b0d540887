import Extlib.Json.Values

namespace Extlib
namespace Json

open Text

/-!
# Strings between quotes

A string has to begin with a quote and to have the same quote as its last
character.  Neither is compared with the quotes in between, a blank, a comma or
a closing brace ends the value even there, and one quote alone is both.
-/

/-- A value that begins and ends with the same quote, which may be one and the
same.  `inner` is what follows the first. -/
structure StringAt (walkIdx : List UInt8) (q : UInt8) (inner rest : List UInt8) : Prop where
  start : walkIdx.dropWhile isGap = q :: inner ++ rest
  quote : q = 39 ∨ q = 34
  last : (q :: inner).getLast? = some q
  inside : ∀ c ∈ inner, stringChar c = true
  closes : Closes rest

section Strings

variable {jo : JsonObject} {walkIdx inner rest : List UInt8} {q : UInt8} {value : List UInt8}

theorem stringChar_quote (quote : q = 39 ∨ q = 34) : stringChar q = true := by
  rcases quote with rfl | rfl <;> decide

/-- Where a string value begins decides where it ends. -/
theorem StringAt.unique (string : StringAt walkIdx q inner rest) {other : UInt8} {inner' rest' : List UInt8}
    (string' : StringAt walkIdx other inner' rest') : other = q ∧ inner' = inner ∧ rest' = rest := by
  have shape := string'.start
  rw [string.start, List.cons_append, List.cons_append] at shape
  rcases List.cons.inj shape with ⟨same, split⟩
  have run : inner = inner' := by
    have taken := congrArg (List.takeWhile stringChar) split
    rw [List.takeWhile_append_of_pos string.inside, List.takeWhile_append_of_pos string'.inside,
      string.closes.takeWhile_stringChar, string'.closes.takeWhile_stringChar, List.append_nil,
      List.append_nil] at taken
    exact taken
  subst run
  exact ⟨same.symm, rfl, (List.append_cancel_left split).symm⟩

/-- Behind its first quote there is nothing, or another quote at the end. -/
theorem StringAt.inner_cases (string : StringAt walkIdx q inner rest) : inner = [] ∨ ∃ body, inner = body ++ [q] := by
  cases inner with
  | nil => exact Or.inl rfl
  | cons next others =>
      have last := string.last
      rw [List.getLast?_cons_cons, List.getLast?_eq_some_iff] at last
      exact Or.inr last

private theorem getElem?_last (word rest : List UInt8) (nonempty : word ≠ []) :
    (word ++ rest)[word.length - 1]? = word.getLast? := by
  have inside := List.length_pos_iff.mpr nonempty
  rw [List.getElem?_append_left (by omega), List.getLast?_eq_getElem?]

theorem getStringAt_copies (string : StringAt walkIdx q inner rest) :
    getStringAt jo walkIdx value = copyString jo value (inner.length + 1) (inner ++ rest) := by
  have plain : ∀ c ∈ q :: inner, stringChar c = true := by
    intro c member
    rcases List.mem_cons.mp member with rfl | later
    · exact stringChar_quote string.quote
    · exact string.inside c later
  have scans := valueScan_word ends_stringChar plain string.closes 0
  have printable : isPrint q = true := by
    rcases string.quote with rfl | rfl <;> decide
  have last := (getElem?_last (q :: inner) rest (List.cons_ne_nil _ _)).trans string.last
  rw [getStringAt, string.start]
  rw [List.cons_append] at scans last ⊢
  dsimp only
  rw [if_neg (not_not.mpr printable), scans]
  dsimp only
  rw [Nat.zero_add, if_neg, List.length_cons]
  rintro (other | different)
  · rcases string.quote with rfl | rfl
    · exact other.1 rfl
    · exact other.2 rfl
  · exact different last

theorem getStringAt_fails (none : ¬ ∃ q inner rest, StringAt walkIdx q inner rest) :
    ∃ errno, getStringAt jo walkIdx value = .returned (-1) errno value := by
  unfold getStringAt
  split
  case h_1 => exact ⟨_, rfl⟩
  case h_2 c str start =>
    split
    case isTrue => exact ⟨_, rfl⟩
    case isFalse =>
      split
      case h_1 => exact ⟨_, rfl⟩
      case h_2 count scans =>
        split
        case isTrue => exact ⟨_, rfl⟩
        case isFalse quoted =>
          rcases not_or.mp quoted with ⟨quote, last⟩
          have isQuote : c = 39 ∨ c = 34 := by
            rw [not_and_or, not_not, not_not] at quote
            exact quote
          rcases valueScan_ok scans with ⟨word, rest, split, inside, closes, rfl⟩
          cases word with
          | nil =>
              rw [List.nil_append] at split
              rw [← split] at closes
              -- a quote closes nothing
              rcases isQuote with rfl | rfl
              · exact absurd closes (by rw [closes_cons (by decide)]; decide)
              · exact absurd closes (by rw [closes_cons (by decide)]; decide)
          | cons first inner =>
              have same := (List.cons.inj split).1
              subst same
              refine absurd ⟨c, inner, rest, start.trans split, isQuote, ?_, ?_, closes⟩ none
              · rw [split, Nat.zero_add, getElem?_last _ _ (List.cons_ne_nil _ _), not_not] at last
                exact last
              · exact fun other member => inside other (List.mem_cons_of_mem _ member)

/-- A string between two quotes is copied up to the size of the buffer. -/
theorem copyString_closed (body : List UInt8) (sized : value ≠ []) :
    copyString jo value (body.length + 2) (body ++ q :: rest) =
      .returned 0 jo.errno
        (body.take (value.length - 1) ++ 0 :: value.drop (min body.length (value.length - 1) + 1)) := by
  have positive := List.length_pos_iff.mpr sized
  have count : cpyCnt (body.length + 2) value.length = min body.length (value.length - 1) := by
    rw [cpyCnt, if_neg (by omega), Nat.add_sub_cancel]
  have copied : (body ++ q :: rest ++ [0]).take (min body.length (value.length - 1)) =
      body.take (value.length - 1) := by
    rw [List.append_assoc, List.take_append_of_le_length (Nat.min_le_left _ _), List.take_eq_take_iff]
    omega
  unfold copyString
  rw [count, if_neg, copied]
  simp only [List.length_append, List.length_cons]
  omega

/-- Behind a quote alone the buffer is filled. -/
theorem copyString_lone (sized : value ≠ []) :
    copyString jo value 1 rest =
      if rest.length + 1 < value.length - 1 then .overrun
      else .returned 0 jo.errno ((rest ++ [0]).take (value.length - 1) ++ [0]) := by
  have positive := List.length_pos_iff.mpr sized
  have count : cpyCnt 1 value.length = value.length - 1 := if_pos (by decide)
  have fills : value.drop (value.length - 1 + 1) = [] := List.drop_eq_nil_of_le (by omega)
  unfold copyString
  rw [count]
  dsimp only
  rw [fills]
  by_cases short : rest.length + 1 < value.length - 1
  · rw [if_pos short, if_pos (Or.inl short)]
  · rw [if_neg short, if_neg]
    omega

/-- What closes a text also closes a longer one, unless blanks were all that
was there. -/
theorem closes_append_iff {str behind : List UInt8} (stops : ∀ c ∈ behind.head?, c ≠ 32 ∧ c ≠ 44 ∧ c ≠ 125) :
    Closes (str ++ behind) ↔ Closes str := by
  induction str with
  | nil =>
      rw [List.nil_append]
      refine iff_of_false ?_ not_closes_nil
      cases behind with
      | nil => exact not_closes_nil
      | cons c behind =>
          rcases stops c rfl with ⟨blank, comma, brace⟩
          rw [closes_cons blank]
          exact fun close => close.elim comma brace
  | cons c str inductionHypothesis =>
      rw [List.cons_append]
      by_cases blank : c = 32
      · rw [blank, closes_blank, closes_blank, inductionHypothesis]
      · rw [closes_cons blank, closes_cons blank]

/-- Characters between two quotes, and what closes the value. -/
structure Delimited (walkIdx : List UInt8) (q : UInt8) (s rest : List UInt8) : Prop where
  start : walkIdx.dropWhile isGap = q :: (s ++ q :: rest)
  quote : q = 39 ∨ q = 34
  unquoted : q ∉ s
  closes : Closes rest

/-- A string of printable characters between two quotes. -/
structure QuotedAt (walkIdx : List UInt8) (q : UInt8) (s rest : List UInt8) : Prop
    extends Delimited walkIdx q s rest where
  printable : ∀ c ∈ s, isPrint c = true

/-- The string is stored as far as it fits, with a NUL behind it. -/
def StoresString (jo : JsonObject) (path : CString) (value s : List UInt8) : Prop :=
  ∃ errno stored, jsonGetString jo path value = .returned 0 errno stored ∧
    s.take (value.length - 1) ++ [0] <+: stored

section Verbatim

variable {s : List UInt8}

/-- The two ways to read a quoted value: up to its closing quote, or the
opening quote alone. -/
theorem Delimited.stringAt_iff (quoted : Delimited walkIdx q s rest) {first : UInt8} {behind : List UInt8} :
    StringAt walkIdx first inner behind ↔
      first = q ∧ ((∀ c ∈ s, stringChar c = true) ∧ inner = s ++ [q] ∧ behind = rest ∨
        Closes s ∧ inner = [] ∧ behind = s ++ q :: rest) := by
  have stops : ∀ c ∈ (q :: rest).head?, c ≠ 32 ∧ c ≠ 44 ∧ c ≠ 125 := by
    rintro c ⟨⟩
    rcases quoted.quote with rfl | rfl <;> decide
  constructor
  · intro string
    have shape := string.start
    rw [quoted.start, List.cons_append] at shape
    rcases List.cons.inj shape with ⟨rfl, split⟩
    refine ⟨rfl, ?_⟩
    cases inner with
    | nil =>
        refine Or.inr ⟨?_, rfl, split.symm⟩
        rw [← closes_append_iff stops]
        rw [List.nil_append] at split
        rw [split]
        exact string.closes
    | cons next others =>
        have last := string.last
        rw [List.getLast?_cons_cons] at last
        have ended : q ∈ next :: others := List.mem_of_getLast? last
        rcases List.append_eq_append_iff.mp split with ⟨more, whole, tail⟩ | ⟨more, whole, _⟩
        · cases more with
          | nil =>
              rw [List.append_nil] at whole
              exact absurd (whole ▸ ended) quoted.unquoted
          | cons c more =>
              rcases List.cons.inj tail with ⟨rfl, after⟩
              cases more with
              | nil =>
                  refine Or.inl ⟨?_, whole, after.symm⟩
                  intro c member
                  exact string.inside c (whole ▸ List.mem_append_left _ member)
              | cons c more =>
                  -- the value goes on where the text closes
                  have inside : c ∈ next :: others :=
                    whole ▸ List.mem_append_right _ (List.mem_cons_of_mem _ List.mem_cons_self)
                  have plain := string.inside c inside
                  have close := quoted.closes.head c (by rw [after]; rfl)
                  rw [close] at plain
                  cases plain
        · exact absurd (whole ▸ List.mem_append_left _ ended) quoted.unquoted
  · rintro ⟨rfl, ⟨plain, rfl, rfl⟩ | ⟨closes, rfl, rfl⟩⟩
    · refine ⟨?_, quoted.quote, ?_, ?_, quoted.closes⟩
      · rw [quoted.start, List.cons_append, List.append_assoc, List.singleton_append]
      · rw [← List.cons_append, List.getLast?_concat]
      · intro c member
        rcases List.mem_append.mp member with inside | last
        · exact plain c inside
        · rw [List.mem_singleton.mp last]
          exact stringChar_quote quoted.quote
    · exact ⟨quoted.start, quoted.quote, rfl, fun _ member => absurd member List.not_mem_nil,
        (closes_append_iff stops).mpr closes⟩

/-- What has no blank, comma or closing brace in it is copied as far as it
fits. -/
theorem Delimited.copies (quoted : Delimited walkIdx q s rest) (plain : ∀ c ∈ s, stringChar c = true)
    (sized : value ≠ []) :
    getStringAt jo walkIdx value =
      .returned 0 jo.errno (s.take (value.length - 1) ++ 0 :: value.drop (min s.length (value.length - 1) + 1)) := by
  have string : StringAt walkIdx q (s ++ [q]) rest := quoted.stringAt_iff.mpr ⟨rfl, Or.inl ⟨plain, rfl, rfl⟩⟩
  rw [getStringAt_copies string, List.length_append, List.append_assoc]
  exact copyString_closed s sized

/-- A quoted value is stored as it is exactly when it does not run past a
blank, a comma or a closing brace, or when it begins with what closes a value
and is at least as long as the buffer. -/
theorem jsonGetString_verbatim_iff {path : CString}
    (found : jsonWalk (path.length + 1) jo.raw.chars path.chars = .found walkIdx) (quoted : QuotedAt walkIdx q s rest)
    (sized : value ≠ []) :
    StoresString jo path value s ↔
      (∀ c ∈ s, stringChar c = true) ∨ Closes s ∧ value.length - 1 ≤ s.length := by
  unfold StoresString
  rw [jsonGetString_found found]
  constructor
  · rintro ⟨errno, stored, returned, begins⟩
    by_cases string : ∃ first inner behind, StringAt walkIdx first inner behind
    · rcases string with ⟨first, inner, behind, string⟩
      rcases quoted.stringAt_iff.mp string with ⟨rfl, ⟨plain, _⟩ | ⟨closes, rfl, rfl⟩⟩
      · exact Or.inl plain
      · refine Or.inr ⟨closes, ?_⟩
        rw [getStringAt_copies string, List.length_nil, List.nil_append, copyString_lone sized] at returned
        split at returned
        case isTrue => cases returned
        case isFalse =>
          cases returned
          by_contra short
          -- the quote behind the string is copied with it
          obtain ⟨more, longer⟩ : ∃ more, value.length - 1 = s.length + (more + 1) :=
            ⟨value.length - 1 - s.length - 1, by omega⟩
          rw [longer, List.take_of_length_le (by omega), List.append_assoc, List.take_length_add_append,
            List.append_assoc, List.prefix_append_right_inj, List.cons_append, List.take_succ_cons,
            List.cons_append, List.cons_prefix_cons] at begins
          rcases quoted.quote with rfl | rfl
          · exact absurd begins.1 (by decide)
          · exact absurd begins.1 (by decide)
    · rcases getStringAt_fails string with ⟨errno, failed⟩
      rw [failed] at returned
      cases returned
  · rintro (plain | ⟨closes, fits⟩)
    · exact ⟨_, _, quoted.copies plain sized, ⟨_, List.append_assoc _ _ _⟩⟩
    · have string : StringAt walkIdx q [] (s ++ q :: rest) := quoted.stringAt_iff.mpr ⟨rfl, Or.inr ⟨closes, rfl, rfl⟩⟩
      refine ⟨jo.errno, s.take (value.length - 1) ++ [0], ?_, List.prefix_refl _⟩
      have copied : (s ++ q :: rest ++ [0]).take (value.length - 1) = s.take (value.length - 1) := by
        rw [List.append_assoc, List.take_append_of_le_length fits]
      rw [getStringAt_copies string, List.length_nil, List.nil_append, copyString_lone sized, if_neg, copied]
      rw [List.length_append]
      omega

end Verbatim

private theorem namePath_nulFree : (0 : UInt8) ∉ ascii "/a" := by decide

private def namePath : CString := ⟨ascii "/a", namePath_nulFree⟩

private theorem word_nulFree : (0 : UInt8) ∉ braced "a: 'yon'" := by decide

private theorem twoWords_nulFree : (0 : UInt8) ∉ braced "a: 'hello world'" := by decide

theorem jsonGetString_verbatim_iff_word :
    StoresString (jsonObjectNew ⟨braced "a: 'yon'", word_nulFree⟩) namePath (List.replicate 8 0) (ascii "yon") :=
  (@jsonGetString_verbatim_iff _ (ascii ": 'yon'" ++ [125]) [125] 39 _ (ascii "yon") namePath (by decide +kernel)
    ⟨⟨by decide, by decide, by decide, by decide⟩, by decide +kernel⟩ (by decide)).mpr (by decide +kernel)

/-- A string with a blank in it is refused. -/
theorem twoWords_refused : ¬ ∀ (jo : JsonObject) (path : CString) (walkIdx s rest value : List UInt8) (q : UInt8),
    jsonWalk (path.length + 1) jo.raw.chars path.chars = .found walkIdx -> QuotedAt walkIdx q s rest ->
      value ≠ [] -> StoresString jo path value s := by
  intro always
  rcases always (jsonObjectNew ⟨braced "a: 'hello world'", twoWords_nulFree⟩) namePath
    (ascii ": 'hello world'" ++ [125]) (ascii "hello world") [125] (List.replicate 16 0) 39 (by decide +kernel)
    ⟨⟨by decide, by decide, by decide, by decide⟩, by decide +kernel⟩ (by decide) with ⟨errno, stored, returned, _⟩
  have refused : jsonGetString (jsonObjectNew ⟨braced "a: 'hello world'", twoWords_nulFree⟩) namePath
      (List.replicate 16 0) = .returned (-1) .type (List.replicate 16 0) := by decide +kernel
  rw [refused] at returned
  cases returned

/-! ## What is copied -/

/-- A prefix of what stands between two quotes of a kind. -/
def BetweenQuotes (raw chars : List UInt8) : Prop :=
  ∃ before inner behind, ∃ q : UInt8, (q = 39 ∨ q = 34) ∧ raw = before ++ q :: (inner ++ q :: behind) ∧ chars <+: inner

/-- A string from between two quotes of the text is stored, or the buffer is
left as it is. -/
def SoundOutcome (raw value : List UInt8) (outcome : JsonOutcome (List UInt8)) : Prop :=
  ∃ rc errno after, outcome = .returned rc errno after ∧
    (rc = 0 ∧ 0 ∈ after ∧ (CString.ofMemory after).length ≤ value.length - 1 ∧
        BetweenQuotes raw (CString.ofMemory after).chars ∨
      rc = -1 ∧ after = value)

def ReadsSoundly (jo : JsonObject) (path : CString) (value : List UInt8) : Prop :=
  SoundOutcome jo.raw.chars value (jsonGetString jo path value)

section Copies

variable {raw : List UInt8}

theorem soundOutcome_failed (errno : JsonErr) : SoundOutcome raw value (.returned (-1) errno value) :=
  ⟨_, _, _, rfl, Or.inr ⟨rfl, rfl⟩⟩

/-- The string in a buffer that has been filled. -/
private theorem ofMemory_filled (nulFree : 0 ∉ rest) {size : Nat} :
    (CString.ofMemory ((rest ++ [0]).take size ++ [0])).chars = rest.take size := by
  have taken : 0 ∉ rest.take size := fun member => nulFree (List.mem_of_mem_take member)
  rcases Nat.lt_or_ge rest.length size with longer | shorter
  · have whole : (rest ++ [0]).take size ++ [0] = rest.take size ++ 0 :: [0] := by
      rw [List.take_of_length_le (by rw [List.length_append]; exact longer),
        List.take_of_length_le (Nat.le_of_lt longer), List.append_assoc]
      rfl
    rw [whole, CString.ofMemory_terminated _ _ taken]
  · rw [List.take_append_of_le_length shorter, CString.ofMemory_terminated _ _ taken]

/-- What stands between two quotes is copied soundly. -/
theorem soundOutcome_closed {body : List UInt8} (quote : q = 39 ∨ q = 34) (inside : q :: (body ++ q :: rest) <:+ raw)
    (nulFree : 0 ∉ raw) (sized : value ≠ []) :
    SoundOutcome raw value (copyString jo value (body.length + 2) (body ++ q :: rest)) := by
  have taken : 0 ∉ body.take (value.length - 1) := fun member =>
    nulFree (inside.subset (List.mem_cons_of_mem _ (List.mem_append_left _ (List.mem_of_mem_take member))))
  rcases inside with ⟨before, whole⟩
  refine ⟨_, _, _, copyString_closed body sized, Or.inl ⟨rfl, ?_, ?_, ?_⟩⟩
  · exact List.mem_append_right _ List.mem_cons_self
  · rw [CString.ofMemory_terminated _ _ taken]
    exact List.length_take_le _ _
  · rw [CString.ofMemory_terminated _ _ taken]
    exact ⟨before, body, rest, q, quote, whole.symm, List.take_prefix _ _⟩

/-- What follows a quote alone is copied soundly only by coincidence. -/
theorem soundOutcome_lone_iff (nulFree : 0 ∉ rest) (sized : value ≠ []) :
    SoundOutcome raw value (copyString jo value 1 rest) ↔
      value.length - 1 ≤ rest.length + 1 ∧ BetweenQuotes raw (rest.take (value.length - 1)) := by
  rw [copyString_lone sized]
  constructor
  · rintro ⟨rc, errno, after, returned, sound⟩
    split at returned
    case isTrue => cases returned
    case isFalse fits =>
      cases returned
      rcases sound with ⟨_, _, _, between⟩ | ⟨failed, _⟩
      · rw [ofMemory_filled nulFree] at between
        exact ⟨Nat.not_lt.mp fits, between⟩
      · cases failed
  · rintro ⟨fits, between⟩
    rw [if_neg (Nat.not_lt.mpr fits)]
    refine ⟨_, _, _, rfl, Or.inl ⟨rfl, List.mem_append_right _ List.mem_cons_self, ?_, ?_⟩⟩
    · rw [CString.length, ofMemory_filled nulFree]
      exact List.length_take_le _ _
    · rw [ofMemory_filled nulFree]
      exact between

/-- Where a walk has ended, the call is sound unless one quote alone stands
there. -/
theorem soundOutcome_getStringAt_iff (inside : walkIdx.dropWhile isGap <:+ raw) (nulFree : 0 ∉ raw) (sized : value ≠ []) :
    SoundOutcome raw value (getStringAt jo walkIdx value) ↔
      ∀ rest q, StringAt walkIdx q [] rest ->
        value.length - 1 ≤ rest.length + 1 ∧ BetweenQuotes raw (rest.take (value.length - 1)) := by
  by_cases string : ∃ q inner rest, StringAt walkIdx q inner rest
  case neg =>
    rcases getStringAt_fails string with ⟨errno, failed⟩
    rw [failed]
    refine iff_of_true (soundOutcome_failed errno) ?_
    exact fun rest q lone => absurd ⟨q, [], rest, lone⟩ string
  case pos =>
    rcases string with ⟨q, inner, rest, string⟩
    rw [getStringAt_copies string]
    rw [string.start] at inside
    rcases string.inner_cases with rfl | ⟨body, rfl⟩
    · have behind : 0 ∉ rest := fun member => nulFree (inside.subset (List.mem_append_right _ member))
      rw [List.length_nil, List.nil_append, soundOutcome_lone_iff behind sized]
      constructor
      · intro sound rest' q' lone
        rcases string.unique lone with ⟨rfl, _, rfl⟩
        exact sound
      · exact fun every => every rest q string
    · rw [List.cons_append, List.append_assoc] at inside
      rw [List.length_append, List.append_assoc]
      refine iff_of_true (soundOutcome_closed string.quote inside nulFree sized) ?_
      exact fun rest' q' lone => absurd (string.unique lone).2.1.symm (by simp)

end Copies

/-- Every string copied stands between two quotes exactly when the keys do not
find one quote alone, or the buffer ends with the text at the latest and what
it takes happens to stand between two quotes elsewhere. -/
theorem jsonGetString_sound_iff {path : CString} {keys : List (List UInt8)} (spelled : path.chars = pathText keys)
    (valid : PathKeys keys) (sized : value ≠ []) :
    ReadsSoundly jo path value ↔
      ∀ walkIdx rest q, Finds jo.raw.chars keys walkIdx -> StringAt walkIdx q [] rest ->
        value.length - 1 ≤ rest.length + 1 ∧ BetweenQuotes jo.raw.chars (rest.take (value.length - 1)) := by
  have walks := @jsonWalk_path jo path keys spelled valid
  have finds_iff := fun walkIdx => @walkKeys_finds_iff keys walkIdx (fun key listed => (valid.2 key listed).1) jo.raw.chars
  unfold ReadsSoundly
  cases walk : walkKeys jo.raw.chars keys with
  | aborted => exact absurd walk (walkKeys_not_aborted valid.1)
  | failed errno =>
      rw [walk] at walks
      rw [jsonGetString, afterWalk, walks]
      refine iff_of_true (soundOutcome_failed errno) ?_
      intro walkIdx rest q finds
      have found := (finds_iff walkIdx).mpr finds
      rw [walk] at found
      cases found
  | found walkIdx =>
      rw [walk] at walks
      have inside := (List.dropWhile_suffix isGap).trans (walkKeys_suffix walk)
      rw [jsonGetString_found walks, soundOutcome_getStringAt_iff inside jo.raw.nulFree sized]
      constructor
      · intro every other rest q finds lone
        have again := (finds_iff other).mpr finds
        rw [walk] at again
        cases again
        exact every rest q lone
      · exact fun every rest q lone => every walkIdx rest q ((finds_iff walkIdx).mp walk) lone

private theorem loneQuote_nulFree : (0 : UInt8) ∉ braced "a: '" := by decide

theorem jsonGetString_sound_iff_word :
    ReadsSoundly (jsonObjectNew ⟨braced "a: 'yon'", word_nulFree⟩) namePath (List.replicate 3 0) := by
  refine (@jsonGetString_sound_iff _ _ namePath [ascii "a"] (by decide) ⟨by decide, by decide⟩ (by decide)).mpr ?_
  have walk : walkKeys (braced "a: 'yon'") [ascii "a"] = .found (ascii ": 'yon'" ++ [125]) := by decide +kernel
  have string : StringAt (ascii ": 'yon'" ++ [125]) 39 (ascii "yon'") [125] :=
    ⟨by decide, by decide, by decide, by decide +kernel, by decide⟩
  intro walkIdx rest q finds lone
  have found := (walkKeys_finds_iff (by decide)).mpr finds
  cases walk.symm.trans found
  exact absurd (string.unique lone).2.1 (by decide)

/-- One quote alone is taken for both, and what follows it is copied. -/
theorem loneQuote_copied : ¬ ∀ (jo : JsonObject) (path : CString) (value : List UInt8) (keys : List (List UInt8)),
    path.chars = pathText keys -> PathKeys keys -> value ≠ [] -> ReadsSoundly jo path value := by
  intro always
  rcases always (jsonObjectNew ⟨braced "a: '", loneQuote_nulFree⟩) namePath [0, 0] [ascii "a"] (by decide)
    ⟨by decide, by decide⟩ (by decide) with ⟨rc, errno, after, returned, sound⟩
  have copied : jsonGetString (jsonObjectNew ⟨braced "a: '", loneQuote_nulFree⟩) namePath [0, 0] =
      .returned 0 .ok [125, 0] := by decide +kernel
  rw [copied] at returned
  cases returned
  rcases sound with ⟨_, _, _, before, inner, behind, q, quote, raw, _⟩ | ⟨failed, _⟩
  · have two : 2 ≤ (braced "a: '").count q := by
      have counted := congrArg (List.count q) raw
      rw [List.count_append, List.count_cons_self, List.count_append, List.count_cons_self] at counted
      change (braced "a: '").count q = _ at counted
      omega
    rcases quote with rfl | rfl
    · exact absurd two (by decide)
    · exact absurd two (by decide)
  · cases failed

end Strings

end Json
end Extlib
