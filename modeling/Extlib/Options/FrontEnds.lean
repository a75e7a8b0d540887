import Mathlib.Algebra.Order.BigOperators.Group.List
import Mathlib.Data.List.Find
import Extlib.Machine.Loop
import Extlib.Options.Table

namespace Extlib
namespace Options

open Text Machine

/-!
# The command line and the configuration file

A list of settings can be written as arguments or as lines.  Both front ends
come down to the same thing: for one setting after the other, the entry with
those names takes the value.  `assign` is that one step; each front end is
shown to take it.
-/

/-- An option and the value it is given, if it takes one. -/
structure Setting where
  opt : Opt
  value : Option CString

/-- What a flag is given in the file. -/
def flagText : CString := CString.ofMemory (ascii "true" ++ [0])

namespace Setting

/-- `-x`, the short name without its colon. -/
def shortArg (setting : Setting) : CString := setting.opt.optshort.slice 0 2

/-- As arguments: `-x value` or `-x`. -/
def args (setting : Setting) : List CString := setting.shortArg :: setting.value.toList

/-- The value as it stands in the file. -/
def text (setting : Setting) : CString := setting.value.getD flagText

/-- As a line: `key: value` or `key: true`. -/
def line (setting : Setting) : CString where
  chars := setting.opt.key.chars ++ ascii ": " ++ setting.text.chars ++ [10]
  nulFree := by
    simp only [List.mem_append, not_or]
    exact ⟨⟨⟨setting.opt.key.nulFree, by decide⟩, setting.text.nulFree⟩, by decide⟩

theorem line_chars (setting : Setting) :
    setting.line.chars = setting.opt.key.chars ++ 58 :: 32 :: (setting.text.chars ++ [10]) := by
  have colon : ascii ": " = [58, 32] := by decide
  simp only [line, colon, List.append_assoc, List.cons_append, List.nil_append]

/-- What a setting has to be so that it can be written both ways: an option of
the table, with a key that is no comment and can be told from the value, a
value exactly if the option takes one, and a line that fits the buffer. -/
structure Writable (opttab : List Opt) (setting : Setting) : Prop where
  listed : setting.opt ∈ opttab
  keyNonempty : setting.opt.key.chars ≠ []
  keyChars : (58 : UInt8) ∉ setting.opt.key.chars ∧ (13 : UInt8) ∉ setting.opt.key.chars ∧
    (10 : UInt8) ∉ setting.opt.key.chars
  keyStart : setting.opt.key.chars.head? ≠ some 35 ∧ ¬ [47, 47] <+: setting.opt.key.chars
  kind : match setting.value with
    | none => takesValue setting.opt = false ∧ setting.opt.type = .bool
    | some _ => takesValue setting.opt = true
  valueNonempty : ∀ value ∈ setting.value, value.chars ≠ []
  valueStart : ∀ value ∈ setting.value, ∀ c ∈ value.chars.head?, c ≠ 45 ∧ isSpace c = false
  valueChars : ∀ value ∈ setting.value, (13 : UInt8) ∉ value.chars ∧ (10 : UInt8) ∉ value.chars
  lineFits : setting.line.length < 1024

end Setting

/-- Every option has a single letter for its short name, with or without a
colon, and no two have the same letter, or keys that differ in case only. -/
structure SingleLetters (opttab : List Opt) : Prop where
  short : ∀ opt ∈ opttab, ∃ letter, opt.optshort.chars = [45, letter] ∨ opt.optshort.chars = [45, letter, 58]
  shortDistinct : (opttab.map fun opt => opt.optshort.chars.take 2).Nodup
  keysDistinct : (opttab.map fun opt => opt.key.chars.map toLower).Nodup

/-- The entry of the setting takes its value. -/
def assign (opttab : List Opt) (setting : Setting) : List Opt :=
  updateOpt (fun opt => opt.key = setting.opt.key) (optParseValue · setting.text) opttab

/-! ## The table through a run -/

/-- What no setting changes of an option: its names, and whether it is a flag. -/
def label (opt : Opt) : CString × CString × Bool := (opt.optshort, opt.key, opt.type = .bool)

theorem label_optParseValue (opt : Opt) (text : CString) : label (optParseValue opt text) = label opt := by
  unfold optParseValue
  split <;> simp_all [label]

/-- The table has still the names it began with. -/
def SameLabels (opttab current : List Opt) : Prop := current.map label = opttab.map label

theorem assign_labels {opttab current : List Opt} (labels : SameLabels opttab current) (setting : Setting) :
    SameLabels opttab (assign current setting) := by
  refine (map_modify label _ ?_ current _).trans labels
  exact fun opt => label_optParseValue opt setting.text

section Lookup

variable {opttab current : List Opt} {setting : Setting}

/-- An entry of the current table has the label of one of the first. -/
private theorem SameLabels.origin (labels : SameLabels opttab current) {opt : Opt} (listed : opt ∈ current) :
    ∃ old ∈ opttab, label old = label opt := by
  have labelled : label opt ∈ opttab.map label := by
    rw [← labels]
    exact List.mem_map.mpr ⟨opt, listed, rfl⟩
  exact List.mem_map.mp labelled

/-- The argument finds the entry that has the key of the setting, and no other. -/
theorem matchesShort_iff (names : SingleLetters opttab) (writable : setting.Writable opttab)
    (labels : SameLabels opttab current) {opt : Opt} (listed : opt ∈ current) :
    matchesShort setting.shortArg opt = decide (opt.key = setting.opt.key) := by
  rcases labels.origin listed with ⟨old, present, same⟩
  have optshort : old.optshort = opt.optshort := congrArg Prod.fst same
  have key : old.key = opt.key := congrArg (fun label => label.2.1) same
  have two : ∀ opt ∈ opttab, (opt.optshort.chars.take 2).length = 2 := by
    intro opt member
    rcases names.short opt member with ⟨letter, plain | colon⟩
    · rw [plain]
      rfl
    · rw [colon]
      rfl
  have prefixed : matchesShort setting.shortArg opt =
      decide (old.optshort.chars.take 2 = setting.opt.optshort.chars.take 2) := by
    have length := two setting.opt writable.listed
    rw [Bool.eq_iff_iff, decide_eq_true_eq]
    unfold matchesShort Setting.shortArg
    rw [List.isPrefixOf_iff_prefix, ← optshort, CString.slice_chars, List.drop_zero, List.prefix_iff_eq_take,
      length]
    exact eq_comm
  rw [prefixed, decide_eq_decide, ← key]
  constructor
  · intro letters
    rw [List.inj_on_of_nodup_map names.shortDistinct present writable.listed letters]
  · intro keys
    have lowered : old.key.chars.map toLower = setting.opt.key.chars.map toLower := by rw [keys]
    rw [List.inj_on_of_nodup_map names.keysDistinct present writable.listed lowered]

/-- So does the key. -/
theorem matchesKey_iff (names : SingleLetters opttab) (writable : setting.Writable opttab)
    (labels : SameLabels opttab current) {opt : Opt} (listed : opt ∈ current) :
    matchesKey setting.opt.key opt = decide (opt.key = setting.opt.key) := by
  rcases labels.origin listed with ⟨old, present, same⟩
  have key : old.key = opt.key := congrArg (fun label => label.2.1) same
  rw [Bool.eq_iff_iff, decide_eq_true_eq]
  unfold matchesKey sameIgnoringCase
  rw [decide_eq_true_eq, ← key]
  constructor
  · intro lowered
    rw [List.inj_on_of_nodup_map names.keysDistinct writable.listed present lowered]
  · intro keys
    rw [keys]

/-- The entry of the setting is there. -/
theorem findOpt_setting (names : SingleLetters opttab) (writable : setting.Writable opttab)
    (labels : SameLabels opttab current) :
    ∃ tmp, findOpt (fun opt => opt.key = setting.opt.key) current = some tmp ∧ label tmp = label setting.opt := by
  have labelled : label setting.opt ∈ current.map label := by
    rw [labels]
    exact List.mem_map.mpr ⟨setting.opt, writable.listed, rfl⟩
  rcases List.mem_map.mp labelled with ⟨entry, listed, same⟩
  have key : entry.key = setting.opt.key := congrArg (fun label => label.2.1) same
  obtain ⟨tmp, found⟩ : ∃ tmp, findOpt (fun opt => opt.key = setting.opt.key) current = some tmp := by
    apply Option.isSome_iff_exists.mp
    exact List.find?_isSome.mpr ⟨entry, listed, decide_eq_true key⟩
  refine ⟨tmp, found, ?_⟩
  have tmpKey : tmp.key = setting.opt.key := by simpa using List.find?_some found
  rcases labels.origin (List.mem_of_find?_eq_some found) with ⟨old, present, sameOld⟩
  have oldKey : old.key = tmp.key := congrArg (fun label => label.2.1) sameOld
  have lowered : old.key.chars.map toLower = setting.opt.key.chars.map toLower := by rw [oldKey, tmpKey]
  rw [← sameOld, List.inj_on_of_nodup_map names.keysDistinct present writable.listed lowered]

end Lookup

/-- Tests that agree on the table find the same entry, -/
private theorem findOpt_congr {matched other : Opt -> Bool} {opttab : List Opt}
    (agree : ∀ opt ∈ opttab, matched opt = other opt) : findOpt matched opttab = findOpt other opttab :=
  List.find?_congr agree

/-- and change the same entry. -/
private theorem updateOpt_congr {matched other : Opt -> Bool} (change : Opt -> Opt) {opttab : List Opt}
    (agree : ∀ opt ∈ opttab, matched opt = other opt) :
    updateOpt matched change opttab = updateOpt other change opttab := by
  have same : opttab.findIdx matched = opttab.findIdx other := by
    induction opttab with
    | nil => rfl
    | cons opt opttab inductionHypothesis =>
        rw [List.findIdx_cons, List.findIdx_cons, agree opt List.mem_cons_self,
          inductionHypothesis fun later member => agree later (List.mem_cons_of_mem _ member)]
  unfold updateOpt
  rw [same]

/-- An entry changed in two ways that agree on it ends up the same. -/
private theorem updateOpt_found {matched : Opt -> Bool} {change other : Opt -> Opt} {opttab : List Opt} {tmp : Opt}
    (found : findOpt matched opttab = some tmp) (agree : change tmp = other tmp) :
    updateOpt matched change opttab = updateOpt matched other opttab := by
  unfold updateOpt findOpt at *
  induction opttab with
  | nil => cases found
  | cons opt opttab inductionHypothesis =>
      rw [List.find?_cons] at found
      rw [List.findIdx_cons]
      cases here : matched opt with
      | true =>
          rw [here] at found
          cases found
          simp [agree]
      | false =>
          rw [here] at found
          simp [inductionHypothesis found]

/-! ## The two front ends -/

section FrontEnds

variable {opttab current : List Opt} {setting : Setting}

/-- Assigning the text `true` to a flag sets it. -/
private theorem optParseValue_flag {opt : Opt} (flag : opt.type = .bool) :
    optParseValue opt flagText = { opt with value := .b true } := by
  have converted : convertBool flagText = true := by decide
  unfold optParseValue
  rw [flag]
  dsimp only
  rw [converted]

/-- The arguments of a setting assign it. -/
theorem optInitArgs_setting (names : SingleLetters opttab) (writable : setting.Writable opttab)
    (labels : SameLabels opttab current) (indexArgs : Nat) (errmsg : CString) (argv : List CString) :
    optInitArgs current indexArgs errmsg (setting.args ++ argv) =
      optInitArgs (assign current setting) indexArgs errmsg argv := by
  have agree : ∀ opt ∈ current, matchesShort setting.shortArg opt = decide (opt.key = setting.opt.key) :=
    fun opt listed => matchesShort_iff names writable labels listed
  rcases findOpt_setting names writable labels with ⟨tmp, found, same⟩
  have short : findOpt (matchesShort setting.shortArg) current = some tmp := (findOpt_congr agree).trans found
  have dash : setting.shortArg.chars.head? = some 45 := by
    rcases names.short setting.opt writable.listed with ⟨letter, plain | colon⟩
    · rw [Setting.shortArg, CString.slice_chars, plain]
      rfl
    · rw [Setting.shortArg, CString.slice_chars, colon]
      rfl
  have optshort : tmp.optshort = setting.opt.optshort := congrArg Prod.fst same
  have takes : takesValue tmp = takesValue setting.opt := by
    unfold takesValue
    rw [optshort]
  have flag : decide (tmp.type = .bool) = decide (setting.opt.type = .bool) := congrArg (fun label => label.2.2) same
  have kind := writable.kind
  cases given : setting.value with
  | none =>
      rw [given] at kind
      have isFlag : tmp.type = .bool := by simpa [kind.2] using flag
      have args : setting.args = [setting.shortArg] := by rw [Setting.args, given, Option.toList_none]
      have text : setting.text = flagText := by rw [Setting.text, given, Option.getD_none]
      rw [args, List.singleton_append, optInitArgs.eq_def]
      dsimp only
      rw [if_pos dash, short]
      dsimp only
      rw [takes, kind.1, if_neg Bool.false_ne_true, if_neg (not_not.mpr isFlag), updateOpt_congr _ agree, assign,
        text]
      exact congrArg (fun table => optInitArgs table indexArgs errmsg argv)
        (updateOpt_found found (optParseValue_flag isFlag).symm)
  | some value =>
      rw [given] at kind
      have args : setting.args = [setting.shortArg, value] := by rw [Setting.args, given, Option.toList_some]
      have text : setting.text = value := by rw [Setting.text, given, Option.getD_some]
      have noDash : ¬ value.chars.head? = some 45 := by
        intro dashed
        exact (writable.valueStart value given 45 dashed).1 rfl
      rw [args, List.cons_append, List.singleton_append, optInitArgs.eq_def]
      dsimp only
      rw [if_pos dash, short]
      dsimp only
      rw [takes, kind, if_pos rfl, if_neg noDash, updateOpt_congr _ agree, assign, text]

/-- What is written behind the key can be read back. -/
private theorem Setting.Writable.text (writable : setting.Writable opttab) :
    setting.text.chars ≠ [] ∧ (∀ c ∈ setting.text.chars.head?, isSpace c = false) ∧
      (13 : UInt8) ∉ setting.text.chars ∧ (10 : UInt8) ∉ setting.text.chars := by
  cases given : setting.value with
  | none =>
      rw [Setting.text, given, Option.getD_none]
      decide +kernel
  | some value =>
      rw [Setting.text, given, Option.getD_some]
      have start : ∀ c ∈ value.chars.head?, isSpace c = false :=
        fun c first => (writable.valueStart value given c first).2
      exact ⟨writable.valueNonempty value given, start, writable.valueChars value given⟩

theorem isComment_line (writable : setting.Writable opttab) : isComment setting.line = false := by
  have keyStart := writable.keyStart
  have keyChars := writable.keyChars.1
  unfold isComment
  rw [setting.line_chars]
  cases shape : setting.opt.key.chars with
  | nil => exact absurd shape writable.keyNonempty
  | cons first rest =>
      rw [shape] at keyStart keyChars
      have noHash : first ≠ 35 := by simpa using keyStart.1
      cases rest with
      | nil => simp [noHash]
      | cons next rest =>
          have noSlashes : first = 47 -> ¬ next = 47 := by
            rintro rfl rfl
            apply keyStart.2
            exact ⟨rest, rfl⟩
          simpa [noHash] using noSlashes

theorem scanSetting_line (writable : setting.Writable opttab) :
    scanSetting setting.line = some (setting.opt.key, setting.text) := by
  rcases writable.text with ⟨nonempty, start, noReturn, noNewline⟩
  have fits : setting.opt.key.chars.length + 2 + setting.text.chars.length + 1 < 1024 := by
    have lineFits := writable.lineFits
    simp only [CString.length, setting.line_chars, List.length_append, List.length_cons, List.length_nil] at lineFits
    omega
  have key : scanUntil 1023 (· = 58) setting.line.chars =
      some (setting.opt.key, 58 :: 32 :: (setting.text.chars ++ [10])) := by
    rw [setting.line_chars]
    apply scanUntil_word writable.keyNonempty (by omega)
    · intro c member
      exact decide_eq_false fun colon => writable.keyChars.1 (colon ▸ member)
    · simp
  have skipped : (32 :: (setting.text.chars ++ [10])).dropWhile isSpace = setting.text.chars ++ [10] := by
    rw [List.dropWhile_cons_of_pos (by decide)]
    cases text : setting.text.chars with
    | nil => exact absurd text nonempty
    | cons first rest =>
        rw [text] at start
        exact List.dropWhile_cons_of_neg (by simp [start first rfl])
  have value : scanUntil 1023 (fun c => c = 13 ∨ c = 10) (setting.text.chars ++ [10]) =
      some (setting.text, [10]) := by
    apply scanUntil_word nonempty (by omega)
    · intro c member
      apply decide_eq_false
      rintro (rfl | rfl)
      · exact noReturn member
      · exact noNewline member
    · simp
  unfold scanSetting
  rw [key, Option.bind_some]
  change (scanUntil 1023 _ ((32 :: (setting.text.chars ++ [10])).dropWhile isSpace)).map _ = _
  rw [skipped, value, Option.map_some]

/-- The line of a setting assigns it. -/
theorem optInitLines_setting (names : SingleLetters opttab) (writable : setting.Writable opttab)
    (labels : SameLabels opttab current) (errmsg : CString) (lines : List CString) :
    optInitLines current errmsg (setting.line :: lines) =
      optInitLines (assign current setting) errmsg lines := by
  have agree : ∀ opt ∈ current, matchesKey setting.opt.key opt = decide (opt.key = setting.opt.key) :=
    fun opt listed => matchesKey_iff names writable labels listed
  rcases findOpt_setting names writable labels with ⟨tmp, found, _⟩
  rw [optInitLines, isComment_line writable, if_neg Bool.false_ne_true, scanSetting_line writable]
  dsimp only
  rw [findOpt_congr agree, found]
  dsimp only
  rw [updateOpt_congr _ agree, assign]

end FrontEnds

section Runs

variable {opttab : List Opt} {settings : List Setting}

theorem optInitArgs_settings (names : SingleLetters opttab) (indexArgs : Nat) (errmsg : CString)
    (writable : ∀ setting ∈ settings, setting.Writable opttab) :
    ∀ {current : List Opt}, SameLabels opttab current ->
      optInitArgs current indexArgs errmsg (settings.flatMap Setting.args) =
        ⟨settings.foldl assign current, .none, errmsg⟩ := by
  induction settings with
  | nil =>
      intro current _
      rfl
  | cons setting settings inductionHypothesis =>
      intro current labels
      have rest_writable : ∀ other ∈ settings, other.Writable opttab :=
        fun other member => writable other (List.mem_cons_of_mem _ member)
      rw [List.flatMap_cons, optInitArgs_setting names (writable setting List.mem_cons_self) labels,
        inductionHypothesis rest_writable (assign_labels labels setting), List.foldl_cons]

theorem optInitLines_settings (names : SingleLetters opttab) (errmsg : CString)
    (writable : ∀ setting ∈ settings, setting.Writable opttab) :
    ∀ {current : List Opt}, SameLabels opttab current ->
      optInitLines current errmsg (settings.map Setting.line) =
        ⟨settings.foldl assign current, .none, errmsg⟩ := by
  induction settings with
  | nil =>
      intro current _
      rfl
  | cons setting settings inductionHypothesis =>
      intro current labels
      have rest_writable : ∀ other ∈ settings, other.Writable opttab :=
        fun other member => writable other (List.mem_cons_of_mem _ member)
      rw [List.map_cons, optInitLines_setting names (writable setting List.mem_cons_self) labels,
        inductionHypothesis rest_writable (assign_labels labels setting), List.foldl_cons]

/-- `fgets` reads the file setting by setting. -/
theorem fileLines_settings (writable : ∀ setting ∈ settings, setting.Writable opttab) :
    fileLines 1024 (settings.flatMap fun setting => setting.line.chars).length
        (settings.flatMap fun setting => setting.line.chars) = settings.map Setting.line := by
  have ended : ∀ line ∈ settings.map Setting.line, ∃ chars, (10 : UInt8) ∉ chars ∧ line.chars = chars ++ [10] ∧
      chars.length < 1024 - 1 := by
    intro line member
    rcases List.mem_map.mp member with ⟨setting, listed, rfl⟩
    have valid := writable setting listed
    refine ⟨setting.opt.key.chars ++ 58 :: 32 :: setting.text.chars, ?_, ?_, ?_⟩
    · simp only [List.mem_append, List.mem_cons, not_or]
      exact ⟨valid.keyChars.2.2, by decide, by decide, valid.text.2.2.2⟩
    · rw [setting.line_chars, List.append_assoc, List.cons_append, List.cons_append]
    · have lineFits := valid.lineFits
      simp only [CString.length, setting.line_chars, List.length_append, List.length_cons, List.length_nil]
        at lineFits ⊢
      omega
  have enough : (settings.map Setting.line).length ≤ (settings.flatMap fun setting => setting.line.chars).length := by
    rw [List.length_map, List.length_flatMap]
    calc settings.length = (settings.map fun _ => 1).sum := by simp
      _ ≤ (settings.map fun setting => setting.line.chars.length).sum := by
          apply List.sum_le_sum
          intro setting _
          rw [setting.line_chars, List.length_append, List.length_cons]
          omega
  have whole := fileLines_lines (settings.map Setting.line) ended enough
  rw [List.flatMap_map] at whole
  exact whole

end Runs

/-- Written as arguments or as lines, the settings are assigned one after the
other, and both front ends return 0. -/
theorem frontEnds_agree (opttab : List Opt) (errmsg : CString) (settings : List Setting)
    (names : SingleLetters opttab) (writable : ∀ setting ∈ settings, setting.Writable opttab) :
    optInitFromArg opttab errmsg (settings.flatMap Setting.args) =
        ⟨settings.foldl assign opttab, .none, errmsg⟩ ∧
      optInitFromFile opttab errmsg (.ok (settings.flatMap fun setting => setting.line.chars)) =
        ⟨settings.foldl assign opttab, .none, errmsg⟩ := by
  constructor
  · exact optInitArgs_settings names 0 errmsg writable rfl
  · unfold optInitFromFile
    dsimp only
    rw [fileLines_settings writable]
    exact optInitLines_settings names errmsg writable rfl

/-- A string of a literal. -/
private def ofLiteral (literal : String) : CString := CString.ofMemory (ascii literal ++ [0])

private def debugOpt : Opt := ⟨ofLiteral "-D", ofLiteral "debug", .b false, .bool⟩

private def messageOpt : Opt := ⟨ofLiteral "-m:", ofLiteral "message", .s (some (ofLiteral "no content")), .stringStatic⟩

/-- A flag, and a message with a blank at its end, given twice. -/
private def someSettings : List Setting :=
  [⟨debugOpt, none⟩, ⟨messageOpt, some (ofLiteral "first")⟩, ⟨messageOpt, some (ofLiteral "hello: world ")⟩]

theorem frontEnds_agree_message :
    optInitFromArg [debugOpt, messageOpt] (ofLiteral "") (someSettings.flatMap Setting.args) =
        ⟨[{ debugOpt with value := .b true },
          { messageOpt with value := .s (some (ofLiteral "hello: world")), type := .string }], .none, ofLiteral ""⟩ ∧
      optInitFromFile [debugOpt, messageOpt] (ofLiteral "") (.ok (someSettings.flatMap fun setting => setting.line.chars)) =
        ⟨[{ debugOpt with value := .b true },
          { messageOpt with value := .s (some (ofLiteral "hello: world")), type := .string }], .none, ofLiteral ""⟩ := by
  have assigned : someSettings.foldl assign [debugOpt, messageOpt] =
      [{ debugOpt with value := .b true },
        { messageOpt with value := .s (some (ofLiteral "hello: world")), type := .string }] := by decide
  rw [← assigned]
  refine frontEnds_agree _ _ someSettings ⟨?_, by decide, by decide⟩ ?_
  · intro opt listed
    simp only [List.mem_cons, List.not_mem_nil, or_false] at listed
    rcases listed with rfl | rfl
    · exact ⟨68, Or.inl (by decide)⟩
    · exact ⟨109, Or.inr (by decide)⟩
  · intro setting listed
    simp only [someSettings, List.mem_cons, List.not_mem_nil, or_false] at listed
    rcases listed with rfl | rfl | rfl <;> constructor <;> decide +kernel

end Options
end Extlib
