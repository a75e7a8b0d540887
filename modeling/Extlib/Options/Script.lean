import Extlib.Options.FrontEnds

namespace Extlib
namespace Options

open Text Machine

/-!
# What arguments and lines ask for

No assignment changes the names of an option or makes a flag of it, and the two
front ends look at nothing else when they choose the next entry.  So what they
look up and assign can be written down for the table as it is at the start, and
what they leave is the table with these assignments made in order.

The comparison of names is a parameter.
-/

/-- What is done to an entry that has been found. -/
inductive Change where
  | parse (text : CString)
  | flag
  deriving DecidableEq, Repr

def Change.apply (change : Change) (opt : Opt) : Opt :=
  match change with
  | .parse text => optParseValue opt text
  | .flag => { opt with value := .b true }

/-- A name that is looked up, the index it is found at, and what is done to the
entry there. -/
structure Lookup where
  name : CString
  found : Option Nat
  change : Option Change
  deriving DecidableEq, Repr

structure Script where
  lookups : List Lookup
  result : OptErr
  errmsg : CString
  deriving DecidableEq, Repr

namespace Script

/-- A last look-up, and how it ends. -/
def stop (name : CString) (found : Option Nat) (result : OptErr) (errmsg : CString) : Script :=
  ⟨[⟨name, found, none⟩], result, errmsg⟩

/-- A look-up and what comes after it. -/
def after (name : CString) (found : Nat) (change : Change) (script : Script) : Script :=
  { script with lookups := ⟨name, some found, some change⟩ :: script.lookups }

theorem after_inj {name : CString} {found : Nat} {change : Change} {script other : Script} :
    script.after name found change = other.after name found change ↔ script = other := by
  cases script
  cases other
  simp [after]

/-- The entries assigned. -/
def assignments (script : Script) : List (Nat × Change) :=
  script.lookups.filterMap fun lookup => lookup.found.bind fun found => lookup.change.map (found, ·)

end Script

def applyAt (opttab : List Opt) (assignment : Nat × Change) : List Opt :=
  opttab.modify assignment.1 assignment.2.apply

/-- The table with the assignments made. -/
def Script.apply (script : Script) (opttab : List Opt) : OptResult :=
  ⟨script.assignments.foldl applyAt opttab, script.result, script.errmsg⟩

theorem Script.apply_after (name : CString) (found : Nat) (change : Change) (script : Script) (opttab : List Opt) :
    (script.after name found change).apply opttab = script.apply (applyAt opttab (found, change)) := rfl

/-- The name an argument is looked up under: itself, or its number. -/
def argName (indexArgs : Nat) (z : CString) : CString :=
  if z.chars.head? = some 45 then z else CString.ofMemory ((formatDecimal indexArgs).take 15 ++ [0])

/-- What an argument does to the entry found, and the arguments left. -/
def argChange (z : CString) (argv : List CString) (tmp : Opt) : Except (OptErr × CString) (Change × List CString) :=
  if z.chars.head? = some 45 then
    if takesValue tmp then
      match argv with
      | [] => .error (.missArg, formatErrmsg "missing argument for " z)
      | arg :: argv =>
          if arg.chars.head? = some 45 then .error (.missArg, formatErrmsg "missing argument for " z)
          else .ok (.parse arg, argv)
    else if tmp.type ≠ .bool then .error (.wrongValue, formatErrmsg "wrong value type of " z)
    else .ok (.flag, argv)
  else .ok (.parse z, argv)

/-- The index of the next argument that is no option. -/
def nextIndex (indexArgs : Nat) (z : CString) : Nat := if z.chars.head? = some 45 then indexArgs else indexArgs + 1

/-- An argument is parsed itself, or makes the next one parsed, or is a flag. -/
theorem argChange_cases {z : CString} {argv rest : List CString} {tmp : Opt} {change : Change}
    (goes : argChange z argv tmp = .ok (change, rest)) :
    (change = .parse z ∧ rest = argv) ∨ (∃ arg, change = .parse arg ∧ argv = arg :: rest) ∨
      (change = .flag ∧ tmp.type = .bool ∧ rest = argv) := by
  unfold argChange at goes
  split at goes
  · split at goes
    · split at goes
      · cases goes
      case h_2 arg argv =>
        split at goes
        · cases goes
        · cases goes
          exact Or.inr (Or.inl ⟨arg, rfl, rfl⟩)
    · split at goes
      · cases goes
      case isFalse bool =>
        cases goes
        exact Or.inr (Or.inr ⟨rfl, not_not.mp bool, rfl⟩)
  · cases goes
    exact Or.inl ⟨rfl, rfl⟩

theorem argChange_length {z : CString} {argv rest : List CString} {tmp : Opt} {change : Change}
    (goes : argChange z argv tmp = .ok (change, rest)) : rest.length ≤ argv.length := by
  rcases argChange_cases goes with ⟨_, rfl⟩ | ⟨arg, _, rfl⟩ | ⟨_, _, rfl⟩
  · exact Nat.le_refl _
  · exact Nat.le_succ _
  · exact Nat.le_refl _

/-- The loop of `opt_init_from_arg`, with at most so many look-ups. -/
def argScript (matched : CString -> Opt -> Bool) (opttab : List Opt) (errmsg : CString) :
    Nat -> Nat -> List CString -> Script
  | 0, _, _ => ⟨[], .none, errmsg⟩
  | _, _, [] => ⟨[], .none, errmsg⟩
  | rounds + 1, indexArgs, z :: argv =>
      let name := argName indexArgs z
      match findOpt (matched name) opttab with
      | none => .stop name none .unknownOpt (formatErrmsg "unknown opt " z)
      | some tmp =>
          let found := opttab.findIdx (matched name)
          match argChange z argv tmp with
          | .error (result, errmsg) => .stop name (some found) result errmsg
          | .ok (change, rest) =>
              (argScript matched opttab errmsg rounds (nextIndex indexArgs z) rest).after name found change

/-- All arguments. -/
def argsScript (matched : CString -> Opt -> Bool) (opttab : List Opt) (errmsg : CString) (argv : List CString) :
    Script :=
  argScript matched opttab errmsg argv.length 0 argv

/-- The loop of `opt_init_from_file`. -/
def lineScript (matched : CString -> Opt -> Bool) (opttab : List Opt) (errmsg : CString) : List CString -> Script
  | [] => ⟨[], .none, errmsg⟩
  | line :: lines =>
      if isComment line then lineScript matched opttab errmsg lines
      else
        match scanSetting line with
        | none => lineScript matched opttab errmsg lines
        | some (w1, w2) =>
            match findOpt (matched w1) opttab with
            | none => .stop w1 none .unknownOpt (formatErrmsg "unknown opt " w1)
            | some _ => (lineScript matched opttab errmsg lines).after w1 (opttab.findIdx (matched w1)) (.parse w2)

def fileScript (matched : CString -> Opt -> Bool) (opttab : List Opt) (errmsg : CString)
    (file : Except CString (List UInt8)) : Script :=
  match file with
  | .error reason => ⟨[], .configFileOpenFailed, formatErrmsg "fopen: " reason⟩
  | .ok bytes => lineScript matched opttab errmsg (fileLines 1024 bytes.length bytes)

/-! ## The front ends follow their scripts -/

section Follow

variable {opttab current : List Opt} {errmsg : CString}

theorem label_change (change : Change) (opt : Opt) : label (change.apply opt) = label opt := by
  cases change with
  | parse text => exact label_optParseValue opt text
  | flag => rfl

theorem sameLabels_applyAt (labels : SameLabels opttab current) (assignment : Nat × Change) :
    SameLabels opttab (applyAt current assignment) :=
  (map_modify label _ (label_change assignment.2) current assignment.1).trans labels

/-- The comparison looks at the names of an option only. -/
def ByLabel (matched : CString -> Opt -> Bool) : Prop :=
  ∀ name opt other, label opt = label other -> matched name opt = matched name other

theorem byLabel_matchesShort : ByLabel matchesShort := by
  intro name opt other same
  have optshort : opt.optshort = other.optshort := congrArg Prod.fst same
  rw [matchesShort, matchesShort, optshort]

theorem byLabel_matchesKey : ByLabel matchesKey := by
  intro name opt other same
  have key : opt.key = other.key := congrArg (fun label => label.2.1) same
  rw [matchesKey, matchesKey, key]

/-- What an argument does to an entry depends on its label. -/
theorem argChange_congr {opt other : Opt} (same : label opt = label other) (z : CString) (argv : List CString) :
    argChange z argv opt = argChange z argv other := by
  have optshort : opt.optshort = other.optshort := congrArg Prod.fst same
  have flag : opt.type = .bool ↔ other.type = .bool := decide_eq_decide.mp (congrArg (fun label => label.2.2) same)
  have takes : takesValue opt = takesValue other := by rw [takesValue, takesValue, optshort]
  unfold argChange
  simp only [takes, Ne, flag]

/-- A look-up in the current table is one in the first. -/
theorem findOpt_current {matched : CString -> Opt -> Bool} (byLabel : ByLabel matched)
    (labels : SameLabels opttab current) (name : CString) :
    current.findIdx (matched name) = opttab.findIdx (matched name) ∧
      (findOpt (matched name) current).map label = (findOpt (matched name) opttab).map label :=
  find_of_map_eq (byLabel name) labels

/-- The loop of the source, one argument. -/
theorem optInitArgs_cons (current : List Opt) (indexArgs : Nat) (z : CString) (argv : List CString) :
    optInitArgs current indexArgs errmsg (z :: argv) =
      match findOpt (matchesShort (argName indexArgs z)) current with
      | none => ⟨current, .unknownOpt, formatErrmsg "unknown opt " z⟩
      | some tmp =>
          match argChange z argv tmp with
          | .error (result, errmsg) => ⟨current, result, errmsg⟩
          | .ok (change, rest) =>
              optInitArgs (updateOpt (matchesShort (argName indexArgs z)) change.apply current) (nextIndex indexArgs z)
                errmsg rest := by
  rw [optInitArgs.eq_def]
  dsimp only
  by_cases dash : z.chars.head? = some 45
  · rw [if_pos dash, argName, if_pos dash, nextIndex, if_pos dash]
    cases findOpt (matchesShort z) current with
    | none => rfl
    | some tmp =>
        dsimp only
        rw [argChange.eq_def, if_pos dash]
        by_cases takes : takesValue tmp
        · rw [if_pos takes, if_pos takes]
          cases argv with
          | nil => rfl
          | cons arg argv =>
              dsimp only
              by_cases dashed : arg.chars.head? = some 45
              · rw [if_pos dashed, if_pos dashed]
              · rw [if_neg dashed, if_neg dashed]
                rfl
        · rw [if_neg takes, if_neg takes]
          by_cases flag : tmp.type ≠ .bool
          · rw [if_pos flag, if_pos flag]
          · rw [if_neg flag, if_neg flag]
            rfl
  · rw [if_neg dash, argName, if_neg dash, nextIndex, if_neg dash]
    cases findOpt (matchesShort (CString.ofMemory ((formatDecimal indexArgs).take 15 ++ [0]))) current with
    | none => rfl
    | some tmp =>
        dsimp only
        rw [argChange.eq_def, if_neg dash]
        rfl

theorem optInitArgs_script (rounds : Nat) :
    ∀ {current : List Opt} {indexArgs : Nat} {argv : List CString}, SameLabels opttab current ->
      argv.length ≤ rounds ->
        optInitArgs current indexArgs errmsg argv =
          (argScript matchesShort opttab errmsg rounds indexArgs argv).apply current := by
  induction rounds with
  | zero =>
      intro current indexArgs argv _ short
      rw [List.length_eq_zero_iff.mp (Nat.le_zero.mp short)]
      rfl
  | succ rounds inductionHypothesis =>
      intro current indexArgs argv labels short
      cases argv with
      | nil => rfl
      | cons z argv =>
          rcases findOpt_current byLabel_matchesShort labels (argName indexArgs z) with ⟨index, found⟩
          rw [argScript, optInitArgs_cons]
          dsimp only
          cases here : findOpt (matchesShort (argName indexArgs z)) current with
          | none =>
              rw [here, Option.map_none, eq_comm, Option.map_eq_none_iff] at found
              rw [found]
              rfl
          | some tmp =>
              rw [here, Option.map_some, eq_comm, Option.map_eq_some_iff] at found
              rcases found with ⟨first, there, same⟩
              rw [there]
              dsimp only
              rw [argChange_congr same]
              cases goes : argChange z argv tmp with
              | error stopped => rfl
              | ok next =>
                  rcases next with ⟨change, rest⟩
                  have fewer : rest.length ≤ rounds :=
                    Nat.le_trans (argChange_length goes) (Nat.le_of_succ_le_succ short)
                  dsimp only
                  rw [updateOpt, index, Script.apply_after]
                  exact inductionHypothesis (sameLabels_applyAt labels (_, change)) fewer

theorem optInitFromArg_script (opttab : List Opt) (errmsg : CString) (argv : List CString) :
    optInitFromArg opttab errmsg argv = (argsScript matchesShort opttab errmsg argv).apply opttab :=
  optInitArgs_script argv.length rfl (Nat.le_refl _)

theorem optInitLines_script {lines : List CString} :
    ∀ {current : List Opt}, SameLabels opttab current ->
      optInitLines current errmsg lines = (lineScript matchesKey opttab errmsg lines).apply current := by
  induction lines with
  | nil => exact fun _ => rfl
  | cons line lines inductionHypothesis =>
      intro current labels
      rw [optInitLines, lineScript]
      by_cases comment : isComment line
      · rw [if_pos comment, if_pos comment, inductionHypothesis labels]
      · rw [if_neg comment, if_neg comment]
        cases scanSetting line with
        | none => exact inductionHypothesis labels
        | some words =>
            rcases words with ⟨w1, w2⟩
            rcases findOpt_current byLabel_matchesKey labels w1 with ⟨index, found⟩
            dsimp only
            cases here : findOpt (matchesKey w1) current with
            | none =>
                rw [here, Option.map_none, eq_comm, Option.map_eq_none_iff] at found
                rw [found]
                rfl
            | some tmp =>
                rw [here, Option.map_some, eq_comm, Option.map_eq_some_iff] at found
                rcases found with ⟨first, there, _⟩
                rw [there]
                dsimp only
                rw [updateOpt, index, Script.apply_after]
                exact inductionHypothesis (sameLabels_applyAt labels (_, .parse w2))

theorem optInitFromFile_script (opttab : List Opt) (errmsg : CString) (file : Except CString (List UInt8)) :
    optInitFromFile opttab errmsg file = (fileScript matchesKey opttab errmsg file).apply opttab := by
  cases file with
  | error reason => rfl
  | ok bytes => exact optInitLines_script rfl

/-- Only a flag is set without a text. -/
def FlagsOnly (opttab : List Opt) (assignments : List (Nat × Change)) : Prop :=
  ∀ assignment ∈ assignments, assignment.2 = .flag -> ∃ opt, opttab[assignment.1]? = some opt ∧ opt.type = .bool

theorem assignments_after (name : CString) (found : Nat) (change : Change) (script : Script) :
    (script.after name found change).assignments = (found, change) :: script.assignments := rfl

theorem argScript_flagsOnly (matched : CString -> Opt -> Bool) (rounds : Nat) :
    ∀ (indexArgs : Nat) (argv : List CString),
      FlagsOnly opttab (argScript matched opttab errmsg rounds indexArgs argv).assignments := by
  induction rounds with
  | zero => exact fun _ _ _ member => absurd member List.not_mem_nil
  | succ rounds inductionHypothesis =>
      intro indexArgs argv
      cases argv with
      | nil => exact fun _ member => absurd member List.not_mem_nil
      | cons z argv =>
          rw [argScript]
          dsimp only
          cases found : findOpt (matched (argName indexArgs z)) opttab with
          | none => exact fun _ member => absurd member List.not_mem_nil
          | some tmp =>
              dsimp only
              cases goes : argChange z argv tmp with
              | error stopped => exact fun _ member => absurd member List.not_mem_nil
              | ok next =>
                  rcases next with ⟨change, rest⟩
                  dsimp only
                  rw [assignments_after]
                  intro assignment member flag
                  rcases List.mem_cons.mp member with rfl | later
                  · refine ⟨tmp, ?_, ?_⟩
                    · rw [← found, findOpt, List.find?_eq_getElem?_findIdx]
                    · cases flag
                      rcases argChange_cases goes with ⟨parsed, _⟩ | ⟨_, parsed, _⟩ | ⟨_, bool, _⟩
                      · cases parsed
                      · cases parsed
                      · exact bool
                  · exact inductionHypothesis _ rest assignment later flag

theorem lineScript_flagsOnly (matched : CString -> Opt -> Bool) (lines : List CString) :
    FlagsOnly opttab (lineScript matched opttab errmsg lines).assignments := by
  induction lines with
  | nil => exact fun _ member => absurd member List.not_mem_nil
  | cons line lines inductionHypothesis =>
      rw [lineScript]
      split
      · exact inductionHypothesis
      · split
        · exact inductionHypothesis
        · split
          · exact fun _ member => absurd member List.not_mem_nil
          · rw [assignments_after]
            intro assignment member flag
            rcases List.mem_cons.mp member with rfl | later
            · cases flag
            · exact inductionHypothesis assignment later flag

end Follow

end Options
end Extlib
