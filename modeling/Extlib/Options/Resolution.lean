import Extlib.Options.Script

namespace Extlib
namespace Options

open Text Machine

/-!
# Which entry an argument names

`__find_opt` compares as many characters as the argument has.  That passes over
the colon at the end of a short name, and over anything else that stands there.
What the arguments ask for is their script with the short names compared to
their ends, and the function does that as long as no look-up meets a longer
short name first.
-/

/-- The short name without the colon at its end. -/
def bareShort (opt : Opt) : List UInt8 :=
  if opt.optshort.chars.getLast? = some 58 then opt.optshort.chars.dropLast else opt.optshort.chars

/-- The short name is exactly this. -/
def namesShort (name : CString) (opt : Opt) : Bool := bareShort opt = name.chars

/-- Every argument is applied to the entry with exactly its name or number, in
order, and to no other; the first for which there is no such entry is reported. -/
structure Resolves (opttab : List Opt) (errmsg : CString) (argv : List CString) : Prop where
  script : argsScript matchesShort opttab errmsg argv = argsScript namesShort opttab errmsg argv
  outcome : optInitFromArg opttab errmsg argv = (argsScript namesShort opttab errmsg argv).apply opttab

/-- No short name that goes on behind this one stands in front of the entry
with this one, or stands in the table without it. -/
def NoLongerInFront (name : CString) (opttab : List Opt) : Prop :=
  ∀ i, ∀ inside : i < opttab.length, name.chars <+: opttab[i].optshort.chars ->
    bareShort opttab[i] = name.chars ∨ ∃ earlier ∈ opttab.take i, bareShort earlier = name.chars

section Searches

variable {opttab : List Opt} {errmsg name : CString}

theorem matchesShort_of_namesShort (opt : Opt) (exact : namesShort name opt) : matchesShort name opt := by
  rw [matchesShort, List.isPrefixOf_iff_prefix, ← of_decide_eq_true exact, bareShort]
  split
  · exact List.dropLast_prefix _
  · exact List.prefix_refl _

theorem findOpt_namesShort_iff :
    findOpt (matchesShort name) opttab = findOpt (namesShort name) opttab ↔ NoLongerInFront name opttab := by
  rw [findOpt, findOpt, find_eq_find_iff matchesShort_of_namesShort]
  simp only [matchesShort, List.isPrefixOf_iff_prefix, namesShort, decide_eq_true_iff, NoLongerInFront]

/-- The first look-up of a script, whatever comes of it. -/
theorem argScript_first (matched : CString -> Opt -> Bool) (opttab : List Opt) (errmsg : CString)
    (rounds indexArgs : Nat) (z : CString) (argv : List CString) :
    ∃ change rest, (argScript matched opttab errmsg (rounds + 1) indexArgs (z :: argv)).lookups =
      ⟨argName indexArgs z,
        (findOpt (matched (argName indexArgs z)) opttab).map fun _ => opttab.findIdx (matched (argName indexArgs z)),
        change⟩ :: rest := by
  rw [argScript]
  dsimp only
  cases findOpt (matched (argName indexArgs z)) opttab with
  | none => exact ⟨_, _, rfl⟩
  | some tmp =>
      dsimp only
      cases argChange z argv tmp with
      | error stopped => exact ⟨_, _, rfl⟩
      | ok next => exact ⟨_, _, rfl⟩

/-- Searches that are reported to find the same do find the same. -/
theorem find_eq_of_found {matched other : Opt -> Bool}
    (same : ((findOpt matched opttab).map fun _ => opttab.findIdx matched) =
      (findOpt other opttab).map fun _ => opttab.findIdx other) : findOpt matched opttab = findOpt other opttab := by
  cases first : findOpt matched opttab with
  | none =>
      rw [first, Option.map_none, eq_comm, Option.map_eq_none_iff] at same
      exact same.symm
  | some opt =>
      cases second : findOpt other opttab with
      | none =>
          rw [first, second] at same
          cases same
      | some opt' =>
          rw [first, second, Option.map_some, Option.map_some, Option.some_inj] at same
          rw [← first, ← second, findOpt, findOpt, List.find?_eq_getElem?_findIdx, List.find?_eq_getElem?_findIdx, same]

end Searches

/-- The two scripts are one exactly when no look-up meets a longer name. -/
theorem argScript_exact_iff {opttab : List Opt} {errmsg : CString} (rounds : Nat) :
    ∀ (indexArgs : Nat) (argv : List CString),
      argScript matchesShort opttab errmsg rounds indexArgs argv =
          argScript namesShort opttab errmsg rounds indexArgs argv ↔
        ∀ lookup ∈ (argScript namesShort opttab errmsg rounds indexArgs argv).lookups,
          NoLongerInFront lookup.name opttab := by
  induction rounds with
  | zero => exact fun _ _ => iff_of_true rfl fun _ member => absurd member List.not_mem_nil
  | succ rounds inductionHypothesis =>
      intro indexArgs argv
      cases argv with
      | nil => exact iff_of_true rfl fun _ member => absurd member List.not_mem_nil
      | cons z argv =>
          by_cases exact : findOpt (matchesShort (argName indexArgs z)) opttab =
              findOpt (namesShort (argName indexArgs z)) opttab
          case neg =>
            rcases argScript_first namesShort opttab errmsg rounds indexArgs z argv
              with ⟨change, rest, strict⟩
            rcases argScript_first matchesShort opttab errmsg rounds indexArgs z argv
              with ⟨change', rest', loose⟩
            constructor
            · intro same
              rw [same, strict] at loose
              exact absurd (find_eq_of_found (Lookup.mk.inj (List.cons.inj loose).1).2.1.symm) exact
            · intro every
              rw [strict] at every
              exact absurd (findOpt_namesShort_iff.mpr (every _ List.mem_cons_self)) exact
          case pos =>
            have here := findOpt_namesShort_iff.mp exact
            have index : opttab.findIdx (matchesShort (argName indexArgs z)) =
                opttab.findIdx (namesShort (argName indexArgs z)) :=
              findIdx_eq_of_find_eq matchesShort_of_namesShort exact
            rw [argScript, argScript]
            dsimp only
            rw [exact, index]
            cases findOpt (namesShort (argName indexArgs z)) opttab with
            | none =>
                refine iff_of_true rfl ?_
                intro lookup member
                rw [List.mem_singleton.mp member]
                exact here
            | some tmp =>
                dsimp only
                cases argChange z argv tmp with
                | error stopped =>
                    refine iff_of_true rfl ?_
                    intro lookup member
                    rw [List.mem_singleton.mp member]
                    exact here
                | ok next =>
                    dsimp only
                    rw [Script.after_inj, inductionHypothesis, Script.after, List.forall_mem_cons]
                    exact (and_iff_right here).symm

/-- Arguments are resolved exactly when none of the names looked up meets a
longer short name first. -/
theorem optInitFromArg_resolves_iff (opttab : List Opt) (errmsg : CString) (argv : List CString) :
    Resolves opttab errmsg argv ↔
      ∀ lookup ∈ (argsScript namesShort opttab errmsg argv).lookups, NoLongerInFront lookup.name opttab := by
  rw [argsScript, ← argScript_exact_iff]
  constructor
  · exact fun resolves => resolves.script
  · intro same
    have script : argsScript matchesShort opttab errmsg argv = argsScript namesShort opttab errmsg argv := same
    exact ⟨script, by rw [optInitFromArg_script, script]⟩

private def verboseShort : CString := CString.ofMemory (ascii "-verbose" ++ [0])

private def versionShort : CString := CString.ofMemory (ascii "-v" ++ [0])

private def noText : CString := CString.ofMemory [0]

/-- A flag with a long name, and one whose name it begins with. -/
private def twoFlags : List Opt :=
  [⟨verboseShort, verboseShort, .b false, .bool⟩, ⟨versionShort, versionShort, .b false, .bool⟩]

/-- The longer name takes the shorter argument. -/
theorem shorterArg_resolves : ¬ ∀ (opttab : List Opt) (errmsg : CString) (argv : List CString),
    (opttab.map bareShort).Nodup -> Resolves opttab errmsg argv := by
  intro always
  have resolves := always twoFlags noText [versionShort] (by decide)
  have outcome := resolves.outcome
  revert outcome
  decide +kernel

end Options
end Extlib
