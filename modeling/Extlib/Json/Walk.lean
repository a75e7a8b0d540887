import Extlib.Text.Lines

namespace Extlib
namespace Json

open Text

/-!
# Looking for a value

`json.c` keeps the text of an object as it is.  To find the value of a path it
walks over the text once for each key of the path, counts braces, and compares
the key with what stands at depth one.  The value is read where the last key
ends.

The pointers into the text are the characters from there on.  The texts are
shorter than the greatest `int`, so that the counters do not overflow.
-/

inductive JsonErr where
  | ok
  | brace
  | key
  | type
  deriving DecidableEq, Repr

structure JsonObject where
  errno : JsonErr
  raw : CString
  deriving DecidableEq, Repr

/-- A literal between braces. -/
def braced (literal : String) : List UInt8 := 123 :: (ascii literal ++ [125])

def jsonObjectNew (str : CString) : JsonObject := ⟨.ok, str⟩

/-- `isprint` in the C locale. -/
def isPrint (c : UInt8) : Bool := 32 ≤ c && c ≤ 126

/-- What is passed over between a key and its value. -/
def isGap (c : UInt8) : Bool := c == 32 || c == 58

/-- The loop that looks for a key, from this depth on: the characters behind
it.  A key longer than the text that is left does not agree with it. -/
def keyScan (key : List UInt8) : Int -> List UInt8 -> Option (List UInt8)
  | _, [] => none
  | braceCnt, c :: str =>
      if c = 123 then keyScan key (braceCnt + 1) str
      else if c = 125 then keyScan key (braceCnt - 1) str
      else if braceCnt = 1 ∧ key.head? = some c ∧ key.isPrefixOf (c :: str) then some ((c :: str).drop key.length)
      else keyScan key braceCnt str

/-- How a walk ends: with a failed assertion, with an error, or at the place
`walk_idx` points to. -/
inductive WalkResult where
  | aborted
  | failed (errno : JsonErr)
  | found (walkIdx : List UInt8)
  deriving DecidableEq, Repr

/-- `json_walk`, for a path with at most so many keys. -/
def jsonWalk : Nat -> List UInt8 -> List UInt8 -> WalkResult
  | keys + 1, str, 47 :: c :: path =>
      if 47 ∈ c :: path then
        match keyScan ((c :: path).takeWhile (· ≠ 47)) 0 str with
        | none => .failed .key
        | some rest =>
            match rest.dropWhile isGap with
            | [] => .failed .key
            | 123 :: inner => jsonWalk keys (123 :: inner) ((c :: path).dropWhile (· ≠ 47))
            | _ => .failed .type
      else
        match keyScan (c :: path) 0 str with
        | none => .failed .key
        | some rest => .found rest
  | _, _, _ => .aborted

/-- The loop over a value, from here on: the number of characters in front of
`value_end`.  `ended` tells if it has been set, and `count` counts up to it. -/
def valueScan (plain : UInt8 -> Bool) (ended : Bool) (count : Nat) : List UInt8 -> Except JsonErr Nat
  | [] => .error .brace
  | c :: str =>
      if ended = false ∧ plain c then valueScan plain false (count + 1) str
      else if c = 32 then valueScan plain true count str
      else if c = 44 ∨ c = 125 then .ok count
      else .error .type

/-- What a call leaves: nothing when an assertion fails, or when it reads or
writes outside of an array; otherwise the value returned, `errno` and the
object of the caller. -/
inductive JsonOutcome (Value : Type) where
  | aborted
  | overrun
  | returned (rc : Int) (errno : JsonErr) (value : Value)
  deriving DecidableEq, Repr

/-- `cpy_cnt`.  Sizes are unsigned, so that a difference below 0 is greater
than every size it is compared with. -/
def cpyCnt (count size : Nat) : Nat := if count < 2 then size - 1 else min (count - 2) (size - 1)

/-- The characters a string value runs on with. -/
def stringChar (c : UInt8) : Bool := isPrint c && c != 32 && c != 44 && c != 125

/-- What `__json_get_string` does behind the opening quote: `memcpy` and the
NUL. -/
def copyString (jo : JsonObject) (value : List UInt8) (count : Nat) (str : List UInt8) : JsonOutcome (List UInt8) :=
  let copied := cpyCnt count value.length
  if str.length + 1 < copied ∨ value.length ≤ copied then .overrun
  else .returned 0 jo.errno ((str ++ [0]).take copied ++ 0 :: value.drop (copied + 1))

/-- `__json_get_string` at `walk_idx`, with the buffer of the caller. -/
def getStringAt (jo : JsonObject) (walkIdx value : List UInt8) : JsonOutcome (List UInt8) :=
  match walkIdx.dropWhile isGap with
  | [] => .returned (-1) .type value
  | c :: str =>
      if ¬ isPrint c then .returned (-1) .type value
      else
        match valueScan stringChar false 0 (c :: str) with
        | .error errno => .returned (-1) errno value
        | .ok count =>
            if (c ≠ 39 ∧ c ≠ 34) ∨ (c :: str)[count - 1]? ≠ some c then .returned (-1) .type value
            else copyString jo value count str

/-- `__json_get_int` at `walk_idx`, with the integer of the caller.  `tmp` has
room for 31 digits and their NUL. -/
def getIntAt (jo : JsonObject) (walkIdx : List UInt8) (value : Int32) : JsonOutcome Int32 :=
  match walkIdx.dropWhile isGap with
  | [] => .returned (-1) .type value
  | c :: str =>
      if ¬ isDigit c then .returned (-1) .type value
      else
        match valueScan isDigit false 0 (c :: str) with
        | .error errno => .returned (-1) errno value
        | .ok count => if 32 ≤ count then .overrun else .returned 0 jo.errno (atoi ((c :: str).take count))

/-- A walk, and what is done at its end. -/
def afterWalk {Value : Type} (jo : JsonObject) (path : CString) (value : Value)
    (get : List UInt8 -> JsonOutcome Value) : JsonOutcome Value :=
  match jsonWalk (path.length + 1) jo.raw.chars path.chars with
  | .aborted => .aborted
  | .failed errno => .returned (-1) errno value
  | .found walkIdx => get walkIdx

def jsonGetString (jo : JsonObject) (path : CString) (value : List UInt8) : JsonOutcome (List UInt8) :=
  afterWalk jo path value fun walkIdx => getStringAt jo walkIdx value

def jsonGetInt (jo : JsonObject) (path : CString) (value : Int32) : JsonOutcome Int32 :=
  afterWalk jo path value fun walkIdx => getIntAt jo walkIdx value

section Found

variable {jo : JsonObject} {path : CString} {walkIdx : List UInt8}

theorem jsonGetInt_found (found : jsonWalk (path.length + 1) jo.raw.chars path.chars = .found walkIdx) :
    jsonGetInt jo path = getIntAt jo walkIdx := by
  funext value
  rw [jsonGetInt, afterWalk, found]

theorem jsonGetString_found (found : jsonWalk (path.length + 1) jo.raw.chars path.chars = .found walkIdx) :
    jsonGetString jo path = getStringAt jo walkIdx := by
  funext value
  rw [jsonGetString, afterWalk, found]

end Found

/-! ## Paths -/

/-- A path, from its keys. -/
def pathText (keys : List (List UInt8)) : List UInt8 := keys.flatMap (47 :: ·)

/-- Keys that a path can have. -/
def PathKeys (keys : List (List UInt8)) : Prop := keys ≠ [] ∧ ∀ key ∈ keys, key ≠ [] ∧ 47 ∉ key

/-- The walk from key to key. -/
def walkKeys (str : List UInt8) : List (List UInt8) -> WalkResult
  | [] => .aborted
  | [key] =>
      match keyScan key 0 str with
      | none => .failed .key
      | some rest => .found rest
  | key :: next :: keys =>
      match keyScan key 0 str with
      | none => .failed .key
      | some rest =>
          match rest.dropWhile isGap with
          | [] => .failed .key
          | 123 :: inner => walkKeys (123 :: inner) (next :: keys)
          | _ => .failed .type

/-- A path leads from key to key. -/
theorem jsonWalk_pathText {keys : List (List UInt8)} :
    ∀ {rounds : Nat} {str : List UInt8}, PathKeys keys -> keys.length ≤ rounds ->
      jsonWalk rounds str (pathText keys) = walkKeys str keys := by
  induction keys with
  | nil => exact fun path _ => absurd rfl path.1
  | cons key keys inductionHypothesis =>
      intro rounds str path enough
      cases rounds with
      | zero => cases enough
      | succ rounds =>
          rcases path.2 key List.mem_cons_self with ⟨nonempty, slashFree⟩
          cases key with
          | nil => exact absurd rfl nonempty
          | cons c key =>
              cases keys with
              | nil =>
                  have whole : pathText [c :: key] = 47 :: c :: key := List.append_nil _
                  rw [whole, jsonWalk, if_neg slashFree, walkKeys]
              | cons next keys =>
                  have whole : pathText ((c :: key) :: next :: keys) =
                      47 :: c :: (key ++ 47 :: (next ++ pathText keys)) := by simp [pathText]
                  have later : PathKeys (next :: keys) :=
                    ⟨List.cons_ne_nil _ _, fun other member => path.2 other (List.mem_cons_of_mem _ member)⟩
                  have rest : 47 :: (next ++ pathText keys) = pathText (next :: keys) := rfl
                  have slash : 47 ∈ c :: (key ++ 47 :: (next ++ pathText keys)) :=
                    List.mem_cons_of_mem _ (List.mem_append_right _ List.mem_cons_self)
                  have first : (c :: (key ++ 47 :: (next ++ pathText keys))).takeWhile (· ≠ 47) = c :: key :=
                    takeWhile_ne slashFree _
                  have others : (c :: (key ++ 47 :: (next ++ pathText keys))).dropWhile (· ≠ 47) =
                      pathText (next :: keys) := dropWhile_ne slashFree _
                  rw [whole, jsonWalk, if_pos slash, first, others, walkKeys]
                  cases keyScan (c :: key) 0 str with
                  | none => rfl
                  | some found =>
                      dsimp only
                      split
                      case h_1 => rfl
                      case h_2 inner => exact inductionHypothesis later (Nat.le_of_succ_le_succ enough)
                      case h_3 => rfl

/-- A path is long enough for its keys. -/
theorem length_le_pathText (keys : List (List UInt8)) : keys.length ≤ (pathText keys).length := by
  induction keys with
  | nil => exact Nat.zero_le _
  | cons key keys inductionHypothesis =>
      rw [pathText, List.flatMap_cons, List.length_append, List.length_cons, List.length_cons]
      change _ ≤ key.length + 1 + (pathText keys).length
      omega

theorem jsonWalk_path {jo : JsonObject} {path : CString} {keys : List (List UInt8)}
    (spelled : path.chars = pathText keys) (valid : PathKeys keys) :
    jsonWalk (path.length + 1) jo.raw.chars path.chars = walkKeys jo.raw.chars keys := by
  rw [CString.length, spelled]
  exact jsonWalk_pathText valid (Nat.le_succ_of_le (length_le_pathText keys))

/-! ## Where a walk ends -/

theorem keyScan_suffix {key : List UInt8} {str rest : List UInt8} :
    ∀ {braceCnt : Int}, keyScan key braceCnt str = some rest -> rest <:+ str := by
  induction str with
  | nil => exact fun found => nomatch found
  | cons c str inductionHypothesis =>
      intro braceCnt found
      rw [keyScan] at found
      split at found
      · exact (inductionHypothesis found).trans (List.suffix_cons c str)
      · split at found
        · exact (inductionHypothesis found).trans (List.suffix_cons c str)
        · split at found
          · cases found
            exact List.drop_suffix _ _
          · exact (inductionHypothesis found).trans (List.suffix_cons c str)

theorem walkKeys_suffix {keys : List (List UInt8)} {walkIdx : List UInt8} :
    ∀ {str : List UInt8}, walkKeys str keys = .found walkIdx -> walkIdx <:+ str := by
  induction keys with
  | nil => exact fun found => nomatch found
  | cons key keys inductionHypothesis =>
      intro str found
      cases keys with
      | nil =>
          rw [walkKeys] at found
          cases here : keyScan key 0 str with
          | none =>
              rw [here] at found
              cases found
          | some rest =>
              rw [here] at found
              cases found
              exact keyScan_suffix here
      | cons next keys =>
          rw [walkKeys] at found
          split at found
          case h_1 => cases found
          case h_2 rest here =>
            split at found
            case h_1 => cases found
            case h_2 inner object =>
              refine (inductionHypothesis found).trans ?_
              rw [← object]
              exact (List.dropWhile_suffix _).trans (keyScan_suffix here)
            case h_3 => cases found

theorem walkKeys_not_aborted {keys : List (List UInt8)} (nonempty : keys ≠ []) :
    ∀ {str : List UInt8}, walkKeys str keys ≠ .aborted := by
  induction keys with
  | nil => exact absurd rfl nonempty
  | cons key keys inductionHypothesis =>
      intro str
      cases keys with
      | nil =>
          rw [walkKeys]
          cases keyScan key 0 str <;> exact WalkResult.noConfusion
      | cons next keys =>
          rw [walkKeys]
          split
          · exact WalkResult.noConfusion
          · split
            · exact WalkResult.noConfusion
            · exact inductionHypothesis (List.cons_ne_nil _ _)
            · exact WalkResult.noConfusion

end Json
end Extlib
