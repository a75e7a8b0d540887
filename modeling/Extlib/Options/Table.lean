import Extlib.Text.Lines

namespace Extlib
namespace Options

open Text

/-!
# Option tables

`opt.c`: a table of options, each with a short name for the command line and a
key for the configuration file, and the two functions that fill it.  The entry
that ends the table in the source is not part of the list.  A value is a union
there; here it says which member was stored last.
-/

/-- `enum opt_type`. -/
inductive OptType where
  | none
  | stringStatic
  | string
  | integer
  | bool
  deriving DecidableEq, Repr

/-- The union; a string may be a null pointer. -/
inductive OptValue where
  | s (text : Option CString)
  | i (number : Int32)
  | b (flag : Bool)
  deriving DecidableEq

structure Opt where
  optshort : CString
  key : CString
  value : OptValue
  type : OptType
  deriving DecidableEq

/-- The results, with those of `OPTERR_NONE` for success. -/
inductive OptErr where
  | none
  | unknownOpt
  | missArg
  | wrongValue
  | configFileOpenFailed
  deriving DecidableEq, Repr

def errmsgLen : Nat := 2048

/-- `snprintf` of a text and an argument into `errmsg`. -/
def formatErrmsg (text : String) (arg : CString) : CString :=
  CString.ofMemory ((ascii text ++ arg.chars).take (errmsgLen - 1) ++ [0])

/-- `trim` with its default, the blank. -/
def trim (text : CString) : CString where
  chars := ((text.chars.dropWhile (· = 32)).reverse.dropWhile (· = 32)).reverse
  nulFree := by
    intro member
    have kept := (List.dropWhile_sublist _).subset (List.mem_reverse.mp member)
    exact text.nulFree ((List.dropWhile_sublist _).subset (List.mem_reverse.mp kept))

def convertBool (text : CString) : Bool :=
  (text.length = 2 ∧ sameIgnoringCase text (CString.ofMemory (ascii "on" ++ [0]))) ∨
    (text.length = 3 ∧ sameIgnoringCase text (CString.ofMemory (ascii "yes" ++ [0]))) ∨
    (text.length = 4 ∧ sameIgnoringCase text (CString.ofMemory (ascii "true" ++ [0])))

/-- A string option becomes the owner of its string with the first value. -/
def optParseValue (opt : Opt) (text : CString) : Opt :=
  match opt.type with
  | .stringStatic => { opt with type := .string, value := .s (some (trim text)) }
  | .string => { opt with value := .s (some (trim text)) }
  | .integer => { opt with value := .i (strtol text.chars) }
  | .bool => { opt with value := .b (convertBool text) }
  | .none => opt

/-- The test of `__find_opt`: the name given is a prefix of the short name. -/
def matchesShort (optshort : CString) (opt : Opt) : Bool := optshort.chars.isPrefixOf opt.optshort.chars

/-- The test of `find_opt`. -/
def matchesKey (key : CString) (opt : Opt) : Bool := sameIgnoringCase key opt.key

/-- `find_opt`; `__find_opt` is the same with the other test. -/
def findOpt (matched : Opt -> Bool) (opttab : List Opt) : Option Opt := opttab.find? matched

/-- Change the entry that `find_opt` returns. -/
def updateOpt (matched : Opt -> Bool) (change : Opt -> Opt) (opttab : List Opt) : List Opt :=
  opttab.modify (opttab.findIdx matched) change

/-- What the two functions leave: the table, their result and `errmsg`. -/
structure OptResult where
  opttab : List Opt
  result : OptErr
  errmsg : CString
  deriving DecidableEq

/-- `strchr(optshort, ':')`. -/
def takesValue (opt : Opt) : Bool := 58 ∈ opt.optshort.chars

/-- The loop of `opt_init_from_arg` over the arguments that are left.
`indexArgs` counts those that are no options. -/
def optInitArgs (opttab : List Opt) (indexArgs : Nat) (errmsg : CString) : List CString -> OptResult
  | [] => ⟨opttab, .none, errmsg⟩
  | z :: argv =>
      if z.chars.head? = some 45 then
        match findOpt (matchesShort z) opttab with
        | none => ⟨opttab, .unknownOpt, formatErrmsg "unknown opt " z⟩
        | some tmp =>
            if takesValue tmp then
              match argv with
              | [] => ⟨opttab, .missArg, formatErrmsg "missing argument for " z⟩
              | arg :: argv =>
                  if arg.chars.head? = some 45 then ⟨opttab, .missArg, formatErrmsg "missing argument for " z⟩
                  else
                    optInitArgs (updateOpt (matchesShort z) (optParseValue · arg) opttab) indexArgs errmsg argv
            else if tmp.type ≠ .bool then ⟨opttab, .wrongValue, formatErrmsg "wrong value type of " z⟩
            else
              optInitArgs (updateOpt (matchesShort z) (fun opt => { opt with value := .b true }) opttab) indexArgs
                errmsg argv
      else
        let buffer := CString.ofMemory ((formatDecimal indexArgs).take 15 ++ [0])
        match findOpt (matchesShort buffer) opttab with
        | none => ⟨opttab, .unknownOpt, formatErrmsg "unknown opt " z⟩
        | some _ =>
            optInitArgs (updateOpt (matchesShort buffer) (optParseValue · z) opttab) (indexArgs + 1) errmsg argv

/-- `argv` is without the name of the program. -/
def optInitFromArg (opttab : List Opt) (errmsg : CString) (argv : List CString) : OptResult :=
  optInitArgs opttab 0 errmsg argv

/-- `sscanf(line, "%1023[^:]: %1023[^\r\n]", w1, w2)`, when it assigns both. -/
def scanSetting (line : CString) : Option (CString × CString) :=
  (scanUntil 1023 (· = 58) line.chars).bind fun (w1, rest) =>
    match rest with
    | 58 :: rest =>
        (scanUntil 1023 (fun c => c = 13 ∨ c = 10) (rest.dropWhile isSpace)).map fun (w2, _) => (w1, w2)
    | _ => none

/-- The lines the loop of `opt_init_from_file` passes over. -/
def isComment (line : CString) : Bool :=
  line.chars.head? = some 35 ∨ line.chars.take 2 = [47, 47] ∨ line.chars = [10]

/-- The loop of `opt_init_from_file` over the lines that are left. -/
def optInitLines (opttab : List Opt) (errmsg : CString) : List CString -> OptResult
  | [] => ⟨opttab, .none, errmsg⟩
  | line :: lines =>
      if isComment line then optInitLines opttab errmsg lines
      else
        match scanSetting line with
        | none => optInitLines opttab errmsg lines
        | some (w1, w2) =>
            match findOpt (matchesKey w1) opttab with
            | none => ⟨opttab, .unknownOpt, formatErrmsg "unknown opt " w1⟩
            | some _ => optInitLines (updateOpt (matchesKey w1) (optParseValue · w2) opttab) errmsg lines

/-- `file` is what `fopen` answers: the reason of its failure, or the bytes of
the file. -/
def optInitFromFile (opttab : List Opt) (errmsg : CString) (file : Except CString (List UInt8)) : OptResult :=
  match file with
  | .error reason => ⟨opttab, .configFileOpenFailed, formatErrmsg "fopen: " reason⟩
  | .ok bytes => optInitLines opttab errmsg (fileLines 1024 bytes.length bytes)

end Options
end Extlib
