import Extlib.Machine.Simulation
import Extlib.Options.Script

namespace Extlib
namespace Options

open Text Machine

/-!
# The strings of an option table

Whether a string belongs to the table is told by the type of its option.  It is
static at first; `opt_parse_value` gives the option a block of its own and
changes the type, and `opt_fini` frees the block and leaves a null pointer, but
not the type it began with.

The model keeps what the pointers lead to.  A step has no result when an
assertion fails, or when a block is freed twice or a static string is freed.
-/

inductive Pointer where
  | null
  | static
  | block (address : Nat)
  deriving DecidableEq, Repr

/-- The blocks that have been allocated and not freed, and the next address. -/
structure Allocator where
  live : List Nat
  next : Nat
  deriving DecidableEq, Repr

namespace Allocator

def malloc (allocator : Allocator) : Allocator × Pointer :=
  (⟨allocator.next :: allocator.live, allocator.next + 1⟩, .block allocator.next)

def free (allocator : Allocator) : Pointer -> Option Allocator
  | .null => some allocator
  | .static => none
  | .block address =>
      if address ∈ allocator.live then some { allocator with live := allocator.live.erase address } else none

end Allocator

/-- An option and where its string is. -/
structure HeapOpt where
  opt : Opt
  pointer : Pointer
  deriving DecidableEq

namespace HeapOpt

/-- `opt_parse_value`. -/
def parse (text : CString) (allocator : Allocator) (entry : HeapOpt) : Option (Allocator × HeapOpt) :=
  match entry.opt.type with
  | .stringStatic => some (allocator.malloc.1, ⟨optParseValue entry.opt text, allocator.malloc.2⟩)
  | .string =>
      (allocator.free entry.pointer).map fun freed =>
        (freed.malloc.1, ⟨optParseValue entry.opt text, freed.malloc.2⟩)
  | _ => some (allocator, { entry with opt := optParseValue entry.opt text })

def change : Change -> Allocator -> HeapOpt -> Option (Allocator × HeapOpt)
  | .parse text, allocator, entry => entry.parse text allocator
  | .flag, allocator, entry => some (allocator, { entry with opt := Change.flag.apply entry.opt })

/-- What `opt_fini` does to an option. -/
def fini (allocator : Allocator) (entry : HeapOpt) : Option (Allocator × HeapOpt) :=
  if entry.opt.type = .string then
    if entry.opt.value = .s none then none
    else (allocator.free entry.pointer).map fun freed => (freed, ⟨{ entry.opt with value := .s none }, .null⟩)
  else some (allocator, entry)

/-- `opt_string` would return a null pointer. -/
def Freed (entry : HeapOpt) : Prop := entry.opt.type = .string ∧ entry.opt.value = .s none

end HeapOpt

/-- The table with its strings, and `errmsg`. -/
structure OptHeap where
  entries : List HeapOpt
  allocator : Allocator
  errmsg : CString
  deriving DecidableEq

namespace OptHeap

def opttab (heap : OptHeap) : List Opt := heap.entries.map (·.opt)

/-- Work on the option at an index. -/
def visit (work : Allocator -> HeapOpt -> Option (Allocator × HeapOpt)) (heap : OptHeap) (index : Nat) :
    Option OptHeap :=
  match heap.entries[index]? with
  | none => some heap
  | some entry =>
      (work heap.allocator entry).map fun (allocator, entry) =>
        { heap with entries := heap.entries.set index entry, allocator := allocator }

/-- `opt_init_from_arg` and `opt_init_from_file`, from what they assign. -/
def init (heap : OptHeap) (script : Script) : Option (OptHeap × OptErr) :=
  (script.assignments.foldlM (fun current assignment => visit (HeapOpt.change assignment.2) current assignment.1)
    heap).map fun after => ({ after with errmsg := script.errmsg }, script.result)

/-- `opt_fini`. -/
def fini (heap : OptHeap) : Option OptHeap :=
  (List.range heap.entries.length).foldlM (visit HeapOpt.fini) heap

end OptHeap

inductive OptCall where
  | args (argv : List CString)
  | file (file : Except CString (List UInt8))
  | fini

/-- What the call asks for. -/
def OptHeap.script (heap : OptHeap) : OptCall -> Script
  | .args argv => argsScript matchesShort heap.opttab heap.errmsg argv
  | .file file => fileScript matchesKey heap.opttab heap.errmsg file
  | .fini => ⟨[], .none, heap.errmsg⟩

def optStep (heap : OptHeap) (call : OptCall) : Option (OptHeap × OptErr) :=
  match call with
  | .fini => heap.fini.map fun after => (after, .none)
  | _ => heap.init (heap.script call)

/-! ## Tables -/

/-- The macros that initialise an entry. -/
inductive OptMacro where
  | string (optshort key val : CString)
  | int (optshort key : CString) (val : Int32)
  | bool (optshort key : CString) (val : Bool)

def OptMacro.entry : OptMacro -> HeapOpt
  | string optshort key val => ⟨⟨optshort, key, .s (some val), .stringStatic⟩, .static⟩
  | int optshort key val => ⟨⟨optshort, key, .i val, .integer⟩, .null⟩
  | bool optshort key val => ⟨⟨optshort, key, .b val, .bool⟩, .null⟩

/-- A table as the program begins with it. -/
def initialTable (macros : List OptMacro) (errmsg : CString) : OptHeap :=
  ⟨macros.map OptMacro.entry, ⟨[], 0⟩, errmsg⟩

/-- The call completes, and after an initialisation every string option has a
string. -/
def KeepsStrings (heap : OptHeap) (call : OptCall) : Prop :=
  ∃ after, optStep heap call = some after ∧
    (call ≠ .fini -> ∀ entry ∈ after.1.entries, entry.opt.type = .stringStatic ∨ entry.opt.type = .string ->
      entry.opt.value ≠ .s none)

/-- The option at an index has lost its string. -/
def FreedAt (heap : OptHeap) (index : Nat) : Prop :=
  ∃ entry, heap.entries[index]? = some entry ∧ entry.Freed

/-- No option has been freed that the call does not assign; `opt_fini` assigns
none. -/
def Renews (heap : OptHeap) (call : OptCall) : Prop :=
  ∀ index, FreedAt heap index -> index ∈ (heap.script call).assignments.map Prod.fst

/-! ## Ownership -/

/-- The pointer of an option is what its type says. -/
def Owns (allocator : Allocator) (entry : HeapOpt) : Prop :=
  match entry.opt.type with
  | .string =>
      entry.opt.value = .s none ∧ entry.pointer = .null ∨
        ∃ address text, entry.pointer = .block address ∧ address ∈ allocator.live ∧ entry.opt.value = .s (some text)
  | .stringStatic => entry.pointer = .static ∧ ∃ text, entry.opt.value = .s (some text)
  | _ => entry.pointer = .null

/-- Every option owns its string, and no two own the same. -/
structure Owned (heap : OptHeap) : Prop where
  owns : ∀ (index : Nat) (entry : HeapOpt), heap.entries[index]? = some entry -> Owns heap.allocator entry
  apart : ∀ (index other : Nat) (entry entry' : HeapOpt) (address : Nat), heap.entries[index]? = some entry ->
    heap.entries[other]? = some entry' -> entry.pointer = .block address -> entry'.pointer = .block address ->
      index = other
  fresh : ∀ address ∈ heap.allocator.live, address < heap.allocator.next

/-- What work on one option may do: the option owns its string again, a block
it has is its own or new, and the blocks of others stay. -/
structure Reassigned (allocator after : Allocator) (entry result : HeapOpt) : Prop where
  owns : Owns after result
  kept : ∀ address ∈ allocator.live, entry.pointer ≠ .block address -> address ∈ after.live
  own : ∀ address, result.pointer = .block address -> allocator.next ≤ address ∨ entry.pointer = .block address
  fresh : ∀ address ∈ after.live, address < after.next

section Work

variable {allocator : Allocator} {entry : HeapOpt}

theorem Owns.block_live (owns : Owns allocator entry) {address : Nat} (pointer : entry.pointer = .block address) :
    address ∈ allocator.live := by
  unfold Owns at owns
  split at owns
  · rcases owns with ⟨_, null⟩ | ⟨own, _, block, live, _⟩
    · rw [pointer] at null
      cases null
    · rw [pointer] at block
      cases block
      exact live
  · rw [pointer] at owns
    cases owns.1
  · rw [pointer] at owns
    cases owns

theorem Owns.mono {after : Allocator} (owns : Owns allocator entry)
    (kept : ∀ address, entry.pointer = .block address -> address ∈ after.live) : Owns after entry := by
  unfold Owns at owns ⊢
  split at owns
  · rcases owns with null | ⟨address, text, block, _, value⟩
    · exact Or.inl null
    · exact Or.inr ⟨address, text, block, kept address block, value⟩
  · exact owns
  · exact owns

/-- The string of an option that owns it can be freed. -/
theorem Owns.free (owns : Owns allocator entry) (type : entry.opt.type = .string) :
    ∃ freed, allocator.free entry.pointer = some freed ∧ freed.next = allocator.next ∧
      (∀ address ∈ allocator.live, entry.pointer ≠ .block address -> address ∈ freed.live) ∧
      ∀ address ∈ freed.live, address ∈ allocator.live := by
  unfold Owns at owns
  rw [type] at owns
  rcases owns with ⟨_, null⟩ | ⟨address, text, block, live, _⟩
  · rw [null]
    exact ⟨allocator, rfl, rfl, fun _ live _ => live, fun _ live => live⟩
  · rw [block]
    refine ⟨_, if_pos live, rfl, ?_, fun _ => List.mem_of_mem_erase⟩
    intro other alive different
    refine (List.mem_erase_of_ne ?_).mpr alive
    rintro rfl
    exact different rfl

/-- A string gets a block of its own. -/
private theorem reassigned_malloc {freed : Allocator} {text : CString} {opt : Opt}
    (kept : ∀ address ∈ allocator.live, entry.pointer ≠ .block address -> address ∈ freed.live)
    (next : freed.next = allocator.next) (fresh : ∀ address ∈ freed.live, address < freed.next)
    (type : opt.type = .string) (value : opt.value = .s (some text)) :
    Reassigned allocator freed.malloc.1 entry ⟨opt, freed.malloc.2⟩ where
  owns := by
    unfold Owns
    dsimp only
    rw [type]
    exact Or.inr ⟨freed.next, text, rfl, List.mem_cons_self, value⟩
  kept := fun address live other => List.mem_cons_of_mem _ (kept address live other)
  own := by
    rintro address ⟨⟩
    exact Or.inl (Nat.le_of_eq next.symm)
  fresh := by
    intro address live
    rcases List.mem_cons.mp live with rfl | old
    · exact Nat.lt_succ_self _
    · exact Nat.lt_succ_of_lt (fresh address old)

/-- Work that leaves the pointer and the blocks alone. -/
private theorem reassigned_same (owns : Owns allocator entry) (fresh : ∀ address ∈ allocator.live, address < allocator.next)
    {opt : Opt} (type : opt.type = entry.opt.type) (plain : entry.opt.type ≠ .string ∧ entry.opt.type ≠ .stringStatic) :
    Reassigned allocator allocator entry { entry with opt := opt } where
  owns := by
    unfold Owns at owns ⊢
    dsimp only
    rw [type]
    split
    case h_1 string => exact absurd string plain.1
    case h_2 static => exact absurd static plain.2
    case h_3 => simpa only [plain] using owns
  kept := fun _ live _ => live
  own := fun _ block => Or.inr block
  fresh := fresh

/-- Only a static string changes its type. -/
theorem type_optParseValue {opt : Opt} (other : opt.type ≠ .stringStatic) (text : CString) :
    (optParseValue opt text).type = opt.type := by
  unfold optParseValue
  split <;> simp_all

/-- What is done to an option that owns its string succeeds, and it is not
freed afterwards. -/
theorem change_reassigned (owns : Owns allocator entry) (fresh : ∀ address ∈ allocator.live, address < allocator.next)
    (change : Change) (flag : change = .flag -> entry.opt.type = .bool) :
    ∃ after result, entry.change change allocator = some (after, result) ∧ Reassigned allocator after entry result ∧
      ¬ result.Freed ∧ result.opt = change.apply entry.opt := by
  cases change with
  | flag =>
      have bool := flag rfl
      refine ⟨allocator, _, rfl, reassigned_same owns fresh rfl ?_, ?_, rfl⟩
      · rw [bool]
        exact ⟨OptType.noConfusion, OptType.noConfusion⟩
      · rintro ⟨type, _⟩
        cases bool.symm.trans type
  | parse text =>
      by_cases static : entry.opt.type = .stringStatic
      case pos =>
        have type : (optParseValue entry.opt text).type = .string := by rw [optParseValue, static]
        have value : (optParseValue entry.opt text).value = .s (some (trim text)) := by rw [optParseValue, static]
        refine ⟨allocator.malloc.1, ⟨optParseValue entry.opt text, allocator.malloc.2⟩, ?_,
          reassigned_malloc (fun _ live _ => live) rfl fresh type value, ?_, rfl⟩
        · rw [HeapOpt.change, HeapOpt.parse, static]
        · rintro ⟨_, null⟩
          cases value.symm.trans null
      by_cases string : entry.opt.type = .string
      case pos =>
        rcases owns.free string with ⟨freed, frees, next, kept, old⟩
        have type : (optParseValue entry.opt text).type = .string := (type_optParseValue static text).trans string
        have value : (optParseValue entry.opt text).value = .s (some (trim text)) := by rw [optParseValue, string]
        refine ⟨freed.malloc.1, ⟨optParseValue entry.opt text, freed.malloc.2⟩, ?_,
          reassigned_malloc kept next (fun address live => next ▸ fresh address (old address live)) type value, ?_, rfl⟩
        · rw [HeapOpt.change, HeapOpt.parse, string]
          dsimp only
          rw [frees, Option.map_some]
        · rintro ⟨_, null⟩
          cases value.symm.trans null
      have type := type_optParseValue static text
      have plain : entry.parse text allocator = some (allocator, { entry with opt := optParseValue entry.opt text }) := by
        unfold HeapOpt.parse
        split
        case h_1 same => exact absurd same static
        case h_2 same => exact absurd same string
        case h_3 => rfl
      refine ⟨allocator, _, plain, reassigned_same owns fresh type ⟨string, static⟩, ?_, rfl⟩
      rintro ⟨same, _⟩
      exact string (type.symm.trans same)

/-- `opt_fini` succeeds on an option that owns a string, -/
theorem fini_reassigned (owns : Owns allocator entry) (fresh : ∀ address ∈ allocator.live, address < allocator.next)
    (unfreed : ¬ entry.Freed) :
    ∃ after result, entry.fini allocator = some (after, result) ∧ Reassigned allocator after entry result := by
  by_cases type : entry.opt.type = .string
  · rcases owns.free type with ⟨freed, frees, next, kept, old⟩
    refine ⟨freed, ⟨{ entry.opt with value := .s none }, .null⟩, ?_, ?_⟩
    · rw [HeapOpt.fini, if_pos type, if_neg fun value => unfreed ⟨type, value⟩, frees, Option.map_some]
    · refine ⟨?_, kept, ?_, fun address live => next ▸ fresh address (old address live)⟩
      · unfold Owns
        dsimp only
        rw [type]
        exact Or.inl ⟨rfl, rfl⟩
      · rintro address ⟨⟩
  · exact ⟨allocator, entry, if_neg type, owns, fun _ live _ => live, fun _ block => Or.inr block, fresh⟩

/-- and on no other. -/
theorem fini_freed (freed : entry.Freed) : entry.fini allocator = none := by
  rw [HeapOpt.fini, if_pos freed.1, if_pos freed.2]

end Work

/-! ## Calls -/

section Calls

variable {heap : OptHeap} {opttab : List Opt}

/-- Work on one option keeps all of them owned. -/
theorem Owned.set (owned : Owned heap) {index : Nat} {entry result : HeapOpt} {after : Allocator}
    (listed : heap.entries[index]? = some entry) (reassigned : Reassigned heap.allocator after entry result) :
    Owned { heap with entries := heap.entries.set index result, allocator := after } := by
  have inside := (List.getElem?_eq_some_iff.mp listed).1
  -- every option is the one worked on, or was there before
  have cases_at : ∀ (other : Nat) (found : HeapOpt), (heap.entries.set index result)[other]? = some found ->
      other = index ∧ found = result ∨ other ≠ index ∧ heap.entries[other]? = some found := by
    intro other found here
    by_cases same : other = index
    · subst same
      rw [List.getElem?_set_self inside, Option.some_inj] at here
      exact Or.inl ⟨rfl, here.symm⟩
    · rw [List.getElem?_set_ne (Ne.symm same)] at here
      exact Or.inr ⟨same, here⟩
  -- a block of the option worked on is nobody else's
  have alone : ∀ (other : Nat) (found : HeapOpt) (address : Nat), other ≠ index -> heap.entries[other]? = some found ->
      found.pointer = .block address -> result.pointer ≠ .block address := by
    intro other found address different here block own
    rcases reassigned.own address own with new | old
    · exact absurd (owned.fresh address ((owned.owns other found here).block_live block)) (Nat.not_lt.mpr new)
    · exact different (owned.apart other index found entry address here listed block old)
  refine ⟨?_, ?_, reassigned.fresh⟩
  · intro other found here
    rcases cases_at other found here with ⟨_, rfl⟩ | ⟨different, here⟩
    · exact reassigned.owns
    · refine (owned.owns other found here).mono ?_
      intro address block
      refine reassigned.kept address ((owned.owns other found here).block_live block) ?_
      exact fun own => different (owned.apart other index found entry address here listed block own)
  · intro first second found found' address here there block block'
    rcases cases_at first found here with ⟨rfl, rfl⟩ | ⟨different, old⟩
    · rcases cases_at second found' there with ⟨same, _⟩ | ⟨different, old⟩
      · exact same.symm
      · exact absurd block (alone second found' address different old block')
    · rcases cases_at second found' there with ⟨rfl, rfl⟩ | ⟨_, old'⟩
      · exact absurd block' (alone first found address different old block)
      · exact owned.apart first second found found' address old old' block block'

theorem freedAt_set {index other : Nat} {result : HeapOpt} {after : Allocator} (different : other ≠ index) :
    FreedAt { heap with entries := heap.entries.set index result, allocator := after } other ↔ FreedAt heap other := by
  unfold FreedAt
  dsimp only
  rw [List.getElem?_set_ne (Ne.symm different)]

/-- An assignment succeeds, and gives the option a string. -/
theorem visit_change (owned : Owned heap) {index : Nat} {change : Change}
    (flag : change = .flag -> ∀ entry, heap.entries[index]? = some entry -> entry.opt.type = .bool) :
    ∃ after, OptHeap.visit (HeapOpt.change change) heap index = some after ∧ Owned after ∧
      after.opttab = applyAt heap.opttab (index, change) ∧
      ∀ other, FreedAt after other ↔ FreedAt heap other ∧ other ≠ index := by
  cases listed : heap.entries[index]? with
  | none =>
      refine ⟨heap, by rw [OptHeap.visit, listed], owned, ?_, ?_⟩
      · rw [applyAt, List.modify_eq_self]
        rw [OptHeap.opttab, List.length_map]
        exact List.getElem?_eq_none_iff.mp listed
      · intro other
        refine (and_iff_left_of_imp ?_).symm
        rintro ⟨entry, here, _⟩ rfl
        rw [listed] at here
        cases here
  | some entry =>
      rcases change_reassigned (owned.owns index entry listed) owned.fresh change
        (fun isFlag => flag isFlag entry listed) with ⟨after, result, changes, reassigned, unfreed, same⟩
      have inside := (List.getElem?_eq_some_iff.mp listed).1
      refine ⟨{ heap with entries := heap.entries.set index result, allocator := after }, ?_,
        owned.set listed reassigned, ?_, ?_⟩
      · rw [OptHeap.visit, listed]
        dsimp only
        rw [changes, Option.map_some]
      · apply List.ext_getElem?
        intro other
        rw [OptHeap.opttab, OptHeap.opttab, applyAt, List.getElem?_map]
        dsimp only
        by_cases own : index = other
        · subst own
          rw [List.getElem?_set_self inside, List.getElem?_modify_eq, List.getElem?_map, listed, Option.map_some, same]
          rfl
        · rw [List.getElem?_set_ne own, List.getElem?_modify_ne _ _ own, List.getElem?_map]
      · intro other
        by_cases own : other = index
        · subst own
          refine iff_of_false ?_ (fun both => both.2 rfl)
          rintro ⟨found, here, freed⟩
          dsimp only at here
          rw [List.getElem?_set_self inside, Option.some_inj] at here
          exact unfreed (here ▸ freed)
        · rw [freedAt_set own]
          exact (and_iff_left own).symm

/-- All assignments of a call. -/
theorem foldlM_change (assignments : List (Nat × Change)) (flags : FlagsOnly opttab assignments) :
    ∀ {heap : OptHeap}, Owned heap -> SameLabels opttab heap.opttab ->
      ∃ after,
        assignments.foldlM (fun current assignment => OptHeap.visit (HeapOpt.change assignment.2) current assignment.1)
          heap = some after ∧
        Owned after ∧ after.opttab = assignments.foldl applyAt heap.opttab ∧
        ∀ other, FreedAt after other ↔ FreedAt heap other ∧ other ∉ assignments.map Prod.fst := by
  induction assignments with
  | nil => exact fun owned _ => ⟨_, rfl, owned, rfl, fun _ => (and_iff_left List.not_mem_nil).symm⟩
  | cons assignment assignments inductionHypothesis =>
      intro heap owned labels
      have isFlag : assignment.2 = .flag -> ∀ entry, heap.entries[assignment.1]? = some entry ->
          entry.opt.type = .bool := by
        intro flag entry listed
        rcases flags assignment List.mem_cons_self flag with ⟨opt, here, bool⟩
        have same : (heap.opttab.map label)[assignment.1]? = (opttab.map label)[assignment.1]? := by rw [labels]
        rw [List.getElem?_map, List.getElem?_map, here, OptHeap.opttab, List.getElem?_map, listed, Option.map_some,
          Option.map_some, Option.map_some, Option.some_inj] at same
        exact (decide_eq_decide.mp (congrArg (fun label => label.2.2) same)).mpr bool
      rcases visit_change owned isFlag with ⟨next, visits, stillOwned, table, freed⟩
      have nextLabels : SameLabels opttab next.opttab := by
        rw [table]
        exact sameLabels_applyAt labels assignment
      rcases inductionHypothesis (fun other member => flags other (List.mem_cons_of_mem _ member)) stillOwned nextLabels
        with ⟨after, changes, finalOwned, finalTable, finalFreed⟩
      refine ⟨after, ?_, finalOwned, ?_, ?_⟩
      · rw [List.foldlM_cons, visits]
        exact changes
      · rw [finalTable, table, List.foldl_cons]
      · intro other
        rw [finalFreed, freed, List.map_cons, List.mem_cons, not_or, and_assoc]

/-- `opt_fini` goes on as long as the options have their strings. -/
theorem visit_fini (owned : Owned heap) {index : Nat} (unfreed : ¬ FreedAt heap index) :
    ∃ after, OptHeap.visit HeapOpt.fini heap index = some after ∧ Owned after ∧
      ∀ other, other ≠ index -> (FreedAt after other ↔ FreedAt heap other) := by
  cases listed : heap.entries[index]? with
  | none => exact ⟨heap, by rw [OptHeap.visit, listed], owned, fun _ _ => Iff.rfl⟩
  | some entry =>
      rcases fini_reassigned (owned.owns index entry listed) owned.fresh (fun freed => unfreed ⟨entry, listed, freed⟩)
        with ⟨after, result, frees, reassigned⟩
      refine ⟨{ heap with entries := heap.entries.set index result, allocator := after }, ?_,
        owned.set listed reassigned, fun other different => freedAt_set different⟩
      rw [OptHeap.visit, listed]
      dsimp only
      rw [frees, Option.map_some]

theorem foldlM_fini {indices : List Nat} (distinct : indices.Nodup) :
    ∀ {heap : OptHeap}, Owned heap ->
      ((∃ after, indices.foldlM (OptHeap.visit HeapOpt.fini) heap = some after) ↔
          ∀ index ∈ indices, ¬ FreedAt heap index) ∧
        ∀ after, indices.foldlM (OptHeap.visit HeapOpt.fini) heap = some after -> Owned after := by
  induction indices with
  | nil =>
      intro heap owned
      refine ⟨iff_of_true ⟨heap, rfl⟩ fun _ member => absurd member List.not_mem_nil, ?_⟩
      rintro after ⟨⟩
      exact owned
  | cons index indices inductionHypothesis =>
      intro heap owned
      rcases List.nodup_cons.mp distinct with ⟨once, rest⟩
      rw [List.foldlM_cons]
      by_cases freed : FreedAt heap index
      · have stops : OptHeap.visit HeapOpt.fini heap index = none := by
          rcases freed with ⟨entry, listed, freed⟩
          rw [OptHeap.visit, listed]
          dsimp only
          rw [fini_freed freed, Option.map_none]
        rw [stops]
        refine ⟨iff_of_false ?_ fun every => every index List.mem_cons_self freed, ?_⟩
        · rintro ⟨after, ⟨⟩⟩
        · rintro after ⟨⟩
      · rcases visit_fini owned freed with ⟨next, visits, stillOwned, others⟩
        rcases inductionHypothesis rest stillOwned with ⟨completes, finalOwned⟩
        rw [visits]
        refine ⟨completes.trans ?_, finalOwned⟩
        rw [List.forall_mem_cons]
        refine Iff.trans ?_ (and_iff_right freed).symm
        have different : ∀ other ∈ indices, other ≠ index := fun other member same => once (same ▸ member)
        exact forall₂_congr fun other member => not_congr (others other (different other member))

/-- Every option with a string type has a string exactly when none is freed. -/
theorem strings_iff (owned : Owned heap) :
    (∀ entry ∈ heap.entries, entry.opt.type = .stringStatic ∨ entry.opt.type = .string -> entry.opt.value ≠ .s none) ↔
      ∀ index, ¬ FreedAt heap index := by
  constructor
  · rintro strings index ⟨entry, listed, type, null⟩
    exact strings entry (List.mem_of_getElem? listed) (Or.inr type) null
  · intro none entry member type null
    rcases List.mem_iff_getElem?.mp member with ⟨index, listed⟩
    rcases type with static | string
    · have owns := owned.owns index entry listed
      unfold Owns at owns
      rw [static] at owns
      rcases owns.2 with ⟨text, value⟩
      cases value.symm.trans null
    · exact none index ⟨entry, listed, string, null⟩

/-- An initialisation leaves a string in every option exactly when it assigns
the freed ones. -/
theorem init_keepsStrings (owned : Owned heap) {script : Script} (flags : FlagsOnly heap.opttab script.assignments) :
    ∃ after, heap.init script = some (after, script.result) ∧ Owned after ∧
      after.opttab = (script.apply heap.opttab).opttab ∧
      ((∀ entry ∈ after.entries, entry.opt.type = .stringStatic ∨ entry.opt.type = .string ->
          entry.opt.value ≠ .s none) ↔
        ∀ index, FreedAt heap index -> index ∈ script.assignments.map Prod.fst) := by
  rcases foldlM_change script.assignments flags owned rfl with ⟨after, changes, stillOwned, table, freed⟩
  have named : Owned { after with errmsg := script.errmsg } := ⟨stillOwned.owns, stillOwned.apart, stillOwned.fresh⟩
  refine ⟨{ after with errmsg := script.errmsg }, ?_, named, table, ?_⟩
  · rw [OptHeap.init, changes, Option.map_some]
  · rw [strings_iff named]
    refine forall_congr' fun index => ?_
    have here : FreedAt { after with errmsg := script.errmsg } index ↔ FreedAt after index := Iff.rfl
    rw [here, freed, not_and, not_not]

theorem script_flagsOnly (call : OptCall) : FlagsOnly heap.opttab (heap.script call).assignments := by
  cases call with
  | args argv => exact argScript_flagsOnly matchesShort _ 0 argv
  | file file =>
      cases file with
      | error reason => exact fun _ member => absurd member List.not_mem_nil
      | ok bytes => exact lineScript_flagsOnly matchesKey _
  | fini => exact fun _ member => absurd member List.not_mem_nil

theorem fini_completes_iff (owned : Owned heap) :
    (∃ after, heap.fini = some after) ↔ ∀ index, ¬ FreedAt heap index := by
  rw [OptHeap.fini, (foldlM_fini List.nodup_range owned).1]
  constructor
  · rintro every index ⟨entry, listed, freed⟩
    have inside := (List.getElem?_eq_some_iff.mp listed).1
    exact every index (List.mem_range.mpr inside) ⟨entry, listed, freed⟩
  · exact fun none index _ => none index

/-- A call keeps the strings exactly when it renews what has been freed. -/
theorem keepsStrings_iff (owned : Owned heap) (call : OptCall) : KeepsStrings heap call ↔ Renews heap call := by
  have initialises : ∀ script : Script, FlagsOnly heap.opttab script.assignments ->
      ((∃ after, heap.init script = some after ∧
          ∀ entry ∈ after.1.entries, entry.opt.type = .stringStatic ∨ entry.opt.type = .string ->
            entry.opt.value ≠ .s none) ↔
        ∀ index, FreedAt heap index -> index ∈ script.assignments.map Prod.fst) := by
    intro script flags
    rcases init_keepsStrings owned flags with ⟨after, completes, _, _, strings⟩
    rw [← strings, completes]
    simp
  unfold KeepsStrings Renews
  cases call with
  | args argv =>
      rw [← initialises _ (script_flagsOnly (.args argv))]
      simp [optStep]
  | file file =>
      rw [← initialises _ (script_flagsOnly (.file file))]
      simp [optStep]
  | fini =>
      have completes := fini_completes_iff owned
      simp only [OptHeap.script, Script.assignments, List.filterMap_nil, List.map_nil, List.not_mem_nil]
      rw [← completes]
      simp [optStep]

/-- The tables of the two front ends are those with the strings left out. -/
theorem optStep_args (owned : Owned heap) (argv : List CString) :
    ∃ after, optStep heap (.args argv) = some (after, (optInitFromArg heap.opttab heap.errmsg argv).result) ∧
      after.opttab = (optInitFromArg heap.opttab heap.errmsg argv).opttab := by
  rcases init_keepsStrings owned (script_flagsOnly (.args argv)) with ⟨after, completes, _, table, _⟩
  rw [optInitFromArg_script]
  exact ⟨after, completes, table⟩

theorem optStep_file (owned : Owned heap) (file : Except CString (List UInt8)) :
    ∃ after, optStep heap (.file file) = some (after, (optInitFromFile heap.opttab heap.errmsg file).result) ∧
      after.opttab = (optInitFromFile heap.opttab heap.errmsg file).opttab := by
  rcases init_keepsStrings owned (script_flagsOnly (.file file)) with ⟨after, completes, _, table, _⟩
  rw [optInitFromFile_script]
  exact ⟨after, completes, table⟩

theorem Owned.step (owned : Owned heap) {call : OptCall} {after : OptHeap × OptErr}
    (steps : optStep heap call = some after) : Owned after.1 := by
  have initialises : ∀ script : Script, FlagsOnly heap.opttab script.assignments ->
      heap.init script = some after -> Owned after.1 := by
    intro script flags steps
    rcases init_keepsStrings owned flags with ⟨next, completes, still, _⟩
    rw [completes] at steps
    cases steps
    exact still
  cases call with
  | args argv => exact initialises _ (script_flagsOnly (.args argv)) steps
  | file file => exact initialises _ (script_flagsOnly (.file file)) steps
  | fini =>
      rcases Option.map_eq_some_iff.mp steps with ⟨next, completes, rfl⟩
      exact (foldlM_fini List.nodup_range owned).2 next completes

theorem initialTable_owned (macros : List OptMacro) (errmsg : CString) : Owned (initialTable macros errmsg) := by
  have entry_of : ∀ (index : Nat) (entry : HeapOpt), (initialTable macros errmsg).entries[index]? = some entry ->
      ∃ made : OptMacro, made.entry = entry := by
    intro index entry listed
    rcases List.mem_map.mp (List.mem_of_getElem? listed) with ⟨made, _, same⟩
    exact ⟨made, same⟩
  refine ⟨?_, ?_, ?_⟩
  · intro index entry listed
    rcases entry_of index entry listed with ⟨made, rfl⟩
    cases made with
    | string optshort key val => exact ⟨rfl, val, rfl⟩
    | int optshort key val => exact rfl
    | bool optshort key val => exact rfl
  · intro index other entry entry' address listed _ block
    rcases entry_of index entry listed with ⟨made, rfl⟩
    cases made <;> cases block
  · exact fun address live => absurd live List.not_mem_nil

end Calls

/-! ## Runs -/

/-- In a run of initialisations, some of which may fail, and `opt_fini`, every
call does well exactly when every call renews what has been freed before. -/
theorem run_keepsStrings_iff (macros : List OptMacro) (errmsg : CString) (calls : List OptCall) :
    EveryInput optStep KeepsStrings (initialTable macros errmsg) calls ↔
      EveryInput optStep Renews (initialTable macros errmsg) calls := by
  have anything : EveryInput optStep (fun _ _ => True) (initialTable macros errmsg) calls :=
    everyInput_of_forall (fun _ _ => trivial) _
  refine everyInput_iff Owned (fun _ call _ owned => keepsStrings_iff owned call) ?_ anything
    (initialTable_owned macros errmsg)
  exact fun _ _ _ _ owned _ steps => owned.step steps

private def messageShort : CString := CString.ofMemory (ascii "-m:" ++ [0])

private def messageKey : CString := CString.ofMemory (ascii "message" ++ [0])

private def messageText : CString := CString.ofMemory (ascii "hello" ++ [0])

/-- A string option is set and freed, and freed once more. -/
theorem secondFini_asserts : ¬ ∀ (macros : List OptMacro) (errmsg : CString) (calls : List OptCall),
    EveryInput optStep KeepsStrings (initialTable macros errmsg) calls := by
  intro always
  have every := always [.string messageShort messageKey messageText] messageText
    [.args [messageShort.slice 0 2, messageText], .fini, .fini]
  have reached : ∃ set freed : OptHeap × OptErr,
      optStep (initialTable [.string messageShort messageKey messageText] messageText)
        (.args [messageShort.slice 0 2, messageText]) = some set ∧
      optStep set.1 .fini = some freed ∧ optStep freed.1 .fini = none := by
    refine ⟨_, _, rfl, rfl, ?_⟩
    decide +kernel
  rcases reached with ⟨set, freed, first, second, third⟩
  rcases ((every.2 set first).2 freed second).1 with ⟨after, completes, _⟩
  rw [third] at completes
  cases completes

end Options
end Extlib
