import Extlib.Machine.Simulation
import Extlib.Memory.Chains
import Extlib.Text.Lines

namespace Extlib
namespace Errors

open Machine Memory Text

/-!
# The registry of error codes

`err.c`: a message for each error code, in a table of 919 buckets.  The bucket
of a code is found from its decimal spelling, each time anew.  Whatever codes
are registered and whichever of them share a bucket, the registry is a map that
is written once for each code.
-/

/-- A string handed over by its address, nothing for a null pointer.  The
registry keeps the address and never follows it. -/
abbrev Message := Option CString

structure Errx where
  errno : Int32
  errmsg : Message
  deriving DecidableEq

abbrev nrService : Nat := 919

/-- The static tables: the chains, and the list of all entries. -/
structure ErrxTables where
  errHlist : Vector (List Errx) nrService
  errList : List Errx

/-- Before the first call. -/
def ErrxTables.zeroed : ErrxTables := ⟨Vector.replicate nrService [], []⟩

def tagHashFn (tag : UInt32) : Fin nrService := Fin.ofNat nrService tag.toNat

/-- Byte `i` goes into byte `i % 4` of the word, the lowest being byte 0. -/
def calcTag (buf : List UInt8) : UInt32 :=
  buf.zipIdx.foldl (fun tag byte => tag ^^^ (byte.1.toUInt32 <<< UInt32.ofNat (8 * (byte.2 % 4)))) (-1)

/-- What `snprintf` leaves in a buffer of 32 bytes. -/
def errnoText (errno : Int32) : CString := CString.ofMemory ((formatInt errno).take (32 - 1) ++ [0])

def findErrx (tables : ErrxTables) (errno : Int32) : Option Errx :=
  let tag := calcTag (errnoText errno).chars
  tables.errHlist[tagHashFn tag].find? (·.errno = errno)

/-- The tables left behind and the value returned.  There is memory for the
entry: the code does not look at what `malloc` returns. -/
def errxRegister (tables : ErrxTables) (errno : Int32) (errmsg : Message) : ErrxTables × Int :=
  match findErrx tables errno with
  | some _ => (tables, -1)
  | none =>
      let err : Errx := ⟨errno, errmsg⟩
      let tag := calcTag (errnoText errno).chars
      (⟨tables.errHlist.set (tagHashFn tag) (err :: tables.errHlist[tagHashFn tag]), err :: tables.errList⟩, 0)

def unknownErrno : CString := CString.ofMemory (ascii "Unknown errno" ++ [0])

def errxStrerr (tables : ErrxTables) (errno : Int32) : Message :=
  match findErrx tables errno with
  | some err => err.errmsg
  | none => some unknownErrno

/-- `ERRX_ERRNO_MAP` with the numbers of the enumeration. -/
def errxErrnoMap : List (Int32 × CString) :=
  [(0, "OK"), (1, "no permission"), (2, "invalid argument"), (3, "operation failed"), (4, "operation timeout"),
    (5, "object exist"), (6, "object is busy")].map fun entry => (entry.1, CString.ofMemory (ascii entry.2 ++ [0]))

/-- `errx_init`, which is called before `main`. -/
def errxInit (tables : ErrxTables) : ErrxTables :=
  errxErrnoMap.foldl (fun tables entry => (errxRegister tables entry.1 (some entry.2)).1) tables

/-- `errx_strerr_base`, the messages of the enumeration alone. -/
def errxStrerrBase (errno : Int32) : Message :=
  match errxErrnoMap.find? (·.1 = errno) with
  | some entry => some entry.2
  | none => some unknownErrno

/-- `errx_fini`: each entry of the list is taken out of its chain and of the
list, and freed. -/
def errxFini (tables : ErrxTables) : ErrxTables :=
  tables.errList.foldl (fun tables pos => ⟨tables.errHlist.map (·.erase pos), tables.errList.erase pos⟩) tables

/-! ## Calls -/

inductive ErrxCall where
  | register (errno : Int32) (errmsg : Message)
  | strerr (errno : Int32)

inductive ErrxReply where
  | returned (value : Int)
  | message (errmsg : Message)

def errxStep (tables : ErrxTables) : ErrxCall -> ErrxTables × ErrxReply
  | .register errno errmsg =>
      ((errxRegister tables errno errmsg).1, .returned (errxRegister tables errno errmsg).2)
  | .strerr errno => (tables, .message (errxStrerr tables errno))

/-- What the registry is for: the first message written for a code stays. -/
def onceStep (map : OnceMap Int32 Message) : ErrxCall -> OnceMap Int32 Message × ErrxReply
  | .register errno errmsg => (map.write errno errmsg, .returned (if (map errno).isSome then -1 else 0))
  | .strerr errno => (map, .message ((map errno).getD (some unknownErrno)))

/-- The registrations among the calls, successful or not. -/
def registrations (calls : List ErrxCall) : List (Int32 × Message) :=
  calls.filterMap fun
    | .register errno errmsg => some (errno, errmsg)
    | .strerr _ => none

/-! ## The table of chains -/

/-- How the entries are filed. -/
def errxFiling : Filing Int32 Errx nrService where
  keyOf := Errx.errno
  bucketOf errno := tagHashFn (calcTag (errnoText errno).chars)

theorem findErrx_eq (tables : ErrxTables) (errno : Int32) :
    findErrx tables errno = errxFiling.find tables.errHlist errno := rfl

theorem errxRegister_of_found {tables : ErrxTables} {errno : Int32} (found : (findErrx tables errno).isSome)
    (errmsg : Message) : errxRegister tables errno errmsg = (tables, -1) := by
  rcases Option.isSome_iff_exists.mp found with ⟨err, here⟩
  rw [errxRegister, here]

theorem errxRegister_of_missing {tables : ErrxTables} {errno : Int32} (missing : findErrx tables errno = none)
    (errmsg : Message) :
    errxRegister tables errno errmsg =
      (⟨errxFiling.addHead tables.errHlist ⟨errno, errmsg⟩, ⟨errno, errmsg⟩ :: tables.errList⟩, 0) := by
  rw [errxRegister, missing]
  rfl

/-- Every code is registered once, in its own bucket, and the list has the
entries of all the buckets. -/
structure ErrxTables.Consistent (tables : ErrxTables) : Prop where
  filed : errxFiling.Filed tables.errHlist
  listed : ∀ err, err ∈ tables.errList ↔ ∃ bucket : Fin nrService, err ∈ tables.errHlist[bucket]
  distinct : (tables.errList.map Errx.errno).Nodup

theorem zeroed_consistent : ErrxTables.zeroed.Consistent where
  filed := Filing.filed_empty
  listed err := by
    simp [ErrxTables.zeroed]
  distinct := List.nodup_nil

theorem errxRegister_consistent {tables : ErrxTables} (consistent : tables.Consistent) (errno : Int32)
    (errmsg : Message) : (errxRegister tables errno errmsg).1.Consistent := by
  by_cases missing : findErrx tables errno = none
  · rw [errxRegister_of_missing missing]
    refine ⟨consistent.filed.addHead missing, fun err => ?_, ?_⟩
    · rw [List.mem_cons, consistent.listed, Filing.exists_mem_addHead]
    · refine List.nodup_cons.mpr ⟨fun member => ?_, consistent.distinct⟩
      rcases List.mem_map.mp member with ⟨err, listed, rfl⟩
      have found := consistent.filed.find_eq_some_iff.mpr ((consistent.listed err).mp listed)
      cases missing.symm.trans found
  · rw [errxRegister_of_found (Option.isSome_iff_ne_none.mpr missing)]
    exact consistent

/-! ## The refinement -/

/-- The message of each code that is registered. -/
def ErrxTables.messages (tables : ErrxTables) : OnceMap Int32 Message := fun errno =>
  (findErrx tables errno).map Errx.errmsg

@[simp] theorem zeroed_messages : ErrxTables.zeroed.messages = OnceMap.empty := by
  funext errno
  rw [ErrxTables.messages, findErrx_eq, Filing.find, ErrxTables.zeroed, Fin.getElem_fin, Vector.getElem_replicate]
  rfl

theorem errxStrerr_eq (tables : ErrxTables) (errno : Int32) :
    errxStrerr tables errno = (tables.messages errno).getD (some unknownErrno) := by
  rw [errxStrerr, ErrxTables.messages]
  cases findErrx tables errno <;> rfl

/-- A registration writes its message for its code, if there is none yet, and
for no other code. -/
theorem errxRegister_messages (tables : ErrxTables) (errno : Int32) (errmsg : Message) :
    (errxRegister tables errno errmsg).1.messages = tables.messages.write errno errmsg ∧
      (errxRegister tables errno errmsg).2 = if (tables.messages errno).isSome then -1 else 0 := by
  have present : (tables.messages errno).isSome = (findErrx tables errno).isSome := Option.isSome_map
  by_cases missing : findErrx tables errno = none
  · have fresh : tables.messages errno = none := by rw [ErrxTables.messages, missing, Option.map_none]
    rw [errxRegister_of_missing missing, fresh]
    refine ⟨?_, rfl⟩
    funext other
    rw [OnceMap.write_of_fresh fresh, ErrxTables.messages, findErrx_eq, Filing.find_addHead]
    change (if errno = other then _ else _ : Option Errx).map Errx.errmsg = _
    split
    · rfl
    · rfl
  · have found := Option.isSome_iff_ne_none.mpr missing
    rw [errxRegister_of_found found, OnceMap.write_of_written (present.trans found), present, if_pos found]
    exact ⟨rfl, rfl⟩

example : errxFiling.bucketOf 10001 = errxFiling.bucketOf 20002 ∧
    (errxRegister (errxRegister .zeroed 10001 none).1 20002 none).2 = 0 := by decide +kernel

/-- Each call does to the tables what it does to the map. -/
theorem errxStep_matches (tables : ErrxTables) (call : ErrxCall) :
    (errxStep tables call).1.messages = (onceStep tables.messages call).1 ∧
      (errxStep tables call).2 = (onceStep tables.messages call).2 := by
  cases call with
  | register errno errmsg =>
      have registered := errxRegister_messages tables errno errmsg
      exact ⟨registered.1, congrArg ErrxReply.returned registered.2⟩
  | strerr errno => exact ⟨rfl, congrArg ErrxReply.message (errxStrerr_eq tables errno)⟩

theorem errxStep_consistent (tables : ErrxTables) (call : ErrxCall) (consistent : tables.Consistent) :
    (errxStep tables call).1.Consistent := by
  cases call with
  | register errno errmsg => exact errxRegister_consistent consistent errno errmsg
  | strerr errno => exact consistent

/-- In every state that calls lead to, each code is registered once and in its
own bucket. -/
theorem run_consistent (calls : List ErrxCall) : (runAll errxStep .zeroed calls).1.Consistent :=
  runAll_invariant ErrxTables.Consistent errxStep_consistent zeroed_consistent

/-- The map after some calls has the first message registered for each code. -/
theorem runAll_onceStep (calls : List ErrxCall) (errno : Int32) :
    ∀ map : OnceMap Int32 Message, (runAll onceStep map calls).1 errno =
      (map errno).or (((registrations calls).find? (·.1 = errno)).map (·.2)) := by
  have writes : ∀ map : OnceMap Int32 Message, (runAll onceStep map calls).1 =
      (registrations calls).foldl (fun map entry => map.write entry.1 entry.2) map := by
    induction calls with
    | nil => exact fun _ => rfl
    | cons call calls inductionHypothesis =>
        intro map
        rw [runAll]
        dsimp only
        rw [inductionHypothesis]
        cases call with
        | register errno errmsg => rfl
        | strerr errno => rfl
  intro map
  rw [writes, OnceMap.foldl_write]

/-- From any tables, calls do what they do to the map. -/
theorem run_messages (tables : ErrxTables) (calls : List ErrxCall) :
    (runAll errxStep tables calls).1.messages = (runAll onceStep tables.messages calls).1 ∧
      (runAll errxStep tables calls).2 = (runAll onceStep tables.messages calls).2 :=
  runAll_related (fun (tables : ErrxTables) map => tables.messages = map)
    (fun tables _ call same => same ▸ errxStep_matches tables call) rfl

/-- Whatever has been called, by the constructor and after it: each call has
returned what the map returns, a registration returns 0 just when its code has
not been registered, and the message of a code is the first one registered for
it. -/
theorem run_refines_once (calls : List ErrxCall) :
    (runAll errxStep .zeroed calls).2 = (runAll onceStep OnceMap.empty calls).2 ∧
      ∀ errno, (∀ errmsg, (errxRegister (runAll errxStep .zeroed calls).1 errno errmsg).2 =
          if errno ∈ (registrations calls).map (·.1) then -1 else 0) ∧
        errxStrerr (runAll errxStep .zeroed calls).1 errno =
          (((registrations calls).find? (·.1 = errno)).map (·.2)).getD (some unknownErrno) := by
  have refines := run_messages .zeroed calls
  rw [zeroed_messages] at refines
  refine ⟨refines.2, fun errno => ?_⟩
  have first := congrFun refines.1 errno
  rw [runAll_onceStep, OnceMap.empty, Option.none_or] at first
  refine ⟨fun errmsg => ?_, ?_⟩
  · have known : (((registrations calls).find? (·.1 = errno)).map (·.2)).isSome ↔
        errno ∈ (registrations calls).map (·.1) := by
      rw [Option.isSome_map, List.find?_isSome, List.mem_map]
      simp only [decide_eq_true_iff]
    rw [(errxRegister_messages _ errno errmsg).2, first]
    simp only [known]
  · rw [errxStrerr_eq, first]

/-! ## The constructor and the destructor -/

/-- The calls of the constructor. -/
def initCalls : List ErrxCall := errxErrnoMap.map fun entry => .register entry.1 (some entry.2)

theorem errxInit_eq (tables : ErrxTables) : errxInit tables = (runAll errxStep tables initCalls).1 := by
  have general : ∀ (entries : List (Int32 × CString)) (tables : ErrxTables),
      entries.foldl (fun tables entry => (errxRegister tables entry.1 (some entry.2)).1) tables =
        (runAll errxStep tables (entries.map fun entry => .register entry.1 (some entry.2))).1 := by
    intro entries
    induction entries with
    | nil => exact fun _ => rfl
    | cons entry entries inductionHypothesis => exact fun tables => inductionHypothesis _
  exact general errxErrnoMap tables

theorem errxInit_messages (errno : Int32) :
    (errxInit .zeroed).messages errno = (errxErrnoMap.find? (·.1 = errno)).map fun entry => some entry.2 := by
  have entries : registrations initCalls = errxErrnoMap.map fun entry => (entry.1, some entry.2) := by
    rw [registrations, initCalls, List.filterMap_map, ← List.filterMap_eq_map]
    rfl
  rw [errxInit_eq, (run_messages .zeroed initCalls).1, zeroed_messages, runAll_onceStep, entries, List.find?_map,
    Option.map_map]
  rfl

/-- For the codes of the enumeration ever after, and for the others as long as
nobody registers them, the registry has the messages of `errx_strerr_base`. -/
theorem errxStrerr_init (calls : List ErrxCall) (errno : Int32)
    (unclaimed : errno ∈ errxErrnoMap.map (·.1) ∨ errno ∉ (registrations calls).map (·.1)) :
    errxStrerr (runAll errxStep (errxInit .zeroed) calls).1 errno = errxStrerrBase errno := by
  rw [errxStrerr_eq, (run_messages _ calls).1, runAll_onceStep, errxInit_messages, errxStrerrBase]
  cases base : errxErrnoMap.find? (·.1 = errno) with
  | some entry => rfl
  | none =>
      have unlisted : errno ∉ errxErrnoMap.map (·.1) := by
        intro listed
        rcases List.mem_map.mp listed with ⟨entry, member, same⟩
        exact List.find?_eq_none.mp base entry member (decide_eq_true same)
      have unregistered : (registrations calls).find? (·.1 = errno) = none := by
        rw [List.find?_eq_none]
        intro entry member same
        exact unclaimed.resolve_left unlisted (List.mem_map.mpr ⟨entry, member, of_decide_eq_true same⟩)
      rw [unregistered]
      rfl

private theorem foldl_fini (rest : List Errx) :
    ∀ chains : Vector (List Errx) nrService,
      (∀ bucket : Fin nrService, chains[bucket].Nodup ∧ ∀ err ∈ chains[bucket], err ∈ rest) ->
        rest.foldl (fun tables pos => ⟨tables.errHlist.map (·.erase pos), tables.errList.erase pos⟩) ⟨chains, rest⟩ =
          ErrxTables.zeroed := by
  induction rest with
  | nil =>
      intro chains within
      have empty : chains = Vector.replicate nrService [] := by
        apply Vector.ext
        intro index inside
        rw [Vector.getElem_replicate]
        exact List.eq_nil_iff_forall_not_mem.mpr fun err member =>
          List.not_mem_nil ((within ⟨index, inside⟩).2 err member)
      rw [List.foldl_nil, empty]
      rfl
  | cons pos rest inductionHypothesis =>
      intro chains within
      rw [List.foldl_cons, List.erase_cons_head]
      refine inductionHypothesis (chains.map (·.erase pos)) fun bucket => ?_
      rw [Fin.getElem_fin, Vector.getElem_map]
      refine ⟨(within bucket).1.erase pos, fun err member => ?_⟩
      rcases (within bucket).1.mem_erase_iff.mp member with ⟨other, old⟩
      exact ((List.mem_cons).mp ((within bucket).2 err old)).resolve_left other

/-- The destructor frees each entry once and leaves none in any chain. -/
theorem errxFini_run (calls : List ErrxCall) :
    (runAll errxStep .zeroed calls).1.errList.Nodup ∧ errxFini (runAll errxStep .zeroed calls).1 = .zeroed := by
  have consistent := run_consistent calls
  refine ⟨consistent.distinct.of_map, foldl_fini _ _ fun bucket => ⟨?_, ?_⟩⟩
  · exact (consistent.filed.once bucket).of_map
  · exact fun err member => (consistent.listed err).mpr ⟨bucket, member⟩

end Errors
end Extlib
