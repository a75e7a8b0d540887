import Extlib.Memory.Circular
import Extlib.Machine.Simulation

namespace Extlib
namespace Buffer

open Memory Machine

/-!
# The ring buffer

`ringbuf.c` function by function.  The block is `rawbuf`, and its length is
`size`; the unread bytes run from `offsetOut` to `offsetIn`, around the end of
the block where `offsetIn` is the smaller of the two.  Nothing but the two
offsets says how many bytes that is, so a buffer whose offsets meet is empty,
and a buffer filled to its last cell looks like one.
-/

structure Ringbuf where
  rawbuf : List UInt8
  offsetIn : Nat
  offsetOut : Nat
  deriving DecidableEq, Repr

def ringbufDefaultSize : Nat := 4096

def ringbufNew (size : Nat) : Ringbuf where
  rawbuf := List.replicate (if size = 0 then ringbufDefaultSize else size) 0
  offsetIn := 0
  offsetOut := 0

variable (ring : Ringbuf)

def ringbufSize : Nat := ring.rawbuf.length

def ringbufUsed : Nat :=
  if ring.offsetIn ≥ ring.offsetOut then ring.offsetIn - ring.offsetOut
  else ring.offsetIn + (ringbufSize ring - ring.offsetOut)

def ringbufSpare : Nat := ringbufSize ring - ringbufUsed ring

def ringbufWriteAdvance (len : Nat) : Option Ringbuf :=
  if ringbufSpare ring ≥ len then
    some { ring with offsetIn := (ring.offsetIn + len) % ringbufSize ring }
  else none

def ringbufReadAdvance (len : Nat) : Option Ringbuf :=
  if ringbufUsed ring ≥ len then
    some { ring with offsetOut := (ring.offsetOut + len) % ringbufSize ring }
  else none

/-- `memcpy` into the block. -/
def ringbufStore (offset : Nat) (bytes : List UInt8) : Ringbuf :=
  { ring with rawbuf := overwrite ring.rawbuf offset bytes }

/-- The bytes copied in, in at most two pieces, and how many they are. -/
def ringbufCopyIn (bytes : List UInt8) : Ringbuf × Nat :=
  let len := bytes.length
  if ring.offsetIn ≥ ring.offsetOut then
    let spareRight := ringbufSize ring - ring.offsetIn
    let spareLeft := ring.offsetOut
    if len ≤ spareRight then (ringbufStore ring ring.offsetIn bytes, len)
    else
      let right := ringbufStore ring ring.offsetIn (bytes.take spareRight)
      if len - spareRight ≤ spareLeft then (ringbufStore right 0 (bytes.drop spareRight), len)
      else (ringbufStore right 0 ((bytes.drop spareRight).take spareLeft), spareRight + spareLeft)
  else
    let spare := ring.offsetOut - ring.offsetIn
    if len ≤ spare then (ringbufStore ring ring.offsetIn bytes, len)
    else (ringbufStore ring ring.offsetIn (bytes.take spare), spare)

/-- The result is the number of bytes accepted. -/
def ringbufWrite (bytes : List UInt8) : Option (Ringbuf × Nat) :=
  if bytes.length < ringbufSize ring then
    let copied := ringbufCopyIn ring bytes
    (ringbufWriteAdvance copied.1 copied.2).map fun written => (written, copied.2)
  else none

/-- The bytes copied out.  Where they run around the end of the block the
source copies everything up to the end before it subtracts what is left; with
a smaller `size` the difference wraps and the copy leaves the caller's memory,
which is `none`. -/
def ringbufPeek (size : Nat) : Option (List UInt8) :=
  let cpyCnt := if size < ringbufUsed ring then size else ringbufUsed ring
  if ring.offsetIn ≥ ring.offsetOut then some (window ring.rawbuf ring.offsetOut cpyCnt)
  else
    let cpyRight := ringbufSize ring - ring.offsetOut
    if cpyRight ≤ cpyCnt then
      some (window ring.rawbuf ring.offsetOut cpyRight ++ window ring.rawbuf 0 (cpyCnt - cpyRight))
    else none

/-- The bytes read and the buffer after them. -/
def ringbufRead (size : Nat) : Option (Ringbuf × List UInt8) :=
  (ringbufPeek ring size).bind fun bytes =>
    (ringbufReadAdvance ring bytes.length).map fun advanced => (advanced, bytes)

/-! ## How far the offsets tell the fill level -/

variable {ring}

structure Ringbuf.Valid (ring : Ringbuf) : Prop where
  offsetIn : ring.offsetIn < ring.rawbuf.length
  offsetOut : ring.offsetOut < ring.rawbuf.length

theorem ringbufNew_valid (size : Nat) : (ringbufNew size).Valid := by
  have positive : 0 < (ringbufNew size).rawbuf.length := by
    simp only [ringbufNew, List.length_replicate, ringbufDefaultSize]
    split <;> omega
  exact ⟨positive, positive⟩

/-- A valid buffer always has a cell to spare. -/
theorem Ringbuf.Valid.used_lt (valid : ring.Valid) : ringbufUsed ring < ringbufSize ring := by
  have inBound := valid.offsetIn
  have outBound := valid.offsetOut
  unfold ringbufUsed ringbufSize
  split <;> omega

theorem Ringbuf.Valid.spare_add_used (valid : ring.Valid) :
    ringbufSpare ring + ringbufUsed ring = ringbufSize ring := by
  have bound := valid.used_lt
  unfold ringbufSpare
  omega

/-- Only the block changes, not its length, and as many bytes are copied as
there is room for. -/
theorem ringbufCopyIn_spec (valid : ring.Valid) (bytes : List UInt8) :
    (ringbufCopyIn ring bytes).2 = min bytes.length (ringbufSpare ring) ∧
      (ringbufCopyIn ring bytes).1.rawbuf.length = ring.rawbuf.length ∧
      (ringbufCopyIn ring bytes).1.offsetIn = ring.offsetIn ∧
      (ringbufCopyIn ring bytes).1.offsetOut = ring.offsetOut := by
  have inBound := valid.offsetIn
  have outBound := valid.offsetOut
  have store : ∀ (ring : Ringbuf) (offset : Nat) (cells : List UInt8),
      offset + cells.length ≤ ring.rawbuf.length ->
        (ringbufStore ring offset cells).rawbuf.length = ring.rawbuf.length := by
    intro ring offset cells inside
    exact length_overwrite inside
  unfold ringbufCopyIn ringbufSpare ringbufUsed ringbufSize
  by_cases wrapped : ring.offsetIn ≥ ring.offsetOut
  · simp only [wrapped, if_true]
    by_cases fits : bytes.length ≤ ring.rawbuf.length - ring.offsetIn
    · simp only [fits, if_true]
      refine ⟨by omega, ?_, rfl, rfl⟩
      apply store
      omega
    · simp only [fits, if_false]
      have right : (ringbufStore ring ring.offsetIn
          (bytes.take (ring.rawbuf.length - ring.offsetIn))).rawbuf.length = ring.rawbuf.length := by
        apply store
        rw [List.length_take]
        omega
      by_cases left : bytes.length - (ring.rawbuf.length - ring.offsetIn) ≤ ring.offsetOut
      · simp only [left, if_true]
        refine ⟨by omega, ?_, rfl, rfl⟩
        rw [store, right]
        rw [right, List.length_drop]
        omega
      · simp only [left, if_false]
        refine ⟨by omega, ?_, rfl, rfl⟩
        rw [store, right]
        rw [right, List.length_take, List.length_drop]
        omega
  · simp only [wrapped, if_false]
    by_cases fits : bytes.length ≤ ring.offsetOut - ring.offsetIn
    · simp only [fits, if_true]
      refine ⟨by omega, ?_, rfl, rfl⟩
      apply store
      omega
    · simp only [fits, if_false]
      refine ⟨by omega, ?_, rfl, rfl⟩
      apply store
      rw [List.length_take]
      omega

/-- A write never fails its inner assertion; it accepts what there is room for
and leaves a valid buffer. -/
theorem ringbufWrite_spec (valid : ring.Valid) {bytes : List UInt8} (short : bytes.length < ringbufSize ring) :
    ∃ next, ringbufWrite ring bytes = some (next, min bytes.length (ringbufSpare ring)) ∧ next.Valid ∧
      ringbufSize next = ringbufSize ring ∧ next.offsetOut = ring.offsetOut ∧
      next.offsetIn = (ring.offsetIn + min bytes.length (ringbufSpare ring)) % ringbufSize ring := by
  rcases ringbufCopyIn_spec valid bytes with ⟨count, size, offsetIn, offsetOut⟩
  have sameSize : ringbufSize (ringbufCopyIn ring bytes).1 = ringbufSize ring := size
  have sameSpare : ringbufSpare (ringbufCopyIn ring bytes).1 = ringbufSpare ring := by
    unfold ringbufSpare ringbufUsed
    rw [offsetIn, offsetOut, sameSize]
  have advance : ringbufWriteAdvance (ringbufCopyIn ring bytes).1 (ringbufCopyIn ring bytes).2 =
      some
        { (ringbufCopyIn ring bytes).1 with
          offsetIn := (ring.offsetIn + min bytes.length (ringbufSpare ring)) % ringbufSize ring } := by
    unfold ringbufWriteAdvance
    rw [sameSpare, sameSize, offsetIn, count, if_pos (Nat.min_le_right _ _)]
  refine ⟨{ (ringbufCopyIn ring bytes).1 with
      offsetIn := (ring.offsetIn + min bytes.length (ringbufSpare ring)) % ringbufSize ring },
    ?_, ⟨?_, ?_⟩, sameSize, offsetOut, rfl⟩
  · unfold ringbufWrite
    rw [if_pos short]
    dsimp only
    rw [advance, Option.map_some, count]
  · dsimp only
    rw [size]
    apply Nat.mod_lt
    exact Nat.zero_lt_of_lt valid.offsetIn
  · dsimp only
    rw [size, offsetOut]
    exact valid.offsetOut

/-- A write is accounted for exactly when it leaves a cell to spare. -/
theorem ringbufWrite_accounted_iff (valid : ring.Valid) {bytes : List UInt8} {next : Ringbuf} {count : Nat}
    (returns : ringbufWrite ring bytes = some (next, count)) :
    ringbufUsed next = ringbufUsed ring + count ∧ ringbufSpare next + count = ringbufSpare ring ↔
      bytes.length < ringbufSpare ring := by
  have short : bytes.length < ringbufSize ring := by
    by_contra long
    unfold ringbufWrite at returns
    rw [if_neg long] at returns
    cases returns
  rcases ringbufWrite_spec valid short with ⟨written, result, writtenValid, size, offsetOut, offsetIn⟩
  rw [result] at returns
  cases returns
  have inBound : ring.offsetIn < ringbufSize ring := valid.offsetIn
  have outBound : ring.offsetOut < ringbufSize ring := valid.offsetOut
  have whole := writtenValid.spare_add_used
  have before := valid.spare_add_used
  rw [size] at whole
  rw [wrap_eq inBound (by omega)] at offsetIn
  have used : ringbufUsed ring = if ring.offsetIn ≥ ring.offsetOut then ring.offsetIn - ring.offsetOut
      else ring.offsetIn + (ringbufSize ring - ring.offsetOut) := rfl
  have usedNext : ringbufUsed next = if next.offsetIn ≥ ring.offsetOut then next.offsetIn - ring.offsetOut
      else next.offsetIn + (ringbufSize ring - ring.offsetOut) := by
    unfold ringbufUsed
    rw [size, offsetOut]
  constructor
  · rintro ⟨grown, _⟩
    by_contra full
    rw [Nat.min_eq_right (Nat.le_of_not_lt full)] at grown
    have bound := writtenValid.used_lt
    rw [size] at bound
    omega
  · intro room
    rw [Nat.min_eq_left (Nat.le_of_lt room)] at offsetIn ⊢
    have grown : ringbufUsed next = ringbufUsed ring + bytes.length := by
      rw [usedNext, offsetIn]
      split at used <;> split <;> split <;> omega
    exact ⟨grown, by omega⟩

/-- Where the assertion holds the fill level falls by what is skipped. -/
theorem ringbufReadAdvance_accounted (valid : ring.Valid) {len : Nat} {next : Ringbuf}
    (moved : ringbufReadAdvance ring len = some next) :
    next.Valid ∧ ringbufUsed ring = ringbufUsed next + len := by
  unfold ringbufReadAdvance at moved
  split at moved
  case isFalse => cases moved
  case isTrue within =>
    cases moved
    have inBound : ring.offsetIn < ringbufSize ring := valid.offsetIn
    have outBound : ring.offsetOut < ringbufSize ring := valid.offsetOut
    have bound := valid.used_lt
    refine ⟨⟨valid.offsetIn, Nat.mod_lt _ (Nat.zero_lt_of_lt inBound)⟩, ?_⟩
    have used : ringbufUsed ring = if ring.offsetIn ≥ ring.offsetOut then ring.offsetIn - ring.offsetOut
        else ring.offsetIn + (ringbufSize ring - ring.offsetOut) := rfl
    have usedNext : ∀ offsetOut, ringbufUsed { ring with offsetOut := offsetOut } =
        if ring.offsetIn ≥ offsetOut then ring.offsetIn - offsetOut
        else ring.offsetIn + (ringbufSize ring - offsetOut) := fun _ => rfl
    rw [usedNext ((ring.offsetOut + len) % ringbufSize ring), wrap_eq outBound (by omega)]
    split at used <;> split <;> split <;> omega

/-- A read that stays in the caller's memory takes away what it returns. -/
theorem ringbufRead_accounted (valid : ring.Valid) {size : Nat} {next : Ringbuf} {bytes : List UInt8}
    (returns : ringbufRead ring size = some (next, bytes)) :
    next.Valid ∧ ringbufUsed ring = ringbufUsed next + bytes.length := by
  rcases Option.bind_eq_some_iff.mp returns with ⟨peeked, _, advance⟩
  rcases Option.map_eq_some_iff.mp advance with ⟨advanced, moved, pair⟩
  cases pair
  exact ringbufReadAdvance_accounted valid moved

/-! ## Runs -/

inductive RingbufCall where
  | write (bytes : List UInt8)
  | read (size : Nat)

/-- What a call returns: the number of bytes accepted, or the bytes handed out. -/
inductive RingbufReply where
  | accepted (count : Nat)
  | bytes (handed : List UInt8)
  deriving DecidableEq, Repr

namespace RingbufReply

def acceptedCount : RingbufReply -> Nat
  | accepted count => count
  | bytes _ => 0

def returnedCount : RingbufReply -> Nat
  | accepted _ => 0
  | bytes handed => handed.length

end RingbufReply

/-- The bytes accepted by all the writes of a run. -/
def acceptedTotal (replies : List RingbufReply) : Nat :=
  replies.foldl (fun total reply => total + reply.acceptedCount) 0

/-- The bytes returned by all its reads. -/
def returnedTotal (replies : List RingbufReply) : Nat :=
  replies.foldl (fun total reply => total + reply.returnedCount) 0

def ringbufStep (ring : Ringbuf) : RingbufCall -> Option (Ringbuf × RingbufReply)
  | .write bytes => (ringbufWrite ring bytes).map fun (written, count) => (written, .accepted count)
  | .read size => (ringbufRead ring size).map fun (advanced, bytes) => (advanced, .bytes bytes)

/-- A write is given fewer bytes than there is room for. -/
def LeavesRoom (ring : Ringbuf) : RingbufCall -> Prop
  | .write bytes => bytes.length < ringbufSpare ring
  | .read _ => True

instance (ring : Ringbuf) : ∀ call, Decidable (LeavesRoom ring call)
  | .write bytes => inferInstanceAs (Decidable (bytes.length < ringbufSpare ring))
  | .read _ => isTrue trivial

/-- What the calls so far have told their callers agrees with the fill level. -/
structure Conserving (ring : Ringbuf) (replies : List RingbufReply) : Prop where
  valid : ring.Valid
  total : acceptedTotal replies = returnedTotal replies + ringbufUsed ring

theorem ringbufStep_conserving {ring next : Ringbuf} {past : List RingbufReply} {call : RingbufCall}
    {reply : RingbufReply} (room : LeavesRoom ring call) (conserving : Conserving ring past)
    (returns : ringbufStep ring call = some (next, reply)) : Conserving next (past ++ [reply]) := by
  have total := conserving.total
  have accepted : acceptedTotal (past ++ [reply]) = acceptedTotal past + reply.acceptedCount := by
    rw [acceptedTotal, List.foldl_append]
    rfl
  have returned : returnedTotal (past ++ [reply]) = returnedTotal past + reply.returnedCount := by
    rw [returnedTotal, List.foldl_append]
    rfl
  cases call with
  | write bytes =>
      rcases Option.map_eq_some_iff.mp returns with ⟨⟨written, count⟩, result, pair⟩
      cases pair
      have counted := ((ringbufWrite_accounted_iff conserving.valid result).mpr room).1
      have short : bytes.length < ringbufSize ring := Nat.lt_of_lt_of_le room (Nat.sub_le _ _)
      rcases ringbufWrite_spec conserving.valid short with ⟨stored, same, valid, _⟩
      rw [same] at result
      cases result
      refine ⟨valid, ?_⟩
      rw [accepted, returned]
      simp only [RingbufReply.acceptedCount, RingbufReply.returnedCount]
      omega
  | read size =>
      rcases Option.map_eq_some_iff.mp returns with ⟨⟨advanced, bytes⟩, result, pair⟩
      cases pair
      rcases ringbufRead_accounted conserving.valid result with ⟨valid, counted⟩
      refine ⟨valid, ?_⟩
      rw [accepted, returned]
      simp only [RingbufReply.acceptedCount, RingbufReply.returnedCount]
      omega

/-- In a run whose writes all leave a cell to spare, what was accepted has been
returned or is still there, and the fill level grows with a further write by
what it accepts exactly when that one leaves a cell to spare as well. -/
theorem ringbuf_run_conserves (size : Nat) (calls : List RingbufCall)
    (room : EveryInput ringbufStep LeavesRoom (ringbufNew size) calls) {ring : Ringbuf}
    {replies : List RingbufReply}
    (completes : runReplies ringbufStep (ringbufNew size) calls = some (ring, replies)) :
    acceptedTotal replies = returnedTotal replies + ringbufUsed ring ∧
      ∀ bytes next count, ringbufWrite ring bytes = some (next, count) ->
        (ringbufUsed next = ringbufUsed ring + count ∧ ringbufSpare next + count = ringbufSpare ring ↔
          bytes.length < ringbufSpare ring) := by
  have start : Conserving (ringbufNew size) [] := ⟨ringbufNew_valid size, rfl⟩
  have conserving := runReplies_invariant Conserving
    (fun _ _ _ _ _ fits holds returns => ringbufStep_conserving fits holds returns) room start completes
  rw [List.nil_append] at conserving
  exact ⟨conserving.total, fun bytes next count => ringbufWrite_accounted_iff conserving.valid⟩

/-- Two bytes in and one out, around the end of a block of three. -/
theorem ringbuf_run_conserves_wrapped :
    acceptedTotal [.accepted 2, .bytes [97], .accepted 1] =
      returnedTotal [.accepted 2, .bytes [97], .accepted 1] + ringbufUsed ⟨[97, 98, 99], 0, 1⟩ ∧
      ∀ bytes next count, ringbufWrite ⟨[97, 98, 99], 0, 1⟩ bytes = some (next, count) ->
        (ringbufUsed next = ringbufUsed ⟨[97, 98, 99], 0, 1⟩ + count ∧
          ringbufSpare next + count = ringbufSpare ⟨[97, 98, 99], 0, 1⟩ ↔
          bytes.length < ringbufSpare ⟨[97, 98, 99], 0, 1⟩) :=
  ringbuf_run_conserves 3 [.write [97, 98], .read 1, .write [99]] (by decide) (by decide)

/-- Filled to its last cell the buffer is empty again. -/
theorem filledRing_not_conserving :
    ¬ ∀ (size : Nat) (calls : List RingbufCall) (ring : Ringbuf) (replies : List RingbufReply),
      runReplies ringbufStep (ringbufNew size) calls = some (ring, replies) ->
        acceptedTotal replies = returnedTotal replies + ringbufUsed ring ∧
          ∀ bytes next count, ringbufWrite ring bytes = some (next, count) ->
            ringbufUsed next = ringbufUsed ring + count ∧ ringbufSpare next + count = ringbufSpare ring := by
  intro always
  have lost := (always 4 [.write [97], .write [98, 99, 100]] ⟨[97, 98, 99, 100], 0, 0⟩
    [.accepted 1, .accepted 3] (by decide)).1
  revert lost
  decide

end Buffer
end Extlib
