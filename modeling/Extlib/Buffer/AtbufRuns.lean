import Extlib.Buffer.AtbufCapacity
import Extlib.Buffer.AtbufWords

namespace Extlib
namespace Buffer
namespace Words

open Memory Machine

/-!
# Whole runs with machine words

The writing half of `atbuf.c` with 64-bit sizes, beside the reading half, and
the calls that a program makes of both.  Every sum, difference and doubling of
the code may wrap, and `atbuf_read` keeps its count in an `int`.  In a run that
never asks the buffer to hold 2^31 bytes none of this happens, for a block of
any initial size: at most a quarter of the block is garbage, and it is only
doubled when it is three quarters full, that is when it is small.  The machine
is then in lockstep with the exact buffer, and so with the queue.
-/

def atbufDefaultSize : UInt64 := 4096

def atbufNew (size : UInt64) : Atbuf :=
  let given := if size = 0 then atbufDefaultSize else size
  { rawbuf := List.replicate given.toNat 0
    size := given
    offsetIn := 0
    offsetOut := 0 }

section Writing

variable (buf : Atbuf)

def atbufRealloc (len : UInt64) (fresh : Nat -> UInt8) : Atbuf :=
  { buf with
    rawbuf := buf.rawbuf.take len.toNat ++ (List.range (len.toNat - buf.rawbuf.length)).map fresh
    size := len }

/-- The buffer left behind and the value returned. -/
def atbufWriteAdvance (len : UInt64) : Option (Atbuf × UInt64) :=
  if buf.offsetIn + len < buf.size then
    let tidied := atbufTidy { buf with offsetIn := buf.offsetIn + len }
    some (tidied, atbufSpare tidied)
  else none

/-- Place bytes at `atbuf_write_pos`. -/
def atbufFill (bytes : List UInt8) : Atbuf :=
  { buf with rawbuf := overwrite buf.rawbuf buf.offsetIn.toNat bytes }

/-- The block that `atbuf_write` copies to. -/
def blockToWrite (len : UInt64) (heap : Option (Nat -> UInt8)) : Atbuf :=
  if len > atbufSpare buf then
    match heap with
    | some fresh =>
        atbufRealloc (atbufTidy buf) (if (atbufTidy buf).size > len then (atbufTidy buf).size <<< 1 else len <<< 1)
          fresh
    | none => atbufTidy buf
  else buf

/-- Copy as many of the bytes as there is room for. -/
def copyIn (bytes : List UInt8) (len : UInt64) : Option (Atbuf × UInt64) :=
  let lenCanIn := if len ≤ atbufSpare buf then len else atbufSpare buf
  (atbufWriteAdvance (atbufFill buf (bytes.take lenCanIn.toNat)) lenCanIn).map fun written => (written.1, lenCanIn)

/-- `bytes` are the `len` bytes at the pointer that the caller passes. -/
def atbufWrite (bytes : List UInt8) (heap : Option (Nat -> UInt8)) : Option (Atbuf × UInt64) :=
  let len := UInt64.ofNat bytes.length
  copyIn (blockToWrite buf len heap) bytes len

end Writing

/-- A call with the words it is given. -/
inductive AtbufCall where
  | write (bytes : List UInt8) (heap : Option (Nat -> UInt8))
  | read (len : UInt64)
  | peek (len : UInt64)
  | readAdvance (len : UInt64)
  | tidy
  | fillAdvance (bytes : List UInt8)

/-- The bytes copied to the caller with the value returned, or that value. -/
inductive AtbufReply where
  | bytes (handed : List UInt8) (count : UInt64)
  | accepted (count : UInt64)
  | used (count : UInt64)
  | spare (count : UInt64)
  deriving DecidableEq

def atbufStep (buf : Atbuf) : AtbufCall -> Option (Atbuf × AtbufReply)
  | .write bytes heap => (atbufWrite buf bytes heap).map fun (written, count) => (written, .accepted count)
  | .read len => some ((atbufRead buf len).2.1, .bytes (atbufRead buf len).1 (atbufRead buf len).2.2)
  | .peek len => some (buf, .bytes (atbufPeek buf len).1 (atbufPeek buf len).2)
  | .readAdvance len => some ((atbufReadAdvance buf len).1, .used (atbufReadAdvance buf len).2)
  | .tidy => some (atbufTidy buf, .spare (atbufSpare (atbufTidy buf)))
  | .fillAdvance bytes =>
      (atbufWriteAdvance (atbufFill buf bytes) (UInt64.ofNat bytes.length)).map fun (advanced, spare) =>
        (advanced, .spare spare)

/-- The call with exact lengths. -/
def AtbufCall.exact : AtbufCall -> Buffer.AtbufCall
  | .write bytes heap => .write bytes heap
  | .read len => .read len.toNat
  | .peek len => .peek len.toNat
  | .readAdvance len => .readAdvance len.toNat
  | .tidy => .tidy
  | .fillAdvance bytes => .fillAdvance bytes

/-- A reply that says what the exact one says.  The spare room is no part of
the exact replies. -/
def Tells : AtbufReply -> Buffer.AtbufReply -> Prop
  | .bytes handed count, .bytes exactly => handed = exactly ∧ count.toNat = exactly.length
  | .accepted count, .accepted exactly => count.toNat = exactly
  | .used count, .used exactly => count.toNat = exactly
  | .spare _, .done => True
  | _, _ => False

/-- Only three quarters of the words may be skipped at once. -/
def AtbufCall.Moderate : AtbufCall -> Prop
  | .readAdvance len => len.toNat < 3 * 2 ^ 62
  | _ => True

instance : ∀ call : AtbufCall, Decidable call.Moderate
  | .readAdvance len => inferInstanceAs (Decidable (len.toNat < 3 * 2 ^ 62))
  | .write .. | .read _ | .peek _ | .tidy | .fillAdvance _ => isTrue trivial

/-! ## Writing does not wrap -/

section Exact

variable {buf : Atbuf}

theorem atbufNew_valid (size : UInt64) : (atbufNew size).Valid where
  block := List.length_replicate
  ordered := UInt64.le_refl _
  inside := by
    simp only [atbufNew]
    split
    case isTrue => decide
    case isFalse nonzero =>
      exact UInt64.pos_iff_ne_zero.mpr nonzero

theorem exact_atbufNew (size : UInt64) : (atbufNew size).exact = Buffer.atbufNew size.toNat := by
  have zero : size = 0 ↔ size.toNat = 0 := by
    rw [← UInt64.toNat_inj]
    rfl
  simp only [atbufNew, Atbuf.exact, Buffer.atbufNew, zero]
  split <;> rfl

/-- `atbuf_write_advance`, unless the sum wraps. -/
theorem exact_atbufWriteAdvance (block : buf.rawbuf.length = buf.size.toNat) (ordered : buf.offsetOut ≤ buf.offsetIn)
    {len : UInt64} (small : buf.offsetIn.toNat + len.toNat < 2 ^ 64) :
    Option.Rel (fun word exactly => word.1.Valid ∧ word.1.exact = exactly) (atbufWriteAdvance buf len)
      (Buffer.atbufWriteAdvance buf.exact len.toNat) := by
  have sum : (buf.offsetIn + len).toNat = buf.offsetIn.toNat + len.toNat := by
    rw [UInt64.toNat_add, Nat.mod_eq_of_lt small]
  have room : buf.offsetIn + len < buf.size ↔ buf.exact.offsetIn + len.toNat < atbufSize buf.exact := by
    rw [UInt64.lt_iff_toNat_lt, sum, ← block]
    rfl
  unfold atbufWriteAdvance Buffer.atbufWriteAdvance
  by_cases fits : buf.offsetIn + len < buf.size
  · have moved : ({ buf with offsetIn := buf.offsetIn + len } : Atbuf).Valid := by
      refine ⟨block, ?_, fits⟩
      have before := UInt64.le_iff_toNat_le.mp ordered
      rw [UInt64.le_iff_toNat_le, sum]
      exact Nat.le_add_right_of_le before
    have same : ({ buf with offsetIn := buf.offsetIn + len } : Atbuf).exact =
        { buf.exact with offsetIn := buf.exact.offsetIn + len.toNat } := by
      simp only [Atbuf.exact, sum]
    have tidied := exact_atbufTidy moved
    rw [same] at tidied
    rw [if_pos fits, if_pos (room.mp fits)]
    exact .some ⟨(atbufTidy_spec moved).1, tidied⟩
  · rw [if_neg fits, if_neg (mt room.mpr fits)]
    exact .none

/-- Bytes that fit the block leave its length alone. -/
theorem length_atbufFill (valid : buf.Valid) {bytes : List UInt8} (short : bytes.length ≤ (atbufSpare buf).toNat) :
    (atbufFill buf bytes).rawbuf.length = buf.size.toNat := by
  have size := atbufSize_fill (Nat.le_of_lt valid.exact_inside) bytes
  have inside := valid.exact_inside
  rw [toNat_atbufSpare valid] at short
  unfold Buffer.atbufSpare atbufSize at short
  change (Buffer.atbufFill buf.exact bytes).rawbuf.length = _
  rw [← valid.block]
  unfold atbufSize at size
  rw [size]
  change max buf.exact.rawbuf.length _ = buf.exact.rawbuf.length
  omega

/-- Copying to a block of any size. -/
theorem exact_copyIn (valid : buf.Valid) {bytes : List UInt8} {len : UInt64} (whole : len.toNat = bytes.length) :
    Option.Rel (fun word exactly => word.1.Valid ∧ word.1.exact = exactly.1 ∧ word.2.toNat = exactly.2)
      (copyIn buf bytes len) (Buffer.copyIn buf.exact bytes) := by
  have spare := toNat_atbufSpare valid
  have count : (if len ≤ atbufSpare buf then len else atbufSpare buf).toNat =
      if bytes.length ≤ Buffer.atbufSpare buf.exact then bytes.length else Buffer.atbufSpare buf.exact := by
    simp only [UInt64.le_iff_toNat_le, whole, spare]
    split
    · exact whole
    · exact spare
  unfold copyIn Buffer.copyIn
  dsimp only
  generalize (if len ≤ atbufSpare buf then len else atbufSpare buf) = lenCanIn at count ⊢
  rw [← count]
  have most : lenCanIn.toNat ≤ (atbufSpare buf).toNat := by
    rw [count, spare]
    split <;> omega
  have short : (bytes.take lenCanIn.toNat).length ≤ (atbufSpare buf).toNat := by
    rw [List.length_take]
    omega
  have small : buf.offsetIn.toNat + lenCanIn.toNat < 2 ^ 64 := by
    have inside := UInt64.lt_iff_toNat_lt.mp valid.inside
    have word := buf.size.toNat_lt
    rw [atbufSpare, UInt64.toNat_sub_of_le _ _ (UInt64.le_of_lt valid.inside)] at most
    omega
  have filled := length_atbufFill valid short
  have order : (atbufFill buf (bytes.take lenCanIn.toNat)).offsetOut ≤
      (atbufFill buf (bytes.take lenCanIn.toNat)).offsetIn := valid.ordered
  have advanced : Option.Rel (fun word exactly => word.1.Valid ∧ word.1.exact = exactly)
      (atbufWriteAdvance (atbufFill buf (bytes.take lenCanIn.toNat)) lenCanIn)
      (Buffer.atbufWriteAdvance (Buffer.atbufFill buf.exact (bytes.take lenCanIn.toNat)) lenCanIn.toNat) :=
    exact_atbufWriteAdvance filled order small
  exact rel_map (fun both => ⟨both.1, both.2, rfl⟩) advanced

/-- Bytes placed by the caller, whether they fit or not. -/
theorem exact_fillAdvance (valid : buf.Valid) {bytes : List UInt8} {len : UInt64} (whole : len.toNat = bytes.length)
    (small : buf.exact.offsetIn + bytes.length < 2 ^ 64) :
    Option.Rel (fun word exactly => word.1.Valid ∧ word.1.exact = exactly)
      (atbufWriteAdvance (atbufFill buf bytes) len)
      (Buffer.atbufWriteAdvance (Buffer.atbufFill buf.exact bytes) bytes.length) := by
  have sum : buf.offsetIn.toNat + len.toNat < 2 ^ 64 := by
    rw [whole]
    exact small
  by_cases fits : bytes.length ≤ (atbufSpare buf).toNat
  · have order : (atbufFill buf bytes).offsetOut ≤ (atbufFill buf bytes).offsetIn := valid.ordered
    rw [← whole]
    exact exact_atbufWriteAdvance (length_atbufFill valid fits) order sum
  · -- they would be written behind the block, and the assertion fails
    have place : (Buffer.atbufFill buf.exact bytes).offsetIn = buf.exact.offsetIn := rfl
    have start : buf.exact.offsetIn = buf.offsetIn.toNat := rfl
    have block : atbufSize buf.exact = buf.size.toNat := valid.block
    rw [toNat_atbufSpare valid, Buffer.atbufSpare] at fits
    have beyond : ¬ (atbufFill buf bytes).offsetIn + len < (atbufFill buf bytes).size := by
      change ¬ buf.offsetIn + len < buf.size
      rw [UInt64.lt_iff_toNat_lt, UInt64.toNat_add, Nat.mod_eq_of_lt sum]
      omega
    have beyond' : ¬ (Buffer.atbufFill buf.exact bytes).offsetIn + bytes.length <
        atbufSize (Buffer.atbufFill buf.exact bytes) := by
      rw [atbufSize_fill (Nat.le_of_lt valid.exact_inside), place]
      omega
    rw [atbufWriteAdvance, Buffer.atbufWriteAdvance, if_neg beyond, if_neg beyond']
    exact .none

/-- Doubling what is below 2^63. -/
theorem toNat_shiftLeft_one {word : UInt64} (small : word.toNat < 2 ^ 63) : (word <<< 1).toNat = word.toNat <<< 1 := by
  rw [UInt64.toNat_shiftLeft]
  change word.toNat <<< 1 % 2 ^ 64 = _
  rw [Nat.shiftLeft_eq]
  exact Nat.mod_eq_of_lt (by omega)

theorem atbufRealloc_valid (valid : buf.Valid) {len : UInt64} (longer : buf.size ≤ len) (fresh : Nat -> UInt8) :
    (atbufRealloc buf len fresh).Valid where
  block := by
    have larger := UInt64.le_iff_toNat_le.mp longer
    have block := valid.block
    simp only [atbufRealloc, List.length_append, List.length_take, List.length_map, List.length_range]
    omega
  ordered := valid.ordered
  inside := UInt64.lt_of_lt_of_le valid.inside longer

/-- The block for bytes that, with the unread ones, are fewer than 2^31, when at
most a quarter of it is garbage: a block that is grown is small. -/
theorem exact_blockToWrite (valid : buf.Valid) (compact : Compact buf.exact) {bytes : List UInt8} {len : UInt64}
    (whole : len.toNat = bytes.length) (moderate : Buffer.atbufUsed buf.exact + bytes.length < 2 ^ 31)
    (heap : Option (Nat -> UInt8)) :
    (blockToWrite buf len heap).Valid ∧
      (blockToWrite buf len heap).exact = Buffer.blockToWrite buf.exact bytes heap := by
  have tidied := (atbufTidy_spec valid).1
  have block : atbufSize (atbufTidy buf).exact = (atbufTidy buf).size.toNat := tidied.block
  have long : len > atbufSpare buf ↔ bytes.length > Buffer.atbufSpare buf.exact := by
    rw [gt_iff_lt, UInt64.lt_iff_toNat_lt, whole, toNat_atbufSpare valid]
  simp only [blockToWrite, Buffer.blockToWrite, long, ← exact_atbufTidy valid]
  split
  case isFalse => exact ⟨valid, rfl⟩
  case isTrue tooLong =>
    cases heap with
    | none => exact ⟨tidied, rfl⟩
    | some fresh =>
        -- three quarters of the block are less than what is to be held
        have small : (atbufTidy buf).size.toNat < 2 ^ 32 := by
          have ordered := valid.exact_ordered
          have inside := valid.exact_inside
          have cells : buf.exact.rawbuf.length = buf.size.toNat := valid.block
          rw [size_atbufTidy]
          unfold Compact Buffer.atbufGarbage atbufSize at compact
          unfold Buffer.atbufSpare atbufSize at tooLong
          unfold Buffer.atbufUsed at moderate
          omega
        have doubled : (if (atbufTidy buf).size > len then (atbufTidy buf).size <<< 1 else len <<< 1).toNat =
            if atbufSize (atbufTidy buf).exact > bytes.length then atbufSize (atbufTidy buf).exact <<< 1
            else bytes.length <<< 1 := by
          rw [block]
          simp only [gt_iff_lt, UInt64.lt_iff_toNat_lt, whole]
          split
          · exact toNat_shiftLeft_one (by omega)
          · rw [toNat_shiftLeft_one (by omega), whole]
        have longer : (atbufTidy buf).size ≤
            if (atbufTidy buf).size > len then (atbufTidy buf).size <<< 1 else len <<< 1 := by
          rw [UInt64.le_iff_toNat_le, doubled, block, Nat.shiftLeft_eq, Nat.shiftLeft_eq]
          split <;> omega
        refine ⟨atbufRealloc_valid tidied longer fresh, ?_⟩
        dsimp only
        rw [← doubled]
        rfl

theorem exact_atbufWrite (valid : buf.Valid) (compact : Compact buf.exact) {bytes : List UInt8}
    (moderate : Buffer.atbufUsed buf.exact + bytes.length < 2 ^ 31) (heap : Option (Nat -> UInt8)) :
    Option.Rel (fun word exactly => word.1.Valid ∧ word.1.exact = exactly.1 ∧ word.2.toNat = exactly.2)
      (atbufWrite buf bytes heap) (Buffer.atbufWrite buf.exact bytes heap) := by
  have whole : (UInt64.ofNat bytes.length).toNat = bytes.length := by
    rw [UInt64.toNat_ofNat', Nat.mod_eq_of_lt (by omega)]
  have block := exact_blockToWrite valid compact whole moderate heap
  rw [atbufWrite_eq, ← block.2]
  exact exact_copyIn block.1 whole

/-! ## Lockstep -/

/-- One call that does not ask for 2^31 bytes. -/
theorem exact_atbufStep (valid : buf.Valid) (compact : Compact buf.exact) {call : AtbufCall}
    (small : Buffer.atbufUsed buf.exact + call.exact.brings.length < 2 ^ 31) (moderate : call.Moderate) :
    Option.Rel (fun word exactly => (word.1.Valid ∧ word.1.exact = exactly.1) ∧ Tells word.2 exactly.2)
      (atbufStep buf call) (Buffer.atbufStep buf.exact call.exact) := by
  have used := toNat_atbufUsed valid.ordered
  have offsets := valid.offsets
  have inside := valid.exact_inside
  have word : buf.exact.rawbuf.length < 2 ^ 64 := valid.block ▸ buf.size.toNat_lt
  unfold Compact Buffer.atbufGarbage atbufSize at compact
  cases call with
  | write bytes heap =>
      exact rel_map (fun both => ⟨⟨both.1, both.2.1⟩, both.2.2⟩) (exact_atbufWrite valid compact small heap)
  | read len =>
      have most := removable_le buf len
      have few : removable buf len < 2 ^ 31 := by
        change Buffer.atbufUsed buf.exact + 0 < 2 ^ 31 at small
        omega
      have reads := exact_atbufRead valid few
      have exactly := (readsExactly_iff valid len).mpr (Or.inl few)
      have bytes := congrArg Prod.fst reads
      have after := congrArg Prod.snd reads
      dsimp only at bytes after
      refine .some ⟨⟨(atbufTidy_spec (skipUnread_valid valid _)).1, after⟩, bytes, ?_⟩
      rw [← bytes, exactly.returned, exactly.bytes, List.length_take, valid.length_unread]
      exact (Nat.min_eq_left most).symm
  | peek len =>
      have bytes : (atbufPeek buf len).1 = Buffer.atbufPeek buf.exact len.toNat := by
        rw [atbufPeek_bytes, Buffer.atbufPeek_eq, exact_unread valid.ordered, removable, ← valid.length_unread,
          ← List.take_eq_take_min]
      refine .some ⟨⟨valid, rfl⟩, bytes, ?_⟩
      rw [← bytes, atbufPeek_bytes, toNat_atbufPeek, List.length_take, valid.length_unread]
      exact (Nat.min_eq_left (removable_le buf len)).symm
  | readAdvance len =>
      have start : 4 * buf.offsetOut.toNat ≤ buf.exact.rawbuf.length := compact
      have skips : buf.offsetOut.toNat + len.toNat < 2 ^ 64 := by
        change len.toNat < 3 * 2 ^ 62 at moderate
        omega
      have after := exact_atbufReadAdvance valid skips
      have here := (atbufTidy_spec (skipUnread_valid valid len)).1
      refine .some ⟨⟨here, after⟩, ?_⟩
      rw [← after]
      exact toNat_atbufUsed here.ordered
  | tidy => exact .some ⟨⟨(atbufTidy_spec valid).1, exact_atbufTidy valid⟩, trivial⟩
  | fillAdvance bytes =>
      change Buffer.atbufUsed buf.exact + bytes.length < 2 ^ 31 at small
      unfold Buffer.atbufUsed at small
      have whole : (UInt64.ofNat bytes.length).toNat = bytes.length := by
        rw [UInt64.toNat_ofNat', Nat.mod_eq_of_lt (by omega)]
      have fill := exact_fillAdvance valid whole (by omega)
      exact rel_map (fun both => ⟨both, trivial⟩) fill

/-- The buffer with words, the exact one and the queue in step, with calls to
come that never ask for 2^31 bytes. -/
structure InStep (buf : Atbuf) (exactly : Buffer.Atbuf) (calls : List AtbufCall) : Prop where
  valid : buf.Valid
  exact : buf.exact = exactly
  compact : Compact exactly
  queue : ∃ queue, Implements exactly queue ∧ peakDemand queue (calls.map AtbufCall.exact) < 2 ^ 31
  moderate : ∀ call ∈ calls, call.Moderate

/-- What one call is given and leaves. -/
theorem atbufStep_inStep {exactly : Buffer.Atbuf} {call : AtbufCall} {calls : List AtbufCall}
    (inStep : InStep buf exactly (call :: calls)) :
    Option.Rel (fun word next => InStep word.1 next.1 calls ∧ Tells word.2 next.2) (atbufStep buf call)
      (Buffer.atbufStep exactly call.exact) := by
  rcases inStep with ⟨valid, rfl, compact, ⟨queue, implements, peak⟩, moderate⟩
  rw [List.map_cons, peakDemand, Nat.max_lt] at peak
  have small : Buffer.atbufUsed buf.exact + call.exact.brings.length < 2 ^ 31 := by
    rw [← implements.valid.length_unread, implements.unread]
    exact peak.1
  have matched := exact_atbufStep valid compact small (moderate call List.mem_cons_self)
  cases steps : Buffer.atbufStep buf.exact call.exact with
  | none =>
      rw [steps] at matched
      generalize atbufStep buf call = word at matched ⊢
      cases matched
      exact .none
  | some next =>
      rw [steps] at matched
      generalize atbufStep buf call = word at matched ⊢
      cases matched with
      | some both =>
          have simulated := atbufStep_simulates _ _ _ _ _ implements steps
          have sized := atbufStep_size implements compact steps
          exact .some ⟨⟨both.1.1, both.1.2, sized.1, ⟨_, simulated.1, peak.2⟩,
            fun other member => moderate other (List.mem_cons_of_mem _ member)⟩, both.2⟩

end Exact

/-- For a block of any size and calls that never ask the buffer to hold 2^31
bytes nor skip three quarters of the words: the machine with words aborts where
the exact buffer does, and otherwise leaves the same block and offsets, has told
its callers the same, and its unread bytes and replies are the queue's. -/
theorem atbuf_words_run (size : UInt64) (calls : List AtbufCall)
    (small : peakDemand Fifo.empty (calls.map AtbufCall.exact) < 2 ^ 31) (moderate : ∀ call ∈ calls, call.Moderate) :
    Option.Rel (fun word exactly => (word.1.Valid ∧ word.1.exact = exactly.1) ∧ List.Forall₂ Tells word.2 exactly.2)
        (runReplies atbufStep (atbufNew size) calls)
        (runReplies Buffer.atbufStep (Buffer.atbufNew size.toNat) (calls.map AtbufCall.exact)) ∧
      ∀ buf replies, runReplies atbufStep (atbufNew size) calls = some (buf, replies) ->
        buf.unread = (runAll queueStep Fifo.empty (calls.map AtbufCall.exact)).1.contents ∧
          List.Forall₂ Tells replies (runAll queueStep Fifo.empty (calls.map AtbufCall.exact)).2 := by
  have implements : Implements (Buffer.atbufNew size.toNat) Fifo.empty :=
    ⟨Buffer.atbufNew_valid _, Buffer.atbufNew_unread _⟩
  have start : InStep (atbufNew size) (Buffer.atbufNew size.toNat) calls :=
    ⟨atbufNew_valid size, exact_atbufNew size, atbufNew_compact _, ⟨_, implements, small⟩, moderate⟩
  have run : Option.Rel
      (fun word exactly => InStep word.1 exactly.1 [] ∧ List.Forall₂ Tells word.2 exactly.2)
      (runReplies atbufStep (atbufNew size) calls)
      (runReplies Buffer.atbufStep (Buffer.atbufNew size.toNat) (calls.map AtbufCall.exact)) :=
    runReplies_lockstep InStep (fun _ _ _ _ => atbufStep_inStep) start
  cases exactRun : runReplies Buffer.atbufStep (Buffer.atbufNew size.toNat) (calls.map AtbufCall.exact) with
  | none =>
      rw [exactRun] at run
      generalize runReplies atbufStep (atbufNew size) calls = wordRun at run ⊢
      cases run
      exact ⟨.none, fun _ _ none => by cases none⟩
  | some last =>
      rw [exactRun] at run
      generalize runReplies atbufStep (atbufNew size) calls = wordRun at run ⊢
      cases run with
      | some both =>
          have simulated := atbufStep_simulates.run implements exactRun
          refine ⟨.some ⟨⟨both.1.valid, both.1.exact⟩, both.2⟩, fun buf replies same => ?_⟩
          cases same
          refine ⟨?_, simulated.2 ▸ both.2⟩
          rw [← exact_unread both.1.valid.ordered, both.1.exact]
          exact simulated.1.unread

/-- A block of four that has to grow, and a skip and a read in it. -/
private def growing : List AtbufCall :=
  [.write [97, 98, 99] none, .write [100, 101] (some fun _ => 255), .readAdvance 2, .read 1, .peek 9]

theorem atbuf_words_run_growing : ∃ buf replies, runReplies atbufStep (atbufNew 4) growing = some (buf, replies) ∧
    buf.unread = [100, 101] ∧
    List.Forall₂ Tells replies [.accepted 3, .accepted 2, .used 3, .bytes [99], .bytes [100, 101]] := by
  have lockstep := atbuf_words_run 4 growing (by decide) (by decide)
  cases completes : runReplies atbufStep (atbufNew 4) growing with
  | none => exact absurd completes (by decide)
  | some last => exact ⟨last.1, last.2, rfl, lockstep.2 last.1 last.2 completes⟩

end Words
end Buffer
end Extlib
