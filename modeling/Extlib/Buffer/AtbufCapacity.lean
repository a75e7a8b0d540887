import Extlib.Buffer.AtbufRefinement

namespace Extlib
namespace Buffer

open Memory Machine

/-!
# How large the block of an `atbuf` becomes

The block is never made smaller, so what it costs to hold a queue of bytes is
decided by when it grows.  Every operation that moves an offset ends in
`atbuf_tidy`, which leaves at most a quarter of the block as garbage.  A write
grows the block only when its bytes exceed what is free behind the unread ones:
the unread bytes and the new ones are then more than three quarters of the
block, and the doubling, of the block or of the input, stays within 8/3 of what
was asked for.  This carries over a whole run, whatever the block grew through.
-/

/-- The bytes a call brings. -/
def AtbufCall.brings : AtbufCall -> List UInt8
  | .write bytes _ => bytes
  | .fillAdvance bytes => bytes
  | _ => []

/-- What a call asks the buffer to hold. -/
def demand (queue : Fifo UInt8) (call : AtbufCall) : Nat := queue.contents.length + call.brings.length

/-- The most that any call of a run asks for. -/
def peakDemand : Fifo UInt8 -> List AtbufCall -> Nat
  | _, [] => 0
  | queue, call :: calls => max (demand queue call) (peakDemand (queueStep queue call).1 calls)

/-- At most a quarter of the block is garbage. -/
def Compact (buf : Atbuf) : Prop := 4 * atbufGarbage buf ≤ atbufSize buf

section Steps

variable {buf : Atbuf}

theorem atbufNew_compact (size : Nat) : Compact (atbufNew size) := Nat.zero_le _

/-- Tidying moves the unread bytes when more than a quarter lies before them. -/
theorem atbufTidy_compact (ordered : buf.offsetOut ≤ buf.offsetIn) (inside : buf.offsetIn < buf.rawbuf.length) :
    Compact (atbufTidy buf) := by
  rw [Compact, atbufTidy_size ordered inside]
  unfold atbufTidy atbufGarbage
  split
  case isTrue => exact Nat.zero_le _
  case isFalse =>
    split
    case isTrue => exact Nat.zero_le _
    case isFalse roomy =>
      have little : buf.offsetOut ≤ atbufSize buf >>> 2 := Nat.le_of_not_lt (not_or.mp roomy).2
      rw [Nat.shiftRight_eq_div_pow] at little
      dsimp only
      omega

theorem atbufReadAdvance_compact (valid : buf.Valid) (len : Nat) : Compact (atbufReadAdvance buf len) := by
  unfold atbufReadAdvance
  split
  case isTrue => exact atbufTidy_compact (Nat.le_refl _) valid.inside
  case isFalse within => exact atbufTidy_compact (Nat.le_of_not_lt within) valid.inside

/-- Taking over bytes keeps the block and tidies it. -/
theorem atbufWriteAdvance_compact (ordered : buf.offsetOut ≤ buf.offsetIn) {len : Nat} {advanced : Atbuf}
    (completes : atbufWriteAdvance buf len = some advanced) :
    Compact advanced ∧ atbufSize advanced = atbufSize buf := by
  unfold atbufWriteAdvance at completes
  split at completes
  case isTrue room =>
    cases completes
    have order : buf.offsetOut ≤ buf.offsetIn + len := Nat.le_add_right_of_le ordered
    exact ⟨atbufTidy_compact order room, atbufTidy_size order room⟩
  case isFalse => cases completes

/-- The block that a write copies to. -/
def blockToWrite (buf : Atbuf) (bytes : List UInt8) (heap : Option (Nat -> UInt8)) : Atbuf :=
  if bytes.length > atbufSpare buf then
    match heap with
    | some fresh =>
        atbufRealloc (atbufTidy buf) (if atbufSize (atbufTidy buf) > bytes.length then atbufSize (atbufTidy buf) <<< 1
          else bytes.length <<< 1) fresh
    | none => atbufTidy buf
  else buf

/-- Copy as many of the bytes as there is room for. -/
def copyIn (buf : Atbuf) (bytes : List UInt8) : Option (Atbuf × Nat) :=
  let lenCanIn := if bytes.length ≤ atbufSpare buf then bytes.length else atbufSpare buf
  (atbufWriteAdvance (atbufFill buf (bytes.take lenCanIn)) lenCanIn).map fun written => (written, lenCanIn)

theorem atbufWrite_eq (buf : Atbuf) (bytes : List UInt8) (heap : Option (Nat -> UInt8)) :
    atbufWrite buf bytes heap = copyIn (blockToWrite buf bytes heap) bytes := rfl

theorem copyIn_compact {bytes : List UInt8} (ordered : buf.offsetOut ≤ buf.offsetIn)
    (inside : buf.offsetIn < atbufSize buf) {written : Atbuf} {count : Nat}
    (returns : copyIn buf bytes = some (written, count)) :
    Compact written ∧ atbufSize written = atbufSize buf := by
  rcases Option.map_eq_some_iff.mp returns with ⟨advanced, advance, pair⟩
  cases pair
  generalize shape : (if bytes.length ≤ atbufSpare buf then bytes.length else atbufSpare buf) = lenCanIn at advance
  have kept : atbufSize (atbufFill buf (bytes.take lenCanIn)) = atbufSize buf := by
    rw [atbufSize_fill (Nat.le_of_lt inside), List.length_take, ← shape]
    unfold atbufSpare
    split <;> omega
  have order : (atbufFill buf (bytes.take lenCanIn)).offsetOut ≤ buf.offsetIn := ordered
  rcases atbufWriteAdvance_compact order advance with ⟨compact, size⟩
  exact ⟨compact, size.trans kept⟩

/-- A block that is grown was three quarters full, and becomes at most 8/3 of
what is to be held. -/
theorem blockToWrite_size (valid : buf.Valid) (compact : Compact buf) (bytes : List UInt8)
    (heap : Option (Nat -> UInt8)) :
    (blockToWrite buf bytes heap).offsetOut ≤ (blockToWrite buf bytes heap).offsetIn ∧
      (blockToWrite buf bytes heap).offsetIn < atbufSize (blockToWrite buf bytes heap) ∧
      (atbufSize (blockToWrite buf bytes heap) = atbufSize buf ∨
        atbufSize buf ≤ atbufSize (blockToWrite buf bytes heap) ∧
          3 * atbufSize (blockToWrite buf bytes heap) ≤ 8 * (atbufUsed buf + bytes.length)) := by
  have tidied := atbufTidy_valid valid.ordered valid.inside
  have size := atbufTidy_size valid.ordered valid.inside
  unfold blockToWrite
  split
  case isFalse => exact ⟨valid.ordered, valid.inside, Or.inl rfl⟩
  case isTrue long =>
    cases heap with
    | none => exact ⟨tidied.ordered, tidied.inside, Or.inl size⟩
    | some fresh =>
        dsimp only
        rw [size, Nat.shiftLeft_eq, Nat.shiftLeft_eq]
        have longer : (atbufTidy buf).rawbuf.length ≤
            if atbufSize buf > bytes.length then atbufSize buf * 2 ^ 1 else bytes.length * 2 ^ 1 := by
          change atbufSize (atbufTidy buf) ≤ _
          rw [size]
          split <;> omega
        have grown := (atbufRealloc_unread (Nat.le_of_lt tidied.inside) tidied.ordered longer fresh).2
        refine ⟨tidied.ordered, Nat.lt_of_lt_of_le tidied.inside (Nat.le_trans longer (Nat.le_of_eq grown.symm)),
          Or.inr ?_⟩
        -- what is free behind the unread bytes, and at most a quarter before them
        have ordered := valid.ordered
        have inside : buf.offsetIn < atbufSize buf := valid.inside
        rw [grown]
        unfold Compact atbufGarbage at compact
        unfold atbufSpare at long
        unfold atbufUsed
        split <;> omega

/-- One call, whatever it is. -/
theorem atbufStep_size {queue : Fifo UInt8} (implements : Implements buf queue) (compact : Compact buf)
    {call : AtbufCall} {next : Atbuf} {reply : AtbufReply} (steps : atbufStep buf call = some (next, reply)) :
    Compact next ∧ atbufSize buf ≤ atbufSize next ∧
      3 * atbufSize next ≤ max (3 * atbufSize buf) (8 * demand queue call) := by
  have valid := implements.valid
  have waiting : queue.contents.length = atbufUsed buf := by
    rw [← implements.unread]
    exact valid.length_unread
  have kept : ∀ {after : Atbuf}, Compact after -> atbufSize after = atbufSize buf ->
      Compact after ∧ atbufSize buf ≤ atbufSize after ∧
        3 * atbufSize after ≤ max (3 * atbufSize buf) (8 * demand queue call) := by
    intro after here same
    exact ⟨here, Nat.le_of_eq same.symm, by omega⟩
  cases call with
  | write bytes heap =>
      rcases Option.map_eq_some_iff.mp steps with ⟨⟨written, count⟩, returns, pair⟩
      cases pair
      rcases blockToWrite_size valid compact bytes heap with ⟨ordered, inside, sized⟩
      rcases copyIn_compact ordered inside returns with ⟨after, same⟩
      rw [← same, ← waiting] at sized
      rcases sized with same | ⟨larger, bounded⟩
      · exact kept after same
      · exact ⟨after, larger, Nat.le_trans bounded (Nat.le_max_right _ _)⟩
  | read len =>
      cases steps
      exact kept (atbufReadAdvance_compact valid _) (atbufReadAdvance_spec valid _).2.2
  | peek len =>
      cases steps
      exact kept compact rfl
  | readAdvance len =>
      cases steps
      exact kept (atbufReadAdvance_compact valid len) (atbufReadAdvance_spec valid len).2.2
  | tidy =>
      cases steps
      exact kept (atbufTidy_compact valid.ordered valid.inside) (atbufTidy_size valid.ordered valid.inside)
  | fillAdvance bytes =>
      rcases Option.map_eq_some_iff.mp steps with ⟨advanced, advance, pair⟩
      cases pair
      have room : ¬ atbufSpare buf ≤ bytes.length := by
        intro full
        rw [(atbufFill_writeAdvance_eq_none_iff valid bytes).mpr full] at advance
        cases advance
      have order : (atbufFill buf bytes).offsetOut ≤ (atbufFill buf bytes).offsetIn := valid.ordered
      rcases atbufWriteAdvance_compact order advance with ⟨after, size⟩
      refine kept after (size.trans ?_)
      rw [atbufSize_fill (Nat.le_of_lt valid.inside)]
      unfold atbufSpare at room
      omega

end Steps

/-- A run, from wherever it starts. -/
theorem run_size {calls : List AtbufCall} :
    ∀ {buf last : Atbuf} {queue : Fifo UInt8} {replies : List AtbufReply}, Implements buf queue -> Compact buf ->
      runReplies atbufStep buf calls = some (last, replies) ->
        Compact last ∧ atbufSize buf ≤ atbufSize last ∧
          3 * atbufSize last ≤ max (3 * atbufSize buf) (8 * peakDemand queue calls) := by
  induction calls with
  | nil =>
      intro buf last queue replies _ compact completes
      cases completes
      exact ⟨compact, Nat.le_refl _, Nat.le_max_left _ _⟩
  | cons call calls inductionHypothesis =>
      intro buf last queue replies implements compact completes
      rcases Option.bind_eq_some_iff.mp completes with ⟨⟨next, reply⟩, steps, later⟩
      rcases Option.map_eq_some_iff.mp later with ⟨⟨final, rest⟩, run, pair⟩
      cases pair
      rcases atbufStep_size implements compact steps with ⟨here, larger, bounded⟩
      have matched := atbufStep_simulates _ _ _ _ _ implements steps
      rcases inductionHypothesis matched.1 here run with ⟨after, larger', bounded'⟩
      refine ⟨after, Nat.le_trans larger larger', ?_⟩
      rw [peakDemand]
      omega

/-- In every run that no assertion aborts the block is never made smaller, at
most a quarter of it is garbage at the end, and it is at most 8/3 of the most
bytes that were ever to be held at once, unless it was allocated larger. -/
theorem atbuf_run_capacity (size : Nat) (calls : List AtbufCall) {buf : Atbuf} {replies : List AtbufReply}
    (completes : runReplies atbufStep (atbufNew size) calls = some (buf, replies)) :
    4 * atbufGarbage buf ≤ atbufSize buf ∧ atbufSize (atbufNew size) ≤ atbufSize buf ∧
      3 * atbufSize buf ≤ max (3 * atbufSize (atbufNew size)) (8 * peakDemand Fifo.empty calls) :=
  run_size ⟨atbufNew_valid size, atbufNew_unread size⟩ (atbufNew_compact size) completes

/-- Three bytes and two more in a block of four: it grows to eight. -/
theorem atbuf_run_capacity_grown :
    let buf : Atbuf := ⟨[97, 98, 99, 100, 101, 0, 255, 255], 5, 0⟩
    4 * atbufGarbage buf ≤ atbufSize buf ∧ atbufSize (atbufNew 4) ≤ atbufSize buf ∧
      3 * atbufSize buf ≤ max (3 * atbufSize (atbufNew 4))
        (8 * peakDemand Fifo.empty [.write [97, 98, 99] none, .write [100, 101] (some fun _ => 255)]) := by
  have completes : runReplies atbufStep (atbufNew 4)
      [.write [97, 98, 99] none, .write [100, 101] (some fun _ => 255)] =
      some (⟨[97, 98, 99, 100, 101, 0, 255, 255], 5, 0⟩, [.accepted 3, .accepted 2]) := by decide
  exact atbuf_run_capacity 4 _ completes

end Buffer
end Extlib
