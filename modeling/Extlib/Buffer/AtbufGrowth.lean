import Extlib.Buffer.AtbufRefinement

namespace Extlib
namespace Buffer

open Memory Machine

/-!
# Which writes an `atbuf` takes

`atbuf_write` grows the block when the bytes are more than the spare room, and
`atbuf_write_advance` asserts that they leave a cell of it.  The new size always
does.  Bytes that are as many as the spare room are not enough to grow and too
many for the assertion.
-/

/-- With a `realloc` that succeeds, whatever the new cells hold, the write takes
all the bytes behind the unread ones and leaves the offsets in order. -/
def AcceptsAll (buf : Atbuf) (bytes : List UInt8) : Prop :=
  ∀ fresh, ∃ written, atbufWrite buf bytes (some fresh) = some (written, bytes.length) ∧
    written.unread = buf.unread ++ bytes ∧ written.offsetOut ≤ written.offsetIn ∧
    written.offsetIn < atbufSize written

section Writes

variable {buf : Atbuf} {bytes : List UInt8}

/-- The write of bytes that fit the block it comes to copy them to. -/
private theorem copy_room (target : Atbuf) (ordered : target.offsetOut ≤ target.offsetIn)
    (room : target.offsetIn + bytes.length < atbufSize target) :
    ∃ written, (atbufWriteAdvance (atbufFill target (bytes.take
          (if bytes.length ≤ atbufSpare target then bytes.length else atbufSpare target)))
        (if bytes.length ≤ atbufSpare target then bytes.length else atbufSpare target)).map
          (fun written => (written,
            if bytes.length ≤ atbufSpare target then bytes.length else atbufSpare target)) =
        some (written, bytes.length) ∧
      written.unread = target.unread ++ bytes ∧ written.offsetOut ≤ written.offsetIn ∧
      written.offsetIn < atbufSize written := by
  have fits : bytes.length ≤ atbufSpare target := by
    unfold atbufSpare
    omega
  rcases atbufFill_writeAdvance ordered bytes room with ⟨written, advanced, valid, joined, _⟩
  refine ⟨written, ?_, joined, valid.ordered, valid.inside⟩
  rw [if_pos fits, List.take_length, advanced, Option.map_some]

/-- Bytes that leave a cell are copied to where the block is. -/
theorem acceptsAll_of_lt (ordered : buf.offsetOut ≤ buf.offsetIn) (short : bytes.length < atbufSpare buf) :
    AcceptsAll buf bytes := by
  intro fresh
  have room : buf.offsetIn + bytes.length < atbufSize buf := by
    unfold atbufSpare at short
    omega
  simp only [atbufWrite, gt_iff_lt, Nat.not_lt.mpr (Nat.le_of_lt short), if_false]
  exact copy_room buf ordered room

/-- The block that a write of more bytes than there is room for allocates leaves
a cell behind them, whether it is the buffer or the input that is doubled. -/
theorem acceptsAll_of_gt (ordered : buf.offsetOut ≤ buf.offsetIn) (inside : buf.offsetIn < atbufSize buf)
    (long : atbufSpare buf < bytes.length) : AcceptsAll buf bytes := by
  intro fresh
  have tidied := atbufTidy_valid ordered inside
  have size := atbufTidy_size ordered inside
  have unread := atbufTidy_unread ordered inside
  have before : (atbufTidy buf).offsetIn < atbufSize (atbufTidy buf) := tidied.inside
  have larger : (atbufTidy buf).offsetIn + bytes.length <
      if atbufSize (atbufTidy buf) > bytes.length then atbufSize (atbufTidy buf) <<< 1 else bytes.length <<< 1 := by
    simp only [Nat.shiftLeft_eq]
    split <;> omega
  have longer : (atbufTidy buf).rawbuf.length ≤
      if atbufSize (atbufTidy buf) > bytes.length then atbufSize (atbufTidy buf) <<< 1 else bytes.length <<< 1 := by
    simp only [atbufSize, Nat.shiftLeft_eq]
    split <;> omega
  have grown := atbufRealloc_unread (Nat.le_of_lt before) tidied.ordered longer fresh
  rw [← grown.2] at larger
  simp only [atbufWrite, gt_iff_lt, long, if_true]
  rcases copy_room (atbufRealloc (atbufTidy buf) _ fresh) tidied.ordered larger with
    ⟨written, returns, joined, offsets⟩
  exact ⟨written, returns, by rw [joined, grown.1, unread], offsets⟩

/-- As many bytes as there is spare room for fail the assertion. -/
theorem atbufWrite_spare (inside : buf.offsetIn < atbufSize buf) (full : bytes.length = atbufSpare buf)
    (heap : Option (Nat -> UInt8)) : atbufWrite buf bytes heap = none := by
  have size := atbufSize_fill (Nat.le_of_lt inside) bytes
  have place : (atbufFill buf bytes).offsetIn = buf.offsetIn := rfl
  have reaches : ¬ buf.offsetIn + bytes.length < atbufSize (atbufFill buf bytes) := by
    rw [size]
    unfold atbufSpare at full
    omega
  simp only [atbufWrite, full, gt_iff_lt, Nat.lt_irrefl, if_false, Nat.le_refl, if_true]
  rw [← full, List.take_length, atbufWriteAdvance, place, if_neg reaches, Option.map_none]

end Writes

/-- A write takes all of its bytes unless they are exactly as many as the spare
room. -/
theorem atbufWrite_acceptsAll_iff {buf : Atbuf} (ordered : buf.offsetOut ≤ buf.offsetIn)
    (inside : buf.offsetIn < atbufSize buf) (bytes : List UInt8) :
    AcceptsAll buf bytes ↔ bytes.length ≠ atbufSpare buf := by
  constructor
  · intro accepts full
    rcases accepts (fun _ => 0) with ⟨written, returns, _⟩
    rw [atbufWrite_spare inside full] at returns
    cases returns
  · intro unequal
    rcases Nat.lt_or_gt_of_ne unequal with short | long
    · exact acceptsAll_of_lt ordered short
    · exact acceptsAll_of_gt ordered inside long

/-- Four bytes for a block of four that holds one. -/
theorem atbufWrite_acceptsAll_iff_grown : AcceptsAll ⟨[97, 0, 0, 0], 1, 0⟩ [98, 99, 100, 101] :=
  (atbufWrite_acceptsAll_iff (by decide) (by decide) [98, 99, 100, 101]).mpr (by decide)

/-- Three fill it and abort. -/
theorem filledBlock_not_acceptsAll : ¬ ∀ (size : Nat) (calls : List AtbufCall) (buf : Atbuf)
    (replies : List AtbufReply), runReplies atbufStep (atbufNew size) calls = some (buf, replies) ->
      ∀ bytes, AcceptsAll buf bytes := by
  intro always
  have reached : runReplies atbufStep (atbufNew 4) [.write [97] none] =
      some (⟨[97, 0, 0, 0], 1, 0⟩, [.accepted 1]) := by decide
  rcases always 4 _ _ _ reached [98, 99, 100] (fun _ => 0) with ⟨written, returns, _⟩
  rw [atbufWrite_spare (by decide) (by decide)] at returns
  cases returns

end Buffer
end Extlib
