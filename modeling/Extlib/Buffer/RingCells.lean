import Extlib.Buffer.Ringbuf

namespace Extlib
namespace Buffer

open Memory Machine

/-!
# Which cells of the ring an access touches

The five copies of `ringbuf_write` are one store around the end of the block.
`ringbuf_peek` copies up to the end of the block before it looks at the size it
was given, so that it shows the first unread bytes only where these do not run
around the end, or where that end is reached.
-/

/-- The unread bytes in the order of the ring. -/
def Ringbuf.unread (ring : Ringbuf) : List UInt8 :=
  (ring.rawbuf.rotate ring.offsetOut).take (ringbufUsed ring)

section Cells

variable {ring : Ringbuf}

theorem Ringbuf.Valid.length_unread (valid : ring.Valid) : ring.unread.length = ringbufUsed ring := by
  have bound : ringbufUsed ring < ring.rawbuf.length := valid.used_lt
  rw [Ringbuf.unread, List.length_take, List.length_rotate]
  omega

/-! ## Writing -/

/-- With and without a wrap, whole and cut short on either side, what is copied
is the part of the input that there is room for. -/
theorem ringbufCopyIn_rawbuf (valid : ring.Valid) (bytes : List UInt8) :
    (ringbufCopyIn ring bytes).1.rawbuf =
      wrapOverwrite ring.rawbuf ring.offsetIn (bytes.take (min bytes.length (ringbufSpare ring))) := by
  have inBound : ring.offsetIn < ringbufSize ring := valid.offsetIn
  have outBound : ring.offsetOut < ringbufSize ring := valid.offsetOut
  unfold ringbufCopyIn ringbufSpare ringbufUsed
  by_cases ordered : ring.offsetIn ≥ ring.offsetOut
  · simp only [ordered, if_true]
    by_cases fits : bytes.length ≤ ringbufSize ring - ring.offsetIn
    · rw [if_pos fits, Nat.min_eq_left (by omega), List.take_length, wrapOverwrite_of_le fits]
      rfl
    · rw [if_neg fits]
      by_cases left : bytes.length - (ringbufSize ring - ring.offsetIn) ≤ ring.offsetOut
      · rw [if_pos left, Nat.min_eq_left (by omega), List.take_length]
        rfl
      · have spare : min bytes.length (ringbufSize ring - (ring.offsetIn - ring.offsetOut)) =
            ringbufSize ring - ring.offsetIn + ring.offsetOut := by omega
        have right : (bytes.take (ringbufSize ring - ring.offsetIn + ring.offsetOut)).take
            (ring.rawbuf.length - ring.offsetIn) = bytes.take (ringbufSize ring - ring.offsetIn) := by
          rw [List.take_take]
          exact congrArg (bytes.take ·) (Nat.min_eq_left (Nat.le_add_right _ _))
        have leftover : (bytes.take (ringbufSize ring - ring.offsetIn + ring.offsetOut)).drop
            (ring.rawbuf.length - ring.offsetIn) =
            (bytes.drop (ringbufSize ring - ring.offsetIn)).take ring.offsetOut := by
          rw [List.drop_take]
          exact congrArg ((bytes.drop (ringbufSize ring - ring.offsetIn)).take ·) (Nat.add_sub_cancel_left _ _)
        rw [if_neg left, spare, wrapOverwrite, right, leftover]
        rfl
  · simp only [ordered, if_false]
    have spare : ringbufSize ring - (ring.offsetIn + (ringbufSize ring - ring.offsetOut)) =
        ring.offsetOut - ring.offsetIn := by omega
    rw [spare]
    by_cases fits : bytes.length ≤ ring.offsetOut - ring.offsetIn
    · have short : bytes.length ≤ ring.rawbuf.length - ring.offsetIn := by
        unfold ringbufSize at *
        omega
      rw [if_pos fits, Nat.min_eq_left fits, List.take_length, wrapOverwrite_of_le short]
      rfl
    · have short : (bytes.take (ring.offsetOut - ring.offsetIn)).length ≤ ring.rawbuf.length - ring.offsetIn := by
        rw [List.length_take]
        unfold ringbufSize at *
        omega
      rw [if_neg fits, Nat.min_eq_right (by omega), wrapOverwrite_of_le short]
      rfl

/-- Moving the offset leaves the block as the copies have left it. -/
theorem ringbufWrite_rawbuf {bytes : List UInt8} {next : Ringbuf} {count : Nat}
    (returns : ringbufWrite ring bytes = some (next, count)) :
    next.rawbuf = (ringbufCopyIn ring bytes).1.rawbuf := by
  unfold ringbufWrite at returns
  split at returns
  · rcases Option.map_eq_some_iff.mp returns with ⟨advanced, advances, pair⟩
    cases pair
    unfold ringbufWriteAdvance at advances
    split at advances
    · cases advances
      rfl
    · cases advances
  · cases returns

/-- A write takes as many bytes as there is room for, stores them one after the
other around the ring, and leaves every other cell alone, those with unread
bytes among them. -/
theorem ringbufWrite_cells (valid : ring.Valid) {bytes : List UInt8} (short : bytes.length < ringbufSize ring) :
    ∃ next, ringbufWrite ring bytes = some (next, min bytes.length (ringbufSpare ring)) ∧
      ringbufSize next = ringbufSize ring ∧ next.offsetOut = ring.offsetOut ∧ next.offsetIn < ringbufSize next ∧
      (∀ i < min bytes.length (ringbufSpare ring),
        next.rawbuf[(ring.offsetIn + i) % ringbufSize ring]? = bytes[i]?) ∧
      (∀ cell, (∀ i < min bytes.length (ringbufSpare ring), cell ≠ (ring.offsetIn + i) % ringbufSize ring) ->
        next.rawbuf[cell]? = ring.rawbuf[cell]?) ∧
      ∀ i < ringbufUsed ring,
        next.rawbuf[(ring.offsetOut + i) % ringbufSize ring]? =
          ring.rawbuf[(ring.offsetOut + i) % ringbufSize ring]? := by
  rcases ringbufWrite_spec valid short with ⟨next, returns, nextValid, size, offsetOut, _⟩
  have inBound : ring.offsetIn < ringbufSize ring := valid.offsetIn
  have outBound : ring.offsetOut < ringbufSize ring := valid.offsetOut
  have whole := valid.spare_add_used
  have taken : (bytes.take (min bytes.length (ringbufSpare ring))).length = min bytes.length (ringbufSpare ring) :=
    List.length_take_of_le (Nat.min_le_left _ _)
  -- the block in the view from the write position
  have view : next.rawbuf.rotate ring.offsetIn =
      bytes.take (min bytes.length (ringbufSpare ring)) ++
        (ring.rawbuf.rotate ring.offsetIn).drop (min bytes.length (ringbufSpare ring)) := by
    have once : (bytes.take (min bytes.length (ringbufSpare ring))).length ≤ ring.rawbuf.length := by
      rw [taken]
      unfold ringbufSize at whole
      omega
    have stored := (rotate_wrapOverwrite (Nat.le_of_lt valid.offsetIn) once).1
    rw [ringbufWrite_rawbuf returns, ringbufCopyIn_rawbuf valid, stored, taken]
  have seen : ∀ {block : List UInt8}, block.length = ringbufSize ring -> ∀ i < ringbufSize ring,
      block[(ring.offsetIn + i) % ringbufSize ring]? = (block.rotate ring.offsetIn)[i]? := by
    intro block same i inside
    rw [← same] at inside ⊢
    exact getElem?_wrap ring.offsetIn inside
  have others : ∀ cell, (∀ i < min bytes.length (ringbufSpare ring),
      cell ≠ (ring.offsetIn + i) % ringbufSize ring) -> next.rawbuf[cell]? = ring.rawbuf[cell]? := by
    intro cell untouched
    by_cases inside : cell < ringbufSize ring
    · rcases exists_wrap inBound inside with ⟨i, bound, rfl⟩
      have beyond : min bytes.length (ringbufSpare ring) ≤ i := by
        by_contra within
        exact untouched i (Nat.lt_of_not_le within) rfl
      rw [seen size i bound, seen rfl i bound, view, List.getElem?_append_right (by rw [taken]; exact beyond),
        List.getElem?_drop, taken]
      congr 1
      omega
    · rw [List.getElem?_eq_none (by unfold ringbufSize at *; omega),
        List.getElem?_eq_none (by unfold ringbufSize at *; omega)]
  refine ⟨next, returns, size, offsetOut, nextValid.offsetIn, ?_, others, ?_⟩
  · intro i within
    rw [seen size i (by omega), view, List.getElem?_append_left (by rw [taken]; exact within),
      List.getElem?_take_of_lt within]
  · intro i unread
    apply others
    intro j written
    -- the bytes stored and the unread ones are together no more than the ring
    have used : ringbufUsed ring = if ring.offsetIn ≥ ring.offsetOut then ring.offsetIn - ring.offsetOut
        else ring.offsetIn + (ringbufSize ring - ring.offsetOut) := rfl
    rw [wrap_eq outBound (by omega), wrap_eq inBound (by omega)]
    split at used <;> split <;> split <;> omega

theorem ringbufWrite_cells_wrapped :
    ∃ next, ringbufWrite ⟨[97, 98, 99, 100], 3, 2⟩ [101, 102] = some (next, 2) ∧
      next.rawbuf[3]? = some 101 ∧ next.rawbuf[0]? = some 102 ∧ next.rawbuf[2]? = some 99 := by
  rcases @ringbufWrite_cells ⟨[97, 98, 99, 100], 3, 2⟩ ⟨by decide, by decide⟩ [101, 102] (by decide) with
    ⟨next, returns, _, _, _, stored, _, unread⟩
  exact ⟨next, returns, stored 0 (by decide), stored 1 (by decide), unread 0 (by decide)⟩

/-! ## Reading -/

/-- Peeking shows the first unread bytes and no more than it was asked for, and
reading takes these away and nothing else. -/
structure PeeksRight (ring : Ringbuf) (size : Nat) : Prop where
  peeked : ringbufPeek ring size = some (ring.unread.take size)
  read : ∃ next, ringbufRead ring size = some (next, ring.unread.take size) ∧
    next.unread = ring.unread.drop size ∧ next.rawbuf = ring.rawbuf ∧ next.offsetIn = ring.offsetIn

/-- The unread bytes lie in one piece, or the copy reaches the end of the
block. -/
def ReachesEnd (ring : Ringbuf) (size : Nat) : Prop :=
  ring.offsetOut ≤ ring.offsetIn ∨ ringbufSize ring - ring.offsetOut ≤ size

instance (ring : Ringbuf) (size : Nat) : Decidable (ReachesEnd ring size) :=
  inferInstanceAs (Decidable (ring.offsetOut ≤ ring.offsetIn ∨ ringbufSize ring - ring.offsetOut ≤ size))

theorem ringbufPeek_unread (valid : ring.Valid) {size : Nat} (reaches : ReachesEnd ring size) :
    ringbufPeek ring size = some (ring.unread.take size) := by
  have inBound : ring.offsetIn < ringbufSize ring := valid.offsetIn
  have outBound : ring.offsetOut < ringbufSize ring := valid.offsetOut
  have bound := valid.used_lt
  have count : (if size < ringbufUsed ring then size else ringbufUsed ring) = min size (ringbufUsed ring) := by
    split <;> omega
  have first : ring.unread.take size = (ring.rawbuf.rotate ring.offsetOut).take (min size (ringbufUsed ring)) := by
    rw [Ringbuf.unread, List.take_take]
  rw [ringbufPeek, count, first]
  dsimp only
  by_cases ordered : ring.offsetIn ≥ ring.offsetOut
  · have used : ringbufUsed ring = ring.offsetIn - ring.offsetOut := if_pos ordered
    rw [if_pos ordered, window_eq_take_rotate (by unfold ringbufSize at *; omega)]
  · have used : ringbufUsed ring = ring.offsetIn + (ringbufSize ring - ring.offsetOut) := if_neg ordered
    have long := reaches.resolve_left ordered
    rw [if_neg ordered, if_pos (by omega)]
    unfold ringbufSize at *
    rw [window_append_eq_take_rotate (Nat.le_of_lt outBound) (by omega) (by omega)]

/-- Short of the end the difference of the two counts wraps. -/
theorem ringbufPeek_short {size : Nat} (short : ¬ ReachesEnd ring size) : ringbufPeek ring size = none := by
  unfold ReachesEnd at short
  rw [not_or] at short
  have less : (if size < ringbufUsed ring then size else ringbufUsed ring) < ringbufSize ring - ring.offsetOut := by
    split <;> omega
  rw [ringbufPeek]
  dsimp only
  rw [if_neg short.1, if_neg (Nat.not_le.mpr less)]

/-- Skipping drops unread bytes from the front. -/
theorem ringbufReadAdvance_unread (valid : ring.Valid) {len : Nat} (within : len ≤ ringbufUsed ring) :
    ∃ next, ringbufReadAdvance ring len = some next ∧ next.unread = ring.unread.drop len ∧
      next.rawbuf = ring.rawbuf ∧ next.offsetIn = ring.offsetIn := by
  have moved : ringbufReadAdvance ring len =
      some { ring with offsetOut := (ring.offsetOut + len) % ringbufSize ring } := if_pos within
  refine ⟨_, moved, ?_, rfl, rfl⟩
  have bound : ringbufUsed ring < ring.rawbuf.length := valid.used_lt
  have left := (ringbufReadAdvance_accounted valid moved).2
  have turned : ring.rawbuf.rotate ((ring.offsetOut + len) % ringbufSize ring) =
      (ring.rawbuf.rotate ring.offsetOut).rotate len := by
    rw [List.rotate_rotate]
    exact List.rotate_mod _ _
  have view : (ring.rawbuf.rotate ring.offsetOut).length = ring.rawbuf.length := List.length_rotate _ _
  rw [Ringbuf.unread, Ringbuf.unread, List.drop_take, turned, List.rotate_eq_drop_append_take (by omega),
    List.take_append_of_le_length (by
      rw [List.length_drop]
      omega)]
  congr 1
  omega

theorem ringbufRead_unread (valid : ring.Valid) {size : Nat} (reaches : ReachesEnd ring size) :
    ∃ next, ringbufRead ring size = some (next, ring.unread.take size) ∧
      next.unread = ring.unread.drop size ∧ next.rawbuf = ring.rawbuf ∧ next.offsetIn = ring.offsetIn := by
  have count : (ring.unread.take size).length ≤ ringbufUsed ring := by
    rw [List.length_take, valid.length_unread]
    exact Nat.min_le_right _ _
  have taken : ring.unread.drop (ring.unread.take size).length = ring.unread.drop size := by
    rw [List.length_take, ← List.drop_eq_drop_min]
  rcases ringbufReadAdvance_unread valid count with ⟨next, moved, unread, same⟩
  refine ⟨next, ?_, unread.trans taken, same⟩
  rw [ringbufRead, ringbufPeek_unread valid reaches, Option.bind_some, moved, Option.map_some]

/-- A valid buffer shows and hands out its unread bytes exactly where the copy
reaches the end of the block or does not have to. -/
theorem peeksRight_iff (valid : ring.Valid) (size : Nat) : PeeksRight ring size ↔ ReachesEnd ring size := by
  constructor
  · intro right
    by_contra short
    have shown := right.peeked
    rw [ringbufPeek_short short] at shown
    cases shown
  · intro reaches
    exact ⟨ringbufPeek_unread valid reaches, ringbufRead_unread valid reaches⟩

end Cells

/-- The offsets stay inside the block, whatever is written and read. -/
theorem ringbufRun_valid (size : Nat) (calls : List RingbufCall) {ring : Ringbuf} {replies : List RingbufReply}
    (completes : runReplies ringbufStep (ringbufNew size) calls = some (ring, replies)) : ring.Valid := by
  have every : EveryInput ringbufStep (fun _ _ => True) (ringbufNew size) calls :=
    everyInput_of_forall (fun _ _ => trivial) _
  refine runReplies_state Ringbuf.Valid ?_ every (ringbufNew_valid size) completes
  intro ring call next reply _ valid returns
  cases call with
  | write bytes =>
      rcases Option.map_eq_some_iff.mp returns with ⟨⟨written, count⟩, result, pair⟩
      cases pair
      have short : bytes.length < ringbufSize ring := by
        by_contra long
        unfold ringbufWrite at result
        rw [if_neg long] at result
        cases result
      rcases ringbufWrite_spec valid short with ⟨stored, same, storedValid, _⟩
      rw [same] at result
      cases result
      exact storedValid
  | read size =>
      rcases Option.map_eq_some_iff.mp returns with ⟨⟨advanced, bytes⟩, result, pair⟩
      cases pair
      exact (ringbufRead_accounted valid result).1

/-- In every state that writes and reads lead to, peeking and reading are right
exactly for the sizes that reach the end of the block, where the unread bytes
run around it. -/
theorem ringbufRun_peeksRight_iff (size : Nat) (calls : List RingbufCall) {ring : Ringbuf}
    {replies : List RingbufReply}
    (completes : runReplies ringbufStep (ringbufNew size) calls = some (ring, replies)) (count : Nat) :
    PeeksRight ring count ↔ ring.offsetOut ≤ ring.offsetIn ∨ ringbufSize ring - ring.offsetOut ≤ count :=
  peeksRight_iff (ringbufRun_valid size calls completes) count

/-- Two bytes in, one out and one in lead around the end of a block of three. -/
private theorem ringbufRun_around : runReplies ringbufStep (ringbufNew 3) [.write [97, 98], .read 1, .write [99]] =
    some (⟨[97, 98, 99], 0, 1⟩, [.accepted 2, .bytes [97], .accepted 1]) := by decide

theorem ringbufRun_peeksRight_iff_around : PeeksRight ⟨[97, 98, 99], 0, 1⟩ 2 :=
  (ringbufRun_peeksRight_iff 3 _ ringbufRun_around 2).mpr (by decide)

/-- Asked for one byte, `ringbuf_peek` copies the two up to the end and then
leaves the memory of its caller. -/
theorem shortPeek_not_peeksRight : ¬ ∀ (size : Nat) (calls : List RingbufCall) (ring : Ringbuf)
    (replies : List RingbufReply), runReplies ringbufStep (ringbufNew size) calls = some (ring, replies) ->
      ∀ count, PeeksRight ring count := by
  intro always
  have shown := (always 3 _ _ _ ringbufRun_around 1).peeked
  revert shown
  decide

end Buffer
end Extlib
