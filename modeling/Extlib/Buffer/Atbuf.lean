import Extlib.Memory.Region

namespace Extlib
namespace Buffer

open Memory

/-!
# The auto-compacting byte buffer

`atbuf.c` function by function.  The allocated block is `rawbuf`, and its
length is `size`; the unread bytes lie between `offsetOut` and `offsetIn`.
Sizes are exact: no sum of two of them wraps.  A function that may abort on
an assertion returns an option, and `realloc` is given the cells it finds
behind the old block, or nothing when it fails.
-/

structure Atbuf where
  rawbuf : List UInt8
  offsetIn : Nat
  offsetOut : Nat
  deriving DecidableEq, Repr

def atbufDefaultSize : Nat := 4096

def atbufNew (size : Nat) : Atbuf where
  rawbuf := List.replicate (if size = 0 then atbufDefaultSize else size) 0
  offsetIn := 0
  offsetOut := 0

variable (buf : Atbuf)

def atbufSize : Nat := buf.rawbuf.length

def atbufGarbage : Nat := buf.offsetOut

def atbufUsed : Nat := buf.offsetIn - buf.offsetOut

def atbufSpare : Nat := atbufSize buf - buf.offsetIn

/-- The memory `atbuf_read_pos` points to, up to the end of the block. -/
def atbufReadPos : List UInt8 := buf.rawbuf.drop buf.offsetOut

/-- The unread bytes. -/
def Atbuf.unread : List UInt8 := window buf.rawbuf buf.offsetOut (atbufUsed buf)

/-- `atbuf_realloc` to `len` cells; `fresh` is what the new cells hold. -/
def atbufRealloc (len : Nat) (fresh : Nat -> UInt8) : Atbuf :=
  { buf with
    rawbuf := buf.rawbuf.take len ++ (List.range (len - buf.rawbuf.length)).map fresh }

/-- Move the unread bytes to the front when the block is nearly full or holds
much garbage, and put a NUL behind them. -/
def atbufTidy : Atbuf :=
  let tidied : Atbuf :=
    if atbufUsed buf = 0 then
      { buf with offsetIn := 0, offsetOut := 0 }
    else if atbufSpare buf < atbufSize buf >>> 2 ∨ atbufGarbage buf > atbufSize buf >>> 2 then
      { rawbuf := overwrite buf.rawbuf 0 buf.unread
        offsetIn := atbufUsed buf
        offsetOut := 0 }
    else buf
  { tidied with rawbuf := tidied.rawbuf.set tidied.offsetIn 0 }

/-- Skip `len` unread bytes, or all of them. -/
def atbufReadAdvance (len : Nat) : Atbuf :=
  if buf.offsetOut + len > buf.offsetIn then
    atbufTidy { buf with offsetOut := buf.offsetIn }
  else
    atbufTidy { buf with offsetOut := buf.offsetOut + len }

/-- Take over `len` bytes that were placed at the write position.  The
assertion leaves room for the NUL. -/
def atbufWriteAdvance (len : Nat) : Option Atbuf :=
  if buf.offsetIn + len < atbufSize buf then
    some (atbufTidy { buf with offsetIn := buf.offsetIn + len })
  else none

/-- Place bytes at `atbuf_write_pos`. -/
def atbufFill (bytes : List UInt8) : Atbuf :=
  { buf with rawbuf := overwrite buf.rawbuf buf.offsetIn bytes }

def atbufPeek (len : Nat) : List UInt8 :=
  (atbufReadPos buf).take (if len ≤ atbufUsed buf then len else atbufUsed buf)

/-- The bytes read and the buffer after them. -/
def atbufRead (len : Nat) : List UInt8 × Atbuf :=
  let bytes := atbufPeek buf len
  (bytes, atbufReadAdvance buf bytes.length)

/-- Append bytes, growing the block when they do not fit.  `heap` answers
`realloc`.  The result is the number of bytes accepted. -/
def atbufWrite (bytes : List UInt8) (heap : Option (Nat -> UInt8)) : Option (Atbuf × Nat) :=
  let len := bytes.length
  let grown :=
    if len > atbufSpare buf then
      let tidied := atbufTidy buf
      match heap with
      | some fresh =>
          atbufRealloc tidied (if atbufSize tidied > len then atbufSize tidied <<< 1 else len <<< 1) fresh
      | none => tidied
    else buf
  let lenCanIn := if len ≤ atbufSpare grown then len else atbufSpare grown
  (atbufWriteAdvance (atbufFill grown (bytes.take lenCanIn)) lenCanIn).map fun written => (written, lenCanIn)

/-! ## The invariant, and what each operation does to the unread bytes -/

variable {buf}

/-- The offsets are in order, there is a cell behind the unread bytes, and it
holds a NUL. -/
structure Atbuf.Valid (buf : Atbuf) : Prop where
  ordered : buf.offsetOut ≤ buf.offsetIn
  inside : buf.offsetIn < buf.rawbuf.length
  terminated : buf.rawbuf[buf.offsetIn]? = some 0

theorem Atbuf.length_unread (ordered : buf.offsetOut ≤ buf.offsetIn)
    (inside : buf.offsetIn ≤ buf.rawbuf.length) : buf.unread.length = atbufUsed buf :=
  length_window (by unfold atbufUsed; omega)

theorem Atbuf.Valid.length_unread (valid : buf.Valid) : buf.unread.length = atbufUsed buf :=
  Atbuf.length_unread valid.ordered (Nat.le_of_lt valid.inside)

/-- Through the read pointer one sees the unread bytes and then a NUL. -/
theorem Atbuf.Valid.readPos (valid : buf.Valid) :
    ∃ behind, atbufReadPos buf = buf.unread ++ 0 :: behind := by
  have used : buf.offsetOut + atbufUsed buf = buf.offsetIn := by
    have := valid.ordered
    unfold atbufUsed
    omega
  have split := List.take_append_drop (atbufUsed buf) (buf.rawbuf.drop buf.offsetOut)
  rw [List.drop_drop, used] at split
  refine ⟨buf.rawbuf.drop (buf.offsetIn + 1), ?_⟩
  have cell : buf.rawbuf.drop buf.offsetIn = 0 :: buf.rawbuf.drop (buf.offsetIn + 1) := by
    rw [List.drop_eq_getElem_cons valid.inside]
    congr 1
    have terminated := valid.terminated
    rw [List.getElem?_eq_getElem valid.inside] at terminated
    exact Option.some.inj terminated
  rw [← cell]
  exact split.symm

theorem atbufNew_valid (size : Nat) : (atbufNew size).Valid where
  ordered := Nat.le_refl _
  inside := by
    simp only [atbufNew, List.length_replicate, atbufDefaultSize]
    split <;> omega
  terminated := by
    simp only [atbufNew, atbufDefaultSize]
    split
    · rfl
    · next nonzero =>
        obtain ⟨smaller, rfl⟩ := Nat.exists_eq_succ_of_ne_zero nonzero
        rfl

@[simp] theorem atbufNew_unread (size : Nat) : (atbufNew size).unread = [] := window_zero _ _

/-- Tidying needs the offsets to be in order and a cell for the NUL; the NUL
itself may still be missing. -/
theorem atbufTidy_valid (ordered : buf.offsetOut ≤ buf.offsetIn)
    (inside : buf.offsetIn < buf.rawbuf.length) : (atbufTidy buf).Valid := by
  have moved : (overwrite buf.rawbuf 0 buf.unread).length = buf.rawbuf.length :=
    length_overwrite (by
      rw [Atbuf.length_unread ordered (Nat.le_of_lt inside)]
      unfold atbufUsed
      omega)
  have room : atbufUsed buf < buf.rawbuf.length := by
    unfold atbufUsed
    omega
  unfold atbufTidy
  split
  · exact ⟨Nat.le_refl _, by simp only [List.length_set]; omega, by
      rw [List.getElem?_set_self (by simp only; omega)]⟩
  · split
    · exact ⟨Nat.zero_le _, by simp only [List.length_set, moved]; omega, by
        rw [List.getElem?_set_self (by simp only [moved]; omega)]⟩
    · exact ⟨ordered, by simpa only [List.length_set] using inside, by
        rw [List.getElem?_set_self inside]⟩

/-- Tidying keeps the unread bytes. -/
theorem atbufTidy_unread (ordered : buf.offsetOut ≤ buf.offsetIn)
    (inside : buf.offsetIn < buf.rawbuf.length) : (atbufTidy buf).unread = buf.unread := by
  have size := Atbuf.length_unread ordered (Nat.le_of_lt inside)
  unfold atbufTidy
  split
  case isTrue empty =>
    have nothing : buf.unread = [] := by rw [Atbuf.unread, empty, window_zero]
    rw [nothing]
    exact window_zero _ _
  case isFalse =>
    split
    · simp only [Atbuf.unread, atbufUsed, Nat.sub_zero]
      rw [window_set_before _ _ _ (by omega)]
      have stored : window (overwrite buf.rawbuf 0 buf.unread) 0 buf.unread.length = buf.unread :=
        window_overwrite_self (Nat.zero_le _)
      rw [size] at stored
      exact stored
    · simp only [Atbuf.unread, atbufUsed]
      exact window_set_before _ _ _ (by omega)

theorem atbufTidy_size (ordered : buf.offsetOut ≤ buf.offsetIn)
    (inside : buf.offsetIn < buf.rawbuf.length) : atbufSize (atbufTidy buf) = atbufSize buf := by
  have moved : (overwrite buf.rawbuf 0 buf.unread).length = buf.rawbuf.length :=
    length_overwrite (by
      rw [Atbuf.length_unread ordered (Nat.le_of_lt inside)]
      unfold atbufUsed
      omega)
  unfold atbufTidy atbufSize
  split
  · simp only [List.length_set]
  · split
    · simp only [List.length_set, moved]
    · simp only [List.length_set]

/-- All three for a buffer whose offsets have just been moved. -/
private theorem atbufTidy_spec (moved : Atbuf) (ordered : moved.offsetOut ≤ moved.offsetIn)
    (inside : moved.offsetIn < atbufSize moved) :
    (atbufTidy moved).Valid ∧ (atbufTidy moved).unread = moved.unread ∧
      atbufSize (atbufTidy moved) = atbufSize moved :=
  ⟨atbufTidy_valid ordered inside, atbufTidy_unread ordered inside, atbufTidy_size ordered inside⟩

/-- Skipping drops unread bytes from the front. -/
theorem atbufReadAdvance_spec (valid : buf.Valid) (len : Nat) :
    (atbufReadAdvance buf len).Valid ∧ (atbufReadAdvance buf len).unread = buf.unread.drop len ∧
      atbufSize (atbufReadAdvance buf len) = atbufSize buf := by
  have ordered := valid.ordered
  unfold atbufReadAdvance
  split
  case isTrue beyond =>
    have nothing : buf.unread.drop len = [] := List.drop_eq_nil_of_le (by
      rw [valid.length_unread, atbufUsed]
      omega)
    have skipped : ({ buf with offsetOut := buf.offsetIn } : Atbuf).unread = [] := by
      simp only [Atbuf.unread, atbufUsed, Nat.sub_self, window_zero]
    have tidied := atbufTidy_spec { buf with offsetOut := buf.offsetIn } (Nat.le_refl _) valid.inside
    exact ⟨tidied.1, by rw [tidied.2.1, skipped, nothing], tidied.2.2⟩
  case isFalse within =>
    have still : buf.offsetOut + len ≤ buf.offsetIn := Nat.le_of_not_lt within
    have skipped : ({ buf with offsetOut := buf.offsetOut + len } : Atbuf).unread = buf.unread.drop len := by
      simp only [Atbuf.unread, atbufUsed, drop_window, Nat.sub_add_eq]
    have tidied := atbufTidy_spec { buf with offsetOut := buf.offsetOut + len } still valid.inside
    exact ⟨tidied.1, by rw [tidied.2.1, skipped], tidied.2.2⟩

theorem atbufPeek_eq (buf : Atbuf) (len : Nat) : atbufPeek buf len = buf.unread.take len := by
  have count : (if len ≤ atbufUsed buf then len else atbufUsed buf) = min len (atbufUsed buf) := by
    split <;> omega
  rw [atbufPeek, count, Atbuf.unread, window, atbufReadPos, List.take_take]

/-- Reading hands out what peeking shows and skips it. -/
theorem atbufRead_spec (valid : buf.Valid) (len : Nat) :
    (atbufRead buf len).1 = buf.unread.take len ∧ (atbufRead buf len).2.Valid ∧
      (atbufRead buf len).2.unread = buf.unread.drop len := by
  have peeked := atbufPeek_eq buf len
  have skipped := atbufReadAdvance_spec valid (atbufPeek buf len).length
  refine ⟨peeked, skipped.1, skipped.2.1.trans ?_⟩
  rw [peeked, List.length_take, ← List.drop_eq_drop_min]

theorem atbufSize_fill (inside : buf.offsetIn ≤ atbufSize buf) (bytes : List UInt8) :
    atbufSize (atbufFill buf bytes) = max (atbufSize buf) (buf.offsetIn + bytes.length) := by
  unfold atbufSize at *
  simp only [atbufFill, overwrite, List.length_append, List.length_take, List.length_drop]
  omega

/-- Bytes placed behind the unread ones join them when the offset moves over
them.  The NUL behind the unread bytes is not needed for this. -/
theorem atbufFill_writeAdvance (ordered : buf.offsetOut ≤ buf.offsetIn) (bytes : List UInt8)
    (room : buf.offsetIn + bytes.length < atbufSize buf) :
    ∃ filled, atbufWriteAdvance (atbufFill buf bytes) bytes.length = some filled ∧ filled.Valid ∧
      filled.unread = buf.unread ++ bytes ∧ atbufSize filled = atbufSize buf := by
  have size : atbufSize (atbufFill buf bytes) = max (atbufSize buf) (buf.offsetIn + bytes.length) :=
    atbufSize_fill (by omega) bytes
  rw [Nat.max_eq_left (by omega)] at size
  have order : (atbufFill buf bytes).offsetOut ≤ buf.offsetIn + bytes.length := by
    simp only [atbufFill]
    omega
  have joined : ({ atbufFill buf bytes with offsetIn := buf.offsetIn + bytes.length } : Atbuf).unread =
      buf.unread ++ bytes := by
    have used : buf.offsetIn + bytes.length - buf.offsetOut = atbufUsed buf + bytes.length := by
      unfold atbufUsed
      omega
    have next : buf.offsetOut + atbufUsed buf = buf.offsetIn := by
      unfold atbufUsed
      omega
    have within : buf.offsetIn ≤ buf.rawbuf.length := by
      unfold atbufSize at room
      omega
    simp only [Atbuf.unread, atbufUsed, atbufFill]
    rw [used, ← window_append, next, window_overwrite_self within,
      window_overwrite_before within (Nat.le_of_eq next)]
    rfl
  have tidied := atbufTidy_spec { atbufFill buf bytes with offsetIn := buf.offsetIn + bytes.length } order
    (Nat.lt_of_lt_of_eq room size.symm)
  refine ⟨_, ?_, tidied.1, tidied.2.1.trans joined, tidied.2.2.trans size⟩
  rw [atbufWriteAdvance, size, if_pos (by exact room)]
  rfl

/-- The assertion fails exactly when the bytes leave no cell for the NUL. -/
theorem atbufFill_writeAdvance_eq_none_iff (valid : buf.Valid) (bytes : List UInt8) :
    atbufWriteAdvance (atbufFill buf bytes) bytes.length = none ↔ atbufSpare buf ≤ bytes.length := by
  have inside : buf.offsetIn < atbufSize buf := valid.inside
  have size := atbufSize_fill (Nat.le_of_lt inside) bytes
  have place : (atbufFill buf bytes).offsetIn = buf.offsetIn := rfl
  rw [atbufWriteAdvance, size, place, atbufSpare]
  split <;> simp only [reduceCtorEq, true_iff, false_iff] <;> omega

/-! ## Writing, with growth -/

/-- Growing keeps the unread bytes: `realloc` preserves the old cells. -/
theorem atbufRealloc_unread (inside : buf.offsetIn ≤ buf.rawbuf.length)
    (ordered : buf.offsetOut ≤ buf.offsetIn) {len : Nat} (longer : buf.rawbuf.length ≤ len)
    (fresh : Nat -> UInt8) :
    (atbufRealloc buf len fresh).unread = buf.unread ∧ atbufSize (atbufRealloc buf len fresh) = len := by
  have kept : buf.rawbuf.take len = buf.rawbuf := List.take_of_length_le longer
  constructor
  · simp only [Atbuf.unread, atbufUsed, atbufRealloc, window, kept]
    rw [List.drop_append_of_le_length (by omega), List.take_append_of_le_length (by
      rw [List.length_drop]
      omega)]
  · simp only [atbufSize, atbufRealloc, kept, List.length_append, List.length_map, List.length_range]
    omega

/-- A write that does not abort has appended all the bytes. -/
theorem atbufWrite_spec (valid : buf.Valid) (bytes : List UInt8) (heap : Option (Nat -> UInt8))
    {written : Atbuf} {count : Nat} (returns : atbufWrite buf bytes heap = some (written, count)) :
    written.Valid ∧ written.unread = buf.unread ++ bytes ∧ count = bytes.length := by
  -- what the block is when the bytes are copied
  obtain ⟨target, place, ordered, inside, unread⟩ : ∃ target : Atbuf,
      (atbufWriteAdvance (atbufFill target (bytes.take
          (if bytes.length ≤ atbufSpare target then bytes.length else atbufSpare target)))
        (if bytes.length ≤ atbufSpare target then bytes.length else atbufSpare target)).map
          (fun written => (written,
            if bytes.length ≤ atbufSpare target then bytes.length else atbufSpare target)) =
        some (written, count) ∧
      target.offsetOut ≤ target.offsetIn ∧ target.offsetIn < atbufSize target ∧
      target.unread = buf.unread := by
    unfold atbufWrite at returns
    by_cases tooLong : bytes.length > atbufSpare buf
    · have tidied := atbufTidy_valid valid.ordered valid.inside
      have same := atbufTidy_unread valid.ordered valid.inside
      cases heap with
      | none =>
          refine ⟨atbufTidy buf, ?_, tidied.ordered, tidied.inside, same⟩
          simpa only [tooLong, if_true] using returns
      | some fresh =>
          simp only [tooLong, if_true] at returns
          have longer : (atbufTidy buf).rawbuf.length ≤
              (if atbufSize (atbufTidy buf) > bytes.length then atbufSize (atbufTidy buf) <<< 1
                else bytes.length <<< 1) := by
            simp only [atbufSize, Nat.shiftLeft_eq]
            split <;> omega
          have grown := atbufRealloc_unread (Nat.le_of_lt tidied.inside) tidied.ordered longer fresh
          refine ⟨_, returns, tidied.ordered, ?_, grown.1.trans same⟩
          rw [grown.2]
          exact Nat.lt_of_lt_of_le tidied.inside longer
    · refine ⟨buf, ?_, valid.ordered, valid.inside, rfl⟩
      simpa only [tooLong, if_false] using returns
  by_cases fits : bytes.length ≤ atbufSpare target
  · simp only [fits, if_true, List.take_length] at place
    rcases Option.map_eq_some_iff.mp place with ⟨advanced, advance, pair⟩
    cases pair
    -- the assertion held, so the bytes left room for the NUL
    have room : target.offsetIn + bytes.length < atbufSize target := by
      by_contra full
      have size := atbufSize_fill (Nat.le_of_lt inside) bytes
      have same : (atbufFill target bytes).offsetIn = target.offsetIn := rfl
      rw [atbufWriteAdvance, size, same, if_neg (by omega)] at advance
      cases advance
    rcases atbufFill_writeAdvance ordered bytes room with ⟨filled, result, filledValid, joined, _⟩
    rw [result] at advance
    cases advance
    exact ⟨filledValid, by rw [joined, unread], rfl⟩
  · -- the block could not grow: filling the spare room to the last cell fails the assertion
    exfalso
    simp only [fits, if_false] at place
    rcases Option.map_eq_some_iff.mp place with ⟨advanced, advance, _⟩
    have size := atbufSize_fill (Nat.le_of_lt inside) (bytes.take (atbufSpare target))
    have same : (atbufFill target (bytes.take (atbufSpare target))).offsetIn = target.offsetIn := rfl
    have taken : (bytes.take (atbufSpare target)).length = atbufSpare target :=
      List.length_take_of_le (Nat.le_of_lt (Nat.lt_of_not_le fits))
    rw [atbufWriteAdvance, size, same, taken, atbufSpare, if_neg (by omega)] at advance
    cases advance

end Buffer
end Extlib
