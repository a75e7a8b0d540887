import Mathlib.Algebra.Group.Nat.Defs
import Extlib.Buffer.Atbuf

namespace Extlib
namespace Buffer
namespace Words

open Memory

/-!
# Reading from the buffer with machine words

The reading half of `atbuf.c` once more, with the sizes and offsets as the
64-bit words that they are and the `int` that `atbuf_read` keeps its count in.
As long as nothing wraps this is the exact buffer.  A length that takes the
offset beyond 2^64 moves it backwards, and a count of 2^31 bytes or more is not
the same after it has been an `int`.
-/

structure Atbuf where
  rawbuf : List UInt8
  size : UInt64
  offsetIn : UInt64
  offsetOut : UInt64
  deriving DecidableEq

variable (buf : Atbuf)

def atbufGarbage : UInt64 := buf.offsetOut

def atbufUsed : UInt64 := buf.offsetIn - buf.offsetOut

def atbufSpare : UInt64 := buf.size - buf.offsetIn

/-- The memory `atbuf_read_pos` points to, up to the end of the block. -/
def atbufReadPos : List UInt8 := buf.rawbuf.drop buf.offsetOut.toNat

/-- The unread bytes. -/
def Atbuf.unread : List UInt8 := window buf.rawbuf buf.offsetOut.toNat (atbufUsed buf).toNat

def atbufTidy : Atbuf :=
  let tidied : Atbuf :=
    if atbufUsed buf = 0 then
      { buf with offsetIn := 0, offsetOut := 0 }
    else if atbufSpare buf < buf.size >>> 2 ∨ atbufGarbage buf > buf.size >>> 2 then
      { buf with
        rawbuf := overwrite buf.rawbuf 0 buf.unread
        offsetIn := atbufUsed buf
        offsetOut := 0 }
    else buf
  { tidied with rawbuf := tidied.rawbuf.set tidied.offsetIn.toNat 0 }

/-- What `atbuf_read_advance` does before it tidies. -/
def skipUnread (len : UInt64) : Atbuf :=
  if buf.offsetOut + len > buf.offsetIn then
    { buf with offsetOut := buf.offsetIn }
  else
    { buf with offsetOut := buf.offsetOut + len }

/-- The buffer left behind and the value returned. -/
def atbufReadAdvance (len : UInt64) : Atbuf × UInt64 :=
  let tidied := atbufTidy (skipUnread buf len)
  (tidied, atbufUsed tidied)

/-- The bytes copied, and how many they are. -/
def atbufPeek (len : UInt64) : List UInt8 × UInt64 :=
  let lenCanOut := if len ≤ atbufUsed buf then len else atbufUsed buf
  ((atbufReadPos buf).take lenCanOut.toNat, lenCanOut)

/-- `int nread`. -/
def nread (len : UInt64) : Int32 := (atbufPeek buf len).2.toUInt32.toInt32

/-- The count as it is passed on and returned. -/
def sizeOfInt (count : Int32) : UInt64 := count.toInt64.toUInt64

/-- The bytes copied, the buffer left behind and the value returned. -/
def atbufRead (len : UInt64) : List UInt8 × Atbuf × UInt64 :=
  ((atbufPeek buf len).1, (atbufReadAdvance buf (sizeOfInt (nread buf len))).1, sizeOfInt (nread buf len))

/-- The block has the size noted for it, the offsets are in order, and there is
a cell behind the unread bytes. -/
structure Atbuf.Valid : Prop where
  block : buf.rawbuf.length = buf.size.toNat
  ordered : buf.offsetOut ≤ buf.offsetIn
  inside : buf.offsetIn < buf.size

/-- The bytes that are to be removed. -/
def removable (len : UInt64) : Nat := min len.toNat (atbufUsed buf).toNat

/-- `atbuf_read_advance` removes these bytes from the front, returns how many
remain and, before it tidies, has moved the offset forward. -/
structure AdvancesExactly (len : UInt64) : Prop where
  removed : (atbufReadAdvance buf len).1.unread = buf.unread.drop (removable buf len)
  returned : (atbufReadAdvance buf len).2.toNat = (atbufUsed buf).toNat - removable buf len
  forward : buf.offsetOut ≤ (skipUnread buf len).offsetOut

/-- `atbuf_read` hands out these bytes, removes them from the front, returns
their number and, before it tidies, has moved the offset forward. -/
structure ReadsExactly (len : UInt64) : Prop where
  bytes : (atbufRead buf len).1 = buf.unread.take (removable buf len)
  removed : (atbufRead buf len).2.1.unread = buf.unread.drop (removable buf len)
  returned : (atbufRead buf len).2.2.toNat = removable buf len
  forward : buf.offsetOut ≤ (skipUnread buf (sizeOfInt (nread buf len))).offsetOut

/-! ## The exact buffer behind the words -/

variable {buf}

/-- The same buffer with exact sizes. -/
def Atbuf.exact (buf : Atbuf) : Buffer.Atbuf := ⟨buf.rawbuf, buf.offsetIn.toNat, buf.offsetOut.toNat⟩

theorem toNat_atbufUsed (ordered : buf.offsetOut ≤ buf.offsetIn) :
    (atbufUsed buf).toNat = Buffer.atbufUsed buf.exact :=
  UInt64.toNat_sub_of_le _ _ ordered

theorem exact_unread (ordered : buf.offsetOut ≤ buf.offsetIn) : buf.exact.unread = buf.unread := by
  rw [Atbuf.unread, toNat_atbufUsed ordered]
  rfl

theorem Atbuf.Valid.exact_ordered (valid : buf.Valid) : buf.exact.offsetOut ≤ buf.exact.offsetIn :=
  UInt64.le_iff_toNat_le.mp valid.ordered

theorem Atbuf.Valid.exact_inside (valid : buf.Valid) : buf.exact.offsetIn < buf.exact.rawbuf.length :=
  Nat.lt_of_lt_of_eq (UInt64.lt_iff_toNat_lt.mp valid.inside) valid.block.symm

theorem Atbuf.Valid.offsets (valid : buf.Valid) :
    buf.offsetOut.toNat ≤ buf.offsetIn.toNat ∧
      (atbufUsed buf).toNat = buf.offsetIn.toNat - buf.offsetOut.toNat :=
  ⟨valid.exact_ordered, toNat_atbufUsed valid.ordered⟩

theorem removable_le (buf : Atbuf) (len : UInt64) : removable buf len ≤ (atbufUsed buf).toNat := Nat.min_le_right _ _

theorem toNat_atbufSpare (valid : buf.Valid) : (atbufSpare buf).toNat = Buffer.atbufSpare buf.exact := by
  have difference := UInt64.toNat_sub_of_le buf.size buf.offsetIn (UInt64.le_of_lt valid.inside)
  rw [← valid.block] at difference
  exact difference

/-- Tidying does not wrap. -/
theorem exact_atbufTidy (valid : buf.Valid) : (atbufTidy buf).exact = Buffer.atbufTidy buf.exact := by
  have used := toNat_atbufUsed valid.ordered
  have quarter : (buf.size >>> 2).toNat = atbufSize buf.exact >>> 2 := by
    rw [UInt64.toNat_shiftRight, ← valid.block]
    rfl
  have empty : atbufUsed buf = 0 ↔ Buffer.atbufUsed buf.exact = 0 := by
    rw [← used, ← UInt64.toNat_inj]
    rfl
  have crowded : (atbufSpare buf < buf.size >>> 2 ∨ atbufGarbage buf > buf.size >>> 2) ↔
      (Buffer.atbufSpare buf.exact < atbufSize buf.exact >>> 2 ∨
        Buffer.atbufGarbage buf.exact > atbufSize buf.exact >>> 2) := by
    rw [← toNat_atbufSpare valid, ← quarter, ← UInt64.lt_iff_toNat_lt]
    exact or_congr_right UInt64.lt_iff_toNat_lt
  unfold atbufTidy Buffer.atbufTidy
  simp only [empty, crowded]
  by_cases nothing : Buffer.atbufUsed buf.exact = 0
  · rw [if_pos nothing, if_pos nothing]
    rfl
  · rw [if_neg nothing, if_neg nothing]
    split
    · rw [← used, exact_unread valid.ordered]
      rfl
    · rfl

@[simp] theorem size_atbufTidy (buf : Atbuf) : (atbufTidy buf).size = buf.size := by
  unfold atbufTidy
  split
  · rfl
  · split <;> rfl

/-- Tidying keeps the unread bytes, and the offsets in order. -/
theorem atbufTidy_spec (valid : buf.Valid) : (atbufTidy buf).Valid ∧ (atbufTidy buf).unread = buf.unread := by
  have tidied := Buffer.atbufTidy_valid valid.exact_ordered valid.exact_inside
  have unread := Buffer.atbufTidy_unread valid.exact_ordered valid.exact_inside
  have block := Buffer.atbufTidy_size valid.exact_ordered valid.exact_inside
  rw [← exact_atbufTidy valid] at tidied unread block
  have ordered : (atbufTidy buf).offsetOut ≤ (atbufTidy buf).offsetIn := UInt64.le_iff_toNat_le.mpr tidied.ordered
  have length : (atbufTidy buf).rawbuf.length = (atbufTidy buf).size.toNat := by
    rw [size_atbufTidy, ← valid.block]
    exact block
  rw [exact_unread ordered, exact_unread valid.ordered] at unread
  exact ⟨⟨length, ordered, UInt64.lt_iff_toNat_lt.mpr (Nat.lt_of_lt_of_eq tidied.inside length)⟩, unread⟩

theorem Atbuf.Valid.length_unread (valid : buf.Valid) : buf.unread.length = (atbufUsed buf).toNat := by
  rw [← exact_unread valid.ordered, toNat_atbufUsed valid.ordered]
  exact Buffer.Atbuf.length_unread valid.exact_ordered (Nat.le_of_lt valid.exact_inside)

/-! ## Skipping -/

/-- Whatever the length, the offsets stay in order. -/
theorem skipUnread_valid (valid : buf.Valid) (len : UInt64) : (skipUnread buf len).Valid := by
  unfold skipUnread
  split
  case isTrue => exact ⟨valid.block, UInt64.le_refl _, valid.inside⟩
  case isFalse within => exact ⟨valid.block, UInt64.not_lt.mp within, valid.inside⟩

theorem skipUnread_rest (buf : Atbuf) (len : UInt64) :
    (skipUnread buf len).rawbuf = buf.rawbuf ∧ (skipUnread buf len).offsetIn = buf.offsetIn := by
  unfold skipUnread
  split <;> exact ⟨rfl, rfl⟩

/-- Without a wrap the offset moves over the bytes that are to be removed. -/
theorem toNat_offsetOut_skipUnread (valid : buf.Valid) {len : UInt64}
    (small : buf.offsetOut.toNat + len.toNat < 2 ^ 64) :
    (skipUnread buf len).offsetOut.toNat = buf.offsetOut.toNat + removable buf len := by
  have sum : (buf.offsetOut + len).toNat = buf.offsetOut.toNat + len.toNat := by
    rw [UInt64.toNat_add, Nat.mod_eq_of_lt small]
  rcases valid.offsets with ⟨ordered, used⟩
  unfold skipUnread removable
  split
  case isTrue beyond =>
    have past := UInt64.lt_iff_toNat_lt.mp beyond
    dsimp only
    omega
  case isFalse within =>
    have inside := UInt64.le_iff_toNat_le.mp (UInt64.not_lt.mp within)
    dsimp only
    omega

theorem exact_skipUnread (valid : buf.Valid) {len : UInt64} (small : buf.offsetOut.toNat + len.toNat < 2 ^ 64) :
    (skipUnread buf len).exact = { buf.exact with offsetOut := buf.exact.offsetOut + removable buf len } := by
  have rest := skipUnread_rest buf len
  have offset := toNat_offsetOut_skipUnread valid small
  simp only [Atbuf.exact, rest.1, rest.2, offset]

/-- A sum that wraps is below the offset that it was made from. -/
theorem skipUnread_back (valid : buf.Valid) {len : UInt64} (large : 2 ^ 64 ≤ buf.offsetOut.toNat + len.toNat) :
    (skipUnread buf len).offsetOut < buf.offsetOut := by
  have sum : (buf.offsetOut + len).toNat = (buf.offsetOut.toNat + len.toNat) % 2 ^ 64 := UInt64.toNat_add _ _
  have ordered := UInt64.le_iff_toNat_le.mp valid.ordered
  have word := len.toNat_lt
  have start := buf.offsetOut.toNat_lt
  have back : (buf.offsetOut + len).toNat < buf.offsetOut.toNat := by omega
  have within : ¬ buf.offsetOut + len > buf.offsetIn := UInt64.not_lt.mpr (UInt64.le_iff_toNat_le.mpr (by omega))
  rw [skipUnread, if_neg within]
  exact UInt64.lt_iff_toNat_lt.mpr back

/-- Skipping removes exactly the bytes it should unless the sum wraps. -/
theorem advancesExactly_iff (valid : buf.Valid) (len : UInt64) :
    AdvancesExactly buf len ↔ buf.offsetOut.toNat + len.toNat < 2 ^ 64 := by
  constructor
  · intro exactly
    by_contra wraps
    have back := skipUnread_back valid (Nat.le_of_not_lt wraps)
    exact absurd (UInt64.lt_of_lt_of_le back exactly.forward) (UInt64.lt_irrefl _)
  · intro small
    have skipped := skipUnread_valid valid len
    have tidied := atbufTidy_spec skipped
    have unread : (skipUnread buf len).unread = buf.unread.drop (removable buf len) := by
      rw [← exact_unread skipped.ordered, ← exact_unread valid.ordered, exact_skipUnread valid small]
      simp only [Buffer.Atbuf.unread, Buffer.atbufUsed, drop_window, Nat.sub_add_eq]
    refine ⟨tidied.2.trans unread, ?_, ?_⟩
    · change (atbufUsed (atbufTidy (skipUnread buf len))).toNat = _
      rw [← tidied.1.length_unread, tidied.2, unread, List.length_drop, valid.length_unread]
    · rw [UInt64.le_iff_toNat_le, toNat_offsetOut_skipUnread valid small]
      exact Nat.le_add_right _ _

/-- Without a wrap skipping does what it does to the exact buffer. -/
theorem exact_atbufReadAdvance (valid : buf.Valid) {len : UInt64}
    (small : buf.offsetOut.toNat + len.toNat < 2 ^ 64) :
    (atbufReadAdvance buf len).1.exact = Buffer.atbufReadAdvance buf.exact len.toNat := by
  have ordered := valid.exact_ordered
  have used : removable buf len = min len.toNat (buf.exact.offsetIn - buf.exact.offsetOut) := by
    rw [removable, toNat_atbufUsed valid.ordered]
    rfl
  change (atbufTidy (skipUnread buf len)).exact = _
  rw [exact_atbufTidy (skipUnread_valid valid len), exact_skipUnread valid small, Buffer.atbufReadAdvance]
  split
  case isTrue beyond =>
    have everything : buf.exact.offsetOut + removable buf len = buf.exact.offsetIn := by omega
    rw [everything]
  case isFalse within =>
    have requested : removable buf len = len.toNat := by omega
    rw [requested]

/-! ## The count as an int -/

/-- The count cut to 32 bits, with the sign carried into the upper half. -/
theorem toNat_sizeOfInt (count : UInt64) :
    (sizeOfInt count.toUInt32.toInt32).toNat =
      count.toNat % 2 ^ 32 + if 2 ^ 31 ≤ count.toNat % 2 ^ 32 then 2 ^ 64 - 2 ^ 32 else 0 := by
  change ((count.toBitVec.setWidth 32).signExtend 64).toNat = _
  rw [BitVec.toNat_signExtend, BitVec.msb_eq_decide, BitVec.toNat_setWidth, BitVec.toNat_setWidth]
  have low : count.toNat % 2 ^ 32 < 2 ^ 32 := Nat.mod_lt _ (by decide)
  have wide : count.toNat % 2 ^ 32 % 2 ^ 64 = count.toNat % 2 ^ 32 := Nat.mod_eq_of_lt (by omega)
  change count.toNat % 2 ^ 32 % 2 ^ 64 + (if decide (2 ^ 31 ≤ count.toNat % 2 ^ 32) = true then _ else 0) = _
  rw [wide]
  simp only [decide_eq_true_iff]

/-- A count comes through an `int` unchanged when it is below 2^31, and when
all its upper bits are ones. -/
theorem sizeOfInt_cut_iff (count : UInt64) :
    sizeOfInt count.toUInt32.toInt32 = count ↔ count.toNat < 2 ^ 31 ∨ 2 ^ 64 - 2 ^ 31 ≤ count.toNat := by
  have word := count.toNat_lt
  rw [← UInt64.toNat_inj, toNat_sizeOfInt]
  split <;> omega

theorem toNat_atbufPeek (buf : Atbuf) (len : UInt64) : (atbufPeek buf len).2.toNat = removable buf len := by
  unfold atbufPeek removable
  dsimp only
  split
  case isTrue within =>
    have small := UInt64.le_iff_toNat_le.mp within
    exact (Nat.min_eq_left small).symm
  case isFalse beyond =>
    have large := UInt64.lt_iff_toNat_lt.mp (UInt64.not_le.mp beyond)
    exact (Nat.min_eq_right (Nat.le_of_lt large)).symm

theorem atbufPeek_bytes (buf : Atbuf) (len : UInt64) :
    (atbufPeek buf len).1 = buf.unread.take (removable buf len) := by
  change (buf.rawbuf.drop buf.offsetOut.toNat).take (atbufPeek buf len).2.toNat = _
  rw [toNat_atbufPeek, Atbuf.unread, window, List.take_take, Nat.min_eq_left (removable_le buf len)]

/-- The count itself never takes the offset too far. -/
theorem offsetOut_add_count_lt (valid : buf.Valid) (len : UInt64) :
    buf.offsetOut.toNat + (atbufPeek buf len).2.toNat < 2 ^ 64 := by
  rcases valid.offsets with ⟨ordered, used⟩
  have word := buf.offsetIn.toNat_lt
  have most := removable_le buf len
  rw [toNat_atbufPeek]
  omega

/-- Reading removes and returns what it should exactly when the count comes
through the `int` unchanged. -/
theorem readsExactly_iff (valid : buf.Valid) (len : UInt64) :
    ReadsExactly buf len ↔ removable buf len < 2 ^ 31 ∨ 2 ^ 64 - 2 ^ 31 ≤ removable buf len := by
  have count := toNat_atbufPeek buf len
  rw [← count, ← sizeOfInt_cut_iff]
  constructor
  · intro exactly
    rw [← UInt64.toNat_inj, count]
    exact exactly.returned
  · intro same
    have passed : sizeOfInt (nread buf len) = (atbufPeek buf len).2 := same
    have again : removable buf (atbufPeek buf len).2 = removable buf len := by
      rw [removable, count]
      exact Nat.min_eq_left (removable_le buf len)
    have advances := (advancesExactly_iff valid _).mpr (offsetOut_add_count_lt valid len)
    rw [← passed] at advances again
    refine ⟨atbufPeek_bytes buf len, ?_, ?_, advances.forward⟩
    · exact again ▸ advances.removed
    · exact (congrArg UInt64.toNat passed).trans count

/-- So does reading, when the count is below 2^31. -/
theorem exact_atbufRead (valid : buf.Valid) {len : UInt64} (small : removable buf len < 2 ^ 31) :
    ((atbufRead buf len).1, (atbufRead buf len).2.1.exact) = Buffer.atbufRead buf.exact len.toNat := by
  have count := toNat_atbufPeek buf len
  have passed : sizeOfInt (nread buf len) = (atbufPeek buf len).2 :=
    (sizeOfInt_cut_iff _).mpr (Or.inl (count ▸ small))
  have bytes : (atbufPeek buf len).1 = Buffer.atbufPeek buf.exact len.toNat := by
    rw [atbufPeek_bytes, Buffer.atbufPeek_eq, exact_unread valid.ordered, removable, ← valid.length_unread,
      ← List.take_eq_take_min]
  have length : (Buffer.atbufPeek buf.exact len.toNat).length = (atbufPeek buf len).2.toNat := by
    rw [← bytes, atbufPeek_bytes, List.length_take, valid.length_unread, count]
    exact Nat.min_eq_left (removable_le buf len)
  have advanced := exact_atbufReadAdvance valid (offsetOut_add_count_lt valid len)
  rw [Buffer.atbufRead, length, ← advanced, ← passed, ← bytes]
  rfl

/-- For every buffer and every length: `atbuf_read_advance` does what it
should unless the offset and the length together exceed a word, and
`atbuf_read` as long as the number of bytes comes through an `int`. -/
theorem advances_and_reads_iff (valid : buf.Valid) (len : UInt64) :
    (AdvancesExactly buf len ↔ buf.offsetOut.toNat + len.toNat < 2 ^ 64) ∧
      (ReadsExactly buf len ↔ removable buf len < 2 ^ 31 ∨ 2 ^ 64 - 2 ^ 31 ≤ removable buf len) :=
  ⟨advancesExactly_iff valid len, readsExactly_iff valid len⟩

/-- Four cells: a byte already read and one unread. -/
private def oneUnread : Atbuf where
  rawbuf := [97, 98, 0, 0]
  size := 4
  offsetIn := 2
  offsetOut := 1

private theorem oneUnread_valid : oneUnread.Valid := ⟨by decide, by decide, by decide⟩

theorem advances_and_reads_oneUnread : AdvancesExactly oneUnread 7 ∧ ReadsExactly oneUnread 7 := by
  have both := advances_and_reads_iff oneUnread_valid 7
  exact ⟨both.1.mpr (by decide), both.2.mpr (by decide)⟩

/-- 2^31 unread bytes. -/
private def twoGigabytes : Atbuf where
  rawbuf := List.replicate (2 ^ 31 + 1) 0
  size := 2147483649
  offsetIn := 2147483648
  offsetOut := 0

private theorem twoGigabytes_valid : twoGigabytes.Valid where
  block := by
    rw [twoGigabytes, List.length_replicate]
    rfl
  ordered := by decide
  inside := by decide

/-- A length that means everything takes the byte already read back, and 2^31
bytes are a count below zero. -/
theorem largeLengths_fail :
    (oneUnread.Valid ∧ ¬ AdvancesExactly oneUnread 18446744073709551615) ∧
      twoGigabytes.Valid ∧ ¬ ReadsExactly twoGigabytes 2147483648 := by
  refine ⟨⟨oneUnread_valid, fun exactly => ?_⟩, twoGigabytes_valid, fun exactly => ?_⟩
  · have forward := exactly.forward
    revert forward
    decide
  · have small := (readsExactly_iff twoGigabytes_valid _).mp exactly
    have used : atbufUsed twoGigabytes = 2147483648 := by
      rw [atbufUsed, twoGigabytes]
      decide
    rw [removable, used] at small
    revert small
    decide

end Words
end Buffer
end Extlib
