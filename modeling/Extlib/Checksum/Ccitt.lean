import Extlib.Checksum.ShiftRegister
import Extlib.Crc16

namespace Extlib
namespace Checksum

open Polynomial

/-!
# The polynomial of the table

`crc16.c` takes a byte at a time from its table.  The table is that of
`X ^ 16 + X ^ 12 + X ^ 5 + 1`, bytes go in with the highest bit first, and the
checksum of a buffer is the remainder of its polynomial times `X ^ 16`.
-/

/-- The part of the polynomial below `X ^ 16`. -/
def ccittTaps : BitVec 16 := 0x1021

def byteBits (byte : UInt8) : List Bool := (List.range 8).map byte.toBitVec.getMsbD

def bytesBits (bytes : List UInt8) : List Bool := bytes.flatMap byteBits

theorem length_byteBits (byte : UInt8) : (byteBits byte).length = 8 := by
  rw [byteBits, List.length_map, List.length_range]

theorem length_bytesBits (bytes : List UInt8) : (bytesBits bytes).length = 8 * bytes.length := by
  induction bytes with
  | nil => rfl
  | cons byte bytes counted =>
      rw [bytesBits, List.flatMap_cons, List.length_append, length_byteBits, ← bytesBits, counted, List.length_cons]
      omega

theorem divisor_ccittTaps : divisor ccittTaps = X ^ 16 + X ^ 12 + X ^ 5 + 1 := by
  have taps : registerPoly ccittTaps = X ^ 12 + X ^ 5 + 1 := by
    have bits : ∀ place : Fin 16, coefficient (ccittTaps.getLsbD place) =
        (if place.val = 12 then 1 else 0) + (if place.val = 5 then 1 else 0) +
          if place.val = 0 then 1 else 0 := by
      decide
    ext place
    rw [coeff_registerPoly, coeff_add, coeff_add, coeff_X_pow, coeff_X_pow, coeff_one]
    rcases Nat.lt_or_ge place 16 with inside | outside
    · exact bits ⟨place, inside⟩
    · rw [BitVec.getLsbD_of_ge _ _ outside, if_neg (by omega), if_neg (by omega), if_neg (by omega)]
      decide
  rw [divisor, taps, ← add_assoc, ← add_assoc]

/-- Each entry is what eight steps make of its index. -/
theorem crc16tab_eq (index : Fin 256) :
    (crc16tab.get index).toBitVec =
      (List.replicate 8 false).foldl (shiftIn ccittTaps) (BitVec.ofNat 16 index <<< 8) := by
  revert index
  decide +kernel

/-- One round of the loop is eight steps: the index is the top of the register
with the byte added, and the shift moves the low half up. -/
theorem crc16Round_steps (crc : UInt16) (byte : UInt8) :
    (crc16Round crc byte).toBitVec = (byteBits byte).foldl (shiftIn ccittTaps) crc.toBitVec := by
  have steps := foldl_shiftIn_table ccittTaps (byteBits byte) crc.toBitVec
    (BitVec.ofNat 16 ((crc >>> 8).toUInt8 ^^^ byte).toNat <<< 8)
  rw [length_byteBits] at steps
  rw [steps, crc16Round, UInt16.toBitVec_xor, crc16tab_eq]
  · rfl
  · rw [← BitVec.shiftLeft_add]
    exact BitVec.shiftLeft_eq_zero (Nat.le_refl 16)
  · intro place inside
    have index : ((crc >>> 8).toUInt8 ^^^ byte).toBitVec = (crc.toBitVec >>> 8).setWidth 8 ^^^ byte.toBitVec := rfl
    have top : BitVec.ofNat 16 ((crc >>> 8).toUInt8 ^^^ byte).toNat =
        ((crc >>> 8).toUInt8 ^^^ byte).toBitVec.setWidth 16 := BitVec.ofNat_toNat 16 _
    have entry : (byteBits byte)[place]? = some (byte.toBitVec.getMsbD place) := by
      rw [byteBits, List.getElem?_map, List.getElem?_range inside, Option.map_some]
    rw [entry, top, index, BitVec.getMsbD_xor, BitVec.getMsbD_shiftLeft]
    simp only [BitVec.getMsbD_eq_getLsbD, BitVec.getLsbD_setWidth, BitVec.getLsbD_xor, BitVec.getLsbD_ushiftRight]
    have low : 16 - 1 - (place + 8) = 8 - 1 - place := by omega
    have high : 8 + (8 - 1 - place) = 16 - 1 - place := by omega
    have bounds : place + 8 < 16 ∧ 8 - 1 - place < 16 ∧ 8 - 1 - place < 8 ∧ place < 16 := by omega
    simp only [low, high, inside, bounds, decide_true, Bool.true_and]
    rw [Bool.xor_comm (crc.toBitVec.getLsbD _), Bool.xor_assoc, Bool.xor_self, Bool.xor_false]

/-- The loop over a buffer shifts its bits in. -/
theorem crc16Crc_steps (crc : UInt16) (buf : List UInt8) :
    (crc16Crc crc buf).toBitVec = (bytesBits buf).foldl (shiftIn ccittTaps) crc.toBitVec := by
  induction buf generalizing crc with
  | nil => rfl
  | cons byte buf shifted =>
      rw [bytesBits, List.flatMap_cons, List.foldl_append, ← crc16Round_steps]
      exact shifted (crc16Round crc byte)

/-- `crc16_crc` leaves the remainder of the checksum begun and the bytes that
follow it. -/
theorem crc16Crc_remainder (crc : UInt16) (buf : List UInt8) :
    registerPoly (crc16Crc crc buf).toBitVec =
      (X ^ (8 * buf.length) * registerPoly crc.toBitVec + X ^ 16 * bitsPoly (bytesBits buf)) %ₘ
        (X ^ 16 + X ^ 12 + X ^ 5 + 1) := by
  rw [crc16Crc_steps, registerPoly_foldl ccittTaps (by decide), length_bytesBits, divisor_ccittTaps]

/-- Two buffers have one checksum exactly when the polynomial divides their
difference. -/
theorem crc16_eq_crc16_iff (left right : List UInt8) :
    crc16 left = crc16 right ↔
      divisor ccittTaps ∣ bitsPoly (bytesBits left) - bitsPoly (bytesBits right) := by
  rw [← foldl_eq_iff (by decide) (by decide), ← UInt16.toBitVec_inj]
  change (crc16Crc 0 left).toBitVec = (crc16Crc 0 right).toBitVec ↔ _
  rw [crc16Crc_steps, crc16Crc_steps]
  rfl

/-- An even number of taps and the leading term: `1` is a root. -/
theorem eval_divisor_ccittTaps : (divisor ccittTaps).eval 1 = 0 := by
  rw [divisor_ccittTaps]
  simp only [eval_add, eval_pow, eval_X, eval_one, one_pow]
  decide

end Checksum
end Extlib
