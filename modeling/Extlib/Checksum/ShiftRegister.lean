import Mathlib.Algebra.Polynomial.FieldDivision
import Mathlib.Algebra.Polynomial.Degree.Lemmas
import Mathlib.Algebra.Field.ZMod
import Mathlib.RingTheory.PrincipalIdealDomain
import Mathlib.Data.BitVec
import Mathlib.Tactic.LinearCombination

namespace Extlib
namespace Checksum

open Polynomial

/-!
# The remainder of a message

A cyclic redundancy check is a division.  The bits of a message are the
coefficients of a polynomial over the field of two elements, the register
holds a remainder, and a shift of the register with its feedback is one step
of the division by a monic polynomial: `X ^ w` and below it the taps.
-/

variable {w : Nat}

/-- A bit as an element of the field. -/
def coefficient (bit : Bool) : ZMod 2 := if bit then 1 else 0

theorem coefficient_xor (left right : Bool) :
    coefficient (left ^^ right) = coefficient left + coefficient right := by
  cases left <;> cases right <;> decide

theorem coefficient_injective : Function.Injective coefficient := by
  decide

/-- A list of bits, the highest coefficient first. -/
noncomputable def bitsPoly (bits : List Bool) : (ZMod 2)[X] :=
  bits.foldl (fun poly bit => X * poly + C (coefficient bit)) 0

/-- A register: the least bit is the constant coefficient. -/
noncomputable def registerPoly (register : BitVec w) : (ZMod 2)[X] :=
  ∑ place ∈ Finset.range w, monomial place (coefficient (register.getLsbD place))

/-- One step: the bit that leaves the register and the bit of the message
decide together whether the taps are added. -/
def shiftIn (taps register : BitVec w) (bit : Bool) : BitVec w :=
  (register <<< 1) ^^^ (if register.msb ^^ bit then taps else 0)

/-- What a register with these taps divides by. -/
noncomputable def divisor (taps : BitVec w) : (ZMod 2)[X] := X ^ w + registerPoly taps

/-! ## Registers as polynomials -/

theorem coeff_registerPoly (register : BitVec w) (place : Nat) :
    (registerPoly register).coeff place = coefficient (register.getLsbD place) := by
  rw [registerPoly, finsetSum_coeff]
  simp only [coeff_monomial, Finset.sum_ite_eq', Finset.mem_range]
  by_cases inside : place < w
  · rw [if_pos inside]
  · rw [if_neg inside, BitVec.getLsbD_of_ge register place (by omega)]
    rfl

theorem registerPoly_injective : Function.Injective (registerPoly (w := w)) := by
  intro left right same
  apply BitVec.eq_of_getLsbD_eq
  intro place _
  apply coefficient_injective
  rw [← coeff_registerPoly, ← coeff_registerPoly, same]

theorem registerPoly_zero : registerPoly (0 : BitVec w) = 0 := by
  ext place
  rw [coeff_registerPoly, coeff_zero]
  simp [coefficient]

theorem registerPoly_xor (left right : BitVec w) :
    registerPoly (left ^^^ right) = registerPoly left + registerPoly right := by
  ext place
  rw [coeff_add, coeff_registerPoly, coeff_registerPoly, coeff_registerPoly, BitVec.getLsbD_xor, coefficient_xor]

theorem degree_registerPoly_lt (register : BitVec w) : (registerPoly register).degree < w := by
  rw [degree_lt_iff_coeff_zero]
  intro place outside
  rw [coeff_registerPoly, BitVec.getLsbD_of_ge register place outside]
  rfl

/-- The bit that leaves a register is the coefficient at its width. -/
theorem registerPoly_shift (positive : 0 < w) (register : BitVec w) :
    registerPoly (register <<< 1) = X * registerPoly register + C (coefficient register.msb) * X ^ w := by
  ext place
  rw [coeff_add, coeff_C_mul, coeff_X_pow, coeff_registerPoly, BitVec.getLsbD_shiftLeft]
  cases place with
  | zero =>
      rw [coeff_X_mul_zero, if_neg (by omega)]
      simp [coefficient]
  | succ place =>
      rw [coeff_X_mul, coeff_registerPoly]
      by_cases top : place + 1 = w
      · have msb : register.msb = register.getLsbD place := by
          rw [BitVec.msb_eq_getLsbD_last, Nat.sub_eq_of_eq_add top.symm]
        rw [if_pos top, msb, mul_one, CharTwo.add_self_eq_zero]
        simp [top, coefficient]
      · rw [if_neg top, mul_zero, add_zero]
        by_cases inside : place + 1 < w
        · simp [inside]
        · rw [BitVec.getLsbD_of_ge register place (by omega)]
          simp [inside]

/-! ## The division -/

section Division

variable (taps : BitVec w)

theorem divisor_monic : (divisor taps).Monic :=
  monic_X_pow_add (degree_registerPoly_lt taps)

theorem degree_divisor : (divisor taps).degree = w := by
  have lower : (registerPoly taps).degree < (X ^ w : (ZMod 2)[X]).degree :=
    (degree_registerPoly_lt taps).trans_eq (degree_X_pow w).symm
  rw [divisor, degree_add_eq_left_of_degree_lt lower, degree_X_pow]

theorem coeff_zero_divisor (positive : 0 < w) : (divisor taps).coeff 0 = coefficient (taps.getLsbD 0) := by
  rw [divisor, coeff_add, coeff_registerPoly, coeff_X_pow, if_neg (by omega), zero_add]

/-- A step takes the next bit in and subtracts the divisor or nothing. -/
theorem registerPoly_shiftIn (positive : 0 < w) (register : BitVec w) (bit : Bool) :
    registerPoly (shiftIn taps register bit) =
      X * registerPoly register + X ^ w * C (coefficient bit) +
        C (coefficient (register.msb ^^ bit)) * divisor taps := by
  have feedback : registerPoly (if register.msb ^^ bit then taps else 0) =
      C (coefficient (register.msb ^^ bit)) * registerPoly taps := by
    cases register.msb ^^ bit
    · rw [if_neg Bool.false_ne_true, registerPoly_zero]
      simp [coefficient]
    · simp [coefficient]
  have twice : C (coefficient bit) * X ^ w + C (coefficient bit) * X ^ w = (0 : (ZMod 2)[X]) :=
    CharTwo.add_self_eq_zero _
  rw [shiftIn, registerPoly_xor, registerPoly_shift positive, feedback, divisor, coefficient_xor, C_add]
  linear_combination -twice

theorem bitsPoly_concat (bits : List Bool) (bit : Bool) :
    bitsPoly (bits ++ [bit]) = X * bitsPoly bits + C (coefficient bit) := by
  rw [bitsPoly, List.foldl_append]
  rfl

/-- The induction is on the message from its end: the divisors subtracted so
far are shifted along with the register. -/
theorem divisor_dvd_shifted (positive : 0 < w) (register : BitVec w) (bits : List Bool) :
    divisor taps ∣ X ^ bits.length * registerPoly register + X ^ w * bitsPoly bits -
      registerPoly (bits.foldl (shiftIn taps) register) := by
  induction bits using List.reverseRecOn with
  | nil => simp [bitsPoly]
  | append_singleton bits bit divides =>
      rcases divides with ⟨quotient, divided⟩
      rw [List.foldl_append, List.foldl_cons, List.foldl_nil, registerPoly_shiftIn taps positive, bitsPoly_concat,
        List.length_append, List.length_singleton, pow_succ]
      refine ⟨X * quotient - C (coefficient ((bits.foldl (shiftIn taps) register).msb ^^ bit)), ?_⟩
      linear_combination X * divided

/-- The register holds the remainder of what has been shifted in. -/
theorem registerPoly_foldl (positive : 0 < w) (register : BitVec w) (bits : List Bool) :
    registerPoly (bits.foldl (shiftIn taps) register) =
      (X ^ bits.length * registerPoly register + X ^ w * bitsPoly bits) %ₘ divisor taps := by
  rcases divisor_dvd_shifted taps positive register bits with ⟨quotient, divided⟩
  have split : registerPoly (bits.foldl (shiftIn taps) register) + divisor taps * quotient =
      X ^ bits.length * registerPoly register + X ^ w * bitsPoly bits := by
    rw [← divided, add_sub_cancel]
  have small : (registerPoly (bits.foldl (shiftIn taps) register)).degree < (divisor taps).degree :=
    (degree_registerPoly_lt _).trans_eq (degree_divisor taps).symm
  exact (div_modByMonic_unique _ _ (divisor_monic taps) ⟨split, small⟩).2.symm

end Division

/-! ## What a remainder tells apart -/

theorem bitsPoly_append (front back : List Bool) :
    bitsPoly (front ++ back) = X ^ back.length * bitsPoly front + bitsPoly back := by
  induction back using List.reverseRecOn with
  | nil => simp [bitsPoly]
  | append_singleton back bit split =>
      rw [← List.append_assoc, bitsPoly_concat, bitsPoly_concat, split, List.length_append, List.length_singleton,
        pow_succ]
      ring

theorem degree_bitsPoly_lt (bits : List Bool) : (bitsPoly bits).degree < bits.length := by
  rw [degree_lt_iff_coeff_zero]
  induction bits using List.reverseRecOn with
  | nil => simp [bitsPoly]
  | append_singleton bits bit vanishes =>
      intro place outside
      rw [List.length_append, List.length_singleton] at outside
      rcases place with _ | place
      · omega
      · rw [bitsPoly_concat, coeff_add, coeff_X_mul, coeff_C_succ, add_zero]
        exact vanishes place (by omega)

/-- Of lists of one length, each has its own polynomial. -/
theorem bitsPoly_injective {left right : List Bool} (lengths : left.length = right.length)
    (same : bitsPoly left = bitsPoly right) : left = right := by
  induction left using List.reverseRecOn generalizing right with
  | nil => exact (List.eq_nil_of_length_eq_zero lengths.symm).symm
  | append_singleton left last agree =>
      rcases right.eq_nil_or_concat with rfl | ⟨init, bit, rfl⟩
      · simp at lengths
      · rw [List.concat_eq_append] at lengths same ⊢
        rw [bitsPoly_concat, bitsPoly_concat] at same
        have constants := congrArg (fun poly => poly.coeff 0) same
        simp only [coeff_add, coeff_X_mul_zero, coeff_C_zero, zero_add] at constants
        rw [coefficient_injective constants] at same ⊢
        rw [agree (by simpa using lengths) (mul_left_cancel₀ X_ne_zero (add_right_cancel same))]

/-- The lists agree but for a stretch of at most `width` bits. -/
def Burst (width : Nat) (left right : List Bool) : Prop :=
  ∃ front before after back, left = front ++ before ++ back ∧ right = front ++ after ++ back ∧
    before.length = after.length ∧ before.length ≤ width ∧ before ≠ after

section Differences

variable {taps : BitVec w} {left right : List Bool}

/-- Where the lowest tap is set no power of `X` has a factor in common with
the divisor. -/
theorem divisor_coprime (positive : 0 < w) (lowest : taps.getLsbD 0 = true) (exponent : Nat) :
    IsCoprime (divisor taps) (X ^ exponent) := by
  have prime : Irreducible (X : (ZMod 2)[X]) := irreducible_X
  apply IsCoprime.pow_right
  apply IsCoprime.symm
  rw [prime.coprime_iff_not_dvd, X_dvd_iff, coeff_zero_divisor taps positive, lowest]
  decide

/-- Two messages leave the same remainder exactly when the divisor divides
their difference. -/
theorem foldl_eq_iff (positive : 0 < w) (lowest : taps.getLsbD 0 = true) :
    left.foldl (shiftIn taps) 0 = right.foldl (shiftIn taps) 0 ↔
      divisor taps ∣ bitsPoly left - bitsPoly right := by
  have remainder : ∀ bits : List Bool, registerPoly (bits.foldl (shiftIn taps) 0) =
      (X ^ w * bitsPoly bits) %ₘ divisor taps := by
    intro bits
    rw [registerPoly_foldl taps positive, registerPoly_zero, mul_zero, zero_add]
  rw [← registerPoly_injective.eq_iff, remainder, remainder, ← sub_eq_zero, ← sub_modByMonic,
    modByMonic_eq_zero_iff_dvd (divisor_monic taps), ← mul_sub]
  exact ⟨(divisor_coprime positive lowest w).dvd_of_dvd_mul_left, fun divides => divides.mul_left _⟩

/-- A difference in one stretch that fits the register is too small for the
divisor. -/
theorem Burst.not_dvd (burst : Burst w left right) (positive : 0 < w) (lowest : taps.getLsbD 0 = true) :
    ¬ divisor taps ∣ bitsPoly left - bitsPoly right := by
  rcases burst with ⟨front, before, after, back, rfl, rfl, lengths, short, differ⟩
  intro divides
  have stretch : bitsPoly (front ++ before ++ back) - bitsPoly (front ++ after ++ back) =
      X ^ back.length * (bitsPoly before - bitsPoly after) := by
    rw [bitsPoly_append, bitsPoly_append, bitsPoly_append, bitsPoly_append, lengths]
    ring
  rw [stretch] at divides
  have divided := (divisor_coprime positive lowest back.length).dvd_of_dvd_mul_left divides
  have fits : ∀ bits : List Bool, bits.length ≤ w -> (bitsPoly bits).degree < (divisor taps).degree := by
    intro bits room
    rw [degree_divisor]
    exact (degree_bitsPoly_lt bits).trans_le (by exact_mod_cast room)
  have small : (bitsPoly before - bitsPoly after).degree < (divisor taps).degree :=
    (degree_sub_le _ _).trans_lt (max_lt (fits before short) (fits after (lengths ▸ short)))
  exact differ (bitsPoly_injective lengths (sub_eq_zero.mp (eq_zero_of_dvd_of_degree_lt divided small)))

theorem eval_bitsPoly (bits : List Bool) : (bitsPoly bits).eval 1 = bits.count true := by
  induction bits using List.reverseRecOn with
  | nil => simp [bitsPoly]
  | append_singleton bits bit counted =>
      rw [bitsPoly_concat, eval_add, eval_mul, eval_X, eval_C, counted, one_mul, List.count_append]
      cases bit <;> simp [coefficient]

/-- Where `1` is a root of the divisor it divides no difference in an odd
number of bits. -/
theorem parity_of_dvd (root : (divisor taps).eval 1 = 0) (divides : divisor taps ∣ bitsPoly left - bitsPoly right) :
    left.count true % 2 = right.count true % 2 := by
  rcases divides with ⟨quotient, divided⟩
  have values := congrArg (eval 1) divided
  rw [eval_sub, eval_mul, root, zero_mul, sub_eq_zero, eval_bitsPoly, eval_bitsPoly] at values
  exact (ZMod.natCast_eq_natCast_iff' _ _ 2).mp values

end Differences

/-! ## Several steps from a table -/

section Table

variable (taps : BitVec w)

theorem shiftIn_xor (left right : BitVec w) (leftBit rightBit : Bool) :
    shiftIn taps (left ^^^ right) (leftBit ^^ rightBit) = shiftIn taps left leftBit ^^^ shiftIn taps right rightBit := by
  have feedback : ∀ one other : Bool, (if one ^^ other then taps else 0) =
      (if one then taps else 0) ^^^ (if other then taps else 0) := by
    intro one other
    cases one <;> cases other <;> simp
  have bits : ((left ^^^ right).msb ^^ (leftBit ^^ rightBit)) = ((left.msb ^^ leftBit) ^^ (right.msb ^^ rightBit)) := by
    rw [BitVec.msb_xor]
    cases left.msb <;> cases right.msb <;> cases leftBit <;> cases rightBit <;> rfl
  rw [shiftIn, shiftIn, shiftIn, bits, feedback, BitVec.shiftLeft_xor_distrib]
  ac_rfl

theorem foldl_shiftIn_xor (bits : List Bool) (left right : BitVec w) :
    bits.foldl (shiftIn taps) (left ^^^ right) =
      (List.replicate bits.length false).foldl (shiftIn taps) left ^^^ bits.foldl (shiftIn taps) right := by
  induction bits generalizing left right with
  | nil => rfl
  | cons bit bits apart =>
      have step := shiftIn_xor taps left right false bit
      rw [Bool.false_xor] at step
      rw [List.foldl_cons, step, apart]
      rfl

/-- A register that is fed the bits at its own top only moves them out. -/
theorem foldl_shiftIn_own (bits : List Bool) (register : BitVec w)
    (own : ∀ place, place < bits.length -> bits[place]? = some (register.getMsbD place)) :
    bits.foldl (shiftIn taps) register = register <<< bits.length := by
  induction bits generalizing register with
  | nil => simp
  | cons bit bits moved =>
      have top : bit = register.msb := Option.some.inj (own 0 (Nat.succ_pos _))
      have step : shiftIn taps register bit = register <<< 1 := by
        rw [shiftIn, top, Bool.xor_self, if_neg Bool.false_ne_true]
        exact BitVec.xor_zero
      rw [List.foldl_cons, step, moved, List.length_cons, Nat.add_comm, BitVec.shiftLeft_add]
      intro place inside
      have next := own (place + 1) (Nat.succ_lt_succ inside)
      rw [List.getElem?_cons_succ] at next
      rw [next, BitVec.getMsbD_shiftLeft, Nat.add_comm]

/-- The steps for a few bits at once: `top` is the top of the register with
the bits added, and a table has what becomes of it. -/
theorem foldl_shiftIn_table (bits : List Bool) (register top : BitVec w) (leaves : top <<< bits.length = 0)
    (rest : ∀ place, place < bits.length -> bits[place]? = some ((top ^^^ register).getMsbD place)) :
    bits.foldl (shiftIn taps) register =
      (register <<< bits.length) ^^^ (List.replicate bits.length false).foldl (shiftIn taps) top := by
  have split : register = top ^^^ (top ^^^ register) := by
    rw [← BitVec.xor_assoc, BitVec.xor_self, BitVec.zero_xor]
  have moved := foldl_shiftIn_own taps bits (top ^^^ register) rest
  rw [BitVec.shiftLeft_xor_distrib, leaves] at moved
  calc bits.foldl (shiftIn taps) register
      = bits.foldl (shiftIn taps) (top ^^^ (top ^^^ register)) := by rw [← split]
    _ = (List.replicate bits.length false).foldl (shiftIn taps) top ^^^ (0 ^^^ register <<< bits.length) := by
        rw [foldl_shiftIn_xor, moved]
    _ = _ := by rw [BitVec.xor_comm]; simp

end Table

end Checksum
end Extlib
