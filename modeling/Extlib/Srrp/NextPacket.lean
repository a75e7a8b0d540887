import Extlib.Srrp.Reader
import Mathlib.Order.Bounds.Basic

namespace Extlib
namespace Srrp

open Text

/-!
# The next packet behind a text that is none

Each leader is looked for by its first occurrence alone, and the leaders are
tried in a fixed order, not by where they stand.  The offset returned is always
a place where a packet may start.  It is the first such place only if the
leader there does not occur in front of it and no leader tried before occurs
first in front of a digit.
-/

/-- A packet may start here: a leader in front of a digit, and not the second
of two. -/
structure PacketStart (text : CString) (i : Nat) : Prop where
  leader : (text.chars[i]?).any (· ∈ packetLeaders) = true
  digit : (text.chars[i + 1]?).any isDigit = true
  single : i = 0 ∨ text.chars[i - 1]? ≠ text.chars[i]?

/-- The offset as the `int` that is returned. -/
def returnedOffset (text : CString) : Int32 := Int32.ofInt (srrpNextPacketOffset text)

/-- The function returns the smallest place where a packet may start, and -1
just when there is none. -/
structure FindsNext (text : CString) : Prop where
  smallest : ∀ i, IsLeast {j | PacketStart text j} i -> (returnedOffset text).toInt = i
  missing : (returnedOffset text).toInt = -1 ↔ ∀ i, ¬ PacketStart text i

/-- The leader occurs first here, in front of a digit. -/
structure FirstBeforeDigit (text : CString) (leader : UInt8) (i : Nat) : Prop where
  here : text.chars[i]? = some leader
  first : leader ∉ text.chars.take i
  digit : (text.chars[i + 1]?).any isDigit = true

/-- The leader here is the first of its kind, and no leader in front of it in
the list occurs first in front of a digit. -/
def Preferred (text : CString) (i : Nat) : Prop :=
  ∃ before leader after, packetLeaders = before ++ leader :: after ∧ FirstBeforeDigit text leader i ∧
    ∀ other ∈ before, ∀ j, ¬ FirstBeforeDigit text other j

/-! ## What is found -/

variable {text : CString}

theorem idxOf_eq_some_iff_take {c : UInt8} {chars : List UInt8} {i : Nat} :
    chars.idxOf? c = some i ↔ chars[i]? = some c ∧ c ∉ chars.take i := by
  rw [List.idxOf?_eq_some_iff]
  constructor
  · rintro ⟨inside, here, earlier⟩
    refine ⟨by rw [List.getElem?_eq_getElem inside, here], fun member => ?_⟩
    rcases List.mem_take_iff_getElem.mp member with ⟨j, within, same⟩
    exact earlier j (by omega) same
  · rintro ⟨here, absent⟩
    rcases List.getElem?_eq_some_iff.mp here with ⟨inside, same⟩
    refine ⟨inside, same, fun j before equal => absent ?_⟩
    exact List.mem_take_iff_getElem.mpr ⟨j, by omega, equal⟩

/-- The byte in front of a first occurrence is another one. -/
theorem FirstBeforeDigit.unlike {leader : UInt8} {i : Nat} (holds : FirstBeforeDigit text leader i) :
    i = 0 ∨ text.chars[i - 1]? ≠ some leader := by
  by_contra both
  rw [not_or, not_not] at both
  rcases List.getElem?_eq_some_iff.mp both.2 with ⟨inside, same⟩
  exact holds.first (List.mem_take_iff_getElem.mpr ⟨i - 1, by omega, same⟩)

/-- So the clause depends on the byte behind it alone. -/
theorem leaderOffset_eq_some_iff {leader : UInt8} {i : Nat} :
    leaderOffset leader text.chars = some i ↔ FirstBeforeDigit text leader i := by
  constructor
  · intro found
    unfold leaderOffset at found
    split at found
    · cases found
    case h_2 p first =>
      split at found
      case isTrue clause =>
        cases found
        have occurs := idxOf_eq_some_iff_take.mp first
        exact ⟨occurs.1, occurs.2, clause.2⟩
      case isFalse => cases found
  · intro holds
    unfold leaderOffset
    rw [idxOf_eq_some_iff_take.mpr ⟨holds.here, holds.first⟩]
    exact if_pos ⟨holds.unlike, holds.digit⟩

theorem FirstBeforeDigit.packetStart {leader : UInt8} {i : Nat} (holds : FirstBeforeDigit text leader i)
    (listed : leader ∈ packetLeaders) : PacketStart text i where
  leader := by
    rw [holds.here]
    exact decide_eq_true listed
  digit := holds.digit
  single := by
    rw [holds.here]
    exact holds.unlike

theorem Preferred.packetStart {i : Nat} (preferred : Preferred text i) : PacketStart text i := by
  rcases preferred with ⟨before, leader, after, split, holds, _⟩
  refine holds.packetStart ?_
  rw [split]
  exact List.mem_append_right _ List.mem_cons_self

theorem findSome_leaderOffset_iff {i : Nat} :
    packetLeaders.findSome? (leaderOffset · text.chars) = some i ↔ Preferred text i := by
  rw [List.findSome?_eq_some_iff]
  simp only [leaderOffset_eq_some_iff, Option.eq_none_iff_forall_ne_some, Ne, Preferred]

theorem Preferred.unique {i j : Nat} (left : Preferred text i) (right : Preferred text j) : i = j :=
  Option.some.inj ((findSome_leaderOffset_iff.mpr left).symm.trans (findSome_leaderOffset_iff.mpr right))

theorem packetStart_zero_iff :
    (text.chars[1]?).any isDigit ∧ (text.chars[0]?).any (· ∈ packetLeaders) ↔ PacketStart text 0 :=
  ⟨fun first => ⟨first.2, first.1, Or.inl rfl⟩, fun start => ⟨start.digit, start.leader⟩⟩

/-- What the function returns: 0, or a place preferred to all others, or -1. -/
theorem srrpNextPacketOffset_cases (text : CString) :
    PacketStart text 0 ∧ srrpNextPacketOffset text = 0 ∨
      ¬ PacketStart text 0 ∧ (∃ i, Preferred text i ∧ srrpNextPacketOffset text = i) ∨
      ¬ PacketStart text 0 ∧ (∀ i, ¬ Preferred text i) ∧ srrpNextPacketOffset text = -1 := by
  unfold srrpNextPacketOffset
  by_cases first : PacketStart text 0
  · exact Or.inl ⟨first, if_pos (packetStart_zero_iff.mpr first)⟩
  · refine Or.inr ?_
    rw [if_neg (mt packetStart_zero_iff.mp first)]
    cases found : packetLeaders.findSome? (leaderOffset · text.chars) with
    | some i => exact Or.inl ⟨first, i, findSome_leaderOffset_iff.mp found, rfl⟩
    | none =>
        refine Or.inr ⟨first, fun i preferred => ?_, rfl⟩
        cases found.symm.trans (findSome_leaderOffset_iff.mpr preferred)

/-- An `int` made from an offset has a value that is not negative just when it
is what is left of the offset modulo 2^32, and that is below 2^31. -/
theorem toInt_ofInt_eq_iff {offset value : Nat} :
    (Int32.ofInt offset).toInt = value ↔ value < 2 ^ 31 ∧ offset % 2 ^ 32 = value := by
  constructor
  · intro same
    have bound := (Int32.ofInt offset).toInt_lt
    have residue := @Int.bmod_emod offset Int32.size
    rw [Int32.toInt_ofInt] at same
    rw [Int32.toInt_ofInt, same] at bound
    rw [same] at residue
    have size : (Int32.size : Int) = 2 ^ 32 := rfl
    rw [size] at residue
    omega
  · rintro ⟨small, residue⟩
    have size : (Int32.size : Int) = 2 ^ 32 := rfl
    have value_eq := @Int32.toInt_ofInt_of_le value (by omega) (by omega)
    rw [← value_eq, Int32.toInt_ofInt, Int32.toInt_ofInt, ← Int.emod_bmod, size]
    congr 1
    omega

theorem exists_isLeast {i : Nat} (start : PacketStart text i) : ∃ first, IsLeast {j | PacketStart text j} first := by
  classical
  have some_start : ∃ j, PacketStart text j := ⟨i, start⟩
  exact ⟨Nat.find some_start, Nat.find_spec some_start, fun _ other => Nat.find_min' some_start other⟩

/-- The function finds the next packet exactly when the smallest place, other
than 0, is preferred, or an `int` takes the preferred place for it. -/
theorem findsNext_iff (text : CString) :
    FindsNext text ↔ ∀ i, IsLeast {j | PacketStart text j} i ->
      i = 0 ∨ i < 2 ^ 31 ∧ ∃ j, Preferred text j ∧ j % 2 ^ 32 = i := by
  constructor
  · intro finds i least
    have result := finds.smallest i least
    rw [returnedOffset] at result
    rcases srrpNextPacketOffset_cases text with ⟨start, _⟩ | ⟨_, j, preferred, found⟩ | ⟨_, _, found⟩
    · exact Or.inl (Nat.le_zero.mp (least.2 start))
    · rw [found] at result
      have value := toInt_ofInt_eq_iff.mp result
      exact Or.inr ⟨value.1, j, preferred, value.2⟩
    · rw [found] at result
      have negative : (Int32.ofInt (-1)).toInt = -1 := rfl
      omega
  · intro condition
    have smallest : ∀ i, IsLeast {j | PacketStart text j} i -> (returnedOffset text).toInt = i := by
      intro i least
      rw [returnedOffset]
      rcases srrpNextPacketOffset_cases text with ⟨start, found⟩ | ⟨later, j, preferred, found⟩ | ⟨later, missing, _⟩
      · have zero : i = 0 := Nat.le_zero.mp (least.2 start)
        rw [found, zero]
        rfl
      · rcases condition i least with rfl | ⟨small, other, alsoPreferred, residue⟩
        · exact absurd least.1 later
        · rw [found, toInt_ofInt_eq_iff, preferred.unique alsoPreferred]
          exact ⟨small, residue⟩
      · rcases condition i least with rfl | ⟨_, other, preferred, _⟩
        · exact absurd least.1 later
        · exact absurd preferred (missing other)
    refine ⟨smallest, ?_⟩
    constructor
    · intro nothing i start
      rcases exists_isLeast start with ⟨first, least⟩
      have result := smallest first least
      omega
    · intro none
      rw [returnedOffset]
      rcases srrpNextPacketOffset_cases text with ⟨start, _⟩ | ⟨_, j, preferred, _⟩ | ⟨_, _, found⟩
      · exact absurd start (none 0)
      · exact absurd preferred.packetStart (none j)
      · rw [found]
        rfl

/-- Below 2^31 characters no offset is too large for an `int`. -/
theorem findsNext_iff_preferred (fits : text.length ≤ 2 ^ 31) :
    FindsNext text ↔ ∀ i, IsLeast {j | PacketStart text j} i -> i = 0 ∨ Preferred text i := by
  have inside : ∀ {i}, PacketStart text i -> i < 2 ^ 31 := by
    intro i start
    have here := start.leader
    by_contra far
    rw [List.getElem?_eq_none (by unfold CString.length at fits; omega)] at here
    cases here
  rw [findsNext_iff]
  refine forall₂_congr fun i least => or_congr_right ?_
  constructor
  · rintro ⟨_, j, preferred, residue⟩
    have small := inside preferred.packetStart
    have same : j = i := by omega
    exact same ▸ preferred
  · intro preferred
    have small := inside preferred.packetStart
    exact ⟨small, i, preferred, Nat.mod_eq_of_lt (by omega)⟩

/-- Noise, a response and a request. -/
private def responseFirst : CString := CString.ofMemory (ascii "x<0>1" ++ [0])

/-- The request is taken, since its leader is tried first. -/
theorem responseFirst_skipped : ¬ FindsNext responseFirst := by
  intro finds
  have start : PacketStart responseFirst 1 := ⟨by decide +kernel, by decide +kernel, Or.inr (by decide +kernel)⟩
  have first : ¬ PacketStart responseFirst 0 := by
    intro zero
    have leader := zero.leader
    revert leader
    decide +kernel
  have least : IsLeast {j | PacketStart responseFirst j} 1 := by
    refine ⟨start, fun j other => ?_⟩
    by_contra below
    have zero : j = 0 := by omega
    exact first (zero ▸ other)
  have result := finds.smallest 1 least
  revert result
  decide +kernel

end Srrp
end Extlib
