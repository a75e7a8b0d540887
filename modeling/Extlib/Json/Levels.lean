import Extlib.Json.Walk

namespace Extlib
namespace Json

open Text

/-!
# What a path finds

A key is looked for where one brace is open, counted from the opening brace of
the object before it, and the first such place is the one.  The walk is this
search, key by key.
-/

/-- The braces that are open behind a text. -/
def level (text : List UInt8) : Int := text.count 123 - text.count 125

/-- The key stands here, and one brace is open. -/
def OpenAt (key : List UInt8) (braceCnt : Int) (text : List UInt8) (i : Nat) : Prop :=
  key <+: text.drop i ∧ braceCnt + level (text.take i) = 1

instance (key : List UInt8) (braceCnt : Int) (text : List UInt8) : DecidablePred (OpenAt key braceCnt text) :=
  fun i => inferInstanceAs (Decidable (key <+: text.drop i ∧ braceCnt + level (text.take i) = 1))

/-- The first such place. -/
def FirstOpenAt (key : List UInt8) (braceCnt : Int) (text : List UInt8) (i : Nat) : Prop :=
  OpenAt key braceCnt text i ∧ ∀ j < i, ¬ OpenAt key braceCnt text j

/-- A key that does not begin with a brace, at the first place where one brace
is open. -/
structure KeyAt (key text : List UInt8) (i : Nat) : Prop where
  opening : key.head? ≠ some 123
  closing : key.head? ≠ some 125
  first : FirstOpenAt key 0 text i

/-- What the keys find in the text: each is looked for from the opening brace of
the object before it on, and names an object unless it is the last. -/
def Finds : List UInt8 -> List (List UInt8) -> List UInt8 -> Prop
  | _, [], _ => False
  | text, [key], walkIdx => ∃ i, KeyAt key text i ∧ walkIdx = text.drop (i + key.length)
  | text, key :: next :: keys, walkIdx =>
      ∃ i inner, KeyAt key text i ∧ (text.drop (i + key.length)).dropWhile isGap = 123 :: inner ∧
        Finds (123 :: inner) (next :: keys) walkIdx

/-! ## One key -/

section Keys

variable {key text : List UInt8} {c : UInt8} {braceCnt : Int} {i : Nat}

@[simp] theorem level_nil : level [] = 0 := rfl

@[simp] theorem level_append (left right : List UInt8) : level (left ++ right) = level left + level right := by
  simp only [level, List.count_append]
  omega

theorem level_cons (c : UInt8) (text : List UInt8) :
    level (c :: text) = (if c = 123 then 1 else if c = 125 then -1 else 0) + level text := by
  simp only [level, List.count_cons, beq_iff_eq]
  by_cases opening : c = 123
  · subst opening
    simp
    omega
  · by_cases closing : c = 125
    · subst closing
      simp
      omega
    · simp [opening, closing]

/-- What comes first is counted, and is no place of the key. -/
theorem firstOpenAt_cons (elsewhere : ¬ OpenAt key braceCnt (c :: text) 0) :
    FirstOpenAt key braceCnt (c :: text) (i + 1) ↔
      FirstOpenAt key (braceCnt + level [c]) text i := by
  have shift : ∀ j, OpenAt key braceCnt (c :: text) (j + 1) ↔ OpenAt key (braceCnt + level [c]) text j := by
    intro j
    have counted := level_append [c] (text.take j)
    rw [List.singleton_append] at counted
    rw [OpenAt, OpenAt, List.drop_succ_cons, List.take_succ_cons, counted, Int.add_assoc]
  rw [FirstOpenAt, FirstOpenAt, shift]
  refine and_congr_right fun _ => ⟨fun before j less => ?_, fun before j less => ?_⟩
  · exact mt (shift j).mpr (before (j + 1) (Nat.succ_lt_succ less))
  · cases j with
    | zero => exact elsewhere
    | succ j => exact mt (shift j).mp (before j (Nat.lt_of_succ_lt_succ less))

/-- The first place of the key is looked for behind what is no place of it. -/
theorem exists_firstOpenAt_cons {rest : List UInt8} (elsewhere : ¬ OpenAt key braceCnt (c :: text) 0) :
    (∃ i, FirstOpenAt key (braceCnt + level [c]) text i ∧ rest = text.drop (i + key.length)) ↔
      ∃ i, FirstOpenAt key braceCnt (c :: text) i ∧ rest = (c :: text).drop (i + key.length) := by
  constructor
  · rintro ⟨i, first, rfl⟩
    refine ⟨i + 1, (firstOpenAt_cons elsewhere).mpr first, ?_⟩
    rw [Nat.add_right_comm, List.drop_succ_cons]
  · rintro ⟨i, first, rfl⟩
    cases i with
    | zero => exact absurd first.1 elsewhere
    | succ i =>
        refine ⟨i, (firstOpenAt_cons elsewhere).mp first, ?_⟩
        rw [Nat.add_right_comm, List.drop_succ_cons]

/-- The loop stops behind the first place of the key where one brace is open. -/
theorem keyScan_firstOpenAt_iff (nonempty : key ≠ []) (opening : key.head? ≠ some 123) (closing : key.head? ≠ some 125)
    {rest : List UInt8} :
    ∀ {braceCnt : Int}, keyScan key braceCnt text = some rest ↔
      ∃ i, FirstOpenAt key braceCnt text i ∧ rest = text.drop (i + key.length) := by
  obtain ⟨own, others, rfl⟩ := List.exists_cons_of_ne_nil nonempty
  induction text with
  | nil =>
      intro braceCnt
      refine iff_of_false (fun found => nomatch found) ?_
      rintro ⟨i, here, _⟩
      have occurs := here.1.1
      rw [List.drop_nil] at occurs
      cases List.prefix_nil.mp occurs
  | cons c text inductionHypothesis =>
      intro braceCnt
      -- the loop goes on with what is behind the first character
      have later : ¬ OpenAt (own :: others) braceCnt (c :: text) 0 ->
          (keyScan (own :: others) (braceCnt + level [c]) text = some rest ↔
            ∃ i, FirstOpenAt (own :: others) braceCnt (c :: text) i ∧
              rest = (c :: text).drop (i + (own :: others).length)) := by
        intro elsewhere
        rw [inductionHypothesis, exists_firstOpenAt_cons elsewhere]
      rw [keyScan]
      by_cases brace : c = 123
      · subst brace
        rw [if_pos rfl]
        exact later fun here => opening (congrArg some (List.cons_prefix_cons.mp here.1).1)
      · rw [if_neg brace]
        by_cases brace' : c = 125
        · subst brace'
          rw [if_pos rfl]
          exact later fun here => closing (congrArg some (List.cons_prefix_cons.mp here.1).1)
        · have flat : level [c] = 0 := by
            rw [level_cons, if_neg brace, if_neg brace']
            rfl
          rw [flat, Int.add_zero] at later
          rw [if_neg brace']
          have here : (braceCnt = 1 ∧ (own :: others).head? = some c ∧ (own :: others).isPrefixOf (c :: text)) ↔
              OpenAt (own :: others) braceCnt (c :: text) 0 := by
            rw [OpenAt, List.take_zero, level_nil, Int.add_zero, List.drop_zero, List.isPrefixOf_iff_prefix]
            constructor
            · exact fun found => ⟨found.2.2, found.1⟩
            · exact fun found => ⟨found.2, congrArg some (List.cons_prefix_cons.mp found.1).1, found.1⟩
          by_cases stands : OpenAt (own :: others) braceCnt (c :: text) 0
          · rw [if_pos (here.mpr stands), Option.some_inj]
            constructor
            · rintro rfl
              exact ⟨0, ⟨stands, fun _ less => absurd less (Nat.not_lt_zero _)⟩, by rw [Nat.zero_add]⟩
            · rintro ⟨i, first, rfl⟩
              cases i with
              | zero => rw [Nat.zero_add]
              | succ i => exact absurd stands (first.2 0 (Nat.succ_pos i))
          · rw [if_neg (mt here.mp stands)]
            exact later stands

/-- A key that begins with a brace is not found. -/
theorem keyScan_head {rest : List UInt8} :
    ∀ {braceCnt : Int}, keyScan key braceCnt text = some rest -> key.head? ≠ some 123 ∧ key.head? ≠ some 125 := by
  induction text with
  | nil => exact fun found => nomatch found
  | cons c text inductionHypothesis =>
      intro braceCnt found
      rw [keyScan] at found
      split at found
      case isTrue => exact inductionHypothesis found
      case isFalse opening =>
        split at found
        case isTrue => exact inductionHypothesis found
        case isFalse closing =>
          split at found
          case isTrue here =>
            rw [here.2.1]
            exact ⟨fun same => opening (Option.some.inj same), fun same => closing (Option.some.inj same)⟩
          case isFalse => exact inductionHypothesis found

theorem keyScan_eq_some_iff (nonempty : key ≠ []) {rest : List UInt8} :
    keyScan key 0 text = some rest ↔ ∃ i, KeyAt key text i ∧ rest = text.drop (i + key.length) := by
  constructor
  · intro scan
    rcases keyScan_head scan with ⟨opening, closing⟩
    rcases (keyScan_firstOpenAt_iff nonempty opening closing).mp scan with ⟨i, first, behind⟩
    exact ⟨i, ⟨opening, closing, first⟩, behind⟩
  · rintro ⟨i, here, behind⟩
    exact (keyScan_firstOpenAt_iff nonempty here.opening here.closing).mpr ⟨i, here.first, behind⟩

theorem OpenAt.lt (here : OpenAt key braceCnt text i) (nonempty : key ≠ []) : i < text.length := by
  have room := here.1.length_le
  have positive := List.length_pos_iff.mpr nonempty
  rw [List.length_drop] at room
  omega

end Keys

/-- A walk ends at what its keys find. -/
theorem walkKeys_finds_iff {keys : List (List UInt8)} {walkIdx : List UInt8} (nonempty : ∀ key ∈ keys, key ≠ []) :
    ∀ {text : List UInt8}, walkKeys text keys = .found walkIdx ↔ Finds text keys walkIdx := by
  induction keys with
  | nil => exact iff_of_false WalkResult.noConfusion id
  | cons key keys inductionHypothesis =>
      intro text
      have own := nonempty key List.mem_cons_self
      cases keys with
      | nil =>
          rw [walkKeys, Finds, ← keyScan_eq_some_iff own]
          cases keyScan key 0 text with
          | none =>
              constructor
              · intro found
                cases found
              · intro found
                cases found
          | some rest =>
              dsimp only
              rw [WalkResult.found.injEq, Option.some_inj]
      | cons next keys =>
          have later := @inductionHypothesis fun other listed => nonempty other (List.mem_cons_of_mem _ listed)
          rw [walkKeys, Finds]
          constructor
          · intro found
            split at found
            case h_1 => cases found
            case h_2 rest scan =>
              rcases (keyScan_eq_some_iff own).mp scan with ⟨i, here, rfl⟩
              split at found
              case h_1 => cases found
              case h_2 inner object => exact ⟨i, inner, here, object, later.mp found⟩
              case h_3 => cases found
          · rintro ⟨i, inner, here, object, finds⟩
            rw [(keyScan_eq_some_iff own).mpr ⟨i, here, rfl⟩]
            dsimp only
            rw [object]
            exact later.mpr finds

end Json
end Extlib
