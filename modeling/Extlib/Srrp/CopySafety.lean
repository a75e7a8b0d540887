import Extlib.Srrp.RoundTrip

namespace Extlib
namespace Srrp

open Text

/-!
# The copies of the reader

The declared length comes from the wire and sizes the copy into `raw` before
it is compared with anything; the distance of the two delimiters sizes the
copy into `header` before it is compared with the array.  `CopiesInRange` says
what the reader would have to guarantee on a text, `CopySafe` is the condition
on the text under which it does, and `copiesInRange_iff` shows that no other
text is safe.
-/

/-- The kind and the frame the reader copies by, if it gets that far. -/
def frameOf (text : CString) : Option (FrameKind × Frame) :=
  (text.chars.head?.bind kindOfLeader).bind fun kind => (kind.frame text).map fun frame => (kind, frame)

/-- The reader stays in range on a text: it returns, `memcpy(pac->raw, ..)`
reads no byte behind the NUL, the delimiters are in order, `header` keeps its
terminator, and what the packet calls header and data are stretches of the
text that lie inside `raw`. -/
structure CopiesInRange (text : CString) : Prop where
  returns : ∀ beyond, srrpReadOnePacket beyond text.stored ≠ .overflow
  rawRead : ∀ kind frame, frameOf text = some (kind, frame) -> frame.len.toNat ≤ text.stored.length
  ordered : ∀ kind frame, frameOf text = some (kind, frame) ->
    frame.headerDelimiter < frame.dataDelimiter
  headerWrite : ∀ kind frame, frameOf text = some (kind, frame) ->
    frame.headerLen.toNat ≤ srrpHeaderLen - 1
  slices : ∀ kind frame, frameOf text = some (kind, frame) ->
    ∀ beyond pac, srrpReadOnePacket beyond text.stored = .packet pac ->
      frame.header + pac.headerLen.toNat ≤ pac.raw.length ∧
      pac.header = text.slice frame.header pac.headerLen.toNat ∧
      pac.header.chars = (pac.raw.drop frame.header).take pac.headerLen.toNat ∧
      pac.data + pac.dataLen.toNat ≤ pac.raw.length ∧
      (text.slice pac.data pac.dataLen.toNat).chars = (pac.raw.drop pac.data).take pac.dataLen.toNat

/-- The texts the reader is safe on: those that announce no frame, and the
frames whose declared length stays within the text, whose delimiters are in
order and closer than the array is long, and which, if their lengths add up,
declare enough for the header and the data. -/
def CopySafe (text : CString) : Prop :=
  ∀ kind frame, frameOf text = some (kind, frame) ->
    frame.len.toNat ≤ text.length + 1 ∧
    frame.headerDelimiter < frame.dataDelimiter ∧
    frame.headerLen.toNat < srrpHeaderLen ∧
    (kind.recount frame text = frame.len.toUInt16.toUInt32 ->
      frame.header + frame.headerLen.toNat ≤ frame.len.toNat ∧
      frame.data + (frame.dataLen text).toNat ≤ frame.len.toNat)

theorem read_stored (beyond : Nat -> UInt8) (text : CString) :
    srrpReadOnePacket beyond text.stored =
      match text.chars.head?.bind kindOfLeader with
      | none => .null
      | some kind => kind.read beyond text.stored := by
  rw [srrpReadOnePacket_eq]
  cases shape : text.chars with
  | nil =>
      have stored : text.stored = [0] := by rw [CString.stored, shape, List.nil_append]
      rw [stored]
      rfl
  | cons head tail =>
      have stored : text.stored = head :: (tail ++ [0]) := by rw [CString.stored, shape, List.cons_append]
      rw [stored]
      rfl

/-- Without a frame the reader returns null. -/
theorem read_of_frameOf_none {text : CString} (no_frame : frameOf text = none) (beyond : Nat -> UInt8) :
    srrpReadOnePacket beyond text.stored = .null := by
  rw [read_stored]
  unfold frameOf at no_frame
  cases announced : text.chars.head?.bind kindOfLeader with
  | none => rfl
  | some kind =>
      rw [announced, Option.bind_some, Option.map_eq_none_iff] at no_frame
      have whole : CString.ofMemory text.stored = text := by
        simpa using CString.ofMemory_stored text []
      simp only [FrameKind.read, whole, no_frame]

theorem length_rawCopy (beyond : Nat -> UInt8) (buf : List UInt8) (len : Nat) :
    (FrameKind.rawCopy beyond buf len).length = len := by
  simp only [FrameKind.rawCopy, List.length_append, List.length_take, List.length_map, List.length_range]
  omega

/-- With a frame the reader is decided by the two comparisons it makes. -/
theorem read_of_frameOf {text : CString} {kind : FrameKind} {frame : Frame}
    (found : frameOf text = some (kind, frame)) (beyond : Nat -> UInt8) :
    (srrpReadOnePacket beyond text.stored = .overflow ↔ srrpHeaderLen < frame.headerLen.toNat) ∧
    (∀ pac, srrpReadOnePacket beyond text.stored = .packet pac ->
      kind.recount frame text = frame.len.toUInt16.toUInt32 ∧
      pac.header = text.slice frame.header frame.headerLen.toNat ∧
      pac.headerLen = frame.headerLen ∧ pac.data = frame.data ∧ pac.dataLen = frame.dataLen text ∧
      pac.raw = FrameKind.rawCopy beyond text.stored frame.len.toNat ∧ pac.len = frame.len.toUInt16) ∧
    (frame.headerLen.toNat ≤ srrpHeaderLen -> kind.recount frame text = frame.len.toUInt16.toUInt32 ->
      ∃ pac, srrpReadOnePacket beyond text.stored = .packet pac) := by
  rcases Option.bind_eq_some_iff.mp found with ⟨kind', announced, mapped⟩
  rcases Option.map_eq_some_iff.mp mapped with ⟨frame', framed, pair⟩
  cases pair
  have whole : CString.ofMemory text.stored = text := by
    simpa using CString.ofMemory_stored text []
  rw [read_stored, announced]
  simp only [FrameKind.read, whole, framed]
  by_cases fits : frame.headerLen.toNat ≤ srrpHeaderLen
  · have notOver : ¬ srrpHeaderLen < frame.headerLen.toNat := Nat.not_lt_of_le fits
    by_cases agree : kind.recount frame text = frame.len.toUInt16.toUInt32
    · simp only [fits, dite_true, agree, if_true, reduceCtorEq, notOver, Reading.packet.injEq, true_and,
        forall_const]
      refine ⟨?_, _, rfl⟩
      rintro pac rfl
      exact ⟨rfl, rfl, rfl, rfl, rfl, rfl⟩
    · simp only [fits, dite_true, agree, if_false, reduceCtorEq, notOver, IsEmpty.forall_iff, implies_true,
        and_self]
  · simp only [fits, dite_false, Nat.lt_of_not_le fits, reduceCtorEq, IsEmpty.forall_iff, implies_true,
      and_self]

/-- A stretch of the text read within the declared length is the same stretch
of `raw`. -/
private theorem slice_of_raw (text : CString) (beyond : Nat -> UInt8) {len start size : Nat}
    (declared : len ≤ text.length + 1) (inside : start + size ≤ len) (before : start + size ≤ text.length) :
    (text.slice start size).chars =
      ((FrameKind.rawCopy beyond text.stored len).drop start).take size := by
  have none_beyond : len - text.stored.length = 0 := by
    rw [CString.length_stored]
    omega
  rw [FrameKind.rawCopy, none_beyond, List.range_zero, List.map_nil, List.append_nil, CString.slice_chars,
    List.drop_take, List.take_take, Nat.min_eq_left (by omega), CString.stored,
    List.drop_append_of_le_length (by unfold CString.length at before; omega),
    List.take_append_of_le_length (by rw [List.length_drop]; unfold CString.length at before; omega)]

/-- Both delimiters lie inside the text. -/
theorem frameOf_bounds {text : CString} {kind : FrameKind} {frame : Frame}
    (found : frameOf text = some (kind, frame)) :
    frame.header < text.length ∧ frame.data < text.length := by
  rcases Option.bind_eq_some_iff.mp found with ⟨kind', _, mapped⟩
  rcases Option.map_eq_some_iff.mp mapped with ⟨frame', framed, pair⟩
  cases pair
  have two : (ascii ":/").length = 2 ∧ (ascii "?\x7b").length = 2 := by decide
  unfold FrameKind.frame at framed
  split at framed
  · cases framed
  · split at framed
    case h_1 headerFound dataFound =>
      cases framed
      have headerFits := (firstOccurrence_isPrefix headerFound).length_le
      have dataFits := (firstOccurrence_isPrefix dataFound).length_le
      simp only [two, List.length_drop] at headerFits dataFits
      simp only [Frame.header, Frame.data, CString.length]
      omega
    case h_2 => cases framed

/-- A pointer difference kept in a word is at most the difference. -/
private theorem toNat_ofInt_le {first last : Nat} (ordered : first ≤ last) :
    first + (UInt32.ofInt ((last : Int) - first)).toNat ≤ last := by
  simp only [UInt32.ofInt, UInt32.toNat_ofNat']
  omega

/-- The reader stays in range on exactly the texts `CopySafe` describes. -/
theorem copiesInRange_iff (text : CString) : CopiesInRange text ↔ CopySafe text := by
  constructor
  · intro inRange kind frame found
    have declared := inRange.rawRead kind frame found
    have short := inRange.headerWrite kind frame found
    have accepts := (read_of_frameOf found (fun _ => 0)).2
    simp only [srrpHeaderLen] at short
    refine ⟨by simpa using declared, inRange.ordered kind frame found, by simp only [srrpHeaderLen]; omega, ?_⟩
    intro agree
    rcases accepts.2 (by simp only [srrpHeaderLen]; omega) agree with ⟨pac, read⟩
    rcases accepts.1 pac read with ⟨_, _, headerLen, data, dataLen, raw, _⟩
    rcases inRange.slices kind frame found _ pac read with ⟨headerInside, _, _, dataInside, _⟩
    rw [raw, length_rawCopy] at headerInside dataInside
    rw [headerLen] at headerInside
    rw [data, dataLen] at dataInside
    exact ⟨headerInside, dataInside⟩
  · intro safe
    constructor
    case returns =>
      intro beyond overflows
      cases found : frameOf text with
      | none =>
          rw [read_of_frameOf_none found] at overflows
          cases overflows
      | some pair =>
          have short := (safe pair.1 pair.2 found).2.2.1
          have long := (read_of_frameOf found beyond).1.mp overflows
          omega
    case rawRead =>
      intro kind frame found
      rw [CString.length_stored]
      exact (safe kind frame found).1
    case ordered => exact fun kind frame found => (safe kind frame found).2.1
    case headerWrite => exact fun kind frame found => Nat.le_sub_one_of_lt (safe kind frame found).2.2.1
    case slices =>
      intro kind frame found beyond pac read
      rcases safe kind frame found with ⟨declared, ordered, _, inside⟩
      rcases (read_of_frameOf found beyond).2.1 pac read with ⟨agree, header, headerLen, data, dataLen, raw, _⟩
      rcases inside agree with ⟨headerInside, dataInside⟩
      have bounds := frameOf_bounds found
      have headerInText : frame.header + frame.headerLen.toNat ≤ text.length := by
        have beforeData : frame.header + frame.headerLen.toNat ≤ frame.dataDelimiter :=
          toNat_ofInt_le ordered
        have dataInside := bounds.2
        simp only [Frame.data] at dataInside
        omega
      have dataInText : frame.data + (frame.dataLen text).toNat ≤ text.length :=
        toNat_ofInt_le (Nat.le_of_lt bounds.2)
      rw [header, headerLen, data, dataLen, raw, length_rawCopy]
      exact ⟨headerInside, rfl, slice_of_raw text beyond declared headerInside headerInText, dataInside,
        slice_of_raw text beyond declared dataInside dataInText⟩

/-- A frame of twenty characters that declares 4095 bytes. -/
def overdeclared : CString := ⟨ascii ">0,$,0fff,0001:/x?{}", by decide⟩

/-- The reader copies 4095 bytes out of the twenty-one that are there. -/
theorem overdeclared_not_copiesInRange : ¬ ∀ text, CopiesInRange text := by
  intro always
  obtain ⟨frame, found, declared⟩ : ∃ frame, frameOf overdeclared = some (requestKind, frame) ∧
      frame.len = 4095 := by
    refine ⟨⟨⟨62, 36, 0, 4095, 1, 0⟩, 14, 17⟩, ?_, rfl⟩
    have framed : requestKind.frame overdeclared = some ⟨⟨62, 36, 0, 4095, 1, 0⟩, 14, 17⟩ := by decide
    simp only [frameOf]
    change (some requestKind).bind _ = _
    simp only [Option.bind_some, framed, Option.map_some]
  have read := (always overdeclared).rawRead _ _ found
  rw [declared] at read
  revert read
  decide

end Srrp
end Extlib
