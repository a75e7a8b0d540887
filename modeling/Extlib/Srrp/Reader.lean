import Extlib.Srrp.Packet

namespace Extlib
namespace Srrp

open Text

/-!
# Reading one packet

The three decoders behind `srrp_read_one_packet` scan the fields in front of
the header, look for the two delimiters from the start of the text, copy, and
only then compare the declared length with the one they recount.  They differ
in the format they scan and in the length they count before the header.

`memcpy(pac->raw, buf, len)` trusts the declared length and may run past the
memory the model knows about.  What it finds there is the parameter `beyond`:
every theorem about the reader holds for all of its values.  The copy into
`header` may run past the array; nothing can be said about the packet after
that, and the reading is an `overflow`.
-/

/-- The values the format assigns; a decoder that has no such field leaves the
zero of `calloc`. -/
structure Fields where
  leader : UInt8
  seat : UInt8
  seqno : UInt32
  len : UInt32
  srcid : UInt32
  reqcrc16 : UInt32
  deriving DecidableEq, Repr

/-- What a decoder knows when it starts to copy: the fields and the offsets of
`:/` and `?{`. -/
structure Frame extends Fields where
  headerDelimiter : Nat
  dataDelimiter : Nat
  deriving DecidableEq, Repr

namespace Frame

def header (frame : Frame) : Nat := frame.headerDelimiter + 1

def data (frame : Frame) : Nat := frame.dataDelimiter + 1

/-- `data_delimiter - header` as the `uint32_t` it is assigned to. -/
def headerLen (frame : Frame) : UInt32 :=
  UInt32.ofInt ((frame.dataDelimiter : Int) - frame.header)

/-- `buf + strlen(buf) - data`. -/
def dataLen (frame : Frame) (text : CString) : UInt32 :=
  UInt32.ofInt ((text.length : Int) - frame.data)

end Frame

/-- Null, a packet, or a write past the end of `header`. -/
inductive Reading where
  | null
  | packet (pac : SrrpPacket)
  | overflow
  deriving DecidableEq, Repr

/-- What the decoders differ in. -/
structure FrameKind where
  fixed : Nat
  format : List Directive
  fields : List Field -> Option Fields

namespace FrameKind

/-- Fields and delimiters, or nothing when a field does not scan or a delimiter
is missing. -/
def frame (kind : FrameKind) (text : CString) : Option Frame :=
  match kind.fields (scan kind.format text.chars) with
  | none => none
  | some fields =>
      match firstOccurrence (ascii ":/") text.chars, firstOccurrence (ascii "?\x7b") text.chars with
      | some headerDelimiter, some dataDelimiter =>
          some { fields with headerDelimiter := headerDelimiter, dataDelimiter := dataDelimiter }
      | _, _ => none

/-- The bytes `memcpy(pac->raw, buf, len)` reads. -/
def rawCopy (beyond : Nat -> UInt8) (buf : List UInt8) (len : Nat) : List UInt8 :=
  buf.take len ++ (List.range (len - buf.length)).map beyond

/-- The length recounted from the delimiters, in `uint32_t` arithmetic. -/
def recount (kind : FrameKind) (frame : Frame) (text : CString) : UInt32 :=
  UInt32.ofNat kind.fixed + frame.headerLen + 1 + frame.dataLen text + 1

/-- The decoder. -/
def read (kind : FrameKind) (beyond : Nat -> UInt8) (buf : List UInt8) : Reading :=
  let text := CString.ofMemory buf
  match kind.frame text with
  | none => .null
  | some frame =>
      if fits : frame.headerLen.toNat ≤ srrpHeaderLen then
        let pac : SrrpPacket :=
          { leader := frame.leader
            seat := frame.seat
            seqno := frame.seqno.toUInt16
            len := frame.len.toUInt16
            srcid := frame.srcid.toUInt16
            reqcrc16 := frame.reqcrc16.toUInt16
            header := text.slice frame.header frame.headerLen.toNat
            headerLen := frame.headerLen
            data := frame.data
            dataLen := frame.dataLen text
            raw := rawCopy beyond buf frame.len.toNat
            headerFits := by
              simp only [CString.length, CString.slice_chars, List.length_take]
              omega }
        if kind.recount frame text = pac.len.toUInt32 then .packet pac else .null
      else .overflow

end FrameKind

/-- `"%c%x,%c,%4x,%4x:"`. -/
def requestKind : FrameKind where
  fixed := 3 + 2 + 5 + 5
  format := [.char, .hex none, .literal 44, .char, .literal 44, .hex (some 4), .literal 44,
    .hex (some 4), .literal 58]
  fields
    | [.char leader, .word seqno, .char seat, .word len, .word srcid] =>
        some ⟨leader, seat, seqno, len, srcid, 0⟩
    | _ => none

/-- `"%c%x,%c,%4x,%4x,%x:/"`. -/
def responseKind : FrameKind where
  fixed := 3 + 2 + 5 + 5 + 5
  format := [.char, .hex none, .literal 44, .char, .literal 44, .hex (some 4), .literal 44,
    .hex (some 4), .literal 44, .hex none, .literal 58, .literal 47]
  fields
    | [.char leader, .word seqno, .char seat, .word len, .word srcid, .word reqcrc16] =>
        some ⟨leader, seat, seqno, len, srcid, reqcrc16⟩
    | _ => none

/-- `"%c%x,%c,%4x:"`. -/
def subpubKind : FrameKind where
  fixed := 3 + 2 + 5
  format := [.char, .hex none, .literal 44, .char, .literal 44, .hex (some 4), .literal 58]
  fields
    | [.char leader, .word seqno, .char seat, .word len] => some ⟨leader, seat, seqno, len, 0, 0⟩
    | _ => none

def srrpReadOneRequest : (Nat -> UInt8) -> List UInt8 -> Reading := requestKind.read

def srrpReadOneResponse : (Nat -> UInt8) -> List UInt8 -> Reading := responseKind.read

def srrpReadOneSubpub : (Nat -> UInt8) -> List UInt8 -> Reading := subpubKind.read

/-- The kind of frame a leader announces. -/
def kindOfLeader (leader : UInt8) : Option FrameKind :=
  if leader = srrpRequestLeader then some requestKind
  else if leader = srrpResponseLeader then some responseKind
  else if leader = srrpSubscribeLeader ∨ leader = srrpUnsubscribeLeader ∨
      leader = srrpPublishLeader then some subpubKind
  else none

def srrpReadOnePacket (beyond : Nat -> UInt8) (buf : List UInt8) : Reading :=
  match buf.head? with
  | none => .null
  | some leader =>
      if leader = srrpRequestLeader then srrpReadOneRequest beyond buf
      else if leader = srrpResponseLeader then srrpReadOneResponse beyond buf
      else if leader = srrpSubscribeLeader ∨ leader = srrpUnsubscribeLeader ∨
          leader = srrpPublishLeader then srrpReadOneSubpub beyond buf
      else .null

theorem srrpReadOnePacket_eq (beyond : Nat -> UInt8) (buf : List UInt8) :
    srrpReadOnePacket beyond buf =
      match buf.head?.bind kindOfLeader with
      | none => .null
      | some kind => kind.read beyond buf := by
  cases buf with
  | nil => rfl
  | cons leader rest =>
      simp only [srrpReadOnePacket, List.head?_cons, Option.bind_some, kindOfLeader]
      split
      · rfl
      · split
        · rfl
        · split <;> rfl

/-- What lies behind the NUL decides nothing but what is copied into `raw`. -/
theorem srrpReadOnePacket_terminated (beyond beyond' : Nat -> UInt8) (text : CString) (rest : List UInt8) :
    match srrpReadOnePacket beyond' text.stored with
    | .null => srrpReadOnePacket beyond (text.chars ++ 0 :: rest) = .null
    | .overflow => srrpReadOnePacket beyond (text.chars ++ 0 :: rest) = .overflow
    | .packet pac => ∃ count, srrpReadOnePacket beyond (text.chars ++ 0 :: rest) =
        .packet { pac with raw := FrameKind.rawCopy beyond (text.chars ++ 0 :: rest) count } := by
  have first : (text.chars ++ 0 :: rest).head? = text.stored.head? := by
    simp only [CString.stored, List.head?_append, List.head?_cons]
  have whole : CString.ofMemory (text.chars ++ 0 :: rest) = text :=
    CString.ofMemory_terminated text.chars rest text.nulFree
  have alone : CString.ofMemory text.stored = text := CString.ofMemory_terminated text.chars [] text.nulFree
  rw [srrpReadOnePacket_eq, srrpReadOnePacket_eq, first]
  cases text.stored.head?.bind kindOfLeader with
  | none => rfl
  | some kind =>
      simp only [FrameKind.read, whole, alone]
      cases kind.frame text with
      | none => rfl
      | some frame =>
          by_cases fits : frame.headerLen.toNat ≤ srrpHeaderLen
          · simp only [fits, dite_true]
            split
            case h_1 rejected =>
              split at rejected
              · cases rejected
              case isFalse disagrees => rw [if_neg disagrees]
            case h_2 overflows => split at overflows <;> cases overflows
            case h_3 pac accepted =>
              split at accepted
              case isTrue agrees =>
                cases accepted
                exact ⟨frame.len.toNat, if_pos agrees⟩
              case isFalse => cases accepted
          · simp only [fits, dite_false]

/-! ## Resynchronisation -/

/-- One clause of `srrp_next_packet_offset`: the first `leader` in the text, if
the character in front of it is not `leader` again and the one behind it is a
digit.  At offset 0 the source reads the byte in front of `buf`; the clause
then fails on the digit whatever that byte is, because a digit there would
have been taken by the first test. -/
def leaderOffset (leader : UInt8) (text : List UInt8) : Option Nat :=
  match text.idxOf? leader with
  | none => none
  | some p =>
      if (p = 0 ∨ text[p - 1]? ≠ some leader) ∧ (text[p + 1]?).any isDigit then some p else none

/-- The five leaders in the order the function tries them. -/
def packetLeaders : List UInt8 :=
  [srrpRequestLeader, srrpResponseLeader, srrpSubscribeLeader, srrpUnsubscribeLeader,
    srrpPublishLeader]

def srrpNextPacketOffset (text : CString) : Int :=
  if (text.chars[1]?).any isDigit ∧ (text.chars[0]?).any (· ∈ packetLeaders) then 0
  else
    match packetLeaders.findSome? (leaderOffset · text.chars) with
    | some p => p
    | none => -1

/-- Each of the three formats begins with the leader. -/
private theorem fields_leader {leader : UInt8} {kind : FrameKind} (announced : kindOfLeader leader = some kind)
    {head : UInt8} {tail : List UInt8} {fields : Fields}
    (scanned : kind.fields (scan kind.format (head :: tail)) = some fields) : fields.leader = head := by
  unfold kindOfLeader at announced
  split at announced
  · cases announced
    simp only [requestKind, scan] at scanned
    split at scanned
    case h_1 shape =>
      cases scanned
      exact (Field.char.inj (List.cons.inj shape).1).symm
    case h_2 => cases scanned
  · split at announced
    · cases announced
      simp only [responseKind, scan] at scanned
      split at scanned
      case h_1 shape =>
        cases scanned
        exact (Field.char.inj (List.cons.inj shape).1).symm
      case h_2 => cases scanned
    · split at announced
      · cases announced
        simp only [subpubKind, scan] at scanned
        split at scanned
        case h_1 shape =>
          cases scanned
          exact (Field.char.inj (List.cons.inj shape).1).symm
        case h_2 => cases scanned
      · cases announced

private theorem mem_of_kindOfLeader {leader : UInt8} {kind : FrameKind}
    (announced : kindOfLeader leader = some kind) : leader ∈ packetLeaders := by
  unfold kindOfLeader at announced
  simp only [packetLeaders, List.mem_cons, List.not_mem_nil, or_false]
  split at announced
  case isTrue request => exact Or.inl request
  case isFalse =>
    split at announced
    case isTrue response => exact Or.inr (Or.inl response)
    case isFalse =>
      split at announced
      case isTrue topic => exact Or.inr (Or.inr topic)
      case isFalse => cases announced

/-- The leader of an accepted packet is the first byte it was read from, and
one of the five. -/
theorem accepted_leader {beyond : Nat -> UInt8} {buf : List UInt8} {pac : SrrpPacket}
    (accepted : srrpReadOnePacket beyond buf = .packet pac) :
    buf.head? = some pac.leader ∧ pac.leader ∈ packetLeaders := by
  rw [srrpReadOnePacket_eq] at accepted
  split at accepted
  · cases accepted
  case h_2 kind announced =>
    rcases Option.bind_eq_some_iff.mp announced with ⟨leader, first, announces⟩
    have listed := mem_of_kindOfLeader announces
    obtain ⟨tail, rfl⟩ : ∃ tail, buf = leader :: tail :=
      ⟨_, List.eq_cons_of_mem_head? (by simpa using first)⟩
    have visible : (leader != 0) = true := by
      rw [bne_iff_ne]
      rintro rfl
      revert listed
      decide
    have text : (CString.ofMemory (leader :: tail)).chars = leader :: tail.takeWhile (· != 0) := by
      change List.takeWhile (· != 0) (leader :: tail) = _
      rw [List.takeWhile_cons, if_pos visible]
    simp only [FrameKind.read] at accepted
    split at accepted
    · cases accepted
    case h_2 frame framed =>
      have same : frame.leader = leader := by
        unfold FrameKind.frame at framed
        split at framed
        · cases framed
        case h_2 fields scanned =>
          rw [text] at scanned
          split at framed
          · cases framed
            exact fields_leader announces scanned
          · cases framed
      split at accepted
      · split at accepted
        · cases accepted
          exact ⟨same ▸ first, same ▸ listed⟩
        · cases accepted
      · cases accepted

theorem srrpNextPacketOffset_nonneg (text : CString) (found : srrpNextPacketOffset text ≠ -1) :
    0 ≤ srrpNextPacketOffset text := by
  unfold srrpNextPacketOffset at found ⊢
  split
  · omega
  case isFalse first =>
    split
    · omega
    case h_2 absent =>
      rw [if_neg first, absent] at found
      exact absurd rfl found

/-- An offset other than -1 lies inside the text, with a character behind it. -/
theorem srrpNextPacketOffset_lt (text : CString) {offset : Nat}
    (found : srrpNextPacketOffset text = offset) : offset + 1 < text.length := by
  have digit_behind : ∀ {i : Nat}, (text.chars[i]?).any isDigit = true -> i < text.length := by
    intro i digit
    by_contra outside
    rw [List.getElem?_eq_none (by unfold CString.length at outside; omega)] at digit
    cases digit
  unfold srrpNextPacketOffset at found
  split at found
  case isTrue first =>
    have zero : offset = 0 := by omega
    subst zero
    exact digit_behind first.1
  case isFalse =>
    split at found
    case h_1 p some_leader =>
      have same : p = offset := by omega
      subst same
      rcases List.exists_of_findSome?_eq_some some_leader with ⟨leader, _, clause⟩
      unfold leaderOffset at clause
      split at clause
      · cases clause
      · split at clause
        case isTrue holds =>
          cases clause
          exact digit_behind holds.2
        case isFalse => cases clause
    case h_2 => omega

end Srrp
end Extlib
