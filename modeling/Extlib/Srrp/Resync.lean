import Extlib.Srrp.Grammar
import Extlib.Srrp.NextPacket

namespace Extlib
namespace Srrp

open Text

/-!
# Frames and noise in a text

A text that is no packet may still hold packets.  `Cut` is a way to cut it, from
its start, into frames and stretches of noise such that the last frame ends with
the text.  A frame is what the reader would accept in front of the text that is
left, by the length that it declares there; noise goes up to the place that the
search prefers.  `CopiesWithin` is about the memory behind the text: what the
reader copies before it compares any length has to be there, and what a request
takes its checksum of has to be copied.
-/

/-- The text begins with a frame of `count` bytes: the header fits its array,
and the frame declares the length of the text with its NUL, less the shift of
the header. -/
def FrameTakes (text : CString) (count : Nat) : Prop :=
  ∃ kind frame, frameOf text = some (kind, frame) ∧ frame.headerLen.toNat ≤ srrpHeaderLen ∧
    frame.len.toUInt16.toNat = count ∧ (count : Int) = (text.length + 1 - (frame.header - kind.fixed : Int)) % 2 ^ 32

/-- Where `room` bytes lie from the start of the text on: the header that is
copied fits its array, as many bytes as the frame declares can be copied, and
the data of a request, which its checksum is taken of, is among them. -/
structure CopiesWithin (text : CString) (room : Nat) : Prop where
  header : HeaderFits text
  raw : ∀ kind frame, frameOf text = some (kind, frame) -> frame.len.toNat ≤ room
  covered : ∀ kind frame, frameOf text = some (kind, frame) -> text.chars.head? = some srrpRequestLeader ->
    FrameTakes text frame.len.toUInt16.toNat -> frame.data + (frame.dataLen text).toNat ≤ frame.len.toNat

instance (text : CString) (count : Nat) : Decidable (FrameTakes text count) :=
  match found : frameOf text with
  | none => isFalse fun ⟨_, _, same, _⟩ => nomatch found.symm.trans same
  | some (kind, frame) =>
      decidable_of_iff (frame.headerLen.toNat ≤ srrpHeaderLen ∧ frame.len.toUInt16.toNat = count ∧
          (count : Int) = (text.length + 1 - (frame.header - kind.fixed : Int)) % 2 ^ 32)
        ⟨fun takes => ⟨kind, frame, found, takes⟩, fun ⟨_, _, same, takes⟩ => by
          cases found.symm.trans same
          exact takes⟩

instance (text : CString) (room : Nat) : Decidable (CopiesWithin text room) :=
  decidable_of_iff (∀ copied ∈ frameOf text, copied.2.headerLen.toNat ≤ srrpHeaderLen ∧ copied.2.len.toNat ≤ room ∧
      (text.chars.head? = some srrpRequestLeader -> FrameTakes text copied.2.len.toUInt16.toNat ->
        copied.2.data + (copied.2.dataLen text).toNat ≤ copied.2.len.toNat))
    ⟨fun copies => ⟨fun kind frame found => (copies (kind, frame) found).1,
      fun kind frame found => (copies (kind, frame) found).2.1,
      fun kind frame found => (copies (kind, frame) found).2.2⟩,
      fun within copied found => ⟨within.header copied.1 copied.2 found, within.raw copied.1 copied.2 found,
        within.covered copied.1 copied.2 found⟩⟩

/-- A length with a sign is read as a number of nearly 2 ^ 32 bytes. -/
example : ¬ CopiesWithin ⟨ascii "< 0,$,-1,0001,0:/x?{}>0,$,0017,0001:/2/a?{}", by decide⟩ 65536 := by decide +kernel

/-- The text is cut into frames and noise, with the lengths of the pieces in
order, in front of a frame that takes the rest of it with the NUL. -/
inductive Cut : CString -> List Nat -> Prop where
  | last {text : CString} (frame : FrameTakes text (text.length + 1)) : Cut text []
  | frame {text : CString} {count : Nat} {cuts : List Nat} (frame : FrameTakes text count) (some_bytes : 0 < count)
      (inside : count ≤ text.length) (later : Cut (text.slice count text.length) cuts) : Cut text (count :: cuts)
  | noise {text : CString} {offset : Nat} {cuts : List Nat} (unframed : ∀ count, ¬ FrameTakes text count)
      (elsewhere : ¬ PacketStart text 0) (next : Preferred text offset)
      (later : Cut (text.slice offset text.length) cuts) : Cut text (offset :: cuts)

section Reading

variable {text : CString}

theorem FrameTakes.unique {count other : Nat} (takes : FrameTakes text count) (also : FrameTakes text other) :
    count = other := by
  rcases takes with ⟨kind, frame, found, _, declared, _⟩
  rcases also with ⟨kind', frame', found', _, declared', _⟩
  cases found.symm.trans found'
  exact declared.symm.trans declared'

/-- A text that is cut begins with no frame that takes nothing. -/
theorem Cut.some_bytes {cuts : List Nat} (cut : Cut text cuts) : ¬ FrameTakes text 0 := by
  intro takes
  cases cut with
  | last frame => exact absurd (takes.unique frame) (Nat.succ_ne_zero _).symm
  | frame frame some_bytes _ _ => exact absurd (takes.unique frame) (Nat.ne_of_lt some_bytes)
  | noise unframed _ _ _ => exact unframed 0 takes

/-- The reader accepts the frame, and its packet has this length. -/
theorem FrameTakes.read {count : Nat} (takes : FrameTakes text count) (beyond : Nat -> UInt8) :
    ∃ pac, srrpReadOnePacket beyond text.stored = .packet pac ∧ pac.len.toNat = count := by
  rcases takes with ⟨kind, frame, found, fits, declared, counted⟩
  rw [← declared] at counted
  rcases accepted_of_declared found fits counted beyond [] with ⟨pac, read⟩
  refine ⟨pac, read, ?_⟩
  rw [(accepted_len found read).1]
  exact declared

theorem frameTakes_of_read {beyond : Nat -> UInt8} {pac : SrrpPacket}
    (read : srrpReadOnePacket beyond text.stored = .packet pac) : FrameTakes text pac.len.toNat := by
  have accepted : srrpReadOnePacket beyond (text.chars ++ 0 :: []) = .packet pac := read
  rcases frameOf_of_accepted accepted with ⟨kind, frame, found⟩
  rcases accepted_len found accepted with ⟨len, fits, counted⟩
  exact ⟨kind, frame, found, fits, by rw [len], counted⟩

/-- The reader refuses a text that begins with no frame, if the header fits. -/
theorem read_of_unframed (fits : HeaderFits text) (unframed : ∀ count, ¬ FrameTakes text count)
    (beyond : Nat -> UInt8) : srrpReadOnePacket beyond text.stored = .null := by
  cases read : srrpReadOnePacket beyond text.stored with
  | null => rfl
  | packet pac => exact absurd (frameTakes_of_read read) (unframed _)
  | overflow => exact absurd read ((returns_iff text).mpr fits beyond [])

theorem unframed_of_read {beyond : Nat -> UInt8} (read : srrpReadOnePacket beyond text.stored = .null) (count : Nat) :
    ¬ FrameTakes text count := by
  intro takes
  rcases takes.read beyond with ⟨pac, accepted, _⟩
  cases read.symm.trans accepted

/-- The search goes forward to the place that is preferred. -/
theorem srrpNextPacketOffset_eq_iff {offset : Nat} :
    srrpNextPacketOffset text = offset ∧ 0 < offset ↔ ¬ PacketStart text 0 ∧ Preferred text offset := by
  rcases srrpNextPacketOffset_cases text with ⟨start, found⟩ | ⟨later, i, preferred, found⟩ | ⟨_, missing, found⟩
  · refine iff_of_false ?_ fun both => both.1 start
    rintro ⟨same, positive⟩
    omega
  · constructor
    · rintro ⟨same, _⟩
      have here : i = offset := by omega
      exact ⟨later, here ▸ preferred⟩
    · rintro ⟨_, also⟩
      have here := preferred.unique also
      subst here
      refine ⟨found, Nat.pos_of_ne_zero ?_⟩
      rintro rfl
      exact later preferred.packetStart
  · refine iff_of_false ?_ fun both => missing offset both.2
    rintro ⟨same, _⟩
    omega

/-- An accepted packet with its whole declared length in `raw`. -/
theorem copiesWithin_of_raw {beyond : Nat -> UInt8} {pac : SrrpPacket} {room : Nat}
    (read : srrpReadOnePacket beyond text.stored = .packet pac) (short : pac.raw.length ≤ room)
    (inside : pac.data + pac.dataLen.toNat ≤ pac.raw.length) : CopiesWithin text room := by
  have returns : HeaderFits text := by
    refine (returns_iff text).mp fun other rest overflows => ?_
    have terminated := srrpReadOnePacket_terminated other beyond text rest
    rw [read] at terminated
    rcases terminated with ⟨_, accepted⟩
    cases overflows.symm.trans accepted
  have fields : ∀ kind frame, frameOf text = some (kind, frame) ->
      pac.raw.length = frame.len.toNat ∧ pac.data = frame.data ∧ pac.dataLen = frame.dataLen text := by
    intro kind frame found
    rcases (read_of_frameOf found beyond).2.1 pac read with ⟨_, _, _, data, dataLen, raw, _⟩
    exact ⟨by rw [raw, length_rawCopy], data, dataLen⟩
  refine ⟨returns, fun kind frame found => ?_, fun kind frame found _ _ => ?_⟩
  · rw [← (fields kind frame found).1]
    exact short
  · rcases fields kind frame found with ⟨raw, data, dataLen⟩
    rw [← raw, ← data, ← dataLen]
    exact inside

end Reading

end Srrp
end Extlib
