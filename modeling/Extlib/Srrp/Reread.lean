import Extlib.Srrp.Grammar

namespace Extlib
namespace Srrp

open Text

/-!
# Reading a packet that was sent on

A packet is sent on as the `len` bytes at the front of `raw`.  Whoever receives
them reads up to the first NUL, and what follows them on the wire is none of
the packet.  The receiver is told the same packet whatever that is exactly
when the bytes contain their NUL.
-/

namespace SrrpPacket

/-- The bytes a packet is sent on with. -/
def sentBytes (pac : SrrpPacket) : List UInt8 := pac.raw.take pac.len.toNat

/-- The packet with nothing behind the bytes it is sent on with. -/
def trimmed (pac : SrrpPacket) : SrrpPacket := { pac with raw := pac.sentBytes }

end SrrpPacket

/-- The packet was read from memory that contains the end of its text. -/
def Genuine (pac : SrrpPacket) : Prop :=
  ∃ beyond text rest, srrpReadOnePacket beyond (CString.chars text ++ 0 :: rest) = .packet pac

/-- The bytes are read as the packet, whatever follows them. -/
def ReadsBack (bytes : List UInt8) (pac : SrrpPacket) : Prop :=
  ∀ beyond behind, ∃ again, srrpReadOnePacket beyond (bytes ++ behind) = .packet again ∧ again.trimmed = pac.trimmed

section Copies

variable {text : CString} {beyond : Nat -> UInt8} {rest : List UInt8} {pac : SrrpPacket}

/-- `raw` is a copy of at least `len` bytes, and the data reach to the end of
the text. -/
theorem accepted_copy (accepted : srrpReadOnePacket beyond (text.chars ++ 0 :: rest) = .packet pac) :
    (∃ count, pac.len.toNat ≤ count ∧ pac.raw = FrameKind.rawCopy beyond (text.chars ++ 0 :: rest) count) ∧
      pac.dataLen = UInt32.ofInt ((text.length : Int) - pac.data) := by
  have whole : CString.ofMemory (text.chars ++ 0 :: rest) = text :=
    CString.ofMemory_terminated text.chars rest text.nulFree
  rw [srrpReadOnePacket_eq] at accepted
  split at accepted
  · cases accepted
  case h_2 kind announced =>
    simp only [FrameKind.read, whole] at accepted
    split at accepted
    · cases accepted
    case h_2 frame framed =>
      split at accepted
      · split at accepted
        · cases accepted
          refine ⟨⟨frame.len.toNat, ?_, rfl⟩, rfl⟩
          rw [UInt32.toNat_toUInt16]
          exact Nat.mod_le _ _
        · cases accepted
      · cases accepted

/-- The same text in other memory is read as the same packet. -/
theorem accepted_elsewhere (accepted : srrpReadOnePacket beyond (text.chars ++ 0 :: rest) = .packet pac)
    (beyond' : Nat -> UInt8) (rest' : List UInt8) :
    ∃ raw, srrpReadOnePacket beyond' (text.chars ++ 0 :: rest') = .packet { pac with raw := raw } := by
  have here := srrpReadOnePacket_terminated beyond beyond text rest
  have there := srrpReadOnePacket_terminated beyond' beyond text rest'
  rw [accepted] at here
  cases stored : srrpReadOnePacket beyond text.stored with
  | null =>
      rw [stored] at here
      cases here
  | overflow =>
      rw [stored] at here
      cases here
  | packet alone =>
      rw [stored] at here there
      rcases here with ⟨count, same⟩
      rcases there with ⟨count', read⟩
      cases same
      exact ⟨_, read⟩

/-- What a packet is sent on with is the front of the memory it was read from. -/
theorem sentBytes_of_accepted (accepted : srrpReadOnePacket beyond (text.chars ++ 0 :: rest) = .packet pac) :
    ∃ more, pac.sentBytes = (text.chars ++ 0 :: rest ++ more).take pac.len.toNat ∧
      pac.sentBytes.length = pac.len.toNat := by
  rcases accepted_copy accepted with ⟨⟨count, enough, copied⟩, _⟩
  have length := length_rawCopy beyond (text.chars ++ 0 :: rest) count
  refine ⟨(List.range (count - (text.chars ++ 0 :: rest).length)).map beyond, ?_, ?_⟩
  · rw [SrrpPacket.sentBytes, copied, FrameKind.rawCopy]
    rcases Nat.le_total count (text.chars ++ 0 :: rest).length with inside | outside
    · rw [Nat.sub_eq_zero_of_le inside, List.range_zero, List.map_nil, List.append_nil, List.append_nil,
        List.take_take, Nat.min_eq_left enough]
    · rw [List.take_of_length_le outside]
  · rw [SrrpPacket.sentBytes, List.length_take, copied, length, Nat.min_eq_left enough]

end Copies

/-- A packet is read back from the bytes it is sent on with, whatever follows
them, exactly when they contain a NUL. -/
theorem readsBack_iff {pac : SrrpPacket} (genuine : Genuine pac) :
    ReadsBack pac.sentBytes pac ↔ (0 : UInt8) ∈ pac.sentBytes := by
  rcases genuine with ⟨beyond, text, rest, accepted⟩
  rcases sentBytes_of_accepted accepted with ⟨more, sent, length⟩
  rcases Nat.lt_or_ge text.length pac.len.toNat with reaches | short
  · obtain ⟨count, size⟩ := Nat.exists_eq_add_of_lt reaches
    have front : pac.sentBytes = text.chars ++ 0 :: (rest ++ more).take count := by
      have behindText : pac.len.toNat - text.chars.length = count + 1 := by
        unfold CString.length at size
        omega
      rw [sent, List.append_assoc, List.take_append, List.take_of_length_le (Nat.le_of_lt reaches), behindText,
        List.cons_append, List.take_succ_cons]
    refine ⟨fun _ => front ▸ List.mem_append_right _ List.mem_cons_self, ?_⟩
    intro _ beyond' behind
    rcases accepted_elsewhere accepted beyond' ((rest ++ more).take count ++ behind) with ⟨raw, again⟩
    rcases sentBytes_of_accepted again with ⟨more', sent', _⟩
    rw [← List.cons_append, ← List.append_assoc, ← front] at again sent'
    rw [List.append_assoc, List.take_left' length] at sent'
    refine ⟨_, again, ?_⟩
    rw [SrrpPacket.trimmed, SrrpPacket.trimmed, sent']
  · have front : pac.sentBytes = text.chars.take pac.len.toNat := by
      rw [sent, List.append_assoc, List.take_append_of_le_length short]
    have nulFree : (0 : UInt8) ∉ pac.sentBytes := fun inside =>
      text.nulFree (List.mem_of_mem_take (front ▸ inside))
    refine ⟨fun readsBack => ?_, fun inside => absurd inside nulFree⟩
    -- the data reaches to the end of the text, and the text is not over
    have lengthens : ∀ tail : List UInt8, (0 : UInt8) ∉ tail ->
        pac.dataLen = UInt32.ofInt (((pac.sentBytes ++ tail).length : Int) - pac.data) := by
      intro tail visible
      let longer : CString := ⟨pac.sentBytes ++ tail, by simp [nulFree, visible]⟩
      rcases readsBack (fun _ => 0) (tail ++ [0]) with ⟨again, read, same⟩
      have whole : pac.sentBytes ++ (tail ++ [0]) = longer.chars ++ 0 :: [] := (List.append_assoc _ _ _).symm
      rw [whole] at read
      have counted := (accepted_copy read).2
      have fields : ∀ pac : SrrpPacket, pac.trimmed.dataLen = pac.dataLen ∧ pac.trimmed.data = pac.data :=
        fun _ => ⟨rfl, rfl⟩
      have dataLen : again.dataLen = pac.dataLen := by rw [← (fields again).1, same, (fields pac).1]
      have data : again.data = pac.data := by rw [← (fields again).2, same, (fields pac).2]
      rw [dataLen, data] at counted
      exact counted
    have once := congrArg UInt32.toNat ((lengthens [] (by simp)).symm.trans (lengthens [122] (by decide)))
    simp only [UInt32.ofInt, UInt32.toNat_ofNat', List.length_append, List.length_nil, List.length_singleton] at once
    omega

end Srrp
end Extlib
