import Extlib.Srrp.Reader

namespace Extlib
namespace Srrp

open Text

/-!
# What the reader makes of written frames

The central fact is `read_frameText`: on a frame text with any declared
length and any data that starts with a brace, the reader finds the fields and
both delimiters where the writer put them, and accepts exactly when the
declared length is that of the text and its NUL.  A whole frame is the case
where the two agree, and a frame cut inside its data one where they do not.
-/

namespace WriteCall

/-- The decoder that reads the call's frame. -/
def kind : WriteCall -> FrameKind
  | request .. => requestKind
  | response .. => responseKind
  | _ => subpubKind

theorem kindOfLeader_leader (call : WriteCall) : kindOfLeader call.leader = some call.kind := by
  cases call <;> rfl

theorem fixed_kind (call : WriteCall) : call.kind.fixed = call.fixed := by
  cases call <;> rfl

/-- What the decoder should scan out of the call's frame. -/
def fields (call : WriteCall) (len : Nat) : Fields where
  leader := call.leader
  seat := srrpEndPacket
  seqno := 0
  len := UInt32.ofNat len
  srcid := call.srcid.toUInt32
  reqcrc16 := call.reqcrc16.toUInt32

/-- The fields with both delimiters where the writer puts them. -/
def frame (call : WriteCall) (len : Nat) : Frame where
  toFields := call.fields len
  headerDelimiter := call.fixed - 1
  dataDelimiter := call.fixed + call.header.length

private theorem scanHex_zero (rest : List UInt8) :
    scanHex none (48 :: 44 :: rest) = some (0, 44 :: rest) := rfl

private theorem ofNat_toNat_word (id : UInt16) : UInt32.ofNat id.toNat = id.toUInt32 := by
  rw [← UInt16.toNat_toUInt32, UInt32.ofNat_toNat]

private theorem scanHex_len {len : Nat} (fits : len < 65536) (rest : List UInt8)
    (unprefixed : ∀ c ∈ rest.head?, c ≠ 120 ∧ c ≠ 88) :
    scanHex (some 4) (formatHex 4 len ++ rest) = some (UInt32.ofNat len, rest) :=
  scanHex_formatHex (by decide) (by simpa using fits) (by omega) rest unprefixed

private theorem scanHex_id (id : UInt16) (rest : List UInt8)
    (unprefixed : ∀ c ∈ rest.head?, c ≠ 120 ∧ c ≠ 88) :
    scanHex (some 4) (formatHex 4 id.toNat ++ rest) = some (id.toUInt32, rest) := by
  rw [scanHex_len id.toNat_lt rest unprefixed, ofNat_toNat_word]

private theorem scanHex_crc (id : UInt16) (rest : List UInt8) :
    scanHex none (formatHex 4 id.toNat ++ 58 :: rest) = some (id.toUInt32, 58 :: rest) := by
  have small := id.toNat_lt
  have fits : id.toNat < 16 ^ 4 := by simpa using small
  have word : id.toNat < 2 ^ 32 := by omega
  have stops : ∀ c ∈ (58 :: rest).head?, hexValue c = none := by
    intro c member
    cases member
    rfl
  rw [scanHex_formatHex_stop (by decide) fits word (58 :: rest) (by simp) stops, ofNat_toNat_word]

/-- Scanning the frame gives back the arguments of the call, whatever length
it declares and whatever stands behind the colon. -/
theorem scan_frame (call : WriteCall) {len : Nat} (fits : len < 65536) (rest : List UInt8) :
    call.kind.fields (scan call.kind.format (framePrefix call.leader len call.ids ++ 58 :: rest)) =
      some (call.fields len) := by
  have literal : ascii "0,$," = [48, 44, 36, 44] := by decide
  have comma : ∀ rest : List UInt8, ∀ c ∈ (44 :: rest).head?, c ≠ 120 ∧ c ≠ 88 := by simp
  have colon : ∀ rest : List UInt8, ∀ c ∈ (58 :: rest).head?, c ≠ 120 ∧ c ≠ 88 := by simp
  cases call with
  | request srcid header data =>
      simp only [kind, requestKind, leader, ids, framePrefix, literal, List.cons_append, List.nil_append,
        List.append_assoc, List.flatMap_cons, List.flatMap_nil, scan, scanHex_zero, if_true,
        scanHex_len fits _ (comma _), scanHex_id _ _ (colon _)]
      rfl
  | response srcid reqcrc16 header data =>
      simp only [kind, responseKind, leader, ids, framePrefix, literal, List.cons_append, List.nil_append,
        List.append_assoc, List.flatMap_cons, List.flatMap_nil, scan, scanHex_zero, if_true,
        scanHex_len fits _ (comma _), scanHex_id _ _ (comma _), scanHex_crc]
      cases rest with
      | nil => rfl
      | cons head tail =>
          by_cases slash : head = 47
          · simp only [slash, if_true]; rfl
          · simp only [slash, if_false]; rfl
  | subscribe header ctrl =>
      simp only [kind, subpubKind, leader, ids, framePrefix, literal, List.cons_append, List.nil_append,
        List.append_assoc, List.flatMap_nil, scan, scanHex_zero, if_true, scanHex_len fits _ (colon _)]
      rfl
  | unsubscribe header =>
      simp only [kind, subpubKind, leader, ids, framePrefix, literal, List.cons_append, List.nil_append,
        List.append_assoc, List.flatMap_nil, scan, scanHex_zero, if_true, scanHex_len fits _ (colon _)]
      rfl
  | publish header data =>
      simp only [kind, subpubKind, leader, ids, framePrefix, literal, List.cons_append, List.nil_append,
        List.append_assoc, List.flatMap_nil, scan, scanHex_zero, if_true, scanHex_len fits _ (colon _)]
      rfl

section Read

variable (call : WriteCall) (len : Nat) (data : CString)

/-- The frame with another declared length and other data: a frame cut inside
its data is of this shape. -/
def textWith : CString where
  chars := frameText call.leader len call.ids call.header.chars data.chars
  nulFree := by
    have notLeader : (0 : UInt8) ≠ call.leader := by
      intro zero
      have listed := call.leader_mem
      rw [← zero] at listed
      revert listed
      decide
    have front := not_mem_framePrefix call.leader len call.ids notLeader (by decide) (by decide)
    simp only [frameText_eq, List.mem_append, List.mem_cons, not_or]
    exact ⟨front, by decide, call.header.nulFree, by decide, data.nulFree⟩

variable {len}

theorem length_textWith (fits : len < 65536) :
    (call.textWith len data).length = call.fixed + call.header.length + 1 + data.length := by
  have size := length_framePrefix call.leader len call.ids fits
  simp only [CString.length, textWith, frameText_eq, List.length_append, List.length_cons, size, fixed]
  omega

private theorem notMem_front {other : UInt8} (notLeader : other ∉ ascii "><#%@")
    (notFixed : other ∉ ascii "0,$,") (unread : hexValue other = none) :
    other ∉ framePrefix call.leader len call.ids :=
  not_mem_framePrefix call.leader len call.ids (fun same => notLeader (same ▸ call.leader_mem)) notFixed unread

variable {data}

private theorem headerDelimiter_textWith (documented : call.Documented) (fits : len < 65536) :
    firstOccurrence (ascii ":/") (call.textWith len data).chars = some (call.fixed - 1) := by
  have size := length_framePrefix call.leader len call.ids fits
  have slash : ascii ":/" = [58, 47] := by decide
  obtain ⟨rest, shape⟩ : ∃ rest, call.header.chars = 47 :: rest :=
    ⟨_, List.eq_cons_of_mem_head? (by simpa using documented.headerStart)⟩
  simp only [textWith, frameText_eq, slash, shape, List.cons_append]
  rw [firstOccurrence_skip 58 [47] _ _ (call.notMem_front (by decide) (by decide) (by decide))]
  simp only [firstOccurrence, List.isPrefixOf, beq_self_eq_true, Bool.and_self, if_true, Option.map_some,
    size, fixed]
  congr 1
  omega

theorem dataDelimiter_textWith (documented : call.Documented) (fits : len < 65536)
    (starts : data.chars.head? = some 123) :
    firstOccurrence (ascii "?\x7b") (call.textWith len data).chars =
      some (call.fixed + call.header.length) := by
  have size := length_framePrefix call.leader len call.ids fits
  have brace : ascii "?\x7b" = [63, 123] := by decide
  obtain ⟨rest, shape⟩ : ∃ rest, data.chars = 123 :: rest :=
    ⟨_, List.eq_cons_of_mem_head? (by simpa using starts)⟩
  have free : ¬ [63, 123] <:+: call.header.chars := brace ▸ documented.headerDelimiterFree
  have front : (63 : UInt8) ∉ framePrefix call.leader len call.ids ++ [58] := by
    simp only [List.mem_append, List.mem_singleton, not_or]
    exact ⟨call.notMem_front (by decide) (by decide) (by decide), by decide⟩
  have regroup : (call.textWith len data).chars =
      (framePrefix call.leader len call.ids ++ [58]) ++ (call.header.chars ++ 63 :: 123 :: rest) := by
    simp only [textWith, frameText_eq, shape, List.append_assoc, List.singleton_append]
  rw [regroup, brace, firstOccurrence_skip 63 [123] _ _ front, firstOccurrence_delimiter (by decide) free]
  simp only [Option.map_some, List.length_append, List.length_singleton, size, fixed, CString.length]
  congr 1
  omega

/-- Both searches find the delimiter the writer put in. -/
theorem frame_textWith (documented : call.Documented) (fits : len < 65536)
    (starts : data.chars.head? = some 123) :
    call.kind.frame (call.textWith len data) = some (call.frame len) := by
  have scanned : call.kind.fields (scan call.kind.format (call.textWith len data).chars) =
      some (call.fields len) := by
    simp only [textWith, frameText_eq]
    exact call.scan_frame fits _
  simp only [FrameKind.frame, scanned, call.headerDelimiter_textWith documented fits,
    call.dataDelimiter_textWith documented fits starts, frame]

private theorem ofInt_natCast (value : Nat) : UInt32.ofInt (value : Int) = UInt32.ofNat value := by
  apply UInt32.toNat_inj.mp
  simp only [UInt32.ofInt, UInt32.toNat_ofNat']
  omega

private theorem header_frame : (call.frame len).header = call.fixed := by
  simp only [Frame.header, frame, fixed]
  omega

private theorem headerLen_frame : (call.frame len).headerLen = UInt32.ofNat call.header.length := by
  rw [Frame.headerLen, header_frame, ← ofInt_natCast]
  congr 1
  simp only [frame]
  omega

private theorem dataLen_frame (fits : len < 65536) :
    (call.frame len).dataLen (call.textWith len data) = UInt32.ofNat data.length := by
  rw [Frame.dataLen, length_textWith call data fits, ← ofInt_natCast]
  congr 1
  simp only [Frame.data, frame]
  omega

private theorem headerLen_toNat (documented : call.Documented) :
    (UInt32.ofNat call.header.length).toNat = call.header.length := by
  have short : call.header.length < 128 := documented.headerShort
  simp only [UInt32.toNat_ofNat']
  omega

private theorem slice_header (fits : len < 65536) :
    (call.textWith len data).slice call.fixed call.header.length = call.header := by
  have before : (framePrefix call.leader len call.ids ++ [58]).length = call.fixed := by
    simp only [List.length_append, length_framePrefix _ _ _ fits, List.length_singleton, fixed]
    omega
  have regroup : (call.textWith len data).chars =
      (framePrefix call.leader len call.ids ++ [58]) ++ (call.header.chars ++ 63 :: data.chars) := by
    simp only [textWith, frameText_eq, List.append_assoc, List.singleton_append]
  ext1
  rw [CString.slice_chars, regroup, List.drop_left' before, CString.length, List.take_left]

/-- The recounted length is that of the text and its NUL, modulo the word. -/
private theorem recount_frame (fits : len < 65536) :
    call.kind.recount (call.frame len) (call.textWith len data) =
      UInt32.ofNat ((call.textWith len data).length + 1) := by
  have one : (1 : UInt32) = UInt32.ofNat 1 := rfl
  rw [FrameKind.recount, fixed_kind, headerLen_frame, dataLen_frame call fits, one, ← UInt32.ofNat_add,
    ← UInt32.ofNat_add, ← UInt32.ofNat_add, ← UInt32.ofNat_add, length_textWith call data fits]

private theorem recount_eq_iff (fits : len < 65536) {count : Nat} (size : count < 2 ^ 32) :
    UInt32.ofNat count = (UInt32.ofNat len).toUInt16.toUInt32 ↔ count = len := by
  rw [← UInt32.toNat_inj]
  simp only [UInt32.toNat_ofNat', UInt16.toNat_toUInt32, UInt32.toNat_toUInt16]
  omega

/-- A declared length within the memory is copied from there. -/
theorem rawCopy_stored (text : CString) (beyond : Nat -> UInt8) (behind : List UInt8) :
    FrameKind.rawCopy beyond (text.stored ++ behind) (text.length + 1) = text.stored := by
  have inside : text.stored.length - (text.stored ++ behind).length = 0 := by
    simp only [List.length_append]
    omega
  rw [FrameKind.rawCopy, ← CString.length_stored, inside, List.take_left]
  exact List.append_nil _

/-- The reader on a frame with the given data: it recounts the length of the
text and its NUL and compares it with the declared one. -/
theorem read_textWith (documented : call.Documented) (fits : len < 65536)
    (starts : data.chars.head? = some 123)
    (size : (call.textWith len data).length + 1 < 2 ^ 32) (beyond : Nat -> UInt8) (behind : List UInt8) :
    srrpReadOnePacket beyond ((call.textWith len data).stored ++ behind) =
      if (call.textWith len data).length + 1 = len then
        .packet
          { leader := call.leader
            seat := srrpEndPacket
            seqno := 0
            len := UInt16.ofNat len
            srcid := call.srcid
            reqcrc16 := call.reqcrc16
            header := call.header
            headerLen := UInt32.ofNat call.header.length
            data := call.fixed + call.header.length + 1
            dataLen := UInt32.ofNat data.length
            raw := (call.textWith len data).stored
            headerFits := Nat.le_of_lt documented.headerShort }
      else .null := by
  have head : ((call.textWith len data).stored ++ behind).head? = some call.leader := rfl
  have fitsArray : call.header.length ≤ srrpHeaderLen := Nat.le_of_lt documented.headerShort
  rw [srrpReadOnePacket_eq, head, Option.bind_some, kindOfLeader_leader]
  simp only [FrameKind.read, CString.ofMemory_stored, frame_textWith call documented fits starts,
    header_frame, headerLen_frame, dataLen_frame call fits, headerLen_toNat call documented,
    slice_header call fits, recount_frame call fits, fitsArray, dite_true]
  simp only [frame, fields, recount_eq_iff fits size]
  split
  case isTrue whole =>
    have declared : (UInt32.ofNat len).toNat = (call.textWith len data).length + 1 := by
      simp only [UInt32.toNat_ofNat']
      omega
    rw [declared, rawCopy_stored]
    simp [Frame.data]
  case isFalse => rfl

end Read

theorem stored_text (call : WriteCall) : (call.textWith call.len call.data).stored = call.text ++ [0] := rfl

end WriteCall

/-- A packet together with the documented call that built it. -/
structure WrittenPacket where
  call : WriteCall
  documented : call.Documented
  pac : SrrpPacket
  built : call.packet = some pac

/-- Without the data delimiter there is no packet. -/
private theorem read_of_missing (beyond : Nat -> UInt8) (buf : List UInt8)
    (missing : firstOccurrence (ascii "?\x7b") (CString.ofMemory buf).chars = none) :
    srrpReadOnePacket beyond buf = .null := by
  have noFrame : ∀ kind : FrameKind, kind.read beyond buf = .null := by
    intro kind
    have none_found : kind.frame (CString.ofMemory buf) = none := by
      unfold FrameKind.frame
      rw [missing]
      cases kind.fields (scan kind.format (CString.ofMemory buf).chars) with
      | none => rfl
      | some fields => cases firstOccurrence (ascii ":/") (CString.ofMemory buf).chars <;> rfl
    simp only [FrameKind.read, none_found]
  rw [srrpReadOnePacket_eq]
  cases buf.head?.bind kindOfLeader with
  | none => rfl
  | some kind => exact noFrame kind

namespace WrittenPacket

variable (written : WrittenPacket)

theorem pac_eq : written.pac = written.call.written written.documented.headerShort :=
  ((written.call.packet_eq_some_iff written.documented.headerShort written.pac).mp written.built).2.symm

theorem len_lt : written.call.len < srrpLengthMax - 4 :=
  ((written.call.packet_eq_some_iff written.documented.headerShort written.pac).mp written.built).1

theorem raw_eq : written.pac.raw = written.call.text ++ [0] := by
  rw [pac_eq]
  rfl

theorem length_raw : written.pac.raw.length = written.call.len := by
  have short := written.len_lt
  simp only [srrpLengthMax] at short
  rw [raw_eq, List.length_append, List.length_singleton, WriteCall.length_text (by omega)]

/-- The declared length is the number of raw bytes. -/
theorem len_toNat : written.pac.len.toNat = written.pac.raw.length := by
  have short := written.len_lt
  simp only [srrpLengthMax] at short
  rw [length_raw, pac_eq]
  simp only [WriteCall.written, UInt16.toNat_ofNat']
  omega

theorem leader_mem : written.pac.leader ∈ packetLeaders := by
  have leaders : ascii "><#%@" = packetLeaders := by decide
  rw [pac_eq, ← leaders]
  exact written.call.leader_mem

theorem raw_ne_nil : written.pac.raw ≠ [] := by
  rw [raw_eq]
  exact List.append_ne_nil_of_right_ne_nil _ (List.cons_ne_nil _ _)

/-- `data` points to the data and its NUL. -/
theorem drop_data : written.pac.raw.drop written.pac.data = written.call.data.stored := by
  have short := written.len_lt
  simp only [srrpLengthMax] at short
  have front := length_framePrefix written.call.leader written.call.len written.call.ids (by omega)
  have offset : written.pac.data = (framePrefix written.call.leader written.call.len written.call.ids ++
      58 :: (written.call.header.chars ++ [63])).length := by
    rw [pac_eq]
    simp only [WriteCall.written, WriteCall.fixed, List.length_append, List.length_cons, front, CString.length,
      List.length_nil]
    omega
  have split : written.pac.raw = (framePrefix written.call.leader written.call.len written.call.ids ++
      58 :: (written.call.header.chars ++ [63])) ++ written.call.data.stored := by
    rw [raw_eq, WriteCall.text, frameText_eq]
    simp [CString.stored]
  rw [offset, split, List.drop_left]

theorem dataText_eq : written.pac.dataText = written.call.data := by
  rw [SrrpPacket.dataText, drop_data]
  exact CString.ofMemory_terminated written.call.data.chars [] written.call.data.nulFree

theorem dataLen_toNat : written.pac.dataLen.toNat = written.call.data.length := by
  have short := written.len_lt
  simp only [srrpLengthMax, WriteCall.len] at short
  rw [pac_eq]
  simp only [WriteCall.written, UInt32.toNat_ofNat']
  omega

/-- The data lies inside what is copied. -/
theorem data_inside : written.pac.data + written.pac.dataLen.toNat ≤ written.pac.raw.length := by
  have left := congrArg List.length written.drop_data
  rw [List.length_drop, CString.length_stored, ← dataLen_toNat] at left
  omega

theorem dataBytes_eq (beyond : Nat -> UInt8) : written.pac.dataBytes beyond = written.call.data.chars := by
  have count : written.pac.dataLen.toNat = written.call.data.chars.length := written.dataLen_toNat
  have taken : written.call.data.stored.take written.call.data.chars.length = written.call.data.chars :=
    List.take_left
  simp only [SrrpPacket.dataBytes, drop_data, count, taken, Nat.sub_self, List.range_zero, List.map_nil,
    List.append_nil]

/-- The reader gives back the packet a writer built, whatever follows it. -/
theorem read_raw (beyond : Nat -> UInt8) (behind : List UInt8) :
    srrpReadOnePacket beyond (written.pac.raw ++ behind) = .packet written.pac := by
  have short := written.len_lt
  simp only [srrpLengthMax] at short
  have fits : written.call.len < 65536 := by omega
  have length := WriteCall.length_textWith written.call written.call.data fits
  have whole : (written.call.textWith written.call.len written.call.data).length + 1 = written.call.len := by
    rw [length]
    rfl
  rw [raw_eq, ← WriteCall.stored_text,
    WriteCall.read_textWith written.call written.documented fits written.documented.dataStart (by omega),
    if_pos whole, pac_eq]
  rfl

/-- A frame cut before its NUL is not accepted.  Either the data delimiter is
still missing, or the text is a frame whose data is shorter than declared. -/
theorem read_take {count : Nat} (cut : count < written.call.text.length) (beyond : Nat -> UInt8)
    (behind : List UInt8) :
    srrpReadOnePacket beyond (written.call.text.take count ++ 0 :: behind) = .null := by
  have short := written.len_lt
  simp only [srrpLengthMax] at short
  have fits : written.call.len < 65536 := by omega
  have whole := WriteCall.length_text fits
  have nulFree : (0 : UInt8) ∉ written.call.text.take count :=
    fun member => written.call.text_nulFree (List.mem_of_mem_take member)
  cases found : firstOccurrence (ascii "?\x7b") (written.call.text.take count) with
  | none =>
      refine read_of_missing beyond _ ?_
      rw [CString.ofMemory_terminated _ _ nulFree]
      exact found
  | some offset =>
      -- the delimiter seen in the cut text is that of the whole frame
      have stable := firstOccurrence_append found (written.call.text.drop count)
      rw [List.take_append_drop] at stable
      have place : offset = written.call.fixed + written.call.header.length :=
        Option.some.inj (stable.symm.trans
          (written.call.dataDelimiter_textWith written.documented fits written.documented.dataStart))
      have inside := (firstOccurrence_isPrefix found).length_le
      have two : (ascii "?\x7b").length = 2 := by decide
      simp only [two, List.length_drop, List.length_take] at inside
      have split : written.call.text.take count =
          (written.call.textWith written.call.len
            (written.call.data.slice 0 (count - (offset + 1)))).chars := by
        have front := length_framePrefix written.call.leader written.call.len written.call.ids fits
        have regroup : ∀ data : List UInt8, frameText written.call.leader written.call.len written.call.ids
            written.call.header.chars data =
              (framePrefix written.call.leader written.call.len written.call.ids ++
                58 :: (written.call.header.chars ++ [63])) ++ data := by
          intro data
          simp [frameText_eq]
        have size : (framePrefix written.call.leader written.call.len written.call.ids ++
            58 :: (written.call.header.chars ++ [63])).length = offset + 1 := by
          simp only [List.length_append, List.length_cons, front, place, WriteCall.fixed, CString.length,
            List.length_nil]
          omega
        simp only [WriteCall.text, WriteCall.textWith, regroup, CString.slice_chars, List.drop_zero]
        rw [List.take_append, size, List.take_of_length_le (by omega)]
      have starts : (written.call.data.slice 0 (count - (offset + 1))).chars.head? = some 123 := by
        have some_room : count - (offset + 1) ≠ 0 := by omega
        rw [CString.slice_chars, List.drop_zero, List.head?_take, if_neg some_room]
        exact written.documented.dataStart
      have length : (written.call.textWith written.call.len
          (written.call.data.slice 0 (count - (offset + 1)))).length = count := by
        rw [CString.length, ← split, List.length_take]
        omega
      have stored : written.call.text.take count ++ 0 :: behind =
          (written.call.textWith written.call.len
            (written.call.data.slice 0 (count - (offset + 1)))).stored ++ behind := by
        simp [CString.stored, split]
      rw [stored, WriteCall.read_textWith written.call written.documented fits starts (by omega),
        if_neg (by omega)]

/-- A frame with more text behind its data is not accepted: it is longer than
it declares. -/
private theorem read_longer {more : List UInt8} (nonempty : more ≠ []) (nulFree : (0 : UInt8) ∉ more)
    (short : (written.call.text ++ more).length < 2 ^ 31) (beyond : Nat -> UInt8) (behind : List UInt8) :
    srrpReadOnePacket beyond (written.call.text ++ more ++ 0 :: behind) = .null := by
  have fits : written.call.len < 65536 := by
    have declared := written.len_lt
    simp only [srrpLengthMax] at declared
    omega
  have dataNulFree : (0 : UInt8) ∉ written.call.data.chars ++ more := by
    rw [List.mem_append, not_or]
    exact ⟨written.call.data.nulFree, nulFree⟩
  have starts : (written.call.data.chars ++ more).head? = some 123 := by
    rw [List.head?_append, written.documented.dataStart, Option.some_or]
  have longer : (written.call.textWith written.call.len ⟨written.call.data.chars ++ more, dataNulFree⟩).chars =
      written.call.text ++ more := by
    simp [WriteCall.textWith, WriteCall.text, frameText_eq]
  have stored : written.call.text ++ more ++ 0 :: behind =
      (written.call.textWith written.call.len ⟨written.call.data.chars ++ more, dataNulFree⟩).stored ++ behind := by
    rw [CString.stored, longer, List.append_assoc _ [0], List.singleton_append]
  have length : (written.call.textWith written.call.len ⟨written.call.data.chars ++ more, dataNulFree⟩).length =
      written.call.text.length + more.length := by
    rw [CString.length, longer, List.length_append]
  have whole := WriteCall.length_text fits
  have added := List.length_pos_of_ne_nil nonempty
  rw [List.length_append] at short
  rw [stored, WriteCall.read_textWith written.call written.documented fits starts (by omega), if_neg (by omega)]

/-- Of the texts that begin a written frame or go on behind it, the reader
accepts the frame alone. -/
theorem read_cut_or_longer (beyond : Nat -> UInt8) (behind : List UInt8) :
    (∀ count, count < written.call.text.length ->
      srrpReadOnePacket beyond (written.call.text.take count ++ 0 :: behind) = .null) ∧
    ∀ more, more ≠ [] -> (0 : UInt8) ∉ more -> (written.call.text ++ more).length < 2 ^ 31 ->
      srrpReadOnePacket beyond (written.call.text ++ more ++ 0 :: behind) = .null :=
  ⟨fun _ cut => written.read_take cut beyond behind,
    fun _ nonempty nulFree short => written.read_longer nonempty nulFree short beyond behind⟩

private theorem topicHeader_nulFree : (0 : UInt8) ∉ ascii "/a" := by decide

private def topicHeader : CString := ⟨ascii "/a", topicHeader_nulFree⟩

private theorem emptyControl_nulFree : (0 : UInt8) ∉ ascii "\x7b\x7d" := by decide

private def emptyControl : CString := ⟨ascii "\x7b\x7d", emptyControl_nulFree⟩

private theorem topic_documented : (WriteCall.subscribe topicHeader emptyControl).Documented where
  headerStart := by decide
  headerDelimiterFree := by decide
  headerShort := by decide
  dataStart := by decide

private theorem topic_packet : (WriteCall.subscribe topicHeader emptyControl).packet =
    some ((WriteCall.subscribe topicHeader emptyControl).written topic_documented.headerShort) := by
  decide +kernel

/-- A subscription cut inside its header, and one with a brace too many. -/
theorem read_cut_or_longer_subscription :
    srrpReadOnePacket (fun _ => 0) (ascii "#0,$,0010:/" ++ [0]) = .null ∧
      srrpReadOnePacket (fun _ => 0) (ascii "#0,$,0010:/a?\x7b\x7d\x7d" ++ [0]) = .null := by
  have text : (WriteCall.subscribe topicHeader emptyControl).text = ascii "#0,$,0010:/a?\x7b\x7d" := by
    decide +kernel
  have refused := read_cut_or_longer ⟨_, topic_documented, _, topic_packet⟩ (fun _ => 0) []
  dsimp only at refused
  rw [text] at refused
  exact ⟨refused.1 11 (by decide), refused.2 (ascii "\x7d") (by decide) (by decide) (by decide)⟩

end WrittenPacket

/-! ## Reading a stream -/

/-- Read at the front and advance by the packet's length, at most `fuel`
times.  The rest of the stream is what no packet was read from. -/
def readStream (beyond : Nat -> UInt8) : Nat -> List UInt8 -> List SrrpPacket × List UInt8
  | 0, stream => ([], stream)
  | fuel + 1, stream =>
      match srrpReadOnePacket beyond stream with
      | .packet pac =>
          let later := readStream beyond fuel (stream.drop pac.len.toNat)
          (pac :: later.1, later.2)
      | _ => ([], stream)

/-- One step of the stream reader consumes exactly the front packet. -/
private theorem readStream_raw (beyond : Nat -> UInt8) (fuel : Nat) (written : WrittenPacket)
    (rest : List UInt8) :
    readStream beyond (fuel + 1) (written.pac.raw ++ rest) =
      (written.pac :: (readStream beyond fuel rest).1, (readStream beyond fuel rest).2) := by
  simp only [readStream, written.read_raw, written.len_toNat, List.drop_left]

private theorem readStream_nil (beyond : Nat -> UInt8) (fuel : Nat) :
    readStream beyond fuel [] = ([], []) := by
  cases fuel <;> rfl

/-- The concatenation of written packets is read back packet by packet and
consumed to its last byte. -/
theorem readStream_written (beyond : Nat -> UInt8) (packets : List WrittenPacket) (spare : Nat) :
    readStream beyond (packets.length + spare) (packets.flatMap (·.pac.raw)) =
      (packets.map (·.pac), []) := by
  induction packets with
  | nil => exact readStream_nil beyond _
  | cons written packets inductionHypothesis =>
      have fuel : (written :: packets).length + spare = (packets.length + spare) + 1 := by
        simp only [List.length_cons]
        omega
      rw [fuel, List.flatMap_cons, readStream_raw, inductionHypothesis]
      rfl

end Srrp
end Extlib
