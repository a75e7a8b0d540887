import Extlib.Srrp.CopySafety

namespace Extlib
namespace Srrp

open Text

/-!
# The documented grammar and the length the reader counts

A `Spelling` is a packet as `srrp.h` writes it down, with as many digits in
each number as its author chose; the decoders count a fixed number of
characters in front of the header.  `Framed` says what the declared length of
a text should decide.  By `framed_iff` it does so, if the header fits its
array, where the header starts behind just these characters, and elsewhere only
on texts that declare neither their length nor that length less the shift of
the header.
-/

/-- `SRRP_SEQNO_HIGH`. -/
def srrpSeqnoHigh : Nat := 966

/-- The ids between the length and the header. -/
def idCount (leader : UInt8) : Nat :=
  if leader = srrpRequestLeader then 1
  else if leader = srrpResponseLeader then 2
  else 0

def IsHexNumber (digits : List UInt8) : Prop := digits ≠ [] ∧ ∀ c ∈ digits, (hexValue c).isSome

instance (digits : List UInt8) : Decidable (IsHexNumber digits) :=
  inferInstanceAs (Decidable (digits ≠ [] ∧ ∀ c ∈ digits, (hexValue c).isSome))

structure Spelling where
  leader : UInt8
  seqno : List UInt8
  len : List UInt8
  ids : List (List UInt8)
  header : List UInt8
  data : List UInt8

namespace Spelling

/-- Everything before the colon.  The seat of a packet that is not split is
`$`. -/
def front (spelling : Spelling) : List UInt8 :=
  spelling.leader :: (spelling.seqno ++ ascii ",$," ++ spelling.len ++ spelling.ids.flatMap (44 :: ·))

def text (spelling : Spelling) : List UInt8 :=
  spelling.front ++ 58 :: (spelling.header ++ 63 :: spelling.data)

/-- The length the text declares. -/
def declared (spelling : Spelling) : Nat := magnitude 16 hexValue spelling.len

/-- The comment at the head of `srrp.h`, for a single packet. -/
structure Grammatical (spelling : Spelling) : Prop where
  leaderListed : spelling.leader ∈ packetLeaders
  seqnoHex : IsHexNumber spelling.seqno
  seqnoHigh : magnitude 16 hexValue spelling.seqno ≤ srrpSeqnoHigh
  lenHex : IsHexNumber spelling.len
  lenDigits : spelling.len.length = 4
  idsForKind : spelling.ids.length = idCount spelling.leader
  idsHex : ∀ id ∈ spelling.ids, IsHexNumber id ∧ id.length ≤ 4
  headerStart : spelling.header.head? = some 47
  headerDelimiterFree : ¬ ascii "?\x7b" <:+: spelling.header
  headerShort : spelling.header.length < srrpHeaderLen
  dataStart : spelling.data.head? = some 123

end Spelling

/-- The text is a single packet of the grammar and declares its own length. -/
def SinglePacket (text : CString) : Prop :=
  ∃ spelling : Spelling, spelling.Grammatical ∧ spelling.text = text.chars ∧ spelling.declared = text.length + 1

/-- The reader returns from the copy of the header, whatever is accepted at the
front of a memory ends where its length says, and a packet that declares its own
length is accepted. -/
structure Framed (text : CString) : Prop where
  returns : ∀ beyond rest, srrpReadOnePacket beyond (text.chars ++ 0 :: rest) ≠ .overflow
  lands : ∀ beyond rest pac, srrpReadOnePacket beyond (text.chars ++ 0 :: rest) = .packet pac ->
    pac.len.toNat = text.length + 1 ∧ (text.chars ++ 0 :: rest).drop pac.len.toNat = rest
  accepts : SinglePacket text ->
    ∀ beyond rest, ∃ pac, srrpReadOnePacket beyond (text.chars ++ 0 :: rest) = .packet pac

/-- What is copied for the header is no longer than the array. -/
def HeaderFits (text : CString) : Prop :=
  ∀ kind frame, frameOf text = some (kind, frame) -> frame.headerLen.toNat ≤ srrpHeaderLen

/-- The header starts behind the characters the decoder counts, and the length
of the text fits the word it is counted in. -/
def WellPlaced (text : CString) : Prop :=
  ∀ kind frame, frameOf text = some (kind, frame) -> frame.header = kind.fixed ∧ text.length + 1 < 2 ^ 32

/-- The text declares its length less the shift of its header, and the header
fits the array. -/
def DeclaresShifted (text : CString) : Prop :=
  ∃ kind frame, frameOf text = some (kind, frame) ∧ frame.headerLen.toNat ≤ srrpHeaderLen ∧
    (frame.len.toUInt16.toNat : Int) = (text.length + 1 - (frame.header - kind.fixed : Int)) % 2 ^ 32

/-! ## What the reader counts -/

/-- The constants of the decoders: ten characters, and five for each id. -/
theorem fixed_kindOfLeader {leader : UInt8} {kind : FrameKind} (announced : kindOfLeader leader = some kind) :
    kind.fixed = 10 + 5 * idCount leader := by
  unfold kindOfLeader at announced
  unfold idCount
  split at announced
  case isTrue request =>
    cases announced
    rw [if_pos request]
    rfl
  case isFalse notRequest =>
    rw [if_neg notRequest]
    split at announced
    case isTrue response =>
      cases announced
      rw [if_pos response]
      rfl
    case isFalse notResponse =>
      rw [if_neg notResponse]
      split at announced
      · cases announced
        rfl
      · cases announced

section Count

variable {text : CString} {kind : FrameKind} {frame : Frame}

/-- The two subtractions cancel but for the place of the header. -/
theorem recount_toNat (kind : FrameKind) (frame : Frame) (text : CString) :
    ((kind.recount frame text).toNat : Int) = (text.length + 1 - (frame.header - kind.fixed : Int)) % 2 ^ 32 := by
  have one : (1 : UInt32).toNat = 1 := rfl
  simp only [FrameKind.recount, Frame.headerLen, Frame.dataLen, Frame.data, UInt32.toNat_add, one,
    UInt32.toNat_ofNat', UInt32.ofInt]
  omega

/-- The comparison of `retval` with `pac->len`. -/
private theorem recount_eq_iff :
    kind.recount frame text = frame.len.toUInt16.toUInt32 ↔
      (frame.len.toUInt16.toNat : Int) = (text.length + 1 - (frame.header - kind.fixed : Int)) % 2 ^ 32 := by
  rw [← recount_toNat, ← UInt32.toNat_inj, UInt16.toNat_toUInt32]
  omega

/-- What is accepted is what the frame says, and the comparison held. -/
theorem accepted_frame (found : frameOf text = some (kind, frame)) {beyond : Nat -> UInt8} {rest : List UInt8}
    {pac : SrrpPacket} (accepted : srrpReadOnePacket beyond (text.chars ++ 0 :: rest) = .packet pac) :
    kind.recount frame text = frame.len.toUInt16.toUInt32 ∧ pac.len = frame.len.toUInt16 ∧
      pac.header = text.slice frame.header frame.headerLen.toNat ∧ pac.headerLen = frame.headerLen ∧
      frame.headerLen.toNat ≤ srrpHeaderLen := by
  have terminated := srrpReadOnePacket_terminated beyond beyond text rest
  have spec := read_of_frameOf found beyond
  rw [accepted] at terminated
  cases stored : srrpReadOnePacket beyond text.stored with
  | null =>
      rw [stored] at terminated
      cases terminated
  | overflow =>
      rw [stored] at terminated
      cases terminated
  | packet alone =>
      rw [stored] at terminated
      rcases terminated with ⟨count, same⟩
      cases same
      rcases spec.2.1 alone stored with ⟨agree, header, headerLen, _, _, _, len⟩
      have fits : ¬ srrpHeaderLen < frame.headerLen.toNat := by
        intro overflows
        rw [spec.1.mpr overflows] at stored
        cases stored
      exact ⟨agree, len, header, headerLen, Nat.le_of_not_lt fits⟩

/-- An accepted text declares what is counted. -/
theorem accepted_len (found : frameOf text = some (kind, frame)) {beyond : Nat -> UInt8} {rest : List UInt8}
    {pac : SrrpPacket} (accepted : srrpReadOnePacket beyond (text.chars ++ 0 :: rest) = .packet pac) :
    pac.len = frame.len.toUInt16 ∧ frame.headerLen.toNat ≤ srrpHeaderLen ∧
      (pac.len.toNat : Int) = (text.length + 1 - (frame.header - kind.fixed : Int)) % 2 ^ 32 := by
  rcases accepted_frame found accepted with ⟨agree, len, _, _, fits⟩
  refine ⟨len, fits, ?_⟩
  rw [len]
  exact recount_eq_iff.mp agree

/-- A text with a header that fits is accepted when it declares what is
counted. -/
theorem accepted_of_declared (found : frameOf text = some (kind, frame))
    (fits : frame.headerLen.toNat ≤ srrpHeaderLen)
    (declared : (frame.len.toUInt16.toNat : Int) = (text.length + 1 - (frame.header - kind.fixed : Int)) % 2 ^ 32)
    (beyond : Nat -> UInt8) (rest : List UInt8) :
    ∃ pac, srrpReadOnePacket beyond (text.chars ++ 0 :: rest) = .packet pac := by
  have terminated := srrpReadOnePacket_terminated beyond beyond text rest
  rcases (read_of_frameOf found beyond).2.2 fits (recount_eq_iff.mpr declared) with ⟨alone, stored⟩
  rw [stored] at terminated
  rcases terminated with ⟨count, accepted⟩
  exact ⟨_, accepted⟩

theorem fixed_of_frameOf (found : frameOf text = some (kind, frame)) : 10 ≤ kind.fixed ∧ kind.fixed ≤ 20 := by
  rcases Option.bind_eq_some_iff.mp found with ⟨kind', announced, mapped⟩
  rcases Option.map_eq_some_iff.mp mapped with ⟨frame', _, pair⟩
  cases pair
  rcases Option.bind_eq_some_iff.mp announced with ⟨leader, _, announces⟩
  have fixed := fixed_kindOfLeader announces
  have few : idCount leader ≤ 2 := by
    unfold idCount
    split
    · decide
    · split <;> decide
  omega

/-- Without a frame nothing is accepted. -/
theorem frameOf_of_accepted {beyond : Nat -> UInt8} {rest : List UInt8} {pac : SrrpPacket}
    (accepted : srrpReadOnePacket beyond (text.chars ++ 0 :: rest) = .packet pac) :
    ∃ kind frame, frameOf text = some (kind, frame) := by
  cases found : frameOf text with
  | some pair => exact ⟨pair.1, pair.2, rfl⟩
  | none =>
      have terminated := srrpReadOnePacket_terminated beyond beyond text rest
      rw [read_of_frameOf_none found beyond, accepted] at terminated
      cases terminated

/-- An accepted packet takes some of the memory it was read from. -/
theorem accepted_pos {memory : List UInt8} {beyond : Nat -> UInt8} {pac : SrrpPacket}
    (terminated : (0 : UInt8) ∈ memory) (word : memory.length < 2 ^ 31)
    (accepted : srrpReadOnePacket beyond memory = .packet pac) : 0 < pac.len.toNat := by
  rcases CString.ofMemory_split terminated with ⟨rest, split⟩
  rw [split] at accepted
  rcases frameOf_of_accepted accepted with ⟨kind, frame, found⟩
  have counted := (accepted_len found accepted).2.2
  have inText := frameOf_bounds found
  have small := fixed_of_frameOf found
  have short : (CString.ofMemory memory).length < 2 ^ 31 :=
    Nat.lt_of_le_of_lt (List.takeWhile_prefix _).length_le word
  omega

/-- `header_len` of an accepted packet is the length of its header. -/
theorem accepted_counted {memory : List UInt8} {beyond : Nat -> UInt8} {pac : SrrpPacket}
    (terminated : (0 : UInt8) ∈ memory) (word : memory.length < 2 ^ 31)
    (accepted : srrpReadOnePacket beyond memory = .packet pac) : pac.headerLen.toNat = pac.header.length := by
  rcases CString.ofMemory_split terminated with ⟨rest, split⟩
  rw [split] at accepted
  rcases frameOf_of_accepted accepted with ⟨kind, frame, found⟩
  rcases accepted_frame found accepted with ⟨_, _, header, headerLen, fits⟩
  have inText := frameOf_bounds found
  have short : (CString.ofMemory memory).length < 2 ^ 31 :=
    Nat.lt_of_le_of_lt (List.takeWhile_prefix _).length_le word
  have inside : frame.header + frame.headerLen.toNat ≤ (CString.ofMemory memory).length := by
    simp only [Frame.headerLen, Frame.data, UInt32.ofInt, UInt32.toNat_ofNat', srrpHeaderLen] at fits inText ⊢
    omega
  rw [header, headerLen, CString.length, CString.slice_chars, List.length_take, List.length_drop]
  unfold CString.length at inside
  omega

end Count

/-! ## What the reader finds in a text of the grammar -/

/-- The number as the scanner leaves it in a word. -/
def numberWord (digits : List UInt8) : UInt32 := unsignedWord false (magnitude 16 hexValue digits)

private theorem scanHex_number {width : Option Nat} {digits : List UInt8} (number : IsHexNumber digits)
    (fits : ∀ count ∈ width, digits.length ≤ count) {c : UInt8} (separator : c = 44 ∨ c = 58) (rest : List UInt8) :
    scanHex width (digits ++ c :: rest) = some (numberWord digits, c :: rest) := by
  apply scanHex_digits number.1 number.2 fits
  · rintro _ ⟨⟩
    rcases separator with rfl | rfl <;> decide
  · rintro _ ⟨⟩
    rcases separator with rfl | rfl <;> decide

namespace Spelling

def fields (spelling : Spelling) : Fields where
  leader := spelling.leader
  seat := srrpEndPacket
  seqno := numberWord spelling.seqno
  len := numberWord spelling.len
  srcid := (spelling.ids[0]?.map numberWord).getD 0
  reqcrc16 := (spelling.ids[1]?.map numberWord).getD 0

def frame (spelling : Spelling) : Frame where
  toFields := spelling.fields
  headerDelimiter := spelling.front.length
  dataDelimiter := spelling.front.length + 1 + spelling.header.length

namespace Grammatical

variable {spelling : Spelling} (grammatical : spelling.Grammatical)

include grammatical

theorem declared_lt : spelling.declared < 65536 := by
  have bounded := magnitude_hex_lt spelling.len
  rw [grammatical.lenDigits] at bounded
  exact bounded

/-- The decoder for the leader scans the fields. -/
theorem scan_text :
    ∃ kind, kindOfLeader spelling.leader = some kind ∧
      kind.fields (scan kind.format spelling.text) = some spelling.fields := by
  have literal : ascii ",$," = [44, 36, 44] := by decide
  have seqno : ∀ rest, scanHex none (spelling.seqno ++ 44 :: rest) = some (numberWord spelling.seqno, 44 :: rest) :=
    scanHex_number grammatical.seqnoHex (by simp) (Or.inl rfl)
  have len : ∀ (c : UInt8) (rest : List UInt8), c = 44 ∨ c = 58 ->
      scanHex (some 4) (spelling.len ++ c :: rest) = some (numberWord spelling.len, c :: rest) :=
    fun c rest separator => scanHex_number grammatical.lenHex (by simp [grammatical.lenDigits]) separator rest
  have id : ∀ id ∈ spelling.ids, ∀ (c : UInt8) (rest : List UInt8), c = 44 ∨ c = 58 ->
      scanHex (some 4) (id ++ c :: rest) = some (numberWord id, c :: rest) := by
    intro id listed c rest separator
    have digits := grammatical.idsHex id listed
    exact scanHex_number digits.1 (by simpa using digits.2) separator rest
  have counted := grammatical.idsForKind
  have leaders := grammatical.leaderListed
  simp only [packetLeaders, List.mem_cons, List.not_mem_nil, or_false] at leaders
  by_cases request : spelling.leader = srrpRequestLeader
  · obtain ⟨srcid, ids⟩ : ∃ srcid, spelling.ids = [srcid] :=
      List.length_eq_one_iff.mp (by rw [counted, request]; rfl)
    have srcidScan := id srcid (by simp [ids])
    refine ⟨requestKind, by rw [request]; rfl, ?_⟩
    simp only [requestKind, text, front, ids, literal, List.flatMap_cons, List.flatMap_nil, List.append_nil,
      List.append_assoc, List.cons_append, List.nil_append, scan, seqno, len _ _ (Or.inl rfl),
      srcidScan _ _ (Or.inr rfl), if_true, fields]
    rfl
  · by_cases response : spelling.leader = srrpResponseLeader
    · obtain ⟨srcid, reqcrc16, ids⟩ : ∃ srcid reqcrc16, spelling.ids = [srcid, reqcrc16] :=
        List.length_eq_two.mp (by rw [counted, response]; rfl)
      have srcidScan := id srcid (by simp [ids])
      have crcScan : ∀ rest, scanHex none (reqcrc16 ++ 58 :: rest) = some (numberWord reqcrc16, 58 :: rest) :=
        scanHex_number (grammatical.idsHex reqcrc16 (by simp [ids])).1 (by simp) (Or.inr rfl)
      refine ⟨responseKind, by rw [response]; rfl, ?_⟩
      obtain ⟨more, slash⟩ : ∃ more, spelling.header = 47 :: more :=
        ⟨_, List.eq_cons_of_mem_head? (by simpa using grammatical.headerStart)⟩
      simp only [responseKind, text, front, ids, slash, literal, List.flatMap_cons, List.flatMap_nil, List.append_nil,
        List.append_assoc, List.cons_append, List.nil_append, scan, seqno, len _ _ (Or.inl rfl),
        srcidScan _ _ (Or.inl rfl), crcScan, if_true, fields]
      rfl
    · have ids : spelling.ids = [] := by
        apply List.eq_nil_of_length_eq_zero
        rw [counted, idCount, if_neg request, if_neg response]
      refine ⟨subpubKind, ?_, ?_⟩
      · rw [kindOfLeader, if_neg request, if_neg response, if_pos (by tauto)]
      · simp only [subpubKind, text, front, ids, literal, List.flatMap_nil, List.append_nil, List.append_assoc,
          List.cons_append, List.nil_append, scan, seqno, len _ _ (Or.inr rfl), if_true, fields]
        rfl

private theorem not_mem_front {other : UInt8} (notLeader : other ∉ packetLeaders) (notFixed : other ∉ ascii ",$,")
    (unread : hexValue other = none) : other ∉ spelling.front := by
  have notDigit : ∀ digits, IsHexNumber digits -> other ∉ digits := by
    intro digits number member
    have digit := number.2 other member
    rw [unread] at digit
    cases digit
  have notComma : other ≠ 44 := by
    rintro rfl
    exact notFixed (by decide)
  simp only [front, List.mem_cons, List.mem_append, List.mem_flatMap, not_or]
  refine ⟨?_, ⟨⟨notDigit _ grammatical.seqnoHex, notFixed⟩, notDigit _ grammatical.lenHex⟩, ?_⟩
  · rintro rfl
    exact notLeader grammatical.leaderListed
  · rintro ⟨id, listed, comma | digit⟩
    · exact notComma comma
    · exact notDigit id (grammatical.idsHex id listed).1 digit

private theorem headerDelimiter_text : firstOccurrence (ascii ":/") spelling.text = some spelling.front.length := by
  have slash : ascii ":/" = [58, 47] := by decide
  obtain ⟨rest, shape⟩ : ∃ rest, spelling.header = 47 :: rest :=
    ⟨_, List.eq_cons_of_mem_head? (by simpa using grammatical.headerStart)⟩
  have absent : (58 : UInt8) ∉ spelling.front := grammatical.not_mem_front (by decide) (by decide) (by decide)
  rw [text, slash, shape, firstOccurrence_skip 58 [47] _ _ absent]
  simp [firstOccurrence]

private theorem dataDelimiter_text :
    firstOccurrence (ascii "?\x7b") spelling.text = some (spelling.front.length + 1 + spelling.header.length) := by
  have brace : ascii "?\x7b" = [63, 123] := by decide
  obtain ⟨rest, shape⟩ : ∃ rest, spelling.data = 123 :: rest :=
    ⟨_, List.eq_cons_of_mem_head? (by simpa using grammatical.dataStart)⟩
  have free : ¬ [63, 123] <:+: spelling.header := brace ▸ grammatical.headerDelimiterFree
  have before : (63 : UInt8) ∉ spelling.front ++ [58] := by
    simp only [List.mem_append, List.mem_singleton, not_or]
    exact ⟨grammatical.not_mem_front (by decide) (by decide) (by decide), by decide⟩
  have regroup : spelling.text = (spelling.front ++ [58]) ++ (spelling.header ++ 63 :: 123 :: rest) := by
    simp only [text, shape, List.append_assoc, List.singleton_append]
  rw [regroup, brace, firstOccurrence_skip 63 [123] _ _ before, firstOccurrence_delimiter (by decide) free]
  simp only [Option.map_some, List.length_append, List.length_singleton, Nat.add_comm]

/-- The reader gets as far as the copies, with the header right behind the
colon. -/
theorem frameOf_text {text : CString} (spelled : spelling.text = text.chars) :
    ∃ kind, kindOfLeader spelling.leader = some kind ∧ frameOf text = some (kind, spelling.frame) := by
  rcases grammatical.scan_text with ⟨kind, announced, scanned⟩
  have head : spelling.text.head? = some spelling.leader := rfl
  refine ⟨kind, announced, ?_⟩
  simp only [frameOf, FrameKind.frame, ← spelled]
  simp only [head, Option.bind_some, announced, scanned, grammatical.headerDelimiter_text,
    grammatical.dataDelimiter_text, Option.map_some, frame]

theorem headerLen_frame : spelling.frame.headerLen.toNat = spelling.header.length := by
  have short := grammatical.headerShort
  simp only [srrpHeaderLen] at short
  simp only [Frame.headerLen, Frame.header, frame, UInt32.ofInt, UInt32.toNat_ofNat']
  omega

theorem len_frame : spelling.frame.len.toUInt16.toNat = spelling.declared := by
  have small := grammatical.declared_lt
  have word : spelling.declared < 2 ^ 32 := Nat.lt_trans small (by decide)
  have len : numberWord spelling.len = UInt32.ofNat spelling.declared := unsignedWord_small word
  simp only [frame, fields, len, UInt32.toNat_toUInt16, UInt32.toNat_ofNat']
  omega

/-- The decoders count one digit of the seqno and four of each id. -/
theorem wellPlaced_iff {text : CString} (spelled : spelling.text = text.chars)
    (declares : spelling.declared = text.length + 1) :
    WellPlaced text ↔ spelling.seqno.length + spelling.ids.flatten.length = 1 + 4 * spelling.ids.length := by
  rcases grammatical.frameOf_text spelled with ⟨kind, announced, found⟩
  have small := grammatical.declared_lt
  have fixed : kind.fixed = 10 + 5 * spelling.ids.length := by
    rw [grammatical.idsForKind]
    exact fixed_kindOfLeader announced
  have ids : ∀ ids : List (List UInt8), (ids.flatMap (44 :: ·)).length = ids.length + ids.flatten.length := by
    intro ids
    induction ids with
    | nil => rfl
    | cons id ids inductionHypothesis =>
        simp only [List.flatMap_cons, List.length_append, List.length_cons, List.flatten_cons, inductionHypothesis]
        omega
  have header : spelling.frame.header =
      9 + spelling.seqno.length + spelling.ids.length + spelling.ids.flatten.length := by
    have literal : (ascii ",$,").length = 3 := by decide
    simp only [Frame.header, frame, front, List.length_cons, List.length_append, literal, grammatical.lenDigits, ids]
    omega
  constructor
  · intro placed
    have place := (placed kind spelling.frame found).1
    omega
  · intro digits other frame same
    cases found.symm.trans same
    exact ⟨by omega, by omega⟩

end Grammatical
end Spelling

/-! ## The exact condition -/

theorem returns_iff (text : CString) :
    (∀ beyond rest, srrpReadOnePacket beyond (text.chars ++ 0 :: rest) ≠ .overflow) ↔ HeaderFits text := by
  constructor
  · intro returns kind frame found
    by_contra long
    have terminated := srrpReadOnePacket_terminated (fun _ => 0) (fun _ => 0) text []
    rw [(read_of_frameOf found _).1.mpr (Nat.lt_of_not_le long)] at terminated
    exact returns _ _ terminated
  · intro fits beyond rest overflows
    have terminated := srrpReadOnePacket_terminated beyond beyond text rest
    cases found : frameOf text with
    | none =>
        rw [read_of_frameOf_none found beyond] at terminated
        cases overflows.symm.trans terminated
    | some pair =>
        have short : ¬ srrpHeaderLen < pair.2.headerLen.toNat := Nat.not_lt_of_le (fits pair.1 pair.2 found)
        cases stored : srrpReadOnePacket beyond text.stored with
        | overflow => exact short ((read_of_frameOf found beyond).1.mp stored)
        | null =>
            rw [stored] at terminated
            cases overflows.symm.trans terminated
        | packet pac =>
            rw [stored] at terminated
            rcases terminated with ⟨_, accepted⟩
            cases overflows.symm.trans accepted

private theorem lands_iff (text : CString) :
    (∀ beyond rest pac, srrpReadOnePacket beyond (text.chars ++ 0 :: rest) = .packet pac ->
      pac.len.toNat = text.length + 1 ∧ (text.chars ++ 0 :: rest).drop pac.len.toNat = rest) ↔
      WellPlaced text ∨ ¬ DeclaresShifted text := by
  constructor
  · intro lands
    by_cases shifted : DeclaresShifted text
    case neg => exact Or.inr shifted
    case pos =>
      rcases shifted with ⟨kind, frame, found, fits, declared⟩
      rcases accepted_of_declared found fits declared (fun _ => 0) [] with ⟨pac, accepted⟩
      have len := (lands _ _ pac accepted).1
      have counted := (accepted_len found accepted).2.2
      have inText := frameOf_bounds found
      have half : pac.len.toNat < 65536 := pac.len.toNat_lt
      have small := fixed_of_frameOf found
      refine Or.inl fun other frame' same => ?_
      cases found.symm.trans same
      exact ⟨by omega, by omega⟩
  · intro condition beyond rest pac accepted
    rcases frameOf_of_accepted accepted with ⟨kind, frame, found⟩
    rcases accepted_len found accepted with ⟨len, fits, counted⟩
    have exact_len : pac.len.toNat = text.length + 1 := by
      rcases condition with placed | unshifted
      · rcases placed kind frame found with ⟨header, word⟩
        omega
      · rw [len] at counted
        exact absurd ⟨kind, frame, found, fits, counted⟩ unshifted
    refine ⟨exact_len, ?_⟩
    rw [exact_len]
    have stored : text.chars ++ 0 :: rest = text.stored ++ rest := by simp [CString.stored]
    rw [stored]
    exact List.drop_left' text.length_stored

private theorem accepts_iff (text : CString) :
    (SinglePacket text -> ∀ beyond rest, ∃ pac, srrpReadOnePacket beyond (text.chars ++ 0 :: rest) = .packet pac) ↔
      WellPlaced text ∨ ¬ SinglePacket text := by
  by_cases single : SinglePacket text
  case neg => exact iff_of_true (fun always => absurd always single) (Or.inr single)
  case pos =>
    rcases single with ⟨spelling, grammatical, spelled, declares⟩
    rcases grammatical.frameOf_text spelled with ⟨kind, _, found⟩
    have small := grammatical.declared_lt
    have len := grammatical.len_frame
    have count := fixed_of_frameOf found
    have inText := frameOf_bounds found
    constructor
    · intro accepts
      rcases accepts ⟨spelling, grammatical, spelled, declares⟩ (fun _ => 0) [] with ⟨pac, accepted⟩
      have counted := (accepted_len found accepted).2.2
      rw [(accepted_len found accepted).1] at counted
      refine Or.inl fun other frame same => ?_
      cases found.symm.trans same
      exact ⟨by omega, by omega⟩
    · intro condition _
      rcases condition with placed | never
      · have header := (placed kind spelling.frame found).1
        have short := grammatical.headerShort
        apply accepted_of_declared found
        · rw [grammatical.headerLen_frame]
          exact Nat.le_of_lt short
        · omega
      · exact absurd ⟨spelling, grammatical, spelled, declares⟩ never

/-- The length a text declares frames it when its header fits the array and
starts where the decoder counts, and otherwise, with a header that fits, only
when the text declares neither its length less the shift nor, as a packet of the
grammar, its length. -/
theorem framed_iff (text : CString) :
    Framed text ↔ HeaderFits text ∧ (WellPlaced text ∨ (¬ DeclaresShifted text ∧ ¬ SinglePacket text)) := by
  rw [or_and_left, ← returns_iff, ← lands_iff, ← accepts_iff]
  exact ⟨fun framed => ⟨framed.returns, framed.lands, framed.accepts⟩,
    fun ⟨returns, lands, accepts⟩ => ⟨returns, lands, accepts⟩⟩

/-- A request whose seqno has two digits, with its own length. -/
def twoDigits : CString := ⟨ascii ">10,$,0018,0001:/2/a?{}", by decide +kernel⟩

private def twoDigitsSpelling : Spelling where
  leader := srrpRequestLeader
  seqno := ascii "10"
  len := ascii "0018"
  ids := [ascii "0001"]
  header := ascii "/2/a"
  data := ascii "{}"

/-- The reader refuses it. -/
theorem twoDigits_not_framed : ¬ ∀ text, Framed text := by
  intro always
  have grammatical : twoDigitsSpelling.Grammatical := by
    constructor <;> decide +kernel
  have spelled : twoDigitsSpelling.text = twoDigits.chars ∧ twoDigitsSpelling.declared = twoDigits.length + 1 := by
    decide +kernel
  have single : SinglePacket twoDigits := ⟨twoDigitsSpelling, grammatical, spelled.1, spelled.2⟩
  rcases (always twoDigits).accepts single (fun _ => 0) [] with ⟨pac, accepted⟩
  have refused : srrpReadOnePacket (fun _ => 0) (twoDigits.chars ++ [0]) = .null := by decide +kernel
  cases accepted.symm.trans refused

end Srrp
end Extlib
