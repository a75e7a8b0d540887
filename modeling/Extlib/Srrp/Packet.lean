import Extlib.Text.Scanning

namespace Extlib
namespace Srrp

open Text

/-!
# Packets of the simple request response protocol

`struct srrp_packet` and the five functions that build one.  A packet is kept
as the C code keeps it: the decoded fields next to the raw bytes, with `data`
an offset into `raw` (the source stores a pointer there).  The header array
holds a string of at most `SRRP_HEADER_LEN` bytes; the proof field is the
size of the array, so that no value of the type stands for a packet whose
header was written past its end.
-/

def srrpRequestLeader : UInt8 := 62      -- '>'
def srrpResponseLeader : UInt8 := 60     -- '<'
def srrpSubscribeLeader : UInt8 := 35    -- '#'
def srrpUnsubscribeLeader : UInt8 := 37  -- '%'
def srrpPublishLeader : UInt8 := 64      -- '@'

/-- `SRRP_END_PACKET`. -/
def srrpEndPacket : UInt8 := 36          -- '$'

def srrpHeaderLen : Nat := 128
def srrpLengthMax : Nat := 4096

structure SrrpPacket where
  leader : UInt8
  seat : UInt8
  seqno : UInt16
  len : UInt16
  srcid : UInt16
  reqcrc16 : UInt16
  header : CString
  headerLen : UInt32
  data : Nat
  dataLen : UInt32
  raw : List UInt8
  headerFits : header.length ≤ srrpHeaderLen
  deriving DecidableEq, Repr

namespace SrrpPacket

/-- `pac->data` read as a string. -/
def dataText (pac : SrrpPacket) : CString := CString.ofMemory (pac.raw.drop pac.data)

/-- The `data_len` bytes from `pac->data` on.  A packet accepted with a length
that is too small for its text has fewer bytes in `raw`; the reads then go on
behind the allocation, and `beyond` is what they find. -/
def dataBytes (beyond : Nat -> UInt8) (pac : SrrpPacket) : List UInt8 :=
  let stored := (pac.raw.drop pac.data).take pac.dataLen.toNat
  stored ++ (List.range (pac.dataLen.toNat - stored.length)).map beyond

end SrrpPacket

/-- `snprintf` into a buffer of `size` bytes: what it stores, and the length
of the whole text. -/
def snprintf (size : Nat) (text : List UInt8) : List UInt8 × Nat :=
  (text.take (size - 1) ++ [0], text.length)

/-- The text of a frame: the leader, `0,$,`, the length, the ids, the header
and the data. -/
def frameText (leader : UInt8) (len : Nat) (ids : List UInt16) (header data : List UInt8) :
    List UInt8 :=
  leader :: ascii "0,$," ++ formatHex 4 len ++ ids.flatMap (fun id => 44 :: formatHex 4 id.toNat) ++
    58 :: header ++ 63 :: data

/-- The body shared by the five writers.  `fixed` is the length they count for
everything before the header, and a failed assertion yields `none`.  (`len`
is an `int` in the source; strings of 2 GiB, where it would wrap, are not
represented.) -/
def srrpWrite (leader : UInt8) (fixed : Nat) (ids : List UInt16) (srcid reqcrc16 : UInt16)
    (header data : CString) : Option SrrpPacket :=
  let len := fixed + header.length + 1 + data.length + 1
  if len < srrpLengthMax - 4 then
    let (raw, nr) := snprintf len (frameText leader len ids header.chars data.chars)
    if nr + 1 = len then
      some
        { leader := leader
          seat := srrpEndPacket
          seqno := 0
          len := UInt16.ofNat len
          srcid := srcid
          reqcrc16 := reqcrc16
          header := header.slice 0 (srrpHeaderLen - 1)
          headerLen := UInt32.ofNat header.length
          data := len - data.length - 1
          dataLen := UInt32.ofNat data.length
          raw := raw
          headerFits := by
            simp only [CString.length, CString.slice_chars, List.length_take, srrpHeaderLen]
            omega }
    else none
  else none

def srrpWriteRequest (srcid : UInt16) (header data : CString) : Option SrrpPacket :=
  srrpWrite srrpRequestLeader 15 [srcid] srcid 0 header data

def srrpWriteResponse (srcid reqcrc16 : UInt16) (header data : CString) : Option SrrpPacket :=
  srrpWrite srrpResponseLeader (15 + 5) [srcid, reqcrc16] srcid reqcrc16 header data

def srrpWriteSubscribe (header ctrl : CString) : Option SrrpPacket :=
  srrpWrite srrpSubscribeLeader 10 [] 0 0 header ctrl

/-- The control text is always `{}`. -/
def srrpWriteUnsubscribe (header : CString) : Option SrrpPacket :=
  srrpWrite srrpUnsubscribeLeader 10 [] 0 0 header ⟨ascii "{}", by decide⟩

def srrpWritePublish (header data : CString) : Option SrrpPacket :=
  srrpWrite srrpPublishLeader 10 [] 0 0 header data

/-- A call of one of the writers with its arguments. -/
inductive WriteCall where
  | request (srcid : UInt16) (header data : CString)
  | response (srcid reqcrc16 : UInt16) (header data : CString)
  | subscribe (header ctrl : CString)
  | unsubscribe (header : CString)
  | publish (header data : CString)
  deriving DecidableEq, Repr

namespace WriteCall

/-- The packet the call returns, unless an assertion fails. -/
def packet : WriteCall -> Option SrrpPacket
  | request srcid header data => srrpWriteRequest srcid header data
  | response srcid reqcrc16 header data => srrpWriteResponse srcid reqcrc16 header data
  | subscribe header ctrl => srrpWriteSubscribe header ctrl
  | unsubscribe header => srrpWriteUnsubscribe header
  | publish header data => srrpWritePublish header data

def header : WriteCall -> CString
  | request _ header _ => header
  | response _ _ header _ => header
  | subscribe header _ => header
  | unsubscribe header => header
  | publish header _ => header

def data : WriteCall -> CString
  | request _ _ data => data
  | response _ _ _ data => data
  | subscribe _ ctrl => ctrl
  | unsubscribe _ => ⟨ascii "{}", by decide⟩
  | publish _ data => data

/-- The shapes the protocol documents: a header that starts with a slash, does
not contain the data delimiter and fits the array with its terminator, and
data (or control text) that starts with a brace. -/
structure Documented (call : WriteCall) : Prop where
  headerStart : call.header.chars.head? = some 47
  headerDelimiterFree : ¬ ascii "?\x7b" <:+: call.header.chars
  headerShort : call.header.length < srrpHeaderLen
  dataStart : call.data.chars.head? = some 123

/-- What the three kinds of frame differ in. -/
def leader : WriteCall -> UInt8
  | request .. => srrpRequestLeader
  | response .. => srrpResponseLeader
  | subscribe .. => srrpSubscribeLeader
  | unsubscribe .. => srrpUnsubscribeLeader
  | publish .. => srrpPublishLeader

def ids : WriteCall -> List UInt16
  | request srcid _ _ => [srcid]
  | response srcid reqcrc16 _ _ => [srcid, reqcrc16]
  | _ => []

def srcid : WriteCall -> UInt16
  | request srcid _ _ => srcid
  | response srcid _ _ _ => srcid
  | _ => 0

def reqcrc16 : WriteCall -> UInt16
  | response _ reqcrc16 _ _ => reqcrc16
  | _ => 0

/-- The length of everything before the header. -/
def fixed (call : WriteCall) : Nat := 10 + 5 * call.ids.length

/-- The declared length: that of the text and its NUL. -/
def len (call : WriteCall) : Nat := call.fixed + call.header.length + 1 + call.data.length + 1

theorem packet_eq_srrpWrite (call : WriteCall) :
    call.packet = srrpWrite call.leader call.fixed call.ids call.srcid call.reqcrc16
      call.header call.data := by
  cases call <;> rfl

/-- The text of the frame the call writes. -/
def text (call : WriteCall) : List UInt8 :=
  frameText call.leader call.len call.ids call.header.chars call.data.chars

end WriteCall

/-! ## The frame text piece by piece -/

section FrameText

variable (leader : UInt8) (len : Nat) (ids : List UInt16)

/-- Everything before the colon. -/
def framePrefix : List UInt8 :=
  leader :: ascii "0,$," ++ formatHex 4 len ++ ids.flatMap (fun id => 44 :: formatHex 4 id.toNat)

theorem frameText_eq (header data : List UInt8) :
    frameText leader len ids header data = framePrefix leader len ids ++ 58 :: (header ++ 63 :: data) := by
  simp [frameText, framePrefix]

private theorem length_ids (ids : List UInt16) :
    (ids.flatMap (fun id => 44 :: formatHex 4 id.toNat)).length = 5 * ids.length := by
  induction ids with
  | nil => rfl
  | cons id ids inductionHypothesis =>
      have digits : (formatHex 4 id.toNat).length = 4 := length_formatHex id.toNat_lt
      simp only [List.flatMap_cons, List.length_append, List.length_cons, digits, inductionHypothesis]
      omega

theorem length_framePrefix (fits : len < 65536) :
    (framePrefix leader len ids).length = 9 + 5 * ids.length := by
  have digits : (formatHex 4 len).length = 4 := length_formatHex (by simpa using fits)
  simp only [framePrefix, List.length_append, List.length_cons, digits, length_ids]
  have literal : (ascii "0,$,").length = 4 := by decide
  omega

/-- A character other than the leader, the four fixed ones and the hexadecimal
digits is not in front of the colon. -/
theorem not_mem_framePrefix {other : UInt8} (notLeader : other ≠ leader)
    (notFixed : other ∉ ascii "0,$,") (unread : hexValue other = none) :
    other ∉ framePrefix leader len ids := by
  have notDigit : ∀ {precision value : Nat}, other ∉ formatHex precision value :=
    fun member => ne_of_mem_formatHex member unread rfl
  have notComma : other ≠ 44 := by
    rintro rfl
    exact notFixed (by decide)
  simp only [framePrefix, List.cons_append, List.mem_cons, List.mem_append, List.mem_flatMap, not_or]
  refine ⟨notLeader, ⟨notFixed, notDigit⟩, ?_⟩
  rintro ⟨id, _, comma | digit⟩
  · exact notComma comma
  · exact notDigit digit

end FrameText

namespace WriteCall

theorem length_text {call : WriteCall} (fits : call.len < 65536) : call.text.length + 1 = call.len := by
  have size := length_framePrefix call.leader call.len call.ids fits
  simp only [text, frameText_eq, List.length_append, List.length_cons, size]
  simp only [len, fixed, CString.length]
  omega

theorem leader_mem (call : WriteCall) : call.leader ∈ ascii "><#%@" := by
  cases call <;> simp only [leader] <;> decide

theorem text_nulFree (call : WriteCall) : (0 : UInt8) ∉ call.text := by
  have leader : (0 : UInt8) ≠ call.leader := by
    intro zero
    have := call.leader_mem
    rw [← zero] at this
    revert this
    decide
  have front := not_mem_framePrefix call.leader call.len call.ids leader (by decide) (by decide)
  simp only [text, frameText_eq, List.mem_append, List.mem_cons, not_or]
  exact ⟨front, by decide, call.header.nulFree, by decide, call.data.nulFree⟩

/-- The packet a call with a short header builds. -/
def written (call : WriteCall) (short : call.header.length < srrpHeaderLen) : SrrpPacket where
  leader := call.leader
  seat := srrpEndPacket
  seqno := 0
  len := UInt16.ofNat call.len
  srcid := call.srcid
  reqcrc16 := call.reqcrc16
  header := call.header
  headerLen := UInt32.ofNat call.header.length
  data := call.fixed + call.header.length + 1
  dataLen := UInt32.ofNat call.data.length
  raw := call.text ++ [0]
  headerFits := Nat.le_of_lt short

/-- A call succeeds exactly within the assertion on the length, and `raw` then
holds the frame and its NUL. -/
theorem packet_eq_some_iff (call : WriteCall) (short : call.header.length < srrpHeaderLen)
    (pac : SrrpPacket) :
    call.packet = some pac ↔ call.len < srrpLengthMax - 4 ∧ call.written short = pac := by
  have whole : call.header.slice 0 (srrpHeaderLen - 1) = call.header := by
    ext1
    simp only [CString.slice_chars, List.drop_zero]
    exact List.take_of_length_le (by unfold CString.length at short; omega)
  have offset : call.len - call.data.length - 1 = call.fixed + call.header.length + 1 := by
    unfold len
    omega
  have lenEq : call.fixed + call.header.length + 1 + call.data.length + 1 = call.len := rfl
  have textEq : frameText call.leader call.len call.ids call.header.chars call.data.chars = call.text := rfl
  rw [packet_eq_srrpWrite]
  simp only [srrpWrite, lenEq, textEq]
  by_cases fits : call.len < srrpLengthMax - 4
  · have size : call.text.length + 1 = call.len :=
      length_text (by simp only [srrpLengthMax] at fits; omega)
    have printed : snprintf call.len call.text = (call.text ++ [0], call.text.length) := by
      simp only [snprintf]
      rw [List.take_of_length_le (by omega)]
    simp only [fits, printed, size, if_true, true_and, Option.some.injEq, whole, offset, written]
  · simp only [fits, if_false, false_and, reduceCtorEq]

end WriteCall

end Srrp
end Extlib
