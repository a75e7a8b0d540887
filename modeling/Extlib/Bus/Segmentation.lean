import Extlib.Bus.Poll
import Extlib.Srrp.RoundTrip

namespace Extlib
namespace Bus

open Text Buffer Srrp Machine World

/-!
# Packets that arrive in pieces

A stream of written packets is cut into chunks, and after each chunk the
buffer is parsed.  The reader sees a C string, so a packet is accepted as soon
as its text is there, with the NUL that the buffer keeps behind the unread
bytes in place of the packet's own.  What is left of the stream then starts
with that NUL.  If the chunk went on, it is skipped with the packet; if the
chunk ended there, it stays in front of everything that follows.
-/

/-- One chunk: the receiving branch of `unix_poll`, and `parse_packet`. -/
def deliverChunk (host : Host) (state : World × SinkFd) (chunk : List UInt8) : World × SinkFd :=
  match atbufWriteAdvance (atbufFill state.2.rxbuf chunk) chunk.length with
  | none => (state.1.stop .assertion, state.2)
  | some rxbuf =>
      parsePacket host state.1.tick { state.2 with rxbuf := rxbuf, tsPollRecv := state.1.timeofday host }

def deliver (host : Host) (state : World × SinkFd) (chunks : List (List UInt8)) : World × SinkFd :=
  chunks.foldl (deliverChunk host) state

/-- The clock between two states does not reach the timeout of the parser. -/
def InTime (host : Host) (before after : World) : Prop :=
  ∀ reading, before.reads ≤ reading -> reading ≤ after.reads ->
    host.clock reading / 1000000 < before.timeofday host / 1000000 + parsePacketTimeout / 1000

/-- The chunks are nonempty, smaller than the spare room they find, and parsed
in time. -/
def Admissible (host : Host) : World × SinkFd -> List (List UInt8) -> Prop
  | _, [] => True
  | state, chunk :: chunks =>
      (chunk ≠ [] ∧ chunk.length < atbufSpare state.2.rxbuf ∧
        InTime host state.1 (deliverChunk host state chunk).1) ∧
      Admissible host (deliverChunk host state chunk) chunks

/-- The bytes of the packets, NULs included. -/
def streamOf (packets : List WrittenPacket) : List UInt8 := packets.flatMap (·.pac.raw)

theorem streamOf_cons (written : WrittenPacket) (packets : List WrittenPacket) :
    streamOf (written :: packets) = written.pac.raw ++ streamOf packets := List.flatMap_cons

/-- All packets are on the bus, and nothing is left unread. -/
structure Delivered (packets : List WrittenPacket) (before after : World × SinkFd) : Prop where
  enqueued : Enqueued before.1 (packets.map (·.pac)) after.1
  consumed : after.2.rxbuf.unread = []

/-- The stream is cut in front of the NUL of a packet. -/
def CutBeforeNul (chunks : List (List UInt8)) : Prop := ∃ chunk ∈ chunks, chunk.head? = some 0

instance (chunks : List (List UInt8)) : Decidable (CutBeforeNul chunks) :=
  inferInstanceAs (Decidable (∃ chunk ∈ chunks, chunk.head? = some 0))

section Delivery

variable {host : Host}

/-- A receive of `unix_poll` and the parse after it deliver the chunk. -/
theorem deliverChunk_eq {input : PollInput} {state : SelectState} {sinkfd : SinkFd} {chunk : List UInt8}
    (answered : input.recv sinkfd.fd.num = some chunk) (some_bytes : chunk ≠ [])
    (room : chunk.length < atbufSpare sinkfd.rxbuf) (valid : sinkfd.rxbuf.Valid) :
    ∃ received, (receiveFd host input state sinkfd).2 = some received ∧
      deliverChunk host (state.world, sinkfd) chunk =
        parsePacket host (receiveFd host input state sinkfd).1.world received := by
  have inside : sinkfd.rxbuf.offsetIn + chunk.length < atbufSize sinkfd.rxbuf := by
    unfold atbufSpare at room
    omega
  have whole : chunk.take (atbufSpare sinkfd.rxbuf) = chunk := List.take_of_length_le (Nat.le_of_lt room)
  rcases atbufFill_writeAdvance valid.ordered chunk inside with ⟨filled, advanced, _⟩
  simp only [receiveFd, answered, whole, some_bytes, if_false, advanced, deliverChunk]
  exact ⟨_, rfl, rfl⟩

/-! ## The parser on the front of a stream -/

/-- The parser waits inside a packet, or at the start of one, or at the end of
the stream. -/
def Between (unread rest : List UInt8) (left : List WrittenPacket) : Prop :=
  unread ++ rest = streamOf left ∧ ∀ written ∈ left.head?, unread.length < written.call.text.length

/-- The parser has taken a packet whose NUL has not arrived yet. -/
def Ahead (unread rest : List UInt8) (left : List WrittenPacket) : Prop :=
  unread = [] ∧ rest = 0 :: streamOf left

def Suspended (unread rest : List UInt8) (left : List WrittenPacket) : Prop :=
  Between unread rest left ∨ Ahead unread rest left

theorem text_ne_nil (call : WriteCall) : call.text ≠ [] := by
  simp [WriteCall.text, frameText]

/-- What the first packet and the unread bytes of a stream have in common. -/
theorem stream_cases {unread rest : List UInt8} {written : WrittenPacket} {packets : List WrittenPacket}
    (stream : unread ++ rest = streamOf (written :: packets)) :
    (unread.length < written.call.text.length ∧ unread = written.call.text.take unread.length) ∨
      (unread = written.call.text ∧ rest = 0 :: streamOf packets) ∨
      ∃ more, unread = written.pac.raw ++ more ∧ more ++ rest = streamOf packets := by
  have raw := written.raw_eq
  have split : unread ++ rest = written.call.text ++ 0 :: streamOf packets := by
    rw [stream, streamOf_cons, raw, List.append_assoc]
    rfl
  rcases Nat.lt_trichotomy unread.length written.call.text.length with shorter | same | longer
  · refine Or.inl ⟨shorter, ?_⟩
    have taken := congrArg (List.take unread.length) split
    rw [List.take_left, List.take_append_of_le_length (Nat.le_of_lt shorter)] at taken
    exact taken
  · rcases List.append_inj split same with ⟨text, remains⟩
    exact Or.inr (Or.inl ⟨text, remains⟩)
  · have front : written.pac.raw.length ≤ unread.length := by
      rw [raw, List.length_append, List.length_singleton]
      exact longer
    have stream' := stream.trans (streamOf_cons written packets)
    rcases List.append_eq_append_iff.mp stream' with ⟨between, raw_split, remains⟩ | ⟨more, place, remains⟩
    · have empty : between = [] := by
        have sizes := congrArg List.length raw_split
        rw [List.length_append] at sizes
        exact List.eq_nil_of_length_eq_zero (by omega)
      subst empty
      exact Or.inr (Or.inr ⟨[], by rw [raw_split]; simp, by simpa using remains⟩)
    · exact Or.inr (Or.inr ⟨more, place, remains.symm⟩)

private theorem Suspended.start {rest : List UInt8} {packets : List WrittenPacket}
    (stream : rest = streamOf packets) : Suspended [] rest packets :=
  Or.inl ⟨stream, fun written _ => List.length_pos_iff.mpr (text_ne_nil written.call)⟩

/-- A written packet at the front is taken, NUL and all. -/
theorem parseRound_written (host : Host) (world : World) {sinkfd : SinkFd} {written : WrittenPacket} {more : List UInt8}
    (valid : sinkfd.rxbuf.Valid) (place : sinkfd.rxbuf.unread = written.pac.raw ++ more) :
    ∃ rxbuf : Atbuf, rxbuf.Valid ∧ rxbuf.unread = more ∧
      parseRound host (world, sinkfd) =
        .again (enqueue host world sinkfd.fd written.pac, { sinkfd with rxbuf := rxbuf }) := by
  have some_unread : sinkfd.rxbuf.unread ≠ [] := by
    rw [place]
    exact List.append_ne_nil_of_left_ne_nil written.raw_ne_nil _
  have packet : srrpReadOnePacket (host.behindBuffer world.nodes) (atbufReadPos sinkfd.rxbuf) =
      .packet written.pac := by
    rcases valid.readPos with ⟨behind, memory⟩
    rw [memory, place, List.append_assoc]
    exact written.read_raw _ _
  have advanced := atbufReadAdvance_spec valid written.pac.len.toNat
  refine ⟨_, advanced.1, ?_, parseRound_packet host world valid some_unread packet⟩
  rw [advanced.2.1, place, written.len_toNat, List.drop_left]

/-- A written packet alone is taken and leaves nothing. -/
theorem parsePacket_written (host : Host) (world : World) {sinkfd : SinkFd} {written : WrittenPacket}
    (valid : sinkfd.rxbuf.Valid) (place : sinkfd.rxbuf.unread = written.pac.raw) :
    ∃ rxbuf : Atbuf, rxbuf.Valid ∧ rxbuf.unread = [] ∧
      parsePacket host world sinkfd =
        (enqueue host world sinkfd.fd written.pac, { sinkfd with rxbuf := rxbuf }) := by
  rcases parseRound_written host world valid (place.trans (List.append_nil _).symm) with
    ⟨rxbuf, stillValid, unread, round⟩
  have used : atbufUsed sinkfd.rxbuf = atbufUsed sinkfd.rxbuf - 1 + 1 := by
    have some_byte := List.length_pos_iff.mpr written.raw_ne_nil
    rw [← valid.length_unread, place]
    omega
  refine ⟨rxbuf, stillValid, unread, ?_⟩
  rw [parsePacket, used, repeatUpTo, round]
  exact parseRounds_empty _ stillValid unread

/-- A written packet whose NUL has not arrived is taken too: the NUL that the
buffer keeps behind the unread bytes stands in for it. -/
theorem parseRound_text (host : Host) (world : World) {sinkfd : SinkFd} {written : WrittenPacket}
    (valid : sinkfd.rxbuf.Valid) (text : sinkfd.rxbuf.unread = written.call.text) :
    ∃ rxbuf : Atbuf, rxbuf.Valid ∧ rxbuf.unread = [] ∧
      parseRound host (world, sinkfd) =
        .again (enqueue host world sinkfd.fd written.pac, { sinkfd with rxbuf := rxbuf }) := by
  have packet : srrpReadOnePacket (host.behindBuffer world.nodes) (atbufReadPos sinkfd.rxbuf) =
      .packet written.pac := by
    rcases valid.readPos with ⟨behind, memory⟩
    have whole := written.read_raw (host.behindBuffer world.nodes) behind
    rw [written.raw_eq, List.append_assoc] at whole
    rw [memory, text]
    exact whole
  have advanced := atbufReadAdvance_spec valid written.pac.len.toNat
  refine ⟨_, advanced.1, ?_, parseRound_packet host world valid (text ▸ text_ne_nil written.call) packet⟩
  rw [advanced.2.1, text, written.len_toNat, written.raw_eq]
  exact List.drop_eq_nil_of_le (by simp)

/-- The parser takes packets from the front of a stream until it has to wait. -/
theorem parseRounds_suspended {rest : List UInt8} (rounds : Nat) :
    ∀ (world : World) (sinkfd : SinkFd) (packets : List WrittenPacket), sinkfd.rxbuf.Valid ->
      sinkfd.rxbuf.unread.length ≤ rounds -> sinkfd.rxbuf.unread ++ rest = streamOf packets ->
      (∀ reading, world.reads ≤ reading ->
        reading ≤ (repeatUpTo (parseRound host) rounds (world, sinkfd)).1.reads ->
        host.clock reading / 1000000 < sinkfd.tsPollRecv / 1000000 + parsePacketTimeout / 1000) ->
      ∃ taken left, packets = taken ++ left ∧
        Enqueued world (taken.map (·.pac)) (repeatUpTo (parseRound host) rounds (world, sinkfd)).1 ∧
        (repeatUpTo (parseRound host) rounds (world, sinkfd)).2.rxbuf.Valid ∧
        Suspended (repeatUpTo (parseRound host) rounds (world, sinkfd)).2.rxbuf.unread rest left := by
  induction rounds with
  | zero =>
      intro world sinkfd packets valid fits stream _
      have empty : sinkfd.rxbuf.unread = [] := List.eq_nil_of_length_eq_zero (Nat.le_zero.mp fits)
      rw [empty] at stream
      exact ⟨[], packets, rfl, .nothing rfl rfl rfl rfl, valid, empty ▸ .start stream⟩
  | succ rounds inductionHypothesis =>
      intro world sinkfd packets valid fits stream inTime
      by_cases empty : sinkfd.rxbuf.unread = []
      · rw [parseRounds_empty _ valid empty]
        rw [empty] at stream
        exact ⟨[], packets, rfl, .nothing rfl rfl rfl rfl, valid, empty ▸ .start stream⟩
      · cases packets with
        | nil => exact absurd (List.append_eq_nil_iff.mp stream).1 empty
        | cons written packets =>
            rcases stream_cases stream with ⟨shorter, cut⟩ | ⟨text, remains⟩ | ⟨more, place, remains⟩
            · have later := parseRounds_reads host (rounds + 1) (world, sinkfd)
              have soon : world.time host < sinkfd.tsPollRecv / 1000000 + parsePacketTimeout / 1000 :=
                inTime world.reads (Nat.le_refl _) later
              have null := parseRound_null host world valid empty
                (by rw [cut]; exact fun beyond behind => written.read_take shorter beyond behind)
              rw [if_pos soon] at null
              simp only [repeatUpTo, null]
              exact ⟨[], written :: packets, rfl, .nothing rfl rfl rfl rfl, valid,
                Or.inl ⟨stream, by simpa using shorter⟩⟩
            · rcases parseRound_text host world valid text with ⟨rxbuf, stillValid, unread, round⟩
              simp only [repeatUpTo, round]
              rw [parseRounds_empty rounds (by exact stillValid) (by exact unread)]
              exact ⟨[written], packets, rfl, enqueue_enqueued host world sinkfd.fd written.pac, stillValid,
                Or.inr ⟨unread, remains⟩⟩
            · rcases parseRound_written host world valid place with ⟨rxbuf, stillValid, unread, round⟩
              have shrinks : more.length ≤ rounds := by
                have sizes := congrArg List.length place
                have nonempty := List.length_pos_iff.mpr written.raw_ne_nil
                rw [List.length_append] at sizes
                omega
              simp only [repeatUpTo, round] at inTime ⊢
              rcases inductionHypothesis (enqueue host world sinkfd.fd written.pac)
                { sinkfd with rxbuf := rxbuf } packets stillValid (unread ▸ shrinks) (unread ▸ remains)
                (fun reading after => inTime reading (Nat.le_trans (enqueue_reads ..) after)) with
                ⟨taken, left, split, enqueued, finallyValid, suspended⟩
              exact ⟨written :: taken, left, by rw [split]; rfl,
                (enqueue_enqueued host world sinkfd.fd written.pac).trans enqueued, finallyValid, suspended⟩

/-! ## One chunk -/

/-- The chunk joins the unread bytes and is parsed. -/
private theorem deliverChunk_filled (host : Host) {state : World × SinkFd} {chunk : List UInt8} (valid : state.2.rxbuf.Valid)
    (room : chunk.length < atbufSpare state.2.rxbuf) :
    ∃ rxbuf : Atbuf, rxbuf.Valid ∧ rxbuf.unread = state.2.rxbuf.unread ++ chunk ∧
      deliverChunk host state chunk =
        parsePacket host state.1.tick
          { state.2 with rxbuf := rxbuf, tsPollRecv := state.1.timeofday host } := by
  have inside : state.2.rxbuf.offsetIn + chunk.length < atbufSize state.2.rxbuf := by
    unfold atbufSpare at room
    omega
  rcases atbufFill_writeAdvance valid.ordered chunk inside with ⟨rxbuf, advanced, filledValid, joined, _⟩
  exact ⟨rxbuf, filledValid, joined, by simp only [deliverChunk, advanced]⟩

/-- A chunk that does not start with a NUL takes the parser from one waiting
place to another. -/
theorem deliverChunk_suspended {state : World × SinkFd} {chunk rest : List UInt8} {packets : List WrittenPacket}
    (valid : state.2.rxbuf.Valid) (some_bytes : chunk ≠ [])
    (room : chunk.length < atbufSpare state.2.rxbuf)
    (inTime : InTime host state.1 (deliverChunk host state chunk).1) (no_nul : chunk.head? ≠ some 0)
    (suspended : Suspended state.2.rxbuf.unread (chunk ++ rest) packets) :
    ∃ taken left, packets = taken ++ left ∧
      Enqueued state.1 (taken.map (·.pac)) (deliverChunk host state chunk).1 ∧
      (deliverChunk host state chunk).2.rxbuf.Valid ∧
      Suspended (deliverChunk host state chunk).2.rxbuf.unread rest left := by
  rcases suspended with ⟨stream, _⟩ | ⟨_, ahead⟩
  · rcases deliverChunk_filled host valid room with ⟨rxbuf, filledValid, joined, delivered⟩
    rw [delivered] at inTime ⊢
    rcases parseRounds_suspended (atbufUsed rxbuf) state.1.tick
      { state.2 with rxbuf := rxbuf, tsPollRecv := state.1.timeofday host } packets filledValid
      (Nat.le_of_eq filledValid.length_unread) (by rw [joined, List.append_assoc]; exact stream)
      (fun reading after => inTime reading (Nat.le_of_succ_le after)) with
      ⟨taken, left, split, enqueued, stillValid, suspended⟩
    have ticked : Enqueued state.1 [] state.1.tick := .nothing rfl rfl rfl rfl
    exact ⟨taken, left, split, ticked.trans enqueued, stillValid, suspended⟩
  · cases chunk with
    | nil => exact absurd rfl some_bytes
    | cons head tail =>
        have first : head = 0 := (List.cons_eq_cons.mp ahead).1
        exact absurd (congrArg some first) no_nul

/-- A NUL in front of the unread bytes stays there. -/
theorem deliverChunk_stuck {state : World × SinkFd} {chunk : List UInt8} (valid : state.2.rxbuf.Valid)
    (room : chunk.length < atbufSpare state.2.rxbuf)
    (inTime : InTime host state.1 (deliverChunk host state chunk).1)
    (nul : (state.2.rxbuf.unread ++ chunk).head? = some 0) :
    (deliverChunk host state chunk).2.rxbuf.Valid ∧
      (deliverChunk host state chunk).2.rxbuf.unread.head? = some 0 := by
  rcases deliverChunk_filled host valid room with ⟨rxbuf, filledValid, joined, delivered⟩
  rw [← joined] at nul
  have some_unread : rxbuf.unread ≠ [] := by
    intro empty
    rw [empty] at nul
    cases nul
  have null : ∀ beyond behind, srrpReadOnePacket beyond (rxbuf.unread ++ 0 :: behind) = .null := by
    intro beyond behind
    rw [srrpReadOnePacket_eq, List.head?_append_of_ne_nil _ some_unread, nul]
    rfl
  rw [delivered] at inTime ⊢
  have parsed : parsePacket host state.1.tick
      { state.2 with rxbuf := rxbuf, tsPollRecv := state.1.timeofday host } = _ :=
    parsePacket_null host state.1.tick filledValid some_unread null
  have soon : state.1.tick.time host <
      state.1.timeofday host / 1000000 + parsePacketTimeout / 1000 := by
    refine inTime _ (Nat.le_succ _) ?_
    exact parseRounds_reads host _ (state.1.tick, _)
  rw [if_pos soon] at parsed
  rw [parsed]
  exact ⟨filledValid, nul⟩

/-! ## The whole stream -/

private theorem deliver_cons (state : World × SinkFd) (chunk : List UInt8) (chunks : List (List UInt8)) :
    deliver host state (chunk :: chunks) = deliver host (deliverChunk host state chunk) chunks := rfl

/-- Without a cut in front of a NUL every packet is taken. -/
theorem deliver_uncut (chunks : List (List UInt8)) :
    ∀ (state : World × SinkFd) (packets : List WrittenPacket), state.2.rxbuf.Valid ->
      Admissible host state chunks -> ¬ CutBeforeNul chunks ->
      Suspended state.2.rxbuf.unread chunks.flatten packets ->
      Delivered packets state (deliver host state chunks) := by
  induction chunks with
  | nil =>
      intro state packets valid _ _ suspended
      rcases suspended with ⟨stream, short⟩ | ⟨_, ahead⟩
      · rw [List.flatten_nil, List.append_nil] at stream
        cases packets with
        | nil => exact ⟨.nothing rfl rfl rfl rfl, stream⟩
        | cons written packets =>
            have shorter := short written rfl
            have longer := congrArg List.length stream
            rw [streamOf_cons, written.raw_eq] at longer
            simp only [List.length_append] at longer
            omega
      · cases ahead
  | cons chunk chunks inductionHypothesis =>
      intro state packets valid admissible uncut suspended
      rcases admissible with ⟨⟨some_bytes, room, inTime⟩, later⟩
      have no_nul : chunk.head? ≠ some 0 := fun nul => uncut ⟨chunk, List.mem_cons_self, nul⟩
      have still_uncut : ¬ CutBeforeNul chunks :=
        fun ⟨other, member, nul⟩ => uncut ⟨other, List.mem_cons_of_mem _ member, nul⟩
      rcases deliverChunk_suspended valid some_bytes room inTime no_nul suspended with
        ⟨taken, left, split, enqueued, stillValid, stillSuspended⟩
      have delivered := inductionHypothesis _ left stillValid later still_uncut stillSuspended
      refine ⟨?_, delivered.consumed⟩
      rw [split, List.map_append]
      exact enqueued.trans delivered.enqueued

private theorem deliver_stuck (chunks : List (List UInt8)) :
    ∀ state : World × SinkFd, state.2.rxbuf.Valid -> Admissible host state chunks ->
      state.2.rxbuf.unread.head? = some 0 -> (deliver host state chunks).2.rxbuf.unread.head? = some 0 := by
  induction chunks with
  | nil => exact fun _ _ _ nul => nul
  | cons chunk chunks inductionHypothesis =>
      intro state valid admissible nul
      rcases admissible with ⟨⟨_, room, inTime⟩, later⟩
      have joined : (state.2.rxbuf.unread ++ chunk).head? = some 0 := by
        rw [List.head?_append, nul]
        rfl
      have stuck := deliverChunk_stuck valid room inTime joined
      exact inductionHypothesis _ stuck.1 later stuck.2

/-- Inside a packet there is no NUL to cut in front of. -/
private theorem Between.head_ne {unread chunk rest : List UInt8} {packets : List WrittenPacket}
    (between : Between unread (chunk ++ rest) packets) (some_bytes : chunk ≠ []) : chunk.head? ≠ some 0 := by
  rcases between with ⟨stream, short⟩
  intro nul
  cases packets with
  | nil => exact some_bytes (List.append_eq_nil_iff.mp (List.append_eq_nil_iff.mp stream).2).1
  | cons written packets =>
      have shorter := short written rfl
      have whole : unread ++ (chunk ++ rest) = written.call.text ++ 0 :: streamOf packets := by
        rw [stream, streamOf_cons, written.raw_eq, List.append_assoc]
        rfl
      have next := congrArg (·[unread.length]?) whole
      simp only [List.getElem?_append_right (Nat.le_refl _), Nat.sub_self,
        List.getElem?_append_left shorter] at next
      rw [← List.head?_eq_getElem?, List.head?_append, nul] at next
      exact written.call.text_nulFree (List.mem_of_getElem? next.symm)

/-- With such a cut something is left unread: the NUL is then the first of its
chunk, and nothing is in front of it. -/
theorem deliver_cut (chunks : List (List UInt8)) :
    ∀ (state : World × SinkFd) (packets : List WrittenPacket), state.2.rxbuf.Valid ->
      Admissible host state chunks -> CutBeforeNul chunks ->
      Suspended state.2.rxbuf.unread chunks.flatten packets ->
      (deliver host state chunks).2.rxbuf.unread ≠ [] := by
  induction chunks with
  | nil => exact fun _ _ _ _ cut => absurd cut (by simp [CutBeforeNul])
  | cons chunk chunks inductionHypothesis =>
      intro state packets valid admissible cut suspended
      rcases admissible with ⟨⟨some_bytes, room, inTime⟩, later⟩
      by_cases nul : chunk.head? = some 0
      · have front : (state.2.rxbuf.unread ++ chunk).head? = some 0 := by
          rcases suspended with between | ⟨empty, _⟩
          · exact absurd nul (between.head_ne some_bytes)
          · rw [empty]
            exact nul
        have stuck := deliverChunk_stuck valid room inTime front
        have finally_stuck := deliver_stuck chunks _ stuck.1 later stuck.2
        intro empty
        rw [deliver_cons] at empty
        rw [empty] at finally_stuck
        cases finally_stuck
      · rcases deliverChunk_suspended valid some_bytes room inTime nul suspended with
          ⟨taken, left, split, _, stillValid, stillSuspended⟩
        refine inductionHypothesis _ left stillValid later ?_ stillSuspended
        rcases cut with ⟨other, member, first⟩
        rcases List.mem_cons.mp member with rfl | later_chunk
        · exact absurd first nul
        · exact ⟨other, later_chunk, first⟩

/-- A stream of written packets is delivered, in whatever chunks, exactly when
no chunk starts with the NUL of a packet. -/
theorem deliver_iff (host : Host) (state : World × SinkFd) (packets : List WrittenPacket)
    (chunks : List (List UInt8)) (valid : state.2.rxbuf.Valid) (empty : state.2.rxbuf.unread = [])
    (stream : chunks.flatten = streamOf packets) (admissible : Admissible host state chunks) :
    Delivered packets state (deliver host state chunks) ↔ ¬ CutBeforeNul chunks := by
  have start : Suspended state.2.rxbuf.unread chunks.flatten packets := empty ▸ Suspended.start stream
  constructor
  · exact fun delivered cut => deliver_cut chunks state packets valid admissible cut start delivered.consumed
  · exact fun uncut => deliver_uncut chunks state packets valid admissible uncut start

end Delivery

theorem oneHeader_nulFree : (0 : UInt8) ∉ ascii "/2/a" := by decide

theorem oneData_nulFree : (0 : UInt8) ∉ ascii "{}" := by decide

/-- The header and the data of `oneRequest`. -/
def oneHeader : CString := ⟨ascii "/2/a", oneHeader_nulFree⟩

def oneData : CString := ⟨ascii "{}", oneData_nulFree⟩

private def oneCall : WriteCall := .request 1 oneHeader oneData

private theorem oneCall_documented : oneCall.Documented where
  headerStart := by decide
  headerDelimiterFree := by decide
  headerShort := by decide
  dataStart := by decide

private theorem oneCall_packet : oneCall.packet = some (oneCall.written oneCall_documented.headerShort) := by
  decide +kernel

/-- The packet of `oneRequest`. -/
def oneWritten : WrittenPacket := ⟨oneCall, oneCall_documented, _, oneCall_packet⟩

private def emptySinkfd : SinkFd := newSinkfd apibusNew 4 false .unix

private theorem inTime_still (time : Nat) (before after : World) : InTime (Host.still time) before after :=
  fun _ _ _ => Nat.lt_succ_self _

theorem deliver_iff_oneWritten :
    Delivered [oneWritten] (apibusNew, emptySinkfd)
      (deliver (Host.still 0) (apibusNew, emptySinkfd) [oneRequest.take 5, oneRequest.drop 5]) :=
  (deliver_iff (Host.still 0) (apibusNew, emptySinkfd) [oneWritten] [oneRequest.take 5, oneRequest.drop 5]
    (atbufNew_valid 0) rfl (by decide +kernel)
    ⟨⟨by decide, by decide +kernel, inTime_still _ _ _⟩, ⟨by decide, by decide +kernel, inTime_still _ _ _⟩,
      trivial⟩).mpr (by decide +kernel)

/-- Cut in front of its NUL, the packet leaves the NUL behind. -/
theorem cutBeforeNul_not_delivered :
    ¬ ∀ (host : Host) (state : World × SinkFd) (packets : List WrittenPacket) (chunks : List (List UInt8)),
      state.2.rxbuf.Valid -> state.2.rxbuf.unread = [] -> chunks.flatten = streamOf packets ->
      Admissible host state chunks -> Delivered packets state (deliver host state chunks) := by
  intro always
  have delivered := always (Host.still 0) (apibusNew, emptySinkfd) [oneWritten] [oneRequest.take 22, [0]]
    (atbufNew_valid 0) rfl (by decide +kernel)
    ⟨⟨by decide, by decide +kernel, inTime_still _ _ _⟩, ⟨by decide, by decide +kernel, inTime_still _ _ _⟩, trivial⟩
  have left : (deliver (Host.still 0) (apibusNew, emptySinkfd) [oneRequest.take 22, [0]]).2.rxbuf.unread = [0] := by
    decide +kernel
  cases left.symm.trans delivered.consumed

end Bus
end Extlib
