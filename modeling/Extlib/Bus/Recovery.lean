import Mathlib.Algebra.Order.BigOperators.Group.List
import Extlib.Bus.ParseLoop
import Extlib.Bus.Segmentation
import Extlib.Srrp.Resync

namespace Extlib
namespace Bus

open Text Buffer Srrp Machine World

/-!
# A malformed frame in front of valid packets

Once the timeout has passed, `parse_packet` looks for the next leader in the
text it could not read.  That text ends at the first NUL, while the bytes it
gives up when there is no leader are all that are unread.  So the text leads
back to the packets behind its NUL only if it can be cut so that its last frame
ends with it.  At each of the cuts the reader trusts the declared length, and
`Recovers` asks that the block of the buffer has as many bytes and that the data
of an accepted request is among them.
-/

/-- What is read at the cuts lies inside the block and the copy. -/
def CopiesAlong : Atbuf -> CString -> List Nat -> Prop
  | buf, text, [] => CopiesWithin text (atbufReadPos buf).length
  | buf, text, count :: cuts =>
      CopiesWithin text (atbufReadPos buf).length ∧
        CopiesAlong (atbufReadAdvance buf count) (text.slice count text.length) cuts

instance decidableCopiesAlong : ∀ buf text cuts, Decidable (CopiesAlong buf text cuts)
  | _, _, [] => inferInstanceAs (Decidable (CopiesWithin _ _))
  | buf, text, count :: cuts =>
      have := decidableCopiesAlong (atbufReadAdvance buf count) (text.slice count text.length) cuts
      inferInstanceAs (Decidable (CopiesWithin text _ ∧ _))

/-- The text in front of the buffer can be cut so that its last frame ends with
it, and at no cut is anything read that is not there. -/
def Recovers (buf : Atbuf) (text : CString) : Prop := ∃ cuts, Cut text cuts ∧ CopiesAlong buf text cuts

/-- What is read when the parser comes here is there. -/
def FrontWithin (state : World × SinkFd) : Prop :=
  state.2.rxbuf.unread ≠ [] ->
    CopiesWithin (CString.ofMemory (atbufReadPos state.2.rxbuf)) (atbufReadPos state.2.rxbuf).length

/-- The copies of one visit. -/
def ReadsWithin (host : Host) (start : World × SinkFd) : Prop :=
  ∀ reached, Takes host start reached -> FrontWithin reached

/-- The visits that later polls pay to a sinkfd which receives nothing more. -/
def parseAgain (host : Host) : Nat -> World × SinkFd -> World × SinkFd
  | 0, state => state
  | polls + 1, state =>
      parseAgain host polls (if state.1.stopped.isSome then state else parsePacket host state.1 state.2)

/-- The copies of these visits stay inside the block and the header array, and
their checksums inside the copies. -/
def VisitsWithin (host : Host) : Nat -> World × SinkFd -> Prop
  | 0, _ => True
  | polls + 1, state =>
      (state.1.stopped = none -> ReadsWithin host state) ∧
        VisitsWithin host polls (if state.1.stopped.isSome then state else parsePacket host state.1 state.2)

/-- The packets on the three lists. -/
def pending (world : World) : List SrrpPacket :=
  world.bus.requests.map (·.pac) ++ world.bus.responses.map (·.pac) ++ world.bus.topicMsgs.map (·.pac)

/-- The parse timeout has passed since the last receive. -/
def TimedOut (host : Host) (state : World × SinkFd) : Prop :=
  state.2.tsPollRecv / 1000000 + parsePacketTimeout / 1000 ≤ state.1.time host

instance (host : Host) (state : World × SinkFd) : Decidable (TimedOut host state) :=
  inferInstanceAs (Decidable (_ ≤ _))

/-- The events of the polls give up nothing of the stream. -/
def KeepsStream (stream : List UInt8) (before after : World) : Prop :=
  ∃ new, after.trace = before.trace ++ new ∧ ∀ given left, Event.resync given left ∈ new -> stream <:+ left

section Pending

theorem enqueue_pending (host : Host) (world : World) (fd : Fd) {pac : SrrpPacket}
    (known : pac.leader ∈ packetLeaders) :
    (pending (enqueue host world fd pac)).Perm (pac :: pending world) := by
  unfold enqueue
  split
  · exact .refl _
  · split
    · simp only [pending, addResponse, World.setResponses, List.map_cons, List.append_assoc, List.cons_append]
      exact List.perm_middle
    · split
      · simp only [pending, addTopicMsg, World.setTopicMsgs, List.map_cons]
        exact List.perm_middle
      case isFalse no_request no_response no_topic =>
        simp only [packetLeaders, List.mem_cons, List.not_mem_nil, or_false] at known
        rcases known with request | response | topic
        · exact absurd request no_request
        · exact absurd response no_response
        · exact absurd topic no_topic

theorem enqueue_unknown (host : Host) (world : World) (fd : Fd) {pac : SrrpPacket}
    (unknown : pac.leader ∉ packetLeaders) : enqueue host world fd pac = world := by
  simp only [packetLeaders, List.mem_cons, List.not_mem_nil, or_false, not_or] at unknown
  simp only [enqueue, unknown, if_false, or_self]

/-- A list of pending packets only grows while packets are parsed. -/
theorem enqueue_subperm (host : Host) (world : World) (fd : Fd) (pac : SrrpPacket) :
    (pending world).Subperm (pending (enqueue host world fd pac)) := by
  by_cases known : pac.leader ∈ packetLeaders
  · exact (List.sublist_cons_self pac (pending world)).subperm.trans (enqueue_pending host world fd known).symm.subperm
  · rw [enqueue_unknown host world fd known]

theorem enqueue_trace (host : Host) (world : World) (fd : Fd) (pac : SrrpPacket) :
    ∃ new, (enqueue host world fd pac).trace = world.trace ++ new ∧ ∀ given left, Event.resync given left ∉ new := by
  unfold enqueue
  split
  · exact ⟨_, rfl, by simp⟩
  · split
    · exact ⟨_, rfl, by simp⟩
    · split
      · exact ⟨_, rfl, by simp⟩
      · exact ⟨[], (List.append_nil _).symm, by simp⟩

end Pending

/-! ## From a text that recovers -/

section Recovering

variable {host : Host} {stream : List UInt8} {packets : List WrittenPacket}

theorem KeepsStream.trans {first second third : World} (left : KeepsStream stream first second)
    (right : KeepsStream stream second third) : KeepsStream stream first third := by
  rcases left with ⟨early, firstTrace, firstKeeps⟩
  rcases right with ⟨late, secondTrace, secondKeeps⟩
  refine ⟨early ++ late, by rw [secondTrace, firstTrace, List.append_assoc], ?_⟩
  intro given left member
  exact (List.mem_append.mp member).elim (firstKeeps given left) (secondKeeps given left)

private theorem KeepsStream.quiet {before after : World} (same : after.trace = before.trace) :
    KeepsStream stream before after :=
  ⟨[], by rw [same, List.append_nil], by simp⟩

private theorem enqueue_keeps (host : Host) (world : World) (fd : Fd) (pac : SrrpPacket) :
    KeepsStream stream world (enqueue host world fd pac) := by
  rcases enqueue_trace host world fd pac with ⟨new, trace, received⟩
  exact ⟨new, trace, fun given left member => absurd member (received given left)⟩

/-- All packets have been put on the bus, nothing is unread, and nothing of
the stream was given up. -/
structure Cleared (stream : List UInt8) (packets : List WrittenPacket) (before : World) (after : World × SinkFd) : Prop where
  valid : after.2.rxbuf.Valid
  consumed : after.2.rxbuf.unread = []
  running : after.1.stopped = none
  enqueued : (packets.map (·.pac) ++ pending before).Subperm (pending after.1)
  kept : KeepsStream stream before after.1

/-- What happened before does not take packets away. -/
private theorem Cleared.later {before middle : World} {after : World × SinkFd}
    (cleared : Cleared stream packets middle after) (grown : (pending before).Subperm (pending middle))
    (kept : KeepsStream stream before middle) :
    Cleared stream packets before after where
  valid := cleared.valid
  consumed := cleared.consumed
  running := cleared.running
  enqueued := ((List.subperm_append_left _).mpr grown).trans cleared.enqueued
  kept := kept.trans cleared.kept

/-- A stream of written packets is parsed to its end. -/
theorem parseRounds_cleared (host : Host) (packets : List WrittenPacket) :
    ∀ (rounds : Nat) (world : World) (sinkfd : SinkFd), sinkfd.rxbuf.Valid ->
      sinkfd.rxbuf.unread = streamOf packets -> sinkfd.rxbuf.unread.length ≤ rounds -> world.stopped = none ->
      Cleared stream packets world (repeatUpTo (parseRound host) rounds (world, sinkfd)) := by
  induction packets with
  | nil =>
      intro rounds world sinkfd valid empty _ running
      rw [parseRounds_empty rounds valid empty]
      exact ⟨valid, empty, running, .refl _, .quiet rfl⟩
  | cons written packets inductionHypothesis =>
      intro rounds world sinkfd valid stream fits running
      have place := stream.trans (streamOf_cons written packets)
      have nonempty := List.length_pos_iff.mpr written.raw_ne_nil
      rw [place, List.length_append] at fits
      rcases parseRound_written host world valid place with ⟨rxbuf, stillValid, unread, round⟩
      cases rounds with
      | zero => omega
      | succ rounds =>
          have queued := enqueue_pending host world sinkfd.fd written.leader_mem
          have cleared := inductionHypothesis rounds (enqueue host world sinkfd.fd written.pac)
            { sinkfd with rxbuf := rxbuf } stillValid unread (by rw [unread]; omega)
            ((enqueue_enqueued host world sinkfd.fd written.pac).stopped.trans running)
          simp only [repeatUpTo, round]
          refine ⟨cleared.valid, cleared.consumed, cleared.running, ?_, ?_⟩
          · refine List.Subperm.trans ?_ cleared.enqueued
            refine List.Perm.subperm ?_
            rw [List.map_cons, List.cons_append]
            exact (List.perm_middle.symm).trans (queued.symm.append_left _)
          · exact (enqueue_keeps host world sinkfd.fd written.pac).trans cleared.kept

/-- What the reader finds at the front of a buffer that holds a text. -/
private theorem readPos_front {sinkfd : SinkFd} {text : CString} {rest : List UInt8}
    (valid : sinkfd.rxbuf.Valid) (place : sinkfd.rxbuf.unread = text.stored ++ rest) :
    sinkfd.rxbuf.unread ≠ [] ∧
      ∃ behind, atbufReadPos sinkfd.rxbuf = text.chars ++ 0 :: (rest ++ 0 :: behind) := by
  rcases valid.readPos with ⟨behind, memory⟩
  constructor
  · rw [place]
    simp [CString.stored]
  · refine ⟨behind, ?_⟩
    rw [memory, place, CString.stored]
    simp

private theorem length_front {sinkfd : SinkFd} {text : CString} {rest : List UInt8}
    (place : sinkfd.rxbuf.unread = text.stored ++ rest) :
    sinkfd.rxbuf.unread.length = text.length + 1 + rest.length := by
  rw [place, List.length_append, CString.length_stored]

private theorem ofMemory_front {sinkfd : SinkFd} {text : CString} {rest : List UInt8}
    (valid : sinkfd.rxbuf.Valid) (place : sinkfd.rxbuf.unread = text.stored ++ rest) :
    CString.ofMemory (atbufReadPos sinkfd.rxbuf) = text := by
  rcases readPos_front valid place with ⟨_, behind, front⟩
  rw [front]
  exact CString.ofMemory_terminated text.chars _ text.nulFree

private theorem frontWithin_iff {world : World} {sinkfd : SinkFd} {text : CString} {rest : List UInt8}
    (valid : sinkfd.rxbuf.Valid) (place : sinkfd.rxbuf.unread = text.stored ++ rest) :
    FrontWithin (world, sinkfd) ↔ CopiesWithin text (atbufReadPos sinkfd.rxbuf).length := by
  unfold FrontWithin
  rw [ofMemory_front valid place]
  exact forall_prop_of_true (readPos_front valid place).1

/-- A visit that goes on has read here, and goes on from the next state. -/
private theorem ReadsWithin.again {state next : World × SinkFd} (round : parseRound host state = .again next)
    (front : FrontWithin state) (later : ReadsWithin host next) : ReadsWithin host state := by
  intro reached taken
  rcases Relation.ReflTransGen.cases_head taken with rfl | ⟨middle, first, rest⟩
  · exact front
  · cases round.symm.trans first
    exact later reached rest

private theorem ReadsWithin.done {state last : World × SinkFd} (round : parseRound host state = .done last)
    (front : FrontWithin state) : ReadsWithin host state := by
  intro reached taken
  rcases Relation.ReflTransGen.cases_head taken with rfl | ⟨_, first, _⟩
  · exact front
  · cases round.symm.trans first

/-- Written packets declare no more than they are. -/
private theorem readsWithin_streamOf (host : Host) (packets : List WrittenPacket) :
    ∀ (world : World) (sinkfd : SinkFd), sinkfd.rxbuf.Valid -> sinkfd.rxbuf.unread = streamOf packets ->
      ReadsWithin host (world, sinkfd) := by
  induction packets with
  | nil =>
      intro world sinkfd valid empty
      exact .done (parseRound_empty valid empty) fun some_unread => absurd empty some_unread
  | cons written packets inductionHypothesis =>
      intro world sinkfd valid stream
      have place := stream.trans (streamOf_cons written packets)
      have text : sinkfd.rxbuf.unread =
          (⟨written.call.text, written.call.text_nulFree⟩ : CString).stored ++ streamOf packets := by
        rw [place, written.raw_eq]
        rfl
      have read := written.read_raw (fun _ => 0) []
      rw [List.append_nil, written.raw_eq] at read
      have short : written.pac.raw.length ≤ (atbufReadPos sinkfd.rxbuf).length := by
        rcases valid.readPos with ⟨behind, memory⟩
        rw [memory, place, List.length_append, List.length_append]
        omega
      rcases parseRound_written host world valid place with ⟨rxbuf, stillValid, unread, round⟩
      refine .again round ?_ (inductionHypothesis _ _ stillValid unread)
      exact (frontWithin_iff valid text).mpr (copiesWithin_of_raw read short written.data_inside)

/-- What the reader makes of a text is decided by the text. -/
private theorem accepted_front (host : Host) (world : World) {sinkfd : SinkFd} {text : CString} {pac : SrrpPacket}
    {rest : List UInt8} (valid : sinkfd.rxbuf.Valid) (place : sinkfd.rxbuf.unread = text.stored ++ rest)
    (read : srrpReadOnePacket (fun _ => 0) text.stored = .packet pac) :
    ∃ taken count, taken.len = pac.len ∧
      taken.raw = FrameKind.rawCopy (host.behindBuffer world.nodes) (atbufReadPos sinkfd.rxbuf) count ∧
      parseRound host (world, sinkfd) =
        .again (enqueue host world sinkfd.fd taken,
          { sinkfd with rxbuf := atbufReadAdvance sinkfd.rxbuf pac.len.toNat }) := by
  rcases readPos_front valid place with ⟨some_unread, behind, front⟩
  have terminated := srrpReadOnePacket_terminated (host.behindBuffer world.nodes) (fun _ => 0) text
    (rest ++ 0 :: behind)
  rw [read, ← front] at terminated
  rcases terminated with ⟨count, packet⟩
  have round := parseRound_packet host world valid some_unread packet
  exact ⟨{ pac with raw := FrameKind.rawCopy _ (atbufReadPos sinkfd.rxbuf) count }, count, rfl, rfl, round⟩

/-- A frame in front of the buffer is taken. -/
private theorem takes_front (host : Host) (world : World) {sinkfd : SinkFd} {text : CString} {count : Nat}
    {rest : List UInt8} (valid : sinkfd.rxbuf.Valid) (place : sinkfd.rxbuf.unread = text.stored ++ rest)
    (frame : FrameTakes text count) :
    ∃ taken, parseRound host (world, sinkfd) =
      .again (enqueue host world sinkfd.fd taken, { sinkfd with rxbuf := atbufReadAdvance sinkfd.rxbuf count }) := by
  rcases frame.read (fun _ => 0) with ⟨pac, read, rfl⟩
  rcases accepted_front host world valid place read with ⟨taken, _, _, _, round⟩
  exact ⟨taken, round⟩

private theorem rejected_front (host : Host) (world : World) {sinkfd : SinkFd} {text : CString}
    {rest : List UInt8} (valid : sinkfd.rxbuf.Valid) (place : sinkfd.rxbuf.unread = text.stored ++ rest)
    (rejected : srrpReadOnePacket (fun _ => 0) text.stored = .null) :
    parseRound host (world, sinkfd) =
      .done (if world.time host < sinkfd.tsPollRecv / 1000000 + parsePacketTimeout / 1000 then
          (world.tick, sinkfd)
        else
          discard world.tick sinkfd
            (if srrpNextPacketOffset text ≤ 0 then atbufUsed sinkfd.rxbuf
            else (srrpNextPacketOffset text).toNat)) := by
  rcases readPos_front valid place with ⟨some_unread, behind, front⟩
  have seen := ofMemory_front valid place
  have null : ∀ beyond behind, srrpReadOnePacket beyond (sinkfd.rxbuf.unread ++ 0 :: behind) = .null := by
    intro beyond behind
    have terminated := srrpReadOnePacket_terminated beyond (fun _ => 0) text (rest ++ 0 :: behind)
    rw [rejected] at terminated
    simp only [place, CString.stored, List.append_assoc, List.singleton_append]
    exact terminated
  rw [parseRound_null host world valid some_unread null, resync_eq world.tick valid, seen]

private theorem slice_stored {text : CString} {count : Nat} (inside : count ≤ text.length) (rest : List UInt8) :
    (text.stored ++ rest).drop count = (text.slice count text.length).stored ++ rest := by
  have all : (text.chars.drop count).take text.length = text.chars.drop count :=
    List.take_of_length_le (by
      rw [List.length_drop]
      exact Nat.sub_le _ _)
  simp only [CString.stored, CString.slice_chars, all, List.append_assoc]
  exact List.drop_append_of_le_length inside

/-- From a text that recovers the parser comes, in this visit or a later one,
to the packets behind it, and reads only what is there. -/
theorem Recovers.cleared {buf : Atbuf} {text : CString} (recovers : Recovers buf text) :
    ∀ (rounds : Nat) (world : World) (sinkfd : SinkFd), sinkfd.rxbuf = buf -> sinkfd.rxbuf.Valid ->
      sinkfd.rxbuf.unread = text.stored ++ streamOf packets -> sinkfd.rxbuf.unread.length ≤ rounds ->
      TimedOut host (world, sinkfd) -> world.stopped = none ->
      ReadsWithin host (world, sinkfd) ∧
        ∃ polls, VisitsWithin host polls (repeatUpTo (parseRound host) rounds (world, sinkfd)) ∧
          Cleared (streamOf packets) packets world
            (parseAgain host polls (repeatUpTo (parseRound host) rounds (world, sinkfd))) := by
  rcases recovers with ⟨cuts, cut, along⟩
  induction cut generalizing buf with
  | @last text frame =>
      intro rounds world sinkfd same valid place fits _ running
      have front : FrontWithin (world, sinkfd) := (frontWithin_iff valid place).mpr (same ▸ along)
      have size := length_front place
      rcases takes_front host world valid place frame with ⟨taken, round⟩
      have advanced := atbufReadAdvance_spec valid (text.length + 1)
      have unread : (atbufReadAdvance sinkfd.rxbuf (text.length + 1)).unread = streamOf packets := by
        rw [advanced.2.1, place, ← CString.length_stored, List.drop_left]
      refine ⟨.again round front (readsWithin_streamOf host packets _ _ advanced.1 unread), 0, trivial, ?_⟩
      cases rounds with
      | zero => omega
      | succ rounds =>
          have cleared : Cleared (streamOf packets) packets _ _ := parseRounds_cleared host packets rounds
            (enqueue host world sinkfd.fd taken)
            { sinkfd with rxbuf := atbufReadAdvance sinkfd.rxbuf (text.length + 1) } advanced.1 unread
            (by rw [unread]; omega) ((enqueue_enqueued host world sinkfd.fd taken).stopped.trans running)
          simp only [parseAgain, repeatUpTo, round]
          exact cleared.later (enqueue_subperm ..) (enqueue_keeps ..)
  | @frame text count cuts frame some_bytes inside later inductionHypothesis =>
      intro rounds world sinkfd same valid place fits late running
      have front : FrontWithin (world, sinkfd) := (frontWithin_iff valid place).mpr (same ▸ along.1)
      have size := length_front place
      rcases takes_front host world valid place frame with ⟨taken, round⟩
      have advanced := atbufReadAdvance_spec valid count
      have unread : (atbufReadAdvance sinkfd.rxbuf count).unread =
          (text.slice count text.length).stored ++ streamOf packets := by
        rw [advanced.2.1, place, slice_stored inside]
      cases rounds with
      | zero => omega
      | succ rounds =>
          have shrinks : (atbufReadAdvance sinkfd.rxbuf count).unread.length ≤ rounds := by
            rw [advanced.2.1, List.length_drop]
            omega
          rcases inductionHypothesis along.2 rounds (enqueue host world sinkfd.fd taken)
            { sinkfd with rxbuf := atbufReadAdvance sinkfd.rxbuf count } (congrArg (atbufReadAdvance · _) same)
            advanced.1 unread shrinks (Nat.le_trans late (time_mono host (enqueue_reads ..)))
            ((enqueue_enqueued host world sinkfd.fd taken).stopped.trans running) with ⟨reads, polls, within, cleared⟩
          refine ⟨.again round front reads, polls, ?_⟩
          simp only [repeatUpTo, round]
          exact ⟨within, cleared.later (enqueue_subperm ..) (enqueue_keeps ..)⟩
  | @noise text offset cuts unframed elsewhere next later inductionHypothesis =>
      intro rounds world sinkfd same valid place fits late running
      have front : FrontWithin (world, sinkfd) := (frontWithin_iff valid place).mpr (same ▸ along.1)
      have size := length_front place
      have rejected := read_of_unframed along.1.header unframed (fun _ => 0)
      rcases srrpNextPacketOffset_eq_iff.mpr ⟨elsewhere, next⟩ with ⟨found, advances⟩
      have inside := srrpNextPacketOffset_lt text found
      have round := rejected_front host world valid place rejected
      rw [if_neg (Nat.not_lt_of_le late), found, if_neg (by omega), Int.toNat_natCast] at round
      have advanced := atbufReadAdvance_spec valid offset
      have unread : (atbufReadAdvance sinkfd.rxbuf offset).unread =
          (text.slice offset text.length).stored ++ streamOf packets := by
        rw [advanced.2.1, place, slice_stored (by omega)]
      have left : streamOf packets <:+ sinkfd.rxbuf.unread.drop offset := by
        rw [← advanced.2.1, unread]
        exact List.suffix_append _ _
      have kept : KeepsStream (streamOf packets) world (discard world.tick sinkfd offset).1 :=
        ⟨_, rfl, fun given remains event => by
          cases List.mem_singleton.mp event
          exact left⟩
      rcases inductionHypothesis along.2 (atbufUsed (atbufReadAdvance sinkfd.rxbuf offset))
        (discard world.tick sinkfd offset).1 (discard world.tick sinkfd offset).2 (congrArg (atbufReadAdvance · _) same)
        advanced.1 unread (Nat.le_of_eq advanced.1.length_unread)
        (Nat.le_trans late (time_mono host (Nat.le_succ _))) running with ⟨reads, polls, within, cleared⟩
      refine ⟨.done round front, polls + 1, ?_⟩
      have again : (discard world.tick sinkfd offset).1.stopped.isSome = false := by
        rw [Option.isSome_eq_false_iff, Option.isNone_iff_eq_none]
        exact running
      cases rounds with
      | zero => omega
      | succ rounds =>
          simp only [repeatUpTo, round, VisitsWithin, parseAgain, again, Bool.false_eq_true, if_false]
          exact ⟨⟨fun _ => reads, within⟩, cleared.later (.refl _) kept⟩

/-! ## Any number of visits -/

end Recovering

/-! ## To a text that recovers -/

section Losing

variable {host : Host} {packets : List WrittenPacket}

/-- `raw` is a text with its NUL, and as long as the packet says.  No other
packet can be one that a writer has built. -/
def Whole (pac : SrrpPacket) : Prop :=
  pac.raw = (CString.ofMemory pac.raw).stored ∧ pac.len.toNat = pac.raw.length

instance (pac : SrrpPacket) : Decidable (Whole pac) :=
  inferInstanceAs (Decidable (pac.raw = (CString.ofMemory pac.raw).stored ∧ pac.len.toNat = pac.raw.length))

/-- The bytes of the packets that are whole. -/
def weight (pacs : List SrrpPacket) : Nat :=
  (pacs.map fun pac => if Whole pac then pac.raw.length else 0).sum

private theorem weight_le {left right : List SrrpPacket} (fewer : left.Subperm right) : weight left ≤ weight right := by
  rcases fewer with ⟨among, same, kept⟩
  have equal : weight left = weight among := ((same.map _).sum_eq).symm
  rw [equal]
  exact (kept.map _).sum_le_sum (fun _ _ => Nat.zero_le _)

private theorem weight_enqueue (host : Host) (world : World) (fd : Fd) (pac : SrrpPacket) :
    weight (pending (enqueue host world fd pac)) ≤
      (if Whole pac then pac.raw.length else 0) + weight (pending world) := by
  by_cases known : pac.leader ∈ packetLeaders
  · exact weight_le (enqueue_pending host world fd known).subperm
  · rw [enqueue_unknown host world fd known]
    exact Nat.le_add_left _ _

/-- A whole packet takes exactly the text it was read from. -/
theorem length_of_whole {text : CString} {rest : List UInt8} {beyond : Nat -> UInt8} {count : Nat}
    {pac : SrrpPacket} (copied : pac.raw = FrameKind.rawCopy beyond (text.chars ++ 0 :: rest) count)
    (whole : Whole pac) : pac.raw.length = text.length + 1 := by
  rcases Nat.lt_or_ge text.length count with past | short
  · -- the NUL of the text has been copied, so the two texts are the same
    have place : ∃ more, pac.raw = text.chars ++ 0 :: more := by
      refine ⟨rest.take (count - text.length - 1) ++
        (List.range (count - (text.chars ++ 0 :: rest).length)).map beyond, ?_⟩
      have room : count - text.chars.length = (count - text.length - 1) + 1 := by
        unfold CString.length at past ⊢
        omega
      rw [copied, FrameKind.rawCopy, List.take_append, room, List.take_succ_cons,
        List.take_of_length_le (Nat.le_of_lt past), List.append_assoc]
      rfl
    rcases place with ⟨more, place⟩
    have same : CString.ofMemory pac.raw = text := by
      rw [place]
      exact CString.ofMemory_terminated text.chars more text.nulFree
    rw [whole.1, same, CString.length_stored]
  · -- without the NUL the copy is no text with its NUL
    exfalso
    have none_beyond : count - (text.chars ++ 0 :: rest).length = 0 := by
      rw [List.length_append]
      unfold CString.length at short
      omega
    have front : pac.raw = text.chars.take count := by
      rw [copied, FrameKind.rawCopy, none_beyond, List.range_zero, List.map_nil, List.append_nil,
        List.take_append_of_le_length short]
    have nul : (0 : UInt8) ∈ pac.raw := by
      rw [whole.1]
      exact List.mem_append_right _ List.mem_cons_self
    rw [front] at nul
    exact text.nulFree (List.mem_of_mem_take nul)

/-- The unread bytes end with a NUL. -/
def EndsWithNul (sinkfd : SinkFd) : Prop := ∀ last ∈ sinkfd.rxbuf.unread.getLast?, last = 0

/-- The packet read in front of unread bytes that end with a NUL is not longer
than they are, if it is whole. -/
private theorem whole_le_unread {sinkfd : SinkFd} {beyond : Nat -> UInt8} {pac : SrrpPacket}
    (valid : sinkfd.rxbuf.Valid) (some_unread : sinkfd.rxbuf.unread ≠ []) (ends : EndsWithNul sinkfd)
    (read : srrpReadOnePacket beyond (atbufReadPos sinkfd.rxbuf) = .packet pac) (whole : Whole pac) :
    pac.raw.length ≤ sinkfd.rxbuf.unread.length := by
  have last := ends _ (List.getLast?_eq_some_getLast some_unread)
  have nul : (0 : UInt8) ∈ sinkfd.rxbuf.unread := last ▸ List.getLast_mem some_unread
  rcases CString.ofMemory_split nul with ⟨rest, place⟩
  rcases valid.readPos with ⟨behind, memory⟩
  have front : atbufReadPos sinkfd.rxbuf =
      (CString.ofMemory sinkfd.rxbuf.unread).chars ++ 0 :: (rest ++ 0 :: behind) := by
    rw [memory]
    nth_rewrite 1 [place]
    simp
  have terminated := srrpReadOnePacket_terminated beyond beyond (CString.ofMemory sinkfd.rxbuf.unread)
    (rest ++ 0 :: behind)
  rw [← front, read] at terminated
  have copied : ∃ count, pac.raw = FrameKind.rawCopy beyond (atbufReadPos sinkfd.rxbuf) count := by
    split at terminated
    · cases terminated
    · cases terminated
    · rcases terminated with ⟨count, same⟩
      cases same
      exact ⟨count, rfl⟩
  rcases copied with ⟨count, copied⟩
  rw [front] at copied
  have size := congrArg List.length place
  rw [List.length_append, List.length_cons] at size
  rw [length_of_whole copied whole]
  unfold CString.length
  omega

/-- A round adds no more whole bytes to the bus than it takes from the unread
ones. -/
theorem parseRound_weight (host : Host) (world : World) {sinkfd : SinkFd} (valid : sinkfd.rxbuf.Valid)
    (ends : EndsWithNul sinkfd) :
    (parseRound host (world, sinkfd)).state.2.rxbuf.Valid ∧
      EndsWithNul (parseRound host (world, sinkfd)).state.2 ∧
      weight (pending (parseRound host (world, sinkfd)).state.1) +
          (parseRound host (world, sinkfd)).state.2.rxbuf.unread.length ≤
        weight (pending world) + sinkfd.rxbuf.unread.length := by
  -- skipping keeps the end, and takes away as many bytes as there are
  have skipped : ∀ count : Nat, EndsWithNul { sinkfd with rxbuf := atbufReadAdvance sinkfd.rxbuf count } ∧
      (atbufReadAdvance sinkfd.rxbuf count).unread.length = sinkfd.rxbuf.unread.length - count := by
    intro count
    have advanced := atbufReadAdvance_spec valid count
    constructor
    · intro last member
      rw [advanced.2.1, List.getLast?_drop] at member
      split at member
      · cases member
      · exact ends last member
    · rw [advanced.2.1, List.length_drop]
  rcases parseRound_cases host world sinkfd with ⟨_, round⟩ | ⟨_, round⟩ | round | round | ⟨pac, used, read, round⟩
  · rw [round]
    exact ⟨valid, ends, Nat.le_refl _⟩
  · rw [round]
    exact ⟨valid, ends, Nat.le_refl _⟩
  · rw [round]
    exact ⟨valid, ends, Nat.le_refl _⟩
  · rw [round, resync_eq world.tick valid]
    refine ⟨(atbufReadAdvance_spec valid _).1, (skipped _).1, ?_⟩
    refine Nat.add_le_add_left ?_ _
    simp only [Round.state, discard, (skipped _).2]
    exact Nat.sub_le _ _
  · have some_unread : sinkfd.rxbuf.unread ≠ [] := by
      intro empty
      rw [← valid.length_unread, empty] at used
      exact used rfl
    rw [round]
    refine ⟨(atbufReadAdvance_spec valid _).1, (skipped _).1, ?_⟩
    have added := weight_enqueue host world sinkfd.fd pac
    have shrunk := (skipped pac.len.toNat).2
    dsimp only [Round.state]
    by_cases whole : Whole pac
    · have fits := whole_le_unread valid some_unread ends read whole
      have exact_len := whole.2
      rw [if_pos whole] at added
      omega
    · rw [if_neg whole] at added
      omega

/-- Where a buffer can be that held a text and a stream behind it: the text
recovers, or more than the text has been lost, or no more than a part of the
text has been taken. -/
private inductive Fate (buf : Atbuf) (text : CString) (stream : List UInt8) (before : Nat) (state : World × SinkFd) :
    Prop where
  | recovers (recovers : Recovers buf text)
  | lost (less : weight (pending state.1) + state.2.rxbuf.unread.length < before + stream.length)
  | within (left : CString) (place : state.2.rxbuf.unread = left.stored ++ stream)
      (none_whole : weight (pending state.1) ≤ before) (leads : Recovers state.2.rxbuf left -> Recovers buf text)

private structure Watched (buf : Atbuf) (text : CString) (stream : List UInt8) (before : Nat) (state : World × SinkFd) :
    Prop where
  valid : state.2.rxbuf.Valid
  ends : EndsWithNul state.2
  fate : Fate buf text stream before state

/-- The front of the buffer is accepted: the packet ends inside the text, or
with it, or behind it. -/
private theorem Fate.accepted {buf : Atbuf} {text left : CString} {before : Nat} {world : World} {sinkfd : SinkFd}
    {pac : SrrpPacket} (valid : sinkfd.rxbuf.Valid)
    (place : sinkfd.rxbuf.unread = left.stored ++ streamOf packets) (nonempty : streamOf packets ≠ [])
    (within : CopiesWithin left (atbufReadPos sinkfd.rxbuf).length) (none_whole : weight (pending world) ≤ before)
    (leads : Recovers sinkfd.rxbuf left -> Recovers buf text)
    (read : srrpReadOnePacket (fun _ => 0) left.stored = .packet pac) :
    Fate buf text (streamOf packets) before (parseRound host (world, sinkfd)).state := by
  rcases accepted_front host world valid place read with ⟨taken, count, sameLen, copied, round⟩
  have advanced := (atbufReadAdvance_spec valid pac.len.toNat).2.1
  have added := weight_enqueue host world sinkfd.fd taken
  rcases readPos_front valid place with ⟨_, behind, front⟩
  rw [front] at copied
  rw [round]
  by_cases exact_len : pac.len.toNat = left.length + 1
  · exact .recovers (leads ⟨[], .last (exact_len ▸ frameTakes_of_read read), within⟩)
  · -- the packet is not whole
    have not_whole : ¬ Whole taken := by
      intro whole
      have declared := whole.2
      rw [sameLen, length_of_whole copied whole] at declared
      exact exact_len declared
    rw [if_neg not_whole, Nat.zero_add] at added
    have none_new : weight (pending (enqueue host world sinkfd.fd taken)) ≤ before := Nat.le_trans added none_whole
    rcases Nat.lt_or_ge left.length pac.len.toNat with beyond | inside
    · refine .lost ?_
      have some_bytes := List.length_pos_iff.mpr nonempty
      have size := length_front place
      dsimp only [Round.state]
      rw [advanced, List.length_drop]
      omega
    · refine .within (left.slice pac.len.toNat left.length) ?_ none_new ?_
      · dsimp only [Round.state]
        rw [advanced, place, slice_stored inside]
      · rintro ⟨cuts, cut, along⟩
        have frame := frameTakes_of_read read
        rcases Nat.eq_zero_or_pos pac.len.toNat with zero | advances
        · have same : left.slice pac.len.toNat left.length = left := by
            ext1
            rw [zero, CString.slice_chars, List.drop_zero]
            exact List.take_of_length_le (Nat.le_refl _)
          rw [same] at cut
          exact absurd (zero ▸ frame) cut.some_bytes
        · exact leads ⟨pac.len.toNat :: cuts, .frame frame advances inside cut, within, along⟩

/-- The front of the buffer is rejected: the search finds a leader in the text,
or everything is given up. -/
private theorem Fate.rejected {buf : Atbuf} {text left : CString} {before : Nat} {world : World} {sinkfd : SinkFd}
    (valid : sinkfd.rxbuf.Valid) (place : sinkfd.rxbuf.unread = left.stored ++ streamOf packets)
    (nonempty : streamOf packets ≠ []) (within : CopiesWithin left (atbufReadPos sinkfd.rxbuf).length)
    (none_whole : weight (pending world) ≤ before) (leads : Recovers sinkfd.rxbuf left -> Recovers buf text)
    (read : srrpReadOnePacket (fun _ => 0) left.stored = .null) :
    Fate buf text (streamOf packets) before (parseRound host (world, sinkfd)).state := by
  rw [rejected_front host world valid place read]
  dsimp only [Round.state]
  split
  · exact .within left place none_whole leads
  · split
    · refine .lost ?_
      have some_bytes := List.length_pos_iff.mpr nonempty
      have gone := (atbufReadAdvance_spec valid (atbufUsed sinkfd.rxbuf)).2.1
      dsimp only [discard]
      rw [gone, ← valid.length_unread, List.drop_length, List.length_nil]
      exact Nat.lt_of_le_of_lt none_whole (Nat.lt_add_of_pos_right some_bytes)
    case isFalse forwards =>
      rcases Int.eq_ofNat_of_zero_le (Int.le_of_lt (Int.not_le.mp forwards)) with ⟨offset, found⟩
      have inside := srrpNextPacketOffset_lt left found
      rw [found, Int.toNat_natCast]
      refine .within (left.slice offset left.length) ?_ none_whole ?_
      · dsimp only [discard]
        rw [(atbufReadAdvance_spec valid offset).2.1, place, slice_stored (by omega)]
      · rintro ⟨cuts, cut, along⟩
        rcases srrpNextPacketOffset_eq_iff.mp ⟨found, by omega⟩ with ⟨elsewhere, next⟩
        exact leads ⟨offset :: cuts, .noise (unframed_of_read read) elsewhere next cut, within, along⟩

private theorem Watched.round (host : Host) {buf : Atbuf} {text : CString} {before : Nat}
    (nonempty : streamOf packets ≠ []) (state : World × SinkFd) (front : FrontWithin state)
    (watched : Watched buf text (streamOf packets) before state) :
    Watched buf text (streamOf packets) before (parseRound host state).state := by
  rcases parseRound_weight host state.1 watched.valid watched.ends with ⟨valid, ends, weighs⟩
  refine ⟨valid, ends, ?_⟩
  cases watched.fate with
  | recovers recovers => exact .recovers recovers
  | lost less => exact .lost (Nat.lt_of_le_of_lt weighs less)
  | within left place none_whole leads =>
      rcases state with ⟨world, sinkfd⟩
      have copied := (frontWithin_iff watched.valid place).mp front
      cases read : srrpReadOnePacket (fun _ => 0) left.stored with
      | null => exact .rejected watched.valid place nonempty copied none_whole leads read
      | packet pac => exact .accepted watched.valid place nonempty copied none_whole leads read
      | overflow => exact absurd read ((returns_iff left).mpr copied.header _ [])

end Losing

/-! ## Both directions -/

end Bus
end Extlib
