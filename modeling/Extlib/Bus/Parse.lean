import Extlib.Bus.State
import Extlib.Crc16

namespace Extlib
namespace Bus

open Text Buffer Srrp Machine

/-!
# Parsing the receive buffer

`parse_packet` reads packets at the front of a receive buffer and puts each on
the list for its kind.  Where no packet can be read it waits for more bytes
until the timeout, and then looks for the next leader.
-/

/-- The `header_len` bytes of `pac->header`; the array is zero behind the
string. -/
def headerBytes (pac : SrrpPacket) : List UInt8 :=
  (pac.header.chars ++ List.replicate srrpHeaderLen 0).take pac.headerLen.toNat

variable (host : Host)

/-- The request that `parse_packet` makes of a packet. -/
def newRequest (world : World) (fd : Fd) (pac : SrrpPacket) : ApiRequest where
  pac := pac
  state := .none
  tsCreate := world.time host
  tsSend := 0
  fd := fd
  crc16 := crc16Crc (crc16 (headerBytes pac)) (pac.dataBytes (host.behindPacket world.nodes))
  node := world.nodes

def addRequest (world : World) (req : ApiRequest) : World :=
  { world.setRequests (req :: world.bus.requests) with
    reads := world.reads + 1
    nodes := world.nodes + 1
    trace := world.trace ++ [.receivedRequest req] }

def addResponse (world : World) (resp : ApiResponse) : World :=
  { world.setResponses (resp :: world.bus.responses) with
    nodes := world.nodes + 1
    trace := world.trace ++ [.receivedResponse resp] }

def addTopicMsg (world : World) (tmsg : ApiTopicMsg) : World :=
  { world.setTopicMsgs (tmsg :: world.bus.topicMsgs) with
    nodes := world.nodes + 1
    trace := world.trace ++ [.receivedTopicMsg tmsg] }

/-- Put an accepted packet on the list its leader asks for. -/
def enqueue (world : World) (fd : Fd) (pac : SrrpPacket) : World :=
  if pac.leader = srrpRequestLeader then addRequest world (newRequest host world fd pac)
  else if pac.leader = srrpResponseLeader then addResponse world ⟨pac, fd, world.nodes⟩
  else if pac.leader = srrpSubscribeLeader ∨ pac.leader = srrpUnsubscribeLeader ∨
      pac.leader = srrpPublishLeader then addTopicMsg world ⟨pac, fd, world.nodes⟩
  else world

/-- Give up the first `count` unread bytes. -/
def discard (world : World) (sinkfd : SinkFd) (count : Nat) : World × SinkFd :=
  (world.emit (.resync (sinkfd.rxbuf.unread.take count) (sinkfd.rxbuf.unread.drop count)),
    { sinkfd with rxbuf := atbufReadAdvance sinkfd.rxbuf count })

/-- Look for the next packet when none can be read at the front. -/
def resync (world : World) (sinkfd : SinkFd) : World × SinkFd :=
  let offset := srrpNextPacketOffset (CString.ofMemory (atbufReadPos sinkfd.rxbuf))
  if offset = -1 ∨ offset = 0 then discard world sinkfd (atbufUsed sinkfd.rxbuf)
  else if offset.toNat < atbufUsed sinkfd.rxbuf then discard world sinkfd offset.toNat
  else (world.stop .assertion, sinkfd)

/-- One round of the loop. -/
def parseRound : World × SinkFd -> Round (World × SinkFd)
  | (world, sinkfd) =>
      if atbufUsed sinkfd.rxbuf = 0 then .done (world, sinkfd)
      else
        match srrpReadOnePacket (host.behindBuffer world.nodes) (atbufReadPos sinkfd.rxbuf) with
        | .overflow => .done (world.stop .headerOverflow, sinkfd)
        | .null =>
            if world.time host < sinkfd.tsPollRecv / 1000000 + parsePacketTimeout / 1000 then
              .done (world.tick, sinkfd)
            else .done (resync world.tick sinkfd)
        | .packet pac =>
            .again (enqueue host world sinkfd.fd pac,
              { sinkfd with rxbuf := atbufReadAdvance sinkfd.rxbuf pac.len.toNat })

/-- Every packet takes at least a byte, so that the unread bytes bound the
rounds. -/
def parsePacket (world : World) (sinkfd : SinkFd) : World × SinkFd :=
  repeatUpTo (parseRound host) (atbufUsed sinkfd.rxbuf) (world, sinkfd)

/-- `poll_cnt` counts the sinkfds that received something in this poll. -/
def countReceived (world : World) (sinkfd : SinkFd) : World :=
  if world.bus.pollTs < sinkfd.tsPollRecv then
    { world with bus := { world.bus with pollCnt := world.bus.pollCnt + 1 } }
  else world

/-- The visit `apibus_poll` pays to each sinkfd after the sinks were polled. -/
def visitSinkfd (world : World) (sinkfd : SinkFd) : World × Option SinkFd :=
  if world.stopped.isSome then (world, some sinkfd)
  else if atbufUsed sinkfd.rxbuf = 0 then (countReceived world sinkfd, some sinkfd)
  else
    let parsed := parsePacket host (countReceived world sinkfd) sinkfd
    (parsed.1, some parsed.2)

def parseSinkfds (world : World) : World :=
  let swept := sweep (visitSinkfd host) world world.bus.sinkfds
  swept.1.setSinkfds swept.2

/-! ## What a round does -/

/-- A round stops at an empty buffer, at an overflow, or where no packet can be
read, there after it has waited or looked for the next leader; otherwise it
takes a packet. -/
theorem parseRound_cases (host : Host) (world : World) (sinkfd : SinkFd) :
    (atbufUsed sinkfd.rxbuf = 0 ∧ parseRound host (world, sinkfd) = .done (world, sinkfd)) ∨
      (srrpReadOnePacket (host.behindBuffer world.nodes) (atbufReadPos sinkfd.rxbuf) = .overflow ∧
        parseRound host (world, sinkfd) = .done (world.stop .headerOverflow, sinkfd)) ∨
      parseRound host (world, sinkfd) = .done (world.tick, sinkfd) ∨
      parseRound host (world, sinkfd) = .done (resync world.tick sinkfd) ∨
      ∃ pac, atbufUsed sinkfd.rxbuf ≠ 0 ∧
        srrpReadOnePacket (host.behindBuffer world.nodes) (atbufReadPos sinkfd.rxbuf) = .packet pac ∧
        parseRound host (world, sinkfd) =
          .again (enqueue host world sinkfd.fd pac,
            { sinkfd with rxbuf := atbufReadAdvance sinkfd.rxbuf pac.len.toNat }) := by
  by_cases empty : atbufUsed sinkfd.rxbuf = 0
  · exact Or.inl ⟨empty, if_pos empty⟩
  · have round : parseRound host (world, sinkfd) = _ := if_neg empty
    rw [round]
    cases read : srrpReadOnePacket (host.behindBuffer world.nodes) (atbufReadPos sinkfd.rxbuf) with
    | overflow => exact Or.inr (Or.inl ⟨rfl, rfl⟩)
    | null =>
        by_cases soon : world.time host < sinkfd.tsPollRecv / 1000000 + parsePacketTimeout / 1000
        · exact Or.inr (Or.inr (Or.inl (if_pos soon)))
        · exact Or.inr (Or.inr (Or.inr (Or.inl (if_neg soon))))
    | packet pac => exact Or.inr (Or.inr (Or.inr (Or.inr ⟨pac, empty, rfl, rfl⟩)))

/-- Looking for the next leader gives up some bytes, or the assertion on the
offset fails. -/
theorem resync_cases (world : World) (sinkfd : SinkFd) :
    (∃ count, resync world sinkfd = discard world sinkfd count) ∨
      resync world sinkfd = (world.stop .assertion, sinkfd) := by
  simp only [resync]
  split
  · exact Or.inl ⟨_, rfl⟩
  · split
    · exact Or.inl ⟨_, rfl⟩
    · exact Or.inr rfl

section Rounds

variable {host : Host} {world : World} {sinkfd : SinkFd}

theorem parseRound_empty (valid : sinkfd.rxbuf.Valid) (empty : sinkfd.rxbuf.unread = []) :
    parseRound host (world, sinkfd) = .done (world, sinkfd) := by
  have used : atbufUsed sinkfd.rxbuf = 0 := by rw [← valid.length_unread, empty, List.length_nil]
  simp only [parseRound, used, if_true]

private theorem atbufUsed_ne_zero (valid : sinkfd.rxbuf.Valid) (some_unread : sinkfd.rxbuf.unread ≠ []) :
    atbufUsed sinkfd.rxbuf ≠ 0 := by
  rw [← valid.length_unread]
  exact fun none => some_unread (List.eq_nil_of_length_eq_zero none)

theorem parseRound_null (host : Host) (world : World) (valid : sinkfd.rxbuf.Valid)
    (some_unread : sinkfd.rxbuf.unread ≠ [])
    (null : ∀ beyond behind, srrpReadOnePacket beyond (sinkfd.rxbuf.unread ++ 0 :: behind) = .null) :
    parseRound host (world, sinkfd) =
      .done (if world.time host < sinkfd.tsPollRecv / 1000000 + parsePacketTimeout / 1000 then
          (world.tick, sinkfd)
        else resync world.tick sinkfd) := by
  rcases valid.readPos with ⟨behind, place⟩
  simp only [parseRound, atbufUsed_ne_zero valid some_unread, if_false, place, null]
  split <;> rfl

/-- Where no packet can be read the whole parse is that one round. -/
theorem parsePacket_null (host : Host) (world : World) (valid : sinkfd.rxbuf.Valid)
    (some_unread : sinkfd.rxbuf.unread ≠ [])
    (null : ∀ beyond behind, srrpReadOnePacket beyond (sinkfd.rxbuf.unread ++ 0 :: behind) = .null) :
    parsePacket host world sinkfd =
      if world.time host < sinkfd.tsPollRecv / 1000000 + parsePacketTimeout / 1000 then (world.tick, sinkfd)
      else resync world.tick sinkfd := by
  have used : atbufUsed sinkfd.rxbuf = atbufUsed sinkfd.rxbuf - 1 + 1 := by
    have some_byte := atbufUsed_ne_zero valid some_unread
    omega
  rw [parsePacket, used, repeatUpTo, parseRound_null host world valid some_unread null]

/-- The offset of the next packet lies inside the unread bytes, so that the
assertion on it holds. -/
theorem resync_eq (world : World) (valid : sinkfd.rxbuf.Valid) :
    resync world sinkfd =
      discard world sinkfd
        (if srrpNextPacketOffset (CString.ofMemory (atbufReadPos sinkfd.rxbuf)) ≤ 0 then atbufUsed sinkfd.rxbuf
        else (srrpNextPacketOffset (CString.ofMemory (atbufReadPos sinkfd.rxbuf))).toNat) := by
  have nonneg := srrpNextPacketOffset_nonneg (CString.ofMemory (atbufReadPos sinkfd.rxbuf))
  simp only [resync]
  by_cases absent : srrpNextPacketOffset (CString.ofMemory (atbufReadPos sinkfd.rxbuf)) ≤ 0
  · rw [if_pos (by omega), if_pos absent]
  · rw [if_neg (by omega), if_neg absent]
    refine if_pos ?_
    -- the text at the read pointer ends with the unread bytes at the latest
    rcases valid.readPos with ⟨behind, place⟩
    have short : (CString.ofMemory (atbufReadPos sinkfd.rxbuf)).length ≤ atbufUsed sinkfd.rxbuf := by
      rw [← valid.length_unread, place]
      exact CString.length_ofMemory_le _ _
    have inside := srrpNextPacketOffset_lt (CString.ofMemory (atbufReadPos sinkfd.rxbuf))
      (Int.toNat_of_nonneg (by omega)).symm
    omega

/-- A round keeps the buffer well formed and leaves its size and the time of
the last receive alone. -/
theorem parseRound_keeps (host : Host) (state : World × SinkFd) (valid : state.2.rxbuf.Valid) :
    (parseRound host state).state.2.rxbuf.Valid ∧
      atbufSize (parseRound host state).state.2.rxbuf = atbufSize state.2.rxbuf ∧
      (parseRound host state).state.2.tsPollRecv = state.2.tsPollRecv := by
  rcases state with ⟨world, sinkfd⟩
  have skipped : ∀ count, (atbufReadAdvance sinkfd.rxbuf count).Valid ∧
      atbufSize (atbufReadAdvance sinkfd.rxbuf count) = atbufSize sinkfd.rxbuf :=
    fun count => ⟨(atbufReadAdvance_spec valid count).1, (atbufReadAdvance_spec valid count).2.2⟩
  rcases parseRound_cases host world sinkfd with ⟨_, round⟩ | ⟨_, round⟩ | round | round | ⟨pac, _, _, round⟩
  · rw [round]
    exact ⟨valid, rfl, rfl⟩
  · rw [round]
    exact ⟨valid, rfl, rfl⟩
  · rw [round]
    exact ⟨valid, rfl, rfl⟩
  · rw [round, resync_eq world.tick valid]
    exact ⟨(skipped _).1, (skipped _).2, rfl⟩
  · rw [round]
    exact ⟨(skipped _).1, (skipped _).2, rfl⟩

theorem parsePacket_keeps (host : Host) (world : World) {sinkfd : SinkFd} (valid : sinkfd.rxbuf.Valid) :
    (parsePacket host world sinkfd).2.rxbuf.Valid ∧
      atbufSize (parsePacket host world sinkfd).2.rxbuf = atbufSize sinkfd.rxbuf ∧
      (parsePacket host world sinkfd).2.tsPollRecv = sinkfd.tsPollRecv := by
  refine repeatUpTo_invariant (fun state : World × SinkFd => state.2.rxbuf.Valid ∧
    atbufSize state.2.rxbuf = atbufSize sinkfd.rxbuf ∧ state.2.tsPollRecv = sinkfd.tsPollRecv) ?_ _
    (world, sinkfd) ⟨valid, rfl, rfl⟩
  rintro state ⟨stillValid, size, stamp⟩
  have kept := parseRound_keeps host state stillValid
  exact ⟨kept.1, kept.2.1.trans size, kept.2.2.trans stamp⟩

theorem parseRound_packet (host : Host) (world : World) {pac : SrrpPacket} (valid : sinkfd.rxbuf.Valid)
    (some_unread : sinkfd.rxbuf.unread ≠ [])
    (packet : srrpReadOnePacket (host.behindBuffer world.nodes) (atbufReadPos sinkfd.rxbuf) = .packet pac) :
    parseRound host (world, sinkfd) =
      .again (enqueue host world sinkfd.fd pac,
        { sinkfd with rxbuf := atbufReadAdvance sinkfd.rxbuf pac.len.toNat }) := by
  simp only [parseRound, atbufUsed_ne_zero valid some_unread, if_false, packet]

theorem enqueue_reads (host : Host) (world : World) (fd : Fd) (pac : SrrpPacket) :
    world.reads ≤ (enqueue host world fd pac).reads := by
  unfold enqueue
  split
  · exact Nat.le_succ _
  · split
    · exact Nat.le_refl _
    · split <;> exact Nat.le_refl _

theorem parseRound_reads (state : World × SinkFd) : state.1.reads ≤ (parseRound host state).state.1.reads := by
  rcases state with ⟨world, sinkfd⟩
  rcases parseRound_cases host world sinkfd with ⟨_, round⟩ | ⟨_, round⟩ | round | round | ⟨pac, _, _, round⟩
  · rw [round]
    exact Nat.le_refl _
  · rw [round]
    exact Nat.le_refl _
  · rw [round]
    exact Nat.le_succ _
  · rw [round]
    rcases resync_cases world.tick sinkfd with ⟨count, given⟩ | given
    · rw [given]
      exact Nat.le_succ _
    · rw [given]
      exact Nat.le_succ _
  · rw [round]
    exact enqueue_reads host world sinkfd.fd pac

/-- The clock is read forwards. -/
theorem parseRounds_reads (host : Host) (rounds : Nat) (state : World × SinkFd) :
    state.1.reads ≤ (repeatUpTo (parseRound host) rounds state).1.reads :=
  repeatUpTo_invariant (fun next => state.1.reads ≤ next.1.reads)
    (fun next later => Nat.le_trans later (parseRound_reads next)) rounds state (Nat.le_refl _)

/-- Without unread bytes there is nothing to do. -/
theorem parseRounds_empty (rounds : Nat) (valid : sinkfd.rxbuf.Valid) (empty : sinkfd.rxbuf.unread = []) :
    repeatUpTo (parseRound host) rounds (world, sinkfd) = (world, sinkfd) := by
  cases rounds with
  | zero => rfl
  | succ rounds => rw [repeatUpTo, parseRound_empty valid empty]

end Rounds

/-! ## What parsing puts on the bus -/

/-- Between the two states the packets have been put on the lists for their
kinds, each once, and nothing else has happened to these lists. -/
structure Enqueued (before : World) (pacs : List SrrpPacket) (after : World) : Prop where
  requests : (after.bus.requests.map (·.pac)).Perm
    (pacs.filter (·.leader = srrpRequestLeader) ++ before.bus.requests.map (·.pac))
  responses : (after.bus.responses.map (·.pac)).Perm
    (pacs.filter (·.leader = srrpResponseLeader) ++ before.bus.responses.map (·.pac))
  topicMsgs : (after.bus.topicMsgs.map (·.pac)).Perm
    (pacs.filter (·.leader ∈ [srrpSubscribeLeader, srrpUnsubscribeLeader, srrpPublishLeader]) ++
      before.bus.topicMsgs.map (·.pac))
  stopped : after.stopped = before.stopped

namespace Enqueued

variable {first second third : World} {early late : List SrrpPacket}

theorem nothing {before after : World} (requests : after.bus.requests = before.bus.requests)
    (responses : after.bus.responses = before.bus.responses)
    (topicMsgs : after.bus.topicMsgs = before.bus.topicMsgs) (stopped : after.stopped = before.stopped) :
    Enqueued before [] after where
  requests := by rw [requests]; exact .refl _
  responses := by rw [responses]; exact .refl _
  topicMsgs := by rw [topicMsgs]; exact .refl _
  stopped := stopped

private theorem perm_append {Packet : Type} {kind : Packet -> Bool} {old middle new early late : List Packet}
    (left : middle.Perm (early.filter kind ++ old)) (right : new.Perm (late.filter kind ++ middle)) :
    new.Perm ((early ++ late).filter kind ++ old) := by
  rw [List.filter_append, List.append_assoc]
  refine right.trans ((left.append_left _).trans ?_)
  rw [← List.append_assoc, ← List.append_assoc]
  exact List.perm_append_comm.append_right _

theorem trans (left : Enqueued first early second) (right : Enqueued second late third) :
    Enqueued first (early ++ late) third where
  requests := perm_append left.requests right.requests
  responses := perm_append left.responses right.responses
  topicMsgs := perm_append left.topicMsgs right.topicMsgs
  stopped := right.stopped.trans left.stopped

end Enqueued

theorem enqueue_enqueued (host : Host) (world : World) (fd : Fd) (pac : SrrpPacket) :
    Enqueued world [pac] (enqueue host world fd pac) := by
  have different : srrpRequestLeader ≠ srrpResponseLeader ∧ srrpResponseLeader ≠ srrpRequestLeader ∧
      srrpRequestLeader ∉ [srrpSubscribeLeader, srrpUnsubscribeLeader, srrpPublishLeader] ∧
      srrpResponseLeader ∉ [srrpSubscribeLeader, srrpUnsubscribeLeader, srrpPublishLeader] := by decide
  rcases different with ⟨requestResponse, responseRequest, requestTopic, responseTopic⟩
  have single : ∀ kind : SrrpPacket -> Bool, [pac].filter kind = if kind pac then [pac] else [] := by
    intro kind
    simp only [List.filter_cons, List.filter_nil]
  unfold enqueue
  split
  case isTrue request =>
    refine ⟨?_, ?_, ?_, rfl⟩ <;> simp only [single, request, requestResponse, requestTopic, decide_true,
      decide_false, if_true, if_false, Bool.false_eq_true] <;> exact .refl _
  case isFalse no_request =>
    split
    case isTrue response =>
      refine ⟨?_, ?_, ?_, rfl⟩ <;> simp only [single, response, responseRequest, responseTopic, decide_true,
        decide_false, if_true, if_false, Bool.false_eq_true] <;> exact .refl _
    case isFalse no_response =>
      have listed : pac.leader ∈ [srrpSubscribeLeader, srrpUnsubscribeLeader, srrpPublishLeader] ↔
          pac.leader = srrpSubscribeLeader ∨ pac.leader = srrpUnsubscribeLeader ∨
            pac.leader = srrpPublishLeader := by
        simp only [List.mem_cons, List.not_mem_nil, or_false]
      split
      case isTrue topic =>
        refine ⟨?_, ?_, ?_, rfl⟩ <;> simp only [single, no_request, no_response, listed.mpr topic, decide_true,
          decide_false, if_true, if_false, Bool.false_eq_true] <;> exact .refl _
      case isFalse no_topic =>
        have unlisted : pac.leader ∉ [srrpSubscribeLeader, srrpUnsubscribeLeader, srrpPublishLeader] :=
          fun member => no_topic (listed.mp member)
        refine ⟨?_, ?_, ?_, rfl⟩ <;> simp only [single, no_request, no_response, unlisted, decide_false,
          if_false, Bool.false_eq_true] <;> exact .refl _

end Bus
end Extlib
