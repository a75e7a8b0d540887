import Extlib.Bus.Poll

namespace Extlib
namespace Bus

open Srrp Machine World

/-!
# What the bus can do

The loops of the bus taken apart into steps that each add, change or remove
one entry.  Every function of the source that changes the state is a sequence
of such steps, so that an invariant of the runs is checked once for each kind
of step and for no loop.  A list that a loop is walking is at each step the
entries already visited followed by those still to come.
-/

/-- The entries, the connections, the sinks and the trace stay as they are.
What may change is the clock, the bookkeeping of the poll and the receive
buffers; and the bus may stop. -/
structure Quiet (before after : World) : Prop where
  requests : after.bus.requests = before.bus.requests
  responses : after.bus.responses = before.bus.responses
  stations : after.bus.stations = before.bus.stations
  topicMsgs : after.bus.topicMsgs = before.bus.topicMsgs
  topics : after.bus.topics = before.bus.topics
  fds : after.bus.sinkfds.map (·.fd) = before.bus.sinkfds.map (·.fd)
  kinds : after.bus.sinkfds.map (·.sink) = before.bus.sinkfds.map (·.sink)
  sinks : after.posixSink = before.posixSink
  opened : after.opened = before.opened
  nodes : after.nodes = before.nodes
  conns : after.conns = before.conns
  trace : after.trace = before.trace
  reads : before.reads ≤ after.reads

theorem Quiet.stop (world : World) (fault : Fault) : Quiet world (world.stop fault) := by
  constructor <;> rfl

theorem Quiet.tick (world : World) : Quiet world world.tick := by
  constructor <;> first | rfl | exact Nat.le_succ _

/-- One sinkfd has another buffer or another time of receipt. -/
theorem Quiet.sinkfd (world : World) (before : List SinkFd) {pos pos' : SinkFd} (after : List SinkFd)
    (same : pos'.fd = pos.fd) (kind : pos'.sink = pos.sink) :
    Quiet (world.setSinkfds (before ++ pos :: after)) (world.setSinkfds (before ++ pos' :: after)) := by
  constructor
  case fds => simp [World.setSinkfds, same]
  case kinds => simp [World.setSinkfds, kind]
  all_goals rfl

/-- The sinks, when `handsOut` holds of the numbers the operating system may
hand out. -/
inductive SinkStep (handsOut : Nat -> Prop) : World -> World -> Prop where
  | quiet {before after : World} (same : Quiet before after) : SinkStep handsOut before after
  | opened (world : World) (num : Nat) (listen : Bool) (kind : SinkKind) (nfds : Nat)
      (allowed : handsOut num) (closed : num ∉ world.opened) :
      SinkStep handsOut world
        ((registerFd world num kind nfds).setSinkfds (newSinkfd world num listen kind :: world.bus.sinkfds))
  | destroyed (world : World) (before : List SinkFd) (sinkfd : SinkFd) (after : List SinkFd)
      (place : world.bus.sinkfds = before ++ sinkfd :: after) :
      SinkStep handsOut world (world.setSinkfds (before ++ after))
  | closed (world : World) (before : List SinkFd) (sinkfd : SinkFd) (after : List SinkFd)
      (place : world.bus.sinkfds = before ++ sinkfd :: after) :
      SinkStep handsOut world
        { world.setSinkfds (before ++ after) with
          opened := world.opened.erase sinkfd.fd.num
          trace := world.trace ++ [.closed sinkfd.fd] }

/-- The parser. -/
inductive ParseStep (host : Host) : World -> World -> Prop where
  | quiet {before after : World} (same : Quiet before after) : ParseStep host before after
  | resync (world : World) (given left : List UInt8) : ParseStep host world (world.emit (.resync given left))
  | request (world : World) (sinkfd : SinkFd) (pac : SrrpPacket) (listed : sinkfd ∈ world.bus.sinkfds) :
      ParseStep host world (addRequest world (newRequest host world sinkfd.fd pac))
  | response (world : World) (sinkfd : SinkFd) (pac : SrrpPacket) (listed : sinkfd ∈ world.bus.sinkfds) :
      ParseStep host world (addResponse world ⟨pac, sinkfd.fd, world.nodes⟩)
  | topicMsg (world : World) (sinkfd : SinkFd) (pac : SrrpPacket) (listed : sinkfd ∈ world.bus.sinkfds) :
      ParseStep host world (addTopicMsg world ⟨pac, sinkfd.fd, world.nodes⟩)

/-- The handlers. -/
inductive HandleStep (host : Host) : World -> World -> Prop where
  | quiet {before after : World} (same : Quiet before after) : HandleStep host before after
  | timeout (world : World) (before : List ApiRequest) (req : ApiRequest) (after : List ApiRequest)
      (place : world.bus.requests = before ++ req :: after) (waiting : req.state = .waitResponse)
      (late : req.tsSend + apiRequestTimeout / 1000 ≤ world.time host) :
      HandleStep host world ((apibusSend world.tick (.requestTimeout req)).setRequests (before ++ after))
  | notFound (world : World) (before : List ApiRequest) (req : ApiRequest) (after : List ApiRequest)
      (place : world.bus.requests = before ++ req :: after) (fresh : req.state = .none)
      (unknown : destination (registerSource host world req) req = none) :
      HandleStep host world
        ((apibusSend (registerSource host world req) (.stationNotFound req)).setRequests (before ++ after))
  | forward (world : World) (before : List ApiRequest) (req : ApiRequest) (after : List ApiRequest)
      (dst : ApiStation)
      (place : world.bus.requests = before ++ req :: after) (fresh : req.state = .none)
      (known : destination (registerSource host world req) req = some dst) :
      HandleStep host world
        ((apibusSend (registerSource host world req) (.forward req dst)).tick.setRequests
          (before ++
            { req with state := .waitResponse, tsSend := (registerSource host world req).time host } :: after))
  | response (world : World) (before : List ApiResponse) (resp : ApiResponse) (after : List ApiResponse)
      (place : world.bus.responses = before ++ resp :: after)
      (waiting : ∀ req ∈ world.bus.requests, req.state = .waitResponse) :
      HandleStep host world ((touchDestination host (relayResponse world resp) resp).setResponses (before ++ after))
  | topicMsg (world : World) (before : List ApiTopicMsg) (tmsg : ApiTopicMsg) (after : List ApiTopicMsg)
      (place : world.bus.topicMsgs = before ++ tmsg :: after) (applied : (applyTopicMsg world tmsg).stopped = none) :
      HandleStep host world
        (((applyTopicMsg world tmsg).emit (.handledTopicMsg tmsg)).setTopicMsgs (before ++ after))
  | dropStation (world : World) (before : List ApiStation) (station : ApiStation) (after : List ApiStation)
      (place : world.bus.stations = before ++ station :: after)
      (unalive : world.time host > station.tsAlive + apibusStationAliveTimeout / 1000) :
      HandleStep host world (world.tick.setStations (before ++ after))

/-! ## The sinks -/

section Sinks

variable {host : Host} {input : PollInput} {world : World}

theorem openSink_step (kind : SinkKind) (answer : Option Nat) :
    Relation.ReflTransGen (SinkStep (answer = some ·)) world (openSink world kind answer) := by
  unfold openSink
  split
  · exact .refl
  case h_2 num =>
    split
    · exact .refl
    case isFalse closed => exact .single (.opened world num _ kind _ rfl closed)

theorem apibusClose_step (num : Nat) :
    Relation.ReflTransGen (SinkStep fun _ => False) world (apibusClose world num) := by
  unfold apibusClose
  split
  · exact .refl
  case h_2 sinkfd _ =>
    split
    · exact .refl
    case h_2 closing found =>
      have matched := List.find?_some found
      simp only [decide_eq_true_eq] at matched
      rcases find_split found with ⟨before, after, split, erased⟩
      have step : SinkStep (fun _ => False) _ _ := .closed world before closing after split
      rw [matched.2] at step
      rw [erased]
      exact .single step

/-- The numbers `accept` may return in a poll. -/
def PollInput.HandsOut (input : PollInput) (num : Nat) : Prop := ∃ listening, input.accept listening = some num

/-- The world as it is while the loop of `unix_poll` stands between the two
parts of the list. -/
private def SelectState.current (state : SelectState) (sinkfds : List SinkFd) : World :=
  state.world.setSinkfds (state.accepted ++ sinkfds)

private theorem acceptFd_steps (state : SelectState) (pos : SinkFd) (sinkfds : List SinkFd) :
    Relation.ReflTransGen (SinkStep input.HandsOut) (state.current sinkfds)
      ((acceptFd input state pos).current sinkfds) := by
  rcases acceptFd_cases input state pos with same | ⟨newfd, answered, closed, accepted⟩
  · rw [same]
  · have step : SinkStep input.HandsOut _ _ := .opened (state.current sinkfds) newfd false pos.sink
      (max (state.world.posixSink pos.sink).nfds (newfd + 1)) ⟨_, answered⟩ closed
    have same : (registerFd (state.current sinkfds) newfd pos.sink
        (max (state.world.posixSink pos.sink).nfds (newfd + 1))).setSinkfds
          (newSinkfd (state.current sinkfds) newfd false pos.sink :: (state.current sinkfds).bus.sinkfds) =
        SelectState.current
          { state with
            world := registerFd state.world newfd pos.sink
              (max (state.world.posixSink pos.sink).nfds (newfd + 1))
            accepted := newSinkfd state.world newfd false pos.sink :: state.accepted } sinkfds := by
      cases pos.sink <;> rfl
    rw [same] at step
    rw [accepted]
    exact .single step

private theorem receiveFd_steps (state : SelectState) (before : List SinkFd) (pos : SinkFd)
    (after : List SinkFd) :
    Relation.ReflTransGen (SinkStep input.HandsOut) (state.current (before ++ pos :: after))
      ((receiveFd host input state pos).1.current
        (before ++ (receiveFd host input state pos).2.toList ++ after)) := by
  have place : (state.current (before ++ pos :: after)).bus.sinkfds = (state.accepted ++ before) ++ pos :: after :=
    (List.append_assoc _ _ _).symm
  have destroyed : SinkStep input.HandsOut _ _ := .destroyed _ _ pos after place
  have gone : (state.current (before ++ pos :: after)).setSinkfds (state.accepted ++ before ++ after) =
      state.current (before ++ [] ++ after) := by
    simp only [SelectState.current, World.setSinkfds, List.append_nil, List.append_assoc]
  rw [gone] at destroyed
  rcases receiveFd_cases host input state pos with closed | asserts | ⟨bytes, rxbuf, _, _, received⟩
  · rw [closed]
    exact .single destroyed
  · rw [asserts, Option.toList_some, List.append_assoc]
    exact .single (.quiet (.stop _ .assertion))
  · have advanced := Quiet.sinkfd state.world.tick (state.accepted ++ before) after
      (show ({ pos with rxbuf := rxbuf, tsPollRecv := state.world.timeofday host } : SinkFd).fd = pos.fd
        from rfl) rfl
    have read := Quiet.tick (state.world.setSinkfds (state.accepted ++ before ++ pos :: after))
    rw [received]
    simp only [SelectState.current, Option.toList_some, List.append_assoc, List.singleton_append]
      at advanced read ⊢
    exact (Relation.ReflTransGen.single (.quiet read)).tail (.quiet advanced)

private theorem visitReady_steps (kind : SinkKind) (state : SelectState) (before : List SinkFd) (pos : SinkFd)
    (after : List SinkFd) :
    Relation.ReflTransGen (SinkStep input.HandsOut) (state.current (before ++ pos :: after))
      ((visitReady host input kind state pos).1.current
        (before ++ (visitReady host input kind state pos).2.toList ++ after)) := by
  have whole : before ++ [pos] ++ after = before ++ pos :: after := by
    rw [List.append_assoc, List.singleton_append]
  rcases visitReady_cases host input kind state pos with same | ⟨_, _, _, accepts⟩ | ⟨_, _, _, receives⟩
  · rw [same, Option.toList_some, whole]
  · rw [accepts, Option.toList_some, whole]
    exact acceptFd_steps { state with nrRecvFds := state.nrRecvFds - 1 } pos _
  · rw [receives]
    exact receiveFd_steps { state with nrRecvFds := state.nrRecvFds - 1 } before pos after

theorem posixPoll_steps (kind : SinkKind) :
    Relation.ReflTransGen (SinkStep input.HandsOut) world (posixPoll host input kind world) := by
  unfold posixPoll
  split
  · exact .refl
  case h_2 recvfds _ =>
    exact sweep_invariant
      (fun state sinkfds => Relation.ReflTransGen (SinkStep input.HandsOut) world (state.current sinkfds))
      (fun state before pos after reached => reached.trans (visitReady_steps kind state before pos after))
      ⟨world, recvfds, recvfds.length, []⟩ world.bus.sinkfds .refl

end Sinks

/-! ## The parser -/

section Parser

variable {host : Host}

private theorem enqueue_steps (world : World) (sinkfd : SinkFd) (pac : SrrpPacket)
    (listed : sinkfd ∈ world.bus.sinkfds) :
    Relation.ReflTransGen (ParseStep host) world (enqueue host world sinkfd.fd pac) := by
  unfold enqueue
  split
  · exact .single (.request world sinkfd pac listed)
  · split
    · exact .single (.response world sinkfd pac listed)
    · split
      · exact .single (.topicMsg world sinkfd pac listed)
      · exact .refl

private theorem enqueue_setSinkfds (world : World) (fd : Fd) (pac : SrrpPacket) (sinkfds : List SinkFd) :
    enqueue host (world.setSinkfds sinkfds) fd pac = (enqueue host world fd pac).setSinkfds sinkfds := by
  unfold enqueue
  split
  · rfl
  · split
    · rfl
    · split <;> rfl

/-- A round of the parser while the sinkfd stands between the two parts of the
list. -/
private theorem parseRound_steps (world : World) (sinkfd : SinkFd) (before after : List SinkFd) :
    (parseRound host (world, sinkfd)).state.2.fd = sinkfd.fd ∧
      Relation.ReflTransGen (ParseStep host) (world.setSinkfds (before ++ sinkfd :: after))
        ((parseRound host (world, sinkfd)).state.1.setSinkfds
          (before ++ (parseRound host (world, sinkfd)).state.2 :: after)) := by
  have discarded : ∀ (world : World) (count : Nat),
      Relation.ReflTransGen (ParseStep host) (world.setSinkfds (before ++ sinkfd :: after))
        ((discard world sinkfd count).1.setSinkfds (before ++ (discard world sinkfd count).2 :: after)) := by
    intro world count
    exact (Relation.ReflTransGen.single (.resync _ _ _)).tail
      (.quiet (.sinkfd (world.emit _) before after (by rfl) (by rfl)))
  rcases parseRound_cases host world sinkfd with ⟨_, round⟩ | ⟨_, round⟩ | round | round | ⟨pac, _, _, round⟩
  · rw [round]
    exact ⟨rfl, .refl⟩
  · rw [round]
    exact ⟨rfl, .single (.quiet (.stop _ _))⟩
  · rw [round]
    exact ⟨rfl, .single (.quiet (.tick _))⟩
  · have read := Quiet.tick (world.setSinkfds (before ++ sinkfd :: after))
    rw [round, Round.state]
    rcases resync_cases world.tick sinkfd with ⟨count, given⟩ | given
    · rw [given]
      exact ⟨rfl, .head (.quiet read) (discarded world.tick count)⟩
    · rw [given]
      exact ⟨rfl, .head (.quiet read) (.single (.quiet (.stop _ _)))⟩
  · rw [round]
    refine ⟨rfl, ?_⟩
    have listed : sinkfd ∈ (world.setSinkfds (before ++ sinkfd :: after)).bus.sinkfds := by
      simp [World.setSinkfds]
    have queued : Relation.ReflTransGen (ParseStep host) _ _ := enqueue_steps _ sinkfd pac listed
    rw [enqueue_setSinkfds] at queued
    exact queued.tail (.quiet (.sinkfd _ before after (by rfl) (by rfl)))

private theorem parsePacket_steps (world : World) (sinkfd : SinkFd) (before after : List SinkFd) :
    Relation.ReflTransGen (ParseStep host) (world.setSinkfds (before ++ sinkfd :: after))
      ((parsePacket host world sinkfd).1.setSinkfds (before ++ (parsePacket host world sinkfd).2 :: after)) :=
  repeatUpTo_invariant
    (fun state => Relation.ReflTransGen (ParseStep host) (world.setSinkfds (before ++ sinkfd :: after))
      (state.1.setSinkfds (before ++ state.2 :: after)))
    (fun state reached => reached.trans (parseRound_steps state.1 state.2 before after).2)
    (Buffer.atbufUsed sinkfd.rxbuf) (world, sinkfd) .refl

private theorem visitSinkfd_steps (world : World) (before : List SinkFd) (sinkfd : SinkFd)
    (after : List SinkFd) :
    Relation.ReflTransGen (ParseStep host) (world.setSinkfds (before ++ sinkfd :: after))
      ((visitSinkfd host world sinkfd).1.setSinkfds
        (before ++ (visitSinkfd host world sinkfd).2.toList ++ after)) := by
  have whole : before ++ [sinkfd] ++ after = before ++ sinkfd :: after := by
    rw [List.append_assoc, List.singleton_append]
  have counted : Quiet (world.setSinkfds (before ++ sinkfd :: after))
      ((countReceived world sinkfd).setSinkfds (before ++ sinkfd :: after)) := by
    unfold countReceived
    split <;> constructor <;> rfl
  unfold visitSinkfd
  split
  · rw [Option.toList_some, whole]
  · split
    · rw [Option.toList_some, whole]
      exact .single (.quiet counted)
    · dsimp only
      rw [Option.toList_some, List.append_assoc]
      exact .head (.quiet counted) (parsePacket_steps _ sinkfd before after)

theorem parseSinkfds_steps (world : World) :
    Relation.ReflTransGen (ParseStep host) world (parseSinkfds host world) :=
  sweep_invariant
    (fun state sinkfds => Relation.ReflTransGen (ParseStep host) world (state.setSinkfds sinkfds))
    (fun state before sinkfd after reached => reached.trans (visitSinkfd_steps state before sinkfd after))
    world world.bus.sinkfds .refl

end Parser

/-! ## The handlers -/

section Handlers

variable {host : Host}

private theorem registerSource_setRequests (world : World) (req : ApiRequest) (requests : List ApiRequest) :
    registerSource host (world.setRequests requests) req =
      (registerSource host world req).setRequests requests := by
  have same : findStation (world.setRequests requests) req.pac.srcid = findStation world req.pac.srcid := rfl
  unfold registerSource
  rw [same]
  split <;> rfl

private theorem visitRequest_steps (world : World) (before : List ApiRequest) (pos : ApiRequest)
    (after : List ApiRequest) :
    Relation.ReflTransGen (HandleStep host) (world.setRequests (before ++ pos :: after))
      ((visitRequest host world pos).1.setRequests
        (before ++ (visitRequest host world pos).2.toList ++ after)) := by
  have whole : ∀ pos : ApiRequest, before ++ [pos] ++ after = before ++ pos :: after := by
    intro pos
    rw [List.append_assoc, List.singleton_append]
  have registered : registerSource host (world.setRequests (before ++ pos :: after)) pos = _ :=
    registerSource_setRequests world pos (before ++ pos :: after)
  have same : destination (registerSource host (world.setRequests (before ++ pos :: after)) pos) pos =
      destination (registerSource host world pos) pos := by
    rw [registered]
    rfl
  rcases visitRequest_cases host world pos with
    ⟨_, _, waits⟩ | ⟨waiting, late, ends⟩ | ⟨fresh, unknown, refused⟩ | ⟨dst, fresh, known, forwarded⟩
  · rw [waits, Option.toList_some, whole]
    exact .single (.quiet (.tick _))
  · rw [ends, Option.toList_none, List.append_nil]
    exact .single (.timeout _ before pos after rfl waiting late)
  · have step : HandleStep host _ _ := .notFound _ before pos after rfl fresh (same.trans unknown)
    rw [registered] at step
    rw [refused, Option.toList_none, List.append_nil]
    exact .single step
  · have step : HandleStep host _ _ := .forward _ before pos after dst rfl fresh (same.trans known)
    rw [registered] at step
    rw [forwarded, Option.toList_some, whole]
    exact .single step

theorem handleRequest_steps (world : World) :
    Relation.ReflTransGen (HandleStep host) world (handleRequest host world) :=
  sweep_invariant
    (fun state requests => Relation.ReflTransGen (HandleStep host) world (state.setRequests requests))
    (fun state before pos after reached => reached.trans (visitRequest_steps state before pos after))
    world world.bus.requests .refl

/-- A request that stays on the list has been forwarded. -/
theorem handleRequest_waiting (world : World) :
    ∀ req ∈ (handleRequest host world).bus.requests, req.state = .waitResponse := by
  refine sweep_kept _ world world.bus.requests ?_
  intro state pos _ left kept
  rcases visitRequest_cases host state pos with
    ⟨waiting, _, waits⟩ | ⟨_, _, ends⟩ | ⟨_, _, refused⟩ | ⟨dst, _, _, forwarded⟩
  · rw [waits] at kept
    cases kept
    exact waiting
  · rw [ends] at kept
    cases kept
  · rw [refused] at kept
    cases kept
  · rw [forwarded] at kept
    cases kept
    rfl

private theorem relayResponse_setResponses (world : World) (resp : ApiResponse) (responses : List ApiResponse) :
    relayResponse (world.setResponses responses) resp = (relayResponse world resp).setResponses responses := by
  have same : (world.setResponses responses).bus.requests = world.bus.requests := rfl
  unfold relayResponse
  rw [same]
  split <;> rfl

private theorem touchDestination_setResponses (world : World) (resp : ApiResponse)
    (responses : List ApiResponse) :
    touchDestination host (world.setResponses responses) resp =
      (touchDestination host world resp).setResponses responses := by
  unfold touchDestination
  split
  · rfl
  case h_2 dstid _ =>
    have same : findStation (world.setResponses responses) dstid = findStation world dstid := rfl
    rw [same]
    split <;> rfl

theorem handleResponse_steps (world : World)
    (waiting : ∀ req ∈ world.bus.requests, req.state = .waitResponse) :
    Relation.ReflTransGen (HandleStep host) world (handleResponse host world) := by
  refine (sweep_invariant
    (fun state responses => Relation.ReflTransGen (HandleStep host) world (state.setResponses responses) ∧
      ∀ req ∈ state.bus.requests, req.state = .waitResponse)
    ?_ world world.bus.responses ⟨.refl, waiting⟩).1
  rintro state before resp after ⟨reached, waiting⟩
  constructor
  · have step : HandleStep host _ _ :=
      .response (state.setResponses (before ++ resp :: after)) before resp after rfl waiting
    rw [relayResponse_setResponses, touchDestination_setResponses] at step
    simp only [visitResponse, Option.toList_none, List.append_nil]
    exact reached.tail step
  · intro req listed
    rcases touchDestination_frame host (relayResponse state resp) resp with ⟨reads, _, touched⟩
    simp only [visitResponse] at listed
    rw [touched] at listed
    rcases relayResponse_cases state resp with ⟨_, same⟩ | ⟨first, answered, last, place, _, relayed⟩
    · rw [same] at listed
      exact waiting req listed
    · rw [relayed] at listed
      refine waiting req ?_
      rw [place]
      exact List.mem_append.mpr ((List.mem_append.mp listed).imp id (List.mem_cons_of_mem _))

private theorem publish_setTopicMsgs (fds : List Fd) (tmsg : ApiTopicMsg) (topicMsgs : List ApiTopicMsg) :
    ∀ world : World,
      fds.foldl (fun world fd => apibusSend world (.publish tmsg fd)) (world.setTopicMsgs topicMsgs) =
        (fds.foldl (fun world fd => apibusSend world (.publish tmsg fd)) world).setTopicMsgs topicMsgs := by
  induction fds with
  | nil => exact fun _ => rfl
  | cons fd fds inductionHypothesis => exact fun world => inductionHypothesis (apibusSend world (.publish tmsg fd))

private theorem applyTopicMsg_setTopicMsgs (world : World) (tmsg : ApiTopicMsg) (topicMsgs : List ApiTopicMsg) :
    applyTopicMsg (world.setTopicMsgs topicMsgs) tmsg = (applyTopicMsg world tmsg).setTopicMsgs topicMsgs := by
  have same : (world.setTopicMsgs topicMsgs).bus.topics = world.bus.topics := rfl
  unfold applyTopicMsg
  split
  · unfold topicSubHandler
    rw [same]
    split <;> rfl
  · split
    · unfold topicUnsubHandler
      rw [same]
      split <;> rfl
    · unfold topicPubHandler findTopic
      rw [same]
      split
      · rfl
      · exact publish_setTopicMsgs _ tmsg topicMsgs world

private theorem publish_stopped (fds : List Fd) (tmsg : ApiTopicMsg) :
    ∀ world : World,
      (fds.foldl (fun world fd => apibusSend world (.publish tmsg fd)) world).stopped = world.stopped := by
  induction fds with
  | nil => exact fun _ => rfl
  | cons fd fds inductionHypothesis => exact fun world => inductionHypothesis (apibusSend world (.publish tmsg fd))

/-- A topic handler that stops has done nothing before. -/
private theorem applyTopicMsg_stops {world : World} {tmsg : ApiTopicMsg} (running : world.stopped = none)
    (stops : (applyTopicMsg world tmsg).stopped ≠ none) : ∃ fault, applyTopicMsg world tmsg = world.stop fault := by
  unfold applyTopicMsg at stops ⊢
  split
  · rw [if_pos (by assumption)] at stops
    unfold topicSubHandler at stops ⊢
    split
    · exact ⟨_, rfl⟩
    case h_2 empty =>
      rw [empty] at stops
      exact absurd running stops
  · rw [if_neg (by assumption)] at stops
    split
    · rw [if_pos (by assumption)] at stops
      unfold topicUnsubHandler at stops ⊢
      split
      · exact ⟨_, rfl⟩
      case h_2 topic found =>
        rw [found] at stops
        exact absurd running stops
    · rw [if_neg (by assumption)] at stops
      unfold topicPubHandler at stops
      split at stops
      · exact absurd running stops
      · exact absurd ((publish_stopped _ tmsg world).trans running) stops

private theorem visitTopicMsg_steps (world : World) (before : List ApiTopicMsg) (pos : ApiTopicMsg)
    (after : List ApiTopicMsg) :
    Relation.ReflTransGen (HandleStep host) (world.setTopicMsgs (before ++ pos :: after))
      ((visitTopicMsg world pos).1.setTopicMsgs (before ++ (visitTopicMsg world pos).2.toList ++ after)) := by
  have whole : before ++ [pos] ++ after = before ++ pos :: after := by
    rw [List.append_assoc, List.singleton_append]
  unfold visitTopicMsg
  split
  · rw [Option.toList_some, whole]
  case isFalse running =>
    have alive : world.stopped = none := by simpa using running
    dsimp only
    split
    case isTrue stops =>
      rcases applyTopicMsg_stops alive (by simpa [Option.isSome_iff_ne_none] using stops) with ⟨fault, stopped⟩
      rw [stopped, Option.toList_some, whole]
      exact .single (.quiet (.stop _ fault))
    case isFalse applied =>
      have step : HandleStep host _ _ := .topicMsg (world.setTopicMsgs (before ++ pos :: after)) before pos
        after rfl (by
          rw [applyTopicMsg_setTopicMsgs]
          exact Option.not_isSome_iff_eq_none.mp applied)
      rw [applyTopicMsg_setTopicMsgs] at step
      rw [Option.toList_none, List.append_nil]
      exact .single step

theorem handleTopicMsg_steps (world : World) :
    Relation.ReflTransGen (HandleStep host) world (handleTopicMsg world) :=
  sweep_invariant
    (fun state topicMsgs => Relation.ReflTransGen (HandleStep host) world (state.setTopicMsgs topicMsgs))
    (fun state before pos after reached => reached.trans (visitTopicMsg_steps state before pos after))
    world world.bus.topicMsgs .refl

theorem clearUnaliveStation_steps (world : World) :
    Relation.ReflTransGen (HandleStep host) world (clearUnaliveStation host world) := by
  refine sweep_invariant
    (fun state stations => Relation.ReflTransGen (HandleStep host) world (state.setStations stations))
    ?_ world world.bus.stations .refl
  intro state before station after reached
  refine reached.trans ?_
  unfold visitStation
  split
  case isTrue unalive =>
    rw [Option.toList_none, List.append_nil]
    exact .single (.dropStation _ before station after rfl unalive)
  case isFalse =>
    rw [Option.toList_some, List.append_assoc]
    exact .single (.quiet (.tick _))

end Handlers

/-! ## The poll -/

section Poll

variable {host : Host}

private theorem beginPoll_quiet (world : World) : Quiet world (beginPoll host world) := by
  constructor <;> first | rfl | exact Nat.le_succ _

private theorem updateIdle_quiet (world : World) : Quiet world (updateIdle world) := by
  constructor <;> rfl

/-- An action that does not run takes no step. -/
private theorem unlessStopped_steps {step : World -> World -> Prop} (action : World -> World) {world : World}
    (steps : Relation.ReflTransGen step world (action world)) :
    Relation.ReflTransGen step world (unlessStopped action world) :=
  unlessStopped_rule (Relation.ReflTransGen step world) .refl steps

theorem pollSinks_steps (input : PollInput) (world : World) :
    Relation.ReflTransGen (SinkStep input.HandsOut) world (pollSinks host input world) :=
  ((unlessStopped_steps _ (posixPoll_steps .serial)).trans (unlessStopped_steps _ (posixPoll_steps .tcp))).trans
    (unlessStopped_steps _ (posixPoll_steps .unix))

/-- The world when the sinks have been polled. -/
def sinkPhase (host : Host) (input : PollInput) (world : World) : World :=
  pollSinks host input (beginPoll host world)

theorem sinkPhase_steps (host : Host) (input : PollInput) (world : World) :
    Relation.ReflTransGen (SinkStep input.HandsOut) world (sinkPhase host input world) :=
  .head (.quiet (beginPoll_quiet world)) (pollSinks_steps input _)

theorem receivePhase_steps (input : PollInput) (world : World) :
    Relation.ReflTransGen (ParseStep host) (sinkPhase host input world) (receivePhase host input world) :=
  (unlessStopped_steps _ (parseSinkfds_steps _)).trans
    (unlessStopped_steps _ (.single (.quiet (updateIdle_quiet _))))

theorem handlePhase_steps (world : World) :
    Relation.ReflTransGen (HandleStep host) world (handlePhase host world) := by
  have first : Relation.ReflTransGen (HandleStep host) world
      (unlessStopped (handleResponse host) (unlessStopped (handleRequest host) world)) := by
    by_cases stopped : world.stopped.isSome = true
    · simp only [unlessStopped, stopped, if_true]
      exact .refl
    · simp only [unlessStopped, stopped]
      refine (handleRequest_steps world).trans ?_
      exact unlessStopped_steps _ (handleResponse_steps _ (handleRequest_waiting world))
  exact (first.trans (unlessStopped_steps _ (handleTopicMsg_steps _))).trans
    (unlessStopped_steps _ (clearUnaliveStation_steps _))

theorem busStep_openSink_steps (world : World) (kind : SinkKind) (answer : Option Nat) :
    Relation.ReflTransGen (SinkStep (answer = some ·)) world (busStep host world (.openSink kind answer)) :=
  unlessStopped_steps (fun world => openSink world kind answer) (openSink_step kind answer)

theorem busStep_close_steps (world : World) (num : Nat) :
    Relation.ReflTransGen (SinkStep fun _ => False) world (busStep host world (.close num)) :=
  unlessStopped_steps (fun world => apibusClose world num) (apibusClose_step num)

/-- A poll runs only while the bus has not stopped. -/
theorem busStep_poll (host : Host) (world : World) (input : PollInput) :
    busStep host world (.poll input) = world ∨
      world.stopped = none ∧ busStep host world (.poll input) = handlePhase host (receivePhase host input world) := by
  change unlessStopped (apibusPoll host input) world = world ∨
    _ ∧ unlessStopped (apibusPoll host input) world = _
  unfold unlessStopped
  split
  · exact Or.inl rfl
  case isFalse running => exact Or.inr ⟨by simpa using running, rfl⟩

/-- What holds at the start and is kept by every step holds after any run. -/
theorem busRun_invariant (invariant : World -> Prop)
    (sinks : ∀ handsOut before after, SinkStep handsOut before after -> invariant before -> invariant after)
    (parser : ∀ before after, ParseStep host before after -> invariant before -> invariant after)
    (handlers : ∀ before after, HandleStep host before after -> invariant before -> invariant after)
    (inputs : List BusInput) : ∀ world, invariant world -> invariant (busRun host world inputs) := by
  induction inputs with
  | nil => exact fun _ holds => holds
  | cons input inputs inductionHypothesis =>
      intro world holds
      refine inductionHypothesis _ ?_
      cases input with
      | poll input =>
          rcases busStep_poll host world input with same | ⟨_, polled⟩
          · rw [same]
            exact holds
          · rw [polled]
            have received := steps_invariant invariant (sinks _) (sinkPhase_steps host input world) holds
            have parsed := steps_invariant invariant parser (receivePhase_steps input world) received
            exact steps_invariant invariant handlers (handlePhase_steps _) parsed
      | openSink kind answer =>
          exact steps_invariant invariant (sinks _) (busStep_openSink_steps world kind answer) holds
      | close num => exact steps_invariant invariant (sinks _) (busStep_close_steps world num) holds

end Poll

end Bus
end Extlib
