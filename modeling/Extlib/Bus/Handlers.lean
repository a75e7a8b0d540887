import Extlib.Bus.Parse

namespace Extlib
namespace Bus

open Text Srrp Machine

/-!
# The handlers

What `apibus_poll` does with the pending entries once everything received has
been parsed: `handle_request`, `handle_response`, `handle_topic_msg` and
`clear_unalive_station`, with the station and topic tables they use.
-/

variable (host : Host)

/-! ## Stations -/

/-- `find_station`. -/
def findStation (world : World) (sttid : UInt16) : Option ApiStation :=
  world.bus.stations.find? (·.sttid = sttid)

def addStation (world : World) (req : ApiRequest) : World :=
  world.tick.setStations (⟨req.pac.srcid, world.time host, req.fd⟩ :: world.bus.stations)

/-- `stt->ts_alive = time(0)` for the station that `find_station` returns. -/
def touchStation (world : World) (sttid : UInt16) : World :=
  world.tick.setStations (world.bus.stations.modify (world.bus.stations.findIdx (·.sttid = sttid))
    fun station => { station with tsAlive := world.time host })

def visitStation (world : World) (station : ApiStation) : World × Option ApiStation :=
  if world.time host > station.tsAlive + apibusStationAliveTimeout / 1000 then (world.tick, none)
  else (world.tick, some station)

def clearUnaliveStation (world : World) : World :=
  let swept := sweep (visitStation host) world world.bus.stations
  swept.1.setStations swept.2

/-! ## Requests and responses -/

/-- `sscanf(header, "/%d/", &dstid)`, passed on as the `uint16_t` parameter of
`find_station`. -/
def scanDstid (header : CString) : Option UInt16 :=
  match scan [.literal 47, .decimal, .literal 47] header.chars with
  | [.word dstid] => some dstid.toUInt16
  | _ => none

/-- The sender of a request is a station from now on. -/
def registerSource (world : World) (req : ApiRequest) : World :=
  match findStation world req.pac.srcid with
  | none => addStation host world req
  | some _ => touchStation host world req.pac.srcid

/-- The station a request is for. -/
def destination (world : World) (req : ApiRequest) : Option ApiStation :=
  (scanDstid req.pac.header).bind (findStation world)

def visitRequest (world : World) (pos : ApiRequest) : World × Option ApiRequest :=
  if pos.state = .waitResponse then
    if world.time host < pos.tsSend + apiRequestTimeout / 1000 then (world.tick, some pos)
    else (apibusSend world.tick (.requestTimeout pos), none)
  else
    let world := registerSource host world pos
    match destination world pos with
    | none => (apibusSend world (.stationNotFound pos), none)
    | some dst =>
        let world := apibusSend world (.forward pos dst)
        (world.tick, some { pos with state := .waitResponse, tsSend := world.time host })

def handleRequest (world : World) : World :=
  let swept := sweep (visitRequest host) world world.bus.requests
  swept.1.setRequests swept.2

/-- The test for the request a response answers. -/
def answers (resp : ApiResponse) (req : ApiRequest) : Bool :=
  req.crc16 = resp.pac.reqcrc16 ∧ req.pac.header = resp.pac.header ∧ req.pac.srcid = resp.pac.srcid

/-- Relay a response to the first request it answers, and delete that request. -/
def relayResponse (world : World) (resp : ApiResponse) : World :=
  match world.bus.requests.find? (answers resp) with
  | none => world
  | some req =>
      (apibusSend world (.relay resp req)).setRequests (world.bus.requests.eraseP (answers resp))

/-- The station a response is addressed to is alive. -/
def touchDestination (world : World) (resp : ApiResponse) : World :=
  match scanDstid resp.pac.header with
  | none => world
  | some dstid =>
      match findStation world dstid with
      | none => world
      | some _ => touchStation host world dstid

def visitResponse (world : World) (pos : ApiResponse) : World × Option ApiResponse :=
  (touchDestination host (relayResponse world pos) pos, none)

def handleResponse (world : World) : World :=
  let swept := sweep (visitResponse host) world world.bus.responses
  swept.1.setResponses swept.2

/-! ## Topics -/

/-- `memcmp` over the first `len` bytes of two header arrays, which are zero
behind their strings. -/
def headersAgree (len : Nat) (left right : CString) : Bool :=
  (left.chars ++ List.replicate len 0).take len = (right.chars ++ List.replicate len 0).take len

/-- `find_topic`. -/
def findTopic (world : World) (header : CString) (len : Nat) : Option ApiTopic :=
  world.bus.topics.find? fun topic => headersAgree len topic.header header

/-- The loop compares with `topic`, which is still `NULL`, and not with `pos`:
it can be passed only when there is no topic yet.  The topic is then created,
and its array is empty. -/
def topicSubHandler (world : World) (tmsg : ApiTopicMsg) : World :=
  match world.bus.topics with
  | _ :: _ => world.stop .nullTopic
  | [] =>
      let topic : ApiTopic := ⟨tmsg.pac.header.slice 0 (apiHeaderSize - 1), [tmsg.fd]⟩
      apibusSend (world.setTopics [topic]) (.subOk tmsg)

/-- The loop over the descriptors of a topic from `i` on: a match is replaced
by the last descriptor, and the loop goes on behind it. -/
def removeFd (num : Nat) : Nat -> Nat -> List Fd -> List Fd
  | 0, _, fds => fds
  | rounds + 1, i, fds =>
      match fds[i]? with
      | none => fds
      | some fd =>
          if fd.num = num then removeFd num rounds (i + 1) ((fds.set i (fds.getLastD fd)).dropLast)
          else removeFd num rounds (i + 1) fds

/-- Without a match the loop over the topics leaves `topic` pointing to the
head of the list, taken for an entry. -/
def topicUnsubHandler (world : World) (tmsg : ApiTopicMsg) : World :=
  match world.bus.topics.find? (·.header = tmsg.pac.header) with
  | none => world.stop .wildTopic
  | some topic =>
      let fds := removeFd tmsg.fd.num topic.fds.length 0 topic.fds
      let topics := world.bus.topics.modify (world.bus.topics.findIdx (·.header = tmsg.pac.header))
        fun topic => { topic with fds := fds }
      apibusSend (world.setTopics topics) (.unsubOk tmsg)

def topicPubHandler (world : World) (tmsg : ApiTopicMsg) : World :=
  match findTopic world tmsg.pac.header tmsg.pac.headerLen.toNat with
  | none => world
  | some topic => topic.fds.foldl (fun world fd => apibusSend world (.publish tmsg fd)) world

def applyTopicMsg (world : World) (tmsg : ApiTopicMsg) : World :=
  if tmsg.pac.leader = srrpSubscribeLeader then topicSubHandler world tmsg
  else if tmsg.pac.leader = srrpUnsubscribeLeader then topicUnsubHandler world tmsg
  else topicPubHandler world tmsg

def visitTopicMsg (world : World) (pos : ApiTopicMsg) : World × Option ApiTopicMsg :=
  if world.stopped.isSome then (world, some pos)
  else
    let applied := applyTopicMsg world pos
    if applied.stopped.isSome then (applied, some pos) else (applied.emit (.handledTopicMsg pos), none)

def handleTopicMsg (world : World) : World :=
  let swept := sweep visitTopicMsg world world.bus.topicMsgs
  swept.1.setTopicMsgs swept.2

/-! ## The number in a header -/

/-- A run of digits behind the slash is the number, whatever ends it: that the
last literal of the format fails goes unnoticed. -/
theorem scanDstid_digits {header : CString} {sttid : UInt16} {digits rest : List UInt8}
    (place : header.chars = 47 :: (digits ++ rest)) (nonempty : digits ≠ [])
    (decimal : ∀ c ∈ digits, isDigit c = true) (stops : ∀ c ∈ rest.head?, isDigit c = false)
    (value : magnitude 10 decimalValue digits = sttid.toNat) : scanDstid header = some sttid := by
  have word := sttid.toNat_lt
  have number : scanDecimal none (digits ++ rest) =
      some (UInt32.ofNat (magnitude 10 decimalValue digits), rest) :=
    scanDecimal_digits nonempty decimal (by omega) stops
  have cut : (UInt32.ofNat sttid.toNat).toUInt16 = sttid := by
    apply UInt16.toNat_inj.mp
    simp only [UInt32.toNat_toUInt16, UInt32.toNat_ofNat']
    omega
  have fields : scan [.literal 47, .decimal, .literal 47] header.chars = [.word (UInt32.ofNat sttid.toNat)] := by
    simp only [place, scan, if_true, number, value]
    cases rest with
    | nil => rfl
    | cons head tail => simp only [ite_self]
  simp only [scanDstid, fields, cut]

/-! ## What the handlers change -/

section Frames

variable {host : Host}

/-- Registering a sender changes the stations and reads the clock once. -/
theorem registerSource_frame (world : World) (req : ApiRequest) :
    registerSource host world req =
      world.tick.setStations (registerSource host world req).bus.stations := by
  unfold registerSource
  split <;> rfl

/-- So does a sign of life from a destination, if it is a station. -/
theorem touchDestination_frame (host : Host) (world : World) (resp : ApiResponse) :
    ∃ reads, world.reads ≤ reads ∧ touchDestination host world resp =
      { world.setStations (touchDestination host world resp).bus.stations with reads := reads } := by
  unfold touchDestination
  split
  · exact ⟨_, Nat.le_refl _, rfl⟩
  · split
    · exact ⟨_, Nat.le_refl _, rfl⟩
    · exact ⟨_, Nat.le_succ _, rfl⟩

/-- A sign of life changes nothing but the time of the entry. -/
theorem touchStation_map {Key : Type} (host : Host) (world : World) (sttid : UInt16) (key : ApiStation -> Key)
    (timeless : ∀ (station : ApiStation) (time : Nat), key { station with tsAlive := time } = key station) :
    (touchStation host world sttid).bus.stations.map key = world.bus.stations.map key := by
  simp only [touchStation, World.setStations]
  refine List.ext_getElem (by simp) fun i _ _ => ?_
  simp only [List.getElem_map, List.getElem_modify]
  split
  · exact timeless _ _
  · rfl

theorem touchStation_sttids (host : Host) (world : World) (sttid : UInt16) :
    (touchStation host world sttid).bus.stations.map (·.sttid) = world.bus.stations.map (·.sttid) :=
  touchStation_map host world sttid _ fun _ _ => rfl

theorem mem_touchStation {host : Host} {world : World} {sttid : UInt16} {station : ApiStation}
    (listed : station ∈ (touchStation host world sttid).bus.stations) :
    ∃ old ∈ world.bus.stations, old.fd = station.fd := by
  have fds := touchStation_map host world sttid (·.fd) fun _ _ => rfl
  exact List.mem_map.mp (fds ▸ List.mem_map.mpr ⟨station, listed, rfl⟩)

/-- Registering a sender brings in no descriptor but that of the request. -/
theorem mem_registerSource {host : Host} {world : World} {req : ApiRequest} {station : ApiStation}
    (listed : station ∈ (registerSource host world req).bus.stations) :
    station.fd = req.fd ∨ ∃ old ∈ world.bus.stations, old.fd = station.fd := by
  unfold registerSource at listed
  split at listed
  · rcases List.mem_cons.mp listed with rfl | old
    · exact Or.inl rfl
    · exact Or.inr ⟨station, old, rfl⟩
  · exact Or.inr (mem_touchStation listed)

theorem mem_touchDestination {host : Host} {world : World} {resp : ApiResponse} {station : ApiStation}
    (listed : station ∈ (touchDestination host world resp).bus.stations) :
    ∃ old ∈ world.bus.stations, old.fd = station.fd := by
  unfold touchDestination at listed
  split at listed
  · exact ⟨station, listed, rfl⟩
  · split at listed
    · exact ⟨station, listed, rfl⟩
    · exact mem_touchStation listed

/-- A request that was forwarded waits or times out; any other is refused or
forwarded once its sender is registered. -/
theorem visitRequest_cases (host : Host) (world : World) (pos : ApiRequest) :
    (pos.state = .waitResponse ∧ world.time host < pos.tsSend + apiRequestTimeout / 1000 ∧
        visitRequest host world pos = (world.tick, some pos)) ∨
      (pos.state = .waitResponse ∧ pos.tsSend + apiRequestTimeout / 1000 ≤ world.time host ∧
        visitRequest host world pos = (apibusSend world.tick (.requestTimeout pos), none)) ∨
      (pos.state = .none ∧ destination (registerSource host world pos) pos = none ∧
        visitRequest host world pos =
          (apibusSend (registerSource host world pos) (.stationNotFound pos), none)) ∨
      ∃ dst, pos.state = .none ∧ destination (registerSource host world pos) pos = some dst ∧
        visitRequest host world pos =
          ((apibusSend (registerSource host world pos) (.forward pos dst)).tick,
            some { pos with
              state := .waitResponse
              tsSend := (apibusSend (registerSource host world pos) (.forward pos dst)).time host }) := by
  unfold visitRequest
  split
  case isTrue waiting =>
    split
    case isTrue soon => exact Or.inl ⟨waiting, soon, rfl⟩
    case isFalse late => exact Or.inr (Or.inl ⟨waiting, Nat.le_of_not_lt late, rfl⟩)
  case isFalse fresh =>
    have none : pos.state = .none := by
      cases state : pos.state with
      | none => rfl
      | waitResponse => exact absurd state fresh
    dsimp only
    split
    case h_1 unknown => exact Or.inr (Or.inr (Or.inl ⟨none, unknown, rfl⟩))
    case h_2 dst known => exact Or.inr (Or.inr (Or.inr ⟨dst, none, known, rfl⟩))

/-- A response answers no request, or the first one it matches. -/
theorem relayResponse_cases (world : World) (resp : ApiResponse) :
    (world.bus.requests.find? (answers resp) = none ∧ relayResponse world resp = world) ∨
      ∃ before req after, world.bus.requests = before ++ req :: after ∧
        world.bus.requests.find? (answers resp) = some req ∧
        relayResponse world resp = (apibusSend world (.relay resp req)).setRequests (before ++ after) := by
  unfold relayResponse
  split
  case h_1 absent => exact Or.inl ⟨absent, rfl⟩
  case h_2 req found =>
    rcases find_split found with ⟨before, after, place, erased⟩
    exact Or.inr ⟨before, req, after, place, found, by rw [erased]⟩

private theorem mem_removeFd {num : Nat} {fd : Fd} (rounds : Nat) :
    ∀ (i : Nat) (fds : List Fd), fd ∈ removeFd num rounds i fds -> fd ∈ fds := by
  induction rounds with
  | zero => exact fun _ _ member => member
  | succ rounds inductionHypothesis =>
      intro i fds member
      unfold removeFd at member
      split at member
      · exact member
      case h_2 current found =>
        split at member
        · have left := List.mem_of_mem_dropLast (inductionHypothesis _ _ member)
          rcases List.mem_or_eq_of_mem_set left with old | last
          · exact old
          · rw [last]
            cases fds with
            | nil => simp at found
            | cons head tail =>
                rw [List.getLastD_cons, ← List.getLast_eq_getLastD]
                exact List.getLast_mem (List.cons_ne_nil head tail)
        · exact inductionHypothesis _ _ member

/-- The calls of `apibus_send` a topic packet leads to. -/
def SendCall.ForTopic (tmsg : ApiTopicMsg) (call : SendCall) : Prop :=
  call = .subOk tmsg ∨ call = .unsubOk tmsg ∨ ∃ fd, call = .publish tmsg fd

/-- The event of a call: `apibus_send` looks the descriptor up among the
sinkfds. -/
def sendEvent (world : World) (call : SendCall) : Event :=
  .send call ((findSinkfdInApibus world call.fd.num).map (·.fd))

theorem publish_frame (tmsg : ApiTopicMsg) (fds : List Fd) :
    ∀ world : World, fds.foldl (fun world fd => apibusSend world (.publish tmsg fd)) world =
      { world with trace := world.trace ++ (fds.map (SendCall.publish tmsg)).map (sendEvent world) } := by
  induction fds with
  | nil =>
      intro world
      rw [List.foldl_nil, List.map_nil, List.map_nil, List.append_nil]
  | cons fd fds inductionHypothesis =>
      intro world
      rw [List.foldl_cons, inductionHypothesis, List.map_cons, List.map_cons]
      simp only [apibusSend, World.emit, List.append_assoc, List.singleton_append]
      rfl

/-- A topic packet changes the topics and sends, and may stop the bus.  No
descriptor comes into a topic, and nothing is sent to one, but that of the
packet and those already in a topic. -/
def TopicEffect (world : World) (tmsg : ApiTopicMsg) (after : World) : Prop :=
  ∃ (topics : List ApiTopic) (calls : List SendCall) (stopped : Option Fault),
    after =
      { world.setTopics topics with
        trace := world.trace ++ calls.map (sendEvent world)
        stopped := stopped } ∧
    (stopped = world.stopped ∨ stopped = some .nullTopic ∨ stopped = some .wildTopic) ∧
    (∀ topic ∈ topics, ∀ fd ∈ topic.fds, fd = tmsg.fd ∨ ∃ old ∈ world.bus.topics, fd ∈ old.fds) ∧
    ∀ call ∈ calls, call.ForTopic tmsg ∧ (call.fd = tmsg.fd ∨ ∃ old ∈ world.bus.topics, call.fd ∈ old.fds)

theorem applyTopicMsg_effect (world : World) (tmsg : ApiTopicMsg) :
    TopicEffect world tmsg (applyTopicMsg world tmsg) := by
  have unchanged : ∀ stopped, (stopped = world.stopped ∨ stopped = some .nullTopic ∨ stopped = some .wildTopic) ->
      TopicEffect world tmsg { world with stopped := stopped } := by
    intro stopped reason
    refine ⟨world.bus.topics, [], stopped, ?_, reason, ?_, by simp⟩
    · rw [List.map_nil, List.append_nil]
      rfl
    · exact fun topic member fd listed => Or.inr ⟨topic, member, listed⟩
  unfold applyTopicMsg
  split
  · unfold topicSubHandler
    split
    · exact unchanged _ (Or.inr (Or.inl rfl))
    · refine ⟨_, [.subOk tmsg], world.stopped, rfl, Or.inl rfl, ?_, ?_⟩
      · intro topic member fd listed
        rw [List.mem_singleton.mp member] at listed
        exact Or.inl (List.mem_singleton.mp listed)
      · intro call member
        rw [List.mem_singleton.mp member]
        exact ⟨Or.inl rfl, Or.inl rfl⟩
  · split
    · unfold topicUnsubHandler
      split
      · exact unchanged _ (Or.inr (Or.inr rfl))
      case h_2 topic found =>
        refine ⟨_, [.unsubOk tmsg], world.stopped, rfl, Or.inl rfl, ?_, ?_⟩
        · intro changed member fd listed
          rcases List.mem_iff_getElem.mp member with ⟨i, inside, place⟩
          rw [List.getElem_modify] at place
          split at place
          · rw [← place] at listed
            exact Or.inr ⟨topic, List.mem_of_find?_eq_some found, mem_removeFd _ _ _ listed⟩
          · rw [← place] at listed
            exact Or.inr ⟨_, List.getElem_mem _, listed⟩
        · intro call member
          rw [List.mem_singleton.mp member]
          exact ⟨Or.inr (Or.inl rfl), Or.inl rfl⟩
    · unfold topicPubHandler
      split
      · exact unchanged _ (Or.inl rfl)
      case h_2 topic found =>
        refine ⟨world.bus.topics, topic.fds.map (SendCall.publish tmsg), world.stopped,
          publish_frame tmsg topic.fds world, Or.inl rfl, ?_, ?_⟩
        · exact fun old member fd listed => Or.inr ⟨old, member, listed⟩
        · intro call member
          rcases List.mem_map.mp member with ⟨fd, listed, rfl⟩
          exact ⟨Or.inr (Or.inr ⟨fd, rfl⟩), Or.inr ⟨topic, List.mem_of_find?_eq_some found, listed⟩⟩

end Frames

end Bus
end Extlib
