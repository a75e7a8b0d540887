import Extlib.Bus.Segmentation

namespace Extlib
namespace Bus

open Text Buffer Srrp Machine World

/-!
# A request and its response

The requester writes a request, the bus decodes it and sends its bytes on, the
destination decodes those and answers, and the bus finds the request by the
id, the header and the checksum in the answer.  Each of the three computes the
checksum from its own copy of header and data.
-/

/-- The header starts with the number of the station between two slashes. -/
def AddressedTo (sttid : UInt16) (header : CString) : Prop :=
  ∃ digits rest, header.chars = 47 :: (digits ++ 47 :: rest) ∧ digits ≠ [] ∧
    (∀ c ∈ digits, isDigit c = true) ∧ magnitude 10 decimalValue digits = sttid.toNat

/-- `crc16_crc(crc16(header), data)`. -/
def requestKey (header data : CString) : UInt16 := crc16Crc (crc16 header.chars) data.chars

/-- A request to a station and the response to it, as their writers build
them. -/
structure Exchange where
  srcid : UInt16
  sttid : UInt16
  header : CString
  data : CString
  answer : CString
  request : WrittenPacket
  response : WrittenPacket
  addressed : AddressedTo sttid header
  requested : request.call = .request srcid header data
  responded : response.call = .response srcid (requestKey header data) header answer

/-- The test of `handle_response`, between two pending requests. -/
def SameKey (req other : ApiRequest) : Prop :=
  other.crc16 = req.crc16 ∧ other.pac.header = req.pac.header ∧ other.pac.srcid = req.pac.srcid

/-- The request is pending, and no other has its id, header and checksum. -/
def OnlyPending (world : World) (req : ApiRequest) : Prop :=
  ∃ before after, world.bus.requests = before ++ req :: after ∧ ∀ other ∈ before ++ after, ¬ SameKey req other

/-- The bus as the loop of `handle_request` leaves it behind these entries. -/
def handledUpTo (host : Host) (world : World) (entries : List ApiRequest) : World :=
  (sweep (visitRequest host) world entries).1

/-- The descriptor that requests to the id are sent to. -/
def boundTo (world : World) (sttid : UInt16) : Option Fd := (findStation world sttid).map (·.fd)

namespace Exchange

variable (exchange : Exchange)

/-- The record of the request, for a requester and in a state. -/
structure Record (fd : Fd) (state : RequestState) (req : ApiRequest) : Prop where
  pac : req.pac = exchange.request.pac
  fd : req.fd = fd
  crc16 : req.crc16 = requestKey exchange.header exchange.data
  state : req.state = state

/-- Where `handle_request` comes to the request, behind the entries `before`:
`find_station` returns the station once the sender is registered, the request
is sent to the descriptor of that station, and it waits from the time that is
read after the send. -/
structure SentAt (host : Host) (world : World) (before : List ApiRequest) (req : ApiRequest) (dst : ApiStation)
    (waiting : ApiRequest) : Prop where
  found : findStation (registerSource host (handledUpTo host world before) req) exchange.sttid = some dst
  trace : (handledUpTo host world (before ++ [req])).trace =
    (handledUpTo host world before).trace ++ [sendEvent world (.forward req dst)]
  waiting : waiting =
    { req with
      state := .waitResponse
      tsSend := (apibusSend (registerSource host (handledUpTo host world before) req) (.forward req dst)).time host }

/-- `handle_request` sends the request to the station that has the id in the
table, where it is read as it was written, and lets it wait. -/
structure Forwarded (host : Host) (fd : Fd) (world : World) (req : ApiRequest) (dst : ApiStation)
    (waiting : ApiRequest) : Prop where
  station : dst.sttid = exchange.sttid
  bound : boundTo world exchange.sttid = some dst.fd
  visited : ∃ before after, world.bus.requests = before ++ req :: after ∧
    exchange.SentAt host world before req dst waiting
  sent : ∃ new, (handleRequest host world).trace = world.trace ++ new ∧
    sendEvent world (.forward req dst) ∈ new
  read : ∀ beyond behind, ∃ pac,
    srrpReadOnePacket beyond ((SendCall.forward req dst).bytes ++ behind) = .packet pac ∧
      pac.srcid = exchange.srcid ∧ pac.header = exchange.header ∧ pac.dataText = exchange.data
  waits : waiting ∈ (handleRequest host world).bus.requests
  record : exchange.Record fd .waitResponse waiting

/-- While it waits and is the only one of its key: `handle_request` leaves it
until the timeout, the response is read as it was written, and the visit of
the response sends it to the requester and deletes this request alone. -/
structure Answered (host : Host) (fd : Fd) (waiting : ApiRequest) : Prop where
  stays : ∀ world, OnlyPending world waiting ->
    (handleRequest host world).time host < waiting.tsSend + apiRequestTimeout / 1000 ->
    OnlyPending (handleRequest host world) waiting
  parsed : ∀ (world : World) (sinkfd : SinkFd), sinkfd.rxbuf.Valid ->
    sinkfd.rxbuf.unread = exchange.response.pac.raw ->
    ∃ resp, resp.pac = exchange.response.pac ∧
      (parsePacket host world sinkfd).1.bus.responses = resp :: world.bus.responses ∧
      (parsePacket host world sinkfd).1.bus.requests = world.bus.requests
  relayed : ∀ (world : World) (resp : ApiResponse) (before after : List ApiRequest),
    resp.pac = exchange.response.pac -> world.bus.requests = before ++ waiting :: after ->
    (∀ other ∈ before ++ after, ¬ SameKey waiting other) ->
    (visitResponse host world resp).1.bus.requests = before ++ after ∧
      (visitResponse host world resp).1.trace = world.trace ++ [sendEvent world (.relay resp waiting)] ∧
      (SendCall.relay resp waiting).fd = fd ∧
      (SendCall.relay resp waiting).bytes = exchange.response.pac.raw

end Exchange

/-! ## The fields of the packets -/

section Fields

variable {exchange : Exchange}

private theorem scanDstid_addressed {sttid : UInt16} {header : CString} (addressed : AddressedTo sttid header) :
    scanDstid header = some sttid := by
  rcases addressed with ⟨digits, rest, place, nonempty, decimal, value⟩
  apply scanDstid_digits place nonempty decimal _ value
  intro c first
  cases first
  decide

theorem Exchange.request_pac (exchange : Exchange) :
    exchange.request.pac.leader = srrpRequestLeader ∧ exchange.request.pac.srcid = exchange.srcid ∧
      exchange.request.pac.header = exchange.header ∧ exchange.request.pac.dataText = exchange.data := by
  have text := exchange.request.dataText_eq
  rw [exchange.requested] at text
  refine ⟨?_, ?_, ?_, text⟩ <;> rw [exchange.request.pac_eq] <;>
    simp only [WriteCall.written, exchange.requested, WriteCall.leader, WriteCall.srcid, WriteCall.header]

theorem Exchange.response_pac (exchange : Exchange) :
    exchange.response.pac.leader = srrpResponseLeader ∧ exchange.response.pac.srcid = exchange.srcid ∧
      exchange.response.pac.header = exchange.header ∧
      exchange.response.pac.reqcrc16 = requestKey exchange.header exchange.data := by
  refine ⟨?_, ?_, ?_, ?_⟩ <;> rw [exchange.response.pac_eq] <;>
    simp only [WriteCall.written, exchange.responded, WriteCall.leader, WriteCall.srcid, WriteCall.header,
      WriteCall.reqcrc16]

/-- The bus computes the checksum the responder computes. -/
theorem newRequest_record (host : Host) (world : World) (fd : Fd) :
    exchange.Record fd .none (newRequest host world fd exchange.request.pac) where
  pac := rfl
  fd := rfl
  crc16 := by
    have data := exchange.request.dataBytes_eq (host.behindPacket world.nodes)
    have short := exchange.request.documented.headerShort
    have header : headerBytes exchange.request.pac = exchange.header.chars := by
      rw [exchange.requested] at short
      have fits : exchange.header.length < srrpHeaderLen := short
      have count : exchange.request.pac.headerLen.toNat = exchange.header.chars.length := by
        rw [exchange.request.pac_eq]
        simp only [WriteCall.written, exchange.requested, WriteCall.header, UInt32.toNat_ofNat', CString.length,
          srrpHeaderLen] at fits ⊢
        omega
      rw [headerBytes, exchange.request_pac.2.2.1, count, List.take_left]
    rw [exchange.requested] at data
    simp only [newRequest, header, data, requestKey]
    rfl
  state := rfl

/-- The bytes sent on are the packet as it was written. -/
private theorem take_raw (written : WrittenPacket) : written.pac.raw.take written.pac.len.toNat = written.pac.raw := by
  rw [written.len_toNat, List.take_length]

end Fields

/-! ## The walk of `handle_request` -/

section Requests

variable {host : Host}

/-- A station with this id is on the list. -/
def Registered (world : World) (sttid : UInt16) : Prop := ∃ station ∈ world.bus.stations, station.sttid = sttid

theorem findStation_eq_none (world : World) (sttid : UInt16) :
    findStation world sttid = none ↔ ¬ Registered world sttid := by
  simp only [findStation, List.find?_eq_none, decide_eq_true_eq, Registered, not_exists, not_and]

theorem findStation_registered {world : World} {sttid : UInt16} {station : ApiStation}
    (found : findStation world sttid = some station) : Registered world sttid :=
  ⟨station, List.mem_of_find?_eq_some found, by simpa using List.find?_some found⟩

theorem registered_iff_boundTo (world : World) (sttid : UInt16) :
    Registered world sttid ↔ ∃ fd, boundTo world sttid = some fd := by
  rw [← not_iff_not, ← findStation_eq_none, not_exists, ← Option.eq_none_iff_forall_ne_some, boundTo,
    Option.map_eq_none_iff]

/-- A binding is a matter of ids and descriptors. -/
theorem boundTo_eq (world : World) (sttid : UInt16) :
    boundTo world sttid =
      ((world.bus.stations.map fun station => (station.sttid, station.fd)).find? (·.1 = sttid)).map (·.2) := by
  rw [List.find?_map, Option.map_map]
  rfl

/-- The sender of a request is bound to the descriptor the request came in on,
if it was not bound before, and no other binding changes. -/
theorem boundTo_registerSource (world : World) (req : ApiRequest) (sttid : UInt16) :
    boundTo (registerSource host world req) sttid =
      if sttid = req.pac.srcid then some ((boundTo world sttid).getD req.fd) else boundTo world sttid := by
  unfold registerSource
  split
  case h_1 absent =>
    by_cases own : sttid = req.pac.srcid
    · rw [if_pos own, own, boundTo, boundTo, absent]
      simp [findStation, addStation, World.setStations]
    · have other : ¬ req.pac.srcid = sttid := fun same => own same.symm
      rw [if_neg own, boundTo, boundTo]
      simp [findStation, addStation, World.setStations, other, World.tick]
  case h_2 station found =>
    have same : boundTo (touchStation host world req.pac.srcid) sttid = boundTo world sttid := by
      rw [boundTo_eq, boundTo_eq, touchStation_map host world _ _ fun _ _ => rfl]
    rw [same]
    split
    case isTrue own =>
      have bound : boundTo world sttid = some station.fd := by rw [own, boundTo, found, Option.map_some]
      rw [bound, Option.getD_some]
    · rfl

/-- What the visit of a request leaves as it is. -/
structure Walked (before after : World) : Prop where
  sinkfds : after.bus.sinkfds = before.bus.sinkfds
  reads : before.reads ≤ after.reads
  trace : before.trace <+: after.trace
  bound : ∀ sttid fd, boundTo before sttid = some fd -> boundTo after sttid = some fd

theorem Walked.refl (world : World) : Walked world world :=
  ⟨rfl, Nat.le_refl _, List.prefix_refl _, fun _ _ bound => bound⟩

theorem Walked.trans {first second third : World} (left : Walked first second) (right : Walked second third) :
    Walked first third :=
  ⟨right.sinkfds.trans left.sinkfds, Nat.le_trans left.reads right.reads, left.trace.trans right.trace,
    fun sttid fd bound => right.bound sttid fd (left.bound sttid fd bound)⟩

theorem registerSource_walked (host : Host) (world : World) (req : ApiRequest) :
    Walked world (registerSource host world req) := by
  have frame := (registerSource_frame world req : registerSource host world req = _)
  refine ⟨by rw [frame]; rfl, by rw [frame]; exact Nat.le_succ _, by rw [frame]; exact List.prefix_refl _, ?_⟩
  intro sttid fd bound
  rw [boundTo_registerSource, bound, Option.getD_some, ite_self]

theorem visitRequest_walked (world : World) (pos : ApiRequest) :
    Walked world (visitRequest host world pos).1 := by
  have source := registerSource_walked host world pos
  rcases visitRequest_cases host world pos with
    ⟨_, _, waits⟩ | ⟨_, _, ends⟩ | ⟨_, _, refused⟩ | ⟨dst, _, _, forwarded⟩
  · rw [waits]
    exact ⟨rfl, Nat.le_succ _, List.prefix_refl _, fun _ _ bound => bound⟩
  · rw [ends]
    exact ⟨rfl, Nat.le_succ _, List.prefix_append _ _, fun _ _ bound => bound⟩
  · rw [refused]
    exact source.trans ⟨rfl, Nat.le_refl _, List.prefix_append _ _, fun _ _ bound => bound⟩
  · rw [forwarded]
    exact source.trans ⟨rfl, Nat.le_succ _, List.prefix_append _ _, fun _ _ bound => bound⟩

theorem sweepRequests_walked (host : Host) (world : World) (requests : List ApiRequest) :
    Walked world (sweep (visitRequest host) world requests).1 :=
  sweep_state (Walked world) (fun state pos walked => walked.trans (visitRequest_walked state pos)) world requests
    (.refl world)

/-- An entry that stays keeps its packet, its requester and its checksum. -/
private theorem visitRequest_kept {world : World} {pos left : ApiRequest}
    (kept : (visitRequest host world pos).2 = some left) :
    left.pac = pos.pac ∧ left.fd = pos.fd ∧ left.crc16 = pos.crc16 := by
  rcases visitRequest_cases host world pos with
    ⟨_, _, waits⟩ | ⟨_, _, ends⟩ | ⟨_, _, refused⟩ | ⟨dst, _, _, forwarded⟩
  · rw [waits] at kept
    cases kept
    exact ⟨rfl, rfl, rfl⟩
  · rw [ends] at kept
    cases kept
  · rw [refused] at kept
    cases kept
  · rw [forwarded] at kept
    cases kept
    exact ⟨rfl, rfl, rfl⟩

theorem handledUpTo_snoc (host : Host) (world : World) (before : List ApiRequest) (req : ApiRequest) :
    handledUpTo host world (before ++ [req]) = (visitRequest host (handledUpTo host world before) req).1 := by
  rw [handledUpTo, sweep_append, sweep_cons]
  rfl

/-- The walk up to an entry, the visit of it, and the rest. -/
private theorem handleRequest_split (host : Host) {world : World} {before after : List ApiRequest} {req : ApiRequest}
    (place : world.bus.requests = before ++ req :: after) :
    ∃ front back last, Walked (visitRequest host (handledUpTo host world before) req).1 last ∧
      handleRequest host world =
        last.setRequests (front ++ (visitRequest host (handledUpTo host world before) req).2.toList ++ back) ∧
      (∀ left ∈ front ++ back, ∃ pos ∈ before ++ after, left.pac = pos.pac ∧ left.crc16 = pos.crc16) := by
  refine ⟨(sweep (visitRequest host) world before).2,
    (sweep (visitRequest host) (visitRequest host (handledUpTo host world before) req).1 after).2, _,
    sweepRequests_walked host _ after, ?_, ?_⟩
  · rw [handleRequest, place, sweep_append, sweep_cons, List.append_assoc]
    rfl
  · have origin : ∀ (start : World) (entries : List ApiRequest),
        ∀ left ∈ (sweep (visitRequest host) start entries).2,
          ∃ pos ∈ entries, left.pac = pos.pac ∧ left.crc16 = pos.crc16 := by
      intro start entries
      refine sweep_kept _ start entries fun state pos listed left kept => ?_
      have same := visitRequest_kept kept
      exact ⟨pos, listed, same.1, same.2.2⟩
    intro left member
    rcases List.mem_append.mp member with early | late
    · rcases origin _ _ left early with ⟨pos, listed, same⟩
      exact ⟨pos, List.mem_append_left _ listed, same⟩
    · rcases origin _ _ left late with ⟨pos, listed, same⟩
      exact ⟨pos, List.mem_append_right _ listed, same⟩

/-- A request to a registered station is forwarded and waits. -/
theorem handleRequest_forwards (host : Host) {exchange : Exchange} {world : World} {req : ApiRequest} {fd : Fd}
    (listed : req ∈ world.bus.requests) (record : exchange.Record fd .none req)
    (registered : Registered world exchange.sttid) :
    ∃ dst waiting, exchange.Forwarded host fd world req dst waiting := by
  rcases List.append_of_mem listed with ⟨before, after, place⟩
  rcases handleRequest_split host place with ⟨front, back, last, rest, handled, _⟩
  have walked := sweepRequests_walked host world before
  have source := registerSource_walked host (handledUpTo host world before) req
  have fresh : ¬ req.state = .waitResponse := by simp [record.state]
  have id : scanDstid req.pac.header = some exchange.sttid := by
    rw [record.pac, exchange.request_pac.2.2.1]
    exact scanDstid_addressed exchange.addressed
  -- the entry is the one that was there when the walk began
  rcases (registered_iff_boundTo world exchange.sttid).mp registered with ⟨dstFd, bound⟩
  rcases Option.map_eq_some_iff.mp (source.bound _ _ (walked.bound _ _ bound)) with ⟨dst, found, rfl⟩
  have station : dst.sttid = exchange.sttid := by simpa using List.find?_some found
  have visited : visitRequest host (handledUpTo host world before) req =
      ((apibusSend (registerSource host (handledUpTo host world before) req) (.forward req dst)).tick,
        some { req with
          state := .waitResponse
          tsSend := (apibusSend (registerSource host (handledUpTo host world before) req)
            (.forward req dst)).time host }) := by
    unfold visitRequest
    rw [if_neg fresh]
    dsimp only
    rw [destination, id, Option.bind_some, found]
  have same : sendEvent (registerSource host (handledUpTo host world before) req) (.forward req dst) =
      sendEvent world (.forward req dst) := by
    simp only [sendEvent, findSinkfdInApibus, source.sinkfds]
    rw [handledUpTo, walked.sinkfds]
  have trace : (visitRequest host (handledUpTo host world before) req).1.trace =
      (handledUpTo host world before).trace ++ [sendEvent world (.forward req dst)] := by
    rw [visited, ← same, registerSource_frame]
    rfl
  refine ⟨dst, _, station, bound, ⟨before, after, place, found, ?_, rfl⟩, ?_, ?_, ?_, record.pac, record.fd,
    record.crc16, rfl⟩
  · rw [handledUpTo_snoc]
    exact trace
  · rcases walked.trace with ⟨early, earlyTrace⟩
    rcases rest.trace with ⟨late, lateTrace⟩
    refine ⟨early ++ sendEvent world (.forward req dst) :: late, ?_, by simp⟩
    rw [handled]
    change last.trace = _
    change world.trace ++ early = (handledUpTo host world before).trace at earlyTrace
    rw [← lateTrace, trace, ← earlyTrace]
    simp only [List.append_assoc, List.singleton_append]
  · intro beyond behind
    refine ⟨exchange.request.pac, ?_, exchange.request_pac.2⟩
    simp only [SendCall.bytes, record.pac, take_raw]
    exact exchange.request.read_raw beyond behind
  · rw [handled, visited]
    change _ ∈ front ++ _ ++ back
    simp

/-- A request waits until the timeout, and no other gets its key meanwhile. -/
theorem handleRequest_stays {world : World} {waiting : ApiRequest} (state : waiting.state = .waitResponse)
    (only : OnlyPending world waiting)
    (inTime : (handleRequest host world).time host < waiting.tsSend + apiRequestTimeout / 1000) :
    OnlyPending (handleRequest host world) waiting := by
  rcases only with ⟨before, after, place, others⟩
  rcases handleRequest_split host place with ⟨front, back, last, rest, handled, origin⟩
  have until_now : (handledUpTo host world before).reads ≤ (handleRequest host world).reads := by
    rw [handled]
    exact Nat.le_trans (visitRequest_walked _ waiting).reads rest.reads
  have soon : (handledUpTo host world before).time host < waiting.tsSend + apiRequestTimeout / 1000 :=
    Nat.lt_of_le_of_lt (time_mono host until_now) inTime
  have visited : visitRequest host (handledUpTo host world before) waiting =
      ((handledUpTo host world before).tick, some waiting) := by
    unfold visitRequest
    rw [if_pos state, if_pos soon]
  refine ⟨front, back, ?_, ?_⟩
  · rw [handled, visited]
    change front ++ [waiting] ++ back = _
    rw [List.append_assoc, List.singleton_append]
  · intro left member same
    rcases origin left member with ⟨pos, listed, samePac, sameCrc⟩
    refine others pos listed ?_
    rw [SameKey, ← samePac, ← sameCrc]
    exact same

end Requests

/-! ## The visit of the response -/

section Responses

variable {host : Host} {exchange : Exchange}

private theorem answers_iff {fd : Fd} {waiting other : ApiRequest} {resp : ApiResponse}
    (record : exchange.Record fd .waitResponse waiting) (pac : resp.pac = exchange.response.pac) :
    answers resp other = true ↔ SameKey waiting other := by
  rcases exchange.response_pac with ⟨_, srcid, header, key⟩
  rcases exchange.request_pac with ⟨_, srcid', header', _⟩
  simp only [answers, decide_eq_true_eq, SameKey, pac, srcid, header, key, record.pac, record.crc16, srcid', header']

/-- The response is sent to the requester, and its request is deleted. -/
theorem visitResponse_relays (host : Host) {fd : Fd} {world : World} {waiting : ApiRequest} {resp : ApiResponse}
    {before after : List ApiRequest} (record : exchange.Record fd .waitResponse waiting)
    (pac : resp.pac = exchange.response.pac) (place : world.bus.requests = before ++ waiting :: after)
    (others : ∀ other ∈ before ++ after, ¬ SameKey waiting other) :
    (visitResponse host world resp).1.bus.requests = before ++ after ∧
      (visitResponse host world resp).1.trace = world.trace ++ [sendEvent world (.relay resp waiting)] := by
  have hit : answers resp waiting = true := (answers_iff record pac).mpr ⟨rfl, rfl, rfl⟩
  have miss : ∀ other ∈ before, ¬ answers resp other = true :=
    fun other member same => others other (List.mem_append_left _ member) ((answers_iff record pac).mp same)
  have found : world.bus.requests.find? (answers resp) = some waiting := by
    rw [place, List.find?_append, List.find?_eq_none.mpr miss, Option.none_or, List.find?_cons_of_pos hit]
  have left : world.bus.requests.eraseP (answers resp) = before ++ after := by
    rw [place, List.eraseP_append_right _ miss, List.eraseP_cons_of_pos hit]
  have relayed : relayResponse world resp =
      (apibusSend world (.relay resp waiting)).setRequests (before ++ after) := by
    unfold relayResponse
    rw [found, left]
  rcases touchDestination_frame host (relayResponse world resp) resp with ⟨reads, _, touched⟩
  rw [visitResponse, touched, relayed]
  exact ⟨rfl, rfl⟩

end Responses

/-- From any state of the bus: the request is read, it is forwarded to the
descriptor that the table has for its station, and an answer that comes in time
reaches the requester and ends this request and no other. -/
theorem exchange_endToEnd (host : Host) (exchange : Exchange) (world : World) (sinkfd : SinkFd)
    (valid : sinkfd.rxbuf.Valid) (place : sinkfd.rxbuf.unread = exchange.request.pac.raw) :
    ∃ req, exchange.Record sinkfd.fd .none req ∧
      (parsePacket host world sinkfd).1.bus.requests = req :: world.bus.requests ∧
      ∀ received : World, req ∈ received.bus.requests -> Registered received exchange.sttid ->
        ∃ dst waiting, exchange.Forwarded host sinkfd.fd received req dst waiting ∧
          exchange.Answered host sinkfd.fd waiting := by
  rcases parsePacket_written host world valid place with ⟨rxbuf, _, _, parsed⟩
  refine ⟨newRequest host world sinkfd.fd exchange.request.pac, newRequest_record host world sinkfd.fd, ?_, ?_⟩
  · rw [parsed, enqueue, if_pos exchange.request_pac.1]
    rfl
  · intro received listed registered
    rcases handleRequest_forwards host listed (newRequest_record host world sinkfd.fd) registered with
      ⟨dst, waiting, forwarded⟩
    refine ⟨dst, waiting, forwarded, ?_, ?_, ?_⟩
    · exact fun later only inTime => handleRequest_stays forwarded.record.state only inTime
    · intro later answerer answererValid answererPlace
      rcases parsePacket_written host later answererValid answererPlace with ⟨_, _, _, answered⟩
      have other : ¬ srrpResponseLeader = srrpRequestLeader := by decide
      rw [answered, enqueue, exchange.response_pac.1, if_neg other, if_pos rfl]
      exact ⟨⟨exchange.response.pac, answerer.fd, later.nodes⟩, rfl, rfl, rfl⟩
    · intro later resp before after pac pending others
      have relayed := visitResponse_relays host forwarded.record pac pending others
      refine ⟨relayed.1, relayed.2, forwarded.record.fd, ?_⟩
      simp only [SendCall.bytes, pac, take_raw]

private theorem oneHeader_addressed : AddressedTo 2 oneHeader :=
  ⟨[50], [97], by decide, by decide, List.forall_mem_singleton.mpr (by decide), by decide⟩

private theorem answerData_nulFree : (0 : UInt8) ∉ ascii "{x}" := by decide

private def answerData : CString := ⟨ascii "{x}", answerData_nulFree⟩

private def oneAnswer : WriteCall := .response 1 (requestKey oneHeader oneData) oneHeader answerData

private theorem oneAnswer_documented : oneAnswer.Documented where
  headerStart := by decide
  headerDelimiterFree := by decide
  headerShort := by decide
  dataStart := by decide

private theorem oneAnswer_packet :
    oneAnswer.packet = some (oneAnswer.written oneAnswer_documented.headerShort) := by decide +kernel

/-- `oneRequest`, and an answer of station 2. -/
private def oneExchange : Exchange where
  srcid := 1
  sttid := 2
  header := oneHeader
  data := oneData
  answer := answerData
  request := oneWritten
  response := ⟨oneAnswer, oneAnswer_documented, _, oneAnswer_packet⟩
  addressed := oneHeader_addressed
  requested := rfl
  responded := rfl

private def oneStation : World := apibusNew.setStations [⟨2, 0, ⟨5, 1⟩⟩]

private def oneArrival : SinkFd :=
  { newSinkfd apibusNew 4 false .unix with rxbuf := ⟨oneRequest ++ [0], oneRequest.length, 0⟩ }

theorem exchange_endToEnd_oneExchange : ∃ req dst waiting,
    oneExchange.Forwarded (Host.still 0) oneArrival.fd (parsePacket (Host.still 0) oneStation oneArrival).1
        req dst waiting ∧
      oneExchange.Answered (Host.still 0) oneArrival.fd waiting ∧ dst.fd = ⟨5, 1⟩ := by
  rcases exchange_endToEnd (Host.still 0) oneExchange oneStation oneArrival ⟨by decide, by decide, by decide⟩
    (by decide +kernel) with ⟨req, _, requests, forwards⟩
  have registered : (2 : UInt16) ∈
      ((parsePacket (Host.still 0) oneStation oneArrival).1.bus.stations.map (·.sttid)) := by decide +kernel
  rcases forwards (parsePacket (Host.still 0) oneStation oneArrival).1 (requests ▸ List.mem_cons_self)
    (List.mem_map.mp registered) with ⟨dst, waiting, forwarded, answered⟩
  have bound : boundTo (parsePacket (Host.still 0) oneStation oneArrival).1 2 = some ⟨5, 1⟩ := by decide +kernel
  exact ⟨req, dst, waiting, forwarded, answered, Option.some.inj (forwarded.bound.symm.trans bound)⟩

end Bus
end Extlib
