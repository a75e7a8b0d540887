import Extlib.Bus.Lifecycle
import Extlib.Bus.Poll

namespace Extlib
namespace Bus

open Text Srrp Machine World

/-!
# Who may answer a request

`handle_response` looks for the request a response answers by checksum, header
and srcid, and never at the descriptor the response came in on.  A response is
relayed only for a request that was forwarded and waits, but any client that
knows the three values may send it.
-/

/-- The response came in on a connection that its request was sent to. -/
def FromForwardee (trace : List Event) (resp : ApiResponse) (req : ApiRequest) : Prop :=
  ∃ fwd dst sentTo, .send (.forward fwd dst) (some sentTo) ∈ trace ∧ fwd.node = req.node ∧
    sentTo.conn = resp.fd.conn

/-- A request that has been forwarded and not been answered. -/
def WaitedFor (req : ApiRequest) (trace : List Event) : Prop :=
  history req.node trace = [⟨.received, asReceived req⟩, ⟨.forwarded, asReceived req⟩]

/-- What a response may do to the stations: those its header names are alive now. -/
def AliveOnly (host : Host) (world : World) (resp : ApiResponse) (old new : ApiStation) : Prop :=
  new = old ∨ scanDstid resp.pac.header = some old.sttid ∧ new = { old with tsAlive := world.time host }

/-! ## The relays in the trace -/

def relayOf : Event -> Option (ApiResponse × ApiRequest)
  | .send (.relay resp req) _ => some (resp, req)
  | _ => none

/-- Every response in the trace was relayed for a request it answers. -/
def Matching (trace : List Event) : Prop :=
  ∀ relayed ∈ trace.filterMap relayOf, answers relayed.1 relayed.2 = true

section Steps

variable {host : Host} {before after : World}

private theorem Matching.frame (matching : Matching before.trace) {events : List Event}
    (trace : after.trace = before.trace ++ events) (silent : ∀ event ∈ events, relayOf event = none) :
    Matching after.trace := by
  rw [trace, Matching, List.filterMap_append, List.filterMap_eq_nil_iff.mpr silent, List.append_nil]
  exact matching

private theorem Matching.quiet (matching : Matching before.trace) (same : after.trace = before.trace) :
    Matching after.trace :=
  matching.frame (same.trans (List.append_nil _).symm) (by simp)

theorem Matching.sinkStep {handsOut : Nat -> Prop} (step : SinkStep handsOut before after)
    (matching : Matching before.trace) : Matching after.trace := by
  cases step with
  | quiet same => exact matching.quiet same.trace
  | opened num listen kind nfds allowed closed => exact matching.frame rfl (by simp [relayOf])
  | destroyed front sinkfd back place => exact matching
  | closed front sinkfd back place => exact matching.frame rfl (by simp [relayOf])

theorem Matching.parseStep (step : ParseStep host before after) (matching : Matching before.trace) :
    Matching after.trace := by
  cases step with
  | quiet same => exact matching.quiet same.trace
  | resync given left => exact matching.frame rfl (by simp [relayOf])
  | request sinkfd pac listed => exact matching.frame rfl (by simp [relayOf])
  | response sinkfd pac listed => exact matching.frame rfl (by simp [relayOf])
  | topicMsg sinkfd pac listed => exact matching.frame rfl (by simp [relayOf])

theorem Matching.handleStep (step : HandleStep host before after) (matching : Matching before.trace) :
    Matching after.trace := by
  cases step with
  | quiet same => exact matching.quiet same.trace
  | timeout front req back place waiting late => exact matching.frame rfl (by simp [relayOf])
  | notFound front req back place fresh unknown =>
      rw [registerSource_frame]
      exact matching.frame rfl (by simp [relayOf])
  | forward front req back dst place fresh known =>
      rw [registerSource_frame]
      exact matching.frame rfl (by simp [relayOf])
  | response front resp back place waiting =>
      rcases touchDestination_frame host (relayResponse before resp) resp with ⟨reads, _, touched⟩
      rw [touched]
      rcases relayResponse_cases before resp with ⟨_, same⟩ | ⟨early, req, late, _, found, relayed⟩
      · rw [same]
        exact matching
      · rw [relayed]
        change Matching (before.trace ++ [_])
        intro pair member
        rw [List.filterMap_append, List.mem_append] at member
        rcases member with old | new
        · exact matching pair old
        · cases List.mem_singleton.mp new
          exact List.find?_some found
  | topicMsg front tmsg back place applied =>
      rcases applyTopicMsg_effect before tmsg with ⟨topics, calls, stopped, effect, _, _, allowed⟩
      rw [effect]
      refine matching.frame (List.append_assoc _ _ _) ?_
      intro event member
      rcases List.mem_append.mp member with sent | handled
      · rcases List.mem_map.mp sent with ⟨call, listed, rfl⟩
        rcases (allowed call listed).1 with rfl | rfl | ⟨fd, rfl⟩ <;> rfl
      · rw [List.mem_singleton.mp handled]
        rfl
  | dropStation front station back place unalive => exact matching

end Steps

theorem busRun_matching (host : Host) (inputs : List BusInput) : Matching (busRun host apibusNew inputs).trace :=
  busRun_invariant (fun world => Matching world.trace) (fun _ _ _ step => Matching.sinkStep step)
    (fun _ _ step => Matching.parseStep step) (fun _ _ step => Matching.handleStep step) inputs apibusNew
    (fun _ member => absurd member List.not_mem_nil)

/-- The history of a request that a response was relayed for, cut at the relay. -/
private theorem Course.before_relay {req : ApiRequest} {phase : Phase} {early late : List Deed} {resp : ApiResponse}
    {answered : ApiRequest}
    (course : Course req phase (early ++ ⟨.answered (.response resp), answered⟩ :: late)) :
    early = [⟨.received, answered⟩, ⟨.forwarded, answered⟩] := by
  generalize whole : early ++ ⟨.answered (.response resp), answered⟩ :: late = deeds at course
  cases course with
  | received =>
      rcases early with _ | ⟨first, _ | ⟨second, early⟩⟩ <;> simp at whole
  | forwarded =>
      rcases early with _ | ⟨first, _ | ⟨second, early⟩⟩ <;> simp at whole
  | refused =>
      rcases early with _ | ⟨first, _ | ⟨second, early⟩⟩ <;> simp at whole
  | answered answer forwarded =>
      rcases early with _ | ⟨first, _ | ⟨second, _ | ⟨third, early⟩⟩⟩ <;> simp at whole
      simp [whole]

/-- A response is relayed only while its request waits. -/
theorem Lives.waitedFor {world : World} (lives : Lives world) {early late : List Event} {resp : ApiResponse}
    {req : ApiRequest} {sentTo : Option Fd}
    (split : world.trace = early ++ .send (.relay resp req) sentTo :: late) : WaitedFor req early := by
  have deeds : history req.node world.trace =
      history req.node early ++ ⟨.answered (.response resp), asReceived req⟩ :: history req.node late := by
    have own : history req.node [.send (.relay resp req) sentTo] =
        [⟨.answered (.response resp), asReceived req⟩] := (history_single req.node rfl).trans (if_pos rfl)
    rw [split, ← List.singleton_append, history_append, history_append, own, List.singleton_append]
  by_cases pending : req.node ∈ world.bus.requests.map (·.node)
  · rcases List.mem_map.mp pending with ⟨pos, listed, number⟩
    have course := lives.requests.pending pos listed
    rw [number, deeds] at course
    exact course.before_relay
  · rcases lives.requests.past req.node pending with none | ⟨pos, course⟩
    · rw [none] at deeds
      simp at deeds
    · rw [deeds] at course
      exact course.before_relay

/-! ## The visit of a response -/

/-- A response changes no more than the time of the stations its header names. -/
private theorem touchDestination_aliveOnly (host : Host) (world : World) (resp : ApiResponse) :
    List.Forall₂ (AliveOnly host world resp) world.bus.stations (touchDestination host world resp).bus.stations := by
  have unchanged : List.Forall₂ (AliveOnly host world resp) world.bus.stations world.bus.stations :=
    List.forall₂_same.mpr fun _ _ => Or.inl rfl
  unfold touchDestination
  split
  · exact unchanged
  case h_2 dstid scanned =>
    split
    · exact unchanged
    · have touched := modify_findIdx_forall₂ (fun station : ApiStation => decide (station.sttid = dstid))
        (fun station => { station with tsAlive := world.time host }) world.bus.stations
      refine touched.imp fun old new same => same.imp_right ?_
      rintro ⟨named, alive⟩
      rw [decide_eq_true_eq] at named
      exact ⟨named ▸ scanned, alive⟩

/-- The visit of a response that answers no pending request, and of any response. -/
structure Visited (host : Host) (world : World) (resp : ApiResponse) (after : World) : Prop where
  unmatched : (∀ req ∈ world.bus.requests, answers resp req = false) ->
    after.bus.requests = world.bus.requests ∧ after.trace = world.trace
  stations : List.Forall₂ (AliveOnly host world resp) world.bus.stations after.bus.stations

theorem visitResponse_visited (host : Host) (world : World) (resp : ApiResponse) :
    Visited host world resp (visitResponse host world resp).1 where
  unmatched := by
    intro none
    have absent : world.bus.requests.find? (answers resp) = Option.none :=
      List.find?_eq_none.mpr fun req listed => by simp [none req listed]
    have same : relayResponse world resp = world := by rw [relayResponse, absent]
    rcases touchDestination_frame host world resp with ⟨reads, _, touched⟩
    rw [visitResponse, same, touched]
    exact ⟨rfl, rfl⟩
  stations := by
    have touched := touchDestination_aliveOnly host (relayResponse world resp) resp
    rcases relayResponse_cases world resp with ⟨_, same⟩ | ⟨_, _, _, _, _, relayed⟩
    · rw [visitResponse, same]
      rw [same] at touched
      exact touched
    · rw [visitResponse, relayed]
      rw [relayed] at touched
      exact touched

/-- In every run a response is relayed only for a request that was forwarded
and waits, and that has its checksum, header and srcid.  One that answers no
pending request leaves the pending requests alone and sends nothing, and no
response changes the time of a station its header does not name. -/
theorem response_matching (host : Host) :
    (∀ inputs early resp req sentTo late,
      (busRun host apibusNew inputs).trace = early ++ .send (.relay resp req) sentTo :: late ->
        answers resp req = true ∧ WaitedFor req early) ∧
    ∀ world resp, Visited host world resp (visitResponse host world resp).1 := by
  refine ⟨?_, visitResponse_visited host⟩
  intro inputs early resp req sentTo late split
  refine ⟨?_, (busRun_lives host inputs).waitedFor split⟩
  apply busRun_matching host inputs (resp, req)
  exact List.mem_filterMap.mpr ⟨_, split ▸ List.mem_append_right _ List.mem_cons_self, rfl⟩

/-! ## A stranger answers -/

/-- Client 5 is station 2.  The request of client 4 to that station is
answered by client 6. -/
def strangersAnswer : List BusInput :=
  [.openSink .unix (some 3), oneAccept 4, oneAccept 5, oneAccept 6,
    oneSend 5 (ascii ">0,$,0017,0002:/9/a?{}" ++ [0]), oneSend 4 oneRequest,
    oneSend 6 (ascii "<0,$,001d,0001,8c04:/2/a?{x}" ++ [0])]

private def strangersTrace : List Event := (busRun (Host.still 0) apibusNew strangersAnswer).trace

/-- The connections that the requests were forwarded to. -/
private def forwardOf : Event -> Option (Nat × Nat)
  | .send (.forward req _) (some sentTo) => some (req.node, sentTo.conn)
  | _ => none

private theorem strangersTrace_relays :
    (strangersTrace.filterMap relayOf).map (fun relayed => (relayed.2.node, relayed.1.fd.conn)) = [(1, 3)] := by
  decide +kernel

private theorem strangersTrace_relay : ∃ resp req sentTo, .send (.relay resp req) sentTo ∈ strangersTrace ∧
    (req.node, resp.fd.conn) = (1, 3) := by
  have member : (1, 3) ∈
      (strangersTrace.filterMap relayOf).map fun relayed => (relayed.2.node, relayed.1.fd.conn) := by
    rw [strangersTrace_relays]
    exact List.mem_singleton_self _
  rcases List.mem_map.mp member with ⟨⟨resp, req⟩, relayed, same⟩
  rcases List.mem_filterMap.mp relayed with ⟨event, listed, relay⟩
  unfold relayOf at relay
  split at relay
  · cases relay
    exact ⟨resp, req, _, listed, same⟩
  · cases relay

theorem response_matching_strangersAnswer : ∃ early resp req sentTo late,
    (busRun (Host.still 0) apibusNew strangersAnswer).trace = early ++ .send (.relay resp req) sentTo :: late ∧
      answers resp req = true ∧ WaitedFor req early := by
  rcases strangersTrace_relay with ⟨resp, req, sentTo, listed, _⟩
  rcases List.append_of_mem listed with ⟨early, late, split⟩
  exact ⟨early, resp, req, sentTo, late, split,
    (response_matching (Host.still 0)).1 strangersAnswer early resp req sentTo late split⟩

theorem strangersAnswer_relayed : ¬ ∀ host inputs resp req sentTo,
    .send (.relay resp req) sentTo ∈ (busRun host apibusNew inputs).trace ->
      FromForwardee (busRun host apibusNew inputs).trace resp req := by
  intro always
  rcases strangersTrace_relay with ⟨resp, req, sentTo, listed, same⟩
  rcases always (Host.still 0) strangersAnswer resp req sentTo listed with ⟨fwd, dst, forwardee, forwarded, node, conn⟩
  have sent : (1, 3) ∈ strangersTrace.filterMap forwardOf := by
    refine List.mem_filterMap.mpr ⟨_, forwarded, ?_⟩
    rw [forwardOf, node, conn, same]
  have forwards : strangersTrace.filterMap forwardOf = [(1, 2)] := by decide +kernel
  rw [forwards] at sent
  revert sent
  decide

end Bus
end Extlib
