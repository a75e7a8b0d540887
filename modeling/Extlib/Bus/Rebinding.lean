import Extlib.Bus.Descriptors
import Extlib.Bus.Stations

namespace Extlib
namespace Bus

open Text Srrp Machine World

/-!
# The connection an id is bound to

The first request with an id binds it to the descriptor the request came in
on.  Later requests with the id refresh the time of the entry and not its
descriptor, so that the binding lasts until the entry is dropped.  Every
request to the id goes to that descriptor meanwhile, whoever has used the id
since.
-/

/-- The place in a run where `handle_request` comes to a request: the inputs up
to the poll, the poll, and the entries before and behind the request. -/
structure Handling (host : Host) where
  inputs : List BusInput
  input : PollInput
  before : List ApiRequest
  req : ApiRequest
  after : List ApiRequest
  running : (busRun host apibusNew inputs).stopped = none
  reaches : (receivePhase host input (busRun host apibusNew inputs)).stopped = none
  place : (receivePhase host input (busRun host apibusNew inputs)).bus.requests = before ++ req :: after
  fresh : req.state = .none

namespace Handling

variable {host : Host}

/-- The bus when it comes to the request. -/
def reached (handling : Handling host) : World :=
  handledUpTo host (receivePhase host handling.input (busRun host apibusNew handling.inputs)) handling.before

/-- The bus when it has handled the request. -/
def left (handling : Handling host) : World := (visitRequest host handling.reached handling.req).1

/-- One place comes before another: in the same poll, or in a later one after
the inputs `between`. -/
inductive Precedes (first second : Handling host) : List BusInput -> Prop where
  | samePoll (inputs : second.inputs = first.inputs) (input : second.input = first.input)
      (more : List ApiRequest) (before : second.before = first.before ++ first.req :: more) :
      Precedes first second []
  | laterPoll (between : List BusInput)
      (inputs : second.inputs = first.inputs ++ .poll first.input :: between) :
      Precedes first second (.poll first.input :: between)

/-- The id has an entry after each of the inputs between the two places. -/
def Unexpired (first : Handling host) (sttid : UInt16) (between : List BusInput) : Prop :=
  ∀ early late, between = early ++ late -> early ≠ [] ->
    Registered (busRun host apibusNew (first.inputs ++ early)) sttid

/-- The request is forwarded to the descriptor, and to the connection it stands
for while that is open. -/
def ForwardedTo (handling : Handling host) (fd : Fd) : Prop :=
  ∃ dst sentTo, handling.left.trace = handling.reached.trace ++ [.send (.forward handling.req dst) sentTo] ∧
    dst.fd = fd ∧ (fd ∈ sinkFds handling.reached -> sentTo = some fd)

end Handling

/-! ## What keeps a binding -/

section Bindings

variable {host : Host} {world : World} {sttid : UInt16} {fd : Fd}

private theorem boundTo_of_stations {before after : World} (stations : after.bus.stations = before.bus.stations)
    (sttid : UInt16) : boundTo after sttid = boundTo before sttid := by
  rw [boundTo, boundTo, findStation, findStation, stations]

theorem boundTo_visitResponse (resp : ApiResponse) (bound : boundTo world sttid = some fd) :
    boundTo (visitResponse host world resp).1 sttid = some fd := by
  rw [boundTo_eq, visitResponse_bindings, ← boundTo_eq]
  exact bound

private theorem boundTo_unlessStopped {handler : World -> World}
    (keeps : boundTo world sttid = some fd -> boundTo (handler world) sttid = some fd)
    (bound : boundTo world sttid = some fd) : boundTo (unlessStopped handler world) sttid = some fd :=
  unlessStopped_rule (boundTo · sttid = some fd) bound (keeps bound)

theorem boundTo_sweepRequests (requests : List ApiRequest) (bound : boundTo world sttid = some fd) :
    boundTo (sweep (visitRequest host) world requests).1 sttid = some fd :=
  (sweepRequests_walked host world requests).bound sttid fd bound

theorem boundTo_handleResponse (host : Host) (bound : boundTo world sttid = some fd) :
    boundTo (handleResponse host world) sttid = some fd :=
  sweep_state (boundTo · sttid = some fd) (fun _ resp holds => boundTo_visitResponse resp holds) world
    world.bus.responses bound

theorem boundTo_handleTopicMsg (bound : boundTo world sttid = some fd) :
    boundTo (handleTopicMsg world) sttid = some fd :=
  sweep_state (boundTo · sttid = some fd)
    (fun state tmsg holds => (boundTo_of_stations (visitTopicMsg_table state tmsg).1 sttid).trans holds) world
    world.bus.topicMsgs bound

/-- The last handler drops the entry or leaves it as it is. -/
theorem boundTo_clearUnaliveStation (distinct : (world.bus.stations.map (·.sttid)).Nodup)
    (bound : boundTo world sttid = some fd) (registered : Registered (clearUnaliveStation host world) sttid) :
    boundTo (clearUnaliveStation host world) sttid = some fd := by
  rcases Option.map_eq_some_iff.mp bound with ⟨station, found, rfl⟩
  cases left : findStation (clearUnaliveStation host world) sttid with
  | none => exact absurd registered ((findStation_eq_none _ sttid).mp left)
  | some kept =>
      have sublist := clearUnaliveStation_sublist host world
      have listed : kept ∈ world.bus.stations := sublist.subset (List.mem_of_find?_eq_some left)
      have same : kept.sttid = station.sttid := by
        have own : kept.sttid = sttid := by simpa using List.find?_some left
        have old : station.sttid = sttid := by simpa using List.find?_some found
        rw [own, old]
      have one := List.inj_on_of_nodup_map distinct listed (List.mem_of_find?_eq_some found) same
      rw [boundTo, left, one, Option.map_some]

/-- The rest of a poll behind `handle_request`. -/
theorem boundTo_poll {log : List Activity} (input : PollInput) (running : world.stopped = none)
    (tracked : Tracked host log world)
    (bound : boundTo (unlessStopped (handleRequest host) (receivePhase host input world)) sttid = some fd)
    (registered : Registered (busStep host world (.poll input)) sttid) :
    boundTo (busStep host world (.poll input)) sttid = some fd := by
  have answered := boundTo_unlessStopped (boundTo_handleResponse host) bound
  have handled := boundTo_unlessStopped boundTo_handleTopicMsg answered
  have distinct := (beforeClearing_tracked input running tracked).distinct
  rw [busStep_cleared input running] at registered ⊢
  unfold unlessStopped at registered ⊢
  split
  · exact handled
  case isFalse alive =>
    rw [if_neg alive] at registered
    exact boundTo_clearUnaliveStation distinct handled registered

theorem boundTo_busStep {log : List Activity} (input : BusInput) (tracked : Tracked host log world)
    (bound : boundTo world sttid = some fd) (registered : Registered (busStep host world input) sttid) :
    boundTo (busStep host world input) sttid = some fd := by
  cases input with
  | poll input =>
      rcases busStep_poll host world input with same | ⟨running, _⟩
      · rw [same]
        exact bound
      · refine boundTo_poll input running tracked (boundTo_unlessStopped ?_ ?_) registered
        · exact boundTo_sweepRequests _
        · exact (boundTo_of_stations (receivePhase_table host input world).1 sttid).trans bound
  | openSink kind answer =>
      exact (boundTo_of_stations (busStep_openSink_table host world kind answer).1 sttid).trans bound
  | close num => exact (boundTo_of_stations (busStep_close_table host world num).1 sttid).trans bound

/-- Along a run after which the id has always been registered. -/
theorem boundTo_busRun (past inputs : List BusInput) (bound : boundTo (busRun host apibusNew past) sttid = some fd)
    (registered : ∀ early late, inputs = early ++ late -> early ≠ [] ->
      Registered (busRun host apibusNew (past ++ early)) sttid) :
    boundTo (busRun host apibusNew (past ++ inputs)) sttid = some fd := by
  induction inputs using List.reverseRecOn with
  | nil =>
      rw [List.append_nil]
      exact bound
  | append_singleton inputs input inductionHypothesis =>
      have before : boundTo (busRun host apibusNew (past ++ inputs)) sttid = some fd := by
        apply inductionHypothesis
        intro early late split
        exact registered early (late ++ [input]) (by rw [split, List.append_assoc])
      have after := registered (inputs ++ [input]) [] (List.append_nil _).symm (by simp)
      rw [← List.append_assoc, busRun_snoc] at after ⊢
      exact boundTo_busStep input (busRun_tracked (past ++ inputs) apibusNew [] (.start host)) before after

end Bindings

/-! ## From one request to another -/

namespace Handling

variable {host : Host} {first second : Handling host} {between : List BusInput} {fd : Fd}

/-- When a request has been handled its sender is bound to where it came from,
unless the id was bound elsewhere. -/
theorem boundTo_left (handling : Handling host)
    (unclaimed : ∀ other, boundTo handling.reached handling.req.pac.srcid = some other -> other = handling.req.fd) :
    boundTo handling.left handling.req.pac.srcid = some handling.req.fd := by
  have unhandled : ¬ handling.req.state = .waitResponse := by simp [handling.fresh]
  have registered : boundTo (registerSource host handling.reached handling.req) handling.req.pac.srcid =
      some handling.req.fd := by
    rw [boundTo_registerSource, if_pos rfl]
    cases earlier : boundTo handling.reached handling.req.pac.srcid with
    | none => rfl
    | some other => exact congrArg some (unclaimed other earlier)
  unfold left visitRequest
  rw [if_neg unhandled]
  dsimp only
  split <;> exact registered

theorem left_eq (handling : Handling host) :
    handling.left = handledUpTo host (receivePhase host handling.input (busRun host apibusNew handling.inputs))
      (handling.before ++ [handling.req]) :=
  (handledUpTo_snoc host _ _ _).symm

theorem handledUpTo_append (world : World) (early late : List ApiRequest) :
    handledUpTo host world (early ++ late) = (sweep (visitRequest host) (handledUpTo host world early) late).1 := by
  rw [handledUpTo, sweep_append]
  rfl

/-- The binding at the later place. -/
theorem boundTo_reached (precedes : first.Precedes second between)
    (bound : boundTo first.left first.req.pac.srcid = some fd)
    (unexpired : first.Unexpired first.req.pac.srcid between) :
    boundTo second.reached first.req.pac.srcid = some fd := by
  cases precedes with
  | samePoll inputs input more before =>
      have here : second.reached = (sweep (visitRequest host) first.left more).1 := by
        rw [reached, inputs, input, before, left_eq, ← handledUpTo_append, List.append_assoc, List.singleton_append]
      rw [here]
      exact boundTo_sweepRequests more bound
  | laterPoll between inputs =>
      have received := first.reaches
      have alive : ¬ (receivePhase host first.input (busRun host apibusNew first.inputs)).stopped.isSome = true := by
        simp [received]
      -- the rest of the requests of the first poll
      have handled : boundTo (unlessStopped (handleRequest host)
          (receivePhase host first.input (busRun host apibusNew first.inputs))) first.req.pac.srcid = some fd := by
        have whole : first.before ++ first.req :: first.after = (first.before ++ [first.req]) ++ first.after := by
          rw [List.append_assoc, List.singleton_append]
        rw [unlessStopped, if_neg alive]
        change boundTo (sweep (visitRequest host) _ _).1 _ = _
        rw [first.place, whole]
        change boundTo (handledUpTo host _ _) _ = _
        rw [handledUpTo_append, ← left_eq]
        exact boundTo_sweepRequests first.after bound
      have polled : boundTo (busRun host apibusNew (first.inputs ++ [.poll first.input])) first.req.pac.srcid =
          some fd := by
        have registered := unexpired [.poll first.input] between rfl (by simp)
        rw [busRun_snoc] at registered ⊢
        exact boundTo_poll first.input first.running (busRun_tracked first.inputs apibusNew [] (.start host)) handled
          registered
      have later : boundTo (busRun host apibusNew second.inputs) first.req.pac.srcid = some fd := by
        have run := boundTo_busRun (first.inputs ++ [.poll first.input]) between polled (by
          intro early late split some_input
          rw [List.append_assoc, List.singleton_append]
          exact unexpired (.poll first.input :: early) late (by rw [split]; rfl) (by simp))
        rw [List.append_assoc, List.singleton_append] at run
        rw [inputs]
        exact run
      have stations := (receivePhase_table host second.input (busRun host apibusNew second.inputs)).1
      exact boundTo_sweepRequests second.before ((boundTo_of_stations stations _).trans later)

/-- A request to a bound id is sent where the id is bound. -/
theorem forwardedTo_of_bound (handling : Handling host) {sttid : UInt16}
    (addressed : scanDstid handling.req.pac.header = some sttid)
    (bound : boundTo handling.reached sttid = some fd) : handling.ForwardedTo fd := by
  have registered : boundTo (registerSource host handling.reached handling.req) sttid = some fd := by
    rw [boundTo_registerSource, bound, Option.getD_some, ite_self]
  rcases Option.map_eq_some_iff.mp registered with ⟨dst, found, rfl⟩
  have call : scannedCall host handling.reached handling.req = .forward handling.req dst := by
    rw [scannedCall, destination, addressed, Option.bind_some, found]
  have made := visitRequest_fresh host handling.reached handling.fresh
  rw [call] at made
  refine ⟨dst, _, made, rfl, ?_⟩
  have received := (busRun_numbered host handling.inputs).receivePhase host handling.input
  have walked := sweepRequests_walked host
    (receivePhase host handling.input (busRun host apibusNew handling.inputs)) handling.before
  refine findSinkfd_listed ?_
  rw [sinkFds, reached, handledUpTo, walked.sinkfds]
  exact received.distinct

end Handling

/-- When a request is handled whose sender has no entry, or has the entry it
made on the same connection, every later request to that id goes to this
connection, as long as the entry has not been dropped in between. -/
theorem binding_lasts (host : Host) (first second : Handling host) (between : List BusInput)
    (precedes : first.Precedes second between)
    (unclaimed : ∀ other, boundTo first.reached first.req.pac.srcid = some other -> other = first.req.fd)
    (unexpired : first.Unexpired first.req.pac.srcid between)
    (addressed : scanDstid second.req.pac.header = some first.req.pac.srcid) :
    second.ForwardedTo first.req.fd :=
  second.forwardedTo_of_bound addressed (first.boundTo_reached precedes (first.boundTo_left unclaimed) unexpired)

/-! ## An id on a second connection -/

/-- Station 7 asks for a station that does not exist. -/
private def callOfSeven : List UInt8 := ascii ">0,$,0017,0007:/9/a?{}" ++ [0]

/-- Station 8 asks for station 7. -/
private def callToSeven : List UInt8 := ascii ">0,$,0017,0008:/7/a?{}" ++ [0]

/-- The poll of `oneSend`. -/
private def onlyFrom (num : Nat) (bytes : List UInt8) : PollInput :=
  ⟨fun _ => some [num], fun _ => none, fun _ => some bytes⟩

private def twoClients : List BusInput := [.openSink .unix (some 3), oneAccept 4, oneAccept 6]

private def twoClientsLater : List BusInput := twoClients ++ [.poll (onlyFrom 4 callOfSeven)]

/-- The bus when a poll has read what one client sent. -/
private def readingOf (inputs : List BusInput) (num : Nat) (bytes : List UInt8) : World :=
  receivePhase (Host.still 0) (onlyFrom num bytes) (busRun (Host.still 0) apibusNew inputs)

/-- The place where `handle_request` comes to the only request of such a poll. -/
private def onlyHandling (inputs : List BusInput) (num : Nat) (bytes : List UInt8) (req : ApiRequest)
    (running : (busRun (Host.still 0) apibusNew inputs).stopped = none)
    (reaches : (readingOf inputs num bytes).stopped = none)
    (place : (readingOf inputs num bytes).bus.requests = [] ++ [req]) (fresh : req.state = .none) :
    Handling (Host.still 0) :=
  ⟨inputs, onlyFrom num bytes, [], req, [], running, reaches, place, fresh⟩

section OnlyHandling

variable {inputs : List BusInput} {num : Nat} {bytes : List UInt8} {req : ApiRequest}
  (running : (busRun (Host.still 0) apibusNew inputs).stopped = none)
  (reaches : (readingOf inputs num bytes).stopped = none)
  (place : (readingOf inputs num bytes).bus.requests = [] ++ [req]) (fresh : req.state = .none)

private theorem onlyHandling_reached :
    (onlyHandling inputs num bytes req running reaches place fresh).reached = readingOf inputs num bytes := rfl

private theorem onlyHandling_left :
    (onlyHandling inputs num bytes req running reaches place fresh).left =
      (visitRequest (Host.still 0) (readingOf inputs num bytes) req).1 := rfl

end OnlyHandling

/-- The poll reads one request, nothing has stopped, and something holds of the request. -/
private abbrev ReadsOne (inputs : List BusInput) (num : Nat) (bytes : List UInt8) (property : ApiRequest -> Prop) :
    Prop :=
  (busRun (Host.still 0) apibusNew inputs).stopped = none ∧ (readingOf inputs num bytes).stopped = none ∧
    (readingOf inputs num bytes).bus.requests.length = 1 ∧
    ∀ req ∈ (readingOf inputs num bytes).bus.requests, req.state = .none ∧ property req

private theorem twoClients_call :
    ReadsOne twoClients 4 callOfSeven fun req => req.pac.srcid = 7 ∧
      boundTo (readingOf twoClients 4 callOfSeven) 7 = none := by
  decide +kernel

private theorem twoClients_request :
    ReadsOne twoClientsLater 6 callToSeven fun req => scanDstid req.pac.header = some 7 ∧
      7 ∈ (busRun (Host.still 0) apibusNew twoClientsLater).bus.stations.map (·.sttid) := by
  decide +kernel

theorem binding_lasts_twoClients : ∃ first second : Handling (Host.still 0),
    first.Precedes second [.poll first.input] ∧ second.ForwardedTo first.req.fd := by
  rcases twoClients_call with ⟨running, reaches, single, reading⟩
  rcases exists_single single reading with ⟨call, place, fresh, srcid, unknown⟩
  rcases twoClients_request with ⟨later, reachesLater, singleLater, readingLater⟩
  rcases exists_single singleLater readingLater with ⟨request, placeLater, unhandled, addressed, registered⟩
  refine ⟨onlyHandling twoClients 4 callOfSeven call running reaches place fresh,
    onlyHandling twoClientsLater 6 callToSeven request later reachesLater placeLater unhandled,
    .laterPoll [] rfl, binding_lasts _ _ _ [.poll (onlyFrom 4 callOfSeven)] (.laterPoll [] rfl) ?_ ?_ ?_⟩
  · rw [onlyHandling_reached]
    intro other bound
    change boundTo _ call.pac.srcid = some other at bound
    rw [srcid, unknown] at bound
    cases bound
  · intro early late split some_input
    change Registered (busRun (Host.still 0) apibusNew (twoClients ++ early)) call.pac.srcid
    rw [srcid]
    cases early with
    | nil => exact absurd rfl some_input
    | cons input early =>
        rcases List.append_eq_nil_iff.mp (List.cons.inj split).2.symm with ⟨rfl, _⟩
        rw [← (List.cons.inj split).1]
        have known : Registered (busRun (Host.still 0) apibusNew twoClientsLater) 7 := (registered_iff _ 7).mpr registered
        exact known
  · exact addressed.trans (congrArg some srcid.symm)

/-- Client 4 is station 7 and disconnects, and client 5 connects. -/
private def reconnected : List BusInput :=
  [.openSink .unix (some 3), oneAccept 4, oneSend 4 callOfSeven, .poll ⟨fun _ => some [4], fun _ => none, fun _ => none⟩,
    oneAccept 5, oneAccept 6]

private def reconnectedLater : List BusInput := reconnected ++ [.poll (onlyFrom 5 callOfSeven)]

/-- The descriptors that the requests of a trace were forwarded to. -/
private def forwardees (trace : List Event) : List Fd :=
  trace.filterMap fun
    | .send (.forward _ dst) _ => some dst.fd
    | _ => none

private def receivedSrcid : Event -> Option UInt16
  | .receivedRequest req => some req.pac.srcid
  | _ => none

private theorem reconnected_call :
    ReadsOne reconnected 5 callOfSeven fun req => req.pac.srcid = 7 ∧ req.fd = ⟨5, 2⟩ := by
  decide +kernel

private theorem reconnected_request :
    ReadsOne reconnectedLater 6 callToSeven fun req => scanDstid req.pac.header = some 7 ∧
      forwardees (visitRequest (Host.still 0) (readingOf reconnectedLater 6 callToSeven) req).1.trace = [⟨4, 1⟩] ∧
      (⟨5, 2⟩ : Fd) ∈ sinkFds (readingOf reconnectedLater 6 callToSeven) ∧
      ((readingOf reconnectedLater 6 callToSeven).trace.drop
        ((readingOf reconnected 5 callOfSeven).trace.length + 1)).filterMap receivedSrcid = [8] := by
  decide +kernel

/-- What arrived from the id between two places came in on this connection. -/
def NoneElsewhere {host : Host} (first second : Handling host) : Prop :=
  ∀ req, .receivedRequest req ∈ second.reached.trace.drop first.left.trace.length ->
    req.pac.srcid = first.req.pac.srcid -> req.fd = first.req.fd

/-- Client 5 uses the id of client 4, which is gone.  The request to that id is
sent to the descriptor of client 4. -/
theorem reconnected_not_rebound : ¬ ∀ (host : Host) (first second : Handling host) (between : List BusInput),
    first.Precedes second between -> scanDstid second.req.pac.header = some first.req.pac.srcid ->
    first.req.fd ∈ sinkFds second.reached -> NoneElsewhere first second -> second.ForwardedTo first.req.fd := by
  intro always
  rcases reconnected_call with ⟨running, reaches, single, reading⟩
  rcases exists_single single reading with ⟨call, place, fresh, srcid, fd⟩
  rcases reconnected_request with ⟨later, reachesLater, singleLater, readingLater⟩
  rcases exists_single singleLater readingLater with
    ⟨request, placeLater, unhandled, addressed, forwarded, open_, arrivals⟩
  have sent := always (Host.still 0) (onlyHandling reconnected 5 callOfSeven call running reaches place fresh)
    (onlyHandling reconnectedLater 6 callToSeven request later reachesLater placeLater unhandled)
    [.poll (onlyFrom 5 callOfSeven)] (.laterPoll [] rfl) (addressed.trans (congrArg some srcid.symm)) ?_ ?_
  · rcases sent with ⟨dst, sentTo, trace, bound, _⟩
    rw [onlyHandling_left, onlyHandling_reached] at trace
    change dst.fd = call.fd at bound
    rw [trace, forwardees, List.filterMap_append] at forwarded
    have member : dst.fd ∈ [(⟨4, 1⟩ : Fd)] := forwarded ▸ List.mem_append_right _ List.mem_cons_self
    rw [bound, fd] at member
    exact absurd member (by decide)
  · rw [onlyHandling_reached]
    change call.fd ∈ _
    rw [fd]
    exact open_
  · intro req arrived sttid
    rw [onlyHandling_reached, onlyHandling_left, visitRequest_fresh _ _ fresh, List.length_append] at arrived
    have member : req.pac.srcid ∈ [8] := arrivals ▸ List.mem_filterMap.mpr ⟨_, arrived, rfl⟩
    change req.pac.srcid = call.pac.srcid at sttid
    rw [sttid, srcid] at member
    exact absurd member (by decide)

end Bus
end Extlib
