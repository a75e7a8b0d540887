import Extlib.Bus.Steps

namespace Extlib
namespace Bus

open Text Srrp Machine World

/-!
# The order of one connection

`parse_packet` puts every packet in front of its list and the handlers walk
the lists from the front.  What was received and not handled is therefore on
the list in reverse, and the packets of a connection are handled in the order
in which they came as long as no poll finds two of them unhandled.
-/

/-- The requests received on a connection, by their numbers. -/
def receivedRequests (conn : Nat) (trace : List Event) : List Nat :=
  trace.filterMap fun
    | .receivedRequest req => if req.fd.conn = conn then some req.node else none
    | _ => none

/-- The requests of a connection that were forwarded or refused. -/
def handledRequests (conn : Nat) (trace : List Event) : List Nat :=
  trace.filterMap fun
    | .send (.forward req _) _ => if req.fd.conn = conn then some req.node else none
    | .send (.stationNotFound req) _ => if req.fd.conn = conn then some req.node else none
    | _ => none

def receivedTopicMsgs (conn : Nat) (trace : List Event) : List Nat :=
  trace.filterMap fun
    | .receivedTopicMsg tmsg => if tmsg.fd.conn = conn then some tmsg.node else none
    | _ => none

def handledTopicMsgs (conn : Nat) (trace : List Event) : List Nat :=
  trace.filterMap fun
    | .handledTopicMsg tmsg => if tmsg.fd.conn = conn then some tmsg.node else none
    | _ => none

/-- On every connection what was handled is a first part of what was
received. -/
def InOrder (trace : List Event) : Prop :=
  ∀ conn, handledRequests conn trace <+: receivedRequests conn trace ∧
    handledTopicMsgs conn trace <+: receivedTopicMsgs conn trace

/-- The requests of a connection that no handler has seen yet. -/
def unhandledRequests (conn : Nat) (requests : List ApiRequest) : List ApiRequest :=
  requests.filter fun req => req.state = .none ∧ req.fd.conn = conn

def unhandledTopicMsgs (conn : Nat) (topicMsgs : List ApiTopicMsg) : List ApiTopicMsg :=
  topicMsgs.filter fun tmsg => tmsg.fd.conn = conn

/-- No connection has two requests, or two topic packets, waiting for the
handlers. -/
def Unbatched (world : World) : Prop :=
  ∀ conn, (unhandledRequests conn world.bus.requests).length ≤ 1 ∧
    (unhandledTopicMsgs conn world.bus.topicMsgs).length ≤ 1

/-- Handled, and then still on the list in reverse: that is what was received. -/
def Accounted (world : World) : Prop :=
  ∀ conn,
    receivedRequests conn world.trace =
        handledRequests conn world.trace ++
          ((unhandledRequests conn world.bus.requests).map (·.node)).reverse ∧
      receivedTopicMsgs conn world.trace =
        handledTopicMsgs conn world.trace ++
          ((unhandledTopicMsgs conn world.bus.topicMsgs).map (·.node)).reverse

theorem Accounted.inOrder {world : World} (accounted : Accounted world) : InOrder world.trace := by
  intro conn
  rw [(accounted conn).1, (accounted conn).2]
  exact ⟨List.prefix_append _ _, List.prefix_append _ _⟩

section Steps

variable {host : Host} {before after : World}

/-- An event that is neither a receipt nor a handling. -/
def Event.Unordered (event : Event) : Prop :=
  ∀ conn, receivedRequests conn [event] = [] ∧ handledRequests conn [event] = [] ∧
    receivedTopicMsgs conn [event] = [] ∧ handledTopicMsgs conn [event] = []

private theorem sequences_append (conn : Nat) (earlier later : List Event) :
    receivedRequests conn (earlier ++ later) = receivedRequests conn earlier ++ receivedRequests conn later ∧
      handledRequests conn (earlier ++ later) = handledRequests conn earlier ++ handledRequests conn later ∧
      receivedTopicMsgs conn (earlier ++ later) = receivedTopicMsgs conn earlier ++ receivedTopicMsgs conn later ∧
      handledTopicMsgs conn (earlier ++ later) = handledTopicMsgs conn earlier ++ handledTopicMsgs conn later :=
  ⟨List.filterMap_append, List.filterMap_append, List.filterMap_append, List.filterMap_append⟩

private theorem sequences_unordered (conn : Nat) {events : List Event}
    (unordered : ∀ event ∈ events, event.Unordered) :
    receivedRequests conn events = [] ∧ handledRequests conn events = [] ∧
      receivedTopicMsgs conn events = [] ∧ handledTopicMsgs conn events = [] := by
  induction events with
  | nil => exact ⟨rfl, rfl, rfl, rfl⟩
  | cons event events inductionHypothesis =>
      have first := unordered event List.mem_cons_self conn
      have rest := inductionHypothesis fun other member => unordered other (List.mem_cons_of_mem _ member)
      have split := sequences_append conn [event] events
      rw [List.singleton_append] at split
      rw [split.1, split.2.1, split.2.2.1, split.2.2.2, first.1, first.2.1, first.2.2.1, first.2.2.2,
        rest.1, rest.2.1, rest.2.2.1, rest.2.2.2]
      exact ⟨rfl, rfl, rfl, rfl⟩

/-- The unhandled entries stay the same, and the events do not matter. -/
private theorem Accounted.frame (accounted : Accounted before) (events : List Event)
    (requests : ∀ conn, unhandledRequests conn after.bus.requests = unhandledRequests conn before.bus.requests)
    (topicMsgs : after.bus.topicMsgs = before.bus.topicMsgs) (trace : after.trace = before.trace ++ events)
    (unordered : ∀ event ∈ events, event.Unordered) : Accounted after := by
  intro conn
  have silent := sequences_unordered conn unordered
  have split := sequences_append conn before.trace events
  rw [silent.1, silent.2.1, silent.2.2.1, silent.2.2.2] at split
  simp only [List.append_nil] at split
  rw [trace, requests conn, topicMsgs, split.1, split.2.1, split.2.2.1, split.2.2.2]
  exact accounted conn

private theorem Accounted.quiet (accounted : Accounted before) (same : Quiet before after) : Accounted after :=
  accounted.frame [] (fun conn => by rw [same.requests]) same.topicMsgs (same.trace.trans (List.append_nil _).symm)
    (by simp)

theorem Accounted.sinkStep {handsOut : Nat -> Prop} (step : SinkStep handsOut before after)
    (accounted : Accounted before) : Accounted after := by
  cases step with
  | quiet same => exact accounted.quiet same
  | opened num listen kind nfds _ _ =>
      refine accounted.frame [.opened ⟨num, before.conns⟩] ?_ ?_ rfl ?_
      · intro conn
        cases kind <;> rfl
      · cases kind <;> rfl
      · intro event member
        rw [List.mem_singleton.mp member]
        exact fun _ => ⟨rfl, rfl, rfl, rfl⟩
  | destroyed _ _ _ _ => exact accounted.frame [] (fun _ => rfl) rfl (List.append_nil _).symm (by simp)
  | closed _ sinkfd _ _ =>
      refine accounted.frame [.closed sinkfd.fd] (fun _ => rfl) rfl rfl ?_
      intro event member
      rw [List.mem_singleton.mp member]
      exact fun _ => ⟨rfl, rfl, rfl, rfl⟩

theorem Accounted.parseStep (step : ParseStep host before after) (accounted : Accounted before) :
    Accounted after := by
  cases step with
  | quiet same => exact accounted.quiet same
  | resync given left =>
      refine accounted.frame [.resync given left] (fun _ => rfl) rfl rfl ?_
      intro event member
      rw [List.mem_singleton.mp member]
      exact fun _ => ⟨rfl, rfl, rfl, rfl⟩
  | request sinkfd pac _ =>
      intro conn
      have split := sequences_append conn before.trace
        [.receivedRequest (newRequest host before sinkfd.fd pac)]
      simp only [addRequest, World.setRequests]
      rw [split.1, split.2.1, split.2.2.1, split.2.2.2, (accounted conn).1, (accounted conn).2]
      by_cases own : sinkfd.fd.conn = conn
      · simp [receivedRequests, handledRequests, receivedTopicMsgs, handledTopicMsgs, unhandledRequests,
          newRequest, own]
      · simp [receivedRequests, handledRequests, receivedTopicMsgs, handledTopicMsgs, unhandledRequests,
          newRequest, own]
  | response sinkfd pac _ =>
      refine accounted.frame [.receivedResponse ⟨pac, sinkfd.fd, before.nodes⟩] (fun _ => rfl) rfl rfl ?_
      intro event member
      rw [List.mem_singleton.mp member]
      exact fun _ => ⟨rfl, rfl, rfl, rfl⟩
  | topicMsg sinkfd pac _ =>
      intro conn
      have split := sequences_append conn before.trace [.receivedTopicMsg ⟨pac, sinkfd.fd, before.nodes⟩]
      simp only [addTopicMsg, World.setTopicMsgs]
      rw [split.1, split.2.1, split.2.2.1, split.2.2.2, (accounted conn).1, (accounted conn).2]
      by_cases own : sinkfd.fd.conn = conn
      · simp [receivedRequests, handledRequests, receivedTopicMsgs, handledTopicMsgs, unhandledTopicMsgs, own]
      · simp [receivedRequests, handledRequests, receivedTopicMsgs, handledTopicMsgs, unhandledTopicMsgs, own]

/-- A list of at most one entry that has an entry in the middle has nothing
around it. -/
private theorem around_nil {Entry : Type} {earlier later : List Entry} {entry : Entry}
    (short : (earlier ++ entry :: later).length ≤ 1) : earlier = [] ∧ later = [] := by
  rw [List.length_append, List.length_cons] at short
  exact ⟨List.eq_nil_of_length_eq_zero (by omega), List.eq_nil_of_length_eq_zero (by omega)⟩

/-- Handling the only unhandled request of its connection.  The list keeps it
with another state or drops it. -/
private theorem handle_request_accounted (accounted : Accounted before) (unbatched : Unbatched before)
    (kept : List ApiRequest) {earlier later : List ApiRequest} {req : ApiRequest} {event : Event}
    (place : before.bus.requests = earlier ++ req :: later) (fresh : req.state = .none)
    (seen : ∀ conn, unhandledRequests conn kept = [])
    (handled : ∀ conn, handledRequests conn [event] = if req.fd.conn = conn then [req.node] else [])
    (requests : after.bus.requests = earlier ++ kept ++ later)
    (topicMsgs : after.bus.topicMsgs = before.bus.topicMsgs) (trace : after.trace = before.trace ++ [event])
    (others : ∀ conn, receivedRequests conn [event] = [] ∧ receivedTopicMsgs conn [event] = [] ∧
      handledTopicMsgs conn [event] = []) : Accounted after ∧ Unbatched after := by
  have split := fun conn => sequences_append conn before.trace [event]
  have parts : ∀ conn, unhandledRequests conn after.bus.requests =
      unhandledRequests conn earlier ++ unhandledRequests conn later := by
    intro conn
    have silent := seen conn
    unfold unhandledRequests at silent ⊢
    rw [requests, List.filter_append, List.filter_append, silent, List.append_nil]
  have whole : ∀ conn, unhandledRequests conn before.bus.requests =
      unhandledRequests conn earlier ++
        ((if req.fd.conn = conn then [req] else []) ++ unhandledRequests conn later) := by
    intro conn
    unfold unhandledRequests
    rw [place, List.filter_append, List.filter_cons]
    by_cases own : req.fd.conn = conn <;> simp [fresh, own]
  constructor
  · intro conn
    rw [trace, (split conn).1, (split conn).2.1, (split conn).2.2.1, (split conn).2.2.2, (others conn).1,
      (others conn).2.1, (others conn).2.2, handled conn, parts conn, topicMsgs, (accounted conn).1,
      (accounted conn).2, whole conn]
    refine ⟨?_, by simp⟩
    by_cases own : req.fd.conn = conn
    · have short := (unbatched conn).1
      rw [whole conn, if_pos own, List.singleton_append] at short
      rcases around_nil short with ⟨front, back⟩
      simp [own, front, back]
    · simp [own]
  · intro conn
    rw [topicMsgs, parts conn]
    refine ⟨?_, (unbatched conn).2⟩
    have short := (unbatched conn).1
    rw [whole conn, List.length_append, List.length_append] at short
    rw [List.length_append]
    omega

/-- Removing a request that was handled before. -/
private theorem drop_waiting {earlier later : List ApiRequest} {req : ApiRequest}
    (waiting : req.state = .waitResponse) (conn : Nat) :
    unhandledRequests conn (earlier ++ later) = unhandledRequests conn (earlier ++ req :: later) := by
  simp [unhandledRequests, List.filter_append, waiting]

private theorem unbatched_frame (unbatched : Unbatched before)
    (requests : ∀ conn, unhandledRequests conn after.bus.requests = unhandledRequests conn before.bus.requests)
    (topicMsgs : after.bus.topicMsgs = before.bus.topicMsgs) : Unbatched after := by
  intro conn
  rw [requests conn, topicMsgs]
  exact unbatched conn

/-- A topic packet leaves its list, and has been handled. -/
private theorem handle_topicMsg_accounted (accounted : Accounted before) (unbatched : Unbatched before)
    {earlier later : List ApiTopicMsg} {tmsg : ApiTopicMsg} (place : before.bus.topicMsgs = earlier ++ tmsg :: later) :
    Accounted (((applyTopicMsg before tmsg).emit (.handledTopicMsg tmsg)).setTopicMsgs (earlier ++ later)) ∧
      Unbatched (((applyTopicMsg before tmsg).emit (.handledTopicMsg tmsg)).setTopicMsgs (earlier ++ later)) := by
  rcases applyTopicMsg_effect before tmsg with ⟨topics, calls, stopped, effect, _, _, allowed⟩
  have sends : ∀ event ∈ calls.map (sendEvent before), event.Unordered := by
    intro event member
    rcases List.mem_map.mp member with ⟨call, listed, rfl⟩
    rcases (allowed call listed).1 with rfl | rfl | ⟨fd, rfl⟩ <;> exact fun _ => ⟨rfl, rfl, rfl, rfl⟩
  rw [effect]
  have whole : ∀ conn, unhandledTopicMsgs conn before.bus.topicMsgs =
      unhandledTopicMsgs conn earlier ++
        ((if tmsg.fd.conn = conn then [tmsg] else []) ++ unhandledTopicMsgs conn later) := by
    intro conn
    unfold unhandledTopicMsgs
    rw [place, List.filter_append, List.filter_cons]
    by_cases own : tmsg.fd.conn = conn <;> simp [own]
  have parts : ∀ conn, unhandledTopicMsgs conn (earlier ++ later) =
      unhandledTopicMsgs conn earlier ++ unhandledTopicMsgs conn later := fun _ => List.filter_append _ _
  constructor
  · intro conn
    have silent := sequences_unordered conn sends
    have first := sequences_append conn before.trace (calls.map (sendEvent before))
    have last := sequences_append conn (before.trace ++ calls.map (sendEvent before)) [.handledTopicMsg tmsg]
    rw [silent.1, silent.2.1, silent.2.2.1, silent.2.2.2] at first
    simp only [List.append_nil] at first
    simp only [World.emit, World.setTopicMsgs, World.setTopics]
    rw [last.1, last.2.1, last.2.2.1, last.2.2.2, first.1, first.2.1, first.2.2.1, first.2.2.2,
      (accounted conn).1, (accounted conn).2, whole conn, parts conn]
    by_cases own : tmsg.fd.conn = conn
    · have short := (unbatched conn).2
      rw [whole conn, if_pos own, List.singleton_append] at short
      rcases around_nil short with ⟨front, back⟩
      simp [receivedRequests, handledRequests, receivedTopicMsgs, handledTopicMsgs, own, front, back]
    · simp [receivedRequests, handledRequests, receivedTopicMsgs, handledTopicMsgs, own]
  · intro conn
    refine ⟨(unbatched conn).1, ?_⟩
    have short := (unbatched conn).2
    rw [whole conn, List.length_append, List.length_append] at short
    change (unhandledTopicMsgs conn (earlier ++ later)).length ≤ 1
    rw [parts conn, List.length_append]
    omega

/-- The handlers keep the account as long as no connection has two packets
waiting, and they add none. -/
theorem Accounted.handleStep (step : HandleStep host before after)
    (holds : Accounted before ∧ Unbatched before) : Accounted after ∧ Unbatched after := by
  rcases holds with ⟨accounted, unbatched⟩
  cases step with
  | quiet same =>
      exact ⟨accounted.quiet same, unbatched_frame unbatched (fun conn => by rw [same.requests]) same.topicMsgs⟩
  | timeout earlier req later place waiting _ =>
      have requests : ∀ conn, unhandledRequests conn (earlier ++ later) =
          unhandledRequests conn before.bus.requests := by
        intro conn
        rw [place]
        exact drop_waiting waiting conn
      refine ⟨accounted.frame [_] requests rfl rfl ?_, unbatched_frame unbatched requests rfl⟩
      intro event member
      rw [List.mem_singleton.mp member]
      exact fun _ => ⟨rfl, rfl, rfl, rfl⟩
  | notFound earlier req later place fresh _ =>
      rw [registerSource_frame]
      refine handle_request_accounted accounted unbatched [] place fresh (fun _ => rfl) ?_
        (by rw [List.append_nil]; rfl) rfl rfl (fun _ => ⟨rfl, rfl, rfl⟩)
      intro conn
      by_cases own : req.fd.conn = conn <;> simp [handledRequests, own]
  | forward earlier req later dst place fresh _ =>
      rw [registerSource_frame]
      refine handle_request_accounted accounted unbatched [_] place fresh (fun _ => rfl) ?_
        (by rw [List.append_assoc]; rfl) rfl rfl (fun _ => ⟨rfl, rfl, rfl⟩)
      intro conn
      by_cases own : req.fd.conn = conn <;> simp [handledRequests, own]
  | response earlier resp later place waiting =>
      rcases touchDestination_frame host (relayResponse before resp) resp with ⟨reads, _, touched⟩
      rw [touched]
      rcases relayResponse_cases before resp with ⟨_, same⟩ | ⟨front, req, back, listed, _, relayed⟩
      · rw [same]
        exact ⟨accounted.frame [] (fun _ => rfl) rfl (List.append_nil _).symm (by simp),
          unbatched_frame unbatched (fun _ => rfl) rfl⟩
      · rw [relayed]
        have requests : ∀ conn, unhandledRequests conn (front ++ back) =
            unhandledRequests conn before.bus.requests := by
          intro conn
          rw [listed]
          exact drop_waiting (waiting req (by
            rw [listed]
            exact List.mem_append_right _ List.mem_cons_self)) conn
        refine ⟨accounted.frame [_] requests rfl rfl ?_, unbatched_frame unbatched requests rfl⟩
        intro event member
        rw [List.mem_singleton.mp member]
        exact fun _ => ⟨rfl, rfl, rfl, rfl⟩
  | topicMsg earlier tmsg later place _ => exact handle_topicMsg_accounted accounted unbatched place
  | dropStation _ _ _ _ _ =>
      exact ⟨accounted.frame [] (fun _ => rfl) rfl (List.append_nil _).symm (by simp),
        unbatched_frame unbatched (fun _ => rfl) rfl⟩

end Steps

/-- When the handlers of a poll start, no connection has two packets waiting. -/
def UnbatchedPoll (host : Host) (world : World) : BusInput -> Prop
  | .poll input => Unbatched (receivePhase host input world)
  | _ => True

theorem busStep_accounted {host : Host} (world : World) (input : BusInput)
    (unbatched : UnbatchedPoll host world input) (accounted : Accounted world) :
    Accounted (busStep host world input) := by
  cases input with
  | poll input =>
      rcases busStep_poll host world input with same | ⟨_, polled⟩
      · rw [same]
        exact accounted
      · rw [polled]
        have received := steps_invariant Accounted (fun _ _ => Accounted.sinkStep)
          (sinkPhase_steps host input world) accounted
        have parsed := steps_invariant Accounted (fun _ _ => Accounted.parseStep)
          (receivePhase_steps input world) received
        exact (steps_invariant (fun world => Accounted world ∧ Unbatched world)
          (fun _ _ => Accounted.handleStep) (handlePhase_steps _) ⟨parsed, unbatched⟩).1
  | openSink kind answer =>
      exact steps_invariant Accounted (fun _ _ => Accounted.sinkStep)
        (busStep_openSink_steps world kind answer) accounted
  | close num =>
      exact steps_invariant Accounted (fun _ _ => Accounted.sinkStep) (busStep_close_steps world num) accounted

/-- In a run in which no poll finds two requests, or two topic packets, of one
connection waiting, each connection is handled in order. -/
theorem busRun_inOrder (host : Host) (inputs : List BusInput)
    (unbatched : EveryStep host (UnbatchedPoll host) apibusNew inputs) :
    InOrder (busRun host apibusNew inputs).trace := by
  have start : Accounted apibusNew := fun _ => ⟨rfl, rfl⟩
  exact (busRun_conditional Accounted (fun world input => busStep_accounted world input) inputs apibusNew
    unbatched start).inOrder

theorem unbatched_of_short {world : World} (requests : world.bus.requests.length ≤ 1)
    (topicMsgs : world.bus.topicMsgs.length ≤ 1) : Unbatched world := fun _ =>
  ⟨(List.length_filter_le _ _).trans requests, (List.length_filter_le _ _).trans topicMsgs⟩

/-- Another request of station 1 to station 2. -/
private def nextRequest : List UInt8 := ascii ">0,$,0017,0001:/2/b?{}" ++ [0]

/-- The second request arrives when the first has been handled. -/
private def oneByOne : List BusInput := oneReceive oneRequest ++ [oneSend 4 nextRequest]

theorem busRun_inOrder_oneByOne :
    InOrder (busRun (Host.still 0) apibusNew oneByOne).trace ∧
      receivedRequests 1 (busRun (Host.still 0) apibusNew oneByOne).trace = [0, 1] ∧
      handledRequests 1 (busRun (Host.still 0) apibusNew oneByOne).trace = [0, 1] :=
  ⟨busRun_inOrder (Host.still 0) oneByOne
    ⟨trivial, unbatched_of_short (by decide +kernel) (by decide +kernel),
      unbatched_of_short (by decide +kernel) (by decide +kernel),
      unbatched_of_short (by decide +kernel) (by decide +kernel), trivial⟩,
    by decide +kernel, by decide +kernel⟩

/-- Both requests of station 1 at once. -/
def twoRequests : List UInt8 := oneRequest ++ nextRequest

/-- Both requests arrive in one receive, and the second is refused first. -/
theorem twoRequests_not_inOrder : ¬ ∀ host inputs, InOrder (busRun host apibusNew inputs).trace := by
  intro always
  have first := (always (Host.still 0) (oneReceive twoRequests) 1).1
  have handled : handledRequests 1 (busRun (Host.still 0) apibusNew (oneReceive twoRequests)).trace = [1, 0] := by
    decide +kernel
  have received : receivedRequests 1 (busRun (Host.still 0) apibusNew (oneReceive twoRequests)).trace = [0, 1] := by
    decide +kernel
  rw [handled, received] at first
  revert first
  decide

end Bus
end Extlib
