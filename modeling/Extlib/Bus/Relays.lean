import Extlib.Bus.Authenticity
import Extlib.Srrp.Reread

namespace Extlib
namespace Bus

open Text Buffer Srrp Machine World

/-!
# What the bus sends on

The bus sends requests, responses and topic messages on as the bytes it copied
out of its receive buffers.  Every packet it holds was read from a terminated
text, and so what it sends on is read as the packet it parsed exactly when the
copy reaches the NUL.
-/

/-- The packet that goes out with an event. -/
def carried : Event -> Option SrrpPacket
  | .send (.forward req _) _ => some req.pac
  | .send (.relay resp _) _ => some resp.pac
  | .send (.publish tmsg _) _ => some tmsg.pac
  | _ => none

/-- The packets on the lists of the bus and those it has sent on. -/
def packets (world : World) : List SrrpPacket :=
  world.bus.requests.map (·.pac) ++ world.bus.responses.map (·.pac) ++ world.bus.topicMsgs.map (·.pac) ++
    world.trace.filterMap carried

/-- All buffers are well formed, and all packets were read from one that was. -/
structure Faithful (world : World) : Prop where
  buffers : ∀ sinkfd ∈ world.bus.sinkfds, sinkfd.rxbuf.Valid
  genuine : ∀ pac ∈ packets world, Genuine pac

theorem mem_packets {world : World} {pac : SrrpPacket} :
    pac ∈ packets world ↔ pac ∈ world.bus.requests.map (·.pac) ∨ pac ∈ world.bus.responses.map (·.pac) ∨
      pac ∈ world.bus.topicMsgs.map (·.pac) ∨ pac ∈ world.trace.filterMap carried := by
  simp only [packets, List.mem_append, or_assoc]

/-- An event with which no packet goes out. -/
theorem carried_silent (trace : List Event) (event : Event) (silent : carried event = none) :
    (trace ++ [event]).filterMap carried = trace.filterMap carried := by
  rw [List.filterMap_append, List.filterMap_cons_none silent, List.filterMap_nil, List.append_nil]

/-! ## The sinks -/

section Sinks

variable {host : Host} {input : PollInput} {before after : World}

theorem packets_sinkStep {handsOut : Nat -> Prop} (step : SinkStep handsOut before after) :
    packets after = packets before := by
  cases step with
  | quiet same => rw [packets, packets, same.requests, same.responses, same.topicMsgs, same.trace]
  | opened num listen kind nfds allowed closed =>
      cases kind <;> simp [packets, registerFd, World.setPosixSink, World.setSinkfds, carried]
  | destroyed front sinkfd back place => rfl
  | closed front sinkfd back place => simp [packets, World.setSinkfds, carried]

private theorem packets_sinkSteps {handsOut : Nat -> Prop}
    (steps : Relation.ReflTransGen (SinkStep handsOut) before after) : packets after = packets before :=
  steps_invariant (fun world => packets world = packets before)
    (fun _ _ step same => (packets_sinkStep step).trans same) steps rfl

/-- Bytes that leave a cell for the NUL keep the buffer well formed. -/
private theorem writeAdvance_valid {rxbuf advanced : Atbuf} (valid : rxbuf.Valid) {bytes : List UInt8}
    (written : atbufWriteAdvance (atbufFill rxbuf bytes) bytes.length = some advanced) : advanced.Valid := by
  have room : bytes.length < atbufSpare rxbuf := by
    by_contra full
    rw [(atbufFill_writeAdvance_eq_none_iff valid bytes).mpr (Nat.le_of_not_lt full)] at written
    cases written
  unfold atbufSpare at room
  rcases atbufFill_writeAdvance valid.ordered bytes (by omega) with ⟨filled, advances, filledValid, _⟩
  cases written.symm.trans advances
  exact filledValid

private theorem visitReady_buffers (kind : SinkKind) (state : SelectState) (front : List SinkFd) (pos : SinkFd)
    (back : List SinkFd)
    (valid : ∀ sinkfd ∈ state.accepted ++ (front ++ pos :: back), sinkfd.rxbuf.Valid) :
    ∀ sinkfd ∈ (visitReady host input kind state pos).1.accepted ++
      (front ++ (visitReady host input kind state pos).2.toList ++ back), sinkfd.rxbuf.Valid := by
  -- the entry is kept or dropped, and nothing but fresh entries joins those accepted
  have keep : ∀ fresh kept : List SinkFd, (∀ sinkfd ∈ fresh, sinkfd.rxbuf.Valid) ->
      (∀ sinkfd ∈ kept, sinkfd.rxbuf.Valid) ->
      ∀ sinkfd ∈ (fresh ++ state.accepted) ++ (front ++ kept ++ back), sinkfd.rxbuf.Valid := by
    intro fresh kept freshValid keptValid sinkfd member
    simp only [List.mem_append] at member
    rcases member with (new | old) | (early | here) | late
    · exact freshValid sinkfd new
    · exact valid sinkfd (by simp [old])
    · exact valid sinkfd (by simp [early])
    · exact keptValid sinkfd here
    · exact valid sinkfd (by simp [late])
  have here : ∀ sinkfd ∈ [pos], sinkfd.rxbuf.Valid := fun sinkfd member =>
    valid sinkfd (by rw [List.mem_singleton.mp member]; simp)
  rcases visitReady_cases host input kind state pos with passes | ⟨_, _, _, accepts⟩ | ⟨_, _, _, receives⟩
  · rw [passes]
    exact keep [] [pos] (by simp) here
  · rw [accepts]
    rcases acceptFd_cases input { state with nrRecvFds := state.nrRecvFds - 1 } pos with
      none_new | ⟨newfd, _, _, accepted⟩
    · rw [none_new]
      exact keep [] [pos] (by simp) here
    · rw [accepted]
      refine keep [_] [pos] ?_ here
      intro fresh member
      rw [List.mem_singleton.mp member]
      exact atbufNew_valid 0
  · rw [receives]
    rcases receiveFd_cases host input { state with nrRecvFds := state.nrRecvFds - 1 } pos with
      closed | asserts | ⟨bytes, rxbuf, _, advanced, received⟩
    · rw [closed]
      exact keep [] [] (by simp) (by simp)
    · rw [asserts]
      exact keep [] [pos] (by simp) here
    · rw [received]
      refine keep [] [_] (by simp) ?_
      intro kept member
      rw [List.mem_singleton.mp member]
      exact writeAdvance_valid (here pos List.mem_cons_self) advanced

private theorem posixPoll_buffers (kind : SinkKind) (world : World)
    (valid : ∀ sinkfd ∈ world.bus.sinkfds, sinkfd.rxbuf.Valid) :
    ∀ sinkfd ∈ (posixPoll host input kind world).bus.sinkfds, sinkfd.rxbuf.Valid := by
  unfold posixPoll
  split
  · exact valid
  case h_2 recvfds _ =>
    exact sweep_invariant
      (fun state sinkfds => ∀ sinkfd ∈ state.accepted ++ sinkfds, sinkfd.rxbuf.Valid)
      (fun state front pos back => visitReady_buffers kind state front pos back)
      ⟨world, recvfds, recvfds.length, []⟩ world.bus.sinkfds valid

theorem Faithful.sinkPhase {world : World} (faithful : Faithful world) : Faithful (sinkPhase host input world) where
  buffers := by
    have pass : ∀ (kind : SinkKind) (world : World), (∀ sinkfd ∈ world.bus.sinkfds, sinkfd.rxbuf.Valid) ->
        ∀ sinkfd ∈ (unlessStopped (posixPoll host input kind) world).bus.sinkfds, sinkfd.rxbuf.Valid :=
      fun kind world valid => unlessStopped_rule (fun world => ∀ sinkfd ∈ world.bus.sinkfds, sinkfd.rxbuf.Valid)
        valid (posixPoll_buffers kind world valid)
    exact pass .unix _ (pass .tcp _ (pass .serial _ faithful.buffers))
  genuine := by
    rw [packets_sinkSteps (sinkPhase_steps host input world)]
    exact faithful.genuine

end Sinks

/-! ## The parser -/

section Parser

variable {host : Host}

/-- An accepted packet joins the others, and nothing else is parsed. -/
private theorem packets_enqueue (world : World) (fd : Fd) (pac : SrrpPacket) :
    ∀ held ∈ packets (enqueue host world fd pac), held = pac ∨ held ∈ packets world := by
  intro held member
  unfold enqueue at member
  split at member
  · have trace := carried_silent world.trace (.receivedRequest (newRequest host world fd pac)) rfl
    rw [mem_packets] at member ⊢
    simp only [addRequest, World.setRequests, trace, List.map_cons, List.mem_cons] at member
    exact or_assoc.mp member
  · split at member
    · have trace := carried_silent world.trace (.receivedResponse ⟨pac, fd, world.nodes⟩) rfl
      rw [mem_packets] at member ⊢
      simp only [addResponse, World.setResponses, trace, List.map_cons, List.mem_cons] at member
      tauto
    · split at member
      · have trace := carried_silent world.trace (.receivedTopicMsg ⟨pac, fd, world.nodes⟩) rfl
        rw [mem_packets] at member ⊢
        simp only [addTopicMsg, World.setTopicMsgs, trace, List.map_cons, List.mem_cons] at member
        tauto
      · exact Or.inr member

private theorem packets_resync (world : World) (sinkfd : SinkFd) :
    packets (resync world sinkfd).1 = packets world := by
  rcases resync_cases world sinkfd with ⟨count, given⟩ | given
  · rw [given]
    simp [packets, discard, World.emit, carried]
  · rw [given]
    rfl

private theorem genuine_of_valid {rxbuf : Atbuf} (valid : rxbuf.Valid) {beyond : Nat -> UInt8} {pac : SrrpPacket}
    (accepted : srrpReadOnePacket beyond (atbufReadPos rxbuf) = .packet pac) : Genuine pac := by
  rcases valid.readPos with ⟨behind, place⟩
  have terminated : (0 : UInt8) ∈ atbufReadPos rxbuf := by
    rw [place]
    simp
  rcases CString.ofMemory_split terminated with ⟨rest, split⟩
  rw [split] at accepted
  exact ⟨beyond, _, rest, accepted⟩

/-- Where the parser stands. -/
private def Underway (state : World × SinkFd) : Prop :=
  state.2.rxbuf.Valid ∧ ∀ pac ∈ packets state.1, Genuine pac

private theorem parseRound_reading (state : World × SinkFd) (reading : Underway state) :
    Underway (parseRound host state).state := by
  refine ⟨(parseRound_keeps host state reading.1).1, ?_⟩
  rcases state with ⟨world, sinkfd⟩
  rcases parseRound_cases host world sinkfd with ⟨_, round⟩ | ⟨_, round⟩ | round | round | ⟨pac, _, accepted, round⟩
  · rw [round]
    exact reading.2
  · rw [round]
    exact reading.2
  · rw [round]
    exact reading.2
  · rw [round, Round.state, packets_resync]
    exact reading.2
  · rw [round]
    intro held member
    rcases packets_enqueue world sinkfd.fd pac held member with rfl | old
    · exact genuine_of_valid reading.1 accepted
    · exact reading.2 held old

theorem Faithful.parseSinkfds {world : World} (faithful : Faithful world) : Faithful (parseSinkfds host world) := by
  have done := @sweep_invariant _ _ (visitSinkfd host)
    (fun (state : World) (sinkfds : List SinkFd) => (∀ sinkfd ∈ sinkfds, sinkfd.rxbuf.Valid) ∧
      ∀ pac ∈ packets state, Genuine pac) ?_ world world.bus.sinkfds ⟨faithful.buffers, faithful.genuine⟩
  · exact ⟨done.1, done.2⟩
  rintro state front pos back ⟨valid, genuine⟩
  have counted : packets (countReceived state pos) = packets state := by
    unfold countReceived
    split <;> rfl
  have keep : ∀ kept : SinkFd, kept.rxbuf.Valid ->
      ∀ sinkfd ∈ front ++ (some kept).toList ++ back, sinkfd.rxbuf.Valid := by
    intro kept good sinkfd member
    simp only [Option.toList_some, List.mem_append, List.mem_singleton] at member
    rcases member with (early | rfl) | late
    · exact valid sinkfd (by simp [early])
    · exact good
    · exact valid sinkfd (by simp [late])
  have here : pos.rxbuf.Valid := valid pos (by simp)
  unfold visitSinkfd
  split
  · exact ⟨keep pos here, genuine⟩
  · split
    · exact ⟨keep pos here, counted ▸ genuine⟩
    · have parsed : Underway (parsePacket host (countReceived state pos) pos) :=
        repeatUpTo_invariant Underway parseRound_reading _ _ ⟨here, counted ▸ genuine⟩
      exact ⟨keep _ parsed.1, parsed.2⟩

theorem Faithful.receivePhase {input : PollInput} {world : World} (faithful : Faithful world) :
    Faithful (receivePhase host input world) := by
  have parsed : Faithful (unlessStopped (Bus.parseSinkfds host) (Bus.sinkPhase host input world)) :=
    unlessStopped_rule Faithful faithful.sinkPhase faithful.sinkPhase.parseSinkfds
  exact unlessStopped_rule Faithful parsed ⟨parsed.buffers, parsed.genuine⟩

end Parser

/-! ## The handlers -/

section Handlers

variable {host : Host} {before after : World}

/-- A handler sends out packets of its lists and drops others. -/
private theorem packets_frame (events : List Event) (trace : after.trace = before.trace ++ events)
    (requests : after.bus.requests.map (·.pac) ⊆ before.bus.requests.map (·.pac))
    (responses : after.bus.responses.map (·.pac) ⊆ before.bus.responses.map (·.pac))
    (topicMsgs : after.bus.topicMsgs.map (·.pac) ⊆ before.bus.topicMsgs.map (·.pac))
    (sent : ∀ event ∈ events, ∀ pac, carried event = some pac -> pac ∈ packets before) :
    packets after ⊆ packets before := by
  intro pac member
  rw [mem_packets, trace, List.filterMap_append, List.mem_append] at member
  rcases member with request | response | topicMsg | old | new
  · exact mem_packets.mpr (Or.inl (requests request))
  · exact mem_packets.mpr (Or.inr (Or.inl (responses response)))
  · exact mem_packets.mpr (Or.inr (Or.inr (Or.inl (topicMsgs topicMsg))))
  · exact mem_packets.mpr (Or.inr (Or.inr (Or.inr old)))
  · rcases List.mem_filterMap.mp new with ⟨event, listed, goes⟩
    exact sent event listed pac goes

private theorem map_around {Entry : Type} (packet : Entry -> SrrpPacket) (front : List Entry) (entry : Entry)
    (back : List Entry) : (front ++ back).map packet ⊆ (front ++ entry :: back).map packet :=
  List.map_subset packet (fun _ member => by
    rcases List.mem_append.mp member with early | late
    · exact List.mem_append_left _ early
    · exact List.mem_append_right _ (List.mem_cons_of_mem _ late))

theorem packets_handleStep (step : HandleStep host before after) : packets after ⊆ packets before := by
  have listed : ∀ {front : List ApiRequest} {req : ApiRequest} {back : List ApiRequest},
      before.bus.requests = front ++ req :: back -> req.pac ∈ packets before := by
    intro front req back place
    refine mem_packets.mpr (Or.inl (List.mem_map_of_mem ?_))
    rw [place]
    simp
  cases step with
  | quiet same =>
      exact packets_frame [] (same.trace.trans (List.append_nil _).symm) (by rw [same.requests]; exact fun _ => id)
        (by rw [same.responses]; exact fun _ => id) (by rw [same.topicMsgs]; exact fun _ => id) (by simp)
  | timeout front req back place waiting late =>
      exact packets_frame [_] rfl (place ▸ map_around _ front req back) (fun _ => id) (fun _ => id)
        (by simp [carried])
  | notFound front req back place fresh unknown =>
      rw [registerSource_frame]
      exact packets_frame [_] rfl (place ▸ map_around _ front req back) (fun _ => id) (fun _ => id)
        (by simp [carried])
  | forward front req back dst place fresh known =>
      rw [registerSource_frame]
      refine packets_frame [_] rfl ?_ (fun _ => id) (fun _ => id) ?_
      · rw [place]
        simp [World.setRequests]
      · intro event member pac goes
        rw [List.mem_singleton.mp member] at goes
        cases goes
        exact listed place
  | response front resp back place waiting =>
      have responses := map_around (·.pac) front resp back
      rw [← place] at responses
      have here : resp.pac ∈ packets before := by
        refine mem_packets.mpr (Or.inr (Or.inl (List.mem_map_of_mem ?_)))
        rw [place]
        simp
      rcases touchDestination_frame host (relayResponse before resp) resp with ⟨reads, stations, touched⟩
      rw [touched]
      rcases relayResponse_cases before resp with ⟨_, same⟩ | ⟨early, req, late, found, _, relayed⟩
      · rw [same]
        exact packets_frame [] (List.append_nil _).symm (fun _ => id) responses (fun _ => id) (by simp)
      · rw [relayed]
        refine packets_frame [_] rfl (found ▸ map_around _ early req late) responses (fun _ => id) ?_
        intro event member pac goes
        rw [List.mem_singleton.mp member] at goes
        cases goes
        exact here
  | topicMsg front tmsg back place applied =>
      have here : tmsg.pac ∈ packets before := by
        refine mem_packets.mpr (Or.inr (Or.inr (Or.inl (List.mem_map_of_mem ?_))))
        rw [place]
        simp
      rcases applyTopicMsg_effect before tmsg with ⟨topics, calls, stopped, effect, _, _, allowed⟩
      rw [effect]
      refine packets_frame _ (List.append_assoc _ _ _) (fun _ => id) (fun _ => id)
        (place ▸ map_around _ front tmsg back) ?_
      intro event member pac goes
      rcases List.mem_append.mp member with sent | handled
      · rcases List.mem_map.mp sent with ⟨call, listed, rfl⟩
        rcases (allowed call listed).1 with rfl | rfl | ⟨fd, rfl⟩ <;> cases goes
        exact here
      · rw [List.mem_singleton.mp handled] at goes
        cases goes
  | dropStation front station back place unalive => exact fun _ => id

/-- No handler touches a sinkfd. -/
theorem handlePhase_sinkfds (host : Host) (world : World) :
    (handlePhase host world).bus.sinkfds = world.bus.sinkfds := by
  have pass : ∀ (handler : World -> World), (∀ world, (handler world).bus.sinkfds = world.bus.sinkfds) ->
      ∀ world, (unlessStopped handler world).bus.sinkfds = world.bus.sinkfds := fun handler same world =>
    unlessStopped_rule (fun next => next.bus.sinkfds = world.bus.sinkfds) rfl (same world)
  have swept : ∀ {Entry : Type} (visit : World -> Entry -> World × Option Entry) (world : World)
      (entries : List Entry), (∀ state entry, (visit state entry).1.bus.sinkfds = state.bus.sinkfds) ->
      (sweep visit world entries).1.bus.sinkfds = world.bus.sinkfds := fun visit world entries same =>
    sweep_state (fun state => state.bus.sinkfds = world.bus.sinkfds)
      (fun state entry kept => (same state entry).trans kept) world entries rfl
  have requests : ∀ world, (handleRequest host world).bus.sinkfds = world.bus.sinkfds := by
    refine fun world => swept (visitRequest host) world world.bus.requests fun state pos => ?_
    have registered : registerSource host state pos = _ := registerSource_frame state pos
    rcases visitRequest_cases host state pos with
      ⟨_, _, waits⟩ | ⟨_, _, ends⟩ | ⟨_, _, refused⟩ | ⟨dst, _, _, forwarded⟩
    · rw [waits]
      rfl
    · rw [ends]
      rfl
    · rw [refused, registered]
      rfl
    · rw [forwarded, registered]
      rfl
  have responses : ∀ world, (handleResponse host world).bus.sinkfds = world.bus.sinkfds := by
    refine fun world => swept (visitResponse host) world world.bus.responses fun state pos => ?_
    rcases touchDestination_frame host (relayResponse state pos) pos with ⟨reads, _, touched⟩
    rw [visitResponse, touched]
    rcases relayResponse_cases state pos with ⟨_, same⟩ | ⟨_, _, _, _, _, relayed⟩
    · rw [same]
      rfl
    · rw [relayed]
      rfl
  have topicMsgs : ∀ world, (handleTopicMsg world).bus.sinkfds = world.bus.sinkfds := by
    refine fun world => swept visitTopicMsg world world.bus.topicMsgs fun state pos => ?_
    rcases applyTopicMsg_effect state pos with ⟨topics, calls, stopped, effect, _, _, _⟩
    unfold visitTopicMsg
    rw [effect]
    split
    · rfl
    · dsimp only
      split <;> rfl
  have stations : ∀ world, (clearUnaliveStation host world).bus.sinkfds = world.bus.sinkfds := by
    refine fun world => swept (visitStation host) world world.bus.stations fun state station => ?_
    unfold visitStation
    split <;> rfl
  exact (pass _ stations _).trans ((pass _ topicMsgs _).trans ((pass _ responses _).trans (pass _ requests _)))

end Handlers

/-! ## The runs -/

section Runs

variable {host : Host}

private theorem Faithful.step {world : World} (faithful : Faithful world) (input : BusInput) :
    Faithful (busStep host world input) := by
  cases input with
  | poll input =>
      rcases busStep_poll host world input with same | ⟨_, polled⟩
      · rw [same]
        exact faithful
      · have received : Faithful (Bus.receivePhase host input world) := faithful.receivePhase
        rw [polled]
        have same := handlePhase_sinkfds host (Bus.receivePhase host input world)
        refine ⟨fun sinkfd member => received.buffers sinkfd (same ▸ member), ?_⟩
        have sent : packets (handlePhase host (Bus.receivePhase host input world)) ⊆
            packets (Bus.receivePhase host input world) :=
          steps_invariant (fun next => packets next ⊆ packets (Bus.receivePhase host input world))
            (fun _ _ (step : HandleStep host _ _) earlier => List.Subset.trans (packets_handleStep step) earlier)
            (handlePhase_steps _) (List.Subset.refl _)
        exact fun pac member => received.genuine pac (sent member)
  | openSink kind answer =>
      refine ⟨?_, packets_sinkSteps (busStep_openSink_steps world kind answer) ▸ faithful.genuine⟩
      refine unlessStopped_rule (fun next => ∀ sinkfd ∈ next.bus.sinkfds, sinkfd.rxbuf.Valid) faithful.buffers ?_
      unfold openSink
      split
      · exact faithful.buffers
      · split
        · exact faithful.buffers
        · intro sinkfd member
          rcases List.mem_cons.mp member with rfl | old
          · exact atbufNew_valid 0
          · exact faithful.buffers sinkfd old
  | close num =>
      refine ⟨?_, packets_sinkSteps (busStep_close_steps world num) ▸ faithful.genuine⟩
      refine unlessStopped_rule (fun next => ∀ sinkfd ∈ next.bus.sinkfds, sinkfd.rxbuf.Valid) faithful.buffers ?_
      unfold apibusClose
      split
      · exact faithful.buffers
      · split
        · exact faithful.buffers
        · exact fun sinkfd member => faithful.buffers sinkfd (List.mem_of_mem_eraseP member)

theorem busRun_faithful (host : Host) (inputs : List BusInput) : Faithful (busRun host apibusNew inputs) := by
  have general : ∀ (inputs : List BusInput) (world : World), Faithful world ->
      Faithful (busRun host world inputs) := by
    intro inputs
    induction inputs with
    | nil => exact fun _ faithful => faithful
    | cons input inputs later => exact fun world faithful => later _ (faithful.step input)
  exact general inputs apibusNew
    ⟨fun _ member => absurd member List.not_mem_nil, fun _ member => absurd member List.not_mem_nil⟩

end Runs

/-- In every run a request, response or topic message that is sent on is read
as the packet the bus parsed, whatever follows it on the wire, exactly when its
bytes contain a NUL. -/
theorem sent_readsBack_iff (host : Host) (inputs : List BusInput) {call : SendCall} {sentTo : Option Fd}
    {pac : SrrpPacket} (sent : .send call sentTo ∈ (busRun host apibusNew inputs).trace)
    (goes : carried (.send call sentTo) = some pac) :
    ReadsBack call.bytes pac ↔ (0 : UInt8) ∈ call.bytes := by
  have bytes : call.bytes = pac.sentBytes := by
    cases call <;> cases goes <;> rfl
  have genuine : Genuine pac := (busRun_faithful host inputs).genuine pac
    (mem_packets.mpr (Or.inr (Or.inr (Or.inr (List.mem_filterMap.mpr ⟨_, sent, goes⟩)))))
  rw [bytes]
  exact readsBack_iff genuine

theorem sent_readsBack_iff_strangersAnswer : ∃ call sentTo pac,
    .send call sentTo ∈ (busRun (Host.still 0) apibusNew strangersAnswer).trace ∧
      carried (.send call sentTo) = some pac ∧ ReadsBack call.bytes pac := by
  have ends : ((busRun (Host.still 0) apibusNew strangersAnswer).trace.filterMap carried).map
      (fun pac => pac.sentBytes.getLast?) = [some 0, some 0] := by decide +kernel
  have first : some 0 ∈ [some (0 : UInt8), some 0] := List.mem_cons_self
  rw [← ends] at first
  rcases List.mem_map.mp first with ⟨pac, out, last⟩
  rcases List.mem_filterMap.mp out with ⟨event, occurred, goes⟩
  cases event with
  | send call sentTo =>
      refine ⟨call, sentTo, pac, occurred, goes, (sent_readsBack_iff _ _ occurred goes).mpr ?_⟩
      have bytes : call.bytes = pac.sentBytes := by
        cases call <;> cases goes <;> rfl
      rw [bytes]
      exact List.mem_of_getLast? last
  | _ => cases goes

end Bus
end Extlib
