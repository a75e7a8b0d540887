import Extlib.Bus.Steps

namespace Extlib
namespace Bus

open Text Buffer Srrp Machine World

/-!
# The assertions on the receive path

There are two: `atbuf_write_advance` leaves room for a NUL behind the bytes
received, and the offset `parse_packet` skips to lies within the buffer.  The
second always holds.  The first holds exactly when a receive does not fill the
spare room to its last byte, which is as much as `recv` is asked for.
-/

/-- The receive buffers are well formed and no assertion has failed. -/
structure Sound (world : World) : Prop where
  buffers : ∀ sinkfd ∈ world.bus.sinkfds, sinkfd.rxbuf.Valid
  running : world.stopped ≠ some .assertion

/-- What `recv` would deliver leaves a spare byte. -/
def ShortFor (input : PollInput) (sinkfd : SinkFd) : Prop :=
  ∀ bytes, input.recv sinkfd.fd.num = some bytes -> bytes.length < atbufSpare sinkfd.rxbuf

section Sinks

variable {host : Host} {input : PollInput}

/-- A receive keeps the buffer well formed, and asserts exactly when it fills
the spare room. -/
theorem receiveFd_asserts_iff (state : SelectState) (sinkfd : SinkFd) (valid : sinkfd.rxbuf.Valid)
    (running : state.world.stopped = none) :
    (receiveFd host input state sinkfd).1.world.stopped = some .assertion ↔
      ∃ bytes, input.recv sinkfd.fd.num = some bytes ∧ atbufSpare sinkfd.rxbuf ≤ bytes.length := by
  have spare : 0 < atbufSpare sinkfd.rxbuf := by
    have inside : sinkfd.rxbuf.offsetIn < atbufSize sinkfd.rxbuf := valid.inside
    unfold atbufSpare
    omega
  unfold receiveFd
  split
  case h_1 failed => simp [failed, running]
  case h_2 bytes answered =>
    have only : (∃ others, input.recv sinkfd.fd.num = some others ∧ atbufSpare sinkfd.rxbuf ≤ others.length) ↔
        atbufSpare sinkfd.rxbuf ≤ bytes.length := by simp [answered]
    have full := atbufFill_writeAdvance_eq_none_iff valid (bytes.take (atbufSpare sinkfd.rxbuf))
    have taken : atbufSpare sinkfd.rxbuf ≤ (bytes.take (atbufSpare sinkfd.rxbuf)).length ↔
        atbufSpare sinkfd.rxbuf ≤ bytes.length := by
      rw [List.length_take]
      omega
    rw [only]
    rw [taken] at full
    dsimp only
    split
    case isTrue none =>
      have empty := congrArg List.length none
      rw [List.length_take, List.length_nil] at empty
      simp only [running, reduceCtorEq, false_iff]
      omega
    case isFalse =>
      split
      case h_1 asserts => simp [World.stop, full.mp asserts]
      case h_2 rxbuf advanced =>
        simp only [World.tick, running, reduceCtorEq, false_iff]
        intro fills
        rw [full.mpr fills] at advanced
        cases advanced

/-- A short receive keeps the buffer well formed and does not stop the bus. -/
theorem receiveFd_sound (host : Host) (state : SelectState) {sinkfd : SinkFd} (valid : sinkfd.rxbuf.Valid)
    (short : ShortFor input sinkfd) :
    (∀ kept, (receiveFd host input state sinkfd).2 = some kept ->
      kept.rxbuf.Valid ∧ kept.sink = sinkfd.sink) ∧
      (receiveFd host input state sinkfd).1.world.stopped = state.world.stopped ∧
      (receiveFd host input state sinkfd).1.accepted = state.accepted := by
  unfold receiveFd
  split
  case h_1 => exact ⟨fun _ none => (by cases none), rfl, rfl⟩
  case h_2 bytes answered =>
    dsimp only
    split
    · exact ⟨fun _ none => (by cases none), rfl, rfl⟩
    · have room : sinkfd.rxbuf.offsetIn + (bytes.take (atbufSpare sinkfd.rxbuf)).length <
          atbufSize sinkfd.rxbuf := by
        have fits := short bytes answered
        unfold atbufSpare at fits ⊢
        rw [List.length_take]
        omega
      rcases atbufFill_writeAdvance valid.ordered _ room with ⟨filled, advanced, filledValid, _, _⟩
      rw [advanced]
      refine ⟨?_, rfl, rfl⟩
      intro kept same
      cases same
      exact ⟨filledValid, rfl⟩

/-- The sinkfds of the sinks not polled yet receive short. -/
def ShortUnless (input : PollInput) (polled : List SinkKind) (sinkfd : SinkFd) : Prop :=
  sinkfd.sink ∈ polled ∨ ShortFor input sinkfd

/-- What holds in the loop of `unix_poll`, with the sinkfds visited and those
still to come. -/
private structure Receiving (input : PollInput) (polled : List SinkKind) (kind : SinkKind) (state : SelectState)
    (before after : List SinkFd) : Prop where
  buffers : ∀ sinkfd ∈ state.accepted ++ before ++ after, sinkfd.rxbuf.Valid
  running : state.world.stopped ≠ some .assertion
  visited : ∀ sinkfd ∈ state.accepted ++ before, ShortUnless input (kind :: polled) sinkfd
  coming : ∀ sinkfd ∈ after, ShortUnless input polled sinkfd

private theorem Receiving.visit (host : Host) {polled : List SinkKind} {kind : SinkKind} (unpolled : kind ∉ polled)
    {state : SelectState} {before : List SinkFd} {sinkfd : SinkFd} {after : List SinkFd}
    (receiving : Receiving input polled kind state before (sinkfd :: after)) :
    Receiving input polled kind (visitReady host input kind state sinkfd).1
      (before ++ (visitReady host input kind state sinkfd).2.toList) after := by
  have valid : sinkfd.rxbuf.Valid := receiving.buffers sinkfd (List.mem_append_right _ List.mem_cons_self)
  have passed : ShortUnless input (kind :: polled) sinkfd :=
    (receiving.coming sinkfd List.mem_cons_self).imp (List.mem_cons_of_mem _) id
  -- the entry is kept, with whatever sinkfds were accepted meanwhile
  have keep : ∀ (next : SelectState) (more : List SinkFd), next.world.stopped ≠ some .assertion ->
      next.accepted = more ++ state.accepted ->
      (∀ fresh ∈ more, fresh.rxbuf.Valid ∧ ShortUnless input (kind :: polled) fresh) ->
      ∀ kept : Option SinkFd, (∀ left, kept = some left -> left.rxbuf.Valid ∧
        ShortUnless input (kind :: polled) left) ->
      Receiving input polled kind next (before ++ kept.toList) after := by
    intro next more running accepted fresh kept good
    constructor
    case buffers =>
      intro other member
      rw [accepted] at member
      simp only [List.mem_append, Option.mem_toList] at member
      rcases member with ((new | old) | front | here) | back
      · exact (fresh other new).1
      · exact receiving.buffers other (by simp [old])
      · exact receiving.buffers other (by simp [front])
      · exact (good other here).1
      · exact receiving.buffers other (by simp [back])
    case running => exact running
    case visited =>
      intro other member
      rw [accepted] at member
      simp only [List.mem_append, Option.mem_toList] at member
      rcases member with (new | old) | front | here
      · exact (fresh other new).2
      · exact receiving.visited other (by simp [old])
      · exact receiving.visited other (by simp [front])
      · exact (good other here).2
    case coming => exact fun other member => receiving.coming other (List.mem_cons_of_mem _ member)
  have same : ∀ left, some sinkfd = some left -> left.rxbuf.Valid ∧ ShortUnless input (kind :: polled) left := by
    intro left equal
    cases equal
    exact ⟨valid, passed⟩
  rcases visitReady_cases host input kind state sinkfd with passes | ⟨own, _, _, accepts⟩ | ⟨own, _, _, receives⟩
  · rw [passes]
    exact keep state [] receiving.running rfl (by simp) (some sinkfd) same
  · rw [accepts]
    rcases acceptFd_cases input { state with nrRecvFds := state.nrRecvFds - 1 } sinkfd with
      none_new | ⟨newfd, _, _, accepted⟩
    · rw [none_new]
      exact keep { state with nrRecvFds := state.nrRecvFds - 1 } [] receiving.running rfl (by simp)
        (some sinkfd) same
    · rw [accepted]
      refine keep _ [_] ?_ rfl ?_ (some sinkfd) same
      · cases sinkfd.sink <;> exact receiving.running
      · intro fresh member
        rw [List.mem_singleton.mp member]
        refine ⟨atbufNew_valid 0, Or.inl ?_⟩
        rw [newSinkfd, own]
        exact List.mem_cons_self
  · have short : ShortFor input sinkfd :=
      (receiving.coming sinkfd List.mem_cons_self).resolve_left (own ▸ unpolled)
    have received := receiveFd_sound host { state with nrRecvFds := state.nrRecvFds - 1 } valid short
    rw [receives]
    refine keep _ [] ?_ received.2.2 (by simp) _ ?_
    · rw [received.2.1]
      exact receiving.running
    · intro left kept
      have good := received.1 left kept
      refine ⟨good.1, Or.inl ?_⟩
      rw [good.2, own]
      exact List.mem_cons_self

theorem posixPoll_sound {world : World} {polled : List SinkKind} {kind : SinkKind} (unpolled : kind ∉ polled)
    (holds : Sound world ∧ ∀ sinkfd ∈ world.bus.sinkfds, ShortUnless input polled sinkfd) :
    Sound (posixPoll host input kind world) ∧
      ∀ sinkfd ∈ (posixPoll host input kind world).bus.sinkfds, ShortUnless input (kind :: polled) sinkfd := by
  rcases holds with ⟨sound, short⟩
  unfold posixPoll
  split
  · exact ⟨sound, fun sinkfd listed => (short sinkfd listed).imp (List.mem_cons_of_mem _) id⟩
  case h_2 recvfds _ =>
    have start : Receiving input polled kind ⟨world, recvfds, recvfds.length, []⟩ [] world.bus.sinkfds :=
      ⟨sound.buffers, sound.running, by simp, short⟩
    have done := sweep_split (Receiving input polled kind)
      (fun _ _ _ _ receiving => receiving.visit host unpolled) _ _ start
    exact ⟨⟨fun sinkfd listed => done.buffers sinkfd (by rw [List.append_nil]; exact listed), done.running⟩,
      done.visited⟩

theorem pollSinks_sound {world : World} (sound : Sound world)
    (short : ∀ sinkfd ∈ world.bus.sinkfds, ShortFor input sinkfd) : Sound (pollSinks host input world) := by
  have pass : ∀ (world : World) (polled : List SinkKind) (kind : SinkKind), kind ∉ polled ->
      (Sound world ∧ ∀ sinkfd ∈ world.bus.sinkfds, ShortUnless input polled sinkfd) ->
      Sound (unlessStopped (posixPoll host input kind) world) ∧
        ∀ sinkfd ∈ (unlessStopped (posixPoll host input kind) world).bus.sinkfds,
          ShortUnless input (kind :: polled) sinkfd := by
    intro world polled kind unpolled holds
    apply unlessStopped_rule fun world => Sound world ∧
      ∀ sinkfd ∈ world.bus.sinkfds, ShortUnless input (kind :: polled) sinkfd
    · exact ⟨holds.1, fun sinkfd listed => (holds.2 sinkfd listed).imp (List.mem_cons_of_mem _) id⟩
    · exact posixPoll_sound unpolled holds
  have serial := pass world [] .serial (by simp) ⟨sound, fun sinkfd listed => Or.inr (short sinkfd listed)⟩
  have tcp := pass _ _ .tcp (by simp) serial
  exact (pass _ _ .unix (by simp) tcp).1

end Sinks

/-! ## The parser -/

section Parser

variable {host : Host}

/-- The offset of the next leader lies inside the buffer, so that a round fails
no assertion. -/
private theorem parseRound_running (world : World) {sinkfd : SinkFd} (valid : sinkfd.rxbuf.Valid)
    (running : world.stopped ≠ some .assertion) :
    (parseRound host (world, sinkfd)).state.1.stopped ≠ some .assertion := by
  rcases parseRound_cases host world sinkfd with ⟨_, round⟩ | ⟨_, round⟩ | round | round | ⟨pac, _, _, round⟩
  · rw [round]
    exact running
  · rw [round]
    simp [Round.state, World.stop]
  · rw [round]
    exact running
  · rw [round, resync_eq world.tick valid]
    exact running
  · rw [round, Round.state, (enqueue_enqueued host world sinkfd.fd pac).stopped]
    exact running

/-- Where the parser stands: the sinkfd is apart from the list meanwhile. -/
private def Parsing (state : World × SinkFd) : Prop :=
  state.1.stopped ≠ some .assertion ∧ state.2.rxbuf.Valid

private theorem parseRound_parsing (state : World × SinkFd) (parsing : Parsing state) :
    Parsing (parseRound host state).state :=
  ⟨parseRound_running state.1 parsing.2 parsing.1, (parseRound_keeps host state parsing.2).1⟩

/-- What holds while `apibus_poll` walks the sinkfds. -/
private def Walking (state : World) (sinkfds : List SinkFd) : Prop :=
  state.stopped ≠ some .assertion ∧ ∀ sinkfd ∈ sinkfds, sinkfd.rxbuf.Valid

private theorem visitSinkfd_walking (state : World) (before : List SinkFd) (sinkfd : SinkFd) (after : List SinkFd)
    (walking : Walking state (before ++ sinkfd :: after)) :
    Walking (visitSinkfd host state sinkfd).1 (before ++ (visitSinkfd host state sinkfd).2.toList ++ after) := by
  rcases walking with ⟨running, buffers⟩
  have valid := buffers sinkfd (by simp)
  have counted : (countReceived state sinkfd).stopped ≠ some .assertion := by
    unfold countReceived
    split <;> exact running
  -- the visit leaves one entry in the place of the one it stands on
  have keep : ∀ next : World, next.stopped ≠ some .assertion -> ∀ left : SinkFd, left.rxbuf.Valid ->
      Walking next (before ++ (some left).toList ++ after) := by
    intro next still left good
    refine ⟨still, fun other listed => ?_⟩
    simp only [Option.toList_some, List.append_assoc, List.singleton_append, List.mem_append, List.mem_cons]
      at listed
    rcases listed with front | rfl | back
    · exact buffers other (by simp [front])
    · exact good
    · exact buffers other (by simp [back])
  unfold visitSinkfd
  split
  · exact keep _ running _ valid
  · split
    · exact keep _ counted _ valid
    · have parsed : Parsing (parsePacket host (countReceived state sinkfd) sinkfd) :=
        repeatUpTo_invariant Parsing parseRound_parsing _ _ ⟨counted, valid⟩
      exact keep _ parsed.1 _ parsed.2

theorem parseSinkfds_sound (world : World) (sound : Sound world) : Sound (parseSinkfds host world) := by
  have done : Walking (sweep (visitSinkfd host) world world.bus.sinkfds).1 _ :=
    sweep_invariant Walking visitSinkfd_walking world world.bus.sinkfds ⟨sound.running, sound.buffers⟩
  exact ⟨done.2, done.1⟩

end Parser

/-! ## The handlers -/

section Handlers

variable {host : Host}

/-- The handlers leave the sinkfds alone and assert nothing. -/
private structure Aside (before after : World) : Prop where
  sinkfds : after.bus.sinkfds = before.bus.sinkfds
  running : before.stopped ≠ some .assertion -> after.stopped ≠ some .assertion

private theorem Aside.trans {first second third : World} (left : Aside first second) (right : Aside second third) :
    Aside first third :=
  ⟨right.sinkfds.trans left.sinkfds, fun running => right.running (left.running running)⟩

private theorem Aside.of_eq {before after : World} (sinkfds : after.bus.sinkfds = before.bus.sinkfds)
    (stopped : after.stopped = before.stopped) : Aside before after :=
  ⟨sinkfds, fun running => stopped ▸ running⟩

private theorem sweep_aside {Entry : Type} {visit : World -> Entry -> World × Option Entry}
    (visits : ∀ state entry, Aside state (visit state entry).1) (world : World) (entries : List Entry) :
    Aside world (sweep visit world entries).1 :=
  sweep_state (Aside world) (fun state entry aside => aside.trans (visits state entry)) world entries
    (.of_eq rfl rfl)

private theorem visitRequest_aside (world : World) (pos : ApiRequest) :
    Aside world (visitRequest host world pos).1 := by
  have registered : registerSource host world pos = _ := registerSource_frame world pos
  rcases visitRequest_cases host world pos with
    ⟨_, _, waits⟩ | ⟨_, _, ends⟩ | ⟨_, _, refused⟩ | ⟨dst, _, _, forwarded⟩
  · rw [waits]
    exact .of_eq rfl rfl
  · rw [ends]
    exact .of_eq rfl rfl
  · rw [refused, registered]
    exact .of_eq rfl rfl
  · rw [forwarded, registered]
    exact .of_eq rfl rfl

private theorem visitResponse_aside (world : World) (pos : ApiResponse) :
    Aside world (visitResponse host world pos).1 := by
  have relayed : Aside world (relayResponse world pos) := by
    unfold relayResponse
    split <;> exact .of_eq rfl rfl
  refine relayed.trans ?_
  rcases touchDestination_frame host (relayResponse world pos) pos with ⟨reads, _, touched⟩
  simp only [visitResponse]
  rw [touched]
  exact .of_eq rfl rfl

private theorem visitTopicMsg_aside (world : World) (pos : ApiTopicMsg) : Aside world (visitTopicMsg world pos).1 := by
  have applied : Aside world (applyTopicMsg world pos) := by
    rcases applyTopicMsg_effect world pos with ⟨topics, calls, stopped, effect, reason, _, _⟩
    rw [effect]
    refine ⟨rfl, fun running => ?_⟩
    rcases reason with same | null | wild
    · rw [same]
      exact running
    · simp [null]
    · simp [wild]
  unfold visitTopicMsg
  split
  · exact .of_eq rfl rfl
  · dsimp only
    split
    · exact applied
    · exact applied.trans (.of_eq rfl rfl)

private theorem visitStation_aside (world : World) (station : ApiStation) :
    Aside world (visitStation host world station).1 := by
  unfold visitStation
  split <;> exact .of_eq rfl rfl

private theorem handlePhase_aside (world : World) : Aside world (handlePhase host world) := by
  have pass : ∀ (handler : World -> World), (∀ world, Aside world (handler world)) ->
      ∀ world, Aside world (unlessStopped handler world) := by
    intro handler aside world
    exact unlessStopped_rule (Aside world) (.of_eq rfl rfl) (aside world)
  have requests := pass (handleRequest host)
    (fun world => (sweep_aside visitRequest_aside world _).trans (.of_eq rfl rfl))
  have responses := pass (handleResponse host)
    (fun world => (sweep_aside visitResponse_aside world _).trans (.of_eq rfl rfl))
  have topicMsgs := pass handleTopicMsg
    (fun world => (sweep_aside visitTopicMsg_aside world _).trans (.of_eq rfl rfl))
  have stations := pass (clearUnaliveStation host)
    (fun world => (sweep_aside visitStation_aside world _).trans (.of_eq rfl rfl))
  exact (((requests _).trans (responses _)).trans (topicMsgs _)).trans (stations _)

end Handlers

/-! ## The runs -/

section Runs

variable {host : Host}

/-- No receive of the poll fills the spare room of its buffer. -/
def ShortReceives (world : World) : BusInput -> Prop
  | .poll input => ∀ sinkfd ∈ world.bus.sinkfds, ShortFor input sinkfd
  | _ => True

theorem busStep_sound (world : World) (input : BusInput) (short : ShortReceives world input)
    (sound : Sound world) : Sound (busStep host world input) := by
  have pass : ∀ (action : World -> World), (∀ world, Sound world -> Sound (action world)) ->
      ∀ world, Sound world -> Sound (unlessStopped action world) := by
    intro action keeps world sound
    exact unlessStopped_rule Sound sound (keeps world sound)
  cases input with
  | poll input =>
      rcases busStep_poll host world input with same | ⟨_, polled⟩
      · rw [same]
        exact sound
      · have begun : Sound (beginPoll host world) := ⟨sound.buffers, sound.running⟩
        have received : Sound (pollSinks host input (beginPoll host world)) := pollSinks_sound begun short
        have parsed := pass (parseSinkfds host) parseSinkfds_sound _ received
        have idled := pass updateIdle (fun _ sound => ⟨sound.buffers, sound.running⟩) _ parsed
        have handled : Aside _ (handlePhase host (receivePhase host input world)) := handlePhase_aside _
        rw [polled]
        exact ⟨fun sinkfd listed => idled.buffers sinkfd (handled.sinkfds ▸ listed),
          handled.running idled.running⟩
  | openSink kind answer =>
      refine pass (fun world => openSink world kind answer) (fun world sound => ?_) world sound
      unfold openSink
      split
      · exact sound
      · split
        · exact sound
        · refine ⟨fun sinkfd listed => ?_, ?_⟩
          · rcases List.mem_cons.mp listed with rfl | old
            · exact atbufNew_valid 0
            · exact sound.buffers sinkfd old
          · cases kind <;> exact sound.running
  | close num =>
      refine pass (fun world => apibusClose world num) (fun world sound => ?_) world sound
      unfold apibusClose
      split
      · exact sound
      · split
        · exact sound
        · exact ⟨fun sinkfd listed => sound.buffers sinkfd (List.mem_of_mem_eraseP listed), sound.running⟩

/-- In a run whose receives are all short no assertion fails. -/
theorem busRun_never_asserts (host : Host) (inputs : List BusInput)
    (short : EveryStep host ShortReceives apibusNew inputs) :
    (busRun host apibusNew inputs).stopped ≠ some .assertion := by
  have start : Sound apibusNew := ⟨by simp [apibusNew], by simp [apibusNew]⟩
  exact (busRun_conditional Sound busStep_sound inputs apibusNew short start).running

theorem busRun_never_asserts_oneRequest :
    (busRun (Host.still 0) apibusNew (oneReceive oneRequest)).stopped ≠ some .assertion := by
  refine busRun_never_asserts (Host.still 0) (oneReceive oneRequest) ⟨trivial, ?_, ?_, trivial⟩
  · intro sinkfd listed bytes received
    cases received
  · intro sinkfd listed bytes received
    have spare : (∀ sinkfd ∈ (busRun (Host.still 0) apibusNew ((oneReceive oneRequest).take 2)).bus.sinkfds,
        oneRequest.length < atbufSpare sinkfd.rxbuf) := by decide +kernel
    cases received
    exact spare sinkfd listed

/-- 4096 bytes in one receive fill a fresh buffer. -/
theorem fullReceive_asserts :
    ¬ ∀ (host : Host) (inputs : List BusInput), (busRun host apibusNew inputs).stopped ≠ some .assertion := by
  intro never
  have stops : (busRun (Host.still 0) apibusNew (oneReceive (List.replicate 4096 88))).stopped =
      some .assertion := by decide +kernel
  exact never _ _ stops

end Runs

end Bus
end Extlib
