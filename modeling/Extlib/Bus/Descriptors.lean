import Extlib.Bus.Connections

namespace Extlib
namespace Bus

open Buffer Machine World

/-!
# Three records of the same descriptors

The list of its sinkfds, the set with the bound it passes to `select`, and the
operating system each say which descriptors a posix sink has.  Opening and
accepting write all three.  Closing forgets the set, an error or the end of a
stream forgets the set and the operating system, and opening forgets that an
older descriptor may have a larger number.  The set is an array of bits, and
`FD_SET` does not compare the number with its length.
-/

/-- `FD_SETSIZE`: the numbers a set can hold are below it. -/
def fdSetsize : Nat := 1024

/-- The sinkfd of the descriptor is on the list of the sink. -/
def Listed (world : World) (kind : SinkKind) (fd : Fd) : Prop :=
  ∃ sinkfd ∈ world.bus.sinkfds, sinkfd.sink = kind ∧ sinkfd.fd = fd

structure Synced (world : World) : Prop where
  inside : ∀ kind, ∀ num ∈ (world.posixSink kind).fds, num < fdSetsize
  sets : ∀ kind num, num ∈ (world.posixSink kind).fds ↔ ∃ fd, Listed world kind fd ∧ fd.num = num
  bounds : ∀ kind fd, Listed world kind fd -> fd.num < (world.posixSink kind).nfds
  opened : ∀ num, num ∈ world.opened ↔ ∃ kind fd, Listed world kind fd ∧ fd.num = num

/-- The records agree, and what was opened has been closed once if it is no
longer on a list, and otherwise not. -/
structure Bookkept (world : World) : Prop extends Synced world where
  unclosed : ∀ kind fd, Listed world kind fd -> .closed fd ∉ world.trace
  closedOnce : ∀ fd, .opened fd ∈ world.trace -> (∀ kind, ¬ Listed world kind fd) ->
    world.trace.count (.closed fd) = 1

/-- If the poll finds the descriptor ready, a connection that is accepted on it
has a number that a set can hold, and what is read from it is some bytes. -/
def Receives (input : PollInput) (sinkfd : SinkFd) : Prop :=
  ∀ ready, input.select sinkfd.sink = some ready -> sinkfd.fd.num ∈ ready ->
    if sinkfd.listen = true ∧ sinkfd.sink ≠ .serial then
      ∀ newfd, input.accept sinkfd.fd.num = some newfd -> newfd < fdSetsize
    else
      ∃ bytes, input.recv sinkfd.fd.num = some bytes ∧ bytes.take (atbufSpare sinkfd.rxbuf) ≠ []

/-- No descriptor on a list is closed, none that is read shows an error or the
end of its stream, a sink opens in the order of the numbers, and every number
that is handed out fits the set. -/
def StaysOpen (world : World) : BusInput -> Prop
  | .poll input => ∀ sinkfd ∈ world.bus.sinkfds, Receives input sinkfd
  | .openSink kind answer => ∀ num, answer = some num -> num ∉ world.opened ->
      num < fdSetsize ∧ ∀ sinkfd ∈ world.bus.sinkfds, sinkfd.sink = kind -> sinkfd.fd.num < num
  | .close num => ∀ sinkfd ∈ world.bus.sinkfds, sinkfd.fd.num ≠ num

/-! ## Where the sinks are left alone -/

/-- The parser and the handlers open and close nothing. -/
structure Spared (before after : World) : Prop where
  fds : sinkFds after = sinkFds before
  kinds : after.bus.sinkfds.map (·.sink) = before.bus.sinkfds.map (·.sink)
  sinks : after.posixSink = before.posixSink
  opened : after.opened = before.opened
  trace : ∃ events, after.trace = before.trace ++ events ∧
    ∀ event ∈ events, ∀ fd, event ≠ .opened fd ∧ event ≠ .closed fd

section Spared

variable {host : Host} {before after : World}

private theorem Spared.of_events {events : List Event} (sinkfds : after.bus.sinkfds = before.bus.sinkfds)
    (sinks : after.posixSink = before.posixSink) (opened : after.opened = before.opened)
    (trace : after.trace = before.trace ++ events)
    (silent : ∀ event ∈ events, ∀ fd, event ≠ .opened fd ∧ event ≠ .closed fd) : Spared before after where
  fds := by rw [sinkFds, sinkFds, sinkfds]
  kinds := by rw [sinkfds]
  sinks := sinks
  opened := opened
  trace := ⟨events, trace, silent⟩

private theorem Spared.quiet (same : Quiet before after) : Spared before after where
  fds := same.fds
  kinds := same.kinds
  sinks := same.sinks
  opened := same.opened
  trace := ⟨[], same.trace.trans (List.append_nil _).symm, by simp⟩

theorem ParseStep.spared (step : ParseStep host before after) : Spared before after := by
  cases step with
  | quiet same => exact .quiet same
  | resync given left => exact .of_events rfl rfl rfl rfl (by simp)
  | request sinkfd pac listed => exact .of_events rfl rfl rfl rfl (by simp)
  | response sinkfd pac listed => exact .of_events rfl rfl rfl rfl (by simp)
  | topicMsg sinkfd pac listed => exact .of_events rfl rfl rfl rfl (by simp)

theorem HandleStep.spared (step : HandleStep host before after) : Spared before after := by
  cases step with
  | quiet same => exact .quiet same
  | timeout front req back place waiting late => exact .of_events rfl rfl rfl rfl (by simp)
  | notFound front req back place fresh unknown =>
      rw [registerSource_frame]
      exact .of_events rfl rfl rfl rfl (by simp)
  | forward front req back dst place fresh known =>
      rw [registerSource_frame]
      exact .of_events rfl rfl rfl rfl (by simp)
  | response front resp back place waiting =>
      rcases touchDestination_frame host (relayResponse before resp) resp with ⟨reads, _, touched⟩
      rw [touched]
      rcases relayResponse_cases before resp with ⟨_, same⟩ | ⟨_, _, _, _, _, relayed⟩
      · rw [same]
        exact .of_events rfl rfl rfl (List.append_nil _).symm (by simp)
      · rw [relayed]
        exact .of_events rfl rfl rfl rfl (by simp)
  | topicMsg front tmsg back place applied =>
      rcases applyTopicMsg_effect before tmsg with ⟨topics, calls, stopped, effect, _⟩
      rw [effect]
      refine .of_events rfl rfl rfl (List.append_assoc _ _ _) ?_
      intro event member fd
      rcases List.mem_append.mp member with sent | handled
      · rcases List.mem_map.mp sent with ⟨call, _, rfl⟩
        exact ⟨Event.noConfusion, Event.noConfusion⟩
      · rw [List.mem_singleton.mp handled]
        exact ⟨Event.noConfusion, Event.noConfusion⟩
  | dropStation front station back place unalive =>
      exact .of_events rfl rfl rfl (List.append_nil _).symm (by simp)

theorem Spared.listed (spared : Spared before after) (kind : SinkKind) (fd : Fd) :
    Listed after kind fd ↔ Listed before kind fd := by
  have entries : ∀ world : World, Listed world kind fd ↔
      (fd, kind) ∈ (sinkFds world).zip (world.bus.sinkfds.map (·.sink)) := by
    intro world
    rw [sinkFds, List.zip_map', List.mem_map, Listed]
    refine exists_congr fun sinkfd => and_congr_right fun _ => ?_
    rw [Prod.mk.injEq, and_comm]
  rw [entries, entries, spared.fds, spared.kinds]

end Spared

/-! ## Numbers of the sinkfds -/

/-- Without a condition on the run: the numbers on the lists are open in the
operating system, and each is there once. -/
structure Numbered (world : World) : Prop where
  distinct : ((sinkFds world).map (·.num)).Nodup
  opened : ∀ fd ∈ sinkFds world, fd.num ∈ world.opened

section Numbers

variable {host : Host} {before after world : World}

private theorem Numbered.frame (numbered : Numbered before) (fds : sinkFds after = sinkFds before)
    (opened : after.opened = before.opened) : Numbered after where
  distinct := by
    rw [fds]
    exact numbered.distinct
  opened := by
    rw [fds, opened]
    exact numbered.opened

theorem Numbered.sinkStep {handsOut : Nat -> Prop} (step : SinkStep handsOut before after)
    (numbered : Numbered before) : Numbered after := by
  cases step with
  | quiet same => exact numbered.frame same.fds same.opened
  | opened num listen kind nfds allowed closed =>
      constructor
      · refine List.nodup_cons.mpr ⟨?_, numbered.distinct⟩
        intro listed
        rcases List.mem_map.mp listed with ⟨fd, member, same⟩
        change fd.num = num at same
        rw [← same] at closed
        exact closed (numbered.opened fd member)
      · intro fd listed
        rcases List.mem_cons.mp listed with rfl | old
        · exact List.mem_cons_self
        · exact List.mem_cons_of_mem _ (numbered.opened fd old)
  | destroyed front sinkfd back place =>
      have fewer : (sinkFds (before.setSinkfds (front ++ back))).Sublist (sinkFds before) := by
        rw [sinkFds, sinkFds, place]
        exact ((List.sublist_cons_self sinkfd back).append_left front).map _
      exact ⟨numbered.distinct.sublist (fewer.map _), fun fd listed => numbered.opened fd (fewer.subset listed)⟩
  | closed front sinkfd back place =>
      have fds : sinkFds before = front.map (·.fd) ++ sinkfd.fd :: back.map (·.fd) := by
        rw [sinkFds, place, List.map_append, List.map_cons]
      have fewer : (front.map (·.fd) ++ back.map (·.fd)).Sublist (sinkFds before) := by
        rw [fds]
        exact (List.sublist_cons_self _ _).append_left _
      have same : sinkFds (before.setSinkfds (front ++ back)) = front.map (·.fd) ++ back.map (·.fd) :=
        List.map_append
      have distinct := numbered.distinct
      constructor
      · change ((sinkFds (before.setSinkfds (front ++ back))).map (·.num)).Nodup
        rw [same]
        exact distinct.sublist (fewer.map _)
      · change ∀ fd ∈ sinkFds (before.setSinkfds (front ++ back)), fd.num ∈ before.opened.erase sinkfd.fd.num
        rw [same]
        intro fd listed
        refine (List.mem_erase_of_ne ?_).mpr (numbered.opened fd (fewer.subset listed))
        rw [fds, List.map_append, List.map_cons, List.nodup_middle, ← List.map_append, List.nodup_cons] at distinct
        exact fun equal => distinct.1 (List.mem_map.mpr ⟨fd, listed, equal⟩)

theorem busRun_numbered (host : Host) (inputs : List BusInput) : Numbered (busRun host apibusNew inputs) :=
  busRun_invariant Numbered (fun _ _ _ step => Numbered.sinkStep step)
    (fun _ _ step numbered => numbered.frame step.spared.fds step.spared.opened)
    (fun _ _ step numbered => numbered.frame step.spared.fds step.spared.opened) inputs apibusNew
    ⟨List.nodup_nil, fun _ listed => absurd listed List.not_mem_nil⟩

theorem Numbered.receivePhase (numbered : Numbered world) (host : Host) (input : PollInput) :
    Numbered (receivePhase host input world) := by
  have polled := steps_invariant Numbered (fun _ _ step => Numbered.sinkStep step)
    (sinkPhase_steps host input world) numbered
  exact steps_invariant Numbered (fun _ _ step holds => holds.frame step.spared.fds step.spared.opened)
    (receivePhase_steps input world) polled

/-- A number on the lists is found as the descriptor that is there. -/
theorem findSinkfd_listed (distinct : ((sinkFds world).map (·.num)).Nodup) {fd : Fd} (listed : fd ∈ sinkFds world) :
    (findSinkfdInApibus world fd.num).map (·.fd) = some fd := by
  rcases List.mem_map.mp listed with ⟨sinkfd, member, rfl⟩
  cases found : findSinkfdInApibus world sinkfd.fd.num with
  | none => exact absurd (List.find?_eq_none.mp found sinkfd member) (by simp)
  | some first =>
      have same : first.fd.num = sinkfd.fd.num := by simpa using List.find?_some found
      have there : first.fd ∈ sinkFds world := List.mem_map.mpr ⟨first, List.mem_of_find?_eq_some found, rfl⟩
      exact congrArg some (List.inj_on_of_nodup_map distinct there listed same)

end Numbers

/-! ## Runs in which everything stays open -/

/-- Nothing has been closed, and what was opened is on a list. -/
structure Intact (world : World) : Prop extends Synced world where
  unclosed : ∀ fd, .closed fd ∉ world.trace
  listed : ∀ fd, .opened fd ∈ world.trace -> ∃ kind, Listed world kind fd

namespace Intact

variable {host : Host} {before after world : World}

theorem bookkept (intact : Intact world) : Bookkept world where
  toSynced := intact.toSynced
  unclosed := fun _ fd _ => intact.unclosed fd
  closedOnce := by
    intro fd opened unlisted
    rcases intact.listed fd opened with ⟨kind, listed⟩
    exact absurd listed (unlisted kind)

theorem start : Intact apibusNew where
  inside := by
    intro kind num
    cases kind <;> exact fun listed => absurd listed List.not_mem_nil
  sets := by
    intro kind num
    have empty : (apibusNew.posixSink kind).fds = [] := by cases kind <;> rfl
    rw [empty]
    refine iff_of_false List.not_mem_nil ?_
    rintro ⟨fd, ⟨sinkfd, listed, _⟩, _⟩
    exact absurd listed List.not_mem_nil
  bounds := by simp [Listed, apibusNew]
  opened := by simp [Listed, apibusNew]
  unclosed := by simp [apibusNew]
  listed := by simp [apibusNew]

theorem spared (intact : Intact before) (spared : Spared before after) : Intact after := by
  rcases spared.trace with ⟨events, trace, silent⟩
  refine ⟨⟨?inside, ?sets, ?bounds, ?opened⟩, ?unclosed, ?listed⟩
  case inside =>
    rw [spared.sinks]
    exact intact.inside
  case sets =>
    rw [spared.sinks]
    simp only [spared.listed]
    exact intact.sets
  case bounds =>
    rw [spared.sinks]
    simp only [spared.listed]
    exact intact.bounds
  case opened =>
    rw [spared.opened]
    simp only [spared.listed]
    exact intact.opened
  case unclosed =>
    rw [trace]
    intro fd member
    rcases List.mem_append.mp member with old | new
    · exact intact.unclosed fd old
    · exact (silent _ new fd).2 rfl
  case listed =>
    rw [trace]
    simp only [spared.listed]
    intro fd member
    rcases List.mem_append.mp member with old | new
    · exact intact.listed fd old
    · exact absurd rfl (silent _ new fd).1

private theorem registerFd_posixSink (world : World) (num : Nat) (kind other : SinkKind) (nfds : Nat) :
    (registerFd world num kind nfds).posixSink other =
      if other = kind then ⟨(world.posixSink kind).fds.insert num, nfds⟩ else world.posixSink other := by
  cases kind <;> cases other <;> rfl

/-- A descriptor that is opened or accepted under a bound above all of its sink. -/
theorem enter (intact : Intact world) {num : Nat} (fits : num < fdSetsize) (listen : Bool) (kind : SinkKind)
    (nfds : Nat) (own : num < nfds) (others : ∀ fd, Listed world kind fd -> fd.num < nfds) :
    Intact ((registerFd world num kind nfds).setSinkfds (newSinkfd world num listen kind :: world.bus.sinkfds)) := by
  have listed : ∀ other fd,
      Listed ((registerFd world num kind nfds).setSinkfds
        (newSinkfd world num listen kind :: world.bus.sinkfds)) other fd ↔
      (other = kind ∧ fd = ⟨num, world.conns⟩) ∨ Listed world other fd := by
    intro other fd
    have split : Listed ((registerFd world num kind nfds).setSinkfds
        (newSinkfd world num listen kind :: world.bus.sinkfds)) other fd ↔
        ∃ sinkfd ∈ newSinkfd world num listen kind :: world.bus.sinkfds, sinkfd.sink = other ∧ sinkfd.fd = fd :=
      Iff.rfl
    rw [split, List.exists_mem_cons_iff]
    refine or_congr_left (and_congr ?_ ?_)
    · exact eq_comm
    · exact eq_comm
  refine ⟨⟨?inside, ?sets, ?bounds, ?opened⟩, ?unclosed, ?listed⟩
  case inside =>
    intro other member
    change member ∈ ((registerFd world num kind nfds).posixSink other).fds -> _
    rw [registerFd_posixSink]
    split
    · rw [List.mem_insert_iff]
      rintro (rfl | old)
      · exact fits
      · exact intact.inside kind member old
    · exact intact.inside other member
  case sets =>
    intro other member
    change member ∈ ((registerFd world num kind nfds).posixSink other).fds ↔ _
    rw [registerFd_posixSink]
    simp only [listed]
    by_cases same : other = kind
    · rw [if_pos same, List.mem_insert_iff, intact.sets kind member, same]
      constructor
      · rintro (rfl | ⟨fd, old, number⟩)
        · exact ⟨_, Or.inl ⟨rfl, rfl⟩, rfl⟩
        · exact ⟨fd, Or.inr old, number⟩
      · rintro ⟨fd, ⟨_, rfl⟩ | old, number⟩
        · exact Or.inl number.symm
        · exact Or.inr ⟨fd, old, number⟩
    · rw [if_neg same, intact.sets other member]
      simp only [same, false_and, false_or]
  case bounds =>
    intro other fd
    change _ -> fd.num < ((registerFd world num kind nfds).posixSink other).nfds
    rw [registerFd_posixSink, listed]
    by_cases same : other = kind
    · rw [if_pos same, same]
      rintro (⟨_, rfl⟩ | old)
      · exact own
      · exact others fd old
    · rw [if_neg same]
      rintro (⟨here, _⟩ | old)
      · exact absurd here same
      · exact intact.bounds other fd old
  case opened =>
    intro member
    change member ∈ num :: world.opened ↔ _
    simp only [listed]
    rw [List.mem_cons, intact.opened member]
    constructor
    · rintro (rfl | ⟨other, fd, old, number⟩)
      · exact ⟨kind, _, Or.inl ⟨rfl, rfl⟩, rfl⟩
      · exact ⟨other, fd, Or.inr old, number⟩
    · rintro ⟨other, fd, ⟨_, rfl⟩ | old, number⟩
      · exact Or.inl number.symm
      · exact Or.inr ⟨other, fd, old, number⟩
  case unclosed =>
    intro fd member
    change _ ∈ world.trace ++ [_] at member
    rcases List.mem_append.mp member with old | new
    · exact intact.unclosed fd old
    · cases List.mem_singleton.mp new
  case listed =>
    intro fd member
    change _ ∈ world.trace ++ [_] at member
    simp only [listed]
    rcases List.mem_append.mp member with old | new
    · rcases intact.listed fd old with ⟨other, there⟩
      exact ⟨other, Or.inr there⟩
    · cases List.mem_singleton.mp new
      exact ⟨kind, Or.inl ⟨rfl, rfl⟩⟩

end Intact

/-! ## The sinks in such a run -/

section Sinks

variable {host : Host} {input : PollInput} {world : World}

theorem openSink_intact {kind : SinkKind} {answer : Option Nat} (allowed : StaysOpen world (.openSink kind answer))
    (intact : Intact world) : Intact (openSink world kind answer) := by
  unfold openSink
  split
  · exact intact
  case h_2 num =>
    split
    · exact intact
    case isFalse closed =>
      rcases allowed num rfl closed with ⟨fits, above⟩
      apply intact.enter fits _ kind (num + 1) (Nat.lt_succ_self num)
      rintro fd ⟨sinkfd, listed, same, rfl⟩
      exact Nat.lt_succ_of_lt (above sinkfd listed same)

theorem apibusClose_intact {num : Nat} (allowed : StaysOpen world (.close num)) (intact : Intact world) :
    Intact (apibusClose world num) := by
  have absent : findSinkfdInApibus world num = none :=
    List.find?_eq_none.mpr fun sinkfd listed => by simpa using allowed sinkfd listed
  rw [apibusClose, absent]
  exact intact

/-- What holds in the loop of `unix_poll`: a sinkfd is visited before it is
known what its descriptor shows, unless its sink has been polled. -/
private structure Keeping (input : PollInput) (polled : List SinkKind) (kind : SinkKind) (ready : List Nat)
    (state : SelectState) (before after : List SinkFd) : Prop where
  intact : Intact (state.world.setSinkfds (state.accepted ++ (before ++ after)))
  asked : ∀ num ∈ state.recvfds, num ∈ ready
  visited : ∀ sinkfd ∈ state.accepted ++ before, sinkfd.sink ∈ kind :: polled ∨ Receives input sinkfd
  coming : ∀ sinkfd ∈ after, sinkfd.sink ∈ polled ∨ Receives input sinkfd

/-- A receive that brings bytes leaves the sinkfd where it is. -/
private theorem receiveFd_keeps (host : Host) (state : SelectState) {sinkfd : SinkFd} {bytes : List UInt8}
    (answered : input.recv sinkfd.fd.num = some bytes) (some_bytes : bytes.take (atbufSpare sinkfd.rxbuf) ≠ []) :
    ∃ world left, receiveFd host input state sinkfd = ({ state with world := world }, some left) ∧
      left.sink = sinkfd.sink ∧ ∀ front back,
        Spared (state.world.setSinkfds (front ++ sinkfd :: back)) (world.setSinkfds (front ++ left :: back)) := by
  have moved : ∀ (world : World) (left : SinkFd), left.fd = sinkfd.fd -> left.sink = sinkfd.sink ->
      Quiet state.world world -> ∀ front back,
        Spared (state.world.setSinkfds (front ++ sinkfd :: back)) (world.setSinkfds (front ++ left :: back)) := by
    intro world left fd sink quiet front back
    refine ⟨?_, ?_, quiet.sinks, quiet.opened, [], quiet.trace.trans (List.append_nil _).symm, by simp⟩
    · simp [sinkFds, World.setSinkfds, fd]
    · simp [World.setSinkfds, sink]
  unfold receiveFd
  rw [answered]
  dsimp only
  rw [if_neg some_bytes]
  split
  · exact ⟨_, _, rfl, rfl, moved _ _ rfl rfl (.stop _ _)⟩
  · exact ⟨_, _, rfl, rfl, moved _ _ rfl rfl (.tick _)⟩

private theorem registerFd_setSinkfds (world : World) (num : Nat) (kind : SinkKind) (nfds : Nat)
    (before after : List SinkFd) :
    (registerFd (world.setSinkfds before) num kind nfds).setSinkfds after =
      (registerFd world num kind nfds).setSinkfds after := by
  cases kind <;> rfl

private theorem Keeping.visit (host : Host) {polled : List SinkKind} {kind : SinkKind} (unpolled : kind ∉ polled)
    {ready : List Nat} (selected : input.select kind = some ready) {state : SelectState} {before : List SinkFd}
    {sinkfd : SinkFd} {after : List SinkFd}
    (keeping : Keeping input polled kind ready state before (sinkfd :: after)) :
    Keeping input polled kind ready (visitReady host input kind state sinkfd).1
      (before ++ (visitReady host input kind state sinkfd).2.toList) after := by
  have passed : sinkfd.sink ∈ kind :: polled ∨ Receives input sinkfd :=
    (keeping.coming sinkfd List.mem_cons_self).imp_left (List.mem_cons_of_mem _)
  have later : ∀ other ∈ after, other.sink ∈ polled ∨ Receives input other :=
    fun other listed => keeping.coming other (List.mem_cons_of_mem _ listed)
  -- the visit passes the entry by, whatever it counts
  have pass : ∀ count : Nat, Keeping input polled kind ready { state with nrRecvFds := count }
      (before ++ (some sinkfd).toList) after := by
    intro count
    refine ⟨?_, keeping.asked, ?_, later⟩
    · rw [Option.toList_some, List.append_assoc, List.singleton_append]
      exact keeping.intact
    · intro other listed
      rw [Option.toList_some, ← List.append_assoc] at listed
      rcases List.mem_append.mp listed with old | here
      · exact keeping.visited other old
      · rw [List.mem_singleton.mp here]
        exact passed
  rcases visitReady_cases host input kind state sinkfd with
    passes | ⟨own, asked, listening, accepts⟩ | ⟨own, asked, receiving, receives⟩
  · rw [passes]
    exact pass state.nrRecvFds
  · rw [accepts]
    rcases acceptFd_cases input { state with nrRecvFds := state.nrRecvFds - 1 } sinkfd with
      none_new | ⟨newfd, answered, _, accepted⟩
    · rw [none_new]
      exact pass _
    · have passedBy := pass (state.nrRecvFds - 1)
      rw [accepted]
      constructor
      case intact =>
        have brings := (keeping.coming sinkfd List.mem_cons_self).resolve_left (own ▸ unpolled)
        rw [Receives, own] at brings
        have fits := brings ready selected (keeping.asked _ asked)
        rw [if_pos listening] at fits
        have entered := passedBy.intact.enter (fits newfd answered) false sinkfd.sink
          (max (state.world.posixSink sinkfd.sink).nfds (newfd + 1)) (Nat.lt_of_lt_of_le (Nat.lt_succ_self newfd)
            (Nat.le_max_right _ _))
          (fun fd listed => Nat.lt_of_lt_of_le (passedBy.intact.bounds sinkfd.sink fd listed) (Nat.le_max_left _ _))
        rw [registerFd_setSinkfds] at entered
        exact entered
      case asked => exact keeping.asked
      case visited =>
        intro other listed
        rcases List.mem_cons.mp listed with rfl | old
        · exact Or.inl (own ▸ List.mem_cons_self)
        · exact passedBy.visited other old
      case coming => exact later
  · have brings := (keeping.coming sinkfd List.mem_cons_self).resolve_left (own ▸ unpolled)
    rw [Receives, own] at brings
    have answered := brings ready selected (keeping.asked _ asked)
    rw [if_neg receiving] at answered
    rcases answered with ⟨bytes, answered, some_bytes⟩
    rcases receiveFd_keeps host { state with nrRecvFds := state.nrRecvFds - 1 } answered some_bytes with
      ⟨world, left, received, sink, spared⟩
    rw [receives, received]
    refine ⟨?_, keeping.asked, ?_, later⟩
    · have moved := spared (state.accepted ++ before) after
      rw [List.append_assoc, List.append_assoc] at moved
      rw [Option.toList_some, List.append_assoc, List.singleton_append]
      exact keeping.intact.spared moved
    · intro other listed
      rw [Option.toList_some, ← List.append_assoc] at listed
      rcases List.mem_append.mp listed with old | here
      · exact keeping.visited other old
      · rw [List.mem_singleton.mp here, sink, own]
        exact Or.inl List.mem_cons_self

/-- `select` reports descriptors that are ready. -/
private theorem selectReady_asked {kind : SinkKind} {recvfds : List Nat}
    (selected : selectReady input world kind = some recvfds) :
    ∃ ready, input.select kind = some ready ∧ ∀ num ∈ recvfds, num ∈ ready := by
  unfold selectReady at selected
  dsimp only at selected
  split at selected
  case isFalse => cases selected
  case isTrue =>
    rcases Option.map_eq_some_iff.mp selected with ⟨ready, answered, rfl⟩
    exact ⟨ready, answered, fun num listed => of_decide_eq_true (List.mem_filter.mp listed).2⟩

theorem posixPoll_intact {polled : List SinkKind} {kind : SinkKind} (unpolled : kind ∉ polled)
    (holds : Intact world ∧ ∀ sinkfd ∈ world.bus.sinkfds, sinkfd.sink ∈ polled ∨ Receives input sinkfd) :
    Intact (posixPoll host input kind world) ∧ ∀ sinkfd ∈ (posixPoll host input kind world).bus.sinkfds,
      sinkfd.sink ∈ kind :: polled ∨ Receives input sinkfd := by
  rcases holds with ⟨intact, receives⟩
  unfold posixPoll
  split
  · exact ⟨intact, fun sinkfd listed => (receives sinkfd listed).imp_left (List.mem_cons_of_mem _)⟩
  case h_2 recvfds selected =>
    rcases selectReady_asked selected with ⟨ready, answered, asked⟩
    have start : Keeping input polled kind ready ⟨world, recvfds, recvfds.length, []⟩ [] world.bus.sinkfds :=
      ⟨intact, asked, by simp, receives⟩
    have done := sweep_split (Keeping input polled kind ready)
      (fun _ _ _ _ keeping => keeping.visit host unpolled answered) _ _ start
    refine ⟨?_, done.visited⟩
    have intact := done.intact
    rw [List.append_nil] at intact
    exact intact

theorem pollSinks_intact (intact : Intact world) (receives : ∀ sinkfd ∈ world.bus.sinkfds, Receives input sinkfd) :
    Intact (pollSinks host input world) := by
  have pass : ∀ (world : World) (polled : List SinkKind) (kind : SinkKind), kind ∉ polled ->
      (Intact world ∧ ∀ sinkfd ∈ world.bus.sinkfds, sinkfd.sink ∈ polled ∨ Receives input sinkfd) ->
      Intact (unlessStopped (posixPoll host input kind) world) ∧
        ∀ sinkfd ∈ (unlessStopped (posixPoll host input kind) world).bus.sinkfds,
          sinkfd.sink ∈ kind :: polled ∨ Receives input sinkfd := by
    intro world polled kind unpolled holds
    apply unlessStopped_rule fun world => Intact world ∧
      ∀ sinkfd ∈ world.bus.sinkfds, sinkfd.sink ∈ kind :: polled ∨ Receives input sinkfd
    · exact ⟨holds.1, fun sinkfd listed => (holds.2 sinkfd listed).imp_left (List.mem_cons_of_mem _)⟩
    · exact posixPoll_intact unpolled holds
  have serial := pass world [] .serial (by simp) ⟨intact, fun sinkfd listed => Or.inr (receives sinkfd listed)⟩
  have tcp := pass _ _ .tcp (by simp) serial
  exact (pass _ _ .unix (by simp) tcp).1

end Sinks

/-! ## The runs -/

theorem busStep_intact {host : Host} (world : World) (input : BusInput) (allowed : StaysOpen world input)
    (intact : Intact world) : Intact (busStep host world input) := by
  cases input with
  | poll input =>
      rcases busStep_poll host world input with same | ⟨_, polled⟩
      · rw [same]
        exact intact
      · rw [polled]
        have begun : Intact (beginPoll host world) :=
          intact.spared ⟨rfl, rfl, rfl, rfl, [], (List.append_nil _).symm, by simp⟩
        have received : Intact (sinkPhase host input world) := pollSinks_intact begun allowed
        have parsed := steps_invariant Intact (fun _ _ step holds => holds.spared step.spared)
          (receivePhase_steps input world) received
        exact steps_invariant Intact (fun _ _ step holds => holds.spared step.spared) (handlePhase_steps _) parsed
  | openSink kind answer =>
      apply unlessStopped_rule Intact
      · exact intact
      · exact openSink_intact allowed intact
  | close num =>
      apply unlessStopped_rule Intact
      · exact intact
      · exact apibusClose_intact allowed intact

/-- In a run in which everything stays open the three records agree. -/
theorem busRun_bookkept (host : Host) (inputs : List BusInput)
    (every : EveryStep host StaysOpen apibusNew inputs) : Bookkept (busRun host apibusNew inputs) :=
  (busRun_conditional Intact busStep_intact inputs apibusNew every .start).bookkept

theorem busRun_bookkept_oneRequest : Bookkept (busRun (Host.still 0) apibusNew (oneReceive oneRequest)) := by
  apply busRun_bookkept (Host.still 0) (oneReceive oneRequest)
  refine ⟨?_, ?_, ?_, trivial⟩
  · rintro num ⟨⟩ _
    exact ⟨by decide, fun sinkfd listed => absurd listed List.not_mem_nil⟩
  · intro sinkfd listed ready _ _
    rw [List.mem_singleton.mp listed, if_pos ⟨rfl, by decide⟩]
    rintro newfd ⟨⟩
    decide
  · have read : ∀ sinkfd ∈ (busRun (Host.still 0) apibusNew ((oneReceive oneRequest).take 2)).bus.sinkfds,
        oneRequest.take (atbufSpare sinkfd.rxbuf) ≠ [] := by
      decide +kernel
    intro sinkfd listed ready _ _
    split
    · rintro newfd ⟨⟩
    · exact ⟨oneRequest, rfl, read sinkfd listed⟩

/-- A client connects and is closed: its number stays in the set for `select`. -/
theorem closedClient_not_bookkept : ¬ ∀ host inputs, Bookkept (busRun host apibusNew inputs) := by
  intro always
  have books := always (Host.still 0) [.openSink .unix (some 3), oneAccept 4, .close 4]
  have watched : 4 ∈ ((busRun (Host.still 0) apibusNew [.openSink .unix (some 3), oneAccept 4, .close 4]).posixSink
      .unix).fds := by decide +kernel
  have left : (busRun (Host.still 0) apibusNew [.openSink .unix (some 3), oneAccept 4, .close 4]).bus.sinkfds.map
      (·.fd.num) = [3] := by decide +kernel
  rcases (books.sets .unix 4).mp watched with ⟨fd, ⟨sinkfd, listed, _, rfl⟩, number⟩
  have there : sinkfd.fd.num ∈ [3] := left ▸ List.mem_map.mpr ⟨sinkfd, listed, rfl⟩
  rw [number] at there
  revert there
  decide

end Bus
end Extlib
