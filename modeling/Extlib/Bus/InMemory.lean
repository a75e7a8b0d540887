import Extlib.Bus.Relays
import Extlib.Bus.SinkMemory

namespace Extlib
namespace Bus
namespace InMemory

open Buffer Machine Memory LinkedLists World

/-!
# The bus over the sinkfds in memory

The poll of the bus, with the walks along the lists of the sinks, and the
openings and closings.  However the run goes, what the lists in memory hold is
the list of sinkfds of the bus.

The handlers only search the list of the bus, for the calls of `apibus_send`;
they are given the list as it is read off the memory.
-/

/-! ## Functions -/

variable (host : Host) (input : PollInput)

/-- The state of the loop in `unix_poll`. -/
structure SelectMemory where
  memory : BusMemory
  recvfds : List Nat
  nrRecvFds : Nat

/-- The accepting branch. -/
def acceptFd (kind : SinkKind) (sinkfd : SinkFd) (state : SelectMemory) : Option SelectMemory :=
  match input.accept sinkfd.fd.num with
  | none => some state
  | some newfd =>
      if newfd ∈ state.memory.world.opened then some state
      else do
        let nfds := (state.memory.world.posixSink kind).nfds
        let memory <- addSinkfd newfd false kind (max nfds (newfd + 1)) state.memory
        some { state with memory := memory }

def destroyVisited (id : Nat) (state : SelectMemory) : Option (Round SelectMemory) := do
  let memory <- sinkfdDestroy id state.memory
  some (.again { state with memory := memory })

/-- The receiving branch. -/
def receiveFd (id : Nat) (sinkfd : SinkFd) (state : SelectMemory) : Option (Round SelectMemory) :=
  match input.recv sinkfd.fd.num with
  | none => destroyVisited id state
  | some bytes =>
      let received := bytes.take (atbufSpare sinkfd.rxbuf)
      if received = [] then destroyVisited id state
      else
        match atbufWriteAdvance (atbufFill sinkfd.rxbuf received) received.length with
        | none => some (.done { state with memory.world := state.memory.world.stop .assertion })
        | some rxbuf =>
            let memory := updateCell id
              { sinkfd with rxbuf := rxbuf, tsPollRecv := state.memory.world.timeofday host } state.memory
            some (.again { state with memory := { memory with world := memory.world.tick } })

/-- The body of the loop over the sinkfds of a sink. -/
def visitReady (kind : SinkKind) (pos : Place) (state : SelectMemory) : Option (Round SelectMemory) :=
  if state.nrRecvFds = 0 then some (.done state)
  else do
    let id <- nodeSinkEntry pos
    let sinkfd <- state.memory.cells id
    if sinkfd.fd.num ∉ state.recvfds then some (.again state)
    else
      let state := { state with nrRecvFds := state.nrRecvFds - 1 }
      if sinkfd.listen ∧ kind ≠ .serial then (acceptFd input kind sinkfd state).map .again
      else receiveFd host input id sinkfd state

/-- `unix_poll` and `serial_poll`. -/
def posixPoll (kind : SinkKind) (memory : BusMemory) : Option BusMemory :=
  match selectReady input memory.world kind with
  | none => some memory
  | some recvfds => do
      let last <- forEachSafeUntil (fun state : SelectMemory => state.memory.links) (.sinkSinkfds kind)
        (visitReady host input kind) (rounds memory) ⟨memory, recvfds, recvfds.length⟩
      some last.memory

/-- Nothing runs after a stop. -/
def unlessStopped (action : BusMemory -> Option BusMemory) (memory : BusMemory) : Option BusMemory :=
  if memory.world.stopped.isSome then some memory else action memory

def pollSinks (memory : BusMemory) : Option BusMemory :=
  forEach BusMemory.links .sinks (fun pos memory => do
    let kind <- sinkEntry pos
    unlessStopped (posixPoll host input kind) memory) 4 memory

/-- The visit `apibus_poll` pays to each sinkfd. -/
def visitSinkfd (pos : Place) (memory : BusMemory) : Option BusMemory := do
  let id <- nodeBusEntry pos
  let sinkfd <- memory.cells id
  if memory.world.stopped.isSome then some memory
  else
    let counted := countReceived memory.world sinkfd
    if atbufUsed sinkfd.rxbuf = 0 then some { memory with world := counted }
    else
      let parsed := parsePacket host counted sinkfd
      some (updateCell id parsed.2 { memory with world := parsed.1 })

def parseSinkfds (memory : BusMemory) : Option BusMemory :=
  forEach BusMemory.links .sinkfds (visitSinkfd host) (rounds memory) memory

/-- The list of the bus as a walk reads it. -/
def readSinkfds (memory : BusMemory) : Option (List SinkFd) :=
  forEach (fun _ => memory.links) .sinkfds
    (fun pos earlier => ((nodeBusEntry pos).bind memory.cells).map fun sinkfd => earlier ++ [sinkfd])
    (rounds memory) []

def handlePhase (memory : BusMemory) : Option BusMemory := do
  let sinkfds <- readSinkfds memory
  some { memory with world := (Bus.handlePhase host (memory.world.setSinkfds sinkfds)).setSinkfds [] }

def apibusPoll (memory : BusMemory) : Option BusMemory := do
  let memory := { memory with world := beginPoll host memory.world }
  let memory <- pollSinks host input memory
  let memory <- unlessStopped (parseSinkfds host) memory
  let memory := { memory with world := World.unlessStopped updateIdle memory.world }
  handlePhase host memory

/-- `apibus_open` finds the sink by its name. -/
def openSink (kind : SinkKind) (answer : Option Nat) (memory : BusMemory) : Option BusMemory := do
  let found <- findSink kind memory
  if found.isNone then some memory
  else
    match answer with
    | none => some memory
    | some num =>
        if num ∈ memory.world.opened then some memory
        else addSinkfd num (kind != .serial) kind (num + 1) memory

def apibusClose (num : Nat) (memory : BusMemory) : Option BusMemory := do
  let found <- findSinkfdInApibus num memory
  match found with
  | none => some memory
  | some id =>
      let sinkfd <- memory.cells id
      let found <- findSinkfdInApisink sinkfd.sink num memory
      match found with
      | none => some memory
      | some id =>
          let closing <- memory.cells id
          sinkfdDestroy id { memory with
            world :=
              { memory.world with
                opened := memory.world.opened.erase closing.fd.num
                trace := memory.world.trace ++ [.closed closing.fd] } }

def busStep (memory : BusMemory) : BusInput -> Option BusMemory
  | .poll input => unlessStopped (apibusPoll host input) memory
  | .openSink kind answer => unlessStopped (openSink kind answer) memory
  | .close num => unlessStopped (apibusClose num) memory

/-- A run from the making of the bus. -/
def busRun (inputs : List BusInput) : Option BusMemory := do
  let memory <- apibusNew BusMemory.start
  let memory <- apibusEnablePosix memory
  inputs.foldlM (busStep host) memory

/-! ## What a walk along the list of a sink comes to -/

/-- The sinks as `apibus_enable_posix` adds them, each in front. -/
def posixSinks : List SinkKind := [.serial, .tcp, .unix]

/-- The memory holds the sinkfds, and beside them the world. -/
structure Shows (memory : BusMemory) (world : World) (sinkfds : List SinkFd) : Prop where
  world : memory.world = world.setSinkfds []
  placed : Placed memory ⟨true, posixSinks, sinkfds⟩

variable {host input} {memory : BusMemory} {world : World} {sinkfds front back : List SinkFd}

theorem Shows.addSinkfd (shows : Shows memory world sinkfds) (num : Nat) (listen : Bool) (kind : SinkKind)
    (nfds : Nat) :
    ∃ after, addSinkfd num listen kind nfds memory = some after ∧
      Shows after (registerFd world num kind nfds) (newSinkfd world num listen kind :: sinkfds) := by
  rcases shows.placed.addSinkfd num listen kind nfds with ⟨after, adds, same, placed⟩
  rw [shows.world] at same placed
  refine ⟨after, adds, same.trans ?_, placed⟩
  cases kind <;> rfl

theorem Shows.destroy {sinkfd : SinkFd} (shows : Shows memory world (front ++ sinkfd :: back)) :
    ∃ after, sinkfdDestroy sinkfd.fd.conn memory = some after ∧ Shows after world (front ++ back) := by
  rcases shows.placed.sinkfdDestroy with ⟨after, destroys, same, placed⟩
  exact ⟨after, destroys, same.trans shows.world, placed⟩

/-- What is beside the sinkfds may change. -/
theorem Shows.change (shows : Shows memory world sinkfds) {now next : World} (same : now = next.setSinkfds [])
    (conns : next.conns = world.conns) : Shows { memory with world := now } next sinkfds := by
  have placed := shows.placed
  refine ⟨same, placed.rings, placed.live, placed.cells, placed.attached, placed.distinct, fun sinkfd listed => ?_⟩
  have older := placed.older sinkfd listed
  rw [shows.world] at older
  rw [same]
  exact Nat.lt_of_lt_of_eq older conns.symm

theorem Shows.update {sinkfd changed : SinkFd} (shows : Shows memory world (front ++ sinkfd :: back))
    (fd : changed.fd = sinkfd.fd) (sink : changed.sink = sinkfd.sink) :
    Shows (updateCell sinkfd.fd.conn changed memory) world (front ++ changed :: back) :=
  ⟨shows.world, shows.placed.updateCell fd sink⟩

/-- A walk along the list of a sink that has come as far as the one along the
whole list. -/
structure Along (host : Host) (input : PollInput) (kind : SinkKind) (first : SelectState) (entries : List SinkFd)
    (select : SelectState) (done rest : List SinkFd) (state : SelectMemory) : Prop where
  walked : WalkedTo (Bus.visitReady host input kind) first entries select done rest
  running : select.world.stopped = none
  shows : Shows state.memory select.world (select.accepted ++ (done ++ rest))
  recvfds : state.recvfds = select.recvfds
  nrRecvFds : state.nrRecvFds = select.nrRecvFds

/-- Where the walk ends. -/
def Arrives (host : Host) (input : PollInput) (kind : SinkKind) (first : SelectState) (entries : List SinkFd)
    (state : SelectMemory) : Prop :=
  Shows state.memory (sweep (Bus.visitReady host input kind) first entries).1.world
    ((sweep (Bus.visitReady host input kind) first entries).1.accepted ++
      (sweep (Bus.visitReady host input kind) first entries).2)

section Walks

variable {kind : SinkKind} {first select : SelectState} {entries done rest : List SinkFd} {state : SelectMemory}

/-- When all that remains is passed by, the walk is over. -/
theorem Along.arrives (along : Along host input kind first entries select done rest state)
    (skips : ∀ entry ∈ rest, Bus.visitReady host input kind select entry = (select, some entry)) :
    Arrives host input kind first entries state := by
  have walked := along.walked
  rw [← List.append_nil rest] at walked
  have passed := walked.skip skips
  rw [Arrives, passed.state_eq, passed.kept_eq, sweep_nil, List.append_nil]
  exact along.shows

/-- The sinkfds of the other sinks are not on the list. -/
theorem Along.skip (along : Along host input kind first entries select done (front ++ rest) state)
    (others : ∀ entry ∈ front, ¬ entry.sink = kind) :
    Along host input kind first entries select (done ++ front) rest state where
  walked := by
    refine along.walked.skip fun entry listed => if_pos ?_
    exact Or.inr (Or.inl (others entry listed))
  running := along.running
  shows := by
    rw [List.append_assoc]
    exact along.shows
  recvfds := along.recvfds
  nrRecvFds := along.nrRecvFds

/-- What a visit comes to. -/
def Comes (host : Host) (input : PollInput) (kind : SinkKind) (first : SelectState) (entries rest : List SinkFd) :
    Round SelectMemory -> Prop
  | .done last => Arrives host input kind first entries last
  | .again after => ∃ select done, Along host input kind first entries select done rest after

/-- The walk after a visit. -/
theorem Along.visited {sinkfd : SinkFd} {next : SelectState} {kept : Option SinkFd} {after : SelectMemory}
    (along : Along host input kind first entries select done (sinkfd :: rest) state)
    (visit : Bus.visitReady host input kind select sinkfd = (next, kept)) (running : next.world.stopped = none)
    (shows : Shows after.memory next.world (next.accepted ++ (done ++ (kept.toList ++ rest))))
    (recvfds : after.recvfds = next.recvfds) (nrRecvFds : after.nrRecvFds = next.nrRecvFds) :
    Along host input kind first entries next (done ++ kept.toList) rest after where
  walked := by
    have walked := along.walked.visit
    rwa [visit] at walked
  running := running
  shows := by
    rw [List.append_assoc]
    exact shows
  recvfds := recvfds
  nrRecvFds := nrRecvFds

/-- The sinkfd is taken off its lists. -/
theorem Along.destroyed {sinkfd : SinkFd} {next : SelectState}
    (along : Along host input kind first entries select done (sinkfd :: rest) state)
    (visit : Bus.visitReady host input kind select sinkfd = (next, none)) (same : next.world = select.world)
    (also : next.accepted = select.accepted) {counted : SelectMemory} (memory : counted.memory = state.memory)
    (recvfds : counted.recvfds = next.recvfds) (nrRecvFds : counted.nrRecvFds = next.nrRecvFds) :
    ∃ outcome, destroyVisited sinkfd.fd.conn counted = some outcome ∧
      Comes host input kind first entries rest outcome := by
  have shows := along.shows
  rw [← List.append_assoc] at shows
  rcases shows.destroy with ⟨after, destroys, still⟩
  rw [List.append_assoc] at still
  refine ⟨.again { counted with memory := after }, ?_, next, _, along.visited visit ?_ ?_ recvfds nrRecvFds⟩
  · rw [destroyVisited, memory, destroys]
    rfl
  · rw [same]
    exact along.running
  · rw [same, also]
    exact still

/-- The accepting branch leaves the sinkfd and may put one in front. -/
theorem Along.accepts {sinkfd : SinkFd}
    (along : Along host input kind first entries select done (sinkfd :: rest) state) (own : sinkfd.sink = kind)
    (visit : Bus.visitReady host input kind select sinkfd =
      (Bus.acceptFd input { select with nrRecvFds := select.nrRecvFds - 1 } sinkfd, some sinkfd)) :
    ∃ after, acceptFd input kind sinkfd { state with nrRecvFds := state.nrRecvFds - 1 } = some after ∧
      Comes host input kind first entries rest (.again after) := by
  have shows := along.shows
  have count : state.nrRecvFds - 1 = select.nrRecvFds - 1 := congrArg (· - 1) along.nrRecvFds
  have opened : state.memory.world.opened = select.world.opened := by rw [shows.world]; rfl
  have nfds : (state.memory.world.posixSink kind).nfds = (select.world.posixSink kind).nfds := by
    rw [shows.world]
    cases kind <;> rfl
  unfold Bus.acceptFd at visit
  unfold acceptFd
  cases answer : input.accept sinkfd.fd.num with
  | none =>
      rw [answer] at visit
      exact ⟨_, rfl, _, _, along.visited visit along.running shows along.recvfds count⟩
  | some newfd =>
      rw [answer] at visit
      dsimp only at visit ⊢
      rw [opened, nfds]
      by_cases taken : newfd ∈ select.world.opened
      · rw [if_pos taken] at visit ⊢
        exact ⟨_, rfl, _, _, along.visited visit along.running shows along.recvfds count⟩
      · rw [if_neg taken, own] at visit
        rw [if_neg taken]
        rcases shows.addSinkfd newfd false kind (max (select.world.posixSink kind).nfds (newfd + 1)) with
          ⟨after, adds, still⟩
        refine ⟨{ state with memory := after, nrRecvFds := state.nrRecvFds - 1 }, ?_, _, _,
          along.visited visit ?_ still along.recvfds count⟩
        · rw [Option.bind_eq_bind, adds]
          rfl
        · cases kind <;> exact along.running

/-- The receiving branch fills the buffer, destroys the sinkfd or stops. -/
theorem Along.receives {sinkfd : SinkFd}
    (along : Along host input kind first entries select done (sinkfd :: rest) state)
    (visit : Bus.visitReady host input kind select sinkfd =
      Bus.receiveFd host input { select with nrRecvFds := select.nrRecvFds - 1 } sinkfd) :
    ∃ outcome, receiveFd host input sinkfd.fd.conn sinkfd { state with nrRecvFds := state.nrRecvFds - 1 } =
        some outcome ∧
      Comes host input kind first entries rest outcome := by
  have shows := along.shows
  have count : state.nrRecvFds - 1 = select.nrRecvFds - 1 := congrArg (· - 1) along.nrRecvFds
  unfold Bus.receiveFd at visit
  unfold receiveFd
  cases answer : input.recv sinkfd.fd.num with
  | none =>
      rw [answer] at visit
      exact along.destroyed visit rfl rfl rfl along.recvfds count
  | some bytes =>
      rw [answer] at visit
      dsimp only at visit ⊢
      by_cases finished : bytes.take (atbufSpare sinkfd.rxbuf) = []
      · rw [if_pos finished] at visit ⊢
        exact along.destroyed visit rfl rfl rfl along.recvfds count
      · rw [if_neg finished] at visit ⊢
        cases advanced : atbufWriteAdvance (atbufFill sinkfd.rxbuf (bytes.take (atbufSpare sinkfd.rxbuf)))
            (bytes.take (atbufSpare sinkfd.rxbuf)).length with
        | none =>
            rw [advanced] at visit
            have stopped := along.walked.visit
            rw [visit, ← List.append_nil rest] at stopped
            have passed := stopped.skip fun entry _ => if_pos (Or.inl rfl)
            refine ⟨_, rfl, ?_⟩
            rw [Comes, Arrives, passed.state_eq, passed.kept_eq, sweep_nil, List.append_nil, List.append_assoc]
            refine shows.change ?_ rfl
            rw [shows.world]
            rfl
        | some rxbuf =>
            rw [advanced] at visit
            rw [← List.append_assoc] at shows
            let filled : SinkFd := { sinkfd with rxbuf := rxbuf, tsPollRecv := select.world.timeofday host }
            have fd : filled.fd = sinkfd.fd := rfl
            have ticked : state.memory.world.tick = select.world.tick.setSinkfds [] := by rw [shows.world]; rfl
            have stamp : state.memory.world.timeofday host = select.world.timeofday host := by rw [shows.world]; rfl
            have still := (shows.update fd rfl).change ticked rfl
            rw [List.append_assoc] at still
            refine ⟨_, rfl, _, _, along.visited visit along.running ?_ along.recvfds count⟩
            rw [stamp]
            exact still

/-- A visit to a sinkfd of the sink. -/
theorem Along.visit {sinkfd : SinkFd} (along : Along host input kind first entries select done (sinkfd :: rest) state)
    (own : sinkfd.sink = kind) :
    ∃ outcome, visitReady host input kind (.nodeSink sinkfd.fd.conn) state = some outcome ∧
      Comes host input kind first entries rest outcome := by
  have shows := along.shows
  by_cases exhausted : state.nrRecvFds = 0
  · refine ⟨.done state, if_pos exhausted, along.arrives fun entry _ => if_pos ?_⟩
    exact Or.inr (Or.inr (Or.inl (along.nrRecvFds ▸ exhausted)))
  have inside : sinkfd ∈ select.accepted ++ (done ++ sinkfd :: rest) :=
    List.mem_append_right _ (List.mem_append_right _ List.mem_cons_self)
  rw [visitReady, if_neg exhausted, Option.bind_eq_bind, nodeSinkEntry, Option.bind_some, shows.placed.cell inside,
    Option.bind_eq_bind, Option.bind_some]
  by_cases ready : sinkfd.fd.num ∉ state.recvfds
  · rw [if_pos ready]
    have visit : Bus.visitReady host input kind select sinkfd = (select, some sinkfd) :=
      if_pos (Or.inr (Or.inr (Or.inr (along.recvfds ▸ ready))))
    exact ⟨_, rfl, select, _, along.visited visit along.running shows along.recvfds along.nrRecvFds⟩
  rw [if_neg ready]
  have visits : Bus.visitReady host input kind select sinkfd = _ := if_neg (by
    rw [along.running, ← along.nrRecvFds, ← along.recvfds]
    simp only [Option.isSome_none, Bool.false_eq_true, ne_eq, own, not_true, exhausted, false_or]
    exact ready)
  dsimp only at visits ⊢
  by_cases listens : sinkfd.listen ∧ kind ≠ .serial
  · rw [if_pos listens] at visits ⊢
    rcases along.accepts own visits with ⟨after, accepts, comes⟩
    rw [accepts]
    exact ⟨_, rfl, comes⟩
  · rw [if_neg listens] at visits ⊢
    exact along.receives visits

end Walks

/-- The poll of a sink. -/
theorem Shows.posixPoll (shows : Shows memory world world.bus.sinkfds) (running : world.stopped = none)
    (kind : SinkKind) :
    ∃ after, posixPoll host input kind memory = some after ∧
      Shows after (Bus.posixPoll host input kind world) (Bus.posixPoll host input kind world).bus.sinkfds := by
  have ready : selectReady input memory.world kind = selectReady input world kind := by
    rw [shows.world]
    cases kind <;> rfl
  rw [InMemory.posixPoll, Bus.posixPoll, ready]
  cases selected : selectReady input world kind with
  | none => exact ⟨memory, rfl, shows⟩
  | some recvfds =>
      dsimp only
      let first : SelectState := ⟨world, recvfds, recvfds.length, []⟩
      have walks : ∃ last, forEachSafeUntil (fun state : SelectMemory => state.memory.links) (.sinkSinkfds kind)
          (visitReady host input kind) (rounds memory) ⟨memory, recvfds, recvfds.length⟩ = some last ∧
            Arrives host input kind first world.bus.sinkfds last := by
        refine forEachSafeUntil_rule (fun rest state => ∃ select done todo,
          Along host input kind first world.bus.sinkfds select done todo state ∧
            (todo.filter (·.sink = kind)).map (fun sinkfd => Place.nodeSink sinkfd.fd.conn) = rest) _ ?_ ?_ ?_
          ⟨first, [], world.bus.sinkfds, ⟨.start _ _ _, running, shows, rfl, rfl⟩, rfl⟩
          (shows.placed.ringOfSink kind) ?_
        · rintro _ state ⟨select, done, todo, along, rfl⟩
          have ring := along.shows.placed.ringOfSink kind
          dsimp only at ring
          rw [← List.append_assoc, List.filter_append, List.map_append] at ring
          exact ⟨_, ring⟩
        · rintro state ⟨select, done, todo, along, empty⟩
          refine along.arrives fun entry listed => if_pos (Or.inr (Or.inl fun own => ?_))
          exact List.ne_nil_of_mem (List.mem_filter.mpr ⟨listed, decide_eq_true own⟩) (List.map_eq_nil_iff.mp empty)
        · rintro pos rest state ⟨select, done, todo, along, split⟩
          rcases List.map_eq_cons_iff.mp split with ⟨sinkfd, later, filtered, rfl, rfl⟩
          rcases List.filter_eq_cons_iff.mp filtered with ⟨front, back, rfl, others, own, rfl⟩
          have reached := along.skip fun entry listed same => others entry listed (decide_eq_true same)
          rcases reached.visit (of_decide_eq_true own) with ⟨outcome, visits, comes⟩
          refine ⟨outcome, visits, ?_⟩
          cases outcome with
          | done last => exact comes
          | again after =>
              rcases comes with ⟨next, kept, further⟩
              exact ⟨_, ⟨next, kept, back, further, rfl⟩, rfl, Nat.le_refl _⟩
        · rw [List.length_map]
          exact Nat.lt_of_le_of_lt (List.length_filter_le _ _) shows.placed.enough
      rcases walks with ⟨last, runs, arrives⟩
      refine ⟨last.memory, by rw [runs]; rfl, ?_⟩
      exact ⟨arrives.world, arrives.placed⟩

/-! ## The phases of a poll -/

theorem Shows.unlessStopped {action : BusMemory -> Option BusMemory} {act : World -> World}
    (shows : Shows memory world world.bus.sinkfds)
    (acts : world.stopped = none -> ∃ after, action memory = some after ∧ Shows after (act world) (act world).bus.sinkfds) :
    ∃ after, unlessStopped action memory = some after ∧
      Shows after (World.unlessStopped act world) (World.unlessStopped act world).bus.sinkfds := by
  have same : memory.world.stopped = world.stopped := by rw [shows.world]; rfl
  rw [InMemory.unlessStopped, World.unlessStopped, same]
  cases stopped : world.stopped with
  | none => exact acts stopped
  | some fault => exact ⟨memory, rfl, shows⟩

theorem Shows.pollSinks (shows : Shows memory world world.bus.sinkfds) :
    ∃ after, pollSinks host input memory = some after ∧
      Shows after (Bus.pollSinks host input world) (Bus.pollSinks host input world).bus.sinkfds := by
  refine @forEach_foldl _ _ _ BusMemory.links .sinks _ SinkKind World .sinkNode posixSinks
    (fun memory state => Shows memory state state.bus.sinkfds)
    (fun world kind => World.unlessStopped (Bus.posixPoll host input kind) world) ?_ ?_ memory world 4 shows (by decide)
  · exact fun memory state shows => shows.placed.rings.ring _ _ rfl
  · intro kind _ memory state shows
    exact shows.unlessStopped fun running => shows.posixPoll running kind

section Parsing

/-- The parser does not look at the list of sinkfds. -/
theorem parseRound_setSinkfds (host : Host) (listed : List SinkFd) (state : World × SinkFd) :
    parseRound host (state.1.setSinkfds listed, state.2) =
      (parseRound host state).map fun state => (state.1.setSinkfds listed, state.2) := by
  rcases state with ⟨world, sinkfd⟩
  have enqueued : ∀ pac, enqueue host (world.setSinkfds listed) sinkfd.fd pac =
      (enqueue host world sinkfd.fd pac).setSinkfds listed := by
    intro pac
    unfold enqueue
    split
    · rfl
    · split
      · rfl
      · split <;> rfl
  have resynced : resync (world.setSinkfds listed).tick sinkfd =
      ((resync world.tick sinkfd).1.setSinkfds listed, (resync world.tick sinkfd).2) := by
    simp only [resync]
    split
    · rfl
    · split <;> rfl
  simp only [parseRound]
  split
  · rfl
  · rw [show (world.setSinkfds listed).nodes = world.nodes from rfl]
    split
    · rfl
    · rw [show (world.setSinkfds listed).time host = world.time host from rfl]
      split
      · rfl
      · rw [resynced]
        rfl
    · rw [enqueued]
      rfl

theorem visitSinkfd_setSinkfds (host : Host) (listed : List SinkFd) (world : World) (sinkfd : SinkFd) :
    countReceived (world.setSinkfds listed) sinkfd = (countReceived world sinkfd).setSinkfds listed ∧
      parsePacket host (world.setSinkfds listed) sinkfd =
        ((parsePacket host world sinkfd).1.setSinkfds listed, (parsePacket host world sinkfd).2) := by
  constructor
  · by_cases received : world.bus.pollTs < sinkfd.tsPollRecv
    · rw [countReceived, countReceived, if_pos received]
      exact if_pos received
    · rw [countReceived, countReceived, if_neg received]
      exact if_neg received
  · exact repeatUpTo_map (fun state : World × SinkFd => (state.1.setSinkfds listed, state.2))
      (parseRound_setSinkfds host listed) _ (world, sinkfd)

/-- What the parser leaves of a sinkfd and of the connections. -/
theorem parsePacket_frame (host : Host) (world : World) (sinkfd : SinkFd) :
    (parsePacket host world sinkfd).1.conns = world.conns ∧ (parsePacket host world sinkfd).2.fd = sinkfd.fd ∧
      (parsePacket host world sinkfd).2.sink = sinkfd.sink := by
  refine repeatUpTo_invariant (fun state : World × SinkFd => state.1.conns = world.conns ∧ state.2.fd = sinkfd.fd ∧
    state.2.sink = sinkfd.sink) ?_ _ (world, sinkfd) ⟨rfl, rfl, rfl⟩
  rintro ⟨state, pos⟩ same
  rcases parseRound_cases host state pos with ⟨_, round⟩ | ⟨_, round⟩ | round | round | ⟨pac, _, _, round⟩
  · rw [round]
    exact same
  · rw [round]
    exact same
  · rw [round]
    exact same
  · rw [round]
    rcases resync_cases state.tick pos with ⟨count, given⟩ | given
    · rw [given]
      exact same
    · rw [given]
      exact same
  · rw [round]
    refine ⟨Eq.trans ?_ same.1, same.2⟩
    simp only [Round.state, enqueue]
    split
    · rfl
    · split
      · rfl
      · split <;> rfl

theorem Shows.visitSinkfd {sinkfd : SinkFd} (shows : Shows memory world (front ++ sinkfd :: back)) :
    ∃ after kept, visitSinkfd host (.nodeBus sinkfd.fd.conn) memory = some after ∧
      (Bus.visitSinkfd host world sinkfd).2 = some kept ∧ kept.fd = sinkfd.fd ∧
      Shows after (Bus.visitSinkfd host world sinkfd).1 (front ++ kept :: back) := by
  have inside : sinkfd ∈ front ++ sinkfd :: back := List.mem_append_right front List.mem_cons_self
  rw [InMemory.visitSinkfd, nodeBusEntry, Option.bind_eq_bind, Option.bind_some, shows.placed.cell inside,
    Option.bind_eq_bind, Option.bind_some, Bus.visitSinkfd, show memory.world.stopped = world.stopped by
      rw [shows.world]; rfl]
  by_cases stopped : world.stopped.isSome
  · rw [if_pos stopped, if_pos stopped]
    exact ⟨memory, sinkfd, rfl, rfl, rfl, shows⟩
  rw [if_neg stopped, if_neg stopped]
  have counted := (visitSinkfd_setSinkfds host [] world sinkfd).1
  have conns : (countReceived world sinkfd).conns = world.conns := by
    unfold countReceived
    split <;> rfl
  rw [shows.world]
  dsimp only
  by_cases empty : atbufUsed sinkfd.rxbuf = 0
  · rw [if_pos empty, if_pos empty]
    exact ⟨_, sinkfd, rfl, rfl, rfl, shows.change counted conns⟩
  · rw [if_neg empty, if_neg empty, counted, (visitSinkfd_setSinkfds host [] _ sinkfd).2]
    rcases parsePacket_frame host (countReceived world sinkfd) sinkfd with ⟨same, fd, sink⟩
    exact ⟨_, _, rfl, rfl, fd, (shows.update fd sink).change rfl (same.trans conns)⟩

theorem Shows.parseSinkfds (shows : Shows memory world world.bus.sinkfds) :
    ∃ after, parseSinkfds host memory = some after ∧
      Shows after (Bus.parseSinkfds host world) (Bus.parseSinkfds host world).bus.sinkfds := by
  let node : SinkFd -> Place := fun sinkfd => .nodeBus sinkfd.fd.conn
  have walk := @forEach_rule _ _ _ BusMemory.links .sinkfds (InMemory.visitSinkfd host)
    (fun front rest memory => ∃ state done todo, WalkedTo (Bus.visitSinkfd host) world world.bus.sinkfds state done todo ∧
      done.map node = front ∧ todo.map node = rest ∧ Shows memory state (done ++ todo)) ?_ ?_
    (world.bus.sinkfds.map node) memory (rounds memory) ⟨world, [], _, .start _ _ _, rfl, rfl, shows⟩ ?_
  · rcases walk with ⟨last, runs, state, done, todo, walked, _, passed, still⟩
    have none := List.map_eq_nil_iff.mp passed
    subst none
    refine ⟨last, runs, ?_⟩
    rw [Bus.parseSinkfds, walked.state_eq, walked.kept_eq, sweep_nil]
    exact ⟨still.world, still.placed⟩
  · rintro front rest memory ⟨state, done, todo, _, rfl, rfl, still⟩
    rw [← List.map_append]
    exact still.placed.ringOfBus
  · rintro front pos rest memory ⟨state, done, todo, walked, rfl, ahead, still⟩
    rcases List.map_eq_cons_iff.mp ahead with ⟨sinkfd, later, rfl, rfl, rfl⟩
    rcases still.visitSinkfd with ⟨after, kept, visited, keeps, same, next⟩
    have further := walked.visit
    rw [keeps] at further
    refine ⟨after, visited, _, _, _, further, ?_, rfl, ?_⟩
    · rw [Option.toList_some, List.map_append, List.map_singleton]
      exact congrArg (fun fd : Fd => done.map node ++ [Place.nodeBus fd.conn]) same
    · rw [Option.toList_some, List.append_assoc]
      exact next
  · rw [List.length_map]
    exact shows.placed.enough

end Parsing

section Handling

/-- A walk reads the list of the bus. -/
theorem Shows.readSinkfds (shows : Shows memory world sinkfds) : readSinkfds memory = some sinkfds := by
  have walk := @forEach_foldl _ _ _ (fun _ => memory.links) .sinkfds
    (fun pos earlier => ((nodeBusEntry pos).bind memory.cells).map fun sinkfd => earlier ++ [sinkfd]) SinkFd
    (List SinkFd) (fun sinkfd => .nodeBus sinkfd.fd.conn) sinkfds Eq (fun earlier sinkfd => earlier ++ [sinkfd]) ?_ ?_
    [] [] (rounds memory) rfl shows.placed.enough
  · rcases walk with ⟨last, runs, rfl⟩
    rw [InMemory.readSinkfds, runs, List.foldl_append_eq_append, List.nil_append, ← List.flatMap_def,
      List.flatMap_singleton']
  · exact fun _ _ _ => shows.placed.ringOfBus
  · rintro sinkfd listed earlier _ rfl
    rw [nodeBusEntry, Option.bind_some, shows.placed.cell listed]
    exact ⟨_, rfl, rfl⟩

theorem conns_handleStep {before after : World} (step : HandleStep host before after) :
    after.conns = before.conns := by
  cases step with
  | quiet same => exact same.conns
  | timeout front req back place waiting late => rfl
  | notFound front req back place fresh unknown =>
      rw [registerSource_frame]
      rfl
  | forward front req back dst place fresh known =>
      rw [registerSource_frame]
      rfl
  | response front resp back place waiting =>
      rcases touchDestination_frame host (relayResponse before resp) resp with ⟨reads, _, touched⟩
      rw [touched]
      rcases relayResponse_cases before resp with ⟨_, same⟩ | ⟨_, _, _, _, _, relayed⟩
      · rw [same]
        rfl
      · rw [relayed]
        rfl
  | topicMsg front tmsg back place applied =>
      rcases applyTopicMsg_effect before tmsg with ⟨topics, calls, stopped, effect, _⟩
      rw [effect]
      rfl
  | dropStation front station back place unalive => rfl

theorem Shows.handlePhase (shows : Shows memory world world.bus.sinkfds) :
    ∃ after, handlePhase host memory = some after ∧
      Shows after (Bus.handlePhase host world) (Bus.handlePhase host world).bus.sinkfds := by
  have whole : memory.world.setSinkfds world.bus.sinkfds = world := by rw [shows.world]; rfl
  have conns : (Bus.handlePhase host world).conns = world.conns :=
    steps_invariant (fun next => next.conns = world.conns)
      (fun _ _ (step : HandleStep host _ _) same => (conns_handleStep step).trans same) (handlePhase_steps _) rfl
  rw [InMemory.handlePhase, shows.readSinkfds, Option.bind_eq_bind, Option.bind_some, whole, handlePhase_sinkfds]
  exact ⟨_, rfl, shows.change rfl conns⟩

end Handling

/-! ## Runs -/

section Runs

theorem updateIdle_setSinkfds (world : World) :
    World.unlessStopped updateIdle (world.setSinkfds []) = (World.unlessStopped updateIdle world).setSinkfds [] ∧
      (World.unlessStopped updateIdle world).bus.sinkfds = world.bus.sinkfds ∧
      (World.unlessStopped updateIdle world).conns = world.conns := by
  by_cases stopped : world.stopped.isSome
  · rw [World.unlessStopped, World.unlessStopped, if_pos stopped]
    exact ⟨if_pos stopped, rfl, rfl⟩
  · rw [World.unlessStopped, World.unlessStopped, if_neg stopped]
    exact ⟨if_neg stopped, rfl, rfl⟩

theorem Shows.apibusPoll (shows : Shows memory world world.bus.sinkfds) :
    ∃ after, apibusPoll host input memory = some after ∧
      Shows after (Bus.apibusPoll host input world) (Bus.apibusPoll host input world).bus.sinkfds := by
  have begins : Shows { memory with world := beginPoll host memory.world } (beginPoll host world)
      (beginPoll host world).bus.sinkfds := by
    refine shows.change ?_ rfl
    rw [shows.world]
    rfl
  rcases @Shows.pollSinks host input _ _ begins with ⟨polled, polls, second⟩
  rcases second.unlessStopped (fun _ => @Shows.parseSinkfds host _ _ second) with ⟨parsed, parses, third⟩
  have idle : Shows { parsed with world := World.unlessStopped updateIdle parsed.world }
      (Bus.receivePhase host input world) (Bus.receivePhase host input world).bus.sinkfds := by
    rcases updateIdle_setSinkfds (World.unlessStopped (Bus.parseSinkfds host)
      (Bus.pollSinks host input (beginPoll host world))) with ⟨same, listed, conns⟩
    rw [receivePhase, listed]
    refine third.change ?_ conns
    rw [third.world, same]
  rcases @Shows.handlePhase host _ _ idle with ⟨after, handles, last⟩
  refine ⟨after, ?_, last⟩
  rw [InMemory.apibusPoll]
  simp only [Option.bind_eq_bind, polls, Option.bind_some, parses, handles]

/-- The search for a sink finds it. -/
theorem Shows.findSink (shows : Shows memory world sinkfds) (kind : SinkKind) :
    findSink kind memory = some (some (.sinkNode kind)) := by
  have ring : memory.links.Ring .sinks (posixSinks.map .sinkNode) := shows.placed.rings.ring _ _ rfl
  have decided : ∀ pos ∈ posixSinks.map Place.sinkNode,
      (sinkEntry pos).map (fun other => decide (other = kind)) = some (decide (pos = .sinkNode kind)) := by
    intro pos listed
    rcases List.mem_map.mp listed with ⟨other, _, rfl⟩
    simp only [sinkEntry, Option.map_some, Place.sinkNode.injEq]
  rw [InMemory.findSink, findEntry_ring ring decided (by decide)]
  cases kind <;> rfl

theorem Shows.openSink (shows : Shows memory world world.bus.sinkfds) (kind : SinkKind) (answer : Option Nat) :
    ∃ after, openSink kind answer memory = some after ∧
      Shows after (Bus.openSink world kind answer) (Bus.openSink world kind answer).bus.sinkfds := by
  unfold InMemory.openSink Bus.openSink
  rw [shows.findSink, Option.bind_eq_bind, Option.bind_some, Option.isNone_some, if_neg Bool.false_ne_true]
  cases answer with
  | none => exact ⟨memory, rfl, shows⟩
  | some num =>
      dsimp only
      rw [show memory.world.opened = world.opened by rw [shows.world]; rfl]
      by_cases taken : num ∈ world.opened
      · rw [if_pos taken, if_pos taken]
        exact ⟨memory, rfl, shows⟩
      · rw [if_neg taken, if_neg taken]
        rcases shows.addSinkfd num (kind != .serial) kind (num + 1) with ⟨after, adds, still⟩
        exact ⟨after, adds, still.world, still.placed⟩

theorem Shows.apibusClose (shows : Shows memory world world.bus.sinkfds) (num : Nat) :
    ∃ after, apibusClose num memory = some after ∧
      Shows after (Bus.apibusClose world num) (Bus.apibusClose world num).bus.sinkfds := by
  rw [InMemory.apibusClose, shows.placed.findSinkfdInApibus, Option.bind_eq_bind, Option.bind_some, Bus.apibusClose,
    Bus.findSinkfdInApibus]
  cases found : world.bus.sinkfds.find? (·.fd.num = num) with
  | none => exact ⟨memory, rfl, shows⟩
  | some sinkfd =>
      rw [Option.map_some]
      dsimp only
      have search : (world.bus.sinkfds.filter (·.sink = sinkfd.sink)).find? (·.fd.num = num) =
          Bus.findSinkfdInApisink world sinkfd.sink num := by
        rw [List.find?_filter]
        simp only [Bus.findSinkfdInApisink, decide_eq_true_eq]
      rw [shows.placed.cell (List.mem_of_find?_eq_some found), Option.bind_eq_bind, Option.bind_some,
        shows.placed.findSinkfdInApisink, search, Option.bind_some]
      cases closes : Bus.findSinkfdInApisink world sinkfd.sink num with
      | none => exact ⟨memory, rfl, shows⟩
      | some closing =>
          rcases find_split closes with ⟨before, after, split, erased⟩
          have matched := List.find?_some closes
          rw [decide_eq_true_iff] at matched
          rw [Option.map_some]
          dsimp only
          rw [shows.placed.cell (List.mem_of_find?_eq_some closes), Option.bind_some, erased, matched.2]
          rw [split] at shows
          let closed : World :=
            { world.setSinkfds (before ++ after) with
              opened := world.opened.erase num
              trace := world.trace ++ [.closed closing.fd] }
          have same : { memory.world with
              opened := memory.world.opened.erase num
              trace := memory.world.trace ++ [.closed closing.fd] } = closed.setSinkfds [] := by
            rw [shows.world]
            rfl
          exact (shows.change same rfl).destroy

theorem Shows.busStep (shows : Shows memory world world.bus.sinkfds) (input : BusInput) :
    ∃ after, busStep host memory input = some after ∧
      Shows after (Bus.busStep host world input) (Bus.busStep host world input).bus.sinkfds := by
  cases input with
  | poll input =>
      exact @Shows.unlessStopped _ _ (InMemory.apibusPoll host input) (Bus.apibusPoll host input) shows fun _ =>
        shows.apibusPoll
  | openSink kind answer =>
      exact @Shows.unlessStopped _ _ (InMemory.openSink kind answer) (fun world => Bus.openSink world kind answer) shows
        fun _ => shows.openSink kind answer
  | close num =>
      exact @Shows.unlessStopped _ _ (InMemory.apibusClose num) (fun world => Bus.apibusClose world num) shows fun _ =>
        shows.apibusClose num

theorem Shows.steps (inputs : List BusInput) :
    ∀ {memory : BusMemory} {world : World}, Shows memory world world.bus.sinkfds ->
      ∃ after, inputs.foldlM (InMemory.busStep host) memory = some after ∧
        Shows after (Bus.busRun host world inputs) (Bus.busRun host world inputs).bus.sinkfds := by
  induction inputs with
  | nil => exact fun shows => ⟨_, rfl, shows⟩
  | cons input inputs inductionHypothesis =>
      intro memory world shows
      rcases shows.busStep input with ⟨next, steps, still⟩
      rcases inductionHypothesis still with ⟨after, runs, last⟩
      refine ⟨after, ?_, last⟩
      rw [List.foldlM_cons, steps]
      exact runs

/-- The lists while the sinks are added, one after the other. -/
def enabledTable (added : List SinkKind) : RingTable Place
  | .sinks => some (added.map .sinkNode)
  | .sinkfds => some []
  | .sinkSinkfds kind => if kind ∈ added then some [] else none
  | _ => none

structure Enabled (memory : BusMemory) (added : List SinkKind) : Prop where
  rings : Represents memory.links (enabledTable added)
  live : memory.links.live = placeLive ⟨true, added, []⟩
  cells : memory.cells = cellOf []
  attached : ∀ kind, memory.attached kind = decide (kind ∈ added)
  world : memory.world = Bus.apibusNew

theorem apibusNew_enabled : ∃ made, InMemory.apibusNew BusMemory.start = some made ∧ Enabled made [] := by
  have fresh : BusMemory.start.links.live .sinkfds = false := rfl
  rcases malloc_represents (represents_nothing BusMemory.start.links) fresh with ⟨first, loose⟩
  have alsoFresh : (malloc .sinkfds BusMemory.start.links).live .sinks = false := rfl
  rcases malloc_represents first alsoFresh with ⟨second, alsoLoose⟩
  rcases initListHead_represents second loose rfl with ⟨half, inits, third, same⟩
  have outside : Place.sinks ∉ [Place.sinkfds] := by decide
  rcases initListHead_represents third (alsoLoose.update outside) (same ▸ rfl) with ⟨links, alsoInits, fourth, alike⟩
  refine ⟨{ BusMemory.start with links := links }, ?_, ?_, ?_, rfl, fun _ => rfl, rfl⟩
  · rw [InMemory.apibusNew]
    simp only [Option.bind_eq_bind, inits, Option.bind_some, alsoInits]
  · have table : Function.update (Function.update (fun _ => none) Place.sinkfds (some [])) .sinks (some []) =
        enabledTable [] := by
      funext place
      cases place <;> rfl
    exact table ▸ fourth
  · refine alike.trans (same.trans ?_)
    funext place
    cases place <;> rfl

theorem Enabled.add {kind : SinkKind} {added : List SinkKind} (enabled : Enabled memory added) (new : kind ∉ added)
    (few : added.length < 4) :
    ∃ middle after, apisinkInit kind memory = some middle ∧ apibusAddSink kind middle = some after ∧
      Enabled after (kind :: added) := by
  have loose : ∀ place, place = .sinkSinkfds kind ∨ place = .sinkNode kind -> (enabledTable added).Loose place := by
    intro place either head nodes listed
    cases head with
    | sinks =>
        cases listed
        rcases either with rfl | rfl
        · simp
        · simpa using new
    | sinkfds =>
        cases listed
        rcases either with rfl | rfl <;> simp
    | sinkSinkfds other =>
        rw [enabledTable] at listed
        split at listed
        case isFalse => cases listed
        case isTrue inside =>
          cases listed
          have different : kind ≠ other := fun same => new (same ▸ inside)
          rcases either with rfl | rfl
          · simpa using different
          · simp
    | _ => cases listed
  have live : ∀ place, placeLive ⟨true, added, []⟩ place -> memory.links.live place := by
    intro place alive
    rw [enabled.live, alive]
  rcases initListHead_represents enabled.rings (loose _ (Or.inl rfl)) (live _ rfl) with
    ⟨first, inits, firstRings, firstLive⟩
  have outside : Place.sinkNode kind ∉ [Place.sinkSinkfds kind] := by simp
  have stillLoose := (loose _ (Or.inr rfl)).update outside
  rcases initListHead_loose firstRings stillLoose (firstLive ▸ live _ rfl) with ⟨second, alsoInits, rings, secondLive⟩
  have listed : Function.update (enabledTable added) (.sinkSinkfds kind) (some []) .sinks =
      some (added.map .sinkNode) := Function.update_of_ne Place.noConfusion _ _
  have same : second.live = memory.links.live := secondLive.trans firstLive
  rcases listAdd_represents rings listed stillLoose (same ▸ live _ rfl) with ⟨third, adds, thirdRings, thirdLive⟩
  have decided : ∀ pos ∈ added.map Place.sinkNode,
      (sinkEntry pos).map (fun other => decide (other = kind)) = some false := by
    intro pos member
    rcases List.mem_map.mp member with ⟨other, inside, rfl⟩
    rw [sinkEntry, Option.map_some, decide_eq_false]
    rintro rfl
    exact new inside
  have enough : (added.map Place.sinkNode).length < 4 := by rwa [List.length_map]
  have none : (added.map Place.sinkNode).find? (fun _ => false) = none := by simp
  have absent := findEntry_ring (rings.ring _ _ listed) decided enough
  rw [none] at absent
  refine ⟨{ memory with links := second, attached := Function.update memory.attached kind false },
    { memory with links := third, attached := Function.update (Function.update memory.attached kind false) kind true },
    ?_, ?_, ?_, ?_, enabled.cells, ?_, enabled.world⟩
  · rw [apisinkInit]
    simp only [Option.bind_eq_bind, inits, Option.bind_some, alsoInits]
  · rw [apibusAddSink, InMemory.findSink, absent]
    simp only [Option.bind_eq_bind, Option.bind_some, adds]
    rfl
  · have table : Function.update (Function.update (enabledTable added) (.sinkSinkfds kind) (some [])) .sinks
        (some (.sinkNode kind :: added.map .sinkNode)) = enabledTable (kind :: added) := by
      funext place
      cases place with
      | sinks => exact Function.update_self _ _ _
      | sinkSinkfds other =>
          rw [Function.update_of_ne Place.noConfusion, enabledTable]
          by_cases own : other = kind
          · rw [own, Function.update_self, if_pos List.mem_cons_self]
          · rw [Function.update_of_ne fun same => own (Place.sinkSinkfds.inj same), enabledTable]
            simp only [List.mem_cons, own, false_or]
      | _ => rfl
    exact table ▸ thirdRings
  · refine thirdLive.trans (same.trans (enabled.live.trans ?_))
    funext place
    cases place <;> rfl
  · intro other
    rw [Function.update_idem]
    dsimp only
    by_cases own : other = kind
    · rw [own, Function.update_self, decide_eq_true List.mem_cons_self]
    · rw [Function.update_of_ne own, enabled.attached]
      simp only [List.mem_cons, own, false_or]

/-- The bus is made, and the three sinks are added to it. -/
theorem start_shows : ∃ made memory, InMemory.apibusNew BusMemory.start = some made ∧
    apibusEnablePosix made = some memory ∧ Shows memory Bus.apibusNew [] := by
  rcases apibusNew_enabled with ⟨made, makes, none⟩
  rcases @Enabled.add _ .unix _ none (by decide) (by decide) with ⟨_, unix, unixInit, unixAdd, first⟩
  rcases @Enabled.add _ .tcp _ first (by decide) (by decide) with ⟨_, tcp, tcpInit, tcpAdd, second⟩
  rcases @Enabled.add _ .serial _ second (by decide) (by decide) with ⟨_, serial, serialInit, serialAdd, third⟩
  refine ⟨made, serial, makes, ?_, third.world, ?_, third.live, third.cells, third.attached, List.nodup_nil, by simp⟩
  · simp [apibusEnablePosix, unixInit, unixAdd, tcpInit, tcpAdd, serialInit, serialAdd]
  · have table : enabledTable posixSinks = placeTable ⟨true, posixSinks, []⟩ := by
      funext place
      cases place with
      | sinkNode kind => cases kind <;> rfl
      | sinkSinkfds kind => cases kind <;> rfl
      | _ => rfl
    exact table ▸ third.rings

/-- However the bus is used, no function ever touches a sinkfd that has been
freed, and the lists in memory hold the sinkfds of the bus: that of the bus all
of them, and that of each sink those of the sink, in the same order. -/
theorem busRun_shows (host : Host) (inputs : List BusInput) :
    ∃ memory, InMemory.busRun host inputs = some memory ∧
      Shows memory (Bus.busRun host Bus.apibusNew inputs) (Bus.busRun host Bus.apibusNew inputs).bus.sinkfds := by
  rcases start_shows with ⟨made, memory, makes, enables, shows⟩
  rcases Shows.steps inputs shows with ⟨after, runs, last⟩
  refine ⟨after, ?_, last⟩
  rw [InMemory.busRun, makes, Option.bind_eq_bind, Option.bind_some, enables]
  exact runs

end Runs

end InMemory
end Bus
end Extlib
