import Extlib.Bus.State

namespace Extlib
namespace Bus

open Buffer Machine

/-!
# The posix sinks

`apix-posix.c`: opening and closing a descriptor, and the poll of a sink.
What the operating system answers is an input.  It may hand out any number
that is not open, and `select` fails when the set holds one that is not.
-/

/-- The answers of the operating system during one poll.  `accept` is asked
for a listening descriptor and `recv` for one that data is read from; `none`
stands for the error return. -/
structure PollInput where
  select : SinkKind -> Option (List Nat)
  accept : Nat -> Option Nat
  recv : Nat -> Option (List UInt8)

variable (host : Host) (input : PollInput)

/-- A descriptor that is new to the bus becomes a sinkfd in front of the
others. -/
def newSinkfd (world : World) (num : Nat) (listen : Bool) (kind : SinkKind) : SinkFd where
  fd := ⟨num, world.conns⟩
  listen := listen
  rxbuf := atbufNew 0
  tsPollRecv := 0
  sink := kind

/-- What opening or accepting changes besides the list of sinkfds. -/
def registerFd (world : World) (num : Nat) (kind : SinkKind) (nfds : Nat) : World :=
  let sink := world.posixSink kind
  { world.setPosixSink kind ⟨sink.fds.insert num, nfds⟩ with
    opened := num :: world.opened
    conns := world.conns + 1
    trace := world.trace ++ [.opened ⟨num, world.conns⟩] }

/-- `unix_open`, `tcp_open` and `serial_open`.  The first two listen. -/
def openSink (world : World) (kind : SinkKind) (answer : Option Nat) : World :=
  match answer with
  | none => world
  | some num =>
      if num ∈ world.opened then world
      else
        let sinkfd := newSinkfd world num (kind != .serial) kind
        (registerFd world num kind (num + 1)).setSinkfds (sinkfd :: world.bus.sinkfds)

/-- `apibus_close`: the sink closes and destroys its sinkfd of that number. -/
def apibusClose (world : World) (num : Nat) : World :=
  match findSinkfdInApibus world num with
  | none => world
  | some sinkfd =>
      match findSinkfdInApisink world sinkfd.sink num with
      | none => world
      | some closing =>
          { world.setSinkfds (world.bus.sinkfds.eraseP fun other => other.sink = sinkfd.sink ∧ other.fd.num = num) with
            opened := world.opened.erase num
            trace := world.trace ++ [.closed closing.fd] }

/-- The state of the loop in `unix_poll`: the descriptors still set, how many
of them are left to visit, and the sinkfds accepted so far. -/
structure SelectState where
  world : World
  recvfds : List Nat
  nrRecvFds : Nat
  accepted : List SinkFd

/-- The accepting branch. -/
def acceptFd (state : SelectState) (pos : SinkFd) : SelectState :=
  match input.accept pos.fd.num with
  | none => state
  | some newfd =>
      if newfd ∈ state.world.opened then state
      else
        let nfds := (state.world.posixSink pos.sink).nfds
        { state with
          world := registerFd state.world newfd pos.sink (max nfds (newfd + 1))
          accepted := newSinkfd state.world newfd false pos.sink :: state.accepted }

/-- The receiving branch: an error or the end of the stream destroys the
sinkfd and leaves the descriptor as it is. -/
def receiveFd (state : SelectState) (pos : SinkFd) : SelectState × Option SinkFd :=
  match input.recv pos.fd.num with
  | none => (state, none)
  | some bytes =>
      let received := bytes.take (atbufSpare pos.rxbuf)
      if received = [] then (state, none)
      else
        match atbufWriteAdvance (atbufFill pos.rxbuf received) received.length with
        | none => ({ state with world := state.world.stop .assertion }, some pos)
        | some rxbuf =>
            ({ state with world := state.world.tick },
              some { pos with rxbuf := rxbuf, tsPollRecv := state.world.timeofday host })

/-- The body of the loop over the sinkfds of a sink.  Only `unix_poll` looks
at `listen`; no sinkfd of the serial sink has it set. -/
def visitReady (kind : SinkKind) (state : SelectState) (pos : SinkFd) : SelectState × Option SinkFd :=
  if state.world.stopped.isSome ∨ pos.sink ≠ kind ∨ state.nrRecvFds = 0 ∨ pos.fd.num ∉ state.recvfds then
    (state, some pos)
  else
    let state := { state with nrRecvFds := state.nrRecvFds - 1 }
    if pos.listen ∧ kind ≠ .serial then (acceptFd input state pos, some pos)
    else receiveFd host input state pos

/-- What `select` returns: an error when a descriptor of the set is not open,
and otherwise some of those below `nfds`. -/
def selectReady (world : World) (kind : SinkKind) : Option (List Nat) :=
  let watched := (world.posixSink kind).fds.filter (· < (world.posixSink kind).nfds)
  if watched.all (· ∈ world.opened) then
    (input.select kind).map fun ready => watched.filter (· ∈ ready)
  else none

/-- `unix_poll`, which the tcp sink uses too, and `serial_poll`. -/
def posixPoll (kind : SinkKind) (world : World) : World :=
  match selectReady input world kind with
  | none => world
  | some recvfds =>
      let swept := sweep (visitReady host input kind) ⟨world, recvfds, recvfds.length, []⟩ world.bus.sinkfds
      swept.1.world.setSinkfds (swept.1.accepted ++ swept.2)

/-! ## What a visit does -/

/-- An accept fails, or the operating system hands out a number that is not
open. -/
theorem acceptFd_cases (input : PollInput) (state : SelectState) (pos : SinkFd) :
    acceptFd input state pos = state ∨
      ∃ newfd, input.accept pos.fd.num = some newfd ∧ newfd ∉ state.world.opened ∧
        acceptFd input state pos =
          { state with
            world := registerFd state.world newfd pos.sink (max (state.world.posixSink pos.sink).nfds (newfd + 1))
            accepted := newSinkfd state.world newfd false pos.sink :: state.accepted } := by
  unfold acceptFd
  split
  · exact Or.inl rfl
  case h_2 newfd answered =>
    split
    · exact Or.inl rfl
    case isFalse closed => exact Or.inr ⟨newfd, answered, closed, rfl⟩

/-- A receive destroys the sinkfd, fails the assertion, or brings bytes. -/
theorem receiveFd_cases (host : Host) (input : PollInput) (state : SelectState) (pos : SinkFd) :
    receiveFd host input state pos = (state, none) ∨
      receiveFd host input state pos = ({ state with world := state.world.stop .assertion }, some pos) ∨
      ∃ bytes rxbuf, bytes ≠ [] ∧ atbufWriteAdvance (atbufFill pos.rxbuf bytes) bytes.length = some rxbuf ∧
        receiveFd host input state pos =
          ({ state with world := state.world.tick },
            some { pos with rxbuf := rxbuf, tsPollRecv := state.world.timeofday host }) := by
  unfold receiveFd
  split
  · exact Or.inl rfl
  case h_2 bytes _ =>
    dsimp only
    split
    · exact Or.inl rfl
    case isFalse some_bytes =>
      split
      · exact Or.inr (Or.inl rfl)
      case h_2 rxbuf advanced => exact Or.inr (Or.inr ⟨_, rxbuf, some_bytes, advanced, rfl⟩)

/-- A visit passes the sinkfd by, or accepts on it, or receives from it. -/
theorem visitReady_cases (host : Host) (input : PollInput) (kind : SinkKind) (state : SelectState) (pos : SinkFd) :
    visitReady host input kind state pos = (state, some pos) ∨
      (pos.sink = kind ∧ pos.fd.num ∈ state.recvfds ∧ (pos.listen ∧ kind ≠ .serial) ∧
        visitReady host input kind state pos =
          (acceptFd input { state with nrRecvFds := state.nrRecvFds - 1 } pos, some pos)) ∨
      (pos.sink = kind ∧ pos.fd.num ∈ state.recvfds ∧ ¬ (pos.listen ∧ kind ≠ .serial) ∧
        visitReady host input kind state pos =
          receiveFd host input { state with nrRecvFds := state.nrRecvFds - 1 } pos) := by
  unfold visitReady
  split
  · exact Or.inl rfl
  case isFalse ready =>
    simp only [not_or, not_not] at ready
    dsimp only
    split
    case isTrue accepts => exact Or.inr (Or.inl ⟨ready.2.1, ready.2.2.2, accepts, rfl⟩)
    case isFalse receives => exact Or.inr (Or.inr ⟨ready.2.1, ready.2.2.2, receives, rfl⟩)

end Bus
end Extlib
