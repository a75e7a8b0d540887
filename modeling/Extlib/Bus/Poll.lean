import Extlib.Bus.Handlers
import Extlib.Bus.Posix

namespace Extlib
namespace Bus

open Text Machine World

/-!
# The poll and the runs of the bus

`apibus_poll` polls the sinks, parses what was received and runs the handlers.
A run is any sequence of polls, openings and closings.
-/

variable (host : Host)

/-- `poll_cnt` and `poll_ts` at the start of the poll. -/
def beginPoll (world : World) : World :=
  { world.tick with bus := { world.bus with pollCnt := 0, pollTs := world.timeofday host } }

/-- The idle time after a poll in which nothing arrived grows up to its
maximum.  (`usleep` returns.) -/
def updateIdle (world : World) : World :=
  let idleUsec :=
    if world.bus.pollCnt = 0 then
      if world.bus.idleUsec ≠ apibusIdleMax then min (world.bus.idleUsec + apibusIdleMax / 10) apibusIdleMax
      else world.bus.idleUsec
    else apibusIdleMax / 10
  { world with bus := { world.bus with idleUsec := idleUsec } }

/-- The sinks in the order of the list: each was added in front. -/
def pollSinks (input : PollInput) (world : World) : World :=
  [SinkKind.serial, .tcp, .unix].foldl (fun world kind => unlessStopped (posixPoll host input kind) world) world

/-- The poll up to the handlers. -/
def receivePhase (input : PollInput) (world : World) : World :=
  unlessStopped updateIdle (unlessStopped (parseSinkfds host) (pollSinks host input (beginPoll host world)))

def handlePhase (world : World) : World :=
  [handleRequest host, handleResponse host, handleTopicMsg, clearUnaliveStation host].foldl
    (fun world handler => unlessStopped handler world) world

def apibusPoll (input : PollInput) (world : World) : World :=
  handlePhase host (receivePhase host input world)

inductive BusInput where
  | poll (input : PollInput)
  | openSink (kind : SinkKind) (answer : Option Nat)
  | close (num : Nat)

def busStep (world : World) : BusInput -> World
  | .poll input => unlessStopped (apibusPoll host input) world
  | .openSink kind answer => unlessStopped (fun world => openSink world kind answer) world
  | .close num => unlessStopped (fun world => apibusClose world num) world

def busRun (world : World) (inputs : List BusInput) : World := inputs.foldl (busStep host) world

/-- Every step of the run meets a condition on the state before it. -/
def EveryStep (condition : World -> BusInput -> Prop) : World -> List BusInput -> Prop
  | _, [] => True
  | world, input :: inputs => condition world input ∧ EveryStep condition (busStep host world input) inputs

/-- A client connects to a unix listener, and then one receive brings `bytes`. -/
def oneReceive (bytes : List UInt8) : List BusInput :=
  [.openSink .unix (some 3),
    .poll ⟨fun _ => some [3], fun _ => some 4, fun _ => none⟩,
    .poll ⟨fun _ => some [4], fun _ => none, fun _ => some bytes⟩]

/-- A poll in which the listener 3 accepts a client. -/
def oneAccept (num : Nat) : BusInput := .poll ⟨fun _ => some [3], fun _ => some num, fun _ => none⟩

/-- A poll in which the client sends. -/
def oneSend (num : Nat) (bytes : List UInt8) : BusInput :=
  .poll ⟨fun _ => some [num], fun _ => none, fun _ => some bytes⟩

/-- A request of station 1 to station 2, which does not exist. -/
def oneRequest : List UInt8 := ascii ">0,$,0017,0001:/2/a?{}" ++ [0]

variable {host}

theorem busRun_conditional {condition : World -> BusInput -> Prop} (invariant : World -> Prop)
    (preserved : ∀ world input, condition world input -> invariant world -> invariant (busStep host world input))
    (inputs : List BusInput) :
    ∀ world, EveryStep host condition world inputs -> invariant world -> invariant (busRun host world inputs) := by
  induction inputs with
  | nil => exact fun _ _ holds => holds
  | cons input inputs inductionHypothesis =>
      intro world every holds
      exact inductionHypothesis _ every.2 (preserved world input every.1 holds)

end Bus
end Extlib
