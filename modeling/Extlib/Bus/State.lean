import Extlib.Buffer.Atbuf
import Extlib.Machine.Loop
import Extlib.Srrp.Reader

namespace Extlib
namespace Bus

open Text Buffer Srrp

/-!
# The state of the bus

The structures of `apix-private.h`, and around them what the bus runs in: the
descriptors the operating system has open, the clock, and a trace of what has
happened.  The linked lists are lists with the head first; `list_add` puts an
entry in front.

A descriptor is a number, and numbers are handed out again.  `Fd.conn` says
which connection the number stood for when it was copied into an entry; no
function of the source looks at it.  In the same way `node` tells apart two
entries that were allocated one after the other, as their addresses do.
-/

def apiRequestTimeout : Nat := 3000
def parsePacketTimeout : Nat := 1000
def apibusIdleMax : Nat := 1 * 1000 * 1000
def apibusStationAliveTimeout : Nat := 600 * 1000
def apiHeaderSize : Nat := 256
def apiTopicSubscribeMax : Nat := 32

structure Fd where
  num : Nat
  conn : Nat
  deriving DecidableEq, Repr

inductive SinkKind where
  | unix
  | tcp
  | serial
  deriving DecidableEq, Repr

/-- `struct sinkfd`.  `tsPollRecv` is in microseconds. -/
structure SinkFd where
  fd : Fd
  listen : Bool
  rxbuf : Atbuf
  tsPollRecv : Nat
  sink : SinkKind
  deriving DecidableEq, Repr

/-- `API_REQUEST_ST_NONE` and `API_REQUEST_ST_WAIT_RESPONSE`. -/
inductive RequestState where
  | none
  | waitResponse
  deriving DecidableEq, Repr

/-- `ts_create` and `ts_send` are in seconds. -/
structure ApiRequest where
  pac : SrrpPacket
  state : RequestState
  tsCreate : Nat
  tsSend : Nat
  fd : Fd
  crc16 : UInt16
  node : Nat
  deriving DecidableEq, Repr

structure ApiResponse where
  pac : SrrpPacket
  fd : Fd
  node : Nat
  deriving DecidableEq, Repr

structure ApiStation where
  sttid : UInt16
  tsAlive : Nat
  fd : Fd
  deriving DecidableEq, Repr

structure ApiTopicMsg where
  pac : SrrpPacket
  fd : Fd
  node : Nat
  deriving DecidableEq, Repr

/-- `fds` is the used part of the array; its length is `nfds`. -/
structure ApiTopic where
  header : CString
  fds : List Fd
  deriving DecidableEq, Repr

structure Apibus where
  requests : List ApiRequest
  responses : List ApiResponse
  stations : List ApiStation
  topicMsgs : List ApiTopicMsg
  topics : List ApiTopic
  sinkfds : List SinkFd
  pollTs : Nat
  pollCnt : Nat
  idleUsec : Nat
  deriving DecidableEq, Repr

/-- `struct posix_sink`: the set for `select` and the bound on it. -/
structure PosixSink where
  fds : List Nat
  nfds : Nat
  deriving DecidableEq, Repr

/-- A reason why there is no next state: an assertion, a write past the end of
an array, or a pointer that does not point to an entry. -/
inductive Fault where
  | assertion
  | headerOverflow
  | nullTopic
  | wildTopic
  deriving DecidableEq, Repr

/-- The calls of `apibus_send`, each with the entries it is made for. -/
inductive SendCall where
  | requestTimeout (req : ApiRequest)
  | stationNotFound (req : ApiRequest)
  | forward (req : ApiRequest) (dst : ApiStation)
  | relay (resp : ApiResponse) (req : ApiRequest)
  | subOk (tmsg : ApiTopicMsg)
  | unsubOk (tmsg : ApiTopicMsg)
  | publish (tmsg : ApiTopicMsg) (fd : Fd)
  deriving DecidableEq, Repr

namespace SendCall

/-- The descriptor the call is given. -/
def fd : SendCall -> Fd
  | requestTimeout req => req.fd
  | stationNotFound req => req.fd
  | forward _ dst => dst.fd
  | relay _ req => req.fd
  | subOk tmsg => tmsg.fd
  | unsubOk tmsg => tmsg.fd
  | publish _ fd => fd

/-- The bytes the call is given. -/
def bytes : SendCall -> List UInt8
  | requestTimeout _ => ascii "request timeout"
  | stationNotFound _ => ascii "STATION NOT FOUND"
  | forward req _ => req.pac.raw.take req.pac.len.toNat
  | relay resp _ => resp.pac.raw.take resp.pac.len.toNat
  | subOk _ => ascii "Sub OK"
  | unsubOk _ => ascii "Unsub OK"
  | publish tmsg _ => tmsg.pac.raw.take tmsg.pac.len.toNat

end SendCall

/-- What the trace records.  A call of `apibus_send` is recorded with the
descriptor of the sinkfd it found, if it found one; `resync` with the bytes
`parse_packet` gave up and those it left. -/
inductive Event where
  | opened (fd : Fd)
  | closed (fd : Fd)
  | receivedRequest (req : ApiRequest)
  | receivedResponse (resp : ApiResponse)
  | receivedTopicMsg (tmsg : ApiTopicMsg)
  | resync (given : List UInt8) (left : List UInt8)
  | send (call : SendCall) (sentTo : Option Fd)
  | handledTopicMsg (tmsg : ApiTopicMsg)
  deriving DecidableEq, Repr

/-- The bus with its surroundings.  `opened` holds the numbers open in the
operating system, `reads` counts the readings of the clock, `nodes` and
`conns` the entries and the connections so far.  The newest event is the last
of the trace.  Once `stopped` is set nothing happens any more. -/
structure World where
  bus : Apibus
  unixSink : PosixSink
  tcpSink : PosixSink
  serialSink : PosixSink
  opened : List Nat
  reads : Nat
  nodes : Nat
  conns : Nat
  trace : List Event
  stopped : Option Fault
  deriving DecidableEq, Repr

/-- What the bus is given from outside: a clock that does not run backwards,
in microseconds for each reading, and what a read finds behind the end of a
receive buffer and of a packet, at each number of entries allocated so far. -/
structure Host where
  clock : Nat -> Nat
  nondecreasing : ∀ earlier later, earlier ≤ later -> clock earlier ≤ clock later
  behindBuffer : Nat -> Nat -> UInt8
  behindPacket : Nat -> Nat -> UInt8

/-- A host whose clock always shows the same time, with zeros behind every
allocation. -/
def Host.still (time : Nat) : Host where
  clock := fun _ => time
  nondecreasing := fun _ _ _ => Nat.le_refl time
  behindBuffer := fun _ _ => 0
  behindPacket := fun _ _ => 0

/-- `apibus_new`, and the three sinks that `apibus_enable_posix` adds. -/
def apibusNew : World where
  bus :=
    { requests := []
      responses := []
      stations := []
      topicMsgs := []
      topics := []
      sinkfds := []
      pollTs := 0
      pollCnt := 0
      idleUsec := 0 }
  unixSink := ⟨[], 0⟩
  tcpSink := ⟨[], 0⟩
  serialSink := ⟨[], 0⟩
  opened := []
  reads := 0
  nodes := 0
  conns := 0
  trace := []
  stopped := none

namespace World

def posixSink (world : World) : SinkKind -> PosixSink
  | .unix => world.unixSink
  | .tcp => world.tcpSink
  | .serial => world.serialSink

def setPosixSink (world : World) (kind : SinkKind) (sink : PosixSink) : World :=
  match kind with
  | .unix => { world with unixSink := sink }
  | .tcp => { world with tcpSink := sink }
  | .serial => { world with serialSink := sink }

def setRequests (world : World) (requests : List ApiRequest) : World :=
  { world with bus := { world.bus with requests := requests } }

def setResponses (world : World) (responses : List ApiResponse) : World :=
  { world with bus := { world.bus with responses := responses } }

def setStations (world : World) (stations : List ApiStation) : World :=
  { world with bus := { world.bus with stations := stations } }

def setTopicMsgs (world : World) (topicMsgs : List ApiTopicMsg) : World :=
  { world with bus := { world.bus with topicMsgs := topicMsgs } }

def setTopics (world : World) (topics : List ApiTopic) : World :=
  { world with bus := { world.bus with topics := topics } }

def setSinkfds (world : World) (sinkfds : List SinkFd) : World :=
  { world with bus := { world.bus with sinkfds := sinkfds } }

/-- The clock as the next reading shows it. -/
def time (host : Host) (world : World) : Nat := host.clock world.reads / 1000000

def timeofday (host : Host) (world : World) : Nat := host.clock world.reads

/-- The reading has been made. -/
def tick (world : World) : World := { world with reads := world.reads + 1 }

def emit (world : World) (event : Event) : World := { world with trace := world.trace ++ [event] }

def stop (world : World) (fault : Fault) : World := { world with stopped := some fault }

/-- Nothing runs after a stop. -/
def unlessStopped (action : World -> World) (world : World) : World :=
  if world.stopped.isSome then world else action world

/-- A rule for an action that may not run. -/
theorem unlessStopped_rule (holds : World -> Prop) {action : World -> World} {world : World} (stays : holds world)
    (runs : holds (action world)) : holds (unlessStopped action world) := by
  unfold unlessStopped
  split
  · exact stays
  · exact runs

/-- A later reading shows no earlier time. -/
theorem time_mono (host : Host) {before after : World} (later : before.reads ≤ after.reads) :
    before.time host ≤ after.time host :=
  Nat.div_le_div_right (host.nondecreasing _ _ later)

end World

/-- `find_sinkfd_in_apibus`. -/
def findSinkfdInApibus (world : World) (num : Nat) : Option SinkFd :=
  world.bus.sinkfds.find? (·.fd.num = num)

/-- `find_sinkfd_in_apisink`: an entry is on the list of its sink and on that
of the bus, in the same order. -/
def findSinkfdInApisink (world : World) (kind : SinkKind) (num : Nat) : Option SinkFd :=
  world.bus.sinkfds.find? fun sinkfd => sinkfd.sink = kind ∧ sinkfd.fd.num = num

/-- `apibus_send`.  Every sink has a send function; what the peer makes of the
bytes is not part of the bus. -/
def apibusSend (world : World) (call : SendCall) : World :=
  world.emit (.send call ((findSinkfdInApibus world call.fd.num).map (·.fd)))

end Bus
end Extlib
