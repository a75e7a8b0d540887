import Extlib.Bus.Segmentation
import Extlib.Bus.ParseLoop

namespace Extlib
namespace Bus

open Text Buffer Srrp Machine World

/-!
# How long an incomplete packet is waited for

`parse_packet` gives up what it cannot read when the clock, in whole seconds,
is a second past the seconds of `ts_poll_recv`.  The posix sinks set that time
with every receive; the sink of `apix-stm32.c` never does.  An `Endpoint` is a
sinkfd with the time of its last receive, whether or not the sink keeps it.
-/

/-- One sinkfd in the `serial_poll` of `apix-stm32.c`.  An error and the end of
the stream are passed over. -/
def readFd (input : PollInput) (world : World) (pos : SinkFd) : World × SinkFd :=
  match input.recv pos.fd.num with
  | none => (world, pos)
  | some bytes =>
      let received := bytes.take (atbufSpare pos.rxbuf)
      if received = [] then (world, pos)
      else
        match atbufWriteAdvance (atbufFill pos.rxbuf received) received.length with
        | none => (world.stop .assertion, pos)
        | some rxbuf => (world, { pos with rxbuf := rxbuf })

/-- The body of its loop. -/
def visitSerial (input : PollInput) (world : World) (pos : SinkFd) : World × Option SinkFd :=
  if world.stopped.isSome ∨ pos.sink ≠ .serial then (world, some pos)
  else ((readFd input world pos).1, some (readFd input world pos).2)

def stm32SerialPoll (input : PollInput) (world : World) : World :=
  let swept := sweep (visitSerial input) world world.bus.sinkfds
  swept.1.setSinkfds swept.2

/-- The sinks of the two ports. -/
inductive Transport where
  | posix (kind : SinkKind)
  | stm32
  deriving DecidableEq, Repr

namespace Transport

/-- What the poll of a sink does to one sinkfd. -/
def visit (host : Host) (input : PollInput) (transport : Transport) (state : SelectState) (pos : SinkFd) :
    SelectState × Option SinkFd :=
  match transport with
  | posix kind => visitReady host input kind state pos
  | stm32 => ({ state with world := (visitSerial input state.world pos).1 }, (visitSerial input state.world pos).2)

def poll (host : Host) (input : PollInput) (transport : Transport) (world : World) : World :=
  match transport with
  | posix kind => posixPoll host input kind world
  | stm32 => stm32SerialPoll input world

/-- The time that `ts_poll_recv` holds after a last receive. -/
def stamp : Transport -> Option Nat -> Nat
  | posix _, lastRecv => lastRecv.getD 0
  | stm32, _ => 0

/-- The reading of the clock lies in the second of the last receive; where
nothing is kept of that, in the first second of the clock. -/
def SameSecond (transport : Transport) (last now : Nat) : Prop :=
  match transport with
  | posix _ => now / 1000000 ≤ last / 1000000
  | stm32 => now / 1000000 = 0

end Transport

structure Endpoint where
  world : World
  sinkfd : SinkFd
  lastRecv : Option Nat

/-- A sinkfd right after it was opened or accepted. -/
def Endpoint.opened (world : World) (num : Nat) (listen : Bool) (kind : SinkKind) : Endpoint where
  world := world
  sinkfd := newSinkfd world num listen kind
  lastRecv := none

/-- What becomes of a sinkfd that is not closed: its sink is polled, which may
append bytes to its buffer, the buffer is parsed, or something else happens on
the bus. -/
inductive Turn (host : Host) (transport : Transport) : Endpoint -> Endpoint -> Prop where
  | polled {before : Endpoint} {input : PollInput} {state left : SelectState} {after : SinkFd} {bytes : List UInt8}
      (here : state.world = before.world)
      (visited : transport.visit host input state before.sinkfd = (left, some after))
      (appended : after.rxbuf.unread = before.sinkfd.rxbuf.unread ++ bytes) :
      Turn host transport before
        ⟨left.world, after, if bytes = [] then before.lastRecv else some (before.world.timeofday host)⟩
  | parsed {before : Endpoint} :
      Turn host transport before
        ⟨(parsePacket host before.world before.sinkfd).1, (parsePacket host before.world before.sinkfd).2,
          before.lastRecv⟩
  | elsewhere {before : Endpoint} {world : World} (later : before.world.reads ≤ world.reads) :
      Turn host transport before ⟨world, before.sinkfd, before.lastRecv⟩

/-- The bytes begin a packet: none can be read from them yet, and more bytes
complete one that they are a part of. -/
structure Incomplete (unread : List UInt8) : Prop where
  nonempty : unread ≠ []
  pending : ∀ beyond behind, srrpReadOnePacket beyond (unread ++ 0 :: behind) = .null
  completes : ∃ rest pac, unread.length < pac.len.toNat ∧
    ∀ beyond behind, srrpReadOnePacket beyond (unread ++ rest ++ behind) = .packet pac

/-- In no run does a parse that comes to an incomplete packet within the
timeout after the last receive give up any of it. -/
def KeepsIncomplete (host : Host) (transport : Transport) : Prop :=
  ∀ (world : World) (num : Nat) (listen : Bool) (kind : SinkKind) (endpoint : Endpoint) (last : Nat)
    (reached : World × SinkFd),
    Relation.ReflTransGen (Turn host transport) (.opened world num listen kind) endpoint ->
    endpoint.lastRecv = some last -> Takes host (endpoint.world, endpoint.sinkfd) reached ->
    Incomplete reached.2.rxbuf.unread ->
    host.clock reached.1.reads < last + parsePacketTimeout * 1000 ->
    (parsePacket host endpoint.world endpoint.sinkfd).2.rxbuf.unread = reached.2.rxbuf.unread

/-! ## The time of the last receive -/

section Polls

variable {host : Host} {input : PollInput} {transport : Transport}

/-- Where the assertion holds the bytes join the unread ones. -/
private theorem advance_spec {rxbuf advanced : Atbuf} {bytes : List UInt8} (valid : rxbuf.Valid)
    (advances : atbufWriteAdvance (atbufFill rxbuf bytes) bytes.length = some advanced) :
    advanced.Valid ∧ atbufSize advanced = atbufSize rxbuf ∧ advanced.unread = rxbuf.unread ++ bytes := by
  have room : rxbuf.offsetIn + bytes.length < atbufSize rxbuf := by
    by_contra full
    have asserts := (atbufFill_writeAdvance_eq_none_iff valid bytes).mpr (by unfold atbufSpare; omega)
    rw [advances] at asserts
    cases asserts
  rcases atbufFill_writeAdvance valid.ordered bytes room with ⟨filled, fills, filledValid, joined, size⟩
  cases advances.symm.trans fills
  exact ⟨filledValid, size, joined⟩

/-- A visit that does not close the sinkfd leaves it alone or appends some
bytes, and then sets the time if the sink keeps it. -/
theorem visit_cases {state left : SelectState} {pos after : SinkFd} (valid : pos.rxbuf.Valid)
    (visited : transport.visit host input state pos = (left, some after)) :
    after = pos ∨ ∃ bytes rxbuf, bytes ≠ [] ∧ rxbuf.Valid ∧ atbufSize rxbuf = atbufSize pos.rxbuf ∧
      rxbuf.unread = pos.rxbuf.unread ++ bytes ∧
      after = { pos with
        rxbuf := rxbuf
        tsPollRecv := if transport = .stm32 then pos.tsPollRecv else state.world.timeofday host } := by
  have alone : ∀ {state : SelectState}, (state, some pos) = (left, some after) -> after = pos :=
    fun same => (Option.some.inj (Prod.mk.inj same).2).symm
  cases transport with
  | posix kind =>
      rw [Transport.visit] at visited
      rcases visitReady_cases host input kind state pos with passes | ⟨_, _, _, accepts⟩ | ⟨_, _, _, receives⟩
      · exact Or.inl (alone (passes.symm.trans visited))
      · exact Or.inl (alone (accepts.symm.trans visited))
      · rw [receives] at visited
        rcases receiveFd_cases host input { state with nrRecvFds := state.nrRecvFds - 1 } pos with
          closed | asserts | ⟨bytes, rxbuf, some_bytes, advances, received⟩
        · cases closed.symm.trans visited
        · exact Or.inl (alone (asserts.symm.trans visited))
        · have spec := advance_spec valid advances
          cases received.symm.trans visited
          exact Or.inr ⟨bytes, rxbuf, some_bytes, spec.1, spec.2.1, spec.2.2, rfl⟩
  | stm32 =>
      simp only [Transport.visit, visitSerial] at visited
      split at visited
      · exact Or.inl (alone visited)
      · have same := Option.some.inj (Prod.mk.inj visited).2
        unfold readFd at same
        split at same
        · exact Or.inl same.symm
        case h_2 bytes answered =>
          dsimp only at same
          split at same
          · exact Or.inl same.symm
          case isFalse some_bytes =>
            split at same
            · exact Or.inl same.symm
            case h_2 rxbuf advances =>
              have spec := advance_spec valid advances
              exact Or.inr ⟨_, rxbuf, some_bytes, spec.1, spec.2.1, spec.2.2, same.symm⟩

private theorem visitReady_accepted {kind : SinkKind} (state : SelectState) (pos : SinkFd)
    (fresh : ∀ sinkfd ∈ state.accepted, ∃ earlier num kind, sinkfd = newSinkfd earlier num false kind) :
    ∀ sinkfd ∈ (visitReady host input kind state pos).1.accepted,
      ∃ earlier num kind, sinkfd = newSinkfd earlier num false kind := by
  rcases visitReady_cases host input kind state pos with passes | ⟨_, _, _, accepts⟩ | ⟨_, _, _, receives⟩
  · rw [passes]
    exact fresh
  · rw [accepts]
    rcases acceptFd_cases input { state with nrRecvFds := state.nrRecvFds - 1 } pos with none_new | ⟨newfd, _, _, accepted⟩
    · rw [none_new]
      exact fresh
    · rw [accepted]
      intro sinkfd listed
      rcases List.mem_cons.mp listed with rfl | earlier
      · exact ⟨_, _, _, rfl⟩
      · exact fresh sinkfd earlier
  · rw [receives]
    rcases receiveFd_cases host input { state with nrRecvFds := state.nrRecvFds - 1 } pos with
      closed | asserts | ⟨_, _, _, _, received⟩
    · rw [closed]
      exact fresh
    · rw [asserts]
      exact fresh
    · rw [received]
      exact fresh

/-- After a poll there are the sinkfds it accepted and those it visited and did
not close. -/
theorem poll_sinkfds (world : World) :
    ∀ sinkfd ∈ (transport.poll host input world).bus.sinkfds,
      (∃ earlier num kind, sinkfd = newSinkfd earlier num false kind) ∨
        sinkfd ∈ world.bus.sinkfds ∨
        ∃ pos ∈ world.bus.sinkfds, ∃ state left, transport.visit host input state pos = (left, some sinkfd) := by
  intro sinkfd listed
  cases transport with
  | posix kind =>
      simp only [Transport.poll, posixPoll] at listed
      split at listed
      · exact Or.inr (Or.inl listed)
      case h_2 recvfds ready =>
        rcases List.mem_append.mp listed with accepted | kept
        · refine Or.inl (sweep_state (fun state : SelectState => ∀ sinkfd ∈ state.accepted,
            ∃ earlier num kind, sinkfd = newSinkfd earlier num false kind) ?_ _ world.bus.sinkfds ?_ sinkfd accepted)
          · exact fun state pos fresh => visitReady_accepted state pos fresh
          · exact fun _ none => absurd none List.not_mem_nil
        · refine Or.inr (Or.inr (sweep_kept (fun left : SinkFd => ∃ pos ∈ world.bus.sinkfds, ∃ state after,
            Transport.visit host input (.posix kind) state pos = (after, some left)) _ _ ?_ sinkfd kept))
          intro state pos member left visited
          exact ⟨pos, member, state, _, Prod.ext rfl visited⟩
  | stm32 =>
      refine Or.inr (Or.inr (sweep_kept (fun left : SinkFd => ∃ pos ∈ world.bus.sinkfds, ∃ state after,
        Transport.visit host input .stm32 state pos = (after, some left)) _ _ ?_ sinkfd listed))
      intro now pos member left visited
      exact ⟨pos, member, ⟨now, [], 0, []⟩, _, Prod.ext rfl visited⟩

/-- A sinkfd that is polled takes a turn. -/
theorem visit_turn {state left : SelectState} {pos after : SinkFd} (valid : pos.rxbuf.Valid)
    (visited : transport.visit host input state pos = (left, some after)) (lastRecv : Option Nat) :
    ∃ lastRecv', Turn host transport ⟨state.world, pos, lastRecv⟩ ⟨left.world, after, lastRecv'⟩ := by
  obtain ⟨bytes, appended⟩ : ∃ bytes, after.rxbuf.unread = pos.rxbuf.unread ++ bytes := by
    rcases visit_cases valid visited with same | ⟨bytes, rxbuf, _, _, _, appended, same⟩
    · exact ⟨[], by rw [same, List.append_nil]⟩
    · exact ⟨bytes, by rw [same]; exact appended⟩
  exact ⟨_, .polled rfl visited appended⟩

end Polls

/-- The buffer is the one `sinkfd_new` allocated, and `ts_poll_recv` is what
its sink makes of the last receive. -/
structure Stamped (transport : Transport) (endpoint : Endpoint) : Prop where
  valid : endpoint.sinkfd.rxbuf.Valid
  size : atbufSize endpoint.sinkfd.rxbuf = atbufDefaultSize
  stamp : endpoint.sinkfd.tsPollRecv = transport.stamp endpoint.lastRecv

section Parse

variable {host : Host}

/-- What the parser does after some packets is what it does with the rest. -/
theorem parsePacket_takes {before after : World × SinkFd} (taken : Takes host before after)
    (valid : before.2.rxbuf.Valid) (size : atbufSize before.2.rxbuf = atbufDefaultSize) :
    parsePacket host before.1 before.2 = parsePacket host after.1 after.2 ∧ after.2.rxbuf.Valid ∧
      after.2.tsPollRecv = before.2.tsPollRecv := by
  have kept := taken.kept valid
  have small : atbufDefaultSize < 2 ^ 31 := by decide
  have rest : Ends (parseRound host) after (parsePacket host after.1 after.2) :=
    parsePacket_ends after.1 kept.1 ((kept.2.1.trans size).symm ▸ small)
  have whole : Ends (parseRound host) before (parsePacket host before.1 before.2) :=
    parsePacket_ends before.1 valid (size.symm ▸ small)
  exact ⟨whole.unique (rest.of_rounds taken), kept.1, kept.2.2⟩

/-- An incomplete packet stays unread exactly while the clock has not passed
the second after the time of the last receive. -/
theorem parsePacket_incomplete (host : Host) (world : World) {sinkfd : SinkFd} (valid : sinkfd.rxbuf.Valid)
    (incomplete : Incomplete sinkfd.rxbuf.unread) :
    (parsePacket host world sinkfd).2.rxbuf.unread = sinkfd.rxbuf.unread ↔
      host.clock world.reads / 1000000 ≤ sinkfd.tsPollRecv / 1000000 := by
  have second : parsePacketTimeout / 1000 = 1 := rfl
  have some_unread := List.length_pos_iff.mpr incomplete.nonempty
  rw [parsePacket_null host world valid incomplete.nonempty incomplete.pending, second, World.time]
  by_cases soon : host.clock world.reads / 1000000 < sinkfd.tsPollRecv / 1000000 + 1
  · rw [if_pos soon]
    exact iff_of_true rfl (Nat.le_of_lt_succ soon)
  · rw [if_neg soon, resync_eq world.tick valid]
    refine iff_of_false ?_ (fun before => soon (Nat.lt_succ_of_le before))
    intro kept
    -- at least a byte is given up
    have left := congrArg List.length kept
    simp only [discard] at left
    rw [(atbufReadAdvance_spec valid _).2.1, List.length_drop] at left
    split at left
    · rw [← valid.length_unread] at left
      omega
    · omega

end Parse

theorem Stamped.turn {host : Host} {transport : Transport} {before after : Endpoint}
    (turn : Turn host transport before after) (stamped : Stamped transport before) : Stamped transport after := by
  cases turn with
  | parsed =>
      have kept := parsePacket_keeps host before.world stamped.valid
      exact ⟨kept.1, kept.2.1.trans stamped.size, kept.2.2.trans stamped.stamp⟩
  | elsewhere => exact ⟨stamped.valid, stamped.size, stamped.stamp⟩
  | polled here visited appended =>
      rcases visit_cases stamped.valid visited with rfl | ⟨bytes, rxbuf, some_bytes, valid, size, joined, rfl⟩
      · have nothing := List.self_eq_append_right.mp appended
        refine ⟨stamped.valid, stamped.size, ?_⟩
        rw [if_pos nothing]
        exact stamped.stamp
      · have same := List.append_cancel_left (joined.symm.trans appended)
        refine ⟨valid, size.trans stamped.size, ?_⟩
        rw [← same, if_neg some_bytes, here]
        cases transport with
        | posix => rfl
        | stm32 => exact stamped.stamp

theorem Stamped.run {host : Host} {transport : Transport} {world : World} {num : Nat} {listen : Bool} {kind : SinkKind}
    {endpoint : Endpoint} (run : Relation.ReflTransGen (Turn host transport) (.opened world num listen kind) endpoint) :
    Stamped transport endpoint := by
  refine steps_invariant (Stamped transport) (fun _ _ turn stamped => stamped.turn turn) run ⟨atbufNew_valid 0, ?_, ?_⟩
  · simp [Endpoint.opened, newSinkfd, atbufNew, atbufSize]
  · cases transport <;> rfl

/-- In every run, a parse that comes to an incomplete packet within the timeout
after the last receive keeps it exactly when the clock still shows the second
that the sink keeps for that receive. -/
theorem incomplete_kept_iff {host : Host} {transport : Transport} {world : World} {num : Nat} {listen : Bool}
    {kind : SinkKind} {endpoint : Endpoint} {last : Nat} {reached : World × SinkFd}
    (run : Relation.ReflTransGen (Turn host transport) (.opened world num listen kind) endpoint)
    (received : endpoint.lastRecv = some last) (taken : Takes host (endpoint.world, endpoint.sinkfd) reached)
    (incomplete : Incomplete reached.2.rxbuf.unread) :
    (host.clock reached.1.reads < last + parsePacketTimeout * 1000 ->
      (parsePacket host endpoint.world endpoint.sinkfd).2.rxbuf.unread = reached.2.rxbuf.unread) ↔
      (host.clock reached.1.reads < last + parsePacketTimeout * 1000 ->
        transport.SameSecond last (host.clock reached.1.reads)) := by
  have stamped := Stamped.run run
  rcases parsePacket_takes taken stamped.valid stamped.size with ⟨same, valid, stamp⟩
  apply imp_congr_right
  intro _
  rw [same, parsePacket_incomplete host reached.1 valid incomplete, stamp, stamped.stamp, received]
  cases transport with
  | posix kind => exact Iff.rfl
  | stm32 =>
      rw [Transport.stamp, Nat.zero_div, Nat.le_zero]
      exact Iff.rfl

/-- The visit of `apibus_poll` to a sinkfd with unread bytes is such a parse. -/
theorem visitSinkfd_turns {host : Host} {transport : Transport} {world after : World} {sinkfd left : SinkFd}
    (visited : visitSinkfd host world sinkfd = (after, some left)) (lastRecv : Option Nat) :
    Relation.ReflTransGen (Turn host transport) ⟨world, sinkfd, lastRecv⟩ ⟨after, left, lastRecv⟩ := by
  have counted : (countReceived world sinkfd).reads = world.reads := by
    unfold countReceived
    split <;> rfl
  have count : Turn host transport ⟨world, sinkfd, lastRecv⟩ ⟨countReceived world sinkfd, sinkfd, lastRecv⟩ :=
    .elsewhere (Nat.le_of_eq counted.symm)
  unfold visitSinkfd at visited
  split at visited
  · cases visited
    exact .refl
  · split at visited
    · cases visited
      exact .single count
    · cases visited
      exact .tail (.single count) .parsed

/-- The beginning of a written packet is an incomplete packet. -/
theorem incomplete_written (written : WrittenPacket) {count : Nat} (some_bytes : 0 < count)
    (cut : count < written.call.text.length) : Incomplete (written.call.text.take count) where
  nonempty := by
    apply List.ne_nil_of_length_pos
    rw [List.length_take]
    omega
  pending := fun beyond behind => written.read_take cut beyond behind
  completes := by
    refine ⟨written.call.text.drop count ++ [0], written.pac, ?_, ?_⟩
    · rw [written.len_toNat, written.raw_eq, List.length_append, List.length_take]
      omega
    · intro beyond behind
      have whole : written.call.text.take count ++ (written.call.text.drop count ++ [0]) = written.pac.raw := by
        rw [← List.append_assoc, List.take_append_drop, written.raw_eq]
      rw [whole]
      exact written.read_raw beyond behind

/-- A sinkfd that is ready and not a listener can receive any bytes that leave
it spare room. -/
theorem receive_turn (host : Host) {world : World} {sinkfd : SinkFd} {bytes : List UInt8} (lastRecv : Option Nat)
    (running : world.stopped = none) (accepted : sinkfd.listen = false) (valid : sinkfd.rxbuf.Valid)
    (some_bytes : bytes ≠ []) (room : bytes.length < atbufSpare sinkfd.rxbuf) :
    ∃ rxbuf : Atbuf, rxbuf.unread = sinkfd.rxbuf.unread ++ bytes ∧
      Turn host (.posix sinkfd.sink) ⟨world, sinkfd, lastRecv⟩
        ⟨world.tick, { sinkfd with rxbuf := rxbuf, tsPollRecv := world.timeofday host },
          some (world.timeofday host)⟩ := by
  have inside : sinkfd.rxbuf.offsetIn + bytes.length < atbufSize sinkfd.rxbuf := by
    unfold atbufSpare at room
    omega
  rcases atbufFill_writeAdvance valid.ordered bytes inside with ⟨filled, advanced, _, joined, _⟩
  have whole : bytes.take (atbufSpare sinkfd.rxbuf) = bytes := List.take_of_length_le (Nat.le_of_lt room)
  have visited : Transport.visit host ⟨fun _ => none, fun _ => none, fun _ => some bytes⟩ (.posix sinkfd.sink)
      ⟨world, [sinkfd.fd.num], 1, []⟩ sinkfd =
        (⟨world.tick, [sinkfd.fd.num], 0, []⟩,
          some { sinkfd with rxbuf := filled, tsPollRecv := world.timeofday host }) := by
    simp [Transport.visit, visitReady, receiveFd, running, accepted, whole, some_bytes, advanced]
  have turn : Turn host (.posix sinkfd.sink) ⟨world, sinkfd, lastRecv⟩
      ⟨world.tick, { sinkfd with rxbuf := filled, tsPollRecv := world.timeofday host },
        if bytes = [] then lastRecv else some (world.timeofday host)⟩ :=
    @Turn.polled host (.posix sinkfd.sink) ⟨world, sinkfd, lastRecv⟩ _ _ _ _ bytes rfl visited joined
  rw [if_neg some_bytes] at turn
  exact ⟨filled, joined, turn⟩

/-- A poll receives the first five bytes of `oneRequest`. -/
private theorem cut_run (host : Host) :
    ∃ endpoint, Relation.ReflTransGen (Turn host (.posix .unix)) (.opened apibusNew 4 false .unix) endpoint ∧
      endpoint.lastRecv = some (host.clock 0) ∧ endpoint.world.reads = 1 ∧
      Incomplete endpoint.sinkfd.rxbuf.unread ∧ endpoint.sinkfd.rxbuf.unread = oneRequest.take 5 := by
  have closed : oneRequest.take 5 ≠ [] ∧ (oneRequest.take 5).length < atbufSpare (atbufNew 0) ∧
      oneRequest.take 5 = oneWritten.call.text.take 5 ∧ 5 < oneWritten.call.text.length := by decide +kernel
  rcases closed with ⟨some_bytes, room, prefixed, shorter⟩
  rcases receive_turn host none (rfl : apibusNew.stopped = none) (rfl : (newSinkfd apibusNew 4 false .unix).listen = _)
    (atbufNew_valid 0) some_bytes room with ⟨rxbuf, joined, turn⟩
  have unread : rxbuf.unread = oneRequest.take 5 := joined.trans (by rw [newSinkfd, atbufNew_unread, List.nil_append])
  refine ⟨_, .single turn, rfl, rfl, ?_, unread⟩
  have incomplete := incomplete_written oneWritten (by decide) shorter
  rw [← prefixed, ← unread] at incomplete
  exact incomplete

theorem incomplete_kept_iff_cut :
    ∃ endpoint, Relation.ReflTransGen (Turn (Host.still 0) (.posix .unix)) (.opened apibusNew 4 false .unix) endpoint ∧
      (parsePacket (Host.still 0) endpoint.world endpoint.sinkfd).2.rxbuf.unread = oneRequest.take 5 := by
  rcases cut_run (Host.still 0) with ⟨endpoint, run, received, _, incomplete, unread⟩
  have soon : 0 < 0 + parsePacketTimeout * 1000 := by decide
  refine ⟨endpoint, run, ?_⟩
  rw [← unread]
  exact (incomplete_kept_iff run received .refl incomplete).mpr (fun _ => Nat.le_refl _) soon

/-- The clock at the first reading, and a tenth of a second later. -/
private def nextSecond : Host where
  clock := fun reading => if reading = 0 then 1900000 else 2000000
  nondecreasing := by
    intro earlier later order
    split
    · split <;> decide
    · rw [if_neg (by omega)]
  behindBuffer := fun _ _ => 0
  behindPacket := fun _ _ => 0

/-- A tenth of a second after it has received the beginning of a packet, a
sinkfd gives it up. -/
theorem nextSecond_not_kept : ¬ ∀ host transport, KeepsIncomplete host transport := by
  intro always
  rcases cut_run nextSecond with ⟨endpoint, run, received, reads, incomplete, _⟩
  have stamped := Stamped.run run
  have now : nextSecond.clock endpoint.world.reads = 2000000 := by
    rw [reads]
    rfl
  have soon : nextSecond.clock endpoint.world.reads < nextSecond.clock 0 + parsePacketTimeout * 1000 := by
    rw [now]
    decide
  have kept := always nextSecond (.posix .unix) apibusNew 4 false .unix endpoint _ (endpoint.world, endpoint.sinkfd)
    run received .refl incomplete soon
  have second := (parsePacket_incomplete nextSecond endpoint.world stamped.valid incomplete).mp kept
  rw [stamped.stamp, received, now] at second
  revert second
  decide

end Bus
end Extlib
