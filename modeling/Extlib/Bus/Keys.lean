import Extlib.Bus.Authenticity
import Extlib.Checksum.Ccitt

namespace Extlib
namespace Bus

open Text Srrp Machine Checksum World Polynomial

/-!
# Requests with one checksum

Among the requests of one sender with one header only the checksum tells which
of them a response is for.  It is the remainder of header and data, so that
two requests are taken for one another exactly when the polynomial divides
their difference, and never when they differ in one short stretch.
-/

/-- What `parse_packet` takes the checksum over. -/
def coveredBytes (host : Host) (req : ApiRequest) : List UInt8 :=
  headerBytes req.pac ++ req.pac.dataBytes (host.behindPacket req.node)

noncomputable def coveredPoly (host : Host) (req : ApiRequest) : (ZMod 2)[X] :=
  bitsPoly (bytesBits (coveredBytes host req))

/-- A request carries the checksum of its bytes. -/
def KeyOf (host : Host) (req : ApiRequest) : Prop := req.crc16 = crc16 (coveredBytes host req)

theorem newRequest_keyOf (host : Host) (world : World) (fd : Fd) (pac : SrrpPacket) :
    KeyOf host (newRequest host world fd pac) :=
  (crc16_append _ _).symm

/-- The pending requests do, and all that the trace names. -/
structure Keyed (host : Host) (world : World) : Prop where
  pending : ∀ req ∈ world.bus.requests, KeyOf host req
  done : ∀ deed ∈ world.trace.filterMap deedOf, KeyOf host deed.req

section Steps

variable {host : Host} {before after : World}

/-- A step keeps the keys if it lists and names no other requests. -/
private theorem Keyed.frame (keyed : Keyed host before) (events : List Event)
    (trace : after.trace = before.trace ++ events)
    (listed : ∀ req ∈ after.bus.requests, req ∈ before.bus.requests)
    (named : ∀ event ∈ events, ∀ deed, deedOf event = some deed -> KeyOf host deed.req) : Keyed host after where
  pending := fun req member => keyed.pending req (listed req member)
  done := by
    intro deed member
    rw [trace, List.filterMap_append, List.mem_append] at member
    rcases member with old | new
    · exact keyed.done deed old
    · rcases List.mem_filterMap.mp new with ⟨event, found, same⟩
      exact named event found deed same

private theorem Keyed.silent (keyed : Keyed host before) (events : List Event)
    (trace : after.trace = before.trace ++ events) (requests : after.bus.requests = before.bus.requests)
    (silent : ∀ event ∈ events, deedOf event = none) : Keyed host after :=
  keyed.frame events trace (fun _ member => requests ▸ member) fun event found deed same => by
    rw [silent event found] at same
    cases same

private theorem Keyed.quiet (keyed : Keyed host before) (same : Quiet before after) : Keyed host after :=
  keyed.silent [] (same.trace.trans (List.append_nil _).symm) same.requests (by simp)

theorem Keyed.sinkStep {handsOut : Nat -> Prop} (step : SinkStep handsOut before after)
    (keyed : Keyed host before) : Keyed host after := by
  cases step with
  | quiet same => exact keyed.quiet same
  | opened num listen kind nfds allowed closed => cases kind <;> exact keyed.silent [_] rfl rfl (by simp [deedOf])
  | destroyed front sinkfd back place => exact ⟨keyed.pending, keyed.done⟩
  | closed front sinkfd back place => exact keyed.silent [_] rfl rfl (by simp [deedOf])

theorem Keyed.parseStep (step : ParseStep host before after) (keyed : Keyed host before) : Keyed host after := by
  cases step with
  | quiet same => exact keyed.quiet same
  | resync given left => exact keyed.silent [_] rfl rfl (by simp [deedOf])
  | request sinkfd pac listed =>
      have fresh := newRequest_keyOf host before sinkfd.fd pac
      constructor
      · intro req member
        rcases List.mem_cons.mp member with rfl | old
        · exact fresh
        · exact keyed.pending req old
      · intro deed member
        change deed ∈ (before.trace ++ [_]).filterMap deedOf at member
        rw [List.filterMap_append, List.mem_append] at member
        rcases member with old | new
        · exact keyed.done deed old
        · cases List.mem_singleton.mp new
          exact fresh
  | response sinkfd pac listed => exact keyed.silent [_] rfl rfl (by simp [deedOf])
  | topicMsg sinkfd pac listed => exact keyed.silent [_] rfl rfl (by simp [deedOf])

theorem Keyed.handleStep (step : HandleStep host before after) (keyed : Keyed host before) :
    Keyed host after := by
  have middle : ∀ {front back : List ApiRequest} {req : ApiRequest},
      before.bus.requests = front ++ req :: back ->
      KeyOf host req ∧ ∀ other ∈ front ++ back, other ∈ before.bus.requests := by
    intro front back req place
    refine ⟨keyed.pending req (by rw [place]; simp), ?_⟩
    intro other member
    rw [place]
    simp only [List.mem_append, List.mem_cons] at member ⊢
    tauto
  have named : ∀ {call : SendCall} {sentTo : Option Fd} {req : ApiRequest} {kind : DeedKind}, KeyOf host req ->
      deedOf (.send call sentTo) = some ⟨kind, asReceived req⟩ ->
      ∀ event ∈ [Event.send call sentTo], ∀ deed, deedOf event = some deed -> KeyOf host deed.req := by
    intro call sentTo req kind key deed event member other same
    rw [List.mem_singleton.mp member, deed] at same
    cases same
    exact key
  cases step with
  | quiet same => exact keyed.quiet same
  | timeout front req back place waiting late =>
      exact keyed.frame [_] rfl (middle place).2 (named (middle place).1 rfl)
  | notFound front req back place fresh unknown =>
      rw [registerSource_frame]
      exact keyed.frame [_] rfl (middle place).2 (named (middle place).1 rfl)
  | forward front req back dst place fresh known =>
      rw [registerSource_frame]
      have sent : Keyed host (apibusSend before (.forward req dst)) :=
        keyed.frame [_] rfl (fun _ member => member) (named (middle place).1 rfl)
      refine ⟨?_, sent.done⟩
      intro other member
      rcases List.mem_append.mp member with early | late
      · exact keyed.pending other ((middle place).2 other (List.mem_append_left _ early))
      · rcases List.mem_cons.mp late with rfl | late
        · exact (middle place).1
        · exact keyed.pending other ((middle place).2 other (List.mem_append_right _ late))
  | response front resp back place waiting =>
      rcases touchDestination_frame host (relayResponse before resp) resp with ⟨reads, stations, touched⟩
      rw [touched]
      rcases relayResponse_cases before resp with ⟨_, same⟩ | ⟨early, req, late, found, _, relayed⟩
      · rw [same]
        exact ⟨keyed.pending, keyed.done⟩
      · rw [relayed]
        exact keyed.frame [_] rfl (middle found).2 (named (middle found).1 rfl)
  | topicMsg front tmsg back place applied =>
      rcases applyTopicMsg_effect before tmsg with ⟨topics, calls, stopped, effect, _, _, allowed⟩
      rw [effect]
      refine keyed.silent _ (List.append_assoc _ _ _) rfl ?_
      intro event member
      rcases List.mem_append.mp member with sent | handled
      · rcases List.mem_map.mp sent with ⟨call, listed, rfl⟩
        rcases (allowed call listed).1 with rfl | rfl | ⟨fd, rfl⟩ <;> rfl
      · rw [List.mem_singleton.mp handled]
        rfl
  | dropStation front station back place unalive => exact ⟨keyed.pending, keyed.done⟩

end Steps

theorem busRun_keyed (host : Host) (inputs : List BusInput) : Keyed host (busRun host apibusNew inputs) :=
  busRun_invariant (Keyed host) (fun _ _ _ step => Keyed.sinkStep step) (fun _ _ step => Keyed.parseStep step)
    (fun _ _ step => Keyed.handleStep step) inputs apibusNew
    ⟨fun _ member => absurd member List.not_mem_nil, fun _ member => absurd member List.not_mem_nil⟩

/-! ## What a response tells apart -/

section Relays

variable {host : Host} {inputs : List BusInput} {resp : ApiResponse} {req other : ApiRequest} {sentTo : Option Fd}

/-- Both requests carry their checksums, and the response that of the first. -/
private theorem relayed_keys (relayed : .send (.relay resp req) sentTo ∈ (busRun host apibusNew inputs).trace)
    (received : .receivedRequest other ∈ (busRun host apibusNew inputs).trace) :
    answers resp req = true ∧ KeyOf host req ∧ KeyOf host other := by
  have keyed := busRun_keyed host inputs
  exact ⟨busRun_matching host inputs (resp, req) (List.mem_filterMap.mpr ⟨_, relayed, rfl⟩),
    keyed.done _ (List.mem_filterMap.mpr ⟨_, relayed, rfl⟩),
    keyed.done _ (List.mem_filterMap.mpr ⟨_, received, rfl⟩)⟩

private def requestOf : Event -> Option ApiRequest
  | .receivedRequest req => some req
  | _ => none

/-- Client 5 is station 2.  Client 4 sends it three requests that differ only in
their data, and it answers with the checksum of the first. -/
private def alike : List BusInput :=
  [.openSink .unix (some 3), oneAccept 4, oneAccept 5, oneSend 5 (ascii ">0,$,0017,0002:/9/a?{}" ++ [0]),
    oneSend 4 (ascii ">0,$,001a,0001:/2/a?{0ab}" ++ [0]), oneSend 4 (ascii ">0,$,001a,0001:/2/a?{1qD}" ++ [0]),
    oneSend 4 (ascii ">0,$,001a,0001:/2/a?{1qC}" ++ [0]), oneSend 5 (ascii "<0,$,001d,0001,bbcc:/2/a?{x}" ++ [0])]

/-- The two requests have the same sender and header. -/
def SameCaller (req other : ApiRequest) : Prop :=
  other.pac.header = req.pac.header ∧ other.pac.srcid = req.pac.srcid

instance (req other : ApiRequest) : Decidable (SameCaller req other) :=
  inferInstanceAs (Decidable (_ ∧ _))

private theorem exists_relay (trace : List Event) (property : ApiResponse × ApiRequest -> ApiRequest -> Prop)
    (found : ∃ relayed ∈ trace.filterMap relayOf, ∃ other ∈ trace.filterMap requestOf, property relayed other) :
    ∃ resp req sentTo other, .send (.relay resp req) sentTo ∈ trace ∧ .receivedRequest other ∈ trace ∧
      property (resp, req) other := by
  rcases found with ⟨⟨resp, req⟩, listed, other, named, holds⟩
  rcases List.mem_filterMap.mp listed with ⟨event, occurred, relay⟩
  rcases List.mem_filterMap.mp named with ⟨otherEvent, otherOccurred, request⟩
  unfold relayOf at relay
  unfold requestOf at request
  split at relay <;> cases relay
  split at request <;> cases request
  exact ⟨resp, req, _, other, occurred, otherOccurred, holds⟩

/-- A response that was relayed for one request answers another that the bus
has received exactly when that has the same sender and header and the
polynomial divides the difference of the two. -/
theorem relayed_answers_iff (relayed : .send (.relay resp req) sentTo ∈ (busRun host apibusNew inputs).trace)
    (received : .receivedRequest other ∈ (busRun host apibusNew inputs).trace) :
    answers resp other = true ↔
      other.pac.header = req.pac.header ∧ other.pac.srcid = req.pac.srcid ∧
        (X ^ 16 + X ^ 12 + X ^ 5 + 1) ∣ coveredPoly host other - coveredPoly host req := by
  rcases relayed_keys relayed received with ⟨answered, key, otherKey⟩
  simp only [answers, decide_eq_true_eq] at answered ⊢
  rw [← divisor_ccittTaps, coveredPoly, coveredPoly, ← crc16_eq_crc16_iff, ← key, ← otherKey, answered.1,
    answered.2.1, answered.2.2]
  exact ⟨fun agree => ⟨agree.2.1, agree.2.2, agree.1⟩, fun agree => ⟨agree.2.2, agree.1, agree.2.1⟩⟩

/-- The checksums of `{0ab}` and `{1qC}` agree, so that the response to the
first is relayed for the last. -/
theorem relayed_answers_iff_alike : ∃ resp req sentTo other,
    .send (.relay resp req) sentTo ∈ (busRun (Host.still 0) apibusNew alike).trace ∧
    .receivedRequest other ∈ (busRun (Host.still 0) apibusNew alike).trace ∧ SameCaller req other ∧
    coveredBytes (Host.still 0) other ≠ coveredBytes (Host.still 0) req ∧ answers resp other = true ∧
    (X ^ 16 + X ^ 12 + X ^ 5 + 1) ∣ coveredPoly (Host.still 0) other - coveredPoly (Host.still 0) req := by
  rcases exists_relay (busRun (Host.still 0) apibusNew alike).trace
    (fun relayed other => SameCaller relayed.2 other ∧
      coveredBytes (Host.still 0) other ≠ coveredBytes (Host.still 0) relayed.2 ∧ answers relayed.1 other = true)
    (by decide +kernel) with ⟨resp, req, sentTo, other, relayed, received, caller, differ, answered⟩
  exact ⟨resp, req, sentTo, other, relayed, received, caller, differ, answered,
    ((relayed_answers_iff relayed received).mp answered).2.2⟩

/-- A response that was relayed for one request answers no other that differs
from it within sixteen successive bits, or in an odd number of bits. -/
theorem relayed_separates (relayed : .send (.relay resp req) sentTo ∈ (busRun host apibusNew inputs).trace)
    (received : .receivedRequest other ∈ (busRun host apibusNew inputs).trace)
    (close : Burst 16 (bytesBits (coveredBytes host other)) (bytesBits (coveredBytes host req)) ∨
      (bytesBits (coveredBytes host other)).count true % 2 ≠ (bytesBits (coveredBytes host req)).count true % 2) :
    answers resp other = false := by
  rcases relayed_keys relayed received with ⟨answered, key, otherKey⟩
  rw [← Bool.not_eq_true]
  intro confused
  simp only [answers, decide_eq_true_eq] at answered confused
  have equal : crc16 (coveredBytes host other) = crc16 (coveredBytes host req) := by
    rw [← key, ← otherKey, answered.1, confused.1]
  rw [crc16_eq_crc16_iff] at equal
  rcases close with burst | odd
  · exact burst.not_dvd (by decide) (by decide) equal
  · exact odd (parity_of_dvd eval_divisor_ccittTaps equal)

theorem relayed_separates_alike : ∃ resp req sentTo other,
    .send (.relay resp req) sentTo ∈ (busRun (Host.still 0) apibusNew alike).trace ∧
    .receivedRequest other ∈ (busRun (Host.still 0) apibusNew alike).trace ∧ SameCaller req other ∧
    answers resp other = false := by
  rcases exists_relay (busRun (Host.still 0) apibusNew alike).trace
    (fun relayed other => SameCaller relayed.2 other ∧ coveredBytes (Host.still 0) relayed.2 = ascii "/2/a{1qC}" ∧
      coveredBytes (Host.still 0) other = ascii "/2/a{1qD}")
    (by decide +kernel) with ⟨resp, req, sentTo, other, relayed, received, caller, covered, otherCovered⟩
  refine ⟨resp, req, sentTo, other, relayed, received, caller, relayed_separates relayed received (Or.inl ?_)⟩
  -- the byte `'C'` against `'D'`
  rw [covered, otherCovered]
  exact ⟨bytesBits (ascii "/2/a\x7b1q"), byteBits 68, byteBits 67, byteBits 125, by decide, by decide, by decide,
    by decide, by decide⟩

end Relays

end Bus
end Extlib
