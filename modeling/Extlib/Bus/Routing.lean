import Extlib.Bus.EndToEnd

namespace Extlib
namespace Bus

open Text Srrp Machine World

/-!
# The station a request is for

A header names its station by the digits between the leading slash and the
next one.  `handle_request` reads the number with `sscanf`, which passes over
blanks, takes a sign, and does not say whether the second slash was there; the
`int` is then cut to the sixteen bits of an id.  A number that was meant is
read as it was meant.  What else goes through is another station's id, and the
request is forwarded there.
-/

/-- The text between the leading slash and the next one, or the end. -/
def firstComponent (header : CString) : Option (List UInt8) :=
  match header.chars with
  | 47 :: rest => some (rest.takeWhile (· != 47))
  | _ => none

/-- The id that the first component of a header writes in decimal digits. -/
def namedDstid (header : CString) : Option UInt16 :=
  (firstComponent header).bind fun digits =>
    if digits ≠ [] ∧ digits.all isDigit = true ∧ magnitude 10 decimalValue digits < 2 ^ 16 then
      some (UInt16.ofNat (magnitude 10 decimalValue digits))
    else none

/-- The call that is due for a request once its sender is registered. -/
def namedCall (host : Host) (world : World) (req : ApiRequest) : SendCall :=
  match (namedDstid req.pac.header).bind (findStation (registerSource host world req)) with
  | some dst => .forward req dst
  | none => .stationNotFound req

/-- For the request behind `before` the call that is due is made, and no other. -/
structure RoutedByName (host : Host) (world : World) (before : List ApiRequest) (req : ApiRequest) : Prop where
  sends : (handledUpTo host world (before ++ [req])).trace =
    (handledUpTo host world before).trace ++ [sendEvent world (namedCall host (handledUpTo host world before) req)]
  stays : (handledUpTo host world (before ++ [req])).trace <+: (handleRequest host world).trace

/-! ## Reading the number -/

private theorem takeWhile_split (rest : List UInt8) :
    ∃ behind, rest = rest.takeWhile (· != 47) ++ behind ∧ ∀ c ∈ behind.head?, isDigit c = false := by
  refine ⟨rest.dropWhile (· != 47), (List.takeWhile_append_dropWhile).symm, ?_⟩
  intro c first
  have stops := List.head?_dropWhile_not (· != (47 : UInt8)) rest
  rw [Option.mem_def.mp first] at stops
  have slash : c = 47 := by simpa using stops
  rw [slash]
  decide

/-- A name is read as it was meant. -/
theorem scanDstid_named {header : CString} {sttid : UInt16} (named : namedDstid header = some sttid) :
    scanDstid header = some sttid := by
  rcases Option.bind_eq_some_iff.mp named with ⟨digits, component, written⟩
  unfold firstComponent at component
  split at component
  case h_2 => cases component
  case h_1 rest place =>
    cases component
    split at written
    case isFalse => cases written
    case isTrue proper =>
      rcases proper with ⟨nonempty, decimal, small⟩
      rcases takeWhile_split rest with ⟨behind, split, stops⟩
      cases written
      apply scanDstid_digits (place.trans (congrArg (List.cons 47) split)) nonempty
        (List.all_eq_true.mp decimal) stops
      rw [UInt16.toNat_ofNat', Nat.mod_eq_of_lt small]

/-! ## Which stations are registered -/

section Stations

variable {host : Host}

theorem registered_iff (world : World) (sttid : UInt16) :
    Registered world sttid ↔ sttid ∈ world.bus.stations.map (·.sttid) :=
  List.mem_map.symm

/-- Registering the sender of a request adds its id and no other. -/
theorem registerSource_registered (world : World) (req : ApiRequest) (sttid : UInt16) :
    Registered (registerSource host world req) sttid ↔ sttid = req.pac.srcid ∨ Registered world sttid := by
  rw [registered_iff, registered_iff]
  unfold registerSource
  split
  · exact List.mem_cons
  case h_2 found =>
    rw [touchStation_sttids]
    refine ⟨Or.inr, ?_⟩
    rintro (rfl | listed)
    · exact (registered_iff world req.pac.srcid).mp (findStation_registered found)
    · exact listed

end Stations

/-! ## The call that is made -/

section Calls

variable {host : Host} {world : World}

/-- The call that `handle_request` makes for a request it has not handled. -/
def scannedCall (host : Host) (world : World) (req : ApiRequest) : SendCall :=
  match destination (registerSource host world req) req with
  | some dst => .forward req dst
  | none => .stationNotFound req

/-- A call after the sender was registered. -/
private theorem apibusSend_registered (req : ApiRequest) (call : SendCall) :
    (apibusSend (registerSource host world req) call).trace = world.trace ++ [sendEvent world call] := by
  rw [registerSource_frame]
  rfl

theorem visitRequest_fresh (host : Host) (world : World) {req : ApiRequest} (fresh : req.state = .none) :
    (visitRequest host world req).1.trace = world.trace ++ [sendEvent world (scannedCall host world req)] := by
  have unhandled : ¬ req.state = .waitResponse := by simp [fresh]
  unfold visitRequest scannedCall
  rw [if_neg unhandled]
  dsimp only
  cases destination (registerSource host world req) req with
  | none => exact apibusSend_registered req (.stationNotFound req)
  | some dst => exact apibusSend_registered req (.forward req dst)

/-- The two calls are one where the number was meant, or where the number that
was read is nobody's. -/
theorem namedCall_eq_iff (req : ApiRequest) :
    scannedCall host world req = namedCall host world req ↔
      (namedDstid req.pac.header).isSome ∨
        ∀ sttid ∈ scanDstid req.pac.header, sttid ≠ req.pac.srcid ∧ ¬ Registered world sttid := by
  unfold scannedCall namedCall destination
  cases named : namedDstid req.pac.header with
  | some sttid =>
      rw [scanDstid_named named]
      exact iff_of_true rfl (Or.inl rfl)
  | none =>
      have nobody : ((scanDstid req.pac.header).bind (findStation (registerSource host world req)) = none) ↔
          ∀ sttid ∈ scanDstid req.pac.header, sttid ≠ req.pac.srcid ∧ ¬ Registered world sttid := by
        rw [Option.bind_eq_none_iff]
        refine forall_congr' fun sttid => forall_congr' fun _ => ?_
        rw [findStation_eq_none, registerSource_registered, not_or]
      rw [← nobody, Option.bind_none, Option.isSome_none, Bool.false_eq_true, false_or]
      constructor
      · intro same
        split at same
        · cases same
        case h_2 unknown => exact unknown
      · intro unknown
        rw [unknown]

private theorem sendEvent_walked {after : World} (walked : Walked world after) (call : SendCall) :
    sendEvent after call = sendEvent world call := by
  simp only [sendEvent, findSinkfdInApibus, walked.sinkfds]

end Calls

theorem handledUpTo_trace_prefix {host : Host} {world : World} {before after : List ApiRequest} {req : ApiRequest}
    (place : world.bus.requests = before ++ req :: after) :
    (handledUpTo host world (before ++ [req])).trace <+: (handleRequest host world).trace := by
  have whole : handleRequest host world =
      (sweep (visitRequest host) (handledUpTo host world (before ++ [req])) after).1.setRequests
        (sweep (visitRequest host) world world.bus.requests).2 := by
    have split : before ++ req :: after = (before ++ [req]) ++ after := by
      rw [List.append_assoc, List.singleton_append]
    rw [handleRequest, place, split, sweep_append]
    rfl
  rw [whole]
  exact (sweepRequests_walked host (handledUpTo host world (before ++ [req])) after).trace

/-- A request goes to the station its header names and to no other, and one
that names none is answered so, exactly if the header names an id or the
number read from it is the id of no station and not that of the sender. -/
theorem handleRequest_routes_iff (host : Host) (world : World) (before : List ApiRequest) (req : ApiRequest)
    (after : List ApiRequest) (place : world.bus.requests = before ++ req :: after) (fresh : req.state = .none) :
    RoutedByName host world before req ↔
      (namedDstid req.pac.header).isSome ∨
        ∀ sttid ∈ scanDstid req.pac.header,
          sttid ≠ req.pac.srcid ∧ ¬ Registered (handledUpTo host world before) sttid := by
  have walked : Walked world (handledUpTo host world before) := sweepRequests_walked host world before
  have made := visitRequest_fresh host (handledUpTo host world before) fresh
  rw [← handledUpTo_snoc, sendEvent_walked walked] at made
  rw [← namedCall_eq_iff]
  constructor
  · intro routed
    have same := made.symm.trans routed.sends
    have event := List.append_cancel_left same
    simp only [sendEvent, List.cons.injEq, Event.send.injEq, and_true] at event
    exact event.1
  · intro same
    rw [same] at made
    exact ⟨made, handledUpTo_trace_prefix place⟩

/-- The requests the bus has read when a client has connected and sent `bytes`. -/
private def oneReading (bytes : List UInt8) : World :=
  receivePhase (Host.still 0) ⟨fun _ => some [4], fun _ => none, fun _ => some bytes⟩
    (busRun (Host.still 0) apibusNew ((oneReceive bytes).take 2))

/-- The only entry, with what holds of all. -/
theorem exists_single {Entry : Type} {entries : List Entry} {property : Entry -> Prop} (single : entries.length = 1)
    (all : ∀ entry ∈ entries, property entry) : ∃ entry, entries = [] ++ [entry] ∧ property entry := by
  rcases List.length_eq_one_iff.mp single with ⟨entry, rfl⟩
  exact ⟨entry, rfl, all entry (List.mem_singleton_self entry)⟩

theorem handleRequest_routes_oneRequest : ∃ req, (oneReading oneRequest).bus.requests = [] ++ [req] ∧
    RoutedByName (Host.still 0) (oneReading oneRequest) [] req := by
  have single : (oneReading oneRequest).bus.requests.length = 1 := by decide +kernel
  have named : ∀ req ∈ (oneReading oneRequest).bus.requests,
      req.state = .none ∧ (namedDstid req.pac.header).isSome = true := by decide +kernel
  rcases exists_single single named with ⟨req, place, fresh, name⟩
  exact ⟨req, place, (handleRequest_routes_iff (Host.still 0) _ [] req [] place fresh).mpr (Or.inl name)⟩

/-- A request of station 2 to a station 65538. -/
private def oneAlias : World := oneReading (ascii ">0,$,001b,0002:/65538/a?{}" ++ [0])

/-- It is sent to station 2. -/
theorem oneAlias_misrouted : ∃ req, oneAlias.bus.requests = [] ++ [req] ∧ req.state = .none ∧
    ¬ RoutedByName (Host.still 0) oneAlias [] req := by
  have single : oneAlias.bus.requests.length = 1 := by decide +kernel
  have forwarded : ∀ req ∈ oneAlias.bus.requests, req.state = .none ∧
      (handledUpTo (Host.still 0) oneAlias ([] ++ [req])).trace ≠ (handledUpTo (Host.still 0) oneAlias []).trace ++
        [sendEvent oneAlias (namedCall (Host.still 0) (handledUpTo (Host.still 0) oneAlias []) req)] := by
    decide +kernel
  rcases exists_single single forwarded with ⟨req, place, fresh, other⟩
  exact ⟨req, place, fresh, fun routed => other routed.sends⟩

end Bus
end Extlib
