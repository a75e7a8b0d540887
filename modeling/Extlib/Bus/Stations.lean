import Extlib.Bus.Routing
import Extlib.Bus.Steps

namespace Extlib
namespace Bus

open Text Srrp Machine World

/-!
# The table of stations

A request puts its sender into the table or shows that it is alive, a response
shows that the station in its header is alive, and the last handler of a poll
drops the stations that have been silent for too long.  Beside a run goes the
log of what was handled and when.  The table has one entry for each id, every
entry carries the time of something in the log, and an id that has sent a
request is in the table unless that was too long ago.
-/

/-- What is handled, as far as the stations are concerned: the id that it shows
to be alive, and the reading of the clock. -/
inductive Activity where
  | request (sttid : UInt16) (time : Nat)
  | response (sttid : UInt16) (time : Nat)
  deriving DecidableEq, Repr

namespace Activity

def sttid : Activity -> UInt16
  | request sttid _ => sttid
  | response sttid _ => sttid

def time : Activity -> Nat
  | request _ time => time
  | response _ time => time

end Activity

section Log

variable (host : Host)

/-- A request that waits for its response has been handled before. -/
def requestActivity (world : World) (req : ApiRequest) : List Activity :=
  if req.state = .waitResponse then [] else [.request req.pac.srcid (world.time host)]

def responseActivity (world : World) (resp : ApiResponse) : List Activity :=
  ((scanDstid resp.pac.header).map fun dstid => .response dstid (world.time host)).toList

def requestsActivity (world : World) : List Activity :=
  if world.stopped.isSome then []
  else sweepLog (visitRequest host) (requestActivity host) world world.bus.requests

def responsesActivity (world : World) : List Activity :=
  if world.stopped.isSome then []
  else sweepLog (visitResponse host) (responseActivity host) world world.bus.responses

def stepActivity (world : World) : BusInput -> List Activity
  | .poll input =>
      if world.stopped.isSome then []
      else
        let received := receivePhase host input world
        requestsActivity host received ++ responsesActivity host (unlessStopped (handleRequest host) received)
  | .openSink _ _ => []
  | .close _ => []

/-- What a run handles. -/
def runActivity : World -> List BusInput -> List Activity
  | _, [] => []
  | world, input :: inputs => stepActivity host world input ++ runActivity (busStep host world input) inputs

/-- The poll up to `clear_unalive_station`. -/
def beforeClearing (input : PollInput) (world : World) : World :=
  [handleRequest host, handleResponse host, handleTopicMsg].foldl
    (fun world handler => unlessStopped handler world) (receivePhase host input world)

/-- The clock as the last visit of `clear_unalive_station` reads it.  The first
reads `clearing.time host`. -/
def lastReading (clearing : World) : Nat :=
  host.clock (clearing.reads + (clearing.bus.stations.length - 1)) / 1000000

end Log

/-- The table after a pass of `clear_unalive_station`, by its first and its
last reading of the clock. -/
structure StationsKept (log : List Activity) (first last : Nat) (world : World) : Prop where
  alive : ∀ station ∈ world.bus.stations, ∃ activity ∈ log,
    activity.sttid = station.sttid ∧ first ≤ activity.time + apibusStationAliveTimeout / 1000
  present : ∀ sttid time, .request sttid time ∈ log -> last ≤ time + apibusStationAliveTimeout / 1000 ->
    Registered world sttid

/-- The invariant of table and log. -/
structure Tracked (host : Host) (log : List Activity) (world : World) : Prop where
  distinct : (world.bus.stations.map (·.sttid)).Nodup
  shown : ∀ station ∈ world.bus.stations, ∃ activity ∈ log,
    activity.sttid = station.sttid ∧ activity.time = station.tsAlive
  past : ∀ activity ∈ log, activity.time ≤ world.time host
  present : ∀ sttid time, .request sttid time ∈ log ->
    (∃ station ∈ world.bus.stations, station.sttid = sttid ∧ time ≤ station.tsAlive) ∨
      time + apibusStationAliveTimeout / 1000 < world.time host

namespace Tracked

variable {host : Host} {log : List Activity} {world before after : World}

theorem start (host : Host) : Tracked host [] apibusNew where
  distinct := List.nodup_nil
  shown := fun _ listed => absurd listed List.not_mem_nil
  past := fun _ noted => absurd noted List.not_mem_nil
  present := fun _ _ noted => absurd noted List.not_mem_nil

/-- What leaves the table alone. -/
theorem later (tracked : Tracked host log before) (stations : after.bus.stations = before.bus.stations)
    (reads : before.reads ≤ after.reads) : Tracked host log after := by
  have time := time_mono host reads
  constructor
  case distinct =>
    rw [stations]
    exact tracked.distinct
  case shown =>
    rw [stations]
    exact tracked.shown
  case past => exact fun activity noted => Nat.le_trans (tracked.past activity noted) time
  case present =>
    rw [stations]
    exact fun sttid since noted =>
      (tracked.present sttid since noted).imp_right fun long => Nat.lt_of_lt_of_le long time

/-- A response to an id that is not in the table. -/
theorem note (tracked : Tracked host log world) (sttid : UInt16) :
    Tracked host (log ++ [.response sttid (world.time host)]) world where
  distinct := tracked.distinct
  shown := by
    intro station listed
    rcases tracked.shown station listed with ⟨activity, noted, same⟩
    exact ⟨activity, List.mem_append_left _ noted, same⟩
  past := by
    intro activity noted
    rcases List.mem_append.mp noted with old | new
    · exact tracked.past activity old
    · rw [List.mem_singleton.mp new]
      exact Nat.le_refl _
  present := by
    intro other time noted
    rcases List.mem_append.mp noted with old | new
    · exact tracked.present other time old
    · exact absurd (List.mem_singleton.mp new) Activity.noConfusion

/-- A sender that is not in the table. -/
theorem add (tracked : Tracked host log world) {req : ApiRequest} (unknown : ¬ Registered world req.pac.srcid) :
    Tracked host (log ++ [.request req.pac.srcid (world.time host)]) (addStation host world req) := by
  have reading : world.time host ≤ (addStation host world req).time host := time_mono host (Nat.le_succ _)
  constructor
  case distinct =>
    rw [registered_iff] at unknown
    exact List.nodup_cons.mpr ⟨unknown, tracked.distinct⟩
  case shown =>
    intro station listed
    rcases List.mem_cons.mp listed with rfl | old
    · exact ⟨_, List.mem_append_right _ List.mem_cons_self, rfl, rfl⟩
    · rcases tracked.shown station old with ⟨activity, noted, same⟩
      exact ⟨activity, List.mem_append_left _ noted, same⟩
  case past =>
    intro activity noted
    rcases List.mem_append.mp noted with old | new
    · exact Nat.le_trans (tracked.past activity old) reading
    · rw [List.mem_singleton.mp new]
      exact reading
  case present =>
    intro sttid time noted
    rcases List.mem_append.mp noted with old | new
    · rcases tracked.present sttid time old with ⟨station, listed, same⟩ | long
      · exact Or.inl ⟨station, List.mem_cons_of_mem _ listed, same⟩
      · exact Or.inr (Nat.lt_of_lt_of_le long reading)
    · cases List.mem_singleton.mp new
      exact Or.inl ⟨_, List.mem_cons_self, rfl, Nat.le_refl _⟩

private theorem touchStation_stations (tracked : Tracked host log world) (sttid : UInt16) :
    (touchStation host world sttid).bus.stations =
      world.bus.stations.map fun station =>
        if station.sttid = sttid then { station with tsAlive := world.time host } else station :=
  modify_findIdx ApiStation.sttid sttid (fun station : ApiStation => { station with tsAlive := world.time host })
    tracked.distinct

/-- A sign of life of a station in the table. -/
theorem touch (tracked : Tracked host log world) (activity : Activity) (now : activity.time = world.time host)
    (known : Registered world activity.sttid) :
    Tracked host (log ++ [activity]) (touchStation host world activity.sttid) := by
  have reading : world.time host ≤ (touchStation host world activity.sttid).time host :=
    time_mono host (Nat.le_succ _)
  have table := touchStation_stations tracked activity.sttid
  -- an entry is found under the same id, and shows no earlier time
  have moved : ∀ station ∈ world.bus.stations,
      ∃ touched ∈ (touchStation host world activity.sttid).bus.stations, touched.sttid = station.sttid ∧
        station.tsAlive ≤ touched.tsAlive ∧ (station.sttid = activity.sttid -> touched.tsAlive = world.time host) := by
    intro station listed
    rw [table]
    refine ⟨_, List.mem_map.mpr ⟨station, listed, rfl⟩, ?_⟩
    split
    · rcases tracked.shown station listed with ⟨shown, noted, _, time⟩
      refine ⟨rfl, ?_, fun _ => rfl⟩
      rw [← time]
      exact tracked.past shown noted
    case isFalse other => exact ⟨rfl, Nat.le_refl _, fun same => absurd same other⟩
  constructor
  case distinct =>
    rw [touchStation_sttids]
    exact tracked.distinct
  case shown =>
    intro station listed
    rw [table] at listed
    rcases List.mem_map.mp listed with ⟨old, member, rfl⟩
    split
    case isTrue same => exact ⟨activity, List.mem_append_right _ List.mem_cons_self, same.symm, now⟩
    case isFalse other =>
      rcases tracked.shown old member with ⟨shown, noted, same⟩
      exact ⟨shown, List.mem_append_left _ noted, same⟩
  case past =>
    intro noted listed
    rcases List.mem_append.mp listed with old | new
    · exact Nat.le_trans (tracked.past noted old) reading
    · rw [List.mem_singleton.mp new, now]
      exact reading
  case present =>
    intro sttid time noted
    rcases List.mem_append.mp noted with old | new
    · rcases tracked.present sttid time old with ⟨station, listed, same, since⟩ | long
      · rcases moved station listed with ⟨touched, member, sameId, later, _⟩
        exact Or.inl ⟨touched, member, sameId.trans same, Nat.le_trans since later⟩
      · exact Or.inr (Nat.lt_of_lt_of_le long reading)
    · have here := List.mem_singleton.mp new
      rcases known with ⟨station, listed, same⟩
      rcases moved station listed with ⟨touched, member, sameId, _, alive⟩
      rw [← here] at same alive now
      refine Or.inl ⟨touched, member, sameId.trans same, ?_⟩
      rw [alive same]
      exact Nat.le_of_eq now

theorem registerSource (tracked : Tracked host log world) (req : ApiRequest) :
    Tracked host (log ++ [.request req.pac.srcid (world.time host)]) (registerSource host world req) := by
  unfold Bus.registerSource
  split
  case h_1 absent => exact tracked.add ((findStation_eq_none world req.pac.srcid).mp absent)
  case h_2 station found =>
    apply tracked.touch (.request req.pac.srcid (world.time host)) rfl
    exact findStation_registered found

theorem visitRequest (tracked : Tracked host log world) (req : ApiRequest) :
    Tracked host (log ++ requestActivity host world req) (visitRequest host world req).1 := by
  unfold Bus.visitRequest requestActivity
  split
  · rw [List.append_nil]
    split <;> exact tracked.later rfl (Nat.le_succ _)
  · have registered := tracked.registerSource req
    dsimp only
    split
    · exact registered.later rfl (Nat.le_refl _)
    · exact registered.later rfl (Nat.le_succ _)

theorem relayResponse_table (world : World) (resp : ApiResponse) :
    (relayResponse world resp).bus.stations = world.bus.stations ∧
      (relayResponse world resp).reads = world.reads := by
  rcases relayResponse_cases world resp with ⟨_, same⟩ | ⟨_, _, _, _, _, relayed⟩
  · rw [same]
    exact ⟨rfl, rfl⟩
  · rw [relayed]
    exact ⟨rfl, rfl⟩

theorem visitResponse (tracked : Tracked host log world) (resp : ApiResponse) :
    Tracked host (log ++ responseActivity host world resp) (visitResponse host world resp).1 := by
  have table := relayResponse_table world resp
  have relayed : Tracked host log (relayResponse world resp) := tracked.later table.1 (Nat.le_of_eq table.2.symm)
  have now : world.time host = (relayResponse world resp).time host := by
    rw [World.time, World.time, table.2]
  unfold Bus.visitResponse responseActivity touchDestination
  rw [now]
  cases scanDstid resp.pac.header with
  | none =>
      rw [Option.map_none, Option.toList_none, List.append_nil]
      exact relayed
  | some dstid =>
      rw [Option.map_some, Option.toList_some]
      dsimp only
      split
      · exact relayed.note dstid
      case h_2 station found =>
        apply relayed.touch (.response dstid _) rfl
        exact findStation_registered found

end Tracked

/-! ## The pass that drops the silent stations -/

section Clearing

variable {host : Host}

/-- A pass keeps entries as they are: those it keeps were alive at its first
reading, and those it drops were silent for too long at its last. -/
private theorem sweepStations (stations : List ApiStation) : ∀ world : World,
    (sweep (visitStation host) world stations).1.reads = world.reads + stations.length ∧
      (sweep (visitStation host) world stations).2.Sublist stations ∧
      (∀ station ∈ (sweep (visitStation host) world stations).2,
        world.time host ≤ station.tsAlive + apibusStationAliveTimeout / 1000) ∧
      ∀ station ∈ stations, station ∈ (sweep (visitStation host) world stations).2 ∨
        station.tsAlive + apibusStationAliveTimeout / 1000 <
          host.clock (world.reads + (stations.length - 1)) / 1000000 := by
  induction stations with
  | nil =>
      intro world
      exact ⟨rfl, List.Sublist.refl [], fun _ listed => absurd listed List.not_mem_nil,
        fun _ listed => absurd listed List.not_mem_nil⟩
  | cons station stations inductionHypothesis =>
      intro world
      have visited : (visitStation host world station).1 = world.tick := by
        unfold visitStation
        split <;> rfl
      rcases inductionHypothesis world.tick with ⟨reads, sublist, alive, dropped⟩
      rw [sweep_cons, visited]
      have earlier : world.time host ≤ world.tick.time host := time_mono host (Nat.le_succ _)
      have later : ∀ index, world.time host ≤ host.clock (world.reads + index) / 1000000 :=
        fun index => Nat.div_le_div_right (host.nondecreasing _ _ (Nat.le_add_right _ _))
      have count : (sweep (visitStation host) world.tick stations).1.reads =
          world.reads + (station :: stations).length := by
        rw [reads, List.length_cons]
        simp only [World.tick]
        omega
      -- the rest of the pass ends at the same reading
      have dropped : ∀ other ∈ stations, other ∈ (sweep (visitStation host) world.tick stations).2 ∨
          other.tsAlive + apibusStationAliveTimeout / 1000 < host.clock (world.reads + stations.length) / 1000000 := by
        intro other listed
        have some_station := List.length_pos_of_mem listed
        have same : world.tick.reads + (stations.length - 1) = world.reads + stations.length := by
          simp only [World.tick]
          omega
        rw [← same]
        exact dropped other listed
      by_cases silent : world.time host > station.tsAlive + apibusStationAliveTimeout / 1000
      · have gone : (visitStation host world station).2 = none := by rw [visitStation, if_pos silent]
        rw [gone, Option.toList_none, List.nil_append]
        refine ⟨count, sublist.cons station, fun other listed => Nat.le_trans earlier (alive other listed), ?_⟩
        intro other listed
        rcases List.mem_cons.mp listed with rfl | behind
        · exact Or.inr (Nat.lt_of_lt_of_le silent (later _))
        · exact dropped other behind
      · have kept : (visitStation host world station).2 = some station := by rw [visitStation, if_neg silent]
        rw [kept, Option.toList_some, List.singleton_append]
        refine ⟨count, sublist.cons_cons station, ?_, ?_⟩
        · intro other listed
          rcases List.mem_cons.mp listed with rfl | behind
          · exact Nat.le_of_not_lt silent
          · exact Nat.le_trans earlier (alive other behind)
        · intro other listed
          rcases List.mem_cons.mp listed with rfl | behind
          · exact Or.inl List.mem_cons_self
          · exact (dropped other behind).imp_left (List.mem_cons_of_mem _)

theorem clearUnaliveStation_sublist (host : Host) (world : World) :
    (clearUnaliveStation host world).bus.stations.Sublist world.bus.stations :=
  (sweepStations world.bus.stations world).2.1

/-- The pass over a table that agrees with the log. -/
theorem clearUnaliveStation_kept {log : List Activity} {clearing : World} (tracked : Tracked host log clearing) :
    Tracked host log (clearUnaliveStation host clearing) ∧
      StationsKept log (clearing.time host) (lastReading host clearing) (clearUnaliveStation host clearing) := by
  rcases sweepStations clearing.bus.stations clearing with ⟨reads, sublist, alive, dropped⟩
  have until_end : clearing.reads + (clearing.bus.stations.length - 1) ≤ (clearUnaliveStation host clearing).reads := by
    change _ ≤ (sweep (visitStation host) clearing clearing.bus.stations).1.reads
    rw [reads]
    omega
  have last : lastReading host clearing ≤ (clearUnaliveStation host clearing).time host :=
    Nat.div_le_div_right (host.nondecreasing _ _ until_end)
  have first : clearing.time host ≤ lastReading host clearing :=
    Nat.div_le_div_right (host.nondecreasing _ _ (Nat.le_add_right _ _))
  -- a sender is in the table, or was silent for too long at the last reading
  have present : ∀ sttid time, .request sttid time ∈ log ->
      (∃ station ∈ (clearUnaliveStation host clearing).bus.stations,
        station.sttid = sttid ∧ time ≤ station.tsAlive) ∨
      time + apibusStationAliveTimeout / 1000 < lastReading host clearing := by
    intro sttid time noted
    rcases tracked.present sttid time noted with ⟨station, listed, same, since⟩ | long
    · refine (dropped station listed).imp (fun left => ⟨station, left, same, since⟩) fun silent => ?_
      exact Nat.lt_of_le_of_lt (Nat.add_le_add_right since _) silent
    · exact Or.inr (Nat.lt_of_lt_of_le long first)
  constructor
  · constructor
    case distinct => exact tracked.distinct.sublist (sublist.map _)
    case shown => exact fun station listed => tracked.shown station (sublist.subset listed)
    case past => exact fun activity noted => Nat.le_trans (tracked.past activity noted) (Nat.le_trans first last)
    case present =>
      exact fun sttid time noted => (present sttid time noted).imp_right fun long => Nat.lt_of_lt_of_le long last
  · constructor
    case alive =>
      intro station listed
      rcases tracked.shown station (sublist.subset listed) with ⟨activity, noted, same, time⟩
      refine ⟨activity, noted, same, ?_⟩
      rw [time]
      exact alive station listed
    case present =>
      intro sttid time noted recent
      rcases present sttid time noted with ⟨station, listed, same, _⟩ | long
      · exact ⟨station, listed, same⟩
      · exact absurd recent (Nat.not_le_of_lt long)

end Clearing

/-! ## The runs -/

section Runs

variable {host : Host} {log : List Activity} {world before after : World}

private theorem sinkStep_table {handsOut : Nat -> Prop} (step : SinkStep handsOut before after) :
    after.bus.stations = before.bus.stations ∧ before.reads ≤ after.reads := by
  cases step with
  | quiet same => exact ⟨same.stations, same.reads⟩
  | opened num listen kind nfds allowed closed => cases kind <;> exact ⟨rfl, Nat.le_refl _⟩
  | destroyed front sinkfd back place => exact ⟨rfl, Nat.le_refl _⟩
  | closed front sinkfd back place => exact ⟨rfl, Nat.le_refl _⟩

private theorem parseStep_table (step : ParseStep host before after) :
    after.bus.stations = before.bus.stations ∧ before.reads ≤ after.reads := by
  cases step with
  | quiet same => exact ⟨same.stations, same.reads⟩
  | resync given left => exact ⟨rfl, Nat.le_refl _⟩
  | request sinkfd pac listed => exact ⟨rfl, Nat.le_succ _⟩
  | response sinkfd pac listed => exact ⟨rfl, Nat.le_refl _⟩
  | topicMsg sinkfd pac listed => exact ⟨rfl, Nat.le_refl _⟩

/-- The phases that do not touch the table. -/
private theorem steps_table {step : World -> World -> Prop}
    (table : ∀ first last, step first last -> last.bus.stations = first.bus.stations ∧ first.reads ≤ last.reads)
    (steps : Relation.ReflTransGen step before after) :
    after.bus.stations = before.bus.stations ∧ before.reads ≤ after.reads := by
  refine steps_invariant
    (fun state : World => state.bus.stations = before.bus.stations ∧ before.reads ≤ state.reads) ?_ steps
    ⟨rfl, Nat.le_refl _⟩
  intro first last step reached
  have here := table first last step
  exact ⟨here.1.trans reached.1, Nat.le_trans reached.2 here.2⟩

theorem receivePhase_table (host : Host) (input : PollInput) (world : World) :
    (receivePhase host input world).bus.stations = world.bus.stations ∧
      world.reads ≤ (receivePhase host input world).reads := by
  have polled := steps_table (fun _ _ => sinkStep_table) (sinkPhase_steps host input world)
  have parsed := steps_table (fun _ _ (step : ParseStep host _ _) => parseStep_table step)
    (receivePhase_steps input world)
  exact ⟨parsed.1.trans polled.1, Nat.le_trans polled.2 parsed.2⟩

theorem busStep_openSink_table (host : Host) (world : World) (kind : SinkKind) (answer : Option Nat) :
    (busStep host world (.openSink kind answer)).bus.stations = world.bus.stations ∧
      world.reads ≤ (busStep host world (.openSink kind answer)).reads :=
  steps_table (fun _ _ => sinkStep_table) (busStep_openSink_steps world kind answer)

theorem busStep_close_table (host : Host) (world : World) (num : Nat) :
    (busStep host world (.close num)).bus.stations = world.bus.stations ∧
      world.reads ≤ (busStep host world (.close num)).reads :=
  steps_table (fun _ _ => sinkStep_table) (busStep_close_steps world num)

theorem visitTopicMsg_table (world : World) (tmsg : ApiTopicMsg) :
    (visitTopicMsg world tmsg).1.bus.stations = world.bus.stations ∧
      (visitTopicMsg world tmsg).1.reads = world.reads := by
  rcases applyTopicMsg_effect world tmsg with ⟨topics, calls, stopped, applied, _⟩
  unfold visitTopicMsg
  split
  · exact ⟨rfl, rfl⟩
  · dsimp only
    rw [applied]
    split <;> exact ⟨rfl, rfl⟩

private theorem requestsActivity_tracked (tracked : Tracked host log world) :
    Tracked host (log ++ requestsActivity host world) (unlessStopped (handleRequest host) world) := by
  unfold requestsActivity unlessStopped
  split
  · rw [List.append_nil]
    exact tracked
  · have swept := sweepLog_invariant (fun world log => Tracked host log world)
      (fun _ _ pos holds => holds.visitRequest pos) world.bus.requests world log tracked
    exact swept.later rfl (Nat.le_refl _)

private theorem responsesActivity_tracked (tracked : Tracked host log world) :
    Tracked host (log ++ responsesActivity host world) (unlessStopped (handleResponse host) world) := by
  unfold responsesActivity unlessStopped
  split
  · rw [List.append_nil]
    exact tracked
  · have swept := sweepLog_invariant (fun world log => Tracked host log world)
      (fun _ _ pos holds => holds.visitResponse pos) world.bus.responses world log tracked
    exact swept.later rfl (Nat.le_refl _)

private theorem handleTopicMsg_tracked (tracked : Tracked host log world) :
    Tracked host log (unlessStopped handleTopicMsg world) := by
  apply unlessStopped_rule (Tracked host log)
  · exact tracked
  · have swept := sweep_state (Tracked host log)
      (fun state pos holds => holds.later (visitTopicMsg_table state pos).1
        (Nat.le_of_eq (visitTopicMsg_table state pos).2.symm)) world world.bus.topicMsgs tracked
    exact swept.later rfl (Nat.le_refl _)

/-- A poll up to the last handler. -/
theorem beforeClearing_tracked (input : PollInput) (running : world.stopped = none) (tracked : Tracked host log world) :
    Tracked host (log ++ stepActivity host world (.poll input)) (beforeClearing host input world) := by
  have table := receivePhase_table host input world
  have received := tracked.later table.1 table.2
  have handled := handleTopicMsg_tracked (responsesActivity_tracked (requestsActivity_tracked received))
  have alive : ¬ world.stopped.isSome = true := by simp [running]
  rw [List.append_assoc] at handled
  rw [stepActivity, if_neg alive]
  exact handled

theorem busStep_cleared (input : PollInput) (running : world.stopped = none) :
    busStep host world (.poll input) = unlessStopped (clearUnaliveStation host) (beforeClearing host input world) := by
  have alive : ¬ world.stopped.isSome = true := by simp [running]
  change unlessStopped (apibusPoll host input) world = _
  rw [unlessStopped, if_neg alive]
  rfl

theorem busStep_tracked (input : BusInput) (tracked : Tracked host log world) :
    Tracked host (log ++ stepActivity host world input) (busStep host world input) := by
  cases input with
  | poll input =>
      by_cases running : world.stopped = none
      · have handled := beforeClearing_tracked input running tracked
        rw [busStep_cleared input running]
        apply unlessStopped_rule (Tracked host (log ++ stepActivity host world (.poll input)))
        · exact handled
        · exact (clearUnaliveStation_kept handled).1
      · have stopped : world.stopped.isSome = true := Option.isSome_iff_ne_none.mpr running
        change Tracked host _ (unlessStopped (apibusPoll host input) world)
        rw [stepActivity, if_pos stopped, List.append_nil, unlessStopped, if_pos stopped]
        exact tracked
  | openSink kind answer =>
      rw [stepActivity, List.append_nil]
      have table := busStep_openSink_table host world kind answer
      exact tracked.later table.1 table.2
  | close num =>
      rw [stepActivity, List.append_nil]
      have table := busStep_close_table host world num
      exact tracked.later table.1 table.2

theorem busRun_tracked (inputs : List BusInput) : ∀ (world : World) (log : List Activity), Tracked host log world ->
    Tracked host (log ++ runActivity host world inputs) (busRun host world inputs) := by
  induction inputs with
  | nil =>
      intro world log tracked
      rw [runActivity, List.append_nil]
      exact tracked
  | cons input inputs inductionHypothesis =>
      intro world log tracked
      rw [runActivity, ← List.append_assoc]
      exact inductionHypothesis _ _ (busStep_tracked input tracked)

theorem runActivity_snoc (host : Host) (input : BusInput) (inputs : List BusInput) : ∀ world : World,
    runActivity host world (inputs ++ [input]) =
      runActivity host world inputs ++ stepActivity host (busRun host world inputs) input := by
  induction inputs with
  | nil => exact fun world => List.append_nil _
  | cons first inputs inductionHypothesis =>
      intro world
      rw [List.cons_append, runActivity, inductionHypothesis, ← List.append_assoc]
      rfl

theorem busRun_snoc (host : Host) (world : World) (inputs : List BusInput) (input : BusInput) :
    busRun host world (inputs ++ [input]) = busStep host (busRun host world inputs) input := by
  rw [busRun, List.foldl_append]
  rfl

/-- A poll that comes to its end leaves the table in order. -/
private theorem busStep_kept (input : PollInput) (tracked : Tracked host log world)
    (running : (busStep host world (.poll input)).stopped = none) :
    StationsKept (log ++ stepActivity host world (.poll input)) ((beforeClearing host input world).time host)
      (lastReading host (beforeClearing host input world)) (busStep host world (.poll input)) := by
  have started : world.stopped = none := by
    rcases busStep_poll host world input with same | ⟨started, _⟩
    · rw [same] at running
      exact running
    · exact started
  rw [busStep_cleared input started] at running ⊢
  have alive : ¬ (beforeClearing host input world).stopped.isSome = true := by
    intro stopped
    rw [unlessStopped, if_pos stopped] at running
    rw [running] at stopped
    cases stopped
  rw [unlessStopped, if_neg alive]
  exact (clearUnaliveStation_kept (beforeClearing_tracked input started tracked)).2

/-- A response changes no binding of an id to a descriptor. -/
theorem visitResponse_bindings (host : Host) (world : World) (resp : ApiResponse) :
    (visitResponse host world resp).1.bus.stations.map (fun station => (station.sttid, station.fd)) =
      world.bus.stations.map fun station => (station.sttid, station.fd) := by
  rw [visitResponse, ← (Tracked.relayResponse_table world resp).1]
  unfold touchDestination
  split
  · rfl
  · split
    · rfl
    · exact touchStation_map host _ _ _ fun _ _ => rfl

/-- The ids in the table are distinct in every run.  After a poll the table has
the stations that were handled within the time allowed and all that sent a
request within it, a response adds none, and the station a request is for is
looked up when its sender is in the table. -/
theorem station_table (host : Host) :
    (∀ inputs, ((busRun host apibusNew inputs).bus.stations.map (·.sttid)).Nodup) ∧
    (∀ inputs input, (busRun host apibusNew (inputs ++ [.poll input])).stopped = none ->
      StationsKept (runActivity host apibusNew (inputs ++ [.poll input]))
        ((beforeClearing host input (busRun host apibusNew inputs)).time host)
        (lastReading host (beforeClearing host input (busRun host apibusNew inputs)))
        (busRun host apibusNew (inputs ++ [.poll input]))) ∧
    (∀ world resp, (visitResponse host world resp).1.bus.stations.map (fun station => (station.sttid, station.fd)) =
      world.bus.stations.map fun station => (station.sttid, station.fd)) ∧
    ∀ world req, req.state = .none ->
      Registered (registerSource host world req) req.pac.srcid ∧
        (visitRequest host world req).1.trace = world.trace ++ [sendEvent world (scannedCall host world req)] := by
  refine ⟨?_, ?_, visitResponse_bindings host, ?_⟩
  · intro inputs
    exact (busRun_tracked inputs apibusNew [] (.start host)).distinct
  · intro inputs input running
    have tracked := busRun_tracked inputs apibusNew [] (.start host)
    rw [runActivity_snoc]
    rw [busRun_snoc] at running ⊢
    exact busStep_kept input tracked running
  · intro world req fresh
    exact ⟨(registerSource_registered world req req.pac.srcid).mpr (Or.inl rfl), visitRequest_fresh host world fresh⟩

/-- Station 1 sends a request. -/
theorem station_table_oneRequest : Registered (busRun (Host.still 0) apibusNew (oneReceive oneRequest)) 1 := by
  have running : (busRun (Host.still 0) apibusNew (oneReceive oneRequest)).stopped = none := by decide +kernel
  have handled : Activity.request 1 0 ∈ runActivity (Host.still 0) apibusNew (oneReceive oneRequest) := by
    decide +kernel
  have kept := (station_table (Host.still 0)).2.1 ((oneReceive oneRequest).take 2) _ running
  exact kept.present 1 0 handled (by decide)

end Runs

end Bus
end Extlib
