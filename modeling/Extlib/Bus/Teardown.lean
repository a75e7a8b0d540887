import Extlib.Bus.InMemory

namespace Extlib
namespace Bus
namespace InMemory

open Machine Memory LinkedLists

/-!
# The end of the bus

`apibus_destroy`, `apibus_disable_posix` and `apisink_fini`.  Each of them
destroys the sinkfds it finds, along the list of the bus or those of the sinks,
so that whichever comes first leaves nothing for the other.
-/

/-! ## Functions -/

/-- The requests, responses, stations, topics and their messages are freed. -/
def freeMessages (world : World) : World :=
  ((((world.setRequests []).setResponses []).setStations []).setTopicMsgs []).setTopics []

/-- The body of the loops that destroy sinkfds. -/
def destroyEntry (entry : Place -> Option Nat) (pos : Place) (memory : BusMemory) : Option BusMemory := do
  let id <- entry pos
  sinkfdDestroy id memory

def apisinkFini (kind : SinkKind) (memory : BusMemory) : Option BusMemory := do
  let memory <- forEachSafe BusMemory.links (.sinkSinkfds kind) (destroyEntry nodeSinkEntry) (rounds memory) memory
  if memory.attached kind then apibusDelSink kind memory else some memory

def apibusDisablePosix (memory : BusMemory) : Option BusMemory :=
  [SinkKind.unix, .tcp, .serial].foldlM (fun memory kind => do
    let memory <- apibusDelSink kind memory
    apisinkFini kind memory) memory

/-- The body of the loop over the sinks in `apibus_destroy`. -/
def endSink (pos : Place) (memory : BusMemory) : Option BusMemory := do
  let kind <- sinkEntry pos
  let memory <- apibusDelSink kind memory
  apisinkFini kind memory

def apibusDestroy (memory : BusMemory) : Option BusMemory := do
  let memory := { memory with world := freeMessages memory.world }
  let memory <- forEachSafe BusMemory.links .sinkfds (destroyEntry nodeBusEntry) (rounds memory) memory
  let memory <- forEachSafe BusMemory.links .sinks endSink 4 memory
  let links <- free .sinkfds memory.links
  let links <- free .sinks links
  some { memory with links := links }

/-! ## What they leave -/

section Leaving

variable {memory : BusMemory} {alive : Bool} {sinks : List SinkKind} {sinkfds : List SinkFd}

/-- A bus has each sink on its list once. -/
theorem Placed.sinks_nodup (placed : Placed memory ⟨true, sinks, sinkfds⟩) : sinks.Nodup := by
  have ring : memory.links.Ring .sinks (sinks.map .sinkNode) := placed.rings.ring _ _ rfl
  exact (List.nodup_cons.mp ring.distinct).2.of_map _

/-- The table without a sink on the list of the bus. -/
theorem placeTable_delSink {kind : SinkKind} (distinct : sinks.Nodup) (sinkfds : List SinkFd) :
    Function.update ((placeTable ⟨true, sinks, sinkfds⟩).detach (.sinkNode kind)) (.sinkNode kind) (some []) =
      placeTable ⟨true, sinks.erase kind, sinkfds⟩ := by
  funext place
  cases place with
  | sinks =>
      have erased := List.map_erase (fun _ _ => Place.sinkNode.inj) (a := kind) sinks
      rw [Function.update_of_ne Place.noConfusion, RingTable.detach, if_neg Place.noConfusion]
      exact congrArg some erased.symm
  | sinkNode other =>
      by_cases own : other = kind
      · rw [own, Function.update_self, placeTable, if_neg distinct.not_mem_erase]
      · have different : Place.sinkNode other ≠ .sinkNode kind := fun same => own (Place.sinkNode.inj same)
        rw [Function.update_of_ne different, RingTable.detach, if_neg different, placeTable, placeTable]
        simp only [List.mem_erase_of_ne own]
        split <;> rfl
  | sinkfds => simp [RingTable.detach, placeTable, List.erase_of_not_mem]
  | sinkSinkfds other => simp [RingTable.detach, placeTable, List.erase_of_not_mem]
  | _ => simp [RingTable.detach, placeTable]

/-- A sink is taken off the list of the bus, or was on none. -/
theorem Placed.apibusDelSink (placed : Placed memory ⟨alive, sinks, sinkfds⟩) {kind : SinkKind}
    (usable : alive = true ∨ kind ∉ sinks) :
    ∃ after, apibusDelSink kind memory = some after ∧ after.world = memory.world ∧
      Placed after ⟨alive, sinks.erase kind, sinkfds⟩ := by
  by_cases inside : kind ∈ sinks
  · have there : alive = true := usable.resolve_right (not_not_intro inside)
    subst there
    have distinct := placed.sinks_nodup
    have linked : (placeTable ⟨true, sinks, sinkfds⟩).Linked (.sinkNode kind) :=
      ⟨.sinks, _, rfl, List.mem_map.mpr ⟨kind, inside, rfl⟩⟩
    rcases listDelInit_represents placed.rings (Or.inl linked) with ⟨links, deletes, rings, same⟩
    rw [placeTable_delSink distinct] at rings
    refine ⟨{ memory with links := links, attached := Function.update memory.attached kind false },
      by rw [InMemory.apibusDelSink, deletes]; rfl, rfl, rings, ?_, placed.cells, ?_, placed.distinct, placed.older⟩
    · refine same.trans (placed.live.trans ?_)
      funext place
      cases place <;> rfl
    · intro other
      dsimp only
      by_cases own : other = kind
      · rw [own, Function.update_self, decide_eq_false distinct.not_mem_erase]
      · rw [Function.update_of_ne own, placed.attached]
        simp only [List.mem_erase_of_ne own]
  · have alone : placeTable ⟨alive, sinks, sinkfds⟩ (.sinkNode kind) = some [] := if_neg inside
    rcases listDelInit_represents placed.rings (Or.inr alone) with ⟨links, deletes, rings, same⟩
    rw [placed.rings.detach_alone alone, Function.update_idem, ← alone, Function.update_eq_self] at rings
    rw [List.erase_of_not_mem inside]
    refine ⟨{ memory with links := links, attached := Function.update memory.attached kind false },
      by rw [InMemory.apibusDelSink, deletes]; rfl, rfl, rings, same.trans placed.live, placed.cells, ?_,
      placed.distinct, placed.older⟩
    intro other
    dsimp only
    by_cases own : other = kind
    · rw [own, Function.update_self, decide_eq_false inside]
    · rw [Function.update_of_ne own, placed.attached]

/-- What remains when the sinkfds of a sink are gone. -/
def without (kind : SinkKind) (sinkfds : List SinkFd) : List SinkFd := sinkfds.filter (·.sink ≠ kind)

/-- The loop of `apisink_fini`. -/
theorem Placed.destroySinkfds (placed : Placed memory ⟨alive, sinks, sinkfds⟩) (kind : SinkKind)
    (usable : alive = true ∨ sinkfds = []) :
    ∃ after, forEachSafe BusMemory.links (.sinkSinkfds kind) (destroyEntry nodeSinkEntry) (rounds memory) memory =
        some after ∧
      after.world = memory.world ∧ Placed after ⟨alive, sinks, without kind sinkfds⟩ := by
  have walked : ∃ after, forEachSafe BusMemory.links (.sinkSinkfds kind) (destroyEntry nodeSinkEntry) (rounds memory)
      memory = some after ∧ ∃ left, after.world = memory.world ∧ Placed after ⟨alive, sinks, left⟩ ∧
        without kind left = without kind sinkfds ∧ (alive = true ∨ left = []) ∧
          (left.filter (·.sink = kind)).map (fun sinkfd => Place.nodeSink sinkfd.fd.conn) = [] := by
    refine forEachSafe_rule (fun rest state => ∃ left, state.world = memory.world ∧ Placed state ⟨alive, sinks, left⟩ ∧
      without kind left = without kind sinkfds ∧ (alive = true ∨ left = []) ∧
        (left.filter (·.sink = kind)).map (fun sinkfd => Place.nodeSink sinkfd.fd.conn) = rest) ?_ ?_
      ⟨sinkfds, rfl, placed, rfl, usable, rfl⟩ (placed.ringOfSink kind) ?_
    · rintro rest state ⟨left, _, still, _, _, rfl⟩
      exact ⟨[], still.ringOfSink kind⟩
    · rintro pos rest state ⟨left, same, still, others, either, split⟩
      rcases List.map_eq_cons_iff.mp split with ⟨sinkfd, later, filtered, rfl, rfl⟩
      rcases List.filter_eq_cons_iff.mp filtered with ⟨front, back, rfl, apart, own, rfl⟩
      rcases either with rfl | none
      case inr => cases List.append_ne_nil_of_right_ne_nil front (List.cons_ne_nil sinkfd back) none
      rcases still.sinkfdDestroy with ⟨after, destroys, alike, next⟩
      have none : front.filter (·.sink = kind) = [] := List.filter_eq_nil_iff.mpr apart
      refine ⟨after, _, destroys, ⟨front ++ back, alike.trans same, next, ?_, Or.inl rfl, rfl⟩, ?_, ?_⟩
      · rw [← others, without, without, List.filter_append, List.filter_append, List.filter_cons_of_neg]
        simpa using own
      · rw [List.filter_append, none, List.nil_append]
      · rw [List.filter_append, none, List.nil_append]
    · rw [List.length_map]
      exact Nat.lt_of_le_of_lt (List.length_filter_le _ _) placed.enough
  rcases walked with ⟨after, runs, left, same, last, others, _, none⟩
  have all : without kind left = left := by
    refine List.filter_eq_self.mpr fun sinkfd listed => decide_eq_true fun own => ?_
    exact List.ne_nil_of_mem (List.mem_filter.mpr ⟨listed, decide_eq_true own⟩) (List.map_eq_nil_iff.mp none)
  rw [all] at others
  exact ⟨after, runs, same, others ▸ last⟩

theorem Placed.apisinkFini (placed : Placed memory ⟨alive, sinks, sinkfds⟩) {kind : SinkKind}
    (usable : alive = true ∨ kind ∉ sinks ∧ sinkfds = []) :
    ∃ after, apisinkFini kind memory = some after ∧ after.world = memory.world ∧
      Placed after ⟨alive, sinks.erase kind, without kind sinkfds⟩ := by
  rcases placed.destroySinkfds kind (usable.imp_right And.right) with ⟨middle, destroys, same, left⟩
  rw [InMemory.apisinkFini, destroys, Option.bind_eq_bind, Option.bind_some, left.attached]
  by_cases inside : kind ∈ sinks
  · rw [decide_eq_true inside, if_pos rfl]
    rcases left.apibusDelSink (usable.imp_right And.left) with ⟨after, deletes, alike, last⟩
    exact ⟨after, deletes, alike.trans same, last⟩
  · rw [decide_eq_false inside, if_neg Bool.false_ne_true, List.erase_of_not_mem inside]
    exact ⟨middle, rfl, same, left⟩

/-- A sink is taken from the bus and ended. -/
theorem Placed.removeSink (placed : Placed memory ⟨alive, sinks, sinkfds⟩) (kind : SinkKind)
    (usable : alive = true ∨ sinks = [] ∧ sinkfds = []) :
    ∃ middle after, InMemory.apibusDelSink kind memory = some middle ∧ InMemory.apisinkFini kind middle = some after ∧
      after.world = memory.world ∧ Placed after ⟨alive, sinks.filter (· != kind), without kind sinkfds⟩ := by
  have distinct : sinks.Nodup := by
    rcases usable with rfl | ⟨rfl, _⟩
    · exact placed.sinks_nodup
    · exact List.nodup_nil
  have absent : kind ∉ sinks.erase kind := distinct.not_mem_erase
  have first : alive = true ∨ kind ∉ sinks := by
    rcases usable with there | ⟨rfl, _⟩
    · exact Or.inl there
    · exact Or.inr List.not_mem_nil
  rcases placed.apibusDelSink first with ⟨middle, deletes, same, left⟩
  rcases left.apisinkFini (usable.imp_right fun empty => ⟨absent, empty.2⟩) with ⟨after, ends, alike, last⟩
  rw [List.erase_of_not_mem absent, distinct.erase_eq_filter] at last
  exact ⟨middle, after, deletes, ends, alike.trans same, last⟩

theorem Placed.apibusDisablePosix (placed : Placed memory ⟨alive, sinks, sinkfds⟩)
    (usable : alive = true ∨ sinks = [] ∧ sinkfds = []) :
    ∃ after, apibusDisablePosix memory = some after ∧ after.world = memory.world ∧ Placed after ⟨alive, [], []⟩ := by
  have still : ∀ (kind : SinkKind) {sinks : List SinkKind} {sinkfds : List SinkFd},
      alive = true ∨ sinks = [] ∧ sinkfds = [] ->
        alive = true ∨ sinks.filter (· != kind) = [] ∧ without kind sinkfds = [] := by
    rintro kind sinks sinkfds (there | ⟨rfl, rfl⟩)
    · exact Or.inl there
    · exact Or.inr ⟨rfl, rfl⟩
  rcases placed.removeSink .unix usable with ⟨m, unix, deletes, ends, same, first⟩
  rcases first.removeSink .tcp (still .unix usable) with ⟨n, tcp, alsoDeletes, alsoEnds, alike, second⟩
  rcases second.removeSink .serial (still .tcp (still .unix usable)) with
    ⟨o, serial, lastDeletes, lastEnds, alsoAlike, third⟩
  have noSink : ((sinks.filter (· != .unix)).filter (· != .tcp)).filter (· != .serial) = [] := by
    refine List.eq_nil_iff_forall_not_mem.mpr fun kind listed => ?_
    cases kind <;> simp at listed
  have noSinkfd : without .serial (without .tcp (without .unix sinkfds)) = [] := by
    refine List.eq_nil_iff_forall_not_mem.mpr fun sinkfd listed => ?_
    simp only [without, List.mem_filter, decide_eq_true_eq] at listed
    cases own : sinkfd.sink <;> simp [own] at listed
  rw [noSink, noSinkfd] at third
  refine ⟨serial, ?_, alsoAlike.trans (alike.trans same), third⟩
  simp [InMemory.apibusDisablePosix, deletes, ends, alsoDeletes, alsoEnds, lastDeletes, lastEnds]

/-- The loop over the list of the bus in `apibus_destroy`. -/
theorem Placed.destroyAll (placed : Placed memory ⟨true, sinks, sinkfds⟩) :
    ∃ after, forEachSafe BusMemory.links .sinkfds (destroyEntry nodeBusEntry) (rounds memory) memory = some after ∧
      after.world = memory.world ∧ Placed after ⟨true, sinks, []⟩ := by
  have walked : ∃ after, forEachSafe BusMemory.links .sinkfds (destroyEntry nodeBusEntry) (rounds memory) memory =
      some after ∧ ∃ left, after.world = memory.world ∧ Placed after ⟨true, sinks, left⟩ ∧
        left.map (fun sinkfd => Place.nodeBus sinkfd.fd.conn) = [] := by
    refine forEachSafe_rule (fun rest state => ∃ left, state.world = memory.world ∧ Placed state ⟨true, sinks, left⟩ ∧
      left.map (fun sinkfd => Place.nodeBus sinkfd.fd.conn) = rest) ?_ ?_ ⟨sinkfds, rfl, placed, rfl⟩ placed.ringOfBus ?_
    · rintro rest state ⟨left, _, still, rfl⟩
      exact ⟨[], still.ringOfBus⟩
    · rintro pos rest state ⟨left, same, still, split⟩
      rcases List.map_eq_cons_iff.mp split with ⟨sinkfd, later, rfl, rfl, rfl⟩
      rcases @Placed.sinkfdDestroy state sinks [] later sinkfd still with ⟨after, destroys, alike, next⟩
      exact ⟨after, _, destroys, ⟨later, alike.trans same, next, rfl⟩, rfl, Nat.le_refl _⟩
    · rw [List.length_map]
      exact placed.enough
  rcases walked with ⟨after, runs, left, same, last, none⟩
  rw [List.map_eq_nil_iff.mp none] at last
  exact ⟨after, runs, same, last⟩

/-- The loop over the sinks in `apibus_destroy`, when no sinkfd is left. -/
theorem Placed.endSinks (placed : Placed memory ⟨true, sinks, []⟩) (few : sinks.length < 4) :
    ∃ after, forEachSafe BusMemory.links .sinks endSink 4 memory = some after ∧ after.world = memory.world ∧
      Placed after ⟨true, [], []⟩ := by
  have ringOf : ∀ {state sinks}, Placed state ⟨true, sinks, []⟩ -> state.links.Ring .sinks (sinks.map .sinkNode) :=
    fun placed => placed.rings.ring _ _ rfl
  have walked : ∃ after, forEachSafe BusMemory.links .sinks endSink 4 memory = some after ∧
      ∃ left, after.world = memory.world ∧ Placed after ⟨true, left, []⟩ ∧ left.map Place.sinkNode = [] := by
    refine forEachSafe_rule (fun rest state => ∃ left, state.world = memory.world ∧ Placed state ⟨true, left, []⟩ ∧
      left.map Place.sinkNode = rest) ?_ ?_ ⟨sinks, rfl, placed, rfl⟩ (ringOf placed) ?_
    · rintro rest state ⟨left, _, still, rfl⟩
      exact ⟨[], ringOf still⟩
    · rintro pos rest state ⟨left, same, still, split⟩
      rcases List.map_eq_cons_iff.mp split with ⟨kind, later, rfl, rfl, rfl⟩
      rcases still.removeSink kind (Or.inl rfl) with ⟨middle, after, deletes, ends, alike, next⟩
      have others : (kind :: later).filter (· != kind) = later := by
        rw [← still.sinks_nodup.erase_eq_filter, List.erase_cons_head]
      rw [others] at next
      refine ⟨after, _, ?_, ⟨later, alike.trans same, next, rfl⟩, rfl, Nat.le_refl _⟩
      rw [endSink, sinkEntry, Option.bind_eq_bind, Option.bind_some, deletes]
      exact ends
    · rwa [List.length_map]
  rcases walked with ⟨after, runs, left, same, last, none⟩
  rw [List.map_eq_nil_iff.mp none] at last
  exact ⟨after, runs, same, last⟩

theorem Placed.apibusDestroy (placed : Placed memory ⟨true, sinks, sinkfds⟩) (few : sinks.length < 4) :
    ∃ after, apibusDestroy memory = some after ∧ after.world = freeMessages memory.world ∧
      Placed after ⟨false, [], []⟩ := by
  have emptied : Placed { memory with world := freeMessages memory.world } ⟨true, sinks, sinkfds⟩ :=
    ⟨placed.rings, placed.live, placed.cells, placed.attached, placed.distinct, placed.older⟩
  rcases emptied.destroyAll with ⟨first, destroys, same, noSinkfd⟩
  rcases noSinkfd.endSinks few with ⟨second, ends, alike, noSink⟩
  have alone : placeTable ⟨true, [], []⟩ .sinkfds = some [] := rfl
  rcases free_alone noSink.rings alone with ⟨third, frees, rings, live⟩
  have alsoAlone : Function.update (placeTable ⟨true, [], []⟩) .sinkfds none .sinks = some [] := rfl
  rcases free_alone rings alsoAlone with ⟨links, alsoFrees, lastRings, lastLive⟩
  refine ⟨{ second with links := links }, ?_, alike.trans same, ?_, ?_, noSink.cells, noSink.attached, List.nodup_nil,
    by simp⟩
  · rw [InMemory.apibusDestroy]
    have bounded : rounds { memory with world := freeMessages memory.world } = rounds memory := rfl
    rw [bounded] at destroys
    simp only [bounded, destroys, ends, frees, alsoFrees, Option.bind_eq_bind, Option.bind_some]
  · have table : Function.update (Function.update (placeTable ⟨true, [], []⟩) .sinkfds none) .sinks none =
        placeTable ⟨false, [], []⟩ := by
      funext place
      cases place <;> rfl
    exact table ▸ lastRings
  · refine lastLive.trans ?_
    rw [live, noSink.live]
    funext place
    cases place <;> rfl

end Leaving

/-! ## Runs -/

/-- Nothing is allocated any more, and no descriptor has been closed. -/
structure Freed (before after : BusMemory) : Prop where
  live : after.links.live = BusMemory.start.links.live
  cells : ∀ id, after.cells id = none
  attached : ∀ kind, after.attached kind = false
  opened : after.world.opened = before.world.opened

theorem Placed.freed {before after : BusMemory} (placed : Placed after ⟨false, [], []⟩)
    (opened : after.world.opened = before.world.opened) : Freed before after where
  live := by
    rw [placed.live]
    funext place
    cases place <;> rfl
  cells := fun id => congrFun placed.cells id
  attached := fun kind => (placed.attached kind).trans (decide_eq_false (List.not_mem_nil))
  opened := opened

/-- However the bus was used, it can be destroyed, before or after the sinks are
disabled: no sinkfd is freed twice or touched when it has been freed, all are
freed, and no descriptor is closed. -/
theorem teardown_frees (host : Host) (inputs : List BusInput) :
    ∃ memory, InMemory.busRun host inputs = some memory ∧
      (∃ disabled destroyed, apibusDisablePosix memory = some disabled ∧ apibusDestroy disabled = some destroyed ∧
        Freed memory destroyed) ∧
      ∃ destroyed disabled, apibusDestroy memory = some destroyed ∧ apibusDisablePosix destroyed = some disabled ∧
        Freed memory destroyed ∧ Freed memory disabled := by
  rcases busRun_shows host inputs with ⟨memory, runs, shows⟩
  refine ⟨memory, runs, ?_, ?_⟩
  · rcases shows.placed.apibusDisablePosix (Or.inl rfl) with ⟨disabled, disables, same, placed⟩
    rcases placed.apibusDestroy (by decide) with ⟨destroyed, destroys, alike, last⟩
    refine ⟨disabled, destroyed, disables, destroys, last.freed ?_⟩
    rw [alike, same]
    rfl
  · rcases shows.placed.apibusDestroy (by decide) with ⟨destroyed, destroys, same, placed⟩
    rcases placed.apibusDisablePosix (Or.inr ⟨rfl, rfl⟩) with ⟨disabled, disables, alike, last⟩
    refine ⟨destroyed, disabled, destroys, disables, placed.freed ?_, last.freed ?_⟩
    · rw [same]
      rfl
    · rw [alike, same]
      rfl

end InMemory
end Bus
end Extlib
