import Extlib.Bus.Posix
import Extlib.LinkedLists.ForEach

namespace Extlib
namespace Bus
namespace InMemory

open Buffer Machine Memory LinkedLists

/-!
# The sinkfds in memory

Every `struct sinkfd` is on two lists at once: that of its sink, by
`node_sink`, and that of the bus, by `node_bus`.  `apix.c` and `apix-posix.c`
add it to both when it is made and take it off both when it is destroyed,
whichever of the two they came along.  Here the lists lie in memory, and a
function has no result when it reads or writes what has been freed.

The rest of the bus and its surroundings is as it was; of the list of sinkfds in
it nothing is used.
-/

/-! ## Functions -/

/-- The heads of the lists and the nodes in them.  A sinkfd has as address the
number of the connection it is made for. -/
inductive Place where
  | sinks
  | sinkfds
  | sinkNode (kind : SinkKind)
  | sinkSinkfds (kind : SinkKind)
  | nodeSink (id : Nat)
  | nodeBus (id : Nat)
  deriving DecidableEq, Repr

/-- `attached` says which sinks have a `bus`. -/
structure BusMemory where
  world : World
  links : LinkHeap Place
  cells : Nat -> Option SinkFd
  attached : SinkKind -> Bool

/-- Before the first call: the three sinks are static, and nothing is
allocated. -/
def BusMemory.start : BusMemory where
  world := Bus.apibusNew
  links :=
    ⟨fun place => place, fun place => place, fun place =>
      match place with
      | .sinkNode _ => true
      | .sinkSinkfds _ => true
      | _ => false⟩
  cells := fun _ => none
  attached := fun _ => false

/-- The sink whose `node` this is. -/
def sinkEntry : Place -> Option SinkKind
  | .sinkNode kind => some kind
  | _ => none

/-- The sinkfd whose `node_sink` this is. -/
def nodeSinkEntry : Place -> Option Nat
  | .nodeSink id => some id
  | _ => none

/-- The sinkfd whose `node_bus` this is. -/
def nodeBusEntry : Place -> Option Nat
  | .nodeBus id => some id
  | _ => none

/-- The bus as `apibus_new` leaves it; the other five lists are empty. -/
def apibusNew (memory : BusMemory) : Option BusMemory := do
  let links := malloc .sinks (malloc .sinkfds memory.links)
  let links <- initListHead .sinkfds links
  let links <- initListHead .sinks links
  some { memory with links := links }

def apisinkInit (kind : SinkKind) (memory : BusMemory) : Option BusMemory := do
  let links <- initListHead (.sinkSinkfds kind) memory.links
  let links <- initListHead (.sinkNode kind) links
  some { memory with links := links, attached := Function.update memory.attached kind false }

/-- The search for a sink by its name, in `apibus_add_sink` and `apibus_open`.
The three sinks have different names. -/
def findSink (kind : SinkKind) (memory : BusMemory) : Option (Option Place) :=
  findEntry .sinks (fun place => (sinkEntry place).map fun other => other = kind) memory.links 4

def apibusAddSink (kind : SinkKind) (memory : BusMemory) : Option BusMemory := do
  let found <- findSink kind memory
  if found.isSome then some memory
  else
    let links <- listAdd (.sinkNode kind) .sinks memory.links
    some { memory with links := links, attached := Function.update memory.attached kind true }

def apibusDelSink (kind : SinkKind) (memory : BusMemory) : Option BusMemory := do
  let links <- listDelInit (.sinkNode kind) memory.links
  some { memory with links := links, attached := Function.update memory.attached kind false }

def apibusEnablePosix (memory : BusMemory) : Option BusMemory :=
  [SinkKind.unix, .tcp, .serial].foldlM (fun memory kind => do
    let memory <- apisinkInit kind memory
    apibusAddSink kind memory) memory

/-- What opening and accepting have in common: `sinkfd_new`, the two lists the
new sinkfd is put on, and the set of descriptors. -/
def addSinkfd (num : Nat) (listen : Bool) (kind : SinkKind) (nfds : Nat) (memory : BusMemory) : Option BusMemory := do
  let sinkfd := newSinkfd memory.world num listen kind
  let id := sinkfd.fd.conn
  let links := malloc (.nodeBus id) (malloc (.nodeSink id) memory.links)
  let links <- initListHead (.nodeSink id) links
  let links <- initListHead (.nodeBus id) links
  let links <- listAdd (.nodeSink id) (.sinkSinkfds kind) links
  let links <- listAdd (.nodeBus id) .sinkfds links
  some { memory with
    world := registerFd memory.world num kind nfds
    links := links
    cells := Function.update memory.cells id (some sinkfd) }

def sinkfdDestroy (id : Nat) (memory : BusMemory) : Option BusMemory := do
  let links <- listDelInit (.nodeSink id) memory.links
  let links <- listDelInit (.nodeBus id) links
  let links <- free (.nodeSink id) links
  let links <- free (.nodeBus id) links
  some { memory with links := links, cells := Function.update memory.cells id none }

/-- More than there are sinkfds. -/
def rounds (memory : BusMemory) : Nat := memory.world.conns + 1

def findSinkfdInApibus (num : Nat) (memory : BusMemory) : Option (Option Nat) := do
  let found <- findEntrySafe .sinkfds
    (fun place => ((nodeBusEntry place).bind memory.cells).map fun sinkfd => sinkfd.fd.num = num) memory.links
    (rounds memory)
  some (found.bind nodeBusEntry)

def findSinkfdInApisink (kind : SinkKind) (num : Nat) (memory : BusMemory) : Option (Option Nat) := do
  let found <- findEntrySafe (.sinkSinkfds kind)
    (fun place => ((nodeSinkEntry place).bind memory.cells).map fun sinkfd => sinkfd.fd.num = num) memory.links
    (rounds memory)
  some (found.bind nodeSinkEntry)

/-- The fields of a sinkfd are written. -/
def updateCell (id : Nat) (sinkfd : SinkFd) (memory : BusMemory) : BusMemory :=
  { memory with cells := Function.update memory.cells id (some sinkfd) }

/-! ## What is in memory -/

/-- What the lists hold: whether there is a bus, the sinks that are added to it,
and the sinkfds. -/
structure SinkLists where
  alive : Bool
  sinks : List SinkKind
  sinkfds : List SinkFd

variable {memory : BusMemory} {lists : SinkLists}

/-- The sinkfds of a sink are on its list in the order of the list of the bus. -/
def placeTable (lists : SinkLists) : RingTable Place
  | .sinks => if lists.alive then some (lists.sinks.map .sinkNode) else none
  | .sinkfds => if lists.alive then some (lists.sinkfds.map fun sinkfd => .nodeBus sinkfd.fd.conn) else none
  | .sinkNode kind => if kind ∈ lists.sinks then none else some []
  | .sinkSinkfds kind =>
      some ((lists.sinkfds.filter (·.sink = kind)).map fun sinkfd => .nodeSink sinkfd.fd.conn)
  | .nodeSink _ => none
  | .nodeBus _ => none

/-- The sinkfd at an address. -/
def cellOf (sinkfds : List SinkFd) (id : Nat) : Option SinkFd := sinkfds.find? (·.fd.conn = id)

/-- The nodes of what is allocated. -/
def placeLive (lists : SinkLists) : Place -> Bool
  | .sinks => lists.alive
  | .sinkfds => lists.alive
  | .sinkNode _ => true
  | .sinkSinkfds _ => true
  | .nodeSink id => (cellOf lists.sinkfds id).isSome
  | .nodeBus id => (cellOf lists.sinkfds id).isSome

/-- The lists are in memory, and with them the sinkfds and nothing else. -/
structure Placed (memory : BusMemory) (lists : SinkLists) : Prop where
  rings : Represents memory.links (placeTable lists)
  live : memory.links.live = placeLive lists
  cells : memory.cells = cellOf lists.sinkfds
  attached : ∀ kind, memory.attached kind = decide (kind ∈ lists.sinks)
  distinct : (lists.sinkfds.map (·.fd.conn)).Nodup
  older : ∀ sinkfd ∈ lists.sinkfds, sinkfd.fd.conn < memory.world.conns

/-! ## Cells -/

section Cells

variable {sinkfds front back : List SinkFd} {sinkfd : SinkFd} {id : Nat}

theorem cellOf_eq_none (absent : id ∉ sinkfds.map (·.fd.conn)) : cellOf sinkfds id = none := by
  refine List.find?_eq_none.mpr fun sinkfd listed same => ?_
  exact absent (List.mem_map.mpr ⟨sinkfd, listed, of_decide_eq_true same⟩)

theorem cellOf_cons (sinkfd : SinkFd) (sinkfds : List SinkFd) :
    cellOf (sinkfd :: sinkfds) = Function.update (cellOf sinkfds) sinkfd.fd.conn (some sinkfd) := by
  funext id
  rw [cellOf, List.find?_cons]
  by_cases own : sinkfd.fd.conn = id
  · rw [decide_eq_true own, own, Function.update_self]
  · rw [decide_eq_false own, Function.update_of_ne (Ne.symm own)]
    rfl

theorem cellOf_append (front back : List SinkFd) :
    cellOf (front ++ back) id = (cellOf front id).or (cellOf back id) := List.find?_append

/-- The addresses of the other sinkfds are other ones. -/
theorem conn_apart (distinct : ((front ++ sinkfd :: back).map (·.fd.conn)).Nodup) :
    sinkfd.fd.conn ∉ front.map (·.fd.conn) ∧ sinkfd.fd.conn ∉ back.map (·.fd.conn) := by
  rw [List.map_append, List.map_cons, List.nodup_middle, List.nodup_cons, List.mem_append, not_or] at distinct
  exact distinct.1

theorem cellOf_replace (front back : List SinkFd) {sinkfd changed : SinkFd} (same : changed.fd.conn = sinkfd.fd.conn)
    (distinct : ((front ++ sinkfd :: back).map (·.fd.conn)).Nodup) :
    cellOf (front ++ changed :: back) =
      Function.update (cellOf (front ++ sinkfd :: back)) sinkfd.fd.conn (some changed) := by
  funext id
  rw [cellOf_append, cellOf_cons, same]
  by_cases own : id = sinkfd.fd.conn
  · rw [own, Function.update_self, Function.update_self, cellOf_eq_none (conn_apart distinct).1, Option.none_or]
  · rw [Function.update_of_ne own, Function.update_of_ne own, cellOf_append, cellOf_cons, Function.update_of_ne own]

theorem cellOf_remove (distinct : ((front ++ sinkfd :: back).map (·.fd.conn)).Nodup) :
    cellOf (front ++ back) = Function.update (cellOf (front ++ sinkfd :: back)) sinkfd.fd.conn none := by
  funext id
  rw [cellOf_append]
  by_cases own : id = sinkfd.fd.conn
  · rw [own, Function.update_self, cellOf_eq_none (conn_apart distinct).1, cellOf_eq_none (conn_apart distinct).2]
    rfl
  · rw [Function.update_of_ne own, cellOf_append, cellOf_cons, Function.update_of_ne own]

theorem cellOf_listed (distinct : (sinkfds.map (·.fd.conn)).Nodup) (listed : sinkfd ∈ sinkfds) :
    cellOf sinkfds sinkfd.fd.conn = some sinkfd := by
  rcases List.append_of_mem listed with ⟨front, back, rfl⟩
  rw [cellOf_append, cellOf_cons, Function.update_self, cellOf_eq_none (conn_apart distinct).1]
  rfl

end Cells

/-! ## Searches -/

section Searches

variable {sinks : List SinkKind} {sinkfds : List SinkFd}

theorem Placed.ringOfBus (placed : Placed memory ⟨true, sinks, sinkfds⟩) :
    memory.links.Ring .sinkfds (sinkfds.map fun sinkfd => .nodeBus sinkfd.fd.conn) := placed.rings.ring _ _ rfl

theorem Placed.ringOfSink (placed : Placed memory lists) (kind : SinkKind) :
    memory.links.Ring (.sinkSinkfds kind)
      ((lists.sinkfds.filter (·.sink = kind)).map fun sinkfd => .nodeSink sinkfd.fd.conn) := placed.rings.ring _ _ rfl

theorem Placed.cell (placed : Placed memory lists) {sinkfd : SinkFd} (listed : sinkfd ∈ lists.sinkfds) :
    memory.cells sinkfd.fd.conn = some sinkfd := by
  rw [placed.cells]
  exact cellOf_listed placed.distinct listed

theorem Placed.enough (placed : Placed memory lists) : lists.sinkfds.length < rounds memory := by
  have bounded := length_le_of_lt placed.distinct fun id listed => by
    rcases List.mem_map.mp listed with ⟨sinkfd, inside, rfl⟩
    exact placed.older sinkfd inside
  rw [List.length_map] at bounded
  exact Nat.lt_succ_of_le bounded

/-- A search over the nodes of some of the sinkfds is one over these. -/
theorem find_map_node {sinkfds : List SinkFd} {cells : Nat -> Option SinkFd} {node : Nat -> Place}
    {entry : Place -> Option Nat} (entries : ∀ id, entry (node id) = some id)
    (stored : ∀ sinkfd ∈ sinkfds, cells sinkfd.fd.conn = some sinkfd) (num : Nat) :
    ((sinkfds.map fun sinkfd => node sinkfd.fd.conn).find? fun place =>
        ((entry place).bind cells).any fun sinkfd => sinkfd.fd.num = num).bind entry =
      (sinkfds.find? (·.fd.num = num)).map (·.fd.conn) := by
  induction sinkfds with
  | nil => rfl
  | cons sinkfd rest inductionHypothesis =>
      rw [List.map_cons, List.find?_cons, List.find?_cons, entries, Option.bind_some, stored sinkfd List.mem_cons_self,
        Option.any_some]
      cases decide (sinkfd.fd.num = num) with
      | true => exact entries sinkfd.fd.conn
      | false => exact inductionHypothesis fun other listed => stored other (List.mem_cons_of_mem sinkfd listed)

/-- The searches find the first sinkfd of the number on their list. -/
theorem Placed.findSinkfdInApibus (placed : Placed memory ⟨true, sinks, sinkfds⟩) (num : Nat) :
    findSinkfdInApibus num memory = some ((sinkfds.find? (·.fd.num = num)).map (·.fd.conn)) := by
  have decided : ∀ pos ∈ sinkfds.map fun sinkfd => Place.nodeBus sinkfd.fd.conn,
      ((nodeBusEntry pos).bind memory.cells).map (fun sinkfd => decide (sinkfd.fd.num = num)) =
        some (((nodeBusEntry pos).bind memory.cells).any fun sinkfd => sinkfd.fd.num = num) := by
    intro pos member
    rcases List.mem_map.mp member with ⟨sinkfd, listed, rfl⟩
    rw [nodeBusEntry, Option.bind_some, placed.cell listed]
    rfl
  have enough : (sinkfds.map fun sinkfd => Place.nodeBus sinkfd.fd.conn).length < rounds memory := by
    rw [List.length_map]
    exact placed.enough
  rw [InMemory.findSinkfdInApibus, findEntrySafe_ring placed.ringOfBus decided enough, Option.bind_eq_bind,
    Option.bind_some]
  exact congrArg some (find_map_node (fun _ => rfl) (fun sinkfd listed => placed.cell listed) num)

theorem Placed.findSinkfdInApisink (placed : Placed memory lists) (kind : SinkKind) (num : Nat) :
    findSinkfdInApisink kind num memory =
      some (((lists.sinkfds.filter (·.sink = kind)).find? (·.fd.num = num)).map (·.fd.conn)) := by
  have stored : ∀ sinkfd ∈ lists.sinkfds.filter (·.sink = kind), memory.cells sinkfd.fd.conn = some sinkfd :=
    fun sinkfd listed => placed.cell (List.mem_of_mem_filter listed)
  have decided : ∀ pos ∈ (lists.sinkfds.filter (·.sink = kind)).map fun sinkfd => Place.nodeSink sinkfd.fd.conn,
      ((nodeSinkEntry pos).bind memory.cells).map (fun sinkfd => decide (sinkfd.fd.num = num)) =
        some (((nodeSinkEntry pos).bind memory.cells).any fun sinkfd => sinkfd.fd.num = num) := by
    intro pos member
    rcases List.mem_map.mp member with ⟨sinkfd, listed, rfl⟩
    rw [nodeSinkEntry, Option.bind_some, stored sinkfd listed]
    rfl
  have enough : ((lists.sinkfds.filter (·.sink = kind)).map fun sinkfd => Place.nodeSink sinkfd.fd.conn).length <
      rounds memory := by
    rw [List.length_map]
    exact Nat.lt_of_le_of_lt (List.length_filter_le _ _) placed.enough
  rw [InMemory.findSinkfdInApisink, findEntrySafe_ring (placed.ringOfSink kind) decided enough, Option.bind_eq_bind,
    Option.bind_some]
  exact congrArg some (find_map_node (fun _ => rfl) stored num)

end Searches

/-! ## Sinkfds that come and go -/

section Changes

variable {sinks : List SinkKind} {sinkfds front back : List SinkFd}

/-- The table with one sinkfd more in front. -/
theorem placeTable_cons (sinks : List SinkKind) (sinkfd : SinkFd) (sinkfds : List SinkFd) :
    Function.update (Function.update (placeTable ⟨true, sinks, sinkfds⟩) (.sinkSinkfds sinkfd.sink)
        (some (.nodeSink sinkfd.fd.conn ::
          (sinkfds.filter (·.sink = sinkfd.sink)).map fun sinkfd => .nodeSink sinkfd.fd.conn)))
        .sinkfds (some (.nodeBus sinkfd.fd.conn :: sinkfds.map fun sinkfd => .nodeBus sinkfd.fd.conn)) =
      placeTable ⟨true, sinks, sinkfd :: sinkfds⟩ := by
  funext place
  cases place with
  | sinkfds => exact Function.update_self _ _ _
  | sinkSinkfds kind =>
      rw [Function.update_of_ne Place.noConfusion, placeTable, List.filter_cons]
      by_cases own : kind = sinkfd.sink
      · rw [own, Function.update_self, decide_eq_true rfl, if_pos rfl, List.map_cons]
      · have different : Place.sinkSinkfds kind ≠ .sinkSinkfds sinkfd.sink := fun same => own (Place.sinkSinkfds.inj same)
        rw [Function.update_of_ne different, decide_eq_false (Ne.symm own), if_neg Bool.false_ne_true]
        rfl
  | _ => rfl

/-- What is allocated with one sinkfd more. -/
theorem placeLive_cons (sinks : List SinkKind) (sinkfd : SinkFd) (sinkfds : List SinkFd) :
    placeLive ⟨true, sinks, sinkfd :: sinkfds⟩ =
      Function.update (Function.update (placeLive ⟨true, sinks, sinkfds⟩) (.nodeSink sinkfd.fd.conn) true)
        (.nodeBus sinkfd.fd.conn) true := by
  funext place
  cases place with
  | nodeSink id =>
      rw [Function.update_of_ne Place.noConfusion, placeLive, cellOf_cons]
      by_cases own : id = sinkfd.fd.conn
      · rw [own, Function.update_self, Function.update_self, Option.isSome_some]
      · rw [Function.update_of_ne own, Function.update_of_ne fun same => own (Place.nodeSink.inj same)]
        rfl
  | nodeBus id =>
      rw [placeLive, cellOf_cons]
      by_cases own : id = sinkfd.fd.conn
      · rw [own, Function.update_self, Function.update_self, Option.isSome_some]
      · rw [Function.update_of_ne own, Function.update_of_ne fun same => own (Place.nodeBus.inj same),
          Function.update_of_ne Place.noConfusion]
        rfl
  | _ => rfl

/-- What is allocated without a sinkfd. -/
theorem placeLive_remove (sinks : List SinkKind) {sinkfd : SinkFd}
    (distinct : ((front ++ sinkfd :: back).map (·.fd.conn)).Nodup) :
    placeLive ⟨true, sinks, front ++ back⟩ =
      Function.update (Function.update (placeLive ⟨true, sinks, front ++ sinkfd :: back⟩)
        (.nodeSink sinkfd.fd.conn) false) (.nodeBus sinkfd.fd.conn) false := by
  funext place
  cases place with
  | nodeSink id =>
      rw [Function.update_of_ne Place.noConfusion, placeLive, cellOf_remove distinct]
      by_cases own : id = sinkfd.fd.conn
      · rw [own, Function.update_self, Function.update_self, Option.isSome_none]
      · rw [Function.update_of_ne own, Function.update_of_ne fun same => own (Place.nodeSink.inj same)]
        rfl
  | nodeBus id =>
      rw [placeLive, cellOf_remove distinct]
      by_cases own : id = sinkfd.fd.conn
      · rw [own, Function.update_self, Function.update_self, Option.isSome_none]
      · rw [Function.update_of_ne own, Function.update_of_ne fun same => own (Place.nodeBus.inj same),
          Function.update_of_ne Place.noConfusion]
        rfl
  | _ => rfl

/-- A new sinkfd is in front on both its lists. -/
theorem Placed.addSinkfd (placed : Placed memory ⟨true, sinks, sinkfds⟩) (num : Nat) (listen : Bool) (kind : SinkKind)
    (nfds : Nat) :
    ∃ after, addSinkfd num listen kind nfds memory = some after ∧
      after.world = registerFd memory.world num kind nfds ∧
      Placed after ⟨true, sinks, newSinkfd memory.world num listen kind :: sinkfds⟩ := by
  have unborn : memory.world.conns ∉ sinkfds.map (·.fd.conn) := by
    intro listed
    rcases List.mem_map.mp listed with ⟨sinkfd, inside, same⟩
    exact Nat.lt_irrefl _ (same ▸ placed.older sinkfd inside)
  have fresh : memory.links.live (.nodeSink memory.world.conns) = false := by
    rw [placed.live, placeLive, cellOf_eq_none unborn, Option.isSome_none]
  have alsoFresh : memory.links.live (.nodeBus memory.world.conns) = false := by
    rw [placed.live, placeLive, cellOf_eq_none unborn, Option.isSome_none]
  rcases mallocPair_represents placed.rings Place.noConfusion fresh alsoFresh with
    ⟨looseSink, looseBus, made, makes, madeRings, madeLive⟩
  have liveSink : made.live (.nodeSink memory.world.conns) := by
    rw [madeLive, Function.update_of_ne Place.noConfusion, Function.update_self]
  have liveBus : made.live (.nodeBus memory.world.conns) := by
    rw [madeLive, Function.update_self]
  have listed : placeTable ⟨true, sinks, sinkfds⟩ (.sinkSinkfds kind) =
      some ((sinkfds.filter (·.sink = kind)).map fun sinkfd => .nodeSink sinkfd.fd.conn) := rfl
  rcases listAdd_represents madeRings listed looseSink liveSink with ⟨onSink, addsSink, sinkRings, sinkLive⟩
  have outside : Place.nodeBus memory.world.conns ∉ Place.sinkSinkfds kind :: .nodeSink memory.world.conns ::
      (sinkfds.filter (·.sink = kind)).map fun sinkfd => .nodeSink sinkfd.fd.conn := by simp
  have stillLoose := looseBus.update outside
  have alsoListed : Function.update (placeTable ⟨true, sinks, sinkfds⟩) (.sinkSinkfds kind)
      (some (.nodeSink memory.world.conns ::
        (sinkfds.filter (·.sink = kind)).map fun sinkfd => .nodeSink sinkfd.fd.conn)) .sinkfds =
      some (sinkfds.map fun sinkfd => .nodeBus sinkfd.fd.conn) := Function.update_of_ne Place.noConfusion _ _
  rcases listAdd_represents sinkRings alsoListed stillLoose (sinkLive ▸ liveBus) with ⟨onBus, addsBus, busRings, busLive⟩
  refine ⟨{ memory with
    world := registerFd memory.world num kind nfds
    links := onBus
    cells := Function.update memory.cells memory.world.conns (some (newSinkfd memory.world num listen kind)) },
    ?_, rfl, ?_⟩
  · rw [InMemory.addSinkfd]
    rcases Option.bind_eq_some_iff.mp makes with ⟨middle, inits, alsoInits⟩
    simp only [newSinkfd, Option.bind_eq_bind, inits, Option.bind_some, alsoInits, addsSink, addsBus]
  · refine ⟨?_, ?_, ?_, placed.attached, List.nodup_cons.mpr ⟨unborn, placed.distinct⟩, ?_⟩
    · have table := placeTable_cons sinks (newSinkfd memory.world num listen kind) sinkfds
      exact table ▸ busRings
    · refine busLive.trans (sinkLive.trans (madeLive.trans ?_))
      rw [placed.live]
      exact (placeLive_cons sinks (newSinkfd memory.world num listen kind) sinkfds).symm
    · refine Eq.trans ?_ (cellOf_cons (newSinkfd memory.world num listen kind) sinkfds).symm
      exact congrArg (Function.update · memory.world.conns _) placed.cells
    · intro sinkfd inside
      rcases List.mem_cons.mp inside with rfl | old
      · exact Nat.lt_succ_self _
      · exact Nat.lt_succ_of_lt (placed.older sinkfd old)

/-- The table without a sinkfd. -/
theorem placeTable_detach (sinks : List SinkKind) {sinkfd : SinkFd}
    (distinct : ((front ++ sinkfd :: back).map (·.fd.conn)).Nodup) :
    ((placeTable ⟨true, sinks, front ++ sinkfd :: back⟩).detach (.nodeSink sinkfd.fd.conn)).detach
        (.nodeBus sinkfd.fd.conn) =
      placeTable ⟨true, sinks, front ++ back⟩ := by
  have apart := conn_apart distinct
  have erased : ∀ (node : Nat -> Place) (left right : List SinkFd), Function.Injective node ->
      sinkfd.fd.conn ∉ left.map (·.fd.conn) ->
        ((left ++ sinkfd :: right).map fun sinkfd => node sinkfd.fd.conn).erase (node sinkfd.fd.conn) =
          (left ++ right).map fun sinkfd => node sinkfd.fd.conn := by
    intro node left right injective outside
    rw [List.map_append, List.map_cons, List.erase_append_right, List.erase_cons_head, List.map_append]
    intro listed
    rcases List.mem_map.mp listed with ⟨other, inside, same⟩
    exact outside (List.mem_map.mpr ⟨other, inside, injective same⟩)
  funext place
  cases place with
  | sinks =>
      rw [RingTable.detach, if_neg Place.noConfusion, RingTable.detach, if_neg Place.noConfusion]
      simp [placeTable, List.erase_of_not_mem]
  | sinkfds =>
      rw [RingTable.detach, if_neg Place.noConfusion, RingTable.detach, if_neg Place.noConfusion]
      simp only [placeTable, if_true, Option.map_some]
      rw [List.erase_of_not_mem (a := Place.nodeSink _) (by simp)]
      exact congrArg some (erased .nodeBus front back (fun _ _ => Place.nodeBus.inj) apart.1)
  | sinkNode kind =>
      rw [RingTable.detach, if_neg Place.noConfusion, RingTable.detach, if_neg Place.noConfusion]
      simp only [placeTable]
      split <;> rfl
  | sinkSinkfds kind =>
      rw [RingTable.detach, if_neg Place.noConfusion, RingTable.detach, if_neg Place.noConfusion]
      simp only [placeTable, Option.map_some, List.filter_append, List.filter_cons]
      have others : ∀ list : List SinkFd, (∀ other ∈ list, other ∈ front ++ back) ->
          sinkfd.fd.conn ∉ list.map (·.fd.conn) := by
        intro list inside listed
        rcases List.mem_map.mp listed with ⟨other, member, same⟩
        have there : other.fd.conn ∈ (front ++ back).map (·.fd.conn) := List.mem_map.mpr ⟨other, inside other member, rfl⟩
        rw [List.map_append, List.mem_append, same] at there
        exact there.elim apart.1 apart.2
      have frontOnly : sinkfd.fd.conn ∉ (front.filter (·.sink = kind)).map (·.fd.conn) :=
        others _ fun other member => List.mem_append_left back (List.mem_of_mem_filter member)
      rw [List.erase_of_not_mem (a := Place.nodeBus _) (fun listed => by simpa using List.mem_of_mem_erase listed)]
      by_cases own : sinkfd.sink = kind
      · rw [decide_eq_true own, if_pos rfl]
        exact congrArg some (erased .nodeSink _ _ (fun _ _ => Place.nodeSink.inj) frontOnly)
      · rw [decide_eq_false own, if_neg Bool.false_ne_true, List.erase_of_not_mem]
        intro listed
        rcases List.mem_map.mp listed with ⟨other, member, same⟩
        refine others (front.filter (·.sink = kind) ++ back.filter (·.sink = kind)) (fun other member => ?_)
          (List.mem_map.mpr ⟨other, member, Place.nodeSink.inj same⟩)
        rw [← List.filter_append] at member
        exact List.mem_of_mem_filter member
  | _ => simp [RingTable.detach, placeTable]

/-- A sinkfd is taken off both its lists and freed. -/
theorem Placed.sinkfdDestroy {sinkfd : SinkFd} (placed : Placed memory ⟨true, sinks, front ++ sinkfd :: back⟩) :
    ∃ after, sinkfdDestroy sinkfd.fd.conn memory = some after ∧ after.world = memory.world ∧
      Placed after ⟨true, sinks, front ++ back⟩ := by
  have inside : sinkfd ∈ front ++ sinkfd :: back := List.mem_append_right front List.mem_cons_self
  have onSink : (placeTable ⟨true, sinks, front ++ sinkfd :: back⟩).Linked (.nodeSink sinkfd.fd.conn) := by
    refine ⟨.sinkSinkfds sinkfd.sink, _, rfl, List.mem_map.mpr ⟨sinkfd, ?_, rfl⟩⟩
    exact List.mem_filter.mpr ⟨inside, decide_eq_true rfl⟩
  rcases listDelInit_detaches placed.rings (Or.inl onSink) with ⟨first, deletes, rings, live⟩
  have onBus : ((placeTable ⟨true, sinks, front ++ sinkfd :: back⟩).detach
      (.nodeSink sinkfd.fd.conn)).Linked (.nodeBus sinkfd.fd.conn) := by
    refine ⟨.sinkfds, _, detach_other Place.noConfusion rfl, ?_⟩
    rw [List.erase_of_not_mem (by simp)]
    exact List.mem_map.mpr ⟨sinkfd, inside, rfl⟩
  rcases listDelInit_detaches rings (Or.inl onBus) with ⟨second, alsoDeletes, alsoRings, alsoLive⟩
  have looseSink := (placed.rings.loose_detach (.nodeSink sinkfd.fd.conn)).detach (.nodeBus sinkfd.fd.conn)
  have looseBus := rings.loose_detach (.nodeBus sinkfd.fd.conn)
  rw [placeTable_detach sinks placed.distinct] at alsoRings looseSink looseBus
  have cell : (cellOf (front ++ sinkfd :: back) sinkfd.fd.conn).isSome := by
    rw [cellOf_listed placed.distinct inside]
    rfl
  have liveSink : second.live (.nodeSink sinkfd.fd.conn) := by
    rw [alsoLive, live, placed.live]
    exact cell
  rcases free_represents alsoRings looseSink liveSink with ⟨third, frees, freedRings, freedLive⟩
  have liveBus : third.live (.nodeBus sinkfd.fd.conn) := by
    rw [freedLive, Function.update_of_ne Place.noConfusion, alsoLive, live, placed.live]
    exact cell
  rcases free_represents freedRings looseBus liveBus with ⟨last, alsoFrees, lastRings, lastLive⟩
  have keeps := placed.distinct
  rw [List.map_append, List.map_cons, List.nodup_middle, List.nodup_cons, ← List.map_append] at keeps
  refine ⟨{ memory with links := last, cells := Function.update memory.cells sinkfd.fd.conn none }, ?_, rfl,
    lastRings, ?_, ?_, placed.attached, keeps.2, ?_⟩
  · rw [InMemory.sinkfdDestroy]
    simp only [Option.bind_eq_bind, deletes, Option.bind_some, alsoDeletes, frees, alsoFrees]
  · refine lastLive.trans ?_
    rw [freedLive, alsoLive, live, placed.live]
    exact (placeLive_remove sinks placed.distinct).symm
  · refine Eq.trans ?_ (cellOf_remove placed.distinct).symm
    exact congrArg (Function.update · sinkfd.fd.conn none) placed.cells
  · intro other listed
    refine placed.older other ?_
    rcases List.mem_append.mp listed with early | late
    · exact List.mem_append_left _ early
    · exact List.mem_append_right front (List.mem_cons_of_mem sinkfd late)

/-- The fields of a sinkfd are changed. -/
theorem Placed.updateCell {sinkfd changed : SinkFd} (placed : Placed memory ⟨true, sinks, front ++ sinkfd :: back⟩)
    (fd : changed.fd = sinkfd.fd) (sink : changed.sink = sinkfd.sink) :
    Placed (updateCell sinkfd.fd.conn changed memory) ⟨true, sinks, front ++ changed :: back⟩ := by
  have conn : changed.fd.conn = sinkfd.fd.conn := congrArg Fd.conn fd
  have conns : (front ++ changed :: back).map (·.fd.conn) = (front ++ sinkfd :: back).map (·.fd.conn) := by
    rw [List.map_append, List.map_cons, List.map_append, List.map_cons, conn]
  have table : placeTable ⟨true, sinks, front ++ changed :: back⟩ =
      placeTable ⟨true, sinks, front ++ sinkfd :: back⟩ := by
    funext place
    cases place <;> simp [placeTable, List.filter_append, List.filter_cons, conn, sink, apply_ite]
  have allocated : placeLive ⟨true, sinks, front ++ changed :: back⟩ =
      placeLive ⟨true, sinks, front ++ sinkfd :: back⟩ := by
    have inside : sinkfd ∈ front ++ sinkfd :: back := List.mem_append_right front List.mem_cons_self
    have same : ∀ id, (cellOf (front ++ changed :: back) id).isSome = (cellOf (front ++ sinkfd :: back) id).isSome := by
      intro id
      rw [cellOf_replace front back conn placed.distinct]
      by_cases own : id = sinkfd.fd.conn
      · rw [own, Function.update_self, cellOf_listed placed.distinct inside]
        rfl
      · rw [Function.update_of_ne own]
    funext place
    cases place with
    | nodeSink id => exact same id
    | nodeBus id => exact same id
    | _ => rfl
  refine ⟨table ▸ placed.rings, placed.live.trans allocated.symm, ?_, placed.attached, conns ▸ placed.distinct, ?_⟩
  · refine Eq.trans ?_ (cellOf_replace front back conn placed.distinct).symm
    exact congrArg (Function.update · sinkfd.fd.conn (some changed)) placed.cells
  · intro other listed
    have inside : other.fd.conn ∈ (front ++ changed :: back).map (·.fd.conn) := List.mem_map.mpr ⟨other, listed, rfl⟩
    rw [conns] at inside
    rcases List.mem_map.mp inside with ⟨old, there, same⟩
    exact same ▸ placed.older old there

end Changes

end InMemory
end Bus
end Extlib
