import Extlib.Machine.Simulation
import Extlib.Memory.Rings

namespace Extlib
namespace LinkedLists

open Memory Machine

/-!
# The linked lists

`list.h`: lists whose links are fields of the entries.  Every function reads
and writes the links of nodes, and does not get through when it comes to a node
that is not in memory.  Called as they are meant to be, the functions do to the
rings in memory what their names say, and nothing else.
-/

variable {Address : Type} [DecidableEq Address]

/-! ## Functions -/

/-- The addresses that mark the links of a deleted entry. -/
structure Poison (Address : Type*) where
  listPoison1 : Address
  listPoison2 : Address

/-- `node->next = target`. -/
def setNext (node target : Address) (heap : LinkHeap Address) : Option (LinkHeap Address) :=
  if heap.live node then some { heap with next := Function.update heap.next node target } else none

/-- `node->prev = target`. -/
def setPrev (node target : Address) (heap : LinkHeap Address) : Option (LinkHeap Address) :=
  if heap.live node then some { heap with prev := Function.update heap.prev node target } else none

/-- `INIT_LIST_HEAD`. -/
def initListHead (head : Address) (heap : LinkHeap Address) : Option (LinkHeap Address) := do
  let heap <- setNext head head heap
  setPrev head head heap

/-- `__list_add`. -/
def listAddBetween (new prev next : Address) (heap : LinkHeap Address) : Option (LinkHeap Address) := do
  let heap <- setPrev next new heap
  let heap <- setNext new next heap
  let heap <- setPrev new prev heap
  setNext prev new heap

def listAdd (new head : Address) (heap : LinkHeap Address) : Option (LinkHeap Address) := do
  let next <- heap.readNext head
  listAddBetween new head next heap

def listAddTail (new head : Address) (heap : LinkHeap Address) : Option (LinkHeap Address) := do
  let prev <- heap.readPrev head
  listAddBetween new prev head heap

/-- `__list_del`. -/
def listDelBetween (prev next : Address) (heap : LinkHeap Address) : Option (LinkHeap Address) := do
  let heap <- setPrev next prev heap
  setNext prev next heap

/-- `__list_del(entry->prev, entry->next)`. -/
def listUnlink (entry : Address) (heap : LinkHeap Address) : Option (LinkHeap Address) := do
  let prev <- heap.readPrev entry
  let next <- heap.readNext entry
  listDelBetween prev next heap

def listDel (poison : Poison Address) (entry : Address) (heap : LinkHeap Address) : Option (LinkHeap Address) := do
  let heap <- listUnlink entry heap
  let heap <- setNext entry poison.listPoison1 heap
  setPrev entry poison.listPoison2 heap

def listDelInit (entry : Address) (heap : LinkHeap Address) : Option (LinkHeap Address) := do
  let heap <- listUnlink entry heap
  initListHead entry heap

def listMove (list head : Address) (heap : LinkHeap Address) : Option (LinkHeap Address) := do
  let heap <- listUnlink list heap
  listAdd list head heap

def listMoveTail (list head : Address) (heap : LinkHeap Address) : Option (LinkHeap Address) := do
  let heap <- listUnlink list heap
  listAddTail list head heap

def listIsLast (list head : Address) (heap : LinkHeap Address) : Option Bool :=
  (heap.readNext list).map fun next => next = head

def listEmpty (head : Address) (heap : LinkHeap Address) : Option Bool :=
  (heap.readNext head).map fun next => next = head

def listEmptyCareful (head : Address) (heap : LinkHeap Address) : Option Bool := do
  let next <- heap.readNext head
  let prev <- heap.readPrev head
  some (next = head && next = prev)

def listIsSingular (head : Address) (heap : LinkHeap Address) : Option Bool := do
  let empty <- listEmpty head heap
  let next <- heap.readNext head
  let prev <- heap.readPrev head
  some (!empty && decide (next = prev))

/-- `malloc` of a structure with a node in it. -/
def malloc (node : Address) (heap : LinkHeap Address) : LinkHeap Address :=
  { heap with live := Function.update heap.live node true }

/-- `free`, which must not be given what is not allocated. -/
def free (node : Address) (heap : LinkHeap Address) : Option (LinkHeap Address) :=
  if heap.live node then some { heap with live := Function.update heap.live node false } else none

theorem live_malloc_self (node : Address) (heap : LinkHeap Address) : (malloc node heap).live node = true := by
  simp [malloc]

theorem live_malloc_of_ne {node other : Address} (different : other ≠ node) (heap : LinkHeap Address) :
    (malloc node heap).live other = heap.live other := by
  simp [malloc, different]

/-! ## Joins -/

section Joins

variable {heap : LinkHeap Address}

theorem initListHead_join {head : Address} (live : heap.live head) :
    initListHead head heap = some (heap.join head head) := by
  simp [initListHead, setNext, setPrev, live, LinkHeap.join]

theorem listDelBetween_join {prev next : Address} (prevLive : heap.live prev) (nextLive : heap.live next) :
    listDelBetween prev next heap = some (heap.join prev next) := by
  simp [listDelBetween, setNext, setPrev, prevLive, nextLive, LinkHeap.join]

theorem listAddBetween_join {new prev next : Address} (newLive : heap.live new) (prevLive : heap.live prev)
    (nextLive : heap.live next) :
    listAddBetween new prev next heap = some ((heap.join new next).join prev new) := by
  simp [listAddBetween, setNext, setPrev, newLive, prevLive, nextLive, LinkHeap.join]

end Joins

/-! ## What the functions do to the rings -/

section Rings

variable {heap : LinkHeap Address} {table : RingTable Address}

/-- What a function leaves: rings as the table says, in the same memory. -/
def Leaves (outcome : Option (LinkHeap Address)) (live : Address -> Bool) (table : RingTable Address) : Prop :=
  ∃ after, outcome = some after ∧ Represents after table ∧ after.live = live

theorem initListHead_represents (represents : Represents heap table) {head : Address} (loose : table.Loose head)
    (live : heap.live head) : Leaves (initListHead head heap) heap.live (Function.update table head (some [])) :=
  ⟨_, initListHead_join live, represents.init loose live, rfl⟩

/-- An entry that is linked or alone has both its neighbours in memory. -/
theorem listUnlink_represents (represents : Represents heap table) {entry : Address}
    (own : table.Linked entry ∨ table entry = some []) :
    Leaves (listUnlink entry heap) heap.live (table.detach entry) := by
  rcases represents.neighbours own with ⟨itself, before, behind⟩
  have prev : heap.readPrev entry = some (heap.prev entry) := if_pos (represents.live itself)
  have next : heap.readNext entry = some (heap.next entry) := if_pos (represents.live itself)
  refine ⟨_, ?_, represents.detach own, rfl⟩
  rw [listUnlink, prev, next]
  exact listDelBetween_join (represents.live before) (represents.live behind)

/-- An entry is put in front of a list or behind it. -/
theorem listAdd_represents (represents : Represents heap table) {new head : Address} {nodes : List Address}
    (listed : table head = some nodes) (loose : table.Loose new) (live : heap.live new) :
    Leaves (listAdd new head heap) heap.live (Function.update table head (some (new :: nodes))) := by
  have ring := represents.ring head nodes listed
  have next : heap.readNext head = some (nodes.headD head) := by
    rw [← ring.next_head]
    exact if_pos (ring.live List.mem_cons_self)
  have behind : heap.live (nodes.headD head) := by
    refine ring.live ?_
    cases nodes <;> simp
  have split : table head = some ([] ++ nodes) := listed
  refine ⟨_, ?_, represents.attach split loose live, rfl⟩
  rw [listAdd, next]
  exact listAddBetween_join live (ring.live List.mem_cons_self) behind

omit [DecidableEq Address] in
theorem represents_nothing (heap : LinkHeap Address) : Represents heap fun _ => none where
  ring := by
    intro head nodes listed
    cases listed
  apart := by
    intro head nodes other others listed
    cases listed

/-- A node may be initialised and left off the table. -/
theorem initListHead_loose (represents : Represents heap table) {node : Address} (loose : table.Loose node)
    (live : heap.live node) : Leaves (initListHead node heap) heap.live table :=
  ⟨_, initListHead_join live, represents.scribble loose fun _ apart => heap.agrees_join apart apart, rfl⟩

/-- A node that is initialised before it is put into a list. -/
theorem initAndAdd_represents (represents : Represents heap table) {new head : Address} {nodes : List Address}
    (listed : table head = some nodes) (loose : table.Loose new) (live : heap.live new) :
    Leaves ((initListHead new heap).bind (listAdd new head)) heap.live
      (Function.update table head (some (new :: nodes))) := by
  rcases initListHead_loose represents loose live with ⟨inited, inits, rings, same⟩
  rw [inits, Option.bind_some, ← same]
  exact listAdd_represents rings listed loose (same ▸ live)

theorem listAddTail_represents (represents : Represents heap table) {new head : Address} {nodes : List Address}
    (listed : table head = some nodes) (loose : table.Loose new) (live : heap.live new) :
    Leaves (listAddTail new head heap) heap.live (Function.update table head (some (nodes ++ [new]))) := by
  have ring := represents.ring head nodes listed
  have prev : heap.readPrev head = some (nodes.getLastD head) := by
    rw [← ring.prev_head]
    exact if_pos (ring.live List.mem_cons_self)
  have split : table head = some (nodes ++ []) := by rw [List.append_nil, listed]
  refine ⟨_, ?_, represents.attach split loose live, rfl⟩
  rw [listAddTail, prev]
  exact listAddBetween_join live (ring.live List.getLastD_mem_cons) (ring.live List.mem_cons_self)

theorem listDel_represents (represents : Represents heap table) (poison : Poison Address) {entry : Address}
    (own : table.Linked entry ∨ table entry = some []) :
    Leaves (listDel poison entry heap) heap.live (table.detach entry) := by
  rcases listUnlink_represents represents own with ⟨unlinked, unlinks, detached, same⟩
  have live : unlinked.live entry := by
    rw [same]
    exact represents.live (represents.neighbours own).1
  refine ⟨{ unlinked with
    next := Function.update unlinked.next entry poison.listPoison1
    prev := Function.update unlinked.prev entry poison.listPoison2 }, ?_, ?_, same⟩
  · rw [listDel, unlinks]
    simp [setNext, setPrev, live]
  · refine detached.scribble (represents.loose_detach entry) fun node different => ?_
    exact ⟨Function.update_of_ne different _ _, Function.update_of_ne different _ _, rfl⟩

theorem listDelInit_represents (represents : Represents heap table) {entry : Address}
    (own : table.Linked entry ∨ table entry = some []) :
    Leaves (listDelInit entry heap) heap.live (Function.update (table.detach entry) entry (some [])) := by
  rcases listUnlink_represents represents own with ⟨unlinked, unlinks, detached, same⟩
  have live : unlinked.live entry := by
    rw [same]
    exact represents.live (represents.neighbours own).1
  rcases initListHead_represents detached (represents.loose_detach entry) live with ⟨after, inits, held, alike⟩
  refine ⟨after, ?_, held, alike.trans same⟩
  rw [listDelInit, unlinks]
  exact inits

/-- An entry that has been deleted may be left off the table, although it is
initialised. -/
theorem listDelInit_detaches (represents : Represents heap table) {entry : Address}
    (own : table.Linked entry ∨ table entry = some []) :
    Leaves (listDelInit entry heap) heap.live (table.detach entry) := by
  rcases listDelInit_represents represents own with ⟨after, deletes, rings, same⟩
  refine ⟨after, deletes, ?_, same⟩
  have without := rings.forget entry
  rw [Function.update_idem] at without
  have gone : (none : Option (List Address)) = table.detach entry entry := (if_pos rfl).symm
  rwa [gone, Function.update_eq_self] at without

/-- A new node is in no ring. -/
theorem malloc_represents (represents : Represents heap table) {node : Address} (fresh : heap.live node = false) :
    Represents (malloc node heap) table ∧ table.Loose node := by
  have loose : table.Loose node := by
    by_contra listed
    have live := represents.live listed
    rw [fresh] at live
    cases live
  refine ⟨represents.scribble loose fun other different => ?_, loose⟩
  exact ⟨rfl, rfl, Function.update_of_ne different _ _⟩

/-- A new structure with two nodes in it, which are initialised. -/
theorem mallocPair_represents (represents : Represents heap table) {first second : Address} (different : first ≠ second)
    (fresh : heap.live first = false) (alsoFresh : heap.live second = false) :
    table.Loose first ∧ table.Loose second ∧
      Leaves ((initListHead first (malloc second (malloc first heap))).bind (initListHead second))
        (Function.update (Function.update heap.live first true) second true) table := by
  rcases malloc_represents represents fresh with ⟨one, looseFirst⟩
  have still : (malloc first heap).live second = false := (live_malloc_of_ne (Ne.symm different) heap).trans alsoFresh
  rcases malloc_represents one still with ⟨two, looseSecond⟩
  have live : (malloc second (malloc first heap)).live first := by
    rw [live_malloc_of_ne different]
    exact live_malloc_self first heap
  rcases initListHead_loose two looseFirst live with ⟨middle, inits, rings, same⟩
  have alsoLive : middle.live second := by
    rw [same]
    exact live_malloc_self second _
  rcases initListHead_loose rings looseSecond alsoLive with ⟨after, alsoInits, held, alike⟩
  refine ⟨looseFirst, looseSecond, after, ?_, held, alike.trans same⟩
  rw [inits, Option.bind_some, alsoInits]

theorem free_represents (represents : Represents heap table) {node : Address} (loose : table.Loose node)
    (live : heap.live node) :
    Leaves (free node heap) (Function.update heap.live node false) table := by
  refine ⟨_, if_pos live, represents.scribble loose fun other different => ?_, rfl⟩
  exact ⟨rfl, rfl, Function.update_of_ne different _ _⟩

/-- A node that is alone may be freed. -/
theorem free_alone (represents : Represents heap table) {node : Address} (alone : table node = some []) :
    Leaves (free node heap) (Function.update heap.live node false) (Function.update table node none) := by
  have live : heap.live node := represents.live fun loose => loose node [] alone List.mem_cons_self
  have rings := represents.forget node
  have loose := represents.loose_detach node
  rw [represents.detach_alone alone] at loose
  exact free_represents rings loose live

end Rings

/-! ## What the functions tell of a ring -/

section Questions

variable {heap : LinkHeap Address} {head : Address} {nodes : List Address} (ring : heap.Ring head nodes)
include ring

theorem listEmpty_ring : listEmpty head heap = some nodes.isEmpty := by
  rw [listEmpty, LinkHeap.readNext, if_pos (ring.live List.mem_cons_self), Option.map_some, ring.next_head]
  have empty := LinkHeap.headD_eq_head_iff ring.distinct
  exact congrArg some (Bool.eq_iff_iff.mpr (decide_eq_true_iff.trans empty))

theorem listEmptyCareful_ring : listEmptyCareful head heap = some nodes.isEmpty := by
  have live := ring.live List.mem_cons_self
  have first := LinkHeap.headD_eq_head_iff ring.distinct
  simp only [listEmptyCareful, LinkHeap.readNext, LinkHeap.readPrev, if_pos live, ring.next_head, ring.prev_head,
    Option.bind_eq_bind, Option.bind_some, Option.some.injEq]
  cases nodes with
  | nil => simp
  | cons node nodes =>
      rw [decide_eq_false (fun same => Bool.false_ne_true (first.mp same)), Bool.false_and]
      rfl

theorem listIsSingular_ring : listIsSingular head heap = some (decide (nodes.length = 1)) := by
  have live := ring.live List.mem_cons_self
  have ends := LinkHeap.headD_eq_getLastD_iff ring.distinct
  simp only [listIsSingular, listEmpty_ring ring, LinkHeap.readNext, LinkHeap.readPrev, if_pos live, ring.next_head,
    ring.prev_head, Option.bind_eq_bind, Option.bind_some, Option.some.injEq]
  rw [Bool.eq_iff_iff, Bool.and_eq_true, decide_eq_true_iff, decide_eq_true_iff, ends]
  cases nodes with
  | nil => simp
  | cons node nodes => simp

theorem listIsLast_ring {list : Address} (member : list ∈ head :: nodes) :
    listIsLast list head heap = some (decide (nodes.getLastD head = list)) := by
  rw [listIsLast, LinkHeap.readNext, if_pos (ring.live member), Option.map_some, Option.some.injEq, decide_eq_decide]
  rcases List.mem_cons.mp member with rfl | inside
  · rw [ring.next_head, LinkHeap.headD_eq_head_iff ring.distinct]
    cases nodes with
    | nil => exact iff_of_true rfl rfl
    | cons node nodes =>
        refine iff_of_false Bool.false_ne_true fun same => ?_
        rw [List.getLastD_cons] at same
        exact (List.nodup_cons.mp ring.distinct).1 (same ▸ List.getLastD_mem_cons)
  · rcases List.append_of_mem inside with ⟨front, back, rfl⟩
    rw [ring.joined_next.1]
    exact LinkHeap.headD_eq_head_iff_getLastD ring.distinct

end Questions

/-! ## Runs -/

/-- A call of the program, or a use of the memory allocator. -/
inductive ListCall (Address : Type) where
  | malloc (node : Address)
  | free (node : Address)
  | initListHead (head : Address)
  | listAdd (new head : Address)
  | listAddTail (new head : Address)
  | listDel (entry : Address)
  | listDelInit (entry : Address)
  | listMove (list head : Address)
  | listMoveTail (list head : Address)
  | listEmpty (head : Address)
  | listEmptyCareful (head : Address)
  | listIsSingular (head : Address)
  | listIsLast (list head : Address)
  | listFirstEntry (head : Address)
  | listLastEntry (head : Address)

inductive ListReply (Address : Type) where
  | done
  | flag (value : Bool)
  | entry (node : Address)

def listStep (poison : Poison Address) (heap : LinkHeap Address) :
    ListCall Address -> Option (LinkHeap Address × ListReply Address)
  | .malloc node => some (malloc node heap, .done)
  | .free node => (free node heap).map fun after => (after, .done)
  | .initListHead head => (initListHead head heap).map fun after => (after, .done)
  | .listAdd new head => (listAdd new head heap).map fun after => (after, .done)
  | .listAddTail new head => (listAddTail new head heap).map fun after => (after, .done)
  | .listDel entry => (listDel poison entry heap).map fun after => (after, .done)
  | .listDelInit entry => (listDelInit entry heap).map fun after => (after, .done)
  | .listMove list head => (listMove list head heap).map fun after => (after, .done)
  | .listMoveTail list head => (listMoveTail list head heap).map fun after => (after, .done)
  | .listEmpty head => (listEmpty head heap).map fun value => (heap, .flag value)
  | .listEmptyCareful head => (listEmptyCareful head heap).map fun value => (heap, .flag value)
  | .listIsSingular head => (listIsSingular head heap).map fun value => (heap, .flag value)
  | .listIsLast list head => (listIsLast list head heap).map fun value => (heap, .flag value)
  | .listFirstEntry head => (heap.readNext head).map fun node => (heap, .entry node)
  | .listLastEntry head => (heap.readPrev head).map fun node => (heap, .entry node)

/-- The lists without the links: what each head holds, and which nodes are
allocated. -/
structure PlainLists (Address : Type) where
  table : RingTable Address
  live : Address -> Bool

/-- Put an entry that may be in a list into another one. -/
def PlainLists.putInto (lists : PlainLists Address) (new head : Address)
    (place : List Address -> List Address) : PlainLists Address :=
  { lists with
    table := Function.update (lists.table.detach new) head ((lists.table.detach new head).map place) }

/-- What the calls are meant to do. -/
def plainStep (lists : PlainLists Address) : ListCall Address -> PlainLists Address × ListReply Address
  | .malloc node => ({ lists with live := Function.update lists.live node true }, .done)
  | .free node => (⟨lists.table.detach node, Function.update lists.live node false⟩, .done)
  | .initListHead head => ({ lists with table := Function.update lists.table head (some []) }, .done)
  | .listAdd new head => (lists.putInto new head fun nodes => new :: nodes, .done)
  | .listAddTail new head => (lists.putInto new head fun nodes => nodes ++ [new], .done)
  | .listDel entry => ({ lists with table := lists.table.detach entry }, .done)
  | .listDelInit entry =>
      ({ lists with table := Function.update (lists.table.detach entry) entry (some []) }, .done)
  | .listMove list head => (lists.putInto list head fun nodes => list :: nodes, .done)
  | .listMoveTail list head => (lists.putInto list head fun nodes => nodes ++ [list], .done)
  | .listEmpty head => (lists, .flag (((lists.table head).getD []).isEmpty))
  | .listEmptyCareful head => (lists, .flag (((lists.table head).getD []).isEmpty))
  | .listIsSingular head => (lists, .flag (((lists.table head).getD []).length = 1))
  | .listIsLast list head => (lists, .flag (((lists.table head).getD []).getLastD head = list))
  | .listFirstEntry head => (lists, .entry (((lists.table head).getD []).headD head))
  | .listLastEntry head => (lists, .entry (((lists.table head).getD []).getLastD head))

/-- The entry is in no list.  It may have been initialised. -/
def PlainLists.Apart (lists : PlainLists Address) (node : Address) : Prop :=
  lists.table.Loose node ∨ lists.table node = some []

/-- How the calls are meant to be used. -/
def PlainLists.Allows (lists : PlainLists Address) : ListCall Address -> Prop
  | .malloc node => lists.live node = false
  | .free node => lists.live node ∧ lists.Apart node
  | .initListHead head => lists.live head ∧ lists.Apart head
  | .listAdd new head => lists.live new ∧ lists.Apart new ∧ new ≠ head ∧ (lists.table head).isSome
  | .listAddTail new head => lists.live new ∧ lists.Apart new ∧ new ≠ head ∧ (lists.table head).isSome
  | .listDel entry => lists.table.Linked entry ∨ lists.table entry = some []
  | .listDelInit entry => lists.table.Linked entry ∨ lists.table entry = some []
  | .listMove list head =>
      (lists.table.Linked list ∨ lists.table list = some []) ∧ list ≠ head ∧ (lists.table head).isSome
  | .listMoveTail list head =>
      (lists.table.Linked list ∨ lists.table list = some []) ∧ list ≠ head ∧ (lists.table head).isSome
  | .listIsLast list head => ∃ nodes, lists.table head = some nodes ∧ list ∈ head :: nodes
  | .listEmpty head => (lists.table head).isSome
  | .listEmptyCareful head => (lists.table head).isSome
  | .listIsSingular head => (lists.table head).isSome
  | .listFirstEntry head => (lists.table head).isSome
  | .listLastEntry head => (lists.table head).isSome

section Runs

variable {heap : LinkHeap Address} {lists : PlainLists Address} (poison : Poison Address)

/-- The lists that are in memory. -/
structure Held (heap : LinkHeap Address) (lists : PlainLists Address) : Prop where
  rings : Represents heap lists.table
  live : heap.live = lists.live

/-- A node that is in no list may be left off the table. -/
theorem Held.detach_apart (held : Held heap lists) {node : Address} (apart : lists.Apart node) :
    Represents heap (lists.table.detach node) := by
  rcases apart with loose | alone
  · rw [Represents.detach_loose loose]
    exact held.rings
  · rw [held.rings.detach_alone alone]
    exact held.rings.forget node

theorem detach_other {table : RingTable Address} {node head : Address} {nodes : List Address} (different : node ≠ head)
    (listed : table head = some nodes) : table.detach node head = some (nodes.erase node) := by
  rw [RingTable.detach, if_neg (Ne.symm different), listed, Option.map_some]

theorem Held.update_apart (held : Held heap lists) {node : Address} (apart : lists.Apart node)
    (nodes : Option (List Address)) :
    Function.update (lists.table.detach node) node nodes = Function.update lists.table node nodes := by
  rcases apart with loose | alone
  · rw [Represents.detach_loose loose]
  · rw [held.rings.detach_alone alone, Function.update_idem]

/-- An entry that is in no list is put into one. -/
theorem Held.listAdd (held : Held heap lists) {new head : Address} (live : lists.live new)
    (detached : Represents heap (lists.table.detach new)) (different : new ≠ head) (listed : (lists.table head).isSome) :
    (∃ after, listAdd new head heap = some after ∧ Held after (lists.putInto new head fun nodes => new :: nodes)) ∧
      ∃ after, listAddTail new head heap = some after ∧
        Held after (lists.putInto new head fun nodes => nodes ++ [new]) := by
  rcases Option.isSome_iff_exists.mp listed with ⟨nodes, holds⟩
  have others := detach_other different holds
  have loose := held.rings.loose_detach new
  have present : heap.live new := held.live ▸ live
  constructor
  · rcases listAdd_represents detached others loose present with ⟨after, adds, rings, same⟩
    refine ⟨after, adds, ?_, same.trans held.live⟩
    rw [PlainLists.putInto, others]
    exact rings
  · rcases listAddTail_represents detached others loose present with ⟨after, adds, rings, same⟩
    refine ⟨after, adds, ?_, same.trans held.live⟩
    rw [PlainLists.putInto, others]
    exact rings

/-- An entry is taken out of its list and put into another one. -/
theorem Held.listMove (held : Held heap lists) {list head : Address}
    (own : lists.table.Linked list ∨ lists.table list = some []) (different : list ≠ head)
    (listed : (lists.table head).isSome) :
    (∃ after, listMove list head heap = some after ∧ Held after (lists.putInto list head fun nodes => list :: nodes)) ∧
      ∃ after, listMoveTail list head heap = some after ∧
        Held after (lists.putInto list head fun nodes => nodes ++ [list]) := by
  rcases listUnlink_represents held.rings own with ⟨unlinked, unlinks, detached, same⟩
  have taken : Held unlinked { lists with table := lists.table.detach list } := ⟨detached, same.trans held.live⟩
  have live : lists.live list := by
    rw [← held.live]
    exact held.rings.live (held.rings.neighbours own).1
  have loose := held.rings.loose_detach list
  have twice : (lists.table.detach list).detach list = lists.table.detach list := Represents.detach_loose loose
  have still : ((lists.table.detach list) head).isSome := by
    rw [RingTable.detach, if_neg (Ne.symm different), Option.isSome_map]
    exact listed
  have adds := taken.listAdd live (twice.symm ▸ detached) different still
  rw [PlainLists.putInto, PlainLists.putInto] at adds
  dsimp only at adds
  rw [twice] at adds
  rw [LinkedLists.listMove, LinkedLists.listMoveTail, unlinks]
  exact adds

omit [DecidableEq Address] in
/-- What a list that is in memory answers. -/
theorem Held.ring (held : Held heap lists) {head : Address} (listed : (lists.table head).isSome) :
    ∃ nodes, lists.table head = some nodes ∧ heap.Ring head nodes ∧
      heap.readNext head = some (nodes.headD head) ∧ heap.readPrev head = some (nodes.getLastD head) := by
  rcases Option.isSome_iff_exists.mp listed with ⟨nodes, holds⟩
  have ring := held.rings.ring head nodes holds
  have live := ring.live List.mem_cons_self
  refine ⟨nodes, holds, ring, ?_, ?_⟩
  · rw [LinkHeap.readNext, if_pos live, ring.next_head]
  · rw [LinkHeap.readPrev, if_pos live, ring.prev_head]

/-- A call that is allowed gets through and does what it is meant to. -/
theorem listStep_plain (held : Held heap lists) {call : ListCall Address} (allows : lists.Allows call) :
    ∃ after, listStep poison heap call = some (after, (plainStep lists call).2) ∧
      Held after (plainStep lists call).1 := by
  cases call with
  | malloc node =>
      have fresh : heap.live node = false := by
        rw [held.live]
        exact allows
      refine ⟨_, rfl, (malloc_represents held.rings fresh).1, ?_⟩
      rw [malloc, held.live]
      rfl
  | free node =>
      have live : heap.live node := held.live ▸ allows.1
      rcases free_represents (held.detach_apart allows.2) (held.rings.loose_detach node) live with
        ⟨after, frees, rings, same⟩
      refine ⟨after, by rw [listStep, frees]; rfl, rings, ?_⟩
      rw [same, held.live]
      rfl
  | initListHead head =>
      have live : heap.live head := held.live ▸ allows.1
      rcases initListHead_represents (held.detach_apart allows.2) (held.rings.loose_detach head) live with
        ⟨after, inits, rings, same⟩
      refine ⟨after, by rw [listStep, inits]; rfl, ?_, same.trans held.live⟩
      rw [held.update_apart allows.2] at rings
      exact rings
  | listAdd new head =>
      rcases allows with ⟨live, apart, different, listed⟩
      rcases (held.listAdd live (held.detach_apart apart) different listed).1 with ⟨after, adds, stays⟩
      exact ⟨after, by rw [listStep, adds]; rfl, stays⟩
  | listAddTail new head =>
      rcases allows with ⟨live, apart, different, listed⟩
      rcases (held.listAdd live (held.detach_apart apart) different listed).2 with ⟨after, adds, stays⟩
      exact ⟨after, by rw [listStep, adds]; rfl, stays⟩
  | listDel entry =>
      rcases listDel_represents held.rings poison allows with ⟨after, deletes, rings, same⟩
      exact ⟨after, by rw [listStep, deletes]; rfl, rings, same.trans held.live⟩
  | listDelInit entry =>
      rcases listDelInit_represents held.rings allows with ⟨after, deletes, rings, same⟩
      exact ⟨after, by rw [listStep, deletes]; rfl, rings, same.trans held.live⟩
  | listMove list head =>
      rcases (held.listMove allows.1 allows.2.1 allows.2.2).1 with ⟨after, moves, stays⟩
      exact ⟨after, by rw [listStep, moves]; rfl, stays⟩
  | listMoveTail list head =>
      rcases (held.listMove allows.1 allows.2.1 allows.2.2).2 with ⟨after, moves, stays⟩
      exact ⟨after, by rw [listStep, moves]; rfl, stays⟩
  | listEmpty head =>
      rcases held.ring allows with ⟨nodes, holds, ring, _⟩
      refine ⟨heap, ?_, held⟩
      rw [listStep, listEmpty_ring ring, plainStep, holds]
      rfl
  | listEmptyCareful head =>
      rcases held.ring allows with ⟨nodes, holds, ring, _⟩
      refine ⟨heap, ?_, held⟩
      rw [listStep, listEmptyCareful_ring ring, plainStep, holds]
      rfl
  | listIsSingular head =>
      rcases held.ring allows with ⟨nodes, holds, ring, _⟩
      refine ⟨heap, ?_, held⟩
      rw [listStep, listIsSingular_ring ring, plainStep, holds]
      rfl
  | listIsLast list head =>
      rcases allows with ⟨nodes, holds, member⟩
      refine ⟨heap, ?_, held⟩
      rw [listStep, listIsLast_ring (held.rings.ring head nodes holds) member, plainStep, holds]
      rfl
  | listFirstEntry head =>
      rcases held.ring allows with ⟨nodes, holds, _, next, _⟩
      refine ⟨heap, ?_, held⟩
      rw [listStep, next, plainStep, holds]
      rfl
  | listLastEntry head =>
      rcases held.ring allows with ⟨nodes, holds, _, _, prev⟩
      refine ⟨heap, ?_, held⟩
      rw [listStep, prev, plainStep, holds]
      rfl

/-- Nothing in memory, and so nothing in any list. -/
def PlainLists.none : PlainLists Address := ⟨fun _ => .none, fun _ => false⟩

/-- Every run of calls that are allowed gets through, answers as the plain
lists do and leaves them in memory. -/
theorem listRun_plain {calls : List (ListCall Address)} :
    ∀ {heap : LinkHeap Address} {lists : PlainLists Address}, Held heap lists ->
      EveryInput (fun lists call => some (plainStep lists call)) PlainLists.Allows lists calls ->
        ∃ after, runReplies (listStep poison) heap calls = some (after, (runAll plainStep lists calls).2) ∧
          Held after (runAll plainStep lists calls).1 := by
  induction calls with
  | nil => exact fun held _ => ⟨_, rfl, held⟩
  | cons call calls inductionHypothesis =>
      intro heap lists held every
      rcases listStep_plain poison held every.1 with ⟨next, steps, here⟩
      rcases inductionHypothesis here (every.2 _ rfl) with ⟨last, runs, there⟩
      refine ⟨last, ?_, there⟩
      rw [runReplies, steps, Option.bind_some]
      dsimp only
      rw [runs, Option.map_some]
      rfl

/-- Called as they are meant to be, from nothing on, the functions never touch
what is not in memory, answer what the lists answer, and hold them: each ring
has the entries of its list in order, and no two rings share a node. -/
theorem run_holdsLists (prev next : Address -> Address) {calls : List (ListCall Address)}
    (allowed : EveryInput (fun lists call => some (plainStep lists call)) PlainLists.Allows .none calls) :
    ∃ after, runReplies (listStep poison) ⟨prev, next, fun _ => false⟩ calls =
        some (after, (runAll plainStep .none calls).2) ∧
      Represents after (runAll plainStep .none calls).1.table ∧ after.live = (runAll plainStep .none calls).1.live := by
  have start : Held ⟨prev, next, fun _ => false⟩ (PlainLists.none : PlainLists Address) := by
    refine ⟨⟨?_, ?_⟩, rfl⟩
    · intro head nodes listed
      cases listed
    · intro head nodes other others listed
      cases listed
  rcases listRun_plain poison start allowed with ⟨after, runs, held⟩
  exact ⟨after, runs, held.rings, held.live⟩

/-- A list of two, the first of which is taken out and freed. -/
private def shortRun : List (ListCall Nat) :=
  [.malloc 0, .initListHead 0, .malloc 1, .listAdd 1 0, .malloc 2, .listAddTail 2 0, .listIsLast 2 0, .listDel 1,
    .free 1, .listIsSingular 0]

private theorem shortRun_allowed :
    EveryInput (fun lists call => some (plainStep lists call)) PlainLists.Allows .none shortRun := by
  simp [shortRun, EveryInput, PlainLists.Allows, plainStep, PlainLists.none, PlainLists.Apart, RingTable.Loose,
    PlainLists.putInto, RingTable.detach, Function.update_apply, RingTable.Linked]
  refine ⟨?_, ⟨0, [1, 2], by simp, by simp⟩, ?_⟩
  · grind
  · grind

theorem run_holdsLists_shortRun : ∃ after, runReplies (listStep ⟨100, 200⟩) ⟨id, id, fun _ => false⟩ shortRun =
        some (after, (runAll plainStep .none shortRun).2) ∧
      Represents after (runAll plainStep .none shortRun).1.table ∧
        after.live = (runAll plainStep .none shortRun).1.live :=
  run_holdsLists ⟨100, 200⟩ id id shortRun_allowed

end Runs

end LinkedLists
end Extlib
