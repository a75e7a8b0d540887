import Mathlib.Data.List.Chain
import Mathlib.Data.List.Nodup
import Mathlib.Logic.Function.Basic

namespace Extlib
namespace Memory

/-!
# Rings of linked nodes

Nodes in memory, each with a link to the node before it and one to the node
behind it.  A ring is a head with the nodes that are reached from it by the
links, in order and back again.  To put a node into a ring or to take one out
is to join two pairs of neighbours or one, and the rest of the ring does not
notice.

A table says for each head what its ring holds.  No node is in two rings, so an
update of one ring leaves the others as they are.
-/

variable {Address : Type*}

/-- The links of every node.  An address that is not live has not been
allocated, or has been freed. -/
structure LinkHeap (Address : Type*) where
  prev : Address -> Address
  next : Address -> Address
  live : Address -> Bool

namespace LinkHeap

def readNext (heap : LinkHeap Address) (node : Address) : Option Address :=
  if heap.live node then some (heap.next node) else none

def readPrev (heap : LinkHeap Address) (node : Address) : Option Address :=
  if heap.live node then some (heap.prev node) else none

/-- The one node is the next of the other, which is the one before it. -/
def Joined (heap : LinkHeap Address) (left right : Address) : Prop := heap.next left = right ∧ heap.prev right = left

/-- What is in memory at a node stays the same. -/
structure Agrees (before after : LinkHeap Address) (node : Address) : Prop where
  next : after.next node = before.next node
  prev : after.prev node = before.prev node
  live : after.live node = before.live node

theorem Agrees.trans {first second third : LinkHeap Address} {node : Address} (left : first.Agrees second node)
    (right : second.Agrees third node) : first.Agrees third node where
  next := right.next.trans left.next
  prev := right.prev.trans left.prev
  live := right.live.trans left.live

/-! ## Paths -/

/-- Nodes that are joined one to the next.  A path may end where it began. -/
structure Path (heap : LinkHeap Address) (path : List Address) : Prop where
  sources : path.dropLast.Nodup
  targets : path.tail.Nodup
  live : ∀ node ∈ path, heap.live node
  joined : path.IsChain heap.Joined

/-- The links that a path goes along are those out of all its nodes but the
last and into all but the first. -/
theorem chain_congr {before after : LinkHeap Address} {path : List Address}
    (next : ∀ node ∈ path.dropLast, after.next node = before.next node)
    (prev : ∀ node ∈ path.tail, after.prev node = before.prev node) (joined : path.IsChain before.Joined) :
    path.IsChain after.Joined := by
  induction path with
  | nil => exact List.isChain_nil
  | cons left rest inductionHypothesis =>
      cases rest with
      | nil => exact List.isChain_singleton left
      | cons right rest =>
          rw [List.isChain_cons_cons] at joined ⊢
          rw [List.dropLast_cons_cons] at next
          rw [List.tail_cons] at prev
          refine ⟨⟨?_, ?_⟩, inductionHypothesis ?_ ?_ joined.2⟩
          · exact (next left List.mem_cons_self).trans joined.1.1
          · exact (prev right List.mem_cons_self).trans joined.1.2
          · exact fun node member => next node (List.mem_cons_of_mem left member)
          · exact fun node member => prev node (List.mem_cons_of_mem right member)

theorem Path.frame {before after : LinkHeap Address} {path : List Address} (holds : before.Path path)
    (same : ∀ node ∈ path, before.Agrees after node) : after.Path path where
  sources := holds.sources
  targets := holds.targets
  live := by
    intro node member
    rw [(same node member).live]
    exact holds.live node member
  joined := by
    refine chain_congr ?_ ?_ holds.joined
    · exact fun node member => (same node (List.dropLast_subset path member)).next
    · exact fun node member => (same node (List.mem_of_mem_tail member)).prev

variable [DecidableEq Address]

/-- Make two nodes neighbours. -/
def join (heap : LinkHeap Address) (left right : Address) : LinkHeap Address :=
  { heap with
    next := Function.update heap.next left right
    prev := Function.update heap.prev right left }

@[simp] theorem live_join (heap : LinkHeap Address) (left right : Address) :
    (heap.join left right).live = heap.live := rfl

theorem joined_join (heap : LinkHeap Address) (left right : Address) : (heap.join left right).Joined left right := by
  constructor
  · exact Function.update_self left right heap.next
  · exact Function.update_self right left heap.prev

theorem next_join_of_ne (heap : LinkHeap Address) {left node : Address} (right : Address) (other : node ≠ left) :
    (heap.join left right).next node = heap.next node := Function.update_of_ne other _ _

theorem prev_join_of_ne (heap : LinkHeap Address) {right node : Address} (left : Address) (other : node ≠ right) :
    (heap.join left right).prev node = heap.prev node := Function.update_of_ne other _ _

theorem agrees_join (heap : LinkHeap Address) {left right node : Address} (notLeft : node ≠ left)
    (notRight : node ≠ right) : heap.Agrees (heap.join left right) node where
  next := heap.next_join_of_ne right notLeft
  prev := heap.prev_join_of_ne left notRight
  live := rfl

theorem Joined.join {heap : LinkHeap Address} {source target left right : Address} (joined : heap.Joined source target)
    (notLeft : source ≠ left) (notRight : target ≠ right) : (heap.join left right).Joined source target where
  left := (heap.next_join_of_ne right notLeft).trans joined.1
  right := (heap.prev_join_of_ne left notRight).trans joined.2

/-- A join past the sources and the targets of a path. -/
theorem chain_join {heap : LinkHeap Address} {left right : Address} {path : List Address}
    (notLeft : left ∉ path.dropLast) (notRight : right ∉ path.tail) (joined : path.IsChain heap.Joined) :
    path.IsChain (heap.join left right).Joined := by
  refine chain_congr ?_ ?_ joined
  · exact fun node member => heap.next_join_of_ne right (ne_of_mem_of_not_mem member notLeft)
  · exact fun node member => heap.prev_join_of_ne left (ne_of_mem_of_not_mem member notRight)

omit [DecidableEq Address] in
theorem dropLast_around (front between back : List Address) (left right : Address) :
    (front ++ left :: (between ++ right :: back)).dropLast =
      front ++ left :: (between ++ (right :: back).dropLast) := by
  rw [← List.cons_append, ← List.append_assoc, List.dropLast_append_cons, List.append_assoc, List.cons_append]

omit [DecidableEq Address] in
theorem tail_around (front between back : List Address) (left right : Address) :
    (front ++ left :: (between ++ right :: back)).tail = (front ++ [left]).tail ++ (between ++ right :: back) := by
  rw [List.append_cons, List.tail_append_of_ne_nil (List.append_ne_nil_of_right_ne_nil front (List.cons_ne_nil _ _))]

/-- Two joins put a node between two neighbours. -/
theorem Path.insert {heap : LinkHeap Address} {front back : List Address} {left right node : Address}
    (path : heap.Path (front ++ left :: right :: back)) (fresh : node ∉ front ++ left :: right :: back)
    (live : heap.live node) :
    ((heap.join node right).join left node).Path (front ++ left :: node :: right :: back) := by
  have sources := path.sources
  have targets := path.targets
  have sourcesAfter := dropLast_around front [node] back left right
  have targetsAfter := tail_around front [node] back left right
  rw [show right :: back = [] ++ right :: back from rfl, dropLast_around] at sources
  rw [show right :: back = [] ++ right :: back from rfl, tail_around] at targets
  rw [List.nil_append] at sources targets
  rw [List.singleton_append] at sourcesAfter targetsAfter
  have split := List.isChain_split.mp path.joined
  rw [List.isChain_cons_cons] at split
  simp only [List.mem_append, List.mem_cons, not_or] at fresh
  rcases fresh with ⟨notFront, notLeft, notRight, notBack⟩
  have outside : node ∉ (right :: back).dropLast := fun member =>
    (List.mem_cons.mp (List.dropLast_subset _ member)).elim notRight notBack
  have before : node ∉ (front ++ [left]).tail := by
    intro member
    rcases List.mem_append.mp (List.mem_of_mem_tail member) with early | here
    · exact notFront early
    · exact notLeft (List.mem_singleton.mp here)
  constructor
  · rw [sourcesAfter]
    grind
  · rw [targetsAfter]
    grind
  · intro other member
    simp only [List.mem_append, List.mem_cons] at member
    rcases member with early | rfl | rfl | rfl | late
    · exact path.live other (List.mem_append_left _ early)
    · exact path.live other (by simp)
    · exact live
    · exact path.live other (by simp)
    · exact path.live other (by simp [late])
  · refine List.isChain_split.mpr ⟨?_, ?_⟩
    · refine chain_join ?_ ?_ (chain_join ?_ ?_ split.1)
      · grind
      · grind
      · grind
      · grind
    · rw [List.isChain_cons_cons, List.isChain_cons_cons]
      refine ⟨joined_join _ left node, ?_, ?_⟩
      · exact (joined_join heap node right).join notLeft (Ne.symm notRight)
      · refine chain_join ?_ ?_ (chain_join ?_ ?_ split.2.2)
        · grind
        · grind
        · grind
        · grind

/-- One join takes a node out from between its neighbours. -/
theorem Path.remove {heap : LinkHeap Address} {front back : List Address} {left node right : Address}
    (path : heap.Path (front ++ left :: node :: right :: back)) :
    (heap.join left right).Path (front ++ left :: right :: back) := by
  have sources := path.sources
  have targets := path.targets
  have sourcesAfter := dropLast_around front [] back left right
  have targetsAfter := tail_around front [] back left right
  rw [show node :: right :: back = [node] ++ right :: back from rfl, dropLast_around] at sources
  rw [show node :: right :: back = [node] ++ right :: back from rfl, tail_around] at targets
  rw [List.singleton_append] at sources targets
  rw [List.nil_append] at sourcesAfter targetsAfter
  have split := List.isChain_split.mp path.joined
  rw [List.isChain_cons_cons, List.isChain_cons_cons] at split
  constructor
  · rw [sourcesAfter]
    grind
  · rw [targetsAfter]
    grind
  · intro other member
    refine path.live other ?_
    simp only [List.mem_append, List.mem_cons] at member ⊢
    tauto
  · refine List.isChain_split.mpr ⟨chain_join ?_ ?_ split.1, ?_⟩
    · grind
    · grind
    · rw [List.isChain_cons_cons]
      refine ⟨joined_join heap left right, chain_join ?_ ?_ split.2.2.2⟩
      · grind
      · grind

/-! ## Rings -/

/-- The nodes between a head and itself. -/
def Ring (heap : LinkHeap Address) (head : Address) (nodes : List Address) : Prop :=
  heap.Path (head :: (nodes ++ [head]))

section Rings

omit [DecidableEq Address]

theorem getLastD_split (head : Address) (front : List Address) :
    ∃ before, head :: front = before ++ [front.getLastD head] := by
  refine ⟨(head :: front).dropLast, ?_⟩
  rw [← List.getLast_eq_getLastD (List.cons_ne_nil head front), List.dropLast_append_getLast]

theorem headD_split (head : Address) (back : List Address) :
    ∃ after, back ++ [head] = back.headD head :: after := by
  cases back with
  | nil => exact ⟨[], rfl⟩
  | cons next back => exact ⟨back ++ [head], rfl⟩

/-- The path of a ring around any place in it. -/
theorem path_around (head : Address) (front back : List Address) :
    ∃ before after, ∀ between, head :: (front ++ between ++ back ++ [head]) =
      before ++ front.getLastD head :: (between ++ back.headD head :: after) := by
  rcases getLastD_split head front with ⟨before, ahead⟩
  rcases headD_split head back with ⟨after, behind⟩
  refine ⟨before, after, fun between => ?_⟩
  rw [List.append_assoc, List.append_assoc, behind, ← List.cons_append, ahead, List.append_assoc,
    List.singleton_append]

theorem headD_eq_head_iff {head : Address} {nodes : List Address} (distinct : (head :: nodes).Nodup) :
    nodes.headD head = head ↔ nodes.isEmpty := by
  cases nodes with
  | nil => exact iff_of_true rfl rfl
  | cons node nodes =>
      have outside := (List.nodup_cons.mp distinct).1
      exact iff_of_false (fun same => outside (same ▸ List.mem_cons_self)) Bool.false_ne_true

theorem headD_eq_getLastD_iff {head : Address} {nodes : List Address} (distinct : (head :: nodes).Nodup) :
    nodes.headD head = nodes.getLastD head ↔ nodes.length ≤ 1 := by
  cases nodes with
  | nil => exact iff_of_true rfl (Nat.zero_le 1)
  | cons node nodes =>
      cases nodes with
      | nil => exact iff_of_true rfl (Nat.le_refl 1)
      | cons second nodes =>
          have later : (node :: second :: nodes).getLastD head ∈ second :: nodes := by
            rw [List.getLastD_cons, List.getLastD_cons]
            exact List.getLastD_mem_cons
          have outside := (List.nodup_cons.mp (List.nodup_cons.mp distinct).2).1
          refine iff_of_false ?_ (by simp)
          intro same
          rw [← same] at later
          exact outside later

/-- The last entry of a list is the one before its head. -/
theorem headD_eq_head_iff_getLastD {head list : Address} {front back : List Address}
    (distinct : (head :: (front ++ list :: back)).Nodup) :
    back.headD head = head ↔ (front ++ list :: back).getLastD head = list := by
  have back_last : (front ++ list :: back).getLastD head = back.getLastD list := by
    rw [List.getLastD_eq_getLast?, List.getLast?_append, List.getLast?_cons, Option.some_or, Option.getD_some,
      List.getLastD_eq_getLast?]
  have parts := List.nodup_cons.mp distinct
  rw [List.mem_append, List.mem_cons, not_or, not_or] at parts
  have inner := List.nodup_cons.mp (List.nodup_append.mp parts.2).2.1
  rw [back_last]
  cases back with
  | nil => exact iff_of_true rfl rfl
  | cons next back =>
      refine iff_of_false (fun same => parts.1.2.2 (same ▸ List.mem_cons_self)) ?_
      rw [List.getLastD_cons]
      exact fun same => inner.1 (same ▸ List.getLastD_mem_cons)

variable {heap : LinkHeap Address} {head : Address}

theorem Ring.distinct {nodes : List Address} (ring : heap.Ring head nodes) : (head :: nodes).Nodup := by
  have sources := ring.sources
  rwa [← List.cons_append, List.dropLast_concat] at sources

theorem Ring.live {nodes : List Address} (ring : heap.Ring head nodes) {node : Address}
    (member : node ∈ head :: nodes) : heap.live node := by
  refine Path.live ring node ?_
  rw [← List.cons_append]
  exact List.mem_append_left _ member

theorem Ring.frame {after : LinkHeap Address} {nodes : List Address} (ring : heap.Ring head nodes)
    (same : ∀ node ∈ head :: nodes, heap.Agrees after node) : after.Ring head nodes := by
  refine Path.frame ring fun node member => same node ?_
  simp only [List.mem_cons, List.mem_append, List.not_mem_nil, or_false] at member ⊢
  tauto

/-- Two nodes next to each other. -/
theorem Ring.joined_between {front back : List Address} (ring : heap.Ring head (front ++ back)) :
    heap.Joined (front.getLastD head) (back.headD head) := by
  rcases path_around head front back with ⟨before, after, around⟩
  have joined := ring.joined
  have whole := around []
  rw [List.append_nil, List.nil_append] at whole
  rw [whole, List.isChain_append_cons_cons] at joined
  exact joined.2.1

theorem Ring.joined_prev {front back : List Address} {node : Address} (ring : heap.Ring head (front ++ node :: back)) :
    heap.Joined (front.getLastD head) node := ring.joined_between

theorem Ring.joined_next {front back : List Address} {node : Address} (ring : heap.Ring head (front ++ node :: back)) :
    heap.Joined node (back.headD head) := by
  rw [List.append_cons] at ring
  have joined := ring.joined_between
  rwa [List.getLastD_concat] at joined

theorem Ring.next_head {nodes : List Address} (ring : heap.Ring head nodes) : heap.next head = nodes.headD head :=
  (Ring.joined_between (List.nil_append nodes ▸ ring)).1

theorem Ring.prev_head {nodes : List Address} (ring : heap.Ring head nodes) :
    heap.prev head = nodes.getLastD head :=
  (Ring.joined_between (List.append_nil nodes ▸ ring)).2

end Rings

theorem ring_init {heap : LinkHeap Address} {head : Address} (live : heap.live head) :
    (heap.join head head).Ring head [] where
  sources := by simp
  targets := by simp
  live := by simpa using live
  joined := by simpa using joined_join heap head head

/-- A node is put between two parts of a ring. -/
theorem Ring.insert {heap : LinkHeap Address} {head node : Address} {front back : List Address}
    (ring : heap.Ring head (front ++ back)) (fresh : node ∉ head :: (front ++ back)) (live : heap.live node) :
    ((heap.join node (back.headD head)).join (front.getLastD head) node).Ring head (front ++ node :: back) := by
  rcases path_around head front back with ⟨before, after, around⟩
  have path : heap.Path (before ++ front.getLastD head :: (back.headD head :: after)) := by
    have whole := around []
    rw [List.append_nil, List.nil_append] at whole
    rw [← whole]
    exact ring
  have whole := around [node]
  rw [List.append_assoc front, List.singleton_append, List.singleton_append] at whole
  rw [Ring, whole]
  refine path.insert ?_ live
  have without := around []
  rw [List.append_nil, List.nil_append] at without
  rw [← without]
  simp only [List.mem_cons, List.mem_append, List.not_mem_nil, or_false, not_or] at fresh ⊢
  tauto

/-- A node is taken out from between the two parts of a ring. -/
theorem Ring.remove {heap : LinkHeap Address} {head node : Address} {front back : List Address}
    (ring : heap.Ring head (front ++ node :: back)) :
    (heap.join (front.getLastD head) (back.headD head)).Ring head (front ++ back) := by
  rcases path_around head front back with ⟨before, after, around⟩
  have path : heap.Path (before ++ front.getLastD head :: node :: back.headD head :: after) := by
    have whole := around [node]
    rw [List.append_assoc front, List.singleton_append, List.singleton_append] at whole
    rw [← whole]
    exact ring
  have whole := around []
  rw [List.append_nil, List.nil_append] at whole
  rw [Ring, whole]
  exact path.remove

end LinkHeap

/-! ## Tables of rings -/

/-- What the ring of each head holds. -/
abbrev RingTable (Address : Type*) := Address -> Option (List Address)

namespace RingTable

variable (table : RingTable Address)

/-- The node is in no ring, as a head or behind one. -/
def Loose (node : Address) : Prop := ∀ head nodes, table head = some nodes -> node ∉ head :: nodes

/-- The node is in the ring of some head. -/
def Linked (node : Address) : Prop := ∃ head nodes, table head = some nodes ∧ node ∈ nodes

/-- The table without a node. -/
def detach [DecidableEq Address] (node : Address) : RingTable Address := fun head =>
  if head = node then none else (table head).map fun nodes => nodes.erase node

variable {table}

theorem Loose.update [DecidableEq Address] {node : Address} (loose : table.Loose node) {head : Address}
    {nodes : List Address} (outside : node ∉ head :: nodes) :
    RingTable.Loose (Function.update table head (some nodes)) node := by
  intro other others listed
  by_cases own : other = head
  · subst own
    rw [Function.update_self, Option.some.injEq] at listed
    exact listed ▸ outside
  · rw [Function.update_of_ne own] at listed
    exact loose other others listed

theorem Loose.detach [DecidableEq Address] {node : Address} (loose : table.Loose node) (other : Address) :
    (table.detach other).Loose node := by
  intro head nodes listed inside
  rw [RingTable.detach] at listed
  split at listed
  case isTrue => cases listed
  case isFalse =>
    rcases Option.map_eq_some_iff.mp listed with ⟨before, alsoListed, rfl⟩
    exact loose head before alsoListed (List.cons_subset_cons head List.erase_subset inside)

end RingTable

/-- Every ring of the table is in memory, and no node is in two of them. -/
structure Represents (heap : LinkHeap Address) (table : RingTable Address) : Prop where
  ring : ∀ head nodes, table head = some nodes -> heap.Ring head nodes
  apart : ∀ head nodes other others, table head = some nodes -> table other = some others -> head ≠ other ->
    (head :: nodes).Disjoint (other :: others)

namespace Represents

variable {heap after : LinkHeap Address} {table : RingTable Address} {head node : Address} {nodes : List Address}

theorem frame (represents : Represents heap table)
    (same : ∀ node, ¬ table.Loose node -> heap.Agrees after node) : Represents after table where
  ring := by
    intro head nodes listed
    refine (represents.ring head nodes listed).frame fun node member => same node fun loose => ?_
    exact loose head nodes listed member
  apart := represents.apart

/-- The links of a loose node do not matter. -/
theorem scribble (represents : Represents heap table) (loose : table.Loose node)
    (same : ∀ other, other ≠ node -> heap.Agrees after other) : Represents after table :=
  represents.frame fun other listed => same other fun here => listed (here ▸ loose)

/-- A node has one head at most. -/
theorem head_unique (represents : Represents heap table) {other : Address} {others : List Address}
    (listed : table head = some nodes) (member : node ∈ head :: nodes) (alsoListed : table other = some others)
    (alsoMember : node ∈ other :: others) : head = other := by
  by_contra different
  exact represents.apart head nodes other others listed alsoListed different member alsoMember

theorem live (represents : Represents heap table) (listed : ¬ table.Loose node) : heap.live node := by
  simp only [RingTable.Loose, not_forall, not_not] at listed
  rcases listed with ⟨head, nodes, listed, member⟩
  exact (represents.ring head nodes listed).live member

/-- A node behind a head is no head. -/
theorem not_head (represents : Represents heap table) (linked : table.Linked node) : table node = none := by
  rcases linked with ⟨head, nodes, listed, member⟩
  by_contra isHead
  rcases Option.ne_none_iff_exists'.mp isHead with ⟨others, alsoListed⟩
  have same := represents.head_unique listed (List.mem_cons_of_mem head member) alsoListed List.mem_cons_self
  subst same
  exact (List.nodup_cons.mp (represents.ring head nodes listed).distinct).1 member

variable [DecidableEq Address]

/-- One ring is changed, within itself and nodes that are loose. -/
theorem update (represents : Represents heap table) (ring : after.Ring head nodes)
    (same : ∀ other others, other ≠ head -> table other = some others ->
      ∀ node ∈ other :: others, heap.Agrees after node)
    (apart : ∀ other others, other ≠ head -> table other = some others -> (head :: nodes).Disjoint (other :: others)) :
    Represents after (Function.update table head (some nodes)) where
  ring := by
    intro other others listed
    by_cases own : other = head
    · subst own
      rw [Function.update_self, Option.some.injEq] at listed
      exact listed ▸ ring
    · rw [Function.update_of_ne own] at listed
      exact (represents.ring other others listed).frame (same other others own listed)
  apart := by
    intro left leftNodes right rightNodes leftListed rightListed different
    by_cases own : left = head
    · subst own
      rw [Function.update_self, Option.some.injEq] at leftListed
      rw [Function.update_of_ne (Ne.symm different)] at rightListed
      exact leftListed ▸ apart right rightNodes (Ne.symm different) rightListed
    · rw [Function.update_of_ne own] at leftListed
      by_cases alsoOwn : right = head
      · subst alsoOwn
        rw [Function.update_self, Option.some.injEq] at rightListed
        exact rightListed ▸ List.disjoint_symm (apart left leftNodes own leftListed)
      · rw [Function.update_of_ne alsoOwn] at rightListed
        exact represents.apart left leftNodes right rightNodes leftListed rightListed different

/-- An empty ring is taken off the table. -/
theorem forget (represents : Represents heap table) (node : Address) :
    Represents heap (Function.update table node none) where
  ring := by
    intro head nodes listed
    by_cases own : head = node
    · rw [own, Function.update_self] at listed
      cases listed
    · rw [Function.update_of_ne own] at listed
      exact represents.ring head nodes listed
  apart := by
    intro left leftNodes right rightNodes leftListed rightListed different
    by_cases own : left = node
    · rw [own, Function.update_self] at leftListed
      cases leftListed
    · by_cases alsoOwn : right = node
      · rw [alsoOwn, Function.update_self] at rightListed
        cases rightListed
      · rw [Function.update_of_ne own] at leftListed
        rw [Function.update_of_ne alsoOwn] at rightListed
        exact represents.apart left leftNodes right rightNodes leftListed rightListed different

/-- A loose node is made the head of an empty ring. -/
theorem init (represents : Represents heap table) (loose : table.Loose node) (live : heap.live node) :
    Represents (heap.join node node) (Function.update table node (some [])) := by
  refine represents.update (LinkHeap.ring_init live) ?_ ?_
  · intro other others _ listed member inside
    have different : member ≠ node := fun same => loose other others listed (same ▸ inside)
    exact heap.agrees_join different different
  · intro other others _ listed
    rw [List.disjoint_cons_left]
    exact ⟨loose other others listed, List.disjoint_nil_left _⟩

/-- A loose node is put into a ring. -/
theorem attach (represents : Represents heap table) {front back : List Address}
    (listed : table head = some (front ++ back)) (loose : table.Loose node) (live : heap.live node) :
    Represents ((heap.join node (back.headD head)).join (front.getLastD head) node)
      (Function.update table head (some (front ++ node :: back))) := by
  have ring := represents.ring head (front ++ back) listed
  have left : front.getLastD head ∈ head :: (front ++ back) :=
    List.cons_subset_cons head (List.subset_append_left front back) List.getLastD_mem_cons
  have right : back.headD head ∈ head :: (front ++ back) := by
    cases back <;> simp
  refine represents.update (ring.insert (loose head _ listed) live) ?_ ?_
  · intro other others different alsoListed member inside
    have apart := represents.apart head _ other others listed alsoListed (Ne.symm different)
    have notLeft : member ≠ front.getLastD head := fun same => apart (same ▸ left) inside
    have notRight : member ≠ back.headD head := fun same => apart (same ▸ right) inside
    have notNode : member ≠ node := fun same => loose other others alsoListed (same ▸ inside)
    exact (heap.agrees_join notNode notRight).trans ((heap.join node _).agrees_join notLeft notNode)
  · intro other others different alsoListed
    have apart := represents.apart head _ other others listed alsoListed (Ne.symm different)
    intro member inside alsoInside
    have arranged : member = node ∨ member ∈ head :: (front ++ back) := by
      simp only [List.mem_cons, List.mem_append] at inside ⊢
      tauto
    rcases arranged with rfl | old
    · exact loose other others alsoListed alsoInside
    · exact apart old alsoInside

omit [DecidableEq Address] in
/-- A node behind a head, or alone, and its neighbours are in a ring. -/
theorem neighbours (represents : Represents heap table) (own : table.Linked node ∨ table node = some []) :
    ¬ table.Loose node ∧ ¬ table.Loose (heap.prev node) ∧ ¬ table.Loose (heap.next node) := by
  rcases own with ⟨head, nodes, listed, member⟩ | alone
  · rcases List.append_of_mem member with ⟨front, back, rfl⟩
    have ring := represents.ring head _ listed
    refine ⟨fun loose => loose head _ listed (List.mem_cons_of_mem head member), ?_, ?_⟩
    · intro loose
      refine loose head _ listed ?_
      rw [ring.joined_prev.2]
      exact List.cons_subset_cons head (List.subset_append_left front _) List.getLastD_mem_cons
    · intro loose
      refine loose head _ listed ?_
      rw [ring.joined_next.1]
      cases back <;> simp
  · have ring := represents.ring node [] alone
    rw [ring.prev_head, ring.next_head]
    have itself : ¬ table.Loose node := fun loose => loose node [] alone List.mem_cons_self
    exact ⟨itself, itself, itself⟩

/-- To take a node off the table is to take it out of its ring. -/
theorem detach_linked (represents : Represents heap table) {front back : List Address}
    (listed : table head = some (front ++ node :: back)) :
    table.detach node = Function.update table head (some (front ++ back)) := by
  have member : node ∈ front ++ node :: back := List.mem_append_right front List.mem_cons_self
  have distinct := (represents.ring head _ listed).distinct
  have none := represents.not_head ⟨head, _, listed, member⟩
  funext other
  rw [RingTable.detach]
  by_cases own : other = head
  · subst own
    rw [Function.update_self, listed, Option.map_some, if_neg]
    · rw [List.erase_append_right, List.erase_cons_head]
      exact fun inside => (List.nodup_append.mp (List.nodup_cons.mp distinct).2).2.2 node inside node List.mem_cons_self rfl
    · exact fun same => (List.nodup_cons.mp distinct).1 (same ▸ member)
  · rw [Function.update_of_ne own]
    by_cases here : other = node
    · rw [if_pos here, here, none]
    · rw [if_neg here]
      cases alsoListed : table other with
      | none => rfl
      | some others =>
          rw [Option.map_some, List.erase_of_not_mem]
          intro inside
          exact own (represents.head_unique alsoListed (List.mem_cons_of_mem other inside) listed
            (List.mem_cons_of_mem head member))

/-- The same for a node that is alone. -/
theorem detach_alone (represents : Represents heap table) (alone : table node = some []) :
    table.detach node = Function.update table node none := by
  funext other
  rw [RingTable.detach]
  by_cases own : other = node
  · rw [if_pos own, own, Function.update_self]
  · rw [if_neg own, Function.update_of_ne own]
    cases listed : table other with
    | none => rfl
    | some others =>
        rw [Option.map_some, List.erase_of_not_mem]
        intro inside
        exact own (represents.head_unique listed (List.mem_cons_of_mem other inside) alone List.mem_cons_self)

/-- A node behind a head, or alone, is taken out by joining its neighbours. -/
theorem detach (represents : Represents heap table) (own : table.Linked node ∨ table node = some []) :
    Represents (heap.join (heap.prev node) (heap.next node)) (table.detach node) := by
  rcases own with ⟨head, nodes, listed, member⟩ | alone
  · rcases List.append_of_mem member with ⟨front, back, rfl⟩
    have ring := represents.ring head _ listed
    have left : heap.prev node = front.getLastD head := ring.joined_prev.2
    have right : heap.next node = back.headD head := ring.joined_next.1
    have leftInside : front.getLastD head ∈ head :: (front ++ node :: back) :=
      List.cons_subset_cons head (List.subset_append_left front _) List.getLastD_mem_cons
    have rightInside : back.headD head ∈ head :: (front ++ node :: back) := by
      cases back <;> simp
    rw [represents.detach_linked listed, left, right]
    refine represents.update ring.remove ?_ ?_
    · intro other others different alsoListed member inside
      have apart := represents.apart head _ other others listed alsoListed (Ne.symm different)
      exact heap.agrees_join (fun same => apart (same ▸ leftInside) inside) fun same => apart (same ▸ rightInside) inside
    · intro other others different alsoListed member inside
      refine represents.apart head _ other others listed alsoListed (Ne.symm different) ?_
      simp only [List.mem_cons, List.mem_append] at inside ⊢
      tauto
  · have ring := represents.ring node [] alone
    rw [represents.detach_alone alone, ring.prev_head, ring.next_head]
    refine (represents.forget node).frame fun other listed => ?_
    have different : other ≠ node := by
      rintro rfl
      refine listed fun head nodes alsoListed inside => ?_
      by_cases same : head = other
      · rw [same, Function.update_self] at alsoListed
        cases alsoListed
      · rw [Function.update_of_ne same] at alsoListed
        exact same (represents.head_unique alsoListed inside alone List.mem_cons_self)
    exact heap.agrees_join different different

/-- A node that is in no ring is not missed. -/
theorem detach_loose (loose : table.Loose node) : table.detach node = table := by
  funext head
  rw [RingTable.detach]
  cases listed : table head with
  | none => exact ite_self none
  | some nodes =>
      have outside := loose head nodes listed
      rw [List.mem_cons, not_or] at outside
      rw [if_neg (Ne.symm outside.1), Option.map_some, List.erase_of_not_mem outside.2]

/-- A node that has been taken out is loose. -/
theorem loose_detach (represents : Represents heap table) (node : Address) : (table.detach node).Loose node := by
  intro head nodes listed inside
  rw [RingTable.detach] at listed
  split at listed
  case isTrue => cases listed
  case isFalse different =>
    rcases Option.map_eq_some_iff.mp listed with ⟨before, alsoListed, rfl⟩
    have distinct := (represents.ring head before alsoListed).distinct
    rcases List.mem_cons.mp inside with same | member
    · exact different same.symm
    · exact (List.Nodup.mem_erase_iff (List.nodup_cons.mp distinct).2).mp member |>.1 rfl

end Represents

end Memory
end Extlib
