import Extlib.LinkedLists.ListHead
import Extlib.Machine.Loop
import Mathlib.Data.List.Perm.Subperm

namespace Extlib
namespace LinkedLists

open Memory Machine

/-!
# Loops over the linked lists

The loops of `list.h`.  `list_for_each_entry` reads where to go on from the
entry it has visited, and `list_for_each_entry_safe` has read it before the
visit, so that the body may delete the entry; what it has read must still be in
memory when the body is done.
-/

variable {Address State : Type} [DecidableEq Address]

/-! ## The loops -/

/-- `list_for_each_entry` with a body that returns at the first entry it
matches.  The rounds are bounded; the body may fail. -/
def findEntryFrom (head : Address) (matched : Address -> Option Bool) (heap : LinkHeap Address) :
    Nat -> Address -> Option (Option Address)
  | 0, _ => none
  | rounds + 1, pos =>
      if pos = head then some none
      else do
        let found <- matched pos
        if found then some (some pos)
        else do
          let next <- heap.readNext pos
          findEntryFrom head matched heap rounds next

def findEntry (head : Address) (matched : Address -> Option Bool) (heap : LinkHeap Address) (rounds : Nat) :
    Option (Option Address) := do
  let pos <- heap.readNext head
  findEntryFrom head matched heap rounds pos

/-- The two cursors of `list_for_each_entry_safe`, and what the body works on. -/
structure SafeCursor (Address State : Type) where
  pos : Address
  n : Address
  state : State

section Safe

variable (links : State -> LinkHeap Address) (head : Address) (body : Address -> State -> Option State)

def forEachSafeFrom : Nat -> SafeCursor Address State -> Option State
  | 0, _ => none
  | rounds + 1, cursor =>
      if cursor.pos = head then some cursor.state
      else do
        let state <- body cursor.pos cursor.state
        let next <- (links state).readNext cursor.n
        forEachSafeFrom rounds ⟨cursor.n, next, state⟩

/-- `list_for_each_entry_safe`, in at most so many rounds. -/
def forEachSafe (rounds : Nat) (state : State) : Option State := do
  let pos <- (links state).readNext head
  let n <- (links state).readNext pos
  forEachSafeFrom links head body rounds ⟨pos, n, state⟩

end Safe

section SafeUntil

variable (links : State -> LinkHeap Address) (head : Address) (body : Address -> State -> Option (Round State))

def forEachSafeUntilFrom : Nat -> SafeCursor Address State -> Option State
  | 0, _ => none
  | rounds + 1, cursor =>
      if cursor.pos = head then some cursor.state
      else do
        let outcome <- body cursor.pos cursor.state
        match outcome with
        | .done last => some last
        | .again state =>
            let next <- (links state).readNext cursor.n
            forEachSafeUntilFrom rounds ⟨cursor.n, next, state⟩

/-- `list_for_each_entry_safe` with a body that may leave the loop. -/
def forEachSafeUntil (rounds : Nat) (state : State) : Option State := do
  let pos <- (links state).readNext head
  let n <- (links state).readNext pos
  forEachSafeUntilFrom links head body rounds ⟨pos, n, state⟩

end SafeUntil

/-- A search by `list_for_each_entry_safe`. -/
def findEntrySafe (head : Address) (matched : Address -> Option Bool) (heap : LinkHeap Address) (rounds : Nat) :
    Option (Option Address) :=
  forEachSafeUntil (fun _ => heap) head
    (fun pos _ => (matched pos).map fun found => if found then .done (some pos) else .again none) rounds none

section Plain

variable (links : State -> LinkHeap Address) (head : Address) (body : Address -> State -> Option State)

def forEachFrom : Nat -> Address -> State -> Option State
  | 0, _, _ => none
  | rounds + 1, pos, state =>
      if pos = head then some state
      else do
        let state <- body pos state
        let next <- (links state).readNext pos
        forEachFrom rounds next state

/-- `list_for_each_entry`. -/
def forEach (rounds : Nat) (state : State) : Option State := do
  let pos <- (links state).readNext head
  forEachFrom links head body rounds pos state

end Plain

/-! ## Rules -/

/-- Entries that are numbered below a bound are no more than it, which bounds
the rounds of a loop over them. -/
theorem length_le_of_lt {numbers : List Nat} {bound : Nat} (distinct : numbers.Nodup)
    (below : ∀ number ∈ numbers, number < bound) : numbers.length ≤ bound := by
  have inside : numbers ⊆ List.range bound := fun number member => List.mem_range.mpr (below number member)
  have shorter := (distinct.subperm inside).length_le
  rwa [List.length_range] at shorter

section Find

variable {heap : LinkHeap Address} {head : Address} {matched : Address -> Option Bool} {wanted : Address -> Bool}

theorem findEntryFrom_ring {rest : List Address} :
    ∀ {front : List Address} {rounds : Nat}, heap.Ring head (front ++ rest) ->
      (∀ pos ∈ rest, matched pos = some (wanted pos)) -> rest.length < rounds ->
        findEntryFrom head matched heap rounds (rest.headD head) = some (rest.find? wanted) := by
  induction rest with
  | nil =>
      intro front rounds _ _ enough
      cases rounds with
      | zero => cases enough
      | succ rounds => exact if_pos rfl
  | cons pos rest inductionHypothesis =>
      intro front rounds ring decided enough
      cases rounds with
      | zero => cases enough
      | succ rounds =>
          have inside : pos ∈ front ++ pos :: rest := List.mem_append_right front List.mem_cons_self
          have different : pos ≠ head := fun same => (List.nodup_cons.mp ring.distinct).1 (same ▸ inside)
          have next : heap.readNext pos = some (rest.headD head) := by
            rw [LinkHeap.readNext, if_pos (ring.live (List.mem_cons_of_mem head inside)), ring.joined_next.1]
          rw [List.headD_cons, findEntryFrom, if_neg different, decided pos List.mem_cons_self, List.find?_cons, next]
          cases wanted pos with
          | true => rfl
          | false =>
              rw [List.append_cons] at ring
              refine inductionHypothesis ring (fun other member => ?_) (Nat.lt_of_succ_lt_succ enough)
              exact decided other (List.mem_cons_of_mem pos member)

/-- A search through a ring finds the first entry that matches. -/
theorem findEntry_ring {nodes : List Address} {rounds : Nat} (ring : heap.Ring head nodes)
    (decided : ∀ pos ∈ nodes, matched pos = some (wanted pos)) (enough : nodes.length < rounds) :
    findEntry head matched heap rounds = some (nodes.find? wanted) := by
  rw [findEntry, LinkHeap.readNext, if_pos (ring.live List.mem_cons_self), ring.next_head]
  rw [← List.nil_append nodes] at ring
  exact findEntryFrom_ring ring decided enough

end Find

section Safe

variable {links : State -> LinkHeap Address} {head : Address} {body : Address -> State -> Option State}

/-- One round at an entry: the body, and then the entry that was behind it. -/
theorem forEachSafeFrom_round {rounds : Nat} {cursor : SafeCursor Address State} (entry : cursor.pos ≠ head) :
    forEachSafeFrom links head body (rounds + 1) cursor =
      (body cursor.pos cursor.state).bind fun state =>
        ((links state).readNext cursor.n).bind fun next =>
          forEachSafeFrom links head body rounds ⟨cursor.n, next, state⟩ := if_neg entry

omit [DecidableEq Address] in
/-- What the step from one entry to the next reads. -/
theorem readNext_ring {heap : LinkHeap Address} {front rest : List Address} (ring : heap.Ring head (front ++ rest)) :
    ∃ next, heap.readNext (rest.headD head) = some next ∧ (rest ≠ [] -> next = rest.tail.headD head) := by
  cases rest with
  | nil => exact ⟨_, if_pos (ring.live List.mem_cons_self), fun more => absurd rfl more⟩
  | cons pos rest =>
      have inside : pos ∈ head :: (front ++ pos :: rest) :=
        List.mem_cons_of_mem head (List.mem_append_right front List.mem_cons_self)
      exact ⟨_, if_pos (ring.live inside), fun _ => ring.joined_next.1⟩

/-- An invariant of the entries still to visit and the state.  A visit may take
the entry out of the list, and others, but not the one behind it. -/
theorem forEachSafeFrom_rule (invariant : List Address -> State -> Prop)
    (linked : ∀ rest state, invariant rest state -> ∃ front, (links state).Ring head (front ++ rest))
    (visits : ∀ pos rest state, invariant (pos :: rest) state -> ∃ after later, body pos state = some after ∧
      invariant later after ∧ later.headD head = rest.headD head ∧ later.length ≤ rest.length) (rounds : Nat) :
    ∀ {rest : List Address} {n : Address} {state : State}, invariant rest state ->
      (rest ≠ [] -> n = rest.tail.headD head) -> rest.length < rounds ->
        ∃ last, forEachSafeFrom links head body rounds ⟨rest.headD head, n, state⟩ = some last ∧ invariant [] last := by
  induction rounds with
  | zero => exact fun _ _ enough => absurd enough (Nat.not_lt_zero _)
  | succ rounds inductionHypothesis =>
      intro rest n state holds ahead enough
      cases rest with
      | nil => exact ⟨state, if_pos rfl, holds⟩
      | cons pos rest =>
          rcases linked _ _ holds with ⟨front, ring⟩
          have inside : pos ∈ front ++ pos :: rest := List.mem_append_right front List.mem_cons_self
          have different : pos ≠ head := fun same => (List.nodup_cons.mp ring.distinct).1 (same ▸ inside)
          rcases visits pos rest state holds with ⟨after, later, visited, still, same, fewer⟩
          rcases linked _ _ still with ⟨front', ring'⟩
          rcases readNext_ring ring' with ⟨next, reads, behind⟩
          have follows : n = later.headD head := (ahead (List.cons_ne_nil pos rest)).trans same.symm
          rw [List.headD_cons, forEachSafeFrom_round different, visited, Option.bind_some]
          dsimp only
          rw [follows, reads, Option.bind_some]
          exact inductionHypothesis still behind (Nat.lt_of_le_of_lt fewer (Nat.lt_of_succ_lt_succ enough))

theorem forEachSafe_rule (invariant : List Address -> State -> Prop)
    (linked : ∀ rest state, invariant rest state -> ∃ front, (links state).Ring head (front ++ rest))
    (visits : ∀ pos rest state, invariant (pos :: rest) state -> ∃ after later, body pos state = some after ∧
      invariant later after ∧ later.headD head = rest.headD head ∧ later.length ≤ rest.length)
    {nodes : List Address} {state : State} {rounds : Nat} (holds : invariant nodes state)
    (ring : (links state).Ring head nodes) (enough : nodes.length < rounds) :
    ∃ last, forEachSafe links head body rounds state = some last ∧ invariant [] last := by
  rw [← List.nil_append nodes] at ring
  rcases readNext_ring ring with ⟨n, reads, ahead⟩
  have first : (links state).readNext head = some (nodes.headD head) := by
    rw [LinkHeap.readNext, if_pos (ring.live List.mem_cons_self), ring.next_head, List.nil_append]
  rw [forEachSafe, first, Option.bind_eq_bind, Option.bind_some, reads]
  exact forEachSafeFrom_rule invariant linked visits rounds holds ahead enough

end Safe

section SafeUntil

variable {links : State -> LinkHeap Address} {head : Address} {body : Address -> State -> Option (Round State)}

/-- What a round may come to: it leaves the loop with what is wanted at its
end, or goes on to the entry that was behind. -/
def RoundGoes (head : Address) (invariant : List Address -> State -> Prop) (ends : State -> Prop)
    (rest : List Address) : Round State -> Prop
  | .done last => ends last
  | .again after => ∃ later, invariant later after ∧ later.headD head = rest.headD head ∧ later.length ≤ rest.length

/-- The rule for a loop that may be left: an invariant of the entries still to
visit and the state, and what holds at either end. -/
theorem forEachSafeUntilFrom_rule (invariant : List Address -> State -> Prop) (ends : State -> Prop)
    (linked : ∀ rest state, invariant rest state -> ∃ front, (links state).Ring head (front ++ rest))
    (finishes : ∀ state, invariant [] state -> ends state)
    (visits : ∀ pos rest state, invariant (pos :: rest) state ->
      ∃ outcome, body pos state = some outcome ∧ RoundGoes head invariant ends rest outcome) (rounds : Nat) :
    ∀ {rest : List Address} {n : Address} {state : State}, invariant rest state ->
      (rest ≠ [] -> n = rest.tail.headD head) -> rest.length < rounds ->
        ∃ last, forEachSafeUntilFrom links head body rounds ⟨rest.headD head, n, state⟩ = some last ∧ ends last := by
  induction rounds with
  | zero => exact fun _ _ enough => absurd enough (Nat.not_lt_zero _)
  | succ rounds inductionHypothesis =>
      intro rest n state holds ahead enough
      cases rest with
      | nil => exact ⟨state, if_pos rfl, finishes state holds⟩
      | cons pos rest =>
          rcases linked _ _ holds with ⟨front, ring⟩
          have inside : pos ∈ front ++ pos :: rest := List.mem_append_right front List.mem_cons_self
          have different : pos ≠ head := fun same => (List.nodup_cons.mp ring.distinct).1 (same ▸ inside)
          rcases visits pos rest state holds with ⟨outcome, visited, goes⟩
          rw [List.headD_cons, forEachSafeUntilFrom, if_neg different, Option.bind_eq_bind, visited, Option.bind_some]
          cases outcome with
          | done last => exact ⟨last, rfl, goes⟩
          | again after =>
              rcases goes with ⟨later, still, same, fewer⟩
              rcases linked _ _ still with ⟨front', ring'⟩
              rcases readNext_ring ring' with ⟨next, reads, behind⟩
              have follows : n = later.headD head := (ahead (List.cons_ne_nil pos rest)).trans same.symm
              dsimp only
              rw [follows, reads, Option.bind_eq_bind, Option.bind_some]
              exact inductionHypothesis still behind (Nat.lt_of_le_of_lt fewer (Nat.lt_of_succ_lt_succ enough))

theorem forEachSafeUntil_rule (invariant : List Address -> State -> Prop) (ends : State -> Prop)
    (linked : ∀ rest state, invariant rest state -> ∃ front, (links state).Ring head (front ++ rest))
    (finishes : ∀ state, invariant [] state -> ends state)
    (visits : ∀ pos rest state, invariant (pos :: rest) state ->
      ∃ outcome, body pos state = some outcome ∧ RoundGoes head invariant ends rest outcome)
    {nodes : List Address} {state : State} {rounds : Nat} (holds : invariant nodes state)
    (ring : (links state).Ring head nodes) (enough : nodes.length < rounds) :
    ∃ last, forEachSafeUntil links head body rounds state = some last ∧ ends last := by
  rw [← List.nil_append nodes] at ring
  rcases readNext_ring ring with ⟨n, reads, ahead⟩
  have first : (links state).readNext head = some (nodes.headD head) := by
    rw [LinkHeap.readNext, if_pos (ring.live List.mem_cons_self), ring.next_head, List.nil_append]
  rw [forEachSafeUntil, first, Option.bind_eq_bind, Option.bind_some, reads]
  exact forEachSafeUntilFrom_rule invariant ends linked finishes visits rounds holds ahead enough

/-- The search finds the first entry that matches. -/
theorem findEntrySafe_ring {heap : LinkHeap Address} {matched : Address -> Option Bool} {wanted : Address -> Bool}
    {nodes : List Address} {rounds : Nat} (ring : heap.Ring head nodes)
    (decided : ∀ pos ∈ nodes, matched pos = some (wanted pos)) (enough : nodes.length < rounds) :
    findEntrySafe head matched heap rounds = some (nodes.find? wanted) := by
  have searched : ∃ last, findEntrySafe head matched heap rounds = some last ∧ last = nodes.find? wanted := by
    refine forEachSafeUntil_rule (fun rest state => state = none ∧ ∃ front, nodes = front ++ rest ∧
      nodes.find? wanted = rest.find? wanted) (fun last => last = nodes.find? wanted) ?_ ?_ ?_
      ⟨rfl, [], rfl, rfl⟩ ring enough
    · rintro rest state ⟨_, front, split, _⟩
      exact ⟨front, split ▸ ring⟩
    · rintro state ⟨rfl, front, _, same⟩
      rw [same]
      rfl
    · rintro pos rest state ⟨rfl, front, split, same⟩
      have inside : pos ∈ nodes := by
        rw [split]
        exact List.mem_append_right front List.mem_cons_self
      rw [decided pos inside, List.find?_cons] at *
      refine ⟨_, rfl, ?_⟩
      cases here : wanted pos with
      | true =>
          rw [here] at same
          exact same.symm
      | false =>
          rw [here] at same
          exact ⟨rest, ⟨rfl, front ++ [pos], by rw [split, List.append_assoc]; rfl, same⟩, rfl, Nat.le_refl _⟩
  rcases searched with ⟨last, finds, rfl⟩
  exact finds

end SafeUntil

section Plain

variable {links : State -> LinkHeap Address} {head : Address} {body : Address -> State -> Option State}

/-- The rule for a loop whose visits leave the links as they are. -/
theorem forEachFrom_rule (invariant : List Address -> List Address -> State -> Prop)
    (linked : ∀ front rest state, invariant front rest state -> (links state).Ring head (front ++ rest))
    (visits : ∀ front pos rest state, invariant front (pos :: rest) state ->
      ∃ after, body pos state = some after ∧ invariant (front ++ [pos]) rest after) (rounds : Nat) :
    ∀ {front rest : List Address} {state : State}, invariant front rest state -> rest.length < rounds ->
      ∃ last, forEachFrom links head body rounds (rest.headD head) state = some last ∧
        invariant (front ++ rest) [] last := by
  induction rounds with
  | zero => exact fun _ enough => absurd enough (Nat.not_lt_zero _)
  | succ rounds inductionHypothesis =>
      intro front rest state holds enough
      cases rest with
      | nil => exact ⟨state, if_pos rfl, by rwa [List.append_nil]⟩
      | cons pos rest =>
          have ring := linked front _ state holds
          have inside : pos ∈ front ++ pos :: rest := List.mem_append_right front List.mem_cons_self
          have different : pos ≠ head := fun same => (List.nodup_cons.mp ring.distinct).1 (same ▸ inside)
          rcases visits front pos rest state holds with ⟨after, visited, still⟩
          have ring' := linked _ rest after still
          rw [← List.append_cons] at ring'
          have next : (links after).readNext pos = some (rest.headD head) := by
            rw [LinkHeap.readNext, if_pos (ring'.live (List.mem_cons_of_mem head inside)), ring'.joined_next.1]
          rw [List.headD_cons, forEachFrom, if_neg different, Option.bind_eq_bind, visited, Option.bind_some,
            Option.bind_eq_bind, next, Option.bind_some, List.append_cons]
          exact inductionHypothesis still (Nat.lt_of_succ_lt_succ enough)

theorem forEach_rule (invariant : List Address -> List Address -> State -> Prop)
    (linked : ∀ front rest state, invariant front rest state -> (links state).Ring head (front ++ rest))
    (visits : ∀ front pos rest state, invariant front (pos :: rest) state ->
      ∃ after, body pos state = some after ∧ invariant (front ++ [pos]) rest after)
    {nodes : List Address} {state : State} {rounds : Nat} (holds : invariant [] nodes state)
    (enough : nodes.length < rounds) :
    ∃ last, forEach links head body rounds state = some last ∧ invariant nodes [] last := by
  have ring := linked [] nodes state holds
  rw [List.nil_append] at ring
  rw [forEach, LinkHeap.readNext, if_pos (ring.live List.mem_cons_self), ring.next_head]
  exact forEachFrom_rule invariant linked visits rounds holds enough

/-- A loop over the nodes of some items does to the state what a fold over the
items does to what the state stands for. -/
theorem forEach_foldl {Item Meaning : Type} {node : Item -> Address} {items : List Item}
    (stands : State -> Meaning -> Prop) (step : Meaning -> Item -> Meaning)
    (linked : ∀ state meaning, stands state meaning -> (links state).Ring head (items.map node))
    (visits : ∀ item ∈ items, ∀ state meaning, stands state meaning ->
      ∃ after, body (node item) state = some after ∧ stands after (step meaning item))
    {state : State} {meaning : Meaning} {rounds : Nat} (holds : stands state meaning) (enough : items.length < rounds) :
    ∃ last, forEach links head body rounds state = some last ∧ stands last (items.foldl step meaning) := by
  have walked : ∃ last, forEach links head body rounds state = some last ∧ ∃ before after meant,
      items = before ++ after ∧ after.map node = [] ∧ stands last meant ∧
        after.foldl step meant = items.foldl step meaning := by
    have start : ∃ before after meant, items = before ++ after ∧ before.map node = [] ∧
        after.map node = items.map node ∧ stands state meant ∧ after.foldl step meant = items.foldl step meaning :=
      ⟨[], items, meaning, rfl, rfl, rfl, holds, rfl⟩
    have walk := @forEach_rule _ _ _ links head body (fun front rest state => ∃ before after meant,
      items = before ++ after ∧ before.map node = front ∧ after.map node = rest ∧ stands state meant ∧
        after.foldl step meant = items.foldl step meaning) ?_ ?_ _ state rounds start (by rwa [List.length_map])
    · rcases walk with ⟨last, runs, before, after, meant, split, _, empty, still, same⟩
      exact ⟨last, runs, before, after, meant, split, empty, still, same⟩
    · rintro front rest state ⟨before, after, meant, rfl, rfl, rfl, still, _⟩
      rw [← List.map_append]
      exact linked state meant still
    · rintro front pos rest state ⟨before, after, meant, split, rfl, ahead, still, same⟩
      rcases List.map_eq_cons_iff.mp ahead with ⟨item, later, rfl, rfl, rfl⟩
      have inside : item ∈ items := by
        rw [split]
        exact List.mem_append_right before List.mem_cons_self
      rcases visits item inside state meant still with ⟨next, visited, stays⟩
      refine ⟨next, visited, before ++ [item], later, step meant item, ?_, List.map_append, rfl, stays, same⟩
      rw [split, List.append_assoc]
      rfl
  rcases walked with ⟨last, runs, before, after, meant, _, empty, still, same⟩
  rw [List.map_eq_nil_iff.mp empty] at same
  exact ⟨last, runs, same ▸ still⟩

end Plain

end LinkedLists
end Extlib
