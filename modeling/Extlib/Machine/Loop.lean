import Mathlib.Data.List.Forall2
import Mathlib.Logic.Relation

namespace Extlib
namespace Machine

/-!
# Loops and steps

The rule that carries an invariant through any number of steps of a relation,
and two kinds of loop, each with its rule.
`repeatUpTo` is a `while` with a bound on its rounds, and `Ends` one without;
a measure makes them the same.  `sweep` walks a linked list that may change
under the walk: each visit may update or delete the entry it stands on and
change the rest of the state, and an entry added at the head while the walk is
going on is not visited.
-/

variable {State Entry : Type*}

theorem steps_invariant {step : State -> State -> Prop} (invariant : State -> Prop)
    (preserved : ∀ before after, step before after -> invariant before -> invariant after)
    {first last : State} (steps : Relation.ReflTransGen step first last) (holds : invariant first) :
    invariant last := by
  induction steps with
  | refl => exact holds
  | tail _ step inductionHypothesis => exact preserved _ _ step inductionHypothesis

/-- What a round of a loop decides. -/
inductive Round (State : Type*) where
  | again (state : State)
  | done (state : State)

def Round.state : Round State -> State
  | again state => state
  | done state => state

def repeatUpTo (round : State -> Round State) : Nat -> State -> State
  | 0, state => state
  | rounds + 1, state =>
      match round state with
      | .again next => repeatUpTo round rounds next
      | .done last => last

def Round.map {Other : Type*} (view : State -> Other) : Round State -> Round Other
  | again state => again (view state)
  | done state => done (view state)

/-- A loop over states that are seen in another way. -/
theorem repeatUpTo_map {Other : Type*} {round : State -> Round State} {seen : Other -> Round Other}
    (view : State -> Other) (same : ∀ state, seen (view state) = (round state).map view) (rounds : Nat) :
    ∀ state, repeatUpTo seen rounds (view state) = view (repeatUpTo round rounds state) := by
  induction rounds with
  | zero => exact fun _ => rfl
  | succ rounds inductionHypothesis =>
      intro state
      rw [repeatUpTo, repeatUpTo, same]
      cases round state with
      | again next => exact inductionHypothesis next
      | done last => rfl

/-- The invariant of a loop whose rounds all start in a guarded state. -/
theorem repeatUpTo_guarded {round : State -> Round State} (guard invariant : State -> Prop)
    (preserved : ∀ state, guard state -> invariant state -> invariant (round state).state) (rounds : Nat) :
    ∀ start, (∀ reached, Relation.ReflTransGen (fun before after => round before = .again after) start reached ->
      guard reached) -> invariant start -> invariant (repeatUpTo round rounds start) := by
  induction rounds with
  | zero => exact fun _ _ holds => holds
  | succ rounds inductionHypothesis =>
      intro state guarded holds
      have after := preserved state (guarded state .refl) holds
      rw [repeatUpTo]
      cases outcome : round state with
      | again next =>
          rw [outcome] at after
          exact inductionHypothesis next (fun reached rest => guarded reached (.head outcome rest)) after
      | done last =>
          rw [outcome] at after
          exact after

theorem repeatUpTo_invariant {round : State -> Round State} (invariant : State -> Prop)
    (preserved : ∀ state, invariant state -> invariant (round state).state) (rounds : Nat) (state : State)
    (holds : invariant state) : invariant (repeatUpTo round rounds state) :=
  repeatUpTo_guarded (fun _ => True) invariant (fun state _ => preserved state) rounds state (fun _ _ => trivial) holds

/-- The loop without the bound: it ends in a state when some round is its last. -/
inductive Ends (round : State -> Round State) : State -> State -> Prop where
  | done {state last : State} : round state = .done last -> Ends round state last
  | again {state next last : State} : round state = .again next -> Ends round next last -> Ends round state last

theorem Ends.unique {round : State -> Round State} {state first second : State} (left : Ends round state first)
    (right : Ends round state second) : first = second := by
  induction left with
  | done stops =>
      cases right with
      | done alsoStops => exact Round.done.inj (stops.symm.trans alsoStops)
      | again goesOn => cases stops.symm.trans goesOn
  | again goesOn _ inductionHypothesis =>
      cases right with
      | done stops => cases stops.symm.trans goesOn
      | again alsoGoesOn later =>
          cases goesOn.symm.trans alsoGoesOn
          exact inductionHypothesis later

/-- Rounds that go on may be put in front. -/
theorem Ends.of_rounds {round : State -> Round State} {first state last : State}
    (rounds : Relation.ReflTransGen (fun before after => round before = .again after) first state)
    (ends : Ends round state last) : Ends round first last := by
  induction rounds with
  | refl => exact ends
  | tail _ goesOn inductionHypothesis => exact inductionHypothesis (.again goesOn ends)

/-- A measure that each further round lowers, and that allows none at zero,
bounds the rounds. -/
theorem repeatUpTo_ends {round : State -> Round State} (valid : State -> Prop) (measure : State -> Nat)
    (falls : ∀ state next, valid state -> round state = .again next -> valid next ∧ measure next < measure state)
    (stops : ∀ state, valid state -> measure state = 0 -> round state = .done state) (rounds : Nat) :
    ∀ state, valid state -> measure state ≤ rounds -> Ends round state (repeatUpTo round rounds state) := by
  induction rounds with
  | zero => exact fun state holds none => .done (stops state holds (Nat.le_zero.mp none))
  | succ rounds inductionHypothesis =>
      intro state holds bound
      rw [repeatUpTo]
      cases outcome : round state with
      | done last => exact .done outcome
      | again next =>
          have lower := falls state next holds outcome
          have fewer : measure next ≤ rounds := Nat.le_of_lt_succ (Nat.lt_of_lt_of_le lower.2 bound)
          exact .again outcome (inductionHypothesis next lower.1 fewer)

/-- The entry a search stops at splits the list, and deleting it leaves the
two parts. -/
theorem find_split {found : Entry} {matched : Entry -> Bool} {entries : List Entry}
    (first : entries.find? matched = some found) :
    ∃ before after, entries = before ++ found :: after ∧ entries.eraseP matched = before ++ after := by
  rcases List.find?_eq_some_iff_append.mp first with ⟨holds, before, after, split, fails⟩
  refine ⟨before, after, split, ?_⟩
  rw [split, List.eraseP_append_right _ (by simpa using fails), List.eraseP_cons_of_pos holds]

/-- A search and a stricter one find the same exactly when the first stops at
no entry that the second would pass by. -/
theorem find_eq_find_iff {loose strict : Entry -> Bool} (stricter : ∀ entry, strict entry -> loose entry)
    (entries : List Entry) :
    entries.find? loose = entries.find? strict ↔
      ∀ i, ∀ inside : i < entries.length, loose entries[i] ->
        strict entries[i] ∨ ∃ earlier ∈ entries.take i, strict earlier := by
  induction entries with
  | nil => exact iff_of_true rfl fun i inside => absurd inside (Nat.not_lt_zero i)
  | cons head rest inductionHypothesis =>
      by_cases exact : strict head
      · rw [List.find?_cons_of_pos (stricter head exact), List.find?_cons_of_pos exact]
        refine iff_of_true rfl fun i _ _ => ?_
        cases i with
        | zero => exact Or.inl exact
        | succ i => exact Or.inr ⟨head, List.mem_cons_self, exact⟩
      · rw [List.find?_cons_of_neg exact]
        by_cases matched : loose head
        · rw [List.find?_cons_of_pos matched]
          refine iff_of_false (fun found => exact (List.find?_some found.symm)) fun every => ?_
          rcases every 0 (Nat.succ_pos _) matched with strictly | ⟨_, none, _⟩
          · exact exact strictly
          · cases none
        · rw [List.find?_cons_of_neg matched, inductionHypothesis]
          constructor
          · intro every i inside found
            cases i with
            | zero => exact absurd found matched
            | succ i =>
                rcases every i (Nat.lt_of_succ_lt_succ inside) found with strictly | ⟨earlier, member, strictly⟩
                · exact Or.inl strictly
                · exact Or.inr ⟨earlier, List.mem_cons_of_mem _ member, strictly⟩
          · intro every i inside found
            rcases every (i + 1) (Nat.succ_lt_succ inside) found with strictly | ⟨earlier, member, strictly⟩
            · exact Or.inl strictly
            · rcases List.mem_cons.mp member with rfl | later
              · exact absurd strictly exact
              · exact Or.inr ⟨earlier, later, strictly⟩

/-- With distinct keys, changing the first entry of a key changes every entry
of that key. -/
theorem modify_findIdx {Key : Type*} [DecidableEq Key] (key : Entry -> Key) (wanted : Key) (change : Entry -> Entry)
    {entries : List Entry} (distinct : (entries.map key).Nodup) :
    entries.modify (entries.findIdx (key · = wanted)) change =
      entries.map fun entry => if key entry = wanted then change entry else entry := by
  induction entries with
  | nil => rfl
  | cons entry rest inductionHypothesis =>
      rw [List.map_cons, List.nodup_cons] at distinct
      rw [List.findIdx_cons, List.map_cons]
      by_cases here : key entry = wanted
      · have others : rest.map (fun entry => if key entry = wanted then change entry else entry) = rest := by
          refine (List.map_congr_left fun other listed => if_neg ?_).trans (List.map_id' rest)
          intro same
          exact distinct.1 (List.mem_map.mpr ⟨other, listed, same.trans here.symm⟩)
        rw [others, if_pos here, decide_eq_true here]
        rfl
      · rw [← inductionHypothesis distinct.2, if_neg here, decide_eq_false here]
        rfl

/-- Changing the first entry that is wanted leaves the others alone. -/
theorem modify_findIdx_forall₂ (wanted : Entry -> Bool) (change : Entry -> Entry) (entries : List Entry) :
    List.Forall₂ (fun old new => new = old ∨ wanted old = true ∧ new = change old) entries
      (entries.modify (entries.findIdx wanted) change) := by
  induction entries with
  | nil => exact List.Forall₂.nil
  | cons entry rest inductionHypothesis =>
      rw [List.findIdx_cons]
      cases here : wanted entry with
      | true => exact List.Forall₂.cons (Or.inr ⟨here, rfl⟩) (List.forall₂_same.mpr fun _ _ => Or.inl rfl)
      | false => exact List.Forall₂.cons (Or.inl rfl) inductionHypothesis

/-- What a change leaves as it is of every entry stays the same in the list. -/
theorem map_modify {View : Type*} (view : Entry -> View) (change : Entry -> Entry)
    (same : ∀ entry, view (change entry) = view entry) (entries : List Entry) :
    ∀ index : Nat, (entries.modify index change).map view = entries.map view := by
  induction entries with
  | nil =>
      intro index
      rw [List.modify_nil]
  | cons entry entries inductionHypothesis =>
      intro index
      cases index with
      | zero => simp [same]
      | succ index => simp [inductionHypothesis index]

/-- A search that looks at one side of the entries only stops at the same place
in two lists that show the same side. -/
theorem find_of_map_eq {View : Type*} {view : Entry -> View} {matched : Entry -> Bool}
    (sees : ∀ entry other, view entry = view other -> matched entry = matched other) {entries : List Entry} :
    ∀ {others : List Entry}, entries.map view = others.map view ->
      entries.findIdx matched = others.findIdx matched ∧
        (entries.find? matched).map view = (others.find? matched).map view := by
  induction entries with
  | nil =>
      intro others same
      rw [List.map_eq_nil_iff.mp same.symm]
      exact ⟨rfl, rfl⟩
  | cons entry rest inductionHypothesis =>
      intro others same
      cases others with
      | nil => cases same
      | cons other others =>
          rw [List.map_cons, List.map_cons, List.cons.injEq] at same
          rcases inductionHypothesis same.2 with ⟨index, found⟩
          rw [List.findIdx_cons, List.findIdx_cons, List.find?_cons, List.find?_cons, sees entry other same.1, index]
          cases matched other with
          | true => exact ⟨rfl, congrArg some same.1⟩
          | false => exact ⟨rfl, found⟩

/-- A search and a stricter one that find the same stop at the same place. -/
theorem findIdx_eq_of_find_eq {loose strict : Entry -> Bool} (stricter : ∀ entry, strict entry -> loose entry)
    {entries : List Entry} (same : entries.find? loose = entries.find? strict) :
    entries.findIdx loose = entries.findIdx strict := by
  induction entries with
  | nil => rfl
  | cons entry rest inductionHypothesis =>
      rw [List.findIdx_cons, List.findIdx_cons]
      by_cases exact : strict entry
      · rw [exact, stricter entry exact, cond_true, cond_true]
      · by_cases matched : loose entry
        · rw [List.find?_cons_of_pos matched, List.find?_cons_of_neg exact] at same
          exact absurd (List.find?_some same.symm) exact
        · rw [List.find?_cons_of_neg matched, List.find?_cons_of_neg exact] at same
          rw [Bool.eq_false_iff.mpr matched, Bool.eq_false_iff.mpr exact, inductionHypothesis same]

/-- Visit the entries in order.  A visit returns the entry as it leaves it, or
nothing when it deletes it. -/
def sweep (visit : State -> Entry -> State × Option Entry) : State -> List Entry -> State × List Entry
  | state, [] => (state, [])
  | state, entry :: rest =>
      let (visited, kept) := visit state entry
      let (last, others) := sweep visit visited rest
      (last, kept.toList ++ others)

@[simp] theorem sweep_nil (visit : State -> Entry -> State × Option Entry) (state : State) :
    sweep visit state [] = (state, []) := rfl

theorem sweep_cons (visit : State -> Entry -> State × Option Entry) (state : State) (entry : Entry)
    (rest : List Entry) :
    sweep visit state (entry :: rest) =
      ((sweep visit (visit state entry).1 rest).1,
        (visit state entry).2.toList ++ (sweep visit (visit state entry).1 rest).2) := rfl

/-- The walk over two lists one after the other. -/
theorem sweep_append (visit : State -> Entry -> State × Option Entry) (front back : List Entry) :
    ∀ state : State, sweep visit state (front ++ back) =
      ((sweep visit (sweep visit state front).1 back).1,
        (sweep visit state front).2 ++ (sweep visit (sweep visit state front).1 back).2) := by
  induction front with
  | nil => exact fun _ => rfl
  | cons entry front inductionHypothesis =>
      intro state
      rw [List.cons_append, sweep_cons, sweep_cons, inductionHypothesis, List.append_assoc]

/-- How far a walk has come: where it is going on from here is where the whole
walk ends. -/
structure WalkedTo (visit : State -> Entry -> State × Option Entry) (first : State) (entries : List Entry)
    (state : State) (kept rest : List Entry) : Prop where
  state_eq : (sweep visit first entries).1 = (sweep visit state rest).1
  kept_eq : (sweep visit first entries).2 = kept ++ (sweep visit state rest).2

theorem WalkedTo.start (visit : State -> Entry -> State × Option Entry) (state : State) (entries : List Entry) :
    WalkedTo visit state entries state [] entries := ⟨rfl, rfl⟩

theorem WalkedTo.visit {visit : State -> Entry -> State × Option Entry} {first state : State}
    {entries kept rest : List Entry} {entry : Entry} (walked : WalkedTo visit first entries state kept (entry :: rest)) :
    WalkedTo visit first entries (visit state entry).1 (kept ++ (visit state entry).2.toList) rest where
  state_eq := walked.state_eq
  kept_eq := by rw [walked.kept_eq, sweep_cons, List.append_assoc]

/-- Past entries that are left alone. -/
theorem WalkedTo.skip {visit : State -> Entry -> State × Option Entry} {first state : State}
    {entries : List Entry} {front rest : List Entry}
    (skips : ∀ entry ∈ front, visit state entry = (state, some entry)) :
    ∀ {kept : List Entry}, WalkedTo visit first entries state kept (front ++ rest) ->
      WalkedTo visit first entries state (kept ++ front) rest := by
  induction front with
  | nil =>
      intro kept walked
      rwa [List.append_nil]
  | cons entry front inductionHypothesis =>
      intro kept walked
      have past := WalkedTo.visit walked
      rw [skips entry List.mem_cons_self] at past
      rw [List.append_cons]
      exact inductionHypothesis (fun other listed => skips other (List.mem_cons_of_mem entry listed)) past

/-- An invariant of the state, the entries visited and those still to come
holds at the end when each visit keeps it. -/
theorem sweep_split {visit : State -> Entry -> State × Option Entry}
    (invariant : State -> List Entry -> List Entry -> Prop)
    (preserved : ∀ state before entry after, invariant state before (entry :: after) ->
      invariant (visit state entry).1 (before ++ (visit state entry).2.toList) after)
    (state : State) (entries : List Entry) (holds : invariant state [] entries) :
    invariant (sweep visit state entries).1 (sweep visit state entries).2 [] := by
  have general : ∀ (entries before : List Entry) (state : State), invariant state before entries ->
      invariant (sweep visit state entries).1 (before ++ (sweep visit state entries).2) [] := by
    intro entries
    induction entries with
    | nil =>
        intro before state holds
        rw [sweep_nil, List.append_nil]
        exact holds
    | cons entry rest inductionHypothesis =>
        intro before state holds
        have visited := preserved state before entry rest holds
        have later := inductionHypothesis (before ++ (visit state entry).2.toList) _ visited
        rw [sweep_cons, ← List.append_assoc]
        exact later
  exact general entries [] state holds

/-- An invariant of the state and the whole list, which during the walk is the
visited entries followed by those still to come. -/
theorem sweep_invariant {visit : State -> Entry -> State × Option Entry}
    (invariant : State -> List Entry -> Prop)
    (preserved : ∀ state before entry after, invariant state (before ++ entry :: after) ->
      invariant (visit state entry).1 (before ++ (visit state entry).2.toList ++ after))
    (state : State) (entries : List Entry) (holds : invariant state entries) :
    invariant (sweep visit state entries).1 (sweep visit state entries).2 := by
  have split := sweep_split (fun state before after => invariant state (before ++ after)) preserved state
    entries holds
  rw [List.append_nil] at split
  exact split

/-- The same for an invariant of the state alone. -/
theorem sweep_state {visit : State -> Entry -> State × Option Entry} (invariant : State -> Prop)
    (preserved : ∀ state entry, invariant state -> invariant (visit state entry).1)
    (state : State) (entries : List Entry) (holds : invariant state) :
    invariant (sweep visit state entries).1 :=
  sweep_invariant (fun state _ => invariant state) (fun state _ entry _ => preserved state entry)
    state entries holds

/-- What the walk keeps is what some visit of an entry kept. -/
theorem sweep_kept {visit : State -> Entry -> State × Option Entry} (property : Entry -> Prop)
    (state : State) (entries : List Entry)
    (kept : ∀ state, ∀ entry ∈ entries, ∀ left, (visit state entry).2 = some left -> property left) :
    ∀ entry ∈ (sweep visit state entries).2, property entry := by
  refine (sweep_split (fun _ before after => (∀ entry ∈ before, property entry) ∧ ∀ entry ∈ after, entry ∈ entries)
    ?_ state entries ⟨by simp, fun _ member => member⟩).1
  rintro state before entry after ⟨holds, listed⟩
  refine ⟨fun left member => ?_, fun other member => listed other (List.mem_cons_of_mem _ member)⟩
  rcases List.mem_append.mp member with earlier | now
  · exact holds left earlier
  · exact kept state entry (listed entry List.mem_cons_self) left (Option.mem_toList.mp now)

/-- What the visits of a walk note down, one after the other. -/
def sweepLog {Note : Type*} (visit : State -> Entry -> State × Option Entry) (note : State -> Entry -> List Note) :
    State -> List Entry -> List Note
  | _, [] => []
  | state, entry :: rest => note state entry ++ sweepLog visit note (visit state entry).1 rest

/-- An invariant of the state and the notes so far. -/
theorem sweepLog_invariant {Note : Type*} {visit : State -> Entry -> State × Option Entry}
    {note : State -> Entry -> List Note} (invariant : State -> List Note -> Prop)
    (preserved : ∀ state notes entry, invariant state notes ->
      invariant (visit state entry).1 (notes ++ note state entry))
    (entries : List Entry) :
    ∀ state notes, invariant state notes ->
      invariant (sweep visit state entries).1 (notes ++ sweepLog visit note state entries) := by
  induction entries with
  | nil =>
      intro state notes holds
      rw [sweepLog, List.append_nil]
      exact holds
  | cons entry rest inductionHypothesis =>
      intro state notes holds
      rw [sweepLog, ← List.append_assoc]
      apply inductionHypothesis
      exact preserved state notes entry holds

end Machine
end Extlib
