import Mathlib.Data.Option.Basic
import Mathlib.Data.List.Forall2

namespace Extlib
namespace Machine

/-!
# Runs that may abort, and forward simulation

A machine takes one input at a time, replies, and may abort; a run collects
the replies.  The abstract machine it is compared with never aborts.  When
every step that completes is matched by the abstract step, so is every run
that completes.
-/

variable {State Input Reply : Type*}

/-- Feed the inputs in order; an abort ends the run without a result. -/
def runReplies (step : State -> Input -> Option (State × Reply)) :
    State -> List Input -> Option (State × List Reply)
  | state, [] => some (state, [])
  | state, input :: inputs =>
      (step state input).bind fun (next, reply) =>
        (runReplies step next inputs).map fun (last, replies) => (last, reply :: replies)

/-- A run of a machine that never aborts. -/
def runAll (step : State -> Input -> State × Reply) : State -> List Input -> State × List Reply
  | state, [] => (state, [])
  | state, input :: inputs =>
      let later := runAll step (step state input).1 inputs
      (later.1, (step state input).2 :: later.2)

/-- Every step of the run that is reached meets a condition on the state before it. -/
def EveryInput (step : State -> Input -> Option (State × Reply)) (condition : State -> Input -> Prop) :
    State -> List Input -> Prop
  | _, [] => True
  | state, input :: inputs =>
      condition state input ∧ ∀ after ∈ step state input, EveryInput step condition after.1 inputs

instance EveryInput.decidable (step : State -> Input -> Option (State × Reply))
    (condition : State -> Input -> Prop) [∀ state input, Decidable (condition state input)] :
    ∀ (state : State) (inputs : List Input), Decidable (EveryInput step condition state inputs)
  | _, [] => isTrue trivial
  | state, input :: inputs =>
      have : ∀ after : State × Reply, Decidable (EveryInput step condition after.1 inputs) :=
        fun after => EveryInput.decidable step condition after.1 inputs
      inferInstanceAs
        (Decidable (condition state input ∧ ∀ after ∈ step state input, EveryInput step condition after.1 inputs))

/-- A condition on the inputs alone. -/
theorem everyInput_of_forall {step : State -> Input -> Option (State × Reply)} {condition : Input -> Prop}
    {inputs : List Input} (every : ∀ input ∈ inputs, condition input) :
    ∀ state, EveryInput step (fun _ => condition) state inputs := by
  induction inputs with
  | nil => exact fun _ => trivial
  | cons input inputs inductionHypothesis =>
      intro state
      refine ⟨every input List.mem_cons_self, fun after _ => ?_⟩
      exact inductionHypothesis (fun other member => every other (List.mem_cons_of_mem _ member)) after.1

theorem EveryInput.and {step : State -> Input -> Option (State × Reply)} {first second : State -> Input -> Prop}
    {inputs : List Input} :
    ∀ {state : State}, EveryInput step first state inputs -> EveryInput step second state inputs ->
      EveryInput step (fun state input => first state input ∧ second state input) state inputs := by
  induction inputs with
  | nil => exact fun _ _ => trivial
  | cons input inputs inductionHypothesis =>
      intro state left right
      exact ⟨⟨left.1, right.1⟩, fun after steps => inductionHypothesis (left.2 after steps) (right.2 after steps)⟩

/-- In runs within a context, two conditions that agree in every state of an
invariant agree all along, when the invariant is kept as long as they hold. -/
theorem everyInput_iff {step : State -> Input -> Option (State × Reply)}
    {context first second : State -> Input -> Prop} (invariant : State -> Prop)
    (agree : ∀ state input, context state input -> invariant state -> (first state input ↔ second state input))
    (kept : ∀ state input after, context state input -> invariant state -> second state input ->
      step state input = some after -> invariant after.1) {inputs : List Input} :
    ∀ {state : State}, EveryInput step context state inputs -> invariant state ->
      (EveryInput step first state inputs ↔ EveryInput step second state inputs) := by
  induction inputs with
  | nil => exact fun _ _ => Iff.rfl
  | cons input inputs inductionHypothesis =>
      intro state within holds
      have here := agree state input within.1 holds
      have later : second state input -> ∀ after, step state input = some after ->
          (EveryInput step first after.1 inputs ↔ EveryInput step second after.1 inputs) := fun condition after steps =>
        inductionHypothesis (within.2 after steps) (kept state input after within.1 holds condition steps)
      constructor
      · rintro ⟨now, rest⟩
        exact ⟨here.mp now, fun after steps => (later (here.mp now) after steps).mp (rest after steps)⟩
      · rintro ⟨now, rest⟩
        exact ⟨here.mpr now, fun after steps => (later now after steps).mpr (rest after steps)⟩

/-- When every step that meets the condition completes and keeps an invariant,
so does every run of such steps. -/
theorem runReplies_returns {step : State -> Input -> Option (State × Reply)} {condition : State -> Input -> Prop}
    (invariant : State -> Prop)
    (returns : ∀ state input, condition state input -> invariant state ->
      ∃ next reply, step state input = some (next, reply) ∧ invariant next) {inputs : List Input} :
    ∀ {state : State}, EveryInput step condition state inputs -> invariant state ->
      ∃ last replies, runReplies step state inputs = some (last, replies) ∧ invariant last := by
  induction inputs with
  | nil => exact fun _ holds => ⟨_, _, rfl, holds⟩
  | cons input inputs inductionHypothesis =>
      intro state every holds
      rcases returns state input every.1 holds with ⟨next, reply, steps, here⟩
      rcases inductionHypothesis (every.2 _ steps) here with ⟨last, replies, runs, final⟩
      refine ⟨last, reply :: replies, ?_, final⟩
      rw [runReplies, steps, Option.bind_some]
      dsimp only
      rw [runs, Option.map_some]

/-- An invariant of the state and the replies so far, kept by every step that
meets the condition, holds after a run of such steps. -/
theorem runReplies_invariant {step : State -> Input -> Option (State × Reply)}
    {condition : State -> Input -> Prop} (invariant : State -> List Reply -> Prop)
    (preserved : ∀ state past input next reply, condition state input -> invariant state past ->
      step state input = some (next, reply) -> invariant next (past ++ [reply]))
    {inputs : List Input} :
    ∀ {state last : State} {past replies : List Reply}, EveryInput step condition state inputs ->
      invariant state past -> runReplies step state inputs = some (last, replies) ->
        invariant last (past ++ replies) := by
  induction inputs with
  | nil =>
      intro state last past replies _ holds completes
      cases completes
      rw [List.append_nil]
      exact holds
  | cons input inputs inductionHypothesis =>
      intro state last past replies every holds completes
      rcases Option.bind_eq_some_iff.mp completes with ⟨⟨next, reply⟩, first, later⟩
      rcases Option.map_eq_some_iff.mp later with ⟨⟨final, rest⟩, run, pair⟩
      cases pair
      have here := preserved state past input next reply every.1 holds first
      have whole : past ++ reply :: rest = past ++ [reply] ++ rest := by
        rw [List.append_assoc, List.singleton_append]
      rw [whole]
      apply inductionHypothesis (every.2 (next, reply) first) here run

/-- The same for an invariant of the state alone. -/
theorem runReplies_state {step : State -> Input -> Option (State × Reply)} {condition : State -> Input -> Prop}
    (invariant : State -> Prop)
    (preserved : ∀ state input next reply, condition state input -> invariant state ->
      step state input = some (next, reply) -> invariant next)
    {inputs : List Input} {state last : State} {replies : List Reply}
    (every : EveryInput step condition state inputs) (holds : invariant state)
    (completes : runReplies step state inputs = some (last, replies)) : invariant last := by
  have general : ∀ state past input next reply, condition state input -> invariant state ->
      step state input = some (next, reply) -> (fun after (_ : List Reply) => invariant after) next (past ++ [reply]) :=
    fun state _ => preserved state
  exact @runReplies_invariant _ _ _ _ _ (fun after _ => invariant after) general _ _ _ [] _ every holds completes

/-- Every step that completes is matched by the abstract step. -/
def Simulates {Abstract : Type*} (step : State -> Input -> Option (State × Reply))
    (abstractStep : Abstract -> Input -> Abstract × Reply) (related : State -> Abstract -> Prop) : Prop :=
  ∀ state abstract input next reply, related state abstract -> step state input = some (next, reply) ->
    related next (abstractStep abstract input).1 ∧ reply = (abstractStep abstract input).2

/-- Matched steps make matched runs. -/
theorem Simulates.run {Abstract : Type*} {step : State -> Input -> Option (State × Reply)}
    {abstractStep : Abstract -> Input -> Abstract × Reply} {related : State -> Abstract -> Prop}
    (simulates : Simulates step abstractStep related) {inputs : List Input} :
    ∀ {state : State} {abstract : Abstract} {last : State} {replies : List Reply},
      related state abstract -> runReplies step state inputs = some (last, replies) ->
        related last (runAll abstractStep abstract inputs).1 ∧
          replies = (runAll abstractStep abstract inputs).2 := by
  induction inputs with
  | nil =>
      intro state abstract last replies start completes
      cases completes
      exact ⟨start, rfl⟩
  | cons input inputs inductionHypothesis =>
      intro state abstract last replies start completes
      rcases Option.bind_eq_some_iff.mp completes with ⟨⟨next, reply⟩, first, later⟩
      rcases Option.map_eq_some_iff.mp later with ⟨⟨final, rest⟩, run, pair⟩
      cases pair
      have here := simulates state abstract input next reply start first
      have after := inductionHypothesis here.1 run
      exact ⟨after.1, by rw [runAll, ← here.2, ← after.2]⟩

/-- Two machines that never abort, matched step by step, run alike. -/
theorem runAll_related {Abstract : Type*} {step : State -> Input -> State × Reply}
    {abstractStep : Abstract -> Input -> Abstract × Reply} (related : State -> Abstract -> Prop)
    (matched : ∀ state abstract input, related state abstract ->
      related (step state input).1 (abstractStep abstract input).1 ∧
        (step state input).2 = (abstractStep abstract input).2) {inputs : List Input} :
    ∀ {state : State} {abstract : Abstract}, related state abstract ->
      related (runAll step state inputs).1 (runAll abstractStep abstract inputs).1 ∧
        (runAll step state inputs).2 = (runAll abstractStep abstract inputs).2 := by
  induction inputs with
  | nil => exact fun start => ⟨start, rfl⟩
  | cons input inputs inductionHypothesis =>
      intro state abstract start
      have here := matched state abstract input start
      have after := inductionHypothesis here.1
      refine ⟨after.1, ?_⟩
      rw [runAll, runAll, here.2, after.2]

/-- What every step keeps holds after any run. -/
theorem runAll_invariant {step : State -> Input -> State × Reply} (invariant : State -> Prop)
    (preserved : ∀ state input, invariant state -> invariant (step state input).1) {inputs : List Input} :
    ∀ {state : State}, invariant state -> invariant (runAll step state inputs).1 := by
  induction inputs with
  | nil => exact fun holds => holds
  | cons input inputs inductionHypothesis =>
      intro state holds
      exact inductionHypothesis (preserved state input holds)

/-! ## Lockstep -/

/-- What is made of two related results is related. -/
theorem rel_map {α β γ δ : Type*} {related : α -> β -> Prop} {relatedAfter : γ -> δ -> Prop} {f : α -> γ} {g : β -> δ}
    (matched : ∀ {first second}, related first second -> relatedAfter (f first) (g second)) {first : Option α}
    {second : Option β} (rel : Option.Rel related first second) :
    Option.Rel relatedAfter (first.map f) (second.map g) := by
  cases rel with
  | none => exact .none
  | some both => exact .some (matched both)

/-- Two machines that may abort, of which each step aborts with the other's, run
alike.  One is given the other's inputs in its own terms and replies in them.
The relation may say what it has to of the inputs still to come. -/
theorem runReplies_lockstep {Abstract AbstractInput AbstractReply : Type*} {step : State -> Input -> Option (State × Reply)}
    {abstractStep : Abstract -> AbstractInput -> Option (Abstract × AbstractReply)} {translate : Input -> AbstractInput}
    {tells : Reply -> AbstractReply -> Prop} (related : State -> Abstract -> List Input -> Prop)
    (matched : ∀ state abstract input inputs, related state abstract (input :: inputs) ->
      Option.Rel (fun next abstractNext => related next.1 abstractNext.1 inputs ∧ tells next.2 abstractNext.2)
        (step state input) (abstractStep abstract (translate input))) {inputs : List Input} :
    ∀ {state : State} {abstract : Abstract}, related state abstract inputs ->
      Option.Rel (fun last abstractLast => related last.1 abstractLast.1 [] ∧ List.Forall₂ tells last.2 abstractLast.2)
        (runReplies step state inputs) (runReplies abstractStep abstract (inputs.map translate)) := by
  induction inputs with
  | nil => exact fun start => .some ⟨start, .nil⟩
  | cons input inputs inductionHypothesis =>
      intro state abstract start
      have here := matched state abstract input inputs start
      rw [List.map_cons, runReplies, runReplies]
      generalize step state input = next at here ⊢
      generalize abstractStep abstract (translate input) = abstractNext at here ⊢
      cases here with
      | none => exact .none
      | some both =>
          rw [Option.bind_some, Option.bind_some]
          exact rel_map (fun after => ⟨after.1, .cons both.2 after.2⟩) (inductionHypothesis both.1)

/-- The same for machines that take the same inputs and give the same replies. -/
theorem runReplies_rel {Abstract : Type*} {step : State -> Input -> Option (State × Reply)}
    {abstractStep : Abstract -> Input -> Option (Abstract × Reply)} (related : State -> Abstract -> Prop)
    (matched : ∀ state abstract input, related state abstract ->
      Option.Rel (fun next abstractNext => related next.1 abstractNext.1 ∧ next.2 = abstractNext.2)
        (step state input) (abstractStep abstract input)) {inputs : List Input} {state : State} {abstract : Abstract}
    (start : related state abstract) :
    Option.Rel (fun last abstractLast => related last.1 abstractLast.1 ∧ last.2 = abstractLast.2)
      (runReplies step state inputs) (runReplies abstractStep abstract inputs) := by
  have run := @runReplies_lockstep _ _ _ _ _ _ step abstractStep id Eq (fun state abstract _ => related state abstract)
    (fun state abstract input _ => matched state abstract input) inputs state abstract start
  rw [List.map_id, List.forall₂_eq_eq_eq] at run
  exact run

/-- A machine that aborts where a condition fails. -/
def guarded (step : State -> Input -> Option (State × Reply)) (condition : State -> Input -> Bool) (state : State)
    (input : Input) : Option (State × Reply) := if condition state input then step state input else none

/-- Its runs are those of steps that all meet the condition. -/
theorem runReplies_guarded {step : State -> Input -> Option (State × Reply)} {condition : State -> Input -> Bool}
    {inputs : List Input} {last : State} :
    ∀ {state : State} {replies : List Reply}, runReplies (guarded step condition) state inputs = some (last, replies) ↔
      EveryInput step (fun state input => condition state input) state inputs ∧
        runReplies step state inputs = some (last, replies) := by
  induction inputs with
  | nil => exact fun {_ _} => (and_iff_right trivial).symm
  | cons input inputs inductionHypothesis =>
      intro state replies
      rw [runReplies, runReplies, EveryInput, guarded]
      cases holds : condition state input with
      | false => exact iff_of_false (fun none => by cases none) fun every => Bool.false_ne_true every.1.1
      | true =>
          rw [if_pos rfl, and_iff_right rfl]
          cases steps : step state input with
          | none => exact iff_of_false (fun none => by cases none) fun every => by cases every.2
          | some next =>
              rw [Option.bind_some, Option.bind_some]
              constructor
              · intro runs
                rcases Option.map_eq_some_iff.mp runs with ⟨⟨final, rest⟩, later, pair⟩
                cases pair
                rcases inductionHypothesis.mp later with ⟨every, through⟩
                refine ⟨fun after same => ?_, Option.map_eq_some_iff.mpr ⟨_, through, rfl⟩⟩
                cases same
                exact every
              · rintro ⟨every, runs⟩
                rcases Option.map_eq_some_iff.mp runs with ⟨⟨final, rest⟩, later, pair⟩
                cases pair
                exact Option.map_eq_some_iff.mpr ⟨_, inductionHypothesis.mpr ⟨every _ rfl, later⟩, rfl⟩

end Machine
end Extlib
