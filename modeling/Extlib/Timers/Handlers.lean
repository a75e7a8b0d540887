import Extlib.Timers.Loop

namespace Extlib
namespace Timers

open Machine

/-!
# An armed timer has a handler

`timer_start` stores a deadline together with a handler and `timer_stop` clears
the two together.  `timer_trigger` stores a deadline alone, and `timer_loop`
calls the handler of a timer whose deadline has come without looking at it.

The runs here are those without `timer_destroy`, in which a handler works on no
timer but its own and the ones it makes.  In such a run every timer with a
deadline has a handler as long as `timer_trigger` is only called on timers that
have one.
-/

/-- Every timer with a deadline can be fired. -/
def Armed (loop : TimerLoop) : Prop := ∀ timer ∈ loop.timers, timer.timeout.IsSet -> timer.handler.isSome

/-- A timer is started with a handler, and none is destroyed. -/
def Starts : TimerOp -> Prop
  | .destroy _ => False
  | .start _ handler .. => handler.isSome
  | _ => True

/-- The operation is on this timer, or makes a new one. -/
def Own (id : Nat) : TimerOp -> Prop
  | .new => True
  | .destroy other => other = id
  | .start other .. => other = id
  | .stop other => other = id
  | .trigger other _ => other = id

/-- The calls of the program and of its handlers. -/
def Called : TimerInput -> Prop
  | .op op => Starts op
  | .pass input => ∀ id, ∀ op ∈ input.handlers id, Starts op ∧ Own id op

/-- A handler triggers its timer while the timer has a handler: not after a
stop, unless it has started it again. -/
def TriggersHandled : Bool -> List TimerOp -> Prop
  | _, [] => True
  | _, .start .. :: ops => TriggersHandled true ops
  | _, .stop _ :: ops => TriggersHandled false ops
  | handled, .trigger .. :: ops => handled ∧ TriggersHandled handled ops
  | handled, .new :: ops => TriggersHandled handled ops
  | handled, .destroy _ :: ops => TriggersHandled handled ops

/-- Every `timer_trigger` of a step is on a timer that has a handler when it is
called.  In a pass these are the calls of the handlers that are due. -/
def OnHandled (loop : TimerLoop) : TimerInput -> Prop
  | .op (.trigger id _) => ∀ timer ∈ loop.timers, timer.id = id -> timer.handler.isSome
  | .op _ => True
  | .pass input =>
      ∀ timer ∈ loop.timers, timer.timeout.IsSet -> ¬ input.now.toTimeval.Before timer.timeout ->
        TriggersHandled true (input.handlers timer.id)

/-! ## Operations -/

section Operations

variable {loop : TimerLoop}

theorem Armed.applyOp (armed : Armed loop) {op : TimerOp} (starts : Starts op)
    (handled : OnHandled loop (.op op)) : Armed (applyOp loop op) := by
  intro timer listed set
  rcases mem_applyOp listed with present | ⟨_, rfl⟩ | ⟨old, present, changes⟩
  · exact armed timer present set
  · exact absurd set Timeval.not_isSet_clear
  · cases changes with
    | start => exact starts
    | stop => exact absurd set Timeval.not_isSet_clear
    | trigger => exact handled old present rfl

/-- Nothing but the epoch itself triggers a timer without setting it: a
trigger keeps the deadlines of handled timers exactly when its timer has a
handler. -/
theorem armed_timerTrigger_iff (armed : Armed loop) (id : Nat) {now : Timeofday} (later : now.toTimeval.IsSet) :
    Armed (timerTrigger loop id now) ↔ OnHandled loop (.op (.trigger id now)) := by
  constructor
  · intro stays timer listed own
    have triggered : { timer with timeout := now.toTimeval } ∈ (timerTrigger loop id now).timers :=
      List.mem_map.mpr ⟨timer, listed, if_pos own⟩
    exact stays { timer with timeout := now.toTimeval } triggered later
  · intro handled
    have starts : Starts (.trigger id now) := trivial
    exact armed.applyOp starts handled

/-- The handler of one timer at work: `handled` tells if the timer has one. -/
structure Working (id : Nat) (handled : Bool) (loop : TimerLoop) : Prop where
  valid : loop.Valid
  armed : Armed loop
  known : id < loop.allocated
  own : handled -> ∀ timer ∈ loop.timers, timer.id = id -> timer.handler.isSome

theorem Working.applyOps {id : Nat} {ops : List TimerOp} :
    ∀ {handled : Bool} {loop : TimerLoop}, (∀ op ∈ ops, Starts op ∧ Own id op) -> TriggersHandled handled ops ->
      Working id handled loop -> ∃ still, Working id still (ops.foldl Timers.applyOp loop) := by
  induction ops with
  | nil => exact fun _ _ working => ⟨_, working⟩
  | cons op ops inductionHypothesis =>
      intro handled loop allowed triggers working
      rcases allowed op List.mem_cons_self with ⟨starts, own⟩
      have later := fun other member => allowed other (List.mem_cons_of_mem op member)
      have valid := working.valid.applyOp op
      have known := Nat.lt_of_lt_of_le working.known (allocated_le_applyOp loop op)
      rw [List.foldl_cons]
      cases op with
      | new =>
          refine inductionHypothesis later triggers ⟨valid, working.armed.applyOp starts trivial, known, ?_⟩
          intro has timer listed same
          rcases List.mem_cons.mp listed with rfl | old
          · exact absurd same.symm (Nat.ne_of_lt working.known)
          · exact working.own has timer old same
      | destroy other => exact False.elim starts
      | start other handler arg timeout repeatMs now =>
          refine inductionHypothesis later triggers ⟨valid, working.armed.applyOp starts trivial, known, ?_⟩
          intro _ timer listed here
          rcases mem_updateTimer listed (fun _ => rfl) with ⟨_, _, _, rfl, _⟩ | ⟨_, different⟩
          · exact starts
          · exact absurd (here.trans own.symm) different
      | stop other =>
          refine inductionHypothesis later triggers ⟨valid, working.armed.applyOp starts trivial, known, ?_⟩
          exact fun none => absurd none Bool.false_ne_true
      | trigger other now =>
          have same : ∀ old : Timer, { old with timeout := now.toTimeval }.id = old.id := fun _ => rfl
          have has : OnHandled loop (.op (.trigger other now)) := fun timer listed here =>
            working.own triggers.1 timer listed (here.trans own)
          refine inductionHypothesis later triggers.2 ⟨valid, working.armed.applyOp starts has, known, ?_⟩
          intro handled timer listed here
          rcases mem_updateTimer listed same with ⟨old, present, was, rfl, _⟩ | ⟨present, _⟩
          · exact working.own handled old present (was.trans own)
          · exact working.own handled timer present here

/-- A timer is rearmed while its handler is there to be called. -/
theorem Working.rearmed (valid : loop.Valid) (armed : Armed loop) {pos : Timer} (listed : pos ∈ loop.timers)
    (calls : pos.handler.isSome) (timeout : Timeval) :
    Working pos.id true (updateTimer loop pos.id fun timer => { timer with timeout := timeout }) := by
  have same : ∀ timer : Timer, { timer with timeout := timeout }.id = timer.id := fun _ => rfl
  have mine : ∀ timer ∈ (updateTimer loop pos.id fun timer => { timer with timeout := timeout }).timers,
      timer.id = pos.id -> timer.handler.isSome := by
    intro timer member own
    rcases mem_updateTimer member same with ⟨old, present, was, rfl, _⟩ | ⟨_, different⟩
    · rw [List.inj_on_of_nodup_map valid.distinct present listed was]
      exact calls
    · exact absurd own different
  refine ⟨valid.update pos.id same, ?_, valid.known pos listed, fun _ => mine⟩
  intro timer member set
  rcases mem_updateTimer member same with ⟨_, _, _, _, here⟩ | ⟨present, _⟩
  · exact mine timer member here
  · exact armed timer present set

/-- What the handler of one timer does to the list: the others stay as they
are, and new ones have new addresses. -/
structure LeavesOthers (id : Nat) (before after : TimerLoop) : Prop where
  grown : before.allocated ≤ after.allocated
  linked : ∀ other, (∃ timer ∈ before.timers, timer.id = other) -> ∃ timer ∈ after.timers, timer.id = other
  kept : ∀ timer ∈ after.timers, timer.id ≠ id -> timer ∈ before.timers ∨ before.allocated ≤ timer.id

theorem LeavesOthers.update (loop : TimerLoop) (id : Nat) {change : Timer -> Timer}
    (same : ∀ old, (change old).id = old.id) : LeavesOthers id loop (updateTimer loop id change) := by
  refine ⟨Nat.le_refl _, fun other => linked_update same id, ?_⟩
  intro timer listed different
  rcases mem_updateTimer listed same with ⟨_, _, _, _, here⟩ | ⟨present, _⟩
  · exact absurd here different
  · exact Or.inl present

theorem LeavesOthers.applyOp {id : Nat} {before after : TimerLoop} (leaves : LeavesOthers id before after)
    {op : TimerOp} (starts : Starts op) (own : Own id op) : LeavesOthers id before (applyOp after op) := by
  refine ⟨Nat.le_trans leaves.grown (allocated_le_applyOp after op), ?_, ?_⟩
  · intro other present
    refine linked_applyOp ?_ (leaves.linked other present)
    rintro rfl
    exact starts
  · intro timer listed different
    rcases mem_applyOp listed with present | ⟨_, rfl⟩ | ⟨old, _, changes⟩
    · exact leaves.kept timer present different
    · exact Or.inr leaves.grown
    · cases changes with
      | start => exact absurd own different
      | stop => exact absurd own different
      | trigger => exact absurd own different

end Operations

/-! ## One pass -/

/-- The timers that the walk has still to visit are as the pass found them. -/
structure Unvisited (start : TimerLoop) (ids : List Nat) (pass : Pass) : Prop where
  valid : pass.loop.Valid
  armed : Armed pass.loop
  known : ∀ id ∈ ids, id < pass.loop.allocated
  found : ∀ timer ∈ pass.loop.timers, timer.id ∈ ids -> timer ∈ start.timers

section Passes

variable {start : TimerLoop} {input : PassInput}

theorem Unvisited.rest {id : Nat} {rest : List Nat} {pass : Pass} (unvisited : Unvisited start (id :: rest) pass) :
    Unvisited start rest pass where
  valid := unvisited.valid
  armed := unvisited.armed
  known := fun other member => unvisited.known other (List.mem_cons_of_mem id member)
  found := fun timer listed member => unvisited.found timer listed (List.mem_cons_of_mem id member)

/-- A handler is there to call, and when it is done every timer with a deadline
has one again. -/
theorem visitTimer_armed (called : Called (.pass input)) (handled : OnHandled start (.pass input)) {id : Nat}
    {rest : List Nat} {pass : Pass} {pos : Timer} (found : findTimer pass.loop id = some pos) (fresh : id ∉ rest)
    (unvisited : Unvisited start (id :: rest) pass) :
    ∃ visited, visitTimer input pass pos = some visited ∧ Unvisited start rest visited ∧ visited.loop.timers ≠ [] ∧
      ∀ other, other ≠ id -> (findTimer pass.loop other).isSome -> (findTimer visited.loop other).isSome := by
  rcases findTimer_mem found with ⟨listed, rfl⟩
  have first := unvisited.found pos listed List.mem_cons_self
  have later := unvisited.rest
  by_cases set : pos.timeout.IsSet
  case neg => exact ⟨pass, if_pos set, later, List.ne_nil_of_mem listed, fun _ _ stays => stays⟩
  by_cases early : input.now.toTimeval.Before pos.timeout
  case pos =>
    refine ⟨{ pass with next := sooner pos.timeout pass.next }, ?_, ⟨later.valid, later.armed, later.known, later.found⟩,
      List.ne_nil_of_mem listed, fun _ _ stays => stays⟩
    rw [visitTimer, if_neg (not_not.mpr set), if_pos early]
  have calls := unvisited.armed pos listed set
  have working := Working.rearmed unvisited.valid unvisited.armed listed calls (rearm pos input.now.toTimeval)
  rcases working.applyOps (called pos.id) (handled pos first set early) with ⟨_, after⟩
  have leaves : LeavesOthers pos.id pass.loop ((input.handlers pos.id).foldl applyOp
      (updateTimer pass.loop pos.id fun timer => { timer with timeout := rearm pos input.now.toTimeval })) := by
    refine List.foldlRecOn _ _ (LeavesOthers.update pass.loop pos.id fun _ => rfl) ?_
    exact fun loop leaves op member => leaves.applyOp (called pos.id op member).1 (called pos.id op member).2
  rcases Option.isSome_iff_exists.mp calls with ⟨handler, has⟩
  refine ⟨_, by rw [visitTimer, if_neg (not_not.mpr set), if_neg early, has], ⟨after.valid, after.armed, ?_, ?_⟩, ?_, ?_⟩
  · exact fun other member => Nat.lt_of_lt_of_le (later.known other member) leaves.grown
  · intro timer member ahead
    rcases leaves.kept timer member (fun same => fresh (same ▸ ahead)) with old | new
    · exact later.found timer old ahead
    · exact absurd (later.known _ ahead) (Nat.not_lt.mpr new)
  · rcases leaves.linked pos.id ⟨pos, listed, rfl⟩ with ⟨timer, member, _⟩
    exact List.ne_nil_of_mem member
  · intro other _ present
    exact findTimer_isSome_iff.mpr (leaves.linked other (findTimer_isSome_iff.mp present))

theorem timerLoop_armed (called : Called (.pass input)) (handled : OnHandled start (.pass input))
    (valid : start.Valid) (armed : Armed start) :
    ∃ after report, timerLoop start input = some (after, report) ∧ after.Valid ∧ Armed after := by
  have unvisited : Unvisited start (start.timers.map (·.id)) ⟨start, ⟨input.now.sec + 1, input.now.usec⟩, []⟩ := by
    refine ⟨valid, armed, ?_, fun timer listed _ => listed⟩
    intro id member
    rcases List.mem_map.mp member with ⟨timer, listed, rfl⟩
    exact valid.known timer listed
  rcases walkTimers_returns_rule (Unvisited start) (fun _ _ _ _ kept => kept.rest)
    (fun _ _ _ _ found fresh kept => visitTimer_armed called handled found fresh kept) valid.distinct unvisited
    with ⟨walked, walks, kept⟩
  exact ⟨walked.loop, _, by rw [timerLoop, walks, Option.map_some], kept.valid, kept.armed⟩

end Passes

/-! ## Runs -/

/-- The run goes through, so that no pass of it has called a null handler, and
in the state it reaches every deadline has a handler.  Every state of a run is
reached by a run. -/
def FiresHandlers (inputs : List TimerInput) : Prop :=
  ∃ loop reports, runReplies timerStep ⟨[], 0⟩ inputs = some (loop, reports) ∧ Armed loop

/-- Timers fire handlers in every run whose triggers are on timers with one. -/
theorem run_firesHandlers {inputs : List TimerInput} (called : ∀ input ∈ inputs, Called input)
    (handled : EveryInput timerStep OnHandled ⟨[], 0⟩ inputs) : FiresHandlers inputs := by
  have returns : ∀ (loop : TimerLoop) (input : TimerInput), Called input ∧ OnHandled loop input ->
      loop.Valid ∧ Armed loop ->
        ∃ after reply, timerStep loop input = some (after, reply) ∧ after.Valid ∧ Armed after := by
    rintro loop input ⟨here, handled⟩ ⟨valid, armed⟩
    cases input with
    | op op => exact ⟨_, _, rfl, valid.applyOp op, armed.applyOp here handled⟩
    | pass input =>
        rcases timerLoop_armed here handled valid armed with ⟨after, report, passes, kept⟩
        exact ⟨after, some report, by rw [timerStep, passes, Option.map_some], kept⟩
  have start : TimerLoop.Valid ⟨[], 0⟩ ∧ Armed ⟨[], 0⟩ := ⟨⟨List.nodup_nil, by simp⟩, by simp [Armed]⟩
  rcases runReplies_returns (fun loop => loop.Valid ∧ Armed loop) returns
    ((everyInput_of_forall called _).and handled) start with ⟨loop, reports, runs, _, armed⟩
  exact ⟨loop, reports, runs, armed⟩

private theorem oneSecond_normalised : 0 < 1000000 := by decide

/-- One second past the epoch. -/
private def oneSecond : Timeofday := ⟨⟨1, 0⟩, oneSecond_normalised⟩

/-- A timer that triggers itself when its handler is called. -/
private def selfTrigger : List TimerInput :=
  [.op .new, .op (.start 0 (some 7) 0 0 0 oneSecond), .op (.trigger 0 oneSecond),
    .pass ⟨oneSecond, oneSecond, fun id => [.trigger id oneSecond]⟩]

theorem run_firesHandlers_selfTrigger : FiresHandlers selfTrigger := by
  refine run_firesHandlers (by simp [selfTrigger, Called, Starts, Own]) ?_
  refine ⟨trivial, ?_⟩
  rintro _ ⟨⟩
  refine ⟨trivial, ?_⟩
  rintro _ ⟨⟩
  refine ⟨?_, ?_⟩
  · intro timer listed _
    cases List.mem_singleton.mp listed
    rfl
  · rintro _ ⟨⟩
    exact ⟨fun _ _ _ _ => ⟨rfl, trivial⟩, fun _ _ => trivial⟩

/-- A timer is triggered that has never been started. -/
private def freshTrigger : List TimerInput :=
  [.op .new, .op (.trigger 0 oneSecond), .pass ⟨oneSecond, oneSecond, fun _ => []⟩]

theorem freshTrigger_calls_null :
    ¬ ∀ inputs : List TimerInput, (∀ input ∈ inputs, Called input) -> FiresHandlers inputs := by
  intro every
  have fires := every freshTrigger (by simp [freshTrigger, Called, Starts])
  rcases fires with ⟨loop, reports, runs, _⟩
  have null : runReplies timerStep ⟨[], 0⟩ freshTrigger = none := by decide +kernel
  rw [null] at runs
  cases runs

end Timers
end Extlib
