import Extlib.Timers.Loop

namespace Extlib
namespace Timers

open Machine

/-!
# When a timer fires for the first time

`timer_start` adds the timeout to the clock field by field and leaves the
carry out, and `timer_loop` compares field by field.  Up to a million
microseconds the deadline is compared as the time it stands for; beyond, it
counts as reached with the next second, before its time.
-/

/-- No operation sets the deadline of the timer. -/
def LeavesTimer (id : Nat) : TimerOp -> Prop
  | .start other .. => other ≠ id
  | .trigger other _ => other ≠ id
  | _ => True

/-- Neither the caller nor the handler of another timer sets the deadline.
(What the timer's own handler does comes after it has fired.) -/
def LeavesAlone (id : Nat) : TimerInput -> Prop
  | .op op => LeavesTimer id op
  | .pass input => ∀ other, other ≠ id -> ∀ op ∈ input.handlers other, LeavesTimer id op

/-- The first pass of a run that calls the handler of the timer. -/
def firstFiring (id : Nat) (reports : List (Option PassReport)) : Option PassReport :=
  (reports.filterMap fun report => report).find? fun report => id ∈ report.fired

/-- A timer set at `now` with this timeout fires for the first time in a pass
that samples a time no earlier than `timeout` milliseconds after `now`. -/
def NeverEarly (now : Timeofday) (timeout repeatMs : Nat) : Prop :=
  ∀ (loop : TimerLoop) (id : Nat) (handler : Option Nat) (arg : Nat) (inputs : List TimerInput)
    (last : TimerLoop) (reports : List (Option PassReport)),
    (∃ timer ∈ loop.timers, timer.id = id) -> (∀ timer ∈ loop.timers, timer.id < loop.allocated) ->
    (∀ input ∈ inputs, LeavesAlone id input) ->
    runReplies timerStep (timerStart loop id handler arg timeout repeatMs now) inputs = some (last, reports) ->
    ∀ report, firstFiring id reports = some report ->
      now.micros + timeout * 1000 ≤ report.now.micros

/-- The timer, if it is there, has the deadline or none. -/
structure Waiting (id : Nat) (deadline : Timeval) (loop : TimerLoop) : Prop where
  known : id < loop.allocated
  armed : ∀ timer ∈ loop.timers, timer.id = id -> timer.timeout = deadline ∨ ¬ timer.timeout.IsSet

section Steps

variable {id : Nat} {deadline : Timeval} {loop : TimerLoop}

/-- Another timer is updated. -/
private theorem Waiting.update (waiting : Waiting id deadline loop) {other : Nat} (different : other ≠ id)
    {change : Timer -> Timer} (same : ∀ timer, (change timer).id = timer.id) :
    Waiting id deadline (updateTimer loop other change) := by
  refine ⟨waiting.known, ?_⟩
  intro timer listed own
  rcases mem_updateTimer listed same with ⟨_, _, _, _, here⟩ | ⟨present, _⟩
  · exact absurd (here.symm.trans own) different
  · exact waiting.armed timer present own

theorem Waiting.applyOp (waiting : Waiting id deadline loop) {op : TimerOp} (leaves : LeavesTimer id op) :
    Waiting id deadline (applyOp loop op) := by
  refine ⟨Nat.lt_of_lt_of_le waiting.known (allocated_le_applyOp loop op), ?_⟩
  intro timer listed own
  rcases mem_applyOp listed with present | ⟨_, rfl⟩ | ⟨old, _, changes⟩
  · exact waiting.armed timer present own
  · exact Or.inr Timeval.not_isSet_clear
  · cases changes with
    | start => exact absurd own leaves
    | stop => exact Or.inr Timeval.not_isSet_clear
    | trigger => exact absurd own leaves

private theorem Waiting.applyOps {ops : List TimerOp} (leave : ∀ op ∈ ops, LeavesTimer id op)
    (waiting : Waiting id deadline loop) : Waiting id deadline (ops.foldl Timers.applyOp loop) :=
  List.foldlRecOn ops _ waiting fun _ waits op member => waits.applyOp (leave op member)

/-- Until the walk calls the handler of the timer it waits, and by then its
deadline is no later, field by field, than the time sampled. -/
def Punctual (id : Nat) (deadline now : Timeval) (pass : Pass) : Prop :=
  if id ∈ pass.fired then ¬ now.Before deadline else Waiting id deadline pass.loop

theorem visitTimer_punctual {input : PassInput} {pass visited : Pass} {pos : Timer}
    (alone : LeavesAlone id (.pass input)) (listed : pos ∈ pass.loop.timers)
    (punctual : Punctual id deadline input.now.toTimeval pass)
    (visits : visitTimer input pass pos = some visited) :
    Punctual id deadline input.now.toTimeval visited := by
  rcases visitTimer_cases visits with ⟨_, rfl⟩ | ⟨_, _, rfl⟩ | ⟨set, reached, _, rfl⟩
  · exact punctual
  · exact punctual
  · unfold Punctual at punctual ⊢
    dsimp only
    by_cases before : id ∈ pass.fired
    · rw [if_pos before] at punctual
      rw [if_pos (List.mem_append_left _ before)]
      exact punctual
    · rw [if_neg before] at punctual
      by_cases own : id = pos.id
      · rw [if_pos (List.mem_append_right _ (List.mem_singleton.mpr own))]
        have armed := (punctual.armed pos listed own.symm).resolve_right (not_not.mpr set)
        rw [← armed]
        exact reached
      · rw [if_neg (fun member => (List.mem_append.mp member).elim before
          (fun last => own (List.mem_singleton.mp last)))]
        apply Waiting.applyOps (alone pos.id (Ne.symm own))
        apply punctual.update (Ne.symm own)
        exact fun _ => rfl

/-- A pass fires the timer no earlier than its deadline, or leaves it waiting. -/
theorem timerLoop_punctual {input : PassInput} {after : TimerLoop} {report : PassReport}
    (alone : LeavesAlone id (.pass input)) (waiting : Waiting id deadline loop)
    (passes : timerLoop loop input = some (after, report)) :
    report.now = input.now.toTimeval ∧
      if id ∈ report.fired then ¬ report.now.Before deadline else Waiting id deadline after := by
  rcases Option.map_eq_some_iff.mp passes with ⟨pass, walks, pair⟩
  cases pair
  refine ⟨rfl, ?_⟩
  refine walkTimers_rule (fun _ pass => Punctual id deadline input.now.toTimeval pass) ?_ ?_ _ ?_ walks
  · exact fun _ _ _ _ punctual => punctual
  · intro _ _ pass pos visited found visits punctual
    exact visitTimer_punctual alone (findTimer_mem found).1 punctual visits
  · unfold Punctual
    rw [if_neg List.not_mem_nil]
    exact waiting

/-- Over a run the first firing comes no earlier than the deadline. -/
theorem firstFiring_punctual {inputs : List TimerInput} (alone : ∀ input ∈ inputs, LeavesAlone id input) :
    ∀ {loop last : TimerLoop} {reports : List (Option PassReport)}, Waiting id deadline loop ->
      runReplies timerStep loop inputs = some (last, reports) ->
      ∀ report, firstFiring id reports = some report -> ¬ report.now.Before deadline := by
  induction inputs with
  | nil =>
      intro loop last reports _ completes report first
      cases completes
      cases first
  | cons input inputs inductionHypothesis =>
      intro loop last reports waiting completes report first
      have rest_alone : ∀ other ∈ inputs, LeavesAlone id other :=
        fun other member => alone other (List.mem_cons_of_mem _ member)
      rcases Option.bind_eq_some_iff.mp completes with ⟨⟨next, reply⟩, step, rest⟩
      rcases Option.map_eq_some_iff.mp rest with ⟨⟨final, others⟩, run, pair⟩
      cases pair
      have here := alone input List.mem_cons_self
      cases input with
      | op op =>
          cases step
          exact inductionHypothesis rest_alone (waiting.applyOp here) run report first
      | pass passInput =>
          rcases Option.map_eq_some_iff.mp step with ⟨⟨after, made⟩, passes, pair⟩
          cases pair
          have punctual := (timerLoop_punctual here waiting passes).2
          change (made :: others.filterMap fun report => report).find? _ = some report at first
          rw [List.find?_cons] at first
          by_cases fires : id ∈ made.fired
          · rw [decide_eq_true fires] at first
            cases first
            rw [if_pos fires] at punctual
            exact punctual
          · rw [decide_eq_false fires] at first
            rw [if_neg fires] at punctual
            exact inductionHypothesis rest_alone punctual run report first

end Steps

/-- A timer that is set waits for the deadline stored. -/
private theorem timerStart_waiting {loop : TimerLoop} {id : Nat}
    (linked : ∃ timer ∈ loop.timers, timer.id = id) (known : ∀ timer ∈ loop.timers, timer.id < loop.allocated)
    (handler : Option Nat) (arg timeout repeatMs : Nat) (now : Timeofday) :
    Waiting id (startTimeout now.toTimeval timeout)
      (timerStart loop id handler arg timeout repeatMs now) := by
  rcases linked with ⟨timer, listed, rfl⟩
  refine ⟨known timer listed, ?_⟩
  intro started member own
  rcases mem_updateTimer member (fun _ => rfl) with ⟨_, _, _, rfl, _⟩ | ⟨_, other⟩
  · exact Or.inl rfl
  · exact absurd own other

/-- The beginning of the second that follows the seconds of the deadline. -/
private def nextSecond (now : Timeofday) (timeout : Nat) : Timeofday :=
  ⟨⟨now.sec + timeout / 1000 + 1, 0⟩, Nat.succ_pos _⟩

/-- The only timer of a loop, set with a carry, fires in that second. -/
private theorem timerLoop_nextSecond (now : Timeofday) (timeout repeatMs : Nat)
    (carries : now.usec + timeout % 1000 * 1000 ≠ 0) :
    ∃ after next, timerLoop (timerStart (timerNew ⟨[], 0⟩) 0 (some 0) 0 timeout repeatMs now)
        ⟨nextSecond now timeout, nextSecond now timeout, fun _ => []⟩ =
      some (after, ⟨[0], (nextSecond now timeout).toTimeval, next⟩) := by
  have set : (startTimeout now.toTimeval timeout).IsSet := Or.inr carries
  have reached : ¬ (nextSecond now timeout).toTimeval.Before (startTimeout now.toTimeval timeout) := by
    apply Timeval.not_before_of_sec_lt
    exact Nat.lt_succ_self _
  simp [timerLoop, timerStart, timerNew, updateTimer, walkTimers, findTimer, visitTimer, set, reached]

/-- With a carry beyond the second there is a run in which the timer is early. -/
private theorem NeverEarly.spelled {now : Timeofday} {timeout repeatMs : Nat}
    (neverEarly : NeverEarly now timeout repeatMs) : now.usec + timeout % 1000 * 1000 ≤ 1000000 := by
  by_contra carries
  rcases timerLoop_nextSecond now timeout repeatMs (by omega) with ⟨after, next, passes⟩
  have completes : runReplies timerStep (timerStart (timerNew ⟨[], 0⟩) 0 (some 0) 0 timeout repeatMs now)
      [.pass ⟨nextSecond now timeout, nextSecond now timeout, fun _ => []⟩] =
      some (after, [some ⟨[0], (nextSecond now timeout).toTimeval, next⟩]) := by
    simp only [runReplies, timerStep, passes, Option.map_some, Option.bind_some]
  have late := neverEarly (timerNew ⟨[], 0⟩) 0 (some 0) 0 _ after _ ⟨_, List.mem_cons_self, rfl⟩
    (by simp [timerNew]) (by simp [LeavesAlone]) completes _ rfl
  rw [← micros_startTimeout] at late
  simp only [startTimeout, nextSecond, Timeval.micros] at late
  omega

/-- A timer fires no earlier than asked for exactly when the microseconds of
its deadline do not go beyond a second. -/
theorem neverEarly_iff (now : Timeofday) (timeout repeatMs : Nat) :
    NeverEarly now timeout repeatMs ↔ now.usec + timeout % 1000 * 1000 ≤ 1000000 := by
  constructor
  · exact NeverEarly.spelled
  · intro spelled loop id handler arg inputs last reports linked known alone completes report first
    have waiting := timerStart_waiting linked known handler arg timeout repeatMs now
    have reached := firstFiring_punctual alone waiting completes report first
    have late := Timeval.micros_le_of_not_before spelled reached
    rw [micros_startTimeout] at late
    exact late

/-- Set at 900 milliseconds past a second for 200, a timer fires 100
milliseconds before its time. -/
theorem carriedTimer_fires_early : ¬ ∀ now timeout repeatMs, NeverEarly now timeout repeatMs := by
  intro always
  have spelled := (always ⟨⟨10, 900000⟩, by decide⟩ 200 0).spelled
  revert spelled
  decide

end Timers
end Extlib
