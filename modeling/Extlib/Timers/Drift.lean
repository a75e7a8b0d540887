import Extlib.Timers.Loop

namespace Extlib
namespace Timers

open Machine

/-!
# Repeating timers do not drift

A deadline that has been reached is moved on by whole repeat times, counted
from the deadline and not from the pass that is late for it.  A pass compares
field by field, and the deadlines it compares are spelled with up to 1998999
microseconds: `timer_start` makes no more of them, and `timeradd` keeps to the
bound.
-/

/-- The bound on the microseconds of a deadline. -/
def usecBound : Nat := 1999000

/-- The operation is not on this timer. -/
def Spares (id : Nat) : TimerOp -> Prop
  | .new => True
  | .destroy other => other ≠ id
  | .start other .. => other ≠ id
  | .stop other => other ≠ id
  | .trigger other _ => other ≠ id

/-- Neither the caller nor any handler touches the timer. -/
def SparesAll (id : Nat) : TimerInput -> Prop
  | .op op => Spares id op
  | .pass input => ∀ other, ∀ op ∈ input.handlers other, Spares id op

/-- The time that the deadline of a timer stands for. -/
def deadline (loop : TimerLoop) (id : Nat) : Option Nat := (findTimer loop id).map (·.timeout.micros)

/-! ## The loop that adds the repeat time -/

section Repeats

variable {repeatTime now timeout : Timeval}

theorem repeatRound_again {next : Timeval} (goesOn : repeatRound repeatTime now timeout = .again next) :
    next = timeout.add repeatTime ∧ next.Before now := by
  unfold repeatRound at goesOn
  split at goesOn
  case isTrue early =>
    cases goesOn
    exact ⟨rfl, early⟩
  case isFalse => cases goesOn

theorem repeatRound_done {last : Timeval} (stops : repeatRound repeatTime now timeout = .done last) :
    last = timeout.add repeatTime ∧ ¬ last.Before now := by
  unfold repeatRound at stops
  split at stops
  case isTrue => cases stops
  case isFalse reached =>
    cases stops
    exact ⟨rfl, reached⟩

/-- Seconds and microseconds in one number, which every round raises however
the deadline is spelled. -/
private def height (time : Timeval) : Nat := time.sec * 1000000 + min time.usec 999999

private theorem height_lt_add (repeats : repeatTime.IsSet) (timeout : Timeval) :
    height timeout < height (timeout.add repeatTime) := by
  unfold Timeval.IsSet at repeats
  unfold height Timeval.add
  split
  case isTrue carry =>
    dsimp only
    omega
  case isFalse =>
    dsimp only
    omega

private theorem height_le_of_before {time : Timeval} (early : time.Before now) : height time ≤ now.micros := by
  unfold Timeval.Before at early
  unfold height Timeval.micros
  split at early <;> omega

/-- The loop ends for every deadline and every time. -/
theorem nextTimeout_ends (repeats : repeatTime.IsSet) (now timeout : Timeval) :
    Ends (repeatRound repeatTime now) timeout (nextTimeout repeatTime now timeout) := by
  refine repeatUpTo_ends (fun _ => True) (fun time => now.micros - height time + 1) ?_ ?_ _ timeout trivial ?_
  · intro time next _ goesOn
    rcases repeatRound_again goesOn with ⟨rfl, early⟩
    have higher := height_lt_add repeats time
    have below := height_le_of_before early
    exact ⟨trivial, by omega⟩
  · exact fun _ _ none => absurd none (Nat.succ_ne_zero _)
  · exact Nat.succ_le_succ (Nat.sub_le _ _)

/-- A deadline not later, field by field, is less than a second later. -/
private theorem micros_lt_of_not_before (bounded : timeout.usec < usecBound) (reached : ¬ now.Before timeout) :
    timeout.micros < now.micros + 1000000 := by
  unfold Timeval.Before at reached
  unfold usecBound at bounded
  unfold Timeval.micros
  split at reached <;> omega

/-- It ends whole repeat times later, at the time of the pass or later, and no
later than a repeat time and less than a second. -/
private theorem repeats_ends {last : Timeval} (ends : Ends (repeatRound repeatTime now) timeout last)
    (normalised : now.usec < 1000000) (part : repeatTime.usec < 1000000) (bounded : timeout.usec < usecBound)
    (reached : ¬ now.Before timeout) :
    (∃ n, last.micros = timeout.micros + n * repeatTime.micros) ∧ now.micros ≤ last.micros ∧
      last.micros < now.micros + repeatTime.micros + 1000000 ∧ last.usec < usecBound := by
  induction ends with
  | @done timeout last stops =>
      rcases repeatRound_done stops with ⟨rfl, late⟩
      have behind := micros_lt_of_not_before bounded reached
      have sum := Timeval.micros_add timeout repeatTime
      refine ⟨⟨1, by omega⟩, ?_, by omega, ?_⟩
      · exact Timeval.micros_le_of_not_before (Nat.le_of_lt normalised) late
      · exact Timeval.usec_add_lt (by decide) bounded part
  | @again timeout next last goesOn _ inductionHypothesis =>
      rcases repeatRound_again goesOn with ⟨rfl, early⟩
      have sum := Timeval.micros_add timeout repeatTime
      rcases inductionHypothesis (Timeval.usec_add_lt (by decide) bounded part) (Timeval.not_before_of_before early)
        with ⟨⟨n, steps⟩, bounds⟩
      refine ⟨⟨n + 1, ?_⟩, bounds⟩
      rw [steps, sum, Nat.succ_mul]
      omega

end Repeats

/-! ## The deadline of one timer -/

/-- The timer is there, and its deadline lies `k` repeat times after the first. -/
structure Scheduled (id first repeatMs k : Nat) (loop : TimerLoop) : Prop where
  valid : loop.Valid
  linked : ∃ timer ∈ loop.timers, timer.id = id
  moved : ∀ timer ∈ loop.timers, timer.id = id ->
    timer.timeout.micros = first + k * (repeatMs * 1000) ∧ timer.timeout.usec < usecBound ∧
      timer.repeatTime = ofMilliseconds repeatMs

section Schedule

variable {id first repeatMs k : Nat} {loop : TimerLoop}

theorem Scheduled.deadline (scheduled : Scheduled id first repeatMs k loop) :
    deadline loop id = some (first + k * (repeatMs * 1000)) := by
  cases found : findTimer loop id with
  | none =>
      have present := findTimer_isSome_iff.mpr scheduled.linked
      rw [found] at present
      cases present
  | some timer =>
      rcases findTimer_mem found with ⟨listed, own⟩
      rw [Timers.deadline, found, Option.map_some, (scheduled.moved timer listed own).1]

/-- Another timer is updated. -/
theorem Scheduled.update (scheduled : Scheduled id first repeatMs k loop) {other : Nat} (different : other ≠ id)
    {change : Timer -> Timer} (same : ∀ old, (change old).id = old.id) :
    Scheduled id first repeatMs k (updateTimer loop other change) := by
  refine ⟨scheduled.valid.update other same, linked_update same other scheduled.linked, ?_⟩
  intro timer listed own
  rcases mem_updateTimer listed same with ⟨_, _, _, _, here⟩ | ⟨present, _⟩
  · exact absurd (here.symm.trans own) different
  · exact scheduled.moved timer present own

theorem Spares.ne_destroy {op : TimerOp} (spares : Spares id op) : op ≠ .destroy id := by
  rintro rfl
  exact spares rfl

theorem Scheduled.applyOp (scheduled : Scheduled id first repeatMs k loop) {op : TimerOp} (spares : Spares id op) :
    Scheduled id first repeatMs k (applyOp loop op) := by
  refine ⟨scheduled.valid.applyOp op, linked_applyOp spares.ne_destroy scheduled.linked, ?_⟩
  intro timer listed own
  rcases mem_applyOp listed with present | ⟨_, rfl⟩ | ⟨old, _, changes⟩
  · exact scheduled.moved timer present own
  · rcases scheduled.linked with ⟨other, member, same⟩
    have fresh := scheduled.valid.known other member
    exact absurd (same.trans own.symm) (Nat.ne_of_lt fresh)
  · cases changes with
    | start => exact absurd own spares
    | stop => exact absurd own spares
    | trigger => exact absurd own spares

theorem Scheduled.applyOps {ops : List TimerOp} (spare : ∀ op ∈ ops, Spares id op)
    (scheduled : Scheduled id first repeatMs k loop) :
    Scheduled id first repeatMs k (ops.foldl Timers.applyOp loop) :=
  List.foldlRecOn ops _ scheduled fun _ holds op member => holds.applyOp (spare op member)

/-- The timer is rearmed where its deadline has been reached. -/
theorem Scheduled.rearmed (scheduled : Scheduled id first repeatMs k loop) (repeats : 0 < repeatMs) {pos : Timer}
    (listed : pos ∈ loop.timers) (own : pos.id = id) {now : Timeofday} (reached : ¬ now.toTimeval.Before pos.timeout) :
    ∃ n, Scheduled id first repeatMs (k + n)
        (updateTimer loop id fun timer => { timer with timeout := rearm pos now.toTimeval }) ∧
      now.micros ≤ first + (k + n) * (repeatMs * 1000) ∧
      first + (k + n) * (repeatMs * 1000) < now.micros + repeatMs * 1000 + 1000000 := by
  rcases scheduled.moved pos listed own with ⟨moved, bounded, repeatTime⟩
  have set := isSet_ofMilliseconds repeats
  have next : rearm pos now.toTimeval = nextTimeout (ofMilliseconds repeatMs) now.toTimeval pos.timeout := by
    rw [rearm, repeatTime, if_pos set]
  rcases repeats_ends (nextTimeout_ends set now.toTimeval pos.timeout) now.normalised (usec_ofMilliseconds_lt _)
    bounded reached with ⟨⟨n, steps⟩, late, soon, spelled⟩
  rw [micros_ofMilliseconds] at steps soon
  have whole : first + (k + n) * (repeatMs * 1000) =
      (nextTimeout (ofMilliseconds repeatMs) now.toTimeval pos.timeout).micros := by
    rw [steps, moved, Nat.add_mul]
    omega
  have same : ∀ timer : Timer, { timer with timeout := rearm pos now.toTimeval }.id = timer.id := fun _ => rfl
  refine ⟨n, ⟨scheduled.valid.update id same, linked_update same id scheduled.linked, ?_⟩, ?_, ?_⟩
  · intro timer member here
    rcases mem_updateTimer member same with ⟨old, present, was, rfl, _⟩ | ⟨_, other⟩
    · dsimp only
      rw [next]
      exact ⟨whole.symm, spelled, (scheduled.moved old present was).2.2⟩
    · exact absurd here other
  · rw [whole]
    exact late
  · rw [whole]
    exact soon

/-- During a pass the deadline has been moved on from `k`.  Once the timer has
fired it lies at the time of the pass or later, by no more than a repeat time
and less than a second. -/
def OnTime (id first repeatMs k : Nat) (now : Timeofday) (pass : Pass) : Prop :=
  ∃ k', k ≤ k' ∧ Scheduled id first repeatMs k' pass.loop ∧
    (id ∈ pass.fired -> now.micros ≤ first + k' * (repeatMs * 1000) ∧
      first + k' * (repeatMs * 1000) < now.micros + repeatMs * 1000 + 1000000)

theorem visitTimer_onTime {input : PassInput} (repeats : 0 < repeatMs) (spared : SparesAll id (.pass input))
    {pass visited : Pass} {pos : Timer} (listed : pos ∈ pass.loop.timers)
    (visits : visitTimer input pass pos = some visited) (onTime : OnTime id first repeatMs k input.now pass) :
    OnTime id first repeatMs k input.now visited := by
  rcases onTime with ⟨k', atLeast, scheduled, window⟩
  rcases visitTimer_cases visits with ⟨_, rfl⟩ | ⟨_, _, rfl⟩ | ⟨_, reached, _, rfl⟩
  · exact ⟨k', atLeast, scheduled, window⟩
  · exact ⟨k', atLeast, scheduled, window⟩
  · by_cases own : pos.id = id
    · subst own
      rcases scheduled.rearmed repeats listed rfl reached with ⟨n, moved, late, soon⟩
      exact ⟨k' + n, Nat.le_add_right_of_le atLeast, moved.applyOps (spared pos.id), fun _ => ⟨late, soon⟩⟩
    · refine ⟨k', atLeast, Scheduled.applyOps (spared pos.id) ?_, ?_⟩
      · apply scheduled.update own
        exact fun _ => rfl
      · intro fired
        rcases List.mem_append.mp fired with before | now
        · exact window before
        · exact absurd (List.mem_singleton.mp now).symm own

/-- A pass moves the deadline on by whole repeat times, and if it fires the
timer, to the time of the pass or later. -/
theorem timerLoop_onTime {input : PassInput} (repeats : 0 < repeatMs) (spared : SparesAll id (.pass input))
    {after : TimerLoop} {report : PassReport} (passes : timerLoop loop input = some (after, report))
    (scheduled : Scheduled id first repeatMs k loop) :
    ∃ k', k ≤ k' ∧ Scheduled id first repeatMs k' after ∧
      (id ∈ report.fired -> input.now.micros ≤ first + k' * (repeatMs * 1000) ∧
        first + k' * (repeatMs * 1000) < input.now.micros + repeatMs * 1000 + 1000000) := by
  rcases Option.map_eq_some_iff.mp passes with ⟨pass, walks, pair⟩
  cases pair
  refine walkTimers_rule (fun _ pass => OnTime id first repeatMs k input.now pass) ?_ ?_ _ ?_ walks
  · exact fun _ _ _ _ onTime => onTime
  · intro _ _ pass pos visited found visits onTime
    exact visitTimer_onTime repeats spared (findTimer_mem found).1 visits onTime
  · exact ⟨k, Nat.le_refl _, scheduled, fun fired => absurd fired List.not_mem_nil⟩

/-- Over a run the number of repeat times never falls. -/
theorem run_scheduled (repeats : 0 < repeatMs) {inputs : List TimerInput}
    (spared : ∀ input ∈ inputs, SparesAll id input) {last : TimerLoop} {reports : List (Option PassReport)}
    (scheduled : Scheduled id first repeatMs k loop)
    (completes : runReplies timerStep loop inputs = some (last, reports)) :
    ∃ k', k ≤ k' ∧ Scheduled id first repeatMs k' last := by
  refine runReplies_state (fun loop => ∃ k', k ≤ k' ∧ Scheduled id first repeatMs k' loop) ?_
    (everyInput_of_forall spared loop) ⟨k, Nat.le_refl _, scheduled⟩ completes
  rintro loop input next reply spares ⟨k', atLeast, here⟩ steps
  cases input with
  | op op =>
      cases steps
      exact ⟨k', atLeast, here.applyOp spares⟩
  | pass input =>
      rcases Option.map_eq_some_iff.mp steps with ⟨⟨after, report⟩, passes, pair⟩
      cases pair
      rcases timerLoop_onTime repeats spares passes here with ⟨k'', further, there, _⟩
      exact ⟨k'', Nat.le_trans atLeast further, there⟩

end Schedule

/-! ## Passes return -/

/-- The operation sets no deadline on a timer without a handler. -/
def Handled : TimerOp -> Prop
  | .start _ handler .. => handler.isSome
  | .trigger .. => False
  | _ => True

/-- The operations are of that kind, and a handler destroys no timer but its
own. -/
def Orderly : TimerInput -> Prop
  | .op op => Handled op
  | .pass input => ∀ other, ∀ op ∈ input.handlers other, Handled op ∧ ∀ gone, op = .destroy gone -> gone = other

/-- The handlers of a pass can be called, and the list does not become empty
as long as this timer is in it. -/
structure Callable (id : Nat) (loop : TimerLoop) : Prop where
  valid : loop.Valid
  linked : ∃ timer ∈ loop.timers, timer.id = id
  handled : ∀ timer ∈ loop.timers, timer.timeout.IsSet -> timer.handler.isSome

section Returns

variable {id : Nat} {loop : TimerLoop}

theorem Callable.applyOp (callable : Callable id loop) {op : TimerOp} (stays : op ≠ .destroy id)
    (handled : Handled op) : Callable id (applyOp loop op) := by
  refine ⟨callable.valid.applyOp op, linked_applyOp stays callable.linked, ?_⟩
  intro timer listed set
  rcases mem_applyOp listed with present | ⟨_, rfl⟩ | ⟨old, _, changes⟩
  · exact callable.handled timer present set
  · exact absurd set Timeval.not_isSet_clear
  · cases changes with
    | start => exact handled
    | stop => exact absurd set Timeval.not_isSet_clear
    | trigger => exact False.elim handled

/-- The timer a pass rearms is one whose handler it calls. -/
theorem Callable.rearmed (callable : Callable id loop) {pos : Timer} (listed : pos ∈ loop.timers)
    (calls : pos.handler.isSome) (timeout : Timeval) :
    Callable id (updateTimer loop pos.id fun timer => { timer with timeout := timeout }) := by
  have same : ∀ timer : Timer, { timer with timeout := timeout }.id = timer.id := fun _ => rfl
  refine ⟨callable.valid.update pos.id same, linked_update same pos.id callable.linked, ?_⟩
  intro timer member set
  rcases mem_updateTimer member same with ⟨old, present, was, rfl, _⟩ | ⟨present, _⟩
  · rw [List.inj_on_of_nodup_map callable.valid.distinct present listed was]
    exact calls
  · exact callable.handled timer present set

/-- A round returns, and takes no other timer out of the list. -/
theorem visitTimer_returns {input : PassInput} (spared : SparesAll id (.pass input)) (orderly : Orderly (.pass input))
    {pass : Pass} (callable : Callable id pass.loop) {pos : Timer} (listed : pos ∈ pass.loop.timers) :
    ∃ visited, visitTimer input pass pos = some visited ∧ Callable id visited.loop ∧
      ∀ other, other ≠ pos.id -> (findTimer pass.loop other).isSome -> (findTimer visited.loop other).isSome := by
  have returns : ∃ visited, visitTimer input pass pos = some visited := by
    unfold visitTimer
    split
    case isTrue => exact ⟨_, rfl⟩
    case isFalse set =>
      split
      case isTrue => exact ⟨_, rfl⟩
      case isFalse =>
        rcases Option.isSome_iff_exists.mp (callable.handled pos listed (not_not.mp set)) with ⟨handler, calls⟩
        rw [calls]
        exact ⟨_, rfl⟩
  rcases returns with ⟨visited, visits⟩
  refine ⟨visited, visits, ?_⟩
  rcases visitTimer_cases visits with ⟨_, rfl⟩ | ⟨_, _, rfl⟩ | ⟨_, _, calls, rfl⟩
  · exact ⟨callable, fun _ _ present => present⟩
  · exact ⟨callable, fun _ _ present => present⟩
  · constructor
    · refine List.foldlRecOn _ _ (callable.rearmed listed calls _) ?_
      intro loop kept op member
      exact kept.applyOp (spared pos.id op member).ne_destroy (orderly pos.id op member).1
    · intro other different present
      rw [findTimer_isSome_iff] at present ⊢
      refine List.foldlRecOn (motive := fun loop : TimerLoop => ∃ timer ∈ loop.timers, timer.id = other) _ _ ?_ ?_
      · apply linked_update _ pos.id present
        exact fun _ => rfl
      · intro loop kept op member
        exact linked_applyOp (fun gone => different ((orderly pos.id op member).2 other gone)) kept

theorem walkTimers_returns {input : PassInput} (spared : SparesAll id (.pass input)) (orderly : Orderly (.pass input))
    {ids : List Nat} (distinct : ids.Nodup) {pass : Pass} (callable : Callable id pass.loop) :
    ∃ walked, walkTimers input ids pass = some walked ∧ Callable id walked.loop := by
  refine walkTimers_returns_rule (fun _ pass => Callable id pass.loop) ?_ ?_ distinct callable
  · exact fun _ _ _ _ callable => callable
  · intro other rest pass pos found _ callable
    rcases findTimer_mem found with ⟨listed, rfl⟩
    rcases visitTimer_returns spared orderly callable listed with ⟨visited, visits, stillCallable, stays⟩
    refine ⟨visited, visits, stillCallable, ?_, stays⟩
    rcases stillCallable.linked with ⟨timer, member, _⟩
    exact List.ne_nil_of_mem member

theorem timerLoop_returns {input : PassInput} (spared : SparesAll id (.pass input)) (orderly : Orderly (.pass input))
    (callable : Callable id loop) : ∃ after report, timerLoop loop input = some (after, report) ∧ Callable id after := by
  have start : Callable id (⟨loop, ⟨input.now.sec + 1, input.now.usec⟩, []⟩ : Pass).loop := callable
  rcases walkTimers_returns spared orderly callable.valid.distinct start with ⟨walked, walks, kept⟩
  exact ⟨walked.loop, _, by rw [timerLoop, walks, Option.map_some], kept⟩

theorem run_returns {inputs : List TimerInput} (every : ∀ input ∈ inputs, SparesAll id input ∧ Orderly input)
    {loop : TimerLoop} (callable : Callable id loop) : (runReplies timerStep loop inputs).isSome := by
  have steps : ∀ loop input, SparesAll id input ∧ Orderly input -> Callable id loop ->
      ∃ after reply, timerStep loop input = some (after, reply) ∧ Callable id after := by
    rintro loop input ⟨spared, orderly⟩ callable
    cases input with
    | op op => exact ⟨_, _, rfl, callable.applyOp spared.ne_destroy orderly⟩
    | pass input =>
        rcases timerLoop_returns spared orderly callable with ⟨after, report, passes, kept⟩
        exact ⟨after, some report, by rw [timerStep, passes, Option.map_some], kept⟩
  rcases runReplies_returns (Callable id) steps (everyInput_of_forall every loop) callable with ⟨_, _, runs, _⟩
  rw [runs]
  rfl

end Returns

/-! ## Runs -/

/-- A timer set at `now` keeps to its schedule as long as nobody touches it.
Its deadline is the first one moved on by a number of repeat times that never
falls, and a pass that fires it moves it to the time of that pass or later, by
no more than a repeat time and less than a second.  The loop that moves it ends
for every timer, and with handlers to call so does every pass. -/
structure NeverDrifts (loop : TimerLoop) (id : Nat) (handler : Option Nat) (arg timeout repeatMs : Nat)
    (now : Timeofday) : Prop where
  onSchedule : ∀ (earlier later : List TimerInput) (middle last : TimerLoop) (reports others : List (Option PassReport)),
    (∀ input ∈ earlier ++ later, SparesAll id input) ->
    runReplies timerStep (timerStart loop id handler arg timeout repeatMs now) earlier = some (middle, reports) ->
    runReplies timerStep middle later = some (last, others) ->
    ∃ k k', k ≤ k' ∧ deadline middle id = some (now.micros + timeout * 1000 + k * (repeatMs * 1000)) ∧
      deadline last id = some (now.micros + timeout * 1000 + k' * (repeatMs * 1000))
  caughtUp : ∀ (inputs : List TimerInput) (input : PassInput) (middle after : TimerLoop)
    (reports : List (Option PassReport)) (report : PassReport),
    (∀ other ∈ inputs ++ [.pass input], SparesAll id other) ->
    runReplies timerStep (timerStart loop id handler arg timeout repeatMs now) inputs = some (middle, reports) ->
    timerLoop middle input = some (after, report) -> id ∈ report.fired ->
    ∃ moved, deadline after id = some moved ∧ input.now.micros ≤ moved ∧
      moved < input.now.micros + repeatMs * 1000 + 1000000
  ends : ∀ (timer : Timer) (time : Timeofday), timer.repeatTime.IsSet ->
    Ends (repeatRound timer.repeatTime time.toTimeval) timer.timeout (rearm timer time.toTimeval)
  returns : ∀ inputs : List TimerInput, (∀ input ∈ inputs, SparesAll id input ∧ Orderly input) ->
    (∀ timer ∈ loop.timers, timer.timeout.IsSet -> timer.handler.isSome) -> handler.isSome ->
    (runReplies timerStep (timerStart loop id handler arg timeout repeatMs now) inputs).isSome

private theorem timerStart_scheduled {loop : TimerLoop} {id : Nat} (valid : loop.Valid)
    (linked : ∃ timer ∈ loop.timers, timer.id = id) (handler : Option Nat) (arg timeout repeatMs : Nat)
    (now : Timeofday) :
    Scheduled id (now.micros + timeout * 1000) repeatMs 0 (timerStart loop id handler arg timeout repeatMs now) := by
  refine ⟨valid.applyOp (.start id handler arg timeout repeatMs now), ?_, ?_⟩
  · apply linked_update _ id linked
    exact fun _ => rfl
  · intro timer listed own
    have normalised := now.normalised
    rcases mem_updateTimer listed (fun _ => rfl) with ⟨_, _, _, rfl, _⟩ | ⟨_, other⟩
    · refine ⟨?_, ?_, rfl⟩
      · dsimp only
        rw [micros_startTimeout, Nat.zero_mul, Nat.add_zero]
      · simp only [startTimeout, usecBound]
        omega
    · exact absurd own other

/-- Repeating timers do not drift, whatever has been done before. -/
theorem repeatingTimer_neverDrifts {history : List TimerInput} {loop : TimerLoop} {past : List (Option PassReport)}
    (reached : runReplies timerStep ⟨[], 0⟩ history = some (loop, past)) {id : Nat}
    (linked : ∃ timer ∈ loop.timers, timer.id = id) (handler : Option Nat) (arg timeout : Nat) {repeatMs : Nat}
    (repeats : 0 < repeatMs) (now : Timeofday) : NeverDrifts loop id handler arg timeout repeatMs now := by
  have valid := run_valid reached
  have start := timerStart_scheduled valid linked handler arg timeout repeatMs now
  constructor
  case onSchedule =>
    intro earlier later middle last reports others spared toMiddle toLast
    rcases List.forall_mem_append.mp spared with ⟨before, behind⟩
    rcases run_scheduled repeats before start toMiddle with ⟨k, _, here⟩
    rcases run_scheduled repeats behind here toLast with ⟨k', further, there⟩
    exact ⟨k, k', further, here.deadline, there.deadline⟩
  case caughtUp =>
    intro inputs input middle after reports report spared toMiddle passes fires
    rcases List.forall_mem_append.mp spared with ⟨before, own⟩
    rcases run_scheduled repeats before start toMiddle with ⟨k, _, here⟩
    rcases timerLoop_onTime repeats (own _ (List.mem_singleton_self _)) passes here with ⟨k', _, there, window⟩
    exact ⟨_, there.deadline, window fires⟩
  case ends =>
    intro timer time set
    rw [rearm, if_pos set]
    exact nextTimeout_ends set time.toTimeval timer.timeout
  case returns =>
    intro inputs every armed calls
    have started : Callable id (timerStart loop id handler arg timeout repeatMs now) := by
      refine ⟨start.valid, start.linked, ?_⟩
      intro timer listed set
      rcases mem_updateTimer listed (fun _ => rfl) with ⟨_, _, _, rfl, _⟩ | ⟨present, _⟩
      · exact calls
      · exact armed timer present set
    exact run_returns every started

/-- A timer set 900 milliseconds past the epoch for 200. -/
private def lateLoop : TimerLoop := timerStart (timerNew ⟨[], 0⟩) 0 (some 0) 0 200 500 ⟨⟨0, 900000⟩, by decide⟩

/-- The next pass comes when 5 seconds have passed. -/
private def latePass : PassInput := ⟨⟨⟨5, 0⟩, by decide⟩, ⟨⟨5, 0⟩, by decide⟩, fun _ => []⟩

private def lateAfter : TimerLoop := ⟨[⟨0, some 0, 0, ⟨5, 100000⟩, ⟨0, 500000⟩⟩], 1⟩

private theorem timerLoop_late : timerLoop lateLoop latePass = some (lateAfter, ⟨[0], ⟨5, 0⟩, 100⟩) := by
  decide +kernel

/-- With a repeat time of half a second it is moved to 5.1 seconds. -/
theorem repeatingTimer_neverDrifts_late :
    ∃ moved, deadline lateAfter 0 = some moved ∧ 5000000 ≤ moved ∧ moved < 5000000 + 500 * 1000 + 1000000 :=
  (@repeatingTimer_neverDrifts [.op .new] _ _ rfl 0 ⟨_, List.mem_cons_self, rfl⟩ (some 0) 0 200 500 (by decide)
    ⟨⟨0, 900000⟩, by decide⟩).caughtUp [] latePass _ _ _ _ (by simp [SparesAll, latePass]) rfl timerLoop_late
    (by decide)

end Timers
end Extlib
