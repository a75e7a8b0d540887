import Extlib.Timers.Loop

namespace Extlib
namespace Timers

open Machine

/-!
# How long a pass tells the caller to sleep

A pass keeps the earliest deadline, field by field, and no later than a second
from now, and turns what is left of it into milliseconds.  The deadline that
comes first field by field is the first one to come, to a millisecond, as long
as none of them is spelled with a second and a millisecond in its microseconds.
-/

/-- The deadline that `timer_start` stores has less than a second and a
millisecond in its microseconds. -/
def SpelledClosely (now : Timeofday) (timeout : Nat) : Prop := now.usec + timeout % 1000 * 1000 < 1001000

/-- Starts are allowed at some times with some timeouts. -/
def StartsWithin (allowed : Timeofday -> Nat -> Prop) : TimerOp -> Prop
  | .start _ _ _ timeout _ now => allowed now timeout
  | _ => True

def AllWithin (allowed : Timeofday -> Nat -> Prop) : TimerInput -> Prop
  | .op op => StartsWithin allowed op
  | .pass input => ∀ id, ∀ op ∈ input.handlers id, StartsWithin allowed op

/-- The time an operation reads. -/
def opReads : TimerOp -> List Nat
  | .start _ _ _ _ _ now => [now.micros]
  | .trigger _ now => [now.micros]
  | _ => []

def reads : TimerInput -> List Nat
  | .op op => opReads op
  | .pass input => [input.now.micros, input.later.micros]

/-- The clock does not run backwards.  What handlers read lies between the two
times that the pass reads. -/
structure ForwardClock (inputs : List TimerInput) : Prop where
  sorted : (inputs.flatMap reads).Pairwise (· ≤ ·)
  handlers : ∀ input, .pass input ∈ inputs -> ∀ id, ∀ op ∈ input.handlers id, ∀ time ∈ opReads op,
    input.now.micros ≤ time ∧ time ≤ input.later.micros

/-- The sleep begins at the time read last, takes no more than a second, and
goes beyond the deadline of no armed timer by a millisecond.  A deadline that
is past when the sleep begins is as good as its beginning. -/
structure SleepsWell (after : TimerLoop) (later : Timeval) (next : Int) : Prop where
  nonneg : 0 ≤ next
  second : next ≤ 1000
  inTime : ∀ timer ∈ after.timers, timer.timeout.IsSet ->
    later.micros + next * 1000 < (max timer.timeout.micros later.micros : Nat) + 1000

/-- Every pass whose handlers leave the timers alone sleeps well, after every
run whose starts are allowed. -/
def SleepsInTime (allowed : Timeofday -> Nat -> Prop) : Prop :=
  ∀ (history : List TimerInput) (loop : TimerLoop) (past : List (Option PassReport)) (input : PassInput)
    (after : TimerLoop) (report : PassReport),
    (∀ other ∈ history, AllWithin allowed other) -> ForwardClock (history ++ [.pass input]) ->
    runReplies timerStep ⟨[], 0⟩ history = some (loop, past) -> (∀ id, input.handlers id = []) ->
    timerLoop loop input = some (after, report) -> SleepsWell after input.later.toTimeval report.next

/-! ## From the deadline kept to milliseconds -/

/-- Division towards zero rounds up below zero. -/
private theorem tdiv_thousand (span : Int) :
    0 ≤ span ∧ 0 ≤ span.tdiv 1000 ∧ span.tdiv 1000 * 1000 ≤ span ∨
    span < 0 ∧ span.tdiv 1000 ≤ 0 ∧ span ≤ span.tdiv 1000 * 1000 ∧ span.tdiv 1000 * 1000 < span + 1000 := by
  rcases Int.le_total 0 span with nonneg | negative
  · rw [Int.tdiv_eq_ediv_of_nonneg nonneg]
    omega
  · obtain ⟨size, rfl⟩ : ∃ size, span = -size := ⟨-span, by omega⟩
    rw [Int.neg_tdiv, Int.tdiv_eq_ediv_of_nonneg (by omega)]
    omega

theorem sleepTime_bounds {now later : Timeofday} (forward : now.micros ≤ later.micros) {next : Timeval}
    (soon : ¬ Timeval.Before ⟨now.sec + 1, now.usec⟩ next) (spelled : next.usec < 1001000) :
    0 ≤ sleepTime next later.toTimeval ∧ sleepTime next later.toTimeval ≤ 1000 := by
  have normalised := later.normalised
  have before := now.normalised
  unfold sleepTime
  split
  case isFalse => decide
  case isTrue early =>
    have rounded := tdiv_thousand (next.usec - later.usec)
    unfold Timeval.Before at early soon
    simp only [Timeval.micros] at forward
    dsimp only at soon
    split at early <;> split at soon <;> omega

/-- The sleep ends less than a millisecond after any deadline that is not
before the one kept. -/
theorem sleepTime_inTime {later : Timeofday} {next timeout : Timeval} (behind : ¬ timeout.Before next)
    (spelled : next.usec < 1001000) :
    later.micros + sleepTime next later.toTimeval * 1000 < (max timeout.micros later.micros : Nat) + 1000 := by
  have normalised := later.normalised
  unfold sleepTime
  split
  case isFalse =>
    have nothing := Nat.le_max_right timeout.micros later.micros
    omega
  case isTrue early =>
    have rounded := tdiv_thousand (next.usec - later.usec)
    have above := Nat.le_max_left timeout.micros later.micros
    unfold Timeval.Before at early behind
    unfold Timeval.micros at above ⊢
    split at early <;> split at behind <;> omega

/-! ## How the deadlines are spelled -/

/-- All deadlines are spelled as closely as `timer_start` is asked to. -/
def Bounded (loop : TimerLoop) : Prop :=
  ∀ timer ∈ loop.timers, timer.timeout.usec < 1001000 ∧ timer.repeatTime.usec < 1000000

theorem usec_rearm_lt {timer : Timer} {bound : Nat} (second : 1000000 ≤ bound) (spelled : timer.timeout.usec < bound)
    (part : timer.repeatTime.usec < 1000000) (now : Timeval) : (rearm timer now).usec < bound := by
  unfold rearm
  split
  case isFalse => exact Nat.lt_of_lt_of_le (by decide) second
  case isTrue =>
    refine repeatUpTo_invariant (fun time : Timeval => time.usec < bound) ?_ _ _ spelled
    intro time below
    unfold repeatRound
    split <;> exact Timeval.usec_add_lt second below part

section Bounds

variable {loop : TimerLoop}

theorem Bounded.applyOp (bounded : Bounded loop) {op : TimerOp} (closely : StartsWithin SpelledClosely op) :
    Bounded (applyOp loop op) := by
  have cleared : Timeval.clear.usec < 1001000 ∧ Timeval.clear.usec < 1000000 := by decide
  intro timer listed
  rcases mem_applyOp listed with present | ⟨_, rfl⟩ | ⟨old, present, changes⟩
  · exact bounded timer present
  · exact cleared
  · cases changes with
    | start _ handler arg timeout repeatMs now => exact ⟨closely, usec_ofMilliseconds_lt repeatMs⟩
    | stop => exact cleared
    | trigger _ now => exact ⟨Nat.lt_trans now.normalised (by decide), (bounded old present).2⟩

theorem Bounded.rearmed (bounded : Bounded loop) {pos : Timer} (listed : pos ∈ loop.timers) (now : Timeval) :
    Bounded (updateTimer loop pos.id fun timer => { timer with timeout := rearm pos now }) := by
  intro timer member
  rcases mem_updateTimer member (fun _ => rfl) with ⟨old, present, _, rfl, _⟩ | ⟨present, _⟩
  · rcases bounded pos listed with ⟨spelled, part⟩
    exact ⟨usec_rearm_lt (by decide) spelled part now, (bounded old present).2⟩
  · exact bounded timer present

theorem run_bounded {inputs : List TimerInput} (closely : ∀ input ∈ inputs, AllWithin SpelledClosely input)
    {reports : List (Option PassReport)} (completes : runReplies timerStep ⟨[], 0⟩ inputs = some (loop, reports)) :
    Bounded loop := by
  refine runReplies_state Bounded ?_ (everyInput_of_forall closely _) (by simp [Bounded]) completes
  intro loop input next reply within bounded steps
  cases input with
  | op op =>
      cases steps
      exact bounded.applyOp within
  | pass input =>
      rcases Option.map_eq_some_iff.mp steps with ⟨⟨after, report⟩, passes, pair⟩
      cases pair
      refine timerLoop_rule Bounded ?_ ?_ passes bounded
      · exact fun loop pos listed holds => holds.rearmed listed input.now.toTimeval
      · exact fun id op member loop holds => holds.applyOp (within id op member)

end Bounds

/-! ## The deadline kept -/

theorem not_before_sooner (timeout next : Timeval) : ¬ timeout.Before (sooner timeout next) := by
  unfold sooner
  split
  case isTrue => exact timeout.not_before_self
  case isFalse later => exact later

/-- What comes no earlier than the deadline kept so far comes no earlier than
the next. -/
theorem not_before_sooner_of_not_before {time next : Timeval} (behind : ¬ time.Before next) (timeout : Timeval) :
    ¬ time.Before (sooner timeout next) := by
  unfold sooner
  split
  case isTrue earlier => exact Timeval.not_before_of_before_of_not_before earlier behind
  case isFalse => exact behind

theorem usec_sooner_lt {timeout next : Timeval} {bound : Nat} (left : timeout.usec < bound) (right : next.usec < bound) :
    (sooner timeout next).usec < bound := by
  unfold sooner
  split
  · exact left
  · exact right

/-- During the walk, with the timers at these addresses still to come. -/
structure Kept (input : PassInput) (rest : List Nat) (pass : Pass) : Prop where
  valid : pass.loop.Valid
  bounded : Bounded pass.loop
  spelled : pass.next.usec < 1001000
  soon : ¬ Timeval.Before ⟨input.now.sec + 1, input.now.usec⟩ pass.next
  behind : ∀ timer ∈ pass.loop.timers, timer.timeout.IsSet -> timer.id ∈ rest ∨ ¬ timer.timeout.Before pass.next

section Walk

variable {input : PassInput} {id : Nat} {rest : List Nat} {pass : Pass}

/-- The timer visited has been taken into account. -/
theorem Kept.behind_rest (kept : Kept input (id :: rest) pass) {timer : Timer} (listed : timer ∈ pass.loop.timers)
    (set : timer.timeout.IsSet) (other : timer.id ≠ id) : timer.id ∈ rest ∨ ¬ timer.timeout.Before pass.next := by
  rcases kept.behind timer listed set with ahead | behind
  · exact Or.inl ((List.mem_cons.mp ahead).resolve_left other)
  · exact Or.inr behind

theorem Kept.missed (kept : Kept input (id :: rest) pass) (gone : findTimer pass.loop id = none) :
    Kept input rest pass where
  valid := kept.valid
  bounded := kept.bounded
  spelled := kept.spelled
  soon := kept.soon
  behind := by
    intro timer listed set
    apply kept.behind_rest listed set
    intro own
    have present := findTimer_isSome_iff.mpr ⟨timer, listed, own⟩
    rw [gone] at present
    cases present

/-- A timer that is not due. -/
theorem Kept.noted (kept : Kept input (id :: rest) pass) {pos : Timer} (found : findTimer pass.loop id = some pos) :
    Kept input rest { pass with next := sooner pos.timeout pass.next } where
  valid := kept.valid
  bounded := kept.bounded
  spelled := usec_sooner_lt (kept.bounded pos (findTimer_mem found).1).1 kept.spelled
  soon := not_before_sooner_of_not_before kept.soon pos.timeout
  behind := by
    intro timer listed set
    by_cases own : timer.id = id
    · rw [kept.valid.found found listed own]
      exact Or.inr (not_before_sooner pos.timeout pass.next)
    · rcases kept.behind_rest listed set own with ahead | behind
      · exact Or.inl ahead
      · exact Or.inr (not_before_sooner_of_not_before behind pos.timeout)

/-- A timer that fires, once or again and again. -/
theorem Kept.fires (kept : Kept input (id :: rest) pass) {pos : Timer} (found : findTimer pass.loop id = some pos) :
    Kept input rest
      { loop := updateTimer pass.loop pos.id fun timer => { timer with timeout := rearm pos input.now.toTimeval }
        next := if pos.repeatTime.IsSet then sooner (rearm pos input.now.toTimeval) pass.next else pass.next
        fired := pass.fired ++ [pos.id] } := by
  rcases findTimer_mem found with ⟨member, same⟩
  rcases kept.bounded pos member with ⟨spelled, part⟩
  have rearmed := usec_rearm_lt (by decide) spelled part input.now.toTimeval
  have lower : ∀ {time : Timeval}, ¬ time.Before pass.next ->
      ¬ time.Before (if pos.repeatTime.IsSet then sooner (rearm pos input.now.toTimeval) pass.next else pass.next) := by
    intro time behind
    split
    · exact not_before_sooner_of_not_before behind _
    · exact behind
  constructor
  case valid => exact kept.valid.update pos.id fun _ => rfl
  case bounded => exact kept.bounded.rearmed member input.now.toTimeval
  case spelled =>
    dsimp only
    split
    · exact usec_sooner_lt rearmed kept.spelled
    · exact kept.spelled
  case soon => exact lower kept.soon
  case behind =>
    intro timer listed set
    rcases mem_updateTimer listed (fun _ => rfl) with ⟨_, _, _, rfl, _⟩ | ⟨present, other⟩
    · refine Or.inr ?_
      dsimp only at set ⊢
      split
      case isTrue => exact not_before_sooner _ _
      case isFalse once =>
        rw [rearm, if_neg once] at set
        exact absurd set Timeval.not_isSet_clear
    · exact (kept.behind_rest present set (fun own => other (own.trans same.symm))).imp_right lower

end Walk

/-- After a pass in which the handlers leave the timers alone. -/
theorem timerLoop_sleepsWell {loop after : TimerLoop} {input : PassInput} {report : PassReport} (valid : loop.Valid)
    (bounded : Bounded loop) (forward : input.now.micros ≤ input.later.micros)
    (inert : ∀ id, input.handlers id = []) (passes : timerLoop loop input = some (after, report)) :
    SleepsWell after input.later.toTimeval report.next := by
  rcases Option.map_eq_some_iff.mp passes with ⟨walked, walks, pair⟩
  cases pair
  have kept : Kept input [] walked := by
    refine walkTimers_rule (Kept input) ?_ ?_ _ ?_ walks
    · exact fun id rest pass gone kept => kept.missed gone
    · intro id rest pass pos visited found visits kept
      rcases visitTimer_cases visits with ⟨unset, rfl⟩ | ⟨_, _, rfl⟩ | ⟨_, _, _, rfl⟩
      · refine ⟨kept.valid, kept.bounded, kept.spelled, kept.soon, ?_⟩
        intro timer listed set
        apply kept.behind_rest listed set
        intro own
        rw [kept.valid.found found listed own] at set
        exact unset set
      · exact kept.noted found
      · rw [inert pos.id]
        exact kept.fires found
    · refine ⟨valid, bounded, Nat.lt_trans input.now.normalised (by decide), Timeval.not_before_self _, ?_⟩
      exact fun timer listed _ => Or.inl (List.mem_map.mpr ⟨timer, listed, rfl⟩)
  have bounds := sleepTime_bounds forward kept.soon kept.spelled
  refine ⟨bounds.1, bounds.2, ?_⟩
  intro timer listed set
  have behind := (kept.behind timer listed set).resolve_left List.not_mem_nil
  exact sleepTime_inTime behind kept.spelled

/-! ## A start that is spelled otherwise -/

private theorem wholeSecond_normalised : 0 < 1000000 := by decide

/-- A timer for the beginning of a second and another set at `now`, whose
deadline comes first field by field and is later by a millisecond or more. -/
private def crowded (now : Timeofday) (timeout : Nat) : List TimerInput :=
  [.op .new, .op (.start 0 (some 0) 0 ((timeout / 1000 + 1) * 1000) 0 ⟨⟨now.sec, 0⟩, wholeSecond_normalised⟩),
    .op .new, .op (.start 1 (some 0) 0 timeout 0 now)]

private def crowdedLoop (now : Timeofday) (timeout : Nat) : TimerLoop where
  timers := [⟨1, some 0, 0, startTimeout now.toTimeval timeout, ⟨0, 0⟩⟩,
    ⟨0, some 0, 0, ⟨now.sec + (timeout / 1000 + 1), 0⟩, ⟨0, 0⟩⟩]
  allocated := 2

private theorem crowded_run (now : Timeofday) (timeout : Nat) :
    runReplies timerStep ⟨[], 0⟩ (crowded now timeout) =
      some (crowdedLoop now timeout, [none, none, none, none]) := by
  simp [runReplies, crowded, crowdedLoop, timerStep, applyOp, timerNew, timerStart, updateTimer, startTimeout,
    ofMilliseconds]

/-- A pass as far into the second as the start was. -/
private def crowdedPass (now : Timeofday) (timeout : Nat) : PassInput where
  now := ⟨⟨now.sec + timeout / 1000, now.usec⟩, now.normalised⟩
  later := ⟨⟨now.sec + timeout / 1000, now.usec⟩, now.normalised⟩
  handlers := fun _ => []

/-- It sleeps until the second deadline. -/
private theorem timerLoop_crowded {now : Timeofday} {timeout : Nat} (carries : ¬ SpelledClosely now timeout) :
    timerLoop (crowdedLoop now timeout) (crowdedPass now timeout) =
      some (crowdedLoop now timeout, ⟨[], (crowdedPass now timeout).now.toTimeval, timeout % 1000⟩) := by
  have normalised := now.normalised
  unfold SpelledClosely at carries
  have first : (startTimeout now.toTimeval timeout).IsSet := Or.inr (by simp only [startTimeout]; omega)
  have second : (⟨now.sec + (timeout / 1000 + 1), 0⟩ : Timeval).IsSet := Or.inl (Nat.succ_ne_zero _)
  have early : (⟨now.sec + timeout / 1000, now.usec⟩ : Timeval).Before (startTimeout now.toTimeval timeout) := by
    simp only [Timeval.Before, startTimeout, if_true]
    omega
  have alsoEarly : (⟨now.sec + timeout / 1000, now.usec⟩ : Timeval).Before ⟨now.sec + (timeout / 1000 + 1), 0⟩ := by
    apply Timeval.before_of_sec_lt
    exact Nat.lt_succ_self _
  have sooner_than_second : (startTimeout now.toTimeval timeout).Before ⟨now.sec + timeout / 1000 + 1, now.usec⟩ := by
    apply Timeval.before_of_sec_lt
    exact Nat.lt_succ_self _
  have not_sooner : ¬ (⟨now.sec + (timeout / 1000 + 1), 0⟩ : Timeval).Before (startTimeout now.toTimeval timeout) := by
    apply Timeval.not_before_of_sec_lt
    exact Nat.lt_succ_self _
  have sleeps : sleepTime (startTimeout now.toTimeval timeout) ⟨now.sec + timeout / 1000, now.usec⟩ =
      (timeout % 1000 : Nat) := by
    have span : ((now.usec + timeout % 1000 * 1000 : Nat) : Int) - now.usec = (timeout % 1000 : Nat) * 1000 := by
      omega
    rw [sleepTime, if_pos early]
    simp only [startTimeout, span]
    rw [Int.mul_tdiv_cancel _ (by decide)]
    omega
  simp [timerLoop, crowdedLoop, crowdedPass, walkTimers, findTimer, visitTimer, sooner, first, second, early, alsoEarly,
    sooner_than_second, not_sooner, sleeps]

private theorem crowded_forward (now : Timeofday) (timeout : Nat) :
    ForwardClock (crowded now timeout ++ [.pass (crowdedPass now timeout)]) := by
  constructor
  · simp only [crowded, crowdedPass, reads, opReads, Timeval.micros, List.cons_append, List.nil_append,
      List.flatMap_cons, List.flatMap_nil, List.pairwise_cons, List.mem_cons, List.not_mem_nil, forall_eq_or_imp,
      false_imp_iff, implies_true, List.Pairwise.nil, and_true]
    omega
  · intro input member id op ops
    have last : input = crowdedPass now timeout := by simpa [crowded] using member
    rw [last] at ops
    cases ops

/-- Where such a start is allowed along with those spelled closely, there is a
run with a pass that sleeps too long. -/
theorem SleepsInTime.spelled {allowed : Timeofday -> Nat -> Prop} (sleeps : SleepsInTime allowed)
    (closely : ∀ now timeout, SpelledClosely now timeout -> allowed now timeout) {now : Timeofday} {timeout : Nat}
    (start : allowed now timeout) : SpelledClosely now timeout := by
  by_contra carries
  have within : ∀ other ∈ crowded now timeout, AllWithin allowed other := by
    have whole : SpelledClosely ⟨⟨now.sec, 0⟩, wholeSecond_normalised⟩ ((timeout / 1000 + 1) * 1000) := by
      simp [SpelledClosely]
    simpa [crowded, AllWithin, StartsWithin] using ⟨closely _ _ whole, start⟩
  have well := sleeps _ _ _ _ _ _ within (crowded_forward now timeout) (crowded_run now timeout) (fun _ => rfl)
    (timerLoop_crowded carries)
  have late := well.inTime ⟨0, some 0, 0, ⟨now.sec + (timeout / 1000 + 1), 0⟩, ⟨0, 0⟩⟩
    (List.mem_cons_of_mem _ List.mem_cons_self) (Or.inl (Nat.succ_ne_zero _))
  simp only [crowdedPass, Timeval.micros] at late
  unfold SpelledClosely at carries
  have normalised := now.normalised
  omega

/-- Passes sleep in time exactly as long as the starts are spelled closely:
one more start may be allowed if and only if it is spelled closely too. -/
theorem sleepsInTime_iff (now : Timeofday) (timeout : Nat) :
    SleepsInTime (fun time wait => SpelledClosely time wait ∨ time = now ∧ wait = timeout) ↔
      SpelledClosely now timeout := by
  constructor
  · exact fun sleeps => sleeps.spelled (fun _ _ closely => Or.inl closely) (Or.inr ⟨rfl, rfl⟩)
  · intro spelled history loop past input after report within forward completes inert passes
    have closely : ∀ other ∈ history, AllWithin SpelledClosely other := by
      have same : (fun time wait => SpelledClosely time wait ∨ time = now ∧ wait = timeout) = SpelledClosely := by
        ext time wait
        refine or_iff_left_of_imp ?_
        rintro ⟨rfl, rfl⟩
        exact spelled
      rwa [same] at within
    have ordered : input.now.micros ≤ input.later.micros := by
      have sorted := forward.sorted
      rw [List.flatMap_append, List.pairwise_append] at sorted
      simpa [reads] using sorted.2.1
    exact timerLoop_sleepsWell (run_valid completes) (run_bounded closely completes) ordered inert passes

/-- Set at 900 milliseconds past a second for 200, a timer makes a pass sleep
100 milliseconds beyond the deadline of another. -/
theorem carriedTimer_oversleeps : ¬ SleepsInTime fun _ _ => True := by
  intro sleeps
  have spelled : SpelledClosely ⟨⟨10, 900000⟩, by decide⟩ 200 := sleeps.spelled (fun _ _ _ => trivial) trivial
  revert spelled
  unfold SpelledClosely
  decide

end Timers
end Extlib
