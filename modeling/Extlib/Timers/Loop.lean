import Extlib.Machine.Loop
import Extlib.Machine.Simulation
import Extlib.Timers.Timeval
import Mathlib.Data.List.Nodup

namespace Extlib
namespace Timers

open Machine

/-!
# The timer loop

`posix/timer.c` for the timers of one thread: every function of the module
works on the loop of the thread it is called in.  The timers are a list with
the head first, and `list_add` puts a new one in front.

A handler is code of the caller.  What it does to the timers when it is called
is an input of the pass, one list of operations for each timer.  A pass has no
result when it calls through a null handler, or when a handler destroys the
timer the walk goes on with or the last timer of the loop, and the walk reads
freed memory.
-/

/-- `id` is the address of the timer; an address is not used again. -/
structure Timer where
  id : Nat
  handler : Option Nat
  arg : Nat
  timeout : Timeval
  repeatTime : Timeval
  deriving DecidableEq, Repr

/-- `allocated` counts the timers so far. -/
structure TimerLoop where
  timers : List Timer
  allocated : Nat
  deriving DecidableEq, Repr

variable (loop : TimerLoop)

def timerNew : TimerLoop where
  timers := ⟨loop.allocated, none, 0, .clear, .clear⟩ :: loop.timers
  allocated := loop.allocated + 1

/-- The loop of a thread without timers is freed, and made again for the next
one. -/
def timerDestroy (id : Nat) : TimerLoop :=
  { loop with timers := loop.timers.filter (·.id ≠ id) }

/-- Change the timer at an address. -/
def updateTimer (id : Nat) (change : Timer -> Timer) : TimerLoop :=
  { loop with timers := loop.timers.map fun timer => if timer.id = id then change timer else timer }

/-- Milliseconds as `timer_start` splits them. -/
def ofMilliseconds (time : Nat) : Timeval := ⟨time / 1000, time % 1000 * 1000⟩

/-- The deadline that `timer_start` stores: the fields are added one by one. -/
def startTimeout (now : Timeval) (timeout : Nat) : Timeval :=
  ⟨now.sec + timeout / 1000, now.usec + timeout % 1000 * 1000⟩

def timerStart (id : Nat) (handler : Option Nat) (arg timeout repeatMs : Nat) (now : Timeofday) : TimerLoop :=
  updateTimer loop id fun timer =>
    { timer with
      handler := handler
      arg := arg
      timeout := startTimeout now.toTimeval timeout
      repeatTime := ofMilliseconds repeatMs }

def timerStop (id : Nat) : TimerLoop :=
  updateTimer loop id fun timer =>
    { timer with handler := none, arg := 0, timeout := .clear, repeatTime := .clear }

def timerTrigger (id : Nat) (now : Timeofday) : TimerLoop :=
  updateTimer loop id fun timer => { timer with timeout := now.toTimeval }

/-- An operation on the timers, with the time it reads. -/
inductive TimerOp where
  | new
  | destroy (id : Nat)
  | start (id : Nat) (handler : Option Nat) (arg timeout repeatMs : Nat) (now : Timeofday)
  | stop (id : Nat)
  | trigger (id : Nat) (now : Timeofday)

def applyOp (loop : TimerLoop) : TimerOp -> TimerLoop
  | .new => timerNew loop
  | .destroy id => timerDestroy loop id
  | .start id handler arg timeout repeatMs now => timerStart loop id handler arg timeout repeatMs now
  | .stop id => timerStop loop id
  | .trigger id now => timerTrigger loop id now

/-! ## One pass -/

/-- What a pass samples, and what the handlers do that it calls. -/
structure PassInput where
  now : Timeofday
  later : Timeofday
  handlers : Nat -> List TimerOp

/-- A pass under way: the deadline it will sleep for, and the timers whose
handlers it has called. -/
structure Pass where
  loop : TimerLoop
  next : Timeval
  fired : List Nat
  deriving DecidableEq, Repr

/-- The earlier of the two, as the pass keeps it in `_next`. -/
def sooner (timeout next : Timeval) : Timeval := if timeout.Before next then timeout else next

/-- One round of the loop that adds the repeat time. -/
def repeatRound (repeatTime now : Timeval) (timeout : Timeval) : Round Timeval :=
  if (timeout.add repeatTime).Before now then .again (timeout.add repeatTime)
  else .done (timeout.add repeatTime)

/-- The first deadline of a repeating timer that is not before `now`.  Each
round adds at least a microsecond. -/
def nextTimeout (repeatTime now timeout : Timeval) : Timeval :=
  repeatUpTo (repeatRound repeatTime now) (now.micros + 1) timeout

/-- The deadline of a timer once it has been reached. -/
def rearm (timer : Timer) (now : Timeval) : Timeval :=
  if timer.repeatTime.IsSet then nextTimeout timer.repeatTime now timer.timeout else .clear

def findTimer (id : Nat) : Option Timer := loop.timers.find? (·.id = id)

/-- The body of the loop for one timer. -/
def visitTimer (input : PassInput) (pass : Pass) (pos : Timer) : Option Pass :=
  if ¬ pos.timeout.IsSet then some pass
  else if input.now.toTimeval.Before pos.timeout then some { pass with next := sooner pos.timeout pass.next }
  else
    match pos.handler with
    | none => none
    | some _ =>
        let timeout := rearm pos input.now.toTimeval
        let armed := updateTimer pass.loop pos.id fun timer => { timer with timeout := timeout }
        some
          { loop := (input.handlers pos.id).foldl applyOp armed
            next := if pos.repeatTime.IsSet then sooner timeout pass.next else pass.next
            fired := pass.fired ++ [pos.id] }

/-- The walk over the timers that were linked when it began.  Those destroyed
since are passed over; the one the walk goes on with must still be there. -/
def walkTimers (input : PassInput) : List Nat -> Pass -> Option Pass
  | [], pass => some pass
  | id :: rest, pass =>
      match findTimer pass.loop id with
      | none => walkTimers input rest pass
      | some pos =>
          (visitTimer input pass pos).bind fun visited =>
            let goesOn := rest.find? fun other => (findTimer pass.loop other).isSome
            if visited.loop.timers = [] ∨ goesOn.any fun other => (findTimer visited.loop other).isNone then none
            else walkTimers input rest visited

/-- The milliseconds until the deadline the pass sleeps for. -/
def sleepTime (next later : Timeval) : Int :=
  if later.Before next then
    ((next.sec : Int) - later.sec) * 1000 + ((next.usec : Int) - later.usec).tdiv 1000
  else 0

/-- What `timer_loop` does: the handlers it calls, the time it sampled, and
the milliseconds it tells the caller to sleep. -/
structure PassReport where
  fired : List Nat
  now : Timeval
  next : Int
  deriving DecidableEq, Repr

def timerLoop (input : PassInput) : Option (TimerLoop × PassReport) :=
  let second : Timeval := ⟨input.now.sec + 1, input.now.usec⟩
  (walkTimers input (loop.timers.map (·.id)) ⟨loop, second, []⟩).map fun pass =>
    (pass.loop, ⟨pass.fired, input.now.toTimeval, sleepTime pass.next input.later.toTimeval⟩)

/-! ## Runs -/

inductive TimerInput where
  | op (op : TimerOp)
  | pass (input : PassInput)

/-- The report of an operation is empty. -/
def timerStep (loop : TimerLoop) : TimerInput -> Option (TimerLoop × Option PassReport)
  | .op op => some (applyOp loop op, none)
  | .pass input => (timerLoop loop input).map fun (after, report) => (after, some report)

/-! ## Rules -/

section Rules

variable {loop : TimerLoop}

theorem findTimer_mem {id : Nat} {pos : Timer} (found : findTimer loop id = some pos) :
    pos ∈ loop.timers ∧ pos.id = id := by
  have matched := List.find?_some found
  exact ⟨List.mem_of_find?_eq_some found, by simpa using matched⟩

theorem findTimer_isSome_iff {id : Nat} :
    (findTimer loop id).isSome ↔ ∃ timer ∈ loop.timers, timer.id = id := by
  simp [findTimer, List.find?_isSome]

/-- A timer after an update is the changed one, or was there before. -/
theorem mem_updateTimer {id : Nat} {change : Timer -> Timer} {timer : Timer}
    (listed : timer ∈ (updateTimer loop id change).timers) (same : ∀ old, (change old).id = old.id) :
    (∃ old ∈ loop.timers, old.id = id ∧ timer = change old ∧ timer.id = id) ∨ timer ∈ loop.timers ∧ timer.id ≠ id := by
  rcases List.mem_map.mp listed with ⟨old, present, rfl⟩
  by_cases here : old.id = id
  · rw [if_pos here]
    exact Or.inl ⟨old, present, here, rfl, (same old).trans here⟩
  · rw [if_neg here]
    exact Or.inr ⟨present, here⟩

theorem ids_updateTimer (id : Nat) {change : Timer -> Timer} (same : ∀ old, (change old).id = old.id) :
    (updateTimer loop id change).timers.map (·.id) = loop.timers.map (·.id) := by
  rw [updateTimer, List.map_map]
  apply List.map_congr_left
  intro old _
  rw [Function.comp_apply]
  split
  · exact same old
  · rfl

/-- An update keeps the timers that are there. -/
theorem linked_update {id : Nat} {change : Timer -> Timer} (same : ∀ old, (change old).id = old.id) (other : Nat)
    (linked : ∃ timer ∈ loop.timers, timer.id = id) :
    ∃ timer ∈ (updateTimer loop other change).timers, timer.id = id := by
  rcases linked with ⟨timer, listed, own⟩
  have there : id ∈ (updateTimer loop other change).timers.map (·.id) := by
    rw [ids_updateTimer other same]
    exact List.mem_map.mpr ⟨timer, listed, own⟩
  rcases List.mem_map.mp there with ⟨updated, present, here⟩
  exact ⟨updated, present, here⟩

/-- What an operation on a timer makes of it. -/
inductive Changes : TimerOp -> Timer -> Timer -> Prop where
  | start (old : Timer) (handler : Option Nat) (arg timeout repeatMs : Nat) (now : Timeofday) :
      Changes (.start old.id handler arg timeout repeatMs now) old
        ⟨old.id, handler, arg, startTimeout now.toTimeval timeout, ofMilliseconds repeatMs⟩
  | stop (old : Timer) : Changes (.stop old.id) old ⟨old.id, none, 0, .clear, .clear⟩
  | trigger (old : Timer) (now : Timeofday) : Changes (.trigger old.id now) old { old with timeout := now.toTimeval }

/-- A timer after an operation was there before, is new or has been changed. -/
theorem mem_applyOp {op : TimerOp} {timer : Timer} (listed : timer ∈ (applyOp loop op).timers) :
    timer ∈ loop.timers ∨ op = .new ∧ timer = ⟨loop.allocated, none, 0, .clear, .clear⟩ ∨
      ∃ old ∈ loop.timers, Changes op old timer := by
  cases op with
  | new =>
      rcases List.mem_cons.mp listed with rfl | old
      · exact Or.inr (Or.inl ⟨rfl, rfl⟩)
      · exact Or.inl old
  | destroy id => exact Or.inl (List.mem_of_mem_filter listed)
  | start id handler arg timeout repeatMs now =>
      rcases mem_updateTimer listed (fun _ => rfl) with ⟨old, present, rfl, rfl, _⟩ | ⟨present, _⟩
      · exact Or.inr (Or.inr ⟨old, present, .start old handler arg timeout repeatMs now⟩)
      · exact Or.inl present
  | stop id =>
      rcases mem_updateTimer listed (fun _ => rfl) with ⟨old, present, rfl, rfl, _⟩ | ⟨present, _⟩
      · exact Or.inr (Or.inr ⟨old, present, .stop old⟩)
      · exact Or.inl present
  | trigger id now =>
      rcases mem_updateTimer listed (fun _ => rfl) with ⟨old, present, rfl, rfl, _⟩ | ⟨present, _⟩
      · exact Or.inr (Or.inr ⟨old, present, .trigger old now⟩)
      · exact Or.inl present

theorem allocated_le_applyOp (loop : TimerLoop) (op : TimerOp) : loop.allocated ≤ (applyOp loop op).allocated := by
  cases op with
  | new => exact Nat.le_succ _
  | _ => exact Nat.le_refl _

/-- Only its own destruction takes a timer out of the list. -/
theorem linked_applyOp {id : Nat} {op : TimerOp} (stays : op ≠ .destroy id)
    (linked : ∃ timer ∈ loop.timers, timer.id = id) : ∃ timer ∈ (applyOp loop op).timers, timer.id = id := by
  cases op with
  | new =>
      rcases linked with ⟨timer, listed, own⟩
      exact ⟨timer, List.mem_cons_of_mem _ listed, own⟩
  | destroy other =>
      rcases linked with ⟨timer, listed, own⟩
      refine ⟨timer, List.mem_filter.mpr ⟨listed, decide_eq_true ?_⟩, own⟩
      rintro rfl
      exact stays (own ▸ rfl)
  | start other handler arg timeout repeatMs now =>
      apply linked_update _ other linked
      exact fun _ => rfl
  | stop other =>
      apply linked_update _ other linked
      exact fun _ => rfl
  | trigger other now =>
      apply linked_update _ other linked
      exact fun _ => rfl

/-- The deadline stored stands for the time it should. -/
theorem micros_startTimeout (now : Timeval) (timeout : Nat) :
    (startTimeout now timeout).micros = now.micros + timeout * 1000 := by
  simp only [startTimeout, Timeval.micros]
  omega

theorem micros_ofMilliseconds (time : Nat) : (ofMilliseconds time).micros = time * 1000 := by
  simp only [ofMilliseconds, Timeval.micros]
  omega

theorem usec_ofMilliseconds_lt (time : Nat) : (ofMilliseconds time).usec < 1000000 := by
  simp only [ofMilliseconds]
  omega

theorem isSet_ofMilliseconds {time : Nat} (positive : 0 < time) : (ofMilliseconds time).IsSet := by
  simp only [ofMilliseconds, Timeval.IsSet]
  omega

/-- What one round of the walk does: it leaves the timer out, takes note of
its deadline, or fires it. -/
theorem visitTimer_cases {input : PassInput} {pass visited : Pass} {pos : Timer}
    (visits : visitTimer input pass pos = some visited) :
    ¬ pos.timeout.IsSet ∧ visited = pass ∨
    pos.timeout.IsSet ∧ input.now.toTimeval.Before pos.timeout ∧
      visited = { pass with next := sooner pos.timeout pass.next } ∨
    pos.timeout.IsSet ∧ ¬ input.now.toTimeval.Before pos.timeout ∧ pos.handler.isSome ∧
      visited =
        { loop := (input.handlers pos.id).foldl applyOp
            (updateTimer pass.loop pos.id fun timer => { timer with timeout := rearm pos input.now.toTimeval })
          next := if pos.repeatTime.IsSet then sooner (rearm pos input.now.toTimeval) pass.next else pass.next
          fired := pass.fired ++ [pos.id] } := by
  unfold visitTimer at visits
  split at visits
  case isTrue unset =>
    cases visits
    exact Or.inl ⟨unset, rfl⟩
  case isFalse set =>
    have armed : pos.timeout.IsSet := not_not.mp set
    split at visits
    case isTrue early =>
      cases visits
      exact Or.inr (Or.inl ⟨armed, early, rfl⟩)
    case isFalse due =>
      split at visits
      case h_1 => cases visits
      case h_2 handler calls =>
        cases visits
        exact Or.inr (Or.inr ⟨armed, due, by rw [calls]; rfl, rfl⟩)

/-- An invariant of the addresses still to visit and the pass under way. -/
theorem walkTimers_rule {input : PassInput} (invariant : List Nat -> Pass -> Prop)
    (missed : ∀ id rest pass, findTimer pass.loop id = none -> invariant (id :: rest) pass -> invariant rest pass)
    (visited : ∀ id rest pass pos after, findTimer pass.loop id = some pos ->
      visitTimer input pass pos = some after -> invariant (id :: rest) pass -> invariant rest after)
    (ids : List Nat) :
    ∀ {pass walked : Pass}, invariant ids pass -> walkTimers input ids pass = some walked -> invariant [] walked := by
  induction ids with
  | nil =>
      intro pass walked holds walks
      cases walks
      exact holds
  | cons id rest inductionHypothesis =>
      intro pass walked holds walks
      unfold walkTimers at walks
      split at walks
      case h_1 gone => exact inductionHypothesis (missed id rest pass gone holds) walks
      case h_2 pos found =>
        rcases Option.bind_eq_some_iff.mp walks with ⟨after, visits, goesOn⟩
        dsimp only at goesOn
        split at goesOn
        · cases goesOn
        · exact inductionHypothesis (visited id rest pass pos after found visits holds) goesOn

/-- An invariant under which every round returns, the list does not become
empty and a round takes no timer out of it but its own: the walk returns. -/
theorem walkTimers_returns_rule {input : PassInput} (invariant : List Nat -> Pass -> Prop)
    (missed : ∀ id rest pass, findTimer pass.loop id = none -> invariant (id :: rest) pass -> invariant rest pass)
    (returns : ∀ id rest pass pos, findTimer pass.loop id = some pos -> id ∉ rest -> invariant (id :: rest) pass ->
      ∃ visited, visitTimer input pass pos = some visited ∧ invariant rest visited ∧ visited.loop.timers ≠ [] ∧
        ∀ other, other ≠ id -> (findTimer pass.loop other).isSome -> (findTimer visited.loop other).isSome)
    {ids : List Nat} (distinct : ids.Nodup) :
    ∀ {pass : Pass}, invariant ids pass -> ∃ walked, walkTimers input ids pass = some walked ∧ invariant [] walked := by
  induction ids with
  | nil => exact fun holds => ⟨_, rfl, holds⟩
  | cons id rest inductionHypothesis =>
      intro pass holds
      rcases List.nodup_cons.mp distinct with ⟨fresh, later⟩
      unfold walkTimers
      split
      case h_1 gone => exact inductionHypothesis later (missed id rest pass gone holds)
      case h_2 pos found =>
        rcases returns id rest pass pos found fresh holds with ⟨visited, visits, still, linked, stays⟩
        rw [visits, Option.bind_some]
        dsimp only
        rw [if_neg]
        · exact inductionHypothesis later still
        · rintro (empty | gone)
          · exact linked empty
          · -- the timer the walk goes on with is not the one visited
            rcases (Option.any_eq_true _ _).mp gone with ⟨next, goesOn, missing⟩
            have present := List.find?_some goesOn
            have ahead := List.mem_of_find?_eq_some goesOn
            have kept := stays _ (fun same => fresh (same ▸ ahead)) present
            rw [Option.isNone_iff_eq_none] at missing
            rw [missing] at kept
            cases kept

/-- An invariant of the loop that rearming a timer and the operations of the
handlers keep. -/
theorem timerLoop_rule {input : PassInput} {after : TimerLoop} {report : PassReport} (invariant : TimerLoop -> Prop)
    (rearmed : ∀ loop, ∀ pos ∈ loop.timers, invariant loop ->
      invariant (updateTimer loop pos.id fun timer => { timer with timeout := rearm pos input.now.toTimeval }))
    (handled : ∀ id, ∀ op ∈ input.handlers id, ∀ loop, invariant loop -> invariant (applyOp loop op))
    (passes : timerLoop loop input = some (after, report)) (holds : invariant loop) : invariant after := by
  rcases Option.map_eq_some_iff.mp passes with ⟨pass, walks, pair⟩
  cases pair
  refine walkTimers_rule (fun _ pass => invariant pass.loop) (fun _ _ _ _ kept => kept) ?_ _ holds walks
  intro id rest pass pos visited found visits kept
  rcases visitTimer_cases visits with ⟨_, rfl⟩ | ⟨_, _, rfl⟩ | ⟨_, _, _, rfl⟩
  · exact kept
  · exact kept
  · refine List.foldlRecOn _ _ (rearmed pass.loop pos (findTimer_mem found).1 kept) ?_
    exact fun loop holds op member => handled pos.id op member loop holds

/-- The timers have addresses of their own, which have been handed out. -/
structure TimerLoop.Valid (loop : TimerLoop) : Prop where
  distinct : (loop.timers.map (·.id)).Nodup
  known : ∀ timer ∈ loop.timers, timer.id < loop.allocated

theorem TimerLoop.Valid.found (valid : loop.Valid) {id : Nat} {pos timer : Timer}
    (found : findTimer loop id = some pos) (listed : timer ∈ loop.timers) (own : timer.id = id) : timer = pos := by
  rcases findTimer_mem found with ⟨member, same⟩
  exact List.inj_on_of_nodup_map valid.distinct listed member (own.trans same.symm)

theorem TimerLoop.Valid.update (valid : loop.Valid) (id : Nat) {change : Timer -> Timer}
    (same : ∀ old, (change old).id = old.id) : (updateTimer loop id change).Valid where
  distinct := by
    rw [ids_updateTimer id same]
    exact valid.distinct
  known := by
    intro timer listed
    rcases mem_updateTimer listed same with ⟨old, present, _, rfl, _⟩ | ⟨present, _⟩
    · rw [same]
      exact valid.known old present
    · exact valid.known timer present

theorem TimerLoop.Valid.applyOp (valid : loop.Valid) (op : TimerOp) : (applyOp loop op).Valid := by
  cases op with
  | new =>
      constructor
      · refine List.nodup_cons.mpr ⟨?_, valid.distinct⟩
        intro member
        rcases List.mem_map.mp member with ⟨timer, listed, same⟩
        exact Nat.ne_of_lt (valid.known timer listed) same
      · intro timer listed
        rcases List.mem_cons.mp listed with rfl | old
        · exact Nat.lt_succ_self _
        · exact Nat.lt_succ_of_lt (valid.known timer old)
  | destroy id =>
      constructor
      · exact valid.distinct.sublist (List.filter_sublist.map _)
      · exact fun timer listed => valid.known timer (List.mem_of_mem_filter listed)
  | start id handler arg timeout repeatMs now => exact valid.update id fun _ => rfl
  | stop id => exact valid.update id fun _ => rfl
  | trigger id now => exact valid.update id fun _ => rfl

theorem TimerLoop.Valid.timerStep (valid : loop.Valid) {input : TimerInput} {after : TimerLoop}
    {reply : Option PassReport} (steps : timerStep loop input = some (after, reply)) : after.Valid := by
  cases input with
  | op op =>
      cases steps
      exact valid.applyOp op
  | pass input =>
      rcases Option.map_eq_some_iff.mp steps with ⟨⟨passed, report⟩, passes, pair⟩
      cases pair
      refine timerLoop_rule TimerLoop.Valid ?_ ?_ passes valid
      · exact fun loop pos _ holds => holds.update pos.id fun _ => rfl
      · exact fun _ op _ loop holds => holds.applyOp op

/-- What has been handed out to the caller has addresses of its own. -/
theorem run_valid {inputs : List TimerInput} {reports : List (Option PassReport)}
    (completes : runReplies timerStep ⟨[], 0⟩ inputs = some (loop, reports)) : loop.Valid := by
  have every : EveryInput timerStep (fun _ _ => True) ⟨[], 0⟩ inputs := everyInput_of_forall (fun _ _ => trivial) _
  refine runReplies_state TimerLoop.Valid ?_ every ⟨List.nodup_nil, by simp⟩ completes
  exact fun loop input next reply _ valid steps => valid.timerStep steps

end Rules

end Timers
end Extlib
