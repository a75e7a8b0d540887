import Extlib.Timers.InMemory

namespace Extlib
namespace Timers
namespace InMemory

open Machine Memory LinkedLists

/-!
# Threads and their timers

Runs of calls that the threads make one after the other, in any order.  A run
gets through in memory exactly when every call works on timers of its own
thread that exist, a pass is made by a thread that has a timer, and no handler
destroys the timer that the pass goes on with or, even for a moment, the last
one of its thread.  Then every thread sees the timers it would have alone.
-/

/-! ## Handlers -/

/-- The calls of a handler are for timers that are there, and never leave its
thread without any. -/
def carefulOps : TimerLoop -> List TimerOp -> Bool
  | _, [] => true
  | timers, op :: ops =>
      allowsOp timers true op && !(applyOp timers op).timers.isEmpty && carefulOps (applyOp timers op) ops

section Handlers

variable {memory : TimerMemory} {threads : Nat -> TimerLoop} {loops : List Nat} {pid loop : Nat}

theorem isSome_updateTimer (timers : TimerLoop) (other id : Nat) {change : Timer -> Timer}
    (same : ∀ old : Timer, (change old).id = old.id) :
    (findTimer (updateTimer timers other change) id).isSome = (findTimer timers id).isSome := by
  rw [findTimer_updateTimer timers other same]
  split
  · exact Option.isSome_map
  · rfl

/-- A call keeps the timers that are there, and the others do not come back. -/
theorem isSome_applyOp {timers : TimerLoop} {id : Nat} (known : id < timers.allocated) (op : TimerOp) :
    (findTimer (applyOp timers op) id).isSome = (findTimer timers id).isSome ∨
      op = .destroy id ∧ findTimer (applyOp timers op) id = none := by
  cases op with
  | new =>
      rw [applyOp, findTimer_timerNew, if_neg (Nat.ne_of_lt known)]
      exact Or.inl rfl
  | destroy other =>
      rw [applyOp, findTimer_timerDestroy]
      by_cases here : id = other
      · rw [if_pos here]
        exact Or.inr ⟨by rw [here], rfl⟩
      · rw [if_neg here]
        exact Or.inl rfl
  | start other handler arg timeout repeatMs now =>
      refine Or.inl (isSome_updateTimer timers other id ?_)
      exact fun _ => rfl
  | stop other =>
      refine Or.inl (isSome_updateTimer timers other id ?_)
      exact fun _ => rfl
  | trigger other now =>
      refine Or.inl (isSome_updateTimer timers other id ?_)
      exact fun _ => rfl

theorem findTimer_applyOp {timers : TimerLoop} {id : Nat} (known : id < timers.allocated) (op : TimerOp)
    (present : (findTimer (applyOp timers op) id).isSome) : (findTimer timers id).isSome := by
  rcases isSome_applyOp known op with same | ⟨_, none⟩
  · exact same ▸ present
  · rw [none] at present
    cases present

/-- The thread, during a handler: its timers are a list that is held. -/
structure During (threads : Nat -> TimerLoop) (pid : Nat) (memory : TimerMemory) (timers : TimerLoop) : Prop where
  held : ∃ loops, Holds memory (Function.update threads pid timers) loops

theorem During.callOp {timers : TimerLoop} (during : During threads pid memory timers) {op : TimerOp}
    (allows : allowsOp timers true op) :
    ∃ after, callOp pid pid memory op = some after ∧ During threads pid after (applyOp timers op) ∧
      Moves pid memory after (applyOp timers op) := by
  rcases during.held with ⟨loops, holds⟩
  have allowed : allowsOp (Function.update threads pid timers pid) (decide (pid = pid)) op := by
    rw [Function.update_self, decide_eq_true rfl]
    exact allows
  rcases holds.callOp allowed with ⟨after, others, calls, held, moves⟩
  rw [Function.update_self, Function.update_idem] at held
  rw [Function.update_self] at moves
  exact ⟨after, calls, ⟨others, held⟩, moves⟩

theorem During.callOp_none {timers : TimerLoop} (during : During threads pid memory timers) {op : TimerOp}
    (forbidden : allowsOp timers true op = false) : InMemory.callOp pid pid memory op = none := by
  rcases during.held with ⟨loops, holds⟩
  refine holds.callOp_none ?_
  rw [Function.update_self, decide_eq_true rfl]
  exact forbidden

/-- A careful handler gets through, and the loop of its thread stays. -/
theorem During.carefulOps {ops : List TimerOp} :
    ∀ {memory : TimerMemory} {timers : TimerLoop}, During threads pid memory timers -> timers.timers ≠ [] ->
      memory.loops loop = some pid -> carefulOps timers ops ->
        ∃ after, ops.foldlM (InMemory.callOp pid pid) memory = some after ∧ During threads pid after (ops.foldl applyOp timers) ∧
          (ops.foldl applyOp timers).timers ≠ [] ∧ after.loops loop = some pid := by
  induction ops with
  | nil => exact fun during full own _ => ⟨_, rfl, during, full, own⟩
  | cons op ops inductionHypothesis =>
      intro memory timers during full own careful
      rw [InMemory.carefulOps, Bool.and_eq_true, Bool.and_eq_true, Bool.not_eq_true'] at careful
      rcases careful with ⟨⟨allows, some_timer⟩, later⟩
      rcases during.callOp allows with ⟨after, calls, still, moves⟩
      have more : (applyOp timers op).timers ≠ [] := List.isEmpty_eq_false_iff.mp some_timer
      rcases inductionHypothesis still more (moves.kept more loop pid own) later with ⟨last, runs, kept⟩
      refine ⟨last, ?_, kept⟩
      rw [List.foldlM_cons, calls, Option.bind_eq_bind, Option.bind_some]
      exact runs

/-- What is left of the list that a pass walks over: the loop has been freed,
and its timers. -/
structure Gone (threads : Nat -> TimerLoop) (pid loop bound : Nat) (memory : TimerMemory) : Prop where
  made : loop < memory.loopsMade
  loop : memory.loops loop = none
  timers : ∃ timers, During threads pid memory timers ∧ bound ≤ timers.allocated ∧
    ∀ id < bound, findTimer timers id = none

theorem Gone.mono {bound less : Nat} (gone : Gone threads pid loop bound memory) (fewer : less ≤ bound) :
    Gone threads pid loop less memory := by
  rcases gone.timers with ⟨timers, during, known, none⟩
  refine ⟨gone.made, gone.loop, timers, during, Nat.le_trans fewer known, fun id old => ?_⟩
  exact none id (Nat.lt_of_lt_of_le old fewer)

theorem During.made {timers : TimerLoop} (during : During threads pid memory timers)
    (own : memory.loops loop = some pid) : loop < memory.loopsMade := by
  rcases during.held with ⟨loops, holds⟩
  refine holds.placed.loopsMade loop ((holds.placed.listed loop).mpr ?_)
  rw [own]
  rfl

/-- It does not come back, whatever the handler goes on to do. -/
theorem Gone.ops {bound : Nat} {ops : List TimerOp} :
    ∀ {memory : TimerMemory}, Gone threads pid loop bound memory ->
      ∀ after, ops.foldlM (InMemory.callOp pid pid) memory = some after -> Gone threads pid loop bound after := by
  induction ops with
  | nil =>
      intro memory gone after same
      cases same
      exact gone
  | cons op ops inductionHypothesis =>
      intro memory gone last runs
      rcases gone.timers with ⟨timers, during, known, none⟩
      rw [List.foldlM_cons] at runs
      rcases Option.bind_eq_some_iff.mp runs with ⟨after, calls, later⟩
      cases allows : allowsOp timers true op with
      | false =>
          rw [during.callOp_none allows] at calls
          cases calls
      | true =>
          rcases during.callOp allows with ⟨same, alsoCalls, still, moves⟩
          cases alsoCalls.symm.trans calls
          refine inductionHypothesis ⟨?_, ?_, applyOp timers op, still, ?_, ?_⟩ last later
          · exact Nat.lt_of_lt_of_le gone.made moves.follows.made
          · exact moves.follows.gone loop gone.made gone.loop
          · exact Nat.le_trans known (allocated_le_applyOp timers op)
          · intro id old
            by_contra there
            have before := findTimer_applyOp (Nat.lt_of_lt_of_le old known) op (Option.isSome_iff_ne_none.mpr there)
            rw [none id old] at before
            cases before

/-- A handler that is not careful does not get through, or the list is gone. -/
theorem During.carelessOps {ops : List TimerOp} :
    ∀ {memory : TimerMemory} {timers : TimerLoop}, During threads pid memory timers ->
      memory.loops loop = some pid -> InMemory.carefulOps timers ops = false ->
        ∀ after, ops.foldlM (InMemory.callOp pid pid) memory = some after -> Gone threads pid loop timers.allocated after := by
  induction ops with
  | nil => exact fun _ _ careless => absurd careless Bool.noConfusion
  | cons op ops inductionHypothesis =>
      intro memory timers during own careless last runs
      rw [List.foldlM_cons] at runs
      rcases Option.bind_eq_some_iff.mp runs with ⟨after, calls, later⟩
      cases allows : allowsOp timers true op with
      | false =>
          rw [during.callOp_none allows] at calls
          cases calls
      | true =>
          rcases during.callOp allows with ⟨same, alsoCalls, still, moves⟩
          cases alsoCalls.symm.trans calls
          rw [InMemory.carefulOps, allows, Bool.true_and, Bool.and_eq_false_iff, Bool.not_eq_false'] at careless
          have made := during.made own
          by_cases empty : (applyOp timers op).timers = []
          · have gone : Gone threads pid loop timers.allocated after := by
              refine ⟨Nat.lt_of_lt_of_le made moves.follows.made, moves.freed empty loop own, applyOp timers op, still,
                allocated_le_applyOp timers op, fun id _ => ?_⟩
              rw [findTimer, empty]
              rfl
            exact gone.ops last later
          · have rest := careless.resolve_left fun none => empty (List.isEmpty_iff.mp none)
            have gone := inductionHypothesis still (moves.kept empty loop pid own) rest last later
            exact gone.mono (allocated_le_applyOp timers op)

end Handlers

/-! ## Passes -/

/-- The timers when the handler of one of them is called. -/
def armed (input : PassInput) (pass : Pass) (pos : Timer) : TimerLoop :=
  updateTimer pass.loop pos.id fun timer => { timer with timeout := rearm pos input.now.toTimeval }

def isDue (input : PassInput) (pos : Timer) : Bool :=
  pos.timeout.IsSet && !decide (input.now.toTimeval.Before pos.timeout)

/-- Every handler that the walk calls is careful. -/
def carefulWalk (input : PassInput) : List Nat -> Pass -> Bool
  | [], _ => true
  | id :: rest, pass =>
      match findTimer pass.loop id with
      | none => carefulWalk input rest pass
      | some pos =>
          (!isDue input pos || carefulOps (armed input pass pos) (input.handlers pos.id)) &&
            (visitTimer input pass pos).all fun visited => carefulWalk input rest visited

section Passes

variable {memory : TimerMemory} {threads : Nat -> TimerLoop} {pid loop id : Nat} {input : PassInput} {pass : Pass}
  {pos : Timer}

/-- A visit of a timer that is not due. -/
theorem During.visit_early (during : During threads pid memory pass.loop) (found : findTimer pass.loop id = some pos)
    (early : isDue input pos = false) :
    ∃ visited, visitTimer input pass pos = some visited ∧ visited.loop = pass.loop ∧
      visitEntry input pid (.timerNode pid id) ⟨memory, pass.next, pass.fired⟩ =
        some ⟨memory, visited.next, visited.fired⟩ := by
  rcases during.held with ⟨loops, holds⟩
  have foundHere : findTimer (Function.update threads pid pass.loop pid) id = some pos := by
    rw [Function.update_self, found]
  rcases holds.ownTimer foundHere with ⟨home, _, _, cell⟩
  rw [isDue, Bool.and_eq_false_iff, decide_eq_false_iff_not, Bool.not_eq_false', decide_eq_true_iff] at early
  simp only [visitEntry, timerEntry, Option.bind_eq_bind, Option.bind_some, cell]
  rw [visitTimer]
  by_cases unset : ¬ pos.timeout.IsSet
  · exact ⟨pass, if_pos unset, rfl, if_pos unset⟩
  · have before := early.resolve_left unset
    rw [if_neg unset, if_pos before]
    exact ⟨_, rfl, rfl, by rw [if_neg unset, if_pos before]⟩

/-- A visit of a timer that is due. -/
theorem During.visit_due (during : During threads pid memory pass.loop) (found : findTimer pass.loop id = some pos)
    (due : isDue input pos) :
    pos.handler = none ∧ visitTimer input pass pos = none ∧
        visitEntry input pid (.timerNode pid id) ⟨memory, pass.next, pass.fired⟩ = none ∨
      ∃ visited started, visitTimer input pass pos = some visited ∧
        visited.loop = (input.handlers pos.id).foldl applyOp (armed input pass pos) ∧
        During threads pid started (armed input pass pos) ∧ started.loops = memory.loops ∧
        visitEntry input pid (.timerNode pid id) ⟨memory, pass.next, pass.fired⟩ =
          ((input.handlers pos.id).foldlM (InMemory.callOp pid pid) started).map fun after =>
            ⟨after, visited.next, visited.fired⟩ := by
  rcases during.held with ⟨loops, holds⟩
  have foundHere : findTimer (Function.update threads pid pass.loop pid) id = some pos := by
    rw [Function.update_self, found]
  rcases holds.ownTimer foundHere with ⟨home, _, own, cell⟩
  have same := (findTimer_mem found).2
  subst same
  rw [isDue, Bool.and_eq_true, decide_eq_true_iff, Bool.not_eq_true', decide_eq_false_iff_not] at due
  simp only [visitEntry, timerEntry, Option.bind_eq_bind, Option.bind_some, cell]
  rw [visitTimer, if_neg (not_not.mpr due.1), if_neg due.2, if_neg (not_not.mpr due.1), if_neg due.2]
  cases handler : pos.handler with
  | none => exact Or.inl ⟨rfl, rfl, rfl⟩
  | some function =>
      have armedHolds := holds.updateCell foundHere own
        (fun timer => { timer with timeout := rearm pos input.now.toTimeval }) fun _ => rfl
      rw [Function.update_self, Function.update_idem] at armedHolds
      refine Or.inr ⟨_, _, rfl, rfl, ⟨loops, armedHolds⟩, rfl, ?_⟩
      simp only [Option.map_eq_bind, handler]
      rfl

/-- The timers that the walk has still to visit, in the order of the list. -/
def remaining (timers : TimerLoop) (ids : List Nat) : List Nat :=
  ids.filter fun id => (findTimer timers id).isSome

/-- They are the end of the list. -/
structure Ahead (timers : TimerLoop) (ids : List Nat) : Prop where
  known : ∀ id ∈ ids, id < timers.allocated
  order : ∃ front, timers.timers.map (·.id) = front ++ remaining timers ids

theorem Ahead.tail {timers : TimerLoop} {rest : List Nat} (ahead : Ahead timers (id :: rest)) : Ahead timers rest := by
  refine ⟨fun other member => ahead.known other (List.mem_cons_of_mem id member), ?_⟩
  rcases ahead.order with ⟨front, order⟩
  rw [remaining, List.filter_cons] at order
  split at order
  · exact ⟨front ++ [id], by rw [order, List.append_assoc]; rfl⟩
  · exact ⟨front, order⟩

theorem Ahead.updateTimer {timers : TimerLoop} {ids : List Nat} (ahead : Ahead timers ids) (other : Nat)
    {change : Timer -> Timer} (same : ∀ old : Timer, (change old).id = old.id) :
    Ahead (updateTimer timers other change) ids := by
  rcases ahead.order with ⟨front, order⟩
  refine ⟨ahead.known, front, ?_⟩
  rw [ids_updateTimer other same, order, remaining, remaining]
  congr 1
  apply List.filter_congr
  exact fun id _ => (isSome_updateTimer timers other id same).symm

theorem Ahead.applyOp {timers : TimerLoop} {ids : List Nat} (ahead : Ahead timers ids) (op : TimerOp) :
    Ahead (applyOp timers op) ids := by
  have known : ∀ id ∈ ids, id < (Timers.applyOp timers op).allocated := fun id member =>
    Nat.lt_of_lt_of_le (ahead.known id member) (allocated_le_applyOp timers op)
  rcases ahead.order with ⟨front, order⟩
  cases op with
  | new =>
      refine ⟨known, timers.allocated :: front, ?_⟩
      have kept : remaining (Timers.timerNew timers) ids = remaining timers ids := by
        apply List.filter_congr
        intro id member
        rw [findTimer_timerNew, if_neg (Nat.ne_of_lt (ahead.known id member))]
      exact (congrArg (timers.allocated :: ·) order).trans (by rw [Timers.applyOp, kept]; rfl)
  | destroy other =>
      refine ⟨known, front.filter (· ≠ other), ?_⟩
      have kept : remaining (Timers.timerDestroy timers other) ids = (remaining timers ids).filter (· ≠ other) := by
        rw [remaining, remaining, List.filter_filter]
        apply List.filter_congr
        intro id member
        rw [findTimer_timerDestroy]
        by_cases here : id = other
        · simp [here]
        · simp [here]
      rw [Timers.applyOp, kept, ← List.filter_append, ← order, List.filter_map]
      rfl
  | start other handler arg timeout repeatMs now => exact ahead.updateTimer other fun _ => rfl
  | stop other => exact ahead.updateTimer other fun _ => rfl
  | trigger other now => exact ahead.updateTimer other fun _ => rfl

theorem Ahead.ops {ids : List Nat} {ops : List TimerOp} :
    ∀ {timers : TimerLoop}, Ahead timers ids -> Ahead (ops.foldl Timers.applyOp timers) ids := by
  induction ops with
  | nil => exact fun ahead => ahead
  | cons op ops inductionHypothesis => exact fun ahead => inductionHypothesis (ahead.applyOp op)

theorem findTimer_ops {ops : List TimerOp} :
    ∀ {timers : TimerLoop}, id < timers.allocated -> (findTimer (ops.foldl Timers.applyOp timers) id).isSome ->
      (findTimer timers id).isSome := by
  induction ops with
  | nil => exact fun _ present => present
  | cons op ops inductionHypothesis =>
      intro timers known present
      exact findTimer_applyOp known op
        (inductionHypothesis (Nat.lt_of_lt_of_le known (allocated_le_applyOp timers op)) present)

/-- The timer that the walk goes on with is still the first one to visit, or
it is gone. -/
theorem remaining_head {before after : TimerLoop} {rest : List Nat}
    (fewer : ∀ id ∈ rest, (findTimer after id).isSome -> (findTimer before id).isSome) :
    (remaining before rest).head? = (remaining after rest).head? ∨
      ∃ next, (remaining before rest).head? = some next ∧ findTimer after next = none := by
  induction rest with
  | nil => exact Or.inl rfl
  | cons id rest inductionHypothesis =>
      rw [remaining, remaining, List.filter_cons, List.filter_cons]
      by_cases there : (findTimer before id).isSome
      · by_cases still : (findTimer after id).isSome
        · rw [if_pos there, if_pos still]
          exact Or.inl rfl
        · rw [if_pos there]
          exact Or.inr ⟨id, rfl, Option.not_isSome_iff_eq_none.mp still⟩
      · have gone : ¬ (findTimer after id).isSome := fun still => there (fewer id List.mem_cons_self still)
        rw [if_neg there, if_neg gone]
        exact inductionHypothesis fun other member => fewer other (List.mem_cons_of_mem id member)

/-- The node of the timer, or the head of the list when there is none. -/
def cursorOf (pid loop : Nat) (next : Option Nat) : Place :=
  match next with
  | none => .loopTimers loop
  | some id => .timerNode pid id

theorem headD_cursor (pid loop : Nat) (ids : List Nat) :
    (ids.map (Place.timerNode pid)).headD (.loopTimers loop) = cursorOf pid loop ids.head? := by
  cases ids with
  | nil => rfl
  | cons id ids => rfl

/-- The list that the walk is in. -/
theorem During.ring (during : During threads pid memory pass.loop) (own : memory.loops loop = some pid)
    {ids : List Nat} (ahead : Ahead pass.loop ids) :
    ∃ front, memory.links.Ring (.loopTimers loop) (front ++ (remaining pass.loop ids).map (Place.timerNode pid)) := by
  rcases during.held with ⟨loops, holds⟩
  rcases ahead.order with ⟨front, order⟩
  have ring := holds.placed.timers own
  have nodes : pass.loop.timers.map (fun timer => Place.timerNode pid timer.id) =
      front.map (Place.timerNode pid) ++ (remaining pass.loop ids).map (Place.timerNode pid) := by
    rw [← List.map_append, ← order, List.map_map]
    rfl
  rw [Function.update_self, nodes] at ring
  exact ⟨_, ring⟩

/-- What the walk reads there when the list is gone. -/
theorem Gone.cursor {bound : Nat} (gone : Gone threads pid loop bound memory) {next : Option Nat}
    (known : ∀ id ∈ next, id < bound) : memory.links.readNext (cursorOf pid loop next) = none := by
  rcases gone.timers with ⟨timers, ⟨loops, holds⟩, _, none⟩
  refine if_neg ?_
  rw [holds.placed.live]
  cases next with
  | none =>
      rw [cursorOf, placeLive, gone.loop]
      exact Bool.false_ne_true
  | some id =>
      rw [cursorOf, placeLive]
      intro there
      rcases Option.isSome_iff_exists.mp there with ⟨cell, has⟩
      have found := ((holds.placed.cells pid id cell).mp has).1
      rw [Function.update_self, none id (known id rfl)] at found
      cases found

/-- The list model goes on with the first of the remaining timers. -/
theorem walkTimers_visited {rest : List Nat} {visited : Pass} (found : findTimer pass.loop id = some pos)
    (visits : visitTimer input pass pos = some visited) :
    walkTimers input (id :: rest) pass =
      if visited.loop.timers = [] ∨ (remaining pass.loop rest).head?.any fun next => (findTimer visited.loop next).isNone
      then none
      else walkTimers input rest visited := by
  rw [walkTimers, found]
  dsimp only
  rw [visits, Option.bind_some, remaining, List.head?_filter]

theorem carefulWalk_visited {rest : List Nat} {visited : Pass} (found : findTimer pass.loop id = some pos)
    (visits : visitTimer input pass pos = some visited) :
    carefulWalk input (id :: rest) pass =
      ((!isDue input pos || InMemory.carefulOps (armed input pass pos) (input.handlers pos.id)) &&
        carefulWalk input rest visited) := by
  rw [carefulWalk, found]
  dsimp only
  rw [visits, Option.all_some]

/-- What it reads at a timer that has been destroyed. -/
theorem During.cursor_gone {timers : TimerLoop} (during : During threads pid memory timers)
    (none : findTimer timers id = none) : memory.links.readNext (.timerNode pid id) = .none := by
  rcases during.held with ⟨loops, holds⟩
  refine if_neg ?_
  rw [holds.placed.live, placeLive]
  intro there
  rcases Option.isSome_iff_exists.mp there with ⟨cell, has⟩
  have found := ((holds.placed.cells pid id cell).mp has).1
  rw [Function.update_self, none] at found
  cases found

/-- The walk in memory shows the walk over the list. -/
structure Shows (threads : Nat -> TimerLoop) (pid : Nat) (walked : MemoryPass) (pass : Pass) : Prop where
  during : During threads pid walked.memory pass.loop
  next : walked.next = pass.next
  fired : walked.fired = pass.fired

/-- What `walk_shows` says of the timers still to visit. -/
def WalkShows (threads : Nat -> TimerLoop) (pid loop : Nat) (input : PassInput) (ids : List Nat) : Prop :=
  ∀ (memory : TimerMemory) (pass : Pass) (rounds : Nat) (n : Place), During threads pid memory pass.loop ->
    memory.loops loop = some pid -> Ahead pass.loop ids -> (remaining pass.loop ids).length < rounds ->
    (remaining pass.loop ids ≠ [] -> n = cursorOf pid loop (remaining pass.loop ids).tail.head?) ->
      Option.Rel (Shows threads pid)
        (forEachSafeFrom (fun pass : MemoryPass => pass.memory.links) (.loopTimers loop) (visitEntry input pid) rounds
          ⟨cursorOf pid loop (remaining pass.loop ids).head?, n, ⟨memory, pass.next, pass.fired⟩⟩)
        (if carefulWalk input ids pass then walkTimers input ids pass else none)

/-- The walk goes on from a visit that has left timers. -/
theorem walk_goesOn {rest : List Nat} {visited : Pass} {after : TimerMemory} {rounds : Nat}
    (later : WalkShows threads pid loop input rest) (during : During threads pid after visited.loop)
    (own : after.loops loop = some pid) (ahead : Ahead visited.loop rest) (some_timer : visited.loop.timers ≠ [])
    (fewer : ∀ id ∈ rest, (findTimer visited.loop id).isSome -> (findTimer pass.loop id).isSome)
    (enough : (remaining pass.loop rest).length < rounds) :
    Option.Rel (Shows threads pid)
      ((after.links.readNext (cursorOf pid loop (remaining pass.loop rest).head?)).bind fun next =>
        forEachSafeFrom (fun pass : MemoryPass => pass.memory.links) (.loopTimers loop) (visitEntry input pid) rounds
          ⟨cursorOf pid loop (remaining pass.loop rest).head?, next, ⟨after, visited.next, visited.fired⟩⟩)
      (if carefulWalk input rest visited then
        if visited.loop.timers = [] ∨
            (remaining pass.loop rest).head?.any fun next => (findTimer visited.loop next).isNone then none
        else walkTimers input rest visited
      else none) := by
  rcases remaining_head fewer with same | ⟨next, goesOn, gone⟩
  · have linked : ¬ (visited.loop.timers = [] ∨
        (remaining pass.loop rest).head?.any fun next => (findTimer visited.loop next).isNone) := by
      rintro (none | gone)
      · exact some_timer none
      · rcases (Option.any_eq_true _ _).mp gone with ⟨next, goesOn, missing⟩
        rw [same] at goesOn
        have there := (List.mem_filter.mp (List.mem_of_head? goesOn)).2
        rw [Option.isNone_iff_eq_none.mp missing] at there
        cases there
    rcases during.ring own ahead with ⟨front, ring⟩
    rcases readNext_ring ring with ⟨next, reads, behind⟩
    rw [headD_cursor] at reads
    rw [if_neg linked, same, reads, Option.bind_some]
    refine later after visited rounds next during own ahead ?_ fun more => ?_
    · refine Nat.lt_of_le_of_lt ?_ enough
      rw [remaining, remaining, ← List.countP_eq_length_filter, ← List.countP_eq_length_filter]
      exact List.countP_mono_left fewer
    · rw [behind (fun none => more (List.map_eq_nil_iff.mp none)), ← List.map_tail, headD_cursor]
  · have stops : visited.loop.timers = [] ∨
        (remaining pass.loop rest).head?.any fun next => (findTimer visited.loop next).isNone := by
      refine Or.inr ((Option.any_eq_true _ _).mpr ⟨next, goesOn, ?_⟩)
      rw [gone]
      rfl
    rw [if_pos stops, ite_self, goesOn, cursorOf, during.cursor_gone gone]
    exact Option.Rel.none

/-- The walk in memory gets through when the one over the list does, with
careful handlers, and shows the same. -/
theorem walk_shows (threads : Nat -> TimerLoop) (pid loop : Nat) (input : PassInput) (ids : List Nat) :
    WalkShows threads pid loop input ids := by
  induction ids with
  | nil =>
      intro memory pass rounds n during own ahead enough behind
      cases rounds with
      | zero => exact absurd enough (Nat.not_lt_zero _)
      | succ rounds =>
          have ends : forEachSafeFrom (fun pass : MemoryPass => pass.memory.links) (.loopTimers loop)
              (visitEntry input pid) (rounds + 1)
              ⟨cursorOf pid loop (remaining pass.loop []).head?, n, ⟨memory, pass.next, pass.fired⟩⟩ =
                some ⟨memory, pass.next, pass.fired⟩ := if_pos rfl
          rw [ends]
          exact Option.Rel.some ⟨during, rfl, rfl⟩
  | cons id rest inductionHypothesis =>
      intro memory pass rounds n during own ahead enough behind
      cases found : findTimer pass.loop id with
      | none =>
          have skips : remaining pass.loop (id :: rest) = remaining pass.loop rest := by
            rw [remaining, List.filter_cons_of_neg]
            · rfl
            · rw [found]
              exact Bool.false_ne_true
          rw [skips] at enough behind ⊢
          rw [carefulWalk, walkTimers, found]
          exact inductionHypothesis memory pass rounds n during own ahead.tail enough behind
      | some pos =>
          have own_id := (findTimer_mem found).2
          have listed : remaining pass.loop (id :: rest) = id :: remaining pass.loop rest := by
            rw [remaining, List.filter_cons_of_pos]
            · rfl
            · rw [found]
              rfl
          rw [listed] at enough behind ⊢
          have follows := behind (List.cons_ne_nil _ _)
          rw [List.tail_cons] at follows
          cases rounds with
          | zero => exact absurd enough (Nat.not_lt_zero _)
          | succ rounds =>
              rw [List.head?_cons, cursorOf, forEachSafeFrom_round Place.noConfusion, follows]
              rw [List.length_cons] at enough
              have enoughLater := Nat.lt_of_succ_lt_succ enough
              cases due : isDue input pos with
              | false =>
                  rcases during.visit_early found due with ⟨visited, visits, same, body⟩
                  rw [walkTimers_visited found visits, carefulWalk_visited found visits, due, body, Option.bind_some,
                    Bool.not_false, Bool.true_or, Bool.true_and]
                  refine walk_goesOn inductionHypothesis (same ▸ during) own (same ▸ ahead.tail) ?_ ?_ enoughLater
                  · rw [same]
                    exact List.ne_nil_of_mem (findTimer_mem found).1
                  · exact fun other _ present => same ▸ present
              | true =>
                  rcases during.visit_due found due with ⟨_, visits, body⟩ | ⟨visited, started, visits, same, start, loops, body⟩
                  · rw [body, walkTimers, found]
                    dsimp only
                    rw [visits, Option.bind_none, Option.bind_none, ite_self]
                    exact Option.Rel.none
                  · have ownStarted : started.loops loop = some pid := by rw [loops, own]
                    have full : (armed input pass pos).timers ≠ [] := by
                      rw [armed, updateTimer, ne_eq, List.map_eq_nil_iff]
                      exact List.ne_nil_of_mem (findTimer_mem found).1
                    have aheadArmed : Ahead (armed input pass pos) rest := ahead.tail.updateTimer pos.id fun _ => rfl
                    rw [walkTimers_visited found visits, carefulWalk_visited found visits, due, body, Bool.not_true,
                      Bool.false_or]
                    cases careful : carefulOps (armed input pass pos) (input.handlers pos.id) with
                    | true =>
                        rcases start.carefulOps full ownStarted careful with ⟨after, runs, still, some_timer, ownAfter⟩
                        rw [runs, Option.map_some, Option.bind_some, Bool.true_and]
                        rw [← same] at still some_timer
                        refine walk_goesOn inductionHypothesis still ownAfter (same ▸ aheadArmed.ops) some_timer ?_ enoughLater
                        intro other member present
                        rw [same] at present
                        have before := findTimer_ops (aheadArmed.known other member) present
                        rwa [armed, isSome_updateTimer] at before
                        exact fun _ => rfl
                    | false =>
                        rw [Bool.false_and, if_neg Bool.false_ne_true]
                        cases runs : (input.handlers pos.id).foldlM (InMemory.callOp pid pid) started with
                        | none => exact Option.Rel.none
                        | some after =>
                            have gone := start.carelessOps ownStarted careful after runs
                            rw [Option.map_some, Option.bind_some, gone.cursor]
                            · exact Option.Rel.none
                            · intro next goesOn
                              exact aheadArmed.known next (List.mem_filter.mp (List.mem_of_head? goesOn)).1

end Passes

/-! ## Calls -/

/-- A call of some thread. -/
inductive ThreadInput where
  | op (pid owner : Nat) (op : TimerOp)
  | pass (pid : Nat) (input : PassInput)

def memoryStep (memory : TimerMemory) : ThreadInput -> Option (TimerMemory × Option PassReport)
  | .op pid owner op => (callOp pid owner memory op).map fun after => (after, none)
  | .pass pid input => (timerLoop pid input memory).map fun (after, report) => (after, some report)

/-- The thread that calls. -/
def ThreadInput.pid : ThreadInput -> Nat
  | .op pid _ _ => pid
  | .pass pid _ => pid

/-- What it calls. -/
def ThreadInput.call : ThreadInput -> TimerInput
  | .op _ _ asked => .op asked
  | .pass _ input => .pass input

/-- The same with a list of timers for each thread. -/
def threadStep (threads : Nat -> TimerLoop) (input : ThreadInput) : Option ((Nat -> TimerLoop) × Option PassReport) :=
  (timerStep (threads input.pid) input.call).map fun (after, report) =>
    (Function.update threads input.pid after, report)

/-- The call is one that the structures in memory allow. -/
def carefulInput (threads : Nat -> TimerLoop) : ThreadInput -> Bool
  | .op pid owner op => allowsOp (threads pid) (owner = pid) op
  | .pass pid input =>
      !(threads pid).timers.isEmpty &&
        carefulWalk input ((threads pid).timers.map (·.id)) ⟨threads pid, ⟨input.now.sec + 1, input.now.usec⟩, []⟩

/-- The memory and the lists after a step, with what it has replied. -/
def Alike (inMemory : TimerMemory × Option PassReport) (inLists : (Nat -> TimerLoop) × Option PassReport) : Prop :=
  (∃ loops, Holds inMemory.1 inLists.1 loops) ∧ inMemory.2 = inLists.2

section Calls

variable {memory : TimerMemory} {threads : Nat -> TimerLoop} {loops : List Nat}

theorem remaining_all (timers : TimerLoop) :
    remaining timers (timers.timers.map (·.id)) = timers.timers.map (·.id) := by
  refine List.filter_eq_self.mpr fun id member => ?_
  rcases List.mem_map.mp member with ⟨timer, listed, rfl⟩
  exact findTimer_isSome_iff.mpr ⟨timer, listed, rfl⟩

/-- The walk of a pass from its beginning. -/
theorem Holds.forEachSafe (holds : Holds memory threads loops) {loop pid : Nat} (own : memory.loops loop = some pid)
    (input : PassInput) (next : Timeval) :
    Option.Rel (Shows threads pid)
      (forEachSafe (fun pass : MemoryPass => pass.memory.links) (.loopTimers loop) (visitEntry input pid)
        (memory.timersMade pid + 1) ⟨memory, next, []⟩)
      (if carefulWalk input ((threads pid).timers.map (·.id)) ⟨threads pid, next, []⟩
        then walkTimers input ((threads pid).timers.map (·.id)) ⟨threads pid, next, []⟩ else none) := by
  have valid := holds.placed.valid pid
  have during : During threads pid memory (threads pid) := ⟨loops, by rw [Function.update_eq_self]; exact holds⟩
  have known : ∀ id ∈ (threads pid).timers.map (·.id), id < (threads pid).allocated := by
    intro id member
    rcases List.mem_map.mp member with ⟨timer, listed, rfl⟩
    exact valid.known timer listed
  have all := remaining_all (threads pid)
  have ahead : Ahead (threads pid) ((threads pid).timers.map (·.id)) := ⟨known, [], by rw [all]; rfl⟩
  have few : (remaining (threads pid) ((threads pid).timers.map (·.id))).length < memory.timersMade pid + 1 := by
    rw [all, holds.placed.timersMade, Nat.lt_succ_iff]
    exact length_le_of_lt valid.distinct known
  have ring := holds.placed.timers own
  have nodes : (threads pid).timers.map (fun timer => Place.timerNode pid timer.id) =
      [] ++ (remaining (threads pid) ((threads pid).timers.map (·.id))).map (Place.timerNode pid) := by
    rw [all, List.map_map]
    rfl
  rw [nodes] at ring
  rcases readNext_ring ring with ⟨n, reads, behind⟩
  have first := ring.next_head
  rw [List.nil_append] at first
  rw [headD_cursor] at reads first
  have entry : memory.links.readNext (.loopTimers loop) =
      some (cursorOf pid loop (remaining (threads pid) ((threads pid).timers.map (·.id))).head?) := by
    rw [LinkHeap.readNext, if_pos (ring.live List.mem_cons_self), first]
  rw [LinkedLists.forEachSafe]
  simp only [Option.bind_eq_bind, entry, Option.bind_some, reads]
  refine walk_shows threads pid loop input _ memory ⟨threads pid, next, []⟩ _ n during own ahead few fun more => ?_
  rw [behind (fun none => more (List.map_eq_nil_iff.mp none)), ← List.map_tail, headD_cursor]

theorem Holds.pass (holds : Holds memory threads loops) (pid : Nat) (input : PassInput) :
    Option.Rel Alike (memoryStep memory (.pass pid input))
      (if carefulInput threads (.pass pid input) then threadStep threads (.pass pid input) else none) := by
  rcases holds.placed.findTimerLoop pid with ⟨found, finds, own⟩
  rw [memoryStep, InMemory.timerLoop, finds, carefulInput, threadStep, ThreadInput.call, timerStep, Timers.timerLoop]
  cases found with
  | none =>
      have empty : (threads pid).timers = [] := by
        by_contra some_timer
        rcases holds.placed.home pid some_timer with ⟨loop, there⟩
        cases (own loop).mpr there
      rw [empty, List.isEmpty_nil, Bool.not_true, Bool.false_and, if_neg Bool.false_ne_true]
      exact Option.Rel.none
  | some loop =>
      have home := (own loop).mp rfl
      have some_timer := holds.full loop pid home
      have walked := holds.forEachSafe home input ⟨input.now.sec + 1, input.now.usec⟩
      rw [List.isEmpty_eq_false_iff.mpr some_timer, Bool.not_false, Bool.true_and]
      simp only [Option.bind_eq_bind, Option.bind_some]
      rw [ThreadInput.pid]
      generalize @LinkedLists.forEachSafe Place MemoryPass _ _ _ _ _ _ = inMemory at walked ⊢
      generalize carefulWalk _ _ _ = careful at walked ⊢
      generalize walkTimers _ _ _ = inLists at walked ⊢
      cases careful with
      | false =>
          rw [if_neg Bool.false_ne_true] at walked ⊢
          cases walked
          exact Option.Rel.none
      | true =>
          rw [if_pos rfl] at walked ⊢
          cases walked with
          | none => exact Option.Rel.none
          | some shows_pass =>
              refine Option.Rel.some ⟨shows_pass.during.held, ?_⟩
              dsimp only
              rw [shows_pass.next, shows_pass.fired]

/-- One call. -/
theorem Holds.step (holds : Holds memory threads loops) (input : ThreadInput) :
    Option.Rel Alike (memoryStep memory input)
      (if carefulInput threads input then threadStep threads input else none) := by
  cases input with
  | pass pid input => exact holds.pass pid input
  | op pid owner op =>
      cases careful : allowsOp (threads pid) (decide (owner = pid)) op with
      | false =>
          rw [carefulInput, careful, if_neg Bool.false_ne_true, memoryStep, holds.callOp_none careful]
          exact Option.Rel.none
      | true =>
          rcases holds.callOp careful with ⟨after, others, calls, held, _⟩
          rw [carefulInput, careful, if_pos rfl, memoryStep, calls]
          have alike : Alike (after, none) (Function.update threads pid (applyOp (threads pid) op), none) :=
            ⟨⟨others, held⟩, rfl⟩
          exact Option.Rel.some alike

end Calls

/-! ## Runs -/

/-- Every thread without timers. -/
def noTimers : Nat -> TimerLoop := fun _ => ⟨[], 0⟩

theorem placed_start : Placed .start noTimers [] where
  rings := by
    constructor
    · intro head nodes listed
      cases head with
      | loops =>
          cases listed
          exact ⟨by simp, by simp, by simp [TimerMemory.start], by simp [LinkHeap.Joined, TimerMemory.start]⟩
      | _ => cases listed
    · intro head nodes other others listed alsoListed different
      cases head with
      | loops =>
          cases other with
          | loops => exact absurd rfl different
          | _ => cases alsoListed
      | _ => cases listed
  live := by
    funext place
    cases place with
    | _ => rfl
  listed := fun _ => iff_of_false List.not_mem_nil Bool.false_ne_true
  distinct := List.nodup_nil
  single := by
    intro loop other pid none
    cases none
  home := fun _ some_timer => absurd rfl some_timer
  cells := by
    intro owner id cell
    constructor
    · intro none
      cases none
    · rintro ⟨none, _⟩
      cases none
  loopsMade := fun _ none => absurd none List.not_mem_nil
  timersMade := fun _ => rfl
  valid := fun _ => ⟨List.nodup_nil, fun _ none => absurd none List.not_mem_nil⟩

theorem holds_start : Holds .start noTimers [] := by
  refine ⟨placed_start, ?_⟩
  intro loop pid none
  cases none

theorem runs_alike (inputs : List ThreadInput) :
    Option.Rel (fun last listsLast => (∃ loops, Holds last.1 listsLast.1 loops) ∧ last.2 = listsLast.2)
      (runReplies memoryStep .start inputs) (runReplies (guarded threadStep carefulInput) noTimers inputs) := by
  refine runReplies_rel (fun memory threads => ∃ loops, Holds memory threads loops) ?_ ⟨[], holds_start⟩
  rintro memory threads input ⟨loops, holds⟩
  exact holds.step input

theorem lists_of_run {inputs : List ThreadInput} {memory : TimerMemory} {reports : List (Option PassReport)}
    (runs : runReplies memoryStep .start inputs = some (memory, reports)) :
    EveryInput threadStep (fun threads input => carefulInput threads input) noTimers inputs ∧
      ∃ threads, runReplies threadStep noTimers inputs = some (threads, reports) := by
  have alike := runs_alike inputs
  rw [runs] at alike
  cases guardedRuns : runReplies (guarded threadStep carefulInput) noTimers inputs with
  | none =>
      rw [guardedRuns] at alike
      cases alike
  | some last =>
      rcases last with ⟨threads, replies⟩
      rw [guardedRuns] at alike
      cases alike with
      | some both =>
          have same : reports = replies := both.2
          have through := runReplies_guarded.mp guardedRuns
          exact ⟨through.1, threads, same ▸ through.2⟩

theorem run_of_lists {inputs : List ThreadInput} {threads : Nat -> TimerLoop} {reports : List (Option PassReport)}
    (every : EveryInput threadStep (fun threads input => carefulInput threads input) noTimers inputs)
    (runs : runReplies threadStep noTimers inputs = some (threads, reports)) :
    ∃ memory, runReplies memoryStep .start inputs = some (memory, reports) := by
  have alike := runs_alike inputs
  rw [runReplies_guarded.mpr ⟨every, runs⟩] at alike
  cases inMemory : runReplies memoryStep .start inputs with
  | none =>
      rw [inMemory] at alike
      cases alike
  | some last =>
      rcases last with ⟨memory, replies⟩
      rw [inMemory] at alike
      cases alike with
      | some both =>
          have same : replies = reports := both.2
          exact ⟨memory, by rw [same]⟩

/-- Whatever the threads call in whatever order, the module gets through in
memory exactly when every call is careful and the lists of the threads get
through, and then it reports the same. -/
theorem run_inMemory_iff (inputs : List ThreadInput) (reports : List (Option PassReport)) :
    (∃ memory, runReplies memoryStep .start inputs = some (memory, reports)) ↔
      EveryInput threadStep (fun threads input => carefulInput threads input) noTimers inputs ∧
        ∃ threads, runReplies threadStep noTimers inputs = some (threads, reports) := by
  constructor
  · rintro ⟨memory, runs⟩
    exact lists_of_run runs
  · rintro ⟨every, threads, runs⟩
    exact run_of_lists every runs

private theorem halfPast_normalised : 500000 < 1000000 := by decide

private def halfPast : Timeofday := ⟨⟨1, 500000⟩, halfPast_normalised⟩

/-- The handler of a one-shot timer destroys it and makes the next one: the
loop has been freed in between. -/
example : (runReplies memoryStep .start [.op 1 1 .new, .op 1 1 (.start 0 (some 7) 0 0 0 halfPast),
    .pass 1 ⟨halfPast, halfPast, fun id => [.destroy id, .new]⟩]).isNone := by decide +kernel

/-- With another timer in the list it may. -/
example : (runReplies memoryStep .start [.op 1 1 .new, .op 1 1 .new, .op 1 1 (.start 0 (some 7) 0 0 0 halfPast),
    .pass 1 ⟨halfPast, halfPast, fun id => [.destroy id, .new]⟩]).isSome := by decide +kernel

/-! ## One thread among others -/

/-- The calls of one thread, and what they report. -/
def ownCalls (pid : Nat) (inputs : List ThreadInput) : List TimerInput :=
  (inputs.filter (·.pid = pid)).map (·.call)

def ownReports (pid : Nat) (inputs : List ThreadInput) (reports : List (Option PassReport)) :
    List (Option PassReport) :=
  ((inputs.zip reports).filter (·.1.pid = pid)).map (·.2)

theorem threadRun_alone {inputs : List ThreadInput} (pid : Nat) :
    ∀ {threads last : Nat -> TimerLoop} {reports : List (Option PassReport)},
      runReplies threadStep threads inputs = some (last, reports) ->
        runReplies timerStep (threads pid) (ownCalls pid inputs) = some (last pid, ownReports pid inputs reports) := by
  induction inputs with
  | nil =>
      intro threads last reports runs
      cases runs
      rfl
  | cons input inputs inductionHypothesis =>
      intro threads last reports runs
      rcases Option.bind_eq_some_iff.mp runs with ⟨⟨next, reply⟩, steps, later⟩
      rcases Option.map_eq_some_iff.mp later with ⟨⟨final, rest⟩, through, pair⟩
      cases pair
      rcases Option.map_eq_some_iff.mp steps with ⟨⟨after, report⟩, calls, moved⟩
      cases moved
      have others := inductionHypothesis through
      by_cases own : input.pid = pid
      · subst own
        rw [Function.update_self] at others
        rw [ownCalls, ownReports, List.filter_cons_of_pos (by simp), List.map_cons, List.zip_cons_cons,
          List.filter_cons_of_pos (by simp), List.map_cons, runReplies, calls, Option.bind_some]
        dsimp only
        rw [ownCalls, ownReports] at others
        rw [others, Option.map_some]
      · rw [Function.update_of_ne (Ne.symm own)] at others
        rw [ownCalls, ownReports, List.filter_cons_of_neg (by simpa using own), List.zip_cons_cons,
          List.filter_cons_of_neg (by simpa using own)]
        exact others

/-- In a run that gets through, each thread is told what it would be told if it
had made its calls alone. -/
theorem run_isolates {inputs : List ThreadInput} {memory : TimerMemory} {reports : List (Option PassReport)}
    (runs : runReplies memoryStep .start inputs = some (memory, reports)) (pid : Nat) :
    ∃ timers, runReplies timerStep ⟨[], 0⟩ (ownCalls pid inputs) =
      some (timers, ownReports pid inputs reports) := by
  rcases lists_of_run runs with ⟨_, threads, through⟩
  exact ⟨threads pid, threadRun_alone pid through⟩

/-- A pass of the first thread among calls of the second. -/
private def twoThreads : List ThreadInput :=
  [.op 1 1 .new, .op 2 2 .new, .op 1 1 (.start 0 (some 7) 0 0 0 halfPast), .op 2 2 .new,
    .pass 1 ⟨halfPast, halfPast, fun id => [.stop id]⟩, .op 2 2 (.destroy 0), .op 2 2 (.destroy 1)]

theorem run_isolates_twoThreads : ∃ memory reports, runReplies memoryStep .start twoThreads = some (memory, reports) ∧
    ∃ timers, runReplies timerStep ⟨[], 0⟩ (ownCalls 1 twoThreads) =
      some (timers, ownReports 1 twoThreads reports) := by
  have through : (runReplies memoryStep .start twoThreads).isSome := by decide +kernel
  rcases Option.isSome_iff_exists.mp through with ⟨⟨memory, reports⟩, runs⟩
  exact ⟨memory, reports, runs, run_isolates runs 1⟩

end InMemory
end Timers
end Extlib
