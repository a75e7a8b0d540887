import Extlib.LinkedLists.ForEach
import Extlib.Timers.Loop

namespace Extlib
namespace Timers
namespace InMemory

open Machine Memory LinkedLists

/-!
# The timers in memory

`posix/timer.c` with its structures where they lie: the list of the loops, one
for each thread that has a timer, and in each loop the list of its timers.  Any
thread may make the next call.  A call has no result when it reads what has
been freed or an assertion fails.

The list of timers of a thread, as it is modelled by itself, is what these
structures hold for that thread, whatever the others do.  Here it is shown for
one call at a time.
-/

/-! ## Functions -/

/-- The list nodes: `_loops`, the two of each loop and the one of each timer.
A timer has as address the thread that made it and a number. -/
inductive Place where
  | loops
  | loopNode (loop : Nat)
  | loopTimers (loop : Nat)
  | timerNode (owner id : Nat)
  | poison1
  | poison2
  deriving DecidableEq, Repr

def poison : Poison Place := ⟨.poison1, .poison2⟩

/-- `struct timer`. -/
structure TimerCell extends Timer where
  loop : Nat
  deriving DecidableEq, Repr

/-- `loops` holds the `pid` of the loops that are allocated. -/
structure TimerMemory where
  links : LinkHeap Place
  loops : Nat -> Option Nat
  timers : Nat × Nat -> Option TimerCell
  loopsMade : Nat
  timersMade : Nat -> Nat

/-- Before the first call: `_loops` is initialised, and nothing is allocated. -/
def TimerMemory.start : TimerMemory where
  links := ⟨fun place => place, fun place => place, fun place => place = .loops⟩
  loops := fun _ => none
  timers := fun _ => none
  loopsMade := 0
  timersMade := fun _ => 0

/-- The loop whose `node` this is. -/
def loopEntry : Place -> Option Nat
  | .loopNode loop => some loop
  | _ => none

/-- The timer whose `node` this is. -/
def timerEntry : Place -> Option (Nat × Nat)
  | .timerNode owner id => some (owner, id)
  | _ => none

def timerLoopNew (pid : Nat) (memory : TimerMemory) : Option (TimerMemory × Nat) := do
  let loop := memory.loopsMade
  let links := malloc (.loopTimers loop) (malloc (.loopNode loop) memory.links)
  let links <- initListHead (.loopNode loop) links
  let links <- initListHead (.loopTimers loop) links
  some ({ memory with
    links := links
    loops := Function.update memory.loops loop (some pid)
    loopsMade := loop + 1 }, loop)

def timerLoopDestroy (loop : Nat) (memory : TimerMemory) : Option TimerMemory := do
  let empty <- listEmpty (.loopTimers loop) memory.links
  if ¬ empty then none
  else
    let links <- listDel poison (.loopNode loop) memory.links
    let links <- free (.loopNode loop) links
    let links <- free (.loopTimers loop) links
    some { memory with
      links := links
      loops := Function.update memory.loops loop none }

def findTimerLoop (pid : Nat) (memory : TimerMemory) : Option (Option Nat) := do
  let found <- findEntry .loops (fun place => ((loopEntry place).bind memory.loops).map fun owner => owner = pid)
    memory.links (memory.loopsMade + 1)
  some (found.bind loopEntry)

/-- The loop of the calling thread, which is made when there is none. -/
def threadLoop (pid : Nat) (memory : TimerMemory) : Option (TimerMemory × Nat) := do
  let found <- findTimerLoop pid memory
  match found with
  | some loop => some (memory, loop)
  | none =>
      let (memory, loop) <- timerLoopNew pid memory
      let links <- listAdd (.loopNode loop) .loops memory.links
      some ({ memory with links := links }, loop)

def timerNew (pid : Nat) (memory : TimerMemory) : Option TimerMemory := do
  let (memory, loop) <- threadLoop pid memory
  let id := memory.timersMade pid
  let links <- initListHead (.timerNode pid id) (malloc (.timerNode pid id) memory.links)
  let links <- listAdd (.timerNode pid id) (.loopTimers loop) links
  some { memory with
    links := links
    timers := Function.update memory.timers (pid, id) (some ⟨⟨id, none, 0, .clear, .clear⟩, loop⟩)
    timersMade := Function.update memory.timersMade pid (id + 1) }

/-- `assert(pthread_self() == timer->loop->pid)`. -/
def ownTimer (pid : Nat) (timer : Nat × Nat) (memory : TimerMemory) : Option TimerCell := do
  let cell <- memory.timers timer
  let owner <- memory.loops cell.loop
  if pid = owner then some cell else none

def timerDestroy (pid : Nat) (timer : Nat × Nat) (memory : TimerMemory) : Option TimerMemory := do
  let cell <- ownTimer pid timer memory
  let links <- listDel poison (.timerNode timer.1 timer.2) memory.links
  let empty <- listEmpty (.loopTimers cell.loop) links
  let memory := { memory with links := links }
  let memory <- if empty then timerLoopDestroy cell.loop memory else some memory
  let links <- free (.timerNode timer.1 timer.2) memory.links
  some { memory with
    links := links
    timers := Function.update memory.timers timer none }

def updateCell (timer : Nat × Nat) (cell : TimerCell) (memory : TimerMemory) : TimerMemory :=
  { memory with timers := Function.update memory.timers timer (some cell) }

def timerStart (pid : Nat) (timer : Nat × Nat) (handler : Option Nat) (arg timeout repeatMs : Nat) (now : Timeofday)
    (memory : TimerMemory) : Option TimerMemory := do
  let cell <- ownTimer pid timer memory
  some (updateCell timer
    { cell with
      handler := handler
      arg := arg
      timeout := startTimeout now.toTimeval timeout
      repeatTime := ofMilliseconds repeatMs } memory)

def timerStop (pid : Nat) (timer : Nat × Nat) (memory : TimerMemory) : Option TimerMemory := do
  let cell <- ownTimer pid timer memory
  some (updateCell timer { cell with handler := none, arg := 0, timeout := .clear, repeatTime := .clear } memory)

def timerTrigger (pid : Nat) (timer : Nat × Nat) (now : Timeofday) (memory : TimerMemory) : Option TimerMemory := do
  let cell <- ownTimer pid timer memory
  some (updateCell timer { cell with timeout := now.toTimeval } memory)

/-- A call that thread `pid` makes for a timer of thread `owner`. -/
def callOp (pid owner : Nat) (memory : TimerMemory) : TimerOp -> Option TimerMemory
  | .new => timerNew pid memory
  | .destroy id => timerDestroy pid (owner, id) memory
  | .start id handler arg timeout repeatMs now => timerStart pid (owner, id) handler arg timeout repeatMs now memory
  | .stop id => timerStop pid (owner, id) memory
  | .trigger id now => timerTrigger pid (owner, id) now memory

structure MemoryPass where
  memory : TimerMemory
  next : Timeval
  fired : List Nat

/-- The body of the loop in `timer_loop`. -/
def visitEntry (input : PassInput) (pid : Nat) (pos : Place) (pass : MemoryPass) : Option MemoryPass := do
  let timer <- timerEntry pos
  let cell <- pass.memory.timers timer
  if ¬ cell.timeout.IsSet then some pass
  else if input.now.toTimeval.Before cell.timeout then
    some { pass with next := sooner cell.timeout pass.next }
  else
    let timeout := rearm cell.toTimer input.now.toTimeval
    let next := if cell.repeatTime.IsSet then sooner timeout pass.next else pass.next
    let memory := updateCell timer { cell with timeout := timeout } pass.memory
    match cell.handler with
    | none => none
    | some _ =>
        let memory <- (input.handlers timer.2).foldlM (callOp pid pid) memory
        some ⟨memory, next, pass.fired ++ [timer.2]⟩

def timerLoop (pid : Nat) (input : PassInput) (memory : TimerMemory) : Option (TimerMemory × PassReport) := do
  let found <- findTimerLoop pid memory
  let loop <- found
  let second : Timeval := ⟨input.now.sec + 1, input.now.usec⟩
  let pass <- forEachSafe (fun pass : MemoryPass => pass.memory.links) (.loopTimers loop) (visitEntry input pid)
    (memory.timersMade pid + 1) ⟨memory, second, []⟩
  some (pass.memory, ⟨pass.fired, input.now.toTimeval, sleepTime pass.next input.later.toTimeval⟩)

/-! ## What is in memory -/

/-- The lists: the loops, and for each loop the timers of its thread. -/
def placeTable (memory : TimerMemory) (threads : Nat -> TimerLoop) (loops : List Nat) : RingTable Place
  | .loops => some (loops.map fun loop => .loopNode loop)
  | .loopTimers loop =>
      (memory.loops loop).map fun pid => (threads pid).timers.map fun timer => .timerNode pid timer.id
  | _ => none

/-- The nodes of what is allocated. -/
def placeLive (memory : TimerMemory) : Place -> Bool
  | .loops => true
  | .loopNode loop => (memory.loops loop).isSome
  | .loopTimers loop => (memory.loops loop).isSome
  | .timerNode owner id => (memory.timers (owner, id)).isSome
  | _ => false

/-- The structures hold the timers of every thread.  A thread may have a loop
without timers. -/
structure Placed (memory : TimerMemory) (threads : Nat -> TimerLoop) (loops : List Nat) : Prop where
  rings : Represents memory.links (placeTable memory threads loops)
  live : memory.links.live = placeLive memory
  listed : ∀ loop, loop ∈ loops ↔ (memory.loops loop).isSome
  distinct : loops.Nodup
  single : ∀ loop other pid, memory.loops loop = some pid -> memory.loops other = some pid -> loop = other
  home : ∀ pid, (threads pid).timers ≠ [] -> ∃ loop, memory.loops loop = some pid
  cells : ∀ owner id cell, memory.timers (owner, id) = some cell ↔
    findTimer (threads owner) id = some cell.toTimer ∧ memory.loops cell.loop = some owner
  loopsMade : ∀ loop ∈ loops, loop < memory.loopsMade
  timersMade : ∀ pid, memory.timersMade pid = (threads pid).allocated
  valid : ∀ pid, (threads pid).Valid

section Places

variable {memory : TimerMemory} {threads : Nat -> TimerLoop} {loops : List Nat}

theorem Placed.timers (placed : Placed memory threads loops) {loop pid : Nat} (own : memory.loops loop = some pid) :
    memory.links.Ring (.loopTimers loop) ((threads pid).timers.map fun timer => .timerNode pid timer.id) := by
  refine placed.rings.ring _ _ ?_
  rw [placeTable, own, Option.map_some]

/-- The search for the loop of a thread finds it. -/
theorem Placed.findTimerLoop (placed : Placed memory threads loops) (pid : Nat) :
    ∃ found, findTimerLoop pid memory = some found ∧ ∀ loop, found = some loop ↔ memory.loops loop = some pid := by
  have ring : memory.links.Ring .loops (loops.map fun loop => .loopNode loop) := placed.rings.ring _ _ rfl
  let wanted : Place -> Bool := fun place => (loopEntry place).bind memory.loops = some pid
  have decided : ∀ pos ∈ loops.map fun loop => Place.loopNode loop,
      ((loopEntry pos).bind memory.loops).map (fun owner => decide (owner = pid)) = some (wanted pos) := by
    intro pos member
    rcases List.mem_map.mp member with ⟨loop, inside, rfl⟩
    rcases Option.isSome_iff_exists.mp ((placed.listed loop).mp inside) with ⟨owner, own⟩
    simp [wanted, loopEntry, own]
  have enough : (loops.map fun loop => Place.loopNode loop).length < memory.loopsMade + 1 := by
    rw [List.length_map, Nat.lt_succ_iff]
    exact length_le_of_lt placed.distinct placed.loopsMade
  refine ⟨_, by rw [InMemory.findTimerLoop, findEntry_ring ring decided enough]; rfl, fun loop => ⟨?_, ?_⟩⟩
  · intro found
    rcases Option.bind_eq_some_iff.mp found with ⟨place, first, entry⟩
    have matched : wanted place = true := List.find?_some first
    have own := of_decide_eq_true matched
    rw [entry, Option.bind_some] at own
    exact own
  · intro own
    have inside : Place.loopNode loop ∈ loops.map fun loop => Place.loopNode loop :=
      List.mem_map.mpr ⟨loop, (placed.listed loop).mpr (Option.isSome_iff_exists.mpr ⟨pid, own⟩), rfl⟩
    have matched : wanted (.loopNode loop) = true := decide_eq_true own
    rcases Option.isSome_iff_exists.mp (List.find?_isSome.mpr ⟨_, inside, matched⟩) with ⟨place, first⟩
    rcases List.mem_map.mp (List.mem_of_find?_eq_some first) with ⟨other, _, rfl⟩
    have also : wanted (.loopNode other) = true := List.find?_some first
    rw [first, placed.single loop other pid own (of_decide_eq_true also)]
    rfl

/-- What is not allocated is in no list. -/
theorem Placed.loose (placed : Placed memory threads loops) {place : Place} (free : placeLive memory place = false) :
    (placeTable memory threads loops).Loose place := by
  by_contra listed
  have live := placed.rings.live listed
  rw [placed.live, free] at live
  cases live

/-- A new loop is in no list yet, and its own list is empty. -/
theorem timerLoopNew_links (pid : Nat) {table : RingTable Place} (rings : Represents memory.links table)
    (node : memory.links.live (.loopNode memory.loopsMade) = false)
    (timers : memory.links.live (.loopTimers memory.loopsMade) = false) :
    ∃ links, timerLoopNew pid memory = some ({ memory with
        links := links
        loops := Function.update memory.loops memory.loopsMade (some pid)
        loopsMade := memory.loopsMade + 1 }, memory.loopsMade) ∧
      Represents links (Function.update table (.loopTimers memory.loopsMade) (some [])) ∧
      RingTable.Loose (Function.update table (.loopTimers memory.loopsMade) (some [])) (.loopNode memory.loopsMade) ∧
      links.live = Function.update (Function.update memory.links.live (.loopNode memory.loopsMade) true)
        (.loopTimers memory.loopsMade) true := by
  have different : Place.loopTimers memory.loopsMade ≠ .loopNode memory.loopsMade := Place.noConfusion
  rcases malloc_represents rings node with ⟨first, looseNode⟩
  have free : (malloc (.loopNode memory.loopsMade) memory.links).live (.loopTimers memory.loopsMade) = false :=
    (live_malloc_of_ne different _).trans timers
  rcases malloc_represents first free with ⟨second, looseTimers⟩
  have both : ∀ place, place = .loopNode memory.loopsMade ∨ place = .loopTimers memory.loopsMade ->
      (malloc (.loopTimers memory.loopsMade) (malloc (.loopNode memory.loopsMade) memory.links)).live place := by
    rintro place (rfl | rfl)
    · exact (live_malloc_of_ne (Ne.symm different) _).trans (live_malloc_self _ _)
    · exact live_malloc_self _ _
  have inited := second.scribble looseNode fun other apart => LinkHeap.agrees_join
    (malloc (.loopTimers memory.loopsMade) (malloc (.loopNode memory.loopsMade) memory.links)) apart apart
  rcases initListHead_represents inited looseTimers (both _ (Or.inr rfl)) with ⟨links, inits, third, same⟩
  refine ⟨links, ?_, third, looseNode.update ?_, same⟩
  · rw [timerLoopNew]
    rw [initListHead_join (both _ (Or.inl rfl)), Option.bind_eq_bind, Option.bind_some, inits]
    rfl
  · rw [List.mem_singleton]
    exact Ne.symm different

/-- The timers stay in memory, and the loops with them; what has been freed
does not come back. -/
structure Follows (before after : TimerMemory) : Prop where
  made : before.loopsMade ≤ after.loopsMade
  gone : ∀ loop < before.loopsMade, before.loops loop = none -> after.loops loop = none

/-- The memory with one loop more. -/
def withLoop (memory : TimerMemory) (pid : Nat) (links : LinkHeap Place) : TimerMemory :=
  { memory with
    links := links
    loops := Function.update memory.loops memory.loopsMade (some pid)
    loopsMade := memory.loopsMade + 1 }

theorem Placed.fresh (placed : Placed memory threads loops) : memory.loops memory.loopsMade = none := by
  by_contra there
  have inside := (placed.listed memory.loopsMade).mpr (Option.isSome_iff_ne_none.mpr there)
  exact Nat.lt_irrefl _ (placed.loopsMade _ inside)

theorem loops_withLoop {pid loop : Nat} {links : LinkHeap Place} (older : loop ≠ memory.loopsMade) :
    (withLoop memory pid links).loops loop = memory.loops loop := Function.update_of_ne older _ _

theorem loops_withLoop_new (pid : Nat) (links : LinkHeap Place) :
    (withLoop memory pid links).loops memory.loopsMade = some pid := Function.update_self _ _ _

theorem Placed.withLoop (placed : Placed memory threads loops) {pid : Nat}
    (without : ∀ loop, memory.loops loop ≠ some pid) {links : LinkHeap Place}
    (rings : Represents links (placeTable (withLoop memory pid links) threads (memory.loopsMade :: loops)))
    (live : links.live = placeLive (withLoop memory pid links)) :
    Placed (withLoop memory pid links) threads (memory.loopsMade :: loops) := by
  have older : ∀ {loop owner}, memory.loops loop = some owner -> loop ≠ memory.loopsMade := by
    rintro loop owner there rfl
    rw [placed.fresh] at there
    cases there
  refine ⟨rings, live, ?_, ?_, ?_, ?_, ?_, ?_, placed.timersMade, placed.valid⟩
  · intro loop
    by_cases new : loop = memory.loopsMade
    · subst new
      rw [loops_withLoop_new]
      exact iff_of_true List.mem_cons_self rfl
    · rw [List.mem_cons, loops_withLoop new, ← placed.listed]
      exact or_iff_right new
  · refine List.nodup_cons.mpr ⟨?_, placed.distinct⟩
    exact fun inside => Nat.lt_irrefl _ (placed.loopsMade _ inside)
  · intro loop other owner first second
    by_cases new : loop = memory.loopsMade
    · by_cases alsoNew : other = memory.loopsMade
      · exact new.trans alsoNew.symm
      · rw [new, loops_withLoop_new, Option.some.injEq] at first
        rw [loops_withLoop alsoNew, ← first] at second
        exact absurd second (without other)
    · rw [loops_withLoop new] at first
      by_cases alsoNew : other = memory.loopsMade
      · rw [alsoNew, loops_withLoop_new, Option.some.injEq] at second
        exact absurd (second ▸ first) (without loop)
      · rw [loops_withLoop alsoNew] at second
        exact placed.single loop other owner first second
  · intro owner some_timer
    rcases placed.home owner some_timer with ⟨loop, there⟩
    exact ⟨loop, (loops_withLoop (older there)).trans there⟩
  · intro owner id cell
    rw [show (InMemory.withLoop memory pid links).timers = memory.timers from rfl, placed.cells]
    refine and_congr_right fun found => ?_
    by_cases new : cell.loop = memory.loopsMade
    · rw [new, loops_withLoop_new, placed.fresh, Option.some.injEq]
      refine iff_of_false (fun none => by cases none) ?_
      rintro rfl
      rcases placed.home pid (List.ne_nil_of_mem (findTimer_mem found).1) with ⟨loop, there⟩
      exact without loop there
    · rw [loops_withLoop new]
  · intro loop inside
    rcases List.mem_cons.mp inside with rfl | old
    · exact Nat.lt_succ_self _
    · exact Nat.lt_succ_of_lt (placed.loopsMade loop old)

/-- The calling thread gets its loop, a new one without timers if it has none. -/
theorem Placed.threadLoop (placed : Placed memory threads loops) (pid : Nat) :
    ∃ after loop others, threadLoop pid memory = some (after, loop) ∧ Placed after threads others ∧
      after.loops loop = some pid ∧ Follows memory after ∧
      (∀ loop owner, memory.loops loop = some owner -> after.loops loop = some owner) ∧
      (∀ loop owner, after.loops loop = some owner -> owner ≠ pid -> memory.loops loop = some owner) ∧
      after.timersMade = memory.timersMade := by
  rcases placed.findTimerLoop pid with ⟨found, finds, own⟩
  rw [InMemory.threadLoop, finds, Option.bind_eq_bind, Option.bind_some]
  cases found with
  | some loop =>
      refine ⟨memory, loop, loops, rfl, placed, (own loop).mp rfl, ⟨Nat.le_refl _, fun _ _ gone => gone⟩, ?_, ?_, rfl⟩
      · exact fun _ _ same => same
      · exact fun _ _ same _ => same
  | none =>
      have without : ∀ loop, memory.loops loop ≠ some pid := by
        intro loop same
        cases (own loop).mpr same
      have empty : (threads pid).timers = [] := by
        by_contra some_timer
        rcases placed.home pid some_timer with ⟨loop, same⟩
        exact without loop same
      have node : memory.links.live (.loopNode memory.loopsMade) = false := by
        rw [placed.live, placeLive, placed.fresh, Option.isSome_none]
      have timers : memory.links.live (.loopTimers memory.loopsMade) = false := by
        rw [placed.live, placeLive, placed.fresh, Option.isSome_none]
      rcases timerLoopNew_links pid placed.rings node timers with ⟨links, makes, rings, loose, live⟩
      have listed : Function.update (placeTable memory threads loops) (.loopTimers memory.loopsMade) (some []) .loops =
          some (loops.map fun loop => .loopNode loop) := Function.update_of_ne Place.noConfusion _ _
      have present : links.live (.loopNode memory.loopsMade) := by
        rw [live]
        simp
      rcases listAdd_represents rings listed loose present with ⟨after, adds, held, same⟩
      have table : Function.update (Function.update (placeTable memory threads loops) (.loopTimers memory.loopsMade)
          (some [])) .loops (some (.loopNode memory.loopsMade :: loops.map fun loop => .loopNode loop)) =
            placeTable (InMemory.withLoop memory pid after) threads (memory.loopsMade :: loops) := by
        funext place
        cases place with
        | loopTimers loop =>
            rw [Function.update_of_ne Place.noConfusion]
            by_cases new : loop = memory.loopsMade
            · rw [new, Function.update_self, placeTable, loops_withLoop_new, Option.map_some, empty]
              rfl
            · have different : Place.loopTimers loop ≠ .loopTimers memory.loopsMade := by
                rintro ⟨⟩
                exact new rfl
              rw [Function.update_of_ne different, placeTable, placeTable, loops_withLoop new]
        | loops => exact Function.update_self _ _ _
        | _ => rfl
      refine ⟨InMemory.withLoop memory pid after, memory.loopsMade, memory.loopsMade :: loops, ?_, ?_, ?_, ?_, ?_, ?_, rfl⟩
      · rw [makes]
        simp only [Option.bind_eq_bind, Option.bind_some, adds]
        rfl
      · refine placed.withLoop without (table ▸ held) ?_
        rw [same, live, placed.live]
        funext place
        cases place with
        | loopNode loop => simp [placeLive, InMemory.withLoop, Function.update_apply]; grind
        | loopTimers loop => simp [placeLive, InMemory.withLoop, Function.update_apply]; grind
        | _ => rfl
      · exact loops_withLoop_new pid after
      · refine ⟨Nat.le_succ _, fun loop made gone => ?_⟩
        rw [loops_withLoop (Nat.ne_of_lt made), gone]
      · intro loop owner there
        rw [loops_withLoop, there]
        rintro rfl
        rw [placed.fresh] at there
        cases there
      · intro loop owner there different
        by_cases new : loop = memory.loopsMade
        · rw [new, loops_withLoop_new, Option.some.injEq] at there
          exact absurd there.symm different
        · rwa [loops_withLoop new] at there

/-- The memory with one timer more. -/
def withTimer (memory : TimerMemory) (pid loop : Nat) (links : LinkHeap Place) : TimerMemory :=
  { memory with
    links := links
    timers := Function.update memory.timers (pid, memory.timersMade pid)
      (some ⟨⟨memory.timersMade pid, none, 0, .clear, .clear⟩, loop⟩)
    timersMade := Function.update memory.timersMade pid (memory.timersMade pid + 1) }

theorem timers_withTimer (pid loop : Nat) (links : LinkHeap Place) (timer : Nat × Nat) :
    (withTimer memory pid loop links).timers timer =
      if timer = (pid, memory.timersMade pid) then some ⟨⟨memory.timersMade pid, none, 0, .clear, .clear⟩, loop⟩
      else memory.timers timer := Function.update_apply _ _ _ _

theorem Placed.unused (placed : Placed memory threads loops) (pid : Nat) :
    memory.timers (pid, memory.timersMade pid) = none := by
  by_contra there
  rcases Option.ne_none_iff_exists'.mp there with ⟨cell, has⟩
  rcases findTimer_mem ((placed.cells _ _ _).mp has).1 with ⟨listed, same⟩
  have older := (placed.valid pid).known _ listed
  rw [same, placed.timersMade] at older
  exact Nat.lt_irrefl _ older

theorem findTimer_timerNew (loop : TimerLoop) (id : Nat) :
    findTimer (Timers.timerNew loop) id =
      if id = loop.allocated then some ⟨loop.allocated, none, 0, .clear, .clear⟩ else findTimer loop id := by
  rw [findTimer, Timers.timerNew]
  by_cases own : id = loop.allocated
  · rw [if_pos own, List.find?_cons_of_pos (by exact decide_eq_true own.symm)]
  · rw [if_neg own, List.find?_cons_of_neg (by simpa using Ne.symm own)]
    rfl

theorem findTimer_updateTimer (loop : TimerLoop) (id : Nat) {change : Timer -> Timer}
    (same : ∀ old : Timer, (change old).id = old.id) (other : Nat) :
    findTimer (updateTimer loop id change) other =
      if other = id then (findTimer loop other).map change else findTimer loop other := by
  have alike : (fun timer : Timer => decide (timer.id = other)) ∘
      (fun timer => if timer.id = id then change timer else timer) = fun timer => decide (timer.id = other) := by
    funext timer
    rw [Function.comp_apply]
    split
    · rw [same]
    · rfl
  rw [findTimer, updateTimer, List.find?_map, alike]
  cases found : findTimer loop other with
  | none =>
      rw [findTimer] at found
      rw [found]
      exact (ite_self none).symm
  | some timer =>
      have own := (findTimer_mem found).2
      rw [findTimer] at found
      rw [found, Option.map_some, Option.map_some, own]
      split
      · rfl
      · rfl

theorem findTimer_timerDestroy (loop : TimerLoop) (id other : Nat) :
    findTimer (Timers.timerDestroy loop id) other = if other = id then none else findTimer loop other := by
  rw [findTimer, Timers.timerDestroy, List.find?_filter]
  by_cases own : other = id
  · rw [if_pos own, List.find?_eq_none]
    intro timer _
    simp [own]
  · rw [if_neg own, findTimer]
    congr 1
    funext timer
    by_cases here : timer.id = other
    · simp [here, own]
    · simp [here]

theorem Placed.withTimer (placed : Placed memory threads loops) {pid loop : Nat}
    (own : memory.loops loop = some pid) {links : LinkHeap Place}
    (rings : Represents links
      (placeTable memory (Function.update threads pid (Timers.timerNew (threads pid))) loops))
    (live : links.live = placeLive (withTimer memory pid loop links)) :
    Placed (withTimer memory pid loop links) (Function.update threads pid (Timers.timerNew (threads pid))) loops := by
  have made := placed.timersMade pid
  refine ⟨rings, live, placed.listed, placed.distinct, placed.single, ?_, ?_, placed.loopsMade, ?_, ?_⟩
  · intro owner some_timer
    by_cases here : owner = pid
    · exact ⟨loop, here ▸ own⟩
    · rw [Function.update_of_ne here] at some_timer
      exact placed.home owner some_timer
  · intro owner id cell
    rw [timers_withTimer]
    by_cases here : owner = pid
    · subst here
      rw [Function.update_self, findTimer_timerNew, ← made]
      by_cases new : id = memory.timersMade owner
      · rw [new, if_pos rfl, if_pos rfl, Option.some.injEq, Option.some.injEq]
        constructor
        · rintro rfl
          exact ⟨rfl, own⟩
        · rintro ⟨same, home⟩
          have alike := placed.single _ _ _ own home
          rcases cell with ⟨timer, home⟩
          rw [same, alike]
      · have different : (owner, id) ≠ (owner, memory.timersMade owner) := fun same => new (Prod.mk.inj same).2
        rw [if_neg different, if_neg new, placed.cells]
        exact Iff.rfl
    · have different : (owner, id) ≠ (pid, memory.timersMade pid) := fun same => here (Prod.mk.inj same).1
      rw [if_neg different, Function.update_of_ne here, placed.cells]
      exact Iff.rfl
  · intro owner
    by_cases here : owner = pid
    · subst here
      rw [Function.update_self]
      exact (Function.update_self _ _ _).trans (congrArg (· + 1) made)
    · rw [Function.update_of_ne here, ← placed.timersMade owner]
      exact Function.update_of_ne here _ _
  · intro owner
    by_cases here : owner = pid
    · subst here
      rw [Function.update_self]
      exact (placed.valid owner).applyOp .new
    · rw [Function.update_of_ne here]
      exact placed.valid owner

/-- What a thread's list in memory becomes when its timers change. -/
theorem placeTable_update (placed : Placed memory threads loops) {pid loop : Nat} (own : memory.loops loop = some pid)
    (timers : TimerLoop) :
    placeTable memory (Function.update threads pid timers) loops =
      Function.update (placeTable memory threads loops) (.loopTimers loop)
        (some (timers.timers.map fun timer => .timerNode pid timer.id)) := by
  funext place
  cases place with
  | loopTimers other =>
      by_cases here : other = loop
      · rw [here, Function.update_self, placeTable, own, Option.map_some, Function.update_self]
      · have different : Place.loopTimers other ≠ .loopTimers loop := by
          rintro ⟨⟩
          exact here rfl
        rw [Function.update_of_ne different, placeTable, placeTable]
        cases there : memory.loops other with
        | none => rfl
        | some owner =>
            have apart : owner ≠ pid := fun same => here (placed.single _ _ _ there (same ▸ own))
            rw [Option.map_some, Option.map_some, Function.update_of_ne apart]
  | _ => rfl

/-- The structures hold the timers of every thread, and every loop has some. -/
structure Holds (memory : TimerMemory) (threads : Nat -> TimerLoop) (loops : List Nat) : Prop where
  placed : Placed memory threads loops
  full : ∀ loop pid, memory.loops loop = some pid -> (threads pid).timers ≠ []

/-- What a call of a thread does to the loops: its own is freed when it has no
timers any more. -/
structure Moves (pid : Nat) (before after : TimerMemory) (timers : TimerLoop) : Prop where
  follows : Follows before after
  kept : timers.timers ≠ [] -> ∀ loop owner, before.loops loop = some owner -> after.loops loop = some owner
  freed : timers.timers = [] -> ∀ loop, before.loops loop = some pid -> after.loops loop = none

theorem Holds.timerNew (holds : Holds memory threads loops) (pid : Nat) :
    ∃ after others, timerNew pid memory = some after ∧
      Holds after (Function.update threads pid (Timers.timerNew (threads pid))) others ∧
      Moves pid memory after (Timers.timerNew (threads pid)) := by
  rcases holds.placed.threadLoop pid with ⟨middle, loop, others, finds, placed, own, follows, kept, old, made⟩
  have unused : placeLive middle (.timerNode pid (middle.timersMade pid)) = false := by
    rw [placeLive, placed.unused, Option.isSome_none]
  have free : middle.links.live (.timerNode pid (middle.timersMade pid)) = false := by rw [placed.live, unused]
  rcases malloc_represents placed.rings free with ⟨rings, loose⟩
  have listed : placeTable middle threads others (.loopTimers loop) =
      some ((threads pid).timers.map fun timer => .timerNode pid timer.id) := by
    rw [placeTable, own, Option.map_some]
  rcases initAndAdd_represents rings listed loose (live_malloc_self _ _) with ⟨links, adds, held, same⟩
  refine ⟨withTimer middle pid loop links, others, ?_, ⟨placed.withTimer own ?_ ?_, ?_⟩, ⟨⟨follows.made, follows.gone⟩, fun _ => kept, ?_⟩⟩
  · rcases Option.bind_eq_some_iff.mp adds with ⟨inited, inits, puts⟩
    rw [InMemory.timerNew, finds]
    simp only [Option.bind_eq_bind, Option.bind_some, inits, puts]
    rfl
  · rw [placeTable_update placed own, Timers.timerNew, List.map_cons, ← placed.timersMade]
    exact held
  · rw [same]
    funext place
    by_cases new : place = .timerNode pid (middle.timersMade pid)
    · rw [new, live_malloc_self, placeLive, timers_withTimer, if_pos rfl, Option.isSome_some]
    · rw [live_malloc_of_ne new, placed.live]
      cases place with
      | timerNode owner id =>
          have here : (owner, id) ≠ (pid, middle.timersMade pid) := by
            rintro ⟨⟩
            exact new rfl
          rw [placeLive, placeLive, timers_withTimer, if_neg here]
      | _ => rfl
  · intro other owner there
    by_cases here : owner = pid
    · rw [here, Function.update_self]
      exact List.cons_ne_nil _ _
    · rw [Function.update_of_ne here]
      exact holds.full other owner (old other owner there here)
  · exact fun none => absurd none (List.cons_ne_nil _ _)

/-- What the call finds when the timer is one of the calling thread. -/
theorem Holds.ownTimer (holds : Holds memory threads loops) {pid id : Nat} {timer : Timer}
    (found : findTimer (threads pid) id = some timer) :
    ∃ loop, ownTimer pid (pid, id) memory = some ⟨timer, loop⟩ ∧ memory.loops loop = some pid ∧
      memory.timers (pid, id) = some ⟨timer, loop⟩ := by
  rcases holds.placed.home pid (List.ne_nil_of_mem (findTimer_mem found).1) with ⟨loop, own⟩
  have cell := (holds.placed.cells pid id ⟨timer, loop⟩).mpr ⟨found, own⟩
  refine ⟨loop, ?_, own, cell⟩
  rw [InMemory.ownTimer, cell]
  simp only [Option.bind_eq_bind, Option.bind_some, own, if_true]

/-- A call for a timer that is not there, or that another thread made. -/
theorem Holds.ownTimer_none (holds : Holds memory threads loops) {pid owner id : Nat}
    (none : ¬ (owner = pid ∧ (findTimer (threads pid) id).isSome)) : InMemory.ownTimer pid (owner, id) memory = .none := by
  rw [InMemory.ownTimer]
  cases there : memory.timers (owner, id) with
  | none => rfl
  | some cell =>
      rcases (holds.placed.cells owner id cell).mp there with ⟨found, home⟩
      simp only [Option.bind_eq_bind, Option.bind_some, home]
      refine if_neg fun same => none ⟨same.symm, ?_⟩
      rw [same, found]
      rfl

/-- One timer is changed where it lies. -/
theorem Holds.updateCell (holds : Holds memory threads loops) {pid id loop : Nat} {timer : Timer}
    (found : findTimer (threads pid) id = some timer) (own : memory.loops loop = some pid) (change : Timer -> Timer)
    (same : ∀ old : Timer, (change old).id = old.id) :
    Holds (updateCell (pid, id) ⟨change timer, loop⟩ memory)
      (Function.update threads pid (updateTimer (threads pid) id change)) loops := by
  have placed := holds.placed
  have ids : (updateTimer (threads pid) id change).timers.map (fun timer => Place.timerNode pid timer.id) =
      (threads pid).timers.map fun timer => .timerNode pid timer.id := by
    have kept := congrArg (List.map (Place.timerNode pid)) (@ids_updateTimer (threads pid) id _ same)
    rwa [List.map_map, List.map_map] at kept
  have empty : ∀ owner, (Function.update threads pid (updateTimer (threads pid) id change) owner).timers = [] ↔
      (threads owner).timers = [] := by
    intro owner
    by_cases here : owner = pid
    · rw [here, Function.update_self, updateTimer, List.map_eq_nil_iff]
    · rw [Function.update_of_ne here]
  have there : memory.timers (pid, id) = some ⟨timer, loop⟩ := (placed.cells pid id _).mpr ⟨found, own⟩
  have cellsAfter : ∀ other, (InMemory.updateCell (pid, id) ⟨change timer, loop⟩ memory).timers other =
      if other = (pid, id) then some ⟨change timer, loop⟩ else memory.timers other :=
    fun other => Function.update_apply _ _ _ _
  refine ⟨⟨?_, ?_, placed.listed, placed.distinct, placed.single, ?_, ?_, placed.loopsMade, ?_, ?_⟩, ?_⟩
  · have table : placeTable (InMemory.updateCell (pid, id) ⟨change timer, loop⟩ memory)
        (Function.update threads pid (updateTimer (threads pid) id change)) loops = placeTable memory threads loops := by
      refine (placeTable_update placed own _).trans ?_
      rw [ids]
      refine Function.update_eq_self_iff.mpr ?_
      rw [placeTable, own, Option.map_some]
    rw [table]
    exact placed.rings
  · refine placed.live.trans (funext fun place => ?_)
    cases place with
    | timerNode owner other =>
        rw [placeLive, placeLive, cellsAfter]
        split
        case isTrue here => rw [here, there]; rfl
        case isFalse => rfl
    | _ => rfl
  · intro owner some_timer
    exact placed.home owner fun none => some_timer ((empty owner).mpr none)
  · intro owner other cell
    rw [cellsAfter]
    by_cases here : (owner, other) = (pid, id)
    · cases here
      rw [if_pos rfl, Function.update_self, findTimer_updateTimer _ _ same, if_pos rfl, found, Option.map_some,
        Option.some.injEq, Option.some.injEq]
      constructor
      · rintro rfl
        exact ⟨rfl, own⟩
      · rintro ⟨alike, home⟩
        rcases cell with ⟨changed, place⟩
        cases alike
        rw [placed.single _ _ _ own home]
    · rw [if_neg here, placed.cells]
      by_cases mine : owner = pid
      · have different : other ≠ id := fun alike => here (by rw [mine, alike])
        rw [mine, Function.update_self, findTimer_updateTimer _ _ same, if_neg different]
        exact Iff.rfl
      · rw [Function.update_of_ne mine]
        exact Iff.rfl
  · intro owner
    refine (placed.timersMade owner).trans ?_
    by_cases here : owner = pid
    · rw [here, Function.update_self]
      rfl
    · rw [Function.update_of_ne here]
  · intro owner
    by_cases here : owner = pid
    · rw [here, Function.update_self]
      exact (placed.valid pid).update id same
    · rw [Function.update_of_ne here]
      exact placed.valid owner
  · intro other owner home
    rw [ne_eq, empty owner]
    exact holds.full other owner home

/-- The timers of a thread without one of them. -/
theorem placeTable_detach (placed : Placed memory threads loops) (pid id : Nat) :
    (placeTable memory threads loops).detach (.timerNode pid id) =
      placeTable memory (Function.update threads pid (Timers.timerDestroy (threads pid) id)) loops := by
  funext place
  cases place with
  | loops =>
      rw [RingTable.detach, if_neg Place.noConfusion, placeTable, Option.map_some, List.erase_of_not_mem]
      · rfl
      · simp
  | loopTimers loop =>
      rw [RingTable.detach, if_neg Place.noConfusion, placeTable, placeTable]
      cases own : memory.loops loop with
      | none => rfl
      | some owner =>
          have ring := placed.timers own
          rw [Option.map_some, Option.map_some, Option.map_some, (List.nodup_cons.mp ring.distinct).2.erase_eq_filter,
            List.filter_map]
          by_cases here : owner = pid
          · subst here
            rw [Function.update_self, Timers.timerDestroy]
            congr 2
            apply List.filter_congr
            intro timer _
            rw [Function.comp_apply, Bool.eq_iff_iff, bne_iff_ne]
            simp
          · rw [Function.update_of_ne here, List.filter_eq_self.mpr]
            intro timer _
            simp [here]
  | _ => simp [RingTable.detach, placeTable]

/-- The memory with one timer less. -/
def withoutTimer (memory : TimerMemory) (timer : Nat × Nat) (links : LinkHeap Place) : TimerMemory :=
  { memory with
    links := links
    timers := Function.update memory.timers timer none }

/-- The memory with one loop less. -/
def withoutLoop (memory : TimerMemory) (loop : Nat) (links : LinkHeap Place) : TimerMemory :=
  { memory with
    links := links
    loops := Function.update memory.loops loop none }

theorem loops_withoutLoop (loop other : Nat) (links : LinkHeap Place) :
    (withoutLoop memory loop links).loops other = if other = loop then none else memory.loops other :=
  Function.update_apply _ _ _ _

theorem timers_withoutTimer (timer other : Nat × Nat) (links : LinkHeap Place) :
    (withoutTimer memory timer links).timers other = if other = timer then none else memory.timers other :=
  Function.update_apply _ _ _ _

/-- The loop and its nodes are freed when its list is empty. -/
theorem timerLoopDestroy_links {table : RingTable Place} (rings : Represents memory.links table) {loop : Nat}
    (empty : table (.loopTimers loop) = some []) (linked : table.Linked (.loopNode loop)) :
    ∃ links, timerLoopDestroy loop memory = some (withoutLoop memory loop links) ∧
      Represents links ((table.detach (.loopNode loop)).detach (.loopTimers loop)) ∧
      links.live = Function.update (Function.update memory.links.live (.loopNode loop) false) (.loopTimers loop) false := by
  have different : Place.loopTimers loop ≠ .loopNode loop := Place.noConfusion
  have question := listEmpty_ring (rings.ring _ _ empty)
  rcases listDel_represents rings poison (Or.inl linked) with ⟨deleted, deletes, first, same⟩
  have looseNode := rings.loose_detach (.loopNode loop)
  have alone : table.detach (.loopNode loop) (.loopTimers loop) = some [] := by
    rw [RingTable.detach, if_neg different, empty]
    rfl
  have liveNode : deleted.live (.loopNode loop) := by
    rw [same]
    exact rings.live (rings.neighbours (Or.inl linked)).1
  rcases free_represents first looseNode liveNode with ⟨freed, frees, second, sameFreed⟩
  have liveTimers : freed.live (.loopTimers loop) := by
    rw [sameFreed, Function.update_of_ne different, same]
    exact (rings.ring _ _ empty).live List.mem_cons_self
  have third : Represents freed ((table.detach (.loopNode loop)).detach (.loopTimers loop)) := by
    rw [second.detach_alone alone]
    exact second.forget _
  rcases free_represents third (second.loose_detach _) liveTimers with ⟨links, freesTimers, fourth, sameLinks⟩
  refine ⟨links, ?_, fourth, by rw [sameLinks, sameFreed, same]⟩
  rw [timerLoopDestroy, question]
  simp only [Option.bind_eq_bind, Option.bind_some, List.isEmpty_nil, not_true_eq_false, if_false, deletes, frees,
    freesTimers]
  rfl

/-- The list of the loops without one that has no timers. -/
theorem placeTable_detachLoop (loop : Nat) (links : LinkHeap Place) :
    ((placeTable memory threads loops).detach (.loopNode loop)).detach (.loopTimers loop) =
      placeTable (withoutLoop memory loop links) threads (loops.erase loop) := by
  funext place
  cases place with
  | loops =>
      have erases : (loops.map Place.loopNode).erase (.loopNode loop) = (loops.erase loop).map Place.loopNode :=
        (List.map_erase (fun _ _ same => Place.loopNode.inj same) loops).symm
      rw [RingTable.detach, if_neg Place.noConfusion, RingTable.detach, if_neg Place.noConfusion, placeTable,
        Option.map_some, Option.map_some, erases, List.erase_of_not_mem]
      · rfl
      · simp
  | loopTimers other =>
      rw [RingTable.detach, placeTable, loops_withoutLoop]
      by_cases here : other = loop
      · rw [if_pos (congrArg _ here), if_pos here]
        rfl
      · have different : Place.loopTimers other ≠ .loopTimers loop := fun same => here (Place.loopTimers.inj same)
        rw [if_neg different, if_neg here, RingTable.detach, if_neg Place.noConfusion, placeTable]
        cases there : memory.loops other with
        | none => rfl
        | some owner =>
            rw [Option.map_some, Option.map_some, Option.map_some, List.erase_of_not_mem, List.erase_of_not_mem]
            · simp
            · rw [List.erase_of_not_mem]
              · simp
              · simp
  | _ => simp [RingTable.detach, placeTable]

/-- The timers that remain, with the loop as it was. -/
theorem Placed.withoutTimer (placed : Placed memory threads loops) {pid id : Nat} {links : LinkHeap Place}
    (rings : Represents links
      (placeTable memory (Function.update threads pid (Timers.timerDestroy (threads pid) id)) loops))
    (live : links.live = Function.update memory.links.live (.timerNode pid id) false) :
    Placed (withoutTimer memory (pid, id) links)
      (Function.update threads pid (Timers.timerDestroy (threads pid) id)) loops := by
  refine ⟨rings, ?_, placed.listed, placed.distinct, placed.single, ?_, ?_, placed.loopsMade, ?_, ?_⟩
  · refine live.trans ?_
    rw [placed.live]
    funext place
    by_cases here : place = .timerNode pid id
    · rw [here, Function.update_self, placeLive, timers_withoutTimer, if_pos rfl, Option.isSome_none]
    · rw [Function.update_of_ne here]
      cases place with
      | timerNode owner other =>
          have different : (owner, other) ≠ (pid, id) := by
            rintro ⟨⟩
            exact here rfl
          rw [placeLive, placeLive, timers_withoutTimer, if_neg different]
      | _ => rfl
  · intro owner some_timer
    refine placed.home owner ?_
    by_cases here : owner = pid
    · subst here
      rw [Function.update_self, Timers.timerDestroy] at some_timer
      exact fun none => some_timer (by rw [none]; rfl)
    · rwa [Function.update_of_ne here] at some_timer
  · intro owner other cell
    rw [timers_withoutTimer]
    by_cases here : owner = pid
    · subst here
      rw [Function.update_self, findTimer_timerDestroy]
      by_cases same : other = id
      · rw [same, if_pos rfl, if_pos rfl]
        exact iff_of_false (fun none => by cases none) fun none => by cases none.1
      · have different : (owner, other) ≠ (owner, id) := fun alike => same (Prod.mk.inj alike).2
        rw [if_neg different, if_neg same, placed.cells]
        exact Iff.rfl
    · have different : (owner, other) ≠ (pid, id) := fun alike => here (Prod.mk.inj alike).1
      rw [if_neg different, Function.update_of_ne here, placed.cells]
      exact Iff.rfl
  · intro owner
    refine (placed.timersMade owner).trans ?_
    by_cases here : owner = pid
    · rw [here, Function.update_self]
      rfl
    · rw [Function.update_of_ne here]
  · intro owner
    by_cases here : owner = pid
    · rw [here, Function.update_self]
      exact (placed.valid pid).applyOp (.destroy id)
    · rw [Function.update_of_ne here]
      exact placed.valid owner

/-- A loop without timers is taken away. -/
theorem Placed.withoutLoop (placed : Placed memory threads loops) {loop pid : Nat} (own : memory.loops loop = some pid)
    (empty : (threads pid).timers = []) {links : LinkHeap Place}
    (rings : Represents links (placeTable (withoutLoop memory loop links) threads (loops.erase loop)))
    (live : links.live =
      Function.update (Function.update memory.links.live (.loopNode loop) false) (.loopTimers loop) false) :
    Placed (withoutLoop memory loop links) threads (loops.erase loop) := by
  refine ⟨rings, ?_, ?_, placed.distinct.erase loop, ?_, ?_, ?_, ?_, placed.timersMade, placed.valid⟩
  · refine live.trans ?_
    rw [placed.live]
    funext place
    cases place with
    | loopNode other =>
        rw [Function.update_of_ne Place.noConfusion, placeLive, loops_withoutLoop]
        by_cases here : other = loop
        · rw [here, Function.update_self, if_pos rfl, Option.isSome_none]
        · rw [Function.update_of_ne (fun same => here (Place.loopNode.inj same)), if_neg here, placeLive]
    | loopTimers other =>
        rw [placeLive, loops_withoutLoop]
        by_cases here : other = loop
        · rw [here, Function.update_self, if_pos rfl, Option.isSome_none]
        · rw [Function.update_of_ne (fun same => here (Place.loopTimers.inj same)), if_neg here,
            Function.update_of_ne Place.noConfusion, placeLive]
    | _ => rfl
  · intro other
    rw [placed.distinct.mem_erase_iff, placed.listed, loops_withoutLoop]
    by_cases here : other = loop
    · rw [if_pos here]
      exact iff_of_false (fun both => both.1 here) (by simp)
    · rw [if_neg here]
      exact and_iff_right here
  · intro first second owner left right
    rw [loops_withoutLoop] at left right
    split at left
    case isTrue => cases left
    case isFalse =>
      split at right
      case isTrue => cases right
      case isFalse => exact placed.single first second owner left right
  · intro owner some_timer
    rcases placed.home owner some_timer with ⟨other, there⟩
    refine ⟨other, ?_⟩
    rw [loops_withoutLoop, if_neg, there]
    rintro rfl
    rw [own, Option.some.injEq] at there
    exact some_timer (there ▸ empty)
  · intro owner id cell
    rw [show (InMemory.withoutLoop memory loop links).timers = memory.timers from rfl, placed.cells, loops_withoutLoop]
    refine and_congr_right fun found => ?_
    by_cases here : cell.loop = loop
    · rw [if_pos here, here, own, Option.some.injEq]
      refine iff_of_false ?_ (fun none => by cases none)
      rintro rfl
      exact List.ne_nil_of_mem (findTimer_mem found).1 empty
    · rw [if_neg here]
  · exact fun other inside => placed.loopsMade other (List.mem_of_mem_erase inside)

/-- A timer is taken out and freed, and with the last one of a thread its loop. -/
theorem Holds.timerDestroy (holds : Holds memory threads loops) {pid id : Nat} {timer : Timer}
    (found : findTimer (threads pid) id = some timer) :
    ∃ after others, timerDestroy pid (pid, id) memory = some after ∧
      Holds after (Function.update threads pid (Timers.timerDestroy (threads pid) id)) others ∧
      Moves pid memory after (Timers.timerDestroy (threads pid) id) := by
  have placed := holds.placed
  rcases holds.ownTimer found with ⟨loop, finds, own, cell⟩
  have table := placeTable_detach placed pid id
  have linked : (placeTable memory threads loops).Linked (.timerNode pid id) := by
    rcases findTimer_mem found with ⟨listed, same⟩
    refine ⟨.loopTimers loop, _, by rw [placeTable, own, Option.map_some], ?_⟩
    exact List.mem_map.mpr ⟨timer, listed, by rw [same]⟩
  rcases listDel_represents placed.rings poison (Or.inl linked) with ⟨deleted, deletes, rings, same⟩
  have loose := placed.rings.loose_detach (.timerNode pid id)
  rw [table] at rings loose
  have live : deleted.live (.timerNode pid id) := by
    rw [same]
    exact placed.rings.live (placed.rings.neighbours (Or.inl linked)).1
  rcases free_represents rings loose live with ⟨freed, frees, freedRings, freedSame⟩
  have remaining := placed.withoutTimer freedRings (freedSame.trans (by rw [same]))
  have listed : placeTable memory (Function.update threads pid (Timers.timerDestroy (threads pid) id)) loops
      (.loopTimers loop) = some ((Timers.timerDestroy (threads pid) id).timers.map fun timer => .timerNode pid timer.id) := by
    rw [placeTable, own, Option.map_some, Function.update_self]
  have question := listEmpty_ring (rings.ring _ _ listed)
  by_cases empty : (Timers.timerDestroy (threads pid) id).timers = []
  case neg =>
    have more : ((Timers.timerDestroy (threads pid) id).timers.map fun timer => Place.timerNode pid timer.id).isEmpty =
        false := by
      rw [List.isEmpty_map, List.isEmpty_eq_false_iff]
      exact empty
    refine ⟨InMemory.withoutTimer memory (pid, id) freed, loops, ?_, ⟨remaining, ?_⟩,
      ⟨⟨Nat.le_refl _, fun _ _ gone => gone⟩, fun _ _ _ there => there, fun none => absurd none empty⟩⟩
    · rw [InMemory.timerDestroy, finds]
      simp only [Option.bind_eq_bind, Option.bind_some, deletes, question, more, Bool.false_eq_true, if_false, frees]
      rfl
    · intro other owner there
      by_cases here : owner = pid
      · rw [here, Function.update_self]
        exact empty
      · rw [Function.update_of_ne here]
        exact holds.full other owner there
  case pos =>
    have none : (Timers.timerDestroy (threads pid) id).timers.map (fun timer => Place.timerNode pid timer.id) = [] := by
      rw [empty, List.map_nil]
    rw [none] at listed question
    have inside : (placeTable memory (Function.update threads pid (Timers.timerDestroy (threads pid) id)) loops).Linked
        (.loopNode loop) :=
      ⟨.loops, _, rfl, List.mem_map.mpr ⟨loop, (placed.listed loop).mpr (by rw [own]; rfl), rfl⟩⟩
    let middle : TimerMemory := { memory with links := deleted }
    have destroys := @timerLoopDestroy_links middle _ rings _ listed inside
    rcases destroys with ⟨links, destroys, linksRings, linksSame⟩
    have different : Place.timerNode pid id ≠ .loopNode loop ∧ Place.timerNode pid id ≠ .loopTimers loop :=
      ⟨Place.noConfusion, Place.noConfusion⟩
    have stillLive : links.live (.timerNode pid id) := by
      rw [linksSame, Function.update_of_ne different.2, Function.update_of_ne different.1]
      exact live
    rcases free_represents linksRings ((loose.detach _).detach _) stillLive with ⟨last, lastFrees, lastRings, lastSame⟩
    have holdsNone : (Function.update threads pid (Timers.timerDestroy (threads pid) id) pid).timers = [] := by
      rw [Function.update_self, empty]
    refine ⟨InMemory.withoutLoop (InMemory.withoutTimer memory (pid, id) freed) loop last, loops.erase loop, ?_,
      ⟨remaining.withoutLoop own holdsNone ?_ ?_, ?_⟩, ⟨⟨Nat.le_refl _, ?_⟩, fun some_timer => absurd empty some_timer, ?_⟩⟩
    · rw [InMemory.timerDestroy, finds]
      simp only [Option.bind_eq_bind, Option.bind_some, deletes, question, List.isEmpty_nil, if_true]
      rw [destroys, Option.bind_some, show (InMemory.withoutLoop middle loop links).links = links from rfl, lastFrees]
      rfl
    · rw [placeTable_detachLoop loop last] at lastRings
      exact lastRings
    · refine lastSame.trans ?_
      rw [linksSame, show (InMemory.withoutTimer memory (pid, id) freed).links.live = freed.live from rfl, freedSame,
        Function.update_comm different.2.symm, Function.update_comm different.1.symm]
    · intro other owner there
      rw [loops_withoutLoop] at there
      split at there
      case isTrue => cases there
      case isFalse here =>
        have apart : owner ≠ pid := by
          rintro rfl
          exact here (placed.single _ _ _ there own)
        rw [Function.update_of_ne apart]
        exact holds.full other owner there
    · intro other _ gone
      rw [loops_withoutLoop]
      split
      · rfl
      · exact gone
    · intro _ other there
      rw [loops_withoutLoop, if_pos (placed.single _ _ _ there own)]

/-- The call is for a timer that the thread has. -/
def allowsOp (timers : TimerLoop) (own : Bool) : TimerOp -> Bool
  | .new => true
  | .destroy id => own && (findTimer timers id).isSome
  | .start id .. => own && (findTimer timers id).isSome
  | .stop id => own && (findTimer timers id).isSome
  | .trigger id _ => own && (findTimer timers id).isSome

/-- A change of one timer moves no loop. -/
theorem moves_updateCell {pid id : Nat} {timer : Timer}
    (found : findTimer (threads pid) id = some timer) (cell : TimerCell) (change : Timer -> Timer) :
    Moves pid memory (InMemory.updateCell (pid, id) cell memory) (updateTimer (threads pid) id change) where
  follows := ⟨Nat.le_refl _, fun _ _ gone => gone⟩
  kept := fun _ _ _ there => there
  freed := by
    intro none
    rw [updateTimer, List.map_eq_nil_iff] at none
    exact absurd none (List.ne_nil_of_mem (findTimer_mem found).1)

/-- A call that is allowed does to the memory what it does to the list. -/
theorem Holds.callOp (holds : Holds memory threads loops) {pid owner : Nat} {op : TimerOp}
    (allows : allowsOp (threads pid) (owner = pid) op) :
    ∃ after others, callOp pid owner memory op = some after ∧
      Holds after (Function.update threads pid (applyOp (threads pid) op)) others ∧
      Moves pid memory after (applyOp (threads pid) op) := by
  have own : ∀ {id : Nat}, (decide (owner = pid) && (findTimer (threads pid) id).isSome) = true ->
      owner = pid ∧ ∃ timer, findTimer (threads pid) id = some timer := by
    intro id both
    rw [Bool.and_eq_true, decide_eq_true_iff] at both
    exact ⟨both.1, Option.isSome_iff_exists.mp both.2⟩
  cases op with
  | new => exact holds.timerNew pid
  | destroy id =>
      rcases own allows with ⟨rfl, timer, found⟩
      exact holds.timerDestroy found
  | start id handler arg timeout repeatMs now =>
      rcases own allows with ⟨rfl, timer, found⟩
      rcases holds.ownTimer found with ⟨loop, finds, home, _⟩
      refine ⟨_, loops, ?_, holds.updateCell found home _ (fun _ => rfl), moves_updateCell found _ _⟩
      rw [InMemory.callOp, InMemory.timerStart, finds]
      rfl
  | stop id =>
      rcases own allows with ⟨rfl, timer, found⟩
      rcases holds.ownTimer found with ⟨loop, finds, home, _⟩
      refine ⟨_, loops, ?_, holds.updateCell found home _ (fun _ => rfl), moves_updateCell found _ _⟩
      rw [InMemory.callOp, InMemory.timerStop, finds]
      rfl
  | trigger id now =>
      rcases own allows with ⟨rfl, timer, found⟩
      rcases holds.ownTimer found with ⟨loop, finds, home, _⟩
      refine ⟨_, loops, ?_, holds.updateCell found home _ (fun _ => rfl), moves_updateCell found _ _⟩
      rw [InMemory.callOp, InMemory.timerTrigger, finds]
      rfl

/-- No other call gets through. -/
theorem Holds.callOp_none (holds : Holds memory threads loops) {pid owner : Nat} {op : TimerOp}
    (forbidden : allowsOp (threads pid) (owner = pid) op = false) : InMemory.callOp pid owner memory op = none := by
  have none : ∀ {id : Nat}, (decide (owner = pid) && (findTimer (threads pid) id).isSome) = false ->
      InMemory.ownTimer pid (owner, id) memory = .none := by
    intro id neither
    refine holds.ownTimer_none ?_
    rintro ⟨own, there⟩
    rw [decide_eq_true own, there] at neither
    cases neither
  cases op with
  | new => cases forbidden
  | destroy id => rw [InMemory.callOp, InMemory.timerDestroy, none forbidden]; rfl
  | start id handler arg timeout repeatMs now => rw [InMemory.callOp, InMemory.timerStart, none forbidden]; rfl
  | stop id => rw [InMemory.callOp, InMemory.timerStop, none forbidden]; rfl
  | trigger id now => rw [InMemory.callOp, InMemory.timerTrigger, none forbidden]; rfl

end Places

end InMemory
end Timers
end Extlib
