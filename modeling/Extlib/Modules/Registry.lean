import Extlib.Machine.Loop
import Extlib.Text.CString

namespace Extlib
namespace Modules

open Text Machine

/-!
# Loaded modules

`posix/module.c` keeps the loaded modules in a list, the latest in front.  A
module is code: its `__module_init` and `__module_exit` may call the functions
of this file again, while the call that runs them is not over.  What the
dynamic linker answers and what the code of a module calls is a tree, and a
run may be any such tree.
-/

def moduleErrmsgSize : Nat := 512

inductive ModuleError where
  | ereload
  | eopen
  | esym
  | einit
  deriving DecidableEq, Repr

/-- `node` tells apart two modules that were allocated one after the other. -/
structure Module where
  filepath : CString
  filename : CString
  name : CString
  param : Option CString
  aliasName : Option CString
  desc : Option CString
  version : Int
  handle : Nat
  node : Nat
  deriving DecidableEq, Repr

/-- What is asked of the dynamic linker, and the code of a module entered. -/
inductive Event where
  | dlopen (handle : Nat)
  | dlclose (handle : Nat)
  | init (node : Nat)
  | exit (node : Nat)
  deriving DecidableEq, Repr

/-- The static variables of the file.  `nodes` counts the allocations. -/
structure Registry where
  modules : List Module
  err : ModuleError
  errmsg : CString
  nodes : Nat
  trace : List Event
  deriving DecidableEq, Repr

def Registry.fresh : Registry := ⟨[], .ereload, CString.ofMemory [0], 0, []⟩

mutual

/-- The calls that some code makes.  `none` for a module is `THIS_MODULE`. -/
inductive Program where
  | done
  | loadModule (filepath : CString) (param : Option CString) (image : Image) (next : Program)
  | unloadModule (node : Nat) (leave : Leave) (next : Program)
  | loadModulesFromDir (dirname : CString) (dir : Directory) (next : Program)
  | unloadAllModules (leaves : Leaves) (next : Program)
  | setName (who : Option Nat) (name : CString) (next : Program)
  | setInfo (who : Option Nat) (aliasName desc : Option CString) (next : Program)
  | setVersion (who : Option Nat) (version : Int) (next : Program)

/-- What `dlopen` and `dlsym` answer when a module is loaded, with the texts of
`dlerror`, and what its init function does. -/
inductive Image where
  | unopenable (why : CString)
  | symbolless (handle : Nat) (why : CString)
  | opened (handle : Nat) (init : Program) (failed : Bool)

/-- What `dlsym` and `dlclose` answer when a module is unloaded, and what its
exit function does. -/
inductive Leave where
  | symbolless (why : CString) (closes : Bool)
  | exits (exit : Program) (closes : Bool)

inductive Leaves where
  | nil
  | cons (leave : Leave) (more : Leaves)

/-- What `opendir` answers. -/
inductive Directory where
  | unopenable (why : CString)
  | opened (listing : Listing)

/-- What `readdir` answers.  `regular` says whether the entry is a file or a
link. -/
inductive Listing where
  | done
  | entry (name : CString) (regular : Bool) (image : Image) (more : Listing)

end

/-- The characters behind the last slash. -/
def getFilename (filepath : CString) : CString where
  chars := (filepath.chars.reverse.takeWhile (· != 47)).reverse
  nulFree := by
    intro member
    rw [List.mem_reverse] at member
    exact filepath.nulFree (List.mem_reverse.mp ((List.takeWhile_prefix _).subset member))

/-- `"%s/%s"` into a buffer of 512 bytes. -/
def entryPath (dirname name : CString) : CString where
  chars := (dirname.chars ++ 47 :: name.chars).take (512 - 1)
  nulFree := by
    intro member
    rcases List.mem_append.mp (List.mem_of_mem_take member) with inside | behind
    · exact dirname.nulFree inside
    · rcases List.mem_cons.mp behind with slash | inside
      · revert slash
        decide
      · exact name.nulFree inside

def isDots (name : CString) : Bool := name.chars = [46] ∨ name.chars = [46, 46]

namespace Registry

def fail (registry : Registry) (err : ModuleError) : Registry := { registry with err := err }

def failWith (registry : Registry) (err : ModuleError) (text : CString) : Registry :=
  { registry with err := err, errmsg := text.slice 0 (moduleErrmsgSize - 1) }

def emit (registry : Registry) (event : Event) : Registry := { registry with trace := registry.trace ++ [event] }

/-- The module that a pointer points to, unless it has been freed. -/
def deref (registry : Registry) (node : Nat) : Option Module := registry.modules.find? (·.node = node)

/-- `list_del` and `__free_module`. -/
def remove (registry : Registry) (node : Nat) : Registry :=
  { registry with modules := registry.modules.eraseP (·.node = node) }

def add (registry : Registry) (m : Module) : Registry :=
  { registry with modules := m :: registry.modules, nodes := registry.nodes + 1 }

/-- Change the module a pointer points to. -/
def update (registry : Registry) (who : Option Nat) (change : Module -> Module) : Option Registry :=
  who.bind fun node => (registry.deref node).map fun _ =>
    { registry with modules := registry.modules.map fun m => if m.node = node then change m else m }

/-- The pointer `node.next` of a module: `none` within when the head follows. -/
def following (registry : Registry) (node : Nat) : Option (Option Nat) :=
  (registry.deref node).map fun _ => ((registry.modules.dropWhile (·.node ≠ node)).tail.head?).map (·.node)

end Registry

def findModule (registry : Registry) (name : CString) : Option Module :=
  registry.modules.find? fun pos => pos.name = name ∨ pos.filename = name

def newModule (registry : Registry) (filepath : CString) (param : Option CString) (handle : Nat) : Module where
  filepath := filepath
  filename := getFilename filepath
  name := getFilename filepath
  param := param
  aliasName := none
  desc := none
  version := 0
  handle := handle
  node := registry.nodes

/-- `module_init of %s failed!` -/
def initFailed (filepath : CString) : CString where
  chars := ascii "module_init of " ++ filepath.chars ++ ascii " failed!\n"
  nulFree := by
    intro member
    rcases List.mem_append.mp member with front | behind
    · rcases List.mem_append.mp front with text | path
      · revert text
        decide
      · exact filepath.nulFree path
    · revert behind
      decide

mutual

/-- The calls one after the other, from code of the module `self`.  A call
that touches a freed module or fails its assertion leaves nothing. -/
def runProgram (self : Option Nat) (registry : Registry) : Program -> Option Registry
  | .done => some registry
  | .loadModule filepath param image next =>
      match loadModule registry filepath param image with
      | none => none
      | some (after, _) => runProgram self after next
  | .unloadModule node leave next =>
      match unloadModule registry node leave with
      | none => none
      | some after => runProgram self after next
  | .loadModulesFromDir dirname dir next =>
      match loadModulesFromDir registry dirname dir with
      | none => none
      | some (after, _) => runProgram self after next
  | .unloadAllModules leaves next =>
      match unloadFrom registry (registry.modules.head?.map (·.node)) leaves with
      | none => none
      | some after => runProgram self after next
  | .setName who name next =>
      match registry.update (who.or self) ({ · with name := name }) with
      | none => none
      | some after => runProgram self after next
  | .setInfo who aliasName desc next =>
      match registry.update (who.or self) ({ · with aliasName := aliasName, desc := desc }) with
      | none => none
      | some after => runProgram self after next
  | .setVersion who version next =>
      match registry.update (who.or self) ({ · with version := version }) with
      | none => none
      | some after => runProgram self after next

/-- `load_module`, with the module it returns. -/
def loadModule (registry : Registry) (filepath : CString) (param : Option CString) (image : Image) :
    Option (Registry × Option Nat) :=
  if (findModule registry (getFilename filepath)).isSome then some (registry.fail .ereload, none)
  else
    match image with
    | .unopenable why => some (registry.failWith .eopen why, none)
    | .symbolless handle why =>
        some (((registry.emit (.dlopen handle)).emit (.dlclose handle)).failWith .esym why, none)
    | .opened handle init failed =>
        let m := newModule registry filepath param handle
        match runProgram (some m.node) (((registry.emit (.dlopen handle)).add m).emit (.init m.node)) init with
        | none => none
        | some after =>
            if failed then
              (after.deref m.node).map fun _ =>
                (((after.emit (.dlclose handle)).failWith .einit (initFailed filepath)).remove m.node, none)
            else some (after, some m.node)

/-- `unload_module`.  After the exit function the pointer is read again. -/
def unloadModule (registry : Registry) (node : Nat) (leave : Leave) : Option Registry :=
  match registry.deref node with
  | none => none
  | some _ =>
      match leave with
      | .symbolless why closes => closeModule (registry.failWith .esym why) node closes
      | .exits exit closes =>
          match runProgram (some node) (registry.emit (.exit node)) exit with
          | none => none
          | some after => closeModule after node closes
where
  /-- The assertion on `dlclose`, and the end of the module. -/
  closeModule (registry : Registry) (node : Nat) (closes : Bool) : Option Registry :=
    match registry.deref node with
    | none => none
    | some m => if closes then some ((registry.emit (.dlclose m.handle)).remove node) else none

/-- The loop of `unload_all_modules` from `pos` on: the next module is looked
up before `pos` is unloaded.  The answers have to last for all of them. -/
def unloadFrom (registry : Registry) (pos : Option Nat) : Leaves -> Option Registry
  | .nil => if pos = none then some registry else none
  | .cons leave more =>
      match pos with
      | none => some registry
      | some node =>
          match registry.following node with
          | none => none
          | some n =>
              match unloadModule registry node leave with
              | none => none
              | some after => unloadFrom after n more

/-- `load_modules_from_dir`, with the value it returns. -/
def loadModulesFromDir (registry : Registry) (dirname : CString) : Directory -> Option (Registry × Int)
  | .unopenable why => some (registry.failWith .eopen why, -1)
  | .opened listing => loadEntries registry dirname 0 listing

def loadEntries (registry : Registry) (dirname : CString) (rc : Int) : Listing -> Option (Registry × Int)
  | .done => some (registry, rc)
  | .entry name regular image more =>
      if isDots name ∨ ¬ regular ∨ (findModule registry name).isSome then loadEntries registry dirname rc more
      else
        match loadModule registry (entryPath dirname name) none image with
        | none => none
        | some (after, loaded) => loadEntries after dirname (if loaded = none then -1 else rc) more

end

/-! ## Between any two calls -/

/-- No two modules have one filename, every module allocated was initialised
once, and the handles that were opened and not closed are those of the listed
modules. -/
structure Sound (registry : Registry) : Prop where
  filenames : (registry.modules.map (·.filename)).Nodup
  named : ∀ m ∈ registry.modules, m.filename = getFilename m.filepath
  nodes : (registry.modules.map (·.node)).Nodup
  born : ∀ m ∈ registry.modules, m.node < registry.nodes
  handles : ∀ handle, registry.trace.count (.dlopen handle) =
    registry.trace.count (.dlclose handle) + registry.modules.countP (·.handle = handle)
  entered : ∀ node, registry.trace.count (.init node) = if node < registry.nodes then 1 else 0

/-- No module listed before is another one now. -/
structure Follows (before after : Registry) : Prop where
  nodes : before.nodes ≤ after.nodes
  same : ∀ m' ∈ after.modules, m'.node < before.nodes ->
    ∃ m ∈ before.modules, m.node = m'.node ∧ m.handle = m'.handle

/-- What every call keeps. -/
def Keeps (before after : Registry) : Prop := Sound after ∧ Follows before after

theorem Sound.fresh : Sound Registry.fresh := by
  constructor <;> simp [Registry.fresh]

theorem Follows.refl (registry : Registry) : Follows registry registry :=
  ⟨Nat.le_refl _, fun m listed _ => ⟨m, listed, rfl, rfl⟩⟩

theorem Follows.trans {first second third : Registry} (early : Follows first second) (late : Follows second third) :
    Follows first third where
  nodes := Nat.le_trans early.nodes late.nodes
  same := by
    intro m'' listed old
    rcases late.same m'' listed (Nat.lt_of_lt_of_le old early.nodes) with ⟨m', listed', node', handle'⟩
    rcases early.same m' listed' (node' ▸ old) with ⟨m, listed, node, handle⟩
    exact ⟨m, listed, node.trans node', handle.trans handle'⟩

theorem Keeps.trans {first second third : Registry} (early : Keeps first second) (late : Keeps second third) :
    Keeps first third :=
  ⟨late.1, early.2.trans late.2⟩

section Steps

variable {registry : Registry}

theorem count_emit (registry : Registry) (event other : Event) :
    (registry.emit event).trace.count other = registry.trace.count other + if event = other then 1 else 0 := by
  simp [Registry.emit, List.count_append, List.count_singleton]

theorem Sound.fail (sound : Sound registry) (err : ModuleError) : Keeps registry (registry.fail err) :=
  ⟨⟨sound.filenames, sound.named, sound.nodes, sound.born, sound.handles, sound.entered⟩,
    ⟨(Follows.refl registry).nodes, (Follows.refl registry).same⟩⟩

theorem Sound.failWith (sound : Sound registry) (err : ModuleError) (text : CString) :
    Keeps registry (registry.failWith err text) :=
  ⟨⟨sound.filenames, sound.named, sound.nodes, sound.born, sound.handles, sound.entered⟩,
    ⟨(Follows.refl registry).nodes, (Follows.refl registry).same⟩⟩

theorem Sound.exit (sound : Sound registry) (node : Nat) : Keeps registry (registry.emit (.exit node)) where
  left :=
    { filenames := sound.filenames
      named := sound.named
      nodes := sound.nodes
      born := sound.born
      handles := by
        intro handle
        rw [count_emit, count_emit, if_neg (by simp), if_neg (by simp)]
        exact sound.handles handle
      entered := by
        intro node
        rw [count_emit, if_neg (by simp)]
        exact sound.entered node }
  right := ⟨(Follows.refl registry).nodes, (Follows.refl registry).same⟩

/-- A handle that is closed at once. -/
theorem Sound.probe (sound : Sound registry) (handle : Nat) :
    Keeps registry ((registry.emit (.dlopen handle)).emit (.dlclose handle)) where
  left :=
    { filenames := sound.filenames
      named := sound.named
      nodes := sound.nodes
      born := sound.born
      handles := by
        intro other
        have before := sound.handles other
        simp only [count_emit, Event.dlopen.injEq, Event.dlclose.injEq, reduceCtorEq, if_false]
        change _ = _ + registry.modules.countP _
        omega
      entered := by
        intro node
        rw [count_emit, count_emit, if_neg (by simp), if_neg (by simp)]
        exact sound.entered node }
  right := ⟨(Follows.refl registry).nodes, (Follows.refl registry).same⟩

/-- A module joins the list, and its init function is entered. -/
theorem Sound.add (sound : Sound registry) (filepath : CString) (param : Option CString) (handle : Nat)
    (unknown : findModule registry (getFilename filepath) = none) :
    Keeps registry (((registry.emit (.dlopen handle)).add (newModule registry filepath param handle)).emit
      (.init registry.nodes)) where
  left :=
    { filenames := by
        refine List.nodup_cons.mpr ⟨?_, sound.filenames⟩
        intro member
        rcases List.mem_map.mp member with ⟨m, listed, same⟩
        have passed := List.find?_eq_none.mp unknown m listed
        change m.filename = getFilename filepath at same
        exact passed (by simpa using Or.inr same)
      named := by
        intro m listed
        rcases List.mem_cons.mp listed with rfl | old
        · rfl
        · exact sound.named m old
      nodes := by
        refine List.nodup_cons.mpr ⟨?_, sound.nodes⟩
        intro member
        rcases List.mem_map.mp member with ⟨m, listed, same⟩
        exact absurd (sound.born m listed) (by rw [same]; exact Nat.lt_irrefl _)
      born := by
        intro m listed
        rcases List.mem_cons.mp listed with rfl | old
        · exact Nat.lt_succ_self _
        · exact Nat.lt_succ_of_lt (sound.born m old)
      handles := by
        intro other
        have before := sound.handles other
        by_cases same : handle = other
        · simp [Registry.emit, Registry.add, newModule, same]
          omega
        · simp [Registry.emit, Registry.add, newModule, same]
          omega
      entered := by
        intro node
        have before := sound.entered node
        by_cases same : registry.nodes = node
        · simp [Registry.emit, Registry.add, ← same] at before ⊢
          omega
        · simp [Registry.emit, Registry.add, same] at before ⊢
          rw [before]
          congr 1
          simp only [eq_iff_iff]
          omega }
  right :=
    { nodes := Nat.le_succ _
      same := by
        intro m listed old
        rcases List.mem_cons.mp listed with rfl | listed
        · exact absurd old (Nat.lt_irrefl _)
        · exact ⟨m, listed, rfl, rfl⟩ }

/-- A listed module is closed and freed. -/
theorem Sound.close (sound : Sound registry) {node : Nat} {m : Module} (points : registry.deref node = some m) :
    Keeps registry ((registry.emit (.dlclose m.handle)).remove node) := by
  rcases find_split points with ⟨front, back, place, erased⟩
  have sublist : (registry.modules.eraseP (·.node = node)).Sublist registry.modules := List.eraseP_sublist
  refine ⟨⟨?_, ?_, ?_, ?_, ?_, ?_⟩, Nat.le_refl _, ?_⟩
  · exact sound.filenames.sublist (sublist.map _)
  · exact fun m listed => sound.named m (sublist.subset listed)
  · exact sound.nodes.sublist (sublist.map _)
  · exact fun m listed => sound.born m (sublist.subset listed)
  · intro handle
    have before := sound.handles handle
    rw [place] at before
    simp only [Registry.emit, Registry.remove, erased, List.count_append, List.countP_append, List.countP_cons] at before ⊢
    by_cases same : m.handle = handle
    · simp [same] at before ⊢
      omega
    · simp [same] at before ⊢
      omega
  · intro node
    change (registry.emit _).trace.count _ = _
    rw [count_emit, if_neg (by simp)]
    exact sound.entered node
  · exact fun m listed _ => ⟨m, sublist.subset listed, rfl, rfl⟩

/-- A change of a module that leaves alone what identifies it. -/
theorem Sound.update (sound : Sound registry) {who : Option Nat} {change : Module -> Module} {after : Registry}
    (updated : registry.update who change = some after)
    (keeps : ∀ m, (change m).filename = m.filename ∧ (change m).filepath = m.filepath ∧ (change m).node = m.node ∧
      (change m).handle = m.handle) : Keeps registry after := by
  rcases Option.bind_eq_some_iff.mp updated with ⟨node, _, mapped⟩
  rcases Option.map_eq_some_iff.mp mapped with ⟨_, _, rfl⟩
  have field : ∀ {Value : Type} (read : Module -> Value), (∀ m, read (change m) = read m) ->
      ∀ m : Module, read (if m.node = node then change m else m) = read m := by
    intro Value read same m
    split
    · exact same m
    · rfl
  have mapEq : ∀ {Value : Type} (read : Module -> Value), (∀ m, read (change m) = read m) ->
      (registry.modules.map fun m => if m.node = node then change m else m).map read = registry.modules.map read := by
    intro Value read same
    rw [List.map_map]
    exact List.map_congr_left fun m _ => field read same m
  have listed : ∀ m' ∈ registry.modules.map (fun m => if m.node = node then change m else m),
      ∃ m ∈ registry.modules, m.node = m'.node ∧ m.handle = m'.handle ∧ m.filename = m'.filename ∧
        m.filepath = m'.filepath := by
    intro m' member
    rcases List.mem_map.mp member with ⟨m, old, rfl⟩
    exact ⟨m, old, (field (·.node) (fun m => (keeps m).2.2.1) m).symm,
      (field (·.handle) (fun m => (keeps m).2.2.2) m).symm, (field (·.filename) (fun m => (keeps m).1) m).symm,
      (field (·.filepath) (fun m => (keeps m).2.1) m).symm⟩
  refine ⟨⟨?_, ?_, ?_, ?_, ?_, sound.entered⟩, Nat.le_refl _, ?_⟩
  · rw [mapEq (·.filename) fun m => (keeps m).1]
    exact sound.filenames
  · intro m' member
    rcases listed m' member with ⟨m, old, _, _, filename, filepath⟩
    rw [← filename, ← filepath]
    exact sound.named m old
  · rw [mapEq (·.node) fun m => (keeps m).2.2.1]
    exact sound.nodes
  · intro m' member
    rcases listed m' member with ⟨m, old, same, _⟩
    rw [← same]
    exact sound.born m old
  · intro handle
    have before := sound.handles handle
    rw [List.countP_map]
    have pointwise : ∀ m : Module, ((fun m => decide (m.handle = handle)) ∘
        fun m => if m.node = node then change m else m) m = decide (m.handle = handle) := by
      intro m
      rw [Function.comp_apply, field (·.handle) fun m => (keeps m).2.2.2]
    rw [List.countP_congr fun m _ => by rw [pointwise m]]
    exact before
  · intro m' member _
    rcases listed m' member with ⟨m, old, same, handle, _⟩
    exact ⟨m, old, same, handle⟩

end Steps

theorem closeModule_keeps {registry after : Registry} {node : Nat} {closes : Bool} (sound : Sound registry)
    (closed : unloadModule.closeModule registry node closes = some after) : Keeps registry after := by
  unfold unloadModule.closeModule at closed
  split at closed
  · cases closed
  case h_2 m points =>
    cases closes with
    | false => cases closed
    | true =>
        cases closed
        exact sound.close points

/-- Whatever an init function has called, its module still has the handle it was
opened with. -/
theorem handle_of_added {registry between : Registry} {filepath : CString} {param : Option CString} {handle : Nat}
    {m : Module}
    (follows : Follows (((registry.emit (.dlopen handle)).add (newModule registry filepath param handle)).emit
      (.init registry.nodes)) between)
    (sound : Sound registry) (points : between.deref registry.nodes = some m) : m.handle = handle := by
  have node : m.node = registry.nodes := by simpa using List.find?_some points
  have new : m.node < registry.nodes + 1 := by omega
  rcases follows.same m (List.mem_of_find?_eq_some points) new with ⟨first, listed, same, kept⟩
  rcases List.mem_cons.mp listed with rfl | old
  · exact kept.symm
  · have earlier := sound.born first old
    omega

/-! The induction is on the tree of the calls: the calls a module makes are
over before the call that runs them goes on. -/

mutual

theorem runProgram_keeps {self : Option Nat} {registry after : Registry} (sound : Sound registry) :
    ∀ {program : Program}, runProgram self registry program = some after -> Keeps registry after
  | .done, ran => by
      cases ran
      exact ⟨sound, .refl _⟩
  | .loadModule filepath param image next, ran => by
      rw [runProgram] at ran
      split at ran
      · cases ran
      case h_2 between loaded returned =>
        have first := loadModule_keeps sound returned
        exact first.trans (runProgram_keeps first.1 ran)
  | .unloadModule node leave next, ran => by
      rw [runProgram] at ran
      split at ran
      · cases ran
      case h_2 between returned =>
        have first := unloadModule_keeps sound returned
        exact first.trans (runProgram_keeps first.1 ran)
  | .loadModulesFromDir dirname dir next, ran => by
      rw [runProgram] at ran
      split at ran
      · cases ran
      case h_2 between rc returned =>
        have first := loadModulesFromDir_keeps sound returned
        exact first.trans (runProgram_keeps first.1 ran)
  | .unloadAllModules leaves next, ran => by
      rw [runProgram] at ran
      split at ran
      · cases ran
      case h_2 between returned =>
        have first := unloadFrom_keeps sound returned
        exact first.trans (runProgram_keeps first.1 ran)
  | .setName who name next, ran => by
      rw [runProgram] at ran
      split at ran
      · cases ran
      case h_2 between updated =>
        have first := sound.update updated fun _ => ⟨rfl, rfl, rfl, rfl⟩
        exact first.trans (runProgram_keeps first.1 ran)
  | .setInfo who aliasName desc next, ran => by
      rw [runProgram] at ran
      split at ran
      · cases ran
      case h_2 between updated =>
        have first := sound.update updated fun _ => ⟨rfl, rfl, rfl, rfl⟩
        exact first.trans (runProgram_keeps first.1 ran)
  | .setVersion who version next, ran => by
      rw [runProgram] at ran
      split at ran
      · cases ran
      case h_2 between updated =>
        have first := sound.update updated fun _ => ⟨rfl, rfl, rfl, rfl⟩
        exact first.trans (runProgram_keeps first.1 ran)

theorem loadModule_keeps {registry after : Registry} {filepath : CString} {param : Option CString}
    {loaded : Option Nat} (sound : Sound registry) :
    ∀ {image : Image}, loadModule registry filepath param image = some (after, loaded) -> Keeps registry after
  | .unopenable why, ran => by
      rw [loadModule] at ran
      split at ran <;> cases ran
      · exact sound.fail .ereload
      · exact sound.failWith .eopen why
  | .symbolless handle why, ran => by
      rw [loadModule] at ran
      split at ran <;> cases ran
      · exact sound.fail .ereload
      · have probed := sound.probe handle
        exact probed.trans (probed.1.failWith .esym why)
  | .opened handle init failed, ran => by
      rw [loadModule] at ran
      split at ran
      · cases ran
        exact sound.fail .ereload
      case isFalse unknown =>
        have added := sound.add filepath param handle (Option.not_isSome_iff_eq_none.mp unknown)
        dsimp only at ran
        split at ran
        · cases ran
        case h_2 between initialised =>
          have called := runProgram_keeps added.1 initialised
          have inside := added.trans called
          split at ran
          · rcases Option.map_eq_some_iff.mp ran with ⟨m, points, pair⟩
            cases pair
            have closed := called.1.close points
            rw [handle_of_added called.2 sound points] at closed
            exact inside.trans (closed.trans (closed.1.failWith .einit (initFailed filepath)))
          · cases ran
            exact inside

theorem unloadModule_keeps {registry after : Registry} {node : Nat} (sound : Sound registry) :
    ∀ {leave : Leave}, unloadModule registry node leave = some after -> Keeps registry after
  | .symbolless why closes, ran => by
      rw [unloadModule] at ran
      split at ran
      · cases ran
      · have failed := sound.failWith .esym why
        exact failed.trans (closeModule_keeps failed.1 ran)
  | .exits exit closes, ran => by
      rw [unloadModule] at ran
      split at ran
      · cases ran
      · split at ran
        · cases ran
        case h_2 between exited =>
          have entered := sound.exit node
          have inside := entered.trans (runProgram_keeps entered.1 exited)
          exact inside.trans (closeModule_keeps inside.1 ran)

theorem unloadFrom_keeps {registry after : Registry} {pos : Option Nat} (sound : Sound registry) :
    ∀ {leaves : Leaves}, unloadFrom registry pos leaves = some after -> Keeps registry after
  | .nil, ran => by
      rw [unloadFrom] at ran
      split at ran <;> cases ran
      exact ⟨sound, .refl _⟩
  | .cons leave more, ran => by
      unfold unloadFrom at ran
      split at ran
      · cases ran
        exact ⟨sound, .refl _⟩
      · split at ran
        · cases ran
        · split at ran
          · cases ran
          case h_2 between unloaded =>
            have first := unloadModule_keeps sound unloaded
            exact first.trans (unloadFrom_keeps first.1 ran)

theorem loadModulesFromDir_keeps {registry after : Registry} {dirname : CString} {code : Int}
    (sound : Sound registry) :
    ∀ {dir : Directory}, loadModulesFromDir registry dirname dir = some (after, code) -> Keeps registry after
  | .unopenable why, ran => by
      cases ran
      exact sound.failWith .eopen why
  | .opened listing, ran => by
      rw [loadModulesFromDir] at ran
      exact loadEntries_keeps sound ran

theorem loadEntries_keeps {registry after : Registry} {dirname : CString} {rc code : Int} (sound : Sound registry) :
    ∀ {listing : Listing}, loadEntries registry dirname rc listing = some (after, code) -> Keeps registry after
  | .done, ran => by
      cases ran
      exact ⟨sound, .refl _⟩
  | .entry name regular image more, ran => by
      rw [loadEntries] at ran
      split at ran
      · exact loadEntries_keeps sound ran
      · split at ran
        · cases ran
        case h_2 between loaded returned =>
          have first := loadModule_keeps sound returned
          exact first.trans (loadEntries_keeps first.1 ran)

end

/-- Whatever the modules call while they are loaded and unloaded, every run that
touches no freed module ends soundly. -/
theorem runProgram_sound {program : Program} {registry : Registry}
    (ran : runProgram none .fresh program = some registry) : Sound registry :=
  (runProgram_keeps .fresh ran).1

/-- A module that loads another and renames itself, and one that loads a third
and then fails. -/
def entangled : Program :=
  .loadModule (CString.ofMemory (ascii "/lib/a.zo" ++ [0])) none
    (.opened 1
      (.loadModule (CString.ofMemory (ascii "b.zo" ++ [0])) none (.opened 2 .done false)
        (.setName none (CString.ofMemory (ascii "first" ++ [0])) .done)) false)
    (.loadModule (CString.ofMemory (ascii "c.zo" ++ [0])) none
      (.opened 3
        (.loadModule (CString.ofMemory (ascii "./d.zo" ++ [0])) none (.opened 1 .done false)
          (.unloadModule 1 (.exits .done true) .done)) true) .done)

theorem runProgram_sound_entangled : ∃ registry, runProgram none .fresh entangled = some registry ∧
    registry.modules.map (·.handle) = [1, 1] ∧ Sound registry := by
  have through : (runProgram none .fresh entangled).map (fun registry => registry.modules.map (·.handle)) =
      some [1, 1] := by decide +kernel
  rcases Option.map_eq_some_iff.mp through with ⟨registry, ran, handles⟩
  exact ⟨registry, ran, handles, runProgram_sound ran⟩

end Modules
end Extlib
