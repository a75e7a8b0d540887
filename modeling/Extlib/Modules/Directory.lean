import Extlib.Modules.Registry

namespace Extlib
namespace Modules

open Text Machine

/-!
# A directory loaded twice

`load_modules_from_dir` passes over the files it finds among the loaded
modules.  A directory whose files have all been loaded is left alone the second
time, as long as the init functions unload nothing and rename only their own
module, and no path was cut at the size of the buffer.
-/

mutual

/-- No module is unloaded, and a module renames itself only. -/
def Program.Loyal : Program -> Prop
  | .done => True
  | .loadModule _ _ image next => image.Loyal ∧ next.Loyal
  | .unloadModule _ _ _ => False
  | .loadModulesFromDir _ dir next => dir.Loyal ∧ next.Loyal
  | .unloadAllModules _ _ => False
  | .setName who _ next => who = none ∧ next.Loyal
  | .setInfo _ _ _ next => next.Loyal
  | .setVersion _ _ next => next.Loyal

def Image.Loyal : Image -> Prop
  | .unopenable _ => True
  | .symbolless _ _ => True
  | .opened _ init _ => init.Loyal

def Directory.Loyal : Directory -> Prop
  | .unopenable _ => True
  | .opened listing => listing.Loyal

def Listing.Loyal : Listing -> Prop
  | .done => True
  | .entry _ _ image more => image.Loyal ∧ more.Loyal

end

/-- The files of a directory that may be modules. -/
def Listing.files : Listing -> List CString
  | .done => []
  | .entry name regular _ more => if isDots name ∨ ¬ regular then more.files else name :: more.files

/-- The path of a file is not cut, and the name is one. -/
def Fits (dirname name : CString) : Prop := dirname.length + 1 + name.length < 512 ∧ 47 ∉ name.chars

/-- Every module is still listed under its filename, and under its name too
unless it is `self`. -/
def Stays (self : Option Nat) (before after : Registry) : Prop :=
  ∀ m ∈ before.modules, ∃ m' ∈ after.modules, m'.node = m.node ∧ m'.filename = m.filename ∧
    (some m.node ≠ self -> m'.name = m.name)

theorem Stays.of_modules {self : Option Nat} {before after : Registry} (same : after.modules = before.modules) :
    Stays self before after := fun m listed => ⟨m, same ▸ listed, rfl, rfl, fun _ => rfl⟩

theorem Stays.trans {self : Option Nat} {first second third : Registry} (early : Stays self first second)
    (late : Stays self second third) : Stays self first third := by
  intro m listed
  rcases early m listed with ⟨m', listed', node, filename, name⟩
  rcases late m' listed' with ⟨m'', listed'', node', filename', name'⟩
  refine ⟨m'', listed'', node'.trans node, filename'.trans filename, fun other => ?_⟩
  exact (name' (node ▸ other)).trans (name other)

/-- What leaves every name leaves all but one. -/
theorem Stays.weaken {self : Option Nat} {before after : Registry} (stays : Stays none before after) :
    Stays self before after := by
  intro m listed
  rcases stays m listed with ⟨m', listed', node, filename, name⟩
  exact ⟨m', listed', node, filename, fun _ => name (by simp)⟩

/-- A module that was found is found again. -/
theorem Stays.found {before after : Registry} (stays : Stays none before after) {name : CString}
    (found : (findModule before name).isSome) : (findModule after name).isSome := by
  unfold findModule at found ⊢
  rw [List.find?_isSome] at found ⊢
  rcases found with ⟨m, listed, matched⟩
  rcases stays m listed with ⟨m', listed', _, filename, same⟩
  refine ⟨m', listed', ?_⟩
  rw [same (by simp), filename]
  exact matched

theorem Stays.update {registry after : Registry} {self : Option Nat} {change : Module -> Module}
    {who : Option Nat} (updated : registry.update who change = some after)
    (keeps : ∀ m, (change m).filename = m.filename ∧ (change m).node = m.node)
    (name : (∀ m, (change m).name = m.name) ∨ who = self) : Stays self registry after := by
  rcases Option.bind_eq_some_iff.mp updated with ⟨node, pointed, mapped⟩
  rcases Option.map_eq_some_iff.mp mapped with ⟨_, _, rfl⟩
  intro m listed
  refine ⟨_, List.mem_map.mpr ⟨m, listed, rfl⟩, ?_⟩
  by_cases same : m.node = node
  · rw [if_pos same]
    refine ⟨(keeps m).2, (keeps m).1, fun other => ?_⟩
    rcases name with keepsName | own
    · exact keepsName m
    · exact absurd (by rw [← own, pointed, same]) other
  · rw [if_neg same]
    exact ⟨rfl, rfl, fun _ => rfl⟩

/-- The list between the entering of an init function and its return. -/
private theorem Stays.inside {registry between : Registry} (sound : Sound registry) {m : Module} {trace : List Event}
    (stays : Stays (some registry.nodes)
      { registry with modules := m :: registry.modules, nodes := registry.nodes + 1, trace := trace } between) :
    Stays none registry between := by
  intro old listed
  rcases stays old (List.mem_cons_of_mem _ listed) with ⟨m', listed', node, filename, name⟩
  have other : some old.node ≠ some registry.nodes := by
    rw [Ne, Option.some.injEq]
    exact Nat.ne_of_lt (sound.born old listed)
  exact ⟨m', listed', node, filename, fun _ => name other⟩

mutual

theorem runProgram_stays {self : Option Nat} {registry after : Registry} (sound : Sound registry) :
    ∀ {program : Program}, program.Loyal -> runProgram self registry program = some after ->
      Stays self registry after
  | .done, _, ran => by
      cases ran
      exact .of_modules rfl
  | .loadModule filepath param image next, loyal, ran => by
      rw [runProgram] at ran
      split at ran
      · cases ran
      case h_2 between loaded returned =>
        have first := (loadModule_stays sound loyal.1 returned).1
        exact first.weaken.trans (runProgram_stays (loadModule_keeps sound returned).1 loyal.2 ran)
  | .loadModulesFromDir dirname dir next, loyal, ran => by
      rw [runProgram] at ran
      split at ran
      · cases ran
      case h_2 between rc returned =>
        have first := loadModulesFromDir_stays sound loyal.1 returned
        exact first.weaken.trans (runProgram_stays (loadModulesFromDir_keeps sound returned).1 loyal.2 ran)
  | .setName who name next, loyal, ran => by
      rw [runProgram] at ran
      split at ran
      · cases ran
      case h_2 between updated =>
        have first : Stays self registry between := .update updated (fun _ => ⟨rfl, rfl⟩)
          (Or.inr (by rw [loyal.1]; rfl))
        have kept := sound.update updated fun _ => ⟨rfl, rfl, rfl, rfl⟩
        exact first.trans (runProgram_stays kept.1 loyal.2 ran)
  | .setInfo who aliasName desc next, loyal, ran => by
      rw [runProgram] at ran
      split at ran
      · cases ran
      case h_2 between updated =>
        have first : Stays self registry between := .update updated (fun _ => ⟨rfl, rfl⟩) (Or.inl fun _ => rfl)
        have kept := sound.update updated fun _ => ⟨rfl, rfl, rfl, rfl⟩
        have rest : next.Loyal := loyal
        exact first.trans (runProgram_stays kept.1 rest ran)
  | .setVersion who version next, loyal, ran => by
      rw [runProgram] at ran
      split at ran
      · cases ran
      case h_2 between updated =>
        have first : Stays self registry between := .update updated (fun _ => ⟨rfl, rfl⟩) (Or.inl fun _ => rfl)
        have kept := sound.update updated fun _ => ⟨rfl, rfl, rfl, rfl⟩
        have rest : next.Loyal := loyal
        exact first.trans (runProgram_stays kept.1 rest ran)

/-- A module that was loaded is listed under its filename. -/
theorem loadModule_stays {registry after : Registry} {filepath : CString} {param : Option CString}
    {loaded : Option Nat} (sound : Sound registry) :
    ∀ {image : Image}, image.Loyal -> loadModule registry filepath param image = some (after, loaded) ->
      Stays none registry after ∧ (loaded ≠ none -> ∃ m ∈ after.modules, m.filename = getFilename filepath)
  | .unopenable why, _, ran => by
      rw [loadModule] at ran
      split at ran <;> cases ran <;> exact ⟨.of_modules rfl, fun some_loaded => absurd rfl some_loaded⟩
  | .symbolless handle why, _, ran => by
      rw [loadModule] at ran
      split at ran <;> cases ran <;> exact ⟨.of_modules rfl, fun some_loaded => absurd rfl some_loaded⟩
  | .opened handle init failed, loyal, ran => by
      rw [loadModule] at ran
      split at ran
      · cases ran
        exact ⟨.of_modules rfl, fun some_loaded => absurd rfl some_loaded⟩
      case isFalse unknown =>
        have added := sound.add filepath param handle (Option.not_isSome_iff_eq_none.mp unknown)
        dsimp only at ran
        split at ran
        · cases ran
        case h_2 between initialised =>
          have called := runProgram_stays added.1 loyal initialised
          have stays : Stays none registry between := called.inside sound
          split at ran
          · rcases Option.map_eq_some_iff.mp ran with ⟨_, _, pair⟩
            cases pair
            refine ⟨?_, fun some_loaded => absurd rfl some_loaded⟩
            intro m listed
            rcases stays m listed with ⟨m', listed', node, filename, name⟩
            refine ⟨m', ?_, node, filename, name⟩
            have older : m'.node ≠ registry.nodes := node ▸ Nat.ne_of_lt (sound.born m listed)
            exact (List.mem_eraseP_of_neg (p := fun m : Module => m.node = registry.nodes)
              (by simpa using older)).mpr listed'
          · cases ran
            refine ⟨stays, fun _ => ?_⟩
            rcases called _ List.mem_cons_self with ⟨m', listed', _, filename, _⟩
            exact ⟨m', listed', filename⟩

theorem loadModulesFromDir_stays {registry after : Registry} {dirname : CString} {code : Int}
    (sound : Sound registry) :
    ∀ {dir : Directory}, dir.Loyal -> loadModulesFromDir registry dirname dir = some (after, code) ->
      Stays none registry after
  | .unopenable why, _, ran => by
      cases ran
      exact .of_modules rfl
  | .opened listing, loyal, ran => by
      rw [loadModulesFromDir] at ran
      exact loadEntries_stays sound loyal ran

theorem loadEntries_stays {registry after : Registry} {dirname : CString} {rc code : Int} (sound : Sound registry) :
    ∀ {listing : Listing}, listing.Loyal -> loadEntries registry dirname rc listing = some (after, code) ->
      Stays none registry after
  | .done, _, ran => by
      cases ran
      exact .of_modules rfl
  | .entry name regular image more, loyal, ran => by
      rw [loadEntries] at ran
      split at ran
      · exact loadEntries_stays sound loyal.2 ran
      · split at ran
        · cases ran
        case h_2 between loaded returned =>
          have first := (loadModule_stays sound loyal.1 returned).1
          exact first.trans (loadEntries_stays (loadModule_keeps sound returned).1 loyal.2 ran)

end

/-! ## The second time -/

theorem getFilename_entryPath {dirname name : CString} (fits : Fits dirname name) :
    getFilename (entryPath dirname name) = name := by
  have whole : (entryPath dirname name).chars = dirname.chars ++ 47 :: name.chars := by
    refine List.take_of_length_le ?_
    have short := fits.1
    simp only [List.length_append, List.length_cons, CString.length] at short ⊢
    omega
  have plain : ∀ c ∈ name.chars.reverse, (c != 47) = true := by
    intro c member
    rw [bne_iff_ne]
    rintro rfl
    exact fits.2 (List.mem_reverse.mp member)
  apply CString.ext
  change ((entryPath dirname name).chars.reverse.takeWhile (· != 47)).reverse = name.chars
  rw [whole, List.reverse_append, List.reverse_cons, List.append_assoc, List.takeWhile_append_of_pos plain]
  simp

/-- A file that could not be loaded is remembered. -/
theorem loadEntries_failed {registry after : Registry} {dirname : CString} {code : Int} :
    ∀ {listing : Listing}, loadEntries registry dirname (-1) listing = some (after, code) -> code = -1
  | .done, ran => by
      cases ran
      rfl
  | .entry name regular image more, ran => by
      rw [loadEntries] at ran
      split at ran
      · exact loadEntries_failed ran
      · split at ran
        · cases ran
        · rw [ite_self] at ran
          exact loadEntries_failed ran

/-- When all could be loaded all files are found. -/
theorem loadEntries_found {registry after : Registry} {dirname : CString} (sound : Sound registry) :
    ∀ {listing : Listing}, listing.Loyal -> (∀ name ∈ listing.files, Fits dirname name) ->
      loadEntries registry dirname 0 listing = some (after, 0) ->
      ∀ name ∈ listing.files, (findModule after name).isSome
  | .done, _, _, _, name, member => absurd member List.not_mem_nil
  | .entry file regular image more, loyal, fits, ran, name, member => by
      rw [Listing.files] at fits member
      rw [loadEntries] at ran
      by_cases other : isDots file = true ∨ ¬ regular = true
      · rw [if_pos other] at fits member
        rw [if_pos (other.imp_right Or.inl)] at ran
        exact loadEntries_found sound loyal.2 fits ran name member
      · rw [if_neg other] at fits member
        have behind := fun name inside => fits name (List.mem_cons_of_mem _ inside)
        split at ran
        case isTrue passed =>
          have found : (findModule registry file).isSome := by tauto
          rcases List.mem_cons.mp member with rfl | later
          · exact (loadEntries_stays sound loyal.2 ran).found found
          · exact loadEntries_found sound loyal.2 behind ran name later
        case isFalse =>
          split at ran
          · cases ran
          case h_2 between loaded returned =>
            have kept := (loadModule_keeps sound returned).1
            cases loaded with
            | none =>
                rw [if_pos rfl] at ran
                exact absurd (loadEntries_failed ran) (by decide)
            | some node =>
                rw [if_neg (by simp)] at ran
                rcases List.mem_cons.mp member with rfl | later
                · rcases (loadModule_stays sound loyal.1 returned).2 (by simp) with ⟨m, listed, filename⟩
                  rw [getFilename_entryPath (fits name List.mem_cons_self)] at filename
                  refine (loadEntries_stays kept loyal.2 ran).found ?_
                  rw [findModule, List.find?_isSome]
                  exact ⟨m, listed, by simpa using Or.inr filename⟩
                · exact loadEntries_found kept loyal.2 behind ran name later

/-- When all files are found there is nothing to do. -/
theorem loadEntries_idle {registry : Registry} {dirname : CString} {rc : Int} :
    ∀ {listing : Listing}, (∀ name ∈ listing.files, (findModule registry name).isSome) ->
      loadEntries registry dirname rc listing = some (registry, rc)
  | .done, _ => rfl
  | .entry file regular image more, found => by
      rw [Listing.files] at found
      rw [loadEntries]
      by_cases other : isDots file = true ∨ ¬ regular = true
      · rw [if_pos other] at found
        rw [if_pos (other.imp_right Or.inl)]
        exact loadEntries_idle found
      · rw [if_neg other] at found
        rw [if_pos (Or.inr (Or.inr (found file List.mem_cons_self)))]
        exact loadEntries_idle fun name inside => found name (List.mem_cons_of_mem _ inside)

/-- In every run, a directory that was loaded without failure is left alone the
next time: whatever the dynamic linker would answer, it is not asked. -/
theorem loadModulesFromDir_again {program : Program} {registry after : Registry} {dirname : CString}
    {listing again : Listing} (reached : runProgram none .fresh program = some registry) (loyal : listing.Loyal)
    (fits : ∀ name ∈ listing.files, Fits dirname name)
    (loaded : loadModulesFromDir registry dirname (.opened listing) = some (after, 0))
    (files : again.files ⊆ listing.files) :
    loadModulesFromDir after dirname (.opened again) = some (after, 0) := by
  rw [loadModulesFromDir] at loaded ⊢
  have found := loadEntries_found (runProgram_keeps .fresh reached).1 loyal fits loaded
  exact loadEntries_idle fun name inside => found name (files inside)

private def cstring (text : String) : CString := CString.ofMemory (ascii text ++ [0])

/-- Two modules, the second of which renames itself. -/
def twoFiles : Listing :=
  .entry (cstring ".") false (.unopenable (cstring "")) (.entry (cstring "a.zo") true (.opened 1 .done false)
    (.entry (cstring "b.zo") true (.opened 2 (.setName none (cstring "bee") .done) false) .done))

theorem loadModulesFromDir_again_twoFiles : ∃ after,
    loadModulesFromDir .fresh (cstring "lib") (.opened twoFiles) = some (after, 0) ∧ after.modules.length = 2 ∧
      loadModulesFromDir after (cstring "lib") (.opened twoFiles) = some (after, 0) := by
  have through : (loadModulesFromDir .fresh (cstring "lib") (.opened twoFiles)).map
      (fun result => (result.1.modules.length, result.2)) = some (2, 0) := by decide +kernel
  rcases Option.map_eq_some_iff.mp through with ⟨⟨after, code⟩, loaded, results⟩
  have length : after.modules.length = 2 := congrArg Prod.fst results
  have zero : code = 0 := congrArg Prod.snd results
  subst zero
  have files : twoFiles.files = [cstring "a.zo", cstring "b.zo"] := by decide +kernel
  refine ⟨after, loaded, length,
    @loadModulesFromDir_again .done _ _ _ _ _ rfl ?_ ?_ loaded (List.Subset.refl _)⟩
  · exact ⟨trivial, trivial, ⟨rfl, trivial⟩, trivial⟩
  · rw [files]
    intro file member
    simp only [List.mem_cons, List.not_mem_nil, or_false] at member
    rcases member with rfl | rfl
    · exact ⟨by decide +kernel, by decide +kernel⟩
    · exact ⟨by decide +kernel, by decide +kernel⟩

end Modules
end Extlib
