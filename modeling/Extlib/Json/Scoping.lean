import Extlib.Json.Strings

namespace Extlib
namespace Json

open Text

/-!
# Nested objects

A text of nested objects, with any number of blanks between its parts.  The
count of braces goes on behind the end of an object, over the rest of the whole
text, and braces in strings count like any other.  A key that the object does
not have can therefore be found in another object: in a later one, at the same
depth.  When the object that a path reaches has no member with the last key,
the two calls fail unless the path leads astray in this way.
-/

/-- The key occurs at one place of the text at most. -/
def Once (key text : List UInt8) : Prop :=
  ∀ i < text.length, ∀ j < text.length, key <+: text.drop i -> key <+: text.drop j -> i = j

instance (key text : List UInt8) : Decidable (Once key text) :=
  inferInstanceAs (Decidable
    (∀ i < text.length, ∀ j < text.length, key <+: text.drop i -> key <+: text.drop j -> i = j))

/-- Each key stands where one brace is open, counted from the opening brace of
the object before it, and names an object itself; `rest` begins with the last
of these objects. -/
def LeadsTo : List UInt8 -> List (List UInt8) -> List UInt8 -> Prop
  | text, [], rest => rest = text
  | text, key :: keys, rest =>
      ∃ i inner, OpenAt key 0 text i ∧ (text.drop (i + key.length)).dropWhile isGap = 123 :: inner ∧
        LeadsTo (123 :: inner) keys rest

/-- An integer or a string can be read here. -/
def Readable (walkIdx : List UInt8) : Prop :=
  (∃ digits rest, IntAt walkIdx digits rest) ∨ ∃ q inner rest, StringAt walkIdx q inner rest

/-- The keys lead to an object, and behind its opening brace, though not
necessarily in front of its closing one, the last key has a first place where
one brace is open; a value can be read there. -/
def Astray (text : List UInt8) (keys : List (List UInt8)) (key : List UInt8) : Prop :=
  ∃ rest i, LeadsTo text keys rest ∧ KeyAt key rest i ∧ Readable (rest.drop (i + key.length))

/-- Both calls fail and leave the value of the caller as it is. -/
structure Refuses (jo : JsonObject) (path : CString) : Prop where
  int : ∀ value, ∃ errno, jsonGetInt jo path value = .returned (-1) errno value
  string : ∀ value, ∃ errno, jsonGetString jo path value = .returned (-1) errno value

/-! ## Where a path leads -/

section Paths

variable {key text walkIdx : List UInt8} {keys : List (List UInt8)} {braceCnt : Int} {i : Nat} {jo : JsonObject}

theorem Once.suffix (once : Once key text) {rest : List UInt8} (suffix : rest <:+ text) : Once key rest := by
  obtain ⟨n, rfl⟩ : ∃ n, rest = text.drop n := ⟨_, List.suffix_iff_eq_drop.mp suffix⟩
  intro i inI j inJ here there
  rw [List.length_drop] at inI inJ
  rw [List.drop_drop] at here there
  have same := once (n + i) (by omega) (n + j) (by omega) here there
  omega

/-- The only place of a key is the first one. -/
theorem Once.firstOpenAt_iff (once : Once key text) (nonempty : key ≠ []) :
    FirstOpenAt key braceCnt text i ↔ OpenAt key braceCnt text i := by
  refine ⟨fun first => first.1, fun here => ⟨here, fun j less there => ?_⟩⟩
  exact absurd (once i (here.lt nonempty) j (there.lt nonempty) here.1 there.1) (Nat.ne_of_gt less)

/-- With keys that occur once, a path goes from object to object and ends at
the first place of its last key. -/
theorem finds_append_iff
    (names : ∀ name ∈ keys, name ≠ [] ∧ name.head? ≠ some 123 ∧ name.head? ≠ some 125) :
    ∀ {text : List UInt8}, (∀ name ∈ keys, Once name text) ->
      (Finds text (keys ++ [key]) walkIdx ↔
        ∃ rest i, LeadsTo text keys rest ∧ KeyAt key rest i ∧ walkIdx = rest.drop (i + key.length)) := by
  induction keys with
  | nil =>
      intro text _
      rw [List.nil_append, Finds]
      constructor
      · rintro ⟨i, here, found⟩
        exact ⟨text, i, rfl, here, found⟩
      · rintro ⟨_, i, rfl, here, found⟩
        exact ⟨i, here, found⟩
  | cons name keys inductionHypothesis =>
      intro text once
      rcases names name List.mem_cons_self with ⟨nonempty, opening, closing⟩
      have later := @inductionHypothesis fun other listed => names other (List.mem_cons_of_mem _ listed)
      have onceHere := once name List.mem_cons_self
      have onceLater : ∀ {i inner}, (text.drop (i + name.length)).dropWhile isGap = 123 :: inner ->
          ∀ other ∈ keys, Once other (123 :: inner) := by
        intro i inner object other listed
        refine (once other (List.mem_cons_of_mem _ listed)).suffix ?_
        rw [← object]
        exact (List.dropWhile_suffix _).trans (List.drop_suffix _ _)
      obtain ⟨next, others, shape⟩ : ∃ next others, keys ++ [key] = next :: others :=
        List.exists_cons_of_ne_nil (by simp)
      rw [List.cons_append, shape, Finds, ← shape]
      constructor
      · rintro ⟨i, inner, here, object, finds⟩
        rcases (later (onceLater object)).mp finds with ⟨rest, j, leads, last, found⟩
        exact ⟨rest, j, ⟨i, inner, here.first.1, object, leads⟩, last, found⟩
      · rintro ⟨rest, j, ⟨i, inner, here, object, leads⟩, last, found⟩
        refine ⟨i, inner, ⟨opening, closing, (onceHere.firstOpenAt_iff nonempty).mpr here⟩, object, ?_⟩
        exact (later (onceLater object)).mpr ⟨rest, j, leads, last, found⟩

theorem refusesAt_iff :
    ((∀ value, ∃ errno, getIntAt jo walkIdx value = .returned (-1) errno value) ∧
      ∀ value, ∃ errno, getStringAt jo walkIdx value = .returned (-1) errno value) ↔ ¬ Readable walkIdx := by
  constructor
  · rintro ⟨noInt, noString⟩ (⟨digits, rest, int⟩ | ⟨q, inner, rest, string⟩)
    · rcases noInt 0 with ⟨errno, failed⟩
      rw [getIntAt_digits int] at failed
      split at failed <;> cases failed
    · rcases noString [] with ⟨errno, failed⟩
      rw [getStringAt_copies string, copyString] at failed
      split at failed <;> cases failed
  · intro unreadable
    exact ⟨fun _ => getIntAt_fails fun int => unreadable (Or.inl int),
      fun _ => getStringAt_fails fun string => unreadable (Or.inr string)⟩

/-- Both calls fail unless the keys find what can be read. -/
theorem refuses_iff {path : CString} (spelled : path.chars = pathText keys) (valid : PathKeys keys) :
    Refuses jo path ↔ ¬ ∃ walkIdx, Finds jo.raw.chars keys walkIdx ∧ Readable walkIdx := by
  have walks := @jsonWalk_path jo path keys spelled valid
  have finds_iff := fun walkIdx => @walkKeys_finds_iff keys walkIdx (fun key listed => (valid.2 key listed).1) jo.raw.chars
  cases walk : walkKeys jo.raw.chars keys with
  | aborted => exact absurd walk (walkKeys_not_aborted valid.1)
  | failed errno =>
      rw [walk] at walks
      refine iff_of_true ⟨fun value => ⟨errno, ?_⟩, fun value => ⟨errno, ?_⟩⟩ ?_
      · rw [jsonGetInt, afterWalk, walks]
      · rw [jsonGetString, afterWalk, walks]
      · rintro ⟨walkIdx, finds, _⟩
        have found := (finds_iff walkIdx).mpr finds
        rw [walk] at found
        cases found
  | found walkIdx =>
      rw [walk] at walks
      have refuses : Refuses jo path ↔ ¬ Readable walkIdx := by
        rw [← @refusesAt_iff walkIdx jo, ← jsonGetInt_found walks, ← jsonGetString_found walks]
        exact ⟨fun refuses => ⟨refuses.int, refuses.string⟩, fun fails => ⟨fails.1, fails.2⟩⟩
      rw [refuses, not_iff_not]
      constructor
      · exact fun readable => ⟨walkIdx, (finds_iff walkIdx).mp walk, readable⟩
      · rintro ⟨other, finds, readable⟩
        have again := (finds_iff other).mpr finds
        rw [walk] at again
        cases again
        exact readable

end Paths

/-! ## Texts of nested objects -/

/-- The blanks around a member: in front of its name, on both sides of the
colon, and behind the value. -/
structure Blanks where
  name : Nat
  colon : Nat
  value : Nat
  behind : Nat
  deriving DecidableEq, Repr

mutual

/-- A text of nested objects. -/
inductive JsonTree where
  | scalar (chars : List UInt8)
  | object (members : JsonMembers) (trail : Nat)

inductive JsonMembers where
  | nil
  | cons (blanks : Blanks) (name : List UInt8) (value : JsonTree) (more : JsonMembers)

end

def blankText (count : Nat) : List UInt8 := List.replicate count 32

mutual

def JsonTree.text : JsonTree -> List UInt8
  | .scalar chars => chars
  | .object members trail => 123 :: (members.text [] ++ (blankText trail ++ [125]))

/-- The members, with a comma in front of each but the first. -/
def JsonMembers.text : List UInt8 -> JsonMembers -> List UInt8
  | _, .nil => []
  | separator, .cons blanks name value more =>
      separator ++ (blankText blanks.name ++ (name ++ (blankText blanks.colon ++
        58 :: (blankText blanks.value ++ (value.text ++ (blankText blanks.behind ++ more.text [44]))))))

end

mutual

/-- Every name in the text, at whatever depth. -/
def JsonTree.names : JsonTree -> List (List UInt8)
  | .scalar _ => []
  | .object members _ => members.names

def JsonMembers.names : JsonMembers -> List (List UInt8)
  | .nil => []
  | .cons _ name value more => name :: (value.names ++ more.names)

end

mutual

/-- Every number and string in the text. -/
def JsonTree.scalars : JsonTree -> List (List UInt8)
  | .scalar chars => [chars]
  | .object members _ => members.scalars

def JsonMembers.scalars : JsonMembers -> List (List UInt8)
  | .nil => []
  | .cons _ _ value more => value.scalars ++ more.scalars

end

/-- The members of this object alone. -/
def JsonMembers.pairs : JsonMembers -> List (List UInt8 × JsonTree)
  | .nil => []
  | .cons _ name value more => (name, value) :: more.pairs

/-- Blanks, commas, colons, braces and quotes. -/
def punctuation : List UInt8 := [32, 44, 58, 123, 125, 39, 34]

/-- A name can be a key of a path. -/
structure IsName (name : List UInt8) : Prop where
  nonempty : name ≠ []
  word : ∀ c ∈ punctuation, c ∉ name
  slash : 47 ∉ name

/-- A word, such as a number, or anything between two quotes but the quote. -/
def IsScalar (chars : List UInt8) : Prop :=
  (chars ≠ [] ∧ ∀ c ∈ punctuation, c ∉ chars) ∨
    ∃ q s, (q = 39 ∨ q = 34) ∧ chars = q :: (s ++ [q]) ∧ q ∉ s

structure JsonTree.WellFormed (tree : JsonTree) : Prop where
  names : ∀ name ∈ tree.names, IsName name
  scalars : ∀ chars ∈ tree.scalars, IsScalar chars

/-- The keys name an object at each step; these are the members of the last. -/
def JsonTree.Reaches : JsonTree -> List (List UInt8) -> JsonMembers -> Prop
  | .scalar _, _, _ => False
  | .object members _, [], reached => members = reached
  | .object members _, key :: keys, reached => ∃ value, (key, value) ∈ members.pairs ∧ value.Reaches keys reached

/-- No name occurs in the text but as the name of one member, and the object
that the first keys reach has no member with the last. -/
structure Scoped (tree : JsonTree) (keys : List (List UInt8)) (key : List UInt8) (reached : JsonMembers) : Prop where
  wellFormed : tree.WellFormed
  once : ∀ name ∈ tree.names, Once name tree.text
  reaches : tree.Reaches keys reached
  missing : key ∉ reached.pairs.map (·.1)
  nonempty : key ≠ []
  slash : 47 ∉ key

section Trees

variable {tree value : JsonTree} {members reached : JsonMembers} {keys : List (List UInt8)} {name key : List UInt8}

theorem names_of_mem_pairs : ∀ {members : JsonMembers}, (name, value) ∈ members.pairs ->
    name ∈ members.names ∧ value.names ⊆ members.names ∧ value.scalars ⊆ members.scalars
  | .nil, listed => by cases listed
  | .cons blanks first child more, listed => by
      rw [JsonMembers.names, JsonMembers.scalars]
      rcases List.mem_cons.mp listed with own | later
      · cases own
        exact ⟨List.mem_cons_self, fun _ inside => List.mem_cons_of_mem _ (List.mem_append_left _ inside),
          fun _ inside => List.mem_append_left _ inside⟩
      · rcases names_of_mem_pairs later with ⟨here, names, scalars⟩
        exact ⟨List.mem_cons_of_mem _ (List.mem_append_right _ here),
          fun _ inside => List.mem_cons_of_mem _ (List.mem_append_right _ (names inside)),
          fun _ inside => List.mem_append_right _ (scalars inside)⟩

/-- The keys of a path that reaches an object are names. -/
theorem names_of_reaches : ∀ {keys : List (List UInt8)} {tree : JsonTree}, tree.Reaches keys reached ->
    ∀ key ∈ keys, key ∈ tree.names := by
  intro keys
  induction keys with
  | nil => exact fun _ _ listed => absurd listed List.not_mem_nil
  | cons own keys inductionHypothesis =>
      intro tree reaches key listed
      cases tree with
      | scalar chars => cases reaches
      | object members trail =>
          rcases reaches with ⟨value, member, reaches⟩
          rcases names_of_mem_pairs member with ⟨here, names, _⟩
          rcases List.mem_cons.mp listed with rfl | later
          · exact here
          · exact names (inductionHypothesis reaches key later)

/-- A member that the object does not have is refused exactly when the path
does not lead astray. -/
theorem jsonGet_missing_iff {jo : JsonObject} {path : CString} (scope : Scoped tree keys key reached)
    (whole : jo.raw.chars = tree.text) (spelled : path.chars = pathText (keys ++ [key])) :
    Refuses jo path ↔ ¬ Astray tree.text keys key := by
  have names : ∀ name ∈ keys, IsName name := fun name listed =>
    scope.wellFormed.names name (names_of_reaches scope.reaches name listed)
  have valid : PathKeys (keys ++ [key]) := by
    refine ⟨by simp, fun name listed => ?_⟩
    rcases List.mem_append.mp listed with inside | last
    · exact ⟨(names name inside).nonempty, (names name inside).slash⟩
    · rw [List.mem_singleton.mp last]
      exact ⟨scope.nonempty, scope.slash⟩
  have unbraced : ∀ name ∈ keys, name ≠ [] ∧ name.head? ≠ some 123 ∧ name.head? ≠ some 125 := by
    intro name listed
    have word := (names name listed).word
    exact ⟨(names name listed).nonempty, fun first => word 123 (by decide) (List.mem_of_mem_head? first),
      fun first => word 125 (by decide) (List.mem_of_mem_head? first)⟩
  have once : ∀ name ∈ keys, Once name tree.text := fun name listed =>
    scope.once name (names_of_reaches scope.reaches name listed)
  rw [refuses_iff spelled valid, whole, not_iff_not]
  constructor
  · rintro ⟨walkIdx, finds, readable⟩
    rcases (finds_append_iff unbraced once).mp finds with ⟨rest, i, leads, last, rfl⟩
    exact ⟨rest, i, leads, last, readable⟩
  · rintro ⟨rest, i, leads, last, readable⟩
    exact ⟨_, (finds_append_iff unbraced once).mpr ⟨rest, i, leads, last, rfl⟩, readable⟩

end Trees

private def bodyBlanks (name : Nat) : Blanks := ⟨name, 0, 1, 0⟩

/-- `{a: {x: 1}, b: {y: 2}}` -/
private def siblings : JsonTree :=
  .object
    (.cons (bodyBlanks 0) (ascii "a") (.object (.cons (bodyBlanks 0) (ascii "x") (.scalar (ascii "1")) .nil) 0)
      (.cons (bodyBlanks 1) (ascii "b") (.object (.cons (bodyBlanks 0) (ascii "y") (.scalar (ascii "2")) .nil) 0)
        .nil)) 0

private theorem siblings_nulFree : (0 : UInt8) ∉ siblings.text := by decide +kernel

private def siblingsObject : JsonObject := jsonObjectNew ⟨siblings.text, siblings_nulFree⟩

private theorem siblings_wellFormed : siblings.WellFormed := by
  have names : ∀ name ∈ siblings.names, name ≠ [] ∧ (∀ c ∈ punctuation, c ∉ name) ∧ 47 ∉ name := by decide +kernel
  have numbers : ∀ chars ∈ siblings.scalars, chars ≠ [] ∧ ∀ c ∈ punctuation, c ∉ chars := by decide +kernel
  constructor
  · exact fun name listed => ⟨(names name listed).1, (names name listed).2.1, (names name listed).2.2⟩
  · exact fun chars listed => Or.inl (numbers chars listed)

private theorem siblings_once : ∀ name ∈ siblings.names, Once name siblings.text := by decide +kernel

private theorem siblingPath_nulFree : (0 : UInt8) ∉ ascii "/b/x" := by decide

private theorem strayPath_nulFree : (0 : UInt8) ∉ ascii "/a/y" := by decide

theorem jsonGet_missing_iff_sibling : Refuses siblingsObject ⟨ascii "/b/x", siblingPath_nulFree⟩ := by
  have scope : Scoped siblings [ascii "b"] (ascii "x")
      (.cons (bodyBlanks 0) (ascii "y") (.scalar (ascii "2")) .nil) :=
    ⟨siblings_wellFormed, siblings_once, ⟨_, List.mem_cons_of_mem _ List.mem_cons_self, rfl⟩, by decide, by decide,
      by decide⟩
  refine (jsonGet_missing_iff scope rfl (by decide)).mpr ?_
  rintro ⟨rest, i, ⟨j, inner, here, object, rfl⟩, last, _⟩
  -- the member x stands in front of the object
  have behind : ∀ j < siblings.text.length, OpenAt (ascii "b") 0 siblings.text j ->
      120 ∉ siblings.text.drop (j + 1) := by decide +kernel
  refine behind j (here.lt (by decide)) here ?_
  refine (List.dropWhile_suffix isGap).subset ?_
  change 120 ∈ (siblings.text.drop (j + (ascii "b").length)).dropWhile isGap
  rw [object]
  exact List.mem_of_mem_drop (last.first.1.1.subset List.mem_cons_self)

/-- The member of a later object is returned. -/
theorem laterObject_read : ¬ ∀ (jo : JsonObject) (path : CString) (tree : JsonTree) (keys : List (List UInt8))
    (key : List UInt8) (reached : JsonMembers), Scoped tree keys key reached -> jo.raw.chars = tree.text ->
      path.chars = pathText (keys ++ [key]) -> Refuses jo path := by
  intro always
  have refuses := always siblingsObject ⟨ascii "/a/y", strayPath_nulFree⟩ siblings [ascii "a"] (ascii "y")
    (.cons (bodyBlanks 0) (ascii "x") (.scalar (ascii "1")) .nil)
    ⟨siblings_wellFormed, siblings_once, ⟨_, List.mem_cons_self, rfl⟩, by decide, by decide, by decide⟩ rfl (by decide)
  rcases refuses.int 0 with ⟨errno, failed⟩
  have two : jsonGetInt siblingsObject ⟨ascii "/a/y", strayPath_nulFree⟩ 0 = .returned 0 .ok 2 := by decide +kernel
  rw [two] at failed
  cases failed

/-! ## Strings without braces -/

/-- A text without a brace. -/
def Unbraced (text : List UInt8) : Prop := 123 ∉ text ∧ 125 ∉ text

theorem Unbraced.level {text : List UInt8} (unbraced : Unbraced text) : Json.level text = 0 := by
  rw [Json.level, List.count_eq_zero_of_not_mem unbraced.1, List.count_eq_zero_of_not_mem unbraced.2]
  rfl

@[simp] theorem level_blankText (count : Nat) : level (blankText count) = 0 := by
  have blank : ∀ c ∈ blankText count, c = 32 := fun _ inside => List.eq_of_mem_replicate inside
  refine Unbraced.level ⟨fun inside => ?_, fun inside => ?_⟩
  · exact absurd (blank _ inside) (by decide)
  · exact absurd (blank _ inside) (by decide)

mutual

/-- A text of nested objects closes what it opens. -/
theorem level_text : ∀ {tree : JsonTree}, (∀ name ∈ tree.names, Unbraced name) ->
    (∀ chars ∈ tree.scalars, Unbraced chars) -> level tree.text = 0
  | .scalar chars, _, scalars => (scalars chars List.mem_cons_self).level
  | .object members trail, names, scalars => by
      have inner := level_membersText names scalars ⟨List.not_mem_nil, List.not_mem_nil⟩
      rw [JsonTree.text, level_cons]
      simp [inner, level_cons]

theorem level_membersText : ∀ {members : JsonMembers} {separator : List UInt8},
    (∀ name ∈ members.names, Unbraced name) -> (∀ chars ∈ members.scalars, Unbraced chars) -> Unbraced separator ->
      level (members.text separator) = 0
  | .nil, _, _, _, _ => rfl
  | .cons blanks name value more, separator, names, scalars, plain => by
      rw [JsonMembers.names, List.forall_mem_cons, List.forall_mem_append] at names
      rw [JsonMembers.scalars, List.forall_mem_append] at scalars
      have comma : Unbraced [44] := ⟨by decide, by decide⟩
      have inner := level_text names.2.1 scalars.1
      have later := level_membersText names.2.2 scalars.2 comma
      rw [JsonMembers.text]
      simp [level_cons, plain.level, names.1.level, inner, later]

end

section Unbraced

variable {tree value : JsonTree} {members reached : JsonMembers} {keys : List (List UInt8)} {name key : List UInt8}

/-- A member in the text of its object. -/
theorem text_of_mem_pairs : ∀ {members : JsonMembers} {separator : List UInt8}, (name, value) ∈ members.pairs ->
    (∀ name ∈ members.names, Unbraced name) -> (∀ chars ∈ members.scalars, Unbraced chars) -> Unbraced separator ->
      ∃ front gap behind, members.text separator = front ++ (name ++ (gap ++ (value.text ++ behind))) ∧
        level front = 0 ∧ ∀ c ∈ gap, isGap c = true
  | .nil, _, listed, _, _, _ => by cases listed
  | .cons blanks first child more, separator, listed, names, scalars, plain => by
      rw [JsonMembers.names, List.forall_mem_cons, List.forall_mem_append] at names
      rw [JsonMembers.scalars, List.forall_mem_append] at scalars
      rcases List.mem_cons.mp listed with own | later
      · cases own
        refine ⟨separator ++ blankText blanks.name, blankText blanks.colon ++ 58 :: blankText blanks.value,
          blankText blanks.behind ++ more.text [44], ?_, ?_, ?_⟩
        · simp only [JsonMembers.text, List.append_assoc, List.cons_append]
        · rw [level_append, plain.level, level_blankText]
          rfl
        · intro c inside
          rcases List.mem_append.mp inside with blank | rest
          · rw [List.eq_of_mem_replicate blank]
            rfl
          · rcases List.mem_cons.mp rest with rfl | blank
            · rfl
            · rw [List.eq_of_mem_replicate blank]
              rfl
      · have comma : Unbraced [44] := ⟨by decide, by decide⟩
        rcases text_of_mem_pairs later names.2.2 scalars.2 comma with ⟨front, gap, behind, shape, flat, gaps⟩
        refine ⟨separator ++ (blankText blanks.name ++ (first ++ (blankText blanks.colon ++
          58 :: (blankText blanks.value ++ (child.text ++ (blankText blanks.behind ++ front)))))),
          gap, behind, ?_, ?_, gaps⟩
        · rw [JsonMembers.text, shape]
          simp only [List.append_assoc, List.cons_append]
        · simp [level_cons, plain.level, names.1.level, level_text names.2.1 scalars.1, flat]

/-- As long as no string has a brace in it, the keys lead to the object that
they reach, so that the last key alone can lead astray. -/
theorem leadsTo_of_reaches :
    ∀ {keys : List (List UInt8)} {tree : JsonTree}, tree.Reaches keys reached ->
      (∀ name ∈ tree.names, Unbraced name) -> (∀ chars ∈ tree.scalars, Unbraced chars) ->
        ∀ behind, ∃ trail behind',
          LeadsTo (tree.text ++ behind) keys ((JsonTree.object reached trail).text ++ behind') := by
  intro keys
  induction keys with
  | nil =>
      intro tree reaches _ _ behind
      cases tree with
      | scalar chars => cases reaches
      | object members trail =>
          cases reaches
          exact ⟨trail, behind, rfl⟩
  | cons key keys inductionHypothesis =>
      intro tree reaches names scalars behind
      cases tree with
      | scalar chars => cases reaches
      | object members trail =>
          rcases reaches with ⟨value, listed, reaches⟩
          rcases text_of_mem_pairs listed names scalars ⟨List.not_mem_nil, List.not_mem_nil⟩ with
            ⟨front, gap, more, shape, flat, gaps⟩
          rcases names_of_mem_pairs listed with ⟨_, inNames, inScalars⟩
          rcases inductionHypothesis reaches (fun name inside => names name (inNames inside))
            (fun chars inside => scalars chars (inScalars inside)) (more ++ (blankText trail ++ [125]) ++ behind)
            with ⟨last, behind', leads⟩
          obtain ⟨inner, opened⟩ : ∃ inner, value.text = 123 :: inner := by
            cases value with
            | scalar chars => cases keys <;> cases reaches
            | object members trail => exact ⟨_, rfl⟩
          have whole : (JsonTree.object members trail).text ++ behind =
              (123 :: front) ++ (key ++ (gap ++ (value.text ++ (more ++ (blankText trail ++ [125]) ++ behind)))) := by
            rw [JsonTree.text, shape]
            simp only [List.append_assoc, List.cons_append]
          refine ⟨last, behind', (123 :: front).length, inner ++ (more ++ (blankText trail ++ [125]) ++ behind),
            ?_, ?_, ?_⟩
          · rw [OpenAt, whole, List.drop_left, List.take_left, level_cons, flat]
            exact ⟨List.prefix_append _ _, rfl⟩
          · rw [whole, ← List.drop_drop, List.drop_left, List.drop_left, List.dropWhile_append_of_pos gaps, opened,
              List.cons_append, List.dropWhile_cons_of_neg (by decide)]
          · rw [opened] at leads
            exact leads

end Unbraced

end Json
end Extlib
