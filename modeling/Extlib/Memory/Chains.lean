import Mathlib.Data.List.Nodup

namespace Extlib
namespace Memory

/-!
# Tables of chained buckets

A key belongs to one of `count` buckets, and a bucket is a chain of entries
that is searched from its head.  A search and an insertion at the head come to
the same bucket for the same key, so the table is a map from keys to entries,
however many keys share a bucket.  When an entry is only ever added for a key
that has none, each key has one entry, in its own bucket, and the table is a
map that is written at most once for each key.
-/

variable {Key Value Entry : Type*} [DecidableEq Key]

/-! ## Maps written once -/

/-- What has been written for each key. -/
abbrev OnceMap (Key Value : Type*) := Key -> Option Value

namespace OnceMap

def empty : OnceMap Key Value := fun _ => none

/-- Only the first write for a key counts. -/
def write (map : OnceMap Key Value) (key : Key) (value : Value) : OnceMap Key Value := fun other =>
  (map other).or (if key = other then some value else none)

/-- A write for a key that has been written changes nothing. -/
theorem write_of_written {map : OnceMap Key Value} {key : Key} (written : (map key).isSome) (value : Value) :
    map.write key value = map := by
  funext other
  rw [write]
  by_cases same : key = other
  · subst same
    exact Option.or_of_isSome written
  · rw [if_neg same, Option.or_none]

theorem write_of_fresh {map : OnceMap Key Value} {key : Key} (fresh : map key = none) (value : Value) (other : Key) :
    map.write key value other = if key = other then some value else map other := by
  rw [write]
  by_cases same : key = other
  · subst same
    rw [fresh, Option.none_or]
  · rw [if_neg same, if_neg same, Option.or_none]

/-- After any writes a key has what it had, or else the value of the first
write for it. -/
theorem foldl_write (writes : List (Key × Value)) (key : Key) :
    ∀ map : OnceMap Key Value, (writes.foldl (fun map entry => map.write entry.1 entry.2) map) key =
      (map key).or ((writes.find? (·.1 = key)).map (·.2)) := by
  induction writes with
  | nil => exact fun map => (Option.or_none).symm
  | cons entry writes inductionHypothesis =>
      intro map
      rw [List.foldl_cons, inductionHypothesis, write, Option.or_assoc]
      congr 1
      by_cases same : entry.1 = key
      · rw [List.find?_cons_of_pos (by exact decide_eq_true same), if_pos same]
        rfl
      · rw [List.find?_cons_of_neg (by simpa using same), if_neg same, Option.none_or]

end OnceMap

/-! ## Chains -/

/-- How the entries of a table are filed. -/
structure Filing (Key Entry : Type*) (count : Nat) where
  keyOf : Entry -> Key
  bucketOf : Key -> Fin count

variable {count : Nat}

namespace Filing

variable (filing : Filing Key Entry count)

/-- The first entry of the key in its bucket. -/
def find (table : Vector (List Entry) count) (key : Key) : Option Entry :=
  table[filing.bucketOf key].find? (filing.keyOf · = key)

/-- Put an entry at the head of the bucket of its key. -/
def addHead (table : Vector (List Entry) count) (entry : Entry) : Vector (List Entry) count :=
  let bucket := filing.bucketOf (filing.keyOf entry)
  table.set bucket (entry :: table[bucket])

/-- Every key has one entry at most, and that is in its own bucket. -/
structure Filed (table : Vector (List Entry) count) : Prop where
  own : ∀ bucket : Fin count, ∀ entry ∈ table[bucket], filing.bucketOf (filing.keyOf entry) = bucket
  once : ∀ bucket : Fin count, (table[bucket].map filing.keyOf).Nodup

variable {filing} {table : Vector (List Entry) count}

omit [DecidableEq Key] in
theorem getElem_addHead (entry : Entry) (bucket : Fin count) :
    (filing.addHead table entry)[bucket] =
      if filing.bucketOf (filing.keyOf entry) = bucket then entry :: table[bucket] else table[bucket] := by
  simp only [addHead, Fin.getElem_fin]
  by_cases same : filing.bucketOf (filing.keyOf entry) = bucket
  · subst same
    rw [if_pos rfl, Vector.getElem_set_self]
  · rw [if_neg same, Vector.getElem_set_ne]
    intro equal
    exact same (Fin.ext equal)

omit [DecidableEq Key] in
theorem exists_mem_addHead {entry other : Entry} :
    (∃ bucket : Fin count, other ∈ (filing.addHead table entry)[bucket]) ↔
      other = entry ∨ ∃ bucket : Fin count, other ∈ table[bucket] := by
  constructor
  · rintro ⟨bucket, member⟩
    rw [getElem_addHead] at member
    split at member
    · rcases List.mem_cons.mp member with new | old
      · exact Or.inl new
      · exact Or.inr ⟨bucket, old⟩
    · exact Or.inr ⟨bucket, member⟩
  · intro either
    rcases either with new | ⟨bucket, old⟩
    · refine ⟨filing.bucketOf (filing.keyOf entry), ?_⟩
      rw [getElem_addHead, if_pos rfl, new]
      exact List.mem_cons_self
    · refine ⟨bucket, ?_⟩
      rw [getElem_addHead]
      split
      · exact List.mem_cons_of_mem _ old
      · exact old

/-- A search for another key does not see the new entry, whether it is in the
same bucket or not. -/
theorem find_addHead (entry : Entry) (key : Key) :
    filing.find (filing.addHead table entry) key =
      if filing.keyOf entry = key then some entry else filing.find table key := by
  rw [find, getElem_addHead]
  by_cases same : filing.keyOf entry = key
  · rw [if_pos same, if_pos (congrArg filing.bucketOf same), List.find?_cons_of_pos (by exact decide_eq_true same)]
  · rw [if_neg same]
    split
    · rw [List.find?_cons_of_neg (by simpa using same)]
      rfl
    · rfl

theorem keyOf_of_find {key : Key} {entry : Entry} (found : filing.find table key = some entry) :
    filing.keyOf entry = key := by
  rw [find] at found
  have matched := List.find?_some found
  exact of_decide_eq_true matched

theorem find_eq_none_iff {key : Key} :
    filing.find table key = none ↔ key ∉ table[filing.bucketOf key].map filing.keyOf := by
  rw [find, List.find?_eq_none]
  constructor
  · intro unmatched listed
    rcases List.mem_map.mp listed with ⟨entry, member, same⟩
    exact unmatched entry member (decide_eq_true same)
  · intro absent entry member same
    exact absent (List.mem_map.mpr ⟨entry, member, of_decide_eq_true same⟩)

omit [DecidableEq Key] in
theorem filed_empty : filing.Filed (Vector.replicate count []) where
  own bucket entry member := by
    rw [Fin.getElem_fin, Vector.getElem_replicate] at member
    cases member
  once bucket := by
    rw [Fin.getElem_fin, Vector.getElem_replicate]
    exact List.nodup_nil

/-- An entry for a key that has none may be added. -/
theorem Filed.addHead (filed : filing.Filed table) {entry : Entry}
    (fresh : filing.find table (filing.keyOf entry) = none) : filing.Filed (filing.addHead table entry) where
  own bucket other member := by
    rw [getElem_addHead] at member
    split at member
    case isTrue here =>
      rcases List.mem_cons.mp member with new | old
      · rw [new, here]
      · exact filed.own bucket other old
    case isFalse => exact filed.own bucket other member
  once bucket := by
    rw [getElem_addHead]
    split
    case isTrue here =>
      subst here
      rw [List.map_cons]
      exact List.nodup_cons.mpr ⟨find_eq_none_iff.mp fresh, filed.once _⟩
    case isFalse => exact filed.once bucket

/-- A search finds whatever the table holds. -/
theorem Filed.find_eq_some_iff (filed : filing.Filed table) {entry : Entry} :
    filing.find table (filing.keyOf entry) = some entry ↔ ∃ bucket : Fin count, entry ∈ table[bucket] := by
  constructor
  · intro found
    exact ⟨_, List.mem_of_find?_eq_some found⟩
  · rintro ⟨bucket, member⟩
    have here := filed.own bucket entry member
    subst here
    cases found : filing.find table (filing.keyOf entry) with
    | none => exact absurd (List.mem_map_of_mem member) (find_eq_none_iff.mp found)
    | some other =>
        have alike := List.inj_on_of_nodup_map (filed.once _) (List.mem_of_find?_eq_some found) member
          (keyOf_of_find found)
        rw [alike]

end Filing

end Memory
end Extlib
