import SchemaSets.Validator.Description
import SchemaSets.Error
import SchemaSets.Names

/-!
# Compiled sets and the shelf they stand on

A compiled set maps names to entries, each a validator with its description.
Sets that are in use stand on a shelf under a number.  A handle is such a
number: it resolves names while the set stands on the shelf and nothing before
or after.  A set under construction and a set that was dropped are thus the
same to a handle, not on the shelf.
-/

namespace SchemaSets

/-- The compiled form of one named element. -/
structure Entry where
  name : String
  validator : Validator
  description : String

/-- An entry with the description of its validator. -/
def Entry.of (name : String) (validator : Validator) : Entry :=
  ⟨name, validator, validator.describe⟩

/-- Names and their compiled entries, in name order. -/
structure CompiledSet where
  entries : List (String × Entry)

namespace CompiledSet

/-- The set of named validators. -/
def ofValidators (validators : List (String × Validator)) : CompiledSet :=
  ⟨validators.map fun v => (v.1, Entry.of v.1 v.2)⟩

/-- The entry of a name. -/
def get? (set : CompiledSet) (name : String) : Option Entry := Keyed.find? name set.entries

/-- The entry of a name, or the error that there is none. -/
def entry (set : CompiledSet) (name : String) : Except SchemaError Entry :=
  match set.get? name with
  | some entry => .ok entry
  | none => .error (.unknownEntry name)

/-- Whether the set has an entry of that name. -/
def contains (set : CompiledSet) (name : String) : Bool := Keyed.contains name set.entries

/-- The names, in order. -/
def names (set : CompiledSet) : List String := Keyed.keys set.entries

/-- The number of entries. -/
def size (set : CompiledSet) : Nat := set.entries.length

/-- The description of every entry. -/
def describe (set : CompiledSet) : List (String × String) :=
  set.entries.map fun e => (e.1, e.2.description)

/-- The set as a map from quoted names to quoted descriptions, for a reader who
debugs. -/
def outline (set : CompiledSet) : String :=
  "\x7b" ++ ", ".intercalate
    (set.describe.map fun d => Text.quote d.1 ++ ": " ++ Text.quote d.2) ++ "\x7d"

end CompiledSet

/-- The compiled sets in use, by number. -/
structure Shelf where
  sets : List (Nat × CompiledSet) := []

namespace Shelf

/-- The set of a number, while it stands on the shelf. -/
def find? (shelf : Shelf) (id : Nat) : Option CompiledSet :=
  (shelf.sets.find? fun s => s.1 = id).map (·.2)

/-- The set behind a handle. -/
def set? (shelf : Shelf) : Handle → Option CompiledSet
  | .detached => none
  | .ofSet id => shelf.find? id

/-- Whether a handle resolves anything. -/
def isAvailable (shelf : Shelf) (handle : Handle) : Bool := (shelf.set? handle).isSome

/-- The shelf with a set under a number of its own. -/
def put (shelf : Shelf) (id : Nat) (set : CompiledSet) : Shelf := ⟨(id, set) :: shelf.sets⟩

/-- A set that was put on the shelf stands there. -/
theorem set?_put (shelf : Shelf) (id : Nat) (set : CompiledSet) :
    (shelf.put id set).set? (.ofSet id) = some set := by
  simp [put, set?, find?]

/-- The shelf without the set of that number. -/
def drop (shelf : Shelf) (id : Nat) : Shelf := ⟨shelf.sets.filter fun s => s.1 ≠ id⟩

/-- What a name stands for behind a handle, on behalf of the entry `owner`. -/
def resolve (shelf : Shelf) (handle : Handle) (target owner : String) :
    Except ReferenceError Entry :=
  match shelf.set? handle with
  | none => .error (.unavailable target)
  | some set =>
    match set.get? target with
    | some entry => .ok entry
    | none => .error (.unresolved target owner set.names)

/-- The names of all entries of all sets on the shelf. -/
def names (shelf : Shelf) : List String := shelf.sets.flatMap fun s => s.2.names

/-- How many names on the shelf are not in a list. -/
def fresh (shelf : Shelf) (followed : List String) : Nat := freshAmong shelf.names followed

/-- A name that resolves is a name on the shelf. -/
theorem mem_names_of_resolve {shelf : Shelf} {handle : Handle} {target owner : String}
    {entry : Entry} (h : shelf.resolve handle target owner = .ok entry) :
    target ∈ shelf.names := by
  unfold resolve at h
  split at h
  · cases h
  · rename_i set hset
    split at h
    · rename_i found hfound
      cases handle with
      | detached => simp [set?] at hset
      | ofSet id =>
        simp only [set?, find?, Option.map_eq_some_iff] at hset
        obtain ⟨numbered, hmem, rfl⟩ := hset
        refine List.mem_flatMap.2 ⟨numbered, List.mem_of_find?_eq_some hmem, ?_⟩
        exact Keyed.mem_keys_of_find? hfound
    · cases h

/-- Following one more name leaves no more names to follow. -/
theorem fresh_cons_le (shelf : Shelf) (name : String) (followed : List String) :
    shelf.fresh (name :: followed) ≤ shelf.fresh followed :=
  freshAmong_cons_le _ _ _

/-- Following a new name of the shelf leaves fewer names to follow. -/
theorem fresh_cons_lt {shelf : Shelf} {name : String} {followed : List String}
    (hmem : name ∈ shelf.names) (hnew : name ∉ followed) :
    shelf.fresh (name :: followed) < shelf.fresh followed :=
  freshAmong_cons_lt hmem hnew

/-- No more names can be followed than there are. -/
theorem fresh_le (shelf : Shelf) (followed : List String) :
    shelf.fresh followed ≤ shelf.names.length :=
  List.length_filter_le _ _

end Shelf
end SchemaSets
