/-!
# Association lists in key order

Every mapping of this library is a list of pairs whose keys ascend strictly in
code-point order.  Keeping the order in the data makes two equal mappings equal
lists, and makes the order in which attributes are visited, described and
written a property of the data and not of the traversal.

The order is a predicate, `Keyed.Sorted`, and not part of a type: mappings
occur inside the recursive types of schema elements, validators and values,
where a list of pairs is the form that recursion understands.  `insert` and
`ofList` produce sorted lists.
-/

namespace SchemaSets.Keyed

universe u v

/-- Keys ascend strictly. -/
def Sorted {α : Type u} (entries : List (String × α)) : Prop :=
  entries.Pairwise fun a b => a.1 < b.1

/-- The value at a key. -/
def find? {α : Type u} (key : String) : List (String × α) → Option α
  | [] => none
  | (k, v) :: rest => if k = key then some v else find? key rest

/-- Whether a key occurs. -/
def contains {α : Type u} (key : String) (entries : List (String × α)) : Bool :=
  (find? key entries).isSome

/-- The mapping with `key` sent to `value`, at its place in the order. -/
def insert {α : Type u} (key : String) (value : α) : List (String × α) → List (String × α)
  | [] => [(key, value)]
  | (k, v) :: rest =>
    if key < k then (key, value) :: (k, v) :: rest
    else if key = k then (key, value) :: rest
    else (k, v) :: insert key value rest

/-- The mapping without `key`. -/
def erase {α : Type u} (key : String) (entries : List (String × α)) : List (String × α) :=
  entries.filter fun entry => entry.1 ≠ key

/-- The mapping of a list of pairs; of two pairs with one key the later wins. -/
def ofList {α : Type u} (entries : List (String × α)) : List (String × α) :=
  entries.foldl (fun acc entry => insert entry.1 entry.2 acc) []

/-- The keys, in order. -/
def keys {α : Type u} (entries : List (String × α)) : List String := entries.map (·.1)

/-- A key that is found is one of the keys. -/
theorem mem_keys_of_find? {α : Type u} {key : String} {value : α}
    {entries : List (String × α)} (h : find? key entries = some value) :
    key ∈ keys entries := by
  induction entries with
  | nil => simp [find?] at h
  | cons entry rest ih =>
    obtain ⟨k, v⟩ := entry
    simp only [find?] at h
    split at h
    · simp_all [keys]
    · have := ih h
      simp_all [keys]

/-- What is found at a key is listed under it. -/
theorem mem_of_find? {α : Type u} {key : String} {value : α} {entries : List (String × α)}
    (h : find? key entries = some value) : (key, value) ∈ entries := by
  induction entries with
  | nil => simp [find?] at h
  | cons entry rest ih =>
    obtain ⟨k, v⟩ := entry
    simp only [find?] at h
    split at h
    · simp_all
    · exact List.mem_cons_of_mem _ (ih h)

/-- What is listed under a key of a sorted mapping is found at it. -/
theorem find?_of_mem {α : Type u} {key : String} {value : α} {entries : List (String × α)}
    (hsorted : Sorted entries) (h : (key, value) ∈ entries) :
    find? key entries = some value := by
  induction entries with
  | nil => cases h
  | cons entry rest ih =>
    obtain ⟨k, v⟩ := entry
    have hbelow := (List.pairwise_cons.1 hsorted).1
    rcases List.mem_cons.1 h with heq | hrest
    · cases heq
      simp [find?]
    · have hne : k ≠ key := fun heq => String.lt_irrefl key (heq ▸ hbelow _ hrest)
      rw [find?, if_neg hne]
      exact ih (List.pairwise_cons.1 hsorted).2 hrest

/-- A key occurs exactly if it is one of the keys. -/
theorem contains_iff {α : Type u} {key : String} {entries : List (String × α)} :
    contains key entries = true ↔ key ∈ keys entries := by
  induction entries with
  | nil => simp [contains, find?, keys]
  | cons entry rest ih =>
    obtain ⟨k, v⟩ := entry
    by_cases h : k = key
    · simp [contains, find?, keys, h]
    · have hne : key ≠ k := Ne.symm h
      simpa [contains, find?, keys, h, hne] using ih

/-- What is found after an insertion: the new value at its key, and at other
keys what was there. -/
theorem find?_insert {α : Type u} (key other : String) (value : α)
    (entries : List (String × α)) :
    find? other (insert key value entries) =
      if key = other then some value else find? other entries := by
  induction entries with
  | nil => rfl
  | cons entry rest ih =>
    obtain ⟨k, v⟩ := entry
    by_cases hlt : key < k
    · simp [insert, hlt, find?]
    · by_cases heq : key = k
      · subst heq
        rw [insert, if_neg hlt, if_pos rfl]
        by_cases hother : key = other <;> simp [find?, hother]
      · simp only [insert, if_neg hlt, if_neg heq, find?, ih]
        by_cases hk : k = other
        · have hne : key ≠ other := fun h => heq (h.trans hk.symm)
          simp [hk, hne]
        · simp [hk]

/-- Inserting adds the one key. -/
theorem mem_keys_insert {α : Type u} {key other : String} {value : α}
    {entries : List (String × α)} :
    other ∈ keys (insert key value entries) ↔ other = key ∨ other ∈ keys entries := by
  rw [← contains_iff, ← contains_iff, contains, contains, find?_insert]
  by_cases h : key = other
  · simp [h]
  · have hne : other ≠ key := Ne.symm h
    simp [h, hne]

/-- An insertion adds one pair and no other. -/
theorem mem_of_mem_insert {α : Type u} {key : String} {value : α} {entry : String × α}
    {entries : List (String × α)} (h : entry ∈ insert key value entries) :
    entry = (key, value) ∨ entry ∈ entries := by
  induction entries with
  | nil => exact .inl (List.mem_singleton.1 h)
  | cons first rest ih =>
    obtain ⟨k, v⟩ := first
    by_cases hlt : key < k
    · rw [insert, if_pos hlt] at h
      exact List.mem_cons.1 h
    · by_cases heq : key = k
      · rw [insert, if_neg hlt, if_pos heq] at h
        exact (List.mem_cons.1 h).imp id (List.mem_cons_of_mem _)
      · rw [insert, if_neg hlt, if_neg heq] at h
        rcases List.mem_cons.1 h with rfl | hrest
        · exact .inr List.mem_cons_self
        · exact (ih hrest).imp id (List.mem_cons_of_mem _)

/-- An insertion keeps the order. -/
theorem sorted_insert {α : Type u} {entries : List (String × α)} (h : Sorted entries)
    (key : String) (value : α) : Sorted (insert key value entries) := by
  induction entries with
  | nil => exact List.pairwise_singleton ..
  | cons first rest ih =>
    obtain ⟨k, v⟩ := first
    obtain ⟨hbelow, hrest⟩ := List.pairwise_cons.1 h
    by_cases hlt : key < k
    · rw [insert, if_pos hlt]
      refine List.pairwise_cons.2 ⟨fun entry hentry => ?_, h⟩
      rcases List.mem_cons.1 hentry with rfl | hlater
      · exact hlt
      · exact String.lt_trans hlt (hbelow entry hlater)
    · by_cases heq : key = k
      · rw [insert, if_neg hlt, if_pos heq]
        subst heq
        exact List.pairwise_cons.2 ⟨hbelow, hrest⟩
      · rw [insert, if_neg hlt, if_neg heq]
        have hgt : k < key := Std.lt_of_le_of_ne (Std.not_lt.1 hlt) (Ne.symm heq)
        refine List.pairwise_cons.2 ⟨fun entry hentry => ?_, ih hrest⟩
        rcases mem_of_mem_insert hentry with rfl | hold
        · exact hgt
        · exact hbelow entry hold

/-- A mapping of pairs is in key order and has no other pairs. -/
theorem sorted_ofList {α : Type u} (entries : List (String × α)) :
    Sorted (ofList entries) ∧ ∀ entry ∈ ofList entries, entry ∈ entries := by
  have hfold : ∀ acc : List (String × α), Sorted acc →
      Sorted (entries.foldl (fun acc entry => insert entry.1 entry.2 acc) acc) ∧
        ∀ entry ∈ entries.foldl (fun acc entry => insert entry.1 entry.2 acc) acc,
          entry ∈ acc ∨ entry ∈ entries := by
    induction entries with
    | nil => exact fun acc hacc => ⟨hacc, fun entry hentry => .inl hentry⟩
    | cons first rest ih =>
      intro acc hacc
      obtain ⟨hsorted, hmem⟩ := ih _ (sorted_insert hacc first.1 first.2)
      refine ⟨hsorted, fun entry hentry => ?_⟩
      rcases hmem entry hentry with hacc | hrest
      · rcases mem_of_mem_insert hacc with rfl | hold
        · exact .inr List.mem_cons_self
        · exact .inl hold
      · exact .inr (List.mem_cons_of_mem _ hrest)
  obtain ⟨hsorted, hmem⟩ := hfold [] List.Pairwise.nil
  exact ⟨hsorted, fun entry hentry => (hmem entry hentry).resolve_left List.not_mem_nil⟩

/-- The same keys with each value replaced. -/
def mapValues {α : Type u} {β : Type v} (f : String → α → β) (entries : List (String × α)) :
    List (String × β) :=
  entries.map fun entry => (entry.1, f entry.1 entry.2)

/-- Replacing values keeps the keys. -/
theorem keys_mapValues {α : Type u} {β : Type v} (f : String → α → β)
    (entries : List (String × α)) : keys (mapValues f entries) = keys entries := by
  rw [keys, keys, mapValues, List.map_map]
  rfl

/-- Replacing values keeps the order. -/
theorem sorted_mapValues {α : Type u} {β : Type v} {entries : List (String × α)}
    (h : Sorted entries) (f : String → α → β) : Sorted (mapValues f entries) :=
  List.pairwise_map.2 h

/-- The keys of a mapping are those of the pairs it is made from. -/
theorem mem_keys_ofList {α : Type u} {key : String} {entries : List (String × α)} :
    key ∈ keys (ofList entries) ↔ key ∈ keys entries := by
  have hfold : ∀ acc : List (String × α),
      key ∈ keys (entries.foldl (fun acc entry => insert entry.1 entry.2 acc) acc) ↔
        key ∈ keys acc ∨ key ∈ keys entries := by
    induction entries with
    | nil => simp [keys]
    | cons entry rest ih =>
      intro acc
      rw [List.foldl_cons, ih, mem_keys_insert]
      simp only [keys, List.map_cons, List.mem_cons]
      grind
  rw [ofList, hfold]
  simp [keys]

/-- Among pairs with different keys each value is found at its key. -/
theorem find?_ofList_of_mem {α : Type u} {key : String} {value : α}
    {entries : List (String × α)} (hnodup : (keys entries).Nodup)
    (h : (key, value) ∈ entries) : find? key (ofList entries) = some value := by
  have hkeep : ∀ (later acc : List (String × α)), key ∉ keys later →
      find? key (later.foldl (fun acc entry => insert entry.1 entry.2 acc) acc) =
        find? key acc := by
    intro later
    induction later with
    | nil => exact fun acc _ => rfl
    | cons entry rest ih =>
      intro acc hnew
      obtain ⟨hne, hrest⟩ := not_or.1 (mt List.mem_cons.2 hnew)
      rw [List.foldl_cons, ih _ hrest, find?_insert, if_neg (Ne.symm hne)]
  have hfold : ∀ acc : List (String × α),
      find? key (entries.foldl (fun acc entry => insert entry.1 entry.2 acc) acc) =
        some value := by
    induction entries with
    | nil => cases h
    | cons entry rest ih =>
      intro acc
      obtain ⟨hnew, hrest⟩ := List.nodup_cons.1 hnodup
      rw [List.foldl_cons]
      rcases List.mem_cons.1 h with rfl | hlater
      · rw [hkeep rest _ hnew, find?_insert, if_pos rfl]
      · exact ih hrest hlater _
  exact hfold []

/-- What is found among the values of some names, where not every name has one. -/
theorem find?_filterMap {α : Type u} (value? : String → Option α) (names : List String)
    (key : String) :
    find? key (names.filterMap fun name => (value? name).map fun value => (name, value)) =
      if key ∈ names then value? key else none := by
  induction names with
  | nil => rfl
  | cons name rest ih =>
    by_cases hname : name = key
    · subst hname
      cases hvalue : value? name with
      | none => simp [hvalue, ih]
      | some value => simp [hvalue, find?]
    · have hne : key ≠ name := Ne.symm hname
      cases hvalue : value? name with
      | none => simp [hvalue, ih, hne]
      | some value => simp [hvalue, find?, ih, hname, hne]

/-- What is found among the values of some names. -/
theorem find?_map {α : Type u} (value : String → α) {names : List String} {key : String}
    (h : key ∈ names) :
    find? key (names.map fun name => (name, value name)) = some (value key) := by
  have := find?_filterMap (fun name => some (value name)) names key
  simpa [h] using this

/-- What is found at a key once each value is replaced. -/
theorem find?_mapValues {α : Type u} {β : Type v} (f : String → α → β) (key : String)
    (entries : List (String × α)) :
    find? key (mapValues f entries) = (find? key entries).map (f key) := by
  induction entries with
  | nil => rfl
  | cons entry rest ih =>
    obtain ⟨k, v⟩ := entry
    by_cases h : k = key
    · simp [mapValues, find?, h]
    · simpa [mapValues, find?, h] using ih

/-- A list of names as a set: ascending, without repetition. -/
def nameSet (names : List String) : List String :=
  keys (ofList (names.map fun name => (name, ())))

/-- A list and its set have the same names. -/
@[simp] theorem mem_nameSet {name : String} {names : List String} :
    name ∈ nameSet names ↔ name ∈ names := by
  rw [nameSet, mem_keys_ofList, keys, List.map_map]
  simp

end SchemaSets.Keyed
