import SchemaSets.Toml.Lexeme

/-!
# Reading TOML

A document is read line by line: a header opens a table or adds one to a list
of tables, and any other line sets a value at a key of the table that is open.
Keys with points in them go down into inner tables.

A table may be mentioned in several ways, but opened only once and set to a
value only once.  So the reader keeps for every table how it came about: by a
header of its own, on the way of another header, or on the way of a key with
points.  The last may only be reopened by further keys with points, the second
may still get a header of its own.
-/

namespace SchemaSets.Toml

/-- How a table came about. -/
inductive Origin
  | opened
  | passed
  | pointed
deriving DecidableEq, Repr

/-- What a key leads to while a document is read: a value that is complete, a
table, or a list of tables with the last one apart. -/
inductive Node
  | value (toml : Toml)
  | table (origin : Origin) (entries : List (String × Node))
  | tables (earlier : List (List (String × Node))) (last : List (String × Node))

/-- The entries of a table while a document is read. -/
abbrev Entries := List (String × Node)

/-- Goes down a list of keys and changes the table at its end.  Tables that are
missing are made on the way. -/
def alter (made : Origin) (change : Origin → Entries → Option Entries) :
    List String → Origin → Entries → Option Entries
  | [], origin, entries => change origin entries
  | key :: rest, _, entries =>
    match Keyed.find? key entries with
    | none =>
      (alter made change rest made []).map fun inner =>
        Keyed.insert key (.table made inner) entries
    | some (.table origin inner) =>
      if made = .pointed ∧ origin = .opened then none
      else
        (alter made change rest origin inner).map fun inner =>
          Keyed.insert key (.table origin inner) entries
    | some (.tables earlier last) =>
      (alter made change rest .opened last).map fun last =>
        Keyed.insert key (.tables earlier last) entries
    | some (.value _) => none

/-- Sets a value at a key with points, in an open table. -/
def setAt (keys : List String) (toml : Toml) (entries : Entries) : Option Entries :=
  match keys.getLast? with
  | none => none
  | some key =>
    alter .pointed
      (fun origin entries =>
        if (origin == .pointed) == (keys.length == 1) || Keyed.contains key entries then none
        else some (Keyed.insert key (.value toml) entries))
      keys.dropLast .opened entries

/-- Opens a table. -/
def openTable (header : List String) (entries : Entries) : Option Entries :=
  match header.getLast? with
  | none => none
  | some key =>
    alter .passed
      (fun _ entries =>
        match Keyed.find? key entries with
        | none => some (Keyed.insert key (.table .opened []) entries)
        | some (.table .passed inner) => some (Keyed.insert key (.table .opened inner) entries)
        | some _ => none)
      header.dropLast .opened entries

/-- Adds a table to a list of tables. -/
def addTable (header : List String) (entries : Entries) : Option Entries :=
  match header.getLast? with
  | none => none
  | some key =>
    alter .passed
      (fun _ entries =>
        match Keyed.find? key entries with
        | none => some (Keyed.insert key (.tables [] []) entries)
        | some (.tables earlier last) =>
          some (Keyed.insert key (.tables (earlier ++ [last]) []) entries)
        | some _ => none)
      header.dropLast .opened entries

mutual
/-- The value of a node that is complete. -/
def Node.toToml : Node → Toml
  | .value toml => toml
  | .table _ entries => .table (tomlOfEntries entries)
  | .tables earlier last => .array (tomlOfTables earlier ++ [.table (tomlOfEntries last)])
/-- The entries of a table that is complete. -/
def tomlOfEntries : List (String × Node) → List (String × Toml)
  | [] => []
  | (key, node) :: rest => (key, node.toToml) :: tomlOfEntries rest
/-- The tables of a list that is complete. -/
def tomlOfTables : List (List (String × Node)) → List Toml
  | [] => []
  | entries :: rest => .table (tomlOfEntries entries) :: tomlOfTables rest
end

/-- How many lists and inline tables may lie inside one another. -/
def levelLimit : Nat := 79

mutual
/-- A value. -/
def readValue : Nat → Nat → List Char → Option (Toml × List Char)
  | 0, _, _ => none
  | fuel + 1, levels, cs =>
    match cs with
    | [] => none
    | c :: rest =>
      if c = '[' then
        match levels with
        | 0 => none
        | levels + 1 =>
          (readItems fuel levels rest).map fun (items, rest) => (.array items, rest)
      else if c = '\x7b' then
        match levels with
        | 0 => none
        | levels + 1 =>
          match skipBlanks rest with
          | '\x7d' :: rest => some (.table [], rest)
          | rest =>
            (readPairs fuel levels [] rest).map fun (entries, rest) =>
              (.table (tomlOfEntries entries), rest)
      else if c = '"' ∨ c = '\'' then
        (readString (c :: rest)).map fun (text, rest) => (.string text, rest)
      else if c = 't' ∨ c = 'f' then readBoolean (c :: rest)
      else readNumber (c :: rest)
/-- The items of a list after its bracket or a comma. -/
def readItems : Nat → Nat → List Char → Option (List Toml × List Char)
  | 0, _, _ => none
  | fuel + 1, levels, cs => do
    match ← skipGaps false cs with
    | ']' :: rest => some ([], rest)
    | cs => do
      let (item, rest) ← readValue fuel levels cs
      match ← skipGaps false rest with
      | ',' :: rest => do
        let (more, rest) ← readItems fuel levels rest
        some (item :: more, rest)
      | ']' :: rest => some ([item], rest)
      | _ => none
/-- The pairs of an inline table after its brace or a comma. -/
def readPairs : Nat → Nat → Entries → List Char → Option (Entries × List Char)
  | 0, _, _, _ => none
  | fuel + 1, levels, entries, cs => do
    let (keys, rest) ← readKey cs
    let rest ← expect ['='] rest
    let (toml, rest) ← readValue fuel levels (skipBlanks rest)
    let entries ← setAt keys toml entries
    match skipBlanks rest with
    | ',' :: rest => readPairs fuel levels entries rest
    | '\x7d' :: rest => some (entries, rest)
    | _ => none
end

/-- One line of a document, `header` being the table that is open. -/
def readLine (header : List String) (root : Entries) (cs : List Char) :
    Option (List String × Entries × List Char) := do
  match cs with
  | '[' :: '[' :: rest => do
    let (keys, rest) ← readKey rest
    let rest ← endLine false (← expect [']', ']'] rest)
    some (keys, ← addTable keys root, rest)
  | '[' :: rest => do
    let (keys, rest) ← readKey rest
    let rest ← endLine false (← expect [']'] rest)
    some (keys, ← openTable keys root, rest)
  | cs => do
    let (keys, rest) ← readKey cs
    let rest := skipBlanks (← expect ['='] rest)
    let (toml, rest) ← readValue (rest.length + 1) levelLimit rest
    let rest ← endLine false rest
    let root ← alter .passed (fun _ entries => setAt keys toml entries) header .opened root
    some (header, root, rest)

/-- The lines of a document. -/
def readLines : Nat → List String → Entries → List Char → Option Entries
  | 0, _, _, _ => none
  | fuel + 1, header, root, cs =>
    match skipGaps false cs with
    | none => none
    | some [] => some root
    | some cs => do
      let (header, root, rest) ← readLine header root cs
      readLines fuel header root rest

/-- The entries of a document.  A byte order mark at its start is passed over. -/
def parse (text : String) : Option (List (String × Toml)) :=
  let cs := match text.toList with
    | '\ufeff' :: rest => rest
    | cs => cs
  (readLines (cs.length + 1) [] [] cs).map tomlOfEntries

end SchemaSets.Toml
