import SchemaSets.Json.Fault
import SchemaSets.Text.Quoted

/-!
# What can go wrong

A value that does not fit its schema is not an error: it is what a report is
for.  The errors are documents that are not schemas, names that cannot be
looked up, and what the surroundings (files, configuration, the engine that
checks instances) refuse.

Each error keeps its cause; `message` is the one place where causes become
words.

Computations that may fail run one after another, and the first failure ends
them.  What a run of two came to tells what each of them came to.
-/

namespace SchemaSets

/-- A run of two that succeeds is one of two that succeed. -/
theorem bind_eq_ok_iff {ε α β : Type} {x : Except ε α} {f : α → Except ε β} {b : β} :
    x >>= f = .ok b ↔ ∃ a, x = .ok a ∧ f a = .ok b := by
  cases x <;> simp [bind, Except.bind]

/-- A run of two fails where the first of them to fail does. -/
theorem bind_eq_error_iff {ε α β : Type} {x : Except ε α} {f : α → Except ε β} {e : ε} :
    x >>= f = .error e ↔ x = .error e ∨ ∃ a, x = .ok a ∧ f a = .error e := by
  cases x <;> simp [bind, Except.bind]

/-- What is done to the result of a run of two is done to that of the second. -/
theorem map_bind_eq {ε α β γ : Type} (x : Except ε α) (f : α → Except ε β) (g : β → γ) :
    (x >>= f).map g = x >>= fun a => (f a).map g := by
  cases x <;> rfl

/-- A run whose second part always succeeds changes the result of the first. -/
theorem bind_ok_eq_map {ε α β : Type} (x : Except ε α) (f : α → β) :
    (x >>= fun a => .ok (f a)) = x.map f := by
  cases x <;> rfl

/-- Two changes of a result are one. -/
theorem map_map_eq {ε α β γ : Type} (x : Except ε α) (f : α → β) (g : β → γ) :
    (x.map f).map g = x.map fun a => g (f a) := by
  cases x <;> rfl

/-- What is done to the error of a run of two is done to that of each. -/
theorem mapError_bind_eq {ε α β : Type} (x : Except ε α) (f : α → Except ε β) (g : ε → ε) :
    (x >>= f).mapError g = x.mapError g >>= fun a => (f a).mapError g := by
  cases x <;> rfl

/-- What is done to the error and what is done to the result do not meddle. -/
theorem mapError_map_eq {ε α β : Type} (x : Except ε α) (f : α → β) (g : ε → ε) :
    (x.map f).mapError g = (x.mapError g).map f := by
  cases x <;> rfl

/-- Runs that come to the same with their errors left as they are are equal. -/
theorem eq_of_mapError_id {ε α : Type} {x y : Except ε α} (h : x.mapError id = y.mapError id) :
    x = y := by
  cases x <;> cases y <;> exact h

/-- Why a reference could not be followed. -/
inductive ReferenceError
  | unresolved (target owner : String) (known : List String)
  | unavailable (target : String)
deriving DecidableEq, Repr

/-- The words for a reference that could not be followed. -/
def ReferenceError.message : ReferenceError → String
  | .unresolved target owner known =>
    "Unresolved reference '" ++ target ++ "' in '" ++ owner ++ "'; known schemas: [" ++
      ", ".intercalate known ++ "]"
  | .unavailable target =>
    "Reference '" ++ target ++
      "' used while its compiled set is unavailable (under construction or dropped)"

/-- An error of the library. -/
inductive SchemaError
  | malformedElement (name path detail : String)
  | notAnObject (context : String)
  | reference (cause : ReferenceError)
  | unknownEntry (name : String)
  | rejectedDocument (reason : String)
  | file (reason : String)
  | text (cause : Json.TextError)
  | settings (reason : String)
deriving DecidableEq, Repr

namespace SchemaError

/-- The words for an error. -/
def message : SchemaError → String
  | .malformedElement name path detail =>
    "Malformed schema element '" ++ name ++ "' at " ++ path ++ ": " ++ detail
  | .notAnObject context => "Expected a JSON object for " ++ context
  | .reference cause => cause.message
  | .unknownEntry name => "Schema not found: " ++ name
  | .rejectedDocument reason => "JSON Schema engine rejected document: " ++ reason
  | .file reason => "IO error: " ++ reason
  | .text cause => "JSON error: " ++ cause.message
  | .settings reason => "Configuration error: " ++ reason

/-- The words of the failure behind an error, where there is one. -/
def cause? : SchemaError → Option String
  | .file reason => some reason
  | .text cause => some cause.message
  | .settings reason => some reason
  | _ => none

/-- An error followed by the failure behind it, as a command reports it. -/
def chain (e : SchemaError) : String :=
  match e.cause? with
  | some cause => e.message ++ ": " ++ cause
  | none => e.message

/-- A name followed by named texts, all quoted. -/
def outlineOf (name : String) (fields : List (String × String)) : String :=
  name ++ " \x7b " ++ ", ".intercalate (fields.map fun f => f.1 ++ ": " ++ f.2) ++ " \x7d"

/-- The fields of an error, for a reader who debugs. -/
def outline : SchemaError → String
  | .malformedElement name path detail => outlineOf "MalformedElement"
      [("name", Text.quote name), ("path", Text.quote path), ("message", Text.quote detail)]
  | .notAnObject context => outlineOf "NotAnObject" [("context", Text.quote context)]
  | .reference (.unresolved target owner known) => outlineOf "UnresolvedReference"
      [("reference", Text.quote target), ("from", Text.quote owner),
       ("known", Text.quoteList known)]
  | .reference (.unavailable target) =>
    outlineOf "RegistryUnavailable" [("reference", Text.quote target)]
  | .unknownEntry name => outlineOf "UnknownEntry" [("name", Text.quote name)]
  | .rejectedDocument reason => "JsonSchema(" ++ Text.quote reason ++ ")"
  | .file _ => "Io"
  | .text _ => "Json"
  | .settings _ => "Config"

end SchemaError
end SchemaSets
