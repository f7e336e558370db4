import SchemaSets.Keyed

/-!
# TOML values

The values of a TOML document: texts, numbers, booleans, moments in time,
lists, and tables in key order.  A moment is kept as its written form.
-/

namespace SchemaSets

/-- A TOML value. -/
inductive Toml
  | string (text : String)
  | integer (value : Int)
  | float (value : Float)
  | boolean (value : Bool)
  | moment (text : String)
  | array (items : List Toml)
  | table (entries : List (String × Toml))

namespace Toml

instance : Inhabited Toml := ⟨.table []⟩

/-- The entries of a table; any other value has none. -/
def entries : Toml → List (String × Toml)
  | .table entries => entries
  | _ => []

/-- The items of a list; any other value has none. -/
def items : Toml → List Toml
  | .array items => items
  | _ => []

end Toml
end SchemaSets
