import SchemaSets.Value
import SchemaSets.Text.Quoted

/-!
# Reports

The outcome of checking a value: a list of issues, none if the value fits.  An
issue says where in the value something is amiss, what was expected there and
what was found.  Issues keep the place as a path and the other two as causes;
the words come last.
-/

namespace SchemaSets

/-- A step from a value to a value inside it. -/
inductive Segment
  | field (name : String)
  | index (position : Nat)
  | key (name : String)
deriving DecidableEq, Repr

/-- A step in words: fields by name, items by position, record keys quoted. -/
def Segment.text : Segment → String
  | .field name => "." ++ name
  | .index position => "[" ++ toString position ++ "]"
  | .key name => "[" ++ Text.quote name ++ "]"

/-- A way from a value to a value inside it. -/
abbrev Path := List Segment

/-- A path in words. -/
def Path.text : Path → String
  | [] => "<root>"
  | path => String.join (path.map Segment.text)

/-- What a validator asks for. -/
inductive Expectation
  | literal (text : String)
  | boolean
  | string
  | number
  | oneOf (values : List String)
  | object
  | array
  | record
  | oneBranchOf (count : Nat)
  | function
  | reference (target : String)
  | noSuchAttribute
deriving DecidableEq, Repr

/-- An expectation in words. -/
def Expectation.text : Expectation → String
  | .literal text => "literal " ++ Text.quote text
  | .boolean => "boolean"
  | .string => "string"
  | .number => "number"
  | .oneOf values => "one of " ++ Text.quoteList values
  | .object => "object"
  | .array => "array"
  | .record => "record"
  | .oneBranchOf count => "one of " ++ toString count ++ " union branches"
  | .function => "function"
  | .reference target => "ref(" ++ target ++ ")"
  | .noSuchAttribute => "no such attribute"

/-- What was there instead. -/
inductive Finding
  | slot (slot : Slot)
  | referenceCycle
  | unexpectedAttribute

/-- A finding in words. -/
def Finding.text : Finding → String
  | .slot held => held.summary
  | .referenceCycle => "reference cycle"
  | .unexpectedAttribute => "unexpected attribute"

/-- One mismatch between a value and a validator. -/
structure Issue where
  path : Path
  expected : Expectation
  found : Finding

/-- A mismatch at the value itself. -/
def Issue.here (expected : Expectation) (slot : Slot) : Issue := ⟨[], expected, .slot slot⟩

/-- A mismatch inside a value, seen from the value around it. -/
def Issue.under (segment : Segment) (issue : Issue) : Issue :=
  { issue with path := segment :: issue.path }

/-- An issue in words. -/
def Issue.text (issue : Issue) : String :=
  issue.path.text ++ ": expected " ++ issue.expected.text ++ ", found " ++ issue.found.text

/-- The outcome of checking a value. -/
structure Report where
  issues : List Issue

/-- Whether the value fits. -/
def Report.isValid (report : Report) : Bool := report.issues.isEmpty

/-- A report in words: one line for each issue. -/
def Report.text (report : Report) : String :=
  match report.issues with
  | [] => "valid"
  | issues => "\n".intercalate (issues.map Issue.text)

end SchemaSets
